import Mathlib.Data.List.Forall2
import Mathlib.Data.List.Induction
/-!
# Machines and their runs

A machine answers each event with an output, and may refuse one. A run is
the list of its outputs on a list of events. What holds of every run is
shown one event at a time: `run_induction` for a property of the history
and the state, `run_exists` for machines that never refuse, and
`run_simulation` for two machines run on the same events.
-/

namespace Camkit

/-- A machine with states `S`, events `E` and outputs `O`; `none` is an
event that cannot happen in the state. -/
structure Machine (S E O : Type*) where
  step : S → E → Option (S × O)

namespace Machine

variable {S S' E O O' : Type*}

/-- The state a list of events leads to, with the outputs on the way. -/
def run (A : Machine S E O) : S → List E → Option (S × List O)
  | s, [] => some (s, [])
  | s, e :: es =>
    match A.step s e with
    | none => none
    | some (s', o) =>
      match A.run s' es with
      | none => none
      | some (s'', os) => some (s'', o :: os)

/-- `P` holds at every step of the run on a list of events, up to the first
event that is refused and there too. -/
def Along (A : Machine S E O) (P : S → E → Prop) : S → List E → Prop
  | _, [] => True
  | s, e :: es => P s e ∧ ∀ s' o, A.step s e = some (s', o) → A.Along P s' es

variable {A : Machine S E O} {B : Machine S' E O'} {s s' s₀ : S} {e : E} {o : O} {es es' : List E}
variable {os os' : List O}

theorem run_cons : A.run s (e :: es) = some (s', os') ↔
    ∃ s₁ o os, A.step s e = some (s₁, o) ∧ A.run s₁ es = some (s', os) ∧ os' = o :: os := by
  rw [run]
  constructor
  · intro h
    split at h
    · exact absurd h (by simp)
    · rename_i s₁ o hstep
      split at h
      · exact absurd h (by simp)
      · rename_i s₂ os hrun
        obtain ⟨rfl, rfl⟩ := Prod.mk.inj (Option.some.inj h)
        exact ⟨s₁, o, os, hstep, hrun, rfl⟩
  · rintro ⟨s₁, o, os, hstep, hrun, rfl⟩
    rw [hstep]
    simp only [hrun]

/-- A run of a list is a run of its first part and then of its second. -/
theorem run_append : A.run s (es ++ es') = some (s', os') ↔
    ∃ s₁ os₁ os₂, A.run s es = some (s₁, os₁) ∧ A.run s₁ es' = some (s', os₂) ∧
      os' = os₁ ++ os₂ := by
  induction es generalizing s os' with
  | nil =>
    constructor
    · intro h
      exact ⟨s, [], os', rfl, h, rfl⟩
    · rintro ⟨s₁, os₁, os₂, h₁, h₂, rfl⟩
      obtain ⟨rfl, rfl⟩ := Prod.mk.inj (Option.some.inj h₁)
      exact h₂
  | cons e es ih =>
    rw [List.cons_append, run_cons]
    constructor
    · rintro ⟨s₁, o, os, hstep, hrun, rfl⟩
      obtain ⟨s₂, os₁, os₂, h₁, h₂, rfl⟩ := ih.mp hrun
      exact ⟨s₂, o :: os₁, os₂, run_cons.mpr ⟨s₁, o, os₁, hstep, h₁, rfl⟩, h₂, rfl⟩
    · rintro ⟨s₂, os₁, os₂, h₁, h₂, rfl⟩
      obtain ⟨s₁, o, os, hstep, hrun, rfl⟩ := run_cons.mp h₁
      exact ⟨s₁, o, os ++ os₂, hstep, ih.mpr ⟨s₂, os, os₂, hrun, h₂, rfl⟩, rfl⟩

/-- A run and one event more. -/
theorem run_concat : A.run s (es ++ [e]) = some (s', os') ↔
    ∃ s₁ os o, A.run s es = some (s₁, os) ∧ A.step s₁ e = some (s', o) ∧ os' = os ++ [o] := by
  rw [run_append]
  constructor
  · rintro ⟨s₁, os₁, os₂, h₁, h₂, rfl⟩
    obtain ⟨s₂, o, os, hstep, hrun, rfl⟩ := run_cons.mp h₂
    obtain ⟨rfl, rfl⟩ := Prod.mk.inj (Option.some.inj hrun)
    exact ⟨s₁, os₁, o, h₁, hstep, rfl⟩
  · rintro ⟨s₁, os, o, h₁, hstep, rfl⟩
    exact ⟨s₁, os, [o], h₁, run_cons.mpr ⟨s', o, [], hstep, rfl, rfl⟩, rfl⟩

/-- A run splits where its outputs do. -/
theorem run_output_append {os₁ os₂ : List O} (hrun : A.run s es = some (s', os₁ ++ os₂)) :
    ∃ es₁ es₂ s₁, es = es₁ ++ es₂ ∧ A.run s es₁ = some (s₁, os₁) ∧
      A.run s₁ es₂ = some (s', os₂) := by
  induction os₁ generalizing s es with
  | nil => exact ⟨[], es, s, rfl, rfl, hrun⟩
  | cons o os₁ ih =>
    cases es with
    | nil => exact absurd (Prod.mk.inj (Option.some.inj hrun)).2 (by simp)
    | cons e es =>
      obtain ⟨s₁, o', os, hstep, hrest, heq⟩ := run_cons.mp hrun
      obtain ⟨rfl, rfl⟩ := List.cons.inj heq
      obtain ⟨es₁, es₂, s₂, rfl, hrun₁, hrun₂⟩ := ih hrest
      exact ⟨e :: es₁, es₂, s₂, rfl, run_cons.mpr ⟨s₁, o, os₁, hstep, hrun₁, rfl⟩, hrun₂⟩

/-- **Induction over a run.** What holds of no history at all, and of a
history and one more event if it holds of the history, holds of every
run. -/
theorem run_induction {I : List E → List O → S → Prop} (hinit : I [] [] s₀)
    (hstep : ∀ es os s e s' o, I es os s → A.step s e = some (s', o) →
      I (es ++ [e]) (os ++ [o]) s')
    (hrun : A.run s₀ es = some (s, os)) : I es os s := by
  induction es using List.reverseRecOn generalizing s os with
  | nil =>
    obtain ⟨rfl, rfl⟩ := Prod.mk.inj (Option.some.inj hrun)
    exact hinit
  | append_singleton es e ih =>
    obtain ⟨s₁, os, o, h₁, h₂, rfl⟩ := run_concat.mp hrun
    exact hstep es os s₁ e s o (ih h₁) h₂

/-- **An invariant** holds wherever a run leads. -/
theorem run_invariant {I : S → Prop} (hinit : I s₀)
    (hstep : ∀ s e s' o, I s → A.step s e = some (s', o) → I s')
    (hrun : A.run s₀ es = some (s, os)) : I s :=
  run_induction (I := fun _ _ s => I s) hinit (fun _ _ s e s' o => hstep s e s' o) hrun

/-- **An invariant and the outputs**: where the events allowed keep `I` and
yield `Q`, a run of them does. -/
theorem run_forall {I : S → Prop} {P : E → Prop} {Q : O → Prop}
    (hstep : ∀ s e s' o, I s → P e → A.step s e = some (s', o) → I s' ∧ Q o) (hs : I s)
    (hes : ∀ e ∈ es, P e) (hrun : A.run s es = some (s', os)) : I s' ∧ ∀ o ∈ os, Q o := by
  induction es generalizing s os with
  | nil =>
    obtain ⟨rfl, rfl⟩ := Prod.mk.inj (Option.some.inj hrun)
    exact ⟨hs, fun o ho => absurd ho List.not_mem_nil⟩
  | cons e es ih =>
    obtain ⟨s₁, o, os, hfirst, hrest, rfl⟩ := run_cons.mp hrun
    obtain ⟨he, hes⟩ := List.forall_mem_cons.mp hes
    obtain ⟨hs₁, ho⟩ := hstep s e s₁ o hs he hfirst
    obtain ⟨hs', hos⟩ := ih hs₁ hes hrest
    exact ⟨hs', List.forall_mem_cons.mpr ⟨ho, hos⟩⟩

/-- **A machine whose invariant lets every event happen** has a run on
every list of events. -/
theorem run_exists {I : S → Prop} (hstep : ∀ s e, I s → ∃ s' o, A.step s e = some (s', o) ∧ I s')
    (hs : I s) (es : List E) : ∃ s' os, A.run s es = some (s', os) ∧ I s' := by
  induction es generalizing s with
  | nil => exact ⟨s, [], rfl, hs⟩
  | cons e es ih =>
    obtain ⟨s₁, o, h₁, hs₁⟩ := hstep s e hs
    obtain ⟨s₂, os, h₂, hs₂⟩ := ih hs₁
    exact ⟨s₂, o :: os, run_cons.mpr ⟨s₁, o, os, h₁, h₂, rfl⟩, hs₂⟩

/-- The same where only some events are sure to happen. -/
theorem run_exists_forall {I : S → Prop} {P : E → Prop}
    (hstep : ∀ s e, I s → P e → ∃ s' o, A.step s e = some (s', o) ∧ I s')
    (hs : I s) (hes : ∀ e ∈ es, P e) : ∃ s' os, A.run s es = some (s', os) ∧ I s' := by
  induction es generalizing s with
  | nil => exact ⟨s, [], rfl, hs⟩
  | cons e es ih =>
    obtain ⟨he, hes⟩ := List.forall_mem_cons.mp hes
    obtain ⟨s₁, o, h₁, hs₁⟩ := hstep s e hs he
    obtain ⟨s₂, os, h₂, hs₂⟩ := ih hs₁ hes
    exact ⟨s₂, o :: os, run_cons.mpr ⟨s₁, o, os, h₁, h₂, rfl⟩, hs₂⟩

/-- **Simulation.** Where each event of `A` can happen in `B`, with
related outputs and between related states, so can each run. -/
theorem run_simulation {R : S → S' → Prop} {Q : O → O' → Prop} {t : S'}
    (hstep : ∀ s t e s' o, R s t → A.step s e = some (s', o) →
      ∃ t' o', B.step t e = some (t', o') ∧ R s' t' ∧ Q o o')
    (hR : R s t) (hrun : A.run s es = some (s', os)) :
    ∃ t' os', B.run t es = some (t', os') ∧ R s' t' ∧ List.Forall₂ Q os os' := by
  induction es generalizing s t os with
  | nil =>
    obtain ⟨rfl, rfl⟩ := Prod.mk.inj (Option.some.inj hrun)
    exact ⟨t, [], rfl, hR, List.Forall₂.nil⟩
  | cons e es ih =>
    obtain ⟨s₁, o, os, h₁, h₂, rfl⟩ := run_cons.mp hrun
    obtain ⟨t₁, o', ht₁, hR₁, hQ⟩ := hstep s t e s₁ o hR h₁
    obtain ⟨t₂, os', ht₂, hR₂, hQs⟩ := ih hR₁ h₂
    exact ⟨t₂, o' :: os', run_cons.mpr ⟨t₁, o', os', ht₁, ht₂, rfl⟩, hR₂,
      List.Forall₂.cons hQ hQs⟩

/-- **A flag that every step submits and clears** is submitted by the first
step of a run alone. -/
theorem run_submits_once (flag : S → Prop) (submits : O → Prop)
    (hsubmits : ∀ s e s' o, A.step s e = some (s', o) → (submits o ↔ flag s) ∧ ¬ flag s')
    (hflag : flag s) (hrun : A.run s (es ++ [e]) = some (s', os ++ [o])) :
    submits o ↔ es = [] := by
  obtain ⟨s₁, os₁, o₁, hrun₁, hstep, heq⟩ := run_concat.mp hrun
  obtain ⟨rfl, ho⟩ := List.append_inj' heq rfl
  obtain rfl := (List.cons.inj ho).1
  rw [(hsubmits _ _ _ _ hstep).1]
  cases es using List.reverseRecOn with
  | nil =>
    obtain ⟨rfl, -⟩ := Prod.mk.inj (Option.some.inj hrun₁)
    exact ⟨fun _ => rfl, fun _ => hflag⟩
  | append_singleton es e' =>
    -- the step before has cleared it
    obtain ⟨s₂, os₂, o₂, -, hstep₂, -⟩ := run_concat.mp hrun₁
    have hclear := (hsubmits _ _ _ _ hstep₂).2
    exact ⟨fun h => absurd h hclear, fun h => absurd h (by simp)⟩

/-! ## What holds along a run -/

theorem along_cons {P : S → E → Prop} : A.Along P s (e :: es) ↔
    P s e ∧ ∀ r ∈ A.step s e, A.Along P r.1 es :=
  and_congr_right fun _ => ⟨fun h r hr => h r.1 r.2 hr, fun h s' o hstep => h (s', o) hstep⟩

instance decidableAlong {P : S → E → Prop} [∀ s e, Decidable (P s e)] :
    ∀ s es, Decidable (A.Along P s es)
  | _, [] => isTrue trivial
  | _, _ :: es =>
    letI : DecidablePred fun r : S × O => A.Along P r.1 es := fun r => decidableAlong r.1 es
    decidable_of_iff _ along_cons.symm

/-- **An invariant and the outputs** where each event is allowed in the state
it happens in. -/
theorem run_along {I : S → Prop} {P : S → E → Prop} {Q : O → Prop}
    (hstep : ∀ s e s' o, I s → P s e → A.step s e = some (s', o) → I s' ∧ Q o) (hs : I s)
    (hes : A.Along P s es) (hrun : A.run s es = some (s', os)) : I s' ∧ ∀ o ∈ os, Q o := by
  induction es generalizing s os with
  | nil =>
    obtain ⟨rfl, rfl⟩ := Prod.mk.inj (Option.some.inj hrun)
    exact ⟨hs, fun o ho => absurd ho List.not_mem_nil⟩
  | cons e es ih =>
    obtain ⟨s₁, o, os, hfirst, hrest, rfl⟩ := run_cons.mp hrun
    obtain ⟨hs₁, ho⟩ := hstep s e s₁ o hs hes.1 hfirst
    obtain ⟨hs', hos⟩ := ih hs₁ (hes.2 s₁ o hfirst) hrest
    exact ⟨hs', List.forall_mem_cons.mpr ⟨ho, hos⟩⟩

/-- **Two properties that an invariant makes equal** hold along the same
runs. -/
theorem along_iff {I : S → Prop} {P Q : S → E → Prop} (hiff : ∀ s e, I s → (P s e ↔ Q s e))
    (hstep : ∀ s e s' o, I s → P s e → A.step s e = some (s', o) → I s') (hs : I s) :
    A.Along P s es ↔ A.Along Q s es := by
  induction es generalizing s with
  | nil => exact Iff.rfl
  | cons e es ih =>
    constructor
    · rintro ⟨hP, hrest⟩
      exact ⟨(hiff s e hs).mp hP, fun s' o h => (ih (hstep s e s' o hs hP h)).mp (hrest s' o h)⟩
    · rintro ⟨hQ, hrest⟩
      have hP := (hiff s e hs).mpr hQ
      exact ⟨hP, fun s' o h => (ih (hstep s e s' o hs hP h)).mpr (hrest s' o h)⟩

end Machine

end Camkit
