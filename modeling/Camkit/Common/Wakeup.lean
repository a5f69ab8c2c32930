import Camkit.Common.Machine
/-!
# Sleeping on flags

A thread that looks for something in a state it shares with others, sleeps
where it does not find it, and is woken by a flag the others set. What holds
of its place and of the state together is shown for each of its steps and for
each step of the others, and holds then of every run of the thread beside
them. That no wake-up is lost is such an invariant: a thread that sleeps
although what it looks for is there has a flag set.
-/

namespace Camkit

/-- Where a thread that waits is. -/
inductive Phase (P R : Type*) where
  /-- about to take a step of its search -/
  | looking (p : P)
  /-- asleep, to go on with its search from there -/
  | asleep (p : P)
  | done (r : R)
  deriving DecidableEq, Repr

/-- A thread that waits, by its steps. -/
structure Waiter (S P R : Type*) where
  /-- a step of the search; `none` is a fault -/
  look : P → S → Option (S × Phase P R)
  /-- one of the flags it sleeps on is set -/
  Signalled : S → Prop
  /-- it wakes, and takes the flags -/
  wake : P → S → S × Phase P R

/-- Whose turn it is. -/
inductive Turn (E : Type*) where
  | other (e : E)
  | look
  | wake
  deriving DecidableEq, Repr

variable {S E O P R : Type*}

/-- A machine with a thread that waits beside those who use it. -/
def Machine.beside (A : Machine S E O) (w : Waiter S P R) [DecidablePred w.Signalled] :
    Machine (S × Phase P R) (Turn E) (Option O) where
  step
    | (s, ph), .other e => (A.step s e).map fun r => ((r.1, ph), some r.2)
    | (s, .looking p), .look => (w.look p s).map fun r => (r, none)
    | (s, .asleep p), .wake => if w.Signalled s then some (w.wake p s, none) else none
    | _, _ => none

variable {A : Machine S E O} {w : Waiter S P R} {Allowed : E → Prop} {p : P}
variable {I : Phase P R → S → Prop} {s s' s'' : S} {ph ph' : Phase P R} {turns : List (Turn E)}
variable {outs : List (Option O)}

namespace Waiter

variable [DecidablePred w.Signalled]

/-- A look, and the run that goes on from there. -/
theorem run_look (hlook : w.look p s = some (s', ph))
    (hrun : (A.beside w).run (s', ph) turns = some ((s'', ph'), outs)) :
    (A.beside w).run (s, .looking p) (.look :: turns) = some ((s'', ph'), none :: outs) := by
  refine Machine.run_cons.mpr ⟨(s', ph), none, outs, ?_, hrun, rfl⟩
  change (w.look p s).map _ = _
  rw [hlook]
  rfl

/-- The thread is woken, and the run that goes on from there. -/
theorem run_wake (hsig : w.Signalled s) (hwake : w.wake p s = (s', ph))
    (hrun : (A.beside w).run (s', ph) turns = some ((s'', ph'), outs)) :
    (A.beside w).run (s, .asleep p) (.wake :: turns) = some ((s'', ph'), none :: outs) :=
  Machine.run_cons.mpr ⟨w.wake p s, none, outs, if_pos hsig, hwake ▸ hrun, rfl⟩

omit [DecidablePred w.Signalled] in
/-- **An invariant of a wait**: of the place of the thread and the state, kept
by each step of its own and by each step of the others that is allowed. -/
structure Sound (A : Machine S E O) (w : Waiter S P R) (Allowed : E → Prop)
    (I : Phase P R → S → Prop) : Prop where
  look : ∀ p s s' ph, I (.looking p) s → w.look p s = some (s', ph) → I ph s'
  wake : ∀ p s s' ph, I (.asleep p) s → w.Signalled s → w.wake p s = (s', ph) → I ph s'
  other : ∀ ph s e s' o, I ph s → Allowed e → A.step s e = some (s', o) → I ph s'

/-- **It holds throughout** every run of the thread beside such others. -/
theorem Sound.run_sound (hw : Sound A w Allowed I) (hs : I ph s)
    (hturns : ∀ e, .other e ∈ turns → Allowed e)
    (hrun : (A.beside w).run (s, ph) turns = some ((s', ph'), outs)) : I ph' s' := by
  have hstep : ∀ (t : S × Phase P R) (e : Turn E) (t' : S × Phase P R) (o : Option O),
      I t.2 t.1 → (∀ op, e = .other op → Allowed op) → (A.beside w).step t e = some (t', o) →
      I t'.2 t'.1 ∧ True := by
    rintro ⟨s, ph⟩ e ⟨s', ph'⟩ o hs hallowed hstep
    refine ⟨?_, trivial⟩
    cases e with
    | other op =>
      obtain ⟨⟨s₁, o₁⟩, hop, heq⟩ := Option.map_eq_some_iff.mp hstep
      obtain ⟨heq, -⟩ := Prod.mk.inj heq
      obtain ⟨rfl, rfl⟩ := Prod.mk.inj heq
      exact hw.other ph s op s₁ o₁ hs (hallowed op rfl) hop
    | look =>
      cases ph with
      | looking p =>
        obtain ⟨r, hlook, heq⟩ := Option.map_eq_some_iff.mp hstep
        obtain ⟨rfl, -⟩ := Prod.mk.inj heq
        exact hw.look p s s' ph' hs hlook
      | asleep p => exact absurd hstep (by simp [Machine.beside])
      | done r => exact absurd hstep (by simp [Machine.beside])
    | wake =>
      cases ph with
      | looking p => exact absurd hstep (by simp [Machine.beside])
      | asleep p =>
        by_cases hsig : w.Signalled s
        · obtain ⟨hwake, -⟩ := Prod.mk.inj (Option.some.inj ((if_pos hsig).symm.trans hstep))
          exact hw.wake p s s' ph' hs hsig hwake
        · exact absurd ((if_neg hsig).symm.trans hstep) (by simp)
      | done r => exact absurd hstep (by simp [Machine.beside])
  exact (Machine.run_forall (Q := fun _ => True) hstep hs
    (fun e he op heq => hturns op (heq ▸ he)) hrun).1

end Waiter

end Camkit
