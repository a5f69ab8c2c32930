import Camkit.Common.Machine
import Mathlib.Logic.Function.Basic
/-!
# Clients that share a register

Clients of one kind, each with a state of its own, and a register that some
of their events use. A client run among others sees what it sees alone
exactly as long as the register is lent to one client at a time: no client
uses it while another, run alone, would have left it changed.
-/

namespace Camkit

/-- A kind of client: what an event does to its state, where it can happen,
and what it does to the register and yields. -/
structure Client (R L E O : Type*) where
  next : L → E → Option L
  access : L → E → R → R × O

namespace Client

variable {ι R L E O V : Type*}

/-! ## Who holds the register -/

/-- At most one client, run alone, has its register changed, and then the
shared register is that client's. -/
structure Held (r₀ r : R) (own : ι → R) : Prop where
  one : ∀ i j, i ≠ j → own i = r₀ ∨ own j = r₀
  holder : ∀ i, own i ≠ r₀ → r = own i
  free : (∀ i, own i = r₀) → r = r₀

variable {r₀ r r' : R} {own : ι → R} {i j : ι}

/-- A client finds its own register exactly if no other holds it. -/
theorem Held.eq_iff (hheld : Held r₀ r own) (i : ι) : r = own i ↔ ∀ j, j ≠ i → own j = r₀ := by
  constructor
  · intro heq j hne
    by_contra hj
    have hi : own i = r₀ := (hheld.one i j hne.symm).resolve_right hj
    exact hj ((hheld.holder j hj).symm.trans (heq.trans hi))
  · intro hothers
    by_cases hi : own i = r₀
    · have hall : ∀ j, own j = r₀ := by
        intro j
        rcases eq_or_ne j i with rfl | hne
        · exact hi
        · exact hothers j hne
      rw [hheld.free hall, hi]
    · exact hheld.holder i hi

/-! ## The system of clients -/

variable [DecidableEq ι]

/-- Clients on one register. -/
def shared (C : Client R L E O) : Machine (R × (ι → L)) (ι × E) (ι × O) where
  step s x :=
    match C.next (s.2 x.1) x.2 with
    | none => none
    | some l =>
      let r := C.access (s.2 x.1) x.2 s.1
      some ((r.1, Function.update s.2 x.1 l), (x.1, r.2))

/-- What of a list is of one client. -/
def ofClient {α : Type*} (i : ι) (l : List (ι × α)) : List (ι × α) := l.filter fun x => x.1 = i

/-- What a client sees of some outputs. -/
def sees (seen : O → V) (i : ι) (os : List (ι × O)) : List V :=
  (ofClient i os).map fun x => seen x.2

/-- A client run alone has left the register as it was. -/
def Idle (C : Client R L E O) (r₀ : R) (l₀ : L) (es : List (ι × E)) (j : ι) : Prop :=
  ∀ t ts, C.shared.run (r₀, fun _ => l₀) (ofClient j es) = some (t, ts) → t.1 = r₀

/-- No event that uses the register comes while another client is not
idle. -/
def Exclusive (C : Client R L E O) (uses : L → E → Prop) (r₀ : R) (l₀ : L)
    (es : List (ι × E)) : Prop :=
  ∀ es₁ i e s os, es₁ ++ [(i, e)] <+: es →
    C.shared.run (r₀, fun _ => l₀) es₁ = some (s, os) → uses (s.2 i) e →
      ∀ j, j ≠ i → C.Idle r₀ l₀ es₁ j

/-- What the register is to the clients: an event that does not use it
leaves it and shows nothing of it, and one that does shows all of it. `J`
and `G` are what clients and register keep to. -/
structure Reveals (C : Client R L E O) (seen : O → V) (uses : L → E → Prop) (J : L → Prop)
    (G : R → Prop) : Prop where
  next : ∀ l e l', J l → C.next l e = some l' → J l'
  good : ∀ l e r, J l → G r → G (C.access l e r).1
  unused : ∀ l e r, ¬ uses l e → (C.access l e r).1 = r
  hidden : ∀ l e r r', ¬ uses l e → seen (C.access l e r).2 = seen (C.access l e r').2
  shown : ∀ l e r r', J l → uses l e → G r → G r' →
    seen (C.access l e r).2 = seen (C.access l e r').2 → r = r'

variable {C : Client R L E O} {l₀ l : L} {es : List (ι × E)} {os : List (ι × O)}
variable {s : R × (ι → L)} {e : E}

/-- It then holds it itself, or lets it go. -/
theorem held_update (hothers : ∀ j, j ≠ i → own j = r₀) :
    Held r₀ r' (Function.update own i r') := by
  have hne : ∀ j, j ≠ i → Function.update own i r' j = r₀ := by
    intro j hj
    rw [Function.update_of_ne hj]
    exact hothers j hj
  refine ⟨?_, ?_, ?_⟩
  · intro j k hjk
    by_cases hj : j = i
    · exact Or.inr (hne k fun hk => hjk (hj.trans hk.symm))
    · exact Or.inl (hne j hj)
  · intro j hj
    obtain rfl : j = i := by
      by_contra h
      exact hj (hne j h)
    rw [Function.update_self]
  · intro hall
    have hi := hall i
    rwa [Function.update_self] at hi

/-! ## A run, and each client alone -/

theorem ofClient_concat_self {α : Type*} {l : List (ι × α)} {a : α} :
    ofClient i (l ++ [(i, a)]) = ofClient i l ++ [(i, a)] := by
  rw [ofClient, List.filter_append, List.filter_cons_of_pos (by simp)]
  rfl

theorem ofClient_concat_of_ne {α : Type*} {l : List (ι × α)} {a : α} (hne : j ≠ i) :
    ofClient i (l ++ [(j, a)]) = ofClient i l := by
  rw [ofClient, List.filter_append, List.filter_cons_of_neg (by simpa using hne)]
  exact List.append_nil _

theorem shared_step {s' : R × (ι → L)} {o : ι × O} :
    C.shared.step s (i, e) = some (s', o) ↔
      ∃ l, C.next (s.2 i) e = some l ∧
        s' = ((C.access (s.2 i) e s.1).1, Function.update s.2 i l) ∧
        o = (i, (C.access (s.2 i) e s.1).2) := by
  simp only [shared]
  cases C.next (s.2 i) e with
  | none => simp
  | some l =>
    simp only [Option.some.injEq, Prod.mk.injEq, exists_eq_left']
    exact ⟨fun ⟨h₁, h₂⟩ => ⟨h₁.symm, h₂.symm⟩, fun ⟨h₁, h₂⟩ => ⟨h₁.symm, h₂.symm⟩⟩

/-- Client `i` alone: the register and the outputs its own events lead to
from the start, its state being the one it has among the others. -/
def Alone (C : Client R L E O) (r₀ : R) (l₀ : L) (es : List (ι × E)) (s : R × (ι → L)) (i : ι)
    (r : R) (os : List (ι × O)) : Prop :=
  ∃ ls, C.shared.run (r₀, fun _ => l₀) (ofClient i es) = some ((r, ls), os) ∧ ls i = s.2 i

/-- An event of a client, alone. -/
theorem Alone.concat_self {os : List (ι × O)} (hi : Alone C r₀ l₀ es s i r os)
    (hnext : C.next (s.2 i) e = some l) (r' : R) :
    Alone C r₀ l₀ (es ++ [(i, e)]) (r', Function.update s.2 i l) i (C.access (s.2 i) e r).1
      (os ++ [(i, (C.access (s.2 i) e r).2)]) := by
  obtain ⟨ls, hrun, hls⟩ := hi
  rw [← hls] at hnext ⊢
  refine ⟨Function.update ls i l, ?_, ?_⟩
  · rw [ofClient_concat_self]
    exact Machine.run_concat.mpr ⟨_, _, _, hrun, shared_step.mpr ⟨l, hnext, rfl, rfl⟩, rfl⟩
  · have hself : ∀ f : ι → L, Function.update f i l i = l := fun f => Function.update_self ..
    exact (hself ls).trans (hself s.2).symm

/-- An event of another client. -/
theorem Alone.concat_of_ne {os : List (ι × O)} (hi : Alone C r₀ l₀ es s i r os) (hne : j ≠ i)
    (r' : R) : Alone C r₀ l₀ (es ++ [(j, e)]) (r', Function.update s.2 j l) i r os := by
  obtain ⟨ls, hrun, hls⟩ := hi
  refine ⟨ls, ?_, ?_⟩
  · rw [ofClient_concat_of_ne hne]
    exact hrun
  · exact hls.trans (Function.update_of_ne hne.symm ..).symm

theorem Alone.idle_iff {os : List (ι × O)} (hi : Alone C r₀ l₀ es s i r os) :
    C.Idle r₀ l₀ es i ↔ r = r₀ := by
  obtain ⟨ls, hrun, -⟩ := hi
  constructor
  · intro hidle
    exact hidle _ _ hrun
  · rintro rfl t ts hrun'
    obtain ⟨rfl, -⟩ := Prod.mk.inj (Option.some.inj (hrun.symm.trans hrun'))
    rfl

theorem sees_concat_self {seen : O → V} {o : O} :
    sees seen i (os ++ [(i, o)]) = sees seen i os ++ [seen o] := by
  rw [sees, ofClient_concat_self, List.map_append]
  rfl

theorem sees_concat_of_ne {seen : O → V} {o : O} (hne : j ≠ i) :
    sees seen i (os ++ [(j, o)]) = sees seen i os := by
  rw [sees, ofClient_concat_of_ne hne]
  rfl

/-- The last event of a run, for exclusive use. -/
theorem exclusive_concat {uses : L → E → Prop}
    (hrun : C.shared.run (r₀, fun _ => l₀) es = some (s, os)) :
    C.Exclusive uses r₀ l₀ (es ++ [(i, e)]) ↔
      C.Exclusive uses r₀ l₀ es ∧ (uses (s.2 i) e → ∀ j, j ≠ i → C.Idle r₀ l₀ es j) := by
  constructor
  · intro hexcl
    refine ⟨fun es₁ k e' s₁ os₁ hpre => ?_, hexcl es i e s os (List.prefix_refl _) hrun⟩
    exact hexcl es₁ k e' s₁ os₁ (hpre.trans (List.prefix_append _ _))
  · rintro ⟨hexcl, hlast⟩ es₁ k e' s₁ os₁ hpre hrun₁
    rcases List.prefix_concat_iff.mp hpre with heq | hpre
    · obtain ⟨rfl, hx⟩ := List.append_inj' heq rfl
      obtain ⟨rfl, rfl⟩ := Prod.mk.inj (List.cons.inj hx).1
      obtain ⟨rfl, -⟩ := Prod.mk.inj (Option.some.inj (hrun.symm.trans hrun₁))
      exact hlast
    · exact hexcl es₁ k e' s₁ os₁ hpre hrun₁

/-! ## The clients of a run -/

/-- A run so far, with each client run alone beside it: the registers `own`
and outputs `outs` of these, and, while no client sees a difference, who
holds the register. -/
structure Beside (C : Client R L E O) (seen : O → V) (uses : L → E → Prop) (J : L → Prop)
    (G : R → Prop) (r₀ : R) (l₀ : L) (es : List (ι × E)) (os : List (ι × O)) (s : R × (ι → L))
    (own : ι → R) (outs : ι → List (ι × O)) : Prop where
  alone : ∀ i, Alone C r₀ l₀ es s i (own i) (outs i)
  clients : ∀ i, J (s.2 i)
  register : G s.1
  registers : ∀ i, G (own i)
  same : (∀ i, sees seen i os = sees seen i (outs i)) ↔ C.Exclusive uses r₀ l₀ es
  held : C.Exclusive uses r₀ l₀ es → Held r₀ s.1 own

/-- The clients go on seeing the same if the one that acts does. -/
theorem sees_update_iff {seen : O → V} {outs : ι → List (ι × O)} {o o' : O} :
    (∀ k, sees seen k (os ++ [(i, o)]) =
      sees seen k (Function.update outs i (outs i ++ [(i, o')]) k)) ↔
      (∀ k, sees seen k os = sees seen k (outs k)) ∧ seen o = seen o' := by
  have houts : ∀ k, k ≠ i → Function.update outs i (outs i ++ [(i, o')]) k = outs k :=
    fun k hk => Function.update_of_ne hk ..
  constructor
  · intro h
    have hi := h i
    rw [sees_concat_self, Function.update_self, sees_concat_self] at hi
    obtain ⟨hsame, hlast⟩ := List.append_inj' hi rfl
    refine ⟨fun k => ?_, (List.cons.inj hlast).1⟩
    rcases eq_or_ne k i with rfl | hk
    · exact hsame
    · have hk' := h k
      rwa [sees_concat_of_ne hk.symm, houts k hk] at hk'
  · rintro ⟨h, hlast⟩ k
    rcases eq_or_ne k i with rfl | hk
    · rw [sees_concat_self, Function.update_self, sees_concat_self, h k, hlast]
    · rw [sees_concat_of_ne hk.symm, houts k hk, h k]

/-- **One event more.** If the clients are to go on seeing what they see
alone, the client must find its own register, which it does exactly if the
others are idle; and then the register stays held by one client at most. -/
theorem Beside.concat {seen : O → V} {uses : L → E → Prop} {J : L → Prop} {G : R → Prop}
    {outs : ι → List (ι × O)} {s' : R × (ι → L)} {o : ι × O} (hC : C.Reveals seen uses J G)
    (hrun : C.shared.run (r₀, fun _ => l₀) es = some (s, os))
    (hI : Beside C seen uses J G r₀ l₀ es os s own outs)
    (hstep : C.shared.step s (i, e) = some (s', o)) :
    ∃ own' outs', Beside C seen uses J G r₀ l₀ (es ++ [(i, e)]) (os ++ [o]) s' own' outs' := by
  obtain ⟨l, hnext, rfl, rfl⟩ := shared_step.mp hstep
  set x := C.access (s.2 i) e s.1 with hx
  set y := C.access (s.2 i) e (own i) with hy
  have hown : ∀ k, k ≠ i → Function.update own i y.1 k = own k := fun k hk =>
    Function.update_of_ne hk ..
  have houts : ∀ k, k ≠ i → Function.update outs i (outs i ++ [(i, y.2)]) k = outs k :=
    fun k hk => Function.update_of_ne hk ..
  -- the client finds its own register exactly if the others are idle
  have hfinds : C.Exclusive uses r₀ l₀ es → uses (s.2 i) e →
      (s.1 = own i ↔ ∀ j, j ≠ i → C.Idle r₀ l₀ es j) := by
    intro hexcl huses
    rw [(hI.held hexcl).eq_iff i]
    exact forall₂_congr fun j _ => (hI.alone j).idle_iff.symm
  refine ⟨Function.update own i y.1, Function.update outs i (outs i ++ [(i, y.2)]), ?_⟩
  refine ⟨?_, ?_, ?_, ?_, ?_, ?_⟩
  · intro k
    rcases eq_or_ne k i with rfl | hk
    · rw [Function.update_self, Function.update_self]
      exact (hI.alone k).concat_self hnext _
    · rw [hown k hk, houts k hk]
      exact (hI.alone k).concat_of_ne hk.symm _
  · intro k
    rcases eq_or_ne k i with rfl | hk
    · change J (Function.update s.2 k l k)
      rw [Function.update_self]
      exact hC.next _ _ _ (hI.clients k) hnext
    · change J (Function.update s.2 i l k)
      rw [Function.update_of_ne hk]
      exact hI.clients k
  · exact hC.good _ _ _ (hI.clients i) hI.register
  · intro k
    rcases eq_or_ne k i with rfl | hk
    · rw [Function.update_self]
      exact hC.good _ _ _ (hI.clients k) (hI.registers k)
    · rw [hown k hk]
      exact hI.registers k
  · rw [sees_update_iff, exclusive_concat hrun, hI.same]
    refine and_congr_right fun hexcl => ?_
    by_cases huses : uses (s.2 i) e
    · rw [forall_prop_of_true huses, ← hfinds hexcl huses]
      constructor
      · exact hC.shown _ _ _ _ (hI.clients i) huses hI.register (hI.registers i)
      · intro heq
        rw [hx, hy, heq]
    · exact ⟨fun _ h => absurd h huses, fun _ => hC.hidden _ _ _ _ huses⟩
  · intro hexcl
    obtain ⟨hexcl, hlast⟩ := (exclusive_concat hrun).mp hexcl
    by_cases huses : uses (s.2 i) e
    · have heq : s.1 = own i := (hfinds hexcl huses).mpr (hlast huses)
      have hxy : x.1 = y.1 := by rw [hx, hy, heq]
      rw [hxy]
      exact held_update fun j hj => (hI.alone j).idle_iff.mp (hlast huses j hj)
    · have hx₁ : x.1 = s.1 := hC.unused _ _ _ huses
      have hy₁ : y.1 = own i := hC.unused _ _ _ huses
      rw [hx₁, hy₁, Function.update_eq_self]
      exact hI.held hexcl

variable {seen : O → V} {uses : L → E → Prop} {J : L → Prop} {G : R → Prop}

/-- **Every run has its clients beside it.** -/
theorem beside_of_run (hC : C.Reveals seen uses J G) (hl₀ : J l₀) (hr₀ : G r₀)
    (hrun : C.shared.run (r₀, fun _ => l₀) es = some (s, os)) :
    ∃ own outs, Beside C seen uses J G r₀ l₀ es os s own outs := by
  induction es using List.reverseRecOn generalizing s os with
  | nil =>
    obtain ⟨rfl, rfl⟩ := Prod.mk.inj (Option.some.inj hrun)
    refine ⟨fun _ => r₀, fun _ => [], ?_, fun _ => hl₀, hr₀, fun _ => hr₀, ?_, ?_⟩
    · intro i
      exact ⟨fun _ => l₀, rfl, rfl⟩
    · refine ⟨fun _ es₁ i e s os hpre => ?_, fun _ _ => rfl⟩
      exact absurd (List.prefix_nil.mp hpre) (by simp)
    · intro _
      exact ⟨fun _ _ _ => Or.inl rfl, fun _ h => absurd rfl h, fun _ => rfl⟩
  | append_singleton es x ih =>
    obtain ⟨i, e⟩ := x
    obtain ⟨s₁, os₁, o, hrun₁, hstep, rfl⟩ := Machine.run_concat.mp hrun
    obtain ⟨own, outs, hI⟩ := ih hrun₁
    exact hI.concat hC hrun₁ hstep

/-- **Each client sees what it sees alone exactly if the register is used
exclusively**, in a run of any clients in any order. -/
theorem sees_alone_iff (hC : C.Reveals seen uses J G) (hl₀ : J l₀) (hr₀ : G r₀)
    (hrun : C.shared.run (r₀, fun _ => l₀) es = some (s, os)) :
    (∀ i, ∃ t ts, C.shared.run (r₀, fun _ => l₀) (ofClient i es) = some (t, ts) ∧
      sees seen i os = sees seen i ts) ↔ C.Exclusive uses r₀ l₀ es := by
  obtain ⟨own, outs, hI⟩ := beside_of_run hC hl₀ hr₀ hrun
  rw [← hI.same]
  refine forall_congr' fun i => ?_
  obtain ⟨ls, hrun', -⟩ := hI.alone i
  constructor
  · rintro ⟨t, ts, halone, hsees⟩
    obtain ⟨-, rfl⟩ := Prod.mk.inj (Option.some.inj (hrun'.symm.trans halone))
    exact hsees
  · intro hsees
    exact ⟨_, _, hrun', hsees⟩

end Client

end Camkit
