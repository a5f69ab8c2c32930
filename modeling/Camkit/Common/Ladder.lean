import Camkit.Common.Ledger
import Camkit.Common.Machine
import Mathlib.Algebra.BigOperators.Group.Multiset.Basic
import Mathlib.Tactic.Abel
/-!
# Ladders

How a function opens something that takes several steps: it asks for one
thing after the other, and where it is refused one it jumps to a label and
gives back what stands from there down to the foot. The labels fit if they
give back only what is held at the jump. What an opening that fails still
holds then is told by where it fails, and what a process holds by its calls:
`leaves_of_handles`.
-/

namespace Camkit

namespace Ladder

open Ledger (Entry Leaves)

variable {α A : Type*}

/-! ## Plans -/

/-- A rung of the ladder. -/
structure Rung (α : Type*) where
  /-- what is asked for is had -/
  had : Bool
  takes : List α
  /-- the label jumped to if not, as the number of things it gives back -/
  label : ℕ

/-- What opens something, and what closes it. -/
structure Plan (α : Type*) where
  rungs : List (Rung α)
  /-- what the labels give back, from the foot up -/
  unwinding : List α
  closing : List α

/-- The rungs, one after the other, with the entries made; `false` is a
rung refused. -/
def climb (unwinding : List α) : List (Rung α) → Bool × List (Entry α)
  | [] => (true, [])
  | r :: rs =>
    if r.had then
      ((climb unwinding rs).1, r.takes.map .acquire ++ (climb unwinding rs).2)
    else (false, (unwinding.take r.label).reverse.map .release)

/-- What the rungs take. -/
def taken (rungs : List (Rung α)) : List α := rungs.flatMap Rung.takes

namespace Plan

/-- Opening: whether it succeeds, and the entries it makes. -/
def opening (p : Plan α) : Bool × List (Entry α) := climb p.unwinding p.rungs

variable [DecidableEq α]

/-- What is held where the climb is over. -/
def held (p : Plan α) : Multiset α → List (Rung α) → Multiset α
  | m, [] => m
  | m, r :: rs =>
    if r.had then p.held (r.takes + m) rs else m - (p.unwinding.take r.label : Multiset α)

/-- Each label gives back only what is held where the jump is made. -/
def Fits (p : Plan α) : Multiset α → List (Rung α) → Prop
  | _, [] => True
  | m, r :: rs => (p.unwinding.take r.label : Multiset α) ≤ m ∧ p.Fits (r.takes + m) rs

instance decidableFits (p : Plan α) : ∀ m rs, Decidable (p.Fits m rs)
  | _, [] => isTrue trivial
  | m, r :: rs =>
    letI := decidableFits p (r.takes + m) rs
    inferInstanceAs (Decidable (_ ∧ _))

/-- What is left behind at each rung, were it the one refused: what is held
there and not given back from its label down. -/
def lefts (p : Plan α) : Multiset α → List (Rung α) → List (Multiset α)
  | _, [] => []
  | m, r :: rs => (m - (p.unwinding.take r.label : Multiset α)) :: p.lefts (r.takes + m) rs

/-- The labels fit, and closing gives back what the rungs took. -/
structure Sound (p : Plan α) : Prop where
  fits : p.Fits 0 p.rungs
  closes : p.closing.Perm (taken p.rungs)

/-- What an opening that fails still holds. -/
def debt (p : Plan α) : Multiset α := if p.opening.1 then 0 else p.held 0 p.rungs

end Plan

/-- What is left at the first rung refused, and nothing where none is. -/
def atRefused : List Bool → List (Multiset α) → Multiset α
  | false :: _, m :: _ => m
  | true :: bs, _ :: ms => atRefused bs ms
  | _, _ => 0

/-! ## Processes -/

/-- A process: the calls it has made so far, the handles it has open, each
under the number of the call that opened it, and its ledger. -/
structure Process (A α : Type*) where
  calls : ℕ
  opened : List (ℕ × A)
  ledger : List (Entry (ℕ × α))

/-- A process that has not made a call. -/
def Process.start : Process A α := ⟨0, [], []⟩

/-- A call: something is opened, or the `i`-th of the handles is closed. -/
inductive Call (A : Type*) where
  | «open» (a : A)
  | close (i : ℕ)
  deriving DecidableEq, Repr

/-- The calls that open and close handles, answering whether they succeed.
What is taken by a call is told from what others take by its number. -/
def handles (plan : A → Plan α) : Machine (Process A α) (Call A) Bool where
  step s
    | .open a =>
      let climbed := (plan a).opening
      some (⟨s.calls + 1, if climbed.1 then (s.calls, a) :: s.opened else s.opened,
        s.ledger ++ climbed.2.map (.map (s.calls, ·))⟩, climbed.1)
    | .close i =>
      match s.opened[i]? with
      | none => none
      | some (n, a) =>
        some (⟨s.calls + 1, s.opened.eraseIdx i,
          s.ledger ++ ((plan a).closing.map fun r => .release (n, r))⟩, true)

/-- What the handles hold. -/
def inHand (plan : A → Plan α) (opened : List (ℕ × A)) : Multiset (ℕ × α) :=
  (opened.map fun x => ((taken (plan x.2).rungs).map (x.1, ·) : Multiset (ℕ × α))).sum

/-- What the calls from number `n` on have left behind. -/
def debts [DecidableEq α] (plan : A → Plan α) : ℕ → List (Call A) → Multiset (ℕ × α)
  | _, [] => 0
  | n, .open a :: cs => (plan a).debt.map (n, ·) + debts plan (n + 1) cs
  | n, .close _ :: cs => debts plan (n + 1) cs

variable [DecidableEq α]
variable {p : Plan α} {plan : A → Plan α} {m : Multiset α} {l : List (Entry α)} {rs : List (Rung α)}
variable {s s' : Process A α} {calls : List (Call A)} {outs : List Bool} {n : ℕ}

/-! ## Opening -/

omit [DecidableEq α] in
/-- A climb gets to the top where no rung is refused. -/
theorem climb_fst {unwinding : List α} : (climb unwinding rs).1 = rs.all Rung.had := by
  induction rs with
  | nil => rfl
  | cons r rs ih =>
    rw [climb, List.all_cons]
    split
    · rename_i hhad
      rw [hhad, Bool.true_and]
      exact ih
    · rename_i hhad
      rw [Bool.eq_false_iff.mpr hhad, Bool.false_and]

/-- **A climb** leaves what `held` says. -/
theorem leaves_climb (hfits : p.Fits m rs) (h : Leaves l m) :
    Leaves (l ++ (climb p.unwinding rs).2) (p.held m rs) := by
  induction rs generalizing m l with
  | nil =>
    rw [climb, List.append_nil, Plan.held]
    exact h
  | cons r rs ih =>
    rw [climb, Plan.held]
    by_cases hhad : r.had = true
    · rw [if_pos hhad, if_pos hhad, ← List.append_assoc]
      exact ih hfits.2 (h.acquire_list r.takes)
    · rw [if_neg hhad, if_neg hhad]
      refine Leaves.release_list ?_
      rwa [Multiset.coe_reverse, add_tsub_cancel_of_le hfits.1]

/-- A climb to the top holds all that the rungs take. -/
theorem held_of_top (htop : (climb p.unwinding rs).1 = true) :
    p.held m rs = (taken rs : Multiset α) + m := by
  induction rs generalizing m with
  | nil => exact (zero_add m).symm
  | cons r rs ih =>
    rw [climb] at htop
    split at htop
    · rename_i hhad
      have htaken : (taken (r :: rs) : Multiset α) = (r.takes : Multiset α) + taken rs := by
        rw [taken, List.flatMap_cons, Multiset.coe_add, taken]
      rw [Plan.held, if_pos hhad, ih htop, htaken]
      abel
    · exact absurd htop (by simp)

/-- **What an opening owes** is told by the rung refused. -/
theorem debt_eq (p : Plan α) : p.debt = atRefused (p.rungs.map Rung.had) (p.lefts 0 p.rungs) := by
  have hwalk : ∀ (m : Multiset α) (rs : List (Rung α)),
      (if (climb p.unwinding rs).1 then 0 else p.held m rs) =
        atRefused (rs.map Rung.had) (p.lefts m rs) := by
    intro m rs
    induction rs generalizing m with
    | nil => rfl
    | cons r rs ih =>
      rw [climb, Plan.held, Plan.lefts, List.map_cons]
      cases hhad : r.had with
      | false => rfl
      | true => exact ih _
  exact hwalk 0 p.rungs

omit [DecidableEq α] in
/-- Nothing is left where no rung leaves anything. -/
theorem atRefused_eq_zero {bs : List Bool} {ms : List (Multiset α)} (h : ∀ m ∈ ms, m = 0) :
    atRefused bs ms = 0 := by
  induction bs generalizing ms with
  | nil => rfl
  | cons b bs ih =>
    cases ms with
    | nil => cases b <;> rfl
    | cons m ms =>
      cases b with
      | false => exact h m List.mem_cons_self
      | true => exact ih fun m' hm' => h m' (List.mem_cons_of_mem _ hm')

/-- **An opening** leaves what the handle holds if it succeeds, and its
debt if not. -/
theorem leaves_opening (hp : p.Sound) : Leaves p.opening.2
    ((if p.opening.1 then (taken p.rungs : Multiset α) else 0) + p.debt) := by
  have hclimb := leaves_climb hp.fits Ledger.leaves_nil
  rw [List.nil_append] at hclimb
  rw [Plan.debt]
  split
  · rename_i htop
    have htaken : p.held 0 p.rungs = (taken p.rungs : Multiset α) + 0 := held_of_top htop
    rwa [← htaken]
  · rw [zero_add]
    exact hclimb

/-! ## Runs -/

omit [DecidableEq α] in
theorem inHand_cons {x : ℕ × A} {opened : List (ℕ × A)} : inHand plan (x :: opened) =
    ((taken (plan x.2).rungs).map (x.1, ·) : Multiset (ℕ × α)) + inHand plan opened := by
  rw [inHand, List.map_cons, List.sum_cons, inHand]

omit [DecidableEq α] in
/-- A handle taken out of the others. -/
theorem inHand_eraseIdx {opened : List (ℕ × A)} {i : ℕ} {x : ℕ × A} (hx : opened[i]? = some x) :
    inHand plan opened =
      ((taken (plan x.2).rungs).map (x.1, ·) : Multiset (ℕ × α)) +
        inHand plan (opened.eraseIdx i) := by
  obtain ⟨hlt, rfl⟩ := List.getElem?_eq_some_iff.mp hx
  rw [← inHand_cons, inHand, inHand]
  exact ((List.getElem_cons_eraseIdx_perm hlt).map _).sum_eq.symm

/-- **One call** leaves what it left before, and its own debt. -/
theorem leaves_step {c : Call A} {b : Bool} {rest : Multiset (ℕ × α)} (hplan : ∀ a, (plan a).Sound)
    (h : Leaves s.ledger (inHand plan s.opened + rest))
    (hstep : (handles plan).step s c = some (s', b)) :
    s'.calls = s.calls + 1 ∧
      Leaves s'.ledger (inHand plan s'.opened + (debts plan s.calls [c] + rest)) := by
  cases c with
  | «open» a =>
    obtain ⟨rfl, -⟩ := Prod.mk.inj (Option.some.inj hstep)
    refine ⟨rfl, ?_⟩
    have hopening := h.append ((leaves_opening (hplan a)).map (s.calls, ·))
    refine (congrArg (Leaves _) ?_).mp hopening
    rw [debts, debts, add_zero, Multiset.map_add]
    split
    · rw [inHand_cons, Multiset.map_coe]
      abel
    · rw [Multiset.map_zero, zero_add]
      abel
  | close i =>
    rw [handles] at hstep
    simp only at hstep
    split at hstep
    · exact absurd hstep (by simp)
    · rename_i n a hi
      obtain ⟨rfl, -⟩ := Prod.mk.inj (Option.some.inj hstep)
      refine ⟨rfl, ?_⟩
      have hclosing : (plan a).closing.map (fun r => (Entry.release (n, r) : Entry (ℕ × α))) =
          ((plan a).closing.map (n, ·)).map .release := by
        rw [List.map_map]
        rfl
      rw [hclosing, debts, debts, zero_add]
      refine Leaves.release_list ?_
      rw [inHand_eraseIdx hi, add_assoc] at h
      have hperm : (((plan a).closing.map (n, ·) : List (ℕ × α)) : Multiset (ℕ × α)) =
          ((taken (plan a).rungs).map (n, ·) : Multiset (ℕ × α)) :=
        Multiset.coe_eq_coe.mpr ((hplan a).closes.map _)
      rw [hperm]
      exact h

theorem debts_cons {c : Call A} :
    debts plan n (c :: calls) = debts plan n [c] + debts plan (n + 1) calls := by
  cases c with
  | «open» a => rw [debts, debts, debts, add_zero]
  | close i => rw [debts, debts, debts, zero_add]

/-- A run from a process that already holds something. -/
theorem leaves_run {rest : Multiset (ℕ × α)} (hplan : ∀ a, (plan a).Sound)
    (h : Leaves s.ledger (inHand plan s.opened + rest))
    (hrun : (handles plan).run s calls = some (s', outs)) :
    Leaves s'.ledger (inHand plan s'.opened + (debts plan s.calls calls + rest)) := by
  induction calls generalizing s rest outs with
  | nil =>
    obtain ⟨rfl, -⟩ := Prod.mk.inj (Option.some.inj hrun)
    rw [debts, zero_add]
    exact h
  | cons c calls ih =>
    obtain ⟨s₁, b, os, hfirst, hrest, -⟩ := Machine.run_cons.mp hrun
    obtain ⟨hcalls, hstep⟩ := leaves_step hplan h hfirst
    have hleaves := ih hstep hrest
    rw [hcalls] at hleaves
    rw [debts_cons, add_comm (debts plan s.calls [c]), add_assoc]
    exact hleaves

/-- **What a process holds** is what its handles hold and what its failed
openings have left behind. -/
theorem leaves_of_handles (hplan : ∀ a, (plan a).Sound)
    (hrun : (handles plan).run .start calls = some (s, outs)) :
    Leaves s.ledger (inHand plan s.opened + debts plan 0 calls) := by
  have hstart : Leaves (Process.start : Process A α).ledger
      (inHand plan (Process.start : Process A α).opened + 0) := Ledger.leaves_nil
  have hleaves := leaves_run hplan hstart hrun
  rw [add_zero] at hleaves
  exact hleaves

end Ladder

end Camkit
