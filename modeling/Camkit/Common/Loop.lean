import Mathlib.Logic.Function.Iterate
import Mathlib.Data.List.Range
import Mathlib.Data.Finset.Card
import Mathlib.Data.Int.Interval
/-!
# Loops and what they record

A loop with a known number of rounds is an iterate of its body. What its
rounds record, one after the other, is a `logged` list, and a loop within
one that is recorded by rounds is recorded by pairs of them.
-/

namespace Camkit

variable {σ β : Type*} {f : σ → σ} {s : σ} {b : β}

/-- **An invariant that counts the rounds** holds after as many. -/
theorem iterate_invariant {I : ℕ → σ → Prop} (hinit : I 0 s)
    (hstep : ∀ k s, I k s → I (k + 1) (f s)) (n : ℕ) : I n (f^[n] s) := by
  induction n with
  | zero => exact hinit
  | succ n ih =>
    rw [Function.iterate_succ_apply']
    exact hstep n _ ih

/-- What `n` rounds record, `g k` being the record of round `k`. -/
def logged (g : ℕ → List β) (n : ℕ) : List β := (List.range n).flatMap g

variable {g : ℕ → List β} {n c : ℕ}

@[simp] theorem logged_zero : logged g 0 = [] := rfl

theorem logged_succ : logged g (n + 1) = logged g n ++ g n := by
  rw [logged, List.range_succ, List.flatMap_append, List.flatMap_singleton, logged]

/-- Loops with the same rounds write the same log. -/
theorem logged_congr {g' : ℕ → List β} (h : ∀ k < n, g k = g' k) : logged g n = logged g' n := by
  rw [logged, logged]
  exact List.flatMap_congr fun k hk => h k (List.mem_range.mp hk)

/-- A log read through a function is that of the rounds read so. -/
theorem map_logged {γ : Type*} {f : β → γ} :
    (logged g n).map f = logged (fun k => (g k).map f) n :=
  List.map_flatMap

/-- What stands in the log stands in the log of a round. -/
theorem mem_logged : b ∈ logged g n ↔ ∃ k < n, b ∈ g k := by
  simp only [logged, List.mem_flatMap, List.mem_range]

theorem length_logged (hg : ∀ k, (g k).length = c) : (logged g n).length = n * c := by
  induction n with
  | zero => rw [logged_zero, List.length_nil, Nat.zero_mul]
  | succ n ih => rw [logged_succ, List.length_append, ih, hg, Nat.succ_mul]

/-- **Every place once**: a list that has each place below `N`, and is no
longer than that, has each of them once and no other. -/
theorem count_of_mem_of_length {l : List ℤ} {N : ℕ} (hmem : ∀ i : ℤ, 0 ≤ i → i < N → i ∈ l)
    (hlen : l.length = N) (i : ℤ) : l.count i = if 0 ≤ i ∧ i < N then 1 else 0 := by
  have hsub : Finset.Ico (0 : ℤ) N ⊆ l.toFinset := by
    intro i hi
    obtain ⟨h0, hN⟩ := Finset.mem_Ico.mp hi
    exact List.mem_toFinset.mpr (hmem i h0 hN)
  have hcard : (Finset.Ico (0 : ℤ) N).card = N := by simp
  have hle : l.toFinset.card ≤ (Finset.Ico (0 : ℤ) N).card := by
    rw [hcard, ← hlen]
    exact List.toFinset_card_le l
  have heq := Finset.eq_of_subset_of_card_le hsub hle
  have hnodup : l.Nodup := by
    refine Multiset.coe_nodup.mp (Multiset.toFinset_card_eq_card_iff_nodup.mp ?_)
    change l.toFinset.card = l.length
    rw [← heq, hcard, hlen]
  have hiff : i ∈ l ↔ 0 ≤ i ∧ i < N := by
    rw [← List.mem_toFinset, ← heq, Finset.mem_Ico]
  split
  · next h => exact List.count_eq_one_of_mem hnodup (hiff.mpr h)
  · next h => exact List.count_eq_zero_of_not_mem fun hi => h (hiff.mp hi)

end Camkit
