import Mathlib.Algebra.Group.Fin.Basic
import Mathlib.Data.Fin.Basic
import Mathlib.Logic.Function.Basic
import Mathlib.Tactic.Abel
/-!
# A stack in a ring of slots

A stack of at most `n` elements is kept in `n` slots that are used round
and round: the top is in the slot of the index, the elements below it in
the slots after it, and the other slots are free. Taking the top moves the
index on and putting one on moves it back. Taking from an empty stack moves
the index as well, and leaves an empty stack.
-/

namespace Camkit

namespace Ring

variable {α : Type*} {n : ℕ} [NeZero n]

/-- **The ring holds a stack**, its top in the slot of the index. -/
structure Holds (slots : Fin n → Option α) (index : Fin n) (stack : List α) : Prop where
  length_le : stack.length ≤ n
  slot : ∀ k : Fin n, slots (index + k) = stack[k.val]?

variable {slots : Fin n → Option α} {index i : Fin n} {stack : List α} {a : α}

/-- The slot after one is the next, or the first again. -/
theorem one_add_cases (k : Fin n) :
    (1 + k = 0 ∧ k.val + 1 = n) ∨ ((1 + k).val = k.val + 1 ∧ k.val + 1 < n) := by
  have hval : (1 + k).val = (1 + k.val) % n := by
    rw [Fin.val_add, Fin.val_one', Nat.mod_add_mod]
  have hk := k.isLt
  rcases Nat.lt_or_ge (k.val + 1) n with hlt | hge
  · rw [Nat.mod_eq_of_lt (by omega)] at hval
    exact Or.inr ⟨by omega, hlt⟩
  · rw [show 1 + k.val = n by omega, Nat.mod_self] at hval
    exact Or.inl ⟨Fin.ext (hval.trans (Fin.val_zero n).symm), by omega⟩

namespace Holds

/-- The slot of the index has the top. -/
theorem slot_index (h : Holds slots index stack) : slots index = stack.head? := by
  have hzero := h.slot 0
  rw [add_zero, Fin.val_zero, ← List.head?_eq_getElem?] at hzero
  exact hzero

theorem slot_eq (h : Holds slots index stack) (i : Fin n) :
    slots i = stack[(i - index).val]? := by
  have hi := h.slot (i - index)
  rwa [add_sub_cancel] at hi

omit [NeZero n] in
/-- The slots in use are those from the index on, as many as the stack is
high. -/
theorem isSome_slot_iff (h : Holds slots index stack) (k : Fin n) :
    (slots (index + k)).isSome ↔ k.val < stack.length := by
  rw [h.slot, Option.isSome_iff_ne_none, ne_eq, List.getElem?_eq_none_iff, not_le]

theorem mem_iff (h : Holds slots index stack) : a ∈ stack ↔ ∃ i, slots i = some a := by
  constructor
  · intro ha
    obtain ⟨k, hk, rfl⟩ := List.getElem_of_mem ha
    have hlt : k < n := lt_of_lt_of_le hk h.length_le
    exact ⟨index + ⟨k, hlt⟩, (h.slot ⟨k, hlt⟩).trans (List.getElem?_eq_getElem hk)⟩
  · rintro ⟨i, hi⟩
    rw [h.slot_eq] at hi
    exact List.mem_of_getElem? hi

/-- No element is in two slots, if none is twice in the stack. -/
theorem slot_injective (h : Holds slots index stack) (hnodup : stack.Nodup) {j : Fin n}
    (hi : slots i = some a) (hj : slots j = some a) : i = j := by
  rw [h.slot_eq] at hi hj
  obtain ⟨hlt, -⟩ := List.getElem?_eq_some_iff.mp hi
  have hval := (List.getElem?_inj hlt hnodup).mp (hi.trans hj.symm)
  exact sub_left_injective (Fin.ext hval)

/-- **Taking the top**, or nothing from an empty stack. -/
theorem pop (h : Holds slots index stack) :
    Holds (Function.update slots index none) (index + 1) stack.tail := by
  have hlen := h.length_le
  refine ⟨by rw [List.length_tail]; omega, fun k => ?_⟩
  rw [List.getElem?_tail, add_assoc]
  rcases one_add_cases k with ⟨hzero, hk⟩ | ⟨hval, hk⟩
  · -- all the way round, to the slot just freed
    rw [hzero, add_zero, Function.update_self, List.getElem?_eq_none (by omega)]
  · have hne : index + (1 + k) ≠ index := fun heq => by
      have hz := congrArg Fin.val (add_eq_left.mp heq)
      rw [Fin.val_zero] at hz
      omega
    rw [Function.update_of_ne hne, h.slot, hval]

/-- The slot before the index is free while the stack is not full. -/
theorem slot_before (h : Holds slots index stack) (hlt : stack.length < n) :
    slots (index - 1) = none := by
  have hneg : (1 : Fin n) + (0 - 1) = 0 := by rw [zero_sub, add_neg_cancel]
  rw [h.slot_eq, show index - 1 - index = 0 - 1 by abel]
  rcases one_add_cases (0 - 1 : Fin n) with ⟨-, hk⟩ | ⟨hval, -⟩
  · exact List.getElem?_eq_none (by omega)
  · rw [hneg, Fin.val_zero] at hval
    omega

/-- **Putting one on the top** of a stack that is not full. -/
theorem push (h : Holds slots index stack) (hlt : stack.length < n) (a : α) :
    Holds (Function.update slots (index - 1) (some a)) (index - 1) (a :: stack) := by
  refine ⟨hlt, fun k => ?_⟩
  by_cases hk : k = 0
  · rw [hk, add_zero, Function.update_self, Fin.val_zero, List.getElem?_cons_zero]
  · obtain ⟨j, rfl⟩ : ∃ j, k = 1 + j := ⟨k - 1, (add_sub_cancel 1 k).symm⟩
    rcases one_add_cases j with ⟨hzero, -⟩ | ⟨hval, -⟩
    · exact absurd hzero hk
    · have hne : index - 1 + (1 + j) ≠ index - 1 := fun heq => hk (add_eq_left.mp heq)
      rw [Function.update_of_ne hne, hval, List.getElem?_cons_succ,
        show index - 1 + (1 + j) = index + j by abel, h.slot]

end Holds

end Ring

end Camkit
