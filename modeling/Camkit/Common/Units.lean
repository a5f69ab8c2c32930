import Mathlib.Data.List.Basic
/-!
# Streams cut into units

A stream of items in which some end a unit, and some are gaps and carry
nothing. `units` are the units complete, `pending` is what has come of the
next one, and a stream is `Aligned` when it has gaps between its units
only.
-/

namespace Camkit

variable {α : Type*} (ends gap : α → Bool)

/-- The complete units of a stream, `acc` being what has come of the first. -/
def units : List α → List α → List (List α)
  | _, [] => []
  | acc, a :: l => if ends a then (acc ++ [a]) :: units [] l else units (acc ++ [a]) l

/-- What is left over after the last complete unit. -/
def pending : List α → List α → List α
  | acc, [] => acc
  | acc, a :: l => if ends a then pending [] l else pending (acc ++ [a]) l

/-- The items that are no gaps. -/
def items (l : List α) : List α := l.filter fun a => !gap a

/-- After `pre` the stream has a gap, be it the one after its end. -/
def GapAfter (l pre : List α) : Prop := pre = l ∨ ∃ e post, l = pre ++ e :: post ∧ gap e = true

/-- The gaps of a stream come after whole units. -/
def AlignedFrom (acc l : List α) : Prop :=
  ∀ pre, GapAfter gap l pre → pending ends acc (items gap pre) = []

/-- No unit of the stream has a gap in it. -/
def Aligned (l : List α) : Prop := AlignedFrom ends gap [] l

variable {ends gap} {a b : α} {acc l pre seg : List α}

/-! ## Units -/

@[simp]
theorem items_cons_of_gap (h : gap a = true) : items gap (a :: l) = items gap l :=
  List.filter_cons_of_neg (by simp [h])

@[simp]
theorem items_cons_of_not_gap (h : gap a = false) : items gap (a :: l) = a :: items gap l :=
  List.filter_cons_of_pos (by simp [h])

/-- There are as many units as ends. -/
theorem length_units : (units ends acc l).length = l.countP ends := by
  induction l generalizing acc with
  | nil => rfl
  | cons a l ih =>
    rw [units]
    split
    · next h => rw [List.length_cons, ih, List.countP_cons_of_pos h]
    · next h => rw [ih, List.countP_cons_of_neg h]

/-- What does not end a unit adds to it. -/
theorem units_append (h : ∀ a ∈ seg, ends a = false) :
    units ends acc (seg ++ l) = units ends (acc ++ seg) l := by
  induction seg generalizing acc with
  | nil => rw [List.nil_append, List.append_nil]
  | cons a seg ih =>
    obtain ⟨ha, hseg⟩ := List.forall_mem_cons.mp h
    rw [List.cons_append, units, if_neg (by simp [ha]), ih hseg, List.append_assoc,
      List.singleton_append]

/-- A unit and those after it. -/
theorem units_append_cons (h : ∀ a ∈ seg, ends a = false) (ha : ends a = true) :
    units ends acc (seg ++ a :: l) = (acc ++ seg ++ [a]) :: units ends [] l := by
  rw [units_append h, units, if_pos ha]

/-! ## Alignment -/

theorem gapAfter_nil : GapAfter gap [] pre ↔ pre = [] := by
  constructor
  · rintro (h | ⟨e, post, heq, -⟩)
    · exact h
    · exact absurd heq (by simp)
  · exact Or.inl

theorem gapAfter_cons_nil : GapAfter gap (a :: l) [] ↔ gap a = true := by
  constructor
  · rintro (h | ⟨e, post, heq, he⟩)
    · exact absurd h (by simp)
    · obtain ⟨rfl, -⟩ := List.cons.inj heq
      exact he
  · exact fun h => Or.inr ⟨a, l, rfl, h⟩

theorem gapAfter_cons_cons : GapAfter gap (a :: l) (b :: pre) ↔ b = a ∧ GapAfter gap l pre := by
  constructor
  · rintro (h | ⟨e, post, heq, he⟩)
    · obtain ⟨rfl, rfl⟩ := List.cons.inj h
      exact ⟨rfl, Or.inl rfl⟩
    · obtain ⟨rfl, rfl⟩ := List.cons.inj heq
      exact ⟨rfl, Or.inr ⟨e, post, rfl, he⟩⟩
  · rintro ⟨rfl, rfl | ⟨e, post, rfl, he⟩⟩
    · exact Or.inl rfl
    · exact Or.inr ⟨e, post, rfl, he⟩

/-- At the end of a stream nothing may be pending. -/
theorem alignedFrom_nil : AlignedFrom ends gap acc [] ↔ acc = [] := by
  constructor
  · intro h
    exact h [] (gapAfter_nil.mpr rfl)
  · rintro rfl pre hpre
    obtain rfl := gapAfter_nil.mp hpre
    rfl

/-- Nor at a gap. -/
theorem alignedFrom_cons_of_gap (ha : gap a = true) :
    AlignedFrom ends gap acc (a :: l) ↔ acc = [] ∧ AlignedFrom ends gap acc l := by
  constructor
  · intro h
    refine ⟨h [] (gapAfter_cons_nil.mpr ha), fun pre hpre => ?_⟩
    rw [← items_cons_of_gap ha]
    exact h (a :: pre) (gapAfter_cons_cons.mpr ⟨rfl, hpre⟩)
  · rintro ⟨hacc, h⟩ pre hpre
    cases pre with
    | nil => exact hacc
    | cons b pre =>
      obtain ⟨rfl, hrest⟩ := gapAfter_cons_cons.mp hpre
      rw [items_cons_of_gap ha]
      exact h pre hrest

/-- An item is pending, or ends the unit. -/
theorem alignedFrom_cons (ha : gap a = false) : AlignedFrom ends gap acc (a :: l) ↔
    AlignedFrom ends gap (if ends a then [] else acc ++ [a]) l := by
  have hpending : ∀ pre, pending ends acc (items gap (a :: pre)) =
      pending ends (if ends a then [] else acc ++ [a]) (items gap pre) := by
    intro pre
    rw [items_cons_of_not_gap ha, pending]
    split <;> rfl
  constructor
  · intro h pre hpre
    rw [← hpending]
    exact h (a :: pre) (gapAfter_cons_cons.mpr ⟨rfl, hpre⟩)
  · intro h pre hpre
    cases pre with
    | nil => exact absurd ((gapAfter_cons_nil.mp hpre).symm.trans ha) (by decide)
    | cons b pre =>
      obtain ⟨rfl, hrest⟩ := gapAfter_cons_cons.mp hpre
      rw [hpending]
      exact h pre hrest

/-- A unit without a gap does not matter. -/
theorem alignedFrom_append (hgap : ∀ a ∈ seg, gap a = false) (hseg : ∀ a ∈ seg, ends a = false) :
    AlignedFrom ends gap acc (seg ++ l) ↔ AlignedFrom ends gap (acc ++ seg) l := by
  induction seg generalizing acc with
  | nil => rw [List.nil_append, List.append_nil]
  | cons a seg ih =>
    obtain ⟨ha, hseg⟩ := List.forall_mem_cons.mp hseg
    obtain ⟨hga, hgap⟩ := List.forall_mem_cons.mp hgap
    rw [List.cons_append, alignedFrom_cons hga, if_neg (by simp [ha]), ih hgap hseg,
      List.append_assoc, List.singleton_append]

end Camkit
