import Mathlib.Data.List.Perm.Basic
import Mathlib.Order.Lattice
/-!
# Selection by least key

Going through a list, the first element of least key; and taking it out, again
and again. What comes out is the list in order of the keys, elements of one
key in the order they had.
-/

namespace Camkit

namespace Selection

variable {α κ : Type*} [LinearOrder κ] (key : α → κ)

/-- The first element of least key of `min` and a list behind it. -/
def least : List α → Option α → Option α
  | [], min => min
  | a :: l, none => least l (some a)
  | a :: l, some m => least l (some (if key a < key m then a else m))

/-- `n` times the first element of least key taken out of a list. -/
def select [DecidableEq α] : ℕ → List α → List α
  | 0, _ => []
  | n + 1, l =>
    match least key l none with
    | none => []
    | some m => m :: select n (l.erase m)

/-- `a` comes out before `b`. -/
def Before (l : List α) (a b : α) : Prop := key a < key b ∨ key a = key b ∧ [a, b].Sublist l

variable {key} {l l' : List α} {a b m : α} {n : ℕ}

/-- An element of least key, and the first of them. -/
def First (key : α → κ) (l : List α) (m : α) : Prop :=
  ∃ l₁ l₂, l = l₁ ++ m :: l₂ ∧ (∀ a ∈ l₁, key m < key a) ∧ ∀ a ∈ l₂, key m ≤ key a

theorem least_some (m : α) (l : List α) : ∃ m', least key l (some m) = some m' ∧
    First key (m :: l) m' := by
  induction l generalizing m with
  | nil => exact ⟨m, rfl, [], [], rfl, by simp, by simp⟩
  | cons a l ih =>
    rw [least]
    by_cases ha : key a < key m
    · rw [if_pos ha]
      obtain ⟨m', hleast, l₁, l₂, hl, h₁, h₂⟩ := ih a
      refine ⟨m', hleast, m :: l₁, l₂, by rw [hl]; rfl, ?_, h₂⟩
      -- what is least from `a` on is less than `m`
      have hle : key m' ≤ key a := by
        cases l₁ with
        | nil => exact (List.cons.inj hl).1 ▸ le_rfl
        | cons b l₁ =>
          obtain ⟨rfl, -⟩ := List.cons.inj hl
          exact (h₁ a List.mem_cons_self).le
      exact List.forall_mem_cons.mpr ⟨hle.trans_lt ha, h₁⟩
    · rw [if_neg ha]
      obtain ⟨m', hleast, l₁, l₂, hl, h₁, h₂⟩ := ih m
      cases l₁ with
      | nil =>
        obtain ⟨rfl, rfl⟩ := List.cons.inj hl
        exact ⟨m, hleast, [], a :: l, rfl, by simp, List.forall_mem_cons.mpr ⟨not_lt.mp ha, h₂⟩⟩
      | cons b l₁ =>
        obtain ⟨rfl, rfl⟩ := List.cons.inj hl
        obtain ⟨hm, h₁⟩ := List.forall_mem_cons.mp h₁
        exact ⟨m', hleast, m :: a :: l₁, l₂, rfl, List.forall_mem_cons.mpr ⟨hm,
          List.forall_mem_cons.mpr ⟨hm.trans_le (not_lt.mp ha), h₁⟩⟩, h₂⟩

/-- **The least of a list** is the first of least key. -/
theorem least_none (hl : l ≠ []) : ∃ m, least key l none = some m ∧ First key l m := by
  cases l with
  | nil => exact absurd rfl hl
  | cons a l => exact least_some a l

theorem First.mem (h : First key l m) : m ∈ l := by
  obtain ⟨l₁, l₂, rfl, -, -⟩ := h
  exact List.mem_append_right _ List.mem_cons_self

/-- Only the keys of the list matter. -/
theorem least_congr {key' : α → κ} {min : Option α} (hl : ∀ a ∈ l, key a = key' a)
    (hmin : ∀ m ∈ min, key m = key' m) : least key l min = least key' l min := by
  induction l generalizing min with
  | nil => rfl
  | cons a l ih =>
    obtain ⟨ha, hl⟩ := List.forall_mem_cons.mp hl
    cases min with
    | none => exact ih hl fun m hm => Option.some.inj hm ▸ ha
    | some m =>
      have hm := hmin m rfl
      rw [least, least, ha, hm]
      refine ih hl fun m' hm' => ?_
      rw [← Option.some.inj hm']
      split
      · exact ha
      · exact hm

variable [DecidableEq α]

theorem select_congr {key' : α → κ} (hl : ∀ a ∈ l, key a = key' a) :
    select key n l = select key' n l := by
  induction n generalizing l with
  | zero => rfl
  | succ n ih =>
    rw [select, select, least_congr hl (by simp)]
    cases least key' l none with
    | none => rfl
    | some m => exact congrArg (m :: ·) (ih fun a ha => hl a (List.mem_of_mem_erase ha))

/-- The first comes before all the others. -/
theorem First.before (h : First key l m) (hb : b ∈ l.erase m) : Before key l m b := by
  obtain ⟨l₁, l₂, rfl, h₁, h₂⟩ := h
  have hm : m ∉ l₁ := fun hm => (h₁ m hm).false
  rw [List.erase_append_right _ hm, List.erase_cons_head] at hb
  rcases List.mem_append.mp hb with hb | hb
  · exact .inl (h₁ b hb)
  · rcases lt_or_eq_of_le (h₂ b hb) with hlt | heq
    · exact .inl hlt
    · refine .inr ⟨heq, List.Sublist.trans ?_ (List.sublist_append_right l₁ _)⟩
      exact List.Sublist.cons_cons m (List.singleton_sublist.mpr hb)

omit [DecidableEq α] in
theorem Before.mono (h : Before key l a b) (hl : l.Sublist l') : Before key l' a b :=
  h.imp_right fun ⟨heq, hsub⟩ => ⟨heq, hsub.trans hl⟩

/-- **All of a list comes out**, if there are rounds enough. -/
theorem select_perm (hn : l.length ≤ n) : (select key n l).Perm l := by
  induction n generalizing l with
  | zero =>
    obtain rfl := List.eq_nil_of_length_eq_zero (Nat.le_zero.mp hn)
    exact List.Perm.nil
  | succ n ih =>
    rw [select]
    rcases eq_or_ne l [] with rfl | hl
    · exact List.Perm.nil
    · obtain ⟨m, hleast, hfirst⟩ : ∃ m, least key l none = some m ∧ _ := least_none hl
      have hlen := List.length_erase_of_mem hfirst.mem
      rw [hleast]
      exact ((ih (by omega)).cons m).trans (List.perm_cons_erase hfirst.mem).symm

/-- **In order**, of the keys and of the list. -/
theorem select_pairwise (hn : l.length ≤ n) : (select key n l).Pairwise (Before key l) := by
  induction n generalizing l with
  | zero => exact List.Pairwise.nil
  | succ n ih =>
    rw [select]
    rcases eq_or_ne l [] with rfl | hl
    · exact List.Pairwise.nil
    · obtain ⟨m, hleast, hfirst⟩ : ∃ m, least key l none = some m ∧ _ := least_none hl
      have hlen := List.length_erase_of_mem hfirst.mem
      have hrest : (l.erase m).length ≤ n := by omega
      rw [hleast]
      refine List.pairwise_cons.mpr ⟨fun b hb => ?_, ?_⟩
      · exact hfirst.before ((select_perm hrest).mem_iff.mp hb)
      · exact (ih hrest).imp fun h => h.mono List.erase_sublist

end Selection

end Camkit
