import Mathlib.Data.List.Nodup
import Mathlib.Logic.Function.Basic
/-!
# Chains of cells

Singly linked lists over one stock of cells, each cell with room for one
link. A link is stored in a `Place`: the head of a list, or a cell. `Chain`
says which cells a link leads through, and `Chains` that the heads lead
through cells of their own. A cell is unlinked by giving the place that led
to it the link it holds, and linked in at the head or at the end of a list;
what these do to the lists is said here once.
-/

namespace Camkit

/-- Where a link is stored. -/
inductive Place (ι α : Type*) where
  | head (i : ι)
  | next (a : α)
  deriving DecidableEq, Repr

/-- The links of all places. -/
abbrev Links (ι α : Type*) := Place ι α → Option α

variable {ι α : Type*}

/-- A link leads through the cells of a list, and the last of them ends
it. -/
def Chain (m : Links ι α) : Option α → List α → Prop
  | v, [] => v = none
  | v, a :: l => v = some a ∧ Chain m (m (.next a)) l

/-- The place behind the last of some cells, coming from `p`. -/
def Place.after (p : Place ι α) : List α → Place ι α
  | [] => p
  | a :: l => (Place.next a).after l

variable {m m' : Links ι α} {v v' : Option α} {p : Place ι α} {a b : α}
variable {l l' l₁ l₂ : List α} {i j : ι}

/-! ## Places -/

theorem Place.next_ne_head (a : α) (i : ι) : Place.next a ≠ Place.head i := by simp

@[simp] theorem Place.after_nil : p.after ([] : List α) = p := rfl

theorem Place.after_concat : p.after (l ++ [a]) = .next a := by
  induction l generalizing p with
  | nil => rfl
  | cons b l ih => exact ih

/-- The place behind some cells is where they came from, or one of them. -/
theorem Place.after_cases (p : Place ι α) (l : List α) :
    (l = [] ∧ p.after l = p) ∨ ∃ a ∈ l, p.after l = .next a := by
  induction l generalizing p with
  | nil => exact .inl ⟨rfl, rfl⟩
  | cons b l ih =>
    refine .inr ?_
    rcases ih (.next b) with ⟨-, heq⟩ | ⟨a, ha, heq⟩
    · exact ⟨b, List.mem_cons_self, heq⟩
    · exact ⟨a, List.mem_cons_of_mem _ ha, heq⟩

/-- It is no cell besides. -/
theorem Place.after_ne_next (hp : p ≠ .next b) (hb : b ∉ l) : p.after l ≠ .next b := by
  rcases Place.after_cases p l with ⟨-, heq⟩ | ⟨a, ha, heq⟩
  · rw [heq]
    exact hp
  · rw [heq]
    rintro ⟨⟩
    exact hb ha

/-! ## One chain -/

namespace Chain

theorem head? (h : Chain m v l) : v = l.head? := by
  cases l with
  | nil => exact h
  | cons a l => exact h.1

/-- A link leads through one list only. -/
theorem unique (h : Chain m v l) (h' : Chain m v l') : l = l' := by
  induction l generalizing v l' with
  | nil =>
    cases l' with
    | nil => rfl
    | cons b l' => exact absurd (h.symm.trans h'.1) (by simp)
  | cons a l ih =>
    cases l' with
    | nil => exact absurd (h.1.symm.trans h') (by simp)
    | cons b l' =>
      obtain rfl := Option.some.inj (h.1.symm.trans h'.1)
      rw [ih h.2 h'.2]

/-- Links stored elsewhere do not matter. -/
theorem congr (h : Chain m v l) (hl : ∀ a ∈ l, m' (.next a) = m (.next a)) : Chain m' v l := by
  induction l generalizing v with
  | nil => exact h
  | cons a l ih =>
    refine ⟨h.1, ?_⟩
    rw [hl a List.mem_cons_self]
    exact ih h.2 fun b hb => hl b (List.mem_cons_of_mem _ hb)

/-- Behind some cells the links lead on through the others. -/
theorem drop (h : Chain m (m p) (l₁ ++ l₂)) : Chain m (m (p.after l₁)) l₂ := by
  induction l₁ generalizing p with
  | nil => exact h
  | cons a l₁ ih => exact ih h.2

/-- **A chain has no cell twice**, for it would lead on from it in two
ways. -/
theorem nodup (h : Chain m v l) : l.Nodup := by
  induction l generalizing v with
  | nil => exact List.nodup_nil
  | cons a l ih =>
    refine List.nodup_cons.mpr ⟨fun ha => ?_, ih h.2⟩
    obtain ⟨l₁, l₂, rfl⟩ := List.append_of_mem ha
    have hlen := congrArg List.length (h.2.unique h.2.drop.2)
    rw [List.length_append, List.length_cons] at hlen
    omega

variable [DecidableEq ι] [DecidableEq α]

/-- **A chain led on** from its last cell through others. -/
theorem join (h : Chain m v (l ++ [a])) (hv : Chain m v' l') (ha : a ∉ l') :
    Chain (Function.update m (.next a) v') v (l ++ a :: l') := by
  induction l generalizing v with
  | nil =>
    refine ⟨h.1, ?_⟩
    rw [Function.update_self]
    exact hv.congr fun b hb => Function.update_of_ne (by rintro ⟨⟩; exact ha hb) ..
  | cons b l ih =>
    obtain ⟨hb, -⟩ := List.nodup_cons.mp h.nodup
    refine ⟨h.1, ?_⟩
    rw [Function.update_of_ne (by
      rintro ⟨⟩
      exact hb (List.mem_append_right _ List.mem_cons_self))]
    exact ih h.2

/-- **Another end.** Where the link behind some cells is changed to one
that leads through other cells, so does the chain. -/
theorem update_after (h : Chain m (m p) (l₁ ++ l₂)) (hp : ∀ a ∈ l₁, p ≠ .next a)
    (hv : Chain (Function.update m (p.after l₁) v) v l) :
    Chain (Function.update m (p.after l₁) v) (Function.update m (p.after l₁) v p) (l₁ ++ l) := by
  induction l₁ generalizing p with
  | nil =>
    rw [Place.after_nil, Function.update_self] at *
    exact hv
  | cons a l₁ ih =>
    obtain ⟨ha, -⟩ := List.nodup_cons.mp h.nodup.of_append_left
    have hne : p ≠ p.after (a :: l₁) := by
      rcases Place.after_cases p (a :: l₁) with ⟨heq, -⟩ | ⟨b, hb, heq⟩
      · exact absurd heq (by simp)
      · rw [heq]
        exact hp b hb
    rw [Function.update_of_ne hne]
    refine ⟨h.1, ih h.2 (fun b hb heq => ?_) hv⟩
    obtain rfl := Place.next.inj heq
    exact ha hb

end Chain

/-! ## Following the links -/

/-- The cells a link leads through, `n` at most. -/
def Links.follow (m : Links ι α) : ℕ → Option α → List α
  | 0, _ => []
  | _ + 1, none => []
  | n + 1, some a => a :: m.follow n (m (.next a))

/-- From a place on, the first place whose link is no cell or one that has
`q`; `none` where `n` places do not have it. -/
def Links.find (m : Links ι α) (q : α → Bool) : ℕ → Place ι α → Option (Place ι α)
  | 0, _ => none
  | n + 1, p =>
    match m p with
    | none => some p
    | some a => if q a then some p else m.find q n (.next a)

variable {n : ℕ} {q : α → Bool}

theorem Chain.follow_eq (h : Chain m v l) (hn : l.length ≤ n) : m.follow n v = l := by
  induction n generalizing v l with
  | zero =>
    obtain rfl := List.eq_nil_of_length_eq_zero (Nat.le_zero.mp hn)
    rfl
  | succ n ih =>
    cases l with
    | nil =>
      obtain rfl : v = none := h
      rfl
    | cons a l =>
      obtain ⟨rfl, hl⟩ := h
      rw [Links.follow, ih hl (Nat.le_of_succ_le_succ hn)]

/-- **The first cell with `q`**, or the end. -/
theorem Chain.find_eq (h : Chain m (m p) (l₁ ++ l₂)) (h₁ : ∀ a ∈ l₁, q a = false)
    (h₂ : ∀ a ∈ l₂.head?, q a = true) (hn : l₁.length < n) : m.find q n p = some (p.after l₁) := by
  induction n generalizing p l₁ with
  | zero => exact absurd hn (Nat.not_lt_zero _)
  | succ n ih =>
    rw [Links.find]
    cases l₁ with
    | nil =>
      rw [h.head?, List.nil_append]
      cases l₂ with
      | nil => rfl
      | cons a l₂ => exact if_pos (h₂ a rfl)
    | cons a l₁ =>
      rw [h.1]
      simp only
      rw [if_neg (by rw [h₁ a List.mem_cons_self]; decide)]
      exact ih h.2 (fun b hb => h₁ b (List.mem_cons_of_mem _ hb))
        (Nat.lt_of_succ_lt_succ hn)

/-! ## Several lists -/

/-- **The heads lead through lists of their own.** -/
structure Chains (m : Links ι α) (L : ι → List α) : Prop where
  chain : ∀ i, Chain m (m (.head i)) (L i)
  apart : ∀ i j a, a ∈ L i → a ∈ L j → i = j

namespace Chains

variable {L : ι → List α}

theorem unique {L' : ι → List α} (h : Chains m L) (h' : Chains m L') : L = L' :=
  funext fun i => (h.chain i).unique (h'.chain i)

theorem nodup (h : Chains m L) (i : ι) : (L i).Nodup := (h.chain i).nodup

variable [DecidableEq ι]

/-- What is in the lists after one of them is exchanged. -/
theorem apart_update (h : Chains m L) (hl : ∀ a ∈ l, a ∈ L i ∨ ∀ j, a ∉ L j) (j k : ι) (a : α)
    (hj : a ∈ Function.update L i l j) (hk : a ∈ Function.update L i l k) : j = k := by
  have hother : ∀ j, j ≠ i → a ∈ Function.update L i l j → a ∈ L j := fun j hne hmem => by
    rwa [Function.update_of_ne hne] at hmem
  have hthis : ∀ j, a ∈ l → a ∈ L j → i = j := fun j hmem hj => by
    rcases hl a hmem with hi | hnone
    · exact h.apart i j a hi hj
    · exact absurd hj (hnone j)
  by_cases hji : j = i
  · subst hji
    rw [Function.update_self] at hj
    by_cases hki : k = j
    · exact hki.symm
    · exact hthis k hj (hother k hki hk)
  · by_cases hki : k = i
    · subst hki
      rw [Function.update_self] at hk
      exact (hthis j hk (hother j hji hj)).symm
    · exact h.apart j k a (hother j hji hj) (hother k hki hk)

variable [DecidableEq α]

/-- **Another end of one list**, which leads through cells of its own or of
none. -/
theorem update_after (h : Chains m L) (hi : L i = l₁ ++ l₂)
    (hl : ∀ a ∈ l, a ∈ L i ∨ ∀ j, a ∉ L j)
    (hv : Chain (Function.update m ((Place.head i).after l₁) v) v l) :
    Chains (Function.update m ((Place.head i).after l₁) v) (Function.update L i (l₁ ++ l)) := by
  refine ⟨fun j => ?_, h.apart_update fun a ha => ?_⟩
  · by_cases hji : j = i
    · subst hji
      rw [Function.update_self]
      exact Chain.update_after (hi ▸ h.chain j) (fun a _ => by simp) hv
    · -- the places of the other lists are none of this one
      have hcells : ∀ a ∈ L j, (Place.head i).after l₁ ≠ .next a := fun a ha =>
        Place.after_ne_next (by simp) fun hmem =>
          hji (h.apart j i a ha (hi ▸ List.mem_append_left _ hmem))
      have hhead : (Place.head i).after l₁ ≠ .head j := by
        rcases Place.after_cases (Place.head i) l₁ with ⟨-, heq⟩ | ⟨a, -, heq⟩
        · rw [heq]
          rintro ⟨⟩
          exact hji rfl
        · rw [heq]
          simp
      rw [Function.update_of_ne hji, Function.update_of_ne hhead.symm]
      exact (h.chain j).congr fun a ha => Function.update_of_ne (hcells a ha).symm ..
  · rcases List.mem_append.mp ha with ha | ha
    · exact .inl (hi ▸ List.mem_append_left _ ha)
    · exact hl a ha

/-- **A cell unlinked.** -/
theorem unlink (h : Chains m L) (hi : L i = l₁ ++ a :: l₂) :
    Chains (Function.update m ((Place.head i).after l₁) (m (.next a)))
      (Function.update L i (l₁ ++ l₂)) := by
  refine h.update_after hi (fun b hb => .inl ?_) ?_
  · rw [hi]
    exact List.mem_append_right _ (List.mem_cons_of_mem _ hb)
  · have hchain := (hi ▸ h.chain i).drop.2
    have hnodup := hi ▸ h.nodup i
    refine hchain.congr fun b hb => Function.update_of_ne (Ne.symm ?_) ..
    exact Place.after_ne_next (by simp) fun hmem =>
      List.disjoint_of_nodup_append hnodup hmem (List.mem_cons_of_mem _ hb)

/-- A link of a cell that is in no list does not matter. -/
theorem update_next (h : Chains m L) (ha : ∀ j, a ∉ L j) :
    Chains (Function.update m (.next a) v) L := by
  refine ⟨fun j => ?_, h.apart⟩
  rw [Function.update_of_ne (by simp)]
  refine (h.chain j).congr fun b hb => Function.update_of_ne ?_ ..
  rintro ⟨⟩
  exact ha j hb

/-- **A cell linked in at the head.** -/
theorem push (h : Chains m L) (ha : ∀ j, a ∉ L j) :
    Chains (Function.update (Function.update m (.next a) (m (.head i))) (.head i) (some a))
      (Function.update L i (a :: L i)) := by
  have hnext := h.update_next (v := m (.head i)) ha
  refine hnext.update_after (l := a :: L i) (List.nil_append _).symm ?_ ⟨rfl, ?_⟩
  · rintro b (_ | ⟨_, hb⟩)
    · exact .inr ha
    · exact .inl hb
  · have hchain := hnext.chain i
    rw [Function.update_of_ne (by simp)] at hchain
    rw [Place.after_nil, Function.update_of_ne (by simp), Function.update_self]
    exact hchain.congr fun b _ => Function.update_of_ne (Place.next_ne_head b i) ..

/-- **A chain of other cells linked in** in front of a list. -/
theorem prepend (h : Chains m L) (hv : Chain m v (l ++ [a])) (hl : ∀ b ∈ l ++ [a], ∀ j, b ∉ L j) :
    Chains (Function.update (Function.update m (.next a) (m (.head i))) (.head i) v)
      (Function.update L i (l ++ a :: L i)) := by
  have ha : ∀ j, a ∉ L j := hl a (List.mem_append_right _ List.mem_cons_self)
  have hjoin := hv.join (h.chain i) (ha i)
  refine (h.update_next ha).update_after (l := l ++ a :: L i) (List.nil_append _).symm ?_ ?_
  · intro b hb
    rcases List.mem_append.mp hb with hb | hb
    · exact .inr (hl b (List.mem_append_left _ hb))
    · rcases List.mem_cons.mp hb with rfl | hb
      · exact .inr ha
      · exact .inl hb
  · rw [Place.after_nil]
    exact hjoin.congr fun b _ => Function.update_of_ne (Place.next_ne_head b i) ..

/-- **A cell linked in at the end.** -/
theorem append (h : Chains m L) (ha : ∀ j, a ∉ L j) :
    Chains (Function.update (Function.update m ((Place.head i).after (L i)) (some a))
      (.next a) none) (Function.update L i (L i ++ [a])) := by
  have hne : (Place.head i).after (L i) ≠ .next a := Place.after_ne_next (by simp) (ha i)
  have hnext := h.update_next (v := none) ha
  have hlinked := hnext.update_after (v := some a) (l := [a])
    (List.append_nil _).symm (fun b hb => .inr (List.mem_singleton.mp hb ▸ ha)) ⟨rfl, by
      rw [Function.update_of_ne hne.symm, Function.update_self]
      rfl⟩
  rwa [Function.update_comm hne.symm] at hlinked

end Chains

end Camkit
