import Mathlib.Data.List.Induction
import Mathlib.Data.Multiset.AddSub
import Mathlib.Data.Multiset.Count
import Mathlib.Data.Multiset.MapFold
/-!
# A ledger of resources

What a piece of code takes and gives back, in the order it does so. Posting
the entries one after the other tells what is held at the end. An entry that
gives back what is not held — a resource never taken, or given back
before — cannot be posted, so a ledger that leaves nothing has given back
everything it took exactly once.
-/

namespace Camkit

namespace Ledger

variable {α : Type*}

/-- An entry of a ledger. -/
inductive Entry (α : Type*) where
  | acquire (r : α)
  | release (r : α)
  deriving DecidableEq, Repr

/-- The entry for what a resource stands for. -/
def Entry.map {β : Type*} (f : α → β) : Entry α → Entry β
  | .acquire r => .acquire (f r)
  | .release r => .release (f r)

variable [DecidableEq α]

/-- What is held after an entry, if it can be posted. -/
def post (held : Multiset α) : Entry α → Option (Multiset α)
  | .acquire r => some (r ::ₘ held)
  | .release r => if r ∈ held then some (held.erase r) else none

/-- **A ledger leaves `held`**, if it is posted from nothing. -/
def Leaves (l : List (Entry α)) (held : Multiset α) : Prop := l.foldlM post 0 = some held

/-- Everything taken has been given back, and exactly once. -/
def Settled (l : List (Entry α)) : Prop := Leaves l 0

instance (l : List (Entry α)) (held : Multiset α) : Decidable (Leaves l held) := by
  unfold Leaves
  infer_instance

instance (l : List (Entry α)) : Decidable (Settled l) := by
  unfold Settled
  infer_instance

variable {l : List (Entry α)} {held held' : Multiset α} {r : α} {e : Entry α}

theorem leaves_nil : Leaves ([] : List (Entry α)) 0 := rfl

/-- A ledger leaves one thing. -/
theorem Leaves.unique (h : Leaves l held) (h' : Leaves l held') : held = held' :=
  Option.some.inj (h.symm.trans h')

/-- A ledger with one more entry. -/
theorem Leaves.concat (h : Leaves l held) : Leaves (l ++ [e]) held' ↔ post held e = some held' := by
  have hfold : (l ++ [e]).foldlM post 0 = post held e := by
    rw [List.foldlM_append, h]
    exact bind_pure (post held e)
  rw [Leaves, hfold]

theorem Leaves.acquire (h : Leaves l held) (r : α) : Leaves (l ++ [.acquire r]) (r ::ₘ held) :=
  h.concat.mpr rfl

theorem Leaves.release (h : Leaves l (r ::ₘ held)) : Leaves (l ++ [.release r]) held := by
  refine h.concat.mpr ?_
  rw [post, if_pos (Multiset.mem_cons_self r held), Multiset.erase_cons_head]

/-- Several things taken, one after the other. -/
theorem Leaves.acquire_list (h : Leaves l held) (rs : List α) :
    Leaves (l ++ rs.map .acquire) ((rs : Multiset α) + held) := by
  induction rs using List.reverseRecOn with
  | nil => simpa using h
  | append_singleton rs r ih =>
    have hcons : ((rs ++ [r] : List α) : Multiset α) + held = r ::ₘ ((rs : Multiset α) + held) := by
      rw [← Multiset.cons_add, Multiset.cons_coe]
      exact congrArg (· + held) (Multiset.coe_eq_coe.mpr (List.perm_append_singleton r rs))
    rw [List.map_append, ← List.append_assoc, hcons]
    exact ih.acquire r

/-- Several given back. -/
theorem Leaves.release_list {rs : List α} (h : Leaves l ((rs : Multiset α) + held)) :
    Leaves (l ++ rs.map .release) held := by
  induction rs generalizing l with
  | nil => simpa using h
  | cons r rs ih =>
    rw [List.map_cons, ← List.singleton_append, ← List.append_assoc]
    refine ih (Leaves.release ?_)
    rwa [← Multiset.cons_add, Multiset.cons_coe]

/-- A ledger and one entry more. -/
theorem leaves_concat : Leaves (l ++ [e]) held ↔
    ∃ held₁, Leaves l held₁ ∧ post held₁ e = some held := by
  have hfold : (l ++ [e]).foldlM post 0 = l.foldlM post 0 >>= fun held => post held e := by
    rw [List.foldlM_append]
    exact congrArg _ (funext fun held => bind_pure (post held e))
  rw [Leaves, hfold, Option.bind_eq_bind, Option.bind_eq_some_iff]
  exact Iff.rfl

/-! Posting is local: what else is held does not matter. -/

/-- What is held besides changes nothing of an entry. -/
theorem post_add (hpost : post held e = some held') (rest : Multiset α) :
    post (held + rest) e = some (held' + rest) := by
  cases e with
  | acquire r =>
    obtain rfl := Option.some.inj hpost
    rw [post, Multiset.cons_add]
  | release r =>
    rw [post] at hpost
    split at hpost
    · rename_i hmem
      obtain rfl := Option.some.inj hpost
      rw [post, if_pos (Multiset.mem_add.mpr (.inl hmem)), Multiset.erase_add_left_pos _ hmem]
    · exact absurd hpost (by simp)

/-- **A ledger after another.** -/
theorem Leaves.append {l' : List (Entry α)} (h : Leaves l held) (h' : Leaves l' held') :
    Leaves (l ++ l') (held' + held) := by
  induction l' using List.reverseRecOn generalizing held' with
  | nil =>
    obtain rfl := leaves_nil.unique h'
    rw [List.append_nil, Multiset.zero_add]
    exact h
  | append_singleton l' e ih =>
    obtain ⟨held₁, hfirst, hpost⟩ := leaves_concat.mp h'
    rw [← List.append_assoc]
    exact leaves_concat.mpr ⟨held₁ + held, ih hfirst, post_add hpost held⟩

/-- What the resources stand for has a ledger too. -/
theorem Leaves.map {β : Type*} [DecidableEq β] (f : α → β) (h : Leaves l held) :
    Leaves (l.map (Entry.map f)) (held.map f) := by
  induction l using List.reverseRecOn generalizing held with
  | nil =>
    obtain rfl := leaves_nil.unique h
    exact leaves_nil
  | append_singleton l e ih =>
    obtain ⟨held₁, hfirst, hpost⟩ := leaves_concat.mp h
    rw [List.map_append, List.map_singleton]
    refine leaves_concat.mpr ⟨held₁.map f, ih hfirst, ?_⟩
    cases e with
    | acquire r =>
      obtain rfl := Option.some.inj hpost
      rw [Entry.map, post, Multiset.map_cons]
    | release r =>
      rw [post] at hpost
      split at hpost
      · rename_i hmem
        obtain rfl := Option.some.inj hpost
        rw [Entry.map, post, if_pos (Multiset.mem_map_of_mem f hmem),
          Multiset.map_erase_of_mem f held₁ hmem]
      · exact absurd hpost (by simp)

/-! A log in words of its own is a ledger by what its entries stand for. -/

section Log

variable {β : Type*} {f : β → Entry α} {log : List β} {x : β}

theorem Leaves.log_acquire (hx : f x = .acquire r) (h : Leaves (log.map f) held) :
    Leaves ((log ++ [x]).map f) (r ::ₘ held) := by
  rw [List.map_append, List.map_singleton, hx]
  exact h.acquire r

theorem Leaves.log_release (hx : f x = .release r) (h : Leaves (log.map f) (r ::ₘ held)) :
    Leaves ((log ++ [x]).map f) held := by
  rw [List.map_append, List.map_singleton, hx]
  exact h.release

end Log

/-- **One entry balances.** -/
theorem count_post (hpost : post held e = some held') (r : α) :
    held.count r + [e].count (.acquire r) = held'.count r + [e].count (.release r) := by
  cases e with
  | acquire r' =>
    obtain rfl := Option.some.inj hpost
    rw [Multiset.count_cons, List.count_singleton, List.count_singleton]
    by_cases heq : r = r'
    · subst heq
      simp
    · simp [heq, Ne.symm heq]
  | release r' =>
    rw [post] at hpost
    split at hpost
    · rename_i hmem
      obtain rfl := Option.some.inj hpost
      rw [List.count_singleton, List.count_singleton]
      by_cases heq : r = r'
      · subst heq
        have hpos := Multiset.count_pos.mpr hmem
        rw [Multiset.count_erase_self]
        simp
        omega
      · rw [Multiset.count_erase_of_ne heq]
        simp [Ne.symm heq]
    · exact absurd hpost (by simp)

/-- **A ledger balances**: of each resource, what is left is what was taken
and not given back. -/
theorem Leaves.count (h : Leaves l held) (r : α) :
    l.count (.acquire r) = held.count r + l.count (.release r) := by
  induction l using List.reverseRecOn generalizing held with
  | nil =>
    obtain rfl := leaves_nil.unique h
    simp
  | append_singleton l e ih =>
    obtain ⟨held₁, hfirst, hpost⟩ := leaves_concat.mp h
    have hsum := ih hfirst
    have hone := count_post hpost r
    rw [List.count_append, List.count_append]
    omega

/-- **Giving back a list** leaves what is held besides, if that is all there
is; otherwise it cannot be posted, or leaves something else. -/
theorem Leaves.release_list_iff {rs : List α} (h : Leaves l held) :
    Leaves (l ++ rs.map .release) held' ↔ held = (rs : Multiset α) + held' := by
  constructor
  · intro hrest
    refine Multiset.ext.mpr fun r => ?_
    have hfirst := h.count r
    have hboth := hrest.count r
    rw [List.count_append, List.count_append] at hboth
    have hacquire : (rs.map Entry.release).count (.acquire r) = 0 :=
      List.count_eq_zero.mpr (by simp)
    have hrelease : (rs.map Entry.release).count (.release r) = rs.count r :=
      List.count_map_of_injective rs Entry.release (fun _ _ heq => Entry.release.inj heq) r
    rw [Multiset.count_add, Multiset.coe_count]
    omega
  · rintro rfl
    exact h.release_list

end Ledger

end Camkit
