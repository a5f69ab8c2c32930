import Camkit.Common.Selection
import Camkit.Ilclient.Model.Transition
import Mathlib.Data.Finset.Card
import Mathlib.Data.Finset.Dedup
/-!
# IL client — each component is told once

The field `private` is the key of a component while it is to be told, and 0
afterwards. The rounds select the components by it, so they are told in its
order; a round too many, for a component that stands in the list twice, finds
none.
-/

namespace Camkit

namespace Ilclient

open Selection

variable {ι : Type} [DecidableEq ι] {priv : ι → ℕ} {list : List ι} {state : UInt32} {n : ℕ} {c : ι}
variable {rand : ℕ → ℕ} {actions : List (Action ι)}

/-- The components to be told. -/
def untold (priv : ι → ℕ) (list : List ι) : List ι := list.filter fun c => priv c ≠ 0

omit [DecidableEq ι] in
theorem untold_cons : untold priv (c :: list) =
    if priv c ≠ 0 then c :: untold priv list else untold priv list := by
  rw [untold, List.filter_cons]
  simp only [decide_eq_true_eq]
  rfl

omit [DecidableEq ι] in
/-- **The inner loop** finds the least of the components to be told. -/
theorem minLoop_eq (min : Option ι) :
    minLoop priv list min = least priv (untold priv list) min := by
  induction list generalizing min with
  | nil => rfl
  | cons c list ih =>
    rw [minLoop, ih, untold_cons]
    by_cases hc : priv c = 0
    · rw [if_neg fun h => h.1 hc, if_neg fun h => h hc]
    · rw [if_pos hc]
      cases min with
      | none => rw [if_pos ⟨hc, .inl rfl⟩, least]
      | some m =>
        rw [least]
        by_cases hlt : priv c < priv m
        · rw [if_pos ⟨hc, .inr ⟨m, rfl, hlt⟩⟩, if_pos hlt]
        · rw [if_neg hlt, if_neg]
          rintro ⟨-, hnone | ⟨m', hm', hlt'⟩⟩
          · exact absurd hnone (by simp)
          · obtain rfl := Option.some.inj hm'
            exact hlt hlt'

/-- A component told is not to be told again. -/
theorem untold_update : untold (Function.update priv c 0) list =
    (untold priv list).filter fun a => a ≠ c := by
  rw [untold, untold, List.filter_filter]
  refine List.filter_congr fun a _ => ?_
  by_cases ha : a = c
  · subst ha
    simp
  · simp [ha]

/-! ## The rounds -/

/-- **The rounds find a component each** exactly where there are components
enough. -/
theorem sendLoop_ok_iff : (∃ actions, sendLoop list state n priv = .ok actions) ↔
    n ≤ (untold priv list).toFinset.card := by
  induction n generalizing priv with
  | zero => exact ⟨fun _ => Nat.zero_le _, fun _ => ⟨[], rfl⟩⟩
  | succ n ih =>
    rw [sendLoop, minLoop_eq]
    rcases eq_or_ne (untold priv list) [] with hnil | hne
    · rw [hnil]
      simp [least]
    · obtain ⟨m, hleast, hfirst⟩ : ∃ m, least priv (untold priv list) none = some m ∧ _ :=
        least_none hne
      have herase : (untold (Function.update priv m 0) list).toFinset =
          (untold priv list).toFinset.erase m := by
        rw [untold_update]
        ext a
        simp [and_comm]
      have hcard := Finset.card_erase_add_one (List.mem_toFinset.mpr hfirst.mem)
      have hrest :
          (∃ actions, sendLoop list state n (Function.update priv m 0) = .ok actions) ↔ _ := ih
      rw [herase] at hrest
      rw [hleast]
      constructor
      · rintro ⟨actions, hactions⟩
        simp only at hactions
        split at hactions
        · exact absurd hactions (by simp)
        · rename_i rest hok
          have := hrest.mp ⟨rest, hok⟩
          omega
      · intro hle
        obtain ⟨rest, hok⟩ := hrest.mpr (by omega)
        simp only [hok]
        exact ⟨_, rfl⟩

/-- What is done in a round. -/
def tell (state : UInt32) (c : ι) : List (Action ι) := [.flagsGet c, .sendCommand c state]

/-- **The rounds select the components**, if none stands in the list twice. -/
theorem sendLoop_eq (hnodup : list.Nodup) (hn : n ≤ (untold priv list).length) :
    sendLoop list state n priv = .ok ((select priv n (untold priv list)).flatMap (tell state)) := by
  induction n generalizing priv with
  | zero => rfl
  | succ n ih =>
    have hne : untold priv list ≠ [] := List.ne_nil_of_length_pos (by omega)
    obtain ⟨m, hleast, hfirst⟩ : ∃ m, least priv (untold priv list) none = some m ∧ _ :=
      least_none hne
    have hlen := List.length_erase_of_mem hfirst.mem
    have huntold : (untold priv list).Nodup := hnodup.filter _
    have herase : untold (Function.update priv m 0) list = (untold priv list).erase m := by
      rw [untold_update, huntold.erase_eq_filter]
      exact List.filter_congr fun a _ => by by_cases ha : a = m <;> simp [ha]
    -- the keys of the others are what they were
    have hkeys : ∀ a ∈ (untold priv list).erase m, Function.update priv m 0 a = priv a :=
      fun a ha => Function.update_of_ne (huntold.mem_erase_iff.mp ha).1 ..
    have hrest : sendLoop list state n (Function.update priv m 0) = _ := ih (by rw [herase]; omega)
    rw [herase, select_congr hkeys] at hrest
    rw [sendLoop, minLoop_eq, select, hleast]
    simp only [hrest, List.flatMap_cons]
    rfl

/-! ## The draws -/

theorem draw_of_notMem {i : ℕ} (hc : c ∉ list) : draw rand i list priv c = priv c := by
  induction list generalizing i priv with
  | nil => rfl
  | cons a list ih =>
    rw [draw, ih (fun hmem => hc (List.mem_cons_of_mem a hmem))]
    exact Function.update_of_ne (List.ne_of_not_mem_cons hc) ..

/-- **Each component is to be told**, whatever is drawn. -/
theorem draw_ne_zero {i : ℕ} (hc : c ∈ list) : draw rand i list priv c ≠ 0 := by
  induction list generalizing i priv with
  | nil => exact absurd hc List.not_mem_nil
  | cons a list ih =>
    rw [draw]
    by_cases hmem : c ∈ list
    · exact ih hmem
    · obtain rfl := (List.mem_cons.mp hc).resolve_right hmem
      rw [draw_of_notMem hmem, Function.update_self]
      exact Nat.succ_ne_zero _

theorem untold_draw : untold (draw rand 0 list priv) list = list :=
  List.filter_eq_self.mpr fun _ hc => decide_eq_true (draw_ne_zero hc)

/-! ## The transition -/

/-- **When a transition stays within its list.** Whatever is drawn, it reads
`list[-1]` if and only if a component stands in the list twice. -/
theorem stateTransition_ok_iff :
    (∃ actions, stateTransition rand priv list state = .ok actions) ↔ list.Nodup := by
  have hsend : (∃ actions, sendLoop list state list.length (draw rand 0 list priv) = .ok actions) ↔
      _ := sendLoop_ok_iff
  have hcard : list.length ≤ list.toFinset.card ↔ list.Nodup := by
    rw [← Multiset.coe_nodup, ← Multiset.toFinset_card_eq_card_iff_nodup]
    exact ⟨fun hle => le_antisymm list.toFinset_card_le hle, fun heq => heq.ge⟩
  rw [untold_draw, hcard] at hsend
  rw [← hsend, stateTransition]
  cases sendLoop list state list.length (draw rand 0 list priv) with
  | error f => simp
  | ok actions => simp

/-- **Every component is told exactly once, before any is waited for**, in the
order of what is drawn, and where that is the same in the order of the list. -/
theorem stateTransition_eq (hnodup : list.Nodup) :
    ∃ order : List ι, order.Perm list ∧ order.Pairwise (Before (draw rand 0 list priv) list) ∧
      stateTransition rand priv list state = .ok
        ((if state = stateLoaded then list.map .mask else []) ++ order.flatMap (tell state) ++
          list.map (.wait · state) ++ if state = stateLoaded then list.map .unmask else []) := by
  refine ⟨select (draw rand 0 list priv) list.length list, select_perm le_rfl,
    select_pairwise le_rfl, ?_⟩
  rw [stateTransition, sendLoop_eq hnodup (by rw [untold_draw]), untold_draw]

/-- Two components that draw one number. -/
theorem stateTransition_eq_two :
    ∃ order : List Bool, order.Perm [false, true] ∧
      stateTransition (fun _ => 0) (fun _ => 0) [false, true] 2 =
        .ok (order.flatMap (tell 2) ++ [.wait false 2, .wait true 2]) := by
  have hnodup : [false, true].Nodup := by simp
  obtain ⟨order, hperm, -, hrun⟩ :=
    @stateTransition_eq Bool _ (fun _ => 0) [false, true] 2 (fun _ => 0) hnodup
  refine ⟨order, hperm, hrun.trans ?_⟩
  rw [if_neg (by decide), if_neg (by decide), List.nil_append, List.append_nil]
  rfl

end Ilclient

end Camkit
