import Camkit.Common.Machine
import Mathlib.Data.List.Chain
import Mathlib.Data.List.ReduceOption
/-!
# Messages in numbered pieces

A sender cuts messages into pieces, the first and the last of a message
marked, and numbers the pieces one by one. The channel loses them, doubles
them and puts them in another order. A receiver that goes on with a message
only at the number it waits for completes a message exactly where its pieces
have just arrived, one right behind the other, as long as the numbers do not
come round between two arrivals.
-/

namespace Camkit

namespace Datagrams

variable {α N : Type*}

/-! ## Pieces -/

/-- A piece of a message. -/
structure Piece (α : Type*) where
  first : Bool
  last : Bool
  body : List α

/-- The pieces of a message that is cut in this way. -/
def pieces (bodies : List (List α)) : List (Piece α) :=
  bodies.mapIdx fun i body => ⟨i = 0, i + 1 = bodies.length, body⟩

/-- The messages with the index of the first piece of each. -/
def placed : ℕ → List (List (List α)) → List (ℕ × List (List α))
  | _, [] => []
  | k, f :: fs => (k, f) :: placed (k + f.length) fs

/-- The indices of the pieces of a message. -/
def span (x : ℕ × List (List α)) : List ℕ := List.range' x.1 x.2.length

variable {fs : List (List (List α))} {f : List (List α)} {x y : ℕ × List (List α)} {i j k n : ℕ}
variable {p : Piece α} {num : ℕ → N} {next : N → N} {pre arrivals : List ℕ} {a : N}
variable {s s' : Option (N × List α)} {part m : List α} {outs : List (Option (List α))}

@[simp] theorem length_pieces : (pieces f).length = f.length := List.length_mapIdx

theorem mem_span : i ∈ span x ↔ x.1 ≤ i ∧ i < x.1 + x.2.length := List.mem_range'_1

theorem le_of_mem_placed (hx : x ∈ placed k fs) : k ≤ x.1 := by
  induction fs generalizing k with
  | nil => exact absurd hx List.not_mem_nil
  | cons f fs ih =>
    rcases List.mem_cons.mp hx with rfl | hx
    · exact Nat.le_refl _
    · exact Nat.le_trans (Nat.le_add_right _ _) (ih hx)

theorem mem_of_mem_placed (hx : x ∈ placed k fs) : x.2 ∈ fs := by
  induction fs generalizing k with
  | nil => exact absurd hx List.not_mem_nil
  | cons f fs ih =>
    rcases List.mem_cons.mp hx with rfl | hx
    · exact List.mem_cons_self
    · exact List.mem_cons_of_mem _ (ih hx)

/-- **No piece is of two messages.** -/
theorem placed_unique (hx : x ∈ placed k fs) (hy : y ∈ placed k fs) (hix : i ∈ span x)
    (hiy : i ∈ span y) : x = y := by
  rw [mem_span] at hix hiy
  induction fs generalizing k with
  | nil => exact absurd hx List.not_mem_nil
  | cons f fs ih =>
    rcases List.mem_cons.mp hx with rfl | hx
    · rcases List.mem_cons.mp hy with rfl | hy
      · rfl
      · have hle := le_of_mem_placed hy
        simp only at hix hle
        omega
    · rcases List.mem_cons.mp hy with rfl | hy
      · have hle := le_of_mem_placed hx
        simp only at hiy hle
        omega
      · exact ih hx hy

/-- **Each piece is of one.** -/
theorem placed_of_getElem? (hi : (fs.flatMap pieces)[i]? = some p) :
    ∃ x ∈ placed k fs, k + i ∈ span x ∧ (pieces x.2)[k + i - x.1]? = some p := by
  induction fs generalizing k i with
  | nil => exact absurd hi (by simp)
  | cons f fs ih =>
    rw [List.flatMap_cons, List.getElem?_append, length_pieces] at hi
    split at hi
    · rename_i hlt
      refine ⟨(k, f), List.mem_cons_self, mem_span.mpr ⟨Nat.le_add_right _ _, by simpa⟩, ?_⟩
      rwa [Nat.add_sub_cancel_left]
    · rename_i hge
      obtain ⟨x, hx, hmem, hp⟩ := ih (k := k + f.length) hi
      rw [show k + f.length + (i - f.length) = k + i by omega] at hmem hp
      exact ⟨x, List.mem_cons_of_mem _ hx, hmem, hp⟩

/-! ## The receiver -/

/-- One piece with its number. What is kept is the number to go on with and
what has come of the message. -/
def accept [DecidableEq N] (next : N → N) (s : Option (N × List α)) (a : N) (p : Piece α) :
    Option (N × List α) × Option (List α) :=
  match if p.first then some [] else s.bind fun w => if w.1 = a then some w.2 else none with
  | none => (none, none)
  | some part =>
    if p.last then (none, some (part ++ p.body)) else (some (next a, part ++ p.body), none)

/-- The receiver: each arrival, and the message it completes. -/
def receiver [DecidableEq N] (next : N → N) :
    Machine (Option (N × List α)) (N × Piece α) (Option (List α)) where
  step s e := some (accept next s e.1 e.2)

/-- It takes whatever arrives. -/
theorem run_receiver [DecidableEq N] (next : N → N) (s : Option (N × List α))
    (events : List (N × Piece α)) :
    ∃ s' outs, (receiver next).run s events = some (s', outs) := by
  obtain ⟨s', outs, hrun, -⟩ := Machine.run_exists (A := receiver next) (I := fun _ => True)
    (fun s e _ => ⟨_, _, rfl, trivial⟩) (trivial : (fun _ => True) s) events
  exact ⟨s', outs, hrun⟩

/-- The number does not come round from one arrival to the next. -/
def Near (num : ℕ → N) (i j : ℕ) : Prop := num j = num (i + 1) → j = i + 1

/-- The pieces of a message have just arrived, one right behind the other. -/
def Complete (fs : List (List (List α))) (arrivals : List ℕ) (m : List α) : Prop :=
  ∃ x ∈ placed 0 fs, span x <:+ arrivals ∧ m = x.2.flatten

/-- What is kept is the beginning of the one message whose first pieces have
just arrived. -/
def Awaiting (num : ℕ → N) (fs : List (List (List α))) (arrivals : List ℕ)
    (s : Option (N × List α)) : Prop :=
  ∀ a part, s = some (a, part) ↔ ∃ x ∈ placed 0 fs, ∃ j, 0 < j ∧ j < x.2.length ∧
    List.range' x.1 j <:+ arrivals ∧ a = num (x.1 + j) ∧ part = (x.2.take j).flatten

theorem range'_suffix_concat : List.range' k (j + 1) <:+ arrivals ++ [i] ↔
    i = k + j ∧ List.range' k j <:+ arrivals := by
  rw [List.range'_1_concat, List.suffix_concat_iff]
  constructor
  · rintro (hnil | ⟨l, heq, hsuffix⟩)
    · exact absurd hnil (by simp)
    · obtain ⟨rfl, hlast⟩ := List.append_inj' heq rfl
      exact ⟨(List.cons.inj hlast).1.symm, hsuffix⟩
  · rintro ⟨rfl, hsuffix⟩
    exact .inr ⟨_, rfl, hsuffix⟩

/-- A message that is complete ends in the piece that has just come. -/
theorem complete_concat (hne : ∀ x ∈ placed 0 fs, x.2 ≠ []) (hx : x ∈ placed 0 fs)
    (hi : i ∈ span x) : Complete fs (pre ++ [i]) m ↔
      i + 1 = x.1 + x.2.length ∧ List.range' x.1 (i - x.1) <:+ pre ∧ m = x.2.flatten := by
  have hmem := mem_span.mp hi
  constructor
  · rintro ⟨y, hy, hsuffix, rfl⟩
    obtain ⟨n, hn⟩ := Nat.exists_eq_succ_of_ne_zero (List.length_eq_zero_iff.not.mpr (hne y hy))
    rw [span, hn, range'_suffix_concat] at hsuffix
    obtain ⟨rfl, hsuffix⟩ := hsuffix
    obtain rfl := placed_unique hx hy hi (mem_span.mpr ⟨Nat.le_add_right _ _, by omega⟩)
    rw [Nat.add_sub_cancel_left]
    exact ⟨by omega, hsuffix, rfl⟩
  · rintro ⟨hlast, hsuffix, rfl⟩
    refine ⟨x, hx, ?_, rfl⟩
    rw [span, show x.2.length = i - x.1 + 1 by omega, range'_suffix_concat]
    exact ⟨by omega, hsuffix⟩

/-- A message that is not complete yet goes on from the piece that has just
come. -/
theorem begun_concat (hx : x ∈ placed 0 fs) (hi : i ∈ span x) :
    (∃ y ∈ placed 0 fs, ∃ j, 0 < j ∧ j < y.2.length ∧ List.range' y.1 j <:+ pre ++ [i] ∧
        a = num (y.1 + j) ∧ part = (y.2.take j).flatten) ↔
      i + 1 < x.1 + x.2.length ∧ List.range' x.1 (i - x.1) <:+ pre ∧ a = num (i + 1) ∧
        part = (x.2.take (i - x.1 + 1)).flatten := by
  have hmem := mem_span.mp hi
  constructor
  · rintro ⟨y, hy, j, hpos, hlt, hsuffix, rfl, rfl⟩
    obtain ⟨j, rfl⟩ := Nat.exists_eq_succ_of_ne_zero (Nat.pos_iff_ne_zero.mp hpos)
    obtain ⟨rfl, hbefore⟩ := range'_suffix_concat.mp hsuffix
    obtain rfl := placed_unique hx hy hi (mem_span.mpr ⟨Nat.le_add_right _ _, by omega⟩)
    rw [Nat.add_sub_cancel_left]
    exact ⟨by omega, hbefore, rfl, rfl⟩
  · rintro ⟨hlt, hsuffix, rfl, rfl⟩
    refine ⟨x, hx, i - x.1 + 1, by omega, by omega, ?_, ?_, rfl⟩
    · rw [range'_suffix_concat]
      exact ⟨by omega, hsuffix⟩
    · rw [show x.1 + (i - x.1 + 1) = i + 1 by omega]

/-- What a piece says of itself. -/
theorem piece_spec (hi : i ∈ span x) (hp : (pieces x.2)[i - x.1]? = some p) :
    (p.first = true ↔ i = x.1) ∧ (p.last = true ↔ i + 1 = x.1 + x.2.length) ∧
      (x.2.take (i - x.1)).flatten ++ p.body = (x.2.take (i - x.1 + 1)).flatten := by
  have hmem := mem_span.mp hi
  have hlt : i - x.1 < x.2.length := by omega
  rw [pieces, List.getElem?_mapIdx, List.getElem?_eq_getElem hlt] at hp
  obtain rfl := Option.some.inj hp
  refine ⟨?_, ?_, ?_⟩
  · simp only [decide_eq_true_eq]
    omega
  · simp only [decide_eq_true_eq]
    omega
  · rw [List.take_succ_eq_append_getElem hlt, List.flatten_append, List.flatten_singleton]

variable [DecidableEq N]

/-- What the receiver goes on with: the beginning of the message, where it
is complete up to the piece that has come. -/
theorem opened_iff (hs : Awaiting num fs pre s) (hx : x ∈ placed 0 fs) (hi : i ∈ span x)
    (hnear : ∀ j ∈ pre.getLast?, Near num j i) :
    (if i = x.1 then some [] else s.bind fun w => if w.1 = num i then some w.2 else none) =
        some part ↔
      List.range' x.1 (i - x.1) <:+ pre ∧ part = (x.2.take (i - x.1)).flatten := by
  have hmem := mem_span.mp hi
  by_cases hfirst : i = x.1
  · rw [if_pos hfirst, hfirst, Nat.sub_self]
    simp [eq_comm]
  · have hsome : (s.bind fun w => if w.1 = num i then some w.2 else none) = some part ↔
        s = some (num i, part) := by
      rw [Option.bind_eq_some_iff]
      constructor
      · rintro ⟨w, hw, hif⟩
        split at hif
        · rename_i hnum
          rw [hw, ← hnum, ← Option.some.inj hif]
        · exact absurd hif (by simp)
      · intro hw
        exact ⟨_, hw, if_pos rfl⟩
    rw [if_neg hfirst, hsome, hs]
    constructor
    · rintro ⟨y, hy, j, hpos, hlt, hsuffix, hnum, rfl⟩
      -- the number awaited is that of the piece behind the last one
      obtain ⟨j, rfl⟩ := Nat.exists_eq_succ_of_ne_zero (Nat.pos_iff_ne_zero.mp hpos)
      obtain ⟨l, rfl⟩ := id hsuffix
      rw [List.range'_1_concat, ← List.append_assoc] at hnear
      have hnext := hnear (y.1 + j) (by simp) hnum
      obtain rfl := placed_unique hx hy hi (mem_span.mpr ⟨by omega, by omega⟩)
      rw [show i - x.1 = j + 1 by omega]
      exact ⟨hsuffix, rfl⟩
    · rintro ⟨hsuffix, rfl⟩
      refine ⟨x, hx, i - x.1, by omega, by omega, hsuffix, ?_, rfl⟩
      rw [show x.1 + (i - x.1) = i by omega]

/-- **One arrival.** -/
theorem Awaiting.arrive (hs : Awaiting num fs pre s) (hne : ∀ x ∈ placed 0 fs, x.2 ≠ [])
    (hnext : ∀ i, num (i + 1) = next (num i)) (hp : (fs.flatMap pieces)[i]? = some p)
    (hnear : ∀ j ∈ pre.getLast?, Near num j i) :
    Awaiting num fs (pre ++ [i]) (accept next s (num i) p).1 ∧
      ∀ m, (accept next s (num i) p).2 = some m ↔ Complete fs (pre ++ [i]) m := by
  obtain ⟨x, hx, hi, hpiece⟩ := placed_of_getElem? (k := 0) hp
  rw [Nat.zero_add] at hi hpiece
  have hmem := mem_span.mp hi
  obtain ⟨hfirst, hlast, hbody⟩ := piece_spec hi hpiece
  unfold accept
  rw [if_congr hfirst rfl rfl]
  cases hopened : (if i = x.1 then some [] else
      s.bind fun w => if w.1 = num i then some w.2 else none) with
  | none =>
    have hnot : ¬ List.range' x.1 (i - x.1) <:+ pre := by
      intro hsuffix
      have hsome := (opened_iff hs hx hi hnear).mpr ⟨hsuffix, rfl⟩
      exact absurd (hopened.symm.trans hsome) (by simp)
    refine ⟨fun a part => ?_, fun m => ?_⟩
    · rw [begun_concat hx hi]
      exact ⟨fun h => absurd h (by simp), fun h => absurd h.2.1 hnot⟩
    · rw [complete_concat hne hx hi]
      exact ⟨fun h => absurd h (by simp), fun h => absurd h.2.1 hnot⟩
  | some part =>
    obtain ⟨hsuffix, rfl⟩ := (opened_iff hs hx hi hnear).mp hopened
    simp only [hbody, ← hnext]
    by_cases hend : i + 1 = x.1 + x.2.length
    · rw [if_pos (hlast.mpr hend)]
      refine ⟨fun a part => ?_, fun m => ?_⟩
      · rw [begun_concat hx hi]
        exact ⟨fun h => absurd h (by simp), fun h => absurd h.1 (by omega)⟩
      · rw [complete_concat hne hx hi, show i - x.1 + 1 = x.2.length by omega, List.take_length,
          Option.some.injEq, eq_comm]
        exact ⟨fun h => ⟨hend, hsuffix, h⟩, fun h => h.2.2⟩
    · rw [if_neg (mt hlast.mp hend)]
      refine ⟨fun a part => ?_, fun m => ?_⟩
      · rw [begun_concat hx hi, Option.some.injEq, Prod.mk.injEq]
        constructor
        · rintro ⟨rfl, rfl⟩
          exact ⟨by omega, hsuffix, rfl, rfl⟩
        · rintro ⟨-, -, rfl, rfl⟩
          exact ⟨rfl, rfl⟩
      · rw [complete_concat hne hx hi]
        exact ⟨fun h => absurd h (by simp), fun h => absurd h.1 hend⟩

/-- The same of a step. -/
theorem Awaiting.step {e : N × Piece α} {o : Option (List α)} (hs : Awaiting num fs pre s)
    (hne : ∀ x ∈ placed 0 fs, x.2 ≠ []) (hnext : ∀ i, num (i + 1) = next (num i))
    (he : e.1 = num i ∧ (fs.flatMap pieces)[i]? = some e.2)
    (hnear : ∀ j ∈ pre.getLast?, Near num j i)
    (hstep : (receiver next).step s e = some (s', o)) :
    Awaiting num fs (pre ++ [i]) s' ∧ ∀ m, o = some m ↔ Complete fs (pre ++ [i]) m := by
  obtain ⟨hnum, hp⟩ := he
  have hone := hs.arrive hne hnext hp hnear
  have heq : accept next s (num i) e.2 = (s', o) := by
    rw [← hnum]
    exact Option.some.inj hstep
  rwa [heq] at hone

/-! ## Arrivals -/

/-- The numbers and pieces that arrive, by their indices. -/
def Arrive (num : ℕ → N) (fs : List (List (List α))) (arrivals : List ℕ)
    (events : List (N × Piece α)) : Prop :=
  List.Forall₂ (fun i e => e.1 = num i ∧ (fs.flatMap pieces)[i]? = some e.2) arrivals events

variable {events : List (N × Piece α)}

omit [DecidableEq N] in
theorem awaiting_nil : Awaiting num fs [] none := by
  intro a part
  constructor
  · intro h
    exact absurd h (by simp)
  · rintro ⟨x, -, j, hpos, -, hsuffix, -⟩
    have hlen := hsuffix.length_le
    rw [List.length_range', List.length_nil] at hlen
    omega

/-- **Where a message is complete.** -/
theorem run_awaiting (hs : Awaiting num fs pre s) (hne : ∀ x ∈ placed 0 fs, x.2 ≠ [])
    (hnext : ∀ i, num (i + 1) = next (num i)) (hnear : (pre ++ arrivals).IsChain (Near num))
    (harrive : Arrive num fs arrivals events)
    (hrun : (receiver next).run s events = some (s', outs)) :
    outs.length = arrivals.length ∧ ∀ t m, outs[t]? = some (some m) ↔
      t < arrivals.length ∧ Complete fs (pre ++ arrivals.take (t + 1)) m := by
  induction harrive generalizing pre s outs with
  | nil =>
    obtain ⟨rfl, rfl⟩ := Prod.mk.inj (Option.some.inj hrun)
    exact ⟨rfl, fun t m => by simp⟩
  | @cons i e arrivals events he harrive ih =>
    obtain ⟨s₁, o, os, hstep, hrest, rfl⟩ := Machine.run_cons.mp hrun
    have hlast := (List.isChain_append.mp hnear).2.2
    obtain ⟨hs₁, ho⟩ := hs.step hne hnext he (fun j hj => hlast j hj i rfl) hstep
    rw [List.append_cons] at hnear
    obtain ⟨hlen, hos⟩ := ih hs₁ hnear hrest
    refine ⟨by rw [List.length_cons, List.length_cons, hlen], fun t m => ?_⟩
    cases t with
    | zero =>
      rw [List.getElem?_cons_zero, Option.some.injEq, ho]
      exact ⟨fun h => ⟨Nat.succ_pos _, h⟩, fun h => h.2⟩
    | succ t =>
      rw [List.getElem?_cons_succ, hos, List.take_succ_cons, List.append_assoc,
        List.singleton_append, List.length_cons, Nat.succ_lt_succ_iff]

/-! ## Losses alone -/

/-- The messages of which every piece has arrived. -/
def whole (fs : List (List (List α))) (arrivals : List ℕ) : List (List α) :=
  ((placed 0 fs).filter fun x => ∀ i ∈ span x, i ∈ arrivals).map fun x => x.2.flatten

/-- Of messages whose first piece has not come none is whole. -/
theorem filter_eq_nil_of_first {l : List (ℕ × List (List α))}
    (h : ∀ y ∈ l, y.2 ≠ [] ∧ y.1 ∉ arrivals) :
    (l.filter fun y => ∀ i ∈ span y, i ∈ arrivals) = [] := by
  rw [List.filter_eq_nil_iff]
  intro y hy hall
  obtain ⟨hne, hfirst⟩ := h y hy
  have hpos := List.length_pos_iff.mpr hne
  exact hfirst (of_decide_eq_true hall y.1 (mem_span.mpr (by omega)))

theorem whole_nil (hne : ∀ x ∈ placed 0 fs, x.2 ≠ []) : whole fs [] = [] := by
  rw [whole, filter_eq_nil_of_first fun x hx => ⟨hne x hx, List.not_mem_nil⟩, List.map_nil]

theorem placed_pairwise : (placed k fs).Pairwise fun x y => x.1 + x.2.length ≤ y.1 := by
  induction fs generalizing k with
  | nil => exact .nil
  | cons f fs ih => exact .cons (fun y hy => le_of_mem_placed hy) ih

/-- In an increasing list the last ones stand together. -/
theorem range'_suffix_of_sorted (hsorted : arrivals.Pairwise (· < ·))
    (hmem : ∀ i ∈ List.range' k n, i ∈ arrivals) (hlt : ∀ i ∈ arrivals, i < k + n) :
    List.range' k n <:+ arrivals := by
  induction n generalizing arrivals with
  | zero => exact List.nil_suffix
  | succ n ih =>
    have hlast : k + n ∈ arrivals := hmem _ (List.mem_range'_1.mpr ⟨by omega, by omega⟩)
    induction arrivals using List.reverseRecOn with
    | nil => exact absurd hlast List.not_mem_nil
    | append_singleton l b =>
      obtain ⟨hl, -, hb⟩ := List.pairwise_append.mp hsorted
      have hbelow : ∀ i ∈ l, i < b := fun i hi => hb i hi b (List.mem_singleton_self b)
      obtain rfl : b = k + n := by
        have hbk := hlt b (by simp)
        rcases List.mem_append.mp hlast with hl' | hb'
        · have := hbelow _ hl'
          omega
        · exact (List.mem_singleton.mp hb').symm
      rw [range'_suffix_concat]
      refine ⟨rfl, ih hl (fun i hi => ?_) hbelow⟩
      have hi' := List.mem_range'_1.mp hi
      rcases List.mem_append.mp (hmem i (List.mem_range'_1.mpr ⟨hi'.1, by omega⟩)) with hil | hib
      · exact hil
      · have := List.mem_singleton.mp hib
        omega

theorem lt_of_sorted (hsorted : (pre ++ [i]).Pairwise (· < ·)) (hj : j ∈ pre) : j < i :=
  (List.pairwise_append.mp hsorted).2.2 j hj i (List.mem_singleton_self i)

/-- A message that the piece is not of has as much of it as before. -/
theorem forall_mem_concat (hi : i ∉ span x) :
    (∀ j ∈ span x, j ∈ pre ++ [i]) ↔ ∀ j ∈ span x, j ∈ pre := by
  refine forall₂_congr fun j hj => ?_
  rw [List.mem_append, List.mem_singleton, or_iff_left]
  rintro rfl
  exact hi hj

/-- A piece that completes nothing. -/
theorem whole_concat_of_incomplete (hsorted : (pre ++ [i]).Pairwise (· < ·))
    (hnot : ∀ m, ¬ Complete fs (pre ++ [i]) m) : whole fs (pre ++ [i]) = whole fs pre := by
  unfold whole
  refine congrArg _ (List.filter_congr fun x hx => decide_eq_decide.mpr ?_)
  by_cases hi : i ∈ span x
  · constructor
    · intro hall
      -- the piece is of this message, and the last one that has come
      have hsuffix : span x <:+ pre ++ [i] := by
        refine range'_suffix_of_sorted hsorted hall fun j hj => ?_
        have hmem := mem_span.mp hi
        rcases List.mem_append.mp hj with hj | hj
        · have := lt_of_sorted hsorted hj
          omega
        · rw [List.mem_singleton.mp hj]
          exact hmem.2
      exact absurd ⟨x, hx, hsuffix, rfl⟩ (hnot x.2.flatten)
    · intro hall
      exact absurd (lt_of_sorted hsorted (hall i hi)) (lt_irrefl i)
  · exact forall_mem_concat hi

/-- A piece that completes a message: the messages before it stay as they
are, and of those behind it nothing has come. -/
theorem whole_concat_of_complete (hne : ∀ x ∈ placed 0 fs, x.2 ≠ [])
    (hsorted : (pre ++ [i]).Pairwise (· < ·)) (hx : x ∈ placed 0 fs)
    (hsuffix : span x <:+ pre ++ [i]) :
    whole fs (pre ++ [i]) = whole fs pre ++ [x.2.flatten] := by
  obtain ⟨l₁, l₂, hplaced⟩ := List.append_of_mem hx
  have hpairs : (placed 0 fs).Pairwise _ := placed_pairwise
  rw [hplaced, List.pairwise_append, List.pairwise_cons] at hpairs
  obtain ⟨-, ⟨hafter, -⟩, hbefore⟩ := hpairs
  have hpos := List.length_pos_iff.mpr (hne x hx)
  have hi : i + 1 = x.1 + x.2.length := by
    rw [span, ← Nat.sub_add_cancel hpos, range'_suffix_concat] at hsuffix
    omega
  have hmem : i ∈ span x := mem_span.mpr (by omega)
  have hold : ¬ ∀ j ∈ span x, j ∈ pre := fun hall =>
    lt_irrefl i (lt_of_sorted hsorted (hall i hmem))
  have hnew : ∀ j ∈ span x, j ∈ pre ++ [i] := fun j hj => hsuffix.subset hj
  have h₁ : ∀ y ∈ l₁, i ∉ span y := by
    intro y hy hiy
    have := hbefore y hy x List.mem_cons_self
    have := mem_span.mp hiy
    omega
  have hnone : ∀ y ∈ l₂, y.2 ≠ [] ∧ y.1 ∉ pre ++ [i] := by
    intro y hy
    refine ⟨hne y (hplaced ▸ by simp [hy]), fun hfirst => ?_⟩
    have := hafter y hy
    rcases List.mem_append.mp hfirst with hpre | hi'
    · have := lt_of_sorted hsorted hpre
      omega
    · have := List.mem_singleton.mp hi'
      omega
  have hnone' : ∀ y ∈ l₂, y.2 ≠ [] ∧ y.1 ∉ pre := fun y hy =>
    ⟨(hnone y hy).1, fun hpre => (hnone y hy).2 (List.mem_append_left _ hpre)⟩
  unfold whole
  rw [hplaced, List.filter_append, List.filter_append,
    List.filter_cons_of_pos (by simpa using hnew), List.filter_cons_of_neg (by simpa using hold),
    filter_eq_nil_of_first hnone, filter_eq_nil_of_first hnone',
    List.filter_congr fun y hy => decide_eq_decide.mpr (forall_mem_concat (h₁ y hy)),
    List.append_nil, List.map_append]
  rfl

/-- What has arrived whole when one piece more comes. -/
theorem whole_concat {o : Option (List α)} (hne : ∀ x ∈ placed 0 fs, x.2 ≠ [])
    (hsorted : (pre ++ [i]).Pairwise (· < ·)) (ho : ∀ m, o = some m ↔ Complete fs (pre ++ [i]) m) :
    whole fs (pre ++ [i]) = whole fs pre ++ o.toList := by
  cases o with
  | none =>
    rw [Option.toList_none, List.append_nil]
    exact whole_concat_of_incomplete hsorted fun m hm => absurd ((ho m).mpr hm) (by simp)
  | some m =>
    obtain ⟨x, hx, hsuffix, rfl⟩ := (ho m).mp rfl
    exact whole_concat_of_complete hne hsorted hx hsuffix

/-- **Where pieces are only lost**, the messages completed are those of
which none is, in order. -/
theorem run_whole (hs : Awaiting num fs pre s) (hne : ∀ x ∈ placed 0 fs, x.2 ≠ [])
    (hnext : ∀ i, num (i + 1) = next (num i)) (hnear : (pre ++ arrivals).IsChain (Near num))
    (hsorted : (pre ++ arrivals).Pairwise (· < ·)) (harrive : Arrive num fs arrivals events)
    (hrun : (receiver next).run s events = some (s', outs)) :
    whole fs (pre ++ arrivals) = whole fs pre ++ outs.reduceOption := by
  induction harrive generalizing pre s outs with
  | nil =>
    obtain ⟨rfl, rfl⟩ := Prod.mk.inj (Option.some.inj hrun)
    rw [List.append_nil, List.reduceOption_nil, List.append_nil]
  | @cons i e arrivals events he harrive ih =>
    obtain ⟨s₁, o, os, hstep, hrest, rfl⟩ := Machine.run_cons.mp hrun
    have hlast := (List.isChain_append.mp hnear).2.2
    obtain ⟨hs₁, ho⟩ := hs.step hne hnext he (fun j hj => hlast j hj i rfl) hstep
    rw [List.append_cons] at hnear hsorted ⊢
    have hone : (pre ++ [i]).Pairwise (· < ·) := (List.pairwise_append.mp hsorted).1
    rw [ih hs₁ hnear hsorted hrest, whole_concat hne hone ho, List.append_assoc]
    cases o <;> rfl

end Datagrams

end Camkit
