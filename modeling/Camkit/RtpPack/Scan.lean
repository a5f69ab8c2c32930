import Camkit.RtpPack.Model.Stream
import Mathlib.Tactic.Linarith
/-!
# RTP packetiser — the start-code scan

The loop of `get_next_nalu` stops at the first start code past the byte it
enters with, or at the end of the buffer. The two equations say so for a
stop known in advance, and `findNextStartCode_cases` for one that is not.
`units` iterates the scan: the byte strings between the start codes it
finds.
-/

namespace Camkit

namespace RtpPack

variable {mem : Mem} {inbuf size p q : ℤ}

/-! ## Start codes -/

/-- There is a start code of three or four bytes. -/
theorem startCodeLen_ne_zero :
    startCodeLen mem p ≠ 0 ↔ (isStartCode3 mem p || isStartCode4 mem p) = true := by
  unfold startCodeLen
  cases isStartCode3 mem p <;> cases isStartCode4 mem p <;> simp

theorem isStartCode3_iff :
    isStartCode3 mem p = true ↔ mem p = 0 ∧ mem (p + 1) = 0 ∧ mem (p + 2) = 1 := by
  simp [isStartCode3, and_assoc]

theorem isStartCode4_iff :
    isStartCode4 mem p = true ↔
      mem p = 0 ∧ mem (p + 1) = 0 ∧ mem (p + 2) = 0 ∧ mem (p + 3) = 1 := by
  simp [isStartCode4, and_assoc]

theorem bytes_of_isStartCode3 (h : isStartCode3 mem p = true) : mem.bytes p 3 = [0, 0, 1] := by
  obtain ⟨h0, h1, h2⟩ := isStartCode3_iff.mp h
  simp only [Mem.bytes, add_assoc, h0, h1]
  rw [show p + (1 + 1) = p + 2 from rfl, h2]

/-- A start code of four bytes is a zero and one of three. -/
theorem isStartCode3_of_isStartCode4 (h : isStartCode4 mem p = true) :
    isStartCode3 mem (p + 1) = true := by
  obtain ⟨-, h1, h2, h3⟩ := isStartCode4_iff.mp h
  exact isStartCode3_iff.mpr ⟨h1, by rwa [add_assoc], by rwa [add_assoc]⟩

/-- A start code is three or four bytes long. -/
theorem startCodeLen_cases (mem : Mem) (p : ℤ) :
    startCodeLen mem p = 0 ∨ startCodeLen mem p = 3 ∨ startCodeLen mem p = 4 := by
  unfold startCodeLen
  split
  · exact Or.inr (Or.inl rfl)
  · split
    · exact Or.inr (Or.inr rfl)
    · exact Or.inl rfl

theorem startCodeLen_pos (h : startCodeLen mem p ≠ 0) : 0 < startCodeLen mem p := by
  rcases startCodeLen_cases mem p with h0 | h3 | h4 <;> omega

theorem StartCode.length_pos (c : StartCode) : 0 < c.bytes.length := by cases c <;> decide

/-- A start code in the memory is found at its length. -/
theorem startCodeLen_of_bytes {c : StartCode} (hc : mem.bytes p c.bytes.length = c.bytes) :
    startCodeLen mem p = c.bytes.length := by
  cases c with
  | short =>
    simp only [StartCode.bytes, List.length, Mem.bytes, List.cons.injEq, add_assoc] at hc
    exact if_pos (isStartCode3_iff.mpr ⟨hc.1, hc.2.1, hc.2.2.1⟩)
  | long =>
    simp only [StartCode.bytes, List.length, Mem.bytes, List.cons.injEq, add_assoc] at hc
    -- its third byte is 0, so the shorter test fails first
    have h3 : ¬ isStartCode3 mem p = true := fun h3 => by
      have := (isStartCode3_iff.mp h3).2.2
      rw [show p + 2 = p + (1 + 1) from rfl, hc.2.2.1] at this
      exact absurd this (by decide)
    have h4 : isStartCode4 mem p = true :=
      isStartCode4_iff.mpr ⟨hc.1, hc.2.1, hc.2.2.1, hc.2.2.2.1⟩
    rw [startCodeLen, if_neg h3, if_pos h4]
    rfl

/-- And nothing else is found. -/
theorem bytes_of_startCodeLen (h : startCodeLen mem p ≠ 0) :
    ∃ c : StartCode, mem.bytes p c.bytes.length = c.bytes := by
  rw [startCodeLen_ne_zero, Bool.or_eq_true] at h
  rcases h with h | h
  · exact ⟨.short, bytes_of_isStartCode3 h⟩
  · have hshort := bytes_of_isStartCode3 (isStartCode3_of_isStartCode4 h)
    exact ⟨.long, congrArg₂ List.cons (isStartCode4_iff.mp h).1 hshort⟩

/-- **No start code begins inside bytes without one**, past the first of
them, nor in the last ones with the help of what follows: the last byte is
not zero, so a start code that begins before it also ends by then. -/
theorem startCodeLen_of_inside {l : List UInt8} (hl : mem.bytes p l.length = l)
    (hno : ¬ [0, 0, 1] <:+: l) (hlast : l.getLast? ≠ some 0) {j : ℤ} (h₁ : p < j)
    (h₂ : j < p + l.length) : startCodeLen mem j = 0 := by
  obtain ⟨n, hn⟩ : ∃ n, l.length = n + 1 := ⟨l.length - 1, by omega⟩
  have hlast' : mem (p + n) ≠ 0 := by
    intro hzero
    have hget := Mem.getLast?_bytes (m := mem) (a := p) (n := n)
    rw [← hn, hl, hzero] at hget
    exact hlast hget
  -- a zero is never the last byte
  have hbefore : ∀ i, mem i = 0 → i < p + l.length → i + 1 < p + l.length := by
    intro i hi hlt
    rcases eq_or_lt_of_le (show i ≤ p + n by omega) with heq | hlt'
    · exact absurd (heq ▸ hi) hlast'
    · omega
  have hinfix : ∀ i, p ≤ i → i + 3 ≤ p + l.length → mem.bytes i 3 ≠ [0, 0, 1] := by
    intro i hi hle heq
    have hin := Mem.bytes_infix (m := mem) (a := p) (n := l.length) (k := 3) hi
      (by push_cast; exact hle)
    rw [heq, hl] at hin
    exact hno hin
  -- so a start code that begins inside ends inside, and the bytes hold one
  by_contra hcode
  rw [← ne_eq, startCodeLen_ne_zero, Bool.or_eq_true] at hcode
  rcases hcode with hcode | hcode
  · obtain ⟨h0, h1, -⟩ := isStartCode3_iff.mp hcode
    have hle := hbefore _ h1 (hbefore _ h0 h₂)
    exact hinfix j (by omega) (by omega) (bytes_of_isStartCode3 hcode)
  · obtain ⟨h0, h1, h2, -⟩ := isStartCode4_iff.mp hcode
    have hle := hbefore _ h2 (by
      have := hbefore _ h1 (hbefore _ h0 h₂)
      omega)
    exact hinfix (j + 1) (by omega) (by omega)
      (bytes_of_isStartCode3 (isStartCode3_of_isStartCode4 hcode))

/-! ## The loop -/

/-- **The scan stops at the first start code** past the byte it enters
with, if that lies in the buffer. -/
theorem findNextStartCode_eq_some (hpq : p < q) (hq : q < inbuf + size)
    (hcode : startCodeLen mem q ≠ 0) (hno : ∀ j, p < j → j < q → startCodeLen mem j = 0) :
    findNextStartCode mem inbuf size p = (q, some q) := by
  -- on the distance to the start code
  induction hd : (q - p).toNat generalizing p with
  | zero => omega
  | succ d ih =>
    rw [findNextStartCode]
    rw [if_neg (by omega)]
    rcases eq_or_lt_of_le (show p + 1 ≤ q by omega) with heq | hlt
    · rw [heq, if_pos (startCodeLen_ne_zero.mp hcode)]
    · have hp : ¬ (isStartCode3 mem (p + 1) || isStartCode4 mem (p + 1)) = true := fun hc =>
        startCodeLen_ne_zero.mpr hc (hno (p + 1) (by omega) hlt)
      rw [if_neg hp]
      exact ih hlt (fun j hj => hno j (by omega)) (by omega)

/-- **Without one it stops at the end of the buffer**, or one byte past
where it entered if that is past the end. -/
theorem findNextStartCode_eq_none (hno : ∀ j, p < j → j < inbuf + size → startCodeLen mem j = 0) :
    findNextStartCode mem inbuf size p = (max (p + 1) (inbuf + size), none) := by
  -- on the distance to the end of the buffer
  induction hd : (inbuf + size - p).toNat generalizing p with
  | zero =>
    rw [findNextStartCode]
    rw [if_pos (by omega), max_eq_left (by omega)]
  | succ d ih =>
    rw [findNextStartCode]
    rcases lt_or_ge (p + 1) (inbuf + size) with hlt | hge
    · have hp : ¬ (isStartCode3 mem (p + 1) || isStartCode4 mem (p + 1)) = true := fun hc =>
        startCodeLen_ne_zero.mpr hc (hno (p + 1) (by omega) hlt)
      rw [if_neg (by omega), if_neg hp, ih (fun j hj => hno j (by omega)) (by omega),
        max_eq_right (by omega), max_eq_right (by omega)]
    · rw [if_pos (by omega), max_eq_left (by omega)]

/-- **How the scan ends**: at the first start code, or at the end with no
start code passed. -/
theorem findNextStartCode_cases (mem : Mem) (inbuf size p : ℤ) :
    (∃ q, p < q ∧ q < inbuf + size ∧ startCodeLen mem q ≠ 0 ∧
      (∀ j, p < j → j < q → startCodeLen mem j = 0) ∧
      findNextStartCode mem inbuf size p = (q, some q)) ∨
    ((∀ j, p < j → j < inbuf + size → startCodeLen mem j = 0) ∧
      findNextStartCode mem inbuf size p = (max (p + 1) (inbuf + size), none)) := by
  classical
  by_cases hex : ∃ n : ℕ, p + 1 + n < inbuf + size ∧ startCodeLen mem (p + 1 + n) ≠ 0
  · -- the least position with a start code is where it stops
    obtain ⟨hlt, hcode⟩ := Nat.find_spec hex
    have hno : ∀ j, p < j → j < p + 1 + (Nat.find hex : ℤ) → startCodeLen mem j = 0 := by
      intro j hj hjn
      by_contra hc
      refine Nat.find_min hex (m := (j - p - 1).toNat) (by omega) ⟨by omega, ?_⟩
      rwa [show p + 1 + ((j - p - 1).toNat : ℤ) = j by omega]
    exact Or.inl ⟨_, by omega, hlt, hcode, hno,
      findNextStartCode_eq_some (by omega) hlt hcode hno⟩
  · have hno : ∀ j, p < j → j < inbuf + size → startCodeLen mem j = 0 := by
      intro j hj hjn
      by_contra hc
      refine hex ⟨(j - p - 1).toNat, by omega, ?_⟩
      rwa [show p + 1 + ((j - p - 1).toNat : ℤ) = j by omega]
    exact Or.inr ⟨hno, findNextStartCode_eq_none hno⟩

/-- The scan moves on. -/
theorem lt_findNextStartCode (mem : Mem) (inbuf size p : ℤ) :
    p < (findNextStartCode mem inbuf size p).1 := by
  rcases findNextStartCode_cases mem inbuf size p with ⟨q, hpq, -, -, -, heq⟩ | ⟨-, heq⟩
  · rw [heq]; exact hpq
  · rw [heq]; exact lt_of_lt_of_le (by omega) (le_max_left _ _)

/-- A next unit lies in the buffer, past where the scan entered. -/
theorem mem_findNextStartCode (h : (findNextStartCode mem inbuf size p).2 = some q) :
    p < q ∧ q < inbuf + size ∧ (findNextStartCode mem inbuf size p).1 = q ∧
      startCodeLen mem q ≠ 0 := by
  rcases findNextStartCode_cases mem inbuf size p with ⟨q', hpq, hlt, hcode, -, heq⟩ | ⟨-, heq⟩
  · rw [heq] at h ⊢
    obtain rfl : q' = q := Option.some.inj h
    exact ⟨hpq, hlt, rfl, hcode⟩
  · rw [heq] at h
    exact absurd h (by simp)

/-! ## `get_next_nalu` -/

theorem getNextNalu_of_none {h : PacHandle} (hp : h.nextNaluPtr = none) :
    getNextNalu mem h = (h, 0) := by
  unfold getNextNalu
  rw [hp]

theorem getNextNalu_of_not_code {h : PacHandle} (hp : h.nextNaluPtr = some p)
    (hk : startCodeLen mem p = 0) : getNextNalu mem h = (h, -1) := by
  have hno : ¬ (isStartCode3 mem p || isStartCode4 mem p) = true := fun hc =>
    startCodeLen_ne_zero.mpr hc hk
  rw [Bool.or_eq_true, not_or] at hno
  unfold getNextNalu
  rw [hp]
  simp only
  rw [if_neg hno.1, if_neg hno.2]

/-- At a start code the next unit is taken. -/
theorem getNextNalu_of_code {h : PacHandle} (hp : h.nextNaluPtr = some p)
    (hk : startCodeLen mem p ≠ 0) :
    getNextNalu mem h = (takeNalu mem h p (startCodeLen mem p), 1) := by
  unfold getNextNalu
  rw [hp]
  simp only
  unfold startCodeLen at hk ⊢
  split
  · rfl
  · rename_i h3
    rw [if_neg h3] at hk
    split
    · rfl
    · rename_i h4
      exact absurd (if_neg h4) hk

/-! ## The units of a buffer -/

/-- The byte strings repeated calls of `get_next_nalu` deliver, from the
pointer it is at. -/
def units (mem : Mem) (inbuf size : ℤ) : Ptr → List (List UInt8)
  | none => []
  | some p =>
    if startCodeLen mem p = 0 then []
    else
      let data := p + startCodeLen mem p
      mem.bytes data ((findNextStartCode mem inbuf size data).1 - data).toNat ::
        units mem inbuf size (findNextStartCode mem inbuf size data).2
termination_by p => p.elim 0 fun a => (inbuf + size - a).toNat + 1
decreasing_by
  rename_i hk
  cases hnext : (findNextStartCode mem inbuf size (p + startCodeLen mem p)).2 with
  | none => simp
  | some q =>
    have hq := mem_findNextStartCode hnext
    have := startCodeLen_pos hk
    simp only [Option.elim]
    omega

@[simp] theorem units_none : units mem inbuf size none = [] := by rw [units]

theorem units_of_not_code (hk : startCodeLen mem p = 0) : units mem inbuf size (some p) = [] := by
  rw [units, if_pos hk]

/-- It is the first unit, and the scan goes on behind it. -/
theorem units_of_code (hk : startCodeLen mem p ≠ 0) :
    units mem inbuf size (some p) =
      mem.bytes (p + startCodeLen mem p)
          ((findNextStartCode mem inbuf size (p + startCodeLen mem p)).1 -
            (p + startCodeLen mem p)).toNat ::
        units mem inbuf size (findNextStartCode mem inbuf size (p + startCodeLen mem p)).2 := by
  rw [units, if_neg hk]

end RtpPack

end Camkit
