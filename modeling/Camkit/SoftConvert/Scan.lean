import Camkit.SoftConvert.Model.Convert
import Camkit.Common.Loop
/-!
# Software converter — what the loops access

The six cursors run through two nested loops, each with a stride of its
own, and those of the chroma planes are not set back between two lines.
Here they are kept in step: after so many rounds each is where its exact
position is, up to the wrapping of an `int`, and the accesses of a round
are `pairReads` and `pairWrites`.
-/

namespace Camkit

namespace SoftConvert

variable {inbuf : Mem} {width height : Int32} {s : Scan} {x : ℤ} {r t cols : ℕ}

/-! ## Positions -/

/-- The place an exact position names, as an `int` has it. -/
def place (x : ℤ) : ℤ := (Int32.ofInt x).toInt

/-- The position of byte `o` of an input line of `w` pixels. -/
def inPos (w : ℤ) (line o : ℕ) : ℤ := line * w * 2 + o

/-- The position of pixel `c` of an output line. -/
def outPos (w : ℤ) (line c : ℕ) : ℤ := w * line + c

/-- The input places a round reads: four bytes of each of the two lines. -/
def pairReads (w : ℤ) (r t : ℕ) : List ℤ :=
  [place (inPos w (2 * r) (4 * t)), place (inPos w (2 * r) (4 * t + 1)),
    place (inPos w (2 * r) (4 * t + 2)), place (inPos w (2 * r) (4 * t + 3)),
    place (inPos w (2 * r + 1) (4 * t)), place (inPos w (2 * r + 1) (4 * t + 1)),
    place (inPos w (2 * r + 1) (4 * t + 2)), place (inPos w (2 * r + 1) (4 * t + 3))]

/-- Its writes: two pixels of each of the two lines, and a byte of each
chroma plane, `q` being the rounds so far. -/
def pairWrites (inbuf : Mem) (w uo vo : ℤ) (q r t : ℕ) : List Write :=
  [⟨.y, place (outPos w (2 * r) (2 * t)), inbuf (place (inPos w (2 * r) (4 * t)))⟩,
    ⟨.y, place (outPos w (2 * r) (2 * t + 1)), inbuf (place (inPos w (2 * r) (4 * t + 2)))⟩,
    ⟨.y, place (outPos w (2 * r + 1) (2 * t)), inbuf (place (inPos w (2 * r + 1) (4 * t)))⟩,
    ⟨.y, place (outPos w (2 * r + 1) (2 * t + 1)), inbuf (place (inPos w (2 * r + 1) (4 * t + 2)))⟩,
    ⟨.u, place (uo + (q + t : ℕ)), mean (inbuf (place (inPos w (2 * r) (4 * t + 1))))
      (inbuf (place (inPos w (2 * r + 1) (4 * t + 1))))⟩,
    ⟨.v, place (vo + (q + t : ℕ)), mean (inbuf (place (inPos w (2 * r) (4 * t + 3))))
      (inbuf (place (inPos w (2 * r + 1) (4 * t + 3))))⟩]

/-! ## A pair of lines -/

/-- The cursors after `t` rounds of the inner loop on a pair of lines, with
what the rounds have accessed since `s₀`. -/
structure AfterPairs (inbuf : Mem) (w uo vo : ℤ) (q r : ℕ) (s₀ : Scan) (t : ℕ) (s : Scan) :
    Prop where
  i : s.i = s₀.i
  j : s.j = s₀.j
  y : s.y = s₀.y
  line1 : s.line1 = Int32.ofInt (inPos w (2 * r) (4 * t))
  line2 : s.line2 = Int32.ofInt (inPos w (2 * r + 1) (4 * t))
  m : s.m = Int32.ofInt (outPos w (2 * r) (2 * t))
  n : s.n = Int32.ofInt (outPos w (2 * r + 1) (2 * t))
  u : s.u = Int32.ofInt (uo + (q + t : ℕ))
  v : s.v = Int32.ofInt (vo + (q + t : ℕ))
  reads : s.reads = s₀.reads ++ logged (pairReads w r) t
  writes : s.writes = s₀.writes ++ logged (pairWrites inbuf w uo vo q r) t

/-- A cursor moved on by a number of the source. -/
theorem ofInt_add_ofNat (x : ℤ) (k : ℕ) :
    Int32.ofInt x + no_index (OfNat.ofNat k) = Int32.ofInt (x + k) := by
  rw [Int32.ofInt_add, Int32.ofInt_eq_ofNat]
  rfl

/-- So is a position in a line. -/
theorem inPos_add (w : ℤ) (line o k : ℕ) : inPos w line o + k = inPos w line (o + k) := by
  rw [inPos, inPos, Nat.cast_add, add_assoc]

theorem outPos_add (w : ℤ) (line c k : ℕ) : outPos w line c + k = outPos w line (c + k) := by
  rw [outPos, outPos, Nat.cast_add, add_assoc]

/-- **All six cursors stay in step.** -/
theorem afterPairs_scanPair {w uo vo : ℤ} {q : ℕ} {s₀ : Scan}
    (h : AfterPairs inbuf w uo vo q r s₀ t s) :
    AfterPairs inbuf w uo vo q r s₀ (t + 1) (scanPair inbuf s) where
  i := h.i
  j := h.j
  y := h.y
  line1 := by
    change s.line1 + 4 = _
    rw [h.line1, ofInt_add_ofNat, inPos_add, Nat.mul_succ]
  line2 := by
    change s.line2 + 4 = _
    rw [h.line2, ofInt_add_ofNat, inPos_add, Nat.mul_succ]
  m := by
    change s.m + 2 = _
    rw [h.m, ofInt_add_ofNat, outPos_add, Nat.mul_succ]
  n := by
    change s.n + 2 = _
    rw [h.n, ofInt_add_ofNat, outPos_add, Nat.mul_succ]
  u := by
    change s.u + 1 = _
    rw [h.u, ofInt_add_ofNat, add_assoc, ← Nat.cast_add, add_assoc]
  v := by
    change s.v + 1 = _
    rw [h.v, ofInt_add_ofNat, add_assoc, ← Nat.cast_add, add_assoc]
  reads := by
    rw [logged_succ, ← List.append_assoc, ← h.reads]
    change s.reads ++ _ = s.reads ++ _
    rw [h.line1, h.line2, pairReads]
    simp only [ofInt_add_ofNat, inPos_add, place]
  writes := by
    rw [logged_succ, ← List.append_assoc, ← h.writes]
    change s.writes ++ _ = s.writes ++ _
    rw [h.line1, h.line2, h.m, h.n, h.u, h.v, pairWrites]
    simp only [ofInt_add_ofNat, inPos_add, outPos_add, place]

/-! ## All lines -/

/-- What a pair of lines reads, and what it writes. -/
def lineReads (w : ℤ) (cols r : ℕ) : List ℤ := logged (pairReads w r) cols

def lineWrites (inbuf : Mem) (w uo vo : ℤ) (cols r : ℕ) : List Write :=
  logged (pairWrites inbuf w uo vo (r * cols) r) cols

/-- The counters and the chroma cursors after `r` pairs of lines, with what
the rounds have accessed. -/
structure AfterLines (inbuf : Mem) (w uo vo : ℤ) (cols r : ℕ) (s : Scan) : Prop where
  i : s.i = Int32.ofInt (2 * r)
  j : s.j = Int32.ofInt (2 * r + 1)
  y : s.y = Int32.ofInt (2 * r)
  u : s.u = Int32.ofInt (uo + r * cols)
  v : s.v = Int32.ofInt (vo + r * cols)
  reads : s.reads = logged (lineReads w cols) r
  writes : s.writes = logged (lineWrites inbuf w uo vo cols) r

/-- The cursors are set to the heads of their lines. -/
theorem afterPairs_startLines {w uo vo : ℤ} (h : AfterLines inbuf w uo vo cols r s) :
    AfterPairs inbuf w uo vo (r * cols) r (startLines (Int32.ofInt w) s) 0
      (startLines (Int32.ofInt w) s) where
  i := rfl
  j := rfl
  y := rfl
  line1 := by
    change s.i * Int32.ofInt w * Int32.ofInt 2 = _
    rw [h.i, ← Int32.ofInt_mul, ← Int32.ofInt_mul, inPos]
    refine congrArg Int32.ofInt ?_
    push_cast
    ring
  line2 := by
    change s.j * Int32.ofInt w * Int32.ofInt 2 = _
    rw [h.j, ← Int32.ofInt_mul, ← Int32.ofInt_mul, inPos]
    refine congrArg Int32.ofInt ?_
    push_cast
    ring
  m := by
    change Int32.ofInt w * s.y = _
    rw [h.y, ← Int32.ofInt_mul, outPos]
    refine congrArg Int32.ofInt ?_
    push_cast
    ring
  n := by
    change Int32.ofInt w * (s.y + 1) = _
    rw [h.y, ofInt_add_ofNat, ← Int32.ofInt_mul, outPos]
    refine congrArg Int32.ofInt ?_
    push_cast
    ring
  u := by
    change s.u = _
    rw [h.u]
    refine congrArg Int32.ofInt ?_
    push_cast
    ring
  v := by
    change s.v = _
    rw [h.v]
    refine congrArg Int32.ofInt ?_
    push_cast
    ring
  reads := by rw [logged_zero, List.append_nil]
  writes := by rw [logged_zero, List.append_nil]

/-- **A pair of lines** more: the chroma cursors go on where they are. -/
theorem afterLines_scanLines {w uo vo : ℤ} (hw : width = Int32.ofInt w)
    (h : AfterLines inbuf w uo vo (rounds (width * 2) 4) r s) :
    AfterLines inbuf w uo vo (rounds (width * 2) 4) (r + 1) (scanLines inbuf width s) := by
  subst hw
  have hpairs := iterate_invariant (afterPairs_startLines h) (fun _ _ => afterPairs_scanPair)
    (rounds (Int32.ofInt w * 2) 4)
  have hi : (scanLines inbuf (Int32.ofInt w) s).i = s.i + 2 := congrArg (· + 2) hpairs.i
  have hj : (scanLines inbuf (Int32.ofInt w) s).j = s.j + 2 := congrArg (· + 2) hpairs.j
  have hy : (scanLines inbuf (Int32.ofInt w) s).y = s.y + 1 + 1 := hpairs.y
  refine ⟨?_, ?_, ?_, hpairs.u.trans ?_, hpairs.v.trans ?_, hpairs.reads.trans ?_,
    hpairs.writes.trans ?_⟩
  · rw [hi, h.i, ofInt_add_ofNat]
    refine congrArg Int32.ofInt ?_
    push_cast
    ring
  · rw [hj, h.j, ofInt_add_ofNat]
    refine congrArg Int32.ofInt ?_
    push_cast
    ring
  · rw [hy, h.y, ofInt_add_ofNat, ofInt_add_ofNat]
    refine congrArg Int32.ofInt ?_
    push_cast
    ring
  · refine congrArg Int32.ofInt ?_
    push_cast
    ring
  · refine congrArg Int32.ofInt ?_
    push_cast
    ring
  · rw [logged_succ]
    change s.reads ++ _ = _
    rw [h.reads, lineReads]
  · rw [logged_succ]
    change s.writes ++ _ = _
    rw [h.writes, lineWrites]

/-- **What the conversion accesses**, for every width and height. -/
theorem afterLines_yuv422ToYuv420 (inbuf : Mem) (width height : Int32) :
    AfterLines inbuf width.toInt (width * height).toInt (width * height * 5 / 4).toInt
      (rounds (width * 2) 4) (rounds height 2) (yuv422ToYuv420 inbuf width height) := by
  have hstart : AfterLines inbuf width.toInt (width * height).toInt
      (width * height * 5 / 4).toInt (rounds (width * 2) 4) 0 (startScan width height) := by
    refine ⟨rfl, rfl, rfl, ?_, ?_, rfl, rfl⟩
    · rw [Nat.cast_zero, zero_mul, add_zero, Int32.ofInt_toInt]
      rfl
    · rw [Nat.cast_zero, zero_mul, add_zero, Int32.ofInt_toInt]
      rfl
  exact iterate_invariant hstart
    (fun _ _ => afterLines_scanLines (Int32.ofInt_toInt width).symm) (rounds height 2)

/-- A round reads four bytes of each of its two lines. -/
theorem mem_pairReads {w : ℤ} : x ∈ pairReads w r t ↔
    ∃ l < 2, ∃ o < 4, x = place (inPos w (2 * r + l) (4 * t + o)) := by
  have hranges : pairReads w r t = (List.range 2).flatMap fun l =>
      (List.range 4).map fun o => place (inPos w (2 * r + l) (4 * t + o)) := rfl
  simp only [hranges, List.mem_flatMap, List.mem_map, List.mem_range, eq_comm]

/-- **The places read** are those of the lines and bytes of the rounds. -/
theorem mem_reads : x ∈ (yuv422ToYuv420 inbuf width height).reads ↔
    ∃ line < 2 * rounds height 2, ∃ o < 4 * rounds (width * 2) 4,
      x = place (inPos width.toInt line o) := by
  rw [(afterLines_yuv422ToYuv420 inbuf width height).reads, mem_logged]
  simp only [lineReads, mem_logged, mem_pairReads]
  constructor
  · rintro ⟨r, hr, t, ht, l, hl, o, ho, rfl⟩
    exact ⟨2 * r + l, by omega, 4 * t + o, by omega, rfl⟩
  · rintro ⟨line, hline, o, ho, rfl⟩
    refine ⟨line / 2, by omega, o / 4, by omega, line % 2, by omega, o % 4, by omega, ?_⟩
    rw [Nat.div_add_mod, Nat.div_add_mod]

/-- The writes are those of the rounds. -/
theorem mem_writes {w : Write} : w ∈ (yuv422ToYuv420 inbuf width height).writes ↔
    ∃ r < rounds height 2, ∃ t < rounds (width * 2) 4,
      w ∈ pairWrites inbuf width.toInt (width * height).toInt (width * height * 5 / 4).toInt
        (r * rounds (width * 2) 4) r t := by
  rw [(afterLines_yuv422ToYuv420 inbuf width height).writes, mem_logged]
  simp only [lineWrites, mem_logged]

/-- There are six writes for each round. -/
theorem length_writes : (yuv422ToYuv420 inbuf width height).writes.length =
    rounds height 2 * (rounds (width * 2) 4 * 6) := by
  rw [(afterLines_yuv422ToYuv420 inbuf width height).writes]
  exact length_logged fun r => length_logged fun t => rfl

end SoftConvert

end Camkit
