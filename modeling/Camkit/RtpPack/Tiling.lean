import Camkit.RtpPack.Scan
/-!
# RTP packetiser — the scan tiles the buffer

The calls of `get_next_nalu` after a `pack_put` deliver pieces, each a
start code and the unit behind it. On a buffer that begins with a start
code, does not end in one and does not end in a zero byte, the pieces lie
end to end from the first byte to the last, whatever follows the buffer.
-/

namespace Camkit

namespace RtpPack

variable {mem : Mem} {h : PacHandle} {a p stop : ℤ} {n : ℕ} {b : List UInt8}

/-! ## The calls until the end -/

/-- `get_next_nalu` until it does not return 1, in at most `n` calls: the
units, and what the last call returned, or 1 where the calls are used
up. -/
def nalus (mem : Mem) : ℕ → PacHandle → List Nalu × ℤ
  | 0, _ => ([], 1)
  | n + 1, h =>
    let got := getNextNalu mem h
    if got.2 = 1 then
      let rest := nalus mem n got.1
      (got.1.nalu :: rest.1, rest.2)
    else ([], got.2)

/-- At the end of the data a call returns 0. -/
theorem nalus_of_none (hp : h.nextNaluPtr = none) : nalus mem (n + 1) h = ([], 0) := by
  rw [nalus, getNextNalu_of_none hp]
  exact if_neg (Int.zero_ne_one)

/-- Where there is no start code it returns -1. -/
theorem nalus_of_not_code (hp : h.nextNaluPtr = some p) (hk : startCodeLen mem p = 0) :
    nalus mem (n + 1) h = ([], -1) := by
  rw [nalus, getNextNalu_of_not_code hp hk]
  exact if_neg (show (-1 : ℤ) ≠ 1 by omega)

/-- At a start code it delivers the unit behind it. -/
theorem nalus_of_code (hp : h.nextNaluPtr = some p) (hk : startCodeLen mem p ≠ 0) :
    nalus mem (n + 1) h =
      ((takeNalu mem h p (startCodeLen mem p)).nalu ::
          (nalus mem n (takeNalu mem h p (startCodeLen mem p))).1,
        (nalus mem n (takeNalu mem h p (startCodeLen mem p))).2) := by
  rw [nalus, getNextNalu_of_code hp hk]
  exact if_pos rfl

/-- The bytes of a unit. -/
def Nalu.bytes (mem : Mem) (nalu : Nalu) : List UInt8 := mem.bytes nalu.data.addr nalu.len.toNat

theorem takeNalu_len {k : ℤ} : (takeNalu mem h p k).nalu.len =
    (findNextStartCode mem h.inbuf.addr h.inbufSize (p + k)).1 - (p + k) :=
  Int.sub_sub _ _ _

/-- **The bytes delivered are the units of the scan.** -/
theorem bytes_nalus (mem : Mem) (h : PacHandle) : ∃ N, ∀ n ≥ N,
    (nalus mem n h).1.map (Nalu.bytes mem) =
      units mem h.inbuf.addr h.inbufSize h.nextNaluPtr := by
  -- on what is left of the buffer behind the pointer
  induction hd : (h.nextNaluPtr.elim 0 fun p => (h.inbuf.addr + h.inbufSize - p).toNat + 1) using
    Nat.strong_induction_on generalizing h with
  | _ d ih =>
    cases hp : h.nextNaluPtr with
    | none =>
      refine ⟨1, fun n hn => ?_⟩
      obtain ⟨n, rfl⟩ : ∃ k, n = k + 1 := ⟨n - 1, by omega⟩
      rw [nalus_of_none hp, units_none]
      rfl
    | some p =>
      by_cases hk : startCodeLen mem p = 0
      · refine ⟨1, fun n hn => ?_⟩
        obtain ⟨n, rfl⟩ : ∃ k, n = k + 1 := ⟨n - 1, by omega⟩
        rw [nalus_of_not_code hp hk, units_of_not_code hk]
        rfl
      · have hkpos := startCodeLen_pos hk
        have hlt : ((takeNalu mem h p (startCodeLen mem p)).nextNaluPtr.elim 0 fun q =>
            (h.inbuf.addr + h.inbufSize - q).toNat + 1) < d := by
          rw [hp] at hd
          cases hnext : (takeNalu mem h p (startCodeLen mem p)).nextNaluPtr with
          | none =>
            simp only [Option.elim] at hd ⊢
            omega
          | some q =>
            obtain ⟨hpq, hq, -⟩ := mem_findNextStartCode hnext
            simp only [Option.elim] at hd ⊢
            omega
        obtain ⟨N, hN⟩ := ih _ hlt (takeNalu mem h p (startCodeLen mem p)) rfl
        refine ⟨N + 1, fun n hn => ?_⟩
        obtain ⟨n, rfl⟩ : ∃ k, n = k + 1 := ⟨n - 1, by omega⟩
        rw [nalus_of_code hp hk, units_of_code hk, List.map_cons, hN n (by omega), Nalu.bytes,
          takeNalu_len]
        rfl

/-! ## Pieces end to end -/

/-- **A piece**: a start code, and behind it a unit of at least a byte in
which no start code begins past its first one. -/
structure Piece (mem : Mem) (p : ℤ) (nalu : Nalu) : Prop where
  code : ∃ c : StartCode, nalu.startcodeprefixLen = c.bytes.length ∧
    mem.bytes p c.bytes.length = c.bytes
  data : nalu.data = some (p + nalu.startcodeprefixLen)
  len_pos : 1 ≤ nalu.len
  no_code : ∀ (j : ℤ) (c : StartCode), 1 ≤ j → j < nalu.len →
    mem.bytes (p + nalu.startcodeprefixLen + j) c.bytes.length ≠ c.bytes

/-- The pieces of some units lie end to end from `p` to `stop`. -/
def Tiles (mem : Mem) (stop : ℤ) : ℤ → List Nalu → Prop
  | p, [] => p = stop
  | p, nalu :: rest =>
    Piece mem p nalu ∧ Tiles mem stop (p + nalu.startcodeprefixLen + nalu.len) rest

/-- No start code is found where none begins. -/
theorem ne_bytes_of_startCodeLen (hk : startCodeLen mem p = 0) (c : StartCode) :
    mem.bytes p c.bytes.length ≠ c.bytes := by
  intro hc
  have hlen := startCodeLen_of_bytes hc
  have hpos := c.length_pos
  omega

/-- **A start code does not reach the end** of what ends in neither a start
code nor a zero byte: it would have its last byte behind the end, or be
the end. -/
theorem add_startCodeLen_lt (hk : startCodeLen mem p ≠ 0) (hlt : p < stop)
    (hlast : mem (stop - 1) ≠ 0) (hend : isStartCode3 mem (stop - 3) = false) :
    p + startCodeLen mem p < stop := by
  have hzero : ∀ i, mem i = 0 → i ≠ stop - 1 := fun i hi heq => hlast (heq ▸ hi)
  unfold startCodeLen at hk ⊢
  split
  · rename_i h3
    obtain ⟨h0, h1, -⟩ := isStartCode3_iff.mp h3
    have hp0 := hzero _ h0
    have hp1 := hzero _ h1
    have hp : p ≠ stop - 3 := by
      rintro rfl
      exact absurd (h3.symm.trans hend) (by decide)
    omega
  · rename_i h3
    rw [if_neg h3] at hk
    split
    · rename_i h4
      obtain ⟨h0, h1, h2, -⟩ := isStartCode4_iff.mp h4
      have hp0 := hzero _ h0
      have hp1 := hzero _ h1
      have hp2 := hzero _ h2
      have hp : p + 1 ≠ stop - 3 := by
        intro heq
        have hinner := isStartCode3_of_isStartCode4 h4
        rw [heq, hend] at hinner
        exact absurd hinner (by decide)
      omega
    · rename_i h4
      exact absurd (if_neg h4) hk

/-- **One call delivers a piece**, up to the next start code or to the
end. -/
theorem piece_takeNalu (hk : startCodeLen mem p ≠ 0)
    (hlt : p + startCodeLen mem p < h.inbuf.addr + h.inbufSize) :
    Piece mem p (takeNalu mem h p (startCodeLen mem p)).nalu := by
  obtain ⟨c, hc⟩ := bytes_of_startCodeLen hk
  have hno : ∀ j, p + startCodeLen mem p < j →
      j < (findNextStartCode mem h.inbuf.addr h.inbufSize (p + startCodeLen mem p)).1 →
        startCodeLen mem j = 0 := by
    intro j h₁ h₂
    rcases findNextStartCode_cases mem h.inbuf.addr h.inbufSize (p + startCodeLen mem p) with
      ⟨q, -, -, -, hno, heq⟩ | ⟨hno, heq⟩
    · rw [heq] at h₂
      exact hno j h₁ h₂
    · rw [heq] at h₂
      exact hno j h₁ (by simp only at h₂; omega)
  refine ⟨⟨c, startCodeLen_of_bytes hc, hc⟩, rfl, ?_, fun j c' h₁ h₂ => ?_⟩
  · rw [takeNalu_len]
    have := lt_findNextStartCode mem h.inbuf.addr h.inbufSize (p + startCodeLen mem p)
    omega
  · rw [takeNalu_len] at h₂
    exact ne_bytes_of_startCodeLen (hno _ (show p + startCodeLen mem p < _ by omega)
      (show p + startCodeLen mem p + j < _ by omega)) c'

/-- **The pieces from a start code on** tile what is left of the buffer, and
the call after the last one returns 0. -/
theorem exists_tiles (hp : h.nextNaluPtr = some p) (hk : startCodeLen mem p ≠ 0)
    (hlt : p < h.inbuf.addr + h.inbufSize) (hlast : mem (h.inbuf.addr + h.inbufSize - 1) ≠ 0)
    (hend : isStartCode3 mem (h.inbuf.addr + h.inbufSize - 3) = false) :
    ∃ pieces, Tiles mem (h.inbuf.addr + h.inbufSize) p pieces ∧
      ∃ N, ∀ n ≥ N, nalus mem n h = (pieces, 0) := by
  -- on what is left: the next start code is nearer to the end
  induction hd : (h.inbuf.addr + h.inbufSize - p).toNat using Nat.strong_induction_on
    generalizing h p with
  | _ d ih =>
    have hin := add_startCodeLen_lt hk hlt hlast hend
    have hpiece := piece_takeNalu hk hin
    have hkpos := startCodeLen_pos hk
    set h' := takeNalu mem h p (startCodeLen mem p) with hh'
    have hnalu : p + h'.nalu.startcodeprefixLen + h'.nalu.len =
        (findNextStartCode mem h.inbuf.addr h.inbufSize (p + startCodeLen mem p)).1 := by
      rw [hh', takeNalu_len]
      exact add_sub_cancel _ _
    rcases findNextStartCode_cases mem h.inbuf.addr h.inbufSize (p + startCodeLen mem p) with
      ⟨q, hpq, hq, hcode, -, heq⟩ | ⟨-, heq⟩
    · have hnext : h'.nextNaluPtr = some q := congrArg Prod.snd heq
      obtain ⟨pieces, htiles, N, hN⟩ := ih (h.inbuf.addr + h.inbufSize - q).toNat (by omega)
        (h := h') hnext hcode hq hlast hend rfl
      refine ⟨h'.nalu :: pieces, ⟨hpiece, ?_⟩, N + 1, fun n hn => ?_⟩
      · rw [hnalu, heq]
        exact htiles
      · obtain ⟨n, rfl⟩ : ∃ k, n = k + 1 := ⟨n - 1, by omega⟩
        rw [nalus_of_code hp hk, ← hh', hN n (by omega)]
    · have hnext : h'.nextNaluPtr = none := congrArg Prod.snd heq
      refine ⟨[h'.nalu], ⟨hpiece, ?_⟩, 2, fun n hn => ?_⟩
      · rw [hnalu, heq]
        exact max_eq_right (by omega)
      · obtain ⟨n, rfl⟩ : ∃ k, n = k + 2 := ⟨n - 2, by omega⟩
        rw [nalus_of_code hp hk, ← hh', nalus_of_none hnext]

/-- **The start-code scan tiles the buffer.** After `pack_put` of a buffer
that begins with a start code, does not end in `00 00 01` and whose last
byte is not zero, the calls deliver pieces that lie end to end over the
whole buffer, and the call after the last one returns 0. -/
theorem tiles_packPut {c : StartCode} (hcode : c.bytes <+: b) (hend : ¬ [0, 0, 1] <:+ b)
    (hlast : b.getLast? ≠ some 0) (hmem : mem.bytes a b.length = b) :
    ∃ pieces, Tiles mem (a + b.length) a pieces ∧
      ∃ N, ∀ n ≥ N, nalus mem n (packPut h (some a) b.length) = (pieces, 0) := by
  have hle := hcode.length_le
  have hlen : 3 ≤ b.length := by
    cases c with
    | short => exact hle
    | long => exact Nat.le_of_succ_le hle
  have hk : startCodeLen mem a ≠ 0 := by
    obtain ⟨rest, rfl⟩ := hcode
    rw [startCodeLen_of_bytes (Mem.bytes_append.mp hmem).1]
    exact_mod_cast c.length_pos.ne'
  have hlast' : mem (a + b.length - 1) ≠ 0 := by
    intro hzero
    have hget := Mem.getLast?_bytes (m := mem) (a := a) (n := b.length - 1)
    rw [show b.length - 1 + 1 = b.length by omega, hmem,
      show a + ((b.length - 1 : ℕ) : ℤ) = a + b.length - 1 by omega, hzero] at hget
    exact hlast hget
  have hend' : isStartCode3 mem (a + b.length - 3) = false := by
    refine Bool.eq_false_iff.mpr fun h3 => hend ?_
    have hdrop := Mem.bytes_drop hmem (show b.length - 3 ≤ b.length by omega)
    rw [List.length_drop, show b.length - (b.length - 3) = 3 by omega,
      show a + ((b.length - 3 : ℕ) : ℤ) = a + b.length - 3 by omega,
      bytes_of_isStartCode3 h3] at hdrop
    exact ⟨b.take (b.length - 3), by rw [hdrop, List.take_append_drop]⟩
  exact exists_tiles (h := packPut h (some a) b.length) rfl hk (show a < a + b.length by omega)
    hlast' hend'

/-- Start codes of both lengths, one right behind the other: the second is
the unit of the first. -/
theorem tiles_packPut_adjacent :
    let b : List UInt8 := [0, 0, 0, 1, 0, 0, 1, 0x67, 0, 0, 1, 0x65, 0x88]
    let h := openedHandle ⟨1400, 10⟩ (Mem.holding 0 []) ⟨1, 500⟩
    ∃ pieces, Tiles (Mem.holding 0 b) (0 + b.length) 0 pieces ∧
      ∃ N, ∀ n ≥ N, nalus (Mem.holding 0 b) n (packPut h (some 0) b.length) = (pieces, 0) :=
  tiles_packPut (c := .long) (by decide) (by decide) (by decide) Mem.bytes_holding

end RtpPack

end Camkit
