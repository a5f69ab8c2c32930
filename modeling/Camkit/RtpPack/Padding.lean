import Camkit.RtpPack.Tiling
/-!
# RTP packetiser — zero padding

In the Annex B grammar zero bytes may lie before the first start code,
between a unit and the next one, and behind the last. The scan knows start
codes of three and of four bytes, and so at most one of these zeros: it
finds nothing behind two of them at the head, and elsewhere takes what it
does not know for a part of the unit before.
-/

namespace Camkit

namespace RtpPack

variable {mem : Mem} {h : PacHandle} {inbuf size p q z e a : ℤ} {leading : ℕ}

/-! ## The grammar -/

/-- `byte_stream_nal_unit`, without the zeros that lead the stream. -/
structure StreamUnit where
  zeroByte : Bool
  nal : List UInt8
  /-- the number of `trailing_zero_8bits` -/
  trailing : ℕ
  nonempty : nal ≠ []
  no_zeros : ¬ [0, 0, 0] <:+: nal
  no_startCode : ¬ [0, 0, 1] <:+: nal
  last_ne_zero : nal.getLast? ≠ some 0

/-- The bytes of a unit, from its `zero_byte` to its last trailing zero. -/
def StreamUnit.bytes (u : StreamUnit) : List UInt8 :=
  List.replicate u.zeroByte.toNat 0 ++ [0, 0, 1] ++ u.nal ++ List.replicate u.trailing 0

/-- `byte_stream`: leading zeros, and the units. -/
def byteStream (leading : ℕ) (us : List StreamUnit) : List UInt8 :=
  List.replicate leading 0 ++ us.flatMap StreamUnit.bytes

/-- At most one zero before each `00 00 01`, the first one having `gap`
besides its own, and none behind the last unit. -/
def Unpadded : ℕ → List StreamUnit → Prop
  | gap, [] => gap = 0
  | gap, u :: us => gap + u.zeroByte.toNat ≤ 1 ∧ Unpadded u.trailing us

instance decidableUnpadded : ∀ gap us, Decidable (Unpadded gap us)
  | gap, [] => inferInstanceAs (Decidable (gap = 0))
  | gap, u :: us =>
    have := decidableUnpadded u.trailing us
    inferInstanceAs (Decidable (gap + u.zeroByte.toNat ≤ 1 ∧ Unpadded u.trailing us))

/-- What the scan delivers of some units, the start code of the first one
found: each with the zeros behind it, but for the one that goes to the next
start code. -/
def padded : List StreamUnit → List (List UInt8)
  | [] => []
  | [u] => [u.nal ++ List.replicate u.trailing 0]
  | u :: v :: us =>
    (u.nal ++ List.replicate (u.trailing + v.zeroByte.toNat - 1) 0) :: padded (v :: us)

variable {u : StreamUnit} {us : List StreamUnit}

theorem append_replicate_eq_self {l : List UInt8} {k : ℕ} :
    l ++ List.replicate k 0 = l ↔ k = 0 := by
  rw [List.append_right_eq_self, List.replicate_eq_nil_iff]

/-- **Nothing is attached exactly where there is no padding.** -/
theorem padded_eq_iff :
    padded (u :: us) = (u :: us).map StreamUnit.nal ↔ Unpadded u.trailing us := by
  induction us generalizing u with
  | nil =>
    rw [padded, List.map_singleton, List.singleton_inj, append_replicate_eq_self, Unpadded]
  | cons v us ih =>
    rw [padded, List.map_cons, List.cons_eq_cons, append_replicate_eq_self, ih, Unpadded]
    exact and_congr (by omega) Iff.rfl

/-! ## Runs of zeros -/

/-- **In a run of zeros** a start code begins two or three bytes before a 1
that ends the run, and nowhere else. -/
theorem startCodeLen_of_run (hz : ∀ i, z ≤ i → i < e → mem i = 0) (he : mem e ≠ 0) {j : ℤ}
    (h₁ : z ≤ j) (h₂ : j < e) :
    startCodeLen mem j = if mem e = 1 ∧ j + 2 = e then 3 else if mem e = 1 ∧ j + 3 = e then 4
      else 0 := by
  -- a zero of the run is not its end, and a 1 is
  have hzero : ∀ i, mem i = 0 → i ≤ e → i < e := fun i hi hle =>
    lt_of_le_of_ne hle fun heq => he (heq ▸ hi)
  have hone : ∀ i, z ≤ i → mem i = 1 → i ≤ e → i = e := fun i hi h1 hle => by
    by_contra hne
    exact absurd ((hz i hi (lt_of_le_of_ne hle hne)).symm.trans h1) (by decide)
  have h3 : isStartCode3 mem j = true ↔ mem e = 1 ∧ j + 2 = e := by
    rw [isStartCode3_iff]
    constructor
    · rintro ⟨-, hj1, hj2⟩
      have hlt := hzero (j + 1) hj1 (by omega)
      have heq := hone (j + 2) (by omega) hj2 (by omega)
      exact ⟨heq ▸ hj2, heq⟩
    · rintro ⟨h1, rfl⟩
      exact ⟨hz j h₁ h₂, hz (j + 1) (by omega) (by omega), h1⟩
  have h4 : isStartCode4 mem j = true ↔ mem e = 1 ∧ j + 3 = e := by
    rw [isStartCode4_iff]
    constructor
    · rintro ⟨-, hj1, hj2, hj3⟩
      have hlt := hzero (j + 1) hj1 (by omega)
      have hlt' := hzero (j + 2) hj2 (by omega)
      have heq := hone (j + 3) (by omega) hj3 (by omega)
      exact ⟨heq ▸ hj3, heq⟩
    · rintro ⟨h1, rfl⟩
      exact ⟨hz j h₁ h₂, hz (j + 1) (by omega) (by omega), hz (j + 2) (by omega) (by omega), h1⟩
  unfold startCodeLen
  simp only [h3, h4]

/-- A unit begins with its zeros and ends with what it and the rest leave
before the next 1. -/
theorem byteStream_cons :
    byteStream leading (u :: us) =
      List.replicate (leading + u.zeroByte.toNat + 2) 0 ++
        (1 :: (u.nal ++ byteStream u.trailing us)) := by
  rw [byteStream, byteStream, List.flatMap_cons, StreamUnit.bytes,
    ← List.replicate_append_replicate, ← List.replicate_append_replicate]
  simp only [List.append_assoc]
  rfl

/-- What a memory holds of a list that begins with a byte. -/
theorem bytes_cons {b : UInt8} {l : List UInt8} : mem.bytes p (b :: l).length = b :: l ↔
    mem p = b ∧ mem.bytes (p + 1) l.length = l := by
  rw [List.length_cons, Mem.bytes_succ, List.cons_eq_cons]

theorem eq_zero_of_bytes {k : ℕ}
    (hl : mem.bytes p (List.replicate k (0 : UInt8)).length = List.replicate k 0) :
    ∀ i, p ≤ i → i < p + k → mem i = 0 := by
  intro i h₁ h₂
  rw [List.length_replicate] at hl
  have hget := Mem.getElem?_bytes (m := mem) (a := p) (show (i - p).toNat < k by omega)
  rw [hl, List.getElem?_replicate_of_lt (by omega),
    show p + ((i - p).toNat : ℤ) = i by omega] at hget
  exact (Option.some.inj hget).symm

/-! ## What the scan delivers -/

/-- **No start code begins in a unit nor in the zeros behind it**, short of
a place `q` that is more than three bytes before a 1 behind the zeros. -/
theorem startCodeLen_before_run (hnal : mem.bytes p u.nal.length = u.nal)
    (hz : ∀ i, p + u.nal.length ≤ i → i < e → mem i = 0) (he : mem e ≠ 0) (hq : q ≤ e)
    (hone : mem e = 1 → ∀ j, p + u.nal.length ≤ j → j < q → j + 3 < e) {j : ℤ} (h₁ : p < j)
    (h₂ : j < q) : startCodeLen mem j = 0 := by
  rcases lt_or_ge j (p + u.nal.length) with hlt | hge
  · exact startCodeLen_of_inside hnal u.no_startCode u.last_ne_zero h₁ hlt
  · rw [startCodeLen_of_run hz he hge (lt_of_lt_of_le h₂ hq), if_neg, if_neg]
    · rintro ⟨h1, hj⟩
      have hfar := hone h1 j hge h₂
      omega
    · rintro ⟨h1, hj⟩
      have hfar := hone h1 j hge h₂
      omega

/-- **The last unit** is delivered with all zeros behind it. -/
theorem units_last (hk : startCodeLen mem p ≠ 0)
    (hnal : mem.bytes (p + startCodeLen mem p) u.nal.length = u.nal)
    (hz : ∀ i, p + startCodeLen mem p + u.nal.length ≤ i → i < inbuf + size → mem i = 0)
    (hend : p + startCodeLen mem p + (u.nal.length + u.trailing : ℕ) = inbuf + size)
    (hbehind : mem (inbuf + size) ≠ 0 ∧ mem (inbuf + size) ≠ 1) :
    units mem inbuf size (some p) = [u.nal ++ List.replicate u.trailing 0] := by
  have hno : ∀ j, p + startCodeLen mem p < j → j < inbuf + size → startCodeLen mem j = 0 :=
    fun j => startCodeLen_before_run hnal hz hbehind.1 le_rfl fun h1 => absurd h1 hbehind.2
  have hpos := List.length_pos_iff.mpr u.nonempty
  push_cast at hend
  rw [units_of_code hk, findNextStartCode_eq_none hno, max_eq_right (by omega), units_none,
    show (inbuf + size - (p + startCodeLen mem p)).toNat = u.nal.length + u.trailing by omega,
    Mem.bytes_add, hnal, Mem.bytes_eq_replicate fun i h₁ h₂ => hz i h₁ (by omega)]

/-- **The start code after a run of zeros** has one of them before its three
bytes, if there is one to spare. -/
theorem startCodeLen_after_zeros {g : ℕ} (hz : ∀ i, z ≤ i → i < z + (g + 2) → mem i = 0)
    (hone : mem (z + (g + 2)) = 1) :
    z + (g - 1 : ℕ) + startCodeLen mem (z + (g - 1 : ℕ)) = z + (g + 2) + 1 ∧
      startCodeLen mem (z + (g - 1 : ℕ)) ≠ 0 := by
  rw [startCodeLen_of_run hz (by rw [hone]; decide) (by omega) (by omega)]
  by_cases hg0 : g = 0
  · rw [if_pos ⟨hone, by omega⟩]
    omega
  · rw [if_neg (by omega), if_pos ⟨hone, by omega⟩]
    omega

/-- **From a start code on** the scan delivers the units with their
padding. -/
theorem units_padded (hk : startCodeLen mem p ≠ 0)
    (hmem : mem.bytes (p + startCodeLen mem p) (u.nal ++ byteStream u.trailing us).length =
      u.nal ++ byteStream u.trailing us)
    (hend : p + startCodeLen mem p + (u.nal ++ byteStream u.trailing us).length = inbuf + size)
    (hbehind : mem (inbuf + size) ≠ 0 ∧ mem (inbuf + size) ≠ 1) :
    units mem inbuf size (some p) = padded (u :: us) := by
  induction us generalizing p u with
  | nil =>
    obtain ⟨hnal, hzeros⟩ := Mem.bytes_append.mp hmem
    rw [byteStream, List.flatMap_nil, List.append_nil] at hzeros hend
    rw [List.length_append, List.length_replicate] at hend
    have hz := eq_zero_of_bytes hzeros
    exact units_last hk hnal (fun i hi hlt => hz i hi (by push_cast at hend; omega)) hend hbehind
  | cons v us ih =>
    obtain ⟨hnal, hrest⟩ := Mem.bytes_append.mp hmem
    have hpos := List.length_pos_iff.mpr u.nonempty
    rw [byteStream_cons] at hrest hend
    obtain ⟨hzeros, htail⟩ := Mem.bytes_append.mp hrest
    have hz := eq_zero_of_bytes hzeros
    rw [List.length_replicate, bytes_cons] at htail
    obtain ⟨hone, htail⟩ := htail
    rw [List.length_append, List.length_append, List.length_replicate, List.length_cons] at hend
    set g := u.trailing + v.zeroByte.toNat with hg
    set z := p + startCodeLen mem p + u.nal.length with hzdef
    push_cast at hz hone htail hend
    obtain ⟨hlen, hcode⟩ := startCodeLen_after_zeros hz hone
    set q := z + ((g - 1 : ℕ) : ℤ) with hq
    have hno : ∀ j, p + startCodeLen mem p < j → j < q → startCodeLen mem j = 0 := fun j =>
      startCodeLen_before_run hnal hz (by rw [hone]; decide) (by omega) fun _ j _ hj => by omega
    rw [← hlen] at htail
    have hlast : q + startCodeLen mem q + (v.nal ++ byteStream v.trailing us).length =
        inbuf + size := by
      rw [hlen]
      omega
    rw [units_of_code hk, findNextStartCode_eq_some (by omega) (by omega) hcode hno,
      ih hcode htail hlast, padded, ← hg,
      show (q - (p + startCodeLen mem p)).toNat = u.nal.length + (g - 1) by omega, Mem.bytes_add,
      hnal, Mem.bytes_eq_replicate fun i h₁ h₂ => hz i h₁ (by omega)]

/-- Zeros alone are no start code. -/
theorem units_of_zeros
    (hmem : mem.bytes a (List.replicate leading (0 : UInt8)).length = List.replicate leading 0)
    (hbehind : mem (a + leading) ≠ 0 ∧ mem (a + leading) ≠ 1) :
    units mem inbuf size (some a) = [] := by
  have hz := eq_zero_of_bytes hmem
  refine units_of_not_code ?_
  rcases Nat.eq_zero_or_pos leading with rfl | hpos
  · by_contra hk
    obtain ⟨c, hc⟩ := bytes_of_startCodeLen hk
    refine hbehind.1 ?_
    rw [Nat.cast_zero, add_zero]
    cases c with
    | short => exact (List.cons.inj hc).1
    | long => exact (List.cons.inj hc).1
  · rw [startCodeLen_of_run hz hbehind.1 le_rfl (by omega), if_neg fun h => hbehind.2 h.1,
      if_neg fun h => hbehind.2 h.1]

/-- **The units of a byte stream are its NAL units exactly where it is not
padded.** -/
theorem units_byteStream_iff
    (hmem : mem.bytes a (byteStream leading us).length = byteStream leading us)
    (hbehind : mem (a + (byteStream leading us).length) ≠ 0 ∧
      mem (a + (byteStream leading us).length) ≠ 1) :
    units mem a (byteStream leading us).length (some a) = us.map StreamUnit.nal ↔
      us = [] ∨ Unpadded leading us := by
  cases us with
  | nil =>
    rw [byteStream, List.flatMap_nil, List.append_nil, List.length_replicate] at hbehind
    rw [byteStream, List.flatMap_nil, List.append_nil] at hmem ⊢
    rw [units_of_zeros hmem hbehind]
    exact ⟨fun _ => .inl rfl, fun _ => rfl⟩
  | cons u us =>
    rw [or_iff_right (List.cons_ne_nil u us), Unpadded]
    rw [byteStream_cons] at hmem hbehind ⊢
    obtain ⟨hzeros, htail⟩ := Mem.bytes_append.mp hmem
    have hz := eq_zero_of_bytes hzeros
    rw [List.length_replicate, bytes_cons] at htail
    obtain ⟨hone, htail⟩ := htail
    set gap := leading + u.zeroByte.toNat with hgap
    push_cast at hz hone htail
    rcases Nat.lt_or_ge 1 gap with hlt | hle
    · -- two zeros before the first start code, and all is lost
      have hrun := startCodeLen_of_run hz (by rw [hone]; decide) le_rfl (by omega)
      rw [if_neg (by omega), if_neg (by omega)] at hrun
      rw [units_of_not_code hrun]
      exact ⟨fun heq => absurd heq.symm (List.cons_ne_nil _ _), fun h => by omega⟩
    · have hk := startCodeLen_after_zeros hz hone
      rw [Nat.sub_eq_zero_of_le hle, Nat.cast_zero, add_zero] at hk
      rw [← hk.1] at htail
      rw [units_padded hk.2 htail ?_ hbehind, padded_eq_iff, and_iff_right hle]
      rw [hk.1]
      simp only [List.length_append, List.length_replicate, List.length_cons]
      omega

/-- **The splitter accepts a byte stream exactly where it is not padded.**
On a stream of the Annex B grammar followed by a byte that is neither 0
nor 1, the calls of `get_next_nalu` deliver its NAL units, in order and
with nothing attached, if and only if there is at most one zero before
each `00 00 01` and none behind the last unit, or there is no unit. -/
theorem nalus_byteStream_iff
    (hmem : mem.bytes a (byteStream leading us).length = byteStream leading us)
    (hbehind : mem (a + (byteStream leading us).length) ≠ 0 ∧
      mem (a + (byteStream leading us).length) ≠ 1) :
    (∃ N, ∀ n ≥ N, (nalus mem n (packPut h (some a) (byteStream leading us).length)).1.map
        (Nalu.bytes mem) = us.map StreamUnit.nal) ↔
      us = [] ∨ Unpadded leading us := by
  rw [← units_byteStream_iff hmem hbehind]
  obtain ⟨N, hN⟩ := bytes_nalus mem (packPut h (some a) (byteStream leading us).length)
  constructor
  · rintro ⟨N', hN'⟩
    exact (hN _ (le_max_left N N')).symm.trans (hN' _ (le_max_right N N'))
  · intro heq
    exact ⟨N, fun n hn => (hN n hn).trans heq⟩

/-- Two units, the first one behind four bytes and the second behind
three. -/
def twoUnits : List StreamUnit :=
  [⟨true, [0x67, 0x42], 0, by decide, by decide, by decide, by decide⟩,
    ⟨false, [0x65, 0x88], 0, by decide, by decide, by decide, by decide⟩]

theorem nalus_byteStream_iff_two :
    let mem := Mem.holding 0 (byteStream 0 twoUnits ++ [0xff])
    let h := packPut (openedHandle ⟨1400, 10⟩ (Mem.holding 0 []) ⟨1, 500⟩) (some 0)
      (byteStream 0 twoUnits).length
    (∃ N, ∀ n ≥ N, (nalus mem n h).1.map (Nalu.bytes mem) = twoUnits.map StreamUnit.nal) ↔
      twoUnits = [] ∨ Unpadded 0 twoUnits :=
  nalus_byteStream_iff (by decide) (by decide)

/-- **A second zero before the first start code** hides the whole stream. -/
theorem not_nalus_byteStream :
    let mem := Mem.holding 0 (byteStream 1 twoUnits ++ [0xff, 0xff, 0xff, 0xff])
    let h := packPut (openedHandle ⟨1400, 10⟩ (Mem.holding 0 []) ⟨1, 500⟩) (some 0)
      (byteStream 1 twoUnits).length
    ¬ ∃ N, ∀ n ≥ N, (nalus mem n h).1.map (Nalu.bytes mem) = twoUnits.map StreamUnit.nal := by
  intro mem h
  rintro ⟨N, hN⟩
  have hnone : startCodeLen mem 0 = 0 := by decide
  have hempty := hN (N + 1) (Nat.le_succ N)
  rw [nalus_of_not_code (p := 0) rfl hnone] at hempty
  exact absurd hempty (by decide)

end RtpPack

end Camkit
