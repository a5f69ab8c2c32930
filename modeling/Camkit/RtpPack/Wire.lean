import Camkit.RtpPack.Model.Stream
/-!
# RTP packetiser — what the output buffer holds

`pack_get` writes a packet field by field into a cleared buffer: bit
fields, stores through the `rtp_header` overlay, and a copy of the
payload. This file reads the result back as bytes. The header fields land
below offset 12 in every data model or under bytes written later, which is
what `Headed` says of a buffer, and the single-NALU and FU layouts put
their one or two bytes before the payload.
-/

namespace Camkit

namespace RtpPack

variable {T : Target} {ssrc ts : UInt32} {seq : UInt16} {marker : Bool} {buf buf' mem : Mem}
variable {a : ℤ} {n : ℕ}

/-! ## Numbers in network order -/

/-- `htons` on a little-endian machine puts the high byte first. -/
theorem leBytes_htons (x : UInt16) : leBytes (htons x) 2 = be16 x := by
  have := x.toNat_lt
  rw [htons, leBytes_horner (by omega), leBytes, UInt8.ofNat_mod_size]
  rfl

/-- The bytes of `htonl` are the number's, the high one first; a store
wider than four bytes adds zeros. -/
theorem leBytes_htonl (x : UInt32) (n : ℕ) :
    leBytes (htonl x) (n + 4) = be32 x ++ List.replicate n 0 := by
  have := x.toNat_lt
  have hlow : leBytes (x.toNat % 256) (n + 1) = UInt8.ofNat x.toNat :: List.replicate n 0 := by
    rw [leBytes, Nat.div_eq_of_lt (Nat.mod_lt _ (by decide)), leBytes_zero, UInt8.ofNat_mod_size]
  rw [htonl, leBytes_horner (by omega), leBytes_horner (by omega), leBytes_horner (by omega), hlow,
    UInt8.ofNat_mod_size, UInt8.ofNat_mod_size]
  rfl

/-! ## The header -/

/-- The first twelve bytes of a buffer are a packet header. -/
structure Headed (T : Target) (ssrc : UInt32) (seq : UInt16) (ts : UInt32) (marker : Bool)
    (buf : Mem) : Prop where
  byte0 : buf 0 = 0x80
  byte1 : buf 1 = if marker then 0xe0 else 0x60
  rest : buf.bytes 2 10 = be16 seq ++ stampBytes T ts ssrc

/-- A buffer with the header has its twelve bytes in front. -/
theorem Headed.bytes (h : Headed T ssrc seq ts marker buf) (payload : List UInt8) :
    buf.bytes 0 12 = wireHeader T ssrc ⟨marker, seq, ts, payload⟩ := by
  rw [Mem.bytes_succ, Mem.bytes_succ, show (0 : ℤ) + 1 + 1 = 2 from rfl, h.byte0, h.rest,
    show (0 : ℤ) + 1 = 1 from rfl, h.byte1]
  rfl

/-- Later writes leave the header alone where they leave its bytes alone. -/
theorem Headed.congr (h : Headed T ssrc seq ts marker buf)
    (heq : ∀ i, 0 ≤ i → i < 12 → buf' i = buf i) : Headed T ssrc seq ts marker buf' where
  byte0 := by rw [heq 0 (by omega) (by omega), h.byte0]
  byte1 := by rw [heq 1 (by omega) (by omega), h.byte1]
  rest := by
    rw [Mem.bytes_congr fun i h₁ h₂ => heq i (by omega) (by push_cast at h₂; omega), h.rest]

/-- The marker assigned. -/
theorem Headed.setMarker (h : Headed T ssrc seq ts false buf) (marker : Bool) :
    Headed T ssrc seq ts marker (setMarker buf (if marker then 1 else 0)) where
  byte0 := by rw [RtpPack.setMarker, Mem.setField_of_ne (by decide), h.byte0]
  byte1 := by
    rw [RtpPack.setMarker, Mem.setField_self, h.byte1]
    cases marker <;> rfl
  rest := by
    rw [← h.rest]
    exact Mem.bytes_congr fun i h₁ h₂ => Mem.setField_of_ne (by omega)

/-! ## The overlay, data model by data model -/

theorem setTimestamp_of_ilp32 (hT : T.dataModel = .ilp32) :
    setTimestamp T buf ts = buf.storeLE 4 4 (htonl ts) := by
  simp only [setTimestamp, offsetofTimestamp, hT, DataModel.sizeofLong]
  rfl

/-- With longs of eight bytes the timestamp stands behind its place. -/
theorem setTimestamp_of_lp64 (hT : T.dataModel = .lp64) :
    setTimestamp T buf ts = buf.storeLE 8 8 (htonl ts) := by
  simp only [setTimestamp, offsetofTimestamp, hT, DataModel.sizeofLong]
  rfl

theorem setSsrc_of_ilp32 (hT : T.dataModel = .ilp32) :
    setSsrc T buf ssrc = buf.storeLE 8 4 (htonl ssrc) := by
  simp only [setSsrc, offsetofSsrc, offsetofTimestamp, hT, DataModel.sizeofLong]
  rfl

/-- So does the source. -/
theorem setSsrc_of_lp64 (hT : T.dataModel = .lp64) :
    setSsrc T buf ssrc = buf.storeLE 16 8 (htonl ssrc) := by
  simp only [setSsrc, offsetofSsrc, offsetofTimestamp, hT, DataModel.sizeofLong]
  rfl

/-- The SSRC is stored at offset 8 or later, in whichever data model. -/
theorem setSsrc_of_lt {i : ℤ} (h : i < 8) : setSsrc T buf ssrc i = buf i := by
  cases hT : T.dataModel with
  | ilp32 => rw [setSsrc_of_ilp32 hT, Mem.storeLE_of_lt h]
  | lp64 => rw [setSsrc_of_lp64 hT, Mem.storeLE_of_lt (by omega)]

/-- The timestamp is stored at offset 4 or later. -/
theorem setTimestamp_of_lt {i : ℤ} (h : i < 4) : setTimestamp T buf ts i = buf i := by
  cases hT : T.dataModel with
  | ilp32 => rw [setTimestamp_of_ilp32 hT, Mem.storeLE_of_lt h]
  | lp64 => rw [setTimestamp_of_lp64 hT, Mem.storeLE_of_lt (by omega)]

/-! ## The common header -/

variable {h : PacHandle}

/-- The common header but for the SSRC. -/
def clearedHeader (h : PacHandle) : Mem :=
  setMarker (((h.outbuf.fill 0 maxOutbufSize 0).setField 1 0 7 H264).setField 0 6 2 2) 0

theorem commonHeader_eq : commonHeader T h = setSsrc T (clearedHeader h) h.params.ssrc.toUInt32 :=
  rfl

/-- Behind the first two bytes the cleared header is zero. -/
theorem clearedHeader_of_mem {i : ℤ} (h₁ : 2 ≤ i) (h₂ : i < 10240) : clearedHeader h i = 0 := by
  have hmax : ((maxOutbufSize : ℕ) : ℤ) = 10240 := rfl
  unfold clearedHeader setMarker
  rw [Mem.setField_of_ne (by omega), Mem.setField_of_ne (by omega),
    Mem.setField_of_ne (by omega), Mem.fill_of_mem (by omega) (by omega)]

theorem clearedHeader_zero : clearedHeader h 0 = 0x80 := by
  have hmax : ((maxOutbufSize : ℕ) : ℤ) = 10240 := rfl
  unfold clearedHeader setMarker
  rw [Mem.setField_of_ne (by omega), Mem.setField_self, Mem.setField_of_ne (by omega),
    Mem.fill_of_mem (by omega) (by omega)]
  rfl

theorem clearedHeader_one : clearedHeader h 1 = 0x60 := by
  have hmax : ((maxOutbufSize : ℕ) : ℤ) = 10240 := rfl
  unfold clearedHeader setMarker
  rw [Mem.setField_self, Mem.setField_of_ne (by omega), Mem.setField_self,
    Mem.fill_of_mem (by omega) (by omega)]
  rfl

/-- The output buffer once the sequence number and timestamp are in. -/
abbrev stampedHeader (T : Target) (h : PacHandle) (seq : UInt16) (ts : UInt32) : Mem :=
  setTimestamp T (setSeqNo (commonHeader T h) seq) ts

/-- The number is in the bytes 2 and 3. -/
theorem stampedHeader_seq : (stampedHeader T h seq ts).bytes 2 2 = be16 seq := by
  rw [← leBytes_htons, ← Mem.bytes_storeLE (m := commonHeader T h) (a := 2)]
  exact Mem.bytes_congr fun i h₁ h₂ => setTimestamp_of_lt (by push_cast at h₂; omega)

/-- With a four-byte `unsigned long` timestamp and SSRC stand side by
side. -/
theorem stampedHeader_of_ilp32 (hT : T.dataModel = .ilp32) :
    (stampedHeader T h seq ts).bytes 4 8 = be32 ts ++ be32 h.params.ssrc.toUInt32 := by
  have h4 : (stampedHeader T h seq ts).bytes 4 4 = be32 ts := by
    unfold stampedHeader
    rw [setTimestamp_of_ilp32 hT, Mem.bytes_storeLE]
    simpa using leBytes_htonl ts 0
  have h8 : (stampedHeader T h seq ts).bytes 8 4 = be32 h.params.ssrc.toUInt32 := by
    have hstore := Mem.bytes_storeLE (m := clearedHeader h) (a := 8) (n := 4)
      (x := htonl h.params.ssrc.toUInt32)
    rw [← setSsrc_of_ilp32 hT, ← commonHeader_eq, leBytes_htonl _ 0] at hstore
    unfold stampedHeader
    rw [setTimestamp_of_ilp32 hT]
    refine Eq.trans (Mem.bytes_congr fun i h₁ h₂ => ?_) (by simpa using hstore)
    rw [Mem.storeLE_of_ge (by push_cast; omega), setSeqNo, Mem.storeLE_of_ge (by push_cast; omega)]
  rw [show (8 : ℕ) = 4 + 4 from rfl, Mem.bytes_add, h4]
  exact congrArg _ h8

/-- With an eight-byte one the timestamp begins four bytes late, and its
upper half lies under the payload. -/
theorem stampedHeader_of_lp64 (hT : T.dataModel = .lp64) :
    (stampedHeader T h seq ts).bytes 4 12 = [0, 0, 0, 0] ++ (be32 ts ++ [0, 0, 0, 0]) := by
  have h4 : (stampedHeader T h seq ts).bytes 4 4 = [0, 0, 0, 0] := by
    unfold stampedHeader
    rw [setTimestamp_of_lp64 hT]
    refine Mem.bytes_eq_replicate ?_
    intro i h₁ h₂
    push_cast at h₂
    rw [Mem.storeLE_of_lt (by omega), setSeqNo, Mem.storeLE_of_ge (by push_cast; omega),
      commonHeader_eq, setSsrc_of_lt (by omega), clearedHeader_of_mem (by omega) (by omega)]
  have h8 : (stampedHeader T h seq ts).bytes 8 8 = be32 ts ++ [0, 0, 0, 0] := by
    unfold stampedHeader
    rw [setTimestamp_of_lp64 hT, Mem.bytes_storeLE]
    exact leBytes_htonl ts 4
  rw [show (12 : ℕ) = 4 + 8 from rfl, Mem.bytes_add, h4]
  exact congrArg _ h8

/-- Bytes 4 to 13: the stamp, and two bytes still clear. -/
theorem stampedHeader_stamp :
    (stampedHeader T h seq ts).bytes 4 10 = stampBytes T ts h.params.ssrc.toUInt32 ++ [0, 0] := by
  cases hT : T.dataModel with
  | ilp32 =>
    have h12 : (stampedHeader T h seq ts).bytes 12 2 = [0, 0] := by
      unfold stampedHeader
      refine Mem.bytes_eq_replicate ?_
      intro i h₁ h₂
      push_cast at h₂
      rw [setTimestamp_of_ilp32 hT, Mem.storeLE_of_ge (by push_cast; omega), setSeqNo,
        Mem.storeLE_of_ge (by push_cast; omega), commonHeader_eq, setSsrc_of_ilp32 hT,
        Mem.storeLE_of_ge (by push_cast; omega), clearedHeader_of_mem (by omega) (by omega)]
    rw [show (10 : ℕ) = 8 + 2 from rfl, Mem.bytes_add, stampedHeader_of_ilp32 hT, stampBytes, hT]
    exact congrArg _ h12
  | lp64 =>
    have hlong : (stampedHeader T h seq ts).bytes 4 12 = _ := stampedHeader_of_lp64 hT
    have htake := congrArg (List.take 10) hlong
    rw [Mem.take_bytes (by decide)] at htake
    rw [htake, stampBytes, hT]
    rfl

/-- **The header a packet is given** before its marker is decided. -/
theorem headed_stampedHeader :
    Headed T h.params.ssrc.toUInt32 seq ts false (stampedHeader T h seq ts) where
  byte0 := by
    rw [stampedHeader, setTimestamp_of_lt (by omega), setSeqNo, Mem.storeLE_of_lt (by omega),
      commonHeader_eq, setSsrc_of_lt (by omega), clearedHeader_zero]
  byte1 := by
    rw [stampedHeader, setTimestamp_of_lt (by omega), setSeqNo, Mem.storeLE_of_lt (by omega),
      commonHeader_eq, setSsrc_of_lt (by omega), clearedHeader_one]
    rfl
  rest := by
    have hstamp : (stampedHeader T h seq ts).bytes 4 10 = _ := stampedHeader_stamp
    have htake := congrArg (List.take 8) hstamp
    rw [Mem.take_bytes (by decide)] at htake
    rw [show (10 : ℕ) = 2 + 8 from rfl, Mem.bytes_add, stampedHeader_seq]
    refine congrArg _ (htake.trans ?_)
    unfold stampBytes
    cases T.dataModel <;> rfl

theorem stampedHeader_twelve : stampedHeader T h seq ts 12 = 0 := by
  have hget := Mem.getElem?_bytes (m := stampedHeader T h seq ts) (a := 4) (n := 10) (k := 8)
    (by decide)
  rw [stampedHeader_stamp] at hget
  refine (Option.some.inj (Eq.trans ?_ hget)).symm
  unfold stampBytes
  cases T.dataModel <;> rfl

theorem stampedHeader_thirteen : stampedHeader T h seq ts 13 = 0 := by
  have hget := Mem.getElem?_bytes (m := stampedHeader T h seq ts) (a := 4) (n := 10) (k := 9)
    (by decide)
  rw [stampedHeader_stamp] at hget
  refine (Option.some.inj (Eq.trans ?_ hget)).symm
  unfold stampBytes
  cases T.dataModel <;> rfl

/-! ## The header read back -/

/-- A number read back from its two bytes. -/
theorem beNat_be16 (x : UInt16) : beNat (be16 x) = x.toNat := by
  have := x.toNat_lt
  simp only [beNat, be16, List.foldl, UInt8.toNat_ofNat']
  omega

/-- And from its four. -/
theorem beNat_be32 (x : UInt32) : beNat (be32 x) = x.toNat := by
  have := x.toNat_lt
  simp only [beNat, be32, List.foldl, UInt8.toNat_ofNat']
  omega

/-- The timestamp a receiver reads. -/
def readTimestamp (T : Target) (ts : UInt32) : ℕ :=
  match T.dataModel with
  | .ilp32 => ts.toNat
  | .lp64 => 0

/-- The SSRC a receiver reads. -/
def readSsrc (T : Target) (ts ssrc : UInt32) : ℕ :=
  match T.dataModel with
  | .ilp32 => ssrc.toNat
  | .lp64 => ts.toNat

/-- Twelve bytes and more are a header. -/
theorem decodeHeader_cons (b₀ b₁ s₁ s₀ t₃ t₂ t₁ t₀ c₃ c₂ c₁ c₀ : UInt8) (l : List UInt8) :
    decodeHeader (b₀ :: b₁ :: s₁ :: s₀ :: t₃ :: t₂ :: t₁ :: t₀ :: c₃ :: c₂ :: c₁ :: c₀ :: l) =
      some
        { version := b₀.toNat / 64
          padding := b₀.toNat / 32 % 2
          extension := b₀.toNat / 16 % 2
          csrcCount := b₀.toNat % 16
          marker := b₁.toNat / 128
          payloadType := b₁.toNat % 128
          seq := beNat [s₁, s₀]
          timestamp := beNat [t₃, t₂, t₁, t₀]
          ssrc := beNat [c₃, c₂, c₁, c₀] } := by
  rw [decodeHeader, if_neg (by simp only [List.length_cons]; omega)]
  rfl

/-- **What a receiver reads in a packet's header.** -/
theorem decodeHeader_encode (p : Packet) :
    decodeHeader (encode T ssrc p) = some
      { version := 2
        padding := 0
        extension := 0
        csrcCount := 0
        marker := if p.marker then 1 else 0
        payloadType := 96
        seq := p.seq.toNat
        timestamp := readTimestamp T p.ts
        ssrc := readSsrc T p.ts ssrc } := by
  have hseq : beNat [UInt8.ofNat (p.seq.toNat / 256), UInt8.ofNat p.seq.toNat] = p.seq.toNat :=
    beNat_be16 p.seq
  have hnum : ∀ x : UInt32, beNat [UInt8.ofNat (x.toNat / 16777216),
      UInt8.ofNat (x.toNat / 65536), UInt8.ofNat (x.toNat / 256), UInt8.ofNat x.toNat] = x.toNat :=
    beNat_be32
  have hzero : beNat [0, 0, 0, 0] = 0 := rfl
  unfold encode wireHeader stampBytes readTimestamp readSsrc
  -- the twelve bytes, for each data model
  cases T.dataModel with
  | ilp32 =>
    refine (decodeHeader_cons ..).trans ?_
    rw [hseq, hnum, hnum]
    cases p.marker <;> simp
  | lp64 =>
    refine (decodeHeader_cons ..).trans ?_
    rw [hseq, hnum, hzero]
    cases p.marker <;> simp

/-! ## The bytes before the payload -/

theorem length_wireHeader {ssrc : UInt32} {pkt : Packet} : (wireHeader T ssrc pkt).length = 12 := by
  unfold wireHeader stampBytes
  cases T.dataModel <;> rfl

@[simp] theorem drop_encode {ssrc : UInt32} {pkt : Packet} :
    (encode T ssrc pkt).drop 12 = pkt.payload := List.drop_left' length_wireHeader

/-- The byte three assignments to a `nalu_header` leave in a clear one. -/
def naluByte (f nri type : UInt8) : UInt8 := setBits (setBits (setBits 0 7 1 f) 5 2 nri) 0 5 type

/-- The byte four assignments to a `fu_header` leave in a clear one. -/
def fuByte (s e type : UInt8) : UInt8 :=
  setBits (setBits (setBits (setBits 0 6 1 e) 5 1 0) 7 1 s) 0 5 type

/-- A NALU header taken apart and put together is the same byte. -/
theorem naluByte_header (b : UInt8) :
    naluByte ((b &&& 0x80) >>> 7) ((b &&& 0x60) >>> 5) (b &&& 0x1f) = b := by
  obtain ⟨b⟩ := b
  revert b
  decide +kernel

/-- The unit header of a fragment keeps the first three bits. -/
theorem naluByte_fuIndicator (b : UInt8) :
    naluByte ((b &&& 0x80) >>> 7) ((b &&& 0x60) >>> 5) 28 = fuIndicatorOf b := by
  obtain ⟨b⟩ := b
  revert b
  decide +kernel

/-- Its fragment header has the type, and where it stands in the unit. -/
theorem fuByte_fuHeader (s e : Bool) (b : UInt8) :
    fuByte (if s then 1 else 0) (if e then 1 else 0) (b &&& 0x1f) = fuHeaderOf s e b := by
  obtain ⟨b⟩ := b
  revert s e b
  decide +kernel

theorem setNaluHdr_twelve {f nri type : UInt8} (h12 : buf 12 = 0) :
    setNaluHdr buf f nri type 12 = naluByte f nri type := by
  rw [setNaluHdr, Mem.setField_self, Mem.setField_self, Mem.setField_self, h12]
  rfl

/-- The unit header is one byte. -/
theorem setNaluHdr_of_ne {f nri type : UInt8} {i : ℤ} (hi : i ≠ 12) :
    setNaluHdr buf f nri type i = buf i := by
  rw [setNaluHdr, Mem.setField_of_ne hi, Mem.setField_of_ne hi, Mem.setField_of_ne hi]

theorem setFuHdr_thirteen {s e type : UInt8} (h13 : buf 13 = 0) :
    setFuHdr buf s e type 13 = fuByte s e type := by
  rw [setFuHdr, Mem.setField_self, Mem.setField_self, Mem.setField_self, Mem.setField_self, h13]
  rfl

/-- The fragment header is one byte too. -/
theorem setFuHdr_of_ne {s e type : UInt8} {i : ℤ} (hi : i ≠ 13) :
    setFuHdr buf s e type i = buf i := by
  rw [setFuHdr, Mem.setField_of_ne hi, Mem.setField_of_ne hi, Mem.setField_of_ne hi,
    Mem.setField_of_ne hi]

theorem setMarker_of_ne {v : UInt8} {i : ℤ} (hi : i ≠ 1) : setMarker buf v i = buf i :=
  Mem.setField_of_ne hi

/-- **The bytes of a single-NALU packet.** -/
theorem bytes_single (mem : Mem) (a : ℤ) (n : ℕ) (f nri type : UInt8)
    (hh : Headed T ssrc seq ts false buf)
    (h12 : buf 12 = 0) :
    ((setNaluHdr (setMarker buf 1) f nri type).copy 13 mem a n).bytes 0 (13 + n) =
      encode T ssrc ⟨true, seq, ts, naluByte f nri type :: mem.bytes a n⟩ := by
  set out := (setNaluHdr (setMarker buf 1) f nri type).copy 13 mem a n with hout
  have hlow : ∀ i, i < 13 → out i = setNaluHdr (setMarker buf 1) f nri type i :=
    fun i hi => Mem.copy_of_lt hi
  have hhead : Headed T ssrc seq ts true out := (hh.setMarker true).congr fun i h₁ h₂ => by
    rw [hlow i (by omega), setNaluHdr_of_ne (by omega)]
    rfl
  have hbyte : out 12 = naluByte f nri type := by
    rw [hlow 12 (by omega), setNaluHdr_twelve]
    rw [setMarker_of_ne (by decide), h12]
  rw [show 13 + n = 12 + (n + 1) by omega, Mem.bytes_add,
    hhead.bytes (naluByte f nri type :: mem.bytes a n), encode, Mem.bytes_succ]
  refine congrArg _ (congrArg₂ List.cons hbyte ?_)
  exact Mem.bytes_copy

/-- **The bytes of a FU-A packet.** -/
theorem bytes_fu (marker : Bool) (mem : Mem) (a : ℤ) (n : ℕ) (f nri s e type : UInt8)
    (hh : Headed T ssrc seq ts false buf)
    (h12 : buf 12 = 0) (h13 : buf 13 = 0) :
    ((setFuHdr (setNaluHdr (setMarker buf (if marker then 1 else 0)) f nri 28) s e type).copy 14
        mem a n).bytes 0 (14 + n) =
      encode T ssrc ⟨marker, seq, ts, naluByte f nri 28 :: fuByte s e type :: mem.bytes a n⟩ := by
  set pre := setNaluHdr (setMarker buf (if marker then 1 else 0)) f nri 28 with hpre
  set out := (setFuHdr pre s e type).copy 14 mem a n with hout
  have hlow : ∀ i, i < 14 → out i = setFuHdr pre s e type i := fun i hi => Mem.copy_of_lt hi
  have hhead : Headed T ssrc seq ts marker out := (hh.setMarker marker).congr fun i h₁ h₂ => by
    rw [hlow i (by omega), setFuHdr_of_ne (by omega), hpre, setNaluHdr_of_ne (by omega)]
  have hbyte : out 12 = naluByte f nri 28 := by
    rw [hlow 12 (by omega), setFuHdr_of_ne (by decide), hpre, setNaluHdr_twelve]
    rw [setMarker_of_ne (by decide), h12]
  have hbyte' : out 13 = fuByte s e type := by
    rw [hlow 13 (by omega), setFuHdr_thirteen]
    rw [hpre, setNaluHdr_of_ne (by decide), setMarker_of_ne (by decide), h13]
  rw [show 14 + n = 12 + (n + 1 + 1) by omega, Mem.bytes_add,
    hhead.bytes (naluByte f nri 28 :: fuByte s e type :: mem.bytes a n), encode, Mem.bytes_succ,
    Mem.bytes_succ]
  refine congrArg _ (congrArg₂ List.cons hbyte (congrArg₂ List.cons hbyte' ?_))
  exact Mem.bytes_copy

end RtpPack

end Camkit
