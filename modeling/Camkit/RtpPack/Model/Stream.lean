import Camkit.RtpPack.Model.Packer
import Mathlib.Data.List.Infix
/-!
# RTP packetiser — packets, units and drains

What the packetiser is for, in its own terms: a buffer of start codes and
NAL units, the packets of a unit, the wire form of a packet, and an
RFC 6184 receiver. `drain` is the caller's loop over the code, and
`packetise` what it is to produce; the modules above this one connect the
two.
-/

namespace Camkit

namespace RtpPack

/-! ## The caller's loop -/

/-- How a caller's loop over `pack_get` stood when it was left. -/
inductive Stop where
  /-- `pack_get` returned 0 -/
  | zero
  /-- the calls allowed are used up -/
  | more
  | fault (f : Fault)
  deriving DecidableEq, Repr

/-- What a loop over `pack_get` yields. -/
structure Drain where
  packets : List (List UInt8)
  stop : Stop
  handle : PacHandle

/-- `while (pack_get(...) == 1)`, for at most `n` calls, call `i` reading
the clock at `clock i` if it reads it. -/
def drain (T : Target) (mem : Mem) : ℕ → (ℕ → Timeb) → PacHandle → Drain
  | 0, _, h => ⟨[], .more, h⟩
  | n + 1, clock, h =>
    match packGet T mem (clock 0) h with
    | .error f => ⟨[], .fault f, h⟩
    | .ok (h', none) => ⟨[], .zero, h'⟩
    | .ok (h', some outsize) =>
      let rest := drain T mem n (fun i => clock (i + 1)) h'
      ⟨h'.packet outsize :: rest.packets, rest.stop, rest.handle⟩

/-! ## Packets -/

/-- A packet, before it has a wire form. -/
structure Packet where
  marker : Bool
  seq : UInt16
  ts : UInt32
  payload : List UInt8
  deriving DecidableEq, Repr

/-- The two bytes of a number, the high one first. -/
def be16 (x : UInt16) : List UInt8 := [UInt8.ofNat (x.toNat / 256), UInt8.ofNat x.toNat]

/-- The four bytes of a number, the high one first. -/
def be32 (x : UInt32) : List UInt8 :=
  [UInt8.ofNat (x.toNat / 16777216), UInt8.ofNat (x.toNat / 65536), UInt8.ofNat (x.toNat / 256),
    UInt8.ofNat x.toNat]

/-- Bytes 4 to 11 as the structure overlay leaves them. With an eight-byte
`unsigned long` the timestamp stands where the SSRC belongs, and the SSRC
under the payload. -/
def stampBytes (T : Target) (ts ssrc : UInt32) : List UInt8 :=
  match T.dataModel with
  | .ilp32 => be32 ts ++ be32 ssrc
  | .lp64 => [0, 0, 0, 0] ++ be32 ts

/-- The twelve bytes before the payload. -/
def wireHeader (T : Target) (ssrc : UInt32) (p : Packet) : List UInt8 :=
  [0x80, if p.marker then 0xe0 else 0x60] ++ be16 p.seq ++ stampBytes T p.ts ssrc

/-- A packet's wire form. -/
def encode (T : Target) (ssrc : UInt32) (p : Packet) : List UInt8 :=
  wireHeader T ssrc p ++ p.payload

/-- The number some bytes make, the high one first. -/
def beNat (l : List UInt8) : ℕ := l.foldl (fun x b => x * 256 + b.toNat) 0

/-- The fixed header of RFC 3550. -/
structure RtpHeader where
  version : ℕ
  padding : ℕ
  extension : ℕ
  csrcCount : ℕ
  marker : ℕ
  payloadType : ℕ
  seq : ℕ
  timestamp : ℕ
  ssrc : ℕ
  deriving DecidableEq, Repr

/-- The header a receiver reads: the timestamp in bytes 4 to 7 and the
SSRC in bytes 8 to 11. -/
def decodeHeader : List UInt8 → Option RtpHeader
  | b₀ :: b₁ :: rest =>
    if rest.length < 10 then none
    else some {
      version := b₀.toNat / 64
      padding := b₀.toNat / 32 % 2
      extension := b₀.toNat / 16 % 2
      csrcCount := b₀.toNat % 16
      marker := b₁.toNat / 128
      payloadType := b₁.toNat % 128
      seq := beNat (rest.take 2)
      timestamp := beNat ((rest.drop 2).take 4)
      ssrc := beNat ((rest.drop 6).take 4) }
  | _ => none

/-- The FU indicator of a unit with header byte `hdr`. -/
def fuIndicatorOf (hdr : UInt8) : UInt8 := (hdr &&& 0xe0) ||| 28

/-- The FU header of a unit with header byte `hdr`. -/
def fuHeaderOf (s e : Bool) (hdr : UInt8) : UInt8 :=
  (if s then 0x80 else 0) ||| (if e then 0x40 else 0) ||| (hdr &&& 0x1f)

/-- The marker and payload of the FUs after the first one, `t` being what
is left of the unit: whole fragments of `m` bytes and then one that is
shorter, and may be empty. -/
def laterFus (m : ℕ) (hdr : UInt8) (t : List UInt8) : List (Bool × List UInt8) :=
  if 0 < m ∧ m ≤ t.length then
    (false, fuIndicatorOf hdr :: fuHeaderOf false false hdr :: t.take m) ::
      laterFus m hdr (t.drop m)
  else [(true, fuIndicatorOf hdr :: fuHeaderOf false true hdr :: t)]
termination_by t.length
decreasing_by simp; omega

/-- The marker and payload of the packets of a unit. -/
def fragments (m : ℕ) : List UInt8 → List (Bool × List UInt8)
  | [] => []
  | hdr :: t =>
    if t.length + 1 ≤ m then [(true, hdr :: t)]
    else
      (false, fuIndicatorOf hdr :: fuHeaderOf true false hdr :: t.take m) ::
        laterFus m hdr (t.drop m)

/-- Consecutive sequence numbers and one timestamp for the packets of a
unit. -/
def stamp (ts : UInt32) : UInt16 → List (Bool × List UInt8) → List Packet
  | _, [] => []
  | seq, (marker, payload) :: l => ⟨marker, seq, ts, payload⟩ :: stamp ts (seq + 1) l

/-- The timestamp a new unit is given. -/
def sampleOf (T : Target) (start : UInt32) (tb : Timeb) : UInt32 :=
  toU32 T (sampleCount (getCurrentMillisec tb) start)

/-- The explicit output-size check fails on a unit of `len` bytes. -/
def TooBig (m len : ℕ) : Prop :=
  if len ≤ m then maxOutbufSize < len + 12 else maxOutbufSize < m + 14

instance (m len : ℕ) : Decidable (TooBig m len) := by unfold TooBig; infer_instance

/-- The packets of a list of units, and whether the output-size check ends
them early. -/
def packetise (T : Target) (m : ℕ) (start : UInt32) :
    UInt16 → (ℕ → Timeb) → List (List UInt8) → List Packet × Bool
  | _, _, [] => ([], false)
  | seq, clock, u :: us =>
    if TooBig m u.length then ([], true)
    else
      let ps := stamp (sampleOf T start (clock 0)) seq (fragments m u)
      let rest := packetise T m start (seq + UInt16.ofNat ps.length)
        (fun i => clock (i + ps.length)) us
      (ps ++ rest.1, rest.2)

/-! ## Units -/

/-- The length of the start code at an address, 0 where there is none. -/
def startCodeLen (mem : Mem) (p : ℤ) : ℤ :=
  if isStartCode3 mem p then 3 else if isStartCode4 mem p then 4 else 0

/-- The two start codes of an Annex B byte stream. -/
inductive StartCode where
  | short
  | long
  deriving DecidableEq, Repr

/-- The bytes of a start code. -/
def StartCode.bytes : StartCode → List UInt8
  | short => [0, 0, 1]
  | long => [0, 0, 0, 1]

/-- A NAL unit that goes into a packet as it is: of type 1 to 23, with no
start code in it, and not ending in a zero byte. -/
structure NalUnit where
  header : UInt8
  body : List UInt8
  type_pos : 1 ≤ header &&& 0x1f
  type_le : header &&& 0x1f ≤ 23
  no_startCode : ¬ [0, 0, 1] <:+: header :: body
  last_ne_zero : (header :: body).getLast (List.cons_ne_nil _ _) ≠ 0

/-- The bytes of a NAL unit. -/
def NalUnit.bytes (u : NalUnit) : List UInt8 := u.header :: u.body

/-- The buffer a list of units makes, each behind its start code. -/
def annexB : List (StartCode × NalUnit) → List UInt8
  | [] => []
  | (c, u) :: us => c.bytes ++ u.bytes ++ annexB us

/-! ## The receiver -/

/-- What a receiver holds: the units completed, and the one being put
together. -/
structure Assembly where
  done : List (List UInt8)
  pending : Option (List UInt8)
  deriving DecidableEq, Repr

/-- One payload at an RFC 6184 receiver in non-interleaved mode. Types 1 to
23 are a whole unit; in a FU-A the header byte of the unit is rebuilt at
`S = 1` and the unit is complete at `E = 1`. A payload that fits neither
what is pending nor a known type is refused. -/
def receive (a : Assembly) : List UInt8 → Option Assembly
  | [] => none
  | b :: rest =>
    if 1 ≤ b &&& 0x1f ∧ b &&& 0x1f ≤ 23 then
      match a.pending with
      | none => some { a with done := a.done ++ [b :: rest] }
      | some _ => none
    else if b &&& 0x1f = 28 then
      match rest with
      | [] => none
      | f :: fragment =>
        let opened : Option (List UInt8) :=
          if f &&& 0x80 = 0 then a.pending
          else match a.pending with
            | none => some [(b &&& 0xe0) ||| (f &&& 0x1f)]
            | some _ => none
        match opened with
        | none => none
        | some u =>
          if f &&& 0x40 = 0 then some { a with pending := some (u ++ fragment) }
          else some ⟨a.done ++ [u ++ fragment], none⟩
    else none

/-- The payloads of a stream at the receiver, in order. -/
def depacketise (payloads : List (List UInt8)) : Option Assembly :=
  payloads.foldlM receive ⟨[], none⟩

end RtpPack

end Camkit
