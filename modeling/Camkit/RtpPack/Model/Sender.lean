import Camkit.RtpPack.Scan
/-!
# RTP packetiser — the sender as a machine

Between two `pack_put`s a handle is in one of three phases: looking for
the next unit, in the middle of a fragmented one, or done with the buffer.
`Session.get` is one call in these terms, and `InPhase` says which fields
of the handle a phase fixes. The others are dead.
-/

namespace Camkit

namespace RtpPack

/-- What stays as it is between two `pack_put`s. -/
structure Session where
  inbuf : ℤ
  size : ℤ
  maxPktLen : ℕ
  ssrc : Int32
  start : UInt32
  maxPktLen_pos : 0 < maxPktLen

/-- Where the sender is in the buffer. -/
inductive Phase where
  /-- a unit is to be looked for at `next` -/
  | unit (next : Ptr)
  /-- `left` bytes of a unit, from `addr` on, are still to be sent -/
  | fragment (next : Ptr) (hdr : UInt8) (addr : ℤ) (left : ℕ) (ts : UInt32)
  | done

namespace Session

variable (s : Session) (T : Target) (mem : Mem)

/-- One call on a unit with `data` its first byte and `len` its length. -/
def sendUnit (ts : UInt32) (seq : UInt16) (next : Ptr) (data : ℤ) (len : ℕ) :
    Except Fault (Phase × Option Packet) :=
  if TooBig s.maxPktLen len then .error .abort
  else if len ≤ s.maxPktLen then .ok (.unit next, some ⟨true, seq, ts, mem.bytes data len⟩)
  else
    .ok (.fragment next (mem data) (data + 1 + s.maxPktLen) (len - 1 - s.maxPktLen) ts,
      some ⟨false, seq, ts, fuIndicatorOf (mem data) :: fuHeaderOf true false (mem data) ::
        mem.bytes (data + 1) s.maxPktLen⟩)

/-- One call in the middle of a unit. -/
def sendFragment (seq : UInt16) (next : Ptr) (hdr : UInt8) (addr : ℤ) (left : ℕ) (ts : UInt32) :
    Phase × Packet :=
  if left < s.maxPktLen then
    (.unit next, ⟨true, seq, ts, fuIndicatorOf hdr :: fuHeaderOf false true hdr ::
      mem.bytes addr left⟩)
  else
    (.fragment next hdr (addr + s.maxPktLen) (left - s.maxPktLen) ts,
      ⟨false, seq, ts, fuIndicatorOf hdr :: fuHeaderOf false false hdr ::
        mem.bytes addr s.maxPktLen⟩)

/-- One call of the sender, with the next sequence number `seq`. -/
def get (tb : Timeb) (seq : UInt16) : Phase → Except Fault (Phase × Option Packet)
  | .done => .ok (.done, none)
  | .unit none => .ok (.done, none)
  | .unit (some p) =>
    if startCodeLen mem p = 0 then .ok (.done, none)
    else
      let data := p + startCodeLen mem p
      let found := findNextStartCode mem s.inbuf s.size data
      s.sendUnit mem (sampleOf T s.start tb) seq found.2 data (found.1 - data).toNat
  | .fragment next hdr addr left ts =>
    let sent := s.sendFragment mem seq next hdr addr left ts
    .ok (sent.1, some sent.2)

end Session

/-- The timestamp of a packet sent from a phase: a unit's own, or a new
one. -/
def Phase.stamp (T : Target) (start : UInt32) (tb : Timeb) : Phase → UInt32
  | .fragment _ _ _ _ ts => ts
  | _ => sampleOf T start tb

/-! ## What a phase says of a handle -/

/-- The handle's session and its next sequence number. -/
structure Runs (s : Session) (seq : UInt16) (h : PacHandle) : Prop where
  inbuf : h.inbuf.addr = s.inbuf
  size : h.inbufSize = s.size
  maxPktLen : h.params.maxPktLen = s.maxPktLen
  ssrc : h.params.ssrc = s.ssrc
  start : h.tsStartMillisec = s.start
  seqNum : h.seqNum = seq

/-- The handle is in the middle of a unit, `left` bytes from `addr` on
being the rest of it. `fuIndex` counts the fragments before `addr`, and
the last fragment comes when the bytes left no longer fill one. -/
structure Fragmenting (s : Session) (h : PacHandle) (next : Ptr) (hdr : UInt8) (addr : ℤ)
    (left : ℕ) (ts : UInt32) : Prop where
  running : h.inbufComplete = false
  inside : h.naluComplete = false
  next : h.nextNaluPtr = next
  forbiddenBit : h.nalu.forbiddenBit = (hdr &&& 0x80) >>> 7
  nalReferenceIdc : h.nalu.nalReferenceIdc = (hdr &&& 0x60) >>> 5
  nalUnitType : h.nalu.nalUnitType = hdr &&& 0x1f
  data : ∃ d, h.nalu.data = some d ∧ addr = d + 1 + h.fuIndex * s.maxPktLen
  counter : h.fuCounter = h.fuIndex + (left / s.maxPktLen : ℕ)
  last : h.lastFuSize = (left % s.maxPktLen : ℕ) + 1
  ts : h.tsCurrentSample = ts
  fits : s.maxPktLen + 14 ≤ maxOutbufSize

/-- The phase a handle is in. -/
def InPhase (s : Session) (h : PacHandle) : Phase → Prop
  | .unit next => h.inbufComplete = false ∧ h.naluComplete = true ∧ h.nextNaluPtr = next
  | .fragment next hdr addr left ts => Fragmenting s h next hdr addr left ts
  | .done => h.inbufComplete = true

/-- A result of the code and one of the sender say the same: the packet is
the sender's in its wire form and carries the next sequence number and the
handle's current timestamp, and the handle is in the sender's phase. -/
inductive Matches (T : Target) (s : Session) (seq : UInt16) :
    Except Fault (PacHandle × Option ℤ) → Except Fault (Phase × Option Packet) → Prop where
  | fault (f : Fault) : Matches T s seq (.error f) (.error f)
  | zero {h : PacHandle} {ph : Phase} (runs : Runs s seq h) (phase : InPhase s h ph) :
      Matches T s seq (.ok (h, none)) (.ok (ph, none))
  | sent {h : PacHandle} {ph : Phase} {outsize : ℤ} {p : Packet} (runs : Runs s (seq + 1) h)
      (phase : InPhase s h ph) (wire : h.packet outsize = encode T s.ssrc.toUInt32 p)
      (hseq : p.seq = seq) (hts : h.tsCurrentSample = p.ts) :
      Matches T s seq (.ok (h, some outsize)) (.ok (ph, some p))

end RtpPack

end Camkit
