import Camkit.Common.Memory
import Mathlib.Data.Int.Notation
import Mathlib.Data.Nat.Notation
/-!
# RTP packetiser — the code

`rtp_pack.c` function by function: the start-code scan, `pack_put` and
`pack_get`. A C `int` is an integer, a pointer an address of a byte
memory, and what would leave the defined behaviour or the process — a
division by zero, a negative copy length, a copy past the output buffer,
`abort()` — is a `Fault`.
-/

namespace Camkit

namespace RtpPack

/-! ## The platform -/

/-- The two sizes `unsigned long` has on the targets of `PLAT`, all of
them little-endian. -/
inductive DataModel where
  /-- four bytes: the Raspberry Pi and i.MX6 builds -/
  | ilp32
  /-- eight bytes, aligned to eight: the default PC build -/
  | lp64
  deriving DecidableEq, Repr

/-- `sizeof(unsigned long)`. -/
def DataModel.sizeofLong : DataModel → ℕ
  | ilp32 => 4
  | lp64 => 8

/-- What the program leaves to its target: the size of `unsigned long`,
and the result of converting to `U32` a double that is out of range,
which C leaves undefined. -/
structure Target where
  dataModel : DataModel
  outOfRange : ℕ → UInt32

/-- Where a step leaves the behaviour the source defines. -/
inductive Fault where
  | divByZero
  | negativeLength
  | nullDeref
  | overrun
  /-- the explicit output-size check -/
  | abort
  deriving DecidableEq, Repr

/-- `struct timeb`, as `ftime` fills it. -/
structure Timeb where
  time : ℕ
  millitm : ℕ
  deriving DecidableEq, Repr

/-- The value of a number of 16 bits with its bytes reversed. -/
def htons (x : UInt16) : ℕ := x.toNat % 256 * 256 + x.toNat / 256

/-- The value of a number of 32 bits with its bytes reversed. -/
def htonl (x : UInt32) : ℕ :=
  ((x.toNat % 256 * 256 + x.toNat / 256 % 256) * 256 + x.toNat / 65536 % 256) * 256 +
    x.toNat / 16777216

/-! ## The handle -/

/-- `H264`, the payload type. -/
def H264 : UInt8 := 96

/-- `MAX_OUTBUF_SIZE`. -/
def maxOutbufSize : ℕ := 10 * 1024

/-- `struct pac_param`. -/
structure PacParam where
  maxPktLen : ℤ
  ssrc : Int32
  deriving DecidableEq, Repr

/-- `nalu_t`. -/
structure Nalu where
  startcodeprefixLen : ℤ
  data : Ptr
  len : ℤ
  forbiddenBit : UInt8
  nalReferenceIdc : UInt8
  nalUnitType : UInt8
  deriving DecidableEq, Repr

/-- `struct pac_handle`. -/
structure PacHandle where
  inbuf : Ptr
  outbuf : Mem
  nextNaluPtr : Ptr
  inbufSize : ℤ
  fuCounter : ℤ
  lastFuSize : ℤ
  fuIndex : ℤ
  inbufComplete : Bool
  naluComplete : Bool
  nalu : Nalu
  seqNum : UInt16
  /-- timestamp in millisecond -/
  tsStartMillisec : UInt32
  /-- timestamp in 1/90000.0 unit -/
  tsCurrentSample : UInt32
  params : PacParam

/-- `get_current_millisec`, the sum taken modulo `2^32` as `U32` has it. -/
def getCurrentMillisec (tb : Timeb) : UInt32 := UInt32.ofNat (1000 * tb.time + tb.millitm)

/-- The handle `pack_open` returns, cleared but for the output buffer, the
start time and the parameters. -/
def openedHandle (params : PacParam) (outbuf : Mem) (tb : Timeb) : PacHandle where
  inbuf := none
  outbuf := outbuf
  nextNaluPtr := none
  inbufSize := 0
  fuCounter := 0
  lastFuSize := 0
  fuIndex := 0
  inbufComplete := false
  naluComplete := false
  nalu := ⟨0, none, 0, 0, 0, 0⟩
  seqNum := 0
  tsStartMillisec := getCurrentMillisec tb
  tsCurrentSample := 0
  params := params

/-- `pack_open`: `mallocHandle` and `mallocOutbuf` are what its two
allocations return, the second one the contents the block comes with. -/
def packOpen (params : PacParam) (mallocHandle : Bool) (mallocOutbuf : Option Mem) (tb : Timeb) :
    Option PacHandle :=
  if mallocHandle then
    match mallocOutbuf with
    | none => none
    | some outbuf => some (openedHandle params outbuf tb)
  else none

/-- `pack_put`. -/
def packPut (h : PacHandle) (inbuf : Ptr) (isize : ℤ) : PacHandle :=
  { h with
    inbuf := inbuf
    nextNaluPtr := inbuf
    inbufSize := isize
    fuCounter := 0
    lastFuSize := 0
    fuIndex := 0
    inbufComplete := false
    naluComplete := true }

/-! ## The start-code scan -/

/-- `is_start_code4`: `00 00 00 01`. -/
def isStartCode4 (mem : Mem) (buf : ℤ) : Bool :=
  mem buf == 0 && mem (buf + 1) == 0 && mem (buf + 2) == 0 && mem (buf + 3) == 1

/-- `is_start_code3`: `00 00 01`. -/
def isStartCode3 (mem : Mem) (buf : ℤ) : Bool :=
  mem buf == 0 && mem (buf + 1) == 0 && mem (buf + 2) == 1

/-- The `while` loop of `get_next_nalu`, from the pointer it enters an
iteration with: the pointer it ends at and the `next_nalu_ptr` it
leaves. -/
def findNextStartCode (mem : Mem) (inbuf inbufSize nextPtr : ℤ) : ℤ × Ptr :=
  let nextPtr := nextPtr + 1
  if nextPtr - inbuf ≥ inbufSize then (nextPtr, none)
  else if isStartCode3 mem nextPtr || isStartCode4 mem nextPtr then (nextPtr, some nextPtr)
  else findNextStartCode mem inbuf inbufSize nextPtr
termination_by (inbuf + inbufSize - nextPtr).toNat

/-- `get_next_nalu` once the start code at the current pointer is known to
be `prefixLen` bytes long. -/
def takeNalu (mem : Mem) (h : PacHandle) (curNaluPtr prefixLen : ℤ) : PacHandle :=
  let data := curNaluPtr + prefixLen
  let found := findNextStartCode mem h.inbuf.addr h.inbufSize data
  { h with
    nextNaluPtr := found.2
    nalu := {
      startcodeprefixLen := prefixLen
      data := some data
      len := found.1 - curNaluPtr - prefixLen
      forbiddenBit := (mem data &&& 0x80) >>> 7
      nalReferenceIdc := (mem data &&& 0x60) >>> 5
      nalUnitType := mem data &&& 0x1f } }

/-- `get_next_nalu`, with its return code. -/
def getNextNalu (mem : Mem) (h : PacHandle) : PacHandle × ℤ :=
  match h.nextNaluPtr with
  | none => (h, 0)
  | some cur =>
    if isStartCode3 mem cur then (takeNalu mem h cur 3, 1)
    else if isStartCode4 mem cur then (takeNalu mem h cur 4, 1)
    else (h, -1)

/-! ## The fields of the output buffer -/

/-- Round an offset up to a multiple of `align`, as a compiler lays out a
structure. -/
def alignUp (offset align : ℕ) : ℕ := (offset + align - 1) / align * align

/-- The offset of `timestamp` in `rtp_header`, after two bytes of bit
fields and the two of `seq_no`. -/
def offsetofTimestamp (T : Target) : ℕ := alignUp 4 T.dataModel.sizeofLong

/-- The offset of `ssrc` in `rtp_header`. -/
def offsetofSsrc (T : Target) : ℕ := offsetofTimestamp T + T.dataModel.sizeofLong

/-- `rtp_hdr->marker = v`. -/
def setMarker (buf : Mem) (v : UInt8) : Mem := buf.setField 1 7 1 v

/-- `rtp_hdr->seq_no = htons(seq)`. -/
def setSeqNo (buf : Mem) (seq : UInt16) : Mem := buf.storeLE 2 2 (htons seq)

/-- `rtp_hdr->timestamp = htonl(ts)`, into an `unsigned long`. -/
def setTimestamp (T : Target) (buf : Mem) (ts : UInt32) : Mem :=
  buf.storeLE (offsetofTimestamp T) T.dataModel.sizeofLong (htonl ts)

/-- `rtp_hdr->ssrc = htonl(ssrc)`, into an `unsigned long`. -/
def setSsrc (T : Target) (buf : Mem) (ssrc : UInt32) : Mem :=
  buf.storeLE (offsetofSsrc T) T.dataModel.sizeofLong (htonl ssrc)

/-- The three assignments to the `nalu_header` or `fu_indicator` at
offset 12, which have one layout. -/
def setNaluHdr (buf : Mem) (f nri type : UInt8) : Mem :=
  ((buf.setField 12 7 1 f).setField 12 5 2 nri).setField 12 0 5 type

/-- The four assignments to the `fu_header` at offset 13, `R` being 0 in
all of them. -/
def setFuHdr (buf : Mem) (s e type : UInt8) : Mem :=
  (((buf.setField 13 6 1 e).setField 13 5 1 0).setField 13 7 1 s).setField 13 0 5 type

/-- The cleared output buffer with the common RTP header. -/
def commonHeader (T : Target) (h : PacHandle) : Mem :=
  let buf := h.outbuf.fill 0 maxOutbufSize 0
  let buf := buf.setField 1 0 7 H264
  let buf := buf.setField 0 6 2 2
  let buf := setMarker buf 0
  setSsrc T buf h.params.ssrc.toUInt32

/-- The output buffer cleared and given its common header. -/
def setCommonHeader (T : Target) (h : PacHandle) : PacHandle :=
  { h with outbuf := commonHeader T h }

/-- The next sequence number and a timestamp put into the header. -/
def stampHeader (T : Target) (ts : UInt32) (h : PacHandle) : PacHandle :=
  { h with
    outbuf := setTimestamp T (setSeqNo h.outbuf h.seqNum) ts
    seqNum := h.seqNum + 1
    tsCurrentSample := ts }

/-- The output-size check before a payload is copied. -/
def checkSize (outsize : ℤ) : Except Fault Unit :=
  if maxOutbufSize < outsize then .error .abort else .ok ()

/-- `memcpy(outbuf + off, src + disp, n)`. -/
def memcpyOut (buf : Mem) (off : ℤ) (mem : Mem) (src : Ptr) (disp n : ℤ) : Except Fault Mem :=
  if n < 0 then .error .negativeLength
  else if maxOutbufSize < off + n then .error .overrun
  else match src with
    | none => .error .nullDeref
    | some a => .ok (buf.copy off mem (a + disp) n.toNat)

/-! ## `pack_get` -/

/-- The elapsed time times `90.0`. Both factors and the product are
integers a double holds exactly. -/
def sampleCount (now start : UInt32) : ℕ := (now - start).toNat * 90

/-- The cast of that double to `U32`. -/
def toU32 (T : Target) (v : ℕ) : UInt32 := if v < 2 ^ 32 then UInt32.ofNat v else T.outOfRange v

/-- The branch for a NALU that needs no fragments. -/
def sendSingle (mem : Mem) (h : PacHandle) : Except Fault (PacHandle × Option ℤ) := do
  let buf := setMarker h.outbuf 1
  let buf := setNaluHdr buf h.nalu.forbiddenBit h.nalu.nalReferenceIdc h.nalu.nalUnitType
  let outsize := h.nalu.len + 12
  checkSize outsize
  let buf ← memcpyOut buf 13 mem h.nalu.data 1 (h.nalu.len - 1)
  return ({ h with outbuf := buf, naluComplete := true }, some outsize)

/-- `FU_counter` and `last_FU_size` of a NALU that is to be fragmented. -/
def calculateFragments (h : PacHandle) : Except Fault PacHandle :=
  if h.params.maxPktLen = 0 then .error .divByZero
  else if h.nalu.len.tmod h.params.maxPktLen = 0 then
    .ok { h with
      fuCounter := h.nalu.len.tdiv h.params.maxPktLen - 1
      lastFuSize := h.params.maxPktLen
      fuIndex := 0 }
  else
    .ok { h with
      fuCounter := h.nalu.len.tdiv h.params.maxPktLen
      lastFuSize := h.nalu.len.tmod h.params.maxPktLen
      fuIndex := 0 }

/-- The branch for the first FU of a NALU. -/
def sendFirstFu (mem : Mem) (h : PacHandle) : Except Fault (PacHandle × Option ℤ) := do
  let h ← calculateFragments h
  let buf := setMarker h.outbuf 0
  let buf := setNaluHdr buf h.nalu.forbiddenBit h.nalu.nalReferenceIdc 28
  let buf := setFuHdr buf 1 0 h.nalu.nalUnitType
  let outsize := h.params.maxPktLen + 14
  checkSize outsize
  let buf ← memcpyOut buf 14 mem h.nalu.data 1 h.params.maxPktLen
  return ({ h with outbuf := buf, naluComplete := false, fuIndex := h.fuIndex + 1 }, some outsize)

/-- The branch for the last FU of a NALU. -/
def sendLastFu (mem : Mem) (h : PacHandle) : Except Fault (PacHandle × Option ℤ) := do
  let buf := setMarker h.outbuf 1
  let buf := setNaluHdr buf h.nalu.forbiddenBit h.nalu.nalReferenceIdc 28
  let buf := setFuHdr buf 0 1 h.nalu.nalUnitType
  let outsize := h.lastFuSize - 1 + 14
  checkSize outsize
  let buf ← memcpyOut buf 14 mem h.nalu.data (1 + h.fuIndex * h.params.maxPktLen)
    (h.lastFuSize - 1)
  return ({ h with outbuf := buf, naluComplete := true, fuIndex := 0 }, some outsize)

/-- The branch for an FU between the first and the last. -/
def sendMiddleFu (mem : Mem) (h : PacHandle) : Except Fault (PacHandle × Option ℤ) := do
  let buf := setMarker h.outbuf 0
  let buf := setNaluHdr buf h.nalu.forbiddenBit h.nalu.nalReferenceIdc 28
  let buf := setFuHdr buf 0 0 h.nalu.nalUnitType
  let outsize := h.params.maxPktLen + 14
  checkSize outsize
  let buf ← memcpyOut buf 14 mem h.nalu.data (1 + h.fuIndex * h.params.maxPktLen)
    h.params.maxPktLen
  return ({ h with outbuf := buf, fuIndex := h.fuIndex + 1 }, some outsize)

/-- `pack_get` on a NALU just found: the sequence number and a new
timestamp, and then the NALU or its first fragment. -/
def sendNewNalu (T : Target) (mem : Mem) (tb : Timeb) (h : PacHandle) :
    Except Fault (PacHandle × Option ℤ) :=
  let ts := toU32 T (sampleCount (getCurrentMillisec tb) h.tsStartMillisec)
  let h := stampHeader T ts h
  if h.nalu.len ≤ h.params.maxPktLen then sendSingle mem h else sendFirstFu mem h

/-- `pack_get` in the middle of a fragmented NALU: the sequence number and
the NALU's timestamp, which stays, and then the next fragment. -/
def sendRemaining (T : Target) (mem : Mem) (h : PacHandle) :
    Except Fault (PacHandle × Option ℤ) :=
  let h := stampHeader T h.tsCurrentSample h
  if h.fuIndex = h.fuCounter then sendLastFu mem h else sendMiddleFu mem h

/-- `pack_get`. It returns 0 where the result is `none` and 1 where it is
`some outsize`, the packet being in `outbuf`; `tb` is what `ftime` says
if the call reads the clock. -/
def packGet (T : Target) (mem : Mem) (tb : Timeb) (h : PacHandle) :
    Except Fault (PacHandle × Option ℤ) :=
  if h.inbufComplete then .ok (h, none)
  else
    let h := setCommonHeader T h
    if h.naluComplete then
      let found := getNextNalu mem h
      if found.2 ≤ 0 then .ok ({ found.1 with inbufComplete := true }, none)
      else sendNewNalu T mem tb found.1
    else sendRemaining T mem h

/-- The bytes of a packet: the output buffer cut to `outsize`. -/
def PacHandle.packet (h : PacHandle) (outsize : ℤ) : List UInt8 := h.outbuf.bytes 0 outsize.toNat

end RtpPack

end Camkit
