import Camkit.Common.Memory
/-!
# Software converter — the code

`soft_convert.c`: `convert_open`, `convert_do` and the loops of
`yuv422_to_yuv420`. A C `int` is an `Int32`, and a product of `convert_open`
that overflows, which is undefined in C, ends the run. The cursors of the
loops have no such check: for a positive size whose products `convert_open`
has computed they stay in the range of an `int`. The loops keep a record of
the places they read and write, in the order of the accesses.
-/

namespace Camkit

namespace SoftConvert

/-! ## Data -/

/-- `V4L2_PIX_FMT_YUYV`. -/
def v4l2PixFmtYuyv : UInt32 := 0x56595559

/-- `V4L2_PIX_FMT_YUV420`. -/
def v4l2PixFmtYuv420 : UInt32 := 0x32315559

/-- `struct cvt_param`. -/
structure CvtParam where
  inwidth : Int32
  inheight : Int32
  inpixfmt : UInt32
  outwidth : Int32
  outheight : Int32
  outpixfmt : UInt32
  deriving DecidableEq, Repr

/-- `struct cvt_handle`. -/
structure CvtHandle where
  srcBuffersize : Int32
  dstBuffer : Mem
  dstBuffersize : Int32
  params : CvtParam

/-- The plane a write is meant for. -/
inductive Plane where
  | y
  | u
  | v
  deriving DecidableEq, Repr

/-- An assignment to `outbuf[index]`. -/
structure Write where
  plane : Plane
  index : ℤ
  value : UInt8
  deriving DecidableEq, Repr

/-- The variables of `yuv422_to_yuv420`, the places of `inbuf` it has read
and its writes. -/
structure Scan where
  i : Int32
  j : Int32
  y : Int32
  line1 : Int32
  line2 : Int32
  m : Int32
  n : Int32
  u : Int32
  v : Int32
  reads : List ℤ
  writes : List Write
  deriving DecidableEq, Repr

/-! ## `yuv422_to_yuv420` -/

/-- The rounds of `for (x = 0; x < bound; x += step)`, as many as it has
before `x` itself would wrap. -/
def rounds (bound : Int32) (step : ℤ) : ℕ := ((bound.toInt + step - 1) / step).toNat

/-- The mean of two chroma bytes, rounded down. -/
def mean (a b : UInt8) : UInt8 := UInt8.ofNat ((a.toNat + b.toNat) / 2)

/-- The body of the inner loop: two pixels of two lines. -/
def scanPair (inbuf : Mem) (s : Scan) : Scan :=
  let y1 := inbuf s.line1.toInt
  let u := inbuf (s.line1 + 1).toInt
  let y2 := inbuf (s.line1 + 2).toInt
  let v := inbuf (s.line1 + 3).toInt
  let y3 := inbuf s.line2.toInt
  let u2 := inbuf (s.line2 + 1).toInt
  let y4 := inbuf (s.line2 + 2).toInt
  let v2 := inbuf (s.line2 + 3).toInt
  { s with
    line1 := s.line1 + 4
    line2 := s.line2 + 4
    m := s.m + 2
    n := s.n + 2
    u := s.u + 1
    v := s.v + 1
    reads := s.reads ++
      [s.line1.toInt, (s.line1 + 1).toInt, (s.line1 + 2).toInt, (s.line1 + 3).toInt,
        s.line2.toInt, (s.line2 + 1).toInt, (s.line2 + 2).toInt, (s.line2 + 3).toInt]
    writes := s.writes ++
      [⟨.y, s.m.toInt, y1⟩, ⟨.y, (s.m + 1).toInt, y2⟩, ⟨.y, s.n.toInt, y3⟩,
        ⟨.y, (s.n + 1).toInt, y4⟩, ⟨.u, s.u.toInt, mean u u2⟩, ⟨.v, s.v.toInt, mean v v2⟩] }

/-- The cursors at the head of two lines. -/
def startLines (width : Int32) (s : Scan) : Scan :=
  { s with
    line1 := s.i * width * 2
    line2 := s.j * width * 2
    m := width * s.y
    n := width * (s.y + 1)
    y := s.y + 1 + 1 }

/-- The body of the outer loop, and its counters moved on. -/
def scanLines (inbuf : Mem) (width : Int32) (s : Scan) : Scan :=
  let s := (scanPair inbuf)^[rounds (width * 2) 4] (startLines width s)
  { s with
    i := s.i + 2
    j := s.j + 2 }

/-- The variables as the loops find them. -/
def startScan (width height : Int32) : Scan where
  i := 0
  j := 1
  y := 0
  line1 := 0
  line2 := 0
  m := 0
  n := 0
  u := width * height
  v := width * height * 5 / 4
  reads := []
  writes := []

/-- `yuv422_to_yuv420`. -/
def yuv422ToYuv420 (inbuf : Mem) (width height : Int32) : Scan :=
  (scanLines inbuf width)^[rounds height 2] (startScan width height)

/-! ## `convert_open` and `convert_do` -/

/-- Where a call leaves the process, or C. -/
inductive Fault where
  /-- the size of the input is not that of an image -/
  | abort
  /-- a product of `int`s that is not an `int` -/
  | overflow
  deriving DecidableEq, Repr

/-- A product of two `int`s. -/
def mulInt (a b : Int32) : Except Fault Int32 :=
  if -2 ^ 31 ≤ a.toInt * b.toInt ∧ a.toInt * b.toInt < 2 ^ 31 then .ok (a * b)
  else .error .overflow

/-- A step that comes to a result has one before it. -/
theorem bind_eq_ok {ε α β : Type} {x : Except ε α} {f : α → Except ε β} {y : β}
    (h : x >>= f = .ok y) : ∃ v, x = .ok v ∧ f v = .ok y := by
  cases x with
  | error e => exact absurd h (by simp [bind, Except.bind])
  | ok v => exact ⟨v, rfl, h⟩

/-- `convert_open`: `malloc` and `mallocDst` are what its two allocations
return, the second one the contents the block comes with. -/
def convertOpen (malloc : Bool) (mallocDst : Option Mem) (param : CvtParam) :
    Except Fault (Option CvtHandle) :=
  if !malloc then .ok none
  else if param.inpixfmt ≠ v4l2PixFmtYuyv ∨ param.outpixfmt ≠ v4l2PixFmtYuv420 then .ok none
  else if param.inwidth ≠ param.outwidth ∨ param.inheight ≠ param.outheight then .ok none
  else do
    let srcBits ← mulInt (← mulInt param.inwidth param.inheight) 16
    let dstBits ← mulInt (← mulInt param.outwidth param.outheight) 12
    match mallocDst with
    | none => return none
    | some dstBuffer => return some {
        srcBuffersize := srcBits / 8
        dstBuffer := dstBuffer
        dstBuffersize := dstBits / 8
        params := param }

/-- What one `convert_do` leaves. -/
structure DoResult where
  handle : CvtHandle
  /-- `*poutbuf` -/
  outbuf : Mem
  /-- `*posize` -/
  osize : Int32
  scan : Scan

/-- The writes, one after the other. -/
def store (m : Mem) (ws : List Write) : Mem := ws.foldl (fun m w => m.set w.index w.value) m

/-- `convert_do`. -/
def convertDo (h : CvtHandle) (inbuf : Mem) (isize : Int32) : Except Fault DoResult :=
  if isize ≠ h.srcBuffersize then .error .abort
  else
    let scan := yuv422ToYuv420 inbuf h.params.inwidth h.params.inheight
    let dstBuffer := store h.dstBuffer scan.writes
    .ok ⟨{ h with dstBuffer := dstBuffer }, dstBuffer, h.dstBuffersize, scan⟩

end SoftConvert

end Camkit
