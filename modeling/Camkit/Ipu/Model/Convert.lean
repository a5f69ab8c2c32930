import Camkit.Common.Ledger
import Camkit.Common.Machine
import Camkit.SoftConvert.Model.Convert
/-!
# IPU converter — the code

`ipu_convert.c`: `convert_open`, `convert_do` and `convert_close`. What the
system answers is a parameter, an address is a number of 32 bits, and what
is taken and given back is written to a ledger. `struct cvt_param` is that
of `convert.h`.
-/

namespace Camkit

namespace Ipu

open Ledger (Entry)
open SoftConvert (CvtParam)

/-! ## Formats -/

/-- A pixel format by its four characters. -/
def fourcc (a b c d : Char) : UInt32 :=
  .ofNat (a.toNat + b.toNat * 2 ^ 8 + c.toNat * 2 ^ 16 + d.toNat * 2 ^ 24)

/-- `RGB565`, `YUYV`, `UYVY`, `YUV422P` and `YVU422P`. -/
def formats16 : List UInt32 :=
  [fourcc 'R' 'G' 'B' 'P', fourcc 'Y' 'U' 'Y' 'V', fourcc 'U' 'Y' 'V' 'Y', fourcc '4' '2' '2' 'P',
    fourcc 'Y' 'V' '1' '6']

/-- `BGR24`, `RGB24`, `YUV444` and `YUV444P`. -/
def formats24 : List UInt32 :=
  [fourcc 'B' 'G' 'R' '3', fourcc 'R' 'G' 'B' '3', fourcc 'Y' '4' '4' '4', fourcc '4' '4' '4' 'P']

/-- `BGR32`, `BGRA32`, `RGB32`, `RGBA32` and `ABGR32`. -/
def formats32 : List UInt32 :=
  [fourcc 'B' 'G' 'R' '4', fourcc 'B' 'G' 'R' 'A', fourcc 'R' 'G' 'B' '4', fourcc 'R' 'G' 'B' 'A',
    fourcc 'A' 'B' 'G' 'R']

/-- `YUV420P`, `YVU420P`, `YUV420P2`, `NV12` and `TILED_NV12`. -/
def formats12 : List UInt32 :=
  [fourcc 'I' '4' '2' '0', fourcc 'Y' 'V' '1' '2', fourcc 'Y' 'U' '1' '2', fourcc 'N' 'V' '1' '2',
    fourcc 'T' 'N' 'V' 'P']

/-- `fmt2bpp`. -/
def fmt2bpp (pixelformat : UInt32) : UInt32 :=
  if pixelformat ∈ formats16 then 16
  else if pixelformat ∈ formats24 then 24
  else if pixelformat ∈ formats32 then 32
  else if pixelformat ∈ formats12 then 12
  else 8

/-! ## Data -/

/-- A picture of `struct ipu_task`, its input or its output. -/
structure Picture where
  width : UInt32
  height : UInt32
  format : UInt32
  paddr : UInt32
  deriving DecidableEq, Repr

/-- Width times height times the bits of a pixel, by 8. -/
def Picture.size (p : Picture) : UInt32 := p.width * p.height * fmt2bpp p.format / 8

/-- `struct cvt_handle`. -/
structure CvtHandle where
  fd : ℤ
  input : Picture
  output : Picture
  ipuInbuf : UInt32
  ipuOutbuf : UInt32
  ipuInsize : ℤ
  ipuOutsize : ℤ
  params : CvtParam
  deriving DecidableEq, Repr

/-- The handle as `convert_open` sets it up. -/
def clearedHandle (param : CvtParam) : CvtHandle where
  fd := 0
  input := ⟨0, 0, 0, 0⟩
  output := ⟨0, 0, 0, 0⟩
  ipuInbuf := 0
  ipuOutbuf := 0
  ipuInsize := 0
  ipuOutsize := 0
  params := param

/-! ## The system -/

/-- `MAP_FAILED`. -/
def mapFailed : UInt32 := 0xffffffff

/-- An address `mmap` returns where it succeeds. -/
abbrev Address : Type := { a : UInt32 // a ≠ 0 ∧ a ≠ mapFailed }

/-- What `mmap` returns. -/
def mmapReturns : Option Address → UInt32
  | none => mapFailed
  | some a => a.1

/-- What the calls of `convert_open` answer. -/
structure OpenEnv where
  malloc : Bool
  /-- `open` of `/dev/mxc_ipu`: the descriptor, or a failure -/
  openDevice : Option ℕ
  /-- `IPU_ALLOC` of a size: the physical address, or a failure -/
  allocIn : UInt32 → Option UInt32
  mmapIn : UInt32 → Option Address
  allocOut : UInt32 → Option UInt32
  mmapOut : UInt32 → Option Address

/-- A converter that gives whatever it is asked for. -/
def OpenEnv.granting : OpenEnv where
  malloc := true
  openDevice := some 5
  allocIn _ := some 0x10000000
  mmapIn _ := some ⟨0x40000000, by decide, by decide⟩
  allocOut _ := some 0x11000000
  mmapOut _ := some ⟨0x41000000, by decide, by decide⟩

/-- What `convert_open` can hold. -/
inductive Resource where
  | handle
  | fd (fd : ℤ)
  | phys (addr : UInt32)
  | mapping (addr : UInt32) (size : ℤ)
  deriving DecidableEq, Repr

/-- The handle being opened, with the ledger so far. -/
structure Opening where
  handle : CvtHandle
  ledger : List (Entry Resource)

namespace Opening

/-- A resource obtained. -/
def acquire (o : Opening) (r : Resource) : Opening :=
  { o with ledger := o.ledger ++ [.acquire r] }

/-- A resource given back. -/
def release (o : Opening) (r : Resource) : Opening :=
  { o with ledger := o.ledger ++ [.release r] }

/-- The handle changed. -/
def modify (o : Opening) (f : CvtHandle → CvtHandle) : Opening := { o with handle := f o.handle }

/-- A mapping obtained, where there is one. -/
def acquireMapping (o : Opening) (got : Option Address) (size : ℤ) : Opening :=
  { o with ledger := o.ledger ++ got.toList.map fun a => .acquire (.mapping a.1 size) }

end Opening

/-! ## Giving back -/

/-- `munmap` of the input buffer. -/
def unmapIn (o : Opening) : Opening :=
  if o.handle.ipuInbuf ≠ 0 then
    (o.release (.mapping o.handle.ipuInbuf o.handle.ipuInsize)).modify fun h =>
      { h with ipuInbuf := 0 }
  else o

/-- `munmap` of the output buffer. -/
def unmapOut (o : Opening) : Opening :=
  if o.handle.ipuOutbuf ≠ 0 then
    (o.release (.mapping o.handle.ipuOutbuf o.handle.ipuOutsize)).modify fun h =>
      { h with ipuOutbuf := 0 }
  else o

/-- `IPU_FREE` of the output. -/
def freeOut (o : Opening) : Opening :=
  if o.handle.output.paddr ≠ 0 then
    (o.release (.phys o.handle.output.paddr)).modify fun h =>
      { h with output := { h.output with paddr := 0 } }
  else o

/-- `IPU_FREE` of the input. -/
def freeIn (o : Opening) : Opening :=
  if o.handle.input.paddr ≠ 0 then
    (o.release (.phys o.handle.input.paddr)).modify fun h =>
      { h with input := { h.input with paddr := 0 } }
  else o

/-- `close` of the device. -/
def closeFd (o : Opening) : Opening :=
  if o.handle.fd ≠ 0 then (o.release (.fd o.handle.fd)).modify fun h => { h with fd := -1 } else o

/-- `convert_close`. What stands at `err` in `convert_open` is the same. -/
def convertClose (o : Opening) : Opening :=
  (closeFd (freeIn (freeOut (unmapOut (unmapIn o))))).release .handle

/-! ## `convert_open` -/

/-- `handle->task` filled in. -/
def setTask (h : CvtHandle) : CvtHandle :=
  { h with
    input := ⟨h.params.inwidth.toUInt32, h.params.inheight.toUInt32, h.params.inpixfmt, 0⟩
    output := ⟨h.params.outwidth.toUInt32, h.params.outheight.toUInt32, h.params.outpixfmt, 0⟩ }

/-- `ipu_insize` and `task.input.paddr`, both the size to allocate. -/
def sizeIn (h : CvtHandle) : CvtHandle :=
  { h with
    ipuInsize := h.input.size.toInt32.toInt
    input := { h.input with paddr := h.input.size } }

/-- `ipu_outsize` and `task.output.paddr`. -/
def sizeOut (h : CvtHandle) : CvtHandle :=
  { h with
    ipuOutsize := h.output.size.toInt32.toInt
    output := { h.output with paddr := h.output.size } }

/-- The input allocated and mapped: `false` where it leaves by `err`. A
failed `IPU_ALLOC` leaves the size in `paddr`. -/
def openInput (env : OpenEnv) (o : Opening) : Opening × Bool :=
  let o := o.modify sizeIn
  match env.allocIn o.handle.input.paddr with
  | none => (o, false)
  | some phys =>
    let o := (o.modify fun h => { h with input := { h.input with paddr := phys } }).acquire
      (.phys phys)
    let got := env.mmapIn phys
    let o := (o.acquireMapping got o.handle.ipuInsize).modify fun h =>
      { h with ipuInbuf := mmapReturns got }
    (o, o.handle.ipuInbuf ≠ 0)

/-- The output allocated and mapped. What is checked after `mmap` is what
`IPU_ALLOC` returned. -/
def openOutput (env : OpenEnv) (o : Opening) : Opening × Bool :=
  let o := o.modify sizeOut
  match env.allocOut o.handle.output.paddr with
  | none => (o, false)
  | some phys =>
    let o := (o.modify fun h => { h with output := { h.output with paddr := phys } }).acquire
      (.phys phys)
    let got := env.mmapOut phys
    ((o.acquireMapping got o.handle.ipuOutsize).modify fun h =>
      { h with ipuOutbuf := mmapReturns got }, true)

/-- `convert_open`, with what it acquired and released. -/
def convertOpen (env : OpenEnv) (param : CvtParam) : Option CvtHandle × List (Entry Resource) :=
  if env.malloc then
    let o := (Opening.mk (clearedHandle param) []).acquire .handle
    let err (o : Opening) : Option CvtHandle × List (Entry Resource) :=
      (none, (convertClose o).ledger)
    match env.openDevice with
    | none => err (o.modify fun h => { h with fd := -1 })
    | some fd =>
      let o := (o.acquire (.fd fd)).modify fun h => setTask { h with fd := fd }
      let input := openInput env o
      if input.2 then
        let output := openOutput env input.1
        if output.2 then (some output.1.handle, output.1.ledger) else err output.1
      else err input.1
  else (none, [])

/-! ## `convert_do` -/

/-- Where a call leaves the process. -/
inductive Fault where
  /-- the size of the input is not `ipu_insize` -/
  | abort
  /-- `memcpy` to `MAP_FAILED` -/
  | segv
  deriving DecidableEq, Repr

/-- What one `convert_do` copies, and the buffer it returns, `none` where it
returns -1. -/
structure DoResult where
  dst : UInt32
  copied : ℤ
  out : Option (UInt32 × ℤ)
  deriving DecidableEq, Repr

/-- `convert_do`, `queued` being whether `IPU_QUEUE_TASK` succeeds. -/
def convertDo (queued : Bool) (h : CvtHandle) (ilen : ℤ) : Except Fault DoResult :=
  if ilen ≠ h.ipuInsize then .error .abort
  else if h.ipuInbuf = mapFailed ∧ h.ipuInsize ≠ 0 then .error .segv
  else
    .ok ⟨h.ipuInbuf, h.ipuInsize, if queued then some (h.ipuOutbuf, h.ipuOutsize) else none⟩

/-- Successive calls of `convert_do`: the size of an image, and whether its
task is queued. A call that ends the process cannot happen. -/
def conversions : Machine CvtHandle (ℤ × Bool) DoResult where
  step h c :=
    match convertDo c.2 h c.1 with
    | .error _ => none
    | .ok r => some (h, r)

end Ipu

end Camkit
