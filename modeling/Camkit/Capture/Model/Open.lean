import Mathlib.Data.Int.Notation
import Mathlib.Data.Nat.Notation
import Mathlib.Logic.Function.Basic
/-!
# V4L2 capture — opening and closing a device

`v4l_capture.c` up to `capture_open`: the handle, the format requests of
`init_device` and the mapping of the buffers in `init_mmap`; and
`capture_close`. What the system answers is a parameter, `xioctl` being the
first answer that is not `EINTR`, and what is taken and given back is written
to a log.
-/

namespace Camkit

namespace Capture

/-! ## Data -/

/-- `struct cap_param`. -/
structure CapParam where
  devName : String
  width : ℤ
  height : ℤ
  pixfmt : UInt32
  rate : ℤ
  deriving DecidableEq, Repr

/-- `struct buffer_t`. -/
structure Buffer where
  start : ℕ
  length : ℕ
  deriving DecidableEq, Repr

/-- `struct v4l2_buffer`, as far as it is read back. -/
structure V4lBuffer where
  index : ℕ
  deriving DecidableEq, Repr

/-- `CLEAR` of a `struct v4l2_buffer`. -/
def V4lBuffer.cleared : V4lBuffer := ⟨0⟩

/-- `struct cap_handle`. -/
structure CapHandle where
  imageSize : ℤ
  buffers : ℕ → Buffer
  nbuffers : ℕ
  params : CapParam
  imageCounter : ℕ
  v4lbuf : V4lBuffer
  v4lbufPut : Bool

/-- The handle as `capture_open` sets it up. -/
def clearedHandle (param : CapParam) : CapHandle where
  imageSize := 0
  buffers := fun _ => ⟨0, 0⟩
  nbuffers := 0
  params := param
  imageCounter := 0
  v4lbuf := .cleared
  v4lbufPut := true

/-! ## The system -/

/-- The capabilities `VIDIOC_QUERYCAP` reports. -/
structure Capability where
  videoCapture : Bool
  streaming : Bool
  deriving DecidableEq, Repr

/-- The format `VIDIOC_S_FMT` settles on. -/
structure PixFormat where
  width : UInt32
  height : UInt32
  sizeimage : UInt32
  deriving DecidableEq, Repr

/-- What the calls of `capture_open` answer. -/
structure OpenEnv where
  malloc : Bool
  /-- whether the file is a character device, or a failure -/
  stat : String → Option Bool
  openDevice : String → Bool
  querycap : Option Capability
  /-- `VIDIOC_S_FMT` on a width, a height and a pixel format -/
  setFmt : UInt32 → UInt32 → UInt32 → Option PixFormat
  setParm : UInt32 → Bool
  /-- `VIDIOC_REQBUFS`: the count granted, or a failure -/
  reqbufs : Option ℕ
  calloc : Bool
  /-- `VIDIOC_QUERYBUF` of a buffer: its length, or a failure -/
  querybuf : ℕ → Option ℕ
  /-- `mmap` of a buffer: the address, or a failure -/
  mmap : ℕ → Option ℕ

/-- A camera that does as it is told and grants `count` buffers. -/
def OpenEnv.granting (count : ℕ) : OpenEnv where
  malloc := true
  stat _ := some true
  openDevice _ := true
  querycap := some ⟨true, true⟩
  setFmt width height _ := some ⟨width, height, width * height * 2⟩
  setParm _ := true
  reqbufs := some count
  calloc := true
  querybuf _ := some 0x100000
  mmap i := some (0x40000000 + i * 0x100000)

/-- What `capture_open` can hold. -/
inductive Resource where
  | handle
  | fd
  | buffers
  | mapping (start length : ℕ)
  deriving DecidableEq, Repr

/-- An entry of the log. -/
inductive LogEntry where
  | acquire (r : Resource)
  | release (r : Resource)
  deriving DecidableEq, Repr

/-- The handle being opened, with the log so far. -/
structure Opening where
  handle : CapHandle
  log : List LogEntry

namespace Opening

/-- A resource obtained. -/
def acquire (o : Opening) (r : Resource) : Opening := { o with log := o.log ++ [.acquire r] }

/-- A resource given back. -/
def release (o : Opening) (r : Resource) : Opening := { o with log := o.log ++ [.release r] }

/-- The handle changed. -/
def modify (o : Opening) (f : CapHandle → CapHandle) : Opening := { o with handle := f o.handle }

end Opening

/-! ## `init_mmap` -/

/-- `handle->buffers[handle->nbuffers] = b`. -/
def setBuffer (b : Buffer) (h : CapHandle) : CapHandle :=
  { h with buffers := Function.update h.buffers h.nbuffers b }

/-- The `for` loop over the `n` buffers from `nbuffers` on: `false` where
it leaves by `err`. -/
def mapLoop (env : OpenEnv) : ℕ → Opening → Opening × Bool
  | 0, o => (o, true)
  | n + 1, o =>
    match env.querybuf o.handle.nbuffers with
    | none => (o, false)
    | some length =>
      match env.mmap o.handle.nbuffers with
      | none => (o, false)
      | some start =>
        let o := o.modify (setBuffer ⟨start, length⟩)
        let o := o.modify fun h => { h with nbuffers := h.nbuffers + 1 }
        mapLoop env n (o.acquire (.mapping start length))

/-- The `while` loop at `err`, with `n` buffers mapped. -/
def unmapLoop : ℕ → Opening → Opening
  | 0, o => o
  | n + 1, o =>
    let b := o.handle.buffers n
    let o := o.modify fun h => { h with nbuffers := n }
    unmapLoop n (o.release (.mapping b.start b.length))

/-- `init_mmap`: `false` where it returns -1. -/
def initMmap (env : OpenEnv) (o : Opening) : Opening × Bool :=
  match env.reqbufs with
  | none => (o, false)
  | some count =>
    if count < 2 then (o, false)
    else if env.calloc then
      let o := (o.acquire .buffers).modify fun h =>
        { h with buffers := fun _ => ⟨0, 0⟩, nbuffers := 0 }
      let mapped := mapLoop env count o
      if mapped.2 then mapped
      else ((unmapLoop mapped.1.handle.nbuffers mapped.1).release .buffers, false)
    else (o, false)

/-! ## `capture_open` -/

/-- `init_device`: `false` where it returns -1. -/
def initDevice (env : OpenEnv) (o : Opening) : Opening × Bool :=
  let params := o.handle.params
  match env.querycap with
  | none => (o, false)
  | some cap =>
    if !cap.videoCapture then (o, false)
    else if !cap.streaming then (o, false)
    else
      match env.setFmt (.ofInt params.width) (.ofInt params.height) params.pixfmt with
      | none => (o, false)
      | some pix =>
        let o := o.modify fun h => { h with imageSize := pix.sizeimage.toInt32.toInt }
        if pix.width ≠ .ofInt params.width ∨ pix.height ≠ .ofInt params.height then (o, false)
        else if env.setParm (.ofInt params.rate) then initMmap env o
        else (o, false)

/-- `capture_open`, with what it acquired and released. -/
def captureOpen (env : OpenEnv) (param : CapParam) : Option CapHandle × List LogEntry :=
  if env.malloc then
    let o := (Opening.mk (clearedHandle param) []).acquire .handle
    let err (o : Opening) : Option CapHandle × List LogEntry := (none, (o.release .handle).log)
    match env.stat param.devName with
    | none => err o
    | some isChr =>
      if !isChr then err o
      else if env.openDevice param.devName then
        let ready := initDevice env (o.acquire .fd)
        if ready.2 then (some ready.1.handle, ready.1.log) else err ready.1
      else err o
  else (none, [])

/-! ## `capture_close` -/

/-- The `for` loop of `uninit_device` over the `n` buffers from `i` on. -/
def uninitLoop : ℕ → ℕ → Opening → Opening
  | 0, _, o => o
  | n + 1, i, o =>
    let b := o.handle.buffers i
    uninitLoop n (i + 1) (o.release (.mapping b.start b.length))

/-- `capture_close`. -/
def captureClose (o : Opening) : Opening :=
  (((uninitLoop o.handle.nbuffers 0 o).release .buffers).release .fd).release .handle

end Capture

end Camkit
