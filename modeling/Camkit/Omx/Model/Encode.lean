import Camkit.Vpu.Model.Encoder
import Camkit.Common.Machine
import Mathlib.Algebra.Group.Int.Defs
/-!
# OMX encoder — the code

`omx_encode.c`: the handle, `encode_open` and `encode_do`. What the
component delivers on its output port is a list of fills, one for each
`OMX_FillThisBuffer`, and nothing once the list is over.
-/

namespace Camkit

namespace Omx

open Vpu (EncParam PicT)

/-! ## Data -/

/-- `MAX_SIZE_COMBINATION_BUFFER`. -/
def maxSizeCombinationBuffer : ℕ := 128 * 1024

/-- `OMX_BUFFERFLAG_ENDOFFRAME`. -/
def bufferflagEndofframe : UInt32 := 0x10

/-- `OMX_BUFFERFLAG_CODECCONFIG`. -/
def bufferflagCodecconfig : UInt32 := 0x80

/-- The header of the output buffer as an `OMX_FillThisBuffer` sets it: its
flags and the `nFilledLen` bytes of the buffer. -/
structure Chunk where
  nFlags : UInt32
  data : List UInt8
  deriving DecidableEq, Repr

/-- Neither flags nor bytes: there is nothing to deliver. -/
def Chunk.isEmpty (c : Chunk) : Bool := c.nFlags == 0 && c.data.isEmpty

/-- The end of a frame, and no SPS or PPS. -/
def Chunk.endsFrame (c : Chunk) : Bool :=
  c.nFlags &&& bufferflagCodecconfig == 0 && c.nFlags &&& bufferflagEndofframe != 0

/-- What an `OMX_FillThisBuffer` does, `none` being an error. -/
abbrev Fill : Type := Option Chunk

/-- `struct enc_handle`, without what belongs to the component. -/
structure EncHandle where
  /-- the first `combination_buffer_ptr` bytes of the combination buffer -/
  combination : List UInt8
  frameCounter : ℕ
  params : EncParam
  deriving DecidableEq, Repr

/-! ## `encode_open` -/

/-- How `ilclient_enable_port_buffers` ends. -/
inductive Enabling where
  | enabled
  /-- it fails, with the buffers freed that it has made -/
  | undone
  /-- it fails with the port disabled, as where the command ends in an error:
  `ilclient_disable_port_buffers` returns at once, and the buffers stay -/
  | stuck
  deriving DecidableEq, Repr

/-- What the calls of `encode_open` answer. -/
structure OpenEnv where
  malloc : Bool
  mallocCombination : Bool
  ilclientInit : Bool
  omxInit : Bool
  createComponent : Bool
  /-- the parameters of the two ports -/
  setParameters : Bool
  stateIdle : Bool
  enableInput : Enabling
  enableOutput : Enabling
  stateExecuting : Bool

/-- `encode_open`. -/
def encodeOpen (env : OpenEnv) (param : EncParam) : Option EncHandle :=
  if env.malloc && env.mallocCombination && env.ilclientInit && env.omxInit &&
      env.createComponent && env.setParameters && env.stateIdle && env.enableInput == .enabled &&
      env.enableOutput == .enabled && env.stateExecuting then
    some ⟨[], 0, param⟩
  else none

/-! ## `encode_do` -/

/-- Where a call leaves the behaviour the source defines. -/
inductive Fault where
  /-- a copy past the end of the combination buffer -/
  | overrun
  deriving DecidableEq, Repr

/-- What the calls to the component answer, but for `OMX_FillThisBuffer`. -/
structure DoEnv where
  /-- a buffer of the input port is free -/
  inputBuffer : Bool
  emptyThisBuffer : Bool
  outputBuffer : Bool
  deriving DecidableEq, Repr

/-- A frame returned, empty where there is none. -/
structure Frame where
  buf : Option (List UInt8)
  len : ℤ
  type : PicT
  deriving DecidableEq, Repr

/-- The output parameters as a call clears them. -/
def Frame.cleared : Frame := ⟨none, 0, .none⟩

/-- A buffer returned, its type unknown. -/
def Frame.whole (b : List UInt8) : Frame := ⟨some b, b.length, .none⟩

/-- What one `encode_do` leaves. -/
structure DoResult where
  handle : EncHandle
  /-- what `OMX_EmptyThisBuffer` was given -/
  submitted : Option (List UInt8)
  /-- `none` where it returns -1 -/
  frame : Option Frame
  /-- what the component is still to deliver -/
  fills : List Fill
  deriving DecidableEq, Repr

/-- `memcpy` to `combination_buffer + combination_buffer_ptr`, and the
pointer moved behind the copy. -/
def memcpyCombination (buf data : List UInt8) : Except Fault (List UInt8) :=
  if buf.length + data.length ≤ maxSizeCombinationBuffer then .ok (buf ++ data)
  else .error .overrun

/-- The combination loop, from the bytes combined so far: the bytes it
leaves, whether it broke out rather than returned -1, and the fills left. -/
def combine (buf : List UInt8) : List Fill → Except Fault (List UInt8 × Bool × List Fill)
  | [] => .ok (buf, true, [])
  | none :: fills => .ok (buf, false, fills)
  | some c :: fills =>
    if c.isEmpty then .ok (buf, true, fills)
    else
      match memcpyCombination buf c.data with
      | .error e => .error e
      | .ok buf => if c.endsFrame then .ok (buf, true, fills) else combine buf fills

/-- The branches of `encode_do` after its first `OMX_FillThisBuffer`. -/
def takeOutput (h : EncHandle) (submitted : Option (List UInt8)) :
    List Fill → Except Fault DoResult
  | [] => .ok ⟨h, submitted, some .cleared, []⟩
  | none :: fills => .ok ⟨h, submitted, none, fills⟩
  | some c :: fills =>
    if c.isEmpty then .ok ⟨h, submitted, some .cleared, fills⟩
    else if c.endsFrame then
      .ok ⟨{ h with frameCounter := h.frameCounter + 1 }, submitted, some (.whole c.data), fills⟩
    else
      match memcpyCombination [] c.data with
      | .error e => .error e
      | .ok buf =>
        match combine buf fills with
        | .error e => .error e
        | .ok (buf, false, fills) =>
          .ok ⟨{ h with combination := buf }, submitted, none, fills⟩
        | .ok (buf, true, fills) =>
          let h := { h with
            combination := buf
            frameCounter := h.frameCounter + 1 }
          .ok ⟨h, submitted, some (.whole buf), fills⟩

/-- `encode_do`. The frame goes to the component whole: the size of its
input buffers is the component's. -/
def encodeDo (env : DoEnv) (h : EncHandle) (ibuf : List UInt8) (fills : List Fill) :
    Except Fault DoResult :=
  let submitted := if env.inputBuffer then some ibuf else none
  if env.inputBuffer && !env.emptyThisBuffer then .ok ⟨h, submitted, none, fills⟩
  else if !env.outputBuffer then .ok ⟨h, submitted, none, fills⟩
  else takeOutput h submitted fills

/-! ## The settings of the component -/

/-- What `video_encode` is configured with. -/
structure VideoEncode where
  /-- in bits a second -/
  bitrate : UInt32
  /-- with 16 fractional bits -/
  framerate : UInt32
  nPFrames : UInt32
  deriving DecidableEq, Repr

/-- `xFramerate`, `nTargetBitrate` and `nPFrames` as `encode_open` sets
them. -/
def openedComponent (param : EncParam) : VideoEncode where
  bitrate := UInt32.ofInt (param.bitrate * 1000)
  framerate := UInt32.ofInt (param.fps * 2 ^ 16)
  nPFrames := UInt32.ofInt (param.gop - 1)

/-- `encode_set_gop`, which is not implemented. -/
def encodeSetGop (c : VideoEncode) (_ : ℤ) : VideoEncode × ℤ := (c, -1)

/-- `encode_set_bitrate`, `ok` being whether `OMX_SetConfig` succeeds. -/
def encodeSetBitrate (c : VideoEncode) (val : ℤ) (ok : Bool) : VideoEncode × ℤ :=
  if ok then ({ c with bitrate := UInt32.ofInt (val * 1000) }, 0) else (c, -1)

/-- `encode_set_framerate`. -/
def encodeSetFramerate (c : VideoEncode) (val : ℤ) (ok : Bool) : VideoEncode × ℤ :=
  if ok then ({ c with framerate := UInt32.ofInt val }, 0) else (c, -1)

/-! ## The calls of a session -/

/-- An `encode_do`: what the component answers and the frame to encode. -/
structure Call where
  env : DoEnv
  ibuf : List UInt8
  deriving DecidableEq, Repr

/-- The encoder: successive calls of `encode_do` on a handle, and what each
returns. A call that overruns the combination buffer cannot happen. -/
def encoder : Machine (EncHandle × List Fill) Call (Option Frame) where
  step := fun (h, fills) call =>
    match encodeDo call.env h call.ibuf fills with
    | .error _ => none
    | .ok r => some ((r.handle, r.fills), r.frame)

end Omx

end Camkit
