import Camkit.Vpu.Model.Encoder
import Camkit.Common.Machine
/-!
# VPU encoder — headers, frames and rounds

The calls on an open handle. The header loop keeps its place in two
statics of `encode_get_headers`, which every handle of a process shares, so
they are a state of their own. A round is what `encode.h` asks of a caller:
settings, the headers until there are no more, and one frame.
-/

namespace Camkit

namespace Vpu

/-! ## `encode_fill_data` -/

/-- Where a call leaves the process. -/
inductive Fault where
  /-- the size check of `encode_fill_data` -/
  | abort
  /-- there is no source frame buffer -/
  | nullDeref
  deriving DecidableEq, Repr

/-- The bytes a `memcpy` writes. -/
structure Copy where
  dst : UInt32
  size : ℤ
  deriving DecidableEq, Repr

/-- `encode_fill_data`: the copy it makes, whose size it returns. -/
def encodeFillData (h : EncHandle) (len : ℤ) : Except Fault Copy :=
  match h.srcFramebuf with
  | none => .error .nullDeref
  | some pfb =>
    if h.yuv420Imgsize ≠ pfb.desc.size ∨ len < h.yuv420Imgsize then .error .abort
    else .ok ⟨h.yAddr, h.yuv420Imgsize⟩

/-! ## `encode_get_headers` -/

/-- `headerType` of `ENC_PUT_AVC_HEADER`. -/
inductive HeaderType where
  /-- `SPS_RBSP` -/
  | sps
  /-- `SPS_RBSP_MVC` -/
  | spsMvc
  /-- `PPS_RBSP` -/
  | pps
  /-- `PPS_RBSP_MVC` -/
  | ppsMvc
  deriving DecidableEq, Repr

/-- The values of `next_stage`, from 0 to 3. -/
inductive Stage where
  | sps
  | msps
  | pps
  | mpps
  deriving DecidableEq, Repr

/-- The statics of `encode_get_headers`. -/
structure Statics where
  nextStage : Stage
  stageEnd : Bool
  deriving DecidableEq, Repr

/-- The statics of a fresh process. -/
def Statics.fresh : Statics := ⟨.sps, false⟩

/-- What the VPU fills in for `ENC_PUT_AVC_HEADER`. -/
structure EncHeaderParam where
  buf : UInt32
  size : ℤ
  deriving DecidableEq, Repr

/-- A header returned, with the type it was asked for under. -/
structure Header where
  headerType : HeaderType
  buf : UInt32
  len : ℤ
  type : PicT
  deriving DecidableEq, Repr

/-- The header a stage asks for, and the type it is reported as. -/
def Stage.headerType : Stage → HeaderType × PicT
  | .sps => (.sps, .sps)
  | .msps => (.spsMvc, .sps)
  | .pps => (.pps, .pps)
  | .mpps => (.ppsMvc, .pps)

/-- The statics after a stage. -/
def Stage.next (mvc : Bool) (st : Statics) : Stage → Statics
  | .sps => { st with nextStage := if mvc then .msps else .pps }
  | .msps => { st with nextStage := .pps }
  | .pps => if mvc then { st with nextStage := .mpps } else ⟨.sps, true⟩
  | .mpps => ⟨.sps, true⟩

/-- `encode_get_headers`: `none` where it returns 0. -/
def encodeGetHeaders (give : HeaderType → EncHeaderParam) (st : Statics) (h : EncHandle) :
    Statics × Option Header :=
  if h.gopOffsetCounter ≠ 0 then (st, none)
  else if st.stageEnd then ({ st with stageEnd := false }, none)
  else
    let asked := st.nextStage.headerType
    let enchdrParam := give asked.1
    let vbuf := enchdrParam.buf + h.virtBsbufAddr - h.phyBsbufAddr
    (st.nextStage.next h.mvcExtension st, some ⟨asked.1, vbuf, enchdrParam.size, asked.2⟩)

/-! ## `encode_do` -/

/-- `EncOutputInfo`, as far as it is read. -/
structure EncOutputInfo where
  picType : ℤ
  bitstreamBuffer : UInt32
  bitstreamSize : ℤ
  deriving DecidableEq, Repr

/-- What the VPU answers during one `encode_do`. -/
structure DoEnv where
  startOneFrame : Bool
  /-- how many times `vpu_IsBusy` says yes -/
  busy : ℕ
  outputInfo : Option EncOutputInfo

/-- A frame encoded. -/
structure Frame where
  buf : UInt32
  len : ℤ
  type : PicT
  deriving DecidableEq, Repr

/-- What one `encode_do` leaves. -/
structure DoResult where
  handle : EncHandle
  /-- what `vpu_EncStartOneFrame` was given -/
  submitted : VpuEncParam
  /-- `none` where it returns -1 -/
  frame : Option Frame

/-- The `while` loop: `false` where the timeout ends it. -/
def waitLoop : ℕ → ℕ → Bool
  | 0, _ => true
  | busy + 1, loopId => if loopId = 20 then false else waitLoop busy (loopId + 1)

/-- The `switch` over `outinfo.picType`. -/
def picTypeOf (picType : ℤ) : PicT :=
  if picType = 0 then .i else if picType = 1 then .p else if picType = 3 then .b else .none

/-- The counters after a frame. -/
def countFrame (h : EncHandle) : EncHandle :=
  { h with
    frameCounter := h.frameCounter + 1
    gopOffsetCounter :=
      if h.gopOffsetCounter + 1 ≥ h.params.gop then 0 else h.gopOffsetCounter + 1 }

/-- The forced I picture reset. -/
def resetForce (h : EncHandle) : EncHandle :=
  { h with encParam := { h.encParam with forceIPicture := false } }

/-- `encode_do`. -/
def encodeDo (env : DoEnv) (h : EncHandle) (ilen : ℤ) : Except Fault DoResult :=
  match encodeFillData h ilen with
  | .error f => .error f
  | .ok _ =>
    let submitted := h.encParam
    let h := resetForce h
    if env.startOneFrame && waitLoop env.busy 0 then
      match env.outputInfo with
      | none => .ok ⟨h, submitted, none⟩
      | some outinfo =>
        let vbuf := outinfo.bitstreamBuffer + h.virtBsbufAddr - h.phyBsbufAddr
        .ok ⟨countFrame h, submitted,
          some ⟨vbuf, outinfo.bitstreamSize, picTypeOf outinfo.picType⟩⟩
    else .ok ⟨h, submitted, none⟩

/-! ## The setters -/

/-- `encode_set_qp`. -/
def encodeSetQp (h : EncHandle) (val : ℤ) : EncHandle :=
  let valid := if val > 51 then 51 else if val < 0 then 0 else val
  { h with encParam := { h.encParam with quantParam := valid } }

/-- `encode_force_Ipic`. -/
def encodeForceIpic (h : EncHandle) : EncHandle :=
  { h with
    encParam := { h.encParam with forceIPicture := true }
    gopOffsetCounter := 0 }

/-- `encode_set_gop`, `ok` being whether the command succeeds and with it
the call. -/
def encodeSetGop (h : EncHandle) (val : ℤ) (ok : Bool) : EncHandle :=
  if ok then { h with params := { h.params with gop := val } } else h

/-- `encode_set_bitrate`. -/
def encodeSetBitrate (h : EncHandle) (val : ℤ) (ok : Bool) : EncHandle :=
  if ok then { h with params := { h.params with bitrate := val } } else h

/-- `encode_set_framerate`. -/
def encodeSetFramerate (h : EncHandle) (val : ℤ) (ok : Bool) : EncHandle :=
  if ok then { h with params := { h.params with fps := val } } else h

/-- The settings of an encoder instance that a command can change. -/
structure EncInstance where
  frameRateInfo : ℤ
  bitRate : ℤ
  gopSize : ℤ
  deriving DecidableEq, Repr

/-- The `EncOpenParam` of `encode_open`, as far as a command can change it
later. -/
def encop (param : EncParam) : EncInstance := ⟨param.fps, param.bitrate, param.gop⟩

/-- The commands of the setters. -/
inductive Command where
  /-- `ENC_SET_GOP_NUMBER` -/
  | setGopNumber
  /-- `ENC_SET_BITRATE` -/
  | setBitrate
  /-- `ENC_SET_FRAME_RATE` -/
  | setFrameRate
  deriving DecidableEq, Repr

/-- `vpu_EncGiveCommand` with the value of a setter, `ok` being whether it
succeeds: the instance, and what the setter returns. -/
def giveCommand (i : EncInstance) (command : Command) (val : ℤ) (ok : Bool) : EncInstance × ℤ :=
  if ok then
    match command with
    | .setGopNumber => ({ i with gopSize := val }, 0)
    | .setBitrate => ({ i with bitRate := val }, 0)
    | .setFrameRate => ({ i with frameRateInfo := val }, 0)
  else (i, -1)

/-! ## Rounds -/

/-- A setting made between two frames. -/
inductive Setting where
  | forceIpic
  | setQp (val : ℤ)
  | setGop (val : ℤ) (ok : Bool)
  | setBitrate (val : ℤ) (ok : Bool)
  | setFramerate (val : ℤ) (ok : Bool)
  deriving DecidableEq, Repr

/-- A setting on the handle. -/
def Setting.apply (h : EncHandle) : Setting → EncHandle
  | .forceIpic => encodeForceIpic h
  | .setQp val => encodeSetQp h val
  | .setGop val ok => encodeSetGop h val ok
  | .setBitrate val ok => encodeSetBitrate h val ok
  | .setFramerate val ok => encodeSetFramerate h val ok

/-- The settings of a round, in order. -/
def applySettings (h : EncHandle) (l : List Setting) : EncHandle := l.foldl Setting.apply h

/-- `encode_get_headers` until it returns 0, in at most `fuel` calls; `none`
is a loop not done by then. -/
def headerLoop (give : HeaderType → EncHeaderParam) :
    ℕ → Statics → EncHandle → Option (Statics × List Header)
  | 0, _, _ => none
  | fuel + 1, st, h =>
    match encodeGetHeaders give st h with
    | (st', none) => some (st', [])
    | (st', some header) =>
      match headerLoop give fuel st' h with
      | none => none
      | some (st'', headers) => some (st'', header :: headers)

/-- What a caller and the VPU do in one round. -/
structure Round where
  settings : List Setting
  give : HeaderType → EncHeaderParam
  ilen : ℤ
  env : DoEnv

/-- What a round yields. -/
structure RoundResult where
  /-- `gop_offset_counter` at the start of the header loop -/
  counter : ℤ
  headers : List Header
  submitted : VpuEncParam
  frame : Option Frame

/-- The state a process with one handle carries from round to round. -/
structure Encoder where
  statics : Statics
  handle : EncHandle

/-- The rounds of a handle, with the header loop given `fuel` calls. A
round in which the process aborts has no step. -/
def rounds (fuel : ℕ) : Machine Encoder Round RoundResult where
  step s r :=
    let h := applySettings s.handle r.settings
    match headerLoop r.give fuel s.statics h with
    | none => none
    | some (st, headers) =>
      match encodeDo r.env h r.ilen with
      | .error _ => none
      | .ok result =>
        some (⟨st, result.handle⟩, ⟨h.gopOffsetCounter, headers, result.submitted, result.frame⟩)

end Vpu

end Camkit
