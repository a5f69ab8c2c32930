import Camkit.Vpu.Model.Encoder
/-!
# FFmpeg encoder — the code

`ffmpeg_encode.c`: the handle, `encode_open`, `encode_do` and the setters.
What libavcodec answers is part of a call. `enum pic_t` and
`struct enc_param` are those of `encode.h`, which all encoders share.
-/

namespace Camkit

namespace Ffmpeg

open Vpu (EncParam PicT)

/-! ## Data -/

/-- `enum AVPictureType`, as far as the code tells its values apart. -/
inductive AVPictureType where
  /-- 0, a type for the codec to choose -/
  | none
  | i
  | p
  | b
  | other
  deriving DecidableEq, Repr

/-- `AVFrame`: what the code writes to it. -/
structure AVFrame where
  width : ℤ
  height : ℤ
  pictType : AVPictureType
  keyFrame : Bool
  pts : ℕ
  deriving DecidableEq, Repr

/-- `AVCodecContext`: what the code configures. -/
structure AVCodecContext where
  bitRate : ℤ
  width : ℤ
  height : ℤ
  /-- numerator and denominator -/
  timeBase : ℤ × ℤ
  gopSize : ℤ
  maxBFrames : ℤ
  deriving DecidableEq, Repr

/-- `struct enc_handle`. -/
structure EncHandle where
  ctx : AVCodecContext
  frame : AVFrame
  inbuffer : List UInt8
  inbufsize : ℤ
  /-- the data of the packet, `none` being the null pointer -/
  packet : Option (List UInt8)
  frameCounter : ℕ
  params : EncParam
  deriving DecidableEq, Repr

/-! ## `encode_open` -/

/-- What the library calls of `encode_open` answer. -/
structure OpenEnv where
  malloc : Bool
  findEncoder : Bool
  allocContext : Bool
  open2 : Bool
  /-- the picture type and the key frame flag a frame is allocated with -/
  frameAlloc : Option (AVPictureType × Bool)
  /-- `avpicture_get_size` for `AV_PIX_FMT_YUV420P` -/
  pictureSize : ℤ → ℤ → ℤ
  inbuffer : Option (List UInt8)

/-- The codec context `encode_open` configures. -/
def openedContext (param : EncParam) : AVCodecContext where
  bitRate := param.bitrate * 1000
  width := param.srcPicwidth
  height := param.srcPicheight
  timeBase := (1, param.fps)
  gopSize := param.gop
  maxBFrames := 1

/-- `encode_open`. -/
def encodeOpen (env : OpenEnv) (param : EncParam) : Option EncHandle :=
  if env.malloc && env.findEncoder && env.allocContext && env.open2 then
    match env.frameAlloc with
    | none => none
    | some (pictType, keyFrame) =>
      match env.inbuffer with
      | none => none
      | some inbuffer => some {
          ctx := openedContext param
          frame := ⟨param.srcPicwidth, param.srcPicheight, pictType, keyFrame, 0⟩
          inbuffer := inbuffer
          inbufsize := env.pictureSize param.srcPicwidth param.srcPicheight
          packet := none
          frameCounter := 0
          params := param }
  else none

/-! ## `encode_do` -/

/-- Where a call leaves the process. -/
inductive Fault where
  /-- the assertion on the size of the input -/
  | abort
  deriving DecidableEq, Repr

/-- What `avcodec_encode_video2` answers. -/
structure DoEnv where
  ret : ℤ
  gotOutput : Bool
  data : List UInt8
  codedPictType : AVPictureType
  deriving DecidableEq, Repr

/-- A frame returned, empty where the encoder delays it. -/
structure Frame where
  buf : Option (List UInt8)
  len : ℤ
  type : PicT
  deriving DecidableEq, Repr

/-- What one `encode_do` leaves. -/
structure DoResult where
  handle : EncHandle
  /-- what `avcodec_encode_video2` was given -/
  submitted : AVFrame
  /-- `none` where it returns -1 -/
  frame : Option Frame
  deriving DecidableEq, Repr

/-- The `switch` over `coded_frame->pict_type`. -/
def picTypeOf : AVPictureType → PicT
  | .i => .i
  | .p => .p
  | .b => .b
  | _ => .none

/-- The key frame cancelled. -/
def cancelKeyFrame (frame : AVFrame) : AVFrame :=
  { frame with
    pictType := .none
    keyFrame := false }

/-- `encode_do`. -/
def encodeDo (env : DoEnv) (h : EncHandle) (ibuf : List UInt8) (ilen : ℤ) :
    Except Fault DoResult :=
  if h.inbufsize ≠ ilen then .error .abort
  else
    let submitted := { h.frame with pts := h.frameCounter }
    let h := { h with
      inbuffer := ibuf.take ilen.toNat
      frame := cancelKeyFrame submitted
      packet := if env.gotOutput then some env.data else none
      frameCounter := h.frameCounter + 1 }
    if env.ret < 0 then .ok ⟨h, submitted, none⟩
    else if env.gotOutput then
      .ok ⟨h, submitted, some ⟨some env.data, env.data.length, picTypeOf env.codedPictType⟩⟩
    else .ok ⟨h, submitted, some ⟨none, 0, .none⟩⟩

/-! ## The setters -/

/-- `encode_force_Ipic`. -/
def encodeForceIpic (h : EncHandle) : EncHandle :=
  { h with frame := { h.frame with
    pictType := .i
    keyFrame := true } }

/-- `encode_set_bitrate`. -/
def encodeSetBitrate (h : EncHandle) (val : ℤ) : EncHandle :=
  { h with ctx := { h.ctx with bitRate := val } }

/-- `encode_set_framerate`. -/
def encodeSetFramerate (h : EncHandle) (val : ℤ) : EncHandle :=
  { h with ctx := { h.ctx with timeBase := (1, val) } }

end Ffmpeg

end Camkit
