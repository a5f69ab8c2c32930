import Camkit.SoftConvert.Model.Convert
import Mathlib.Data.Int.Notation
/-!
# FFmpeg converter — the code

`ffmpeg_convert.c`: the formats and `convert_open`. What libswscale and
libavutil answer is a parameter. `struct cvt_param` is that of `convert.h`,
which all converters share.
-/

namespace Camkit

namespace Ffmpeg

open SoftConvert (CvtParam v4l2PixFmtYuyv v4l2PixFmtYuv420)

/-! ## Formats -/

/-- `V4L2_PIX_FMT_RGB565`. -/
def v4l2PixFmtRgb565 : UInt32 := 0x50424752

/-- `V4L2_PIX_FMT_RGB24`. -/
def v4l2PixFmtRgb24 : UInt32 := 0x33424752

/-- `enum AVPixelFormat`, as far as the code names its values. -/
inductive AVPixelFormat where
  | none
  | yuv420p
  | yuyv422
  | rgb565le
  | rgb24
  deriving DecidableEq, Repr

/-- `v4lFmt2AVFmt`. -/
def v4lFmt2AVFmt (v4lfmt : UInt32) : AVPixelFormat :=
  if v4lfmt = v4l2PixFmtYuv420 then .yuv420p
  else if v4lfmt = v4l2PixFmtYuyv then .yuyv422
  else if v4lfmt = v4l2PixFmtRgb565 then .rgb565le
  else if v4lfmt = v4l2PixFmtRgb24 then .rgb24
  else .none

/-! ## `convert_open` -/

/-- `struct cvt_handle`. -/
structure CvtHandle where
  srcBuffer : List UInt8
  srcBuffersize : ℤ
  dstBuffer : List UInt8
  dstBuffersize : ℤ
  inavfmt : AVPixelFormat
  outavfmt : AVPixelFormat
  params : CvtParam
  deriving DecidableEq, Repr

/-- What the library calls of `convert_open` answer. -/
structure CvtOpenEnv where
  malloc : Bool
  /-- `sws_getContext` from a width, a height and a format to others -/
  swsGetContext : ℤ → ℤ → AVPixelFormat → ℤ → ℤ → AVPixelFormat → Bool
  /-- `avpicture_get_size` -/
  pictureSize : AVPixelFormat → ℤ → ℤ → ℤ
  srcFrame : Bool
  srcBuffer : Option (List UInt8)
  dstFrame : Bool
  dstBuffer : Option (List UInt8)

/-- `sws_getContext` for the parameters. -/
def CvtOpenEnv.context (env : CvtOpenEnv) (param : CvtParam) : Bool :=
  env.swsGetContext param.inwidth.toInt param.inheight.toInt (v4lFmt2AVFmt param.inpixfmt)
    param.outwidth.toInt param.outheight.toInt (v4lFmt2AVFmt param.outpixfmt)

/-- `convert_open`. -/
def convertOpen (env : CvtOpenEnv) (param : CvtParam) : Option CvtHandle :=
  if env.malloc && env.context param && env.srcFrame then
    match env.srcBuffer with
    | none => none
    | some srcBuffer =>
      if env.dstFrame then
        match env.dstBuffer with
        | none => none
        | some dstBuffer =>
          let inavfmt := v4lFmt2AVFmt param.inpixfmt
          let outavfmt := v4lFmt2AVFmt param.outpixfmt
          some {
            srcBuffer := srcBuffer
            srcBuffersize := env.pictureSize inavfmt param.inwidth.toInt param.inheight.toInt
            dstBuffer := dstBuffer
            dstBuffersize := env.pictureSize outavfmt param.outwidth.toInt param.outheight.toInt
            inavfmt := inavfmt
            outavfmt := outavfmt
            params := param }
      else none
  else none

end Ffmpeg

end Camkit
