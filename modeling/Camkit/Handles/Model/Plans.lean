import Camkit.Common.Ladder
import Camkit.Ffmpeg.Model.Convert
import Camkit.Ffmpeg.Model.Encode
import Camkit.Network.Model.Connection
import Camkit.Omx.Model.Encode
import Camkit.RtpPack.Model.Packer
import Camkit.Timestamp.Model.Draw
/-!
# Handles — how they are opened and closed

The `open` and `close` functions that unwind through labels, each with what
it asks for in the order of the source, the label it jumps to, what stands
at the labels, and what closing gives back.
-/

namespace Camkit

namespace Handles

open Ladder (Plan Rung Call)

/-- What a handle can hold. -/
inductive Resource where
  | handle
  /-- `avcodec_alloc_context3` -/
  | codecContext
  /-- `avcodec_open2` -/
  | codec
  | frame
  | inbuffer
  | swsContext
  | srcFrame
  | srcBuffer
  | dstFrame
  | dstBuffer
  | combinationBuffer
  | ilclient
  /-- `OMX_Init` -/
  | omx
  | component
  /-- a component out of its loaded state -/
  | idle
  | inputBuffers
  | outputBuffers
  | outbuf
  | socket
  deriving DecidableEq, Repr

/-- The label `err<k>`, with the labels below it. -/
def err (k : ℕ) : ℕ := k + 1

/-- `return NULL` without a label. -/
def returnNull : ℕ := 0

/-- `encode_open` and `encode_close` of `ffmpeg_encode.c`. -/
def ffmpegEncoder (env : Ffmpeg.OpenEnv) : Plan Resource where
  rungs := [
    ⟨env.malloc, [.handle], returnNull⟩,
    ⟨env.findEncoder, [], err 0⟩,
    ⟨env.allocContext, [.codecContext], err 0⟩,
    ⟨env.open2, [.codec], err 1⟩,
    ⟨env.frameAlloc.isSome, [.frame], err 2⟩,
    ⟨env.inbuffer.isSome, [.inbuffer], err 3⟩]
  unwinding := [.handle, .codecContext, .codec, .frame]
  closing := [.inbuffer, .frame, .codec, .codecContext, .handle]

/-- `convert_open` and `convert_close` of `ffmpeg_convert.c`. -/
def ffmpegConverter (env : Ffmpeg.CvtOpenEnv) (param : SoftConvert.CvtParam) : Plan Resource where
  rungs := [
    ⟨env.malloc, [.handle], returnNull⟩,
    ⟨env.context param, [.swsContext], err 0⟩,
    ⟨env.srcFrame, [.srcFrame], err 1⟩,
    ⟨env.srcBuffer.isSome, [.srcBuffer], err 2⟩,
    ⟨env.dstFrame, [.dstFrame], err 3⟩,
    ⟨env.dstBuffer.isSome, [.dstBuffer], err 4⟩]
  unwinding := [.handle, .swsContext, .srcFrame, .srcBuffer, .dstFrame]
  closing := [.dstBuffer, .dstFrame, .srcBuffer, .srcFrame, .swsContext, .handle]

/-- `convert_open` and `convert_close` of `soft_convert.c`. -/
def softConverter (malloc : Bool) (mallocDst : Option Mem) (param : SoftConvert.CvtParam) :
    Plan Resource where
  rungs := [
    ⟨malloc, [.handle], returnNull⟩,
    ⟨param.inpixfmt = SoftConvert.v4l2PixFmtYuyv ∧ param.outpixfmt = SoftConvert.v4l2PixFmtYuv420,
      [], err 0⟩,
    ⟨param.inwidth = param.outwidth ∧ param.inheight = param.outheight, [], err 0⟩,
    ⟨mallocDst.isSome, [.dstBuffer], err 0⟩]
  unwinding := [.handle]
  closing := [.dstBuffer, .handle]

/-- `encode_open` and `encode_close` of `omx_encode.c`. A port has its
buffers before the command that enables it is over. -/
def omxEncoder (env : Omx.OpenEnv) : Plan Resource where
  rungs := [
    ⟨env.malloc, [.handle], returnNull⟩,
    ⟨env.mallocCombination, [.combinationBuffer], err 0⟩,
    ⟨env.ilclientInit, [.ilclient], err 0⟩,
    ⟨env.omxInit, [.omx], err 1⟩,
    ⟨env.createComponent, [.component], err 2⟩,
    ⟨env.setParameters, [], err 3⟩,
    ⟨env.stateIdle, [.idle], err 3⟩,
    ⟨env.enableInput ≠ .undone, [.inputBuffers], err 4⟩,
    ⟨env.enableInput = .enabled, [], err 4⟩,
    ⟨env.enableOutput ≠ .undone, [.outputBuffers], err 5⟩,
    ⟨env.enableOutput = .enabled, [], err 5⟩,
    ⟨env.stateExecuting, [], err 6⟩]
  unwinding := [.handle, .ilclient, .omx, .component, .idle, .inputBuffers, .outputBuffers]
  closing := [.inputBuffers, .outputBuffers, .idle, .component, .omx, .ilclient,
    .combinationBuffer, .handle]

/-- The buffers of a port the OMX encoder gets to and cannot enable. -/
def stuckBuffers (env : Omx.OpenEnv) : List Resource :=
  if env.ilclientInit && env.omxInit && env.createComponent && env.setParameters &&
      env.stateIdle then
    match env.enableInput, env.enableOutput with
    | .stuck, _ => [.inputBuffers]
    | .enabled, .stuck => [.outputBuffers]
    | _, _ => []
  else []

/-- `pack_open` and `pack_close`. -/
def packetiser (mallocHandle : Bool) (mallocOutbuf : Option Mem) : Plan Resource where
  rungs := [
    ⟨mallocHandle, [.handle], returnNull⟩,
    ⟨mallocOutbuf.isSome, [.outbuf], err 0⟩]
  unwinding := [.handle]
  closing := [.outbuf, .handle]

/-- `net_open` and `net_close`; `net_open` has no labels, and gives back the
same way. -/
def network (env : Network.OpenEnv) (params : Network.NetParam) : Plan Resource where
  rungs := [
    ⟨env.malloc, [.handle], returnNull⟩,
    ⟨(env.socket params.type).isSome, [.socket], err 0⟩,
    ⟨env.connect (env.server params), [], err 1⟩]
  unwinding := [.handle, .socket]
  closing := [.socket, .handle]

/-- `timestamp_open` and `timestamp_close`. -/
def timestamp (malloc : Bool) : Plan Resource where
  rungs := [⟨malloc, [.handle], returnNull⟩]
  unwinding := []
  closing := [.handle]

/-! ## Attempts -/

/-- A call that opens a handle, with what it is answered. -/
inductive Attempt where
  | ffmpegEncoder (env : Ffmpeg.OpenEnv) (param : Vpu.EncParam)
  | ffmpegConverter (env : Ffmpeg.CvtOpenEnv) (param : SoftConvert.CvtParam)
  | softConverter (malloc : Bool) (mallocDst : Option Mem) (param : SoftConvert.CvtParam)
      (size : ∀ e, SoftConvert.convertOpen malloc mallocDst param ≠ .error e)
  | omxEncoder (env : Omx.OpenEnv) (param : Vpu.EncParam)
  | packetiser (params : RtpPack.PacParam) (mallocHandle : Bool) (mallocOutbuf : Option Mem)
      (tb : RtpPack.Timeb)
  | network (env : Network.OpenEnv) (params : Network.NetParam)
  | timestamp (malloc : Bool) (arrs : Timestamp.CharArrs) (params : Timestamp.TmsParam)

namespace Attempt

/-- How it asks for things and gives them back. -/
def plan : Attempt → Plan Resource
  | ffmpegEncoder env _ => Handles.ffmpegEncoder env
  | ffmpegConverter env param => Handles.ffmpegConverter env param
  | softConverter malloc mallocDst param _ => Handles.softConverter malloc mallocDst param
  | omxEncoder env _ => Handles.omxEncoder env
  | packetiser _ mallocHandle mallocOutbuf _ => Handles.packetiser mallocHandle mallocOutbuf
  | network env params => Handles.network env params
  | timestamp malloc _ _ => Handles.timestamp malloc

/-- It returns a handle. -/
def opens : Attempt → Bool
  | ffmpegEncoder env param => (Ffmpeg.encodeOpen env param).isSome
  | ffmpegConverter env param => (Ffmpeg.convertOpen env param).isSome
  | softConverter malloc mallocDst param _ =>
    match SoftConvert.convertOpen malloc mallocDst param with
    | .ok h => h.isSome
    | .error _ => false
  | omxEncoder env param => (Omx.encodeOpen env param).isSome
  | packetiser params mallocHandle mallocOutbuf tb =>
    (RtpPack.packOpen params mallocHandle mallocOutbuf tb).isSome
  | network env params => (Network.netOpen env params).isSome
  | timestamp malloc arrs params => (Timestamp.timestampOpen malloc arrs params).1.isSome

/-- What a call leaves behind: a failed `encode_open` of the OMX encoder,
once it has its combination buffer, that buffer, and the buffers of the
port it is stuck at. -/
def lost : Attempt → List Resource
  | omxEncoder env param =>
    if env.malloc && env.mallocCombination && (Omx.encodeOpen env param).isNone then
      .combinationBuffer :: stuckBuffers env
    else []
  | _ => []

end Attempt

/-- What the calls from number `n` on have lost. -/
def losses : ℕ → List (Call Attempt) → List (ℕ × Resource)
  | _, [] => []
  | n, .open a :: cs => a.lost.map (n, ·) ++ losses (n + 1) cs
  | n, .close _ :: cs => losses (n + 1) cs

end Handles

end Camkit
