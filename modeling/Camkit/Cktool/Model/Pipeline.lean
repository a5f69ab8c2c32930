import Camkit.Capture.Model.Stream
import Camkit.Ipu.Model.Convert
import Camkit.Vpu.Model.Encode
/-!
# The tool — its pipeline on i.MX

The loop of `cktool.c` from the camera to the encoder, in the build with the
IPU converter and the VPU encoder, each with its own code: an image goes on
with the address and the size the call before it has reported, and a call
that does not expect the size, or finds no memory at the address, ends the
process. The camera's own images are in its mappings.
-/

namespace Camkit

namespace Cktool

/-- The handles of the loop, and `quit`. -/
structure Rig where
  device : Capture.Device
  cvt : Ipu.CvtHandle
  enc : Vpu.EncHandle
  quit : Bool

/-- What the system answers during one iteration. -/
structure Shot where
  get : Capture.GetDataEnv
  /-- `IPU_QUEUE_TASK` succeeds -/
  queued : Bool
  env : Vpu.DoEnv

/-- What becomes of an image. -/
inductive Outcome where
  /-- there is none, or no picture is made of it -/
  | none
  | picture (frame : Vpu.Frame)
  /-- the process ends on it -/
  | aborted
  deriving DecidableEq, Repr

/-- `encode_do` of an image; `mapped` is whether there is memory at its
address, from which the encoder copies it. -/
def Rig.encode (s : Rig) (env : Vpu.DoEnv) (mapped : Bool) (len : ℤ) : Rig × Outcome :=
  match Vpu.encodeDo env s.enc len with
  | .error _ => ({ s with quit := true }, .aborted)
  | .ok r =>
    if !mapped && s.enc.yuv420Imgsize ≠ 0 then ({ s with quit := true }, .aborted)
    else
      match r.frame with
      | none => ({ s with enc := r.handle, quit := true }, .none)
      | some frame => ({ s with enc := r.handle }, .picture frame)

/-- `convert_do` of an image and `encode_do` of what it returns. -/
def Rig.convert (s : Rig) (shot : Shot) (len : ℤ) : Rig × Outcome :=
  match Ipu.convertDo shot.queued s.cvt len with
  | .error _ => ({ s with quit := true }, .aborted)
  | .ok r =>
    match r.out with
    | none => ({ s with quit := true }, .none)
    | some out =>
      if out.2 ≤ 0 then (s, .none) else s.encode shot.env (out.1 ≠ Ipu.mapFailed) out.2

/-- One iteration, with the stages up to the encoder; `planar` is the format
that is not converted. An answer the driver cannot give has no step. -/
def Rig.iterate (planar : Bool) (s : Rig) (shot : Shot) : Option (Rig × Outcome) :=
  match Capture.captureGetData shot.get s.device with
  | none => none
  | some (device, r) =>
    let s := { s with device := device }
    match r.image with
    | none => some ({ s with quit := r.ret ≠ some Capture.eagain }, .none)
    | some image =>
      if image.len ≤ 0 then some (s, .none)
      else if planar then some (s.encode shot.env true image.len)
      else some (s.convert shot image.len)

/-- The loop. Once it is left an iteration does nothing. -/
def pipeline (planar : Bool) : Machine Rig Shot Outcome where
  step s shot := if s.quit then some (s, .none) else s.iterate planar shot

end Cktool

end Camkit
