import Camkit.Capture.Life
import Camkit.Cktool.Model.Options
import Camkit.Cktool.Model.Pipeline
import Camkit.Ipu.Release
import Camkit.Vpu.Geometry
/-!
# The tool — sizes along the pipeline

Every call of the loop on i.MX has its own idea of the size of an image: the
camera reports what the driver settled on, the converter and the encoder
compute theirs from the options, and end the process where an image has
another. The options give all of them one width and one height, so the
process goes on exactly where the driver's size is that of the format and
the encoder can take the height.
-/

namespace Camkit

namespace Cktool

open Capture (captureOpen captureStart captureGetData CapHandle CapParam OpenEnv)
open SoftConvert (CvtParam v4l2PixFmtYuyv v4l2PixFmtYuv420)

variable {x x' : Settings} {opts : List Opt} {w h : Int32}

/-! ## The options -/

/-- All settings have one width and one height, and the converter is to
convert the one format of a camera to the other. -/
structure Agreed (w h : Int32) (x : Settings) : Prop where
  capWidth : x.capp.width = w.toInt
  capHeight : x.capp.height = h.toInt
  cvtp : x.cvtp = ⟨w, h, v4l2PixFmtYuyv, w, h, v4l2PixFmtYuv420⟩
  srcWidth : x.encp.srcPicwidth = w.toInt
  srcHeight : x.encp.srcPicheight = h.toInt
  encWidth : x.encp.encPicwidth = w.toInt
  encHeight : x.encp.encPicheight = h.toInt
  videoWidth : x.tmsp.videoWidth = w

/-- **One option** leaves the settings agreed. -/
theorem Agreed.apply {opt : Opt} (hx : Agreed w h x) (happly : x.apply opt = .ok x') :
    ∃ w' h', Agreed w' h' x' := by
  obtain ⟨h₁, h₂, h₃, h₄, h₅, h₆, h₇, h₈⟩ := hx
  cases opt with
  | help => exact absurd happly (by simp [Settings.apply])
  | version => exact absurd happly (by simp [Settings.apply])
  | width value =>
    obtain rfl := Except.ok.inj happly
    refine ⟨value, h, rfl, h₂, ?_, rfl, h₅, rfl, h₇, rfl⟩
    rw [Settings.setWidth, h₃]
  | height value =>
    obtain rfl := Except.ok.inj happly
    refine ⟨w, value, h₁, rfl, ?_, h₄, rfl, h₆, rfl, h₈⟩
    rw [Settings.setHeight, h₃]
  | _ =>
    obtain rfl := Except.ok.inj happly
    exact ⟨w, h, h₁, h₂, h₃, h₄, h₅, h₆, h₇, h₈⟩

section Encoder

variable {env : Vpu.Env} {param : Vpu.EncParam} {enc e : Vpu.EncHandle} {len : ℤ}

/-- The handle as pictures leave it. -/
def Encoded (enc e : Vpu.EncHandle) : Prop :=
  ∃ encParam frameCounter gopOffsetCounter, e = { enc with
    encParam := encParam
    frameCounter := frameCounter
    gopOffsetCounter := gopOffsetCounter }

theorem Encoded.refl (enc : Vpu.EncHandle) : Encoded enc enc := ⟨_, _, _, rfl⟩

/-- **One picture** ends the process where the image is not taken, and
leaves the handle able to take what it took before. -/
theorem Encoded.encodeDo (env : Vpu.DoEnv) (len : ℤ) (he : Encoded enc e) :
    (∃ copy, Vpu.encodeFillData enc len = .ok copy) ∧
      (∃ r, Vpu.encodeDo env e len = .ok r ∧ Encoded enc r.handle) ∨
    (¬ ∃ copy, Vpu.encodeFillData enc len = .ok copy) ∧
      ∃ f, Vpu.encodeDo env e len = .error f := by
  obtain ⟨encParam, frameCounter, gopOffsetCounter, rfl⟩ := he
  set e : Vpu.EncHandle := { enc with
    encParam := encParam
    frameCounter := frameCounter
    gopOffsetCounter := gopOffsetCounter } with he
  have hsame : Vpu.encodeFillData e len = Vpu.encodeFillData enc len := rfl
  unfold Vpu.encodeDo
  rw [hsame]
  cases hfill : Vpu.encodeFillData enc len with
  | error f => exact .inr ⟨by rintro ⟨copy, hcopy⟩; exact absurd hcopy (by simp), f, rfl⟩
  | ok copy =>
    refine .inl ⟨⟨copy, rfl⟩, ?_⟩
    simp only
    split
    · split
      · exact ⟨_, rfl, _, _, _, rfl⟩
      · exact ⟨_, rfl, _, _, _, rfl⟩
    · exact ⟨_, rfl, _, _, _, rfl⟩

end Encoder

/-! ## The converter -/

section Iterations

variable {cap : CapHandle} {cvt : Ipu.CvtHandle} {enc : Vpu.EncHandle} {s s' : Rig} {out : Outcome}
variable {shot : Shot} {planar : Bool} {len : ℤ}

/-- What the handles keep from one iteration to the next. -/
structure Rigged (cap : CapHandle) (cvt : Ipu.CvtHandle) (enc : Vpu.EncHandle) (s : Rig) :
    Prop where
  cap : s.device.handle.mapped = cap.mapped
  cvt : s.cvt = cvt
  enc : Encoded enc s.enc

/-- The encoder takes an image of this size. -/
def Takes (enc : Vpu.EncHandle) (len : ℤ) : Prop := ∃ copy, Vpu.encodeFillData enc len = .ok copy

/-- Every call takes the camera's image, or what the one before has made of
it. -/
def Passes (planar : Bool) (cvt : Ipu.CvtHandle) (enc : Vpu.EncHandle) (len : ℤ) : Prop :=
  if planar then Takes enc len
  else len = cvt.ipuInsize ∧ cvt.ipuInbuf ≠ Ipu.mapFailed ∧ cvt.ipuOutbuf ≠ Ipu.mapFailed ∧
    Takes enc cvt.ipuOutsize

/-- An outcome on images that pass, or on images that do not. -/
def Outcome.Fair (passes : Prop) (out : Outcome) : Prop :=
  (passes → out ≠ .aborted) ∧ (¬ passes → ∀ frame, out ≠ .picture frame)

theorem Outcome.fair_none {passes : Prop} : Outcome.none.Fair passes :=
  ⟨fun _ => by simp, fun _ => by simp⟩

/-- **One picture**, from memory or not. -/
theorem Rigged.encode (env : Vpu.DoEnv) (mapped : Bool) (len : ℤ) (hs : Rigged cap cvt enc s)
    (himg : enc.yuv420Imgsize ≠ 0) :
    Rigged cap cvt enc (s.encode env mapped len).1 ∧
      (s.encode env mapped len).2.Fair (mapped = true ∧ Takes enc len) := by
  have hsize : s.enc.yuv420Imgsize = enc.yuv420Imgsize := by
    obtain ⟨_, _, _, henc⟩ := hs.enc
    rw [henc]
  unfold Rig.encode
  rcases hs.enc.encodeDo env len with ⟨htakes, r, hdo, henc⟩ | ⟨htakes, f, hdo⟩
  · rw [hdo, hsize]
    simp only
    cases mapped with
    | false =>
      rw [if_pos (by simpa using himg)]
      exact ⟨⟨hs.cap, hs.cvt, hs.enc⟩, fun h => absurd h.1 (by simp), fun _ => by simp⟩
    | true =>
      rw [if_neg (by simp)]
      cases r.frame with
      | none => exact ⟨⟨hs.cap, hs.cvt, henc⟩, Outcome.fair_none⟩
      | some frame =>
        exact ⟨⟨hs.cap, hs.cvt, henc⟩, fun _ => by simp, fun hnot => absurd ⟨rfl, htakes⟩ hnot⟩
  · rw [hdo]
    exact ⟨⟨hs.cap, hs.cvt, hs.enc⟩, fun h => absurd h.2 htakes, fun _ => by simp⟩

theorem Rigged.convert (hs : Rigged cap cvt enc s) (hin : cvt.ipuInsize ≠ 0)
    (himg : enc.yuv420Imgsize ≠ 0) :
    Rigged cap cvt enc (s.convert shot len).1 ∧
      (s.convert shot len).2.Fair (Passes false cvt enc len) := by
  have hpasses : Passes false cvt enc len ↔ len = cvt.ipuInsize ∧ cvt.ipuInbuf ≠ Ipu.mapFailed ∧
      cvt.ipuOutbuf ≠ Ipu.mapFailed ∧ Takes enc cvt.ipuOutsize := by
    rw [Passes, if_neg (by decide)]
  rw [hpasses]
  unfold Rig.convert Ipu.convertDo
  rw [hs.cvt]
  by_cases hlen : len ≠ cvt.ipuInsize
  · rw [if_pos hlen]
    exact ⟨⟨hs.cap, rfl, hs.enc⟩, fun h => absurd h.1 hlen, fun _ => by simp⟩
  · rw [if_neg hlen]
    by_cases hmap : cvt.ipuInbuf = Ipu.mapFailed
    · rw [if_pos ⟨hmap, hin⟩]
      exact ⟨⟨hs.cap, rfl, hs.enc⟩, fun h => absurd hmap h.2.1, fun _ => by simp⟩
    · rw [if_neg fun hand => hmap hand.1]
      simp only
      split
      · exact ⟨⟨hs.cap, rfl, hs.enc⟩, Outcome.fair_none⟩
      · rename_i out hout
        split
        · exact ⟨hs, Outcome.fair_none⟩
        · have hbuf : out = (cvt.ipuOutbuf, cvt.ipuOutsize) := by
            split at hout
            · exact (Option.some.inj hout).symm
            · exact absurd hout (by simp)
          rw [hbuf]
          obtain ⟨hs', hfair⟩ := hs.encode shot.env (cvt.ipuOutbuf ≠ Ipu.mapFailed)
            cvt.ipuOutsize himg
          rw [decide_eq_true_eq] at hfair
          refine ⟨hs', fun h => hfair.1 h.2.2, fun h => hfair.2 fun htakes => ?_⟩
          exact h ⟨not_not.mp hlen, hmap, htakes⟩

/-- **One iteration.** -/
theorem Rigged.step (hs : Rigged cap cvt enc s) (hin : cvt.ipuInsize ≠ 0)
    (himg : enc.yuv420Imgsize ≠ 0) (hstep : (pipeline planar).step s shot = some (s', out)) :
    Rigged cap cvt enc s' ∧ out.Fair (Passes planar cvt enc cap.imageSize) := by
  rw [pipeline] at hstep
  simp only at hstep
  split at hstep
  · obtain ⟨rfl, rfl⟩ := Prod.mk.inj (Option.some.inj hstep)
    exact ⟨hs, Outcome.fair_none⟩
  · unfold Rig.iterate at hstep
    split at hstep
    · exact absurd hstep (by simp)
    · rename_i device r hget
      obtain ⟨hsame, hwithin⟩ := Capture.within_captureGetData hget
      have hs' : Rigged cap cvt enc { s with device := device } :=
        ⟨hsame.trans hs.cap, hs.cvt, hs.enc⟩
      simp only at hstep
      split at hstep
      · obtain ⟨rfl, rfl⟩ := Prod.mk.inj (Option.some.inj hstep)
        exact ⟨⟨hs'.cap, hs'.cvt, hs'.enc⟩, Outcome.fair_none⟩
      · rename_i image himage
        have hlen : image.len = cap.imageSize := by
          have hout := hwithin.congr hs.cap.symm
          obtain ⟨ret, qbuf, got⟩ := r
          obtain rfl : got = some image := himage
          exact hout.2.2
        split at hstep
        · obtain ⟨rfl, rfl⟩ := Prod.mk.inj (Option.some.inj hstep)
          exact ⟨hs', Outcome.fair_none⟩
        · split at hstep
          · rename_i hplanar
            obtain ⟨rfl, rfl⟩ := Prod.mk.inj (Option.some.inj hstep)
            obtain ⟨hrigged, hfair⟩ := hs'.encode shot.env true image.len himg
            rw [and_iff_right rfl] at hfair
            rw [hplanar, Passes, if_pos rfl, ← hlen]
            exact ⟨hrigged, hfair⟩
          · rename_i hplanar
            obtain ⟨rfl, rfl⟩ := Prod.mk.inj (Option.some.inj hstep)
            rw [hlen, Bool.eq_false_iff.mpr hplanar]
            exact hs'.convert hin himg

end Iterations

/-! ## Runs -/

/-- The sizes fit: the encoder has made nothing of the height, and the
driver's image is that of the format, or at least as large where it is not
converted. The buffers of the converter have been mapped. -/
def Fits (x : Settings) (sizeimage : ℤ) (cvt : Ipu.CvtHandle) : Prop :=
  16 ∣ x.capp.height ∧
    if x.capp.pixfmt = v4l2PixFmtYuv420 then
      (x.capp.width * x.capp.height * 3).tdiv 2 ≤ sizeimage
    else
      sizeimage = 2 * (x.capp.width * x.capp.height) ∧ cvt.ipuInbuf ≠ Ipu.mapFailed ∧
        cvt.ipuOutbuf ≠ Ipu.mapFailed

end Cktool

end Camkit
