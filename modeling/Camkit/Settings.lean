import Camkit.Ffmpeg.Model.Encode
import Camkit.Omx.Model.Encode
import Camkit.Vpu.Model.Encode
import Mathlib.Algebra.Group.Int.Defs
/-!
# Setting a parameter of an encoder

The setters of `encode.h` against `encode_open`, which configures a codec
with the same parameters. The three encoders each write a parameter in two
places, and two of the pairs do not agree: the FFmpeg encoder is opened
with bits a second and set in kilobits, and the OMX encoder is opened with
a frame rate of 16 fractional bits and set with one of none.
-/

namespace Camkit

open Vpu (EncParam)

/-! ## Encoders and their parameters -/

/-- The encoders. -/
inductive Backend where
  | ffmpeg
  | omx
  | vpu
  deriving DecidableEq, Repr

/-- The parameters that have a setter. -/
inductive Parameter where
  | bitrate
  | framerate
  | gop
  deriving DecidableEq, Repr

/-- `enc_param` with one of its fields set. -/
def Parameter.put (v : ℤ) (param : EncParam) : Parameter → EncParam
  | .bitrate => { param with bitrate := v }
  | .framerate => { param with fps := v }
  | .gop => { param with gop := v }

/-- A handle, with what its codec is configured with where that is not in
the handle. -/
inductive Encoder where
  | ffmpeg (h : Ffmpeg.EncHandle)
  | omx (h : Omx.EncHandle) (c : Omx.VideoEncode)
  | vpu (h : Vpu.EncHandle) (i : Vpu.EncInstance)

namespace Encoder

/-- The encoder it is a handle of. -/
def backend : Encoder → Backend
  | ffmpeg _ => .ffmpeg
  | omx _ _ => .omx
  | vpu _ _ => .vpu

/-- The handle is one `encode_open` returns for some parameters. -/
def OpenedWith (param : EncParam) : Encoder → Prop
  | ffmpeg h => ∃ env, Ffmpeg.encodeOpen env param = some h
  | omx h c => (∃ env, Omx.encodeOpen env param = some h) ∧ c = Omx.openedComponent param
  | vpu h i => (∃ env, (Vpu.encodeOpen env param).1 = some h) ∧ i = Vpu.encop param

/-- A setter, with what it returns; `none` where the encoder does not have
it. -/
def set (p : Parameter) (v : ℤ) (ok : Bool) : Encoder → Option (Encoder × ℤ)
  | ffmpeg h =>
    match p with
    | .bitrate => some (ffmpeg (Ffmpeg.encodeSetBitrate h v), 0)
    | .framerate => some (ffmpeg (Ffmpeg.encodeSetFramerate h v), 0)
    | .gop => none
  | omx h c =>
    match p with
    | .bitrate => some ((Omx.encodeSetBitrate c v ok).map (omx h) id)
    | .framerate => some ((Omx.encodeSetFramerate c v ok).map (omx h) id)
    | .gop => some ((Omx.encodeSetGop c v).map (omx h) id)
  | vpu h i =>
    match p with
    | .bitrate =>
      some ((Vpu.giveCommand i .setBitrate v ok).map (vpu (Vpu.encodeSetBitrate h v ok)) id)
    | .framerate =>
      some ((Vpu.giveCommand i .setFrameRate v ok).map (vpu (Vpu.encodeSetFramerate h v ok)) id)
    | .gop => some ((Vpu.giveCommand i .setGopNumber v ok).map (vpu (Vpu.encodeSetGop h v ok)) id)

end Encoder

/-- What a codec is configured with, as the codec has it. -/
inductive Value where
  | int (x : ℤ)
  | rational (num den : ℤ)
  | word (x : UInt32)
  deriving DecidableEq, Repr

/-- What the codec is configured with for a parameter. -/
def Encoder.value (p : Parameter) : Encoder → Value
  | .ffmpeg h =>
    match p with
    | .bitrate => .int h.ctx.bitRate
    | .framerate => .rational h.ctx.timeBase.1 h.ctx.timeBase.2
    | .gop => .int h.ctx.gopSize
  | .omx _ c =>
    match p with
    | .bitrate => .word c.bitrate
    | .framerate => .word c.framerate
    | .gop => .word c.nPFrames
  | .vpu _ i =>
    match p with
    | .bitrate => .int i.bitRate
    | .framerate => .int i.frameRateInfo
    | .gop => .int i.gopSize

/-- What `encode_open` multiplies a parameter by. -/
def scale : Backend → Parameter → ℤ
  | .ffmpeg, .bitrate => 1000
  | .omx, .bitrate => 1000
  | .omx, .framerate => 2 ^ 16
  | _, _ => 1

/-- The product is an `int`. -/
def NoOverflow (b : Backend) (p : Parameter) (v : ℤ) : Prop :=
  -2 ^ 31 ≤ v * scale b p ∧ v * scale b p < 2 ^ 31

instance (b : Backend) (p : Parameter) (v : ℤ) : Decidable (NoOverflow b p v) := by
  unfold NoOverflow
  infer_instance

/-- The setter scales the value as `encode_open` does. -/
def Scales (b : Backend) (p : Parameter) : Prop :=
  ¬ (b = .ffmpeg ∧ p = .bitrate) ∧ ¬ (b = .omx ∧ p = .framerate)

instance (b : Backend) (p : Parameter) : Decidable (Scales b p) := by
  unfold Scales
  infer_instance

/-! ## What is configured -/

/-- What `encode_open` configures for a parameter of value `v`. -/
def openedValue (v : ℤ) : Backend → Parameter → Value
  | .ffmpeg, .bitrate => .int (v * 1000)
  | .ffmpeg, .framerate => .rational 1 v
  | .ffmpeg, .gop => .int v
  | .omx, .bitrate => .word (UInt32.ofInt (v * 1000))
  | .omx, .framerate => .word (UInt32.ofInt (v * 2 ^ 16))
  | .omx, .gop => .word (UInt32.ofInt (v - 1))
  | .vpu, _ => .int v

/-- What a setter that returns 0 configures. -/
def setValue (v : ℤ) : Backend → Parameter → Value
  | .ffmpeg, .bitrate => .int v
  | .omx, .framerate => .word (UInt32.ofInt v)
  | b, p => openedValue v b p

variable {e e' e₂ : Encoder} {u : EncParam} {p : Parameter} {v : ℤ} {ok : Bool}

theorem ctx_of_open {env : Ffmpeg.OpenEnv} {h : Ffmpeg.EncHandle}
    (hopen : Ffmpeg.encodeOpen env u = some h) : h.ctx = Ffmpeg.openedContext u := by
  unfold Ffmpeg.encodeOpen at hopen
  split at hopen
  · split at hopen
    · exact absurd hopen (by simp)
    · split at hopen
      · exact absurd hopen (by simp)
      · obtain rfl := Option.some.inj hopen
        rfl
  · exact absurd hopen (by simp)

/-- **An encoder opened with `v`** is configured with the opening's value of
it. -/
theorem value_of_opened (hopen : e.OpenedWith (p.put v u)) :
    e.value p = openedValue v e.backend p := by
  cases e with
  | ffmpeg h =>
    obtain ⟨env, hopen⟩ := hopen
    cases p with
    | bitrate => exact congrArg (fun ctx => Value.int ctx.bitRate) (ctx_of_open hopen)
    | framerate =>
      exact congrArg (fun ctx => Value.rational ctx.timeBase.1 ctx.timeBase.2) (ctx_of_open hopen)
    | gop => exact congrArg (fun ctx => Value.int ctx.gopSize) (ctx_of_open hopen)
  | omx h c =>
    obtain ⟨-, rfl⟩ := hopen
    cases p with
    | bitrate => rfl
    | framerate => rfl
    | gop => rfl
  | vpu h i =>
    obtain ⟨-, rfl⟩ := hopen
    cases p with
    | bitrate => rfl
    | framerate => rfl
    | gop => rfl

/-- **A setter that returns 0** configures the setter's value, and the
encoder stays what it is. -/
theorem value_of_set (hset : e.set p v ok = some (e', 0)) :
    e'.value p = setValue v e.backend p := by
  have hne : (-1 : ℤ) ≠ 0 := by omega
  cases e with
  | ffmpeg h =>
    cases p with
    | bitrate =>
      obtain ⟨rfl, -⟩ := Prod.mk.inj (Option.some.inj hset)
      rfl
    | framerate =>
      obtain ⟨rfl, -⟩ := Prod.mk.inj (Option.some.inj hset)
      rfl
    | gop => exact absurd hset (by simp [Encoder.set])
  | omx h c =>
    cases p with
    | bitrate =>
      obtain ⟨rfl, hret⟩ := Prod.mk.inj (Option.some.inj hset)
      cases ok with
      | false => exact absurd hret hne
      | true => rfl
    | framerate =>
      obtain ⟨rfl, hret⟩ := Prod.mk.inj (Option.some.inj hset)
      cases ok with
      | false => exact absurd hret hne
      | true => rfl
    | gop =>
      obtain ⟨-, hret⟩ := Prod.mk.inj (Option.some.inj hset)
      exact absurd hret hne
  | vpu h i =>
    cases ok with
    | false =>
      cases p with
      | bitrate => exact absurd (Prod.mk.inj (Option.some.inj hset)).2 hne
      | framerate => exact absurd (Prod.mk.inj (Option.some.inj hset)).2 hne
      | gop => exact absurd (Prod.mk.inj (Option.some.inj hset)).2 hne
    | true =>
      cases p with
      | bitrate =>
        obtain ⟨rfl, -⟩ := Prod.mk.inj (Option.some.inj hset)
        rfl
      | framerate =>
        obtain ⟨rfl, -⟩ := Prod.mk.inj (Option.some.inj hset)
        rfl
      | gop =>
        obtain ⟨rfl, -⟩ := Prod.mk.inj (Option.some.inj hset)
        rfl

/-- Where the setter scales as `encode_open` does, it configures the same. -/
theorem setValue_of_scales {b : Backend} (hs : Scales b p) :
    setValue v b p = openedValue v b p := by
  cases b with
  | ffmpeg =>
    cases p with
    | bitrate => exact absurd ⟨rfl, rfl⟩ hs.1
    | framerate => rfl
    | gop => rfl
  | omx =>
    cases p with
    | bitrate => rfl
    | framerate => exact absurd ⟨rfl, rfl⟩ hs.2
    | gop => rfl
  | vpu => rfl

/-- A frame rate that is a word of its own in both scales is 0. -/
theorem ofInt_eq_ofInt_shift (h₁ : -2 ^ 31 ≤ v * 2 ^ 16) (h₂ : v * 2 ^ 16 < 2 ^ 31) :
    UInt32.ofInt v = UInt32.ofInt (v * 2 ^ 16) ↔ v = 0 := by
  constructor
  · intro heq
    have hnat := congrArg UInt32.toNat heq
    rw [UInt32.ofInt, UInt32.ofInt, UInt32.toNat_ofNat', UInt32.toNat_ofNat'] at hnat
    omega
  · rintro rfl
    rw [Int.zero_mul]

/-- **Where the two values agree**: everywhere, but for the two pairs that
scale differently, which agree at 0. -/
theorem setValue_eq_iff {b : Backend} (hv : NoOverflow b p v) :
    setValue v b p = openedValue v b p ↔ v = 0 ∨ Scales b p := by
  by_cases hs : Scales b p
  · exact ⟨fun _ => .inr hs, fun _ => setValue_of_scales hs⟩
  · rw [or_iff_left hs]
    have hpair : (b = .ffmpeg ∧ p = .bitrate) ∨ (b = .omx ∧ p = .framerate) := by
      by_contra hne
      exact hs (not_or.mp hne)
    obtain ⟨rfl, rfl⟩ | ⟨rfl, rfl⟩ := hpair
    · rw [setValue, openedValue, Value.int.injEq]
      omega
    · rw [setValue, openedValue, Value.word.injEq]
      exact ofInt_eq_ofInt_shift hv.1 hv.2

/-- **Setting a parameter equals opening with it**, for the setters that
scale as `encode_open` does and for the value 0. Whatever the encoder was
opened with, once its setter of `v` returns 0 it is configured as one opened
with `v`. -/
theorem set_eq_open_iff (hset : e.set p v ok = some (e', 0)) (hv : NoOverflow e.backend p v)
    (hback : e₂.backend = e.backend) (hopen : e₂.OpenedWith (p.put v u)) :
    e'.value p = e₂.value p ↔ v = 0 ∨ Scales e.backend p := by
  rw [value_of_set hset, value_of_opened hopen, hback]
  exact setValue_eq_iff hv

/-- The parameters `cktool` has for a start. -/
def vga : EncParam := ⟨640, 480, 640, 480, 15, 1000, 12, 0⟩

/-- The bit rate of an OMX encoder, opened with 1000 kbps and set to 2000. -/
theorem set_eq_open_iff_omx :
    let e := Encoder.omx ⟨[], 0, vga⟩ (Omx.openedComponent vga)
    let e' := Encoder.omx ⟨[], 0, vga⟩ { Omx.openedComponent vga with bitrate := 2000000 }
    let u := Parameter.put 2000 vga .bitrate
    let e₂ := Encoder.omx ⟨[], 0, u⟩ (Omx.openedComponent u)
    e'.value .bitrate = e₂.value .bitrate ↔ (2000 : ℤ) = 0 ∨ Scales e.backend .bitrate :=
  set_eq_open_iff (u := vga)
    (show (Encoder.omx ⟨[], 0, vga⟩ (Omx.openedComponent vga)).set .bitrate 2000 true =
      some (_, 0) from rfl)
    (by decide) rfl ⟨⟨⟨true, true, true, true, true, true, true, .enabled, .enabled, true⟩, rfl⟩,
      rfl⟩

/-- **An FFmpeg encoder opened with 1000 kbps and set to 500** is configured
with 500 bits a second, one opened with 500 with 500000. -/
theorem not_set_eq_open :
    let env : Ffmpeg.OpenEnv :=
      ⟨true, true, true, true, some (.none, false), fun w h => w * h * 3 / 2, some []⟩
    ∃ h h₂, Ffmpeg.encodeOpen env vga = some h ∧
      Ffmpeg.encodeOpen env (Parameter.put 500 vga .bitrate) = some h₂ ∧
      (Encoder.ffmpeg h).set .bitrate 500 true =
        some (Encoder.ffmpeg (Ffmpeg.encodeSetBitrate h 500), 0) ∧
      (Encoder.ffmpeg (Ffmpeg.encodeSetBitrate h 500)).value .bitrate ≠
        (Encoder.ffmpeg h₂).value .bitrate := by
  refine ⟨_, _, rfl, rfl, rfl, ?_⟩
  decide

end Camkit
