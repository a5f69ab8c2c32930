import Camkit.Common.Machine
import Camkit.Ffmpeg.Model.Encode
import Camkit.Vpu.Headers
/-!
# A forced I picture

`encode_force_Ipic` sets a flag that the next `encode_do` submits and
resets, before it knows whether there will be a frame. So the first frame
that is encoded has the flag exactly if no `encode_do` fails before it. The
VPU's GOP counter, set to 0 by the same request, moves on with a frame
only.
-/

namespace Camkit

/-! ## The VPU -/

namespace Vpu

/-- One `encode_do`: what it submitted, at which GOP offset, and the frame
it returned, if any. -/
structure Attempt where
  submitted : VpuEncParam
  gopOffset : ℤ
  frame : Option Frame

/-- Calls of `encode_do` on a handle. One that aborts has no step. -/
def encodes : Machine EncHandle (DoEnv × ℤ) Attempt where
  step h e :=
    match encodeDo e.1 h e.2 with
    | .error _ => none
    | .ok res => some (res.handle, ⟨res.submitted, h.gopOffsetCounter, res.frame⟩)

/-- The VPU starts the frame, is done with it in time and returns it. -/
def DoEnv.Succeeds (env : DoEnv) : Prop :=
  (env.startOneFrame && waitLoop env.busy 0) = true ∧ env.outputInfo.isSome = true

variable {h h' : EncHandle} {e : DoEnv × ℤ} {a : Attempt}

/-- **One `encode_do`** submits the flag and clears it, fails or not. -/
theorem encodes_step (hstep : encodes.step h e = some (h', a)) :
    a.submitted = h.encParam ∧ h'.encParam.forceIPicture = false ∧
      a.gopOffset = h.gopOffsetCounter ∧ (a.frame.isSome = true ↔ e.1.Succeeds) ∧
      (a.frame = none → h'.gopOffsetCounter = h.gopOffsetCounter) := by
  simp only [encodes] at hstep
  split at hstep
  · exact absurd hstep (by simp)
  · rename_i res hdo
    obtain ⟨rfl, rfl⟩ := Prod.mk.inj (Option.some.inj hstep)
    unfold DoEnv.Succeeds
    unfold encodeDo at hdo
    split at hdo
    · exact absurd hdo (by simp)
    · simp only at hdo
      split at hdo
      · rename_i hok
        split at hdo
        · rename_i hinfo
          obtain rfl := Except.ok.inj hdo
          exact ⟨rfl, rfl, rfl, by simp [hinfo], fun _ => rfl⟩
        · rename_i hinfo
          obtain rfl := Except.ok.inj hdo
          exact ⟨rfl, rfl, rfl, by simp [hok, hinfo], fun h => absurd h (by simp)⟩
      · rename_i hfail
        obtain rfl := Except.ok.inj hdo
        exact ⟨rfl, rfl, rfl, by simp [hfail], fun _ => rfl⟩

/-- Failures leave the GOP offset where it is. -/
theorem gopOffset_of_failures {es : List (DoEnv × ℤ)} {as : List Attempt}
    (hfail : ∀ e ∈ es, ¬ e.1.Succeeds) (hrun : encodes.run h es = some (h', as)) :
    h'.gopOffsetCounter = h.gopOffsetCounter ∧ ∀ a ∈ as, a.frame = none := by
  refine Machine.run_forall (I := fun k => k.gopOffsetCounter = h.gopOffsetCounter)
    (P := fun e => ¬ e.1.Succeeds) ?_ rfl hfail hrun
  intro k e k' a hk he hstep
  obtain ⟨-, -, -, hframe, hcounter⟩ := encodes_step hstep
  have hnone : a.frame = none := by
    cases hf : a.frame with
    | none => rfl
    | some frame => exact absurd (hframe.mp (by rw [hf]; rfl)) he
  exact ⟨(hcounter hnone).trans hk, hnone⟩

/-- The first success after `encode_force_Ipic` has the flag if nothing
failed before it. -/
theorem forced_of_run {failed : List (DoEnv × ℤ)} {last : DoEnv × ℤ} {as : List Attempt}
    {a : Attempt} (hfail : ∀ e ∈ failed, ¬ e.1.Succeeds) (hlast : last.1.Succeeds)
    (hrun : encodes.run (encodeForceIpic h) (failed ++ [last]) = some (h', as ++ [a])) :
    ((∀ c ∈ as, c.frame = none) ∧ a.frame.isSome = true) ∧ a.gopOffset = 0 ∧
      (a.submitted.forceIPicture = true ∧ a.gopOffset = 0 ↔ failed = []) := by
  obtain ⟨h₁, as₁, a₁, hrun₁, hstep, heq⟩ := Machine.run_concat.mp hrun
  obtain ⟨rfl, ha⟩ := List.append_inj' heq rfl
  obtain rfl := (List.cons.inj ha).1
  obtain ⟨hcounter, hnone⟩ := gopOffset_of_failures hfail hrun₁
  obtain ⟨-, -, hoffset, hframe, -⟩ := encodes_step hstep
  have hzero : a.gopOffset = 0 := hoffset.trans hcounter
  have honce := Machine.run_submits_once (fun h => h.encParam.forceIPicture = true)
    (fun a => a.submitted.forceIPicture = true) (fun s e s' o hs => ?_)
    (show (encodeForceIpic h).encParam.forceIPicture = true from rfl) hrun
  · exact ⟨⟨hnone, hframe.mpr hlast⟩, hzero, (and_iff_left hzero).trans honce⟩
  · obtain ⟨hsub, hclear, -⟩ := encodes_step hs
    exact ⟨by rw [hsub], by rw [hclear]; decide⟩

end Vpu

/-! ## FFmpeg -/

namespace Ffmpeg

/-- One `encode_do`: what it submitted, and the frame it returned, if any. -/
structure Attempt where
  submitted : AVFrame
  frame : Option Frame

/-- Calls of `encode_do` on a handle. One that aborts has no step. -/
def encodes : Machine EncHandle (DoEnv × List UInt8 × ℤ) Attempt where
  step h e :=
    match encodeDo e.1 h e.2.1 e.2.2 with
    | .error _ => none
    | .ok res => some (res.handle, ⟨res.submitted, res.frame⟩)

/-- `avcodec_encode_video2` succeeds. -/
def DoEnv.Succeeds (env : DoEnv) : Prop := 0 ≤ env.ret

variable {h h' : EncHandle} {e : DoEnv × List UInt8 × ℤ} {a : Attempt}

/-- **One `encode_do`** submits the picture type and clears it, fails or
not. -/
theorem encodes_step (hstep : encodes.step h e = some (h', a)) :
    a.submitted.pictType = h.frame.pictType ∧ h'.frame.pictType = .none ∧
      (a.frame.isSome = true ↔ e.1.Succeeds) := by
  simp only [encodes] at hstep
  split at hstep
  · exact absurd hstep (by simp)
  · rename_i res hdo
    obtain ⟨rfl, rfl⟩ := Prod.mk.inj (Option.some.inj hstep)
    unfold DoEnv.Succeeds
    unfold encodeDo at hdo
    split at hdo
    · exact absurd hdo (by simp)
    · simp only at hdo
      split at hdo
      · rename_i hret
        obtain rfl := Except.ok.inj hdo
        exact ⟨rfl, rfl, by simp [hret]⟩
      · rename_i hret
        split at hdo
        · obtain rfl := Except.ok.inj hdo
          exact ⟨rfl, rfl, by simpa using hret⟩
        · obtain rfl := Except.ok.inj hdo
          exact ⟨rfl, rfl, by simpa using hret⟩

theorem frames_of_failures {es : List (DoEnv × List UInt8 × ℤ)} {as : List Attempt}
    (hfail : ∀ e ∈ es, ¬ e.1.Succeeds) (hrun : encodes.run h es = some (h', as)) :
    ∀ a ∈ as, a.frame = none := by
  refine (Machine.run_forall (I := fun _ => True) (P := fun e => ¬ e.1.Succeeds) ?_ trivial hfail
    hrun).2
  intro k e k' a _ he hstep
  obtain ⟨-, -, hframe⟩ := encodes_step hstep
  refine ⟨trivial, ?_⟩
  cases hf : a.frame with
  | none => rfl
  | some frame => exact absurd (hframe.mp (by rw [hf]; rfl)) he

/-- The first success after `encode_force_Ipic` has the type if nothing
failed before it. -/
theorem forced_of_run {failed : List (DoEnv × List UInt8 × ℤ)} {last : DoEnv × List UInt8 × ℤ}
    {as : List Attempt} {a : Attempt} (hfail : ∀ e ∈ failed, ¬ e.1.Succeeds)
    (hlast : last.1.Succeeds)
    (hrun : encodes.run (encodeForceIpic h) (failed ++ [last]) = some (h', as ++ [a])) :
    ((∀ c ∈ as, c.frame = none) ∧ a.frame.isSome = true) ∧
      (a.submitted.pictType = .i ↔ failed = []) := by
  obtain ⟨h₁, as₁, a₁, hrun₁, hstep, heq⟩ := Machine.run_concat.mp hrun
  obtain ⟨rfl, ha⟩ := List.append_inj' heq rfl
  obtain rfl := (List.cons.inj ha).1
  obtain ⟨-, -, hframe⟩ := encodes_step hstep
  have honce := Machine.run_submits_once (fun h => h.frame.pictType = .i)
    (fun a => a.submitted.pictType = .i) (fun s e s' o hs => ?_)
    (show (encodeForceIpic h).frame.pictType = .i from rfl) hrun
  · exact ⟨⟨frames_of_failures hfail hrun₁, hframe.mpr hlast⟩, honce⟩
  · obtain ⟨hsub, hclear, -⟩ := encodes_step hs
    exact ⟨by rw [hsub], by rw [hclear]; decide⟩

end Ffmpeg

/-! ## Both encoders -/

/-- **A forced I picture is submitted exactly if no `encode_do` fails
first.** Let `h` be any handle of the VPU encoder and `k` any of FFmpeg's,
and let each run, after `encode_force_Ipic`, any calls of `encode_do` that
fail and then one that does not. That one has the flag exactly if it is the
first; and on the VPU it is at GOP offset 0. -/
theorem forcedIpic_iff {h h' : Vpu.EncHandle} {failed : List (Vpu.DoEnv × ℤ)}
    {last : Vpu.DoEnv × ℤ} {as : List Vpu.Attempt} {a : Vpu.Attempt} {k k' : Ffmpeg.EncHandle}
    {failed' : List (Ffmpeg.DoEnv × List UInt8 × ℤ)} {last' : Ffmpeg.DoEnv × List UInt8 × ℤ}
    {bs : List Ffmpeg.Attempt} {b : Ffmpeg.Attempt} (hfail : ∀ e ∈ failed, ¬ e.1.Succeeds)
    (hlast : last.1.Succeeds)
    (hrun : Vpu.encodes.run (Vpu.encodeForceIpic h) (failed ++ [last]) = some (h', as ++ [a]))
    (kfail : ∀ e ∈ failed', ¬ e.1.Succeeds) (klast : last'.1.Succeeds)
    (krun : Ffmpeg.encodes.run (Ffmpeg.encodeForceIpic k) (failed' ++ [last']) =
      some (k', bs ++ [b])) :
    (((∀ c ∈ as, c.frame = none) ∧ a.frame.isSome = true) ∧ a.gopOffset = 0 ∧
      (a.submitted.forceIPicture = true ∧ a.gopOffset = 0 ↔ failed = [])) ∧
    (((∀ c ∈ bs, c.frame = none) ∧ b.frame.isSome = true) ∧
      (b.submitted.pictType = .i ↔ failed' = [])) :=
  ⟨Vpu.forced_of_run hfail hlast hrun, Ffmpeg.forced_of_run kfail klast krun⟩

/-- `encode_open` of the FFmpeg encoder for frames of two by two. -/
def openTwo : Option Ffmpeg.EncHandle :=
  Ffmpeg.encodeOpen ⟨true, true, true, true, some (.none, true), fun w h => w * h * 3 / 2,
    some [0, 0, 0, 0, 0, 0]⟩ ⟨2, 2, 2, 2, 15, 400, 12, 0⟩

/-- A first `encode_do` that succeeds, on either encoder. -/
theorem forcedIpic_iff_first :
    (∃ h h' a, (Vpu.encodeOpen (.granting 2) ⟨640, 480, 640, 480, 15, 1000, 2, 0⟩).1 = some h ∧
      Vpu.encodes.run (Vpu.encodeForceIpic h) [(⟨true, 0, some ⟨0, 0, 10⟩⟩, 460800)] =
        some (h', [a]) ∧ a.submitted.forceIPicture = true ∧ a.gopOffset = 0) ∧
    (∃ h h' a, openTwo = some h ∧ Ffmpeg.encodes.run (Ffmpeg.encodeForceIpic h)
      [(⟨0, true, [0, 0, 1, 0x65], .i⟩, [1, 2, 3, 4, 5, 6], 6)] = some (h', [a]) ∧
      a.submitted.pictType = .i) := by
  have hsome : ((Vpu.encodeOpen (.granting 2) ⟨640, 480, 640, 480, 15, 1000, 2, 0⟩).1.bind
      fun h => (Vpu.encodes.run (Vpu.encodeForceIpic h)
        [(⟨true, 0, some ⟨0, 0, 10⟩⟩, 460800)]).map fun x => x.2.length) = some 1 := by
    decide +kernel
  have ksome : (openTwo.bind fun k => (Ffmpeg.encodes.run (Ffmpeg.encodeForceIpic k)
      [(⟨0, true, [0, 0, 1, 0x65], .i⟩, [1, 2, 3, 4, 5, 6], 6)]).map fun x => x.2.length) =
        some 1 := by
    decide +kernel
  obtain ⟨h, hopen, hmap⟩ := Option.bind_eq_some_iff.mp hsome
  obtain ⟨⟨h', as⟩, hrun, hlen⟩ := Option.map_eq_some_iff.mp hmap
  obtain ⟨a, rfl⟩ := List.length_eq_one_iff.mp hlen
  obtain ⟨k, kopen, kmap⟩ := Option.bind_eq_some_iff.mp ksome
  obtain ⟨⟨k', bs⟩, krun, klen⟩ := Option.map_eq_some_iff.mp kmap
  obtain ⟨b, rfl⟩ := List.length_eq_one_iff.mp klen
  have hlast : (⟨true, 0, some ⟨0, 0, 10⟩⟩ : Vpu.DoEnv).Succeeds := ⟨by decide, by decide⟩
  have klast : (⟨0, true, [0, 0, 1, 0x65], .i⟩ : Ffmpeg.DoEnv).Succeeds := le_refl (0 : ℤ)
  have hfail : ∀ e ∈ ([] : List (Vpu.DoEnv × ℤ)), ¬ e.1.Succeeds :=
    fun _ he => absurd he List.not_mem_nil
  have kfail : ∀ e ∈ ([] : List (Ffmpeg.DoEnv × List UInt8 × ℤ)), ¬ e.1.Succeeds :=
    fun _ he => absurd he List.not_mem_nil
  change Vpu.encodes.run _ ([] ++ [_]) = some (h', [] ++ [a]) at hrun
  change Ffmpeg.encodes.run _ ([] ++ [_]) = some (k', [] ++ [b]) at krun
  obtain ⟨⟨-, -, hflag⟩, -, kflag⟩ := forcedIpic_iff hfail hlast hrun kfail klast krun
  exact ⟨⟨h, h', a, hopen, hrun, hflag.mpr rfl⟩, k, k', b, kopen, krun, kflag.mpr rfl⟩

/-- **A failure takes the request with it**: the VPU does not start the
frame, or the codec reports an error, and the frame after that is submitted
as any other. -/
theorem not_forcedIpic_failure :
    (∃ h h' b a, (Vpu.encodeOpen (.granting 2) ⟨640, 480, 640, 480, 15, 1000, 2, 0⟩).1 = some h ∧
      Vpu.encodes.run (Vpu.encodeForceIpic h)
        [(⟨false, 0, none⟩, 460800), (⟨true, 0, some ⟨0, 0, 10⟩⟩, 460800)] = some (h', [b, a]) ∧
      b.frame = none ∧ a.frame.isSome = true ∧ a.submitted.forceIPicture = false) ∧
    (∃ h h' b a, openTwo = some h ∧ Ffmpeg.encodes.run (Ffmpeg.encodeForceIpic h)
      [(⟨-1, false, [], .none⟩, [1, 2, 3, 4, 5, 6], 6),
        (⟨0, true, [0, 0, 1, 0x41], .p⟩, [1, 2, 3, 4, 5, 6], 6)] = some (h', [b, a]) ∧
      b.frame = none ∧ a.frame.isSome = true ∧ a.submitted.pictType = .none) := by
  refine ⟨?_, ?_⟩
  · have hsome : ((Vpu.encodeOpen (.granting 2) ⟨640, 480, 640, 480, 15, 1000, 2, 0⟩).1.bind
        fun h => (Vpu.encodes.run (Vpu.encodeForceIpic h)
          [(⟨false, 0, none⟩, 460800), (⟨true, 0, some ⟨0, 0, 10⟩⟩, 460800)]).map fun x =>
            x.2.map fun a => (a.frame.isSome, a.submitted.forceIPicture)) =
              some [(false, true), (true, false)] := by decide +kernel
    obtain ⟨h, hopen, hmap⟩ := Option.bind_eq_some_iff.mp hsome
    obtain ⟨⟨h', as⟩, hrun, hread⟩ := Option.map_eq_some_iff.mp hmap
    obtain ⟨b, as, rfl, hb, hread⟩ := List.map_eq_cons_iff.mp hread
    obtain ⟨a, as, rfl, ha, hread⟩ := List.map_eq_cons_iff.mp hread
    obtain rfl := List.map_eq_nil_iff.mp hread
    obtain ⟨hframe, hflag⟩ := Prod.mk.inj ha
    have hnone : b.frame = none := by simpa using (Prod.mk.inj hb).1
    exact ⟨h, h', b, a, hopen, hrun, hnone, hframe, hflag⟩
  · exact ⟨_, _, _, _, rfl, rfl, rfl, rfl, rfl⟩

end Camkit
