import Camkit.Cktool.Model.Main
import Camkit.RtpPack.RoundTrip
import Camkit.Vpu.Headers
/-!
# The tool — what it delivers

What a run of the loop is for: in front of every `g`-th picture the
parameter sets, and each picture once, in the order of the images. `Sink`
says what a way of giving buffers away has to keep for that, and the loop is
followed once for all of them. The output file is one sink, and the
packets with a receiver behind them are another.
-/

namespace Camkit

namespace Cktool

open RtpPack

variable {o : Options} {T : Target} {fuel n : ℕ} {it : Iteration} {its : List Iteration}
variable {pac : PacHandle} {h : Vpu.EncHandle} {st : Vpu.Statics} {s : Tool} {k : ℕ}
variable {outs : List Output} {us us' : List (StartCode × NalUnit)} {b : Buffer}
variable {clock : ℕ → Timeb}

/-! ## What is to be delivered -/

/-- The iteration leaves the loop before it comes to the encoder. -/
def Iteration.Leaves (it : Iteration) (o : Options) : Prop :=
  it.capRet < 0 ∨ it.capRet = 0 ∧ 0 < it.cap.len ∧ o.planar = false ∧ it.cvtRet < 0

/-- The iteration has an image for the encoder. -/
def Iteration.Reaches (it : Iteration) (o : Options) : Prop :=
  it.capRet = 0 ∧ 0 < it.cap.len ∧ (o.planar = false → 0 ≤ it.cvtRet ∧ 0 < it.cvt.len)

instance : Decidable (it.Leaves o) := by unfold Iteration.Leaves; infer_instance

instance : Decidable (it.Reaches o) := by unfold Iteration.Reaches; infer_instance

/-- The iterations with an image for the encoder, while the loop goes on. -/
def images (o : Options) (its : List Iteration) : List Iteration :=
  (its.takeWhile fun it => ¬ it.Leaves o).filter fun it => it.Reaches o

/-- The picture the encoder makes of the image. -/
def Iteration.picture (it : Iteration) : Option Vpu.EncOutputInfo :=
  if it.env.startOneFrame && Vpu.waitLoop it.env.busy 0 then it.env.outputInfo else none

/-- The units of the headers and of the frame of an iteration. -/
abbrev Units : Type := Option Vpu.HeaderType → List (StartCode × NalUnit)

/-- The units of a frame, which may be empty. -/
def frameUnits (units : Units) (info : Vpu.EncOutputInfo) : List (StartCode × NalUnit) :=
  if info.bitstreamSize ≤ 0 then [] else units none

/-- **What is to be delivered** of some images, `k` pictures having been
encoded before: the parameter sets in front of every `g`-th picture, and
the pictures up to the first one that fails. -/
def program (g : ℤ) (mvc : Bool) (units : Iteration → Units) :
    ℕ → List Iteration → List (StartCode × NalUnit)
  | _, [] => []
  | k, it :: its =>
    (if g ∣ k then (Vpu.group mvc).flatMap fun t => units it (some t) else []) ++
      match it.picture with
      | none => []
      | some info => frameUnits (units it) info ++ program g mvc units (k + 1) its

/-! ## What the encoder hands out -/

/-- A buffer holds some units, each behind its start code. -/
def Buffer.Holds (b : Buffer) (us : List (StartCode × NalUnit)) : Prop :=
  us ≠ [] ∧ ∃ a, b.addr = some a ∧ b.len = (annexB us).length ∧
    b.mem.bytes a (annexB us).length = annexB us

/-- The address the encoder returns for one of the VPU's. -/
def virtual (h : Vpu.EncHandle) (buf : UInt32) : UInt32 := buf + h.virtBsbufAddr - h.phyBsbufAddr

/-- **What the VPU hands out** in an iteration holds units, and no buffer is
longer than the calls allowed for it. -/
structure Coded (h : Vpu.EncHandle) (fuel : ℕ) (it : Iteration) (units : Units) : Prop where
  header : ∀ t, Buffer.Holds
    ⟨it.headerMem t, pointer (virtual h (it.give t).buf), (it.give t).size⟩ (units (some t))
  frame : ∀ info ∈ it.env.outputInfo, 0 < info.bitstreamSize → Buffer.Holds
    ⟨it.frameMem, pointer (virtual h info.bitstreamBuffer), info.bitstreamSize⟩ (units none)
  length : ∀ x, (annexB (units x)).length < fuel

/-! ## Sinks -/

/-- A way of giving buffers away keeps `I`, which says what has been made of
the units so far: it takes each buffer, and adds its units. -/
def Sink (o : Options) (T : Target) (fuel : ℕ)
    (I : PacHandle → List Output → List (StartCode × NalUnit) → Prop) : Prop :=
  ∀ pac outs us b us' clock, I pac outs us → b.Holds us' → (annexB us').length < fuel →
    ∃ pac' out, pass o T fuel pac b clock = some (pac', out) ∧ I pac' (outs ++ out) (us ++ us')

variable {I : PacHandle → List Output → List (StartCode × NalUnit) → Prop} {units : Units}

/-- **The loop over the headers**, where the counter is 0: it ends, and gives
away what remains of the group. -/
theorem headerLoop_of_zero (hsink : Sink o T fuel I) (hcoded : Coded h fuel it units)
    (hc : h.gopOffsetCounter = 0) (hlatch : Vpu.Latched st)
    (hn : (Vpu.remaining h.mvcExtension st).length < n) (hI : I pac outs us) :
    ∃ pac' out, headerLoop o T fuel it h n st pac = some (.fresh, pac', out) ∧
      I pac' (outs ++ out)
        (us ++ (Vpu.remaining h.mvcExtension st).flatMap fun t => units (some t)) := by
  induction n generalizing st pac outs us with
  | zero => omega
  | succ n ih =>
    -- the latch ends the loop, and a stage leaves one header less
    rw [headerLoop]
    cases hend : st.stageEnd with
    | true =>
      have hfresh : { st with stageEnd := false } = Vpu.Statics.fresh := by
        rw [hlatch hend]
        rfl
      rw [Vpu.encodeGetHeaders_of_end hc hend, hfresh, Vpu.remaining, if_pos hend]
      refine ⟨pac, [], rfl, ?_⟩
      rw [List.flatMap_nil, List.append_nil, List.append_nil]
      exact hI
    | false =>
      obtain ⟨hcons, hlatch'⟩ := Vpu.remaining_eq_cons h.mvcExtension hend
      rw [hcons, List.length_cons] at hn
      rw [hcons, List.flatMap_cons]
      have hget : Vpu.encodeGetHeaders it.give st h =
          (st.nextStage.next h.mvcExtension st, some ⟨st.nextStage.headerType.1,
            virtual h (it.give st.nextStage.headerType.1).buf,
            (it.give st.nextStage.headerType.1).size, st.nextStage.headerType.2⟩) := by
        unfold Vpu.encodeGetHeaders
        rw [if_neg (not_not_intro hc), if_neg (by rw [hend]; decide)]
        rfl
      obtain ⟨pac₁, out₁, hpass, hI₁⟩ := hsink pac outs us _ _
        (it.headerClock st.nextStage.headerType.1) hI
        (hcoded.header st.nextStage.headerType.1) (hcoded.length _)
      obtain ⟨pac₂, out₂, hloop, hI₂⟩ := ih hlatch' (by omega) hI₁
      rw [hget]
      simp only [Iteration.header, hpass, hloop]
      refine ⟨pac₂, out₁ ++ out₂, rfl, ?_⟩
      rw [← List.append_assoc, ← List.append_assoc]
      exact hI₂

/-- **The headers of an iteration**, from fresh statics. -/
theorem headerLoop_fresh (hsink : Sink o T fuel I) (hcoded : Coded h fuel it units)
    (hfuel : 5 ≤ n) (hI : I pac outs us) :
    ∃ pac' out, headerLoop o T fuel it h n .fresh pac = some (.fresh, pac', out) ∧
      I pac' (outs ++ out) (us ++ if h.gopOffsetCounter = 0 then
        (Vpu.group h.mvcExtension).flatMap fun t => units (some t) else []) := by
  by_cases hc : h.gopOffsetCounter = 0
  · rw [if_pos hc, ← Vpu.remaining_fresh]
    have hlen := Vpu.length_group h.mvcExtension
    refine headerLoop_of_zero hsink hcoded hc (fun hend => absurd hend (by decide)) ?_ hI
    rw [Vpu.remaining_fresh]
    omega
  · rw [if_neg hc]
    obtain ⟨n, rfl⟩ : ∃ k, n = k + 1 := ⟨n - 1, by omega⟩
    refine ⟨pac, [], ?_, ?_⟩
    · rw [headerLoop, Vpu.encodeGetHeaders_of_ne hc]
    · rw [List.append_nil, List.append_nil]
      exact hI

/-! ## The encoder, from image to image -/

/-- The encoder after `k` pictures, `h` being as it was opened. -/
structure Encoding (h : Vpu.EncHandle) (k : ℕ) (e : Vpu.Encoder) : Prop where
  fresh : e.statics = .fresh
  counter : e.handle.gopOffsetCounter = k % max h.params.gop 1
  same : ∃ encParam frameCounter, e.handle = { h with
    encParam := encParam
    frameCounter := frameCounter
    gopOffsetCounter := e.handle.gopOffsetCounter }

/-- `gop_offset_counter` wraps at the GOP size, or at 1 if that is less. -/
theorem wrap_max {gop : ℤ} (k : ℕ) :
    (if (k : ℤ) % max gop 1 + 1 ≥ gop then 0 else (k : ℤ) % max gop 1 + 1) =
      ((k + 1 : ℕ) : ℤ) % max gop 1 := by
  rcases le_or_gt 1 gop with hle | hlt
  · rw [max_eq_left hle]
    exact Vpu.wrap_emod hle k
  · rw [max_eq_right (by omega), Int.emod_one, Int.emod_one, if_pos (by omega)]

/-- **One picture**, where the image is not refused. -/
theorem Encoding.encodeDo {e : Vpu.Encoder} {len : ℤ} (he : Encoding h k e)
    (hfill : ∃ copy, Vpu.encodeFillData h len = .ok copy) :
    ∃ result, Vpu.encodeDo it.env e.handle len = .ok result ∧
      match it.picture with
      | none => result.frame = none
      | some info => Encoding h (k + 1) ⟨.fresh, result.handle⟩ ∧
        result.frame = some ⟨virtual h info.bitstreamBuffer, info.bitstreamSize,
          Vpu.picTypeOf info.picType⟩ := by
  obtain ⟨copy, hcopy⟩ := hfill
  obtain ⟨encParam, frameCounter, hsame⟩ := he.same
  have hcounter := he.counter
  have hfill : Vpu.encodeFillData e.handle len = .ok copy := by rw [hsame]; exact hcopy
  unfold Vpu.encodeDo Iteration.picture
  simp only [hfill]
  split
  · cases it.env.outputInfo with
    | none => exact ⟨_, rfl, rfl⟩
    | some info =>
      refine ⟨_, rfl, ⟨rfl, ?_, ?_⟩, ?_⟩
      · rw [← wrap_max, ← hcounter]
        have hgop : e.handle.params = h.params := by rw [hsame]
        rw [← hgop]
        rfl
      · refine ⟨{ encParam with forceIPicture := false }, frameCounter + 1, ?_⟩
        rw [hsame]
        rfl
      · rw [hsame]
        rfl
  · exact ⟨_, rfl, rfl⟩

/-! ## Iterations -/

theorem iterate_of_leaves (h₁ : o.stage &&& 1 ≠ 0) (hleaves : it.Leaves o) :
    iterate o T fuel s it = some ({ s with quit := true }, []) := by
  unfold iterate
  rcases hleaves with hcap | ⟨hcap, hlen, hplanar, hcvt⟩
  · rw [if_pos hcap]
  · rw [if_neg (by omega), if_neg (by omega), if_neg h₁, if_pos ⟨by simp [hplanar], hcvt⟩]

theorem iterate_of_skips (h₁ : o.stage &&& 1 ≠ 0) (hleaves : ¬ it.Leaves o)
    (hreaches : ¬ it.Reaches o) : iterate o T fuel s it = some (s, []) := by
  unfold Iteration.Leaves at hleaves
  unfold Iteration.Reaches at hreaches
  unfold iterate
  rw [if_neg fun hcap => hleaves (.inl hcap)]
  by_cases hcap : it.capRet ≠ 0 ∨ it.cap.len ≤ 0
  · rw [if_pos hcap]
  · obtain ⟨hret, hlen⟩ := not_or.mp hcap
    have hret : it.capRet = 0 := not_not.mp hret
    cases hplanar : o.planar with
    | true => exact absurd ⟨hret, by omega, fun hp => by simp [hplanar] at hp⟩ hreaches
    | false =>
      have hcvt : ¬ it.cvtRet < 0 := fun hlt => hleaves (.inr ⟨hret, by omega, hplanar, hlt⟩)
      have hcvtlen : it.cvt.len ≤ 0 := by
        by_contra hpos
        exact hreaches ⟨hret, by omega, fun _ => ⟨by omega, by omega⟩⟩
      rw [if_neg hcap, if_neg h₁, if_neg fun hand => hcvt hand.2, if_pos ⟨by simp, hcvtlen⟩]

theorem iterate_of_reaches (h₁ : o.stage &&& 1 ≠ 0) (h₂ : o.stage &&& 2 ≠ 0)
    (hreaches : it.Reaches o) : iterate o T fuel s it = encodeImage o T fuel s it := by
  obtain ⟨hret, hlen, hcvt⟩ := hreaches
  unfold iterate
  rw [if_neg (by omega), if_neg (by omega), if_neg h₁]
  cases hplanar : o.planar with
  | true => simp [h₂]
  | false =>
    obtain ⟨hcvtret, hcvtlen⟩ := hcvt hplanar
    rw [if_neg fun hand => absurd hand.2 (by omega), if_neg fun hand => absurd hand.2 (by omega),
      if_neg h₂]

/-- **An image at the encoder**: the parameter sets where it is their turn,
and the picture; a picture that fails leaves the loop. -/
theorem encodeImage_of_encoding (hsink : Sink o T fuel I) (hcoded : Coded h fuel it units)
    (hfuel : 5 ≤ fuel) (hfill : ∃ copy, Vpu.encodeFillData h (it.image o).len = .ok copy)
    (he : Encoding h k s.enc) (hI : I s.pac outs us) :
    ∃ s' out us', encodeImage o T fuel s it = some (s', out) ∧ I s'.pac (outs ++ out) (us ++ us') ∧
      us' = (if max h.params.gop 1 ∣ (k : ℤ) then
        (Vpu.group h.mvcExtension).flatMap fun t => units (some t) else []) ++
          (it.picture.elim [] (frameUnits units)) ∧
      match it.picture with
      | none => s'.quit = true
      | some _ => s'.quit = false ∧ Encoding h (k + 1) s'.enc := by
  obtain ⟨encParam, frameCounter, hsame⟩ := he.same
  -- the handle gives the headers the one opened gives
  have hcoded' : Coded s.enc.handle fuel it units := by
    rw [hsame]
    exact ⟨hcoded.header, hcoded.frame, hcoded.length⟩
  have hmvc : s.enc.handle.mvcExtension = h.mvcExtension := by rw [hsame]
  have hzero : s.enc.handle.gopOffsetCounter = 0 ↔ max h.params.gop 1 ∣ (k : ℤ) := by
    rw [he.counter]
    exact Int.dvd_iff_emod_eq_zero.symm
  obtain ⟨pac₁, out₁, hloop, hI₁⟩ := headerLoop_fresh hsink hcoded' hfuel hI
  simp only [hmvc, hzero] at hI₁
  obtain ⟨result, hdo, hresult⟩ :
      ∃ result, Vpu.encodeDo it.env s.enc.handle (it.image o).len = .ok result ∧ _ :=
    he.encodeDo hfill
  unfold encodeImage
  rw [he.fresh, hloop]
  simp only [hdo]
  cases hpicture : it.picture with
  | none =>
    rw [hpicture] at hresult
    simp only at hresult
    simp only [hresult]
    refine ⟨_, _, _, rfl, ?_, rfl, rfl⟩
    rw [Option.elim_none, List.append_nil]
    exact hI₁
  | some info =>
    rw [hpicture] at hresult
    obtain ⟨he', hframe⟩ := hresult
    simp only [hframe, Option.elim_some, frameUnits]
    by_cases hlen : info.bitstreamSize ≤ 0
    · rw [if_pos hlen, if_pos hlen]
      refine ⟨_, _, _, rfl, ?_, rfl, rfl, he'⟩
      rw [List.append_nil]
      exact hI₁
    · have hinfo : info ∈ it.env.outputInfo := by
        unfold Iteration.picture at hpicture
        split at hpicture
        · exact hpicture
        · exact absurd hpicture (by simp)
      obtain ⟨pac₂, out₂, hpass, hI₂⟩ := hsink _ _ _ _ _ it.frameClock hI₁
        (hcoded.frame info hinfo (by omega)) (hcoded.length none)
      rw [if_neg hlen, if_neg hlen]
      simp only [Iteration.frame, hpass]
      refine ⟨_, _, _, rfl, ?_, rfl, rfl, he'⟩
      rw [← List.append_assoc, ← List.append_assoc]
      exact hI₂

/-! ## Runs -/

/-- Once the loop is left, nothing more comes. -/
theorem run_of_quit (hquit : s.quit = true) (its : List Iteration) :
    ∃ outs, (loop o T fuel).run s its = some (s, outs) ∧ outs.flatten = [] := by
  induction its with
  | nil => exact ⟨[], rfl, rfl⟩
  | cons it its ih =>
    obtain ⟨outs, hrun, hnil⟩ := ih
    exact ⟨[] :: outs, Machine.run_cons.mpr ⟨s, [], outs, if_pos hquit, hrun, rfl⟩, hnil⟩

variable {coded : Iteration → Units}

/-- **What any sink is given over a run** is what is to be delivered. The
induction is on the iterations; the pictures encoded so far are what it
counts. -/
theorem run_of_sink (h₁ : o.stage &&& 1 ≠ 0) (h₂ : o.stage &&& 2 ≠ 0) (hsink : Sink o T fuel I)
    (hfuel : 5 ≤ fuel) (hcoded : ∀ it ∈ its, Coded h fuel it (coded it))
    (hfill : ∀ it ∈ images o its, ∃ copy, Vpu.encodeFillData h (it.image o).len = .ok copy)
    (hquit : s.quit = false) (he : Encoding h k s.enc) (hI : I s.pac outs us) :
    ∃ s' outs', (loop o T fuel).run s its = some (s', outs') ∧
      I s'.pac (outs ++ outs'.flatten)
        (us ++ program (max h.params.gop 1) h.mvcExtension coded k (images o its)) := by
  induction its generalizing s outs us k with
  | nil =>
    refine ⟨s, [], rfl, ?_⟩
    rw [images, List.takeWhile_nil, List.filter_nil, program, List.append_nil,
      List.flatten_nil, List.append_nil]
    exact hI
  | cons it its ih =>
    obtain ⟨hit, hits⟩ := List.forall_mem_cons.mp hcoded
    have hstep : (loop o T fuel).step s it = iterate o T fuel s it := if_neg (by simp [hquit])
    by_cases hleaves : it.Leaves o
    · obtain ⟨outs', hrun, hnil⟩ :=
        run_of_quit (o := o) (T := T) (s := { s with quit := true }) rfl its
      rw [iterate_of_leaves h₁ hleaves] at hstep
      refine ⟨_, _, Machine.run_cons.mpr ⟨_, _, _, hstep, hrun, rfl⟩, ?_⟩
      rw [List.flatten_cons, hnil, images, List.takeWhile_cons_of_neg (by simpa using hleaves),
        List.filter_nil, program, List.append_nil, List.append_nil, List.append_nil]
      exact hI
    · have htake : images o (it :: its) =
          if it.Reaches o then it :: images o its else images o its := by
        rw [images, List.takeWhile_cons_of_pos (by simpa using hleaves), List.filter_cons]
        simp only [decide_eq_true_eq]
        rfl
      by_cases hreaches : it.Reaches o
      · rw [if_pos hreaches] at htake
        rw [htake] at hfill ⊢
        obtain ⟨hfillIt, hfillIts⟩ := List.forall_mem_cons.mp hfill
        obtain ⟨s₁, out, us₁, hencode, hI₁, rfl, hnext⟩ :=
          encodeImage_of_encoding hsink hit hfuel hfillIt he hI
        rw [iterate_of_reaches h₁ h₂ hreaches, hencode] at hstep
        rw [program]
        cases hpicture : it.picture with
        | none =>
          rw [hpicture] at hnext hI₁
          obtain ⟨outs', hrun, hnil⟩ : ∃ outs', (loop o T fuel).run _ its = some (_, outs') ∧ _ :=
            run_of_quit hnext its
          refine ⟨_, _, Machine.run_cons.mpr ⟨_, _, _, hstep, hrun, rfl⟩, ?_⟩
          rw [List.flatten_cons, hnil, List.append_nil]
          exact hI₁
        | some info =>
          rw [hpicture] at hnext hI₁
          obtain ⟨s₂, outs', hrun, hI₂⟩ := ih hits hfillIts hnext.1 hnext.2 hI₁
          refine ⟨s₂, _, Machine.run_cons.mpr ⟨_, _, _, hstep, hrun, rfl⟩, ?_⟩
          rw [List.flatten_cons, ← List.append_assoc]
          simpa only [Option.elim_some, List.append_assoc] using hI₂
      · rw [if_neg hreaches] at htake
        rw [htake] at hfill ⊢
        rw [iterate_of_skips h₁ hleaves hreaches] at hstep
        obtain ⟨s₂, outs', hrun, hI₂⟩ := ih hits hfill hquit he hI
        refine ⟨s₂, _, Machine.run_cons.mpr ⟨_, _, _, hstep, hrun, rfl⟩, ?_⟩
        rw [List.flatten_cons, List.nil_append]
        exact hI₂

end Cktool

end Camkit
