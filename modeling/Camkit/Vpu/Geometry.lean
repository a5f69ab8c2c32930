import Camkit.Vpu.Model.Encode
import Mathlib.Tactic.Ring
import Mathlib.Tactic.Linarith
/-!
# VPU encoder — the picture geometry

Three functions compute the size of the source picture: the frame buffer
has the dimensions rounded up to 16, `prepare_encode` takes the raw ones
and refuses a width that is no multiple of 16, and `encode_fill_data`
aborts where the two differ. Nothing refuses the height.
-/

namespace Camkit

namespace Vpu

variable {env : Env} {o o' : Opening} {h : EncHandle} {param : EncParam} {i k n : ℕ} {b : BufId}
variable {width height len : ℤ} {mvCol : Bool} {log : List Event}

/-! ## One allocation -/

theorem setFb_self : (setFb i b h).fb i = ⟨i, (h.myfbpool b).addrY, (h.myfbpool b).addrCb,
    (h.myfbpool b).addrCr, (h.myfbpool b).strideY, (h.myfbpool b).strideC⟩ :=
  Function.update_self ..

theorem setPfbpool_self {p : Option BufId} : (setPfbpool i p h).pfbpool i = p :=
  Function.update_self ..

theorem setFramebuf_self {mfb : MyFrameBuf} : (setFramebuf b mfb h).myfbpool b = mfb :=
  Function.update_self ..

/-- What an allocation leaves alone. -/
structure SameFrame (h h' : EncHandle) : Prop where
  params : h'.params = h.params
  srcFbid : h'.srcFbid = h.srcFbid
  minFbCount : h'.minFbCount = h.minFbCount
  gopOffsetCounter : h'.gopOffsetCounter = h.gopOffsetCounter
  mvcExtension : h'.mvcExtension = h.mvcExtension

theorem SameFrame.refl (h : EncHandle) : SameFrame h h := ⟨rfl, rfl, rfl, rfl, rfl⟩

theorem SameFrame.trans {h₁ h₂ h₃ : EncHandle} (h₁₂ : SameFrame h₁ h₂) (h₂₃ : SameFrame h₂ h₃) :
    SameFrame h₁ h₃ :=
  ⟨h₂₃.params.trans h₁₂.params, h₂₃.srcFbid.trans h₁₂.srcFbid,
    h₂₃.minFbCount.trans h₁₂.minFbCount, h₂₃.gopOffsetCounter.trans h₁₂.gopOffsetCounter,
    h₂₃.mvcExtension.trans h₁₂.mvcExtension⟩

/-- **A frame buffer allocated** has the layout its dimensions give it. -/
theorem framebufAlloc_some (halloc : framebufAlloc env k o width height mvCol = (o', some b)) :
    SameFrame o.handle o'.handle ∧ ∃ mfb phys virt,
      o'.handle.myfbpool b = layoutFramebuf mfb width height mvCol phys virt := by
  unfold framebufAlloc at halloc
  simp only at halloc
  split at halloc
  · exact absurd (Prod.mk.inj halloc).2 (by simp)
  · split at halloc
    · exact absurd (Prod.mk.inj halloc).2 (by simp)
    · split at halloc
      · exact absurd (Prod.mk.inj halloc).2 (by simp)
      · obtain ⟨rfl, hb⟩ := Prod.mk.inj halloc
        obtain rfl := Option.some.inj hb
        exact ⟨⟨rfl, rfl, rfl, rfl, rfl⟩, _, _, _, setFramebuf_self⟩

/-- **One allocation of the encoder**: the slot, the buffer in it, and the
entry registered for it. -/
theorem allocateOne_true (halloc : allocateOne env i o width height = (o', true)) :
    SameFrame o.handle o'.handle ∧ ∃ b mfb phys virt, o'.handle.pfbpool i = some b ∧
      o'.handle.myfbpool b = layoutFramebuf mfb width height false phys virt ∧
      (o'.handle.fb i).bufCb = (o'.handle.myfbpool b).addrCb ∧
      (o'.handle.fb i).bufCr = (o'.handle.myfbpool b).addrCr := by
  unfold allocateOne at halloc
  cases hgot : framebufAlloc env (i + 1) o width height false with
  | mk o₁ got =>
    rw [hgot] at halloc
    cases got with
    | none => exact absurd (Prod.mk.inj halloc).2 (by simp)
    | some b =>
      obtain ⟨hsame, mfb, phys, virt, hlayout⟩ := framebufAlloc_some hgot
      obtain ⟨rfl, -⟩ := Prod.mk.inj halloc
      refine ⟨⟨hsame.params, hsame.srcFbid, hsame.minFbCount, hsame.gopOffsetCounter,
        hsame.mvcExtension⟩, b, mfb, phys, virt, setPfbpool_self, hlayout, ?_, ?_⟩
      · exact congrArg FrameBuffer.bufCb setFb_self
      · exact congrArg FrameBuffer.bufCr setFb_self

theorem allocateLoop_true (halloc : allocateLoop env width height n i o = (o', true)) :
    SameFrame o.handle o'.handle := by
  induction n generalizing i o with
  | zero =>
    obtain ⟨rfl, -⟩ := Prod.mk.inj halloc
    exact SameFrame.refl _
  | succ n ih =>
    rw [allocateLoop] at halloc
    cases hgot : allocateOne env i o width height with
    | mk o₁ ok =>
      rw [hgot] at halloc
      cases ok with
      | false => exact absurd (Prod.mk.inj halloc).2 (by simp)
      | true => exact (allocateOne_true hgot).1.trans (ih halloc)

/-- **The frame buffers allocated**: that of the source picture has its
dimensions rounded up to 16, and is registered at its planes. -/
theorem encoderAllocateFramebuffer_true
    (halloc : encoderAllocateFramebuffer env o = (o', true)) :
    o'.handle.params = o.handle.params ∧
      o'.handle.gopOffsetCounter = o.handle.gopOffsetCounter ∧
      o'.handle.mvcExtension = o.handle.mvcExtension ∧
      ∃ pfb mfb phys virt, o'.handle.srcFramebuf = some pfb ∧
      pfb = layoutFramebuf mfb (align16 o.handle.params.srcPicwidth)
        (align16 o.handle.params.srcPicheight) false phys virt ∧
      (o'.handle.fb o'.handle.srcFbid).bufCb = pfb.addrCb ∧
      (o'.handle.fb o'.handle.srcFbid).bufCr = pfb.addrCr := by
  unfold encoderAllocateFramebuffer at halloc
  simp only at halloc
  split at halloc
  · split at halloc
    · split at halloc
      · rename_i henc
        split at halloc
        · split at halloc
          · rename_i hsrc
            obtain ⟨rfl, -⟩ := Prod.mk.inj halloc
            have hloop := allocateLoop_true (Prod.ext rfl henc)
            obtain ⟨hsame, b, mfb, phys, virt, hslot, hlayout, hcb, hcr⟩ :=
              allocateOne_true (Prod.ext rfl hsrc)
            have hid := hsame.srcFbid.trans hloop.srcFbid
            refine ⟨hsame.params.trans hloop.params,
              hsame.gopOffsetCounter.trans hloop.gopOffsetCounter,
              hsame.mvcExtension.trans hloop.mvcExtension, _, mfb, phys, virt, ?_, hlayout, ?_, ?_⟩
            · rw [EncHandle.srcFramebuf, hid]
              exact congrArg (Option.map _) hslot
            · rw [hid]
              exact hcb
            · rw [hid]
              exact hcr
          · exact absurd (Prod.mk.inj halloc).2 (by simp)
        · exact absurd (Prod.mk.inj halloc).2 (by simp)
      · exact absurd (Prod.mk.inj halloc).2 (by simp)
    · exact absurd (Prod.mk.inj halloc).2 (by simp)
  · exact absurd (Prod.mk.inj halloc).2 (by simp)

/-! ## `encode_open` -/

theorem prepareEncode_some {h₀ : EncHandle} (hprep : prepareEncode h₀ = some h) :
    ∃ pfb, h₀.srcFramebuf = some pfb ∧ h₀.params.srcPicwidth = pfb.strideY ∧
      h = { h₀ with
        yuv420Imgsize := (h₀.params.srcPicwidth * h₀.params.srcPicheight * 3).tdiv 2
        yAddr := pfb.addrY + pfb.desc.virtUaddr - pfb.desc.phyAddr
        encParam := frameParam h₀ } := by
  unfold prepareEncode at hprep
  split at hprep
  · exact absurd hprep (by simp)
  · rename_i pfb hpfb
    split at hprep
    · exact absurd hprep (by simp)
    · rename_i hwidth
      simp only at hprep
      split at hprep
      · exact absurd hprep (by simp)
      · split at hprep
        · exact absurd hprep (by simp)
        · exact ⟨pfb, hpfb, not_ne_iff.mp hwidth, (Option.some.inj hprep).symm⟩

/-- **What `encode_open` has done where it returns a handle**: allocated
the frame buffers for the parameters, and prepared. -/
theorem encodeOpen_some (hopen : (encodeOpen env param).1 = some h) :
    ∃ o o₁, o.handle.params = param ∧ o.handle.gopOffsetCounter = 0 ∧
      o.handle.mvcExtension = false ∧ encoderAllocateFramebuffer env o = (o₁, true) ∧
      prepareEncode o₁.handle = some h := by
  unfold encodeOpen at hopen
  split at hopen
  · simp only at hopen
    split at hopen
    · split at hopen
      · split at hopen
        · exact absurd hopen (by simp)
        · split at hopen
          · exact absurd hopen (by simp)
          · split at hopen
            · unfold openFrames at hopen
              split at hopen
              · exact absurd hopen (by simp)
              · simp only at hopen
                split at hopen
                · rename_i halloc
                  split at hopen
                  · exact absurd hopen (by simp)
                  · rename_i h' hprep
                    obtain rfl := Option.some.inj hopen
                    exact ⟨_, _, rfl, rfl, rfl, Prod.ext rfl halloc, hprep⟩
                · exact absurd hopen (by simp)
            · exact absurd hopen (by simp)
      · exact absurd hopen (by simp)
    · exact absurd hopen (by simp)
  · exact absurd hopen (by simp)

/-- **A handle `encode_open` returns**: the size and the address of the
source picture, and the frame buffer it is copied to. -/
theorem srcFramebuf_of_open (hopen : (encodeOpen env param).1 = some h) :
    h.params = param ∧ h.yuv420Imgsize = (param.srcPicwidth * param.srcPicheight * 3).tdiv 2 ∧
      ∃ pfb mfb phys virt, h.srcFramebuf = some pfb ∧ h.yAddr = virt ∧
        param.srcPicwidth = pfb.strideY ∧
        pfb = layoutFramebuf mfb (align16 param.srcPicwidth) (align16 param.srcPicheight) false
          phys virt ∧
        (h.fb h.srcFbid).bufCb = pfb.addrCb ∧ (h.fb h.srcFbid).bufCr = pfb.addrCr := by
  obtain ⟨o, o₁, rfl, -, -, halloc, hprep⟩ := encodeOpen_some hopen
  obtain ⟨hparams, -, -, pfb, mfb, phys, virt, hsrc, hlayout, hcb, hcr⟩ :=
    encoderAllocateFramebuffer_true halloc
  obtain ⟨pfb', hsrc', hwidth, rfl⟩ := prepareEncode_some hprep
  rw [hsrc, Option.some.injEq] at hsrc'
  subst hsrc'
  refine ⟨hparams, by rw [← hparams], pfb, mfb, phys, virt, hsrc, ?_, by rw [← hparams, hwidth],
    hlayout, hcb, hcr⟩
  change pfb.addrY + pfb.desc.virtUaddr - pfb.desc.phyAddr = virt
  rw [hlayout]
  change phys + virt - phys = virt
  rw [UInt32.add_comm, UInt32.add_sub_cancel]

/-! ## The sizes -/

/-- Every frame of the geometry the handle was opened with can be copied:
`encode_fill_data` does not abort, its copy stays inside the frame buffer
of the source picture, and the chroma planes of the picture copied begin
where that buffer is registered to have them. -/
def CanEncode (h : EncHandle) (len : ℤ) : Prop :=
  ∃ copy pfb, encodeFillData h len = .ok copy ∧ h.srcFramebuf = some pfb ∧
    (copy.dst - pfb.desc.virtUaddr).toNat + copy.size ≤ pfb.desc.size ∧
    pfb.desc.phyAddr + (copy.dst - pfb.desc.virtUaddr) +
        UInt32.ofInt (h.params.srcPicwidth * h.params.srcPicheight) = (h.fb h.srcFbid).bufCb ∧
    pfb.desc.phyAddr + (copy.dst - pfb.desc.virtUaddr) +
        UInt32.ofInt (h.params.srcPicwidth * h.params.srcPicheight +
          h.params.srcPicwidth / 2 * (h.params.srcPicheight / 2)) = (h.fb h.srcFbid).bufCr

theorem align16_eq_self_iff {x : ℤ} : align16 x = x ↔ 16 ∣ x := by
  unfold align16
  omega

/-- Of a width that is a multiple of 16 a plane has its exact share. -/
theorem chromaSize_of_width {w y : ℤ} (hy : 0 ≤ y) (hw : 0 ≤ w) :
    chromaSize (16 * w) y = 4 * (w * y) := by
  unfold chromaSize
  have hhalf : (16 * w).tdiv 2 = 8 * w := by
    rw [Int.tdiv_eq_ediv_of_nonneg (by omega)]
    omega
  have hpos : 0 ≤ w * y := mul_nonneg hw hy
  rw [hhalf, show 8 * w * y = 8 * (w * y) by ring, Int.tdiv_eq_ediv_of_nonneg (by omega)]
  omega

/-- The size of a frame buffer of such a width. -/
theorem framebufSize_of_width {w y : ℤ} (hy : 0 ≤ y) (hw : 0 ≤ w) :
    framebufSize (16 * w) y false = 24 * (w * y) := by
  rw [framebufSize, chromaSize_of_width hy hw, if_neg (by decide)]
  ring

/-- **A geometry `encode_open` accepts can be encoded exactly where the
source height is a multiple of 16.** -/
theorem canEncode_iff (hopen : (encodeOpen env param).1 = some h) (hw : 0 < param.srcPicwidth)
    (hh : 0 < param.srcPicheight)
    (hlen : (param.srcPicwidth * param.srcPicheight * 3).tdiv 2 ≤ len) :
    CanEncode h len ↔ 16 ∣ param.srcPicheight := by
  obtain ⟨hparams, himg, pfb, mfb, phys, virt, hsrc, haddr, hwidth, hlayout, hcb, hcr⟩ :=
    srcFramebuf_of_open hopen
  have hstride : pfb.strideY = align16 param.srcPicwidth := by rw [hlayout]; rfl
  rw [hstride] at hwidth
  -- the check of the width makes it a multiple of 16, and none is made of the height
  obtain ⟨w, hw16⟩ := align16_eq_self_iff.mp hwidth.symm
  have hwpos : 0 < w := by omega
  have hH : 0 ≤ align16 param.srcPicheight := by unfold align16; omega
  have hsize : pfb.desc.size = 24 * (w * align16 param.srcPicheight) := by
    rw [← framebufSize_of_width hH hwpos.le, ← hw16, hlayout]
    exact congrArg (framebufSize · _ false) hwidth.symm
  have hpos : 0 < w * param.srcPicheight := mul_pos hwpos hh
  have himg' : h.yuv420Imgsize = 24 * (w * param.srcPicheight) := by
    rw [himg, hw16, show 16 * w * param.srcPicheight * 3 = 48 * (w * param.srcPicheight) by ring,
      Int.tdiv_eq_ediv_of_nonneg (by omega)]
    omega
  constructor
  · rintro ⟨copy, pfb', hfill, -, -, -, -⟩
    -- a copy is made only where the two sizes agree
    unfold encodeFillData at hfill
    rw [hsrc] at hfill
    simp only at hfill
    split at hfill
    · exact absurd hfill (by simp)
    · rename_i hcheck
      rw [not_or, not_ne_iff, himg', hsize] at hcheck
      have heq : w * param.srcPicheight = w * align16 param.srcPicheight := by omega
      exact align16_eq_self_iff.mp (mul_left_cancel₀ hwpos.ne' heq).symm
  · intro hdvd
    have hheight : align16 param.srcPicheight = param.srcPicheight := align16_eq_self_iff.mpr hdvd
    rw [hheight] at hsize hlayout
    obtain ⟨y, hy16⟩ := hdvd
    have hvirt : pfb.desc.virtUaddr = virt := by rw [hlayout]; rfl
    have hphys : pfb.desc.phyAddr = phys := by rw [hlayout]; rfl
    have haddrCb : pfb.addrCb = phys + UInt32.ofInt (param.srcPicwidth * param.srcPicheight) := by
      rw [hlayout, hwidth.symm]
      rfl
    have hchroma : chromaSize param.srcPicwidth param.srcPicheight =
        param.srcPicwidth / 2 * (param.srcPicheight / 2) := by
      rw [hw16, chromaSize_of_width hh.le hwpos.le, hy16, show 16 * w / 2 = 8 * w by omega,
        show 16 * y / 2 = 8 * y by omega]
      ring
    have haddrCr : pfb.addrCr = phys + UInt32.ofInt (param.srcPicwidth * param.srcPicheight +
        param.srcPicwidth / 2 * (param.srcPicheight / 2)) := by
      rw [UInt32.ofInt_add, ← UInt32.add_assoc, ← haddrCb, ← hchroma, hlayout, hwidth.symm]
      rfl
    -- with nothing rounded up the planes are where the picture has them
    refine ⟨⟨virt, 24 * (w * param.srcPicheight)⟩, pfb, ?_, hsrc, ?_, ?_, ?_⟩
    · unfold encodeFillData
      rw [hsrc]
      simp only
      rw [if_neg, haddr, himg']
      rw [not_or, not_ne_iff, himg', hsize, not_lt]
      refine ⟨rfl, ?_⟩
      rw [← himg', himg]
      exact hlen
    · rw [hsize, hvirt, UInt32.sub_self]
      exact (zero_add _).le
    · rw [hvirt, UInt32.sub_self, UInt32.add_zero, hphys, hparams, hcb, haddrCb]
    · rw [hvirt, UInt32.sub_self, UInt32.add_zero, hphys, hparams, hcr, haddrCr]

/-- VGA, whose height is a multiple of 16. -/
theorem canEncode_iff_vga :
    ∃ h, (encodeOpen (.granting 2) ⟨640, 480, 640, 480, 15, 1000, 12, 0⟩).1 = some h ∧
      CanEncode h 460800 := by
  obtain ⟨h, hopen⟩ := Option.isSome_iff_exists.mp (show (encodeOpen (.granting 2)
    ⟨640, 480, 640, 480, 15, 1000, 12, 0⟩).1.isSome = true by decide +kernel)
  exact ⟨h, hopen, (canEncode_iff hopen (by decide) (by decide) (by decide)).mpr (by decide)⟩

/-- **Full HD is accepted and aborts** at its first frame. -/
theorem not_canEncode_full_hd :
    ∃ h, (encodeOpen (.granting 2) ⟨1920, 1080, 1920, 1080, 15, 1000, 12, 0⟩).1 = some h ∧
      encodeFillData h 3110400 = .error .abort ∧ ¬ CanEncode h 3110400 := by
  have hfill : (encodeOpen (.granting 2) ⟨1920, 1080, 1920, 1080, 15, 1000, 12, 0⟩).1.map
      (encodeFillData · 3110400) = some (.error .abort) := rfl
  obtain ⟨h, hopen, habort⟩ := Option.map_eq_some_iff.mp hfill
  refine ⟨h, hopen, habort, ?_⟩
  rintro ⟨copy, pfb, hcopy, -⟩
  rw [habort] at hcopy
  exact absurd hcopy (by simp)

end Vpu

end Camkit
