import Camkit.Vpu.Model.Process
import Camkit.Vpu.Release
import Mathlib.Algebra.Order.BigOperators.Group.List
import Mathlib.Data.Multiset.OrderedMonoid
/-!
# VPU encoder — from `encode_open` to `encode_close`

What `encode_open` holds when it succeeds, no call in between touches, and
`encode_close` gives back: the frame buffers with the loop that unwinds a
failed allocation, and the rest one by one. It gives back all of it, each
thing once, unless a frame buffer was given physical memory at address 0.
-/

namespace Camkit

namespace Vpu

open Ledger (Leaves Settled)

variable {env : Env} {param : EncParam} {o : Opening} {held : Multiset Resource}
variable {h h' : EncHandle}
variable {bs : List BufId} {i j n fuel : ℕ} {width height : ℤ} {log : List Event}

/-! ## The slots that stay empty -/

theorem pfbpool_allocateOne (hj : j ≠ i) :
    (allocateOne env i o width height).1.handle.pfbpool j = o.handle.pfbpool j := by
  obtain ⟨hpfb, -⟩ := framebufAlloc_frame env (i + 1) o width height false
  have hset : ∀ o' : Opening, (o'.modify (setPfbpool i
      (framebufAlloc env (i + 1) o width height false).2)).handle.pfbpool j = o'.handle.pfbpool j :=
    fun o' => Function.update_of_ne hj ..
  unfold allocateOne
  simp only
  split
  · exact (hset _).trans (congrFun hpfb j)
  · exact (hset _).trans (congrFun hpfb j)

theorem pfbpool_allocateLoop (hj : i + n ≤ j) :
    (allocateLoop env width height n i o).1.handle.pfbpool j = o.handle.pfbpool j := by
  induction n generalizing i o with
  | zero => rfl
  | succ n ih =>
    have hone : (allocateOne env i o width height).1.handle.pfbpool j = o.handle.pfbpool j :=
      pfbpool_allocateOne (by omega)
    rw [allocateLoop]
    split
    · exact (ih (by omega)).trans hone
    · exact hone

/-- **The slots from `totalfb` on** are empty where the allocation succeeds. -/
theorem pfbpool_encoderAllocateFramebuffer (hok : (encoderAllocateFramebuffer env o).2 = true)
    (hj : (encoderAllocateFramebuffer env o).1.handle.totalfb ≤ j) :
    (encoderAllocateFramebuffer env o).1.handle.pfbpool j = none := by
  unfold encoderAllocateFramebuffer at hok hj ⊢
  simp only at hok hj ⊢
  by_cases hfb : env.callocFb = true
  · by_cases hpool : env.callocPool = true
    · rw [if_pos hfb, if_pos hpool] at hok hj ⊢
      set o₁ := (((((o.modify setFbCounts).acquire .fb).modify fun h =>
        { h with fb := fun _ => .cleared }).acquire .pfbpool).modify fun h =>
        { h with pfbpool := fun _ => none }) with ho₁
      set n := o₁.handle.minFbCount + extrafbcount o₁.handle.mvcExtension with hn
      have htotal : o₁.handle.totalfb = n + 1 := rfl
      have hsrc : o₁.handle.srcFbid = n := rfl
      have hloop := totalfb_allocateLoop env n 0 o₁ (align16 o.handle.params.encPicwidth)
        (align16 o.handle.params.encPicheight)
      set enc := allocateLoop env (align16 o.handle.params.encPicwidth)
        (align16 o.handle.params.encPicheight) n 0 o₁ with henc
      by_cases hgot : enc.2 = true
      · by_cases hreg : env.registerFrameBuffer = true
        · rw [if_pos hgot, if_pos hreg, hsrc] at hok hj ⊢
          have hone := totalfb_allocateOne env n enc.1 (align16 o.handle.params.srcPicwidth)
            (align16 o.handle.params.srcPicheight)
          set src := allocateOne env n enc.1 (align16 o.handle.params.srcPicwidth)
            (align16 o.handle.params.srcPicheight) with hsrc'
          by_cases hsome : src.2 = true
          · rw [if_pos hsome] at hj ⊢
            have hle : n + 1 ≤ j := htotal ▸ hloop ▸ hone ▸ hj
            -- neither the loop nor the source picture has a slot so far up
            rw [hsrc', pfbpool_allocateOne (by omega), henc, pfbpool_allocateLoop (by omega)]
            rfl
          · rw [if_neg hsome] at hok
            exact absurd hok (by simp)
        · rw [if_pos hgot, if_neg hreg] at hok
          exact absurd hok (by simp)
      · rw [if_neg hgot] at hok
        exact absurd hok (by simp)
    · rw [if_pos hfb, if_neg hpool] at hok
      exact absurd hok (by simp)
  · rw [if_neg hfb] at hok
    exact absurd hok (by simp)

theorem memDesc_allocateOne :
    (allocateOne env i o width height).1.handle.memDesc = o.handle.memDesc := by
  have halloc : (framebufAlloc env (i + 1) o width height false).1.handle.memDesc =
      o.handle.memDesc := by
    unfold framebufAlloc
    simp only
    split
    · rfl
    · split
      · rfl
      · split <;> rfl
  unfold allocateOne
  simp only
  split
  · exact halloc
  · exact halloc

theorem memDesc_allocateLoop :
    (allocateLoop env width height n i o).1.handle.memDesc = o.handle.memDesc := by
  induction n generalizing i o with
  | zero => rfl
  | succ n ih =>
    rw [allocateLoop]
    split
    · exact ih.trans memDesc_allocateOne
    · exact memDesc_allocateOne

/-- The bitstream memory stays where it is. -/
theorem memDesc_encoderAllocateFramebuffer (hok : (encoderAllocateFramebuffer env o).2 = true) :
    (encoderAllocateFramebuffer env o).1.handle.memDesc = o.handle.memDesc := by
  unfold encoderAllocateFramebuffer at hok ⊢
  simp only at hok ⊢
  split at hok
  · rename_i hfb
    split at hok
    · rename_i hpool
      split at hok
      · rename_i hgot
        split at hok
        · rename_i hreg
          split at hok
          · rename_i hsome
            rw [if_pos hfb, if_pos hpool, if_pos hgot, if_pos hreg, if_pos hsome]
            exact memDesc_allocateOne.trans memDesc_allocateLoop
          · exact absurd hok (by simp)
        · exact absurd hok (by simp)
      · exact absurd hok (by simp)
    · exact absurd hok (by simp)
  · exact absurd hok (by simp)

/-! ## An open handle -/

/-- What of a handle `encode_close` goes by. -/
def EncHandle.holding (h : EncHandle) :
    VpuMemDesc × ℕ × (Fin 32 → Option BufId) × Fin 32 × (ℕ → Option BufId) × (BufId → MyFrameBuf) :=
  (h.memDesc, h.totalfb, h.myfbarray, h.myfbIndex, h.pfbpool, h.myfbpool)

/-- **The frame buffers of an open handle**, no more than it has slots for. -/
structure Opened (env : Env) (o : Opening) (bs : List BufId) (held : Multiset Resource) : Prop where
  allocated : Allocated env o bs (.pfbpool ::ₘ .fb ::ₘ held)
  le : bs.length ≤ o.handle.totalfb

/-- Nothing else of the handle matters. -/
theorem Opened.congr (ho : Opened env ⟨h, log⟩ bs held) (heq : h'.holding = h.holding) :
    Opened env ⟨h', log⟩ bs held := by
  simp only [EncHandle.holding, Prod.mk.injEq] at heq
  obtain ⟨-, htotal, harray, hindex, hpfb, hpool⟩ := heq
  obtain ⟨⟨hfree, hslots, hvirt, hphys, hholds⟩, hle⟩ := ho
  refine ⟨⟨?_, ?_, ?_, ?_, ?_⟩, hle.trans htotal.ge⟩
  · simpa only [harray, hindex] using hfree
  · simpa only [hpfb] using hslots
  · simpa only [hpool] using hvirt
  · simpa only [hpool] using hphys
  · simp only [hpool]
    exact hholds

theorem holding_prepareEncode (hprep : prepareEncode h = some h') : h'.holding = h.holding := by
  unfold prepareEncode at hprep
  split at hprep
  · exact absurd hprep (by simp)
  · split at hprep
    · exact absurd hprep (by simp)
    · simp only at hprep
      split at hprep
      · exact absurd hprep (by simp)
      · split at hprep
        · exact absurd hprep (by simp)
        · exact Option.some.inj hprep ▸ rfl

/-- From `get_initinfo` on. -/
theorem opened_openFrames (ho : o.Holds held) (hopen : (openFrames env o).1 = some h) :
    ∃ bs, Opened env ⟨h, (openFrames env o).2⟩ bs held ∧ h.memDesc = o.handle.memDesc := by
  unfold openFrames at hopen ⊢
  simp only at hopen ⊢
  split at hopen
  · exact absurd hopen (by simp)
  · rename_i minFbCount hinfo
    set o₁ := (o.modify fun h => { h with minFbCount := minFbCount }).modify initFramebuf with ho₁
    have hring : Ring.Holds o₁.handle.myfbarray o₁.handle.myfbIndex (List.finRange 32) :=
      (Stacked.fresh _).ring
    have hstart : o₁.Holds held := ho
    have hspec := encoderAllocateFramebuffer_spec env hring (List.nodup_finRange 32) hstart
    split at hopen
    · rename_i hgot
      split at hopen
      · exact absurd hopen (by simp)
      · rename_i h₂ hprep
        obtain rfl := Option.some.inj hopen
        rw [if_pos hgot] at hspec ⊢
        obtain ⟨bs, hbs⟩ := hspec
        have hholding := holding_prepareEncode hprep
        have hmem := (Prod.mk.inj hholding).1.trans (memDesc_encoderAllocateFramebuffer hgot)
        -- a slot from `totalfb` on would be empty
        have hle : bs.length ≤ (encoderAllocateFramebuffer env o₁).1.handle.totalfb := by
          by_contra hlt
          have hnone := pfbpool_encoderAllocateFramebuffer hgot le_rfl
          rw [hbs.slots, List.getElem?_eq_none_iff] at hnone
          omega
        exact ⟨bs, Opened.congr ⟨hbs, hle⟩ hholding, hmem⟩
    · exact absurd hopen (by simp)

/-- What an open handle holds besides its frame buffers. -/
def EncHandle.holds (h : EncHandle) : Multiset Resource :=
  .encInstance ::ₘ .virt h.memDesc.virtUaddr ::ₘ .phys h.memDesc.phyAddr ::ₘ .vpu ::ₘ .handle ::ₘ 0

/-- **`encode_open` opens a handle.** -/
theorem opened_encodeOpen (hopen : (encodeOpen env param).1 = some h) :
    ∃ bs, Opened env ⟨h, (encodeOpen env param).2⟩ bs h.holds := by
  have hstart : (Opening.mk (clearedHandle param) []).Holds 0 := Ledger.leaves_nil
  have hvpu := (hstart.acquire .handle).acquire .vpu
  unfold encodeOpen at hopen ⊢
  split at hopen
  · rename_i hmalloc
    rw [if_pos hmalloc]
    simp only at hopen ⊢
    split at hopen
    · rename_i hinit
      rw [if_pos hinit]
      split at hopen
      · rename_i hversion
        rw [if_pos hversion]
        split at hopen
        · exact absurd hopen (by simp)
        · rename_i phys hphys
          split at hopen
          · exact absurd hopen (by simp)
          · rename_i hvirt
            rw [if_neg hvirt]
            split at hopen
            · rename_i hencOpen
              rw [if_pos hencOpen]
              have hbuf := (((hvpu.acquire (.phys phys)).acquire (.virt (env.virtMem 0))).modify
                fun h => { h with
                  memDesc := ⟨streamBufSize, phys, env.virtMem 0⟩
                  virtBsbufAddr := env.virtMem 0
                  phyBsbufAddr := phys }).acquire .encInstance
              obtain ⟨bs, hbs, hmem⟩ := opened_openFrames hbuf hopen
              refine ⟨bs, ?_⟩
              rw [EncHandle.holds, hmem]
              exact hbs
            · exact absurd hopen (by simp)
      · exact absurd hopen (by simp)
    · exact absurd hopen (by simp)
  · exact absurd hopen (by simp)

/-! ## Closing -/

theorem handle_framebufFree_memDesc (p : Option BufId) :
    (framebufFree o p).handle.memDesc = o.handle.memDesc := by
  cases p with
  | none => rfl
  | some b =>
    unfold framebufFree
    simp only
    split <;> split <;> rfl

theorem memDesc_freeLoop : (freeLoop n i o).handle.memDesc = o.handle.memDesc := by
  induction n generalizing i o with
  | zero => rfl
  | succ n ih => exact ih.trans (handle_framebufFree_memDesc _)

/-- **`encode_close`** leaves of an open handle what `framebuf_free` leaves of
its frame buffers. -/
theorem Opened.encodeClose (ho : Opened env o bs o.handle.holds) :
    (encodeClose o).Holds (bs.map fun b => leftover (o.handle.myfbpool b)).sum := by
  obtain ⟨stack, -, hnodup⟩ := ho.allocated.free
  have hfreed := freeLoop_spec (i := 0) (fun j => by rw [zero_add]; exact ho.allocated.slots j)
    hnodup.of_append_left ho.le ho.allocated.virt ho.allocated.holds
  rw [EncHandle.holds] at hfreed
  simp only [Multiset.add_cons, add_zero] at hfreed
  rw [Multiset.cons_swap] at hfreed
  have hmem : ∀ r, (((encoderFreeFramebuffer o).release .encInstance).release r).handle.memDesc =
      o.handle.memDesc := fun r => memDesc_freeLoop
  unfold Vpu.encodeClose
  simp only [hmem]
  have hmem' : ((encoderFreeFramebuffer o).release .encInstance).handle.memDesc =
      o.handle.memDesc := memDesc_freeLoop
  rw [hmem']
  exact hfreed.release.release.release.release.release.release.release

/-! ## A life -/

theorem holding_apply (x : Setting) : (x.apply h).holding = h.holding := by
  cases x with
  | forceIpic => rfl
  | setQp val => rfl
  | setGop val ok => cases ok <;> rfl
  | setBitrate val ok => cases ok <;> rfl
  | setFramerate val ok => cases ok <;> rfl

theorem holding_encodeDo {env : DoEnv} {ilen : ℤ} {res : DoResult}
    (hdo : encodeDo env h ilen = .ok res) : res.handle.holding = h.holding := by
  unfold encodeDo at hdo
  split at hdo
  · exact absurd hdo (by simp)
  · simp only at hdo
    split at hdo
    · split at hdo
      · exact Except.ok.inj hdo ▸ rfl
      · exact Except.ok.inj hdo ▸ rfl
    · exact Except.ok.inj hdo ▸ rfl

/-- **A call on an open handle** closes it, or leaves what it holds alone. -/
theorem nextSlot_opened {c : Call} {slot : Slot} (hnext : nextSlot (.opened h) c = some slot) :
    (c = .close ∧ slot = .closed) ∨ ∃ h', slot = .opened h' ∧ h'.holding = h.holding ∧
      ∀ log, nextLog log (.opened h) c = log := by
  cases c with
  | «open» env param => exact absurd hnext (by simp [nextSlot])
  | close => exact .inl ⟨rfl, (Option.some.inj hnext).symm⟩
  | getHeaders give => exact .inr ⟨h, (Option.some.inj hnext).symm, rfl, fun _ => rfl⟩
  | encode env ilen =>
    rw [nextSlot] at hnext
    split at hnext
    · exact absurd hnext (by simp)
    · rename_i res hdo
      exact .inr ⟨res.handle, (Option.some.inj hnext).symm, holding_encodeDo hdo, fun _ => rfl⟩
  | set x => exact .inr ⟨_, (Option.some.inj hnext).symm, holding_apply x, fun _ => rfl⟩

/-- What is held in a life, of a handle opened as `h`. -/
def Living (env : Env) (h : EncHandle) (bs : List BufId) : Slot × List Event → Prop
  | (.unborn, _) => False
  | (.opened h', log) => Opened env ⟨h', log⟩ bs h'.holds ∧ h'.holding = h.holding
  | (.closed, log) => Leaves (log.map Event.entry) (bs.map fun b => leftover (h.myfbpool b)).sum

/-- **Each call** of a life. -/
theorem Living.step {s s' : Slot × List Event} {c : Call} {u : Unit} (hs : Living env h bs s)
    (hstep : lives.step s c = some (s', u)) : Living env h bs s' := by
  obtain ⟨slot, log⟩ := s
  obtain ⟨slot', hnext, heq⟩ := Option.map_eq_some_iff.mp hstep
  obtain ⟨rfl, -⟩ := Prod.mk.inj heq
  cases slot with
  | unborn => exact hs.elim
  | closed => cases c <;> exact absurd hnext (by simp [nextSlot])
  | opened h₁ =>
    obtain ⟨ho, hholding⟩ := hs
    rcases nextSlot_opened hnext with ⟨rfl, rfl⟩ | ⟨h₂, rfl, hsame, hlog⟩
    · have hpool : h₁.myfbpool = h.myfbpool := by
        simp only [EncHandle.holding, Prod.mk.injEq] at hholding
        exact hholding.2.2.2.2.2
      rw [Living, ← hpool]
      exact ho.encodeClose
    · have hheld : h₂.holds = h₁.holds := by
        rw [EncHandle.holds, (Prod.mk.inj hsame).1, EncHandle.holds]
      rw [hlog, Living, hheld]
      exact ⟨ho.congr hsame, hsame.trans hholding⟩

/-- What is left of a frame buffer is nothing if it is not at address 0. -/
theorem leftover_eq_zero_iff {mfb : MyFrameBuf} : leftover mfb = 0 ↔ mfb.desc.phyAddr ≠ 0 := by
  rw [leftover]
  split <;> simp [*]

/-- **A life leaves nothing behind**: whatever is called between `encode_open`
and `encode_close`, what the one has taken the other gives back, each thing
once, if and only if no frame buffer was given physical memory at address
0. -/
theorem settled_of_life {calls : List Call} {units : List Unit}
    (hopen : (encodeOpen env param).1 = some h)
    (hrun : lives.run (.unborn, []) (.open env param :: calls) = some ((.closed, log), units)) :
    Settled (log.map Event.entry) ↔
      ∀ i b, h.pfbpool i = some b → (h.myfbpool b).desc.phyAddr ≠ 0 := by
  obtain ⟨bs, ho⟩ := opened_encodeOpen hopen
  obtain ⟨s₁, u, us, hstep, hrest, -⟩ := Machine.run_cons.mp hrun
  obtain ⟨slot, hnext, heq⟩ := Option.map_eq_some_iff.mp hstep
  obtain ⟨rfl, -⟩ := Prod.mk.inj heq
  obtain rfl : slot = .opened h := by
    rw [nextSlot, hopen] at hnext
    exact (Option.some.inj hnext).symm
  have hstart : Living env h bs (.opened h, (encodeOpen env param).2) := ⟨ho, rfl⟩
  have hliving : Living env h bs (.closed, log) :=
    Machine.run_invariant (I := Living env h bs) hstart (fun _ _ _ _ => Living.step) hrest
  have hslots : (∀ i b, h.pfbpool i = some b → (h.myfbpool b).desc.phyAddr ≠ 0) ↔
      ∀ b ∈ bs, (h.myfbpool b).desc.phyAddr ≠ 0 := by
    constructor
    · intro hall b hb
      obtain ⟨i, hi⟩ := List.mem_iff_getElem?.mp hb
      exact hall i b ((ho.allocated.slots i).trans hi)
    · intro hall i b hi
      exact hall b (List.mem_of_getElem? ((ho.allocated.slots i).symm.trans hi))
  have hzero : (bs.map fun b => leftover (h.myfbpool b)).sum = 0 ↔
      ∀ b ∈ bs, (h.myfbpool b).desc.phyAddr ≠ 0 := by
    rw [List.sum_eq_zero_iff (M := Multiset Resource), List.forall_mem_map]
    exact forall₂_congr fun b _ => leftover_eq_zero_iff
  rw [hslots, ← hzero]
  constructor
  · intro hsettled
    exact (hsettled.unique hliving).symm
  · intro hsum
    exact (congrArg (Leaves (log.map Event.entry)) hsum).mp hliving

/-- A handle that is opened, set to an I picture and closed. -/
theorem settled_of_life_granting :
    ∃ h log units, (encodeOpen (Env.granting 1) ⟨640, 480, 640, 480, 15, 1000, 12, 0⟩).1 = some h ∧
      lives.run (.unborn, []) [.open (Env.granting 1) ⟨640, 480, 640, 480, 15, 1000, 12, 0⟩,
        .set .forceIpic, .close] = some ((.closed, log), units) ∧
      (Settled (log.map Event.entry) ↔
        ∀ i b, h.pfbpool i = some b → (h.myfbpool b).desc.phyAddr ≠ 0) := by
  have hopens : (encodeOpen (Env.granting 1) ⟨640, 480, 640, 480, 15, 1000, 12, 0⟩).1.isSome =
      true := rfl
  obtain ⟨h, hopen⟩ := Option.isSome_iff_exists.mp hopens
  have hcloses : (lives.run (.unborn, []) [.open (Env.granting 1) ⟨640, 480, 640, 480, 15, 1000, 12,
      0⟩, .set .forceIpic, .close]).any (fun r => r.1.1 matches .closed) = true := rfl
  obtain ⟨⟨⟨slot, log⟩, units⟩, hrun, hslot⟩ := (Option.any_eq_true _ _).mp hcloses
  cases slot with
  | closed => exact ⟨h, log, units, hopen, hrun, settled_of_life hopen hrun⟩
  | unborn => exact absurd hslot (by simp)
  | opened _ => exact absurd hslot (by simp)

end Vpu

end Camkit
