import Camkit.Common.Ledger
import Camkit.Vpu.Pool
import Mathlib.Algebra.BigOperators.Group.List.Basic
import Mathlib.Algebra.Order.Group.Multiset
/-!
# VPU encoder — what a failed `encode_open` leaves behind

`encoder_allocate_framebuffer` unwinds itself: at `err` it gives back every
frame buffer it has got, and its two arrays. `encode_open` does not. Past
the allocation of the handle each of its exits keeps something, and from
the opening of the instance on all of them keep the VPU and the bitstream
memory.
-/

namespace Camkit

namespace Vpu

open Ledger (Leaves Settled)

variable {env : Env} {param : EncParam} {o o' : Opening} {held : Multiset Resource}
variable {bs : List BufId} {b : BufId} {i k n : ℕ} {width height : ℤ} {mvCol : Bool}

/-! ## The log as a ledger -/

/-- An entry of the log, for the ledger. -/
def Event.entry : Event → Ledger.Entry Resource
  | .acquire r => .acquire r
  | .release r => .release r

/-- What is held while the handle is being opened. -/
def Opening.Holds (o : Opening) (held : Multiset Resource) : Prop :=
  Leaves (o.log.map Event.entry) held

namespace Opening.Holds

theorem acquire (h : o.Holds held) (r : Resource) : (o.acquire r).Holds (r ::ₘ held) :=
  Leaves.log_acquire rfl h

theorem release {r : Resource} (h : o.Holds (r ::ₘ held)) : (o.release r).Holds held :=
  Leaves.log_release rfl h

theorem modify (h : o.Holds held) (f : EncHandle → EncHandle) : (o.modify f).Holds held := h

end Opening.Holds

/-! ## One frame buffer -/

/-- The memory of some frame buffers. -/
def memory (pool : BufId → MyFrameBuf) (bs : List BufId) : Multiset Resource :=
  (Multiset.ofList bs).map (fun b => .virt (pool b).desc.virtUaddr) +
    (Multiset.ofList bs).map fun b => .phys (pool b).desc.phyAddr

variable {pool pool' : BufId → MyFrameBuf} {slots : ℕ → Option BufId}

theorem memory_cons :
    memory pool (b :: bs) =
      .virt (pool b).desc.virtUaddr ::ₘ .phys (pool b).desc.phyAddr ::ₘ memory pool bs := by
  rw [memory, ← Multiset.cons_coe, Multiset.map_cons, Multiset.map_cons, Multiset.cons_add,
    Multiset.add_cons, memory]

theorem memory_concat : memory pool (bs ++ [b]) = memory pool (b :: bs) := by
  rw [memory, memory, Multiset.coe_eq_coe.mpr (List.perm_append_singleton b bs)]

/-- Other descriptors do not matter. -/
theorem memory_congr (h : ∀ b ∈ bs, pool b = pool' b) : memory pool bs = memory pool' bs := by
  have hmap : ∀ f : MyFrameBuf → Resource, (Multiset.ofList bs).map (fun b => f (pool b)) =
      (Multiset.ofList bs).map fun b => f (pool' b) := fun f =>
    Multiset.map_congr rfl fun b hb => congrArg f (h b hb)
  rw [memory, memory, hmap fun mfb => .virt mfb.desc.virtUaddr,
    hmap fun mfb => .phys mfb.desc.phyAddr]

/-- No memory is at the physical address 0, which `framebuf_free` takes for
no memory. -/
def Env.NonNull (env : Env) : Prop := ∀ k, env.physMem k ≠ some 0

/-- **The frame buffers of a handle being opened**: those taken from the
stack of free descriptors are in `pfbpool`, in the order they were taken
in, and have their memory. -/
structure Allocated (env : Env) (o : Opening) (bs : List BufId) (held : Multiset Resource) :
    Prop where
  free : ∃ stack, Ring.Holds o.handle.myfbarray o.handle.myfbIndex stack ∧ (bs ++ stack).Nodup
  slots : ∀ i, o.handle.pfbpool i = bs[i]?
  virt : ∀ b ∈ bs, (o.handle.myfbpool b).desc.virtUaddr ≠ 0
  phys : env.NonNull → ∀ b ∈ bs, (o.handle.myfbpool b).desc.phyAddr ≠ 0
  holds : o.Holds (memory o.handle.myfbpool bs + held)

/-- No frame buffer has been got yet. -/
theorem Allocated.nil {stack : List BufId}
    (hring : Ring.Holds o.handle.myfbarray o.handle.myfbIndex stack) (hnodup : stack.Nodup)
    (hslots : ∀ i, o.handle.pfbpool i = none) (h : o.Holds held) : Allocated env o [] held where
  free := ⟨stack, hring, hnodup⟩
  slots := hslots
  virt := fun b hb => absurd hb List.not_mem_nil
  phys := fun _ b hb => absurd hb List.not_mem_nil
  holds := by
    rw [memory, Multiset.coe_nil, Multiset.map_zero, Multiset.map_zero, zero_add, zero_add]
    exact h

/-- What `framebuf_alloc` leaves as it is, and what the get it begins with
does. -/
theorem framebufAlloc_frame (env : Env) (k : ℕ) (o : Opening) (width height : ℤ) (mvCol : Bool) :
    (framebufAlloc env k o width height mvCol).1.handle.pfbpool = o.handle.pfbpool ∧
      (framebufAlloc env k o width height mvCol).1.handle.myfbarray =
        (getFramebuf o.handle).1.myfbarray ∧
      (framebufAlloc env k o width height mvCol).1.handle.myfbIndex = o.handle.myfbIndex + 1 ∧
      (framebufAlloc env k o width height mvCol).1.handle.totalfb = o.handle.totalfb ∧
      ∀ b, (getFramebuf o.handle).2 ≠ some b →
        (framebufAlloc env k o width height mvCol).1.handle.myfbpool b = o.handle.myfbpool b := by
  unfold framebufAlloc
  simp only
  cases hgot : (getFramebuf o.handle).2 with
  | none => exact ⟨rfl, rfl, rfl, rfl, fun b _ => rfl⟩
  | some i =>
    have hother : ∀ b, some i ≠ some b → b ≠ i := fun b hne heq => hne (congrArg some heq.symm)
    cases env.physMem k with
    | none =>
      exact ⟨rfl, rfl, rfl, rfl, fun b hne => Function.update_of_ne (hother b hne) _ _⟩
    | some phys =>
      simp only
      split
      · exact ⟨rfl, rfl, rfl, rfl, fun b hne => Function.update_of_ne (hother b hne) _ _⟩
      · exact ⟨rfl, rfl, rfl, rfl, fun b hne => Function.update_of_ne (hother b hne) _ _⟩

/-- **`framebuf_alloc` holds nothing where it fails**, and the memory of a
descriptor from the pool where it does not. -/
theorem framebufAlloc_holds (env : Env) (k : ℕ) (width height : ℤ) (mvCol : Bool)
    (h : o.Holds held) :
    match framebufAlloc env k o width height mvCol with
    | (o', none) => o'.Holds held
    | (o', some b) =>
      (getFramebuf o.handle).2 = some b ∧ (o'.handle.myfbpool b).desc.virtUaddr ≠ 0 ∧
        env.physMem k = some (o'.handle.myfbpool b).desc.phyAddr ∧
        o'.Holds (.virt (o'.handle.myfbpool b).desc.virtUaddr ::ₘ
          .phys (o'.handle.myfbpool b).desc.phyAddr ::ₘ held) := by
  unfold framebufAlloc
  simp only
  cases (getFramebuf o.handle).2 with
  | none => exact h
  | some i =>
    simp only
    cases env.physMem k with
    | none => exact h
    | some phys =>
      simp only
      by_cases hvirt : env.virtMem k = 0
      · rw [if_pos hvirt]
        exact (h.acquire (.phys phys)).release
      · rw [if_neg hvirt]
        simp only [Opening.modify, Opening.acquire, setFramebuf, Function.update_self,
          layoutFramebuf]
        exact ⟨trivial, hvirt, trivial, (h.acquire (.phys phys)).acquire (.virt (env.virtMem k))⟩

/-- The stack of free descriptors after a get. -/
theorem Allocated.getFramebuf (ha : Allocated env o bs held) :
    ∃ stack, Ring.Holds (Vpu.getFramebuf o.handle).1.myfbarray (o.handle.myfbIndex + 1)
        stack ∧ (bs ++ ((Vpu.getFramebuf o.handle).2.toList ++ stack)).Nodup := by
  obtain ⟨stack, hring, hnodup⟩ := ha.free
  refine ⟨stack.tail, hring.pop, ?_⟩
  have htop : (Vpu.getFramebuf o.handle).2 = stack.head? := hring.slot_index
  rw [htop]
  cases stack with
  | nil => exact hnodup
  | cons b stack => exact hnodup

/-- A `NULL` behind the frame buffers of `pfbpool`. -/
theorem slots_update_none (hslots : ∀ i, slots i = bs[i]?) (i : ℕ) :
    Function.update slots bs.length none i = bs[i]? := by
  by_cases hi : i = bs.length
  · rw [hi, Function.update_self, List.getElem?_eq_none (Nat.le_refl _)]
  · rw [Function.update_of_ne hi, hslots]

/-- One more frame buffer behind those of `pfbpool`. -/
theorem slots_update_some (hslots : ∀ i, slots i = bs[i]?) (i : ℕ) :
    Function.update slots bs.length (some b) i = (bs ++ [b])[i]? := by
  by_cases hi : i = bs.length
  · rw [hi, Function.update_self, List.getElem?_concat_length]
  · rw [Function.update_of_ne hi, hslots]
    rcases Nat.lt_or_ge i bs.length with hlt | hge
    · rw [List.getElem?_append_left hlt]
    · rw [List.getElem?_eq_none hge, List.getElem?_eq_none (by
        rw [List.length_append, List.length_singleton]
        omega)]

/-- **One allocation** adds a frame buffer, or leaves those there are. -/
theorem allocateOne_spec (width height : ℤ) (ha : Allocated env o bs held) :
    if (allocateOne env bs.length o width height).2 then
      ∃ b, Allocated env (allocateOne env bs.length o width height).1 (bs ++ [b]) held
    else Allocated env (allocateOne env bs.length o width height).1 bs held := by
  obtain ⟨hpfb, harray, hindex, -, hpool⟩ :=
    framebufAlloc_frame env (bs.length + 1) o width height false
  obtain ⟨stack, hring, hnodup⟩ := ha.getFramebuf
  have hholds := framebufAlloc_holds env (bs.length + 1) width height false ha.holds
  unfold allocateOne
  cases halloc : framebufAlloc env (bs.length + 1) o width height false with
  | mk o' got =>
    rw [halloc] at hpfb harray hindex hpool hholds
    rw [← harray, ← hindex] at hring
    have hslots : ∀ i, o'.handle.pfbpool i = bs[i]? := fun i => by rw [hpfb, ha.slots]
    -- the descriptor taken is none of those taken before
    have hsame : ∀ b ∈ bs, o'.handle.myfbpool b = o.handle.myfbpool b := by
      intro b hb
      refine hpool b fun hgot => List.disjoint_of_nodup_append hnodup hb ?_
      rw [hgot]
      exact List.mem_cons_self
    have hvirts : ∀ b ∈ bs, (o'.handle.myfbpool b).desc.virtUaddr ≠ 0 :=
      fun b hb => (hsame b hb).symm ▸ ha.virt b hb
    have hphyss : env.NonNull → ∀ b ∈ bs, (o'.handle.myfbpool b).desc.phyAddr ≠ 0 :=
      fun hnull b hb => (hsame b hb).symm ▸ ha.phys hnull b hb
    cases got with
    | none =>
      refine ⟨⟨stack, hring, hnodup.sublist ((List.Sublist.refl bs).append
        (List.sublist_append_right _ _))⟩, slots_update_none hslots, hvirts, hphyss, ?_⟩
      change o'.Holds (memory o'.handle.myfbpool bs + held)
      rw [memory_congr hsame]
      exact hholds
    | some b =>
      obtain ⟨hgot, hvirt, hphys, hholds⟩ := hholds
      rw [hgot] at hnodup
      refine ⟨b, ⟨⟨stack, hring, by rw [List.append_assoc]; exact hnodup⟩,
        slots_update_some hslots, ?_, fun hnull => ?_, ?_⟩⟩
      · exact List.forall_mem_append.mpr ⟨hvirts, List.forall_mem_singleton.mpr hvirt⟩
      · exact List.forall_mem_append.mpr ⟨hphyss hnull, List.forall_mem_singleton.mpr
          fun hzero => hnull _ (hphys.trans (congrArg some hzero))⟩
      · change o'.Holds (memory o'.handle.myfbpool (bs ++ [b]) + held)
        rw [memory_concat, memory_cons, memory_congr hsame, Multiset.cons_add, Multiset.cons_add]
        exact hholds

/-- **The allocation loop** gets as many frame buffers as it has rounds, or
stops at one it does not get. -/
theorem allocateLoop_spec (n : ℕ) (width height : ℤ) (ha : Allocated env o bs held) :
    ∃ bs', Allocated env (allocateLoop env width height n bs.length o).1 bs' held ∧
      bs'.length ≤ bs.length + n ∧
      ((allocateLoop env width height n bs.length o).2 = true → bs'.length = bs.length + n) := by
  induction n generalizing o bs with
  | zero => exact ⟨bs, ha, Nat.le_refl _, fun _ => rfl⟩
  | succ n ih =>
    have hone := allocateOne_spec width height ha
    rw [allocateLoop]
    split
    · rename_i hgot
      rw [if_pos hgot] at hone
      obtain ⟨b, hone⟩ := hone
      obtain ⟨bs', hbs', hle, heq⟩ := ih hone
      rw [List.length_append, List.length_singleton] at hbs' hle heq
      exact ⟨bs', hbs', by omega, fun htrue => by rw [heq htrue]; omega⟩
    · rename_i hgot
      rw [if_neg hgot] at hone
      exact ⟨bs, hone, by omega, fun hfalse => absurd hfalse Bool.false_ne_true⟩

theorem totalfb_allocateOne (env : Env) (i : ℕ) (o : Opening) (width height : ℤ) :
    (allocateOne env i o width height).1.handle.totalfb = o.handle.totalfb := by
  obtain ⟨-, -, -, htotal, -⟩ := framebufAlloc_frame env (i + 1) o width height false
  unfold allocateOne
  simp only
  split
  · exact htotal
  · exact htotal

theorem totalfb_allocateLoop (env : Env) (n i : ℕ) (o : Opening) (width height : ℤ) :
    (allocateLoop env width height n i o).1.handle.totalfb = o.handle.totalfb := by
  induction n generalizing i o with
  | zero => rfl
  | succ n ih =>
    rw [allocateLoop]
    split
    · exact (ih _ _).trans (totalfb_allocateOne env i o width height)
    · exact totalfb_allocateOne env i o width height

/-- What is held of a frame buffer that is freed: physical memory at
address 0. -/
def leftover (mfb : MyFrameBuf) : Multiset Resource :=
  if mfb.desc.phyAddr = 0 then {.phys 0} else 0

/-- **`framebuf_free`** gives back the memory of the descriptor, clears it
and touches no other. -/
theorem framebufFree_spec (hvirt : (o.handle.myfbpool b).desc.virtUaddr ≠ 0)
    (h : o.Holds (.virt (o.handle.myfbpool b).desc.virtUaddr ::ₘ
      .phys (o.handle.myfbpool b).desc.phyAddr ::ₘ held)) :
    (framebufFree o (some b)).Holds (leftover (o.handle.myfbpool b) + held) ∧
      (framebufFree o (some b)).handle.pfbpool = o.handle.pfbpool ∧
      ∀ b' ≠ b, (framebufFree o (some b)).handle.myfbpool b' = o.handle.myfbpool b' := by
  unfold framebufFree
  simp only [if_pos hvirt]
  refine ⟨?_, ?_, ?_⟩
  · unfold leftover
    by_cases hphys : (o.handle.myfbpool b).desc.phyAddr = 0
    · rw [if_pos hphys, if_neg (not_not_intro hphys), Multiset.singleton_add, ← hphys]
      exact h.release
    · rw [if_neg hphys, if_pos hphys, zero_add]
      exact h.release.release
  · split <;> rfl
  · intro b' hne
    split <;> exact Function.update_of_ne hne _ _

/-- **The loop at `err`** frees the frame buffers left, each once. -/
theorem freeLoop_spec (hslots : ∀ j, o.handle.pfbpool (i + j) = bs[j]?) (hnodup : bs.Nodup)
    (hlen : bs.length ≤ n) (hvirt : ∀ b ∈ bs, (o.handle.myfbpool b).desc.virtUaddr ≠ 0)
    (h : o.Holds (memory o.handle.myfbpool bs + held)) :
    (freeLoop n i o).Holds ((bs.map fun b => leftover (o.handle.myfbpool b)).sum + held) := by
  induction n generalizing i o bs held with
  | zero =>
    obtain rfl := List.eq_nil_of_length_eq_zero (Nat.le_zero.mp hlen)
    exact h
  | succ n ih =>
    have hslot := hslots 0
    rw [add_zero] at hslot
    rw [freeLoop, hslot]
    have hnext : ∀ j, o.handle.pfbpool (i + 1 + j) = bs[j + 1]? := fun j => by
      rw [← hslots, show i + 1 + j = i + (j + 1) by omega]
    cases bs with
    | nil => exact ih hnext hnodup (Nat.zero_le n) hvirt h
    | cons b bs =>
      obtain ⟨hb, hnodup⟩ := List.nodup_cons.mp hnodup
      obtain ⟨hvirtb, hvirt⟩ := List.forall_mem_cons.mp hvirt
      rw [memory_cons, Multiset.cons_add, Multiset.cons_add] at h
      obtain ⟨hholds, hpfb, hpool⟩ := framebufFree_spec hvirtb h
      rw [add_left_comm] at hholds
      have hsame : ∀ b' ∈ bs,
          (framebufFree o (some b)).handle.myfbpool b' = o.handle.myfbpool b' := fun b' hb' =>
        hpool b' fun heq => hb (heq ▸ hb')
      have hrest : (freeLoop n (i + 1) (framebufFree o (some b))).Holds
          ((bs.map fun b' => leftover ((framebufFree o (some b)).handle.myfbpool b')).sum +
            (leftover (o.handle.myfbpool b) + held)) :=
        ih (fun j => by rw [hpfb]; exact hnext j) hnodup
          (by rw [List.length_cons] at hlen; omega)
          (fun b' hb' => by rw [hsame b' hb']; exact hvirt b' hb')
          (by rw [memory_congr hsame]; exact hholds)
      rw [List.map_congr_left fun b' hb' => congrArg leftover (hsame b' hb')] at hrest
      rw [List.map_cons, List.sum_cons, add_assoc, add_left_comm]
      exact hrest

/-! ## All of them -/

/-- The frame buffers a handle has got leave nothing but physical memory at
address 0 when they are freed. -/
theorem Allocated.leftover_eq_zero (ha : Allocated env o bs held) (hnull : env.NonNull) :
    (bs.map fun b => leftover (o.handle.myfbpool b)).sum = 0 := by
  refine List.sum_eq_zero fun x hx => ?_
  obtain ⟨b, hb, rfl⟩ := List.mem_map.mp hx
  exact if_neg (ha.phys hnull b hb)

/-- **The exit `err`** frees all frame buffers and the two arrays. -/
theorem encoderFreeFramebuffer_spec (ha : Allocated env o bs (.pfbpool ::ₘ .fb ::ₘ held))
    (hlen : bs.length ≤ o.handle.totalfb) :
    ∃ extra, (env.NonNull → extra = 0) ∧ (encoderFreeFramebuffer o).Holds (extra + held) := by
  refine ⟨_, ha.leftover_eq_zero, ?_⟩
  obtain ⟨stack, -, hnodup⟩ := ha.free
  have hfreed := freeLoop_spec (i := 0) (fun j => by rw [zero_add]; exact ha.slots j)
    hnodup.of_append_left hlen ha.virt ha.holds
  rw [Multiset.add_cons, Multiset.add_cons, Multiset.cons_swap] at hfreed
  exact hfreed.release.release

/-- **`encoder_allocate_framebuffer` unwinds itself**: where it fails it
leaves what it found, unless it was given physical memory at address 0. -/
theorem encoderAllocateFramebuffer_spec (env : Env) {stack : List BufId}
    (hring : Ring.Holds o.handle.myfbarray o.handle.myfbIndex stack) (hnodup : stack.Nodup)
    (h : o.Holds held) :
    if (encoderAllocateFramebuffer env o).2 then
      ∃ bs, Allocated env (encoderAllocateFramebuffer env o).1 bs (.pfbpool ::ₘ .fb ::ₘ held)
    else
      ∃ extra, (env.NonNull → extra = 0) ∧
        (encoderAllocateFramebuffer env o).1.Holds (extra + held) := by
  have hnone : ∃ extra : Multiset Resource, (env.NonNull → extra = 0) ∧ o.Holds (extra + held) :=
    ⟨0, fun _ => rfl, by rw [zero_add]; exact h⟩
  unfold encoderAllocateFramebuffer
  simp only
  by_cases hfb : env.callocFb = true
  · by_cases hpool : env.callocPool = true
    · rw [if_pos hfb, if_pos hpool]
      -- the handle as the loop finds it
      set o₁ := (((((o.modify setFbCounts).acquire .fb).modify fun h =>
        { h with fb := fun _ => .cleared }).acquire .pfbpool).modify fun h =>
        { h with pfbpool := fun _ => none }) with ho₁
      have hstart : Allocated env o₁ [] (.pfbpool ::ₘ .fb ::ₘ held) :=
        Allocated.nil hring hnodup (fun i => rfl) ((h.acquire .fb).acquire .pfbpool)
      set n := o₁.handle.minFbCount + extrafbcount o₁.handle.mvcExtension with hn
      have htotal : o₁.handle.totalfb = n + 1 := rfl
      have hsrc : o₁.handle.srcFbid = n := rfl
      obtain ⟨bs, hbs, hle, heq⟩ := allocateLoop_spec n (align16 o.handle.params.encPicwidth)
        (align16 o.handle.params.encPicheight) hstart
      have hfbs := totalfb_allocateLoop env n 0 o₁ (align16 o.handle.params.encPicwidth)
        (align16 o.handle.params.encPicheight)
      rw [List.length_nil] at hbs hle heq
      set enc := allocateLoop env (align16 o.handle.params.encPicwidth)
        (align16 o.handle.params.encPicheight) n 0 o₁ with henc
      by_cases hgot : enc.2 = true
      · have hlen : bs.length = n := by rw [heq hgot, Nat.zero_add]
        rw [if_pos hgot, hsrc]
        by_cases hreg : env.registerFrameBuffer = true
        · have hone := allocateOne_spec (align16 o.handle.params.srcPicwidth)
            (align16 o.handle.params.srcPicheight) hbs
          have hfbs' := totalfb_allocateOne env n enc.1 (align16 o.handle.params.srcPicwidth)
            (align16 o.handle.params.srcPicheight)
          rw [hlen] at hone
          rw [if_pos hreg]
          set src := allocateOne env n enc.1 (align16 o.handle.params.srcPicwidth)
            (align16 o.handle.params.srcPicheight) with hsrc'
          by_cases hsome : src.2 = true
          · rw [if_pos hsome] at hone ⊢
            obtain ⟨b, hone⟩ := hone
            exact ⟨bs ++ [b], hone⟩
          · rw [if_neg hsome] at hone ⊢
            exact encoderFreeFramebuffer_spec hone (by omega)
        · rw [if_neg hreg]
          exact encoderFreeFramebuffer_spec hbs (by omega)
      · rw [if_neg hgot]
        exact encoderFreeFramebuffer_spec hbs (by omega)
    · rw [if_pos hfb, if_neg hpool, if_neg (by simp)]
      obtain ⟨extra, hzero, hholds⟩ := hnone
      exact ⟨extra, hzero, (hholds.acquire .fb).release⟩
  · rw [if_neg hfb, if_neg (by simp)]
    exact hnone

/-! ## A failed open -/

/-- **From `get_initinfo` on** a failure gives back the instance and the
handle, and keeps what there was under them. -/
theorem openFrames_leaves (h : o.Holds (.encInstance ::ₘ .handle ::ₘ held))
    (hfail : (openFrames env o).1 = none) :
    ∃ extra, Leaves ((openFrames env o).2.map Event.entry) (extra + held) := by
  -- `err2`, whatever is held besides
  have herr : ∀ {o' : Opening} {extra : Multiset Resource},
      o'.Holds (extra + (.encInstance ::ₘ .handle ::ₘ held)) →
        ((o'.release .encInstance).release .handle).Holds (extra + held) := by
    intro o' extra ho'
    rw [Multiset.add_cons, Multiset.add_cons] at ho'
    exact ho'.release.release
  unfold openFrames at hfail ⊢
  simp only at hfail ⊢
  cases hinfo : env.initialInfo with
  | none =>
    refine ⟨0, herr ?_⟩
    rw [zero_add]
    exact h
  | some minFbCount =>
    rw [hinfo] at hfail
    simp only at hfail ⊢
    set o₁ := (o.modify fun h => { h with minFbCount := minFbCount }).modify initFramebuf
    have hring : Ring.Holds o₁.handle.myfbarray o₁.handle.myfbIndex (List.finRange 32) :=
      (Stacked.fresh _).ring
    have hstart : o₁.Holds (.encInstance ::ₘ .handle ::ₘ held) := h
    have hspec := encoderAllocateFramebuffer_spec env hring (List.nodup_finRange 32) hstart
    by_cases hgot : (encoderAllocateFramebuffer env o₁).2 = true
    · rw [if_pos hgot] at hspec hfail ⊢
      obtain ⟨bs, hbs⟩ := hspec
      cases hprep : prepareEncode (encoderAllocateFramebuffer env o₁).1.handle with
      | none =>
        have hholds := hbs.holds
        rw [← Multiset.singleton_add, ← Multiset.singleton_add Resource.fb, ← add_assoc,
          ← add_assoc] at hholds
        exact ⟨_, herr hholds⟩
      | some h =>
        rw [hprep] at hfail
        exact absurd hfail (by simp)
    · rw [if_neg hgot] at hspec ⊢
      obtain ⟨extra, -, hholds⟩ := hspec
      exact ⟨extra, herr hholds⟩

/-- **Past the allocation of the handle every exit keeps something**: the
handle, or the VPU. -/
theorem encodeOpen_leaves (hmalloc : env.malloc = true)
    (hfail : (encodeOpen env param).1 = none) :
    ∃ held, Leaves ((encodeOpen env param).2.map Event.entry) held ∧
      (.handle ∈ held ∨ .vpu ∈ held) := by
  have hstart : (Opening.mk (clearedHandle param) []).Holds 0 := Ledger.leaves_nil
  have hhandle := hstart.acquire .handle
  have hvpu := hhandle.acquire .vpu
  unfold encodeOpen at hfail ⊢
  rw [if_pos hmalloc] at hfail ⊢
  simp only at hfail ⊢
  by_cases hinit : env.vpuInit = true
  · rw [if_pos hinit] at hfail ⊢
    by_cases hversion : env.versionInfo = true
    · rw [if_pos hversion] at hfail ⊢
      cases hphys : env.physMem 0 with
      | none => exact ⟨_, hvpu, by simp⟩
      | some phys =>
        rw [hphys] at hfail
        simp only at hfail ⊢
        have hmem := hvpu.acquire (.phys phys)
        by_cases hvirt : env.virtMem 0 = 0
        · rw [if_pos hvirt]
          exact ⟨_, hmem.release, by simp⟩
        · rw [if_neg hvirt] at hfail ⊢
          have hbuf := (hmem.acquire (.virt (env.virtMem 0))).modify fun h => { h with
            memDesc := ⟨streamBufSize, phys, env.virtMem 0⟩
            virtBsbufAddr := env.virtMem 0
            phyBsbufAddr := phys }
          -- the handle goes last, whatever lies over it
          rw [Multiset.cons_swap Resource.vpu, Multiset.cons_swap (Resource.phys phys),
            Multiset.cons_swap (Resource.virt _)] at hbuf
          by_cases hopen : env.encOpen = true
          · rw [if_pos hopen] at hfail ⊢
            obtain ⟨extra, hleaves⟩ := openFrames_leaves (hbuf.acquire .encInstance) hfail
            exact ⟨_, hleaves, by simp⟩
          · rw [if_neg hopen]
            exact ⟨_, hbuf.release, by simp⟩
    · rw [if_neg hversion]
      exact ⟨_, hvpu.release, by simp⟩
  · rw [if_neg hinit]
    exact ⟨_, hhandle, by simp⟩

/-- **A failed `encode_open` leaves nothing behind exactly where it could
not allocate the handle.** -/
theorem settled_encodeOpen_iff (hfail : (encodeOpen env param).1 = none) :
    Settled ((encodeOpen env param).2.map Event.entry) ↔ env.malloc = false := by
  constructor
  · intro hsettled
    by_contra hmalloc
    obtain ⟨held, hleaves, hmem⟩ := encodeOpen_leaves (Bool.not_eq_false _ ▸ hmalloc) hfail
    obtain rfl := hsettled.unique hleaves
    rcases hmem with hmem | hmem
    · exact absurd hmem (Multiset.notMem_zero _)
    · exact absurd hmem (Multiset.notMem_zero _)
  · intro hmalloc
    unfold encodeOpen
    rw [hmalloc]
    exact Ledger.leaves_nil

/-- An encoder whose third frame buffer is refused. -/
theorem settled_encodeOpen_iff_third :
    let env : Env := { Env.granting 1 with
      physMem := fun k => if k < 3 then some (0x10000000 + UInt32.ofNat k * 0x400000) else none }
    let param : EncParam := ⟨640, 480, 640, 480, 15, 1000, 12, 0⟩
    Settled ((encodeOpen env param).2.map Event.entry) ↔ env.malloc = false :=
  settled_encodeOpen_iff rfl

/-- **An instance that does not open** leaves the VPU initialised and the
bitstream memory taken. -/
theorem not_settled_encodeOpen :
    let env : Env := { Env.granting 1 with encOpen := false }
    let param : EncParam := ⟨640, 480, 640, 480, 15, 1000, 12, 0⟩
    (encodeOpen env param).1 = none ∧ ¬ Settled ((encodeOpen env param).2.map Event.entry) :=
  ⟨rfl, by decide⟩

end Vpu

end Camkit
