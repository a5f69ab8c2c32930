import Camkit.Common.Machine
import Camkit.Common.Ring
import Camkit.Vpu.Model.Encoder
import Mathlib.Data.List.FinRange
/-!
# VPU encoder — the frame-buffer pool

`get_framebuf` and `put_framebuf` keep a stack of the free descriptors in
the ring `myfbarray`. A get on an empty pool moves `myfb_index` too, so
the index says nothing of how many are out; where the free ones lie in the
ring does.
-/

namespace Camkit

namespace Vpu

/-! ## Calls on the pool -/

/-- A call on the pool. -/
inductive PoolCall where
  | get
  | put (b : BufId)
  deriving DecidableEq, Repr

/-- The handle and the descriptors out of its pool, each as often as it is
out. -/
structure PoolState where
  handle : EncHandle
  outstanding : List BufId

/-- The pool from `init_framebuf` on. -/
def PoolState.fresh (h : EncHandle) : PoolState := ⟨initFramebuf h, []⟩

/-- Successive calls, a put being of a descriptor that is out, and what each
get returns. -/
def pool : Machine PoolState PoolCall (Option BufId) where
  step s
    | .get =>
      let got := getFramebuf s.handle
      some (⟨got.1, got.2.toList ++ s.outstanding⟩, got.2)
    | .put b =>
      if b ∈ s.outstanding then
        some (⟨putFramebuf s.handle b, s.outstanding.erase b⟩, none)
      else none

variable {h : EncHandle} {s s' s₀ : PoolState} {call : PoolCall} {calls : List PoolCall}
variable {o : Option BufId} {outs : List (Option BufId)} {stack : List BufId} {b : BufId}

/-! ## The free descriptors are a stack -/

/-- **The free descriptors are a stack in the ring**, and with those out
they are all there are, each once. -/
structure Stacked (s : PoolState) (stack : List BufId) : Prop where
  ring : Ring.Holds s.handle.myfbarray s.handle.myfbIndex stack
  all : (s.outstanding ++ stack).Perm (List.finRange 32)

namespace Stacked

theorem length (hs : Stacked s stack) : s.outstanding.length + stack.length = 32 := by
  rw [← List.length_append, hs.all.length_eq, List.length_finRange]

theorem nodup (hs : Stacked s stack) : (s.outstanding ++ stack).Nodup :=
  hs.all.nodup_iff.mpr (List.nodup_finRange 32)

theorem mem_or (hs : Stacked s stack) (b : BufId) : b ∈ s.outstanding ∨ b ∈ stack :=
  List.mem_append.mp (hs.all.mem_iff.mpr (List.mem_finRange b))

theorem length_lt (hs : Stacked s stack) (hb : b ∈ s.outstanding) : stack.length < 32 := by
  have hlen := hs.length
  have hpos := List.length_pos_of_mem hb
  omega

/-- `init_framebuf` fills the ring from its first slot. -/
theorem fresh (h : EncHandle) : Stacked (.fresh h) (List.finRange 32) := by
  refine ⟨⟨by rw [List.length_finRange], fun k => ?_⟩, List.Perm.refl _⟩
  rw [List.getElem?_eq_getElem (by rw [List.length_finRange]; exact k.isLt),
    List.getElem_finRange]
  exact congrArg some (zero_add k)

/-- A get takes the top. -/
theorem get (hs : Stacked s stack) (hstep : pool.step s .get = some (s', o)) :
    Stacked s' stack.tail := by
  obtain ⟨rfl, rfl⟩ := Prod.mk.inj (Option.some.inj hstep)
  refine ⟨hs.ring.pop, ?_⟩
  have htop : (getFramebuf s.handle).2 = stack.head? := hs.ring.slot_index
  rw [htop]
  cases stack with
  | nil => exact hs.all
  | cons b stack => exact List.perm_middle.symm.trans hs.all

/-- A put of a descriptor that is out goes on the top. -/
theorem put (hs : Stacked s stack) (hstep : pool.step s (.put b) = some (s', o)) :
    Stacked s' (b :: stack) := by
  have hb : b ∈ s.outstanding := by
    by_contra hb
    exact absurd ((if_neg hb).symm.trans hstep) (by simp)
  obtain ⟨rfl, rfl⟩ := Prod.mk.inj (Option.some.inj ((if_pos hb).symm.trans hstep))
  refine ⟨hs.ring.push (hs.length_lt hb) b, ?_⟩
  have hperm := (List.perm_cons_erase hb).append_right stack
  exact List.perm_middle.trans (hperm.symm.trans hs.all)

end Stacked

/-- What one call does to the free descriptors. -/
theorem exists_stacked_step (hs : ∃ stack, Stacked s stack)
    (hstep : pool.step s call = some (s', o)) : ∃ stack, Stacked s' stack := by
  obtain ⟨stack, hs⟩ := hs
  cases call with
  | get => exact ⟨_, hs.get hstep⟩
  | put b => exact ⟨_, hs.put hstep⟩

theorem exists_stacked (hrun : pool.run (.fresh h) calls = some (s, outs)) :
    ∃ stack, Stacked s stack :=
  Machine.run_invariant (I := fun s => ∃ stack, Stacked s stack) ⟨_, Stacked.fresh h⟩
    (fun _ _ _ _ => exists_stacked_step) hrun

/-! ## No descriptor is lost or duplicated -/

/-- **The pool has every descriptor once**, out or in the ring. -/
structure Intact (s : PoolState) : Prop where
  /-- none is out twice -/
  nodup : s.outstanding.Nodup
  /-- one that is out is in no slot -/
  not_stored : ∀ b ∈ s.outstanding, ∀ i, s.handle.myfbarray i ≠ some b
  /-- one that is not out is in one slot -/
  stored : ∀ b, b ∉ s.outstanding → ∃! i, s.handle.myfbarray i = some b
  /-- the slots in use follow the index -/
  contiguous : ∀ k : Fin 32, (s.handle.myfbarray (s.handle.myfbIndex + k)).isSome ↔
    k.val < 32 - s.outstanding.length
  /-- a get fails exactly where all are out -/
  get_eq_none : (getFramebuf s.handle).2 = none ↔ ∀ b, b ∈ s.outstanding
  /-- a put leaves the slots in use as they are -/
  put_keeps : ∀ b ∈ s.outstanding, ∀ i c, s.handle.myfbarray i = some c →
    (putFramebuf s.handle b).myfbarray i = some c

theorem Stacked.intact (hs : Stacked s stack) : Intact s where
  nodup := hs.nodup.of_append_left
  not_stored b hb i hi :=
    List.disjoint_of_nodup_append hs.nodup hb (hs.ring.mem_iff.mpr ⟨i, hi⟩)
  stored b hb := by
    obtain ⟨i, hi⟩ := hs.ring.mem_iff.mp ((hs.mem_or b).resolve_left hb)
    exact ⟨i, hi, fun j hj => hs.ring.slot_injective hs.nodup.of_append_right hj hi⟩
  contiguous k := by
    have hlen := hs.length
    rw [hs.ring.isSome_slot_iff]
    omega
  get_eq_none := by
    have htop : (getFramebuf s.handle).2 = stack.head? := hs.ring.slot_index
    rw [htop, List.head?_eq_none_iff]
    constructor
    · rintro rfl b
      exact (hs.mem_or b).resolve_right List.not_mem_nil
    · intro hall
      refine List.eq_nil_iff_forall_not_mem.mpr fun b hb => ?_
      exact List.disjoint_of_nodup_append hs.nodup (hall b) hb
  put_keeps b hb i c hi := by
    have hne : i ≠ s.handle.myfbIndex - 1 := by
      rintro rfl
      rw [hs.ring.slot_before (hs.length_lt hb)] at hi
      exact absurd hi (by simp)
    exact (Function.update_of_ne hne _ _).trans hi

/-- **The pool neither loses nor duplicates a descriptor**, whatever the
calls since `init_framebuf`. -/
theorem intact_of_run (hrun : pool.run (.fresh h) calls = some (s, outs)) : Intact s := by
  obtain ⟨stack, hs⟩ := exists_stacked hrun
  exact hs.intact

/-- Two descriptors out, back in the order they were taken in. -/
theorem intact_of_run_two :
    let h := clearedHandle ⟨640, 480, 640, 480, 15, 1000, 12, 0⟩
    ∃ s outs,
      pool.run (.fresh h) [.get, .get, .put 0, .put 1, .get] = some (s, outs) ∧ Intact s := by
  intro h
  refine ⟨_, _, rfl, ?_⟩
  exact intact_of_run (show pool.run (.fresh h) [.get, .get, .put 0, .put 1, .get] =
    some (_, _) from rfl)

end Vpu

end Camkit
