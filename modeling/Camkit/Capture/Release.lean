import Camkit.Capture.Model.Open
import Camkit.Common.Ledger
import Mathlib.Algebra.Order.Group.Multiset
import Mathlib.Data.Multiset.Range
/-!
# V4L2 capture — what a failed `capture_open` leaves behind

`init_mmap` counts back over the buffers it has mapped and frees their
array, and `capture_open` frees the handle. Neither closes the descriptor,
which nobody can close any more once the handle is gone.
-/

namespace Camkit

namespace Capture

open Ledger (Leaves Settled)

variable {env : OpenEnv} {param : CapParam} {o : Opening} {held : Multiset Resource}
variable {n : ℕ} {r : Resource}

/-! ## The log as a ledger -/

/-- An entry of the log, for the ledger. -/
def LogEntry.entry : LogEntry → Ledger.Entry Resource
  | .acquire r => .acquire r
  | .release r => .release r

/-- What is held while the handle is being opened. -/
def Opening.Holds (o : Opening) (held : Multiset Resource) : Prop :=
  Leaves (o.log.map LogEntry.entry) held

namespace Opening.Holds

theorem acquire (h : o.Holds held) (r : Resource) : (o.acquire r).Holds (r ::ₘ held) :=
  Leaves.log_acquire rfl h

theorem release (h : o.Holds (r ::ₘ held)) : (o.release r).Holds held :=
  Leaves.log_release rfl h

theorem modify (h : o.Holds held) (f : CapHandle → CapHandle) : (o.modify f).Holds held := h

end Opening.Holds

/-! ## The mappings -/

/-- The mappings of the first `n` buffers. -/
def mappings (buffers : ℕ → Buffer) (n : ℕ) : Multiset Resource :=
  (Multiset.range n).map fun i => .mapping (buffers i).start (buffers i).length

theorem mappings_succ {buffers : ℕ → Buffer} :
    mappings buffers (n + 1) =
      .mapping (buffers n).start (buffers n).length ::ₘ mappings buffers n := by
  rw [mappings, Multiset.range_succ, Multiset.map_cons, mappings]

/-- Another buffer leaves the mappings below it as they are. -/
theorem mappings_update {buffers : ℕ → Buffer} {b : Buffer} :
    mappings (Function.update buffers n b) n = mappings buffers n := by
  refine Multiset.map_congr rfl fun i hi => ?_
  rw [Function.update_of_ne (Multiset.mem_range.mp hi).ne]

/-- **The mapping loop** holds the mappings of the buffers it has counted,
whether or not it gets through. -/
theorem mapLoop_holds (h : o.Holds (mappings o.handle.buffers o.handle.nbuffers + held)) :
    (mapLoop env n o).1.Holds
      (mappings (mapLoop env n o).1.handle.buffers (mapLoop env n o).1.handle.nbuffers + held) := by
  induction n generalizing o with
  | zero => exact h
  | succ n ih =>
    rw [mapLoop]
    cases env.querybuf o.handle.nbuffers with
    | none => exact h
    | some length =>
      cases env.mmap o.handle.nbuffers with
      | none => exact h
      | some start =>
        refine ih ?_
        have hsucc : mappings (Function.update o.handle.buffers o.handle.nbuffers ⟨start, length⟩)
            (o.handle.nbuffers + 1) =
              .mapping start length ::ₘ mappings o.handle.buffers o.handle.nbuffers := by
          rw [mappings_succ, mappings_update, Function.update_self]
        change Opening.Holds _ (mappings (Function.update o.handle.buffers o.handle.nbuffers
          ⟨start, length⟩) (o.handle.nbuffers + 1) + held)
        rw [hsucc, Multiset.cons_add]
        exact h.acquire (.mapping start length)

/-- **The loop at `err`** gives back each of them, with its own length. -/
theorem unmapLoop_holds (h : o.Holds (mappings o.handle.buffers n + held)) :
    (unmapLoop n o).Holds held := by
  induction n generalizing o with
  | zero =>
    rw [mappings, Multiset.range_zero, Multiset.map_zero, zero_add] at h
    exact h
  | succ n ih =>
    rw [mappings_succ, Multiset.cons_add] at h
    exact ih h.release

/-- **`init_mmap` unwinds itself**: where it fails it holds what it held
before. -/
theorem initMmap_holds (h : o.Holds held) (hfail : (initMmap env o).2 = false) :
    (initMmap env o).1.Holds held := by
  unfold initMmap at hfail ⊢
  cases hreq : env.reqbufs with
  | none => exact h
  | some count =>
    rw [hreq] at hfail
    simp only at hfail ⊢
    split
    · exact h
    · rename_i hle
      rw [if_neg hle] at hfail
      split
      · rename_i hcalloc
        rw [if_pos hcalloc] at hfail
        split
        · rename_i hmapped
          rw [if_pos hmapped, hmapped] at hfail
          exact absurd hfail (by decide)
        · -- the loop starts on the empty array, with no buffer counted
          refine Opening.Holds.release (unmapLoop_holds (mapLoop_holds ?_))
          change Opening.Holds _ (mappings (fun _ => ⟨0, 0⟩) 0 + (.buffers ::ₘ held))
          rw [mappings, Multiset.range_zero, Multiset.map_zero, zero_add]
          exact h.acquire .buffers
      · exact h

/-- `init_device` takes nothing besides. -/
theorem initDevice_holds (env : OpenEnv) (h : o.Holds held) (hfail : (initDevice env o).2 = false) :
    (initDevice env o).1.Holds held := by
  unfold initDevice at hfail ⊢
  cases hcap : env.querycap with
  | none => exact h
  | some cap =>
    rw [hcap] at hfail
    simp only at hfail ⊢
    split
    · exact h
    · rename_i hcapture
      rw [if_neg hcapture] at hfail
      split
      · exact h
      · rename_i hstreaming
        rw [if_neg hstreaming] at hfail
        split
        · exact h
        · rename_i pix hfmt
          rw [hfmt] at hfail
          simp only at hfail
          split
          · exact h
          · rename_i hsize
            rw [if_neg hsize] at hfail
            split
            · rename_i hparm
              rw [if_pos hparm] at hfail
              exact initMmap_holds (h.modify _) hfail
            · exact h

/-! ## A failed open -/

/-- The device has been opened. -/
def Opened (env : OpenEnv) (param : CapParam) : Prop :=
  env.malloc = true ∧ env.stat param.devName = some true ∧ env.openDevice param.devName = true

instance : Decidable (Opened env param) := by
  unfold Opened
  infer_instance

/-- The handle is all there is before the device is opened. -/
theorem leaves_of_not_opened (hopen : ¬ Opened env param) :
    Leaves ((captureOpen env param).2.map LogEntry.entry) 0 := by
  have hstart : (Opening.mk (clearedHandle param) []).Holds 0 := Ledger.leaves_nil
  have herr := (hstart.acquire .handle).release
  unfold captureOpen
  split
  · rename_i hmalloc
    simp only
    cases hstat : env.stat param.devName with
    | none => exact herr
    | some isChr =>
      cases isChr with
      | false => exact herr
      | true =>
        have hdev : ¬ env.openDevice param.devName = true := fun hdev =>
          hopen ⟨hmalloc, hstat, hdev⟩
        simp only [Bool.not_true, Bool.false_eq_true, if_false, if_neg hdev]
        exact herr
  · exact Ledger.leaves_nil

/-- Once it is open, a failure leaves the descriptor and nothing else. -/
theorem leaves_of_opened (hopen : Opened env param) (hfail : (captureOpen env param).1 = none) :
    Leaves ((captureOpen env param).2.map LogEntry.entry) {.fd} := by
  obtain ⟨hmalloc, hstat, hdev⟩ := hopen
  have hstart : (Opening.mk (clearedHandle param) []).Holds 0 := Ledger.leaves_nil
  unfold captureOpen at hfail ⊢
  simp only [hmalloc, hstat, hdev, Bool.not_true, Bool.false_eq_true, if_true, if_false] at hfail ⊢
  split
  · rename_i hready
    rw [if_pos hready] at hfail
    exact absurd hfail (by simp)
  · rename_i hready
    have hleft := initDevice_holds env ((hstart.acquire .handle).acquire .fd)
      (Bool.eq_false_iff.mpr hready)
    -- the handle lies under the descriptor
    rw [Multiset.cons_swap] at hleft
    exact hleft.release

/-- **A failed `capture_open` leaves nothing behind exactly where it has not
opened the device**; where it has, it leaves the descriptor open, and
nothing else. -/
theorem settled_captureOpen_iff (hfail : (captureOpen env param).1 = none) :
    (Settled ((captureOpen env param).2.map LogEntry.entry) ↔ ¬ Opened env param) ∧
      (Opened env param → Leaves ((captureOpen env param).2.map LogEntry.entry) {.fd}) := by
  refine ⟨⟨fun hsettled hopen => ?_, leaves_of_not_opened⟩, fun hopen =>
    leaves_of_opened hopen hfail⟩
  have heq := hsettled.unique (leaves_of_opened hopen hfail)
  exact absurd heq (by decide)

/-- A camera that maps two of the four buffers it grants and then fails. -/
def failingThird : OpenEnv :=
  { OpenEnv.granting 4 with mmap := fun i => if i < 2 then some (0x40000000 + i) else none }

/-- The two are unmapped, and the descriptor stays open. -/
theorem settled_captureOpen_iff_failingThird :
    let param : CapParam := ⟨"/dev/video0", 640, 480, 0x56595559, 30⟩
    let log := (captureOpen failingThird param).2.map LogEntry.entry
    (Settled log ↔ ¬ Opened failingThird param) ∧
      (Opened failingThird param → Leaves log {.fd}) :=
  settled_captureOpen_iff rfl

/-- **A camera that refuses the size asked for keeps the descriptor.** -/
theorem not_settled_captureOpen :
    let env : OpenEnv := { OpenEnv.granting 4 with setFmt := fun _ _ _ => some ⟨320, 240, 153600⟩ }
    let param : CapParam := ⟨"/dev/video0", 640, 480, 0x56595559, 30⟩
    (captureOpen env param).1 = none ∧
      ¬ Settled ((captureOpen env param).2.map LogEntry.entry) :=
  ⟨rfl, by decide⟩

end Capture

end Camkit
