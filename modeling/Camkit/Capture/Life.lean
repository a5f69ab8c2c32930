import Camkit.Capture.Model.Stream
import Camkit.Capture.Release
import Camkit.Common.Machine
/-!
# V4L2 capture — from `capture_open` to `capture_close`

The handle that `capture_open` returns holds a mapping for each of its
buffers. No session changes them, nor the size of an image, so an image that
is returned is in a mapping that is there, and `capture_close` finds all of
them to give back.
-/

namespace Camkit

namespace Capture

open Ledger (Leaves Settled)

variable {env : OpenEnv} {param : CapParam} {o : Opening} {held : Multiset Resource}
variable {i n : ℕ} {h : CapHandle} {s s' : Device} {e : Event} {out : Output}

/-! ## An open handle -/

/-- What an open handle holds. -/
def CapHandle.holds (h : CapHandle) : Multiset Resource :=
  mappings h.buffers h.nbuffers + (.buffers ::ₘ .fd ::ₘ .handle ::ₘ 0)

theorem imageSize_mapLoop : (mapLoop env n o).1.handle.imageSize = o.handle.imageSize := by
  induction n generalizing o with
  | zero => rfl
  | succ n ih =>
    rw [mapLoop]
    cases env.querybuf o.handle.nbuffers with
    | none => rfl
    | some length =>
      cases env.mmap o.handle.nbuffers with
      | none => rfl
      | some start => exact ih

/-- **`init_mmap`**, where it succeeds. -/
theorem opened_initMmap (ho : o.Holds held) (hok : (initMmap env o).2 = true) :
    (initMmap env o).1.Holds (mappings (initMmap env o).1.handle.buffers
      (initMmap env o).1.handle.nbuffers + (.buffers ::ₘ held)) ∧
    (initMmap env o).1.handle.imageSize = o.handle.imageSize := by
  unfold initMmap at hok ⊢
  cases hreq : env.reqbufs with
  | none =>
    rw [hreq] at hok
    exact absurd hok (by simp)
  | some count =>
    rw [hreq] at hok
    simp only at hok ⊢
    split at hok
    · exact absurd hok (by simp)
    · rename_i hle
      rw [if_neg hle]
      split at hok
      · rename_i hcalloc
        rw [if_pos hcalloc]
        split at hok
        · rename_i hmapped
          rw [if_pos hmapped]
          refine ⟨mapLoop_holds ?_, imageSize_mapLoop⟩
          change Opening.Holds _ (mappings (fun _ => ⟨0, 0⟩) 0 + (.buffers ::ₘ held))
          rw [mappings, Multiset.range_zero, Multiset.map_zero, zero_add]
          exact ho.acquire .buffers
        · exact absurd hok (by simp)
      · exact absurd hok (by simp)

/-- **`init_device`**, where it succeeds. -/
theorem opened_initDevice (ho : o.Holds held) (hok : (initDevice env o).2 = true) :
    (initDevice env o).1.Holds (mappings (initDevice env o).1.handle.buffers
      (initDevice env o).1.handle.nbuffers + (.buffers ::ₘ held)) ∧
    ∃ pix, env.setFmt (.ofInt o.handle.params.width) (.ofInt o.handle.params.height)
        o.handle.params.pixfmt = some pix ∧
      (initDevice env o).1.handle.imageSize = pix.sizeimage.toInt32.toInt := by
  unfold initDevice at hok ⊢
  cases hcap : env.querycap with
  | none =>
    rw [hcap] at hok
    exact absurd hok (by simp)
  | some cap =>
    rw [hcap] at hok
    simp only at hok ⊢
    split at hok
    · exact absurd hok (by simp)
    · rename_i hcapture
      rw [if_neg hcapture]
      split at hok
      · exact absurd hok (by simp)
      · rename_i hstreaming
        rw [if_neg hstreaming]
        split at hok
        · exact absurd hok (by simp)
        · rename_i pix hfmt
          split at hok
          · exact absurd hok (by simp)
          · rename_i hsize
            rw [if_neg hsize]
            split at hok
            · rename_i hparm
              rw [if_pos hparm]
              obtain ⟨hholds, himage⟩ := opened_initMmap (ho.modify _) hok
              exact ⟨hholds, pix, hfmt, himage⟩
            · exact absurd hok (by simp)

/-- **`capture_open` opens a handle**: what it holds, and the size of an
image, which is the driver's. -/
theorem opened_captureOpen (hopen : (captureOpen env param).1 = some h) :
    Leaves ((captureOpen env param).2.map LogEntry.entry) h.holds ∧
      ∃ pix, env.setFmt (.ofInt param.width) (.ofInt param.height) param.pixfmt = some pix ∧
        h.imageSize = pix.sizeimage.toInt32.toInt := by
  have hstart : (Opening.mk (clearedHandle param) []).Holds 0 := Ledger.leaves_nil
  unfold captureOpen at hopen ⊢
  split at hopen
  · rename_i hmalloc
    rw [if_pos hmalloc]
    simp only at hopen ⊢
    split at hopen
    · exact absurd hopen (by simp)
    · rename_i isChr hstat
      split at hopen
      · exact absurd hopen (by simp)
      · rename_i hchr
        rw [if_neg hchr]
        split at hopen
        · rename_i hdev
          rw [if_pos hdev]
          split at hopen
          · rename_i hready
            rw [if_pos hready]
            obtain rfl := Option.some.inj hopen
            exact opened_initDevice ((hstart.acquire .handle).acquire .fd) hready
          · exact absurd hopen (by simp)
        · exact absurd hopen (by simp)
  · exact absurd hopen (by simp)

/-! ## Sessions -/

/-- The buffers of a handle, and the size of an image. -/
def CapHandle.mapped (h : CapHandle) : (ℕ → Buffer) × ℕ × ℤ := (h.buffers, h.nbuffers, h.imageSize)

/-- An image is at the start of one of the buffers, and has the size the
driver settled on. -/
def Output.Within (h : CapHandle) : Output → Prop
  | .got ⟨_, _, some x⟩ =>
    x.index < h.nbuffers ∧ x.start = (h.buffers x.index).start ∧ x.len = h.imageSize
  | _ => True

/-- An image has the size `size` and is at the start of a mapping held. -/
def Output.Shown (size : ℤ) (held : Multiset Resource) : Output → Prop
  | .got ⟨_, _, some x⟩ => x.len = size ∧ ∃ length, .mapping x.start length ∈ held
  | _ => True

/-- The buffers of a handle are among what it holds. -/
theorem Output.Within.shown (hout : out.Within h) : out.Shown h.imageSize h.holds := by
  cases out with
  | got r =>
    obtain ⟨ret, qbuf, image⟩ := r
    cases image with
    | none => trivial
    | some x =>
      obtain ⟨hlt, hstart, hlen⟩ := hout
      refine ⟨hlen, (h.buffers x.index).length, ?_⟩
      rw [hstart, CapHandle.holds, mappings]
      exact Multiset.mem_add.mpr
        (.inl (Multiset.mem_map.mpr ⟨x.index, Multiset.mem_range.mpr hlt, rfl⟩))
  | _ => trivial

theorem mapped_putBack {ok : Bool} (hput : putBack ok s = some s') :
    s'.handle.mapped = s.handle.mapped := by
  unfold putBack at hput
  split at hput
  · exact Option.some.inj hput ▸ rfl
  · split at hput
    · exact absurd hput (by simp)
    · exact Option.some.inj hput ▸ rfl

theorem within_dequeue {answer : DqbufAnswer} {asked : Option (ℕ × Slot)} {r : GetDataResult}
    (hdeq : dequeue answer asked s = some (s', r)) :
    s'.handle.mapped = s.handle.mapped ∧ (Output.got r).Within s.handle := by
  unfold dequeue at hdeq
  split at hdeq
  · obtain ⟨rfl, rfl⟩ := Prod.mk.inj (Option.some.inj hdeq)
    exact ⟨rfl, trivial⟩
  · obtain ⟨rfl, rfl⟩ := Prod.mk.inj (Option.some.inj hdeq)
    exact ⟨rfl, trivial⟩
  · split at hdeq
    · simp only at hdeq
      split at hdeq
      · rename_i hlt
        obtain ⟨rfl, rfl⟩ := Prod.mk.inj (Option.some.inj hdeq)
        exact ⟨rfl, hlt, rfl, rfl⟩
      · obtain ⟨rfl, rfl⟩ := Prod.mk.inj (Option.some.inj hdeq)
        exact ⟨rfl, trivial⟩
    · exact absurd hdeq (by simp)

theorem Output.Within.congr {h' : CapHandle} (hout : out.Within h) (heq : h'.mapped = h.mapped) :
    out.Within h' := by
  simp only [CapHandle.mapped, Prod.mk.injEq] at heq
  obtain ⟨hbuffers, hn, hsize⟩ := heq
  cases out with
  | got r =>
    obtain ⟨ret, qbuf, image⟩ := r
    cases image with
    | none => trivial
    | some x =>
      rw [Output.Within, hbuffers, hn, hsize]
      exact hout
  | _ => trivial

/-- **`capture_get_data`** changes neither. -/
theorem within_captureGetData {get : GetDataEnv} {r : GetDataResult}
    (hget : captureGetData get s = some (s', r)) :
    s'.handle.mapped = s.handle.mapped ∧ (Output.got r).Within s.handle := by
  unfold captureGetData at hget
  split at hget
  · obtain ⟨rfl, rfl⟩ := Prod.mk.inj (Option.some.inj hget)
    exact ⟨rfl, trivial⟩
  · obtain ⟨rfl, rfl⟩ := Prod.mk.inj (Option.some.inj hget)
    exact ⟨rfl, trivial⟩
  · simp only at hget
    split at hget
    · obtain ⟨rfl, rfl⟩ := Prod.mk.inj (Option.some.inj hget)
      exact ⟨rfl, trivial⟩
    · rename_i s₂ hput
      have hmapped := mapped_putBack hput
      obtain ⟨hsame, hwithin⟩ := within_dequeue hget
      exact ⟨hsame.trans hmapped, hwithin.congr hmapped.symm⟩

theorem mapped_captureStart (start : StartEnv) :
    (captureStart start s).1.handle.mapped = s.handle.mapped := by
  unfold captureStart
  simp only
  split
  · split <;> rfl
  · rfl

/-- **No event of a session** changes the buffers. -/
theorem within_step (hstep : captures.step s e = some (s', out)) :
    s'.handle.mapped = s.handle.mapped ∧ out.Within s.handle := by
  cases e with
  | start start =>
    obtain ⟨rfl, rfl⟩ := Prod.mk.inj (Option.some.inj hstep)
    exact ⟨mapped_captureStart start, trivial⟩
  | stop =>
    obtain ⟨rfl, rfl⟩ := Prod.mk.inj (Option.some.inj hstep)
    exact ⟨rfl, trivial⟩
  | during a =>
    cases a with
    | complete i =>
      obtain ⟨rfl, rfl⟩ := Prod.mk.inj (Option.some.inj hstep)
      exact ⟨rfl, trivial⟩
    | getData get =>
      obtain ⟨⟨s₁, r⟩, hget, heq⟩ := Option.map_eq_some_iff.mp hstep
      obtain ⟨rfl, rfl⟩ := Prod.mk.inj heq
      exact within_captureGetData hget

/-! ## Closing -/

/-- The mappings from `i` on, the first of them apart. -/
theorem mappings_shift {buffers : ℕ → Buffer} :
    mappings (fun j => buffers (i + j)) (n + 1) =
      .mapping (buffers i).start (buffers i).length ::ₘ
        mappings (fun j => buffers (i + 1 + j)) n := by
  have hrange : Multiset.range (n + 1) = 0 ::ₘ (Multiset.range n).map Nat.succ :=
    congrArg Multiset.ofList List.range_succ_eq_map
  rw [mappings, hrange, Multiset.map_cons, Multiset.map_map, mappings]
  refine congrArg (_ ::ₘ ·) (Multiset.map_congr rfl fun j _ => ?_)
  rw [Function.comp_apply, Nat.succ_eq_add_one, add_right_comm, add_assoc]

/-- **The loop of `uninit_device`** gives back the mappings it counts up
over. -/
theorem uninitLoop_holds (ho : o.Holds (mappings (fun j => o.handle.buffers (i + j)) n + held)) :
    (uninitLoop n i o).Holds held := by
  induction n generalizing i o with
  | zero =>
    rw [mappings, Multiset.range_zero, Multiset.map_zero, zero_add] at ho
    exact ho
  | succ n ih =>
    rw [mappings_shift, Multiset.cons_add] at ho
    exact ih ho.release

/-- **`capture_close`** gives back all that an open handle holds. -/
theorem captureClose_holds (ho : o.Holds o.handle.holds) : (captureClose o).Holds 0 := by
  have hloop : (uninitLoop o.handle.nbuffers 0 o).Holds (.buffers ::ₘ .fd ::ₘ .handle ::ₘ 0) := by
    refine uninitLoop_holds ?_
    simp only [zero_add]
    exact ho
  exact hloop.release.release.release

/-! ## A life -/

/-- **From `capture_open` to `capture_close`**: whatever is called in
between and whatever the driver does, each image returned is at the start of
a mapping that is held and has the size the driver settled on, and closing
the device gives back everything that opening it took, each thing once. -/
theorem released_of_run {es : List Event} {outs : List Output}
    (hopen : (captureOpen env param).1 = some h)
    (hrun : captures.run (Device.opened h) es = some (s, outs)) :
    ∃ pix, env.setFmt (.ofInt param.width) (.ofInt param.height) param.pixfmt = some pix ∧
      Leaves ((captureOpen env param).2.map LogEntry.entry) h.holds ∧
      (∀ out ∈ outs, out.Within h ∧ out.Shown pix.sizeimage.toInt32.toInt h.holds) ∧
      Settled ((captureClose ⟨s.handle, (captureOpen env param).2⟩).log.map LogEntry.entry) := by
  obtain ⟨hleaves, pix, hfmt, hsize⟩ := opened_captureOpen hopen
  have hmapped : s.handle.mapped = h.mapped ∧ ∀ out ∈ outs, out.Within h := by
    refine Machine.run_forall (I := fun s => s.handle.mapped = h.mapped) (P := fun _ => True) ?_ rfl
      (fun _ _ => trivial) hrun
    intro s e s' out hs _ hstep
    obtain ⟨hsame, hwithin⟩ := within_step hstep
    exact ⟨hsame.trans hs, hwithin.congr hs.symm⟩
  have hsame := hmapped.1
  simp only [CapHandle.mapped, Prod.mk.injEq] at hsame
  obtain ⟨hbuffers, hn, -⟩ := hsame
  have hheld : s.handle.holds = h.holds := by
    rw [CapHandle.holds, hbuffers, hn, CapHandle.holds]
  refine ⟨pix, hfmt, hleaves, fun out hmem => ⟨hmapped.2 out hmem, ?_⟩,
    captureClose_holds (hheld.symm ▸ hleaves)⟩
  rw [← hsize]
  exact (hmapped.2 out hmem).shown

/-- A camera with four buffers that is opened, yields a frame and is
closed. -/
theorem released_of_run_frame :
    let env := OpenEnv.granting 4
    let param : CapParam := ⟨"/dev/video0", 640, 480, 0x56595559, 30⟩
    let es : List Event := [.start ⟨fun _ => true, true⟩, .during (.complete 0),
      .during (.getData ⟨.ready, [], true, [], .buffer 0⟩)]
    ∃ h s outs, (captureOpen env param).1 = some h ∧
      captures.run (Device.opened h) es = some (s, outs) ∧
      ∃ pix, env.setFmt (.ofInt param.width) (.ofInt param.height) param.pixfmt = some pix ∧
        Leaves ((captureOpen env param).2.map LogEntry.entry) h.holds ∧
        (∀ out ∈ outs, out.Within h ∧ out.Shown pix.sizeimage.toInt32.toInt h.holds) ∧
        Settled
          ((captureClose ⟨s.handle, (captureOpen env param).2⟩).log.map LogEntry.entry) := by
  intro env param es
  have hopens : (captureOpen env param).1.isSome = true := rfl
  obtain ⟨h, hopen⟩ := Option.isSome_iff_exists.mp hopens
  have hruns : ((captureOpen env param).1.bind fun h =>
    captures.run (Device.opened h) es).isSome = true := rfl
  rw [hopen, Option.bind_some] at hruns
  obtain ⟨⟨s, outs⟩, hrun⟩ := Option.isSome_iff_exists.mp hruns
  exact ⟨h, s, outs, hopen, hrun, released_of_run hopen hrun⟩

end Capture

end Camkit
