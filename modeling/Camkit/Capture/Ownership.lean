import Camkit.Capture.Custody
import Mathlib.Data.Finset.Card
import Mathlib.Data.Finset.Range
/-!
# V4L2 capture — who owns a buffer in a session

Until `capture_start` succeeds no buffer is filled and none is out, so the
first one that does gives the driver all of them, and custody holds from
there to `capture_stop`.
-/

namespace Camkit

namespace Capture

variable {n i j : ℕ} {l : List ℕ} {b : Bool} {d d' : Driver} {s s' s₀ s₁ : Device}
variable {a : Activity} {body : List Activity} {out : Output} {outs : List Output}
variable {r : GetDataResult}

/-! ## `capture_start` -/

/-- **The loop of `capture_start`** queues buffers and does nothing else;
where it succeeds it has queued them all. -/
theorem queueLoop_spec {env : StartEnv} (hloop : queueLoop env n i d = (d', b)) :
    d'.count = d.count ∧ d'.streaming = d.streaming ∧
      (∀ j, d'.slots j = d.slots j ∨ d'.slots j = .queued ∧ j < d.count) ∧
      (b = true → ∀ j, i ≤ j → j < i + n → d'.slots j = .queued) := by
  induction n generalizing i d with
  | zero =>
    obtain ⟨rfl, rfl⟩ := Prod.mk.inj hloop
    refine ⟨rfl, rfl, fun j => .inl rfl, ?_⟩
    intro _ j hle hlt
    omega
  | succ n ih =>
    rw [queueLoop] at hloop
    split at hloop
    · obtain ⟨rfl, rfl⟩ := Prod.mk.inj hloop
      exact ⟨rfl, rfl, fun j => .inl rfl, fun hb => absurd hb (by decide)⟩
    · rename_i hqbuf
      obtain ⟨-, hlt, -, rfl⟩ := Driver.qbuf_some hqbuf
      obtain ⟨hcount, hstreaming, hslots, hall⟩ := ih hloop
      -- what the loop has queued stays queued to its end
      have hfirst : d'.slots i = .queued := by
        rcases hslots i with hsame | hqueued
        · exact hsame.trans Driver.slots_set_self
        · exact hqueued.1
      refine ⟨hcount, hstreaming, ?_, ?_⟩
      · intro j
        by_cases hji : j = i
        · exact .inr ⟨hji ▸ hfirst, hji ▸ hlt⟩
        · rw [← Driver.slots_set_of_ne (d := d) hji]
          exact hslots j
      · intro hb j hle hj
        by_cases hji : j = i
        · exact hji ▸ hfirst
        · exact hall hb j (by omega) (by omega)

theorem captureStart_spec (env : StartEnv) (s : Device) :
    (captureStart env s).1.handle = s.handle ∧
      (captureStart env s).1.driver.count = s.driver.count ∧
      (∀ j, (captureStart env s).1.driver.slots j = s.driver.slots j ∨
        (captureStart env s).1.driver.slots j = .queued ∧ j < s.driver.count) ∧
      ((captureStart env s).2 = 0 → ∀ j < s.handle.nbuffers,
        (captureStart env s).1.driver.slots j = .queued) ∧
      ((captureStart env s).2 ≠ 0 →
        (captureStart env s).1.driver.streaming = s.driver.streaming) := by
  obtain ⟨hcount, hstreaming, hslots, hall⟩ :=
    queueLoop_spec (Prod.ext rfl rfl : queueLoop env s.handle.nbuffers 0 s.driver = (_, _))
  unfold captureStart
  simp only
  split
  · rename_i hqueued
    split
    · exact ⟨rfl, hcount, hslots, fun _ j hj => hall hqueued j (by omega) (by omega),
        fun hne => absurd rfl hne⟩
    · exact ⟨rfl, hcount, hslots, fun hzero => absurd hzero (by simp), fun _ => hstreaming⟩
  · exact ⟨rfl, hcount, hslots, fun hzero => absurd hzero (by simp), fun _ => hstreaming⟩

theorem owns_captureStart {env : StartEnv} (howns : (captureStart env s).1.driver.Owns j) :
    s.driver.Owns j ∨ j < s.driver.count := by
  rcases (captureStart_spec env s).2.2.1 j with hsame | ⟨-, hlt⟩
  · unfold Driver.Owns at howns ⊢
    exact .inl (hsame ▸ howns)
  · exact .inr hlt

/-! ## Before the first session -/

/-- **Before a session** no buffer is out and none is filled. -/
structure Quiet (n : ℕ) (s : Device) : Prop where
  nbuffers : s.handle.nbuffers = n
  count : s.driver.count = n
  put : s.handle.v4lbufPut = true
  off : s.driver.streaming = false
  not_filled : ∀ i, s.driver.slots i ≠ .filled
  lt_of_owns : ∀ i, s.driver.Owns i → i < n

/-- **The first `capture_start` that succeeds** gives the driver every
buffer. -/
theorem Quiet.start {env : StartEnv} (hs : Quiet n s) (hzero : (captureStart env s).2 = 0) :
    Custody n (captureStart env s).1 ∧ (captureStart env s).1.handle.held = none := by
  obtain ⟨hhandle, hcount, -, hall, -⟩ := captureStart_spec env s
  have hnone : (captureStart env s).1.handle.held = none := by
    rw [hhandle]
    exact CapHandle.held_eq_none_iff.mpr hs.put
  refine ⟨⟨hhandle ▸ hs.nbuffers, hcount.trans hs.count, ?_, ?_⟩, hnone⟩
  · intro i hi
    rw [hnone] at hi
    exact absurd hi (by simp)
  · intro i
    rw [hnone]
    constructor
    · intro howns
      refine ⟨?_, by simp⟩
      rcases owns_captureStart howns with howns | hlt
      · exact hs.lt_of_owns i howns
      · exact hs.count ▸ hlt
    · rintro ⟨hlt, -⟩
      unfold Driver.Owns
      rw [hall hzero i (hs.nbuffers.symm ▸ hlt)]
      decide

/-- A `capture_start` that fails leaves it so. -/
theorem Quiet.start_failed {env : StartEnv} (hs : Quiet n s) (hne : (captureStart env s).2 ≠ 0) :
    Quiet n (captureStart env s).1 := by
  obtain ⟨hhandle, hcount, hslots, -, hoff⟩ := captureStart_spec env s
  refine ⟨hhandle ▸ hs.nbuffers, hcount.trans hs.count, hhandle ▸ hs.put, (hoff hne).trans hs.off,
    ?_, ?_⟩
  · intro i
    rcases hslots i with hsame | ⟨hqueued, -⟩
    · exact hsame ▸ hs.not_filled i
    · rw [hqueued]
      decide
  · intro i howns
    rcases owns_captureStart howns with howns | hlt
    · exact hs.lt_of_owns i howns
    · exact hs.count ▸ hlt

theorem Quiet.completeAll (hs : Quiet n s) :
    Quiet n { s with driver := s.driver.completeAll l } := by
  refine ⟨hs.nbuffers, Driver.frame_completeAll.1.trans hs.count, hs.put,
    Driver.frame_completeAll.2.trans hs.off, ?_, ?_⟩
  · intro i
    rcases Driver.slots_completeAll (d := s.driver) (l := l) (j := i) with hsame | ⟨-, -, hon⟩
    · exact hsame ▸ hs.not_filled i
    · exact absurd (hs.off.symm.trans hon) (by decide)
  · intro i howns
    exact hs.lt_of_owns i (Driver.owns_completeAll.mp howns)

/-- With nothing filled no call gets a buffer. -/
theorem Quiet.captureGetData {env : GetDataEnv} (hs : Quiet n s)
    (hget : captureGetData env s = some (s', r)) :
    Quiet n s' ∧ (env.select = .ready → env.dqbuf.given = none) := by
  rcases captureGetData_cases hget with ⟨hselect, rfl, -⟩ | ⟨-, s₂, rfl, hexit⟩
  · exact ⟨hs, fun hready => absurd hready hselect⟩
  · -- no buffer is out, so none is put back
    have hput : ∀ ok d, putBack ok ⟨s.handle, d⟩ = some ⟨s.handle, d⟩ := fun _ _ => if_pos hs.put
    rcases hexit with ⟨hnone, -, -⟩ | ⟨s₃, hsome, hdeq⟩
    · exact absurd (hnone.symm.trans (hput _ _)) (by simp)
    · obtain rfl := Option.some.inj (hsome.symm.trans (hput _ _))
      have hquiet := (hs.completeAll (l := env.beforeQbuf)).completeAll (l := env.beforeDqbuf)
      have hcleared : Quiet n ⟨clearBuf s.handle,
          (s.driver.completeAll env.beforeQbuf).completeAll env.beforeDqbuf⟩ :=
        ⟨hquiet.nbuffers, hquiet.count, hquiet.put, hquiet.off, hquiet.not_filled,
          hquiet.lt_of_owns⟩
      rcases dequeue_cases hdeq with ⟨hgiven, rfl, -⟩ | ⟨k, -, hfilled, -⟩
      · exact ⟨hcleared, fun _ => hgiven⟩
      · exact absurd hfilled (hquiet.not_filled k)

theorem Quiet.activity (hs : Quiet n s) (happly : a.apply s = some (s', out)) : Quiet n s' := by
  obtain ⟨i, -, rfl, -⟩ | ⟨env, r, -, hget, -⟩ := activity_cases happly
  · exact hs.completeAll (l := [i])
  · exact (hs.captureGetData hget).1

theorem Quiet.stop (hs : Quiet n s) : Quiet n (captureStop s) where
  nbuffers := hs.nbuffers
  count := hs.count
  put := hs.put
  off := rfl
  not_filled i hfilled := absurd (show Slot.user = .filled from hfilled) (by decide)
  lt_of_owns i howns := absurd rfl howns

/-- **Until `capture_start` succeeds** the device stays quiet, whatever
else is called. -/
theorem Quiet.run {es : List Event} (hs : Quiet n s) (hrun : captures.run s es = some (s', outs))
    (hfirst : .started 0 ∉ outs) : Quiet n s' := by
  refine Machine.run_induction (I := fun _ outs s' => .started 0 ∉ outs → Quiet n s')
    (fun _ => hs) ?_ hrun hfirst
  intro es outs s₁ e s₂ out ih hstep hnot
  have hs₁ := ih fun hmem => hnot (List.mem_append_left _ hmem)
  cases e with
  | start env =>
    obtain ⟨rfl, rfl⟩ := Prod.mk.inj (Option.some.inj hstep)
    refine hs₁.start_failed ?_
    intro hzero
    exact hnot (List.mem_append_right _ (hzero ▸ List.mem_cons_self))
  | stop =>
    obtain ⟨rfl, -⟩ := Prod.mk.inj (Option.some.inj hstep)
    exact hs₁.stop
  | during a => exact hs₁.activity hstep

/-! ## The handle of `capture_open` -/

theorem mapLoop_true {env : OpenEnv} {o o' : Opening} (hmap : mapLoop env n o = (o', true)) :
    o'.handle.nbuffers = o.handle.nbuffers + n ∧ o'.handle.v4lbufPut = o.handle.v4lbufPut := by
  induction n generalizing o with
  | zero =>
    obtain ⟨rfl, -⟩ := Prod.mk.inj hmap
    exact ⟨rfl, rfl⟩
  | succ n ih =>
    rw [mapLoop] at hmap
    split at hmap
    · exact absurd (Prod.mk.inj hmap).2 (by simp)
    · split at hmap
      · exact absurd (Prod.mk.inj hmap).2 (by simp)
      · obtain ⟨hn, hput⟩ := ih hmap
        exact ⟨hn.trans (Nat.add_right_comm _ _ _), hput⟩

theorem initMmap_true {env : OpenEnv} {o o' : Opening} (hmap : initMmap env o = (o', true)) :
    2 ≤ o'.handle.nbuffers ∧ o'.handle.v4lbufPut = o.handle.v4lbufPut := by
  unfold initMmap at hmap
  split at hmap
  · exact absurd (Prod.mk.inj hmap).2 (by simp)
  · split at hmap
    · exact absurd (Prod.mk.inj hmap).2 (by simp)
    · rename_i hcount
      split at hmap
      · simp only at hmap
        split at hmap
        · obtain ⟨hn, hput⟩ := mapLoop_true hmap
          have hzero := hn.trans (Nat.zero_add _)
          exact ⟨by omega, hput⟩
        · exact absurd (Prod.mk.inj hmap).2 (by simp)
      · exact absurd (Prod.mk.inj hmap).2 (by simp)

theorem initDevice_true {env : OpenEnv} {o o' : Opening} (hinit : initDevice env o = (o', true)) :
    2 ≤ o'.handle.nbuffers ∧ o'.handle.v4lbufPut = o.handle.v4lbufPut := by
  unfold initDevice at hinit
  simp only at hinit
  split at hinit
  · exact absurd (Prod.mk.inj hinit).2 (by simp)
  · split at hinit
    · exact absurd (Prod.mk.inj hinit).2 (by simp)
    · split at hinit
      · exact absurd (Prod.mk.inj hinit).2 (by simp)
      · split at hinit
        · exact absurd (Prod.mk.inj hinit).2 (by simp)
        · split at hinit
          · exact absurd (Prod.mk.inj hinit).2 (by simp)
          · split at hinit
            · obtain ⟨hn, hput⟩ := initMmap_true hinit
              exact ⟨hn, hput⟩
            · exact absurd (Prod.mk.inj hinit).2 (by simp)

/-- **A handle `capture_open` returns** has two buffers or more, and none
out. -/
theorem captureOpen_some {env : OpenEnv} {param : CapParam} {h : CapHandle}
    (hopen : (captureOpen env param).1 = some h) : 2 ≤ h.nbuffers ∧ h.v4lbufPut = true := by
  unfold captureOpen at hopen
  split at hopen
  · simp only at hopen
    split at hopen
    · exact absurd hopen (by simp)
    · split at hopen
      · exact absurd hopen (by simp)
      · split at hopen
        · split at hopen
          · rename_i hready
            obtain rfl := Option.some.inj hopen
            exact initDevice_true (Prod.ext rfl hready)
          · exact absurd hopen (by simp)
        · exact absurd hopen (by simp)
  · exact absurd hopen (by simp)

/-- A device just opened is quiet. -/
theorem quiet_opened {env : OpenEnv} {param : CapParam} {h : CapHandle}
    (hopen : (captureOpen env param).1 = some h) : Quiet h.nbuffers (.opened h) where
  nbuffers := rfl
  count := rfl
  put := (captureOpen_some hopen).2
  off := rfl
  not_filled _ hfilled := absurd (show Slot.user = .filled from hfilled) (by decide)
  lt_of_owns _ howns := absurd rfl howns

/-! ## A session -/

/-- The driver has all buffers but one, at least. -/
theorem Custody.pred_le_card (hs : Custody n s) :
    n - 1 ≤ ((Finset.range n).filter fun i => s.driver.Owns i).card := by
  cases hheld : s.handle.held with
  | none =>
    have hall : (Finset.range n).filter (fun i => s.driver.Owns i) = Finset.range n := by
      refine Finset.filter_true_of_mem ?_
      intro i hi
      rw [hs.owns_iff, hheld]
      exact ⟨Finset.mem_range.mp hi, by simp⟩
    rw [hall, Finset.card_range]
    exact Nat.sub_le n 1
  | some k =>
    have hsub : (Finset.range n).erase k ⊆ (Finset.range n).filter fun i => s.driver.Owns i := by
      intro i hi
      obtain ⟨hne, hi⟩ := Finset.mem_erase.mp hi
      rw [Finset.mem_filter, hs.owns_iff, hheld]
      exact ⟨hi, Finset.mem_range.mp hi, fun hsome => hne (Option.some.inj hsome).symm⟩
    calc n - 1 = (Finset.range n).card - 1 := by rw [Finset.card_range]
      _ ≤ ((Finset.range n).erase k).card := Finset.pred_card_le_card_erase
      _ ≤ _ := Finset.card_le_card hsub

/-- **An image returned is out** until `VIDIOC_QBUF` is issued for its
buffer. -/
theorem Custody.image_out {outs₁ outs₂ : List Output} {image : Image} (hs : Custody n s)
    (hrun : captures.run s (body.map .during) = some (s', outs₁ ++ .got r :: outs₂))
    (himage : image ∈ r.image) (hx : ∀ r', .got r' ∈ outs₂ → ∀ x ∈ r'.qbuf, x.1 ≠ image.index) :
    s'.driver.slots image.index = .user ∧
      ∀ r', .got r' ∈ outs₂ → ∀ image' ∈ r'.image, image'.index ≠ image.index := by
  obtain ⟨es₁, es₂, s₁, hbody, hrun₁, hrun₂⟩ := Machine.run_output_append hrun
  obtain ⟨body₁, body₂, rfl, rfl, rfl⟩ := List.map_eq_append_iff.mp hbody
  have hs₁ := (hs.run hrun₁).1
  cases body₂ with
  | nil => exact absurd (Prod.mk.inj (Option.some.inj hrun₂)).2 (by simp)
  | cons a body₂ =>
    obtain ⟨s₂, out, outs, hstep, hrest, heq⟩ := Machine.run_cons.mp hrun₂
    obtain ⟨rfl, rfl⟩ := List.cons.inj heq
    obtain ⟨hs₂, hout⟩ := hs₁.activity hstep
    obtain ⟨-, -, hheld⟩ := hout r rfl
    exact user_run (hs₂.user_of_held (hheld image himage)) hrest hx

/-- **Buffer ownership within a session.** After the first `capture_start`
that succeeds on a device opened, and whatever happens until
`capture_stop`: the driver owns every buffer where `v4lbuf_put` is 1, and
every buffer but `v4lbuf.index` where it is 0; `VIDIOC_QBUF` is issued for
no buffer the driver owns; an image returned stays out until the next call,
and is not handed out again before its buffer is put back; and the driver
has all buffers but one, at least. -/
theorem session_custody {openEnv : OpenEnv} {param : CapParam} {h : CapHandle}
    {startEnv : StartEnv} {before : List Event} {outs₀ : List Output}
    (hopen : (captureOpen openEnv param).1 = some h)
    (hbefore : captures.run (.opened h) before = some (s₀, outs₀)) (hfirst : .started 0 ∉ outs₀)
    (hstart : captures.step s₀ (.start startEnv) = some (s₁, .started 0))
    (hrun : captures.run s₁ (body.map .during) = some (s, outs)) :
    (s.handle.v4lbufPut = true → ∀ i < h.nbuffers, s.driver.Owns i) ∧
    (s.handle.v4lbufPut = false → s.handle.v4lbuf.index < h.nbuffers ∧
      ∀ i < h.nbuffers, (s.driver.Owns i ↔ i ≠ s.handle.v4lbuf.index)) ∧
    (∀ r, .got r ∈ outs → ∀ x ∈ r.qbuf, x.2 = .user) ∧
    (∀ outs₁ r outs₂, outs = outs₁ ++ .got r :: outs₂ → ∀ image ∈ r.image,
      ((∀ r', .got r' ∉ outs₂) → s.driver.slots image.index = .user) ∧
      ((∀ r', .got r' ∈ outs₂ → ∀ x ∈ r'.qbuf, x.1 ≠ image.index) →
        s.driver.slots image.index = .user ∧
        ∀ r', .got r' ∈ outs₂ → ∀ image' ∈ r'.image, image'.index ≠ image.index)) ∧
    h.nbuffers - 1 ≤ ((Finset.range h.nbuffers).filter fun i => s.driver.Owns i).card := by
  have hquiet := (quiet_opened hopen).run hbefore hfirst
  obtain ⟨rfl, hzero⟩ := Prod.mk.inj (Option.some.inj hstart)
  obtain ⟨hstarted, -⟩ := hquiet.start (Output.started.inj hzero)
  obtain ⟨hs, hcalls⟩ := hstarted.run hrun
  refine ⟨?_, ?_, fun r hr => (hcalls r hr).1, ?_, hs.pred_le_card⟩
  · intro hput i hi
    rw [hs.owns_iff, CapHandle.held_eq_none_iff.mpr hput]
    exact ⟨hi, by simp⟩
  · intro hput
    have hheld := CapHandle.held_of_not_put hput
    refine ⟨hs.held_lt _ hheld, ?_⟩
    intro i hi
    rw [hs.owns_iff, hheld]
    constructor
    · rintro ⟨-, hne⟩ rfl
      exact hne rfl
    · intro hne
      exact ⟨hi, fun hsome => hne (Option.some.inj hsome).symm⟩
  · rintro outs₁ r outs₂ rfl image himage
    refine ⟨?_, fun hx => hstarted.image_out hrun himage hx⟩
    intro hnone
    exact (hstarted.image_out hrun himage fun r' hr' => absurd hr' (hnone r')).1

/-- The handle of a camera that grants four buffers. -/
def fourBuffers : CapHandle :=
  (captureOpen (.granting 4) ⟨"/dev/video0", 640, 480, 0x56595559, 15⟩).1.getD
    (clearedHandle ⟨"/dev/video0", 640, 480, 0x56595559, 15⟩)

theorem captureOpen_fourBuffers :
    (captureOpen (.granting 4) ⟨"/dev/video0", 640, 480, 0x56595559, 15⟩).1 =
      some fourBuffers := rfl

/-- A `capture_start` in which nothing fails. -/
def startAll : StartEnv := ⟨fun _ => true, true⟩

/-- A call that gets buffer `i`. -/
def getBuffer (i : ℕ) : GetDataEnv := ⟨.ready, [], true, [], .buffer i⟩

/-- Two images: the first is put back where the second is got. -/
def twoImages : List Activity :=
  [.complete 0, .getData (getBuffer 0), .complete 1, .getData (getBuffer 1)]

/-- After two images the second is out. -/
theorem session_custody_two : ∃ s outs,
    captures.run (captureStart startAll (.opened fourBuffers)).1 (twoImages.map .during) =
      some (s, outs) ∧
    s.handle.v4lbuf.index = 1 ∧ ∀ i < 4, (s.driver.Owns i ↔ i ≠ 1) := by
  have hbefore : captures.run (.opened fourBuffers) [] = some (.opened fourBuffers, []) := rfl
  have hstart : captures.step (.opened fourBuffers) (.start startAll) =
      some ((captureStart startAll (.opened fourBuffers)).1, .started 0) := rfl
  have hrun : captures.run (captureStart startAll (.opened fourBuffers)).1
      (twoImages.map .during) = some (_, _) := rfl
  have hcustody := session_custody captureOpen_fourBuffers hbefore List.not_mem_nil hstart hrun
  exact ⟨_, _, hrun, rfl, (hcustody.2.1 rfl).2⟩

end Capture

end Camkit
