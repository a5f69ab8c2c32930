import Camkit.Capture.Ownership
/-!
# V4L2 capture — stopping and starting again

`capture_stop` takes every buffer from the driver and `capture_start` gives
every buffer back, while only `capture_get_data` ever changes `v4lbuf_put`.
So what a session leaves in the flag decides whether the next one works:
where no buffer was out it is as the first, and where one was, its buffer
is queued twice over and nothing is captured again.
-/

namespace Camkit

namespace Capture

variable {n i : ℕ} {s s' s₀ s₁ : Device} {a : Activity} {body : List Activity} {out : Output}
variable {outs : List Output} {r : GetDataResult} {env : GetDataEnv} {x : Session}
variable {sessions : List Session}

/-! ## A device that works -/

/-- What is out can be put back, and is no filled buffer. -/
theorem putBack_of_filled {ok : Bool} (hs : Custody n s) (hok : ok = true)
    (hfilled : s.driver.slots i = .filled) :
    ∃ s', putBack ok s = some s' ∧ s'.driver.slots i = .filled := by
  cases hin : s.handle.v4lbufPut with
  | true => exact ⟨s, if_pos hin, hfilled⟩
  | false =>
    have hheld := CapHandle.held_of_not_put hin
    have huser := hs.user_of_held hheld
    have hqbuf : s.driver.qbuf ok s.handle.v4lbuf.index =
        some (s.driver.set s.handle.v4lbuf.index .queued) :=
      if_pos ⟨hok, hs.count.symm ▸ hs.held_lt _ hheld, Driver.not_owns_iff.mpr huser⟩
    refine ⟨⟨{ s.handle with v4lbufPut := true }, s.driver.set s.handle.v4lbuf.index .queued⟩,
      ?_, ?_⟩
    · rw [putBack, if_neg (by rw [hin]; decide), hqbuf]
    · refine (Driver.slots_set_of_ne ?_).trans hfilled
      rintro rfl
      exact absurd (huser.symm.trans hfilled) (by decide)

theorem isSome_dequeue (asked : Option (ℕ × Slot)) (hfilled : s.driver.slots i = .filled) :
    (dequeue (.buffer i) asked s).isSome := by
  rw [dequeue, if_pos hfilled]
  simp only
  split
  · rfl
  · rfl

/-- **A filled buffer can be got** where no call fails. -/
theorem isSome_captureGetData (hs : Custody n s) (hselect : env.select = .ready)
    (hok : env.qbuf = true) (hanswer : env.dqbuf = .buffer i)
    (hfilled : s.driver.slots i = .filled) : (captureGetData env s).isSome := by
  obtain ⟨s₂, hput, hfilled₂⟩ := putBack_of_filled (hs.completeAll (l := env.beforeQbuf)) hok
    (Driver.filled_completeAll (l := env.beforeQbuf) hfilled)
  unfold captureGetData
  simp only [hselect, hput, hanswer]
  exact isSome_dequeue _ (Driver.filled_completeAll hfilled₂)

/-- `VIDIOC_QBUF` of what is out fails only where the driver fails it. -/
theorem putBack_none {ok : Bool} (hs : Custody n s) (hput : putBack ok s = none) :
    s.handle.held.isSome = true ∧ ok = false := by
  unfold putBack at hput
  split at hput
  · exact absurd hput (by simp)
  · rename_i hout
    have hheld := CapHandle.held_of_not_put (Bool.not_eq_true _ ▸ hout)
    refine ⟨by rw [hheld]; rfl, ?_⟩
    split at hput
    · rename_i hqbuf
      by_contra hok
      have hlt := hs.count.symm ▸ hs.held_lt _ hheld
      exact Driver.qbuf_none hqbuf (Bool.not_eq_false _ ▸ hok) hlt (hs.user_of_held hheld)
    · exact absurd hput (by simp)

/-- **A call in which nothing fails returns 0.** -/
theorem ret_captureGetData (hs : Custody n s) (hselect : env.select = .ready)
    (hok : env.qbuf = true) (hanswer : env.dqbuf = .buffer i)
    (hget : captureGetData env s = some (s', r)) : r.ret = some 0 := by
  rcases captureGetData_cases hget with ⟨hnot, -, -⟩ | ⟨-, s₁, rfl, hexit⟩
  · exact absurd hselect hnot
  · have hs₁ := hs.completeAll (l := env.beforeQbuf)
    rcases hexit with ⟨hput, -, -⟩ | ⟨s₂, hput, hdeq⟩
    · exact absurd (hok.symm.trans (putBack_none hs₁ hput).2) (by decide)
    · obtain ⟨hs₂, hnone⟩ := hs₁.putBack hput
      obtain ⟨hs₃, -⟩ := hs₂.clearBuf (l := env.beforeDqbuf) hnone
      rcases dequeue_cases hdeq with ⟨hgiven, -, -⟩ | ⟨k, -, hfilled, ⟨-, -, rfl⟩ | ⟨hnot, -, -⟩⟩
      · exact absurd (hanswer ▸ hgiven) (by simp [DqbufAnswer.given])
      · rfl
      · exact absurd (hs₃.nbuffers.symm ▸ hs₃.lt_of_filled hfilled) hnot

/-- **A device started anew works as one just started.** No buffer is out
and the driver owns them all; and whatever happens until `capture_stop`,
`VIDIOC_QBUF` is issued for no buffer the driver owns, any buffer that is
filled can be got, and a call in which nothing fails returns 0. -/
structure Restarted (n : ℕ) (s : Device) : Prop where
  put : s.handle.v4lbufPut = true
  owns : ∀ i < n, s.driver.Owns i
  clean : ∀ (body : List Activity) s' outs, captures.run s (body.map .during) = some (s', outs) →
    ∀ r, .got r ∈ outs → ∀ x ∈ r.qbuf, x.2 = .user
  returns : ∀ (body : List Activity) s' outs, captures.run s (body.map .during) = some (s', outs) →
    ∀ env i, env.select = .ready → env.qbuf = true → env.dqbuf = .buffer i →
      (s'.driver.slots i = .filled → (captureGetData env s').isSome) ∧
      ∀ s'' r, captureGetData env s' = some (s'', r) → r.ret = some 0

theorem Custody.restarted (hs : Custody n s) (hnone : s.handle.held = none) : Restarted n s where
  put := CapHandle.held_eq_none_iff.mp hnone
  owns i hi := (hs.owns_iff i).mpr ⟨hi, by rw [hnone]; simp⟩
  clean _ _ _ hrun r hr := ((hs.run hrun).2 r hr).1
  returns _ _ _ hrun _ _ hselect hok hanswer :=
    ⟨isSome_captureGetData (hs.run hrun).1 hselect hok hanswer,
      fun _ _ => ret_captureGetData (hs.run hrun).1 hselect hok hanswer⟩

/-! ## What a session leaves -/

/-- Whether a buffer is out after an activity of a session that works. It
is a matter of what the driver answers: a call that gets as far as
`VIDIOC_DQBUF` decides it. -/
def holdsAfter (held : Bool) : Activity → Bool
  | .complete _ => held
  | .getData env =>
    if env.select = .ready ∧ (held = true → env.qbuf = true) then env.dqbuf.given.isSome else held

/-- A session is settled when it ends with no buffer out: the last call
that got as far as `VIDIOC_DQBUF`, if there was one, got no buffer. -/
def Session.Settled (x : Session) : Prop := x.body.foldl holdsAfter false = false

instance (x : Session) : Decidable x.Settled := by
  unfold Session.Settled
  infer_instance

theorem putBack_some {ok : Bool} (hput : putBack ok s = some s')
    (hheld : s.handle.held.isSome = true) : ok = true := by
  rcases putBack_cases hput with ⟨hin, -⟩ | ⟨-, hok, -⟩
  · rw [CapHandle.held_eq_none_iff.mpr hin] at hheld
    exact absurd hheld (by decide)
  · exact hok

/-- The calls do as `holdsAfter` says. -/
theorem Custody.holdsAfter (hs : Custody n s) (happly : a.apply s = some (s', out)) :
    s'.handle.held.isSome = Capture.holdsAfter s.handle.held.isSome a := by
  obtain ⟨i, rfl, rfl, -⟩ | ⟨env, r, rfl, hget, -⟩ := activity_cases happly
  · rfl
  · rcases captureGetData_cases hget with ⟨hselect, rfl, -⟩ | ⟨hselect, s₂, rfl, hexit⟩
    · exact (if_neg fun hcond => hselect hcond.1).symm
    · have hs₂ := hs.completeAll (l := env.beforeQbuf)
      rcases hexit with ⟨hput, rfl, -⟩ | ⟨s₃, hput, hdeq⟩
      · obtain ⟨hheld, hok⟩ := putBack_none hs₂ hput
        refine (if_neg ?_).symm
        rintro ⟨-, hcond⟩
        exact absurd ((hcond hheld).symm.trans hok) (by decide)
      · obtain ⟨hs₃, hnone⟩ := hs₂.putBack hput
        obtain ⟨hs₄, hcleared⟩ := hs₃.clearBuf (l := env.beforeDqbuf) hnone
        rw [(hs₄.dequeue hcleared hdeq).2.2.1]
        exact (if_pos ⟨hselect, fun hheld => putBack_some hput hheld⟩).symm

/-- Where nothing is filled no call gets a buffer. -/
theorem Quiet.holdsAfter (hs : Quiet n s) (happly : a.apply s = some (s', out)) :
    Capture.holdsAfter false a = false := by
  obtain ⟨i, rfl, -, -⟩ | ⟨env, r, rfl, hget, -⟩ := activity_cases happly
  · rfl
  · have hgiven := (hs.captureGetData hget).2
    by_cases hcond : env.select = .ready ∧ (false = true → env.qbuf = true)
    · rw [Capture.holdsAfter, if_pos hcond, hgiven hcond.1]
      rfl
    · exact if_neg hcond

/-- A device in a session: it works, or it has not started. -/
def Sound (n : ℕ) (s : Device) : Prop := Custody n s ∨ Quiet n s

theorem Quiet.held_eq_none (hs : Quiet n s) : s.handle.held = none :=
  CapHandle.held_eq_none_iff.mpr hs.put

theorem Sound.activity (hs : Sound n s) (happly : a.apply s = some (s', out)) :
    Sound n s' ∧ s'.handle.held.isSome = Capture.holdsAfter s.handle.held.isSome a := by
  rcases hs with hs | hs
  · exact ⟨.inl (hs.activity happly).1, hs.holdsAfter happly⟩
  · have hs' := hs.activity happly
    refine ⟨.inr hs', ?_⟩
    rw [hs'.held_eq_none, hs.held_eq_none]
    exact (hs.holdsAfter happly).symm

theorem Sound.run (hs : Sound n s) (hrun : captures.run s (body.map .during) = some (s', outs)) :
    Sound n s' ∧ s'.handle.held.isSome = body.foldl Capture.holdsAfter s.handle.held.isSome := by
  induction body generalizing s outs with
  | nil =>
    obtain ⟨rfl, rfl⟩ := Prod.mk.inj (Option.some.inj hrun)
    exact ⟨hs, rfl⟩
  | cons a body ih =>
    rw [List.map_cons] at hrun
    obtain ⟨s₁, out, outs, hstep, hrest, rfl⟩ := Machine.run_cons.mp hrun
    obtain ⟨hs₁, hheld⟩ := hs.activity hstep
    obtain ⟨hs', hheld'⟩ := ih hs₁ hrest
    exact ⟨hs', by rw [hheld', hheld, List.foldl_cons]⟩

/-! ## From stop to start -/

/-- Two devices of the same buffers. -/
def SameBuffers (s s' : Device) : Prop :=
  s'.handle.nbuffers = s.handle.nbuffers ∧ s'.driver.count = s.driver.count

theorem sameBuffers_putBack {ok : Bool} (hput : putBack ok s = some s') : SameBuffers s s' := by
  rcases putBack_cases hput with ⟨-, rfl⟩ | ⟨-, -, -, -, rfl⟩
  · exact ⟨rfl, rfl⟩
  · exact ⟨rfl, rfl⟩

theorem sameBuffers_dequeue {answer : DqbufAnswer} {asked : Option (ℕ × Slot)}
    (hdeq : dequeue answer asked s = some (s', r)) : SameBuffers s s' := by
  rcases dequeue_cases hdeq with ⟨-, rfl, -⟩ | ⟨i, -, -, ⟨-, rfl, -⟩ | ⟨-, rfl, -⟩⟩
  · exact ⟨rfl, rfl⟩
  · exact ⟨rfl, rfl⟩
  · exact ⟨rfl, rfl⟩

theorem sameBuffers_captureGetData (hget : captureGetData env s = some (s', r)) :
    SameBuffers s s' := by
  rcases captureGetData_cases hget with ⟨-, rfl, -⟩ | ⟨-, s₁, rfl, hexit⟩
  · exact ⟨rfl, rfl⟩
  · rcases hexit with ⟨-, rfl, -⟩ | ⟨s₂, hput, hdeq⟩
    · exact ⟨rfl, Driver.frame_completeAll.1⟩
    · obtain ⟨hn, hcount⟩ := sameBuffers_putBack hput
      obtain ⟨hn', hcount'⟩ := sameBuffers_dequeue hdeq
      exact ⟨hn'.trans hn, hcount'.trans (Driver.frame_completeAll.1.trans
        (hcount.trans Driver.frame_completeAll.1))⟩

/-- **No event changes the buffers** of a device. -/
theorem sameBuffers_run {es : List Event} (hrun : captures.run s es = some (s', outs)) :
    SameBuffers s s' := by
  refine Machine.run_invariant (I := SameBuffers s) ⟨rfl, rfl⟩ ?_ hrun
  rintro s₁ e s₂ out ⟨hn, hcount⟩ hstep
  cases e with
  | start env =>
    obtain ⟨rfl, -⟩ := Prod.mk.inj (Option.some.inj hstep)
    obtain ⟨hhandle, hcount', -⟩ := captureStart_spec env s₁
    exact ⟨hhandle ▸ hn, hcount'.trans hcount⟩
  | stop =>
    obtain ⟨rfl, -⟩ := Prod.mk.inj (Option.some.inj hstep)
    exact ⟨hn, hcount⟩
  | during a =>
    obtain ⟨i, -, rfl, -⟩ | ⟨env, r, -, hget, -⟩ := activity_cases hstep
    · exact ⟨hn, Driver.frame_complete.1.trans hcount⟩
    · obtain ⟨hn', hcount'⟩ := sameBuffers_captureGetData hget
      exact ⟨hn'.trans hn, hcount'.trans hcount⟩

/-- What is out is a buffer of the handle. -/
def HeldLt (s : Device) : Prop := ∀ i, s.handle.held = some i → i < s.handle.nbuffers

theorem heldLt_of_none (hnone : s.handle.held = none) : HeldLt s := by
  intro i hi
  exact absurd (hnone.symm.trans hi) (by simp)

theorem heldLt_dequeue {answer : DqbufAnswer} {asked : Option (ℕ × Slot)}
    (hnone : s.handle.held = none) (hdeq : dequeue answer asked s = some (s', r)) :
    HeldLt s' := by
  rcases dequeue_cases hdeq with ⟨-, rfl, -⟩ | ⟨i, -, -, ⟨hlt, rfl, -⟩ | ⟨-, rfl, -⟩⟩
  · exact heldLt_of_none hnone
  · intro j hj
    obtain rfl : i = j := Option.some.inj hj
    exact hlt
  · have hin := CapHandle.held_eq_none_iff.mp hnone
    exact heldLt_of_none (CapHandle.held_eq_none_iff.mpr hin)

/-- **On every run** what is out is a buffer of the handle, whether the
driver works or not. -/
theorem heldLt_run {es : List Event} (hs : HeldLt s) (hrun : captures.run s es = some (s', outs)) :
    HeldLt s' := by
  refine Machine.run_invariant (I := HeldLt) hs ?_ hrun
  intro s₁ e s₂ out hs₁ hstep
  cases e with
  | start env =>
    obtain ⟨rfl, -⟩ := Prod.mk.inj (Option.some.inj hstep)
    unfold HeldLt
    rw [(captureStart_spec env s₁).1]
    exact hs₁
  | stop =>
    obtain ⟨rfl, -⟩ := Prod.mk.inj (Option.some.inj hstep)
    exact hs₁
  | during a =>
    obtain ⟨i, -, rfl, -⟩ | ⟨env, r, -, hget, -⟩ := activity_cases hstep
    · exact hs₁
    · rcases captureGetData_cases hget with ⟨-, rfl, -⟩ | ⟨-, s₃, rfl, hexit⟩
      · exact hs₁
      · rcases hexit with ⟨-, rfl, -⟩ | ⟨s₄, hput, hdeq⟩
        · exact hs₁
        · exact heldLt_dequeue (held_clearBuf (held_putBack hput)) hdeq

/-- **A device between two sessions**: the driver has no buffer. -/
structure Idle (n : ℕ) (s : Device) : Prop where
  nbuffers : s.handle.nbuffers = n
  count : s.driver.count = n
  off : s.driver.streaming = false
  user : ∀ i, s.driver.slots i = .user

theorem Idle.quiet (hs : Idle n s) (hput : s.handle.v4lbufPut = true) : Quiet n s where
  nbuffers := hs.nbuffers
  count := hs.count
  put := hput
  off := hs.off
  not_filled i hfilled := absurd ((hs.user i).symm.trans hfilled) (by decide)
  lt_of_owns i howns := absurd (hs.user i) howns

theorem idle_opened {openEnv : OpenEnv} {param : CapParam} {h : CapHandle}
    (hopen : (captureOpen openEnv param).1 = some h) :
    Idle h.nbuffers (.opened h) ∧ h.v4lbufPut = true :=
  ⟨⟨rfl, rfl, rfl, fun _ => rfl⟩, (captureOpen_some hopen).2⟩

/-- The parts of a session's run. -/
theorem session_cases (hrun : captures.run s x.events = some (s', outs)) :
    ∃ s₁ outs₁, captures.run (captureStart x.start s).1 (x.body.map .during) = some (s₁, outs₁) ∧
      s' = captureStop s₁ ∧ .started (captureStart x.start s).2 ∈ outs := by
  unfold Session.events at hrun
  obtain ⟨s₁, outs₁, outs₂, hrun₁, hstop, rfl⟩ := Machine.run_append.mp hrun
  obtain ⟨s₂, out, outs₃, hstart, hbody, rfl⟩ := Machine.run_cons.mp hrun₁
  obtain ⟨rfl, rfl⟩ := Prod.mk.inj (Option.some.inj hstart)
  obtain ⟨rfl, -⟩ := Prod.mk.inj (Option.some.inj hstop)
  exact ⟨s₁, outs₃, hbody, rfl, List.mem_append_left _ List.mem_cons_self⟩

/-- A session ends with the device idle. -/
theorem Idle.after (hs : Idle n s) (hrun : captures.run s x.events = some (s', outs)) :
    Idle n s' := by
  obtain ⟨hn, hcount⟩ := sameBuffers_run hrun
  obtain ⟨s₁, outs₁, -, rfl, -⟩ := session_cases hrun
  exact ⟨hn.trans hs.nbuffers, hcount.trans hs.count, rfl, fun _ => rfl⟩

/-- **A session from a device with no buffer out** leaves one out exactly
where it is not settled. -/
theorem Idle.session (hs : Idle n s) (hput : s.handle.v4lbufPut = true)
    (hrun : captures.run s x.events = some (s', outs)) :
    s'.handle.v4lbufPut = true ↔ x.Settled := by
  obtain ⟨s₁, outs₁, hbody, rfl, -⟩ := session_cases hrun
  have hstarted : Sound n (captureStart x.start s).1 ∧
      (captureStart x.start s).1.handle.held = none := by
    by_cases hzero : (captureStart x.start s).2 = 0
    · obtain ⟨hcustody, hnone⟩ := (hs.quiet hput).start hzero
      exact ⟨.inl hcustody, hnone⟩
    · have hquiet := (hs.quiet hput).start_failed hzero
      exact ⟨.inr hquiet, hquiet.held_eq_none⟩
  have hheld := (hstarted.1.run hbody).2
  rw [hstarted.2, Option.isSome_none] at hheld
  unfold Session.Settled
  rw [← hheld, Option.isSome_eq_false_iff, Option.isNone_iff_eq_none]
  exact CapHandle.held_eq_none_iff.symm

/-! ## A device stopped with a buffer out -/

/-- The driver owns the buffer the handle has out. -/
def Stale (s : Device) : Prop :=
  s.handle.v4lbufPut = false ∧ s.driver.Owns s.handle.v4lbuf.index

/-- **A stale device captures nothing.** Each call fails at `select` or at
`VIDIOC_QBUF`, which is issued for a buffer the driver owns. -/
theorem Stale.captureGetData (hs : Stale s) (hget : captureGetData env s = some (s', r)) :
    Stale s' ∧ s'.handle = s.handle ∧ r.ret = some (-1) ∧ ∀ x ∈ r.qbuf, x.2 ≠ .user := by
  rcases captureGetData_cases hget with ⟨-, rfl, rfl⟩ | ⟨-, s₂, rfl, hexit⟩
  · exact ⟨hs, rfl, rfl, fun x hx => absurd hx (by simp)⟩
  · have howns := (Driver.owns_completeAll (l := env.beforeQbuf)).mpr hs.2
    have hout : ¬ s.handle.v4lbufPut = true := by
      rw [hs.1]
      decide
    rcases hexit with ⟨-, rfl, rfl⟩ | ⟨s₃, hput, -⟩
    · refine ⟨⟨hs.1, howns⟩, rfl, rfl, ?_⟩
      intro x hx
      rw [issued, if_neg hout] at hx
      obtain rfl := Option.some.inj hx
      exact howns
    · rcases putBack_cases hput with ⟨hin, -⟩ | ⟨-, -, -, huser, -⟩
      · exact absurd hin hout
      · exact absurd huser howns

theorem Stale.run (hs : Stale s) (hrun : captures.run s (body.map .during) = some (s', outs)) :
    s'.handle = s.handle ∧
      ∀ r, .got r ∈ outs → r.ret = some (-1) ∧ ∀ x ∈ r.qbuf, x.2 ≠ .user := by
  have hall : ∀ s₁ e s₂ out, (Stale s₁ ∧ s₁.handle = s.handle) → e.Within →
      captures.step s₁ e = some (s₂, out) → (Stale s₂ ∧ s₂.handle = s.handle) ∧
        ∀ r, out = .got r → r.ret = some (-1) ∧ ∀ x ∈ r.qbuf, x.2 ≠ .user := by
    rintro s₁ e s₂ out ⟨hs₁, hhandle⟩ ⟨a, rfl⟩ hstep
    obtain ⟨i, -, rfl, rfl⟩ | ⟨env, r₁, -, hget, rfl⟩ := activity_cases hstep
    · refine ⟨⟨⟨hs₁.1, (Driver.owns_completeAll (l := [i])).mpr hs₁.2⟩, hhandle⟩, ?_⟩
      intro r hr
      exact absurd hr (by simp)
    · obtain ⟨hstale, hsame, hret⟩ := hs₁.captureGetData hget
      refine ⟨⟨hstale, hsame.trans hhandle⟩, ?_⟩
      intro r hr
      obtain rfl := Output.got.inj hr
      exact hret
  obtain ⟨⟨-, hhandle⟩, houts⟩ := Machine.run_forall hall ⟨hs, rfl⟩ (within_map body) hrun
  exact ⟨hhandle, fun r hr => houts _ hr r rfl⟩

/-- **Started with a buffer out a device is stale**: the loop of
`capture_start` has queued that buffer with the others. -/
theorem HeldLt.stale {startEnv : StartEnv} (hlt : HeldLt s) (hout : s.handle.v4lbufPut = false)
    (hzero : (captureStart startEnv s).2 = 0) : Stale (captureStart startEnv s).1 := by
  obtain ⟨hhandle, -, -, hall, -⟩ := captureStart_spec startEnv s
  refine ⟨hhandle ▸ hout, ?_⟩
  unfold Driver.Owns
  rw [hhandle, hall hzero _ (hlt _ (CapHandle.held_of_not_put hout))]
  decide

/-- A session whose `capture_start` succeeds leaves a buffer out that was
out before. -/
theorem HeldLt.session (hlt : HeldLt s) (hout : s.handle.v4lbufPut = false)
    (hrun : captures.run s x.events = some (s', outs))
    (hstarts : ∀ ret, .started ret ∈ outs → ret = 0) : s'.handle = s.handle := by
  obtain ⟨s₁, outs₁, hbody, rfl, hstarted⟩ := session_cases hrun
  obtain ⟨hsame, -⟩ := (hlt.stale hout (hstarts _ hstarted)).run hbody
  exact hsame.trans (captureStart_spec x.start s).1

/-! ## Sequences of sessions -/

theorem Idle.run (hs : Idle n s)
    (hrun : captures.run s (sessions.flatMap Session.events) = some (s', outs)) : Idle n s' := by
  induction sessions generalizing s outs with
  | nil =>
    obtain ⟨rfl, -⟩ := Prod.mk.inj (Option.some.inj hrun)
    exact hs
  | cons x sessions ih =>
    rw [List.flatMap_cons] at hrun
    obtain ⟨s₁, outs₁, outs₂, hrun₁, hrest, -⟩ := Machine.run_append.mp hrun
    exact ih (hs.after hrun₁) hrest

/-- Settled sessions leave no buffer out. -/
theorem put_of_settled (hs : Idle n s) (hput : s.handle.v4lbufPut = true)
    (hrun : captures.run s (sessions.flatMap Session.events) = some (s', outs))
    (hsettled : ∀ x ∈ sessions, x.Settled) : s'.handle.v4lbufPut = true := by
  induction sessions generalizing s outs with
  | nil =>
    obtain ⟨rfl, -⟩ := Prod.mk.inj (Option.some.inj hrun)
    exact hput
  | cons x sessions ih =>
    rw [List.flatMap_cons] at hrun
    obtain ⟨s₁, outs₁, outs₂, hrun₁, hrest, -⟩ := Machine.run_append.mp hrun
    obtain ⟨hx, hsessions⟩ := List.forall_mem_cons.mp hsettled
    exact ih (hs.after hrun₁) ((hs.session hput hrun₁).mpr hx) hrest hsessions

/-- Where every `capture_start` succeeds, a buffer that is out when a
session ends stays out. -/
theorem not_put_of_stale (hlt : HeldLt s) (hout : s.handle.v4lbufPut = false)
    (hrun : captures.run s (sessions.flatMap Session.events) = some (s', outs))
    (hstarts : ∀ ret, .started ret ∈ outs → ret = 0) : s'.handle.v4lbufPut = false := by
  induction sessions generalizing s outs with
  | nil =>
    obtain ⟨rfl, -⟩ := Prod.mk.inj (Option.some.inj hrun)
    exact hout
  | cons x sessions ih =>
    rw [List.flatMap_cons] at hrun
    obtain ⟨s₁, outs₁, outs₂, hrun₁, hrest, rfl⟩ := Machine.run_append.mp hrun
    have hsame := hlt.session hout hrun₁ fun ret hret =>
      hstarts ret (List.mem_append_left _ hret)
    refine ih (heldLt_run hlt hrun₁) ?_ hrest ?_
    · rw [hsame]
      exact hout
    · intro ret hret
      exact hstarts ret (List.mem_append_right _ hret)

/-- **Sessions that all start leave no buffer out exactly where each of
them is settled.** -/
theorem put_iff_settled (hs : Idle n s) (hput : s.handle.v4lbufPut = true)
    (hrun : captures.run s (sessions.flatMap Session.events) = some (s', outs))
    (hstarts : ∀ ret, .started ret ∈ outs → ret = 0) :
    s'.handle.v4lbufPut = true ↔ ∀ x ∈ sessions, x.Settled := by
  refine ⟨?_, put_of_settled hs hput hrun⟩
  intro hput'
  induction sessions generalizing s outs with
  | nil => exact fun x hx => absurd hx List.not_mem_nil
  | cons x sessions ih =>
    rw [List.flatMap_cons] at hrun
    obtain ⟨s₁, outs₁, outs₂, hrun₁, hrest, rfl⟩ := Machine.run_append.mp hrun
    have hrests : ∀ ret, .started ret ∈ outs₂ → ret = 0 := fun ret hret =>
      hstarts ret (List.mem_append_right _ hret)
    have hlt := heldLt_run (heldLt_of_none (CapHandle.held_eq_none_iff.mpr hput)) hrun₁
    -- a buffer out after the first session would be out to the end
    have hput₁ : s₁.handle.v4lbufPut = true := by
      by_contra hout
      have hout := Bool.not_eq_true _ ▸ hout
      have hstale := not_put_of_stale hlt hout hrest hrests
      exact absurd (hput'.symm.trans hstale) (by decide)
    exact List.forall_mem_cons.mpr
      ⟨(hs.session hput hrun₁).mp hput₁, ih (hs.after hrun₁) hput₁ hrest hrests⟩

/-! ## Restarts -/

/-- **Capture restarts exactly where it was stopped with no buffer out.**
On a device opened, after any sessions: a `capture_start` that succeeds
brings the device back to what it is after the first one if and only if
`v4lbuf_put` is 1 when the last session is stopped. Where it is 0, every
call until the next `capture_stop` returns -1, and asks the driver, if
anything, for a buffer it owns. Where every session is settled it is 1; and
where each `capture_start` so far has succeeded it is nowhere else. -/
theorem restarted_iff {openEnv : OpenEnv} {param : CapParam} {h : CapHandle}
    {startEnv : StartEnv} (hopen : (captureOpen openEnv param).1 = some h)
    (hrun : captures.run (.opened h) (sessions.flatMap Session.events) = some (s, outs))
    (hstart : captures.step s (.start startEnv) = some (s₁, .started 0)) :
    (Restarted h.nbuffers s₁ ↔ s.handle.v4lbufPut = true) ∧
    (s.handle.v4lbufPut = false → ∀ (body : List Activity) s' outs',
      captures.run s₁ (body.map .during) = some (s', outs') →
        ∀ r, .got r ∈ outs' → r.ret = some (-1) ∧ ∀ x ∈ r.qbuf, x.2 ≠ .user) ∧
    ((∀ x ∈ sessions, x.Settled) → s.handle.v4lbufPut = true) ∧
    ((∀ ret, .started ret ∈ outs → ret = 0) →
      (s.handle.v4lbufPut = true ↔ ∀ x ∈ sessions, x.Settled)) := by
  obtain ⟨hidle, hput⟩ := idle_opened hopen
  obtain ⟨rfl, hzero⟩ := Prod.mk.inj (Option.some.inj hstart)
  have hzero := Output.started.inj hzero
  refine ⟨?_, ?_, put_of_settled hidle hput hrun, put_iff_settled hidle hput hrun⟩
  · constructor
    · intro hrestarted
      exact (captureStart_spec startEnv s).1 ▸ hrestarted.put
    · intro hput'
      obtain ⟨hcustody, hnone⟩ := ((hidle.run hrun).quiet hput').start hzero
      exact hcustody.restarted hnone
  · intro hout body s' outs' hbody
    have hlt := heldLt_run (heldLt_of_none (CapHandle.held_eq_none_iff.mpr hput)) hrun
    exact ((hlt.stale hout hzero).run hbody).2

/-- A session that gets one image and is stopped. -/
def oneImage : Session := ⟨startAll, [.complete 0, .getData (getBuffer 0)]⟩

/-- A session that gets one image, then finds no other, and is stopped. -/
def imageThenEagain : Session :=
  ⟨startAll, [.complete 0, .getData (getBuffer 0), .getData ⟨.ready, [], true, [], .eagain⟩]⟩

/-- Two settled sessions, and a third that works. -/
theorem restarted_iff_eagain : ∃ s outs,
    captures.run (.opened fourBuffers) ([imageThenEagain, imageThenEagain].flatMap Session.events) =
      some (s, outs) ∧ Restarted 4 (captureStart startAll s).1 := by
  have hrun : captures.run (.opened fourBuffers)
      ([imageThenEagain, imageThenEagain].flatMap Session.events) = some (_, _) := rfl
  refine ⟨_, _, hrun, ?_⟩
  exact (restarted_iff captureOpen_fourBuffers hrun rfl).1.mpr rfl

/-- **Stopped with an image out, the device is restarted in vain**: a frame
is captured, and `capture_get_data` asks the driver for a buffer it owns
and returns -1. -/
theorem not_restarted_oneImage : ∃ s outs,
    captures.run (.opened fourBuffers) oneImage.events = some (s, outs) ∧
    (captureStart startAll s).2 = 0 ∧ ¬ Restarted 4 (captureStart startAll s).1 ∧
    (captures.run (captureStart startAll s).1 [.during (.complete 1),
      .during (.getData (getBuffer 1))]).map Prod.snd =
      some [.quiet, .got ⟨some (-1), some (0, .queued), none⟩] := by
  have hrun : captures.run (.opened fourBuffers) oneImage.events = some (_, _) := rfl
  refine ⟨_, _, hrun, rfl, ?_, rfl⟩
  intro hrestarted
  exact absurd hrestarted.put (by decide)

end Capture

end Camkit
