import Camkit.Capture.Model.Stream
/-!
# V4L2 capture — custody of the buffers

Within a session the driver owns every buffer but the one `v4lbuf` names,
and `v4lbuf_put` says whether there is one. The invariant is carried over
each exit of `capture_get_data`, whatever the driver does meanwhile.
-/

namespace Camkit

namespace Capture

variable {n i j : ℕ} {l : List ℕ} {ok b : Bool} {d d' : Driver} {s s' s₀ s₁ : Device}
variable {env : GetDataEnv} {r : GetDataResult} {a : Activity} {body : List Activity}
variable {out : Output} {outs : List Output}

/-! ## The driver -/

namespace Driver

theorem slots_set_self {slot : Slot} : (d.set i slot).slots i = slot := Function.update_self ..

theorem slots_set_of_ne {slot : Slot} (hne : j ≠ i) : (d.set i slot).slots j = d.slots j :=
  Function.update_of_ne hne ..

/-- A capture changes one slot, from queued to filled. -/
theorem slots_complete : (d.complete i).slots j = d.slots j ∨
    d.slots j = .queued ∧ (d.complete i).slots j = .filled ∧ d.streaming = true := by
  unfold complete
  split
  · rename_i hqueued
    by_cases hji : j = i
    · subst hji
      exact .inr ⟨hqueued.2, slots_set_self, hqueued.1⟩
    · exact .inl (slots_set_of_ne hji)
  · exact .inl rfl

theorem frame_complete :
    (d.complete i).count = d.count ∧ (d.complete i).streaming = d.streaming := by
  unfold complete
  split <;> exact ⟨rfl, rfl⟩

theorem frame_completeAll :
    (d.completeAll l).count = d.count ∧ (d.completeAll l).streaming = d.streaming := by
  induction l generalizing d with
  | nil => exact ⟨rfl, rfl⟩
  | cons i l ih =>
    obtain ⟨hcount, hstreaming⟩ := ih (d := d.complete i)
    exact ⟨hcount.trans frame_complete.1, hstreaming.trans frame_complete.2⟩

/-- Captures change slots from queued to filled. -/
theorem slots_completeAll : (d.completeAll l).slots j = d.slots j ∨
    d.slots j = .queued ∧ (d.completeAll l).slots j = .filled ∧ d.streaming = true := by
  induction l generalizing d with
  | nil => exact .inl rfl
  | cons i l ih =>
    rcases slots_complete (d := d) (i := i) (j := j) with hone | ⟨hqueued, hfilled, hon⟩
    · rcases ih (d := d.complete i) with hrest | ⟨hqueued, hfilled, hon⟩
      · exact .inl (hrest.trans hone)
      · exact .inr ⟨hone ▸ hqueued, hfilled, frame_complete.2 ▸ hon⟩
    · rcases ih (d := d.complete i) with hrest | ⟨hqueued', -, -⟩
      · exact .inr ⟨hqueued, hrest.trans hfilled, hon⟩
      · exact absurd (hfilled.symm.trans hqueued') (by decide)

theorem user_completeAll (huser : d.slots j = .user) : (d.completeAll l).slots j = .user := by
  rcases slots_completeAll (d := d) (l := l) (j := j) with hsame | ⟨hqueued, -, -⟩
  · exact hsame.trans huser
  · exact absurd (huser.symm.trans hqueued) (by decide)

theorem filled_completeAll (hfilled : d.slots j = .filled) :
    (d.completeAll l).slots j = .filled := by
  rcases slots_completeAll (d := d) (l := l) (j := j) with hsame | ⟨-, hfilled', -⟩
  · exact hsame.trans hfilled
  · exact hfilled'

/-- **Captures move no buffer** between the driver and the program. -/
theorem owns_completeAll : (d.completeAll l).Owns j ↔ d.Owns j := by
  unfold Owns
  rcases slots_completeAll (d := d) (l := l) (j := j) with hsame | ⟨hqueued, hfilled, -⟩
  · rw [hsame]
  · rw [hqueued, hfilled]
    exact ⟨fun _ => by decide, fun _ => by decide⟩

theorem not_owns_iff : ¬ d.Owns j ↔ d.slots j = .user := not_not

theorem qbuf_some (hqbuf : d.qbuf ok i = some d') :
    ok = true ∧ i < d.count ∧ d.slots i = .user ∧ d' = d.set i .queued := by
  unfold qbuf at hqbuf
  split at hqbuf
  · rename_i hall
    exact ⟨hall.1, hall.2.1, not_owns_iff.mp hall.2.2, (Option.some.inj hqbuf).symm⟩
  · exact absurd hqbuf (by simp)

theorem qbuf_none (hqbuf : d.qbuf ok i = none) (hok : ok = true) (hi : i < d.count) : d.Owns i := by
  by_contra howns
  exact absurd hqbuf (by simp [qbuf, hok, hi, howns])

theorem owns_set_queued : (d.set i .queued).Owns j ↔ j = i ∨ d.Owns j := by
  by_cases hji : j = i
  · subst hji
    exact ⟨fun _ => .inl rfl, fun _ => by unfold Owns; rw [slots_set_self]; decide⟩
  · unfold Owns
    rw [slots_set_of_ne hji]
    exact ⟨.inr, fun hor => hor.resolve_left hji⟩

theorem owns_set_user : (d.set i .user).Owns j ↔ j ≠ i ∧ d.Owns j := by
  by_cases hji : j = i
  · subst hji
    exact ⟨fun howns => absurd slots_set_self howns, fun hne => absurd rfl hne.1⟩
  · unfold Owns
    rw [slots_set_of_ne hji]
    exact ⟨fun howns => ⟨hji, howns⟩, And.right⟩

end Driver

/-! ## The invariant -/

/-- The buffer the handle has out, by its own account. -/
def CapHandle.held (h : CapHandle) : Option ℕ :=
  if h.v4lbufPut then none else some h.v4lbuf.index

theorem CapHandle.held_eq_none_iff {h : CapHandle} : h.held = none ↔ h.v4lbufPut = true := by
  unfold CapHandle.held
  split
  · rename_i hput
    exact ⟨fun _ => hput, fun _ => rfl⟩
  · rename_i hput
    exact ⟨fun hnone => absurd hnone (by simp), fun hput' => absurd hput' hput⟩

theorem CapHandle.held_of_not_put {h : CapHandle} (hput : h.v4lbufPut = false) :
    h.held = some h.v4lbuf.index := if_neg (by rw [hput]; decide)

/-- **Custody within a session**: the driver owns exactly the buffers the
handle has not out. -/
structure Custody (n : ℕ) (s : Device) : Prop where
  nbuffers : s.handle.nbuffers = n
  count : s.driver.count = n
  held_lt : ∀ i, s.handle.held = some i → i < n
  owns_iff : ∀ i, s.driver.Owns i ↔ i < n ∧ s.handle.held ≠ some i

/-- Custody is a matter of what is out and who owns what. -/
theorem Custody.congr (hs : Custody n s) (hn : s'.handle.nbuffers = s.handle.nbuffers)
    (hcount : s'.driver.count = s.driver.count) (hheld : s'.handle.held = s.handle.held)
    (howns : ∀ i, s'.driver.Owns i ↔ s.driver.Owns i) : Custody n s' where
  nbuffers := hn.trans hs.nbuffers
  count := hcount.trans hs.count
  held_lt i hi := hs.held_lt i (hheld ▸ hi)
  owns_iff i := by rw [howns, hs.owns_iff, hheld]

theorem Custody.completeAll (hs : Custody n s) :
    Custody n { s with driver := s.driver.completeAll l } :=
  hs.congr rfl Driver.frame_completeAll.1 rfl fun _ => Driver.owns_completeAll

/-- What is out is not the driver's. -/
theorem Custody.user_of_held (hs : Custody n s) (hheld : s.handle.held = some i) :
    s.driver.slots i = .user := by
  refine Driver.not_owns_iff.mp ?_
  rw [hs.owns_iff]
  exact fun hi => hi.2 hheld

/-- **The two ways past `VIDIOC_QBUF`**: no buffer is out, or the one that
is has been put back. -/
theorem putBack_cases (hput : putBack ok s = some s') :
    (s.handle.v4lbufPut = true ∧ s' = s) ∨
    s.handle.v4lbufPut = false ∧ ok = true ∧ s.handle.v4lbuf.index < s.driver.count ∧
      s.driver.slots s.handle.v4lbuf.index = .user ∧
      s' = ⟨{ s.handle with v4lbufPut := true }, s.driver.set s.handle.v4lbuf.index .queued⟩ := by
  unfold putBack at hput
  split at hput
  · rename_i hin
    exact .inl ⟨hin, (Option.some.inj hput).symm⟩
  · rename_i hout
    split at hput
    · exact absurd hput (by simp)
    · rename_i d hqbuf
      obtain ⟨hok, hlt, huser, rfl⟩ := Driver.qbuf_some hqbuf
      exact .inr ⟨Bool.not_eq_true _ ▸ hout, hok, hlt, huser, (Option.some.inj hput).symm⟩

/-- Once `VIDIOC_QBUF` is past, no buffer is out. -/
theorem held_putBack (hput : putBack ok s = some s') : s'.handle.held = none := by
  rcases putBack_cases hput with ⟨hin, rfl⟩ | ⟨-, -, -, -, rfl⟩
  · exact CapHandle.held_eq_none_iff.mpr hin
  · rfl

/-- **A buffer is put back** only where it was out, and afterwards none
is. -/
theorem Custody.putBack (hs : Custody n s) (hput : putBack ok s = some s') :
    Custody n s' ∧ s'.handle.held = none := by
  refine ⟨?_, held_putBack hput⟩
  rcases putBack_cases hput with ⟨-, rfl⟩ | ⟨hout, -, hlt, -, rfl⟩
  · exact hs
  · have hheld := CapHandle.held_of_not_put hout
    refine ⟨hs.nbuffers, hs.count, fun i hi => absurd hi (by simp [CapHandle.held]), ?_⟩
    intro j
    -- the buffer put back joins the ones the driver had
    rw [Driver.owns_set_queued, hs.owns_iff, hheld]
    constructor
    · rintro (rfl | ⟨hj, -⟩)
      · exact ⟨hs.count ▸ hlt, by simp [CapHandle.held]⟩
      · exact ⟨hj, by simp [CapHandle.held]⟩
    · rintro ⟨hj, -⟩
      by_cases heq : j = s.handle.v4lbuf.index
      · exact .inl heq
      · exact .inr ⟨hj, fun hsome => heq (Option.some.inj hsome).symm⟩

/-- What `VIDIOC_QBUF` is issued for is out, and so not the driver's. -/
theorem Custody.issued_user (hs : Custody n s) {x : ℕ × Slot} (hx : issued s = some x) :
    s.handle.held = some x.1 ∧ x.2 = .user := by
  unfold issued at hx
  split at hx
  · exact absurd hx (by simp)
  · rename_i hout
    have hheld := CapHandle.held_of_not_put (Bool.not_eq_true _ ▸ hout)
    obtain rfl := Option.some.inj hx
    exact ⟨hheld, hs.user_of_held hheld⟩

theorem held_clearBuf {h : CapHandle} (hnone : h.held = none) : (clearBuf h).held = none := by
  have hin : h.v4lbufPut = true := CapHandle.held_eq_none_iff.mp hnone
  exact CapHandle.held_eq_none_iff.mpr hin

/-- With no buffer out, the record that is cleared says nothing. -/
theorem Custody.clearBuf (hs : Custody n s) (hnone : s.handle.held = none) :
    Custody n ⟨Capture.clearBuf s.handle, s.driver.completeAll l⟩ ∧
      (Capture.clearBuf s.handle).held = none := by
  have hcleared := held_clearBuf hnone
  exact ⟨hs.congr rfl Driver.frame_completeAll.1 (hcleared.trans hnone.symm)
    fun _ => Driver.owns_completeAll, hcleared⟩

/-- The buffer an answer of `VIDIOC_DQBUF` gives. -/
def DqbufAnswer.given : DqbufAnswer → Option ℕ
  | .buffer i => some i
  | .eagain => none
  | .error => none

/-- **The exits after `VIDIOC_DQBUF`**: it fails, or gives a filled buffer
that is one of the handle's, or one the assertion rejects. -/
theorem dequeue_cases {answer : DqbufAnswer} {asked : Option (ℕ × Slot)}
    (hdeq : dequeue answer asked s = some (s', r)) :
    (answer.given = none ∧ s' = s ∧ ∃ ret, r = ⟨some ret, asked, none⟩) ∨
    ∃ i, answer = .buffer i ∧ s.driver.slots i = .filled ∧
      (i < s.handle.nbuffers ∧ s' = ⟨takeBuf i s.handle, s.driver.set i .user⟩ ∧
          r = ⟨some 0, asked, some ⟨i, (s.handle.buffers i).start, s.handle.imageSize⟩⟩ ∨
        ¬ i < s.handle.nbuffers ∧
          s' = ⟨{ s.handle with v4lbuf := ⟨i⟩ }, s.driver.set i .user⟩ ∧
          r = ⟨none, asked, none⟩) := by
  cases answer with
  | eagain =>
    obtain ⟨rfl, rfl⟩ := Prod.mk.inj (Option.some.inj hdeq)
    exact .inl ⟨rfl, rfl, _, rfl⟩
  | error =>
    obtain ⟨rfl, rfl⟩ := Prod.mk.inj (Option.some.inj hdeq)
    exact .inl ⟨rfl, rfl, _, rfl⟩
  | buffer i =>
    simp only [dequeue] at hdeq
    split at hdeq
    · rename_i hfilled
      refine .inr ⟨i, rfl, hfilled, ?_⟩
      split at hdeq
      · rename_i hlt
        obtain ⟨rfl, rfl⟩ := Prod.mk.inj (Option.some.inj hdeq)
        exact .inl ⟨hlt, rfl, rfl⟩
      · rename_i hlt
        obtain ⟨rfl, rfl⟩ := Prod.mk.inj (Option.some.inj hdeq)
        exact .inr ⟨hlt, rfl, rfl⟩
    · exact absurd hdeq (by simp)

theorem qbuf_dequeue {answer : DqbufAnswer} {asked : Option (ℕ × Slot)}
    (hdeq : dequeue answer asked s = some (s', r)) : r.qbuf = asked := by
  rcases dequeue_cases hdeq with ⟨-, -, ret, rfl⟩ | ⟨i, -, -, ⟨-, -, rfl⟩ | ⟨-, -, rfl⟩⟩
  · rfl
  · rfl
  · rfl

/-- A filled buffer is one of the handle's. -/
theorem Custody.lt_of_filled (hs : Custody n s) (hfilled : s.driver.slots i = .filled) :
    i < n := by
  have howns : s.driver.Owns i := by
    unfold Driver.Owns
    rw [hfilled]
    decide
  exact ((hs.owns_iff i).mp howns).1

/-- **A buffer dequeued** is the one that is out then. -/
theorem Custody.dequeue {answer : DqbufAnswer} {asked : Option (ℕ × Slot)} (hs : Custody n s)
    (hnone : s.handle.held = none) (hdeq : dequeue answer asked s = some (s', r)) :
    Custody n s' ∧ r.ret.isSome ∧ s'.handle.held = answer.given ∧
      r.image.map Image.index = answer.given := by
  rcases dequeue_cases hdeq with ⟨hgiven, rfl, ret, rfl⟩ | ⟨i, rfl, hfilled, hexit⟩
  · exact ⟨hs, rfl, hnone.trans hgiven.symm, hgiven.symm⟩
  · -- a filled buffer is one of the handle's, so the assertion holds
    have hlt := hs.lt_of_filled hfilled
    rcases hexit with ⟨-, rfl, rfl⟩ | ⟨hnot, -, -⟩
    · refine ⟨⟨hs.nbuffers, hs.count, ?_, ?_⟩, rfl, rfl, rfl⟩
      · intro j hj
        obtain rfl : i = j := Option.some.inj hj
        exact hlt
      · intro j
        have hheld : (takeBuf i s.handle).held = some i := rfl
        rw [Driver.owns_set_user, hs.owns_iff, hnone, hheld]
        constructor
        · rintro ⟨hne, hj, -⟩
          exact ⟨hj, fun hsome => hne (Option.some.inj hsome).symm⟩
        · rintro ⟨hj, hne⟩
          exact ⟨fun heq => hne (congrArg some heq.symm), hj, by simp⟩
    · exact absurd (hs.nbuffers.symm ▸ hlt) hnot

/-! ## `capture_get_data` -/

/-- **The exits of `capture_get_data`**: before `VIDIOC_QBUF`, after it
fails, and after `VIDIOC_DQBUF`. -/
theorem captureGetData_cases (hget : captureGetData env s = some (s', r)) :
    (env.select ≠ .ready ∧ s' = s ∧ r = ⟨some (-1), none, none⟩) ∨
    env.select = .ready ∧ ∃ s₁, s₁ = { s with driver := s.driver.completeAll env.beforeQbuf } ∧
      ((putBack env.qbuf s₁ = none ∧ s' = s₁ ∧ r = ⟨some (-1), issued s₁, none⟩) ∨
        ∃ s₂, putBack env.qbuf s₁ = some s₂ ∧ dequeue env.dqbuf (issued s₁)
          ⟨clearBuf s₂.handle, s₂.driver.completeAll env.beforeDqbuf⟩ = some (s', r)) := by
  unfold captureGetData at hget
  split at hget
  · rename_i hselect
    obtain ⟨rfl, rfl⟩ := Prod.mk.inj (Option.some.inj hget)
    exact .inl ⟨by rw [hselect]; decide, rfl, rfl⟩
  · rename_i hselect
    obtain ⟨rfl, rfl⟩ := Prod.mk.inj (Option.some.inj hget)
    exact .inl ⟨by rw [hselect]; decide, rfl, rfl⟩
  · rename_i hselect
    refine .inr ⟨hselect, _, rfl, ?_⟩
    simp only at hget
    split at hget
    · rename_i hput
      obtain ⟨rfl, rfl⟩ := Prod.mk.inj (Option.some.inj hget)
      exact .inl ⟨hput, rfl, rfl⟩
    · rename_i hput
      exact .inr ⟨_, hput, hget⟩

/-- **`capture_get_data` keeps custody.** It issues `VIDIOC_QBUF` for what
is out only, its assertion holds, and the image it returns is out. -/
theorem Custody.captureGetData (hs : Custody n s) (hget : captureGetData env s = some (s', r)) :
    Custody n s' ∧ (∀ x ∈ r.qbuf, s.handle.held = some x.1 ∧ x.2 = .user) ∧ r.ret.isSome ∧
      ∀ image ∈ r.image, s'.handle.held = some image.index := by
  rcases captureGetData_cases hget with ⟨-, rfl, rfl⟩ | ⟨-, s₁, hs₁, hexit⟩
  · refine ⟨hs, ?_, rfl, ?_⟩
    · intro x hx
      exact absurd hx (by simp)
    · intro image himage
      exact absurd himage (by simp)
  · have hcustody : Custody n s₁ := hs₁ ▸ hs.completeAll
    have hheld : s₁.handle.held = s.handle.held := by rw [hs₁]
    have hissued : ∀ x ∈ issued s₁, s.handle.held = some x.1 ∧ x.2 = .user := by
      intro x hx
      rw [← hheld]
      exact hcustody.issued_user hx
    rcases hexit with ⟨-, rfl, rfl⟩ | ⟨s₂, hput, hdeq⟩
    · refine ⟨hcustody, hissued, rfl, ?_⟩
      intro image himage
      exact absurd himage (by simp)
    · obtain ⟨hcustody₂, hnone⟩ := hcustody.putBack hput
      obtain ⟨hcustody₃, hcleared⟩ := hcustody₂.clearBuf (l := env.beforeDqbuf) hnone
      obtain ⟨hcustody', hret, hheld', himages⟩ := hcustody₃.dequeue hcleared hdeq
      refine ⟨hcustody', qbuf_dequeue hdeq ▸ hissued, hret, ?_⟩
      intro image himage
      rw [hheld', ← himages, himage]
      rfl

/-! ## Activities -/

/-- An activity is a frame captured, or a call. -/
theorem activity_cases (happly : a.apply s = some (s', out)) :
    (∃ i, a = .complete i ∧ s' = { s with driver := s.driver.complete i } ∧ out = .quiet) ∨
    ∃ env r, a = .getData env ∧ captureGetData env s = some (s', r) ∧ out = .got r := by
  cases a with
  | complete i =>
    obtain ⟨rfl, rfl⟩ := Prod.mk.inj (Option.some.inj happly)
    exact .inl ⟨i, rfl, rfl, rfl⟩
  | getData env =>
    obtain ⟨⟨s₁, r⟩, hget, heq⟩ := Option.map_eq_some_iff.mp happly
    obtain ⟨rfl, rfl⟩ := Prod.mk.inj heq
    exact .inr ⟨env, r, rfl, hget, rfl⟩

/-- The events within a session. -/
def Event.Within (e : Event) : Prop := ∃ a, e = .during a

theorem within_map (body : List Activity) : ∀ e ∈ body.map Event.during, e.Within := by
  intro e he
  obtain ⟨a, -, rfl⟩ := List.mem_map.mp he
  exact ⟨a, rfl⟩

/-- **An activity keeps custody.** -/
theorem Custody.activity (hs : Custody n s) (happly : a.apply s = some (s', out)) :
    Custody n s' ∧ ∀ r, out = .got r → (∀ x ∈ r.qbuf, s.handle.held = some x.1 ∧ x.2 = .user) ∧
      r.ret.isSome ∧ ∀ image ∈ r.image, s'.handle.held = some image.index := by
  obtain ⟨i, -, rfl, rfl⟩ | ⟨env, r₁, -, hget, rfl⟩ := activity_cases happly
  · refine ⟨hs.completeAll (l := [i]), ?_⟩
    intro r hr
    exact absurd hr (by simp)
  · obtain ⟨hcustody, hrest⟩ := hs.captureGetData hget
    refine ⟨hcustody, ?_⟩
    intro r hr
    obtain rfl := Output.got.inj hr
    exact hrest

/-- **Custody over a session**, with what every call does in it. -/
theorem Custody.run (hs : Custody n s)
    (hrun : captures.run s (body.map .during) = some (s', outs)) :
    Custody n s' ∧ ∀ r, .got r ∈ outs → (∀ x ∈ r.qbuf, x.2 = .user) ∧ r.ret.isSome := by
  have hall : ∀ s e s' out, Custody n s → e.Within → captures.step s e = some (s', out) →
      Custody n s' ∧ ∀ r, out = .got r → (∀ x ∈ r.qbuf, x.2 = .user) ∧ r.ret.isSome := by
    rintro s e s' out hs ⟨a, rfl⟩ hstep
    obtain ⟨hs', hout⟩ := hs.activity hstep
    refine ⟨hs', ?_⟩
    intro r hr
    obtain ⟨hqbuf, hret, -⟩ := hout r hr
    exact ⟨fun x hx => (hqbuf x hx).2, hret⟩
  obtain ⟨hs', houts⟩ := Machine.run_forall hall hs (within_map body) hrun
  exact ⟨hs', fun r hr => houts _ hr r rfl⟩

/-! ## Buffers that are out -/

/-- A buffer comes to the driver by `VIDIOC_QBUF` only. -/
theorem user_putBack (huser : s.driver.slots i = .user) (hput : putBack ok s = some s')
    (hx : ∀ x ∈ issued s, x.1 ≠ i) : s'.driver.slots i = .user := by
  rcases putBack_cases hput with ⟨-, rfl⟩ | ⟨hout, -, -, -, rfl⟩
  · exact huser
  · have hissued : issued s = some (s.handle.v4lbuf.index, _) := if_neg (by rw [hout]; decide)
    exact (Driver.slots_set_of_ne (hx _ hissued).symm).trans huser

theorem user_dequeue {answer : DqbufAnswer} {asked : Option (ℕ × Slot)}
    (huser : s.driver.slots i = .user) (hdeq : dequeue answer asked s = some (s', r)) :
    s'.driver.slots i = .user ∧ ∀ image ∈ r.image, image.index ≠ i := by
  rcases dequeue_cases hdeq with ⟨-, rfl, ret, rfl⟩ | ⟨k, rfl, hfilled, hexit⟩
  · exact ⟨huser, fun image himage => absurd himage (by simp)⟩
  · have hne : i ≠ k := by
      rintro rfl
      exact absurd (huser.symm.trans hfilled) (by decide)
    have huser' : (s.driver.set k .user).slots i = .user :=
      (Driver.slots_set_of_ne hne).trans huser
    rcases hexit with ⟨-, rfl, rfl⟩ | ⟨-, rfl, rfl⟩
    · refine ⟨huser', ?_⟩
      intro image himage
      obtain rfl := Option.some.inj himage
      exact hne.symm
    · exact ⟨huser', fun image himage => absurd himage (by simp)⟩

/-- **A buffer that is out stays out**, and is not handed out again, where
`VIDIOC_QBUF` is not issued for it. -/
theorem user_captureGetData (huser : s.driver.slots i = .user)
    (hget : captureGetData env s = some (s', r)) (hx : ∀ x ∈ r.qbuf, x.1 ≠ i) :
    s'.driver.slots i = .user ∧ ∀ image ∈ r.image, image.index ≠ i := by
  rcases captureGetData_cases hget with ⟨-, rfl, rfl⟩ | ⟨-, s₁, rfl, hexit⟩
  · exact ⟨huser, fun image himage => absurd himage (by simp)⟩
  · have huser₁ := Driver.user_completeAll (l := env.beforeQbuf) huser
    rcases hexit with ⟨-, rfl, rfl⟩ | ⟨s₂, hput, hdeq⟩
    · exact ⟨huser₁, fun image himage => absurd himage (by simp)⟩
    · have huser₂ := user_putBack huser₁ hput (qbuf_dequeue hdeq ▸ hx)
      exact user_dequeue (Driver.user_completeAll (l := env.beforeDqbuf) huser₂) hdeq

theorem user_run (huser : s.driver.slots i = .user)
    (hrun : captures.run s (body.map .during) = some (s', outs))
    (hx : ∀ r, .got r ∈ outs → ∀ x ∈ r.qbuf, x.1 ≠ i) :
    s'.driver.slots i = .user ∧ ∀ r, .got r ∈ outs → ∀ image ∈ r.image, image.index ≠ i := by
  induction body generalizing s outs with
  | nil =>
    obtain ⟨rfl, rfl⟩ := Prod.mk.inj (Option.some.inj hrun)
    exact ⟨huser, fun r hr => absurd hr List.not_mem_nil⟩
  | cons a body ih =>
    rw [List.map_cons] at hrun
    obtain ⟨s₁, out, outs, hstep, hrest, rfl⟩ := Machine.run_cons.mp hrun
    have hone : s₁.driver.slots i = .user ∧ ∀ r, out = .got r → ∀ image ∈ r.image,
        image.index ≠ i := by
      obtain ⟨k, -, rfl, rfl⟩ | ⟨env, r₁, -, hget, rfl⟩ := activity_cases hstep
      · exact ⟨Driver.user_completeAll (l := [k]) huser, fun r hr => absurd hr (by simp)⟩
      · obtain ⟨huser', himages⟩ := user_captureGetData huser hget (hx _ List.mem_cons_self)
        refine ⟨huser', ?_⟩
        intro r hr
        obtain rfl := Output.got.inj hr
        exact himages
    obtain ⟨huser', himages⟩ := ih hone.1 hrest fun r hr => hx r (List.mem_cons_of_mem _ hr)
    refine ⟨huser', ?_⟩
    intro r hr
    rcases List.mem_cons.mp hr with heq | hr
    · exact hone.2 r heq.symm
    · exact himages r hr

end Capture

end Camkit
