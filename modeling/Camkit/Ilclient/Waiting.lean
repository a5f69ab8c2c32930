import Camkit.Ilclient.Cells
import Camkit.Ilclient.Model.Wait
/-!
# IL client — no wake-up is lost

A thread that sleeps in one of the waiting calls, beside callbacks and other
threads. The callback files an event and sets its flag under one lock, and
the waiting call looks under the same lock before it sleeps, so an event it
waits for never lies there with its flag taken. What is left out are the two
errors the callback sets no flag for.
-/

namespace Camkit

namespace Ilclient

variable {ι : Type} [DecidableEq ι]

variable {st st' : Client ι} {a a' : Filed ι} {c d r : ι} {x y : Ilevent} {op : Op ι}
variable {ops : List (Op ι)} {ret : Option ℤ} {rets : List (Option ℤ)} {mask : Finset Flag}
variable {other : Option ι} {f : Flag} {command : Command} {nData2 : UInt32}

/-! ## Flags and events -/

/-- Components that have more flags set, and are related as before. -/
def Gains (p q : ι → Component ι) : Prop :=
  ∀ d, (p d).event ⊆ (q d).event ∧ (q d).related = (p d).related

omit [DecidableEq ι] in
theorem Gains.refl (p : ι → Component ι) : Gains p p := fun _ => ⟨subset_rfl, rfl⟩

omit [DecidableEq ι] in
theorem Gains.trans {p q s : ι → Component ι} (h : Gains p q) (h' : Gains q s) : Gains p s :=
  fun d => ⟨(h d).1.trans (h' d).1, (h' d).2.trans (h d).2⟩

theorem comp_modify_of_ne {p : Component ι → Component ι} (hd : d ≠ c) :
    (a.modify c p).comp d = a.comp d := Function.update_of_ne hd ..

theorem comp_modify_self {p : Component ι → Component ι} :
    (a.modify c p).comp c = p (a.comp c) := Function.update_self ..

/-- Setting a flag takes none away. -/
theorem gains_setFlag (a : Filed ι) (c : ι) (f : Flag) : Gains a.comp (a.setFlag c f).comp := by
  intro d
  unfold Filed.setFlag
  by_cases hd : d = c
  · subst hd
    rw [comp_modify_self]
    exact ⟨Finset.subset_insert .., rfl⟩
  · rw [comp_modify_of_ne hd]
    exact ⟨subset_rfl, rfl⟩

theorem mem_setFlag (a : Filed ι) (c : ι) (f : Flag) : f ∈ ((a.setFlag c f).comp c).event := by
  unfold Filed.setFlag
  rw [comp_modify_self]
  exact Finset.mem_insert_self ..

/-- Nor does telling the related component of an error. -/
theorem gains_notify (a : Filed ι) (c : ι) (x : Ilevent) : Gains a.comp (a.notify c x).comp := by
  unfold Filed.notify
  split
  · exact Gains.refl _
  · split
    · exact gains_setFlag a _ _
    · exact Gains.refl _

/-- **An error that ends a command is told to the one related.** -/
theorem mem_notify (hx : x.EndsCommand) (hr : (a.comp c).related = some r) :
    Flag.eventError ∈ ((a.notify c x).comp r).event := by
  unfold Filed.notify
  rw [hr]
  simp only [if_pos (show x.eEvent = .error ∧ x.nData2 = 1 from hx)]
  exact mem_setFlag ..

/-- Nor what the handler sets for the event. -/
theorem gains_told (a : Filed ι) (c : ι) (x : Ilevent) :
    Gains (a.notify c x).comp (a.told c x).comp := by
  unfold Filed.told
  cases x.flag with
  | none => exact Gains.refl _
  | some f => exact gains_setFlag (a.notify c x) c f

/-- The flag of an event is set on its component. -/
theorem mem_told (hf : f ∈ x.flag) : f ∈ ((a.told c x).comp c).event := by
  unfold Filed.told
  rw [hf]
  exact mem_setFlag ..

theorem flag_filed : x.filed.flag = x.flag := by
  unfold Ilevent.filed
  split
  · next h => simp only [Ilevent.flag, h]
  · rfl

theorem EndsCommand.of_filed (h : x.filed.EndsCommand) : x.EndsCommand := by
  unfold Ilevent.filed at h
  split at h
  · next hx => exact absurd (hx.symm.trans h.1) (by simp)
  · exact h

/-- A callback takes no flag away and keeps every relation. -/
theorem handle_gains (h : a.handle c x = .ok a') : Gains a.comp a'.comp := by
  rcases handle_cases a c x with ⟨-, hh⟩ | ⟨-, -, -, hh⟩ | ⟨-, -, -, hh⟩
  · exact absurd (hh.symm.trans h) (by simp)
  · obtain rfl := Except.ok.inj (hh.symm.trans h)
    exact gains_notify (a.dedup c) c x
  · obtain rfl := Except.ok.inj (hh.symm.trans h)
    exact (gains_notify (a.dedup c) c x).trans (gains_told (a.dedup c) c x)

/-- **An event that is filed comes with its flag**, and with word to the one
related. -/
theorem handle_signals (h : a.handle c x = .ok a') (hy : y ∈ a'.events d) :
    y ∈ a.events d ∨ ((∀ f ∈ y.flag, f ∈ (a'.comp d).event) ∧
      (y.EndsCommand → ∀ r, (a.comp d).related = some r →
        Flag.eventError ∈ (a'.comp r).event)) := by
  have hdedup : ∀ d, y ∈ (a.dedup c).events d → y ∈ a.events d := fun d hy => by
    rcases events_put hy with hy | ⟨rfl, hy⟩
    · exact hy
    · exact List.mem_eraseDups.mp hy
  rcases handle_cases a c x with ⟨-, hh⟩ | ⟨-, -, -, hh⟩ | ⟨-, -, -, hh⟩
  · exact absurd (hh.symm.trans h) (by simp)
  · obtain rfl := Except.ok.inj (hh.symm.trans h)
    rw [events_notify] at hy
    exact .inl (hdedup d hy)
  · obtain rfl := Except.ok.inj (hh.symm.trans h)
    rcases events_put hy with hy | ⟨rfl, hy⟩
    · rw [events_told] at hy
      exact .inl (hdedup d hy)
    · rw [events_told] at hy
      rcases List.mem_cons.mp hy with rfl | hy
      · refine .inr ⟨fun f hf => mem_told (flag_filed ▸ hf), fun hends r hr => ?_⟩
        exact (gains_told (a.dedup d) d x r).1 (mem_notify (EndsCommand.of_filed hends) hr)
      · exact .inl (hdedup d hy)

/-- An event on a list was there before, or has come in with its flag, and with
the error flag of the related component if it ends a command. -/
theorem applyFiled_signals (happly : op.applyFiled a = .ok (a', ret)) (hy : y ∈ a'.events d) :
    y ∈ a.events d ∨ ((∀ f ∈ y.flag, f ∈ (a'.comp d).event) ∧
      (y.EndsCommand → ∀ r, (a.comp d).related = some r →
        Flag.eventError ∈ (a'.comp r).event)) := by
  by_cases hop : ∃ c x, op = .eventHandler c x
  · obtain ⟨c, x, rfl⟩ := hop
    change (a.handle c x).map _ = _ at happly
    cases hh : a.handle c x with
    | error f =>
      rw [hh] at happly
      exact absurd happly (by simp [Except.map])
    | ok a₁ =>
      rw [hh] at happly
      obtain ⟨rfl, -⟩ := Prod.mk.inj (Except.ok.inj happly)
      exact handle_signals hh hy
  · rcases events_apply happly hy with hy | ⟨x, rfl, -⟩
    · exact .inl hy
    · exact absurd ⟨d, x, rfl⟩ hop

/-! ## What the others leave alone -/

/-- Flags taken off a component are none of a mask. -/
theorem mem_consume {flags : Finset Flag} (hflags : d = c → Disjoint flags mask) (hf : f ∈ mask)
    (hmem : f ∈ (a.comp c).event) : f ∈ ((a.consume d flags).comp c).event := by
  by_cases hd : d = c
  · subst hd
    unfold Filed.consume
    rw [comp_modify_self]
    exact Finset.mem_sdiff.mpr ⟨hmem, fun h => Finset.disjoint_left.mp (hflags rfl) h hf⟩
  · unfold Filed.consume
    rwa [comp_modify_of_ne (Ne.symm hd)]

/-- Taking flags keeps the relations. -/
theorem related_consume {flags : Finset Flag} :
    ((a.consume d flags).comp c).related = (a.comp c).related := by
  by_cases hd : c = d
  · subst hd
    unfold Filed.consume
    rw [comp_modify_self]
  · unfold Filed.consume
    rw [comp_modify_of_ne hd]

theorem comp_take {q : Ilevent → Bool} : (a.take c q).1.comp = a.comp := by
  unfold Filed.take
  split <;> rfl

/-- **Whoever spares a thread that sleeps** leaves it the flags it sleeps on,
and the one it looks to beside. -/
theorem applyFiled_spares (happly : op.applyFiled a = .ok (a', ret))
    (hop : op.Spares c mask other) : (∀ f ∈ mask, f ∈ (a.comp c).event → f ∈ (a'.comp c).event) ∧
      ∀ d ∈ other, (a.comp d).related = some c → (a'.comp d).related = some c := by
  cases op with
  | eventHandler d x =>
    change (a.handle d x).map _ = _ at happly
    cases hh : a.handle d x with
    | error f =>
      rw [hh] at happly
      exact absurd happly (by simp [Except.map])
    | ok a₁ =>
      rw [hh] at happly
      obtain ⟨rfl, -⟩ := Prod.mk.inj (Except.ok.inj happly)
      have hgains := handle_gains hh
      exact ⟨fun f _ h => (hgains c).1 h, fun d _ h => (hgains d).2.trans h⟩
  | removeEvent d eEvent nData1 ignore1 nData2 ignore2 =>
    obtain ⟨rfl, -⟩ := Prod.mk.inj (Except.ok.inj happly)
    have htake := comp_take (a := a) (c := d)
      (q := fun x => x.Matches eEvent nData1 ignore1 nData2 ignore2)
    unfold Filed.remove
    generalize a.take d _ = r at htake ⊢
    obtain ⟨a₁, _ | x⟩ := r
    · exact ⟨fun f _ h => htake ▸ h, fun d _ h => htake ▸ h⟩
    · refine ⟨fun f hf h => mem_consume hop hf (htake ▸ h), fun d _ h => ?_⟩
      exact related_consume.trans (htake ▸ h)
  | returnEvents d =>
    obtain ⟨rfl, -⟩ := Prod.mk.inj (Except.ok.inj happly)
    exact ⟨fun f _ h => h, fun d _ h => h⟩
  | waitRound d command nData2 other =>
    obtain ⟨rfl, -⟩ := Prod.mk.inj (Except.ok.inj happly)
    have htake := comp_take (a := a) (c := d) (q := fun x => x.Completes command nData2)
    generalize a.take d _ = r at htake ⊢
    obtain ⟨a₁, _ | x⟩ := r
    · exact ⟨fun f _ h => htake ▸ h, fun d _ h => htake ▸ h⟩
    · simp only
      split
      · refine ⟨fun f hf h => mem_consume (fun hd => absurd hd hop) hf (htake ▸ h), fun d _ h => ?_⟩
        exact related_consume.trans (htake ▸ h)
      · exact ⟨fun f _ h => htake ▸ h, fun d _ h => htake ▸ h⟩
  | flagsGet d flags =>
    obtain ⟨rfl, -⟩ := Prod.mk.inj (Except.ok.inj happly)
    exact ⟨fun f hf h => mem_consume hop hf h, fun d _ h => related_consume.trans h⟩
  | setRelated d relation =>
    obtain ⟨rfl, -⟩ := Prod.mk.inj (Except.ok.inj happly)
    refine ⟨fun f _ h => ?_, fun d' hd' h => ?_⟩
    · by_cases hd : c = d
      · subst hd
        rwa [comp_modify_self]
      · rwa [comp_modify_of_ne hd]
    · by_cases hd : d' = d
      · subst hd
        rw [comp_modify_self]
        exact hop hd'
      · rwa [comp_modify_of_ne hd]
  | setErrorMask d errors =>
    obtain ⟨rfl, -⟩ := Prod.mk.inj (Except.ok.inj happly)
    refine ⟨fun f _ h => ?_, fun d' _ h => ?_⟩
    · by_cases hd : c = d
      · subst hd
        rwa [comp_modify_self]
      · rwa [comp_modify_of_ne hd]
    · by_cases hd : d' = d
      · subst hd
        rwa [comp_modify_self]
      · rwa [comp_modify_of_ne hd]

/-! ## Clients that are intact -/

/-- The cells of a client are arranged as its events are filed. -/
def Client.Intact (st : Client ι) : Prop := ∃ L, Arranged st L st.filed

namespace Client.Intact

/-- A step of the client is one of the client with plain lists, and leaves the
lists intact. -/
theorem step (h : st.Intact) (hstep : clientSteps.step st op = some (st', ret)) :
    op.applyFiled st.filed = .ok (st'.filed, ret) ∧ st'.Intact := by
  obtain ⟨L, ha⟩ := h
  obtain ⟨heq, hkept⟩ := step_filed ha op
  rw [hstep] at heq
  exact ⟨filedSteps_step.mp heq.symm, hkept st' ret hstep⟩

theorem filed_modify (h : st.Intact) (c : ι) (p : Component ι → Component ι) :
    (st.modify c p).filed = st.filed.modify c p := by
  obtain ⟨L, ha⟩ := h
  exact (ha.modify c p).filed_eq

theorem modify (h : st.Intact) (c : ι) (p : Component ι → Component ι) :
    (st.modify c p).Intact := by
  have heq := h.filed_modify c p
  obtain ⟨L, ha⟩ := h
  exact ⟨L, heq ▸ ha.modify c p⟩

end Client.Intact

/-! ## Waiting for a command -/

/-- Every wait for a command sleeps on the error flag too. -/
theorem waitMask_error (hmask : command.waitMask = some mask) : Flag.eventError ∈ mask := by
  cases command <;> simp [Command.waitMask] at hmask <;> simp [← hmask]

/-- The flag of an event a command waits for is one it sleeps on. -/
theorem waitMask_flag (hmask : command.waitMask = some mask) (hx : x.Completes command nData2)
    (hf : f ∈ x.flag) : f ∈ mask := by
  rcases hx with ⟨htype, hdata, -⟩ | ⟨htype, -⟩
  · simp only [Ilevent.flag, htype, hdata] at hf
    cases command <;> simp [Command.waitMask] at hmask <;> simp [Command.flag] at hf <;>
      simp [← hmask, ← hf]
  · unfold Ilevent.flag at hf
    rw [htype] at hf
    split at hf
    · simp at *
    · split at hf
      · simp at hf
      · obtain rfl := Option.some.inj hf
        exact waitMask_error hmask
    all_goals simp at *

/-- A look that finds nothing changes nothing, and nothing is there. -/
theorem waitRound_none (h : (a.waitRound c command nData2 other).2 = none) :
    (a.waitRound c command nData2 other).1 = a ∧
      (∀ x ∈ a.events c, ¬ x.Completes command nData2) ∧
      ∀ d ∈ other, ∀ x ∈ a.events d, ¬ x.EndsCommand := by
  unfold Filed.waitRound Filed.take at h ⊢
  cases hfind : (a.events c).find? fun x => x.Completes command nData2 with
  | some x =>
    rw [hfind] at h
    exact absurd h (by simp)
  | none =>
    rw [hfind] at h
    refine ⟨rfl, fun x hx hc => ?_, fun d hd x hx hends => ?_⟩
    · exact List.find?_eq_none.mp hfind x hx (decide_eq_true hc)
    · obtain rfl : other = some d := hd
      simp only [Option.bind_some, Option.map_eq_none_iff] at h
      exact List.find?_eq_none.mp h x hx (decide_eq_true hends)

/-- What a wait returns on the events it finds. -/
def Filed.waitResult (a : Filed ι) (c : ι) (command : Command) (nData2 : UInt32) : ℤ :=
  match (a.events c).find? fun x => x.Completes command nData2 with
  | some x => x.waitResult
  | none => -2

/-- A round that finds the command complete, or ended by the other component,
returns what the events say. -/
theorem waitRound_some (h : (∃ x ∈ a.events c, x.Completes command nData2) ∨
    ∃ d ∈ other, ∃ x ∈ a.events d, x.EndsCommand) :
    (a.waitRound c command nData2 other).2 = some (a.waitResult c command nData2) := by
  unfold Filed.waitRound Filed.take Filed.waitResult
  cases hfind : (a.events c).find? fun x => x.Completes command nData2 with
  | some x => rfl
  | none =>
    rcases h with ⟨x, hx, hc⟩ | ⟨d, hd, x, hx, hends⟩
    · exact absurd (decide_eq_true hc) (List.find?_eq_none.mp hfind x hx)
    · obtain rfl : other = some d := hd
      have hsome : ((a.events d).find? fun x => x.EndsCommand).isSome :=
        List.find?_isSome.mpr ⟨x, hx, decide_eq_true hends⟩
      obtain ⟨y, hy⟩ := Option.isSome_iff_exists.mp hsome
      simp only [Option.bind_some, hy, Option.map_some]

theorem related_waitRound : ((a.waitRound c command nData2 other).1.comp d).related =
    (a.comp d).related := by
  have htake := comp_take (a := a) (c := c) (q := fun x => x.Completes command nData2)
  unfold Filed.waitRound
  generalize a.take c _ = r at htake ⊢
  obtain ⟨a₁, _ | x⟩ := r
  · exact congrArg (fun p => (p d).related) htake
  · simp only
    split
    · exact related_consume.trans (congrArg (fun p => (p d).related) htake)
    · exact congrArg (fun p => (p d).related) htake

/-- A round of the wait on linked lists is one on plain lists. -/
theorem look_filed (h : st.Intact) (c : ι) (command : Command) (nData2 : UInt32)
    (other : Option ι) :
    ∃ st', waitRound st c command nData2 other =
        .ok (st', (st.filed.waitRound c command nData2 other).2) ∧
      st'.filed = (st.filed.waitRound c command nData2 other).1 ∧ st'.Intact := by
  obtain ⟨L, ha⟩ := h
  obtain ⟨st', L', hst, ha'⟩ := ha.waitRound c command nData2 other
  exact ⟨st', hst, ha'.filed_eq, L', ha'.filed_eq.symm ▸ ha'⟩

/-- What a thread that sleeps in a wait for a command has looked for is
there. -/
def CommandFound (c : ι) (command : Command) (nData2 : UInt32) (other : Option ι)
    (ph : Phase Unit ℤ) (st : Client ι) : Prop :=
  ph = .asleep () ∧ ((∃ x ∈ st.events c, x.Completes command nData2 ∧ x.flag ≠ none) ∨
    ∃ d ∈ other, ∃ x ∈ st.events d, x.EndsCommand)

/-- What holds while a thread waits for a command: if it sleeps although the
event is there, it has a flag set. -/
structure CommandAwaited (c : ι) (command : Command) (nData2 : UInt32) (other : Option ι)
    (mask : Finset Flag) (ph : Phase Unit ℤ) (st : Client ι) : Prop where
  intact : st.Intact
  related : ∀ d ∈ other, (st.comp d).related = some c
  signalled : CommandFound c command nData2 other ph st → st.Signalled c mask

/-- **The wait for a command is sound**: while it sleeps, what it waits for has
set one of its flags. -/
theorem commandWaiter_sound (hmask : command.waitMask = some mask) :
    Waiter.Sound clientSteps (commandWaiter c command nData2 other mask)
      (fun op => op.Spares c mask other) (CommandAwaited c command nData2 other mask) where
  look := by
    rintro _ st st' ph ⟨hst, hrel, -⟩ hlook
    obtain ⟨st₁, hround, hfiled, hst₁⟩ := look_filed hst c command nData2 other
    have hrel₁ : ∀ d ∈ other, (st₁.comp d).related = some c := fun d hd => by
      have hsame : (st₁.filed.comp d).related = (st.comp d).related := by
        rw [hfiled]
        exact related_waitRound
      exact hsame.trans (hrel d hd)
    simp only [commandWaiter, hround] at hlook
    cases hret : (st.filed.waitRound c command nData2 other).2 with
    | some ret =>
      rw [hret] at hlook
      obtain ⟨rfl, rfl⟩ := Prod.mk.inj (Option.some.inj hlook)
      exact ⟨hst₁, hrel₁, fun h => absurd h.1 (by simp)⟩
    | none =>
      rw [hret] at hlook
      obtain ⟨rfl, rfl⟩ := Prod.mk.inj (Option.some.inj hlook)
      obtain ⟨hsame, hown, hother⟩ := waitRound_none hret
      have hevents : ∀ d, st₁.events d = st.filed.events d := fun d =>
        congrArg (fun a => a.events d) (hfiled.trans hsame)
      refine ⟨hst₁, hrel₁, ?_⟩
      rintro ⟨-, ⟨x, hx, hc, -⟩ | ⟨d, hd, x, hx, hends⟩⟩
      · exact absurd hc (hown x (hevents c ▸ hx))
      · exact absurd hends (hother d hd x (hevents d ▸ hx))
  wake := by
    rintro _ st st' ph ⟨hst, hrel, -⟩ - hwake
    obtain ⟨rfl, rfl⟩ := Prod.mk.inj hwake
    refine ⟨hst.modify c _, fun d hd => ?_, fun h => absurd h.1 (by simp)⟩
    exact (related_consume (a := st.filed)).trans (hrel d hd)
  other := by
    rintro ph st op st' ret ⟨hst, hrel, hbefore⟩ hspares hstep
    obtain ⟨happly, hst'⟩ := hst.step hstep
    obtain ⟨hflags, hrelated⟩ := applyFiled_spares happly hspares
    refine ⟨hst', fun d hd => hrelated d hd (hrel d hd), ?_⟩
    -- an event that was there had its flag set, and one that comes in brings it
    rintro ⟨rfl, hfound⟩
    have hkept : st.Signalled c mask → st'.Signalled c mask := by
      rintro ⟨f, hf⟩
      obtain ⟨hf, hfm⟩ := Finset.mem_inter.mp hf
      exact ⟨f, Finset.mem_inter.mpr ⟨hflags f hfm hf, hfm⟩⟩
    rcases hfound with ⟨x, hx, hc, hflag⟩ | ⟨d, hd, x, hx, hends⟩
    · rcases applyFiled_signals happly hx with hx | ⟨hset, -⟩
      · exact hkept (hbefore ⟨rfl, .inl ⟨x, hx, hc, hflag⟩⟩)
      · obtain ⟨f, hf⟩ := Option.ne_none_iff_exists'.mp hflag
        exact ⟨f, Finset.mem_inter.mpr ⟨hset f hf, waitMask_flag hmask hc hf⟩⟩
    · rcases applyFiled_signals happly hx with hx | ⟨-, htold⟩
      · exact hkept (hbefore ⟨rfl, .inr ⟨d, hd, x, hx, hends⟩⟩)
      · exact ⟨.eventError, Finset.mem_inter.mpr
          ⟨htold hends c (hrel d hd), waitMask_error hmask⟩⟩

variable {turns : List (Turn (Op ι))} {outs : List (Option (Option ℤ))}

/-- **A wait for a command is woken by what it waits for.** After any run of
calls and callbacks, beside any others that spare it, a thread asleep in
`ilclient_wait_for_command_complete_dual` while the command is complete, an
error of its component that sets a flag has ended it or an error has ended a
command of the other component, wakes and returns what the events say. -/
theorem wait_for_command_wakes (hmask : command.waitMask = some mask)
    (hinit : clientSteps.run ilclientInit ops = some (st, rets))
    (hrel : ∀ d ∈ other, (st.comp d).related = some c)
    (hturns : ∀ op, .other op ∈ turns → op.Spares c mask other)
    (hrun : (clientSteps.beside (commandWaiter c command nData2 other mask)).run
      (st, .looking ()) turns = some ((st', .asleep ()), outs))
    (hfound : (∃ x ∈ st'.events c, x.Completes command nData2 ∧ x.flag ≠ none) ∨
      ∃ d ∈ other, ∃ x ∈ st'.events d, x.EndsCommand) :
    ∃ st'' outs', (clientSteps.beside (commandWaiter c command nData2 other mask)).run
      (st', .asleep ()) [.wake, .look] =
        some ((st'', .done (st'.filed.waitResult c command nData2)), outs') := by
  obtain ⟨hst', -, hwakes⟩ := (commandWaiter_sound hmask).run_sound
    ⟨arranged_of_run hinit, hrel, fun h => absurd h.1 (by simp)⟩ hturns hrun
  have hsig : st'.Signalled c mask := hwakes ⟨rfl, hfound⟩
  -- the flags are taken, the events are not
  have hawake := hst'.filed_modify c fun x => { x with event := x.event \ mask }
  obtain ⟨st'', hround, -, -⟩ :=
    look_filed (hst'.modify c fun x => { x with event := x.event \ mask }) c command nData2 other
  rw [hawake, waitRound_some (hfound.imp_left fun ⟨x, hx, hc, _⟩ => ⟨x, hx, hc⟩)] at hround
  refine ⟨st'', [none, none], Waiter.run_wake hsig rfl (Waiter.run_look ?_ rfl)⟩
  simp only [commandWaiter]
  rw [show waitRound (st'.consume c mask) c command nData2 other = _ from hround]
  rfl

/-- A component whose errors are told to another, which waits for a state. -/
def relatedClient : Client Bool :=
  ilclientInit.modify false fun x => { x with related := some true }

/-- It finds nothing, and the error comes while it sleeps. -/
def relatedTurns : List (Turn (Op Bool)) :=
  [.look, .other (.eventHandler false ⟨.error, .error .overflow, 1⟩)]

omit [DecidableEq ι] in
/-- A run that a test finds to end in a sleep. -/
theorem asleep_of_any {P α : Type*} [DecidableEq P] (run : Option ((Client ι × Phase P ℤ) × α))
    (p : P) (Q : Client ι → Prop) [DecidablePred Q]
    (h : run.any (fun t => t.1.2 = .asleep p ∧ Q t.1.1) = true) :
    ∃ st outs, run = some ((st, .asleep p), outs) ∧ Q st := by
  obtain ⟨⟨⟨st, ph⟩, outs⟩, heq, hend⟩ := (Option.any_eq_true _ _).mp h
  obtain ⟨rfl, hst⟩ := of_decide_eq_true hend
  exact ⟨st, outs, heq, hst⟩

/-- The error of the other component comes while the thread sleeps. -/
theorem wait_for_command_wakes_related :
    ∃ st' outs st'' ret outs', (clientSteps.beside (commandWaiter true .stateSet 2 (some false)
        {.eventError, .stateChanged})).run (relatedClient, .looking ()) relatedTurns =
          some ((st', .asleep ()), outs) ∧
      (clientSteps.beside (commandWaiter true .stateSet 2 (some false)
        {.eventError, .stateChanged})).run (st', .asleep ()) [.wake, .look] =
          some ((st'', .done ret), outs') := by
  obtain ⟨st', outs, hrun, hfound⟩ := asleep_of_any ((clientSteps.beside
    (commandWaiter true .stateSet 2 (some false) {.eventError, .stateChanged})).run
      (relatedClient, .looking ()) relatedTurns) ()
    (fun st => ∃ x ∈ st.events false, x.EndsCommand) (by decide +kernel)
  have hinit : clientSteps.run ilclientInit [.setRelated false (some true)] =
      some (relatedClient, [none]) := rfl
  obtain ⟨st'', outs', h⟩ := wait_for_command_wakes rfl hinit (by decide +kernel)
    (by simp [relatedTurns, Op.Spares]) hrun (.inr ⟨false, rfl, hfound⟩)
  exact ⟨st', outs, st'', _, outs', hrun, h⟩

/-! ## Waiting for an event -/

/-- An event is what a pattern says. -/
def Ilevent.Fits (x : Ilevent) (p : Pattern) : Prop :=
  x.Matches p.eEvent p.nData1 p.ignore1 p.nData2 p.ignore2

instance (x : Ilevent) (p : Pattern) : Decidable (x.Fits p) := by
  unfold Ilevent.Fits
  infer_instance

variable {p : Pattern} {eventFlag : Finset Flag}

/-- What a thread in `ilclient_wait_for_event` has looked for by then. -/
def Sought (p : Pattern) (eventFlag : Finset Flag) (x : Ilevent) : Phase WaitStep ℤ → Prop
  | .looking .errors => x.Fits p
  | .looking .config => x.Fits p ∨ (.eventError ∈ eventFlag ∧ x.eEvent = .error)
  | .asleep _ => x.Fits p ∨ (.eventError ∈ eventFlag ∧ x.eEvent = .error) ∨
      (.configChanged ∈ eventFlag ∧ x.eEvent = .paramOrConfigChanged)
  | _ => False

theorem Sought.asleep {ph : Phase WaitStep ℤ} (h : Sought p eventFlag x ph) :
    Sought p eventFlag x (.asleep .remove) := by
  unfold Sought at h
  split at h
  · exact .inl h
  · exact h.imp_right .inl
  · exact h
  · exact h.elim

/-- It is there. -/
def EventFound (c : ι) (p : Pattern) (eventFlag : Finset Flag) (ph : Phase WaitStep ℤ)
    (st : Client ι) : Prop :=
  ∃ x ∈ st.events c, x.flag ≠ none ∧ Sought p eventFlag x ph

/-- The flag of an event that is looked for is one the call sleeps on. -/
theorem sought_flag (hp : ∀ x : Ilevent, x.Fits p → ∀ f ∈ x.flag, f ∈ eventFlag)
    (hx : Sought p eventFlag x (.asleep .remove)) (hf : f ∈ x.flag) : f ∈ eventFlag := by
  rcases hx with hfits | ⟨hmem, htype⟩ | ⟨hmem, htype⟩
  · exact hp x hfits f hf
  · unfold Ilevent.flag at hf
    rw [htype] at hf
    split at hf
    · simp at *
    · split at hf
      · simp at hf
      · obtain rfl := Option.some.inj hf
        exact hmem
    all_goals simp at *
  · unfold Ilevent.flag at hf
    rw [htype] at hf
    obtain rfl := Option.some.inj hf
    exact hmem

/-- What holds while a thread waits for an event. -/
structure EventAwaited (c : ι) (p : Pattern) (eventFlag : Finset Flag) (ph : Phase WaitStep ℤ)
    (st : Client ι) : Prop where
  intact : st.Intact
  signalled : EventFound c p eventFlag ph st → st.Signalled c eventFlag

/-! ### The steps of the search -/

/-- A search of the list finds an event exactly if one fits. -/
theorem removeEvent_filed (h : st.Intact) (c : ι) (p : Pattern) :
    ∃ st', removeEvent st c p.eEvent p.nData1 p.ignore1 p.nData2 p.ignore2 =
        .ok (st', if ∃ x ∈ st.events c, x.Fits p then 0 else -1) ∧ st'.Intact ∧
      ((¬ ∃ x ∈ st.events c, x.Fits p) → st'.filed = st.filed) := by
  obtain ⟨L, ha⟩ := h
  obtain ⟨st', L', hst, ha'⟩ := ha.removeEvent c p.eEvent p.nData1 p.ignore1 p.nData2 p.ignore2
  have hfiled := ha'.filed_eq
  refine ⟨st', ?_, ⟨L', hfiled.symm ▸ ha'⟩, fun hnone => ?_⟩
  · rw [hst]
    unfold Filed.remove Filed.take
    cases hfind : (st.filed.events c).find? fun x =>
        x.Matches p.eEvent p.nData1 p.ignore1 p.nData2 p.ignore2 with
    | none =>
      rw [if_neg]
      rintro ⟨x, hx, hfits⟩
      exact List.find?_eq_none.mp hfind x hx (decide_eq_true hfits)
    | some x =>
      have hx := List.find?_some hfind
      rw [if_pos]
      exact ⟨x, List.mem_of_find?_eq_some hfind, of_decide_eq_true hx⟩
  · rw [hfiled]
    unfold Filed.remove Filed.take
    have hfind : (st.filed.events c).find? (fun x =>
        x.Matches p.eEvent p.nData1 p.ignore1 p.nData2 p.ignore2) = none :=
      List.find?_eq_none.mpr fun x hx hfits => hnone ⟨x, hx, of_decide_eq_true hfits⟩
    rw [hfind]

omit [DecidableEq ι] in
/-- So does the look for an event of a type. -/
theorem listed_filed (h : st.Intact) (c : ι) (eEvent : EventType) :
    listed st c eEvent = .ok (decide (∃ x ∈ st.events c, x.eEvent = eEvent)) := by
  obtain ⟨L, ha⟩ := h
  unfold listed
  rcases ha.find_eq c fun x => x.eEvent = eEvent with ⟨q, hq, hnone, hfind⟩ |
    ⟨xs₁, x, xs₂, l₁, e, l₂, hxs, -, hx, -, -, -, hq, hcell⟩
  · have hnot : ¬ ∃ x ∈ st.events c, x.eEvent = eEvent := by
      rintro ⟨x, hx, htype⟩
      exact List.find?_eq_none.mp hfind x hx (decide_eq_true htype)
    simp only [hq, hnone, decide_eq_false hnot]
    rfl
  · have hthere : ∃ x ∈ st.events c, x.eEvent = eEvent := by
      refine ⟨x, ?_, of_decide_eq_true hx⟩
      change x ∈ st.filed.events c
      rw [hxs]
      exact List.mem_append_right _ List.mem_cons_self
    simp only [hq, hcell, decide_eq_true hthere]
    rfl

/-- The first step of the wait takes the event off the list. -/
theorem eventWaiter_remove (h : st.Intact) :
    ∃ st', (eventWaiter c p eventFlag).look .remove st =
        some (st', if ∃ x ∈ st.events c, x.Fits p then .done 0 else .looking .errors) ∧
      st'.Intact ∧ ((¬ ∃ x ∈ st.events c, x.Fits p) → st'.filed = st.filed) := by
  obtain ⟨st', hst, hst', hsame⟩ := removeEvent_filed h c p
  refine ⟨st', ?_, hst', hsame⟩
  simp only [eventWaiter, waitForEventStep, hst]
  by_cases hthere : ∃ x ∈ st.events c, x.Fits p
  · simp only [if_pos hthere]
    rfl
  · simp only [if_neg hthere]
    rfl

/-- The second looks for an error, and takes its flag. -/
theorem eventWaiter_errors (h : st.Intact) :
    (eventWaiter c p eventFlag).look .errors st =
      some (if .eventError ∈ eventFlag ∧ ∃ x ∈ st.events c, x.eEvent = .error then
        (st.consume c {.eventError}, .done (-2)) else (st, .looking .config)) := by
  simp only [eventWaiter, waitForEventStep, listed_filed h]
  by_cases hflag : .eventError ∈ eventFlag
  · rw [if_pos hflag]
    by_cases hthere : ∃ x ∈ st.events c, x.eEvent = .error
    · rw [decide_eq_true hthere, if_pos ⟨hflag, hthere⟩]
    · rw [decide_eq_false hthere, if_neg fun h => hthere h.2]
  · rw [if_neg hflag, if_neg fun h => hflag h.1]

/-- The third looks for a change of settings, and sleeps otherwise. -/
theorem eventWaiter_config (h : st.Intact) :
    (eventWaiter c p eventFlag).look .config st =
      some (st, if .configChanged ∈ eventFlag ∧ ∃ x ∈ st.events c, x.eEvent = .paramOrConfigChanged
        then .looking .removeConfig else .asleep .remove) := by
  simp only [eventWaiter, waitForEventStep, listed_filed h]
  by_cases hflag : .configChanged ∈ eventFlag
  · rw [if_pos hflag]
    by_cases hthere : ∃ x ∈ st.events c, x.eEvent = .paramOrConfigChanged
    · rw [decide_eq_true hthere, if_pos ⟨hflag, hthere⟩]
    · rw [decide_eq_false hthere, if_neg fun h => hthere h.2]
  · rw [if_neg hflag, if_neg fun h => hflag h.1]

/-- The last searches for the event once more. -/
theorem eventWaiter_removeConfig (h : st.Intact) :
    ∃ st', (eventWaiter c p eventFlag).look .removeConfig st =
        some (st', .done (if ∃ x ∈ st.events c, x.Fits p then 0 else -3)) ∧ st'.Intact := by
  obtain ⟨st', hst, hst', -⟩ := removeEvent_filed h c p
  refine ⟨st', ?_, hst'⟩
  simp only [eventWaiter, waitForEventStep, hst]
  by_cases hthere : ∃ x ∈ st.events c, x.Fits p
  · simp only [if_pos hthere]
    rfl
  · simp only [if_neg hthere]
    rfl

/-- **The wait for an event is sound**: while it sleeps, what it waits for has
set one of its flags. -/
theorem eventWaiter_sound (hp : ∀ x : Ilevent, x.Fits p → ∀ f ∈ x.flag, f ∈ eventFlag) :
    Waiter.Sound clientSteps (eventWaiter c p eventFlag) (fun op => op.Spares c eventFlag none)
      (EventAwaited c p eventFlag) where
  look := by
    rintro step st st' ph ⟨hst, hbefore⟩ hlook
    cases step with
    | remove =>
      obtain ⟨st₁, hst₁, hintact, hsame⟩ := eventWaiter_remove (c := c) (p := p) hst
      obtain ⟨rfl, rfl⟩ := Prod.mk.inj (Option.some.inj (hst₁.symm.trans hlook))
      refine ⟨hintact, ?_⟩
      split
      · rintro ⟨x, -, -, hsought⟩
        exact hsought.elim
      · next hnone =>
        rintro ⟨x, hx, -, hfits⟩
        have hevents : st₁.events c = st.events c :=
          congrArg (fun a => a.events c) (hsame hnone)
        exact absurd ⟨x, hevents ▸ hx, hfits⟩ hnone
    | errors =>
      have hst₁ := (eventWaiter_errors hst).symm.trans hlook
      by_cases hthere : .eventError ∈ eventFlag ∧ ∃ x ∈ st.events c, x.eEvent = .error
      · rw [if_pos hthere] at hst₁
        obtain ⟨rfl, rfl⟩ := Prod.mk.inj (Option.some.inj hst₁)
        exact ⟨hst.modify c _, fun ⟨_, _, _, h⟩ => h.elim⟩
      · rw [if_neg hthere] at hst₁
        obtain ⟨rfl, rfl⟩ := Prod.mk.inj (Option.some.inj hst₁)
        refine ⟨hst, ?_⟩
        rintro ⟨x, hx, hflag, hfits | ⟨hmem, htype⟩⟩
        · exact hbefore ⟨x, hx, hflag, hfits⟩
        · exact absurd ⟨hmem, x, hx, htype⟩ hthere
    | config =>
      have hst₁ := (eventWaiter_config hst).symm.trans hlook
      obtain ⟨rfl, rfl⟩ := Prod.mk.inj (Option.some.inj hst₁)
      refine ⟨hst, ?_⟩
      split
      · rintro ⟨x, -, -, hsought⟩
        exact hsought.elim
      · next hnone =>
        rintro ⟨x, hx, hflag, hfits | herror | ⟨hmem, htype⟩⟩
        · exact hbefore ⟨x, hx, hflag, .inl hfits⟩
        · exact hbefore ⟨x, hx, hflag, .inr herror⟩
        · exact absurd ⟨hmem, x, hx, htype⟩ hnone
    | removeConfig =>
      obtain ⟨st₁, hst₁, hintact⟩ := eventWaiter_removeConfig (c := c) (p := p) hst
      obtain ⟨rfl, rfl⟩ := Prod.mk.inj (Option.some.inj (hst₁.symm.trans hlook))
      exact ⟨hintact, fun ⟨_, _, _, h⟩ => h.elim⟩
  wake := by
    rintro _ st st' ph ⟨hst, -⟩ - hwake
    obtain ⟨rfl, rfl⟩ := Prod.mk.inj hwake
    refine ⟨hst.modify c _, ?_⟩
    rintro ⟨x, -, -, hsought⟩
    split at hsought
    · exact hsought.elim
    · split at hsought
      · exact hsought.elim
      · exact hsought.elim
  other := by
    rintro ph st op st' ret ⟨hst, hbefore⟩ hspares hstep
    obtain ⟨happly, hst'⟩ := hst.step hstep
    obtain ⟨hflags, -⟩ := applyFiled_spares happly hspares
    refine ⟨hst', ?_⟩
    rintro ⟨x, hx, hflag, hsought⟩
    rcases applyFiled_signals happly hx with hx | ⟨hset, -⟩
    · obtain ⟨f, hf⟩ := hbefore ⟨x, hx, hflag, hsought⟩
      obtain ⟨hf, hmem⟩ := Finset.mem_inter.mp hf
      exact ⟨f, Finset.mem_inter.mpr ⟨hflags f hmem hf, hmem⟩⟩
    · obtain ⟨f, hf⟩ := Option.ne_none_iff_exists'.mp hflag
      exact ⟨f, Finset.mem_inter.mpr ⟨hset f hf, sought_flag hp hsought.asleep hf⟩⟩

/-! ### A search that finds something -/

/-- **Where something is there, the search comes to an end.** -/
theorem search_ends (hst : st.Intact)
    (hfound : ∃ x ∈ st.events c, Sought p eventFlag x (.asleep .remove)) :
    ∃ n ≤ 4, ∃ st' ret outs, (clientSteps.beside (eventWaiter c p eventFlag)).run
      (st, .looking .remove) (List.replicate n .look) = some ((st', .done ret), outs) := by
  obtain ⟨st₁, hst₁, hintact, hsame⟩ := eventWaiter_remove (c := c) (p := p) hst
  by_cases hfits : ∃ x ∈ st.events c, x.Fits p
  · rw [if_pos hfits] at hst₁
    exact ⟨1, by omega, st₁, 0, _, Waiter.run_look hst₁ rfl⟩
  · rw [if_neg hfits] at hst₁
    have hevents : st₁.events c = st.events c := congrArg (fun a => a.events c) (hsame hfits)
    have hst₂ : (eventWaiter c p eventFlag).look .errors st₁ = _ := eventWaiter_errors hintact
    by_cases herror : .eventError ∈ eventFlag ∧ ∃ x ∈ st₁.events c, x.eEvent = .error
    · rw [if_pos herror] at hst₂
      exact ⟨2, by omega, _, -2, _, Waiter.run_look hst₁ (Waiter.run_look hst₂ rfl)⟩
    · rw [if_neg herror] at hst₂
      have hst₃ : (eventWaiter c p eventFlag).look .config st₁ = _ := eventWaiter_config hintact
      obtain ⟨st₄, hst₄, -⟩ := eventWaiter_removeConfig (c := c) (p := p) hintact
      have hconfig : .configChanged ∈ eventFlag ∧
          ∃ x ∈ st₁.events c, x.eEvent = .paramOrConfigChanged := by
        obtain ⟨x, hx, hsought⟩ := hfound
        rcases hsought with h | ⟨hmem, htype⟩ | ⟨hmem, htype⟩
        · exact absurd ⟨x, hx, h⟩ hfits
        · exact absurd ⟨hmem, x, hevents.symm ▸ hx, htype⟩ herror
        · exact ⟨hmem, x, hevents.symm ▸ hx, htype⟩
      rw [if_pos hconfig] at hst₃
      exact ⟨4, le_rfl, _, _, _, Waiter.run_look hst₁ (Waiter.run_look hst₂
        (Waiter.run_look hst₃ (Waiter.run_look hst₄ rfl)))⟩

/-- **A wait for an event is woken by what it waits for.** After any run of
calls and callbacks, beside any others that spare it, a thread asleep in
`ilclient_wait_for_event` while the event is on the list, or one of the errors
and changes it is to be told of, wakes and returns within four steps, if its
flags are those of the events. -/
theorem wait_for_event_wakes (hp : ∀ x : Ilevent, x.Fits p → ∀ f ∈ x.flag, f ∈ eventFlag)
    (hinit : clientSteps.run ilclientInit ops = some (st, rets))
    (hturns : ∀ op, .other op ∈ turns → op.Spares c eventFlag none)
    (hrun : (clientSteps.beside (eventWaiter c p eventFlag)).run (st, .looking .remove) turns =
      some ((st', .asleep .remove), outs))
    (hfound : ∃ x ∈ st'.events c, x.flag ≠ none ∧ (x.Fits p ∨
      (.eventError ∈ eventFlag ∧ x.eEvent = .error) ∨
        (.configChanged ∈ eventFlag ∧ x.eEvent = .paramOrConfigChanged))) :
    ∃ n ≤ 4, ∃ st'' ret outs', (clientSteps.beside (eventWaiter c p eventFlag)).run
      (st', .asleep .remove) (.wake :: List.replicate n .look) =
        some ((st'', .done ret), outs') := by
  obtain ⟨hst', hwakes⟩ := (eventWaiter_sound hp).run_sound
    ⟨arranged_of_run hinit, fun ⟨_, _, _, h⟩ => h.elim⟩ hturns hrun
  have hsig : st'.Signalled c eventFlag := hwakes hfound
  have hst₁ : (st'.consume c eventFlag).Intact := hst'.modify c _
  have hsought : ∃ x ∈ (st'.consume c eventFlag).events c, Sought p eventFlag x (.asleep .remove) :=
    hfound.imp fun x h => ⟨h.1, h.2.2⟩
  have hwake : (eventWaiter c p eventFlag).wake .remove st' = (st'.consume c eventFlag,
      if .eventError ∈ (st'.comp c).event ∩ eventFlag then .done (-2)
      else if .configChanged ∈ (st'.comp c).event ∩ eventFlag then .looking .removeConfig
      else .looking .remove) := rfl
  -- the flags decide where the search goes on
  by_cases herror : .eventError ∈ (st'.comp c).event ∩ eventFlag
  · rw [if_pos herror] at hwake
    exact ⟨0, by omega, _, _, _, Waiter.run_wake hsig hwake rfl⟩
  · rw [if_neg herror] at hwake
    by_cases hconfig : .configChanged ∈ (st'.comp c).event ∩ eventFlag
    · rw [if_pos hconfig] at hwake
      obtain ⟨st₂, hst₂, -⟩ := eventWaiter_removeConfig (c := c) (p := p) hst₁
      exact ⟨1, by omega, _, _, _, Waiter.run_wake hsig hwake (Waiter.run_look hst₂ rfl)⟩
    · rw [if_neg hconfig] at hwake
      obtain ⟨n, hn, st₂, ret, outs', hsearch⟩ := search_ends hst₁ hsought
      exact ⟨n, hn, st₂, ret, _, Waiter.run_wake hsig hwake hsearch⟩

/-- The end of a flush. -/
def flushed : Pattern := ⟨.cmdComplete, .command .flush, false, 130, false⟩

def flushedTurns : List (Turn (Op Unit)) :=
  [.look, .look, .look, .other (.eventHandler () ⟨.cmdComplete, .command .flush, 130⟩)]

theorem fits_flushed {x : Ilevent} (hx : x.Fits flushed) (hf : f ∈ x.flag) : f = .portFlush := by
  obtain ⟨htype, hdata, -⟩ := hx
  have hdata : x.nData1 = .command .flush := hdata.resolve_left (by simp [flushed])
  simp only [Ilevent.flag, show x.eEvent = .cmdComplete from htype, hdata] at hf
  exact (Option.some.inj hf).symm

/-- The port is flushed while the thread sleeps. -/
theorem wait_for_event_wakes_flushed :
    ∃ st' outs, (clientSteps.beside (eventWaiter () flushed {.portFlush})).run
        (ilclientInit, .looking .remove) flushedTurns = some ((st', .asleep .remove), outs) ∧
      ∃ n ≤ 4, ∃ st'' ret outs', (clientSteps.beside (eventWaiter () flushed {.portFlush})).run
        (st', .asleep .remove) (.wake :: List.replicate n .look) =
          some ((st'', .done ret), outs') := by
  obtain ⟨st', outs, hrun, hfound⟩ := asleep_of_any
    ((clientSteps.beside (eventWaiter () flushed {.portFlush})).run
      (ilclientInit, .looking .remove) flushedTurns) .remove
    (fun st => ∃ x ∈ st.events (), x.flag ≠ none ∧ x.Fits flushed) (by decide +kernel)
  have hinit : clientSteps.run (ilclientInit (ι := Unit)) [] = some (ilclientInit, []) := rfl
  exact ⟨st', outs, hrun, wait_for_event_wakes
    (fun x hx f hf => Finset.mem_singleton.mpr (fits_flushed hx hf)) hinit
    (by simp [flushedTurns, Op.Spares]) hrun (hfound.imp fun x h => ⟨h.1, h.2.1, .inl h.2.2⟩)⟩

end Ilclient

end Camkit
