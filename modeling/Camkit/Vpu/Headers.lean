import Camkit.Vpu.Geometry
/-!
# VPU encoder — one group of headers per GOP

The header loop walks the stages of a group and ends by a latch,
`stage_end`, which the next call consumes. Between rounds the statics are
always those of a fresh process, so a round has its group exactly where the
counter is 0, and the counter is what the successful frames make it.
-/

namespace Camkit

namespace Vpu

variable {give : HeaderType → EncHeaderParam} {st st' : Statics} {h : EncHandle} {fuel : ℕ}
variable {s s' : Encoder} {r : Round} {out out' : RoundResult} {rs : List Round}
variable {outs : List RoundResult} {env : DoEnv} {ilen : ℤ} {l : List Setting}

/-- The headers of a group, in order. -/
def group (mvc : Bool) : List HeaderType :=
  if mvc then [.sps, .spsMvc, .pps, .ppsMvc] else [.sps, .pps]

/-! ## The header loop -/

theorem encodeGetHeaders_of_ne (hc : h.gopOffsetCounter ≠ 0) :
    encodeGetHeaders give st h = (st, none) := if_pos hc

/-- The latch is consumed. -/
theorem encodeGetHeaders_of_end (hc : h.gopOffsetCounter = 0) (hend : st.stageEnd = true) :
    encodeGetHeaders give st h = ({ st with stageEnd := false }, none) := by
  unfold encodeGetHeaders
  rw [if_neg (not_not_intro hc), if_pos hend]

/-- A stage gives its header. -/
theorem encodeGetHeaders_of_stage (give : HeaderType → EncHeaderParam)
    (hc : h.gopOffsetCounter = 0) (hend : st.stageEnd = false) :
    ∃ header, header.headerType = st.nextStage.headerType.1 ∧
      encodeGetHeaders give st h = (st.nextStage.next h.mvcExtension st, some header) := by
  unfold encodeGetHeaders
  rw [if_neg (not_not_intro hc), if_neg (by rw [hend]; decide)]
  exact ⟨_, rfl, rfl⟩

theorem headerLoop_of_none (hget : encodeGetHeaders give st h = (st', none)) :
    headerLoop give (fuel + 1) st h = some (st', []) := by
  rw [headerLoop, hget]

theorem headerLoop_of_some {header : Header} {headers : List Header} {st'' : Statics}
    (hget : encodeGetHeaders give st h = (st', some header))
    (hloop : headerLoop give fuel st' h = some (st'', headers)) :
    headerLoop give (fuel + 1) st h = some (st'', header :: headers) := by
  rw [headerLoop, hget]
  simp only [hloop]

/-- The headers the loop has still to give from some statics. -/
def remaining (mvc : Bool) (st : Statics) : List HeaderType :=
  if st.stageEnd then []
  else
    match st.nextStage with
    | .sps => group mvc
    | .msps => if mvc then [.spsMvc, .pps, .ppsMvc] else [.spsMvc, .pps]
    | .pps => if mvc then [.pps, .ppsMvc] else [.pps]
    | .mpps => [.ppsMvc]

/-- Where the latch is set the group is complete. -/
def Latched (st : Statics) : Prop := st.stageEnd = true → st.nextStage = .sps

/-- One stage less, and the latch is set where it was the last one. -/
theorem remaining_eq_cons (mvc : Bool) (hend : st.stageEnd = false) :
    remaining mvc st = st.nextStage.headerType.1 :: remaining mvc (st.nextStage.next mvc st) ∧
      Latched (st.nextStage.next mvc st) := by
  obtain ⟨stage, stageEnd⟩ := st
  simp only at hend
  subst hend
  unfold Latched
  cases stage <;> cases mvc <;> exact ⟨rfl, by decide⟩

/-- **The header loop ends**, one call after the last header that remains,
and leaves the statics fresh. -/
theorem headerLoop_of_zero (hc : h.gopOffsetCounter = 0) (hlatch : Latched st)
    (hfuel : (remaining h.mvcExtension st).length < fuel) :
    ∃ headers, headerLoop give fuel st h = some (.fresh, headers) ∧
      headers.map Header.headerType = remaining h.mvcExtension st := by
  induction fuel generalizing st with
  | zero => omega
  | succ fuel ih =>
    -- the latch ends the loop, and a stage leaves one header less
    cases hend : st.stageEnd with
    | true =>
      have hfresh : { st with stageEnd := false } = Statics.fresh := by
        rw [hlatch hend]
        rfl
      refine ⟨[], headerLoop_of_none (hfresh ▸ encodeGetHeaders_of_end hc hend), ?_⟩
      rw [remaining, if_pos hend]
      rfl
    | false =>
      obtain ⟨header, htype, hget⟩ := encodeGetHeaders_of_stage give hc hend
      obtain ⟨hcons, hlatch'⟩ := remaining_eq_cons h.mvcExtension hend
      rw [hcons, List.length_cons] at hfuel
      obtain ⟨headers, hloop, hmap⟩ := ih hlatch' (by omega)
      refine ⟨header :: headers, headerLoop_of_some hget hloop, ?_⟩
      rw [List.map_cons, htype, hmap, hcons]

theorem length_group (mvc : Bool) : (group mvc).length < 5 := by cases mvc <;> decide

theorem remaining_fresh (mvc : Bool) : remaining mvc .fresh = group mvc := rfl

/-- **The header loop of a round**, whose statics are fresh: with five
calls or more it gives the group where the counter is 0, and nothing
elsewhere. -/
theorem headerLoop_fresh (give : HeaderType → EncHeaderParam) (h : EncHandle) (hfuel : 5 ≤ fuel) :
    ∃ headers, headerLoop give fuel .fresh h = some (.fresh, headers) ∧
      headers.map Header.headerType =
        if h.gopOffsetCounter = 0 then group h.mvcExtension else [] := by
  by_cases hc : h.gopOffsetCounter = 0
  · rw [if_pos hc, ← remaining_fresh]
    refine headerLoop_of_zero hc (fun hend => absurd hend (by decide)) ?_
    have := length_group h.mvcExtension
    rw [remaining_fresh]
    omega
  · rw [if_neg hc]
    obtain ⟨fuel, rfl⟩ : ∃ k, fuel = k + 1 := ⟨fuel - 1, by omega⟩
    exact ⟨[], headerLoop_of_none (encodeGetHeaders_of_ne hc), rfl⟩

/-- A loop that is done is done with more calls allowed. -/
theorem headerLoop_mono {n : ℕ} {x : Statics × List Header}
    (hloop : headerLoop give fuel st h = some x) (hle : fuel ≤ n) :
    headerLoop give n st h = some x := by
  induction fuel generalizing st n x with
  | zero => exact absurd hloop (by simp [headerLoop])
  | succ fuel ih =>
    obtain ⟨n, rfl⟩ : ∃ k, n = k + 1 := ⟨n - 1, by omega⟩
    rw [headerLoop] at hloop ⊢
    split at hloop
    · exact hloop
    · split at hloop
      · exact absurd hloop (by simp)
      · rename_i hrest
        rw [ih hrest (by omega)]
        exact hloop

/-! ## Settings and frames -/

/-- **What a setting does**: only a forced I picture resets the counter, and
only a GOP size that is set changes it. -/
theorem Setting.apply_eq (x : Setting) (h : EncHandle) :
    (x.apply h).mvcExtension = h.mvcExtension ∧
      (x.apply h).gopOffsetCounter = (if x = .forceIpic then 0 else h.gopOffsetCounter) ∧
      ((∀ val, x ≠ .setGop val true) → (x.apply h).params.gop = h.params.gop) := by
  cases x with
  | forceIpic => exact ⟨rfl, rfl, fun _ => rfl⟩
  | setQp val => exact ⟨rfl, rfl, fun _ => rfl⟩
  | setGop val ok =>
    cases ok with
    | false => exact ⟨rfl, rfl, fun _ => rfl⟩
    | true => exact ⟨rfl, rfl, fun hne => absurd rfl (hne val)⟩
  | setBitrate val ok => cases ok <;> exact ⟨rfl, rfl, fun _ => rfl⟩
  | setFramerate val ok => cases ok <;> exact ⟨rfl, rfl, fun _ => rfl⟩

theorem applySettings_mvc : (applySettings h l).mvcExtension = h.mvcExtension := by
  induction l generalizing h with
  | nil => rfl
  | cons x l ih => exact (ih (h := x.apply h)).trans (x.apply_eq h).1

/-- The counter is reset by a forced I picture, and by nothing else. -/
theorem applySettings_counter : (applySettings h l).gopOffsetCounter =
    if .forceIpic ∈ l then 0 else h.gopOffsetCounter := by
  induction l generalizing h with
  | nil => rfl
  | cons x l ih =>
    refine (ih (h := x.apply h)).trans ?_
    rw [(x.apply_eq h).2.1]
    by_cases hx : x = .forceIpic
    · subst hx
      simp
    · simp [hx, Ne.symm hx]

/-- A setting leaves the GOP size at `g`. -/
def Setting.Keeps (g : ℤ) : Setting → Prop
  | .forceIpic => False
  | .setGop val ok => ok = true → val = g
  | _ => True

/-- One that does leaves the counter too. -/
theorem Setting.apply_keeps {g : ℤ} {x : Setting} (hg : h.params.gop = g) (hx : x.Keeps g) :
    (x.apply h).params.gop = g ∧ (x.apply h).gopOffsetCounter = h.gopOffsetCounter := by
  obtain ⟨-, hcounter, hgop⟩ := x.apply_eq h
  have hforce : x ≠ .forceIpic := by
    rintro rfl
    exact hx
  refine ⟨?_, by rw [hcounter, if_neg hforce]⟩
  by_cases hset : ∃ val, x = .setGop val true
  · obtain ⟨val, rfl⟩ := hset
    exact hx rfl
  · rw [hgop fun val hval => hset ⟨val, hval⟩, hg]

theorem applySettings_keeps {g : ℤ} (hg : h.params.gop = g) (hl : ∀ x ∈ l, x.Keeps g) :
    (applySettings h l).params.gop = g ∧
      (applySettings h l).gopOffsetCounter = h.gopOffsetCounter := by
  induction l generalizing h with
  | nil => exact ⟨hg, rfl⟩
  | cons x l ih =>
    obtain ⟨hx, hrest⟩ := List.forall_mem_cons.mp hl
    obtain ⟨hgop, hcounter⟩ := Setting.apply_keeps hg hx
    obtain ⟨hgop', hcounter'⟩ := ih hgop hrest
    exact ⟨hgop', hcounter'.trans hcounter⟩

/-- **What `encode_do` does to the counter**: a frame moves it on, and a
failure leaves it. -/
theorem encodeDo_ok {res : DoResult} (hdo : encodeDo env h ilen = .ok res) :
    res.handle.mvcExtension = h.mvcExtension ∧ res.handle.params = h.params ∧
      res.handle.gopOffsetCounter =
        if res.frame.isSome then
          if h.gopOffsetCounter + 1 ≥ h.params.gop then 0 else h.gopOffsetCounter + 1
        else h.gopOffsetCounter := by
  unfold encodeDo at hdo
  split at hdo
  · exact absurd hdo (by simp)
  · simp only at hdo
    split at hdo
    · split at hdo
      · obtain rfl := Except.ok.inj hdo
        exact ⟨rfl, rfl, rfl⟩
      · obtain rfl := Except.ok.inj hdo
        exact ⟨rfl, rfl, rfl⟩
    · obtain rfl := Except.ok.inj hdo
      exact ⟨rfl, rfl, rfl⟩

/-! ## A round -/

/-- **One round** from fresh statics: the headers it has, and what it does
to the counter and the statics. -/
theorem rounds_step (hfuel : 5 ≤ fuel) (hfresh : s.statics = .fresh)
    (hstep : (rounds fuel).step s r = some (s', out)) :
    s'.statics = .fresh ∧ s'.handle.mvcExtension = s.handle.mvcExtension ∧
      out.counter = (applySettings s.handle r.settings).gopOffsetCounter ∧
      out.headers.map Header.headerType =
        (if out.counter = 0 then group s.handle.mvcExtension else []) ∧
      s'.handle.params = (applySettings s.handle r.settings).params ∧
      s'.handle.gopOffsetCounter =
        if out.frame.isSome then
          if out.counter + 1 ≥ s'.handle.params.gop then 0 else out.counter + 1
        else out.counter := by
  obtain ⟨headers, hloop, hmap⟩ := headerLoop_fresh r.give
    (applySettings s.handle r.settings) hfuel
  simp only [rounds, hfresh, hloop] at hstep
  split at hstep
  · exact absurd hstep (by simp)
  · rename_i res hdo
    obtain ⟨rfl, rfl⟩ := Prod.mk.inj (Option.some.inj hstep)
    obtain ⟨hmvc, hparams, hcounter⟩ := encodeDo_ok hdo
    rw [applySettings_mvc] at hmap
    refine ⟨rfl, hmvc.trans applySettings_mvc, rfl, hmap, hparams, ?_⟩
    simp only [hcounter, hparams]

/-! ## Runs of rounds -/

/-- The rounds in which `encode_do` returned a frame. -/
def successes (outs : List RoundResult) : List RoundResult :=
  outs.filter fun out => out.frame.isSome

theorem successes_concat_none (hframe : out.frame = none) :
    successes (outs ++ [out]) = successes outs := by
  rw [successes, List.filter_append, List.filter_cons_of_neg (by simp [hframe])]
  exact List.append_nil _

theorem successes_concat_some {frame : Frame} (hframe : out.frame = some frame) :
    successes (outs ++ [out]) = successes outs ++ [out] := by
  rw [successes, List.filter_append, List.filter_cons_of_pos (by simp [hframe])]
  rfl

/-- A round has the full group of headers. -/
def RoundResult.HasGroup (mvc : Bool) (out : RoundResult) : Prop :=
  out.headers.map Header.headerType = group mvc

/-- What holds between two rounds: the statics are fresh, and the handle
is of the kind it was. -/
def Between (mvc : Bool) (s : Encoder) : Prop :=
  s.statics = .fresh ∧ s.handle.mvcExtension = mvc

theorem between_of_run {mvc : Bool} (hfuel : 5 ≤ fuel) (hs : Between mvc s)
    (hrun : (rounds fuel).run s rs = some (s', outs)) :
    Between mvc s' ∧ ∀ out ∈ outs, out.headers.map Header.headerType =
      if out.counter = 0 then group mvc else [] := by
  refine Machine.run_forall (P := fun _ => True) ?_ hs (fun _ _ => trivial) hrun
  rintro s r s' out ⟨hfresh, rfl⟩ - hstep
  obtain ⟨hfresh', hmvc', -, hheaders, -, -⟩ := rounds_step hfuel hfresh hstep
  exact ⟨⟨hfresh', hmvc'⟩, hheaders⟩

theorem group_ne_nil (mvc : Bool) : group mvc ≠ [] := by cases mvc <;> decide

theorem hasGroup_iff {mvc : Bool} (hheaders : out.headers.map Header.headerType =
    if out.counter = 0 then group mvc else []) : out.HasGroup mvc ↔ out.counter = 0 := by
  unfold RoundResult.HasGroup
  rw [hheaders]
  constructor
  · intro hgroup
    by_contra hc
    rw [if_neg hc] at hgroup
    exact group_ne_nil mvc hgroup.symm
  · intro hc
    rw [if_pos hc]

/-- The counter of `encode_do` wraps at the GOP size. -/
theorem wrap_emod {g : ℤ} (hg : 1 ≤ g) (n : ℕ) :
    (if (n : ℤ) % g + 1 ≥ g then 0 else (n : ℤ) % g + 1) = ((n + 1 : ℕ) : ℤ) % g := by
  have hlt : (n : ℤ) % g < g := Int.emod_lt_of_pos _ (by omega)
  have hnonneg : 0 ≤ (n : ℤ) % g := Int.emod_nonneg _ (by omega)
  rw [Nat.cast_succ, ← Int.emod_add_emod]
  split
  · rw [show (n : ℤ) % g + 1 = g by omega, Int.emod_self]
  · exact (Int.emod_eq_of_lt (by omega) (by omega)).symm

/-- **Where the GOP size stays `g`** and no I picture is forced, the
counter of a frame is its number, up to multiples of `g`. -/
theorem counter_of_run {g : ℤ} (hg : 1 ≤ g) (hfuel : 5 ≤ fuel) (hfresh : s.statics = .fresh)
    (hgop : s.handle.params.gop = g) (hzero : s.handle.gopOffsetCounter = 0)
    (hkeeps : ∀ r ∈ rs, ∀ x ∈ r.settings, x.Keeps g)
    (hrun : (rounds fuel).run s rs = some (s', outs)) {k : ℕ}
    (hk : (successes outs)[k]? = some out) : out.counter = k % g := by
  refine (Machine.run_induction (I := fun rs outs s' =>
    (∀ r ∈ rs, ∀ x ∈ r.settings, x.Keeps g) →
      (s'.statics = .fresh ∧ s'.handle.params.gop = g ∧
        s'.handle.gopOffsetCounter = (successes outs).length % g) ∧
      ∀ (k : ℕ) out, (successes outs)[k]? = some out → out.counter = k % g) ?_ ?_ hrun
    hkeeps).2 k out hk
  · intro _
    refine ⟨⟨hfresh, hgop, hzero⟩, ?_⟩
    intro k out hk
    exact absurd hk (by simp [successes])
  · intro rs outs s₁ r s₂ out ih hstep hkeeps
    obtain ⟨⟨hfresh₁, hgop₁, hcount₁⟩, hall⟩ := ih fun r hr =>
      hkeeps r (List.mem_append_left _ hr)
    obtain ⟨hgopset, hcountset⟩ := applySettings_keeps hgop₁
      (hkeeps r (List.mem_append_right _ List.mem_cons_self))
    obtain ⟨hfresh₂, -, hout, -, hparams, hcount₂⟩ := rounds_step hfuel hfresh₁ hstep
    have hgop₂ : s₂.handle.params.gop = g := hparams ▸ hgopset
    have hcount : out.counter = (successes outs).length % g := by
      rw [hout, hcountset, hcount₁]
    cases hframe : out.frame with
    | none =>
      -- a failure adds no frame and leaves the counter
      rw [successes_concat_none hframe]
      refine ⟨⟨hfresh₂, hgop₂, ?_⟩, hall⟩
      rw [hcount₂, hframe]
      exact hcount
    | some frame =>
      rw [successes_concat_some hframe]
      refine ⟨⟨hfresh₂, hgop₂, ?_⟩, ?_⟩
      · rw [hcount₂, hframe, hgop₂, hcount, List.length_append]
        exact wrap_emod hg _
      · intro k x hx
        rcases lt_trichotomy k (successes outs).length with hlt | rfl | hgt
        · exact hall k x (List.getElem?_append_left hlt ▸ hx)
        · rw [List.getElem?_concat_length, Option.some.injEq] at hx
          exact hx ▸ hcount
        · rw [List.getElem?_eq_none (by rw [List.length_append]; exact hgt)] at hx
          exact absurd hx (by simp)

/-! ## Failures -/

/-- **After a failure** the next round has its group exactly where the one
that failed had it, or an I picture is forced. -/
theorem hasGroup_after_failure {mvc : Bool} (hfuel : 5 ≤ fuel) {r' : Round} {s₁ s₂ : Encoder}
    (hs : Between mvc s) (hstep : (rounds fuel).step s r = some (s₁, out))
    (hstep' : (rounds fuel).step s₁ r' = some (s₂, out')) (hfail : out.frame = none) :
    out'.HasGroup mvc ↔ out.HasGroup mvc ∨ .forceIpic ∈ r'.settings := by
  obtain ⟨hfresh, rfl⟩ := hs
  obtain ⟨hfresh₁, hmvc₁, -, hheaders, -, hcount₁⟩ := rounds_step hfuel hfresh hstep
  obtain ⟨-, -, hout', hheaders', -, -⟩ := rounds_step hfuel hfresh₁ hstep'
  rw [hmvc₁] at hheaders'
  rw [hasGroup_iff hheaders, hasGroup_iff hheaders', hout', applySettings_counter, hcount₁, hfail]
  -- the counter is as the failure left it, unless a setting resets it
  by_cases hforce : Setting.forceIpic ∈ r'.settings
  · rw [if_pos hforce]
    exact ⟨fun _ => .inr hforce, fun _ => rfl⟩
  · rw [if_neg hforce, if_neg (by simp)]
    exact ⟨.inl, fun hor => hor.resolve_right hforce⟩

/-- Two encoders that differ in the forced I picture only. -/
def SameButForce (s t : Encoder) : Prop :=
  s.statics = t.statics ∧ resetForce s.handle = resetForce t.handle

theorem Setting.apply_resetForce (x : Setting) :
    resetForce (x.apply h) = resetForce (x.apply (resetForce h)) := by
  cases x with
  | forceIpic => rfl
  | setQp val => rfl
  | setGop val ok => cases ok <;> rfl
  | setBitrate val ok => cases ok <;> rfl
  | setFramerate val ok => cases ok <;> rfl

theorem applySettings_congr {h' : EncHandle} (hsame : resetForce h = resetForce h') :
    resetForce (applySettings h l) = resetForce (applySettings h' l) := by
  induction l generalizing h h' with
  | nil => exact hsame
  | cons x l ih =>
    refine ih ?_
    rw [x.apply_resetForce, hsame, ← x.apply_resetForce]

theorem encodeGetHeaders_resetForce :
    encodeGetHeaders give st (resetForce h) = encodeGetHeaders give st h := rfl

theorem counter_congr {h' : EncHandle} (hsame : resetForce h = resetForce h') :
    h.gopOffsetCounter = h'.gopOffsetCounter := by
  calc h.gopOffsetCounter = (resetForce h).gopOffsetCounter := rfl
    _ = (resetForce h').gopOffsetCounter := by rw [hsame]
    _ = h'.gopOffsetCounter := rfl

theorem headerLoop_congr {h' : EncHandle} (hsame : resetForce h = resetForce h') :
    headerLoop give fuel st h = headerLoop give fuel st h' := by
  induction fuel generalizing st with
  | zero => rfl
  | succ fuel ih =>
    have hget : encodeGetHeaders give st h = encodeGetHeaders give st h' := by
      rw [← encodeGetHeaders_resetForce, hsame, encodeGetHeaders_resetForce]
    simp only [headerLoop, hget, ih]

/-- A failed `encode_do` changes nothing but the forced I picture. -/
theorem encodeDo_none {res : DoResult} (hdo : encodeDo env h ilen = .ok res)
    (hfail : res.frame = none) : res.handle = resetForce h := by
  unfold encodeDo at hdo
  split at hdo
  · exact absurd hdo (by simp)
  · simp only at hdo
    split at hdo
    · split at hdo
      · obtain rfl := Except.ok.inj hdo
        rfl
      · obtain rfl := Except.ok.inj hdo
        exact absurd hfail (by simp)
    · obtain rfl := Except.ok.inj hdo
      rfl

/-- `encode_do` sees the flag it resets only in what it submits. -/
theorem encodeDo_resetForce : encodeDo env h ilen =
    (encodeDo env (resetForce h) ilen).map fun res => { res with submitted := h.encParam } := by
  have hfill : encodeFillData (resetForce h) ilen = encodeFillData h ilen := rfl
  unfold encodeDo
  rw [hfill]
  cases encodeFillData h ilen with
  | error f => rfl
  | ok copy =>
    simp only
    split
    · cases env.outputInfo <;> rfl
    · rfl

theorem encodeDo_congr {h' : EncHandle} {res : DoResult} (hsame : resetForce h = resetForce h')
    (hdo : encodeDo env h ilen = .ok res) : ∃ res', encodeDo env h' ilen = .ok res' ∧
      res'.handle = res.handle ∧ res'.frame = res.frame := by
  rw [encodeDo_resetForce, hsame] at hdo
  rw [encodeDo_resetForce]
  cases hreset : encodeDo env (resetForce h') ilen with
  | error f =>
    rw [hreset] at hdo
    exact absurd hdo (by simp [Except.map])
  | ok res' =>
    rw [hreset] at hdo
    obtain rfl := Except.ok.inj hdo
    exact ⟨_, rfl, rfl, rfl⟩

/-- What a caller sees of a round. -/
def SameRound (out out' : RoundResult) : Prop :=
  out.counter = out'.counter ∧ out.headers = out'.headers ∧ out.frame = out'.frame

theorem rounds_step_congr {t : Encoder} (hsame : SameButForce s t)
    (hstep : (rounds fuel).step s r = some (s', out)) :
    ∃ t' out', (rounds fuel).step t r = some (t', out') ∧ SameButForce s' t' ∧
      SameRound out out' := by
  obtain ⟨hstatics, hhandle⟩ := hsame
  have hset := applySettings_congr (l := r.settings) hhandle
  simp only [rounds, hstatics, headerLoop_congr hset] at hstep ⊢
  split at hstep
  · exact absurd hstep (by simp)
  · split at hstep
    · exact absurd hstep (by simp)
    · rename_i hdo
      obtain ⟨rfl, rfl⟩ := Prod.mk.inj (Option.some.inj hstep)
      obtain ⟨res', hdo', hhandle', hframe⟩ := encodeDo_congr hset hdo
      rw [hdo']
      refine ⟨_, _, rfl, ⟨rfl, congrArg resetForce hhandle'.symm⟩, ?_, rfl, hframe.symm⟩
      exact counter_congr hset

/-- **A failure is without effect** on every later round: they are the
rounds there would be had `encode_do` not been called. -/
theorem run_after_failure (hfuel : 5 ≤ fuel) {s₁ : Encoder} (hfresh : s.statics = .fresh)
    (hstep : (rounds fuel).step s r = some (s₁, out)) (hfail : out.frame = none)
    (hrun : (rounds fuel).run s₁ rs = some (s', outs)) :
    ∃ t' outs', (rounds fuel).run ⟨s.statics, applySettings s.handle r.settings⟩ rs =
      some (t', outs') ∧ List.Forall₂ SameRound outs outs' := by
  have hsame : SameButForce s₁ ⟨s.statics, applySettings s.handle r.settings⟩ := by
    obtain ⟨headers, hloop, -⟩ := headerLoop_fresh r.give
      (applySettings s.handle r.settings) hfuel
    simp only [rounds, hfresh, hloop] at hstep
    split at hstep
    · exact absurd hstep (by simp)
    · rename_i hdo
      obtain ⟨rfl, rfl⟩ := Prod.mk.inj (Option.some.inj hstep)
      refine ⟨hfresh.symm, ?_⟩
      rw [encodeDo_none hdo hfail]
      rfl
  obtain ⟨t', outs', hrun', -, hsames⟩ := Machine.run_simulation
    (fun _ _ _ _ _ hsame hstep => rounds_step_congr hsame hstep) hsame hrun
  exact ⟨t', outs', hrun', hsames⟩

/-! ## The rounds of a handle -/

/-- The counter and the GOP size `encode_open` leaves. -/
theorem counter_of_open {param : EncParam} {openEnv : Env}
    (hopen : (encodeOpen openEnv param).1 = some h) :
    h.params.gop = param.gop ∧ h.gopOffsetCounter = 0 := by
  obtain ⟨o, o₁, rfl, hzero, -, halloc, hprep⟩ := encodeOpen_some hopen
  obtain ⟨hparams, hcounter, -⟩ := encoderAllocateFramebuffer_true halloc
  obtain ⟨-, -, -, rfl⟩ := prepareEncode_some hprep
  exact ⟨congrArg EncParam.gop hparams, hcounter.trans hzero⟩

theorem dvd_iff_of_counter {g : ℤ} {k : ℕ} {mvc : Bool} (hcount : out.counter = k % g)
    (hheaders : out.headers.map Header.headerType = if out.counter = 0 then group mvc else []) :
    out.HasGroup mvc ↔ g ∣ k := by
  rw [hasGroup_iff hheaders, hcount]
  exact (Int.dvd_iff_emod_eq_zero).symm

/-- **One group of headers per GOP.** On a handle as `encode_open` returns
it, in a fresh process, after any rounds: the header loop of a next round
ends; a round has the group where its counter is 0 and nothing elsewhere; a
failure takes the group of no later round; and where the GOP size stays
`g`, every `g`-th frame comes with the group. -/
theorem oneGroupPerGop {param : EncParam} {openEnv : Env} {mvc : Bool}
    (hopen : (encodeOpen openEnv param).1 = some h) (hfuel : 5 ≤ fuel)
    (hrun : (rounds fuel).run ⟨.fresh, { h with mvcExtension := mvc }⟩ rs = some (s, outs)) :
    (∀ give settings, ∃ headers, (∀ n ≥ 5,
      headerLoop give n s.statics (applySettings s.handle settings) = some (.fresh, headers)) ∧
      headers.map Header.headerType =
        if (applySettings s.handle settings).gopOffsetCounter = 0 then group mvc else []) ∧
    (∀ out ∈ outs, out.headers.map Header.headerType =
      if out.counter = 0 then group mvc else []) ∧
    (∀ rs₁ r rs₂, rs = rs₁ ++ r :: rs₂ → ∃ s₁ outs₁ out outs₂,
      (rounds fuel).run ⟨.fresh, { h with mvcExtension := mvc }⟩ rs₁ = some (s₁, outs₁) ∧
      outs = outs₁ ++ out :: outs₂ ∧ (out.frame = none →
        (∃ t outs', (rounds fuel).run ⟨s₁.statics, applySettings s₁.handle r.settings⟩ rs₂ =
          some (t, outs') ∧ List.Forall₂ SameRound outs₂ outs') ∧
        ∀ r' ∈ rs₂.head?, ∀ out' ∈ outs₂.head?,
          (out'.HasGroup mvc ↔ out.HasGroup mvc ∨ .forceIpic ∈ r'.settings))) ∧
    (∀ g, 1 ≤ g → param.gop = g → (∀ r ∈ rs, ∀ x ∈ r.settings, x.Keeps g) →
      ∀ (k : ℕ) out, (successes outs)[k]? = some out → (out.HasGroup mvc ↔ g ∣ k)) := by
  have hstart : Between mvc ⟨.fresh, { h with mvcExtension := mvc }⟩ := ⟨rfl, rfl⟩
  obtain ⟨hbetween, hheaders⟩ := between_of_run hfuel hstart hrun
  refine ⟨?_, hheaders, ?_, ?_⟩
  · intro give settings
    obtain ⟨headers, hloop, hmap⟩ := headerLoop_fresh give (applySettings s.handle settings)
      (le_refl 5)
    rw [applySettings_mvc, hbetween.2] at hmap
    refine ⟨headers, ?_, hmap⟩
    intro n hn
    rw [hbetween.1]
    exact headerLoop_mono hloop hn
  · rintro rs₁ r rs₂ rfl
    obtain ⟨s₁, outs₁, outs', hrun₁, hrest, rfl⟩ := Machine.run_append.mp hrun
    obtain ⟨s₂, out, outs₂, hstep, hrun₂, rfl⟩ := Machine.run_cons.mp hrest
    have hbetween₁ := (between_of_run hfuel hstart hrun₁).1
    refine ⟨s₁, outs₁, out, outs₂, hrun₁, rfl, ?_⟩
    intro hfail
    refine ⟨run_after_failure hfuel hbetween₁.1 hstep hfail hrun₂, ?_⟩
    intro r' hr' out' hout'
    cases rs₂ with
    | nil => exact absurd hr' (by simp)
    | cons r₂ rs₂ =>
      obtain rfl := Option.some.inj hr'
      obtain ⟨s₃, out₃, outs₃, hstep', -, rfl⟩ := Machine.run_cons.mp hrun₂
      obtain rfl := Option.some.inj hout'
      exact hasGroup_after_failure hfuel hbetween₁ hstep hstep' hfail
  · rintro g hg hgop hkeeps k out hk
    obtain ⟨hparams, hzero⟩ := counter_of_open hopen
    have hcount := counter_of_run hg hfuel rfl (hparams ▸ hgop) hzero hkeeps hrun hk
    have hmem : out ∈ outs := List.mem_of_mem_filter (List.mem_of_getElem? hk)
    exact dvd_iff_of_counter hcount (hheaders out hmem)

/-- A round without settings that encodes a VGA frame. -/
def quietRound : Round :=
  ⟨[], fun _ => ⟨0, 0⟩, 460800, ⟨true, 0, some ⟨0, 0, 10⟩⟩⟩

/-- Five frames of VGA in GOPs of two, MVC. -/
theorem oneGroupPerGop_vga : ∃ h s outs,
    (encodeOpen (.granting 2) ⟨640, 480, 640, 480, 15, 1000, 2, 0⟩).1 = some h ∧
    (rounds 5).run ⟨.fresh, { h with mvcExtension := true }⟩ (List.replicate 5 quietRound) =
      some (s, outs) ∧
    ∀ (k : ℕ) out, (successes outs)[k]? = some out → (out.HasGroup true ↔ (2 : ℤ) ∣ k) := by
  have hsome : ((encodeOpen (.granting 2) ⟨640, 480, 640, 480, 15, 1000, 2, 0⟩).1.bind fun h =>
      ((rounds 5).run ⟨.fresh, { h with mvcExtension := true }⟩
        (List.replicate 5 quietRound)).map fun x => (h, x)).isSome = true := by decide +kernel
  obtain ⟨⟨h, s, outs⟩, hx⟩ := Option.isSome_iff_exists.mp hsome
  obtain ⟨h', hopen, hmap⟩ := Option.bind_eq_some_iff.mp hx
  obtain ⟨x, hrun, heq⟩ := Option.map_eq_some_iff.mp hmap
  obtain ⟨rfl, rfl⟩ := Prod.mk.inj heq
  refine ⟨h', s, outs, hopen, hrun, ?_⟩
  refine (oneGroupPerGop hopen (le_refl 5) hrun).2.2.2 2 (by decide) rfl ?_
  intro r hr x hx
  obtain rfl := (List.mem_replicate.mp hr).2
  exact absurd hx List.not_mem_nil

end Vpu

end Camkit
