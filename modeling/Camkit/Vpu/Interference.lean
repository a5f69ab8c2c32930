import Camkit.Vpu.Geometry
import Camkit.Vpu.Headers
import Camkit.Vpu.Model.Process
/-!
# VPU encoder — handles that interfere

The place in the header loop belongs to the process and not to the handle.
A handle sees the headers it would see alone exactly as long as no two
header loops overlap: a loop that another handle has begun, and not ended,
goes on where that one stopped.
-/

namespace Camkit

namespace Vpu

variable {ι : Type} [DecidableEq ι] {es : List (ι × Call)} {os : List (ι × Reply)}
variable {s : Statics × (ι → Slot)} {h : EncHandle} {st st' : Statics}

/-- An `encode_get_headers` that finds the counter 0 uses the statics. -/
def UsesStatics : Slot → Call → Prop
  | .opened h, .getHeaders _ => h.gopOffsetCounter = 0
  | _, _ => False

/-- A handle is not inside a header loop: had its calls so far been run
alone, the statics would be as in a fresh process. -/
def BetweenLoops (es : List (ι × Call)) (j : ι) : Prop :=
  ∀ t ts, process.run freshProcess (Client.ofClient j es) = some (t, ts) → t.1 = .fresh

/-- No handle asks for a header while another is inside a header loop. -/
def LoopsApart (es : List (ι × Call)) : Prop :=
  ∀ es₁ i give s os h, es₁ ++ [(i, .getHeaders give)] <+: es →
    process.run freshProcess es₁ = some (s, os) → s.2 i = .opened h → h.gopOffsetCounter = 0 →
      ∀ j, j ≠ i → BetweenLoops es₁ j

/-! ## The handles of `encode_open` -/

/-- A handle without MVC, as all are. -/
def Slot.Plain : Slot → Prop
  | .opened h => h.mvcExtension = false
  | _ => True

/-- The statics without MVC. -/
def Statics.Plain (st : Statics) : Prop := st = .fresh ∨ st = ⟨.pps, false⟩ ∨ st = ⟨.sps, true⟩

theorem mvcExtension_of_open {env : Env} {param : EncParam}
    (hopen : (encodeOpen env param).1 = some h) : h.mvcExtension = false := by
  obtain ⟨o, o₁, -, -, hmvc, halloc, hprep⟩ := encodeOpen_some hopen
  obtain ⟨-, -, hkeeps, -⟩ := encoderAllocateFramebuffer_true halloc
  obtain ⟨-, -, -, rfl⟩ := prepareEncode_some hprep
  exact hkeeps.trans hmvc

theorem plain_nextSlot (sl : Slot) (c : Call) (sl' : Slot) (hsl : sl.Plain)
    (hnext : nextSlot sl c = some sl') : sl'.Plain := by
  cases sl with
  | unborn =>
    cases c with
    | «open» env param =>
      obtain ⟨h, hopen, rfl⟩ := Option.map_eq_some_iff.mp hnext
      exact mvcExtension_of_open hopen
    | _ => exact absurd hnext (by simp [nextSlot])
  | opened h =>
    have hmvc : h.mvcExtension = false := hsl
    cases c with
    | «open» env param => exact absurd hnext (by simp [nextSlot])
    | close =>
      obtain rfl := Option.some.inj hnext
      trivial
    | getHeaders give =>
      obtain rfl := Option.some.inj hnext
      exact hsl
    | encode env ilen =>
      simp only [nextSlot] at hnext
      split at hnext
      · exact absurd hnext (by simp)
      · rename_i res hdo
        obtain rfl := Option.some.inj hnext
        exact (encodeDo_ok hdo).1.trans hmvc
    | set x =>
      obtain rfl := Option.some.inj hnext
      exact (applySettings_mvc (l := [x])).trans hmvc
  | closed => exact absurd hnext (by cases c <;> simp [nextSlot])

/-! ## The statics as a register -/

/-- A header asked for moves the statics on. -/
theorem plain_encodeGetHeaders (give : HeaderType → EncHeaderParam) (hmvc : h.mvcExtension = false)
    (hst : st.Plain) : (encodeGetHeaders give st h).1.Plain := by
  by_cases hc : h.gopOffsetCounter = 0
  · rcases hst with rfl | rfl | rfl
    · obtain ⟨_, -, hget⟩ := encodeGetHeaders_of_stage give hc
        (show Statics.fresh.stageEnd = false from rfl)
      rw [hget, hmvc]
      exact Or.inr (Or.inl rfl)
    · obtain ⟨_, -, hget⟩ := encodeGetHeaders_of_stage give hc
        (show (⟨.pps, false⟩ : Statics).stageEnd = false from rfl)
      rw [hget, hmvc]
      exact Or.inr (Or.inr rfl)
    · rw [encodeGetHeaders_of_end hc rfl]
      exact Or.inl rfl
  · rw [encodeGetHeaders_of_ne hc]
    exact hst

/-- And what it returns tells where they were. -/
theorem statics_of_observed (give : HeaderType → EncHeaderParam) (hc : h.gopOffsetCounter = 0)
    (hst : st.Plain) (hst' : st'.Plain)
    (hsame : (encodeGetHeaders give st h).2.map Header.type =
      (encodeGetHeaders give st' h).2.map Header.type) : st = st' := by
  have hread : ∀ st : Statics, (encodeGetHeaders give st h).2.map Header.type =
      if st.stageEnd then none else some st.nextStage.headerType.2 := by
    intro st
    unfold encodeGetHeaders
    rw [if_neg (not_not_intro hc)]
    split
    · rfl
    · rfl
  rw [hread, hread] at hsame
  rcases hst with rfl | rfl | rfl <;> rcases hst' with rfl | rfl | rfl
  all_goals first
    | rfl
    | exact absurd hsame (by decide)

/-- A call that does not use them leaves them, and returns the same wherever
they are. -/
theorem access_of_not_usesStatics {sl : Slot} {c : Call} (huses : ¬ UsesStatics sl c) :
    ∃ r, ∀ st, handleClient.access sl c st = (st, r) := by
  cases sl with
  | opened h =>
    cases c with
    | getHeaders give =>
      refine ⟨.header none, fun st => ?_⟩
      have hget : encodeGetHeaders give st h = (st, none) := encodeGetHeaders_of_ne huses
      simp only [handleClient, accessStatics, hget]
    | encode env ilen =>
      simp only [handleClient, accessStatics]
      cases encodeDo env h ilen with
      | error e => exact ⟨_, fun _ => rfl⟩
      | ok res => exact ⟨_, fun _ => rfl⟩
    | _ => exact ⟨.void, fun _ => rfl⟩
  | _ => exact ⟨.void, fun _ => rfl⟩

/-- One that does is an `encode_get_headers`. -/
theorem getHeaders_of_usesStatics {sl : Slot} {c : Call} (huses : UsesStatics sl c) :
    ∃ h give, sl = .opened h ∧ c = .getHeaders give ∧ h.gopOffsetCounter = 0 := by
  cases sl with
  | opened h =>
    cases c with
    | getHeaders give => exact ⟨h, give, rfl, rfl, huses⟩
    | _ => exact absurd huses id
  | _ => exact absurd huses id

/-- **The statics are the register of the handles**: only a handle at the
start of a GOP uses them, and what it is returned shows where they were. -/
theorem handleClient_reveals :
    handleClient.Reveals observed UsesStatics Slot.Plain Statics.Plain where
  next := plain_nextSlot
  good := by
    intro sl c st hsl hst
    by_cases huses : UsesStatics sl c
    · obtain ⟨h, give, rfl, rfl, -⟩ := getHeaders_of_usesStatics huses
      exact plain_encodeGetHeaders give hsl hst
    · obtain ⟨r, haccess⟩ := access_of_not_usesStatics huses
      rw [haccess]
      exact hst
  unused := by
    intro sl c st huses
    obtain ⟨r, haccess⟩ := access_of_not_usesStatics huses
    rw [haccess]
  hidden := by
    intro sl c st st' huses
    obtain ⟨r, haccess⟩ := access_of_not_usesStatics huses
    rw [haccess, haccess]
  shown := by
    intro sl c st st' hsl huses hst hst' hsame
    obtain ⟨h, give, rfl, rfl, hc⟩ := getHeaders_of_usesStatics huses
    exact statics_of_observed give hc hst hst' (Option.some.inj hsame)

/-! ## Every order of calls -/

theorem loopsApart_iff :
    LoopsApart es ↔ handleClient.Exclusive UsesStatics .fresh .unborn es := by
  constructor
  · intro hapart es₁ i c s os hpre hrun huses j hj
    obtain ⟨h, give, hs, rfl, hc⟩ := getHeaders_of_usesStatics huses
    exact hapart es₁ i give s os h hpre hrun hs hc j hj
  · intro hexcl es₁ i give s os h hpre hrun hs hc
    refine hexcl es₁ i (.getHeaders give) s os hpre hrun ?_
    rw [hs]
    exact hc

/-- **Every handle sees the headers it sees alone exactly where no two
header loops overlap**: for any handles of a process, opened and closed at
any time, and any order of their calls. -/
theorem headersAlone_iff (hrun : process.run freshProcess es = some (s, os)) :
    (∀ i, ∃ t ts, process.run freshProcess (Client.ofClient i es) = some (t, ts) ∧
      Client.sees observed i os = Client.sees observed i ts) ↔ LoopsApart es := by
  rw [loopsApart_iff]
  exact Client.sees_alone_iff handleClient_reveals trivial (Or.inl rfl) hrun

/-- `encode_open` for VGA, and a call for the next header. -/
def openVga : Call := .open (.granting 2) ⟨640, 480, 640, 480, 15, 1000, 2, 0⟩

/-- `encode_get_headers` of headers that are empty. -/
def nextHeader : Call := .getHeaders fun _ => ⟨0, 0⟩

/-- Two handles, the second asking for headers when the first has them. -/
theorem headersAlone_iff_apart :
    let es : List (Bool × Call) := [(true, openVga), (true, nextHeader), (true, nextHeader),
      (true, nextHeader), (false, openVga), (false, nextHeader)]
    ∃ s os, process.run freshProcess es = some (s, os) ∧
      ((∀ i, ∃ t ts, process.run freshProcess (Client.ofClient i es) = some (t, ts) ∧
        Client.sees observed i os = Client.sees observed i ts) ↔ LoopsApart es) := by
  intro es
  have hsome : (process.run freshProcess es).isSome = true := by decide +kernel
  obtain ⟨⟨s, os⟩, hrun⟩ := Option.isSome_iff_exists.mp hsome
  exact ⟨s, os, hrun, headersAlone_iff hrun⟩

/-- **Two loops that overlap**: the second handle is given the PPS the
first one is due, and then the first is told that it has had both. -/
theorem not_headersAlone_overlap :
    let es : List (Bool × Call) := [(true, openVga), (false, openVga), (true, nextHeader),
      (false, nextHeader), (true, nextHeader)]
    ∃ s os, process.run freshProcess es = some (s, os) ∧
      Client.sees observed true os = [none, some (some .sps), some none] ∧
      Client.sees observed false os = [none, some (some .pps)] ∧
      ¬ ∀ i, ∃ t ts, process.run freshProcess (Client.ofClient i es) = some (t, ts) ∧
        Client.sees observed i os = Client.sees observed i ts := by
  intro es
  have hshared : (process.run freshProcess es).map (fun x => (Client.sees observed true x.2,
      Client.sees observed false x.2)) =
        some ([none, some (some .sps), some none], [none, some (some .pps)]) := by
    decide +kernel
  have halone : (process.run freshProcess (Client.ofClient false es)).map (fun x =>
      Client.sees observed false x.2) = some [none, some (some .sps)] := by decide +kernel
  obtain ⟨⟨s, os⟩, hrun, hsees⟩ := Option.map_eq_some_iff.mp hshared
  obtain ⟨hfirst, hsecond⟩ := Prod.mk.inj hsees
  refine ⟨s, os, hrun, hfirst, hsecond, ?_⟩
  intro hall
  obtain ⟨t, ts, hrun', hsame⟩ := hall false
  rw [hrun', Option.map_some, Option.some.injEq] at halone
  rw [hsecond, halone] at hsame
  exact absurd hsame (by decide)

end Vpu

end Camkit
