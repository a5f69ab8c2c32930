import Camkit.Handles.Model.Plans
/-!
# Handles — what a process is left with

Every label gives back all that is held where the code jumps to it, in all
of these functions but one: the OMX encoder has its combination buffer on no
label, and a port that it could not enable keeps its buffers. A process that
opens and closes handles, whatever fails on the way, has in the end lost
these of each OMX encoder that failed to open, and nothing else.
-/

namespace Camkit

namespace Handles

open Ladder (Plan Rung Call Process climb handles inHand debts)
open Ledger (Leaves Settled)

variable {a : Attempt} {calls : List (Call Attempt)} {s : Process Attempt Resource} {n : ℕ}
variable {outs : List Bool} {env : Omx.OpenEnv} {param : Vpu.EncParam}

/-! ## The plans and the functions -/

/-- The software converter, where no product overflows. -/
theorem isSome_softConverter {malloc : Bool} {mallocDst : Option Mem}
    {param : SoftConvert.CvtParam} {h : Option SoftConvert.CvtHandle}
    (hopen : SoftConvert.convertOpen malloc mallocDst param = .ok h) :
    h.isSome = (malloc && (decide (param.inpixfmt = SoftConvert.v4l2PixFmtYuyv ∧
      param.outpixfmt = SoftConvert.v4l2PixFmtYuv420) && (decide (param.inwidth = param.outwidth ∧
      param.inheight = param.outheight) && (mallocDst.isSome && true)))) := by
  unfold SoftConvert.convertOpen at hopen
  simp only [ne_eq, ← not_and_or] at hopen
  split at hopen
  · next hmalloc =>
    obtain rfl := Except.ok.inj hopen
    simp_all
  · next hmalloc =>
    split at hopen
    · next hfmt =>
      obtain rfl := Except.ok.inj hopen
      simp [hfmt]
    · next hfmt =>
      split at hopen
      · next hsize =>
        obtain rfl := Except.ok.inj hopen
        simp [hsize]
      · next hsize =>
        -- the products, each an `int` as the call has come to a result
        obtain ⟨_, -, hopen⟩ := SoftConvert.bind_eq_ok hopen
        obtain ⟨_, -, hopen⟩ := SoftConvert.bind_eq_ok hopen
        obtain ⟨_, -, hopen⟩ := SoftConvert.bind_eq_ok hopen
        obtain ⟨_, -, hopen⟩ := SoftConvert.bind_eq_ok hopen
        rw [not_not] at hfmt hsize
        cases mallocDst with
        | none =>
          obtain rfl := Except.ok.inj hopen
          simp
        | some dst =>
          obtain rfl := Except.ok.inj hopen
          simpa [hfmt, hsize] using hmalloc

/-- **The plan is the function's**: it gets to the top where the function
returns a handle. -/
theorem opening_plan (a : Attempt) : a.plan.opening.1 = a.opens := by
  rw [Plan.opening, Ladder.climb_fst]
  cases a with
  | ffmpegEncoder env param =>
    simp only [Attempt.plan, ffmpegEncoder, List.all_cons, List.all_nil, Attempt.opens,
      Ffmpeg.encodeOpen]
    cases env.frameAlloc <;> cases env.inbuffer <;> split <;> simp_all
  | ffmpegConverter env param =>
    simp only [Attempt.plan, ffmpegConverter, List.all_cons, List.all_nil, Attempt.opens,
      Ffmpeg.convertOpen]
    cases env.srcBuffer <;> cases env.dstFrame <;> cases env.dstBuffer <;> split <;> simp_all
  | softConverter malloc mallocDst param size =>
    rw [Attempt.opens]
    cases hopen : SoftConvert.convertOpen malloc mallocDst param with
    | error e => exact absurd hopen (size e)
    | ok h =>
      simp only [Attempt.plan, softConverter, List.all_cons, List.all_nil]
      exact (isSome_softConverter hopen).symm
  | omxEncoder env param =>
    simp only [Attempt.plan, omxEncoder, List.all_cons, List.all_nil, Attempt.opens,
      Omx.encodeOpen]
    split <;> simp_all
  | packetiser params mallocHandle mallocOutbuf tb =>
    cases mallocHandle <;> cases mallocOutbuf <;> rfl
  | network env params =>
    simp only [Attempt.plan, network, List.all_cons, List.all_nil, Attempt.opens,
      Network.netOpen]
    cases env.malloc <;> cases env.socket params.type <;>
      cases env.connect (env.server params) <;> rfl
  | timestamp malloc arrs params => cases malloc <;> rfl

/-! ## Labels -/

/-- **Each label fits**, and each `close` gives back what its `open` took. -/
theorem sound_plan (a : Attempt) : a.plan.Sound := by
  cases a <;> exact ⟨of_decide_eq_true rfl, of_decide_eq_true rfl⟩

/-- **The OMX encoder** fails without a debt before it has the combination
buffer; after it, it owes that buffer and those of the port it is stuck at. -/
theorem debt_omxEncoder :
    (omxEncoder env).debt = ((Attempt.omxEncoder env param).lost : Multiset Resource) := by
  have hlefts : (omxEncoder env).lefts 0 (omxEncoder env).rungs =
      [0, 0, {.combinationBuffer}, {.combinationBuffer}, {.combinationBuffer},
        {.combinationBuffer}, {.combinationBuffer}, {.combinationBuffer},
        {.combinationBuffer, .inputBuffers}, {.combinationBuffer},
        {.combinationBuffer, .outputBuffers}, {.combinationBuffer}] := of_decide_eq_true rfl
  rw [Ladder.debt_eq, hlefts]
  obtain ⟨malloc, comb, ilclient, omx, component, parameters, idle, input, output, executing⟩ := env
  simp only [omxEncoder, List.map_cons, List.map_nil, Attempt.lost, stuckBuffers, Omx.encodeOpen]
  -- the calls before the ports, until one is refused
  cases malloc
  · rfl
  cases comb
  · rfl
  cases ilclient
  · rfl
  cases omx
  · rfl
  cases component
  · rfl
  cases parameters
  · rfl
  cases idle
  · rfl
  -- then the ports, each with its buffers
  cases input with
  | undone => rfl
  | stuck => cases output <;> rfl
  | enabled =>
    cases output with
    | undone => rfl
    | stuck => rfl
    | enabled => cases executing <;> rfl

/-- **No other label forgets anything.** -/
theorem debt_plan (a : Attempt) : a.plan.debt = (a.lost : Multiset Resource) := by
  cases a with
  | omxEncoder env param => exact debt_omxEncoder
  | _ =>
    rw [Ladder.debt_eq]
    exact Ladder.atRefused_eq_zero (of_decide_eq_true rfl)

/-! ## Processes -/

theorem debts_plan (n : ℕ) (calls : List (Call Attempt)) :
    debts Attempt.plan n calls = (losses n calls : Multiset (ℕ × Resource)) := by
  induction calls generalizing n with
  | nil => rfl
  | cons c calls ih =>
    cases c with
    | «open» a => rw [debts, debt_plan, ih, losses, Multiset.map_coe, Multiset.coe_add]
    | close i => exact ih (n + 1)

theorem losses_eq_nil_iff : losses n calls = [] ↔ ∀ a, Call.open a ∈ calls → a.lost = [] := by
  induction calls generalizing n with
  | nil => simp [losses]
  | cons c calls ih =>
    cases c with
    | «open» a =>
      rw [losses, List.append_eq_nil_iff, List.map_eq_nil_iff, ih]
      simp
    | close i =>
      rw [losses, ih]
      simp

/-- **What a process holds.** Whatever handles are opened and closed, in
whatever order and whatever is refused on the way: it holds what the open
handles have taken, and what each OMX encoder has lost that failed to open
after its combination buffer was allocated. With every handle closed
everything taken has been given back, each thing once, exactly where there
was no such failure. -/
theorem held_of_run (hrun : (handles Attempt.plan).run .start calls = some (s, outs)) :
    Leaves s.ledger (inHand Attempt.plan s.opened + (losses 0 calls : Multiset (ℕ × Resource))) ∧
      (s.opened = [] →
        (Settled s.ledger ↔ ∀ a, Call.open a ∈ calls → a.lost = [])) := by
  have hheld := Ladder.leaves_of_handles sound_plan hrun
  rw [debts_plan] at hheld
  refine ⟨hheld, fun hclosed => ?_⟩
  rw [hclosed] at hheld
  have hnothing : inHand Attempt.plan [] + (losses 0 calls : Multiset (ℕ × Resource)) =
      losses 0 calls := zero_add _
  rw [hnothing] at hheld
  rw [← losses_eq_nil_iff (n := 0)]
  constructor
  · intro hsettled
    exact (Multiset.coe_eq_zero _).mp (hheld.unique hsettled)
  · intro hnil
    rw [hnil] at hheld
    exact hheld

/-- Calls answered as they should be, but for `OMX_Init`. -/
def withoutOmx : Omx.OpenEnv :=
  ⟨true, true, true, false, true, true, true, .enabled, .enabled, true⟩

/-- An OMX encoder that does not open, and a packetiser opened and closed. -/
theorem held_of_run_withoutOmx :
    let calls : List (Call Attempt) := [
      .open (.omxEncoder withoutOmx ⟨640, 480, 640, 480, 15, 1000, 12, 0⟩),
      .open (.packetiser ⟨1400, 10⟩ true (some fun _ => 0) ⟨0, 0⟩), .close 0]
    ∃ s outs, (handles Attempt.plan).run .start calls = some (s, outs) ∧
      Leaves s.ledger
        (inHand Attempt.plan s.opened + (losses 0 calls : Multiset (ℕ × Resource))) ∧
      (s.opened = [] →
        (Settled s.ledger ↔ ∀ a, Call.open a ∈ calls → a.lost = [])) :=
  ⟨_, _, rfl, held_of_run rfl⟩

end Handles

end Camkit
