import Camkit.Omx.Combination
import Camkit.Common.Units
/-!
# OMX encoder — the assembly of frames

The encoder delivers a frame in chunks, and `encode_do` returns one buffer
at a time: the chunks it has taken up to the end of a frame — or up to an
empty poll, which ends the combination as well. So the buffers returned
are the frames exactly when no frame has an empty poll inside it.
-/

namespace Camkit

namespace Omx

/-- The frames the encoder delivers: each the chunks since the one before
it, up to the first that ends a frame. -/
def frames (polls : List Chunk) : List (List UInt8) :=
  (units Chunk.endsFrame [] (items Chunk.isEmpty polls)).map bytes

/-- The frame a call returns, if it returns one. -/
def delivered (o : Option Frame) : Option Frame := o.filter fun f => f.buf.isSome

/-! ## What a call takes -/

/-- What a call takes of the polls, and what it leaves: parts up to the
chunk that ends their frame, or up to an empty poll. -/
inductive Cut : List Chunk → List Chunk → List Chunk → Prop
  | frame (seg : List Chunk) {rest : List Chunk} {c : Chunk} (hseg : ∀ c ∈ seg, c.Part)
      (hc : c.endsFrame = true) : Cut (seg ++ c :: rest) (seg ++ [c]) rest
  | gap (seg : List Chunk) {rest : List Chunk} {e : Chunk} (hseg : ∀ c ∈ seg, c.Part)
      (he : e.isEmpty = true) : Cut (seg ++ e :: rest) seg rest
  | ended {seg : List Chunk} (hseg : ∀ c ∈ seg, c.Part) : Cut seg seg []

variable {c e : Chunk} {h : EncHandle} {buf : List UInt8} {submitted : Option (List UInt8)}
variable {polls taken rest seg : List Chunk} {r : DoResult} {call : Call} {calls : List Call}
variable {s : EncHandle × List Fill} {os : List (Option Frame)}

theorem Chunk.endsFrame_of_isEmpty (hc : c.isEmpty = true) : c.endsFrame = false := by
  have hflags : c.nFlags = 0 := by
    rw [Chunk.isEmpty, Bool.and_eq_true] at hc
    exact beq_iff_eq.mp hc.1
  rw [Chunk.endsFrame, hflags]
  decide

theorem Chunk.isEmpty_of_endsFrame (hc : c.endsFrame = true) : c.isEmpty = false := by
  cases hempty : c.isEmpty with
  | false => rfl
  | true => exact absurd (hc.symm.trans (endsFrame_of_isEmpty hempty)) (by decide)

/-- One part more. -/
theorem Cut.cons (hc : c.Part) (hcut : Cut polls taken rest) :
    Cut (c :: polls) (c :: taken) rest := by
  cases hcut with
  | frame seg hseg hend =>
    exact Cut.frame (c :: seg) (List.forall_mem_cons.mpr ⟨hc, hseg⟩) hend
  | gap _ hseg he => exact Cut.gap (c :: taken) (List.forall_mem_cons.mpr ⟨hc, hseg⟩) he
  | ended hseg => exact Cut.ended (List.forall_mem_cons.mpr ⟨hc, hseg⟩)

/-- **What the loop takes** is a cut. -/
theorem combine_cut (buf : List UInt8) (polls : List Chunk) :
    ∃ taken rest, Cut polls taken rest ∧ upToFrame (polls.map some) = taken ∧
      ∀ r, combine buf (polls.map some) = .ok r →
        r = (buf ++ bytes taken, true, rest.map some) := by
  induction polls generalizing buf with
  | nil =>
    refine ⟨[], [], Cut.ended (by simp), rfl, fun r hr => ?_⟩
    rw [bytes, List.flatMap_nil, List.append_nil]
    exact (Except.ok.inj hr).symm
  | cons c polls ih =>
    rw [List.map_cons, combine, upToFrame]
    by_cases hempty : c.isEmpty = true
    · rw [if_pos hempty, if_pos hempty]
      refine ⟨[], polls, Cut.gap [] (by simp) hempty, rfl, fun r hr => ?_⟩
      rw [bytes, List.flatMap_nil, List.append_nil]
      exact (Except.ok.inj hr).symm
    · rw [if_neg hempty, if_neg hempty, memcpyCombination]
      by_cases hends : c.endsFrame = true
      · refine ⟨[c], polls, Cut.frame [] (by simp) hends, if_pos hends, fun r hr => ?_⟩
        split at hr
        · exact absurd hr (by simp)
        · next hcopy =>
          split at hcopy
          · obtain rfl := Except.ok.inj hcopy
            rw [if_pos hends] at hr
            rw [bytes_cons, bytes, List.flatMap_nil, List.append_nil]
            exact (Except.ok.inj hr).symm
          · exact absurd hcopy (by simp)
      · obtain ⟨taken, rest, hcut, htaken, hrest⟩ := ih (buf ++ c.data)
        have hpart : c.Part := ⟨by simpa using hempty, by simpa using hends⟩
        refine ⟨c :: taken, rest, hcut.cons hpart, by rw [if_neg hends, htaken], fun r hr => ?_⟩
        split at hr
        · exact absurd hr (by simp)
        · next hcopy =>
          split at hcopy
          · obtain rfl := Except.ok.inj hcopy
            rw [if_neg hends] at hr
            rw [hrest r hr, bytes_cons, List.append_assoc]
          · exact absurd hcopy (by simp)

/-- **What a call takes** is a cut, returned in one buffer. -/
theorem takeOutput_cut (h : EncHandle) (submitted : Option (List UInt8)) (polls : List Chunk) :
    ∃ taken rest, Cut polls taken rest ∧
      (combined (polls.map some) = [] ∨ combined (polls.map some) = taken) ∧
      ∀ r, takeOutput h submitted (polls.map some) = .ok r → r.fills = rest.map some ∧
        delivered r.frame = if taken = [] then none else some (.whole (bytes taken)) := by
  cases polls with
  | nil =>
    refine ⟨[], [], Cut.ended (by simp), Or.inl rfl, fun r hr => ?_⟩
    obtain rfl := Except.ok.inj hr
    exact ⟨rfl, rfl⟩
  | cons c polls =>
    rw [List.map_cons, combined]
    by_cases hempty : c.isEmpty = true
    · have hends := Chunk.endsFrame_of_isEmpty hempty
      refine ⟨[], polls, Cut.gap [] (by simp) hempty, Or.inr ?_, fun r hr => ?_⟩
      · rw [if_neg (by simp [hends]), upToFrame, if_pos hempty]
      · rw [takeOutput, if_pos hempty] at hr
        obtain rfl := Except.ok.inj hr
        exact ⟨rfl, rfl⟩
    · by_cases hends : c.endsFrame = true
      · refine ⟨[c], polls, Cut.frame [] (by simp) hends, Or.inl (if_pos hends), ?_⟩
        intro r hr
        rw [takeOutput, if_neg hempty, if_pos hends] at hr
        obtain rfl := Except.ok.inj hr
        rw [if_neg (by simp), bytes_cons, bytes, List.flatMap_nil, List.append_nil]
        exact ⟨rfl, rfl⟩
      · have hpart : c.Part := ⟨by simpa using hempty, by simpa using hends⟩
        obtain ⟨taken, rest, hcut, htaken, hrest⟩ := combine_cut [] (c :: polls)
        have hne : taken ≠ [] := by
          rw [← htaken, List.map_cons, upToFrame, if_neg hempty, if_neg hends]
          exact List.cons_ne_nil _ _
        refine ⟨taken, rest, hcut, Or.inr ?_, fun r hr => ?_⟩
        · rw [if_neg hends]
          exact htaken
        · rw [takeOutput_of_part hpart] at hr
          cases hloop : combine [] (some c :: polls.map some) with
          | error e =>
            rw [hloop] at hr
            exact absurd hr (by simp [Except.map])
          | ok r' =>
            rw [hloop, hrest r' hloop] at hr
            obtain rfl := Except.ok.inj hr
            rw [if_neg hne]
            exact ⟨rfl, rfl⟩

/-! ## Cuts and frames -/

/-- The polls stay outside the frames: an empty one comes only after whole
frames, and so does the end. -/
def BetweenFrames (polls : List Chunk) : Prop := Aligned Chunk.endsFrame Chunk.isEmpty polls

/-- Parts are items. -/
theorem items_parts (hseg : ∀ c ∈ seg, c.Part) :
    items Chunk.isEmpty (seg ++ rest) = seg ++ items Chunk.isEmpty rest := by
  rw [items, List.filter_append,
    List.filter_eq_self.mpr fun c hc => by simp [(hseg c hc).not_empty]]
  rfl

/-- Parts complete no frame. -/
theorem length_frames_parts (hseg : ∀ c ∈ seg, c.Part) :
    (frames (seg ++ rest)).length = (frames rest).length := by
  have hcount : seg.countP Chunk.endsFrame = 0 :=
    List.countP_eq_zero.mpr fun c hc => by simp [(hseg c hc).not_end]
  rw [frames, frames, List.length_map, List.length_map, length_units, length_units,
    items_parts hseg, List.countP_append, hcount, Nat.zero_add]

/-- After parts, there is to be no gap before their end. -/
theorem betweenFrames_parts (hseg : ∀ c ∈ seg, c.Part) : BetweenFrames (seg ++ rest) ↔
    AlignedFrom Chunk.endsFrame Chunk.isEmpty seg rest := by
  rw [BetweenFrames, Aligned, alignedFrom_append (fun c hc => (hseg c hc).not_empty)
    (fun c hc => (hseg c hc).not_end), List.nil_append]

/-- **A cut is a frame, or nothing, or the gap is inside a frame.** -/
theorem Cut.cases_frames (hcut : Cut polls taken rest) :
    (taken ≠ [] ∧ frames polls = bytes taken :: frames rest ∧
        (BetweenFrames polls ↔ BetweenFrames rest)) ∨
      (taken = [] ∧ frames polls = frames rest ∧ (BetweenFrames polls ↔ BetweenFrames rest)) ∨
      (taken ≠ [] ∧ (frames polls).length = (frames rest).length ∧ ¬ BetweenFrames polls) := by
  cases hcut with
  | @frame seg _ c hseg hc =>
    have hitem : c.isEmpty = false := Chunk.isEmpty_of_endsFrame hc
    refine Or.inl ⟨by simp, ?_, ?_⟩
    · rw [frames, items_parts hseg, items_cons_of_not_gap hitem,
        units_append_cons (fun c hc => (hseg c hc).not_end) hc, List.nil_append]
      rfl
    · rw [betweenFrames_parts hseg, alignedFrom_cons hitem, if_pos hc]
      rfl
  | @gap _ _ e hseg he =>
    rcases List.eq_nil_or_concat taken with rfl | ⟨l, a, htaken⟩
    · refine Or.inr (Or.inl ⟨rfl, ?_, ?_⟩)
      · rw [List.nil_append, frames, items_cons_of_gap he]
        rfl
      · rw [betweenFrames_parts hseg, alignedFrom_cons_of_gap he]
        exact and_iff_right rfl
    · have hne : taken ≠ [] := by simp [htaken]
      refine Or.inr (Or.inr ⟨hne, ?_, ?_⟩)
      · rw [length_frames_parts hseg, frames, items_cons_of_gap he]
        rfl
      · rw [betweenFrames_parts hseg, alignedFrom_cons_of_gap he]
        exact fun h => hne h.1
  | ended hseg =>
    rcases List.eq_nil_or_concat polls with rfl | ⟨l, a, hpolls⟩
    · exact Or.inr (Or.inl ⟨rfl, rfl, Iff.rfl⟩)
    · have hne : polls ≠ [] := by simp [hpolls]
      refine Or.inr (Or.inr ⟨hne, ?_, ?_⟩)
      · nth_rewrite 1 [← List.append_nil polls]
        exact length_frames_parts hseg
      · rw [← List.append_nil polls, betweenFrames_parts hseg, alignedFrom_nil]
        exact hne

/-- A cut takes a poll, unless there is none. -/
theorem Cut.length_le {n : ℕ} (hcut : Cut polls taken rest) (hn : polls.length ≤ n + 1) :
    rest.length ≤ n := by
  cases hcut with
  | frame _ hseg hc =>
    rw [List.length_append, List.length_cons] at hn
    omega
  | gap _ hseg he =>
    rw [List.length_append, List.length_cons] at hn
    omega
  | ended hseg => exact Nat.zero_le n

/-! ## Sessions -/

/-- The calls of a session that reach the output port. -/
def reaching (calls : List Call) : ℕ := calls.countP Call.reaches

/-- A call that does not reach the output port takes and returns nothing. -/
theorem encoder_step_of_not_reaches (hreach : call.reaches = false) (h : EncHandle)
    (fills : List Fill) : encoder.step (h, fills) call = some ((h, fills), none) := by
  simp only [encoder, encodeDo_of_not_reaches hreach]

/-- **One that does** takes a cut and returns it, if it comes back. -/
theorem encoder_step_of_reaches (hreach : call.reaches = true) (h : EncHandle)
    (polls : List Chunk) : ∃ taken rest, Cut polls taken rest ∧
      (∀ s o, encoder.step (h, polls.map some) call = some (s, o) → s.2 = rest.map some ∧
        delivered o = if taken = [] then none else some (.whole (bytes taken))) ∧
      ((bytes taken).length ≤ maxSizeCombinationBuffer →
        ∃ s o, encoder.step (h, polls.map some) call = some (s, o)) := by
  obtain ⟨taken, rest, hcut, hcombined, hout⟩ :=
    takeOutput_cut h (if call.env.inputBuffer then some call.ibuf else none) polls
  refine ⟨taken, rest, hcut, fun s o hstep => ?_, fun hle => ?_⟩
  · simp only [encoder, encodeDo_of_reaches hreach] at hstep
    split at hstep
    · exact absurd hstep (by simp)
    · next hr =>
      obtain ⟨rfl, rfl⟩ := Prod.mk.inj (Option.some.inj hstep)
      exact hout _ hr
  · have hle : (bytes (combined (polls.map some))).length ≤ maxSizeCombinationBuffer := by
      rcases hcombined with h | h
      · rw [h]
        exact Nat.zero_le _
      · rwa [h]
    obtain ⟨r, hr⟩ := takeOutput_ok_iff.mpr hle
    refine ⟨(r.handle, r.fills), r.frame, ?_⟩
    simp only [encoder, encodeDo_of_reaches hreach]
    rw [hr]

/-- **No buffer is lost**: a session that takes every poll returns at least
as many buffers as there are frames, and more if it finds a gap in one. -/
theorem frames_le_of_run (hcalls : polls.length ≤ reaching calls)
    (hrun : encoder.run (h, polls.map some) calls = some (s, os)) :
    (frames polls).length ≤ (os.filterMap delivered).length ∧
      ((os.filterMap delivered).length = (frames polls).length → BetweenFrames polls) := by
  induction calls generalizing h polls os with
  | nil =>
    obtain rfl := List.length_eq_zero_iff.mp (Nat.le_zero.mp hcalls)
    exact ⟨Nat.zero_le _, fun _ => alignedFrom_nil.mpr rfl⟩
  | cons call calls ih =>
    obtain ⟨⟨h₁, fills⟩, o, os, hstep, hrest, rfl⟩ := Machine.run_cons.mp hrun
    cases hreach : call.reaches with
    | false =>
      rw [encoder_step_of_not_reaches hreach] at hstep
      obtain ⟨hs, rfl⟩ := Prod.mk.inj (Option.some.inj hstep)
      obtain ⟨rfl, rfl⟩ := Prod.mk.inj hs
      rw [reaching, List.countP_cons_of_neg (by simp [hreach])] at hcalls
      obtain ⟨hle, heq⟩ := ih hcalls hrest
      exact ⟨hle, heq⟩
    | true =>
      obtain ⟨taken, rest, hcut, hout, -⟩ := encoder_step_of_reaches hreach h polls
      obtain ⟨rfl, ho⟩ := hout _ _ hstep
      rw [reaching, List.countP_cons_of_pos hreach] at hcalls
      obtain ⟨hle, heq⟩ := ih (hcut.length_le hcalls) hrest
      rw [List.filterMap_cons, ho]
      rcases hcut.cases_frames with ⟨htaken, hframes, hiff⟩ | ⟨htaken, hframes, hiff⟩ |
        ⟨htaken, hframes, hnot⟩
      · rw [if_neg htaken, hframes, hiff, List.length_cons, List.length_cons]
        exact ⟨by omega, fun h => heq (by omega)⟩
      · rw [if_pos htaken, hframes, hiff]
        exact ⟨hle, heq⟩
      · rw [if_neg htaken, hframes, List.length_cons]
        exact ⟨by omega, fun h => absurd h (by omega)⟩

/-- **Frames without gaps are returned**, each whole. -/
theorem run_of_betweenFrames (hsize : ∀ f ∈ frames polls, f.length ≤ maxSizeCombinationBuffer)
    (hcalls : polls.length ≤ reaching calls) (hbetween : BetweenFrames polls) (h : EncHandle) :
    ∃ s os, encoder.run (h, polls.map some) calls = some (s, os) ∧
      os.filterMap delivered = (frames polls).map Frame.whole := by
  induction calls generalizing h polls with
  | nil =>
    obtain rfl := List.length_eq_zero_iff.mp (Nat.le_zero.mp hcalls)
    exact ⟨_, [], rfl, rfl⟩
  | cons call calls ih =>
    cases hreach : call.reaches with
    | false =>
      rw [reaching, List.countP_cons_of_neg (by simp [hreach])] at hcalls
      obtain ⟨s, os, hrun, hos⟩ := ih hsize hcalls hbetween h
      exact ⟨s, none :: os,
        Machine.run_cons.mpr ⟨_, _, _, encoder_step_of_not_reaches hreach h _, hrun, rfl⟩, hos⟩
    | true =>
      obtain ⟨taken, rest, hcut, hout, hstep⟩ := encoder_step_of_reaches hreach h polls
      rw [reaching, List.countP_cons_of_pos hreach] at hcalls
      rcases hcut.cases_frames with ⟨htaken, hframes, hiff⟩ | ⟨htaken, hframes, hiff⟩ |
        ⟨-, -, hnot⟩
      · rw [hframes] at hsize
        obtain ⟨hfirst, hsize⟩ := List.forall_mem_cons.mp hsize
        obtain ⟨⟨h₁, fills⟩, o, hs⟩ := hstep hfirst
        obtain ⟨rfl, ho⟩ := hout _ _ hs
        obtain ⟨s, os, hrun, hos⟩ := ih hsize (hcut.length_le hcalls) (hiff.mp hbetween) h₁
        refine ⟨s, o :: os, Machine.run_cons.mpr ⟨_, _, _, hs, hrun, rfl⟩, ?_⟩
        rw [List.filterMap_cons, ho, if_neg htaken, hos, hframes]
        rfl
      · rw [hframes] at hsize
        obtain ⟨⟨h₁, fills⟩, o, hs⟩ := hstep (by rw [htaken]; exact Nat.zero_le _)
        obtain ⟨rfl, ho⟩ := hout _ _ hs
        obtain ⟨s, os, hrun, hos⟩ := ih hsize (hcut.length_le hcalls) (hiff.mp hbetween) h₁
        refine ⟨s, o :: os, Machine.run_cons.mpr ⟨_, _, _, hs, hrun, rfl⟩, ?_⟩
        rw [List.filterMap_cons, ho, if_pos htaken, hos, hframes]
      · exact absurd hbetween hnot

/-- **The buffers returned are the frames** exactly when the polls that come
up empty stay between them. -/
theorem returns_frames_iff (hsize : ∀ f ∈ frames polls, f.length ≤ maxSizeCombinationBuffer)
    (hcalls : polls.length ≤ reaching calls) (h : EncHandle) :
    (∃ s os, encoder.run (h, polls.map some) calls = some (s, os) ∧
      os.filterMap delivered = (frames polls).map Frame.whole) ↔ BetweenFrames polls := by
  constructor
  · rintro ⟨s, os, hrun, hos⟩
    refine (frames_le_of_run hcalls hrun).2 ?_
    rw [hos, List.length_map]
  · intro hbetween
    exact run_of_betweenFrames hsize hcalls hbetween h

/-- An SPS, a frame in two chunks and, after an empty poll, one in one. -/
theorem returns_frames_iff_two :
    let sps : Chunk := ⟨0x80, [0, 0, 0, 1, 0x67]⟩
    let polls : List Chunk := [sps, ⟨0, [0x65]⟩, ⟨0x10, [7]⟩, ⟨0, []⟩, ⟨0x10, [0x41]⟩]
    let call : Call := ⟨⟨false, true, true⟩, []⟩
    ∃ s os, encoder.run (⟨[], 0, ⟨0, 0, 0, 0, 0, 0, 0, 0⟩⟩, polls.map some)
        [call, call, call, call, call] = some (s, os) ∧
      os.filterMap delivered = [.whole [0, 0, 0, 1, 0x67, 0x65, 7], .whole [0x41]] := by
  refine (returns_frames_iff (by decide) (by decide) _).mpr ?_
  rw [BetweenFrames, Aligned, alignedFrom_cons (by decide), alignedFrom_cons (by decide),
    alignedFrom_cons (by decide), alignedFrom_cons_of_gap (by decide),
    alignedFrom_cons (by decide), alignedFrom_nil]
  decide

/-- An empty poll between the two chunks of a frame: they are returned one
by one. -/
theorem not_returns_frames : ¬ ∀ (h : EncHandle) (polls : List Chunk) (calls : List Call),
    (∀ f ∈ frames polls, f.length ≤ maxSizeCombinationBuffer) →
    polls.length ≤ reaching calls →
    ∃ s os, encoder.run (h, polls.map some) calls = some (s, os) ∧
      os.filterMap delivered = (frames polls).map Frame.whole := by
  intro hall
  let call : Call := ⟨⟨false, true, true⟩, []⟩
  obtain ⟨s, os, hrun, hos⟩ := hall ⟨[], 0, ⟨0, 0, 0, 0, 0, 0, 0, 0⟩⟩
    [⟨0, [0, 0, 0, 1, 0x65]⟩, ⟨0, []⟩, ⟨0x10, [7]⟩] [call, call, call] (by decide) (by decide)
  have hos' : os = [some (.whole [0, 0, 0, 1, 0x65]), some (.whole [7]), some .cleared] :=
    (Prod.mk.inj (Option.some.inj hrun)).2.symm
  rw [hos'] at hos
  exact absurd hos (by decide)

end Omx

end Camkit
