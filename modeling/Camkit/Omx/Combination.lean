import Camkit.Omx.Model.Encode
/-!
# OMX encoder — the combination buffer

What `encode_do` copies to the combination buffer: SPS, PPS and the parts
of a frame, as many as come before the end of the frame or an empty poll.
The buffer has a fixed size and the copies are not checked against it.
-/

namespace Camkit

namespace Omx

variable {c : Chunk} {h : EncHandle} {buf : List UInt8} {fills : List Fill}
variable {submitted : Option (List UInt8)} {call : Call}

/-! ## What a call combines -/

/-- The bytes of some chunks. -/
def bytes (cs : List Chunk) : List UInt8 := cs.flatMap Chunk.data

/-- The fills up to an error, an empty one or, included, one that ends a
frame. -/
def upToFrame : List Fill → List Chunk
  | some c :: fills =>
    if c.isEmpty then [] else if c.endsFrame then [c] else c :: upToFrame fills
  | _ => []

/-- The chunks that a call copies to the combination buffer: none where the
first one is a frame. -/
def combined : List Fill → List Chunk
  | some c :: fills => if c.endsFrame then [] else upToFrame (some c :: fills)
  | _ => []

/-- The call reaches the output port. -/
def Call.reaches (call : Call) : Bool :=
  (!call.env.inputBuffer || call.env.emptyThisBuffer) && call.env.outputBuffer

@[simp]
theorem bytes_cons (c : Chunk) (cs : List Chunk) : bytes (c :: cs) = c.data ++ bytes cs :=
  List.flatMap_cons

/-! ## The copies -/

/-- **The loop stays in the buffer** as long as what it gathers fits behind
what there is. -/
theorem combine_ok_iff (fills : List Fill) (hbuf : buf.length ≤ maxSizeCombinationBuffer) :
    (∃ r, combine buf fills = .ok r) ↔
      buf.length + (bytes (upToFrame fills)).length ≤ maxSizeCombinationBuffer := by
  induction fills generalizing buf with
  | nil => exact ⟨fun _ => hbuf, fun _ => ⟨_, rfl⟩⟩
  | cons fill fills ih =>
    cases fill with
    | none => exact ⟨fun _ => hbuf, fun _ => ⟨_, rfl⟩⟩
    | some c =>
      rw [combine, upToFrame]
      by_cases hempty : c.isEmpty = true
      · rw [if_pos hempty, if_pos hempty]
        exact ⟨fun _ => hbuf, fun _ => ⟨_, rfl⟩⟩
      · rw [if_neg hempty, if_neg hempty, memcpyCombination]
        by_cases hfits : buf.length + c.data.length ≤ maxSizeCombinationBuffer
        · rw [if_pos hfits]
          by_cases hends : c.endsFrame = true
          · simp only [if_pos hends, bytes_cons, List.length_append]
            exact ⟨fun _ => hfits, fun _ => ⟨_, rfl⟩⟩
          · simp only [if_neg hends, bytes_cons, List.length_append]
            rw [ih (by rw [List.length_append]; omega), List.length_append, Nat.add_assoc]
        · rw [if_neg hfits]
          refine ⟨fun ⟨r, hr⟩ => absurd hr (by simp), fun hle => absurd ?_ hfits⟩
          split at hle
          · simp only [bytes_cons, List.length_append] at hle
            omega
          · simp only [bytes_cons, List.length_append] at hle
            omega

/-- A chunk that is neither the end of a frame nor empty. -/
structure Chunk.Part (c : Chunk) : Prop where
  not_empty : c.isEmpty = false
  not_end : c.endsFrame = false

/-- What a call makes of the end of the loop. -/
def endOfLoop (h : EncHandle) (submitted : Option (List UInt8)) :
    List UInt8 × Bool × List Fill → DoResult
  | (buf, false, fills) => ⟨{ h with combination := buf }, submitted, none, fills⟩
  | (buf, true, fills) =>
    ⟨⟨buf, h.frameCounter + 1, h.params⟩, submitted, some (.whole buf), fills⟩

/-- The first part goes through the loop as the others do, from an empty
buffer. -/
theorem takeOutput_of_part (hc : c.Part) (h : EncHandle) (submitted : Option (List UInt8))
    (fills : List Fill) : takeOutput h submitted (some c :: fills) =
      (combine [] (some c :: fills)).map (endOfLoop h submitted) := by
  have hempty : ¬ c.isEmpty = true := by simp [hc.not_empty]
  have hends : ¬ c.endsFrame = true := by simp [hc.not_end]
  rw [takeOutput, if_neg hempty, if_neg hends, combine, if_neg hempty]
  cases memcpyCombination [] c.data with
  | error e => rfl
  | ok buf =>
    simp only [if_neg hends]
    cases combine buf fills with
    | error e => rfl
    | ok r =>
      obtain ⟨buf, ended, fills⟩ := r
      cases ended with
      | false => rfl
      | true => rfl

/-- **A call stays in the buffer** exactly when what it combines fits. -/
theorem takeOutput_ok_iff : (∃ r, takeOutput h submitted fills = .ok r) ↔
    (bytes (combined fills)).length ≤ maxSizeCombinationBuffer := by
  match fills with
  | [] => exact ⟨fun _ => Nat.zero_le _, fun _ => ⟨_, rfl⟩⟩
  | none :: fills => exact ⟨fun _ => Nat.zero_le _, fun _ => ⟨_, rfl⟩⟩
  | some c :: fills =>
    rw [combined]
    cases hends : c.endsFrame with
    | true =>
      rw [if_pos rfl, takeOutput, if_pos hends]
      refine ⟨fun _ => Nat.zero_le _, fun _ => ?_⟩
      split
      · exact ⟨_, rfl⟩
      · exact ⟨_, rfl⟩
    | false =>
      rw [if_neg (by decide)]
      cases hempty : c.isEmpty with
      | true =>
        rw [takeOutput, if_pos hempty, upToFrame, if_pos hempty]
        exact ⟨fun _ => Nat.zero_le _, fun _ => ⟨_, rfl⟩⟩
      | false =>
        have hnil : ([] : List UInt8).length ≤ maxSizeCombinationBuffer := Nat.zero_le _
        have hloop := combine_ok_iff (some c :: fills) hnil
        rw [List.length_nil, Nat.zero_add] at hloop
        rw [← hloop, takeOutput_of_part ⟨hempty, hends⟩]
        cases combine [] (some c :: fills) with
        | error e =>
          exact ⟨fun ⟨r, hr⟩ => absurd hr (by simp [Except.map]), fun ⟨r, hr⟩ =>
            absurd hr (by simp)⟩
        | ok r => exact ⟨fun _ => ⟨r, rfl⟩, fun _ => ⟨_, rfl⟩⟩

theorem encodeDo_of_reaches (hreach : call.reaches = true) :
    encodeDo call.env h call.ibuf fills =
      takeOutput h (if call.env.inputBuffer then some call.ibuf else none) fills := by
  rw [Call.reaches, Bool.and_eq_true, Bool.or_eq_true, Bool.not_eq_true'] at hreach
  obtain ⟨hinput, houtput⟩ := hreach
  rw [encodeDo, if_neg, if_neg]
  · rw [houtput]
    decide
  · rw [Bool.and_eq_true, Bool.not_eq_true']
    rintro ⟨hbuf, hempty⟩
    rcases hinput with hinput | hinput
    · exact absurd (hinput.symm.trans hbuf) (by decide)
    · exact absurd (hinput.symm.trans hempty) (by decide)

/-- A call that does not get to the output port changes nothing. -/
theorem encodeDo_of_not_reaches (hreach : call.reaches = false) :
    encodeDo call.env h call.ibuf fills =
      .ok ⟨h, if call.env.inputBuffer then some call.ibuf else none, none, fills⟩ := by
  rw [Call.reaches, Bool.and_eq_false_iff, Bool.or_eq_false_iff, Bool.not_eq_false'] at hreach
  rw [encodeDo]
  split
  · rfl
  · next hinput =>
    rw [if_pos]
    rcases hreach with ⟨hbuf, hempty⟩ | houtput
    · exact absurd (by rw [hbuf, hempty]; rfl) hinput
    · rw [houtput]
      rfl

/-- **The combination buffer is not overrun** exactly when the chunks a call
combines fit in it. Nothing in the code sees to it. -/
theorem combination_inBounds_iff (call : Call) (h : EncHandle) (fills : List Fill) :
    encodeDo call.env h call.ibuf fills ≠ .error .overrun ↔
      (call.reaches = true → (bytes (combined fills)).length ≤ maxSizeCombinationBuffer) := by
  cases hreach : call.reaches with
  | false =>
    rw [encodeDo_of_not_reaches hreach]
    exact ⟨fun _ h => absurd h (by decide), fun _ => by simp⟩
  | true =>
    rw [encodeDo_of_reaches hreach, ← takeOutput_ok_iff]
    constructor
    · intro hne _
      cases hout : takeOutput h (if call.env.inputBuffer then some call.ibuf else none) fills with
      | error e =>
        cases e
        exact absurd hout hne
      | ok r => exact ⟨r, rfl⟩
    · intro hok herr
      obtain ⟨r, hr⟩ := hok rfl
      exact absurd (hr.symm.trans herr) (by simp)

/-- Three parts of 64 KiB overrun it. -/
theorem not_combination_inBounds : ¬ ∀ (call : Call) (h : EncHandle) (fills : List Fill),
    encodeDo call.env h call.ibuf fills ≠ .error .overrun := by
  intro hall
  let part : Chunk := ⟨0, List.replicate 65536 1⟩
  let call : Call := ⟨⟨true, true, true⟩, []⟩
  refine hall call ⟨[], 0, ⟨0, 0, 0, 0, 0, 0, 0, 0⟩⟩ [some part, some part, some part] ?_
  have hempty : part.isEmpty = false := rfl
  have hends : part.endsFrame = false := by decide
  have hlen : part.data.length = 65536 := List.length_replicate
  rw [encodeDo_of_reaches rfl]
  cases hout : takeOutput _ _ [some part, some part, some part] with
  | error e => cases e; rfl
  | ok r =>
    have hle := takeOutput_ok_iff.mp ⟨r, hout⟩
    simp only [combined, upToFrame, hempty, hends, bytes_cons, List.length_append, hlen,
      Bool.false_eq_true, if_false] at hle
    rw [maxSizeCombinationBuffer] at hle
    omega

end Omx

end Camkit
