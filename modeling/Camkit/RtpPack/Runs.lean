import Camkit.RtpPack.Drain
import Camkit.RtpPack.Model.Calls
/-!
# RTP packetiser — runs of calls

Call by call the handle stays where the sender is, so a run of the code is
a run of the sender and its packets are the sender's in their wire form.
What is true of the sender's runs is then true of the code's: none faults
with fragments that fit, the sequence numbers have no gap, and a 0 is
returned until the next buffer comes.
-/

namespace Camkit

namespace RtpPack

variable {T : Target} {h h' h₀ : PacHandle} {s s' : Sender} {ssrc : Int32} {c : Call}
variable {cs : List Call} {params : PacParam} {tb : Timeb} {inbuf : Ptr} {isize : ℤ}

/-! ## The run refinement -/

theorem simulates_put (hs : Simulates s h) :
    Simulates (s.put inbuf isize) (packPut h inbuf isize) :=
  ⟨⟨rfl, rfl, hs.1.maxPktLen, hs.1.ssrc, hs.1.start, hs.1.seqNum⟩, rfl, rfl, rfl⟩

/-- **A call of the code is a call of the sender.** -/
theorem calls_step {r : Reply (List UInt8)} (hs : Simulates s h) (hssrc : s.session.ssrc = ssrc)
    (hstep : (calls T).step h c = some (h', r)) :
    ∃ s' r', (senderCalls T).step s c = some (s', r') ∧
      (Simulates s' h' ∧ s'.session.ssrc = ssrc) ∧ r = r'.map (encode T ssrc.toUInt32) := by
  cases c with
  | put inbuf isize =>
    obtain ⟨rfl, rfl⟩ := Prod.mk.inj (Option.some.inj hstep)
    exact ⟨s.put inbuf isize, .void, rfl, ⟨simulates_put hs, hssrc⟩, rfl⟩
  | get mem tb =>
    have hmatch : Matches T s.session s.seq (packGet T mem tb h) _ :=
      packGet_refines hs.1 hs.2
    simp only [calls] at hstep
    simp only [senderCalls]
    generalize packGet T mem tb h = code at hmatch hstep
    generalize s.session.get T mem tb s.seq s.phase = sender at hmatch ⊢
    cases hmatch with
    | fault f => exact absurd hstep (by simp)
    | zero runs phase =>
      obtain ⟨rfl, rfl⟩ := Prod.mk.inj (Option.some.inj hstep)
      exact ⟨_, _, rfl, ⟨⟨runs, phase⟩, hssrc⟩, rfl⟩
    | sent runs phase wire hseq hts =>
      obtain ⟨rfl, rfl⟩ := Prod.mk.inj (Option.some.inj hstep)
      refine ⟨_, _, rfl, ⟨⟨runs, phase⟩, hssrc⟩, ?_⟩
      rw [wire, hssrc]
      rfl

theorem packets_map {α β : Type*} (f : α → β) (rs : List (Reply α)) :
    packets (rs.map (Reply.map f)) = (packets rs).map f := by
  induction rs with
  | nil => rfl
  | cons r rs ih =>
    cases r with
    | void => exact ih
    | zero => exact ih
    | packet p => exact congrArg (f p :: ·) ih

theorem reply_map_zero {α β : Type*} {f : α → β} {r : Reply α} (hr : r.map f = .zero) :
    r = .zero := by
  cases r with
  | void => exact absurd hr (by simp [Reply.map])
  | zero => rfl
  | packet p => exact absurd hr (by simp [Reply.map])

/-- **A run of the code is a run of the sender**, and its replies are the
sender's with the packets in their wire form. -/
theorem calls_run {rs : List (Reply (List UInt8))} (hs : Simulates s h)
    (hssrc : s.session.ssrc = ssrc) (hrun : (calls T).run h cs = some (h', rs)) :
    ∃ s' rs', (senderCalls T).run s cs = some (s', rs') ∧ Simulates s' h' ∧
      s'.session.ssrc = ssrc ∧ rs = rs'.map (Reply.map (encode T ssrc.toUInt32)) := by
  obtain ⟨s', rs', hrun', ⟨hs', hssrc'⟩, hrs⟩ :=
    Machine.run_simulation (B := senderCalls T)
      (R := fun h s => Simulates s h ∧ s.session.ssrc = ssrc)
      (Q := fun r r' => r = r'.map (encode T ssrc.toUInt32))
      (fun h s c h' r hR hstep => calls_step hR.1 hR.2 hstep) ⟨hs, hssrc⟩ hrun
  refine ⟨s', rs', hrun', hs', hssrc', ?_⟩
  clear hrun hrun'
  induction hrs with
  | nil => rfl
  | cons hr hrs ih => rw [hr, ih, List.map_cons]

/-- A handle just opened and given a buffer is at the sender's start. -/
theorem simulates_firstSender {mallocHandle : Bool} {mallocOutbuf : Option Mem}
    (hM : 0 < params.maxPktLen.toNat)
    (hopen : packOpen params mallocHandle mallocOutbuf tb = some h₀) :
    Simulates (firstSender params tb inbuf isize hM) (packPut h₀ inbuf isize) := by
  unfold packOpen at hopen
  split at hopen
  · split at hopen
    · exact absurd hopen (by simp)
    · obtain rfl := Option.some.inj hopen
      exact ⟨⟨rfl, rfl, by change params.maxPktLen = _; simp only [firstSender]; omega, rfl, rfl,
        rfl⟩, rfl, rfl, rfl⟩
  · exact absurd hopen (by simp)

/-! ## What the sender does in one call -/

variable {t : Session} {mem : Mem} {seq : UInt16} {ph ph' : Phase} {p : Packet}

/-- **One call of the sender** aborts, with fragments that do not fit, or
finds nothing and is done, or sends a packet with the next sequence number
and the phase's timestamp. -/
theorem get_cases (t : Session) (T : Target) (mem : Mem) (tb : Timeb) (seq : UInt16) (ph : Phase) :
    (t.get T mem tb seq ph = .error .abort ∧ 10226 < t.maxPktLen) ∨
      t.get T mem tb seq ph = .ok (.done, none) ∨
      ∃ ph' p, t.get T mem tb seq ph = .ok (ph', some p) ∧ ph ≠ .done ∧ p.seq = seq ∧
        p.ts = ph.stamp T t.start tb := by
  cases ph with
  | done => exact Or.inr (Or.inl rfl)
  | fragment next hdr addr left ts =>
    refine Or.inr (Or.inr ⟨_, _, rfl, by simp, ?_⟩)
    unfold Session.sendFragment
    split
    · exact ⟨rfl, rfl⟩
    · exact ⟨rfl, rfl⟩
  | unit next =>
    cases next with
    | none => exact Or.inr (Or.inl rfl)
    | some q =>
      rw [Session.get]
      by_cases hk : startCodeLen mem q = 0
      · exact Or.inr (Or.inl (if_pos hk))
      · rw [if_neg hk]
        simp only [Session.sendUnit]
        split
        · rename_i hbig
          refine Or.inl ⟨rfl, ?_⟩
          by_contra hfit
          exact not_tooBig (by omega) hbig
        · split
          · exact Or.inr (Or.inr ⟨_, _, rfl, by simp, rfl, rfl⟩)
          · exact Or.inr (Or.inr ⟨_, _, rfl, by simp, rfl, rfl⟩)

/-- **One call on the sender**, whichever it is. -/
theorem senderCalls_step {r : Reply Packet} (hstep : (senderCalls T).step s c = some (s', r)) :
    (∃ inbuf isize, c = .put inbuf isize ∧ s' = s.put inbuf isize ∧ r = .void) ∨
      (c.IsGet ∧ s' = { s with phase := .done } ∧ r = .zero) ∨
      (∃ mem tb ph p, c = .get mem tb ∧ s' = ⟨s.session, ph, s.seq + 1⟩ ∧ r = .packet p ∧
        s.phase ≠ .done ∧ p.seq = s.seq ∧ p.ts = s.phase.stamp T s.session.start tb) := by
  cases c with
  | put inbuf isize =>
    obtain ⟨rfl, rfl⟩ := Prod.mk.inj (Option.some.inj hstep)
    exact Or.inl ⟨inbuf, isize, rfl, rfl, rfl⟩
  | get mem tb =>
    simp only [senderCalls] at hstep
    rcases get_cases s.session T mem tb s.seq s.phase with ⟨hget, -⟩ | hget | hget
    · rw [hget] at hstep
      exact absurd hstep (by simp)
    · rw [hget] at hstep
      obtain ⟨rfl, rfl⟩ := Prod.mk.inj (Option.some.inj hstep)
      exact Or.inr (Or.inl ⟨trivial, rfl, rfl⟩)
    · obtain ⟨ph, p, hget, hne, hseq, hts⟩ := hget
      rw [hget] at hstep
      obtain ⟨rfl, rfl⟩ := Prod.mk.inj (Option.some.inj hstep)
      exact Or.inr (Or.inr ⟨mem, tb, ph, p, rfl, rfl, rfl, hne, hseq, hts⟩)

/-- Buffers come and go, and the rest of the session stays. -/
theorem session_of_run {rs : List (Reply Packet)}
    (hrun : (senderCalls T).run s cs = some (s', rs)) :
    s'.session.ssrc = s.session.ssrc ∧ s'.session.start = s.session.start ∧
      s'.session.maxPktLen = s.session.maxPktLen := by
  refine Machine.run_invariant (I := fun s' => s'.session.ssrc = s.session.ssrc ∧
    s'.session.start = s.session.start ∧ s'.session.maxPktLen = s.session.maxPktLen)
    ⟨rfl, rfl, rfl⟩ ?_ hrun
  intro s₁ c s₂ r hI hstep
  rcases senderCalls_step hstep with ⟨_, _, -, rfl, -⟩ | ⟨-, rfl, -⟩ | ⟨_, _, _, _, -, rfl, -⟩
  · exact hI
  · exact hI
  · exact hI

/-- What stays true of a handle all its life: it is where some sender is,
with fragments that fit. -/
def Fits (h : PacHandle) : Prop := ∃ s, Simulates s h ∧ s.session.maxPktLen ≤ 10226

/-- **No call faults** on a handle whose fragments fit, and they fit for
ever. -/
theorem calls_fits (hfits : Fits h) (c : Call) :
    ∃ h' r, (calls T).step h c = some (h', r) ∧ Fits h' := by
  obtain ⟨s, hs, hfit⟩ := hfits
  cases c with
  | put inbuf isize => exact ⟨_, _, rfl, s.put inbuf isize, simulates_put hs, hfit⟩
  | get mem tb =>
    have hmatch : Matches T s.session s.seq (packGet T mem tb h) _ := packGet_refines hs.1 hs.2
    simp only [calls]
    generalize packGet T mem tb h = code at hmatch ⊢
    generalize hsender : s.session.get T mem tb s.seq s.phase = sender at hmatch
    cases hmatch with
    | fault f =>
      rcases get_cases s.session T mem tb s.seq s.phase with ⟨-, hgt⟩ | hget | ⟨_, _, hget, -⟩
      · omega
      · rw [hget] at hsender
        exact absurd hsender (by simp)
      · rw [hget] at hsender
        exact absurd hsender (by simp)
    | @zero h' ph runs phase => exact ⟨_, _, rfl, ⟨s.session, ph, s.seq⟩, ⟨runs, phase⟩, hfit⟩
    | @sent h' ph _ _ runs phase wire hseq hts =>
      exact ⟨_, _, rfl, ⟨s.session, ph, s.seq + 1⟩, ⟨runs, phase⟩, hfit⟩

/-! ## Sequence numbers -/

variable {α : Type*} {rs : List (Reply α)}

@[simp] theorem packets_concat_void : packets (rs ++ [.void]) = packets rs := by
  rw [packets, List.filterMap_append]
  exact List.append_nil _

@[simp] theorem packets_concat_zero : packets (rs ++ [.zero]) = packets rs := by
  rw [packets, List.filterMap_append]
  exact List.append_nil _

@[simp] theorem packets_concat_packet {p : α} :
    packets (rs ++ [.packet p]) = packets rs ++ [p] := List.filterMap_append

/-- **The sender numbers its packets without a gap.** -/
theorem sender_numbers {rs : List (Reply Packet)}
    (hrun : (senderCalls T).run s cs = some (s', rs)) :
    s'.seq = s.seq + UInt16.ofNat (packets rs).length ∧
      ∀ i p, (packets rs)[i]? = some p → p.seq = s.seq + UInt16.ofNat i := by
  refine Machine.run_induction (I := fun _ rs s' => s'.seq = s.seq + UInt16.ofNat
    (packets rs).length ∧ ∀ i p, (packets rs)[i]? = some p → p.seq = s.seq + UInt16.ofNat i)
    ?_ ?_ hrun
  · refine ⟨(UInt16.add_zero _).symm, ?_⟩
    intro i p hp
    exact absurd hp (by simp [packets])
  · rintro cs rs s₁ c s₂ r ⟨hseq, hnum⟩ hstep
    rcases senderCalls_step hstep with ⟨_, _, rfl, rfl, rfl⟩ | ⟨-, rfl, rfl⟩ |
      ⟨_, _, _, p, rfl, rfl, rfl, -, hp, -⟩
    · rw [packets_concat_void]
      exact ⟨hseq, hnum⟩
    · rw [packets_concat_zero]
      exact ⟨hseq, hnum⟩
    · rw [packets_concat_packet]
      refine ⟨?_, ?_⟩
      · rw [List.length_append, List.length_singleton, UInt16.ofNat_add, ← UInt16.add_assoc,
          ← hseq]
        rfl
      · intro i p' hi
        rcases Nat.lt_or_ge i (packets rs).length with hlt | hge
        · rw [List.getElem?_append_left hlt] at hi
          exact hnum i p' hi
        · rw [List.getElem?_append_right hge] at hi
          obtain ⟨h0, hi⟩ := List.getElem?_eq_some_iff.mp hi
          rw [List.length_singleton] at h0
          obtain rfl : i = (packets rs).length := by omega
          rw [List.getElem_singleton] at hi
          rw [← hi, hp, hseq]

/-! ## After a 0 -/

/-- What a history with a 0 in it says: with no buffer since, the sender
is done, and has sent nothing but 0. -/
structure ZeroHistory (cs : List Call) (rs : List (Reply Packet)) (s : Sender) : Prop where
  length : rs.length = cs.length
  done : ∀ i, rs[i]? = some .zero → GetsAfter cs i cs.length → s.phase = .done
  zero : ∀ i j, i ≤ j → rs[i]? = some .zero → GetsAfter cs i j → ∀ r, rs[j]? = some r → r = .zero

/-- Calls that come later do not matter. -/
theorem getsAfter_of_concat {i j k : ℕ} (hj : k ≤ j) (hgets : GetsAfter (cs ++ [c]) i j) :
    GetsAfter cs i k := by
  intro n h₁ h₂ c' hc'
  refine hgets n h₁ (h₂.trans hj) c' ?_
  rw [List.getElem?_append_left (List.getElem?_eq_some_iff.mp hc').1, hc']

/-- The reply to one call more, after a 0 with no buffer since. -/
theorem ZeroHistory.last {rs : List (Reply Packet)} {r : Reply Packet} (hI : ZeroHistory cs rs s)
    (hstep : (senderCalls T).step s c = some (s', r)) {i j : ℕ} (hi : i ≤ rs.length)
    (hz : (rs ++ [r])[i]? = some .zero) (hj : cs.length ≤ j)
    (hgets : GetsAfter (cs ++ [c]) i j) : r = .zero ∧ s'.phase = .done := by
  rcases eq_or_lt_of_le hi with rfl | hlt
  · -- this call is the one that returned 0
    rw [List.getElem?_concat_length, Option.some.injEq] at hz
    subst hz
    rcases senderCalls_step hstep with ⟨_, _, -, -, hr⟩ | ⟨-, rfl, -⟩ | ⟨_, _, _, _, -, -, hr, -⟩
    · exact absurd hr (by simp)
    · exact ⟨rfl, rfl⟩
    · exact absurd hr (by simp)
  · rw [List.getElem?_append_left hlt] at hz
    -- the 0 is an older one, and this call asks a sender that is done
    have hphase := hI.done i hz (getsAfter_of_concat hj hgets)
    have hget : c.IsGet :=
      hgets cs.length (by rw [← hI.length]; exact hlt) hj c List.getElem?_concat_length
    rcases senderCalls_step hstep with ⟨_, _, rfl, -, -⟩ | ⟨-, rfl, rfl⟩ |
      ⟨_, _, _, _, -, -, -, hne, -⟩
    · exact absurd hget id
    · exact ⟨rfl, rfl⟩
    · exact absurd hphase hne

theorem ZeroHistory.step {rs : List (Reply Packet)} {r : Reply Packet} (hI : ZeroHistory cs rs s)
    (hstep : (senderCalls T).step s c = some (s', r)) : ZeroHistory (cs ++ [c]) (rs ++ [r]) s' := by
  have hle : ∀ i x, (rs ++ [r])[i]? = some x → i ≤ rs.length := by
    intro i x hx
    have := (List.getElem?_eq_some_iff.mp hx).1
    rw [List.length_append, List.length_singleton] at this
    omega
  refine ⟨by simp [hI.length], ?_, ?_⟩
  · intro i hz hgets
    exact (hI.last hstep (hle i _ hz) hz (by simp) hgets).2
  · intro i j hij hz hgets r' hr'
    rcases eq_or_lt_of_le (hle j _ hr') with rfl | hlt
    · rw [List.getElem?_concat_length, Option.some.injEq] at hr'
      rw [← hr']
      exact (hI.last hstep (hle i _ hz) hz hI.length.ge hgets).1
    · rw [List.getElem?_append_left (by omega)] at hz
      rw [List.getElem?_append_left hlt] at hr'
      exact hI.zero i j hij hz (getsAfter_of_concat le_rfl hgets) r' hr'

/-- **A sender that has sent 0 is done** until it is given a buffer, and
sends 0 to every call till then. -/
theorem zeroHistory_of_run {rs : List (Reply Packet)}
    (hrun : (senderCalls T).run s cs = some (s', rs)) : ZeroHistory cs rs s' := by
  refine Machine.run_induction (I := ZeroHistory) ⟨rfl, ?_, ?_⟩ ?_ hrun
  · intro i hi
    exact absurd hi (by simp)
  · intro i j _ hi
    exact absurd hi (by simp)
  · intro cs rs s₁ c s₂ r hI hstep
    exact hI.step hstep

/-! ## A handle's whole life -/

/-- The sender of a handle some calls after its first buffer, with what
the handle was opened with. -/
theorem simulates_of_run {mallocHandle : Bool} {mallocOutbuf : Option Mem}
    {rs : List (Reply (List UInt8))} (hM : 1 ≤ params.maxPktLen)
    (hopen : packOpen params mallocHandle mallocOutbuf tb = some h₀)
    (hrun : (calls T).run h₀ (.put inbuf isize :: cs) = some (h, rs)) :
    ∃ s rs', (senderCalls T).run (firstSender params tb inbuf isize (by omega)) cs =
        some (s, rs') ∧ Simulates s h ∧ s.session.ssrc = params.ssrc ∧
      s.session.start = getCurrentMillisec tb := by
  obtain ⟨h₁, r, rs, hput, hrest, rfl⟩ := Machine.run_cons.mp hrun
  obtain ⟨rfl, -⟩ := Prod.mk.inj (Option.some.inj hput)
  obtain ⟨s, rs', hsent, hs, hssrc, -⟩ :=
    calls_run (simulates_firstSender (by omega) hopen) rfl hrest
  exact ⟨s, rs', hsent, hs, hssrc, (session_of_run hsent).2.1⟩

/-- **Sequence numbers have no gap over a handle's whole life.** From
`pack_open` and a first buffer on, no call faults, whatever the calls and
their order; the packet number `i` carries `i` modulo `2^16`, the handle's
counter is the number of packets sent, and after a 0 every `pack_get`
returns 0 until there is another buffer. -/
theorem calls_gapless {mallocHandle : Bool} {mallocOutbuf : Option Mem}
    (hM : 1 ≤ params.maxPktLen) (hM' : params.maxPktLen ≤ 10226)
    (hopen : packOpen params mallocHandle mallocOutbuf tb = some h₀) (cs : List Call) :
    ∃ h rs, (calls T).run h₀ (.put inbuf isize :: cs) = some (h, rs) ∧
      (∀ i pkt, (packets rs)[i]? = some pkt →
        ∃ hdr, decodeHeader pkt = some hdr ∧ hdr.seq = i % 65536) ∧
      h.seqNum = UInt16.ofNat (packets rs).length ∧
      ∀ i j, i ≤ j → rs[i]? = some .zero → GetsAfter (.put inbuf isize :: cs) i j →
        ∀ r, rs[j]? = some r → r = .zero := by
  have hpos : 0 < params.maxPktLen.toNat := by omega
  have hs : Simulates (firstSender params tb inbuf isize hpos) (packPut h₀ inbuf isize) :=
    simulates_firstSender hpos hopen
  have hfit : (firstSender params tb inbuf isize hpos).session.maxPktLen ≤ 10226 := by
    change params.maxPktLen.toNat ≤ 10226
    omega
  obtain ⟨h, rs, hrun, -⟩ :=
    Machine.run_exists (A := calls T) (I := Fits) (fun _ c hf => calls_fits hf c) ⟨_, hs, hfit⟩ cs
  obtain ⟨s', rs', hrun', hs', hssrc, rfl⟩ := calls_run hs rfl hrun
  obtain ⟨hseq, hnum⟩ := sender_numbers hrun'
  have hzero := (zeroHistory_of_run hrun').zero
  refine ⟨h, _, Machine.run_cons.mpr ⟨_, _, _, rfl, hrun, rfl⟩, ?_, ?_, ?_⟩
  · intro i pkt hpkt
    change (packets (rs'.map _))[i]? = some pkt at hpkt
    rw [packets_map, List.getElem?_map] at hpkt
    obtain ⟨p, hp, rfl⟩ := Option.map_eq_some_iff.mp hpkt
    refine ⟨_, decodeHeader_encode p, ?_⟩
    change p.seq.toNat = i % 65536
    rw [hnum i p hp]
    change ((0 : UInt16) + UInt16.ofNat i).toNat = i % 65536
    rw [UInt16.zero_add]
    exact UInt16.toNat_ofNat'
  · change h.seqNum = UInt16.ofNat (packets (rs'.map _)).length
    rw [packets_map, List.length_map, hs'.1.seqNum, hseq]
    exact UInt16.zero_add _
  · intro i j hij hz hgets r hr
    -- the first call is the `pack_put`, so every index is one further on
    cases i with
    | zero => exact absurd hz (by simp)
    | succ i =>
      obtain ⟨j, rfl⟩ : ∃ k, j = k + 1 := ⟨j - 1, by omega⟩
      rw [List.getElem?_cons_succ, List.getElem?_map] at hz hr
      obtain ⟨z, hz, hz'⟩ := Option.map_eq_some_iff.mp hz
      obtain ⟨r', hr', rfl⟩ := Option.map_eq_some_iff.mp hr
      obtain rfl := reply_map_zero hz'
      have hgets' : GetsAfter cs i j := fun k h₁ h₂ c hc =>
        hgets (k + 1) (by omega) (by omega) c hc
      rw [hzero i j (by omega) hz hgets' r' hr']
      rfl

/-- A unit left in its middle for another buffer, and that one drained. -/
theorem calls_gapless_abandoned :
    let mem := Mem.holding 0 [0, 0, 1, 0x65, 1, 2, 3, 4, 0, 0, 1, 0x41, 7]
    let cs : List Call := [.get mem ⟨2, 0⟩, .put (some 8) 5, .get mem ⟨2, 1⟩, .get mem ⟨2, 2⟩,
      .get mem ⟨2, 3⟩]
    ∃ h rs, (calls ⟨.ilp32, fun _ => 0⟩).run (openedHandle ⟨2, 10⟩ (Mem.holding 0 []) ⟨1, 500⟩)
        (.put (some 0) 13 :: cs) = some (h, rs) ∧
      (∀ i pkt, (packets rs)[i]? = some pkt →
        ∃ hdr, decodeHeader pkt = some hdr ∧ hdr.seq = i % 65536) ∧
      h.seqNum = UInt16.ofNat (packets rs).length ∧
      ∀ i j, i ≤ j → rs[i]? = some .zero → GetsAfter (.put (some 0) 13 :: cs) i j →
        ∀ r, rs[j]? = some r → r = .zero := by
  have hopen : packOpen ⟨2, 10⟩ true (some (Mem.holding 0 [])) ⟨1, 500⟩ =
      some (openedHandle ⟨2, 10⟩ (Mem.holding 0 []) ⟨1, 500⟩) := rfl
  exact calls_gapless (by decide) (by decide) hopen _

end RtpPack

end Camkit
