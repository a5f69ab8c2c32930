import Camkit.RtpPack.Runs
/-!
# RTP packetiser — the header on the wire

`rtp_header` declares its timestamp and SSRC as `unsigned long`. With four
bytes they are where RFC 3550 has them. With eight the timestamp is stored
at offset 8 and the SSRC under the payload, so a receiver reads zero for
the timestamp and the timestamp for the SSRC: right only where both are
zero.
-/

namespace Camkit

namespace RtpPack

variable {T : Target} {h h' h₀ : PacHandle} {s : Sender} {mem : Mem} {tb tb₀ : Timeb}
variable {params : PacParam} {inbuf : Ptr} {isize outsize : ℤ} {cs : List Call}
variable {d d' : DataModel} {f : ℕ → UInt32}

/-- A packet has the header it should: the fixed fields, the sequence
number the handle was at, and the handle's timestamp and SSRC. -/
def HeaderOk (h h' : PacHandle) (pkt : List UInt8) : Prop :=
  ∃ hdr, decodeHeader pkt = some hdr ∧ hdr.version = 2 ∧ hdr.padding = 0 ∧ hdr.extension = 0 ∧
    hdr.csrcCount = 0 ∧ hdr.payloadType = 96 ∧ hdr.seq = h.seqNum.toNat ∧
    hdr.timestamp = h'.tsCurrentSample.toNat ∧ hdr.ssrc = h.params.ssrc.toUInt32.toNat

/-- The timestamp the next packet is given: the unit's own inside a unit,
and a new one between two. -/
def nextStamp (T : Target) (tb : Timeb) (h : PacHandle) : UInt32 :=
  if h.naluComplete then sampleOf T h.tsStartMillisec tb else h.tsCurrentSample

/-! ## One packet -/

theorem nextStamp_of_simulates (hs : Simulates s h) (hne : s.phase ≠ .done) :
    nextStamp T tb h = s.phase.stamp T s.session.start tb := by
  obtain ⟨hr, hp⟩ := hs
  unfold nextStamp
  cases hph : s.phase with
  | done => exact absurd hph hne
  | unit next =>
    rw [hph] at hp
    rw [if_pos hp.2.1, hr.start]
    rfl
  | fragment next hdr addr left ts =>
    rw [hph] at hp
    rw [if_neg (by rw [hp.inside]; decide), hp.ts]
    rfl

/-- **The packet a call returns**, in terms of the handle before it. -/
theorem packet_of_packGet (hs : Simulates s h)
    (hget : packGet T mem tb h = .ok (h', some outsize)) :
    ∃ ph p, s.session.get T mem tb s.seq s.phase = .ok (ph, some p) ∧
      h'.packet outsize = encode T s.session.ssrc.toUInt32 p ∧ p.seq = h.seqNum ∧
      h'.tsCurrentSample = p.ts ∧ p.ts = nextStamp T tb h := by
  have hmatch : Matches T s.session s.seq (packGet T mem tb h) _ := packGet_refines hs.1 hs.2
  rw [hget] at hmatch
  rcases get_cases s.session T mem tb s.seq s.phase with ⟨hsend, -⟩ | hsend |
    ⟨ph, p, hsend, hne, hseq, hts⟩
  · rw [hsend] at hmatch
    cases hmatch
  · rw [hsend] at hmatch
    cases hmatch
  · rw [hsend] at hmatch
    cases hmatch with
    | sent runs phase wire hseq' hts' =>
      exact ⟨ph, p, hsend, wire, by rw [hseq, hs.1.seqNum], hts',
        by rw [hts, nextStamp_of_simulates hs hne]⟩

theorem toUInt32_eq_zero {ssrc : Int32} : ssrc.toUInt32 = 0 ↔ ssrc = 0 := by
  constructor
  · intro hz
    cases ssrc
    exact congrArg Int32.ofUInt32 hz
  · rintro rfl
    rfl

/-- What a receiver reads is what was meant. -/
theorem read_iff {ts ssrc : UInt32} :
    (readTimestamp T ts = ts.toNat ∧ readSsrc T ts ssrc = ssrc.toNat) ↔
      T.dataModel = .ilp32 ∨ (ssrc = 0 ∧ ts = 0) := by
  unfold readTimestamp readSsrc
  cases T.dataModel with
  | ilp32 => exact ⟨fun _ => Or.inl rfl, fun _ => ⟨rfl, rfl⟩⟩
  | lp64 =>
    constructor
    · rintro ⟨hts, hssrc⟩
      have hz : ts = 0 := UInt32.toNat_inj.mp hts.symm
      subst hz
      exact Or.inr ⟨UInt32.toNat_inj.mp hssrc.symm, rfl⟩
    · rintro (hd | ⟨rfl, rfl⟩)
      · exact absurd hd (by decide)
      · exact ⟨rfl, rfl⟩

/-- Two data models write one packet alike where the stamp is zero, and
nowhere else. -/
theorem encode_eq_iff {ssrc : UInt32} {p : Packet} :
    encode ⟨d, f⟩ ssrc p = encode ⟨d', f⟩ ssrc p ↔ d = d' ∨ (ssrc = 0 ∧ p.ts = 0) := by
  constructor
  · intro heq
    have hdec := congrArg decodeHeader heq
    rw [decodeHeader_encode, decodeHeader_encode, Option.some.injEq, RtpHeader.mk.injEq] at hdec
    obtain ⟨-, -, -, -, -, -, -, hts, hssrc⟩ := hdec
    cases d with
    | ilp32 =>
      cases d' with
      | ilp32 => exact Or.inl rfl
      | lp64 =>
        have hread := (read_iff (T := ⟨.lp64, f⟩)).mp ⟨hts.symm, hssrc.symm⟩
        exact Or.inr (hread.resolve_left DataModel.noConfusion)
    | lp64 =>
      cases d' with
      | ilp32 =>
        have hread := (read_iff (T := ⟨.lp64, f⟩)).mp ⟨hts, hssrc⟩
        exact Or.inr (hread.resolve_left DataModel.noConfusion)
      | lp64 => exact Or.inl rfl
  · rintro (rfl | ⟨rfl, hts⟩)
    · rfl
    · unfold encode wireHeader stampBytes
      rw [hts]
      cases d <;> cases d' <;> rfl

/-! ## Every packet of every run -/

/-- The sender asks nothing of the data model. -/
theorem get_dataModel (d d' : DataModel) (t : Session) (seq : UInt16) (ph : Phase) :
    t.get ⟨d, f⟩ mem tb seq ph = t.get ⟨d', f⟩ mem tb seq ph := by
  cases ph with
  | done => rfl
  | fragment next hdr addr left ts => rfl
  | unit next => cases next <;> rfl

theorem senderCalls_dataModel (d d' : DataModel) : senderCalls ⟨d, f⟩ = senderCalls ⟨d', f⟩ := by
  refine congrArg Machine.mk (funext fun s => funext fun c => ?_)
  cases c with
  | put inbuf isize => rfl
  | get mem tb => simp only [get_dataModel d d']

/-- **The header is right exactly with a four-byte `unsigned long`**, or
where SSRC and timestamp are both zero; and exactly then, data models
apart, another target sends the same packet after the same calls. For
every run from `pack_open` and a first buffer on, and the packet the next
call returns. -/
theorem headerOk_iff {mallocHandle : Bool} {mallocOutbuf : Option Mem}
    {rs : List (Reply (List UInt8))} (hM : 1 ≤ params.maxPktLen)
    (hopen : packOpen params mallocHandle mallocOutbuf tb₀ = some h₀)
    (hrun : (calls ⟨d, f⟩).run h₀ (.put inbuf isize :: cs) = some (h, rs))
    (hget : packGet ⟨d, f⟩ mem tb h = .ok (h', some outsize)) :
    (HeaderOk h h' (h'.packet outsize) ↔
        d = .ilp32 ∨ (params.ssrc = 0 ∧ nextStamp ⟨d, f⟩ tb h = 0)) ∧
      ∀ (d' : DataModel) (mallocHandle' : Bool) (mallocOutbuf' : Option Mem) (k₀ k k' : PacHandle)
        (outsize' : ℤ) (rs' : List (Reply (List UInt8))),
        packOpen params mallocHandle' mallocOutbuf' tb₀ = some k₀ →
        (calls ⟨d', f⟩).run k₀ (.put inbuf isize :: cs) = some (k, rs') →
        packGet ⟨d', f⟩ mem tb k = .ok (k', some outsize') →
        (h'.packet outsize = k'.packet outsize' ↔
          d = d' ∨ (params.ssrc = 0 ∧ nextStamp ⟨d, f⟩ tb h = 0)) := by
  obtain ⟨s, rs₁, hsent, hs, hssrc, -⟩ := simulates_of_run hM hopen hrun
  obtain ⟨ph, p, hsend, hpkt, hseq, hts, hstamp⟩ := packet_of_packGet hs hget
  have hparams : h.params.ssrc = params.ssrc := by rw [hs.1.ssrc, hssrc]
  rw [hpkt, hssrc, ← hstamp, ← toUInt32_eq_zero]
  refine ⟨?_, ?_⟩
  · rw [← read_iff (T := ⟨d, f⟩)]
    constructor
    · rintro ⟨hdr, hdec, -, -, -, -, -, -, htime, hid⟩
      rw [decodeHeader_encode, Option.some.injEq] at hdec
      subst hdec
      rw [hts] at htime
      rw [hparams] at hid
      exact ⟨htime, hid⟩
    · rintro ⟨htime, hid⟩
      refine ⟨_, decodeHeader_encode _, rfl, rfl, rfl, rfl, rfl, by rw [← hseq], ?_, ?_⟩
      · rw [hts]
        exact htime
      · rw [hparams]
        exact hid
  · intro d' mallocHandle' mallocOutbuf' k₀ k k' outsize' rs' hopen' hrun' hget'
    -- the other handle is where the same sender is, which sends one packet
    obtain ⟨s', rs₂, hsent', hs', -, -⟩ := simulates_of_run hM hopen' hrun'
    rw [senderCalls_dataModel d' d, hsent, Option.some.injEq, Prod.mk.injEq] at hsent'
    obtain ⟨rfl, -⟩ := hsent'
    obtain ⟨ph', p', hsend', hpkt', -, -, -⟩ := packet_of_packGet hs' hget'
    rw [get_dataModel d' d, hsend, Except.ok.injEq, Prod.mk.injEq, Option.some.injEq] at hsend'
    obtain ⟨-, rfl⟩ := hsend'
    rw [hpkt', hssrc]
    exact encode_eq_iff

/-- What is read off a packet says there is one. -/
theorem exists_packet {β : Type*} {r : Except Fault (PacHandle × Option ℤ)}
    {g : PacHandle → ℤ → β} {b : β}
    (hr : (r.toOption.bind fun x => x.2.map (g x.1)) = some b) :
    ∃ h n, r = .ok (h, some n) ∧ g h n = b := by
  rcases r with f | ⟨h, _ | n⟩
  · exact absurd hr (by simp [Except.toOption])
  · exact absurd hr (by simp [Except.toOption])
  · exact ⟨h, n, rfl, Option.some.inj hr⟩

/-- A unit of two bytes, half a second after the start. -/
theorem headerOk_iff_ilp32 :
    let h := packPut (openedHandle ⟨1400, 10⟩ (Mem.holding 0 []) ⟨1, 500⟩) (some 0) 5
    ∃ h' n, packGet ⟨.ilp32, fun _ => 0⟩ (Mem.holding 0 [0, 0, 1, 0x65, 0x88]) ⟨2, 0⟩ h =
        .ok (h', some n) ∧ HeaderOk h h' (h'.packet n) := by
  intro h
  have hopen : packOpen ⟨1400, 10⟩ true (some (Mem.holding 0 [])) ⟨1, 500⟩ =
      some (openedHandle ⟨1400, 10⟩ (Mem.holding 0 []) ⟨1, 500⟩) := rfl
  have hrun : (calls ⟨.ilp32, fun _ => 0⟩).run (openedHandle ⟨1400, 10⟩ (Mem.holding 0 [])
      ⟨1, 500⟩) [.put (some 0) 5] = some (h, [.void]) := rfl
  have hpkt : ((packGet ⟨.ilp32, fun _ => 0⟩ (Mem.holding 0 [0, 0, 1, 0x65, 0x88]) ⟨2, 0⟩ h
      ).toOption.bind fun x => x.2.map fun n => x.1.packet n) =
      some [0x80, 0xe0, 0, 0, 0, 0, 0xaf, 0xc8, 0, 0, 0, 10, 0x65, 0x88] := by decide +kernel
  obtain ⟨h', n, hget, -⟩ := exists_packet hpkt
  exact ⟨h', n, hget, (headerOk_iff (by decide) hopen hrun hget).1.mpr (Or.inl rfl)⟩

/-- **On an LP64 target the same packet is wrong**: it says timestamp 0
and SSRC 45000. -/
theorem not_headerOk_lp64 :
    let h := packPut (openedHandle ⟨1400, 10⟩ (Mem.holding 0 []) ⟨1, 500⟩) (some 0) 5
    ∃ h' n, packGet ⟨.lp64, fun _ => 0⟩ (Mem.holding 0 [0, 0, 1, 0x65, 0x88]) ⟨2, 0⟩ h =
        .ok (h', some n) ∧ ¬ HeaderOk h h' (h'.packet n) := by
  intro h
  have hpkt : ((packGet ⟨.lp64, fun _ => 0⟩ (Mem.holding 0 [0, 0, 1, 0x65, 0x88]) ⟨2, 0⟩ h
      ).toOption.bind fun x => x.2.map fun n => ((decodeHeader (x.1.packet n)).map
        RtpHeader.timestamp, x.1.tsCurrentSample)) = some (some 0, 45000) := by decide +kernel
  obtain ⟨h', n, hget, hread⟩ := exists_packet (g := fun k n =>
    ((decodeHeader (k.packet n)).map RtpHeader.timestamp, k.tsCurrentSample)) hpkt
  obtain ⟨hdec, hts⟩ := Prod.mk.inj hread
  refine ⟨h', n, hget, ?_⟩
  rintro ⟨hdr, hhdr, -, -, -, -, -, -, htime, -⟩
  rw [hhdr, Option.map_some, Option.some.injEq] at hdec
  rw [hdec, hts] at htime
  exact absurd htime (by decide)

end RtpPack

end Camkit
