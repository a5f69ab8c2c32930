import Camkit.RtpPack.Header
/-!
# RTP packetiser — the 90 kHz clock

The milliseconds since the start are a difference modulo `2^32`, but the
product with 90 is a double, and its conversion to `U32` is defined below
`2^32` only. So the clock runs for the first 47721858 milliseconds, a
little over 13 hours, out of each `2^32`.
-/

namespace Camkit

namespace RtpPack

variable {T : Target} {h h' h₀ : PacHandle} {mem : Mem} {t D : ℕ}
variable {params : PacParam} {inbuf : Ptr} {isize outsize : ℤ} {cs : List Call}

/-- The clock at a true time, in milliseconds. -/
def clockOf (t : ℕ) : Timeb := ⟨t / 1000, t % 1000⟩

/-- The timestamp the output buffer holds, where the structure has it. -/
def storedTimestamp (T : Target) (h : PacHandle) : ℕ :=
  beNat (h.outbuf.bytes (offsetofTimestamp T) 4)

/-- The clock is right `D` milliseconds after the start: the conversion to
`U32` is defined, and the timestamp is `90 * D` modulo `2^32`. -/
def ClockOk (T : Target) (h h' : PacHandle) (t D : ℕ) : Prop :=
  sampleCount (getCurrentMillisec (clockOf (t + D))) h.tsStartMillisec < 2 ^ 32 ∧
    storedTimestamp T h' = 90 * D % 2 ^ 32 ∧ h'.tsCurrentSample.toNat = 90 * D % 2 ^ 32

theorem getCurrentMillisec_clockOf : getCurrentMillisec (clockOf t) = UInt32.ofNat t := by
  unfold getCurrentMillisec clockOf
  rw [Nat.div_add_mod]

/-- The elapsed time survives the wrap of the millisecond counter. -/
theorem sampleCount_clockOf :
    sampleCount (getCurrentMillisec (clockOf (t + D))) (getCurrentMillisec (clockOf t)) =
      90 * (D % 2 ^ 32) := by
  rw [getCurrentMillisec_clockOf, getCurrentMillisec_clockOf, Nat.add_comm t D, UInt32.ofNat_add,
    sampleCount, UInt32.add_sub_cancel, UInt32.toNat_ofNat', Nat.mul_comm]

/-- The timestamp in the buffer is the packet's. -/
theorem storedTimestamp_of_packet {ssrc : UInt32} {p : Packet}
    (hpkt : h'.packet outsize = encode T ssrc p) : storedTimestamp T h' = p.ts.toNat := by
  have hlen := congrArg List.length hpkt
  rw [PacHandle.packet, Mem.length_bytes, encode, List.length_append, length_wireHeader] at hlen
  have hhead : h'.outbuf.bytes 0 12 = wireHeader T ssrc p := by
    rw [← Mem.take_bytes (show 12 ≤ outsize.toNat by omega)]
    refine (congrArg (List.take 12) hpkt).trans ?_
    exact List.take_left' length_wireHeader
  have hfield : ∀ k : ℕ, k + 4 ≤ 12 →
      h'.outbuf.bytes k 4 = ((wireHeader T ssrc p).drop k).take 4 := by
    intro k hk
    rw [← hhead, Mem.drop_bytes (by omega), Mem.take_bytes (by omega), zero_add]
  rw [← beNat_be32 p.ts, storedTimestamp]
  refine congrArg beNat ?_
  -- the structure has the field at 4 or at 8
  cases hT : T.dataModel with
  | ilp32 =>
    have hoff : offsetofTimestamp T = 4 := by
      rw [offsetofTimestamp, hT]
      rfl
    rw [hoff, hfield 4 (by decide), wireHeader, stampBytes, hT]
    rfl
  | lp64 =>
    have hoff : offsetofTimestamp T = 8 := by
      rw [offsetofTimestamp, hT]
      rfl
    rw [hoff, hfield 8 (by decide), wireHeader, stampBytes, hT]
    rfl

/-- **The clock is right for the first 47721858 milliseconds of each
`2^32`**, and wrong for the rest: for every start time, every run, and
every new unit, found `D` milliseconds after the start. -/
theorem clockOk_iff {mallocHandle : Bool} {mallocOutbuf : Option Mem}
    {rs : List (Reply (List UInt8))} (hM : 1 ≤ params.maxPktLen)
    (hopen : packOpen params mallocHandle mallocOutbuf (clockOf t) = some h₀)
    (hrun : (calls T).run h₀ (.put inbuf isize :: cs) = some (h, rs))
    (hnew : h.naluComplete = true)
    (hget : packGet T mem (clockOf (t + D)) h = .ok (h', some outsize)) :
    ClockOk T h h' t D ↔ D % 2 ^ 32 ≤ 47721858 := by
  obtain ⟨s, rs', -, hs, -, hstart⟩ := simulates_of_run hM hopen hrun
  obtain ⟨ph, p, -, hpkt, -, hts, hstamp⟩ := packet_of_packGet hs hget
  have hcount : sampleCount (getCurrentMillisec (clockOf (t + D))) h.tsStartMillisec =
      90 * (D % 2 ^ 32) := by rw [hs.1.start, hstart, sampleCount_clockOf]
  have hvalue : p.ts = toU32 T (90 * (D % 2 ^ 32)) := by
    rw [hstamp, nextStamp, if_pos hnew, sampleOf, hcount]
  unfold ClockOk
  rw [storedTimestamp_of_packet hpkt, hts, hcount, hvalue]
  constructor
  · rintro ⟨hrange, -, -⟩
    omega
  · intro hD
    have hrange : 90 * (D % 2 ^ 32) < 2 ^ 32 := by omega
    have hmod : (toU32 T (90 * (D % 2 ^ 32))).toNat = 90 * D % 2 ^ 32 := by
      rw [toU32, if_pos hrange, UInt32.toNat_ofNat', Nat.mul_mod, Nat.mod_mod, ← Nat.mul_mod]
    exact ⟨hrange, hmod, hmod⟩

/-- Thirteen hours in, on a target that saturates. -/
theorem clockOk_iff_thirteen_hours :
    let h := packPut (openedHandle ⟨1400, 10⟩ (Mem.holding 0 []) (clockOf 1500)) (some 0) 5
    ∃ h' n, packGet ⟨.ilp32, fun _ => 0xffffffff⟩ (Mem.holding 0 [0, 0, 1, 0x65, 0x88])
        (clockOf (1500 + 46800000)) h = .ok (h', some n) ∧
      ClockOk ⟨.ilp32, fun _ => 0xffffffff⟩ h h' 1500 46800000 := by
  intro h
  have hopen : packOpen ⟨1400, 10⟩ true (some (Mem.holding 0 [])) (clockOf 1500) =
      some (openedHandle ⟨1400, 10⟩ (Mem.holding 0 []) (clockOf 1500)) := rfl
  have hrun : (calls ⟨.ilp32, fun _ => 0xffffffff⟩).run (openedHandle ⟨1400, 10⟩
      (Mem.holding 0 []) (clockOf 1500)) [.put (some 0) 5] = some (h, [.void]) := rfl
  have hpkt : ((packGet ⟨.ilp32, fun _ => 0xffffffff⟩ (Mem.holding 0 [0, 0, 1, 0x65, 0x88])
      (clockOf (1500 + 46800000)) h).toOption.bind fun x => x.2.map fun _ =>
        x.1.tsCurrentSample) = some 4212000000 := by decide +kernel
  obtain ⟨h', n, hget, -⟩ := exists_packet (g := fun k _ => k.tsCurrentSample) hpkt
  exact ⟨h', n, hget, (clockOk_iff (by decide) hopen hrun rfl hget).mpr (by decide)⟩

/-- **47721859 milliseconds in, the conversion is out of range**, and the
timestamp on a target that saturates is not the clock's. -/
theorem not_clockOk_saturated :
    let h := packPut (openedHandle ⟨1400, 10⟩ (Mem.holding 0 []) (clockOf 1500)) (some 0) 5
    ∃ h' n, packGet ⟨.ilp32, fun _ => 0xffffffff⟩ (Mem.holding 0 [0, 0, 1, 0x65, 0x88])
        (clockOf (1500 + 47721859)) h = .ok (h', some n) ∧
      storedTimestamp ⟨.ilp32, fun _ => 0xffffffff⟩ h' ≠ 90 * 47721859 % 2 ^ 32 ∧
      ¬ ClockOk ⟨.ilp32, fun _ => 0xffffffff⟩ h h' 1500 47721859 := by
  intro h
  have hpkt : ((packGet ⟨.ilp32, fun _ => 0xffffffff⟩ (Mem.holding 0 [0, 0, 1, 0x65, 0x88])
      (clockOf (1500 + 47721859)) h).toOption.bind fun x => x.2.map fun _ =>
        storedTimestamp ⟨.ilp32, fun _ => 0xffffffff⟩ x.1) = some 4294967295 := by decide +kernel
  obtain ⟨h', n, hget, hts⟩ :=
    exists_packet (g := fun k _ => storedTimestamp ⟨.ilp32, fun _ => 0xffffffff⟩ k) hpkt
  have hne : storedTimestamp ⟨.ilp32, fun _ => 0xffffffff⟩ h' ≠ 90 * 47721859 % 2 ^ 32 := by
    rw [hts]
    decide
  exact ⟨h', n, hget, hne, fun hok => hne hok.2.1⟩

end RtpPack

end Camkit
