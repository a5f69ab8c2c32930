import Camkit.RtpPack.Runs
/-!
# RTP packetiser — a new buffer starts afresh

After `pack_put` the packets depend on the parameters, the start time, the
buffer and the clock, and on what the handle did before only through its
sequence number.
-/

namespace Camkit

namespace RtpPack

variable {T : Target} {h k : PacHandle} {mem : Mem} {clock : ℕ → Timeb} {m : ℕ}
variable {start : UInt32} {ts : UInt32} {seq δ : UInt16} {inbuf : Ptr} {isize : ℤ}

/-- A packet with its sequence number moved on. -/
def Packet.bump (δ : UInt16) (p : Packet) : Packet := { p with seq := p.seq + δ }

/-- Two packets are the same bytes but for the sequence number in the third
and the fourth, which is `δ` more in the second packet. -/
def SameButSeq (δ : UInt16) (pkt pkt' : List UInt8) : Prop :=
  ∃ a b seq, a.length = 2 ∧ pkt = a ++ be16 seq ++ b ∧ pkt' = a ++ be16 (seq + δ) ++ b

theorem sameButSeq_bump {ssrc : UInt32} (p : Packet) :
    SameButSeq δ (encode T ssrc p) (encode T ssrc (p.bump δ)) := by
  refine ⟨[0x80, if p.marker then 0xe0 else 0x60], stampBytes T p.ts ssrc ++ p.payload, p.seq, rfl,
    ?_, ?_⟩
  · simp only [encode, wireHeader, List.append_assoc]
  · simp only [encode, wireHeader, List.append_assoc, Packet.bump]
    rfl

theorem stamp_bump {l : List (Bool × List UInt8)} :
    stamp ts (seq + δ) l = (stamp ts seq l).map (Packet.bump δ) := by
  induction l generalizing seq with
  | nil => rfl
  | cons x l ih =>
    have hnext : seq + δ + 1 = seq + 1 + δ := by
      rw [UInt16.add_assoc, UInt16.add_comm δ, ← UInt16.add_assoc]
    rw [stamp, stamp, List.map_cons, hnext, ih]
    rfl

/-- **Packets numbered from further on** are the same packets, each with
its number further on. -/
theorem packetise_bump {us : List (List UInt8)} :
    packetise T m start (seq + δ) clock us =
      ((packetise T m start seq clock us).1.map (Packet.bump δ),
        (packetise T m start seq clock us).2) := by
  induction us generalizing seq clock with
  | nil => rfl
  | cons u us ih =>
    rw [packetise, packetise]
    split
    · rfl
    · have hnext : ∀ x : UInt16, seq + δ + x = seq + x + δ := by
        intro x
        rw [UInt16.add_assoc, UInt16.add_comm δ, ← UInt16.add_assoc]
      simp only [length_stamp, stamp_bump, hnext, ih, List.map_append, List.length_map]

/-- **A new buffer starts afresh from any state.** Two handles with the
same parameters and start time, whatever else they hold, yield after a
`pack_put` of the same buffer the same packets, call by call, but for one
difference in all their sequence numbers, and stop alike; with enough
calls, at a 0. -/
theorem drain_packPut_sameButSeq (hM : 1 ≤ h.params.maxPktLen)
    (hM' : h.params.maxPktLen ≤ 10226) (hparams : k.params = h.params)
    (hstart : k.tsStartMillisec = h.tsStartMillisec) :
    (∀ n, List.Forall₂ (SameButSeq (k.seqNum - h.seqNum))
        (drain T mem n clock (packPut h inbuf isize)).packets
        (drain T mem n clock (packPut k inbuf isize)).packets ∧
      (drain T mem n clock (packPut h inbuf isize)).stop =
        (drain T mem n clock (packPut k inbuf isize)).stop) ∧
      ∃ N, ∀ n ≥ N, (drain T mem n clock (packPut h inbuf isize)).stop = .zero := by
  obtain ⟨m, hm⟩ : ∃ m : ℕ, h.params.maxPktLen = m := ⟨h.params.maxPktLen.toNat, by omega⟩
  have hm' : k.params.maxPktLen = m := by rw [hparams, hm]
  have hstream : stream T mem clock m k inbuf isize =
      ((stream T mem clock m h inbuf isize).1.map (Packet.bump (k.seqNum - h.seqNum)),
        (stream T mem clock m h inbuf isize).2) := by
    unfold stream
    rw [← packetise_bump, hstart, UInt16.add_comm, UInt16.sub_add_cancel]
  refine ⟨?_, ?_⟩
  · intro n
    obtain ⟨hpackets, hstop⟩ := drain_packPut_take T mem clock (by omega) hm n
    obtain ⟨hpackets', hstop'⟩ := drain_packPut_take T mem clock (by omega) hm' n
    rw [hpackets, hpackets', hstop, hstop', hstream, hparams, List.length_map]
    refine ⟨List.forall₂_take n ?_, rfl⟩
    rw [List.map_map, List.forall₂_map_left_iff, List.forall₂_map_right_iff, List.forall₂_same]
    intro p _
    exact sameButSeq_bump p
  · refine ⟨(stream T mem clock m h inbuf isize).1.length + 1, ?_⟩
    intro n hn
    obtain ⟨-, hstop⟩ := drain_packPut T mem clock (by omega) hm hn
    rw [hstop, stream, packetise_snd (by omega)]
    rfl

/-- A fresh handle, and one left in the middle of a unit. -/
theorem drain_packPut_sameButSeq_abandoned :
    let mem := Mem.holding 0 [0, 0, 1, 0x65, 1, 2, 3, 4, 0, 0, 1, 0x41, 7]
    let clock : ℕ → Timeb := fun i => ⟨2, i⟩
    let h := openedHandle ⟨2, 10⟩ (Mem.holding 0 []) ⟨1, 500⟩
    let k := (drain ⟨.ilp32, fun _ => 0⟩ mem 1 clock (packPut h (some 0) 13)).handle
    (∀ n, List.Forall₂ (SameButSeq (k.seqNum - h.seqNum))
        (drain ⟨.ilp32, fun _ => 0⟩ mem n clock (packPut h (some 8) 5)).packets
        (drain ⟨.ilp32, fun _ => 0⟩ mem n clock (packPut k (some 8) 5)).packets ∧
      (drain ⟨.ilp32, fun _ => 0⟩ mem n clock (packPut h (some 8) 5)).stop =
        (drain ⟨.ilp32, fun _ => 0⟩ mem n clock (packPut k (some 8) 5)).stop) ∧
      ∃ N, ∀ n ≥ N, (drain ⟨.ilp32, fun _ => 0⟩ mem n clock (packPut h (some 8) 5)).stop =
        .zero := by
  intro mem clock h k
  refine drain_packPut_sameButSeq (by decide) (by decide) ?_ ?_
  · decide +kernel
  · decide +kernel

end RtpPack

end Camkit
