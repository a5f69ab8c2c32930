import Camkit.Common.Datagrams
import Camkit.RtpPack.RoundTrip
/-!
# RTP packetiser — its packets over a channel that is not reliable

The packets of a stream of units are their pieces in numbers: the sequence
number tells which fragment comes next, and the bits of the FU header where
a unit begins and ends. What a receiver makes of the packets that arrive,
lost, doubled or in another order, is that of the general one.
-/

namespace Camkit

namespace RtpPack

open Datagrams (pieces placed receiver)

variable {T : Target} {ssrc : UInt32} {m k i : ℕ} {hdr : UInt8} {t d : List UInt8} {p : Packet}
variable {clock : ℕ → Timeb} {ps : List Packet} {us : List NalUnit} {arrivals : List ℕ}

/-! ## The receiver -/

/-- What a payload says: a whole unit, or a fragment, where the first one
has the header byte of the unit rebuilt. -/
def pieceOf : List UInt8 → Option (Datagrams.Piece UInt8)
  | [] => none
  | b :: rest =>
    if 1 ≤ b &&& 0x1f ∧ b &&& 0x1f ≤ 23 then some ⟨true, true, b :: rest⟩
    else if b &&& 0x1f = 28 then
      match rest with
      | [] => none
      | f :: fragment => some
        { first := f &&& 0x80 ≠ 0
          last := f &&& 0x40 ≠ 0
          body := if f &&& 0x80 = 0 then fragment
            else ((b &&& 0xe0) ||| (f &&& 0x1f)) :: fragment }
    else none

/-- The sequence number and the piece in a datagram. -/
def readDatagram (d : List UInt8) : Option (ℕ × Datagrams.Piece UInt8) :=
  (decodeHeader d).bind fun hdr => (pieceOf (d.drop 12)).map fun p => (hdr.seq, p)

/-- The sequence number behind another. -/
def nextSeq (x : ℕ) : ℕ := (x + 1) % 65536

/-- A receiver of datagrams that goes by their sequence numbers; what it
cannot read it passes over. -/
def datagrams : Machine (Option (ℕ × List UInt8)) (List UInt8) (Option (List UInt8)) where
  step s d :=
    match readDatagram d with
    | none => some (s, none)
    | some e => (receiver nextSeq).step s e

/-! ## A unit in pieces -/

/-- The bodies of the fragments after the first one. -/
def laterBodies (m : ℕ) (t : List UInt8) : List (List UInt8) :=
  if 0 < m ∧ m ≤ t.length then t.take m :: laterBodies m (t.drop m) else [t]
termination_by t.length
decreasing_by simp; omega

/-- The bodies of the packets of a unit. -/
def bodies (m : ℕ) : List UInt8 → List (List UInt8)
  | [] => []
  | hdr :: t =>
    if t.length + 1 ≤ m then [hdr :: t] else (hdr :: t.take m) :: laterBodies m (t.drop m)

/-- The indices of the packets of each unit, and the unit. -/
def spans (m : ℕ) : ℕ → List (List UInt8) → List (List ℕ × List UInt8)
  | _, [] => []
  | k, u :: us =>
    (List.range' k (fragments m u).length, u) :: spans m (k + (fragments m u).length) us

theorem laterBodies_of_lt (hlt : t.length < m) : laterBodies m t = [t] := by
  rw [laterBodies, if_neg (by omega)]

theorem laterBodies_of_le (hpos : 0 < m) (hle : m ≤ t.length) :
    laterBodies m t = t.take m :: laterBodies m (t.drop m) := by
  rw [laterBodies, if_pos ⟨hpos, hle⟩]

/-- Some fragment ends the unit, if an empty one. -/
theorem laterBodies_ne_nil (hpos : 0 < m) : laterBodies m t ≠ [] := by
  rcases Nat.lt_or_ge t.length m with hlt | hge
  · rw [laterBodies_of_lt hlt]
    exact List.cons_ne_nil _ _
  · rw [laterBodies_of_le hpos hge]
    exact List.cons_ne_nil _ _

/-- The fragments behind the first have what is left of the unit. -/
theorem flatten_laterBodies (hpos : 0 < m) : (laterBodies m t).flatten = t := by
  induction hlen : t.length using Nat.strong_induction_on generalizing t with
  | _ len ih =>
    rcases Nat.lt_or_ge t.length m with hlt | hge
    · rw [laterBodies_of_lt hlt, List.flatten_singleton]
    · rw [laterBodies_of_le hpos hge, List.flatten_cons,
        ih (t.drop m).length (by rw [List.length_drop]; omega) rfl, List.take_append_drop]

/-- All of them have the unit. -/
theorem flatten_bodies (hpos : 0 < m) (u : List UInt8) : (bodies m u).flatten = u := by
  cases u with
  | nil => rfl
  | cons hdr t =>
    rw [bodies]
    split
    · exact List.flatten_singleton
    · rw [List.flatten_cons, flatten_laterBodies hpos, List.cons_append, List.take_append_drop]

theorem bodies_ne_nil (m : ℕ) (u : NalUnit) : bodies m u.bytes ≠ [] := by
  rw [NalUnit.bytes, bodies]
  split <;> exact List.cons_ne_nil _ _

/-- A payload that is a unit. -/
theorem pieceOf_whole (u : NalUnit) :
    pieceOf (u.header :: u.body) = some ⟨true, true, u.header :: u.body⟩ :=
  if_pos ⟨u.type_pos, u.type_le⟩

/-- A FU-A payload. -/
theorem pieceOf_fu (s e : Bool) : pieceOf (fuIndicatorOf hdr :: fuHeaderOf s e hdr :: t) =
    some ⟨s, e, if s then hdr :: t else t⟩ := by
  unfold pieceOf
  simp only [fuIndicatorOf_type, rebuild_header, ne_eq, fuHeaderOf_start, fuHeaderOf_end]
  rw [if_neg (by decide)]
  cases s <;> cases e <;> rfl

/-- What a receiver reads of the fragments behind the first. -/
theorem pieceOf_laterFus (hpos : 0 < m) : (laterFus m hdr t).map (fun x => pieceOf x.2) =
    ((laterBodies m t).mapIdx fun i body =>
      ⟨false, i + 1 = (laterBodies m t).length, body⟩).map some := by
  induction hlen : t.length using Nat.strong_induction_on generalizing t with
  | _ len ih =>
    rcases Nat.lt_or_ge t.length m with hlt | hge
    · rw [laterFus_of_lt hlt, laterBodies_of_lt hlt, List.map_cons, pieceOf_fu]
      rfl
    · rw [laterFus_of_le hpos hge, laterBodies_of_le hpos hge, List.map_cons, pieceOf_fu,
        ih (t.drop m).length (by rw [List.length_drop]; omega) rfl, List.mapIdx_cons, List.map_cons]
      have hne : 0 < (laterBodies m (t.drop m)).length :=
        List.length_pos_iff.mpr (laterBodies_ne_nil hpos)
      simp only [List.length_cons, Nat.add_right_cancel_iff, Bool.false_eq_true, if_false,
        decide_eq_false (show ¬ 0 = (laterBodies m (t.drop m)).length by omega)]

/-- **The packets of a unit are its pieces.** -/
theorem pieceOf_fragments (hpos : 0 < m) (u : NalUnit) :
    (fragments m u.bytes).map (fun x => pieceOf x.2) = (pieces (bodies m u.bytes)).map some := by
  rw [NalUnit.bytes, fragments, bodies]
  split
  · rw [List.map_cons, List.map_nil, pieceOf_whole]
    rfl
  · rw [List.map_cons, pieceOf_fu, pieceOf_laterFus hpos, pieces, List.mapIdx_cons,
      List.map_cons]
    have hne : 0 < (laterBodies m (u.body.drop m)).length :=
      List.length_pos_iff.mpr (laterBodies_ne_nil hpos)
    simp only [List.length_cons, Nat.add_right_cancel_iff, if_true,
      decide_eq_false (show ¬ 0 = (laterBodies m (u.body.drop m)).length by omega)]
    rfl

/-- The payloads of some units, read as pieces. -/
def Pieced (m : ℕ) (us : List NalUnit) (ps : List Packet) : Prop :=
  ps.map (fun p => pieceOf p.payload) =
    ((us.map fun u => bodies m u.bytes).flatMap pieces).map some

theorem Pieced.append {us' : List NalUnit} {ps' : List Packet} (h : Pieced m us ps)
    (h' : Pieced m us' ps') : Pieced m (us ++ us') (ps ++ ps') := by
  unfold Pieced at h h' ⊢
  rw [List.map_append, h, h', List.map_append, List.flatMap_append, List.map_append]

/-- The header in front changes nothing of what is read. -/
theorem pieceOf_stamp {ts : UInt32} {seq : UInt16} {l : List (Bool × List UInt8)} :
    (stamp ts seq l).map (fun p => pieceOf p.payload) = l.map fun x => pieceOf x.2 := by
  induction l generalizing seq with
  | nil => rfl
  | cons x l ih => rw [stamp, List.map_cons, ih, List.map_cons]

/-- **The packets of a stream of units.** -/
theorem pieced_packetise {start : UInt32} {seq : UInt16} (hpos : 0 < m) (hm : m ≤ 10226) :
    Pieced m us (packetise T m start seq clock (us.map NalUnit.bytes)).1 := by
  induction us generalizing seq clock with
  | nil => rfl
  | cons u us ih =>
    rw [List.map_cons, packetise, if_neg (not_tooBig hm)]
    have hunit : Pieced m [u] (stamp (sampleOf T start (clock 0)) seq (fragments m u.bytes)) := by
      rw [Pieced, pieceOf_stamp, pieceOf_fragments hpos, List.map_singleton,
        List.flatMap_singleton]
    exact hunit.append ih

/-! ## Arrivals -/

theorem spans_eq (hpos : 0 < m) : spans m k (us.map NalUnit.bytes) =
    (placed k (us.map fun u => bodies m u.bytes)).map fun x =>
      (Datagrams.span x, x.2.flatten) := by
  induction us generalizing k with
  | nil => rfl
  | cons u us ih =>
    have hlen : (fragments m u.bytes).length = (bodies m u.bytes).length := by
      simpa using congrArg List.length (pieceOf_fragments hpos u)
    rw [List.map_cons, spans, hlen, ih, List.map_cons, placed, List.map_cons, flatten_bodies hpos]
    rfl

/-- The datagrams that arrive, by their indices. -/
def arrive (sent : List (List UInt8)) (arrivals : List ℕ) : List (List UInt8) :=
  arrivals.filterMap fun i => sent[i]?

/-- From one arrival to the next the stream goes on by 65536 packets at most,
and back by fewer than 65535. -/
def Close (arrivals : List ℕ) : Prop := arrivals.IsChain fun i j => j ≤ i + 65536 ∧ i < j + 65535

/-- The receiver of datagrams is the one of the pieces read from them. -/
theorem run_datagrams {s : Option (ℕ × List UInt8)} {ds : List (List UInt8)}
    {events : List (ℕ × Datagrams.Piece UInt8)} (hread : ds.map readDatagram = events.map some) :
    datagrams.run s ds = (receiver nextSeq).run s events := by
  induction ds generalizing s events with
  | nil =>
    obtain rfl := List.map_eq_nil_iff.mp hread.symm
    rfl
  | cons d ds ih =>
    cases events with
    | nil => exact absurd hread (by simp)
    | cons e events =>
      obtain ⟨he, hread⟩ := List.cons.inj hread
      have hstep : datagrams.step s d = (receiver nextSeq).step s e := by
        rw [datagrams]
        simp only [he]
      rw [Machine.run, Machine.run, hstep]
      simp only [ih hread]

theorem near_of_close (hclose : Close arrivals) :
    arrivals.IsChain (Datagrams.Near (· % 65536)) := by
  refine hclose.imp fun i j hij hnum => ?_
  simp only at hnum
  omega

/-- **What arrives is read** as the numbers and pieces of the stream. -/
theorem read_arrive (T : Target) (ssrc : UInt32)
    (hseq : ∀ i p, ps[i]? = some p → p.seq = UInt16.ofNat i)
    (hpieces : Pieced m us ps) (hlt : ∀ i ∈ arrivals, i < ps.length) :
    ∃ events, Datagrams.Arrive (· % 65536) (us.map fun u => bodies m u.bytes) arrivals events ∧
      (arrive (ps.map (encode T ssrc)) arrivals).map readDatagram = events.map some := by
  induction arrivals with
  | nil => exact ⟨[], .nil, rfl⟩
  | cons i arrivals ih =>
    obtain ⟨hi, hlt⟩ := List.forall_mem_cons.mp hlt
    obtain ⟨events, harrive, hread⟩ := ih hlt
    obtain ⟨p, hp⟩ : ∃ p, ps[i]? = some p := ⟨_, List.getElem?_eq_getElem hi⟩
    have hpiece := congrArg (fun l => l[i]?) hpieces
    simp only [List.getElem?_map, hp, Option.map_some] at hpiece
    obtain ⟨piece, hget, heq⟩ := Option.map_eq_some_iff.mp hpiece.symm
    have hfirst : readDatagram (encode T ssrc p) = some (i % 65536, piece) := by
      rw [readDatagram, decodeHeader_encode, Option.bind_some, drop_encode, ← heq, Option.map_some,
        hseq i p hp]
      exact congrArg (fun x => some (x, piece)) UInt16.toNat_ofNat'
    refine ⟨(i % 65536, piece) :: events, .cons ⟨rfl, hget⟩ harrive, ?_⟩
    have hsent : (ps.map (encode T ssrc))[i]? = some (encode T ssrc p) := by
      rw [List.getElem?_map, hp]
      rfl
    unfold arrive at hread ⊢
    rw [List.filterMap_cons_some hsent, List.map_cons, hfirst, hread, List.map_cons]

/-- **What a receiver makes of the packets that arrive.** It has a unit
exactly where the packets of the unit have just arrived, one right behind
the other. Where packets are only lost it has the units of which none is,
in order. -/
theorem received_of_arrivals (hpos : 0 < m)
    (hseq : ∀ i p, ps[i]? = some p → p.seq = UInt16.ofNat i) (hpieces : Pieced m us ps)
    (hlt : ∀ i ∈ arrivals, i < ps.length) (hclose : Close arrivals) :
    ∃ s got, datagrams.run none (arrive (ps.map (encode T ssrc)) arrivals) = some (s, got) ∧
      got.length = arrivals.length ∧
      (∀ t u, got[t]? = some (some u) ↔ t < arrivals.length ∧
        ∃ x ∈ spans m 0 (us.map NalUnit.bytes), x.1 <:+ arrivals.take (t + 1) ∧ u = x.2) ∧
      (arrivals.Pairwise (· < ·) → got.reduceOption =
        ((spans m 0 (us.map NalUnit.bytes)).filter fun x => ∀ i ∈ x.1, i ∈ arrivals).map
          Prod.snd) := by
  obtain ⟨events, harrive, hread⟩ := read_arrive T ssrc hseq hpieces hlt
  obtain ⟨s, got, hrun⟩ := Datagrams.run_receiver nextSeq none events
  have hne : ∀ x ∈ placed 0 (us.map fun u => bodies m u.bytes), x.2 ≠ [] := by
    intro x hx
    obtain ⟨u, -, hu⟩ := List.mem_map.mp (Datagrams.mem_of_mem_placed hx)
    exact hu ▸ bodies_ne_nil m u
  have hnext : ∀ i, (i + 1) % 65536 = nextSeq (i % 65536) := by
    intro i
    unfold nextSeq
    omega
  have hnear : ([] ++ arrivals).IsChain (Datagrams.Near (· % 65536)) := near_of_close hclose
  obtain ⟨hlen, hgot⟩ := Datagrams.run_awaiting Datagrams.awaiting_nil hne hnext hnear harrive hrun
  refine ⟨s, got, (run_datagrams hread).trans hrun, hlen, fun t u => ?_, fun hsorted => ?_⟩
  · rw [hgot, spans_eq hpos, List.nil_append, Datagrams.Complete]
    simp only [List.mem_map, exists_exists_and_eq_and]
  · have hwhole : Datagrams.whole _ ([] ++ arrivals) = Datagrams.whole _ [] ++ got.reduceOption :=
      Datagrams.run_whole Datagrams.awaiting_nil hne hnext hnear hsorted harrive hrun
    rw [Datagrams.whole_nil hne, List.nil_append, List.nil_append, Datagrams.whole] at hwhole
    rw [← hwhole, spans_eq hpos, List.filter_map, List.map_map]
    rfl

end RtpPack

end Camkit
