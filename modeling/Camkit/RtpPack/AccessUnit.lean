import Camkit.RtpPack.Length
import Camkit.RtpPack.RoundTrip
/-!
# RTP packetiser — access units

The packets of one access unit have one timestamp, and the marker is set
on the last of them alone. The code stamps and marks each NAL unit so, and
not the buffer it came in: a buffer is sent as an access unit exactly if it
is one unit.
-/

namespace Camkit

namespace RtpPack

variable {T : Target} {mem : Mem} {h : PacHandle} {clock : ℕ → Timeb} {m : ℕ} {hdr : UInt8}
variable {start ts : UInt32} {ssrc : UInt32} {seq : UInt16} {us : List (StartCode × NalUnit)}

/-- The packets of an access unit: one timestamp, and the marker on the
last packet and on no other. -/
structure AccessUnit (ps : List (List UInt8)) : Prop where
  timestamp : ∃ ts, ∀ p ∈ ps, (decodeHeader p).map RtpHeader.timestamp = some ts
  marker : ps.map (fun p => (decodeHeader p).map RtpHeader.marker) =
    List.replicate (ps.length - 1) (some 0) ++ [some 1]

/-- The packets `g` of one unit: an access unit that is received as that
unit, stamped with the clock as its first packet finds it. -/
structure UnitPackets (T : Target) (start : UInt32) (tb : Timeb) (u : NalUnit)
    (g : List (List UInt8)) : Prop where
  accessUnit : AccessUnit g
  received : depacketise (g.map (List.drop 12)) = some ⟨[u.bytes], none⟩
  stamped : ∀ p ∈ g,
    (decodeHeader p).map RtpHeader.timestamp = some (readTimestamp T (sampleOf T start tb))

/-! ## The packets of a unit -/

theorem markers_laterFus (hpos : 0 < m) {t : List UInt8} :
    (laterFus m hdr t).map Prod.fst = List.replicate (t.length / m) false ++ [true] := by
  induction hlen : t.length using Nat.strong_induction_on generalizing t with
  | _ len ih =>
    subst hlen
    rcases Nat.lt_or_ge t.length m with hlt | hge
    · rw [laterFus_of_lt hlt, Nat.div_eq_of_lt hlt]
      rfl
    · have hdrop : (t.drop m).length = t.length - m := List.length_drop
      rw [laterFus_of_le hpos hge, List.map_cons, ih _ (by omega) rfl, hdrop,
        Nat.div_eq t.length m, if_pos ⟨hpos, hge⟩]
      rfl

/-- The marker is set on the last packet of a unit alone. -/
theorem markers_fragments (hpos : 0 < m) {u : List UInt8} (hu : u ≠ []) :
    (fragments m u).map Prod.fst =
      List.replicate ((fragments m u).length - 1) false ++ [true] := by
  rw [length_fragments hpos hu, Nat.add_sub_cancel]
  obtain ⟨hdr, t, rfl⟩ := List.exists_cons_of_ne_nil hu
  rw [fragments, List.length_cons, Nat.add_sub_cancel]
  split
  · rw [Nat.div_eq_of_lt (by omega)]
    rfl
  · have hdrop : (t.drop m).length = t.length - m := List.length_drop
    rw [List.map_cons, markers_laterFus hpos, hdrop, Nat.div_eq t.length m,
      if_pos ⟨hpos, by omega⟩]
    rfl

theorem marker_stamp (ts : UInt32) (seq : UInt16) {l : List (Bool × List UInt8)} :
    (stamp ts seq l).map Packet.marker = l.map Prod.fst := by
  induction l generalizing seq with
  | nil => rfl
  | cons x l ih => rw [stamp, List.map_cons, ih, List.map_cons]

theorem ts_of_mem_stamp {l : List (Bool × List UInt8)} : ∀ p ∈ stamp ts seq l, p.ts = ts := by
  induction l generalizing seq with
  | nil =>
    intro p hp
    exact absurd hp List.not_mem_nil
  | cons x l ih => exact List.forall_mem_cons.mpr ⟨rfl, ih⟩

theorem decode_marker (p : Packet) :
    (decodeHeader (encode T ssrc p)).map RtpHeader.marker = some (if p.marker then 1 else 0) := by
  rw [decodeHeader_encode, Option.map_some]

theorem decode_timestamp (p : Packet) :
    (decodeHeader (encode T ssrc p)).map RtpHeader.timestamp = some (readTimestamp T p.ts) := by
  rw [decodeHeader_encode, Option.map_some]

/-- **The packets of a unit are an access unit.** -/
theorem unitPackets_stamp (T : Target) (ssrc start : UInt32) (seq : UInt16) (tb : Timeb)
    (hpos : 0 < m) (u : NalUnit) :
    UnitPackets T start tb u
      ((stamp (sampleOf T start tb) seq (fragments m u.bytes)).map (encode T ssrc)) := by
  have hstamped : ∀ p ∈ (stamp (sampleOf T start tb) seq (fragments m u.bytes)).map
      (encode T ssrc), (decodeHeader p).map RtpHeader.timestamp =
        some (readTimestamp T (sampleOf T start tb)) := by
    intro p hp
    obtain ⟨q, hq, rfl⟩ := List.mem_map.mp hp
    rw [decode_timestamp, ts_of_mem_stamp q hq]
  refine ⟨⟨⟨_, hstamped⟩, ?_⟩, ?_, hstamped⟩
  · have hmarkers : (stamp (sampleOf T start tb) seq (fragments m u.bytes)).map
        (fun q => (some (if q.marker then 1 else 0) : Option ℕ)) =
        ((fragments m u.bytes).map Prod.fst).map fun b => some (if b then 1 else 0) := by
      rw [← marker_stamp (sampleOf T start tb) seq, List.map_map]
      rfl
    rw [List.map_map, List.length_map, length_stamp]
    refine (List.map_congr_left fun q _ => decode_marker q).trans ?_
    have hne : u.bytes ≠ [] := List.cons_ne_nil _ _
    rw [hmarkers, markers_fragments hpos hne, List.map_append, List.map_replicate]
    rfl
  · rw [List.map_map, show (List.drop 12 ∘ encode T ssrc) = Packet.payload from
      funext fun _ => drop_encode, payload_stamp, depacketise, receive_fragments hpos,
      List.nil_append]

/-! ## The packets of a buffer -/

/-- **The packets of a buffer, unit by unit.** Each unit begins a new group
at the clock it then finds. -/
theorem groups_packetise (T : Target) (ssrc start : UInt32) (seq : UInt16) (clock : ℕ → Timeb)
    (hpos : 0 < m) (hm : m ≤ 10226) (us : List NalUnit) :
    ∃ groups : List (List (List UInt8)), groups.length = us.length ∧
      ((packetise T m start seq clock (us.map NalUnit.bytes)).1.map (encode T ssrc)) =
        groups.flatten ∧
      ∀ k u g, us[k]? = some u → groups[k]? = some g →
        UnitPackets T start (clock (groups.take k).flatten.length) u g := by
  induction us generalizing seq clock with
  | nil => exact ⟨[], rfl, rfl, fun k u g hu _ => absurd hu (by simp)⟩
  | cons u us ih =>
    set ps := stamp (sampleOf T start (clock 0)) seq (fragments m u.bytes) with hps
    obtain ⟨groups, hlen, hpackets, hall⟩ :=
      ih (seq + UInt16.ofNat ps.length) fun i => clock (i + ps.length)
    refine ⟨ps.map (encode T ssrc) :: groups, congrArg (· + 1) hlen, ?_, ?_⟩
    · rw [List.map_cons, packetise, if_neg (not_tooBig hm)]
      simp only [List.map_append, List.flatten_cons, ← hps, hpackets]
    · intro k v g hv hg
      cases k with
      | zero =>
        obtain rfl := Option.some.inj hv
        obtain rfl := Option.some.inj hg
        exact unitPackets_stamp T ssrc start seq (clock 0) hpos _
      | succ k =>
        have hunit := hall k v g hv hg
        rw [List.take_succ_cons, List.flatten_cons, List.length_append, List.length_map,
          Nat.add_comm]
        exact hunit

/-- A mark once made is the last. -/
theorem eq_nil_of_marked {α : Type} {x y : α} (hne : x ≠ y) {a b : ℕ} {l : List α}
    (hl : List.replicate a x ++ y :: l = List.replicate b x ++ [y]) : l = [] := by
  induction a generalizing b with
  | zero =>
    cases b with
    | zero => exact (List.cons.inj hl).2
    | succ b => exact absurd (List.cons.inj hl).1.symm hne
  | succ a ih =>
    cases b with
    | zero => exact absurd (List.cons.inj hl).1 hne
    | succ b => exact ih (List.cons.inj hl).2

/-- Two access units in a row are not one. -/
theorem AccessUnit.eq_nil_of_append {g rest : List (List UInt8)} (hg : AccessUnit g)
    (hall : AccessUnit (g ++ rest)) : rest = [] := by
  have hmarks := hall.marker
  rw [List.map_append, hg.marker, List.append_assoc, List.singleton_append] at hmarks
  exact List.map_eq_nil_iff.mp (eq_nil_of_marked (by decide) hmarks)

/-- An access unit is a packet at least. -/
theorem AccessUnit.ne_nil {g : List (List UInt8)} (hg : AccessUnit g) : g ≠ [] := by
  rintro rfl
  exact absurd hg.marker (by decide)

/-- **Each unit of a buffer is sent as an access unit**, with the timestamp
of its first packet; and the whole buffer is exactly if it has one unit.
For any number of units behind start codes of either length, and any
readings of the clock. -/
theorem accessUnits_drain {a : ℤ} (hne : us ≠ []) (hM : 1 ≤ h.params.maxPktLen)
    (hM' : h.params.maxPktLen ≤ 10226) (hmem : mem.bytes a (annexB us).length = annexB us)
    (T : Target) (clock : ℕ → Timeb) :
    ∃ N, ∀ n ≥ N,
      let sent := drain T mem n clock (packPut h (some a) (annexB us).length)
      sent.stop = .zero ∧
      (∃ groups : List (List (List UInt8)), groups.length = us.length ∧
        sent.packets = groups.flatten ∧
        ∀ k x g, us[k]? = some x → groups[k]? = some g →
          UnitPackets T h.tsStartMillisec (clock (groups.take k).flatten.length) x.2 g) ∧
      (AccessUnit sent.packets ↔ us.length = 1) := by
  obtain ⟨m, hm⟩ : ∃ m : ℕ, h.params.maxPktLen = m := ⟨h.params.maxPktLen.toNat, by omega⟩
  have hpos : 0 < m := by omega
  refine ⟨(stream T mem clock m h (some a) (annexB us).length).1.length + 1, ?_⟩
  intro n hn sent
  obtain ⟨hpackets, hstop⟩ := drain_packPut T mem clock hpos hm hn
  rw [stream_annexB hne hmem] at hpackets hstop
  rw [packetise_snd (by omega)] at hstop
  obtain ⟨groups, hlen, hflat, hall⟩ := groups_packetise T h.params.ssrc.toUInt32
    h.tsStartMillisec h.seqNum clock hpos (by omega) (us.map Prod.snd)
  rw [List.length_map] at hlen
  have hsent : sent.packets = groups.flatten := hpackets.trans hflat
  have hunits : ∀ k x g, us[k]? = some x → groups[k]? = some g →
      UnitPackets T h.tsStartMillisec (clock (groups.take k).flatten.length) x.2 g := by
    intro k x g hx hg
    exact hall k x.2 g (by rw [List.getElem?_map, hx]; rfl) hg
  refine ⟨hstop, ⟨groups, hlen, hsent, hunits⟩, ?_⟩
  obtain ⟨x, us, rfl⟩ := List.exists_cons_of_ne_nil hne
  cases groups with
  | nil => exact absurd hlen (by simp)
  | cons g groups =>
    have hfirst := (hunits 0 x g rfl rfl).accessUnit
    rw [hsent, List.flatten_cons]
    constructor
    · intro hwhole
      have hrest := hfirst.eq_nil_of_append hwhole
      cases groups with
      | nil => exact hlen.symm
      | cons g' groups =>
        cases us with
        | nil => exact absurd hlen (by simp)
        | cons x' us =>
          have hsecond := (hunits 1 x' g' rfl rfl).accessUnit
          exact absurd (List.append_eq_nil_iff.mp hrest).1 hsecond.ne_nil
    · intro hone
      obtain rfl : groups = [] := List.length_eq_zero_iff.mp (Nat.succ.inj (hlen.trans hone))
      rw [List.flatten_nil, List.append_nil]
      exact hfirst

/-- Two units of two bytes, and a clock that moves on by a millisecond. -/
theorem accessUnits_drain_two :
    let us : List (StartCode × NalUnit) :=
      [(.long, ⟨0x67, [0x42], by decide, by decide, by decide, by decide⟩),
        (.short, ⟨0x65, [0x88], by decide, by decide, by decide, by decide⟩)]
    let h := openedHandle ⟨1400, 10⟩ (Mem.holding 0 []) ⟨1, 500⟩
    ∃ N, ∀ n ≥ N,
      let sent := drain ⟨.ilp32, fun _ => 0⟩ (Mem.holding 0 (annexB us)) n (fun i => ⟨2, i⟩)
        (packPut h (some 0) (annexB us).length)
      sent.stop = .zero ∧ (AccessUnit sent.packets ↔ us.length = 1) := by
  intro us h
  obtain ⟨N, hall⟩ := accessUnits_drain (h := h) (show us ≠ [] from List.cons_ne_nil _ _)
    (by decide) (by decide) Mem.bytes_holding ⟨.ilp32, fun _ => 0⟩ fun i => ⟨2, i⟩
  exact ⟨N, fun n hn => ⟨(hall n hn).1, (hall n hn).2.2⟩⟩

/-- **Two units in one buffer are not one access unit**: the marker is set
on both packets, and the timestamps are a millisecond apart. -/
theorem not_accessUnit_two :
    let us : List (StartCode × NalUnit) :=
      [(.long, ⟨0x67, [0x42], by decide, by decide, by decide, by decide⟩),
        (.short, ⟨0x65, [0x88], by decide, by decide, by decide, by decide⟩)]
    let sent := drain ⟨.ilp32, fun _ => 0⟩ (Mem.holding 0 (annexB us)) 3 (fun i => ⟨2, i⟩)
      (packPut (openedHandle ⟨1400, 10⟩ (Mem.holding 0 []) ⟨1, 500⟩) (some 0)
        (annexB us).length)
    sent.stop = .zero ∧
      sent.packets.map (fun p => (decodeHeader p).map fun hdr => (hdr.timestamp, hdr.marker)) =
        [some (45000, 1), some (45090, 1)] ∧
      ¬ AccessUnit sent.packets := by
  intro us sent
  have hstop : sent.stop = .zero := by decide +kernel
  have hread : sent.packets.map (fun p => (decodeHeader p).map fun hdr =>
      (hdr.timestamp, hdr.marker)) = [some (45000, 1), some (45090, 1)] := by decide +kernel
  refine ⟨hstop, hread, ?_⟩
  intro hunit
  have hmarks : sent.packets.map (fun p => (decodeHeader p).map RtpHeader.marker) =
      [some 1, some 1] := by decide +kernel
  have hlen : sent.packets.length = 2 := by decide +kernel
  have hmarker := hunit.marker
  rw [hmarks, hlen] at hmarker
  exact absurd hmarker (by decide)

end RtpPack

end Camkit
