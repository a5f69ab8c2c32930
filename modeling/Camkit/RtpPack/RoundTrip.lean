import Camkit.RtpPack.Drain
/-!
# RTP packetiser — packetise, then depacketise

The units of an Annex B buffer are the units it was made of, whatever the
start codes and whatever follows the buffer; a receiver puts the fragments
of a unit back together; so what a drain sends is what was put in.
-/

namespace Camkit

namespace RtpPack

variable {T : Target} {mem : Mem} {h : PacHandle} {clock : ℕ → Timeb}
variable {p data : ℤ} {m : ℕ} {hdr : UInt8}

/-! ## The units of a buffer -/

/-- No start code begins inside a unit past its header. -/
theorem startCodeLen_of_inside_unit (u : NalUnit)
    (hu : mem.bytes data u.bytes.length = u.bytes) {j : ℤ} (h₁ : data < j)
    (h₂ : j < data + u.bytes.length) : startCodeLen mem j = 0 := by
  refine startCodeLen_of_inside hu u.no_startCode ?_ h₁ h₂
  rw [NalUnit.bytes, List.getLast?_eq_some_getLast (List.cons_ne_nil _ _)]
  exact fun heq => u.last_ne_zero (Option.some.inj heq)

/-- **The units of an Annex B buffer are the units it was made of.** -/
theorem units_annexB {inbuf size : ℤ} {c : StartCode} {u : NalUnit}
    {us : List (StartCode × NalUnit)}
    (hmem : mem.bytes p (annexB ((c, u) :: us)).length = annexB ((c, u) :: us))
    (hend : p + (annexB ((c, u) :: us)).length = inbuf + size) :
    units mem inbuf size (some p) = ((c, u) :: us).map fun x => x.2.bytes := by
  induction us generalizing p c u with
  | nil =>
    simp only [annexB, List.append_nil] at hmem hend
    obtain ⟨hc, hu⟩ := Mem.bytes_append.mp hmem
    rw [List.length_append] at hend
    have hk : startCodeLen mem p = c.bytes.length := startCodeLen_of_bytes hc
    have hcpos := c.length_pos
    push_cast at hend
    have hscan : findNextStartCode mem inbuf size (p + c.bytes.length) = (inbuf + size, none) := by
      rw [findNextStartCode_eq_none fun j h₁ h₂ =>
        startCodeLen_of_inside_unit u hu h₁ (by omega)]
      rw [max_eq_right]
      have : 0 < u.bytes.length := Nat.succ_pos _
      omega
    rw [units_of_code (by omega), hk, hscan, units_none,
      show (inbuf + size - (p + (c.bytes.length : ℤ))).toNat = u.bytes.length by omega, hu]
    rfl
  | cons next us ih =>
    obtain ⟨c', u'⟩ := next
    rw [annexB, List.append_assoc] at hmem hend
    rw [List.length_append, List.length_append] at hend
    obtain ⟨hc, hmem⟩ := Mem.bytes_append.mp hmem
    obtain ⟨hu, hmem⟩ := Mem.bytes_append.mp hmem
    have hk : startCodeLen mem p = c.bytes.length := startCodeLen_of_bytes hc
    have hcpos := c.length_pos
    have hcpos' := c'.length_pos
    have hupos : 0 < u.bytes.length := Nat.succ_pos _
    have hlen' : c'.bytes.length ≤ (annexB ((c', u') :: us)).length := by
      rw [annexB, List.append_assoc, List.length_append]
      exact Nat.le_add_right _ _
    push_cast at hend
    set q := p + (c.bytes.length : ℤ) + (u.bytes.length : ℤ) with hq
    have hk' : startCodeLen mem q = c'.bytes.length := by
      refine startCodeLen_of_bytes ?_
      have htake := congrArg (List.take c'.bytes.length) hmem
      rw [Mem.take_bytes hlen', annexB, List.append_assoc, List.take_left' rfl] at htake
      exact htake
    have hscan : findNextStartCode mem inbuf size (p + c.bytes.length) = (q, some q) :=
      findNextStartCode_eq_some (by omega) (by omega) (by omega) fun j h₁ h₂ =>
        startCodeLen_of_inside_unit u hu h₁ h₂
    rw [units_of_code (by omega), hk, hscan,
      show (q - (p + (c.bytes.length : ℤ))).toNat = u.bytes.length by omega, hu,
      ih hmem (by omega)]
    rfl

/-! ## The receiver -/

theorem fuIndicatorOf_type (hdr : UInt8) : fuIndicatorOf hdr &&& 0x1f = 28 := by
  obtain ⟨hdr⟩ := hdr
  revert hdr
  decide +kernel

/-- The receiver has the unit header back from the two of a fragment. -/
theorem rebuild_header (s e : Bool) (hdr : UInt8) :
    (fuIndicatorOf hdr &&& 0xe0) ||| (fuHeaderOf s e hdr &&& 0x1f) = hdr := by
  obtain ⟨hdr⟩ := hdr
  revert s e hdr
  decide +kernel

/-- The start bit is set in the first fragment alone. -/
theorem fuHeaderOf_start (s e : Bool) (hdr : UInt8) :
    fuHeaderOf s e hdr &&& 0x80 = 0 ↔ s = false := by
  obtain ⟨hdr⟩ := hdr
  revert s e hdr
  decide +kernel

/-- And the end bit in the last. -/
theorem fuHeaderOf_end (s e : Bool) (hdr : UInt8) :
    fuHeaderOf s e hdr &&& 0x40 = 0 ↔ e = false := by
  obtain ⟨hdr⟩ := hdr
  revert s e hdr
  decide +kernel

variable {done : List (List UInt8)} {part fragment : List UInt8}

/-- A unit in one packet is done at once. -/
theorem receive_whole (u : NalUnit) :
    receive ⟨done, none⟩ u.bytes = some ⟨done ++ [u.bytes], none⟩ :=
  if_pos ⟨u.type_pos, u.type_le⟩

/-- A FU-A payload is not taken for a whole unit. -/
theorem receive_fu (a : Assembly) (s e : Bool) :
    receive a (fuIndicatorOf hdr :: fuHeaderOf s e hdr :: fragment) =
      match (if s then
          match a.pending with
          | none => some [hdr]
          | some _ => none
        else a.pending) with
      | none => none
      | some u =>
        if e then some ⟨a.done ++ [u ++ fragment], none⟩
        else some { a with pending := some (u ++ fragment) } := by
  unfold receive
  simp only [fuIndicatorOf_type, rebuild_header, fuHeaderOf_start, fuHeaderOf_end]
  rw [if_neg (by decide)]
  cases s <;> cases e <;> rfl

theorem receive_first :
    receive ⟨done, none⟩ (fuIndicatorOf hdr :: fuHeaderOf true false hdr :: fragment) =
      some ⟨done, some (hdr :: fragment)⟩ := by rw [receive_fu]; rfl

theorem receive_middle :
    receive ⟨done, some part⟩ (fuIndicatorOf hdr :: fuHeaderOf false false hdr :: fragment) =
      some ⟨done, some (part ++ fragment)⟩ := by rw [receive_fu]; rfl

theorem receive_last :
    receive ⟨done, some part⟩ (fuIndicatorOf hdr :: fuHeaderOf false true hdr :: fragment) =
      some ⟨done ++ [part ++ fragment], none⟩ := by rw [receive_fu]; rfl

/-- The later fragments complete the unit. -/
theorem receive_laterFus {t : List UInt8} (hpos : 0 < m) :
    ((laterFus m hdr t).map Prod.snd).foldlM receive ⟨done, some part⟩ =
      some ⟨done ++ [part ++ t], none⟩ := by
  -- fragment by fragment, each a prefix of what is left
  induction hlen : t.length using Nat.strong_induction_on generalizing t part with
  | _ len ih =>
    rcases Nat.lt_or_ge t.length m with hlt | hge
    · rw [laterFus_of_lt hlt, List.map_cons, List.map_nil, List.foldlM_cons, receive_last]
      rfl
    · rw [laterFus_of_le hpos hge, List.map_cons, List.foldlM_cons, receive_middle]
      change List.foldlM receive _ _ = _
      rw [ih (t.drop m).length (by rw [List.length_drop]; omega) rfl, List.append_assoc,
        List.take_append_drop]

/-- **The packets of a unit are received as that unit.** -/
theorem receive_fragments (hpos : 0 < m) (u : NalUnit) :
    ((fragments m u.bytes).map Prod.snd).foldlM receive ⟨done, none⟩ =
      some ⟨done ++ [u.bytes], none⟩ := by
  rw [NalUnit.bytes, fragments]
  split
  · rw [List.map_cons, List.map_nil, List.foldlM_cons]
    exact congrArg (· >>= _) (receive_whole u)
  · rw [List.map_cons, List.foldlM_cons, receive_first]
    change List.foldlM receive _ _ = _
    rw [receive_laterFus hpos, List.cons_append, List.take_append_drop]

theorem payload_stamp {ts : UInt32} {seq : UInt16} {l : List (Bool × List UInt8)} :
    (stamp ts seq l).map Packet.payload = l.map Prod.snd := by
  induction l generalizing seq with
  | nil => rfl
  | cons x l ih => rw [stamp, List.map_cons, ih, List.map_cons]

theorem receive_packetise {start : UInt32} {seq : UInt16} {us : List NalUnit} (hpos : 0 < m)
    (hm : m ≤ 10226) :
    ((packetise T m start seq clock (us.map NalUnit.bytes)).1.map Packet.payload).foldlM receive
      ⟨done, none⟩ = some ⟨done ++ us.map NalUnit.bytes, none⟩ := by
  induction us generalizing seq clock done with
  | nil => simp [packetise]
  | cons u us ih =>
    rw [List.map_cons, packetise, if_neg (not_tooBig hm)]
    simp only [List.map_append, payload_stamp, List.foldlM_append, receive_fragments hpos]
    change List.foldlM receive _ _ = _
    rw [ih, List.append_assoc, List.singleton_append]

/-! ## The round trip -/

/-- The packets of an Annex B buffer are those of its units. -/
theorem stream_annexB {us : List (StartCode × NalUnit)} {a : ℤ} (hne : us ≠ [])
    (hmem : mem.bytes a (annexB us).length = annexB us) :
    stream T mem clock m h (some a) (annexB us).length =
      packetise T m h.tsStartMillisec h.seqNum clock ((us.map Prod.snd).map NalUnit.bytes) := by
  obtain ⟨⟨c, u⟩, us, rfl⟩ := List.exists_cons_of_ne_nil hne
  refine congrArg (packetise T m h.tsStartMillisec h.seqNum clock) ?_
  rw [show (Ptr.addr (some a)) = a from rfl, units_annexB hmem rfl, List.map_map]
  rfl

/-- **Packetise then depacketise is the identity.** After `pack_put` of a
buffer made of units behind start codes of either length, the caller's
loop ends, and the packets it collected, less their headers, are received
as exactly those units, with nothing left pending. -/
theorem depacketise_drain_packPut {us : List (StartCode × NalUnit)} {a : ℤ} (hne : us ≠ [])
    (hM : 1 ≤ h.params.maxPktLen) (hM' : h.params.maxPktLen ≤ 10226)
    (hmem : mem.bytes a (annexB us).length = annexB us) :
    ∃ N, ∀ n ≥ N,
      (drain T mem n clock (packPut h (some a) (annexB us).length)).stop = .zero ∧
        depacketise ((drain T mem n clock (packPut h (some a) (annexB us).length)).packets.map
          (List.drop 12)) = some ⟨us.map fun x => x.2.bytes, none⟩ := by
  obtain ⟨m, hm⟩ : ∃ m : ℕ, h.params.maxPktLen = m := ⟨h.params.maxPktLen.toNat, by omega⟩
  have hpos : 0 < m := by omega
  refine ⟨(stream T mem clock m h (some a) (annexB us).length).1.length + 1, ?_⟩
  intro n hn
  obtain ⟨hpackets, hstop⟩ := drain_packPut T mem clock hpos hm hn
  rw [stream_annexB hne hmem] at hpackets hstop
  rw [packetise_snd (by omega)] at hstop
  refine ⟨hstop, ?_⟩
  rw [hpackets, List.map_map, show (List.drop 12 ∘ encode T h.params.ssrc.toUInt32) =
    Packet.payload from funext fun _ => drop_encode, depacketise,
    receive_packetise hpos (by omega), List.map_map]
  rfl

/-- A unit behind each start code, fragmented at three bytes, one of them
with a last fragment that is empty. -/
theorem depacketise_drain_packPut_two :
    let us : List (StartCode × NalUnit) :=
      [(.long, ⟨0x67, [0x42, 0, 0x1e], by decide, by decide, by decide, by decide⟩),
        (.short, ⟨0x65, [0x88, 0x80], by decide, by decide, by decide, by decide⟩)]
    let h := openedHandle ⟨3, 10⟩ (Mem.holding 0 []) ⟨1, 500⟩
    ∃ N, ∀ n ≥ N,
      (drain ⟨.ilp32, fun _ => 0⟩ (Mem.holding 0 (annexB us)) n (fun i => ⟨2, i⟩)
          (packPut h (some 0) (annexB us).length)).stop = .zero ∧
        depacketise ((drain ⟨.ilp32, fun _ => 0⟩ (Mem.holding 0 (annexB us)) n (fun i => ⟨2, i⟩)
          (packPut h (some 0) (annexB us).length)).packets.map (List.drop 12)) =
            some ⟨us.map fun x => x.2.bytes, none⟩ :=
  depacketise_drain_packPut (List.cons_ne_nil _ _) (by decide) (by decide) Mem.bytes_holding

end RtpPack

end Camkit
