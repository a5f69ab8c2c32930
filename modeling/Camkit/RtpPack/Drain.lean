import Camkit.RtpPack.Refinement
/-!
# RTP packetiser — draining a buffer

A drain of the code is a drain of the sender, packet by packet, and a
drain of the sender from a unit boundary is `packetise` of the buffer's
units. Together: after `pack_put` the caller's loop ends, and yields the
wire forms of the packets of the units, or stops at the output-size check.
-/

namespace Camkit

namespace RtpPack

variable {T : Target} {mem : Mem} {h : PacHandle} {s : Session} {seq : UInt16}
variable {clock : ℕ → Timeb} {n : ℕ}

/-! ## The drain of the sender -/

/-- The caller's loop over the sender. -/
def Session.drain (s : Session) (T : Target) (mem : Mem) :
    ℕ → (ℕ → Timeb) → UInt16 → Phase → List Packet × Stop
  | 0, _, _, _ => ([], .more)
  | n + 1, clock, seq, ph =>
    match s.get T mem (clock 0) seq ph with
    | .error f => ([], .fault f)
    | .ok (_, none) => ([], .zero)
    | .ok (ph', some p) =>
      let rest := s.drain T mem n (fun i => clock (i + 1)) (seq + 1) ph'
      (p :: rest.1, rest.2)

/-- **A drain of the code is a drain of the sender.** -/
theorem drain_refines (T : Target) (mem : Mem) (n : ℕ) (clock : ℕ → Timeb) {ph : Phase}
    (hr : Runs s seq h) (hp : InPhase s h ph) :
    (drain T mem n clock h).packets =
        (s.drain T mem n clock seq ph).1.map (encode T s.ssrc.toUInt32) ∧
      (drain T mem n clock h).stop = (s.drain T mem n clock seq ph).2 := by
  induction n generalizing h seq ph clock with
  | zero => exact ⟨rfl, rfl⟩
  | succ n ih =>
    have hmatch : Matches T s seq (packGet T mem (clock 0) h) _ := packGet_refines hr hp
    rw [drain, Session.drain]
    generalize packGet T mem (clock 0) h = code at hmatch ⊢
    generalize s.get T mem (clock 0) seq ph = sender at hmatch ⊢
    cases hmatch with
    | fault f => exact ⟨rfl, rfl⟩
    | zero runs phase => exact ⟨rfl, rfl⟩
    | sent runs phase wire hseq hts =>
      obtain ⟨hpackets, hstop⟩ := ih _ runs phase
      refine ⟨?_, hstop⟩
      simp only [List.map_cons, wire]
      exact congrArg _ hpackets

/-- A loop allowed fewer calls yields the first packets of a longer one,
and stands as the longer one does if that had enough. -/
theorem drain_of_le (T : Target) (mem : Mem) (h : PacHandle) (clock : ℕ → Timeb) {N : ℕ}
    (hn : n ≤ N) :
    (drain T mem n clock h).packets = (drain T mem N clock h).packets.take n ∧
      (drain T mem n clock h).stop =
        if (drain T mem N clock h).packets.length < n then (drain T mem N clock h).stop
        else .more := by
  induction n generalizing N h clock with
  | zero => exact ⟨rfl, rfl⟩
  | succ n ih =>
    obtain ⟨N, rfl⟩ : ∃ k, N = k + 1 := ⟨N - 1, by omega⟩
    rw [drain, drain]
    cases packGet T mem (clock 0) h with
    | error f => exact ⟨rfl, (if_pos (Nat.succ_pos n)).symm⟩
    | ok r =>
      obtain ⟨h', out⟩ := r
      cases out with
      | none => exact ⟨rfl, (if_pos (Nat.succ_pos n)).symm⟩
      | some outsize =>
        obtain ⟨hpackets, hstop⟩ := ih h' (fun i => clock (i + 1))
          (Nat.le_of_succ_le_succ hn)
        refine ⟨congrArg (h'.packet outsize :: ·) hpackets, ?_⟩
        simp only [hstop, List.length_cons, Nat.add_lt_add_iff_right]

/-! ## The rest of a fragmented unit -/

theorem laterFus_of_lt {m : ℕ} {hdr : UInt8} {t : List UInt8} (hlt : t.length < m) :
    laterFus m hdr t = [(true, fuIndicatorOf hdr :: fuHeaderOf false true hdr :: t)] := by
  rw [laterFus, if_neg (by omega)]

theorem laterFus_of_le {m : ℕ} {hdr : UInt8} {t : List UInt8} (hpos : 0 < m)
    (hle : m ≤ t.length) :
    laterFus m hdr t =
      (false, fuIndicatorOf hdr :: fuHeaderOf false false hdr :: t.take m) ::
        laterFus m hdr (t.drop m) := by
  rw [laterFus, if_pos ⟨hpos, hle⟩]

@[simp] theorem length_stamp {ts : UInt32} {l : List (Bool × List UInt8)} :
    (stamp ts seq l).length = l.length := by
  induction l generalizing seq with
  | nil => rfl
  | cons p l ih => rw [stamp, List.length_cons, ih, List.length_cons]

/-- Calls one by one: the first packet, and the drain after it. -/
theorem drain_cons {ph : Phase} (ph' : Phase) {p : Packet}
    (hget : s.get T mem (clock 0) seq ph = .ok (ph', some p)) :
    s.drain T mem (n + 1) clock seq ph =
      (p :: (s.drain T mem n (fun i => clock (i + 1)) (seq + 1) ph').1,
        (s.drain T mem n (fun i => clock (i + 1)) (seq + 1) ph').2) := by
  rw [Session.drain, hget]

/-- One more packet on the sequence number. -/
theorem seq_add_succ (seq : UInt16) (k : ℕ) :
    seq + 1 + UInt16.ofNat k = seq + UInt16.ofNat (k + 1) := by
  rw [UInt16.ofNat_add, UInt16.add_assoc, UInt16.add_comm 1]
  rfl

/-- **The rest of a unit, drained**: its later fragments, and then what
the next unit gives. -/
theorem drain_fragment {next : Ptr} {hdr : UInt8} {ts : UInt32} {left : ℕ} {addr : ℤ} :
    s.drain T mem ((laterFus s.maxPktLen hdr (mem.bytes addr left)).length + n) clock seq
        (.fragment next hdr addr left ts) =
      (stamp ts seq (laterFus s.maxPktLen hdr (mem.bytes addr left)) ++
        (s.drain T mem n
          (fun i => clock (i + (laterFus s.maxPktLen hdr (mem.bytes addr left)).length))
          (seq + UInt16.ofNat (laterFus s.maxPktLen hdr (mem.bytes addr left)).length)
          (.unit next)).1,
       (s.drain T mem n
          (fun i => clock (i + (laterFus s.maxPktLen hdr (mem.bytes addr left)).length))
          (seq + UInt16.ofNat (laterFus s.maxPktLen hdr (mem.bytes addr left)).length)
          (.unit next)).2) := by
  -- each middle fragment takes its bytes off what is left
  induction left using Nat.strong_induction_on generalizing addr seq clock with
  | _ left ih =>
    rcases Nat.lt_or_ge left s.maxPktLen with hlt | hge
    · rw [laterFus_of_lt (by rwa [Mem.length_bytes]), List.length_singleton, Nat.add_comm 1 n,
        drain_cons (.unit next) (by rw [Session.get, Session.sendFragment, if_pos hlt])]
      rfl
    · have htake : (mem.bytes addr left).take s.maxPktLen = mem.bytes addr s.maxPktLen :=
        Mem.take_bytes hge
      have hdrop : (mem.bytes addr left).drop s.maxPktLen =
          mem.bytes (addr + s.maxPktLen) (left - s.maxPktLen) := Mem.drop_bytes hge
      have hpos := s.maxPktLen_pos
      rw [laterFus_of_le hpos (by rwa [Mem.length_bytes]), htake, hdrop, List.length_cons,
        Nat.succ_add,
        drain_cons (.fragment next hdr (addr + s.maxPktLen) (left - s.maxPktLen) ts)
          (by rw [Session.get, Session.sendFragment, if_neg (by omega)]),
        ih (left - s.maxPktLen) (by omega), seq_add_succ, stamp]
      simp only [Nat.add_assoc, List.cons_append]

/-! ## A buffer drained -/

theorem fragments_of_le {m len : ℕ} {data : ℤ} (hle : len + 1 ≤ m) :
    fragments m (mem.bytes data (len + 1)) = [(true, mem.bytes data (len + 1))] := by
  rw [Mem.bytes_succ, fragments, Mem.length_bytes, if_pos hle]

/-- A unit too long for one packet: its first fragment, and the later ones. -/
theorem fragments_of_gt {m len : ℕ} (mem : Mem) (data : ℤ) (hgt : ¬ len + 1 ≤ m) :
    fragments m (mem.bytes data (len + 1)) =
      (false, fuIndicatorOf (mem data) :: fuHeaderOf true false (mem data) ::
        mem.bytes (data + 1) m) ::
      laterFus m (mem data) (mem.bytes (data + 1 + m) (len - m)) := by
  have htake : (mem.bytes (data + 1) len).take m = mem.bytes (data + 1) m :=
    Mem.take_bytes (by omega)
  have hdrop : (mem.bytes (data + 1) len).drop m = mem.bytes (data + 1 + m) (len - m) :=
    Mem.drop_bytes (by omega)
  rw [Mem.bytes_succ, fragments, Mem.length_bytes, if_neg hgt, htake, hdrop]

/-- **A drain of the sender is `packetise` of the units.** The induction
is on the units; each is sent whole or as a first fragment and the rest. -/
theorem drain_unit {next : Ptr}
    (hn : (packetise T s.maxPktLen s.start seq clock (units mem s.inbuf s.size next)).1.length
      < n) :
    s.drain T mem n clock seq (.unit next) =
      ((packetise T s.maxPktLen s.start seq clock (units mem s.inbuf s.size next)).1,
        if (packetise T s.maxPktLen s.start seq clock (units mem s.inbuf s.size next)).2
        then .fault .abort else .zero) := by
  induction hus : units mem s.inbuf s.size next generalizing next seq clock n with
  | nil =>
    obtain ⟨n, rfl⟩ : ∃ k, n = k + 1 := ⟨n - 1, by omega⟩
    have hget : s.get T mem (clock 0) seq (.unit next) = .ok (.done, none) := by
      cases next with
      | none => rfl
      | some p =>
        by_cases hk : startCodeLen mem p = 0
        · rw [Session.get, if_pos hk]
        · rw [units_of_code hk] at hus
          exact absurd hus (List.cons_ne_nil _ _)
    rw [Session.drain, hget]
    rfl
  | cons u us ih =>
    rw [hus] at hn
    obtain ⟨n, rfl⟩ : ∃ k, n = k + 1 := ⟨n - 1, by omega⟩
    cases next with
    | none => rw [units_none] at hus; exact absurd hus.symm (List.cons_ne_nil _ _)
    | some p =>
      by_cases hk : startCodeLen mem p = 0
      · rw [units_of_not_code hk] at hus
        exact absurd hus.symm (List.cons_ne_nil _ _)
      · rw [units_of_code hk] at hus
        set data := p + startCodeLen mem p with hdata
        set found := findNextStartCode mem s.inbuf s.size data with hfound
        obtain ⟨hu, hus⟩ := List.cons.inj hus
        have hlt : data < found.1 := lt_findNextStartCode ..
        obtain ⟨len, hlen⟩ : ∃ len, (found.1 - data).toNat = len + 1 :=
          ⟨(found.1 - data).toNat - 1, by omega⟩
        have hulen : u.length = len + 1 := by rw [← hu, Mem.length_bytes, hlen]
        have hget : s.get T mem (clock 0) seq (.unit (some p)) =
            s.sendUnit mem (sampleOf T s.start (clock 0)) seq found.2 data (len + 1) := by
          rw [Session.get, if_neg hk, ← hlen]
        rw [hlen] at hu
        rw [packetise, hulen] at hn ⊢
        by_cases hbig : TooBig s.maxPktLen (len + 1)
        · rw [if_pos hbig, Session.drain, hget, Session.sendUnit, if_pos hbig]
          rfl
        · rw [if_neg hbig] at hn ⊢
          by_cases hle : len + 1 ≤ s.maxPktLen
          · -- the unit is one packet
            have hone : stamp (sampleOf T s.start (clock 0)) seq (fragments s.maxPktLen u) =
                [⟨true, seq, sampleOf T s.start (clock 0), u⟩] := by
              rw [← hu, fragments_of_le hle]
              rfl
            rw [hone] at hn ⊢
            simp only [List.length_append, List.length_singleton] at hn
            rw [show UInt16.ofNat 1 = 1 from rfl] at hn
            rw [drain_cons (.unit found.2) (p := ⟨true, seq, _, u⟩)
              (by rw [hget, Session.sendUnit, if_neg hbig, if_pos hle, hu]),
              ih (by rw [hus]; exact (by omega)) hus]
            rfl
          · -- a first fragment, and the later ones
            have hfrag := fragments_of_gt mem data hle
            rw [hu] at hfrag
            rw [hfrag] at hn ⊢
            simp only [length_stamp, List.length_append, List.length_cons] at hn ⊢
            set later := laterFus s.maxPktLen (mem data)
              (mem.bytes (data + 1 + s.maxPktLen) (len - s.maxPktLen)) with hlater
            obtain ⟨k, rfl⟩ : ∃ k, n = later.length + k := ⟨n - later.length, by omega⟩
            rw [drain_cons (.fragment found.2 (mem data) (data + 1 + s.maxPktLen)
                (len - s.maxPktLen) (sampleOf T s.start (clock 0)))
              (by rw [hget, Session.sendUnit, if_neg hbig, if_neg hle, Nat.add_sub_cancel]),
              hlater, drain_fragment, ← hlater, seq_add_succ]
            simp only [Nat.add_assoc]
            rw [ih (by rw [hus]; exact (by omega)) hus, stamp]
            simp only [List.cons_append]

/-! ## After `pack_put` -/

/-- The session `pack_put` begins. -/
def sessionOf (h : PacHandle) (inbuf : Ptr) (isize : ℤ) (m : ℕ) (hpos : 0 < m) : Session where
  inbuf := inbuf.addr
  size := isize
  maxPktLen := m
  ssrc := h.params.ssrc
  start := h.tsStartMillisec
  maxPktLen_pos := hpos

/-- `pack_put` leaves the handle at the first unit, whatever it was doing. -/
theorem runs_packPut {m : ℕ} (hpos : 0 < m) (hm : h.params.maxPktLen = m) (inbuf : Ptr)
    (isize : ℤ) :
    Runs (sessionOf h inbuf isize m hpos) h.seqNum (packPut h inbuf isize) ∧
      InPhase (sessionOf h inbuf isize m hpos) (packPut h inbuf isize) (.unit inbuf) :=
  ⟨⟨rfl, rfl, hm, rfl, rfl, rfl⟩, rfl, rfl, rfl⟩

/-- The packets of a buffer, for a handle that is given it. -/
def stream (T : Target) (mem : Mem) (clock : ℕ → Timeb) (m : ℕ) (h : PacHandle) (inbuf : Ptr)
    (isize : ℤ) : List Packet × Bool :=
  packetise T m h.tsStartMillisec h.seqNum clock (units mem inbuf.addr isize inbuf)

variable {m : ℕ} {inbuf : Ptr} {isize : ℤ}

/-- **What a caller's loop yields after `pack_put`**, with calls enough. -/
theorem drain_packPut (T : Target) (mem : Mem) (clock : ℕ → Timeb) (hpos : 0 < m)
    (hm : h.params.maxPktLen = m)
    (hn : (stream T mem clock m h inbuf isize).1.length < n) :
    (drain T mem n clock (packPut h inbuf isize)).packets =
        (stream T mem clock m h inbuf isize).1.map (encode T h.params.ssrc.toUInt32) ∧
      (drain T mem n clock (packPut h inbuf isize)).stop =
        if (stream T mem clock m h inbuf isize).2 then .fault .abort else .zero := by
  obtain ⟨hr, hp⟩ := runs_packPut hpos hm inbuf isize
  obtain ⟨hpackets, hstop⟩ := drain_refines T mem n clock hr hp
  rw [drain_unit (s := sessionOf h inbuf isize m hpos) hn] at hpackets hstop
  exact ⟨hpackets, hstop⟩

/-- And with any number of calls. -/
theorem drain_packPut_take (T : Target) (mem : Mem) (clock : ℕ → Timeb) (hpos : 0 < m)
    (hm : h.params.maxPktLen = m) (n : ℕ) :
    (drain T mem n clock (packPut h inbuf isize)).packets =
        ((stream T mem clock m h inbuf isize).1.map (encode T h.params.ssrc.toUInt32)).take n ∧
      (drain T mem n clock (packPut h inbuf isize)).stop =
        if (stream T mem clock m h inbuf isize).1.length < n then
          if (stream T mem clock m h inbuf isize).2 then .fault .abort else .zero
        else .more := by
  have henough : (stream T mem clock m h inbuf isize).1.length <
      n + ((stream T mem clock m h inbuf isize).1.length + 1) := by omega
  obtain ⟨hpackets, hstop⟩ := drain_of_le T mem (packPut h inbuf isize) clock
    (Nat.le_add_right n ((stream T mem clock m h inbuf isize).1.length + 1))
  obtain ⟨hall, hend⟩ := drain_packPut T mem clock hpos hm henough
  rw [hall] at hpackets hstop
  rw [hend, List.length_map] at hstop
  exact ⟨hpackets, hstop⟩

/-- Fragments of at most 10226 bytes always fit the output buffer. -/
theorem not_tooBig {len : ℕ} (hm : m ≤ 10226) : ¬ TooBig m len := by
  have hmax : maxOutbufSize = 10240 := rfl
  unfold TooBig
  split <;> omega

theorem packetise_snd {start : UInt32} {us : List (List UInt8)} (hm : m ≤ 10226) :
    (packetise T m start seq clock us).2 = false := by
  induction us generalizing seq clock with
  | nil => rfl
  | cons u us ih =>
    rw [packetise, if_neg (not_tooBig hm)]
    exact ih

end RtpPack

end Camkit
