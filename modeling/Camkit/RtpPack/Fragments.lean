import Camkit.RtpPack.Clock
import Camkit.RtpPack.Length
import Camkit.RtpPack.RoundTrip
import Mathlib.Algebra.Order.Floor.Div
/-!
# RTP packetiser — one unit, call by call

What `pack_get` does with a unit once `get_next_nalu` has delivered it: how
many calls it takes, what each copies and from where, and what a receiver
sees in the FU bytes. `copyOf` observes the `memcpy` of a call.
-/

namespace Camkit

namespace RtpPack

variable {T : Target} {mem : Mem} {tb : Timeb} {h h' h₁ : PacHandle} {s : Session} {seq : UInt16}
variable {clock : ℕ → Timeb} {next : Ptr} {hdr : UInt8} {addr d : ℤ} {left : ℕ} {ts : UInt32}

/-! ## The copy of a call -/

/-- The arguments of a `memcpy` into the output buffer, as `memcpyOut` has
them. -/
structure Memcpy where
  off : ℤ
  src : Ptr
  disp : ℤ
  n : ℤ
  deriving DecidableEq, Repr

/-- The address a `memcpy` reads from. -/
def Memcpy.source (c : Memcpy) : Ptr := c.src.map (· + c.disp)

/-- The copy made of a NALU just found. -/
def newCopy (h : PacHandle) : Memcpy :=
  if h.nalu.len ≤ h.params.maxPktLen then ⟨13, h.nalu.data, 1, h.nalu.len - 1⟩
  else ⟨14, h.nalu.data, 1, h.params.maxPktLen⟩

/-- The copy made in the middle of a fragmented NALU. -/
def remainingCopy (h : PacHandle) : Memcpy :=
  if h.fuIndex = h.fuCounter then
    ⟨14, h.nalu.data, 1 + h.fuIndex * h.params.maxPktLen, h.lastFuSize - 1⟩
  else ⟨14, h.nalu.data, 1 + h.fuIndex * h.params.maxPktLen, h.params.maxPktLen⟩

/-- The `memcpy` a call of `pack_get` comes to, if it comes to one. -/
def copyOf (mem : Mem) (h : PacHandle) : Option Memcpy :=
  if h.inbufComplete then none
  else if h.naluComplete then
    let found := getNextNalu mem h
    if found.2 ≤ 0 then none else some (newCopy found.1)
  else some (remainingCopy h)

/-- A call sends a packet: it copies `n` bytes from `a` into the output
buffer, behind `off` bytes of headers. -/
structure Sends (T : Target) (mem : Mem) (tb : Timeb) (h h' : PacHandle) (off a n : ℤ) : Prop where
  get : packGet T mem tb h = .ok (h', some (off + n))
  copy : ∃ c buf, copyOf mem h = some c ∧
    memcpyOut buf c.off mem c.src c.disp c.n = .ok h'.outbuf ∧
    c.off = off ∧ c.source = some a ∧ c.n = n

variable {outsize : ℤ}

/-- What the four branches share: a checked size, and then one copy. -/
theorem checked_ok {α β : Type} {x : Except Fault α} {f : α → β} {r : β}
    (hok : (do checkSize outsize; let buf ← x; return f buf) = .ok r) :
    ∃ buf, x = .ok buf ∧ f buf = r := by
  cases hcheck : checkSize outsize with
  | error e =>
    rw [hcheck] at hok
    exact absurd hok (by simp [Bind.bind, Except.bind])
  | ok _ =>
    rw [hcheck] at hok
    cases x with
    | error e => exact absurd hok (by simp [Bind.bind, Except.bind])
    | ok buf => exact ⟨buf, rfl, Except.ok.inj hok⟩

theorem sendSingle_ok (hok : sendSingle mem h = .ok (h', some outsize)) :
    ∃ buf, memcpyOut buf 13 mem h.nalu.data 1 (h.nalu.len - 1) = .ok h'.outbuf ∧
      outsize = 13 + (h.nalu.len - 1) := by
  obtain ⟨buf, hcopy, heq⟩ := checked_ok hok
  obtain ⟨rfl, hsize⟩ := Prod.mk.inj heq
  refine ⟨_, hcopy, ?_⟩
  rw [← Option.some.inj hsize]
  ring

theorem sendFirstFu_ok (hok : sendFirstFu mem h = .ok (h', some outsize)) :
    ∃ buf, memcpyOut buf 14 mem h.nalu.data 1 h.params.maxPktLen = .ok h'.outbuf ∧
      outsize = 14 + h.params.maxPktLen := by
  rw [sendFirstFu] at hok
  cases hcalc : calculateFragments h with
  | error e =>
    rw [hcalc] at hok
    exact absurd hok (by simp [Bind.bind, Except.bind])
  | ok h₀ =>
    have hsame : h₀.nalu = h.nalu ∧ h₀.params = h.params := by
      unfold calculateFragments at hcalc
      split_ifs at hcalc
      · obtain rfl := Except.ok.inj hcalc
        exact ⟨rfl, rfl⟩
      · obtain rfl := Except.ok.inj hcalc
        exact ⟨rfl, rfl⟩
    rw [hcalc] at hok
    obtain ⟨buf, hcopy, heq⟩ := checked_ok hok
    obtain ⟨rfl, hsize⟩ := Prod.mk.inj heq
    rw [hsame.1, hsame.2] at hcopy
    refine ⟨_, hcopy, ?_⟩
    rw [← Option.some.inj hsize, hsame.2]
    ring

theorem sendLastFu_ok (hok : sendLastFu mem h = .ok (h', some outsize)) :
    ∃ buf, memcpyOut buf 14 mem h.nalu.data (1 + h.fuIndex * h.params.maxPktLen)
      (h.lastFuSize - 1) = .ok h'.outbuf ∧ outsize = 14 + (h.lastFuSize - 1) := by
  obtain ⟨buf, hcopy, heq⟩ := checked_ok hok
  obtain ⟨rfl, hsize⟩ := Prod.mk.inj heq
  refine ⟨_, hcopy, ?_⟩
  rw [← Option.some.inj hsize]
  ring

theorem sendMiddleFu_ok (hok : sendMiddleFu mem h = .ok (h', some outsize)) :
    ∃ buf, memcpyOut buf 14 mem h.nalu.data (1 + h.fuIndex * h.params.maxPktLen)
      h.params.maxPktLen = .ok h'.outbuf ∧ outsize = 14 + h.params.maxPktLen := by
  obtain ⟨buf, hcopy, heq⟩ := checked_ok hok
  obtain ⟨rfl, hsize⟩ := Prod.mk.inj heq
  refine ⟨_, hcopy, ?_⟩
  rw [← Option.some.inj hsize]
  ring

/-- The output buffer has no part in finding the next unit. -/
theorem getNextNalu_setCommonHeader :
    getNextNalu mem (setCommonHeader T h) =
      (setCommonHeader T (getNextNalu mem h).1, (getNextNalu mem h).2) := by
  unfold getNextNalu
  rw [show (setCommonHeader T h).nextNaluPtr = h.nextNaluPtr from rfl]
  cases h.nextNaluPtr with
  | none => rfl
  | some cur =>
    dsimp only
    split_ifs
    · rfl
    · rfl
    · rfl

/-- **Every packet is made by one copy**, the one `copyOf` tells, and is as
long as it and the headers before it. -/
theorem packGet_copy (hok : packGet T mem tb h = .ok (h', some outsize)) :
    ∃ c buf, copyOf mem h = some c ∧
      memcpyOut buf c.off mem c.src c.disp c.n = .ok h'.outbuf ∧ outsize = c.off + c.n := by
  have hflag : (setCommonHeader T h).naluComplete = h.naluComplete := rfl
  simp only [packGet, getNextNalu_setCommonHeader, hflag] at hok
  split_ifs at hok with hdone hc hret
  · exact absurd (Prod.mk.inj (Except.ok.inj hok)).2 (by simp)
  · exact absurd (Prod.mk.inj (Except.ok.inj hok)).2 (by simp)
  · have hcopy : copyOf mem h = some (newCopy (getNextNalu mem h).1) := by
      rw [copyOf, if_neg hdone, if_pos hc, if_neg hret]
    refine ⟨newCopy (getNextNalu mem h).1, ?_⟩
    by_cases hle : (getNextNalu mem h).1.nalu.len ≤ (getNextNalu mem h).1.params.maxPktLen
    · replace hok := (if_pos hle).symm.trans hok
      obtain ⟨buf, hmem, hsize⟩ := sendSingle_ok hok
      refine ⟨buf, hcopy, ?_⟩
      rw [newCopy, if_pos hle]
      exact ⟨hmem, hsize⟩
    · replace hok := (if_neg hle).symm.trans hok
      obtain ⟨buf, hmem, hsize⟩ := sendFirstFu_ok hok
      refine ⟨buf, hcopy, ?_⟩
      rw [newCopy, if_neg hle]
      exact ⟨hmem, hsize⟩
  · have hcopy : copyOf mem h = some (remainingCopy h) := by
      rw [copyOf, if_neg hdone, if_neg hc]
    refine ⟨remainingCopy h, ?_⟩
    by_cases hlast : h.fuIndex = h.fuCounter
    · replace hok := (if_pos hlast).symm.trans hok
      obtain ⟨buf, hmem, hsize⟩ := sendLastFu_ok hok
      refine ⟨buf, hcopy, ?_⟩
      rw [remainingCopy, if_pos hlast]
      exact ⟨hmem, hsize⟩
    · replace hok := (if_neg hlast).symm.trans hok
      obtain ⟨buf, hmem, hsize⟩ := sendMiddleFu_ok hok
      refine ⟨buf, hcopy, ?_⟩
      rw [remainingCopy, if_neg hlast]
      exact ⟨hmem, hsize⟩

/-- A call that returns a packet, and what its copy is. -/
theorem sends_of_copy {c : Memcpy} {off a n : ℤ}
    (hget : packGet T mem tb h = .ok (h', some (off + n))) (hcopy : copyOf mem h = some c)
    (hoff : c.off = off) (hsource : c.source = some a) (hn : c.n = n) :
    Sends T mem tb h h' off a n := by
  obtain ⟨c', buf, hcopy', hmem, -⟩ := packGet_copy hget
  obtain rfl : c' = c := Option.some.inj (hcopy'.symm.trans hcopy)
  exact ⟨hget, c', buf, hcopy', hmem, hoff, hsource, hn⟩

/-! ## What a receiver sees -/

/-- The FU bytes of a packet: the type in the indicator, the `S`, `E` and
`R` bits of the header, and the bytes of the unit. -/
structure FuView where
  type : UInt8
  s : Bool
  e : Bool
  r : Bool
  payload : List UInt8
  deriving DecidableEq, Repr

/-- A packet read as an FU. -/
def fuView (pkt : List UInt8) : Option FuView :=
  match pkt.drop 12 with
  | ind :: fu :: payload =>
    some ⟨ind &&& 0x1f, fu &&& 0x80 != 0, fu &&& 0x40 != 0, fu &&& 0x20 != 0, payload⟩
  | _ => none

theorem fuHeaderOf_reserved (s e : Bool) (hdr : UInt8) : fuHeaderOf s e hdr &&& 0x20 = 0 := by
  obtain ⟨hdr⟩ := hdr
  revert s e hdr
  decide +kernel

theorem fuView_encode {ssrc : UInt32} {marker st e : Bool} {payload : List UInt8} :
    fuView (encode T ssrc ⟨marker, seq, ts, fuIndicatorOf hdr :: fuHeaderOf st e hdr :: payload⟩) =
      some ⟨28, st, e, false, payload⟩ := by
  have hs : (fuHeaderOf st e hdr &&& 0x80 != 0) = st := by
    rw [bne, Bool.eq_iff_iff, Bool.not_eq_true', beq_eq_false_iff_ne, ne_eq, fuHeaderOf_start]
    simp
  have he : (fuHeaderOf st e hdr &&& 0x40 != 0) = e := by
    rw [bne, Bool.eq_iff_iff, Bool.not_eq_true', beq_eq_false_iff_ne, ne_eq, fuHeaderOf_end]
    simp
  unfold fuView
  rw [drop_encode]
  simp only [fuIndicatorOf_type, hs, he, fuHeaderOf_reserved]
  rfl

/-! ## The calls -/

/-- The size returned is that of the packet. -/
theorem outsize_eq {ssrc : UInt32} {p : Packet} {outsize : ℤ}
    (hpkt : h.packet outsize = encode T ssrc p) : outsize = 12 + p.payload.length := by
  have hlen := congrArg List.length hpkt
  rw [PacHandle.packet, Mem.length_bytes, encode, List.length_append, length_wireHeader] at hlen
  omega

/-- The copy of a call in the middle of a unit. -/
theorem remainingCopy_eq (hr : Runs s seq h) (hp : Fragmenting s h next hdr addr left ts) :
    (remainingCopy h).off = 14 ∧ (remainingCopy h).source = some addr ∧
      (remainingCopy h).n = (min left s.maxPktLen : ℕ) := by
  obtain ⟨d, hd, haddr⟩ := hp.data
  have haddr' : d + (1 + h.fuIndex * (s.maxPktLen : ℤ)) = addr := by
    rw [haddr]
    ring
  have hiff : h.fuIndex = h.fuCounter ↔ left < s.maxPktLen := by
    rw [hp.counter, ← Nat.div_eq_zero_iff_lt s.maxPktLen_pos]
    omega
  unfold remainingCopy
  simp only [hiff, hr.maxPktLen, hd]
  split
  · rename_i hlt
    rw [hp.last, Nat.mod_eq_of_lt hlt, Nat.min_eq_left hlt.le, ← haddr']
    exact ⟨rfl, rfl, add_sub_cancel_right _ _⟩
  · rename_i hge
    rw [Nat.min_eq_right (by omega), ← haddr']
    exact ⟨rfl, rfl, rfl⟩

/-- **A call in the middle of a unit** sends as much of what is left as a
fragment holds. -/
theorem sends_fragment (T : Target) (mem : Mem) (tb : Timeb) (hr : Runs s seq h)
    (hp : InPhase s h (.fragment next hdr addr left ts)) :
    ∃ h', Sends T mem tb h h' 14 addr (min left s.maxPktLen : ℕ) ∧ Runs s (seq + 1) h' ∧
      InPhase s h' (s.sendFragment mem seq next hdr addr left ts).1 ∧
      h'.packet (14 + (min left s.maxPktLen : ℕ)) =
        encode T s.ssrc.toUInt32 (s.sendFragment mem seq next hdr addr left ts).2 := by
  have hfrag : Fragmenting s h next hdr addr left ts := hp
  have hlen : ((s.sendFragment mem seq next hdr addr left ts).2.payload.length : ℤ) =
      2 + (min left s.maxPktLen : ℕ) := by
    unfold Session.sendFragment
    split
    · simp only [List.length_cons, Mem.length_bytes]
      omega
    · simp only [List.length_cons, Mem.length_bytes]
      omega
  have hmatch : Matches T s seq (packGet T mem tb h) _ := packGet_refines hr hp
  have hget : s.get T mem tb seq (.fragment next hdr addr left ts) =
      .ok ((s.sendFragment mem seq next hdr addr left ts).1,
        some (s.sendFragment mem seq next hdr addr left ts).2) := rfl
  rw [hget] at hmatch
  generalize hcode : packGet T mem tb h = code at hmatch
  cases hmatch with
  | @sent h' _ outsize _ runs phase wire hseq hts =>
    obtain rfl : outsize = 14 + (min left s.maxPktLen : ℕ) := by
      rw [outsize_eq wire, hlen]
      omega
    obtain ⟨hoff, hsource, hn⟩ := remainingCopy_eq hr hfrag
    have hcopy : copyOf mem h = some (remainingCopy h) := by
      rw [copyOf, if_neg (by simp [hfrag.running]), if_neg (by simp [hfrag.inside])]
    exact ⟨h', sends_of_copy hcode hcopy hoff hsource hn, runs, phase, wire⟩

/-- A unit the buffer has next, as `get_next_nalu` delivers it. -/
theorem getNextNalu_one (hnalu : getNextNalu mem h = (h₁, 1)) :
    ∃ p, h.nextNaluPtr = some p ∧ startCodeLen mem p ≠ 0 ∧
      h₁ = takeNalu mem h p (startCodeLen mem p) := by
  cases hp : h.nextNaluPtr with
  | none => exact absurd ((getNextNalu_of_none hp).symm.trans hnalu) (by simp)
  | some p =>
    by_cases hk : startCodeLen mem p = 0
    · exact absurd ((getNextNalu_of_not_code hp hk).symm.trans hnalu) (by simp)
    · exact ⟨p, rfl, hk, (Prod.mk.inj ((getNextNalu_of_code hp hk).symm.trans hnalu)).1.symm⟩

/-- **The first call on a unit** sends it whole, or as much of it as a
fragment holds. -/
theorem sends_unit {L m : ℕ} (tb : Timeb) (hm : h.params.maxPktLen = m) (hpos : 0 < m)
    (hm' : m ≤ 10226) (hrun : h.inbufComplete = false) (hc : h.naluComplete = true)
    (hnalu : getNextNalu mem h = (h₁, 1)) (hd : h₁.nalu.data = some d) (hL : h₁.nalu.len = L) :
    1 ≤ L ∧ ∃ h' s, s.maxPktLen = m ∧ Runs s (h.seqNum + 1) h' ∧
      (L ≤ m → Sends T mem tb h h' 13 (d + 1) (L - 1) ∧ h'.naluComplete = true ∧
        h'.packet (L + 12) = encode T h.params.ssrc.toUInt32
          ⟨true, h.seqNum, sampleOf T h.tsStartMillisec tb, mem.bytes d L⟩) ∧
      (m < L → Sends T mem tb h h' 14 (d + 1) m ∧
        InPhase s h' (.fragment h₁.nextNaluPtr (mem d) (d + 1 + m) (L - 1 - m)
          (sampleOf T h.tsStartMillisec tb)) ∧
        h'.packet (14 + m) = encode T h.params.ssrc.toUInt32
          ⟨false, h.seqNum, sampleOf T h.tsStartMillisec tb, fuIndicatorOf (mem d) ::
            fuHeaderOf true false (mem d) :: mem.bytes (d + 1) m⟩) := by
  obtain ⟨p, hp, hk, rfl⟩ := getNextNalu_one hnalu
  obtain rfl : p + startCodeLen mem p = d := Option.some.inj hd
  set data := p + startCodeLen mem p with hdata
  set found := findNextStartCode mem h.inbuf.addr h.inbufSize data with hfound
  have hlt : data < found.1 := lt_findNextStartCode ..
  have hlen : found.1 - p - startCodeLen mem p = L := hL
  have hL1 : 1 ≤ L := by omega
  set s : Session := ⟨h.inbuf.addr, h.inbufSize, m, h.params.ssrc, h.tsStartMillisec, hpos⟩ with hs
  have hr : Runs s h.seqNum h := ⟨rfl, rfl, hm, rfl, rfl, rfl⟩
  have hphase : InPhase s h (.unit (some p)) := ⟨hrun, hc, hp⟩
  have hbig : ¬ TooBig m L := not_tooBig hm'
  have hmatch : Matches T s h.seqNum (packGet T mem tb h) _ := packGet_refines hr hphase
  have hget : s.get T mem tb h.seqNum (.unit (some p)) =
      s.sendUnit mem (sampleOf T h.tsStartMillisec tb) h.seqNum found.2 data L := by
    have hnat : (found.1 - data).toNat = L := by omega
    rw [Session.get, if_neg hk, ← hnat]
  have hcopy : copyOf mem h = some (newCopy (takeNalu mem h p (startCodeLen mem p))) := by
    rw [copyOf, if_neg (by simp [hrun]), if_pos hc, hnalu, if_neg (by simp)]
  have hlen' : (takeNalu mem h p (startCodeLen mem p)).nalu.len = L := hL
  have hdata' : (takeNalu mem h p (startCodeLen mem p)).nalu.data = some data := rfl
  have hM : (takeNalu mem h p (startCodeLen mem p)).params.maxPktLen = m := hm
  rw [hget, Session.sendUnit, if_neg hbig] at hmatch
  refine ⟨hL1, ?_⟩
  by_cases hle : L ≤ m
  · rw [if_pos hle] at hmatch
    generalize hcode : packGet T mem tb h = code at hmatch
    cases hmatch with
    | @sent h' _ outsize _ runs phase wire hseq hts =>
      obtain rfl : outsize = 13 + ((L : ℤ) - 1) := by
        rw [outsize_eq wire, Mem.length_bytes]
        omega
      rw [newCopy, if_pos (by rw [hlen', hM]; omega), hlen', hdata'] at hcopy
      refine ⟨h', s, rfl, runs, fun _ => ⟨sends_of_copy hcode hcopy rfl rfl rfl, phase.2.1, ?_⟩,
        fun hgt => ?_⟩
      · rw [show (L : ℤ) + 12 = 13 + ((L : ℤ) - 1) by omega]
        exact wire
      · omega
  · rw [if_neg hle] at hmatch
    generalize hcode : packGet T mem tb h = code at hmatch
    cases hmatch with
    | @sent h' _ outsize _ runs phase wire hseq hts =>
      obtain rfl : outsize = 14 + (m : ℤ) := by
        rw [outsize_eq wire, List.length_cons, List.length_cons, Mem.length_bytes,
          show s.maxPktLen = m from rfl]
        push_cast
        ring
      rw [newCopy, if_neg (by rw [hlen', hM]; omega), hdata', hM] at hcopy
      exact ⟨h', s, rfl, runs, fun hle' => absurd hle' hle,
        fun _ => ⟨sends_of_copy hcode hcopy rfl rfl rfl, phase, wire⟩⟩

/-- **The calls on the rest of a unit**, one for each fragment: whole ones,
and then the last, shorter one. -/
theorem sends_fragments (T : Target) (mem : Mem) (clock : ℕ → Timeb) (hr : Runs s seq h)
    (hp : InPhase s h (.fragment next hdr addr left ts)) :
    ∃ hs : ℕ → PacHandle, hs 0 = h ∧ (hs (left / s.maxPktLen + 1)).naluComplete = true ∧
      ∀ i ≤ left / s.maxPktLen, (hs i).naluComplete = false ∧
        Sends T mem (clock i) (hs i) (hs (i + 1)) 14 (addr + (i * s.maxPktLen : ℕ))
          (min (left - i * s.maxPktLen) s.maxPktLen : ℕ) ∧
        (hs (i + 1)).packet (14 + (min (left - i * s.maxPktLen) s.maxPktLen : ℕ)) =
          encode T s.ssrc.toUInt32 ⟨i = left / s.maxPktLen, seq + UInt16.ofNat i, ts,
            fuIndicatorOf hdr :: fuHeaderOf false (i = left / s.maxPktLen) hdr ::
              mem.bytes (addr + (i * s.maxPktLen : ℕ))
                (min (left - i * s.maxPktLen) s.maxPktLen)⟩ := by
  -- on the number of whole fragments left
  induction hk : left / s.maxPktLen generalizing left addr seq h clock with
  | zero =>
    have hlt : left < s.maxPktLen := (Nat.div_eq_zero_iff_lt s.maxPktLen_pos).mp hk
    obtain ⟨h', hsend, -, hphase, hpkt⟩ := sends_fragment T mem (clock 0) hr hp
    rw [Session.sendFragment, if_pos hlt] at hphase hpkt
    refine ⟨fun i => if i = 0 then h else h', rfl, hphase.2.1, ?_⟩
    rintro i hi
    obtain rfl : i = 0 := by omega
    simp only [Nat.zero_mul, Nat.sub_zero, Nat.cast_zero, add_zero]
    refine ⟨hp.inside, hsend, hpkt.trans ?_⟩
    rw [Nat.min_eq_left hlt.le, show seq + UInt16.ofNat 0 = seq from UInt16.add_zero seq]
    rfl
  | succ k ih =>
    have hge : ¬ left < s.maxPktLen := by
      intro hlt
      rw [Nat.div_eq_of_lt hlt] at hk
      omega
    obtain ⟨h', hsend, hr', hphase, hpkt⟩ := sends_fragment T mem (clock 0) hr hp
    rw [Session.sendFragment, if_neg hge] at hphase hpkt
    have hk' : (left - s.maxPktLen) / s.maxPktLen = k := by
      rw [Nat.div_eq left, if_pos ⟨s.maxPktLen_pos, by omega⟩] at hk
      omega
    obtain ⟨hs, rfl, hdone, hall⟩ := ih (fun i => clock (i + 1)) hr' hphase hk'
    refine ⟨fun i => i.casesOn h hs, rfl, hdone, ?_⟩
    intro i hi
    cases i with
    | zero =>
      simp only [Nat.zero_mul, Nat.sub_zero, Nat.cast_zero, add_zero]
      refine ⟨hp.inside, hsend, hpkt.trans ?_⟩
      rw [Nat.min_eq_right (by omega), show seq + UInt16.ofNat 0 = seq from UInt16.add_zero seq]
      rfl
    | succ i =>
      obtain ⟨hinside, hsend', hpkt'⟩ := hall i (by omega)
      have haddr : addr + s.maxPktLen + (i * s.maxPktLen : ℕ) =
          addr + ((i + 1) * s.maxPktLen : ℕ) := by
        push_cast
        ring
      have hleft : left - s.maxPktLen - i * s.maxPktLen = left - (i + 1) * s.maxPktLen := by
        rw [Nat.sub_sub, Nat.succ_mul, Nat.add_comm]
      rw [haddr, hleft] at hsend' hpkt'
      refine ⟨hinside, hsend', hpkt'.trans ?_⟩
      rw [seq_add_succ]
      simp only [Nat.add_right_cancel_iff]

/-! ## A whole unit -/

/-- The bytes of a unit of `L` bytes in its FU number `i`. -/
def fuSize (m L i : ℕ) : ℕ :=
  if i + 1 = L ⌈/⌉ m then L - 1 - (L ⌈/⌉ m - 1) * m else m

theorem ceilDiv_eq {m L : ℕ} (hpos : 0 < m) (hL : 1 ≤ L) : L ⌈/⌉ m = (L - 1) / m + 1 := by
  rw [Nat.ceilDiv_eq_add_pred_div, show L + m - 1 = L - 1 + m by omega, Nat.add_div_right _ hpos]

theorem pred_ceilDiv_mul_le {m L : ℕ} (hpos : 0 < m) (hL : 1 ≤ L) :
    (L ⌈/⌉ m - 1) * m ≤ L - 1 := by
  rw [ceilDiv_eq hpos hL, Nat.add_sub_cancel]
  exact Nat.div_mul_le_self _ _

/-- The size of an FU after the first, from what is left then. -/
theorem fuSize_succ {m L i : ℕ} (hpos : 0 < m) (hL : m < L) (hi : i ≤ (L - 1 - m) / m) :
    fuSize m L (i + 1) = min (L - 1 - m - i * m) m := by
  have hceil : L ⌈/⌉ m = (L - 1 - m) / m + 2 := by
    rw [ceilDiv_eq hpos (by omega), Nat.div_eq (L - 1), if_pos ⟨hpos, by omega⟩]
  have hsucc : (i + 1) * m = i * m + m := Nat.succ_mul i m
  unfold fuSize
  rw [hceil]
  split
  · rename_i hlast
    obtain rfl : i = (L - 1 - m) / m := by omega
    have hmod : L - 1 - m - (L - 1 - m) / m * m = (L - 1 - m) % m := by
      rw [Nat.mod_eq_sub_div_mul]
    have hlt := Nat.mod_lt (L - 1 - m) hpos
    rw [hmod, Nat.min_eq_left hlt.le, ← hmod,
      show (L - 1 - m) / m + 2 - 1 = (L - 1 - m) / m + 1 from rfl, hsucc]
    generalize (L - 1 - m) / m * m = x
    omega
  · have hle : (i + 1) * m ≤ L - 1 - m :=
      (Nat.mul_le_mul_right m (show i + 1 ≤ (L - 1 - m) / m by omega)).trans
        (Nat.div_mul_le_self _ _)
    rw [Nat.min_eq_right (by omega)]

/-- An FU is inside its unit. -/
theorem fuSize_le {m L i : ℕ} (hpos : 0 < m) (hL : 1 ≤ L) (hi : i < L ⌈/⌉ m) :
    fuSize m L i ≤ m ∧ 1 + i * m + fuSize m L i ≤ L := by
  have hmul := pred_ceilDiv_mul_le hpos hL
  unfold fuSize
  split
  · rename_i hlast
    obtain rfl : i = L ⌈/⌉ m - 1 := by omega
    have hmod := Nat.mod_lt (L - 1) hpos
    rw [Nat.mod_eq_sub_div_mul] at hmod
    rw [ceilDiv_eq hpos hL, Nat.add_sub_cancel] at hmul ⊢
    omega
  · have hle : (i + 1) * m ≤ (L ⌈/⌉ m - 1) * m := Nat.mul_le_mul_right m (by omega)
    rw [Nat.succ_mul] at hle
    omega

/-- A copy of `n` bytes from `a` reads inside the unit of `L` bytes at `d`
and writes inside the output buffer, and the packet it ends is at most
`m + 14` bytes long. -/
structure Within (d : ℤ) (L m : ℕ) (off a n : ℤ) : Prop where
  length : 0 ≤ n
  low : d ≤ a
  high : a + n ≤ d + L
  outbuf : off + n ≤ maxOutbufSize
  budget : off + n ≤ m + 14

/-- **Fragmentation is exact.** A unit of `L` bytes that `get_next_nalu`
delivers is sent by one call, as a packet of `L + 12` bytes, if it fits;
and else by `⌈L / m⌉` calls, two or more, as FU-As with one timestamp: `S`
is set in the first, `E` in the last, and each has `m` bytes of the unit
but the last, which has what is left. No call aborts, and each copy stays
in the unit and in the output buffer. -/
theorem fragmentation_exact (T : Target) (clock : ℕ → Timeb) {L m : ℕ}
    (hm : h.params.maxPktLen = m) (hpos : 1 ≤ m) (hm' : m ≤ 10226)
    (hrun : h.inbufComplete = false) (hc : h.naluComplete = true)
    (hnalu : getNextNalu mem h = (h₁, 1)) (hd : h₁.nalu.data = some d) (hL : h₁.nalu.len = L) :
    1 ≤ L ∧
    (L ≤ m → ∃ h', Sends T mem (clock 0) h h' 13 (d + 1) (L - 1) ∧
      Within d L m 13 (d + 1) (L - 1) ∧ h'.naluComplete = true ∧
      (h'.packet (L + 12)).length = L + 12 ∧ (h'.packet (L + 12)).drop 12 = mem.bytes d L) ∧
    (m < L → 2 ≤ L ⌈/⌉ m ∧ (L ⌈/⌉ m - 1) * m ≤ L - 1 ∧ ∃ (ts : ℕ) (hs : ℕ → PacHandle),
      hs 0 = h ∧ (hs (L ⌈/⌉ m)).naluComplete = true ∧ ∀ i < L ⌈/⌉ m,
        (0 < i → (hs i).naluComplete = false) ∧
        Sends T mem (clock i) (hs i) (hs (i + 1)) 14 (d + 1 + (i * m : ℕ)) (fuSize m L i) ∧
        Within d L m 14 (d + 1 + (i * m : ℕ)) (fuSize m L i) ∧
        storedTimestamp T (hs (i + 1)) = ts ∧
        fuView ((hs (i + 1)).packet (14 + fuSize m L i)) =
          some ⟨28, i = 0, i + 1 = L ⌈/⌉ m, false,
            mem.bytes (d + 1 + (i * m : ℕ)) (fuSize m L i)⟩) := by
  have hmax : maxOutbufSize = 10240 := rfl
  obtain ⟨hL1, h', s, rfl, hr, hone, hmany⟩ :=
    sends_unit (T := T) (clock 0) hm hpos hm' hrun hc hnalu hd hL
  refine ⟨hL1, ?_, ?_⟩
  · intro hle
    obtain ⟨hsend, hdone, hpkt⟩ := hone hle
    refine ⟨h', hsend, ⟨by omega, by omega, by omega, by omega, by omega⟩, hdone, ?_, ?_⟩
    · rw [PacHandle.packet, Mem.length_bytes]
      omega
    · rw [hpkt, drop_encode]
  · intro hgt
    obtain ⟨hsend, hphase, hpkt⟩ := hmany hgt
    obtain ⟨hs, rfl, hdone, hall⟩ := sends_fragments T mem (fun i => clock (i + 1)) hr hphase
    have hceil : L ⌈/⌉ s.maxPktLen = (L - 1 - s.maxPktLen) / s.maxPktLen + 2 := by
      rw [ceilDiv_eq hpos hL1, Nat.div_eq (L - 1), if_pos ⟨hpos, by omega⟩]
    refine ⟨hceil ▸ Nat.le_add_left 2 _, pred_ceilDiv_mul_le hpos hL1,
      (sampleOf T h.tsStartMillisec (clock 0)).toNat, fun i => i.casesOn h hs, rfl, ?_, ?_⟩
    · rw [hceil]
      exact hdone
    · intro i hi
      obtain ⟨hsize, hin⟩ := fuSize_le hpos hL1 hi
      have hwithin : Within d L s.maxPktLen 14 (d + 1 + (i * s.maxPktLen : ℕ))
          (fuSize s.maxPktLen L i) := ⟨by omega, by omega, by omega, by omega, by omega⟩
      obtain ⟨q, hq⟩ : ∃ q, (L - 1 - s.maxPktLen) / s.maxPktLen = q := ⟨_, rfl⟩
      rw [hq] at hceil hall
      cases i with
      | zero =>
        have hfirst : fuSize s.maxPktLen L 0 = s.maxPktLen := if_neg (by omega)
        rw [hfirst] at hwithin ⊢
        simp only [Nat.zero_mul, Nat.cast_zero, add_zero] at hwithin ⊢
        refine ⟨fun hlt => absurd hlt (Nat.lt_irrefl 0), hsend, hwithin,
          storedTimestamp_of_packet hpkt, ?_⟩
        rw [hpkt, fuView_encode, decide_eq_false (show ¬ 0 + 1 = L ⌈/⌉ s.maxPktLen by omega)]
        rfl
      | succ i =>
        obtain ⟨hinside, hsend', hpkt'⟩ := hall i (by omega)
        have haddr : d + 1 + s.maxPktLen + (i * s.maxPktLen : ℕ) =
            d + 1 + ((i + 1) * s.maxPktLen : ℕ) := by
          push_cast
          ring
        rw [← fuSize_succ hpos hgt (hq ▸ by omega), haddr] at hsend' hpkt'
        have hlast : (i = q) = (i + 1 + 1 = L ⌈/⌉ s.maxPktLen) := by
          rw [hceil, eq_iff_iff]
          omega
        refine ⟨fun _ => hinside, hsend', hwithin, storedTimestamp_of_packet hpkt', ?_⟩
        rw [hpkt', fuView_encode]
        simp only [hlast]
        rfl

/-- A unit of six bytes at three bytes a packet: two calls, and the second
FU has the two bytes that are left. -/
theorem fragmentation_exact_six :
    let T : Target := ⟨.ilp32, fun _ => 0⟩
    let mem := Mem.holding 0 [0, 0, 1, 0x65, 0x88, 0x80, 0x10, 0x20, 0x30]
    let h := packPut (openedHandle ⟨3, 10⟩ (Mem.holding 0 []) ⟨1, 500⟩) (some 0) 9
    ∃ h₁ h₂, packGet T mem ⟨2, 0⟩ h = .ok (h₁, some 17) ∧
      packGet T mem ⟨2, 1⟩ h₁ = .ok (h₂, some 16) ∧ h₂.naluComplete = true ∧
      storedTimestamp T h₁ = storedTimestamp T h₂ ∧
      fuView (h₁.packet 17) = some ⟨28, true, false, false, [0x88, 0x80, 0x10]⟩ ∧
      fuView (h₂.packet 16) = some ⟨28, false, true, false, [0x20, 0x30]⟩ := by
  intro T mem h
  have hlen : (getNextNalu mem h).1.nalu.len = 6 := by decide +kernel
  have hcode : (getNextNalu mem h).2 = 1 := by decide +kernel
  have hdata : (getNextNalu mem h).1.nalu.data = some 3 := by decide +kernel
  obtain ⟨-, -, hmany⟩ := fragmentation_exact T (fun i => ⟨2, i⟩) (L := 6) (m := 3) rfl
    (by decide) (by decide) rfl rfl (Prod.ext rfl hcode) hdata hlen
  obtain ⟨-, -, ts, hs, hfirst, hdone, hall⟩ := hmany (by decide)
  obtain ⟨-, hsend₀, -, hts₀, hview₀⟩ := hall 0 (by decide)
  obtain ⟨-, hsend₁, -, hts₁, hview₁⟩ := hall 1 (by decide)
  rw [hfirst] at hsend₀
  exact ⟨hs 1, hs 2, hsend₀.get, hsend₁.get, hdone, hts₀.trans hts₁.symm, hview₀, hview₁⟩

end RtpPack

end Camkit
