import Camkit.RtpPack.Model.Sender
import Camkit.RtpPack.Wire
/-!
# RTP packetiser — `pack_get` is the sender

One lemma for each of the four branches that return a packet, saying what
the branch leaves in the handle, and `packGet_refines`: whatever the
phase, a call of the code and a call of the sender agree. Everything later
modules say about a run of `pack_get` goes through it.
-/

namespace Camkit

namespace RtpPack

variable {T : Target} {mem : Mem} {tb : Timeb} {h : PacHandle} {s : Session} {seq : UInt16}
variable {d : ℤ} {n m : ℕ}

theorem checkSize_of_le {size : ℤ} (hs : size ≤ maxOutbufSize) : checkSize size = .ok () :=
  if_neg (by omega)

theorem checkSize_of_lt {size : ℤ} (hs : maxOutbufSize < size) :
    checkSize size = .error .abort := if_pos hs

/-- A copy to the output buffer that fits. -/
theorem memcpyOut_of_le (buf : Mem) (off : ℤ) (mem : Mem) (d disp : ℤ) (n : ℕ)
    (hs : off + n ≤ maxOutbufSize) :
    memcpyOut buf off mem (some d) disp n = .ok (buf.copy off mem (d + disp) n) := by
  unfold memcpyOut
  rw [if_neg (by omega), if_neg (by omega), Int.toNat_natCast]

/-! ## The branches -/

/-- A unit in one packet, where it fits. -/
theorem sendSingle_of_le (hd : h.nalu.data = some d) (hl : h.nalu.len = (n : ℤ) + 1)
    (hs : n + 13 ≤ maxOutbufSize) :
    sendSingle mem h = .ok
      ({ h with
          outbuf := (setNaluHdr (setMarker h.outbuf 1) h.nalu.forbiddenBit h.nalu.nalReferenceIdc
            h.nalu.nalUnitType).copy 13 mem (d + 1) n
          naluComplete := true }, some ((n : ℤ) + 1 + 12)) := by
  have hcopy := memcpyOut_of_le (setNaluHdr (setMarker h.outbuf 1) h.nalu.forbiddenBit
    h.nalu.nalReferenceIdc h.nalu.nalUnitType) 13 mem d 1 n (by omega)
  simp only [sendSingle, hl, hd, checkSize_of_le (show (n : ℤ) + 1 + 12 ≤ maxOutbufSize by omega),
    add_sub_cancel_right, hcopy]
  rfl

/-- Where it does not, the assertion fails. -/
theorem sendSingle_of_gt (hs : maxOutbufSize < h.nalu.len + 12) :
    sendSingle mem h = .error .abort := by
  simp only [sendSingle, checkSize_of_lt hs]
  rfl

/-- Where a fragment size divides a length, the quotient is one more than
that of the length less one, whose remainder is the greatest. -/
theorem div_mod_of_dvd_succ (hdvd : m ∣ n + 1) : (n + 1) / m = n / m + 1 ∧ n % m + 1 = m := by
  have hq : (n + 1) / m = n / m + 1 := Nat.succ_div_of_dvd hdvd
  have hmul := Nat.div_mul_cancel hdvd
  rw [hq, Nat.add_mul, Nat.mul_comm (n / m)] at hmul
  exact ⟨hq, by have := Nat.div_add_mod n m; omega⟩

/-- Elsewhere the quotients are equal and the remainders one apart. -/
theorem div_mod_of_not_dvd_succ (hdvd : ¬ m ∣ n + 1) :
    (n + 1) / m = n / m ∧ (n + 1) % m = n % m + 1 := by
  have hq : (n + 1) / m = n / m := Nat.succ_div_of_not_dvd hdvd
  have hmod := Nat.div_add_mod (n + 1) m
  rw [hq] at hmod
  exact ⟨hq, by have := Nat.div_add_mod n m; omega⟩

/-- The two cases of the source are one: `(len - 1) / m` and
`(len - 1) % m + 1`. -/
theorem calculateFragments_eq (hm : h.params.maxPktLen = (m : ℤ)) (hpos : 0 < m)
    (hl : h.nalu.len = (n : ℤ) + 1) :
    calculateFragments h = .ok { h with
      fuCounter := (n / m : ℕ)
      lastFuSize := (n % m : ℕ) + 1
      fuIndex := 0 } := by
  have hlen : h.nalu.len = ((n + 1 : ℕ) : ℤ) := by rw [hl]; push_cast; rfl
  have hdiv : h.nalu.len.tdiv h.params.maxPktLen = ((n + 1) / m : ℕ) := by
    rw [hlen, hm, Int.tdiv_eq_ediv_of_nonneg (by omega), Int.natCast_ediv]
  have hmod : h.nalu.len.tmod h.params.maxPktLen = ((n + 1) % m : ℕ) := by
    rw [hlen, hm, Int.tmod_eq_emod_of_nonneg (by omega), Int.natCast_emod]
  unfold calculateFragments
  rw [if_neg (by omega), hdiv, hmod, hm]
  -- where the size divides, the source makes the last fragment a whole one
  by_cases hdvd : m ∣ n + 1
  · obtain ⟨hq, hr⟩ := div_mod_of_dvd_succ hdvd
    have hcounter : (((n + 1) / m : ℕ) : ℤ) - 1 = (n / m : ℕ) := by rw [hq]; push_cast; ring
    have hlast : (m : ℤ) = (n % m : ℕ) + 1 := by exact_mod_cast hr.symm
    rw [if_pos (by exact_mod_cast Nat.mod_eq_zero_of_dvd hdvd), hcounter, ← hlast]
  · obtain ⟨hq, hr⟩ := div_mod_of_not_dvd_succ hdvd
    have hne : ((n + 1) % m : ℕ) ≠ 0 := by omega
    rw [if_neg (by exact_mod_cast hne), hq, hr]
    rfl

/-- The first fragment of a unit. -/
theorem sendFirstFu_of_le (hm : h.params.maxPktLen = (m : ℤ)) (hpos : 0 < m)
    (hd : h.nalu.data = some d) (hl : h.nalu.len = (n : ℤ) + 1) (hs : m + 14 ≤ maxOutbufSize) :
    sendFirstFu mem h = .ok
      ({ h with
          outbuf := (setFuHdr (setNaluHdr (setMarker h.outbuf 0) h.nalu.forbiddenBit
            h.nalu.nalReferenceIdc 28) 1 0 h.nalu.nalUnitType).copy 14 mem (d + 1) m
          fuCounter := (n / m : ℕ)
          lastFuSize := (n % m : ℕ) + 1
          fuIndex := 1
          naluComplete := false }, some ((m : ℤ) + 14)) := by
  have hcopy := memcpyOut_of_le (setFuHdr (setNaluHdr (setMarker h.outbuf 0) h.nalu.forbiddenBit
    h.nalu.nalReferenceIdc 28) 1 0 h.nalu.nalUnitType) 14 mem d 1 m (by omega)
  unfold sendFirstFu
  rw [calculateFragments_eq hm hpos hl]
  simp only [Bind.bind, Except.bind, hm, hd, hcopy,
    checkSize_of_le (show (m : ℤ) + 14 ≤ maxOutbufSize by omega)]
  rfl

/-- The assertion fails where a fragment does not fit. -/
theorem sendFirstFu_of_gt (hm : h.params.maxPktLen = (m : ℤ)) (hpos : 0 < m)
    (hl : h.nalu.len = (n : ℤ) + 1) (hs : maxOutbufSize < m + 14) :
    sendFirstFu mem h = .error .abort := by
  unfold sendFirstFu
  rw [calculateFragments_eq hm hpos hl]
  simp only [Bind.bind, Except.bind, hm,
    checkSize_of_lt (show (maxOutbufSize : ℤ) < (m : ℤ) + 14 by omega)]

/-- The last fragment, with what is left of the unit. -/
theorem sendLastFu_of_le (hm : h.params.maxPktLen = (m : ℤ)) (hd : h.nalu.data = some d)
    (hl : h.lastFuSize = (n : ℤ) + 1) (hs : n + 14 ≤ maxOutbufSize) :
    sendLastFu mem h = .ok
      ({ h with
          outbuf := (setFuHdr (setNaluHdr (setMarker h.outbuf 1) h.nalu.forbiddenBit
            h.nalu.nalReferenceIdc 28) 0 1 h.nalu.nalUnitType).copy 14 mem
            (d + (1 + h.fuIndex * m)) n
          naluComplete := true
          fuIndex := 0 }, some ((n : ℤ) + 14)) := by
  have hcopy := memcpyOut_of_le (setFuHdr (setNaluHdr (setMarker h.outbuf 1) h.nalu.forbiddenBit
    h.nalu.nalReferenceIdc 28) 0 1 h.nalu.nalUnitType) 14 mem d (1 + h.fuIndex * m) n (by omega)
  unfold sendLastFu
  simp only [hl, add_sub_cancel_right, hm, hd, hcopy, Bind.bind, Except.bind,
    checkSize_of_le (show (n : ℤ) + 14 ≤ maxOutbufSize by omega)]
  rfl

/-- A fragment in between. -/
theorem sendMiddleFu_of_le (hm : h.params.maxPktLen = (m : ℤ)) (hd : h.nalu.data = some d)
    (hs : m + 14 ≤ maxOutbufSize) :
    sendMiddleFu mem h = .ok
      ({ h with
          outbuf := (setFuHdr (setNaluHdr (setMarker h.outbuf 0) h.nalu.forbiddenBit
            h.nalu.nalReferenceIdc 28) 0 0 h.nalu.nalUnitType).copy 14 mem
            (d + (1 + h.fuIndex * m)) m
          fuIndex := h.fuIndex + 1 }, some ((m : ℤ) + 14)) := by
  have hcopy := memcpyOut_of_le (setFuHdr (setNaluHdr (setMarker h.outbuf 0) h.nalu.forbiddenBit
    h.nalu.nalReferenceIdc 28) 0 0 h.nalu.nalUnitType) 14 mem d (1 + h.fuIndex * m) m (by omega)
  unfold sendMiddleFu
  simp only [hm, hd, hcopy, Bind.bind, Except.bind,
    checkSize_of_le (show (m : ℤ) + 14 ≤ maxOutbufSize by omega)]
  rfl

/-! ## The call -/

/-- `pack_get` returns nothing once the input is through. -/
theorem packGet_of_complete (hc : h.inbufComplete = true) :
    packGet T mem tb h = .ok (h, none) := if_pos hc

theorem packGet_of_no_unit (hrun : h.inbufComplete = false) (hc : h.naluComplete = true)
    {ret : ℤ} (hget : getNextNalu mem (setCommonHeader T h) = (setCommonHeader T h, ret))
    (hret : ret ≤ 0) :
    packGet T mem tb h = .ok ({ setCommonHeader T h with inbufComplete := true }, none) := by
  unfold packGet
  rw [if_neg (by simp [hrun])]
  simp only [hget]
  rw [if_pos (show (setCommonHeader T h).naluComplete = true from hc), if_pos hret]

theorem packGet_of_unit {p : ℤ} (hrun : h.inbufComplete = false) (hc : h.naluComplete = true)
    (hp : h.nextNaluPtr = some p) (hk : startCodeLen mem p ≠ 0) :
    packGet T mem tb h =
      sendNewNalu T mem tb (takeNalu mem (setCommonHeader T h) p (startCodeLen mem p)) := by
  unfold packGet
  rw [if_neg (by simp [hrun])]
  simp only [getNextNalu_of_code (h := setCommonHeader T h) hp hk]
  rw [if_pos (show (setCommonHeader T h).naluComplete = true from hc), if_neg (by decide)]

theorem packGet_of_inside (hrun : h.inbufComplete = false) (hc : h.naluComplete = false) :
    packGet T mem tb h = sendRemaining T mem (setCommonHeader T h) := by
  unfold packGet
  rw [if_neg (by simp [hrun])]
  exact if_neg (by simp [setCommonHeader, hc])

/-- **A unit found is sent as the sender sends it**: whole, as a first
fragment, or not at all. -/
theorem matches_sendUnit (h₀ : PacHandle) {next : Ptr} {len : ℕ} (hr : Runs s seq h)
    (hrun : h.inbufComplete = false) (hnext : h.nextNaluPtr = next) (hd : h.nalu.data = some d)
    (hl : h.nalu.len = len) (hpos : 0 < len)
    (hf : h.nalu.forbiddenBit = (mem d &&& 0x80) >>> 7)
    (hi : h.nalu.nalReferenceIdc = (mem d &&& 0x60) >>> 5)
    (ht : h.nalu.nalUnitType = mem d &&& 0x1f)
    (hout : h.outbuf = commonHeader T h₀) (hssrc : h₀.params.ssrc = s.ssrc) :
    Matches T s seq (sendNewNalu T mem tb h)
      (s.sendUnit mem (sampleOf T s.start tb) seq next d len) := by
  obtain ⟨n, rfl⟩ : ∃ n, len = n + 1 := ⟨len - 1, by omega⟩
  have hl' : h.nalu.len = (n : ℤ) + 1 := by rw [hl]; push_cast; rfl
  have hmax : maxOutbufSize = 10240 := rfl
  have hts : toU32 T (sampleCount (getCurrentMillisec tb) h.tsStartMillisec) =
      sampleOf T s.start tb := by rw [hr.start]; rfl
  have hbuf : (stampHeader T (sampleOf T s.start tb) h).outbuf =
      stampedHeader T h₀ seq (sampleOf T s.start tb) := by
    simp only [stampHeader, hout, hr.seqNum, stampedHeader]
  have hhead : Headed T s.ssrc.toUInt32 seq (sampleOf T s.start tb) false
      (stampedHeader T h₀ seq (sampleOf T s.start tb)) := hssrc ▸ headed_stampedHeader
  have hseq : h.seqNum + 1 = seq + 1 := by rw [hr.seqNum]
  unfold sendNewNalu
  simp only [hts]
  generalize sampleOf T s.start tb = ts at hbuf hhead ⊢
  unfold Session.sendUnit
  by_cases hle : n + 1 ≤ s.maxPktLen
  · have hle' : (stampHeader T ts h).nalu.len ≤ (stampHeader T ts h).params.maxPktLen := by
      change h.nalu.len ≤ h.params.maxPktLen
      rw [hl', hr.maxPktLen]
      omega
    rw [if_pos hle']
    by_cases hbig : TooBig s.maxPktLen (n + 1)
    · have hgt : maxOutbufSize < n + 1 + 12 := by rwa [TooBig, if_pos hle] at hbig
      rw [if_pos hbig, sendSingle_of_gt (by change _ < h.nalu.len + 12; rw [hl']; omega)]
      exact Matches.fault _
    · have hngt : ¬ maxOutbufSize < n + 1 + 12 := by rwa [TooBig, if_pos hle] at hbig
      rw [if_neg hbig, if_pos hle, sendSingle_of_le (h := stampHeader T ts h) hd hl' (by omega)]
      refine Matches.sent ⟨hr.inbuf, hr.size, hr.maxPktLen, hr.ssrc, hr.start, hseq⟩
        ⟨hrun, rfl, hnext⟩ ?_ rfl rfl
      have hbytes := bytes_single mem (d + 1) n h.nalu.forbiddenBit h.nalu.nalReferenceIdc
        h.nalu.nalUnitType hhead stampedHeader_twelve
      have hbyte : naluByte h.nalu.forbiddenBit h.nalu.nalReferenceIdc h.nalu.nalUnitType =
          mem d := by rw [hf, hi, ht, naluByte_header]
      rw [hbyte, ← hbuf, show 13 + n = ((n : ℤ) + 1 + 12).toNat by omega] at hbytes
      exact hbytes
  · have hnle : ¬ (stampHeader T ts h).nalu.len ≤ (stampHeader T ts h).params.maxPktLen := by
      change ¬ h.nalu.len ≤ h.params.maxPktLen
      rw [hl', hr.maxPktLen]
      omega
    rw [if_neg hnle]
    by_cases hbig : TooBig s.maxPktLen (n + 1)
    · have hgt : maxOutbufSize < s.maxPktLen + 14 := by rwa [TooBig, if_neg hle] at hbig
      rw [if_pos hbig, sendFirstFu_of_gt (h := stampHeader T ts h) hr.maxPktLen s.maxPktLen_pos hl'
        hgt]
      exact Matches.fault _
    · have hngt : ¬ maxOutbufSize < s.maxPktLen + 14 := by rwa [TooBig, if_neg hle] at hbig
      rw [if_neg hbig, if_neg hle, sendFirstFu_of_le (h := stampHeader T ts h) hr.maxPktLen
        s.maxPktLen_pos hd hl' (by omega)]
      -- one fragment is sent, so the rest counts one less
      have hle' : s.maxPktLen ≤ n := by omega
      have hdiv : n / s.maxPktLen = (n - s.maxPktLen) / s.maxPktLen + 1 :=
        Nat.div_eq_sub_div s.maxPktLen_pos hle'
      have hmod : n % s.maxPktLen = (n - s.maxPktLen) % s.maxPktLen := Nat.mod_eq_sub_mod hle'
      rw [Nat.add_sub_cancel]
      refine Matches.sent ⟨hr.inbuf, hr.size, hr.maxPktLen, hr.ssrc, hr.start, hseq⟩
        ⟨hrun, rfl, hnext, hf, hi, ht, ⟨d, hd, by simp⟩, ?_, ?_, rfl, by omega⟩ ?_ rfl rfl
      · change ((n / s.maxPktLen : ℕ) : ℤ) = 1 + _
        rw [hdiv]
        push_cast
        ring
      · change ((n % s.maxPktLen : ℕ) : ℤ) + 1 = _
        rw [hmod]
      · have hbytes := bytes_fu false mem (d + 1) s.maxPktLen h.nalu.forbiddenBit
          h.nalu.nalReferenceIdc 1 0 h.nalu.nalUnitType hhead stampedHeader_twelve
          stampedHeader_thirteen
        have hbyte : naluByte h.nalu.forbiddenBit h.nalu.nalReferenceIdc 28 =
            fuIndicatorOf (mem d) := by rw [hf, hi, naluByte_fuIndicator]
        have hbyte' : fuByte 1 0 h.nalu.nalUnitType = fuHeaderOf true false (mem d) := by
          rw [ht]; exact fuByte_fuHeader true false (mem d)
        rw [hbyte, hbyte', ← hbuf, show 14 + s.maxPktLen = ((s.maxPktLen : ℤ) + 14).toNat by
          omega] at hbytes
        exact hbytes

/-- **A fragment is sent as the sender sends it.** -/
theorem matches_sendFragment {next : Ptr} {hdr : UInt8} {addr : ℤ} {left : ℕ} {ts : UInt32}
    (hr : Runs s seq h) (hp : Fragmenting s h next hdr addr left ts) :
    Matches T s seq (sendRemaining T mem (setCommonHeader T h))
      (.ok ((s.sendFragment mem seq next hdr addr left ts).1,
        some (s.sendFragment mem seq next hdr addr left ts).2)) := by
  obtain ⟨d, hd, haddr⟩ := hp.data
  have hmax : maxOutbufSize = 10240 := rfl
  have hfits := hp.fits
  have hbuf : (stampHeader T ts (setCommonHeader T h)).outbuf = stampedHeader T h seq ts := by
    simp only [stampHeader, setCommonHeader, hr.seqNum, stampedHeader]
  have hhead : Headed T s.ssrc.toUInt32 seq ts false (stampedHeader T h seq ts) :=
    hr.ssrc ▸ headed_stampedHeader
  have hseq : h.seqNum + 1 = seq + 1 := by rw [hr.seqNum]
  have hbyte : naluByte h.nalu.forbiddenBit h.nalu.nalReferenceIdc 28 = fuIndicatorOf hdr := by
    rw [hp.forbiddenBit, hp.nalReferenceIdc, naluByte_fuIndicator]
  have haddr' : d + (1 + h.fuIndex * (s.maxPktLen : ℤ)) = addr := by rw [haddr]; ring
  unfold sendRemaining
  simp only [show (setCommonHeader T h).tsCurrentSample = ts from hp.ts]
  unfold Session.sendFragment
  by_cases hlt : left < s.maxPktLen
  · have hq : left / s.maxPktLen = 0 := Nat.div_eq_of_lt hlt
    have hlast : h.lastFuSize = (left : ℤ) + 1 := by rw [hp.last, Nat.mod_eq_of_lt hlt]
    have hidx : (stampHeader T ts (setCommonHeader T h)).fuIndex =
        (stampHeader T ts (setCommonHeader T h)).fuCounter := by
      change h.fuIndex = h.fuCounter
      rw [hp.counter, hq, Nat.cast_zero, add_zero]
    rw [if_pos hidx, if_pos hlt,
      sendLastFu_of_le (h := stampHeader T ts (setCommonHeader T h)) hr.maxPktLen hd hlast
        (by omega)]
    refine Matches.sent ⟨hr.inbuf, hr.size, hr.maxPktLen, hr.ssrc, hr.start, hseq⟩
      ⟨hp.running, rfl, hp.next⟩ ?_ rfl rfl
    have hbytes := bytes_fu true mem addr left h.nalu.forbiddenBit h.nalu.nalReferenceIdc 0 1
      h.nalu.nalUnitType hhead stampedHeader_twelve stampedHeader_thirteen
    have hbyte' : fuByte 0 1 h.nalu.nalUnitType = fuHeaderOf false true hdr := by
      rw [hp.nalUnitType]; exact fuByte_fuHeader false true hdr
    rw [hbyte, hbyte', ← hbuf, ← haddr', show 14 + left = ((left : ℤ) + 14).toNat by omega]
      at hbytes
    rw [← haddr']
    exact hbytes
  · have hle : s.maxPktLen ≤ left := Nat.le_of_not_lt hlt
    have hq : left / s.maxPktLen = (left - s.maxPktLen) / s.maxPktLen + 1 :=
      Nat.div_eq_sub_div s.maxPktLen_pos hle
    have hm : left % s.maxPktLen = (left - s.maxPktLen) % s.maxPktLen := Nat.mod_eq_sub_mod hle
    have hidx : ¬ (stampHeader T ts (setCommonHeader T h)).fuIndex =
        (stampHeader T ts (setCommonHeader T h)).fuCounter := by
      change ¬ h.fuIndex = h.fuCounter
      rw [hp.counter, hq]
      generalize (left - s.maxPktLen) / s.maxPktLen = k
      omega
    rw [if_neg hidx, if_neg hlt,
      sendMiddleFu_of_le (h := stampHeader T ts (setCommonHeader T h)) hr.maxPktLen hd (by omega)]
    refine Matches.sent ⟨hr.inbuf, hr.size, hr.maxPktLen, hr.ssrc, hr.start, hseq⟩
      ⟨hp.running, hp.inside, hp.next, hp.forbiddenBit, hp.nalReferenceIdc, hp.nalUnitType,
        ⟨d, hd, ?_⟩, ?_, ?_, rfl, hp.fits⟩ ?_ rfl rfl
    · change addr + (s.maxPktLen : ℤ) = d + 1 + (h.fuIndex + 1) * s.maxPktLen
      rw [haddr]
      ring
    · change h.fuCounter = h.fuIndex + 1 + _
      rw [hp.counter, hq]
      push_cast
      ring
    · change h.lastFuSize = _
      rw [hp.last, hm]
    · have hbytes := bytes_fu false mem addr s.maxPktLen h.nalu.forbiddenBit h.nalu.nalReferenceIdc
        0 0 h.nalu.nalUnitType hhead stampedHeader_twelve stampedHeader_thirteen
      have hbyte' : fuByte 0 0 h.nalu.nalUnitType = fuHeaderOf false false hdr := by
        rw [hp.nalUnitType]; exact fuByte_fuHeader false false hdr
      rw [hbyte, hbyte', ← hbuf, ← haddr', show 14 + s.maxPktLen = ((s.maxPktLen : ℤ) + 14).toNat
        by omega] at hbytes
      rw [← haddr']
      exact hbytes

/-- **`pack_get` is the sender.** -/
theorem packGet_refines {ph : Phase} (hr : Runs s seq h) (hp : InPhase s h ph) :
    Matches T s seq (packGet T mem tb h) (s.get T mem tb seq ph) := by
  have hr' : Runs s seq (setCommonHeader T h) :=
    ⟨hr.inbuf, hr.size, hr.maxPktLen, hr.ssrc, hr.start, hr.seqNum⟩
  cases ph with
  | done =>
    rw [packGet_of_complete hp]
    exact Matches.zero hr hp
  | unit next =>
    obtain ⟨hrun, hc, hnext⟩ := hp
    cases next with
    | none =>
      rw [packGet_of_no_unit hrun hc (getNextNalu_of_none (h := setCommonHeader T h) hnext)
        (by decide)]
      exact Matches.zero ⟨hr.inbuf, hr.size, hr.maxPktLen, hr.ssrc, hr.start, hr.seqNum⟩ rfl
    | some p =>
      rw [Session.get]
      by_cases hk : startCodeLen mem p = 0
      · rw [if_pos hk, packGet_of_no_unit hrun hc
          (getNextNalu_of_not_code (h := setCommonHeader T h) hnext hk) (by decide)]
        exact Matches.zero ⟨hr.inbuf, hr.size, hr.maxPktLen, hr.ssrc, hr.start, hr.seqNum⟩ rfl
      · rw [if_neg hk, packGet_of_unit hrun hc hnext hk]
        have hlt := lt_findNextStartCode mem s.inbuf s.size (p + startCodeLen mem p)
        refine matches_sendUnit h
          ⟨hr.inbuf, hr.size, hr.maxPktLen, hr.ssrc, hr.start, hr.seqNum⟩ hrun ?_ rfl ?_ ?_
          rfl rfl rfl rfl hr.ssrc
        · simp only [takeNalu, hr'.inbuf, hr'.size]
        · simp only [takeNalu, hr'.inbuf, hr'.size]
          omega
        · omega
  | fragment next hdr addr left ts =>
    rw [packGet_of_inside hp.running hp.inside]
    exact matches_sendFragment hr hp

end RtpPack

end Camkit
