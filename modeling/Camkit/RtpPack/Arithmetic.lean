import Camkit.RtpPack.Fragments
import Camkit.RtpPack.Runs
/-!
# RTP packetiser — the arithmetic of `pack_get`

`pack_open` admits any `max_pkt_len`, and `pack_get` may be called before
there is a buffer. What it divides by, what it copies and which unit it
continues are then what an earlier call has left, or has not. `Ready` is
the invariant that makes them sound, once a first `pack_put` has come and
as long as no unit is come upon with a `max_pkt_len` below 1.
-/

namespace Camkit

namespace RtpPack

variable {T : Target} {mem : Mem} {tb tb₀ : Timeb} {h h' h₀ : PacHandle} {c : Call}
variable {cs : List Call} {params : PacParam} {d : ℤ} {n : ℕ}

/-- The next `pack_get` takes the branch for the remaining FUs. -/
def Continues (h : PacHandle) : Prop := h.inbufComplete = false ∧ h.naluComplete = false

/-- A unit has been found, its first FU is sent and its last is not. -/
structure InProgress (h : PacHandle) : Prop where
  found : ∃ d, h.nalu.data = some d
  first : 1 ≤ h.fuIndex
  last : h.fuIndex ≤ h.fuCounter
  size : 1 ≤ h.lastFuSize

/-- A `pack_get` is sound: it continues only a unit in progress, the size
of its packet is an `int`, and it returns or stops at the size check. -/
structure Sound (T : Target) (mem : Mem) (tb : Timeb) (h : PacHandle) : Prop where
  continues : Continues h → InProgress h
  size : ∀ c, copyOf mem h = some c → c.off + c.n < 2 ^ 31
  result : packGet T mem tb h = .error .abort ∨ ∃ r, packGet T mem tb h = .ok r

/-- A call is sound. -/
def CallSound (T : Target) (h : PacHandle) : Call → Prop
  | .put .. => True
  | .get mem tb => Sound T mem tb h

/-- A unit that is come upon has fragments of at least a byte, and a packet
whose size is an `int`. -/
def UnitOk (h : PacHandle) : Call → Prop
  | .put .. => True
  | .get mem _ =>
    h.inbufComplete = false → h.naluComplete = true → (getNextNalu mem h).2 = 1 →
      1 ≤ h.params.maxPktLen ∧
        if (getNextNalu mem h).1.nalu.len ≤ h.params.maxPktLen then
          (getNextNalu mem h).1.nalu.len + 12 < 2 ^ 31
        else h.params.maxPktLen + 14 < 2 ^ 31

/-- A unit in progress, with fragments that fit the output buffer. -/
structure Resumable (h : PacHandle) : Prop extends InProgress h where
  pos : 1 ≤ h.params.maxPktLen
  fits : h.params.maxPktLen + 14 ≤ maxOutbufSize
  rest : h.lastFuSize ≤ h.params.maxPktLen

/-- What a handle that has been given a buffer keeps: the unit it is to
continue is there to be continued. -/
def Ready (h : PacHandle) : Prop := Continues h → Resumable h

/-- Between two units there is nothing to keep. -/
theorem ready_of_naluComplete (hc : h.naluComplete = true) : Ready h := by
  rintro ⟨-, hinside⟩
  exact absurd (hc.symm.trans hinside) (by decide)

/-- Nor at the end of a buffer. -/
theorem ready_of_inbufComplete (hc : h.inbufComplete = true) : Ready h := by
  rintro ⟨hrun, -⟩
  exact absurd (hc.symm.trans hrun) (by decide)

/-! ## The branches -/

/-- A unit that fits is sent, or is too big. -/
theorem sendSingle_ready (hd : h.nalu.data = some d) (hl : h.nalu.len = (n : ℤ) + 1) :
    sendSingle mem h = .error .abort ∨
      ∃ h' r, sendSingle mem h = .ok (h', r) ∧ Ready h' := by
  rcases lt_or_ge (maxOutbufSize : ℤ) (h.nalu.len + 12) with hgt | hle
  · exact Or.inl (sendSingle_of_gt hgt)
  · exact Or.inr ⟨_, _, sendSingle_of_le hd hl (by omega), ready_of_naluComplete rfl⟩

/-- A unit that does not fit begins, or its fragments are too big; then it
is in progress. -/
theorem sendFirstFu_ready {m : ℕ} (hm : h.params.maxPktLen = m) (hpos : 0 < m)
    (hd : h.nalu.data = some d) (hl : h.nalu.len = (n : ℤ) + 1) (hgt : m ≤ n) :
    sendFirstFu mem h = .error .abort ∨
      ∃ h' r, sendFirstFu mem h = .ok (h', r) ∧ Ready h' := by
  rcases Nat.lt_or_ge maxOutbufSize (m + 14) with hbig | hfit
  · exact Or.inl (sendFirstFu_of_gt hm hpos hl hbig)
  · have hcounter : (1 : ℤ) ≤ (n / m : ℕ) := by exact_mod_cast Nat.div_pos hgt hpos
    have hrest : n % m < m := Nat.mod_lt n hpos
    refine Or.inr ⟨_, _, sendFirstFu_of_le hm hpos hd hl hfit, fun _ => ?_⟩
    refine ⟨⟨⟨d, hd⟩, le_refl _, hcounter, Int.le_add_of_nonneg_left (Int.natCast_nonneg _)⟩,
      ?_, ?_, ?_⟩
    · change 1 ≤ h.params.maxPktLen
      omega
    · change h.params.maxPktLen + 14 ≤ _
      omega
    · change ((n % m : ℕ) : ℤ) + 1 ≤ h.params.maxPktLen
      omega

/-- Without a fragment size there is no first fragment. -/
theorem sendFirstFu_of_nonpos (hM : h.params.maxPktLen ≤ 0) :
    sendFirstFu mem h = .error .divByZero ∨ sendFirstFu mem h = .error .negativeLength := by
  unfold sendFirstFu calculateFragments
  rcases eq_or_lt_of_le hM with hzero | hneg
  · left
    rw [if_pos hzero]
    rfl
  · right
    have hcheck : checkSize (h.params.maxPktLen + 14) = .ok () := by
      refine checkSize_of_le ?_
      have hmax : maxOutbufSize = 10240 := rfl
      omega
    rw [if_neg (by omega)]
    split
    · simp only [Bind.bind, Except.bind, hcheck, memcpyOut, if_pos hneg]
    · simp only [Bind.bind, Except.bind, hcheck, memcpyOut, if_pos hneg]

/-- A unit in progress is continued. -/
theorem sendRemaining_ready (T : Target) (mem : Mem) (hin : Resumable h) :
    ∃ h' r, sendRemaining T mem h = .ok (h', r) ∧ Ready h' := by
  obtain ⟨⟨⟨d, hd⟩, hfirst, hle, hsize⟩, hpos, hfits, hrest⟩ := hin
  obtain ⟨m, hm⟩ : ∃ m : ℕ, h.params.maxPktLen = m := ⟨h.params.maxPktLen.toNat, by omega⟩
  obtain ⟨n, hn⟩ : ∃ n : ℕ, h.lastFuSize = n + 1 := ⟨(h.lastFuSize - 1).toNat, by omega⟩
  set k := stampHeader T h.tsCurrentSample h with hk
  by_cases hend : h.fuIndex = h.fuCounter
  · refine ⟨_, _, (if_pos hend).trans (sendLastFu_of_le (h := k) hm hd hn (by omega)), ?_⟩
    exact ready_of_naluComplete rfl
  · refine ⟨_, _, (if_neg hend).trans (sendMiddleFu_of_le (h := k) hm hd (by omega)), fun _ => ?_⟩
    refine ⟨⟨⟨d, hd⟩, ?_, ?_, hsize⟩, hpos, hfits, hrest⟩
    · change 1 ≤ h.fuIndex + 1
      omega
    · change h.fuIndex + 1 ≤ h.fuCounter
      omega

/-- A unit found is sent, or stopped at the size check, if there is a
fragment size; and else it is not. -/
theorem sendNewNalu_ready (hd : h.nalu.data = some d) (hl : h.nalu.len = (n : ℤ) + 1)
    (hM : 1 ≤ h.params.maxPktLen) :
    sendNewNalu T mem tb h = .error .abort ∨
      ∃ h' r, sendNewNalu T mem tb h = .ok (h', r) ∧ Ready h' := by
  obtain ⟨m, hm⟩ : ∃ m : ℕ, h.params.maxPktLen = m := ⟨h.params.maxPktLen.toNat, by omega⟩
  set k := stampHeader T (toU32 T (sampleCount (getCurrentMillisec tb) h.tsStartMillisec)) h
    with hk
  by_cases hle : h.nalu.len ≤ h.params.maxPktLen
  · have hsend : sendNewNalu T mem tb h = sendSingle mem k := if_pos hle
    rw [hsend]
    exact sendSingle_ready (h := k) hd hl
  · have hsend : sendNewNalu T mem tb h = sendFirstFu mem k := if_neg hle
    rw [hsend]
    exact sendFirstFu_ready (h := k) hm (by omega) hd hl (by omega)

theorem sendNewNalu_of_nonpos (hl : h.nalu.len = (n : ℤ) + 1) (hM : h.params.maxPktLen ≤ 0) :
    sendNewNalu T mem tb h = .error .divByZero ∨
      sendNewNalu T mem tb h = .error .negativeLength := by
  set k := stampHeader T (toU32 T (sampleCount (getCurrentMillisec tb) h.tsStartMillisec)) h
    with hk
  have hsend : sendNewNalu T mem tb h = sendFirstFu mem k :=
    if_neg (show ¬ h.nalu.len ≤ h.params.maxPktLen by omega)
  rw [hsend]
  exact sendFirstFu_of_nonpos (h := k) hM

/-! ## The call -/

/-- What `get_next_nalu` delivers has a byte, and leaves the parameters. -/
theorem getNextNalu_found (hcode : (getNextNalu mem h).2 = 1) :
    ∃ d, ∃ n : ℕ, (getNextNalu mem h).1.nalu.data = some d ∧
      (getNextNalu mem h).1.nalu.len = (n : ℤ) + 1 ∧
      (getNextNalu mem h).1.params = h.params := by
  have hone : getNextNalu mem h = ((getNextNalu mem h).1, 1) := Prod.ext rfl hcode
  obtain ⟨p, -, -, heq⟩ := getNextNalu_one hone
  have hlt := lt_findNextStartCode mem h.inbuf.addr h.inbufSize (p + startCodeLen mem p)
  rw [heq]
  refine ⟨p + startCodeLen mem p, ((findNextStartCode mem h.inbuf.addr h.inbufSize
    (p + startCodeLen mem p)).1 - (p + startCodeLen mem p) - 1).toNat, rfl, ?_, rfl⟩
  change (findNextStartCode mem h.inbuf.addr h.inbufSize (p + startCodeLen mem p)).1 - p -
    startCodeLen mem p = _
  omega

/-- The code `get_next_nalu` returns. -/
theorem getNextNalu_code (mem : Mem) (h : PacHandle) :
    (getNextNalu mem h).2 = 1 ∨ (getNextNalu mem h).2 ≤ 0 := by
  unfold getNextNalu
  split
  · exact Or.inr (le_refl (0 : ℤ))
  · split_ifs
    · exact Or.inl rfl
    · exact Or.inl rfl
    · exact Or.inr (show (-1 : ℤ) ≤ 0 by decide)

/-- A call between two units that finds none. -/
theorem packGet_of_not_found (hrun : h.inbufComplete = false) (hc : h.naluComplete = true)
    (hcode : (getNextNalu mem h).2 ≤ 0) :
    packGet T mem tb h =
      .ok ({ setCommonHeader T (getNextNalu mem h).1 with inbufComplete := true }, none) := by
  have hflag : (setCommonHeader T h).naluComplete = true := hc
  simp only [packGet, getNextNalu_setCommonHeader, hrun, hflag, if_pos hcode]
  rfl

/-- A call between two units that finds one. -/
theorem packGet_of_found (hrun : h.inbufComplete = false) (hc : h.naluComplete = true)
    (hcode : (getNextNalu mem h).2 = 1) :
    packGet T mem tb h = sendNewNalu T mem tb (setCommonHeader T (getNextNalu mem h).1) := by
  have hflag : (setCommonHeader T h).naluComplete = true := hc
  simp only [packGet, getNextNalu_setCommonHeader, hrun, hflag, hcode]
  rfl

/-- A call that returns 0 is sound. -/
theorem sound_of_zero (hcall : packGet T mem tb h = .ok (h', none)) (hcopy : copyOf mem h = none)
    (hinside : ¬ Continues h) : Sound T mem tb h := by
  refine ⟨fun hcont => absurd hcont hinside, ?_, Or.inr ⟨_, hcall⟩⟩
  intro c hc
  exact absurd (hcopy.symm.trans hc) (by simp)

/-- The packet of a unit that is come upon is as long as the copy says. -/
theorem newCopy_size (hparams : h'.params = h.params) :
    (newCopy h').off + (newCopy h').n < 2 ^ 31 ↔
      if h'.nalu.len ≤ h.params.maxPktLen then h'.nalu.len + 12 < 2 ^ 31
      else h.params.maxPktLen + 14 < 2 ^ 31 := by
  unfold newCopy
  rw [hparams]
  split
  · dsimp only
    omega
  · dsimp only
    omega

/-- **A call that comes upon a unit** is sound exactly if it can send it. -/
theorem sound_iff_of_found (hrun : h.inbufComplete = false) (hc : h.naluComplete = true)
    (hcode : (getNextNalu mem h).2 = 1) :
    (Sound T mem tb h ↔ UnitOk h (.get mem tb)) ∧
      ∀ h' r, UnitOk h (.get mem tb) → packGet T mem tb h = .ok (h', r) → Ready h' := by
  obtain ⟨d, n, hd, hl, hparams⟩ := getNextNalu_found hcode
  have hcall : packGet T mem tb h = _ := packGet_of_found hrun hc hcode
  have hcopy : copyOf mem h = some (newCopy (getNextNalu mem h).1) := by
    rw [copyOf, if_neg (by simp [hrun]), if_pos hc]
    exact if_neg (by omega)
  set k := setCommonHeader T (getNextNalu mem h).1 with hk
  rcases lt_or_ge h.params.maxPktLen 1 with hM | hM
  · -- no fragment size
    have hfault : sendNewNalu T mem tb k = .error .divByZero ∨
        sendNewNalu T mem tb k = .error .negativeLength :=
      sendNewNalu_of_nonpos hl
        (show (getNextNalu mem h).1.params.maxPktLen ≤ 0 by rw [hparams]; omega)
    refine ⟨⟨fun hsound => ?_, fun hunit => absurd (hunit hrun hc hcode).1 (by omega)⟩,
      fun h' r hunit => absurd (hunit hrun hc hcode).1 (by omega)⟩
    have hresult := hsound.result
    rw [hcall] at hresult
    rcases hfault with hfault | hfault
    · rw [hfault] at hresult
      exact absurd hresult (by simp)
    · rw [hfault] at hresult
      exact absurd hresult (by simp)
  · have hsend : sendNewNalu T mem tb k = .error .abort ∨
        ∃ h' r, sendNewNalu T mem tb k = .ok (h', r) ∧ Ready h' :=
      sendNewNalu_ready hd hl
        (show 1 ≤ (getNextNalu mem h).1.params.maxPktLen by rw [hparams]; omega)
    rw [← hcall] at hsend
    refine ⟨⟨fun hsound _ _ _ => ?_, fun hunit => ?_⟩, fun h' r _ hget => ?_⟩
    · exact ⟨hM, (newCopy_size hparams).mp (hsound.size _ hcopy)⟩
    · refine ⟨fun hcont => absurd (hc.symm.trans hcont.2) (by decide), ?_, ?_⟩
      · intro c hc'
        obtain rfl := Option.some.inj (hcopy.symm.trans hc')
        exact (newCopy_size hparams).mpr (hunit hrun hc hcode).2
      · refine hsend.imp_right ?_
        rintro ⟨h', r, hget, -⟩
        exact ⟨(h', r), hget⟩
    · rcases hsend with habort | ⟨h₁, r₁, hsend, hready₁⟩
      · exact absurd (habort.symm.trans hget) (by simp)
      · obtain ⟨rfl, -⟩ := Prod.mk.inj (Except.ok.inj (hsend.symm.trans hget))
        exact hready₁

/-- **A call that continues a unit** is sound. -/
theorem sound_of_resumable (T : Target) (mem : Mem) (tb : Timeb) (hcont : Continues h)
    (hin : Resumable h) :
    Sound T mem tb h ∧ ∀ h' r, packGet T mem tb h = .ok (h', r) → Ready h' := by
  have hcall : packGet T mem tb h = sendRemaining T mem (setCommonHeader T h) :=
    packGet_of_inside hcont.1 hcont.2
  obtain ⟨h₁, r₁, hsend, hready₁⟩ := sendRemaining_ready T mem (h := setCommonHeader T h)
    ⟨⟨hin.found, hin.first, hin.last, hin.size⟩, hin.pos, hin.fits, hin.rest⟩
  rw [hsend] at hcall
  have hcopy : copyOf mem h = some (remainingCopy h) := by
    rw [copyOf, if_neg (by simp [hcont.1]), if_neg (by simp [hcont.2])]
  refine ⟨⟨fun _ => hin.toInProgress, ?_, Or.inr ⟨_, hcall⟩⟩, ?_⟩
  · intro c hc
    obtain rfl := Option.some.inj (hcopy.symm.trans hc)
    have hmax : maxOutbufSize = 10240 := rfl
    have hfits := hin.fits
    have hrest := hin.rest
    unfold remainingCopy
    split
    · dsimp only
      omega
    · dsimp only
      omega
  · intro h' r hget
    obtain ⟨rfl, -⟩ := Prod.mk.inj (Except.ok.inj (hcall.symm.trans hget))
    exact hready₁

/-- **A `pack_get` is sound exactly if the unit it comes upon, if any, is
one it can send**; and then the handle stays ready. -/
theorem sound_iff_unitOk (T : Target) (mem : Mem) (tb : Timeb) (hready : Ready h) :
    (Sound T mem tb h ↔ UnitOk h (.get mem tb)) ∧
      ∀ h' r, UnitOk h (.get mem tb) → packGet T mem tb h = .ok (h', r) → Ready h' := by
  by_cases hdone : h.inbufComplete = true
  · have hcall : packGet T mem tb h = .ok (h, none) := packGet_of_complete hdone
    refine ⟨⟨fun _ hrun => absurd (hdone.symm.trans hrun) (by decide), fun _ => ?_⟩, ?_⟩
    · exact sound_of_zero hcall (if_pos hdone) fun hcont =>
        absurd (hdone.symm.trans hcont.1) (by decide)
    · intro h' r _ hget
      obtain ⟨rfl, -⟩ := Prod.mk.inj (Except.ok.inj (hcall.symm.trans hget))
      exact hready
  · have hrun : h.inbufComplete = false := by simpa using hdone
    by_cases hc : h.naluComplete = true
    · rcases getNextNalu_code mem h with hcode | hcode
      · exact sound_iff_of_found hrun hc hcode
      · -- no unit: the buffer is done
        have hcall : packGet T mem tb h = _ := packGet_of_not_found hrun hc hcode
        have hcopy : copyOf mem h = none := by
          rw [copyOf, if_neg hdone, if_pos hc]
          exact if_pos hcode
        refine ⟨⟨fun _ _ _ hone => absurd hone (by omega), fun _ => ?_⟩, ?_⟩
        · exact sound_of_zero hcall hcopy fun hcont => absurd (hc.symm.trans hcont.2) (by decide)
        · intro h' r _ hget
          obtain ⟨rfl, -⟩ := Prod.mk.inj (Except.ok.inj (hcall.symm.trans hget))
          exact ready_of_inbufComplete rfl
    · have hcont : Continues h := ⟨hrun, by simpa using hc⟩
      obtain ⟨hsound, hnext⟩ := sound_of_resumable T mem tb hcont (hready hcont)
      exact ⟨⟨fun _ _ hc' => absurd hc' hc, fun _ => hsound⟩, fun h' r _ => hnext h' r⟩

/-! ## Every order of calls -/

theorem unitOk_iff_callSound (T : Target) (h : PacHandle) (c : Call) (hready : Ready h) :
    UnitOk h c ↔ CallSound T h c := by
  cases c with
  | put inbuf isize => exact Iff.rfl
  | get mem tb => exact (sound_iff_unitOk T mem tb hready).1.symm

/-- A sound call leaves the handle ready. -/
theorem ready_step (T : Target) (h : PacHandle) (c : Call) (h' : PacHandle)
    (r : Reply (List UInt8)) (hready : Ready h) (hunit : UnitOk h c)
    (hstep : (calls T).step h c = some (h', r)) : Ready h' := by
  cases c with
  | put inbuf isize =>
    obtain ⟨rfl, -⟩ := Prod.mk.inj (Option.some.inj hstep)
    exact ready_of_naluComplete rfl
  | get mem tb =>
    have hnext := (sound_iff_unitOk T mem tb hready).2
    simp only [calls] at hstep
    cases hget : packGet T mem tb h with
    | error f =>
      rw [hget] at hstep
      exact absurd hstep (by simp)
    | ok x =>
      obtain ⟨k, out⟩ := x
      rw [hget] at hstep
      cases out with
      | none =>
        obtain ⟨rfl, -⟩ := Prod.mk.inj (Option.some.inj hstep)
        exact hnext _ _ hunit hget
      | some outsize =>
        obtain ⟨rfl, -⟩ := Prod.mk.inj (Option.some.inj hstep)
        exact hnext _ _ hunit hget

theorem along_put {P : PacHandle → Call → Prop} {inbuf : Ptr} {isize : ℤ} :
    (calls T).Along P h (.put inbuf isize :: cs) ↔
      P h (.put inbuf isize) ∧ (calls T).Along P (packPut h inbuf isize) cs := by
  refine and_congr_right fun _ => ⟨fun hrest => hrest _ _ rfl, fun hrest h' r hstep => ?_⟩
  obtain ⟨rfl, -⟩ := Prod.mk.inj (Option.some.inj hstep)
  exact hrest

/-- Fragment sizes that leave room for the headers in an `int` are all
right for every unit. -/
theorem unitOk_of_le (hM : 1 ≤ h.params.maxPktLen) (hM' : h.params.maxPktLen + 14 < 2 ^ 31)
    (c : Call) : UnitOk h c := by
  cases c with
  | put inbuf isize => trivial
  | get mem tb =>
    refine fun _ _ _ => ⟨hM, ?_⟩
    split
    · omega
    · exact hM'

/-- **`pack_get` is sound exactly where a buffer has come first and every
unit come upon can be sent**: for all parameters, and every sequence of
calls on the handle `pack_open` returns, up to its end or to the call that
stops at the size check. -/
theorem callSound_iff {mallocHandle : Bool} {mallocOutbuf : Option Mem} (T : Target)
    (cs : List Call) (hopen : packOpen params mallocHandle mallocOutbuf tb₀ = some h₀) :
    (calls T).Along (CallSound T) h₀ cs ↔
      (∀ c, cs.head? = some c → ¬ c.IsGet) ∧ (calls T).Along UnitOk h₀ cs := by
  obtain ⟨outbuf, rfl⟩ : ∃ outbuf, h₀ = openedHandle params outbuf tb₀ := by
    unfold packOpen at hopen
    split at hopen
    · split at hopen
      · exact absurd hopen (by simp)
      · exact ⟨_, (Option.some.inj hopen).symm⟩
    · exact absurd hopen (by simp)
  cases cs with
  | nil => exact ⟨fun _ => ⟨fun c hc => absurd hc (by simp), trivial⟩, fun _ => trivial⟩
  | cons c cs =>
    cases c with
    | get mem tb =>
      -- a fresh handle takes the branch for the remaining FUs, of no unit
      constructor
      · rintro ⟨hsound, -⟩
        obtain ⟨d, hd⟩ := (hsound.continues ⟨rfl, rfl⟩).found
        exact absurd hd (by simp [openedHandle])
      · rintro ⟨hfirst, -⟩
        exact absurd trivial (hfirst _ rfl)
    | put inbuf isize =>
      rw [along_put, along_put, Machine.along_iff (unitOk_iff_callSound T) (ready_step T)
        (ready_of_naluComplete rfl)]
      exact ⟨fun h => ⟨fun c hc => Option.some.inj hc ▸ id, h⟩, fun h => h.2⟩

/-- A buffer, and the call on its unit. -/
theorem callSound_iff_unit :
    let T : Target := ⟨.ilp32, fun _ => 0⟩
    (calls T).Along (CallSound T) (openedHandle ⟨1400, 10⟩ (Mem.holding 0 []) ⟨1, 500⟩)
      [.put (some 0) 5, .get (Mem.holding 0 [0, 0, 1, 0x65, 0x88]) ⟨2, 0⟩] := by
  intro T
  have hopen : packOpen ⟨1400, 10⟩ true (some (Mem.holding 0 [])) ⟨1, 500⟩ =
      some (openedHandle ⟨1400, 10⟩ (Mem.holding 0 []) ⟨1, 500⟩) := rfl
  refine (callSound_iff T _ hopen).mpr ⟨fun c hc => Option.some.inj hc ▸ id, along_put.mpr ?_⟩
  exact ⟨trivial, unitOk_of_le (by decide) (by decide) _, fun _ _ _ => trivial⟩

/-- **A `pack_get` before the first `pack_put`** copies the payload of no
unit, with a negative length. -/
theorem not_callSound_fresh :
    let T : Target := ⟨.ilp32, fun _ => 0⟩
    let h := openedHandle ⟨1400, 10⟩ (Mem.holding 0 []) ⟨1, 500⟩
    packOpen ⟨1400, 10⟩ true (some (Mem.holding 0 [])) ⟨1, 500⟩ = some h ∧
      packGet T (Mem.holding 0 []) ⟨2, 0⟩ h = .error .negativeLength ∧
      ¬ InProgress h ∧
      ¬ (calls T).Along (CallSound T) h [.get (Mem.holding 0 []) ⟨2, 0⟩] := by
  intro T h
  have hget : packGet T (Mem.holding 0 []) ⟨2, 0⟩ h = .error .negativeLength := rfl
  refine ⟨rfl, hget, fun hin => absurd hin.first (by decide), ?_⟩
  rintro ⟨hsound, -⟩
  have hresult := hsound.result
  rw [hget] at hresult
  exact absurd hresult (by simp)

end RtpPack

end Camkit
