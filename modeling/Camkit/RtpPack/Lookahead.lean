import Camkit.RtpPack.Drain
/-!
# RTP packetiser — what lies behind the buffer

The start-code tests take no size, and the scan makes them up to the last
byte of the buffer, so a test near the end reads on. `sealed` says of a
buffer that every test the scan makes is decided by the buffer's own bytes
and that no unit begins at its end. Such a buffer gives one stream whatever
follows it, and any other gives two.
-/

namespace Camkit

namespace RtpPack

variable {T : Target} {mem mem₁ mem₂ : Mem} {h : PacHandle} {clock : ℕ → Timeb}
variable {inbuf size p a : ℤ} {m k : ℕ} {b t l : List UInt8} {seq : UInt16} {start : UInt32}

/-! ## Tests on the bytes of the buffer alone -/

/-- What a list of bytes says of a start code at its head. -/
inductive Look where
  | code (c : StartCode)
  | no
  /-- the bytes end before it is decided -/
  | undecided
  deriving DecidableEq, Repr

/-- The start-code tests on what is left of a buffer. -/
def look (b : List UInt8) : Look :=
  if StartCode.short.bytes <+: b then .code .short
  else if StartCode.long.bytes <+: b then .code .long
  else if b <+: [0, 0, 0] then .undecided
  else .no

/-- What is left of the buffer at the first position where the tests do
not say no. -/
def firstLook : List UInt8 → Option (List UInt8)
  | [] => none
  | b :: t => if look (b :: t) = .no then firstLook t else some (b :: t)

theorem firstLook_eq_some (hl : firstLook t = some l) :
    ∃ pre, t = pre ++ l ∧ l ≠ [] ∧ look l ≠ .no ∧ ∀ i < pre.length, look (t.drop i) = .no := by
  induction t with
  | nil => exact absurd hl (by simp [firstLook])
  | cons b t ih =>
    rw [firstLook] at hl
    split at hl
    · rename_i hno
      obtain ⟨pre, rfl, hne, hlook, hpre⟩ := ih hl
      refine ⟨b :: pre, rfl, hne, hlook, ?_⟩
      intro i hi
      cases i with
      | zero => exact hno
      | succ i => exact hpre i (by rw [List.length_cons] at hi; omega)
    · rename_i hlook
      obtain rfl := Option.some.inj hl
      exact ⟨[], rfl, List.cons_ne_nil _ _, hlook, fun i hi => absurd hi (Nat.not_lt_zero i)⟩

theorem firstLook_eq_none (hl : firstLook t = none) : ∀ i < t.length, look (t.drop i) = .no := by
  induction t with
  | nil => exact fun i hi => absurd hi (Nat.not_lt_zero i)
  | cons b t ih =>
    rw [firstLook] at hl
    split at hl
    · rename_i hno
      intro i hi
      cases i with
      | zero => exact hno
      | succ i => exact ih hl i (by rw [List.length_cons] at hi; omega)
    · exact absurd hl (by simp)

/-- The buffer decides its own stream: at its head and at every later
position the scan tests, the tests are decided inside it, and no start
code is its end — up to a unit the output-size check rejects. -/
def sealed (m : ℕ) (b : List UInt8) : Bool :=
  match look b with
  | .undecided => false
  | .no => true
  | .code c =>
    let data := b.drop c.bytes.length
    if data = [] then false
    else
      match _hl : firstLook data.tail with
      | none => true
      | some l => decide (TooBig m (data.length - l.length)) || sealed m l
termination_by b.length
decreasing_by
  obtain ⟨pre, hpre, hne, -⟩ := firstLook_eq_some _hl
  have hlen := congrArg List.length hpre
  have hpos := List.length_pos_iff.mpr hne
  rw [List.length_tail, List.length_drop, List.length_append] at hlen
  omega

variable {c : StartCode}

theorem sealed_of_no (hb : look b = .no) : sealed m b = true := by
  rw [sealed, hb]

theorem sealed_of_undecided (hb : look b = .undecided) : sealed m b = false := by
  rw [sealed, hb]

theorem sealed_of_code_end (hb : look b = .code c) (hd : b.drop c.bytes.length = []) :
    sealed m b = false := by
  rw [sealed, hb]
  exact if_pos hd

theorem sealed_of_code_none (hb : look b = .code c) (hd : b.drop c.bytes.length ≠ [])
    (hl : firstLook (b.drop c.bytes.length).tail = none) : sealed m b = true := by
  rw [sealed, hb]
  simp only
  rw [if_neg hd]
  split
  · rfl
  · rename_i hl'
    exact absurd (hl.symm.trans hl') (by simp)

theorem sealed_of_code_some (hb : look b = .code c) (hd : b.drop c.bytes.length ≠ [])
    (hl : firstLook (b.drop c.bytes.length).tail = some l) :
    sealed m b =
      (decide (TooBig m ((b.drop c.bytes.length).length - l.length)) || sealed m l) := by
  rw [sealed, hb]
  simp only
  rw [if_neg hd]
  split
  · rename_i hl'
    exact absurd (hl.symm.trans hl') (by simp)
  · rename_i hl'
    obtain rfl := Option.some.inj (hl.symm.trans hl')
    rfl

/-! ## The tests of the code -/

theorem prefix_of_look (hb : look b = .code c) : c.bytes <+: b := by
  unfold look at hb
  split at hb
  · obtain rfl := Look.code.inj hb
    assumption
  · split at hb
    · obtain rfl := Look.code.inj hb
      assumption
    · split at hb
      · exact absurd hb (by simp)
      · exact absurd hb (by simp)

theorem not_prefix_of_look (hb : look b = .no) (c : StartCode) :
    ¬ c.bytes <+: b ∧ ¬ b <+: [0, 0, 0] := by
  unfold look at hb
  split at hb
  · exact absurd hb (by simp)
  · split at hb
    · exact absurd hb (by simp)
    · split at hb
      · exact absurd hb (by simp)
      · refine ⟨?_, by assumption⟩
        cases c <;> assumption

theorem prefix_of_undecided (hb : look b = .undecided) : b <+: [0, 0, 0] := by
  unfold look at hb
  split at hb
  · exact absurd hb (by simp)
  · split at hb
    · exact absurd hb (by simp)
    · split at hb
      · assumption
      · exact absurd hb (by simp)

/-- A prefix of a start code that is not all of it ends before its last
byte. -/
theorem prefix_zeros_of_proper (hb : b <+: c.bytes) (hne : ¬ c.bytes <+: b) :
    b <+: [0, 0, 0] := by
  have hlt : b.length < c.bytes.length := by
    by_contra hge
    exact hne (hb.eq_of_length_le (by omega) ▸ List.prefix_rfl)
  cases c with
  | short =>
    have hb' : b <+: [0, 0] := List.prefix_of_prefix_length_le hb ⟨[1], rfl⟩ (by
      simp only [StartCode.bytes, List.length] at hlt ⊢
      omega)
    exact hb'.trans ⟨[0], rfl⟩
  | long =>
    exact List.prefix_of_prefix_length_le hb ⟨[1], rfl⟩ (by
      simp only [StartCode.bytes, List.length] at hlt ⊢
      omega)

/-- **A start code the tests see is the one of the code.** -/
theorem startCodeLen_of_look_code (hmem : mem.bytes p b.length = b) (hb : look b = .code c) :
    startCodeLen mem p = c.bytes.length := by
  obtain ⟨rest, rfl⟩ := prefix_of_look hb
  exact startCodeLen_of_bytes (Mem.bytes_append.mp hmem).1

/-- **Where they say no, there is none**: the buffer and a start code
would both begin the memory, and one of them would begin the other. -/
theorem startCodeLen_of_look_no (hmem : mem.bytes p b.length = b) (hb : look b = .no) :
    startCodeLen mem p = 0 := by
  by_contra hk
  obtain ⟨c, hc⟩ := bytes_of_startCodeLen hk
  obtain ⟨hcode, hzeros⟩ := not_prefix_of_look hb c
  -- the shorter of the two is a prefix of the other
  rcases le_total c.bytes.length b.length with hle | hle
  · have hpre := Mem.bytes_isPrefix (m := mem) (a := p) hle
    rw [hc, hmem] at hpre
    exact hcode hpre
  · have hpre := Mem.bytes_isPrefix (m := mem) (a := p) hle
    rw [hc, hmem] at hpre
    exact hzeros (prefix_zeros_of_proper hpre hcode)

/-! ## The scan over the buffer -/

/-- The scan passes every position where the tests say no. -/
theorem startCodeLen_of_passed (hmem : mem.bytes (p + 1) t.length = t) {n : ℕ}
    (hn : n ≤ t.length) (hno : ∀ i < n, look (t.drop i) = .no) :
    ∀ j, p < j → j < p + 1 + n → startCodeLen mem j = 0 := by
  intro j h₁ h₂
  have hi : (j - p - 1).toNat < n := by omega
  have hmem' := Mem.bytes_drop hmem (show (j - p - 1).toNat ≤ t.length by omega)
  rw [show p + 1 + ((j - p - 1).toNat : ℤ) = j by omega] at hmem'
  exact startCodeLen_of_look_no hmem' (hno _ hi)

theorem findNextStartCode_of_none (hmem : mem.bytes (p + 1) t.length = t)
    (hend : p + 1 + t.length = inbuf + size) (hl : firstLook t = none) :
    findNextStartCode mem inbuf size p = (inbuf + size, none) := by
  have hno := startCodeLen_of_passed hmem le_rfl (firstLook_eq_none hl)
  rw [findNextStartCode_eq_none fun j h₁ h₂ => hno j h₁ (by omega), max_eq_right (by omega)]

/-- The scan stops where the tests do not say no, if there is a start code
there, and no earlier if there is none. -/
theorem findNextStartCode_of_some (hmem : mem.bytes (p + 1) t.length = t)
    (hend : p + 1 + t.length = inbuf + size) (hl : firstLook t = some l) :
    mem.bytes (inbuf + size - l.length) l.length = l ∧
      inbuf + size - l.length ≤ (findNextStartCode mem inbuf size p).1 ∧
      (startCodeLen mem (inbuf + size - l.length) ≠ 0 →
        findNextStartCode mem inbuf size p =
          (inbuf + size - l.length, some (inbuf + size - l.length))) := by
  obtain ⟨pre, rfl, hne, -, hpre⟩ := firstLook_eq_some hl
  have hpos := List.length_pos_iff.mpr hne
  have hno := startCodeLen_of_passed hmem (by simp) hpre
  rw [List.length_append] at hmem hend
  have hq : inbuf + size - l.length = p + 1 + pre.length := by push_cast at hend; omega
  rw [Mem.bytes_add] at hmem
  rw [hq]
  refine ⟨(List.append_inj hmem Mem.length_bytes).2, ?_, ?_⟩
  · rcases findNextStartCode_cases mem inbuf size p with ⟨q, hpq, -, hcode, -, heq⟩ | ⟨-, heq⟩
    · rw [heq]
      by_contra hlt
      exact hcode (hno q hpq (by simpa using hlt))
    · rw [heq]
      exact le_max_of_le_right (by omega)
  · intro hk
    exact findNextStartCode_eq_some (by omega) (by omega) hk hno

/-! ## A sealed buffer -/

theorem tooBig_mono {n n' : ℕ} (hle : n ≤ n') (hbig : TooBig m n) : TooBig m n' := by
  unfold TooBig at hbig ⊢
  split at hbig <;> split <;> omega

/-- The first unit of a buffer with a start code at its head, and where
the rest begins. -/
theorem units_of_look {c : StartCode} (hmem : mem.bytes p b.length = b) (hb : look b = .code c) :
    units mem inbuf size (some p) =
      mem.bytes (p + c.bytes.length)
          ((findNextStartCode mem inbuf size (p + c.bytes.length)).1 -
            (p + c.bytes.length)).toNat ::
        units mem inbuf size (findNextStartCode mem inbuf size (p + c.bytes.length)).2 := by
  have hk := startCodeLen_of_look_code hmem hb
  rw [units_of_code (by rw [hk]; exact_mod_cast c.length_pos.ne'), hk]

/-- What the tests of a buffer with a start code at its head are about:
the data after the first byte. -/
theorem bytes_data {c : StartCode} (hmem : mem.bytes p b.length = b) (hb : look b = .code c)
    (hd : b.drop c.bytes.length ≠ []) :
    mem.bytes (p + c.bytes.length + 1) (b.drop c.bytes.length).tail.length =
        (b.drop c.bytes.length).tail ∧
      p + c.bytes.length + 1 + (b.drop c.bytes.length).tail.length = p + b.length := by
  have hle : c.bytes.length ≤ b.length := (prefix_of_look hb).length_le
  have hpos := List.length_pos_iff.mpr hd
  have hdata := Mem.bytes_drop hmem hle
  have htail := Mem.bytes_drop hdata hpos
  rw [List.drop_one] at htail
  refine ⟨by exact_mod_cast htail, ?_⟩
  rw [List.length_tail, List.length_drop] at *
  omega

/-- **A sealed buffer gives one stream, whatever follows it.** -/
theorem packetise_units_congr (hs : sealed m b = true) (h₁ : mem₁.bytes p b.length = b)
    (h₂ : mem₂.bytes p b.length = b) (hend : p + b.length = inbuf + size) :
    packetise T m start seq clock (units mem₁ inbuf size (some p)) =
      packetise T m start seq clock (units mem₂ inbuf size (some p)) := by
  -- on the length: what is left at the next start code is shorter
  induction hlen : b.length using Nat.strong_induction_on generalizing b p seq clock with
  | _ len ih =>
    cases hb : look b with
    | undecided => exact absurd hs (by simp [sealed_of_undecided hb])
    | no =>
      rw [units_of_not_code (startCodeLen_of_look_no h₁ hb),
        units_of_not_code (startCodeLen_of_look_no h₂ hb)]
    | code c =>
      by_cases hd : b.drop c.bytes.length = []
      · exact absurd hs (by simp [sealed_of_code_end hb hd])
      · obtain ⟨ht₁, htend⟩ := bytes_data h₁ hb hd
        obtain ⟨ht₂, -⟩ := bytes_data h₂ hb hd
        rw [hend] at htend
        have hsame : ∀ n : ℕ, p + c.bytes.length + n ≤ p + b.length →
            mem₁.bytes (p + c.bytes.length) n = mem₂.bytes (p + c.bytes.length) n := by
          intro n hn
          exact Mem.bytes_congr fun i hi₁ hi₂ =>
            Mem.eq_of_bytes_eq (h₁.trans h₂.symm) (by omega) (by omega)
        rw [units_of_look h₁ hb, units_of_look h₂ hb]
        cases hl : firstLook (b.drop c.bytes.length).tail with
        | none =>
          rw [findNextStartCode_of_none ht₁ htend hl, findNextStartCode_of_none ht₂ htend hl,
            hsame _ (by omega)]
          simp only [units_none]
        | some l =>
          rw [sealed_of_code_some hb hd hl, Bool.or_eq_true, decide_eq_true_eq] at hs
          obtain ⟨hl₁, hle₁, hf₁⟩ := findNextStartCode_of_some ht₁ htend hl
          obtain ⟨hl₂, hle₂, hf₂⟩ := findNextStartCode_of_some ht₂ htend hl
          have hdlen : (b.drop c.bytes.length).length + (p + c.bytes.length) = inbuf + size := by
            have := (prefix_of_look hb).length_le
            rw [List.length_drop, ← hend]
            omega
          by_cases hbig : TooBig m ((b.drop c.bytes.length).length - l.length)
          · -- the unit is rejected, wherever it ends
            have hlong : ∀ {e : ℤ}, inbuf + size - l.length ≤ e →
                TooBig m (e - (p + c.bytes.length)).toNat := fun he => tooBig_mono (by omega) hbig
            rw [packetise, packetise, Mem.length_bytes, Mem.length_bytes, if_pos (hlong hle₁),
              if_pos (hlong hle₂)]
          · have hrest : sealed m l = true := hs.resolve_left hbig
            obtain ⟨pre, hpre, hne, hlook, -⟩ := firstLook_eq_some hl
            obtain ⟨c', hc'⟩ : ∃ c', look l = .code c' := by
              cases hlook' : look l with
              | code c' => exact ⟨c', rfl⟩
              | no => exact absurd hlook' hlook
              | undecided => exact absurd hrest (by simp [sealed_of_undecided hlook'])
            have hpos' := c'.length_pos
            have hk₁ := startCodeLen_of_look_code hl₁ hc'
            have hk₂ := startCodeLen_of_look_code hl₂ hc'
            have hllen : l.length + 1 ≤ (b.drop c.bytes.length).length := by
              have hcong := congrArg List.length hpre
              have := List.length_pos_iff.mpr hd
              rw [List.length_tail, List.length_append] at hcong
              omega
            have hdrop : (b.drop c.bytes.length).length ≤ b.length := by
              rw [List.length_drop]
              exact Nat.sub_le _ _
            rw [hf₁ (by omega), hf₂ (by omega), packetise, packetise, Mem.length_bytes,
              Mem.length_bytes, hsame _ (by omega)]
            simp only [ih l.length (by omega) hrest hl₁ hl₂ (by omega) rfl]

/-! ## A buffer that is not sealed -/

/-- The bytes that turn an undecided tail into a start code. -/
theorem completion_of_undecided (hb : look b = .undecided) :
    ∃ c, b ++ c = StartCode.long.bytes := by
  obtain ⟨c, hc⟩ := prefix_of_undecided hb
  exact ⟨c ++ [1], by rw [← List.append_assoc, hc]; rfl⟩

/-- At a start code that ends at or past the end of the buffer, the scan
takes the one byte after it as a unit. -/
theorem units_of_end {c : StartCode} {x : UInt8}
    (hmem : mem.bytes p (c.bytes ++ [x]).length = c.bytes ++ [x])
    (hend : inbuf + size ≤ p + c.bytes.length) : units mem inbuf size (some p) = [[x]] := by
  obtain ⟨hc, hx⟩ := Mem.bytes_append.mp hmem
  have hk := startCodeLen_of_bytes hc
  have hscan : findNextStartCode mem inbuf size (p + c.bytes.length) =
      (p + c.bytes.length + 1, none) := by
    rw [findNextStartCode_eq_none fun j h₁ h₂ => by omega, max_eq_left (by omega)]
  rw [units_of_code (by rw [hk]; exact_mod_cast c.length_pos.ne'), hk, hscan, units_none,
    add_sub_cancel_left]
  exact congrArg (· :: []) hx

/-- A unit that the scan can tell the end of, before what begins there. -/
theorem units_before {d : UInt8} {pre tail : List UInt8} {us : List (List UInt8)}
    (hb : look (c.bytes ++ d :: (pre ++ l)) = .code c) (hl : firstLook (pre ++ l) = some l)
    (hmem : mem.bytes p (c.bytes ++ d :: (pre ++ l) ++ tail).length =
      c.bytes ++ d :: (pre ++ l) ++ tail)
    (hend : p + (c.bytes ++ d :: (pre ++ l)).length = inbuf + size) (hne : us ≠ [])
    (hus : mem.bytes (inbuf + size - l.length) (l ++ tail).length = l ++ tail →
      units mem inbuf size (some (inbuf + size - l.length)) = us) :
    units mem inbuf size (some p) = (d :: pre) :: us := by
  have hdrop : (c.bytes ++ d :: (pre ++ l)).drop c.bytes.length = d :: (pre ++ l) :=
    List.drop_left
  have hb' : mem.bytes p (c.bytes ++ d :: (pre ++ l)).length = c.bytes ++ d :: (pre ++ l) :=
    (Mem.bytes_append.mp hmem).1
  obtain ⟨ht, htend⟩ := bytes_data hb' hb (by rw [hdrop]; exact List.cons_ne_nil _ _)
  rw [hend] at htend
  obtain ⟨-, -, hf⟩ := findNextStartCode_of_some ht htend (by rw [hdrop]; exact hl)
  have hq : inbuf + size - l.length = p + (c.bytes ++ d :: pre).length := by
    rw [← hend]
    simp only [List.length_append, List.length_cons]
    push_cast
    omega
  have hsplit : c.bytes ++ d :: (pre ++ l) ++ tail = (c.bytes ++ d :: pre) ++ (l ++ tail) := by
    simp
  rw [hsplit] at hmem
  obtain ⟨hunit, hrest⟩ := Mem.bytes_append.mp hmem
  rw [← hq] at hrest
  have hrec := hus hrest
  have hk : startCodeLen mem (inbuf + size - l.length) ≠ 0 := by
    intro h0
    rw [units_of_not_code h0] at hrec
    exact hne hrec.symm
  obtain ⟨-, hunit⟩ := Mem.bytes_append.mp hunit
  rw [units_of_look hb' hb, hf hk, hrec, hq, List.length_append, Nat.cast_add, ← add_assoc,
    add_sub_cancel_left, Int.toNat_natCast, hunit]

/-- **A buffer that is not sealed leaks**: behind some bytes that follow
it, one more byte is sent as a unit of its own. -/
theorem units_of_not_sealed (hs : sealed m b = false) :
    ∃ tail us, (∀ u ∈ us, ¬ TooBig m u.length) ∧
      ∀ (x : UInt8) (mem : Mem) (p inbuf size : ℤ),
        mem.bytes p (b ++ (tail ++ [x])).length = b ++ (tail ++ [x]) →
        p + b.length = inbuf + size → units mem inbuf size (some p) = us ++ [[x]] := by
  induction hlen : b.length using Nat.strong_induction_on generalizing b with
  | _ len ih =>
    cases hb : look b with
    | no => exact absurd hs (by simp [sealed_of_no hb])
    | undecided =>
      obtain ⟨tail, htail⟩ := completion_of_undecided hb
      refine ⟨tail, [], by simp, ?_⟩
      intro x mem p inbuf size hmem hend
      rw [← List.append_assoc, htail] at hmem
      refine units_of_end hmem ?_
      rw [← hend, ← htail, List.length_append]
      omega
    | code c =>
      obtain ⟨data, rfl⟩ := prefix_of_look hb
      have hdrop : (c.bytes ++ data).drop c.bytes.length = data := List.drop_left
      cases data with
      | nil =>
        refine ⟨[], [], by simp, ?_⟩
        intro x mem p inbuf size hmem hend
        rw [← hlen, List.append_nil] at hend
        rw [List.append_nil] at hmem
        exact units_of_end hmem hend.ge
      | cons d t =>
        have hd : (c.bytes ++ d :: t).drop c.bytes.length ≠ [] := by
          rw [hdrop]
          exact List.cons_ne_nil _ _
        cases hl : firstLook t with
        | none => exact absurd hs (by simp [sealed_of_code_none hb hd (by rw [hdrop]; exact hl)])
        | some l =>
          rw [sealed_of_code_some hb hd (by rw [hdrop]; exact hl), hdrop, Bool.or_eq_false_iff,
            decide_eq_false_iff_not] at hs
          obtain ⟨hfit, hrest⟩ := hs
          obtain ⟨pre, rfl, -, -, -⟩ := firstLook_eq_some hl
          obtain ⟨tail, us, hus, hleak⟩ := ih l.length (by
            rw [← hlen]
            simp only [List.length_append, List.length_cons]
            omega) hrest rfl
          refine ⟨tail, (d :: pre) :: us, ?_, ?_⟩
          · simp only [List.length_cons, List.length_append] at hfit
            rw [List.forall_mem_cons]
            exact ⟨by rwa [List.length_cons, show pre.length + 1 = pre.length + l.length + 1 -
              l.length by omega], hus⟩
          · intro x mem p inbuf size hmem hend
            rw [← hlen] at hend
            exact units_before hb hl hmem hend (by simp) fun hrest' =>
              hleak x mem _ inbuf size hrest' (by omega)

/-! ## One stream for one buffer -/

/-- The last packet of a stream that ends with a unit of one byte carries
that byte. -/
theorem getLast?_packetise {us : List (List UInt8)} (hpos : 0 < m)
    (hus : ∀ u ∈ us, ¬ TooBig m u.length) (x : UInt8) :
    ((packetise T m start seq clock (us ++ [[x]])).1.getLast?).map Packet.payload = some [x] := by
  induction us generalizing seq clock with
  | nil =>
    have hbig : ¬ TooBig m 1 := by
      have hmax : maxOutbufSize = 10240 := rfl
      rw [TooBig, if_pos (by omega)]
      omega
    have hfrag : fragments m [x] = [(true, [x])] := if_pos (by rw [List.length_nil]; omega)
    rw [List.nil_append, packetise, List.length_singleton, if_neg hbig, hfrag]
    rfl
  | cons u us ih =>
    obtain ⟨hu, hus⟩ := List.forall_mem_cons.mp hus
    rw [List.cons_append, packetise, if_neg hu]
    simp only [List.getLast?_append, Option.map_or, ih hus]
    rfl

/-- **The stream depends on the bytes handed over alone**: whatever memory
holds them at `a`, any number of calls after `pack_put` yield the same
packets and the same end. -/
def SameStream (T : Target) (h : PacHandle) (clock : ℕ → Timeb) (a : ℤ) (b : List UInt8) : Prop :=
  ∀ mem₁ mem₂ : Mem, mem₁.bytes a b.length = b → mem₂.bytes a b.length = b → ∀ n,
    (drain T mem₁ n clock (packPut h (some a) b.length)).packets =
        (drain T mem₂ n clock (packPut h (some a) b.length)).packets ∧
      (drain T mem₁ n clock (packPut h (some a) b.length)).stop =
        (drain T mem₂ n clock (packPut h (some a) b.length)).stop

theorem sameStream_of_sealed (hpos : 0 < m) (hm : h.params.maxPktLen = m)
    (hs : sealed m b = true) : SameStream T h clock a b := by
  intro mem₁ mem₂ h₁ h₂ n
  have hstream : stream T mem₁ clock m h (some a) b.length =
      stream T mem₂ clock m h (some a) b.length := packetise_units_congr hs h₁ h₂ rfl
  obtain ⟨hpackets₁, hstop₁⟩ := drain_packPut_take T mem₁ clock hpos hm n
  obtain ⟨hpackets₂, hstop₂⟩ := drain_packPut_take T mem₂ clock hpos hm n
  rw [hstream] at hpackets₁ hstop₁
  exact ⟨hpackets₁.trans hpackets₂.symm, hstop₁.trans hstop₂.symm⟩

theorem sealed_of_sameStream (hpos : 0 < m) (hm : h.params.maxPktLen = m)
    (hsame : SameStream T h clock a b) : sealed m b = true := by
  by_contra hs
  rw [Bool.not_eq_true] at hs
  obtain ⟨tail, us, hus, hleak⟩ := units_of_not_sealed hs
  -- two memories that differ in the one byte that is sent
  let mem : UInt8 → Mem := fun x => Mem.holding a (b ++ (tail ++ [x]))
  have hmem : ∀ x, (mem x).bytes a b.length = b := by
    intro x
    have hall : (mem x).bytes a (b ++ (tail ++ [x])).length = b ++ (tail ++ [x]) :=
      Mem.bytes_holding
    exact (Mem.bytes_append.mp hall).1
  have hlast : ∀ x : UInt8, ∃ N, ∀ n ≥ N, ((drain T (mem x) n clock
      (packPut h (some a) b.length)).packets.getLast?).map (List.drop 12) = some [x] := by
    intro x
    have hstream : stream T (mem x) clock m h (some a) b.length =
        packetise T m h.tsStartMillisec h.seqNum clock (us ++ [[x]]) :=
      congrArg (packetise T m h.tsStartMillisec h.seqNum clock)
        (hleak x (mem x) a a b.length Mem.bytes_holding rfl)
    refine ⟨(stream T (mem x) clock m h (some a) b.length).1.length + 1, ?_⟩
    intro n hn
    obtain ⟨hpackets, -⟩ := drain_packPut T (mem x) clock hpos hm hn
    rw [hpackets, hstream, List.getLast?_map, Option.map_map]
    exact Eq.trans (congrArg (Option.map · _) (funext fun _ => drop_encode))
      (getLast?_packetise hpos hus x)
  obtain ⟨N₁, h₁⟩ := hlast 1
  obtain ⟨N₂, h₂⟩ := hlast 2
  have heq := (hsame (mem 1) (mem 2) (hmem 1) (hmem 2) (max N₁ N₂)).1
  have hone := h₁ (max N₁ N₂) (le_max_left _ _)
  rw [heq, h₂ (max N₁ N₂) (le_max_right _ _)] at hone
  exact absurd hone (by decide)

/-- **The stream depends on the buffer alone exactly where the buffer is
sealed**, in every state of the handle. -/
theorem sameStream_iff_sealed (hM : 1 ≤ h.params.maxPktLen) :
    SameStream T h clock a b ↔ sealed h.params.maxPktLen.toNat b = true := by
  have hm : h.params.maxPktLen = (h.params.maxPktLen.toNat : ℤ) := by omega
  exact ⟨sealed_of_sameStream (by omega) hm, sameStream_of_sealed (by omega) hm⟩

/-- A unit that ends where the buffer does, and is followed by zeros or by
stale bytes alike. -/
theorem sameStream_iff_sealed_unit :
    SameStream ⟨.ilp32, fun _ => 0⟩ (openedHandle ⟨1400, 10⟩ (Mem.holding 0 []) ⟨1, 500⟩)
        (fun i => ⟨2, i⟩) 0 [0, 0, 0, 1, 0x65, 0x88] ↔
      sealed 1400 [0, 0, 0, 1, 0x65, 0x88] = true :=
  sameStream_iff_sealed (by decide)

/-- **A buffer may end in zero bytes and its stream then depend on what
follows it**: here a start code begins inside and ends in stale memory,
whose next byte is sent. -/
theorem not_sameStream_trailing_zeros :
    ¬ SameStream ⟨.ilp32, fun _ => 0⟩ (openedHandle ⟨1400, 10⟩ (Mem.holding 0 []) ⟨1, 500⟩)
        (fun i => ⟨2, i⟩) 0 [0, 0, 0, 1, 0x65, 0x88, 0, 0] := by
  intro hsame
  have heq := (hsame (Mem.holding 0 [0, 0, 0, 1, 0x65, 0x88, 0, 0])
    (Mem.holding 0 [0, 0, 0, 1, 0x65, 0x88, 0, 0, 1, 0x67]) (by decide) (by decide) 3).1
  exact absurd heq (by decide +kernel)

end RtpPack

end Camkit
