import Camkit.RtpPack.Drain
/-!
# RTP packetiser — how many packets

A unit of `len` bytes makes `(len - 1) / m + 1` packets, at most one for
each of its bytes, and the units of a buffer, start codes apart, take up
its bytes one after the other. Only the last unit may lie past the end, and
then it is a single byte. So a buffer makes at most as many packets as it
has bytes, or one, and the caller's loop ends.
-/

namespace Camkit

namespace RtpPack

variable {T : Target} {mem : Mem} {h : PacHandle} {clock : ℕ → Timeb} {m : ℕ} {hdr : UInt8}
variable {start : UInt32} {seq : UInt16} {inbuf size p : ℤ} {us : List (List UInt8)}

/-! ## The packets of a unit -/

theorem length_laterFus (hpos : 0 < m) {t : List UInt8} :
    (laterFus m hdr t).length = t.length / m + 1 := by
  induction hlen : t.length using Nat.strong_induction_on generalizing t with
  | _ len ih =>
    subst hlen
    rcases Nat.lt_or_ge t.length m with hlt | hge
    · rw [laterFus_of_lt hlt, Nat.div_eq_of_lt hlt]
      rfl
    · have hdrop : (t.drop m).length = t.length - m := List.length_drop
      rw [laterFus_of_le hpos hge, List.length_cons, ih _ (by omega) rfl, hdrop]
      rw [Nat.div_eq t.length m, if_pos ⟨hpos, hge⟩]

/-- **The packets of a unit**, whole or in fragments. -/
theorem length_fragments (hpos : 0 < m) {u : List UInt8} (hu : u ≠ []) :
    (fragments m u).length = (u.length - 1) / m + 1 := by
  obtain ⟨hdr, t, rfl⟩ := List.exists_cons_of_ne_nil hu
  rw [fragments, List.length_cons, Nat.add_sub_cancel]
  split
  · rw [Nat.div_eq_of_lt (by omega)]
    rfl
  · rename_i hgt
    have hdrop : (t.drop m).length = t.length - m := List.length_drop
    rw [List.length_cons, length_laterFus hpos, hdrop, Nat.div_eq t.length m,
      if_pos ⟨hpos, by omega⟩]

/-- No more packets than bytes. -/
theorem length_fragments_le (hpos : 0 < m) {u : List UInt8} (hu : u ≠ []) :
    (fragments m u).length ≤ u.length := by
  have hlen := List.length_pos_iff.mpr hu
  rw [length_fragments hpos hu]
  have hdiv : (u.length - 1) / m ≤ u.length - 1 := Nat.div_le_self _ _
  omega

theorem length_packetise_le (hpos : 0 < m) (hus : ∀ u ∈ us, u ≠ []) :
    (packetise T m start seq clock us).1.length ≤ (us.map List.length).sum := by
  induction us generalizing seq clock with
  | nil => exact Nat.le_refl _
  | cons u us ih =>
    obtain ⟨hu, hrest⟩ := List.forall_mem_cons.mp hus
    rw [packetise, List.map_cons, List.sum_cons]
    split
    · exact Nat.zero_le _
    · rw [List.length_append, length_stamp]
      exact Nat.add_le_add (length_fragments_le hpos hu) (ih hrest)

/-! ## The units of a buffer -/

/-- A unit has a byte at least. -/
theorem ne_nil_of_mem_units {next : Ptr} : ∀ u ∈ units mem inbuf size next, u ≠ [] := by
  induction hus : units mem inbuf size next generalizing next with
  | nil =>
    intro u hu
    exact absurd hu List.not_mem_nil
  | cons u us ih =>
    cases next with
    | none => exact absurd (units_none.symm.trans hus) (List.cons_ne_nil _ _).symm
    | some p =>
      by_cases hk : startCodeLen mem p = 0
      · exact absurd ((units_of_not_code hk).symm.trans hus) (List.cons_ne_nil _ _).symm
      · rw [units_of_code hk] at hus
        obtain ⟨rfl, hrest⟩ := List.cons.inj hus
        refine List.forall_mem_cons.mpr ⟨?_, ih hrest⟩
        have hlt := lt_findNextStartCode mem inbuf size (p + startCodeLen mem p)
        exact List.ne_nil_of_length_pos (by rw [Mem.length_bytes]; omega)

/-- **The units take up the buffer at most**, or one byte. -/
theorem sum_length_units (mem : Mem) (inbuf size p : ℤ) :
    ((units mem inbuf size (some p)).map List.length).sum ≤ (max (inbuf + size - p) 1).toNat := by
  -- on what is left of the buffer
  induction hleft : (inbuf + size - p).toNat using Nat.strong_induction_on generalizing p with
  | _ left ih =>
    by_cases hk : startCodeLen mem p = 0
    · rw [units_of_not_code hk]
      exact Nat.zero_le _
    · have hkpos := startCodeLen_pos hk
      rw [units_of_code hk, List.map_cons, List.sum_cons, Mem.length_bytes]
      rcases findNextStartCode_cases mem inbuf size (p + startCodeLen mem p) with
        ⟨q, hpq, hlt, -, -, hfound⟩ | ⟨-, hfound⟩
      · have hrest := ih _ (by omega) q rfl
        simp only [hfound]
        omega
      · -- the last unit: up to the end, or one byte past it
        rw [hfound, units_none, List.map_nil, List.sum_nil]
        omega

theorem length_stream_le (T : Target) (mem : Mem) (clock : ℕ → Timeb) (hpos : 0 < m)
    (h : PacHandle) (inbuf : Ptr) (isize : ℤ) :
    (stream T mem clock m h inbuf isize).1.length ≤ (max isize 1).toNat := by
  refine (length_packetise_le hpos ne_nil_of_mem_units).trans ?_
  cases inbuf with
  | none =>
    rw [units_none]
    exact Nat.zero_le _
  | some a =>
    have hsum := sum_length_units mem a isize a
    rw [add_sub_cancel_left] at hsum
    exact hsum

/-- **Draining always ends.** After `pack_put` of any buffer, well formed
or not, the caller's loop collects at most `max isize 1` packets, and one
call more than that is enough for it to see the 0. -/
theorem drain_ends {inbuf : Ptr} {isize : ℤ} (hM : 1 ≤ h.params.maxPktLen)
    (hM' : h.params.maxPktLen ≤ 10226) (n : ℕ) :
    (drain T mem n clock (packPut h inbuf isize)).packets.length ≤ (max isize 1).toNat ∧
      ((max isize 1).toNat < n →
        (drain T mem n clock (packPut h inbuf isize)).stop = .zero) := by
  obtain ⟨m, hm⟩ : ∃ m : ℕ, h.params.maxPktLen = m := ⟨h.params.maxPktLen.toNat, by omega⟩
  have hlen := length_stream_le T mem clock (show 0 < m by omega) h inbuf isize
  refine ⟨?_, ?_⟩
  · rw [(drain_packPut_take T mem clock (by omega) hm n).1, List.length_take, List.length_map]
    exact (Nat.min_le_right _ _).trans hlen
  · intro hn
    obtain ⟨-, hstop⟩ := drain_packPut T mem clock (by omega) hm (hlen.trans_lt hn)
    rw [hstop, stream, packetise_snd (by omega)]
    rfl

/-- A buffer of one byte that is a start code with what lies behind it: one
packet, of a byte past the end. -/
theorem drain_ends_straddling :
    let mem := Mem.holding 0 [0, 0, 1, 0x65, 0, 0, 1, 0x41]
    let h := openedHandle ⟨1, 10⟩ (Mem.holding 0 []) ⟨1, 500⟩
    (drain ⟨.ilp32, fun _ => 0⟩ mem 2 (fun i => ⟨2, i⟩) (packPut h (some 0) 1)).packets.length ≤ 1 ∧
      (1 < 2 →
        (drain ⟨.ilp32, fun _ => 0⟩ mem 2 (fun i => ⟨2, i⟩) (packPut h (some 0) 1)).stop =
          .zero) :=
  drain_ends (by decide) (by decide) 2

end RtpPack

end Camkit
