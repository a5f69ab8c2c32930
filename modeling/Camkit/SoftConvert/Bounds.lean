import Camkit.SoftConvert.Planes
/-!
# Software converter — the sizes it accepts

`convert_open` checks the formats and that there is no scaling. It accepts
an odd width or height, which the loops overrun by a pair of pixels or a
line, and it multiplies sizes whose products overflow.
-/

namespace Camkit

namespace SoftConvert

variable {width height : Int32} {inbuf : Mem} {malloc : Bool} {mallocDst : Option Mem}
variable {param : CvtParam} {h : CvtHandle} {W H i o : ℕ}

/-- The accesses of a conversion stay in its buffers, and each in its
plane. -/
structure InBounds (h : CvtHandle) (scan : Scan) : Prop where
  reads : ∀ x ∈ scan.reads, 0 ≤ x ∧ x < h.srcBuffersize.toInt
  writes : ∀ w ∈ scan.writes, 0 ≤ w.index ∧ w.index < h.dstBuffersize.toInt
  luma : ∀ w ∈ scan.writes, w.plane = .y →
    w.index < h.params.inwidth.toInt * h.params.inheight.toInt
  u : ∀ w ∈ scan.writes, w.plane = .u →
    w.index < 5 * (h.params.inwidth.toInt * h.params.inheight.toInt) / 4

/-- The sizes converted in bounds. -/
def Convertible (W H : ℤ) : Prop := Even W ∧ Even H ∧ 16 * (W * H) < 2 ^ 31

instance (W H : ℤ) : Decidable (Convertible W H) := inferInstanceAs (Decidable (_ ∧ _ ∧ _))

/-! ## In bounds -/

/-- The writes of an exact size are in the output, and in their planes. -/
theorem Exact.write_lt {a b : ℕ} {w : Write} (e : Exact width height a b)
    (hw : w ∈ (yuv422ToYuv420 inbuf width height).writes) :
    0 ≤ w.index ∧ w.index < 6 * (a * b : ℕ) ∧ (w.plane = .y → w.index < 4 * (a * b : ℕ)) ∧
      (w.plane = .u → w.index < 5 * (a * b : ℕ)) := by
  rcases (e.mem_writes_iff inbuf).mp hw with ⟨line, hline, c, hc, rfl⟩ | ⟨q, hq, p, hp, rfl⟩ |
    ⟨q, hq, p, hp, rfl⟩
  · obtain ⟨hlt, -⟩ := e.outPos_lt hline hc
    simp only [yWrite]
    omega
  · obtain ⟨hlt, -⟩ := e.chroma_lt hq hp
    simp only [uWrite, reduceCtorEq, false_implies, true_and]
    omega
  · obtain ⟨hlt, -⟩ := e.chroma_lt hq hp
    simp only [vWrite, reduceCtorEq, false_implies, and_true]
    omega

/-- **An exact size is in bounds.** -/
theorem Exact.inBounds {a b : ℕ} (e : Exact param.inwidth param.inheight a b)
    (hopened : Opened param h) (inbuf : Mem) :
    InBounds h (yuv422ToYuv420 inbuf param.inwidth param.inheight) := by
  have hsrc : h.srcBuffersize.toInt = 8 * (a * b : ℕ) := by
    rw [hopened.src, e.area]
    ring
  have hdst : h.dstBuffersize.toInt = 6 * (a * b : ℕ) := by
    have hbytes : 12 * (4 * ((a * b : ℕ) : ℤ)) = 8 * (6 * (a * b : ℕ)) := by ring
    rw [hopened.dst, e.area, hbytes, Int.mul_tdiv_cancel_left _ (by decide)]
  refine ⟨fun x hx => ?_, fun w hw => ?_, fun w hw hplane => ?_, fun w hw hplane => ?_⟩
  · rw [hsrc]
    exact e.reads_lt hx
  · rw [hdst]
    obtain ⟨h0, hlt, -, -⟩ := e.write_lt hw
    exact ⟨h0, hlt⟩
  · rw [hopened.params, e.area]
    exact (e.write_lt hw).2.2.1 hplane
  · have hlt := (e.write_lt hw).2.2.2 hplane
    rw [hopened.params, e.area]
    omega

/-! ## Out of bounds -/

/-- A factor is at most a product. -/
theorem le_area (hW : 0 < W) (hH : 0 < H) : W ≤ W * H ∧ H ≤ W * H :=
  ⟨Nat.le_mul_of_pos_right W hH, Nat.le_mul_of_pos_left H hW⟩

/-- **No cursor of the input wraps**, be the sizes odd: a position is where
it is. -/
theorem place_inPos (hW : width.toInt = W) (hW0 : 0 < W) (hH0 : 0 < H)
    (hsize : 16 * (W * H) < 2 ^ 31) (hi : i ≤ H) (ho : o < 2 * W + 2) :
    place (inPos width.toInt i o) = (i * (2 * W) + o : ℕ) := by
  have hle : i * (2 * W) ≤ H * (2 * W) := Nat.mul_le_mul_right _ hi
  have harea : H * (2 * W) = 2 * (W * H) := by ring
  have hfactor := le_area hW0 hH0
  have hin : inPos width.toInt i o = (i * (2 * W) + o : ℕ) := by
    rw [inPos, hW]
    push_cast
    ring
  rw [hin, place_of_lt (by omega) (by omega)]

/-- The loops read pairs of lines and pairs of pixels. -/
theorem inPos_mem_reads (inbuf : Mem) (hW : width.toInt = W) (hH : height.toInt = H) (hW0 : 0 < W)
    (hH0 : 0 < H) (hsize : 16 * (W * H) < 2 ^ 31) (hi : i < 2 * ((H + 1) / 2))
    (ho : o < 4 * ((W + 1) / 2)) :
    ((i * (2 * W) + o : ℕ) : ℤ) ∈ (yuv422ToYuv420 inbuf width height).reads := by
  have hfactor := le_area hW0 hH0
  have htwo : (2 : Int32).toInt = 2 := rfl
  have hcols : rounds (width * 2) 4 = (W + 1) / 2 := by
    rw [rounds, Int32.toInt_mul, htwo, hW, bmod_of_lt (by omega) (by omega)]
    omega
  have hrows : rounds height 2 = (H + 1) / 2 := by
    rw [rounds, hH]
    omega
  refine mem_reads.mpr ⟨i, ?_, o, ?_, ?_⟩
  · rw [hrows]
    exact hi
  · rw [hcols]
    exact ho
  · exact (place_inPos hW hW0 hH0 hsize (by omega) (by omega)).symm

/-- **The place behind the input is read** where a size is odd. -/
theorem size_mem_reads (inbuf : Mem) (hW : width.toInt = W) (hH : height.toInt = H) (hW0 : 0 < W)
    (hH0 : 0 < H) (hsize : 16 * (W * H) < 2 ^ 31) (hodd : ¬ (Even W ∧ Even H)) :
    ((2 * (W * H) : ℕ) : ℤ) ∈ (yuv422ToYuv420 inbuf width height).reads := by
  by_cases hWeven : Even W
  · -- the height is odd: there is no second line
    have hHodd : ¬ Even H := fun hHeven => hodd ⟨hWeven, hHeven⟩
    rw [Nat.not_even_iff] at hHodd
    have hread := inPos_mem_reads inbuf hW hH hW0 hH0 hsize (i := H) (o := 0) (by omega) (by omega)
    rw [show H * (2 * W) + 0 = 2 * (W * H) by ring] at hread
    exact hread
  · -- the width is odd: the last line goes on behind its end
    rw [Nat.not_even_iff] at hWeven
    obtain ⟨k, rfl⟩ : ∃ k, H = k + 1 := ⟨H - 1, by omega⟩
    have hread := inPos_mem_reads inbuf hW hH hW0 hH0 hsize (i := k) (o := 2 * W) (by omega)
      (by omega)
    rw [show k * (2 * W) + 2 * W = 2 * (W * (k + 1)) by ring] at hread
    exact hread

/-- A call with an input of the right size, where it is in bounds. -/
theorem inBounds_of_convertDo (hopened : Opened param h)
    (hdo : ∃ r, convertDo h inbuf h.srcBuffersize = .ok r ∧ InBounds h r.scan) :
    InBounds h (yuv422ToYuv420 inbuf param.inwidth param.inheight) := by
  obtain ⟨r, hr, hin⟩ := hdo
  obtain rfl := Except.ok.inj ((convertDo_of_eq inbuf).symm.trans hr)
  rw [← hopened.params]
  exact hin

/-- **The sizes converted in bounds.** For every size `convert_open` does
not refuse: it computes the sizes of the buffers and returns a handle, and
the conversion of any input of `src_buffersize` bytes stays in bounds,
exactly when width and height are even and the products do not overflow. -/
theorem inBounds_iff (hopen : convertOpen malloc mallocDst param ≠ .ok none)
    (hW : 0 < param.inwidth.toInt) (hH : 0 < param.inheight.toInt) :
    (∃ h, convertOpen malloc mallocDst param = .ok (some h) ∧
      ∀ inbuf, ∃ r, convertDo h inbuf h.srcBuffersize = .ok r ∧ InBounds h r.scan) ↔
      Convertible param.inwidth.toInt param.inheight.toInt := by
  obtain ⟨W, hwidth⟩ := Int.eq_ofNat_of_zero_le hW.le
  obtain ⟨H, hheight⟩ := Int.eq_ofNat_of_zero_le hH.le
  have hW0 : 0 < W := by omega
  have hH0 : 0 < H := by omega
  have harea : param.inwidth.toInt * param.inheight.toInt = (W * H : ℕ) := by
    rw [hwidth, hheight, Nat.cast_mul]
  rw [Convertible, harea, hwidth, hheight, Int.even_coe_nat, Int.even_coe_nat]
  constructor
  · rintro ⟨h, hh, hall⟩
    have hopened := opened_of_convertOpen hh
    have hsize := hopened.size
    rw [harea] at hsize
    by_contra hnot
    have hread := size_mem_reads (fun _ => 0) hwidth hheight hW0 hH0 (by omega)
      fun heven => hnot ⟨heven.1, heven.2, hsize⟩
    have hlt := ((inBounds_of_convertDo hopened (hall fun _ => 0)).reads _ hread).2
    rw [hopened.src, harea] at hlt
    omega
  · rintro ⟨hWeven, hHeven, hsize⟩
    obtain ⟨h, hh⟩ := exists_opened hopen (by omega) (by omega)
    have hopened := opened_of_convertOpen hh
    obtain ⟨a, rfl⟩ := even_iff_exists_two_mul.mp hWeven
    obtain ⟨b, rfl⟩ := even_iff_exists_two_mul.mp hHeven
    have e := exact_of_toInt hwidth hheight hW0 hH0 (by omega)
    refine ⟨h, hh, fun inbuf => ⟨_, convertDo_of_eq inbuf, ?_⟩⟩
    rw [hopened.params]
    exact e.inBounds hopened inbuf

/-- An even size. -/
theorem inBounds_iff_vga :
    (∃ h, convertOpen true (some fun _ => 0)
        ⟨640, 480, v4l2PixFmtYuyv, 640, 480, v4l2PixFmtYuv420⟩ = .ok (some h) ∧
      ∀ inbuf, ∃ r, convertDo h inbuf h.srcBuffersize = .ok r ∧ InBounds h r.scan) :=
  (inBounds_iff (by simp [convertOpen, mulInt, bind, Except.bind, pure, Except.pure]) (by decide)
    (by decide)).mpr (by decide)

/-- Three pixels by two: the last two bytes read are not in the input. -/
theorem not_inBounds_odd : ¬ ∀ (param : CvtParam) (h : CvtHandle),
    convertOpen true (some fun _ => 0) param = .ok (some h) → 0 < param.inwidth.toInt →
    0 < param.inheight.toInt → ∀ inbuf,
    ∃ r, convertDo h inbuf h.srcBuffersize = .ok r ∧ InBounds h r.scan := by
  intro hall
  obtain ⟨r, hr, hin⟩ := hall ⟨3, 2, v4l2PixFmtYuyv, 3, 2, v4l2PixFmtYuv420⟩ _ rfl (by decide)
    (by decide) (fun _ => 0)
  obtain rfl := Except.ok.inj ((convertDo_of_eq _).symm.trans hr)
  have hread : (13 : ℤ) ∈ (yuv422ToYuv420 (fun _ => 0) 3 2).reads := by decide
  exact absurd (hin.reads 13 hread).2 (by decide)

end SoftConvert

end Camkit
