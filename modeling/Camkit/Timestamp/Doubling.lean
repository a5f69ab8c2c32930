import Camkit.Timestamp.Lines
/-!
# Time stamp — large text is small text doubled

The two sizes share the code and nothing else: the large text has a font
of its own, twice the advance, and is aligned and clipped by formulas that
round. Here every character is a stamp in either size, the large one the
small one enlarged, and as many characters are drawn of either, so the
order in which they overlap is the same too.
-/

namespace Camkit

namespace Timestamp

open Raster

variable {text : List UInt8} {startx starty width : UInt32} {charArrPtr : List Glyph}
  {image image' small big : Mem} {g : Glyph} {a : ℤ} {F X Y W H n p : ℕ}

/-! ## Characters as stamps -/

/-- What a pixel of a glyph sets the image to. -/
def paint : ℕ → Option UInt8
  | 1 => some 0
  | 2 => some 255
  | _ => none

theorem map_pixelWrites {k : ℕ} : ∀ v, (pixelWrites p a k v).map (fun w => (w.place, w.value)) =
    ((paint v).map fun b => (a, b)).toList
  | 0 => rfl
  | 1 => rfl
  | 2 => rfl
  | _ + 3 => rfl

/-- A character is a stamp. -/
theorem map_charWrites :
    (charWrites g F W p a).map (fun w => (w.place, w.value)) =
      stamp (fun i j => paint (g (i * (7 * F) + j))) W a (8 * F) (7 * F) := by
  simp only [charWrites, map_logged, map_pixelWrites]
  rfl

theorem store_append {ws ws' : List Write} :
    store image (ws ++ ws') = store (store image ws) ws' := by
  rw [store, List.map_append, Mem.setAll_append]
  rfl

/-- Where nothing wraps, the stamps of a line stand in a row. -/
theorem charPlace_eq_cell (hu : Unwrapped X Y W F n) (hW : 0 < W) (p : ℕ) :
    charPlace X Y W F n p = cell W Y (startColumn X W F n + 6 * F * p) := by
  rw [charPlace_eq hW, rowWraps_eq_zero hu, strideWraps_eq_zero hu, cell, Nat.cast_zero, mul_zero,
    sub_zero, mul_zero, add_zero]

theorem store_textWrites (hu : Unwrapped X Y W F n) (hW : 0 < W) :
    store image (textWrites charArrPtr F X Y W text n) =
      image.setAll (logged (fun p => stamp
        (fun i j => paint (glyphAt charArrPtr text p (i * (7 * F) + j))) W
        (cell W Y (startColumn X W F n + 6 * F * p)) (8 * F) (7 * F)) (shown X W F n)) := by
  rw [store, textWrites, map_logged]
  simp only [map_charWrites, charPlace_eq_cell hu hW]

/-! ## A line in both sizes -/

/-- What does not wrap at twice the size does not at the small one. -/
theorem Unwrapped.half (hu : Unwrapped (2 * X) (2 * Y) (2 * W) 2 n) : Unwrapped X Y W 1 n := by
  have hrow := hu.row
  have hstride := hu.stride
  have htext := hu.text
  refine ⟨?_, by omega, by omega⟩
  calc Y * W ≤ 2 * Y * (2 * W) := Nat.mul_le_mul (by omega) (by omega)
    _ < 2 ^ 32 := hrow

/-- Nor does it further up. -/
theorem Unwrapped.above {Y₀ : ℕ} (hu : Unwrapped X Y W F n) (hY : Y₀ ≤ Y) :
    Unwrapped X Y₀ W F n where
  row := Nat.lt_of_le_of_lt (Nat.mul_le_mul_right W hY) hu.row
  stride := hu.stride
  text := hu.text

/-- The row itself does not wrap. -/
theorem Unwrapped.row_lt (hu : Unwrapped X Y W F n) (hW : 0 < W) : Y < 2 ^ 32 :=
  Nat.lt_of_le_of_lt (Nat.le_mul_of_pos_right Y hW) hu.row

/-- It starts at the same place. -/
theorem startColumn_double (hright : W / 2 < X → 6 * n ≤ X) (hu : Unwrapped X Y W 1 n)
    (hu' : Unwrapped (2 * X) (2 * Y) (2 * W) 2 n) :
    startColumn (2 * X) (2 * W) 2 n = 2 * startColumn X W 1 n := by
  rcases Nat.lt_or_ge (W / 2) X with h | h
  · have := hright h
    rw [startColumn_of_right h (by omega) hu, startColumn_of_right (by omega) (by omega) hu']
    omega
  · rw [startColumn_of_left h, startColumn_of_left (by omega)]

/-- As many of its characters are drawn. -/
theorem shown_double (hXW : X < W) (hu : Unwrapped X Y W 1 n)
    (hu' : Unwrapped (2 * X) (2 * Y) (2 * W) 2 n) :
    shown (2 * X) (2 * W) 2 n = shown X W 1 n := by
  rcases Nat.lt_or_ge (W / 2) X with h | h
  · rw [shown_of_right (by omega) h hu, shown_of_right (by omega) (by omega) hu']
  · -- the clipping rounds the same way: an odd number over 12
    have hclip : (2 * W - 2 * X - 1) / 12 = (W - X - 1) / 6 := by omega
    rw [shown_of_left (by omega) hXW h hu, shown_of_left (by omega) (by omega) (by omega) hu']
    exact congrArg (min n) hclip

/-- And those end at the edge at the latest. -/
theorem small_le (hXW : X < W) (hright : W / 2 < X → 6 * n ≤ X) (hu : Unwrapped X Y W 1 n)
    (hp : p < shown X W 1 n) : startColumn X W 1 n + 6 * 1 * p + 7 * 1 ≤ W := by
  rcases Nat.lt_or_ge (W / 2) X with h | h
  · have := hright h
    rw [shown_of_right (by omega) h hu] at hp
    rw [startColumn_of_right h (by omega) hu]
    omega
  · rw [shown_of_left (by omega) hXW h hu] at hp
    rw [startColumn_of_left h]
    omega

/-- **A line in both sizes.** -/
theorem enlarges_textWrites (text : List UInt8) (hXW : X < W) (hright : W / 2 < X → 6 * n ≤ X)
    (hu : Unwrapped X Y W 1 n) (hu' : Unwrapped (2 * X) (2 * Y) (2 * W) 2 n)
    (he : Enlarges 2 W H small big) :
    Enlarges 2 W H
      (store small (textWrites (charArr initializeChars 0) 1 X Y W text n))
      (store big (textWrites (charArr initializeChars 1) 2 (2 * X) (2 * Y) (2 * W) text n)) := by
  rw [store_textWrites hu (by omega), store_textWrites hu' (by omega), shown_double hXW hu hu']
  refine he.logged _ fun p hp s b hsb => ?_
  rw [startColumn_double hright hu hu']
  have hcol : 2 * startColumn X W 1 n + 6 * 2 * p = 2 * (startColumn X W 1 n + 6 * 1 * p) := by
    omega
  rw [hcol]
  refine Enlarges.stamp (h := 8 * 1) (w := 7 * 1) (by omega) ?_ (small_le hXW hright hu hp) hsb
  intro i j hj
  exact congrArg paint (glyphAt_charArr (.inr rfl) rfl hj)

/-- **The lines in both sizes**, one line below the other. -/
theorem enlarges_linesWrites {Y₀ : ℕ} {ls : List (List UInt8)} (hXW : X < W)
    (hright : W / 2 < X → ∀ l ∈ ls, 6 * l.length ≤ X)
    (hu : ∀ l ∈ ls, Unwrapped (2 * X) (2 * Y) (2 * W) 2 l.length)
    (hY : Y₀ + 9 * (ls.length - 1) ≤ Y) (he : Enlarges 2 W H small big) :
    Enlarges 2 W H
      (store small (linesWrites (charArr initializeChars 0) 1 X W Y₀ ls))
      (store big (linesWrites (charArr initializeChars 1) 2 (2 * X) (2 * W) (2 * Y₀) ls)) := by
  induction ls generalizing Y₀ small big with
  | nil => exact he
  | cons l ls ih =>
    rw [linesWrites, linesWrites, store_append, store_append]
    have hl := hu l List.mem_cons_self
    have hrow : Y₀ ≤ Y := by omega
    have hline := enlarges_textWrites l hXW
      (fun h => hright h l List.mem_cons_self) (hl.half.above hrow) (hl.above (by omega)) he
    rcases ls with _ | ⟨l₂, ls⟩
    · exact hline
    · rw [List.length_cons, List.length_cons] at hY
      have hlt := hl.row_lt (by omega)
      rw [Nat.mod_eq_of_lt (by omega), Nat.mod_eq_of_lt (by omega),
        show 2 * Y₀ + 9 * 2 = 2 * (Y₀ + 9 * 1) by ring]
      refine ih (fun h l' hl' => hright h l' (List.mem_cons_of_mem _ hl'))
        (fun l' hl' => hu l' (List.mem_cons_of_mem _ hl')) ?_ hline
      rw [List.length_cons]
      omega

/-- **Large text is small text doubled.** -/
theorem enlarges_drawText (startx starty width : UInt32) (hXW : startx.toNat < width.toNat)
    (hc : ∀ c ∈ text, 1 ≤ c.toNat ∧ c.toNat ≤ 126)
    (hright : width.toNat / 2 < startx.toNat → ∀ l ∈ lines text, 6 * l.length ≤ startx.toNat)
    (hY : 9 * escapes text ≤ starty.toNat)
    (hu : ∀ l ∈ lines text, Unwrapped (2 * startx.toNat) (2 * starty.toNat) (2 * width.toNat) 2
      l.length) (he : Enlarges 2 width.toNat H image image') :
    Enlarges 2 width.toNat H
      (store image (drawText initializeChars startx starty width text 0))
      (store image' (drawText initializeChars (2 * startx) (2 * starty) (2 * width) text 1)) := by
  obtain ⟨l, hl⟩ := List.exists_mem_of_ne_nil _ (lines_ne_nil text)
  have hul := hu l hl
  have hstride := hul.stride
  have hY2 := hul.row_lt (by omega)
  have htext := hul.text
  have hc' : ∀ c ∈ text, c.toNat ≤ 126 := fun c hmem => (hc c hmem).2
  have htwice : ∀ u : UInt32, 2 * u.toNat < 2 ^ 32 → (2 * u).toNat = 2 * u.toNat := by
    intro u hu2
    rw [UInt32.toNat_mul]
    exact Nat.mod_eq_of_lt hu2
  have hX' := htwice startx (by omega)
  have hY' := htwice starty hY2
  have hW' := htwice width (by omega)
  have hsize₀ : size 0 = 1 := rfl
  have hsize₁ : size 1 = 2 := rfl
  rw [drawText_eq (.inl rfl) hXW (by omega) hc' (by rw [hsize₀]; omega),
    drawText_eq (.inr rfl) (by omega) (by omega) hc' (by rw [hsize₁, hY']; omega), hX', hY', hW',
    hsize₀, hsize₁, show 2 * starty.toNat - 9 * 2 * escapes text =
      2 * (starty.toNat - 9 * 1 * escapes text) by omega]
  refine enlarges_linesWrites hXW hright hu ?_ he
  rw [escapes] at hY ⊢
  omega

/-- A line of three that is clipped to two, above a line of one. -/
theorem enlarges_drawText_clipped :
    Enlarges 2 16 17
      (store (fun _ => 7) (drawText initializeChars 3 9 16 [65, 66, 67, 92, 110, 48] 0))
      (store (fun _ => 7) (drawText initializeChars 6 18 32 [65, 66, 67, 92, 110, 48] 1)) := by
  have hlen : ∀ l ∈ lines [65, 66, 67, 92, 110, 48], l.length ≤ 3 := by decide
  refine enlarges_drawText 3 9 16 (by decide) (by decide +kernel) (by decide) (by decide) ?_
    fun _ _ _ _ => rfl
  intro l hl
  have := hlen l hl
  exact ⟨by decide, by decide, show 6 + 12 * l.length < 2 ^ 32 by omega⟩

end Timestamp

end Camkit
