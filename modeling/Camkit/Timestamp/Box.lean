import Mathlib.Data.Finset.Lattice.Fold
import Mathlib.Order.Lattice.Nat
import Camkit.Timestamp.Lines
/-!
# Time stamp — the box of the overlay

A text is drawn at an advance of six pixels a character, and a glyph is
seven pixels wide; the alignment to the right subtracts without looking
whether there is room, and the clipping keeps one pixel free at either
size. So whether the text stays within its rows and columns depends on
where its last glyph ends, and on nothing wrapping before.
-/

namespace Camkit

namespace Timestamp

variable {text : List UInt8} {factor startx starty width : UInt32} {charArrPtr : List Glyph}
  {X Y W F n p : ℕ} {w : Write}

/-! ## The box -/

/-- A store that is where it belongs, for a text that starts at column `s`
and row `Y`: at the pixel of the image its own pixel of the glyph is meant
for, in the rows of the text and left of the edge. -/
structure Boxed (s Y W F : ℕ) (w : Write) : Prop where
  place : w.place =
    ((Y + w.pixel / (7 * F)) * W + (s + 6 * F * w.pos + w.pixel % (7 * F)) : ℕ)
  column : s + 6 * F * w.pos + w.pixel % (7 * F) < W
  row : Y + w.pixel / (7 * F) ≤ Y + 8 * F - 1

/-- A column of a small glyph that has something drawn. -/
def InkedColumn (text : List UInt8) (p x : ℕ) : Prop := ∃ y < 8, Inked (pixelAt text p y x)

instance : DecidablePred (InkedColumn text p) := fun x =>
  inferInstanceAs (Decidable (∃ y < 8, Inked (pixelAt text p y x)))

/-- The columns up to the last of them. -/
def inkWidth (text : List UInt8) (p : ℕ) : ℕ :=
  ((Finset.range 7).filter (InkedColumn text p)).sup (· + 1)

/-- Every character shown ends at the edge at the latest, what is drawn of
it, and what wraps on the way to it cancels out. -/
def Fits (X Y W F : ℕ) (text : List UInt8) : Prop :=
  ∀ p < shown X W F text.length, 0 < inkWidth text p →
    startColumn X W F text.length + 6 * F * p + F * inkWidth text p ≤ W ∧
      p * strideWraps F W = rowWraps Y W

instance : Decidable (Fits X Y W F text) :=
  inferInstanceAs (Decidable (∀ p < shown X W F text.length, 0 < inkWidth text p →
    startColumn X W F text.length + 6 * F * p + F * inkWidth text p ≤ W ∧
      p * strideWraps F W = rowWraps Y W))

/-- The last of `m` large characters ends one column behind the edge. -/
def Protrudes (s W F : ℕ) (text : List UInt8) (m : ℕ) : Prop :=
  F = 2 ∧ 0 < m ∧ s + 12 * m + 1 = W ∧ inkWidth text (m - 1) = 7

/-- Where the text ends: aligned to the right, at the column asked for, if
it has room to the left of that; otherwise where it is clipped. -/
def EndsInside (X W F : ℕ) (text : List UInt8) : Prop :=
  if W / 2 < X then
    (∀ p < text.length, inkWidth text p = 0) ∨
      6 * F * text.length ≤ X ∧ ¬ Protrudes (X - 6 * F * text.length) W F text text.length
  else ¬ Protrudes X W F text (min text.length ((W - X - 1) / (6 * F)))

/-! ## Where the stores are -/

/-- A pixel drawn is within the width of its glyph. -/
theorem lt_inkWidth {y x : ℕ} (hy : y < 8) (hx : x < 7) (h : Inked (pixelAt text p y x)) :
    x < inkWidth text p := by
  have hmem : x ∈ (Finset.range 7).filter (InkedColumn text p) :=
    Finset.mem_filter.mpr ⟨Finset.mem_range.mpr hx, y, hy, h⟩
  exact Finset.le_sup (f := (· + 1)) hmem

/-- And one of them is at its end. -/
theorem exists_inked (h : 0 < inkWidth text p) :
    ∃ y < 8, ∃ x < 7, x + 1 = inkWidth text p ∧ Inked (pixelAt text p y x) := by
  have hne : ((Finset.range 7).filter (InkedColumn text p)).Nonempty := by
    rw [Finset.nonempty_iff_ne_empty]
    intro h0
    rw [inkWidth, h0, Finset.sup_empty] at h
    exact absurd h (lt_irrefl _)
  obtain ⟨x, hx, heq⟩ := Finset.exists_mem_eq_sup _ hne (· + 1)
  obtain ⟨hx, y, hy, hink⟩ := Finset.mem_filter.mp hx
  exact ⟨y, hy, x, Finset.mem_range.mp hx, heq.symm, hink⟩

/-- No glyph is wider than its seven columns. -/
theorem inkWidth_le (text : List UInt8) (p : ℕ) : inkWidth text p ≤ 7 := by
  refine Finset.sup_le ?_
  intro x hx
  exact Finset.mem_range.mp (Finset.mem_filter.mp hx).1

theorem mem_textWrites : w ∈ textWrites charArrPtr F X Y W text n ↔
    ∃ p < shown X W F n, ∃ i < 8 * F, ∃ j < 7 * F,
      w ∈ pixelWrites p (charPlace X Y W F n p + i * W + j) (i * (7 * F) + j)
        (glyphAt charArrPtr text p (i * (7 * F) + j)) := by
  simp only [textWrites, charWrites, mem_logged]

/-- A pixel of a glyph by its row and column. -/
theorem pixel_div_mod {m i j : ℕ} (hj : j < m) : (i * m + j) / m = i ∧ (i * m + j) % m = j := by
  constructor
  · rw [Nat.add_comm, Nat.add_mul_div_right _ _ (by omega), Nat.div_eq_of_lt hj, Nat.zero_add]
  · exact Nat.mul_add_mod_of_lt hj

/-- A store is boxed if its pixel is left of the edge and nothing has
wrapped on the way to it, or it all cancels out. -/
theorem boxed_iff {i j : ℕ} (hW : 0 < W) (hi : i < 8 * F) (hj : j < 7 * F) (hpos : w.pos = p)
    (hpixel : w.pixel = i * (7 * F) + j) (hplace : w.place = charPlace X Y W F n p + i * W + j) :
    Boxed (startColumn X W F n) Y W F w ↔
      startColumn X W F n + 6 * F * p + j < W ∧ p * strideWraps F W = rowWraps Y W := by
  have hdiv : w.pixel / (7 * F) = i := hpixel ▸ (pixel_div_mod hj).1
  have hmod : w.pixel % (7 * F) = j := hpixel ▸ (pixel_div_mod hj).2
  have hwraps : w.place = ((Y + i) * W + (startColumn X W F n + 6 * F * p + j) : ℕ) ↔
      p * strideWraps F W = rowWraps Y W := by
    have hcell : (((Y + i) * W + (startColumn X W F n + 6 * F * p + j) : ℕ) : ℤ) =
        (Y * W + (startColumn X W F n + 6 * F * p) : ℕ) + i * W + j := by
      push_cast
      ring
    rw [hplace, charPlace_eq hW, hcell]
    constructor
    · intro h
      have hcast : ((p * strideWraps F W : ℕ) : ℤ) = (rowWraps Y W : ℕ) := by
        push_cast
        omega
      exact Int.ofNat_inj.mp hcast
    · intro h
      rw [← h]
      push_cast
      ring
  constructor
  · rintro ⟨hplace', hcol, -⟩
    rw [hdiv, hmod, hpos] at hplace'
    rw [hmod, hpos] at hcol
    exact ⟨hcol, hwraps.mp hplace'⟩
  · rintro ⟨hcol, hcancel⟩
    refine ⟨?_, ?_, ?_⟩
    · rw [hdiv, hmod, hpos]
      exact hwraps.mpr hcancel
    · rwa [hmod, hpos]
    · rw [hdiv]
      omega

/-- The last pixel drawn of a character tells that all of it fits. -/
theorem fits_of_boxed (hf : factor = 0 ∨ factor = 1) (hF : size factor = F) (hW : 0 < W)
    (h : ∀ w ∈ textWrites (charArr initializeChars factor) F X Y W text text.length,
      Boxed (startColumn X W F text.length) Y W F w) : Fits X Y W F text := by
  intro p hp hink
  have hFpos : 0 < F := hF ▸ Nat.succ_pos _
  obtain ⟨y, hy, x, hx, hlast, hinked⟩ := exists_inked hink
  -- the pixel in the last column that the glyph pixel is enlarged to
  have hi : y * F < 8 * F := Nat.mul_lt_mul_of_pos_right hy hFpos
  have hj : x * F + (F - 1) < 7 * F := by
    have := Nat.mul_le_mul_right F (Nat.succ_le_of_lt hx)
    rw [Nat.succ_mul] at this
    omega
  have hpix : glyphAt (charArr initializeChars factor) text p
      (y * F * (7 * F) + (x * F + (F - 1))) = pixelAt text p y x := by
    rw [glyphAt_charArr hf hF hj, Nat.mul_div_cancel _ hFpos, (pixel_div_mod (by omega)).1]
  obtain ⟨w, hw, hpos, hpixel, hplace⟩ := exists_mem_pixelWrites (p := p)
    (a := charPlace X Y W F text.length p + (y * F : ℕ) * W + (x * F + (F - 1) : ℕ))
    (k := y * F * (7 * F) + (x * F + (F - 1))) hinked
  have hbox := h w (mem_textWrites.mpr ⟨p, hp, y * F, hi, _, hj, by rwa [hpix]⟩)
  obtain ⟨hcol, hcancel⟩ := (boxed_iff hW hi hj hpos hpixel hplace).mp hbox
  refine ⟨?_, hcancel⟩
  rw [← hlast, Nat.mul_succ, Nat.mul_comm F x]
  omega

/-- And where all fits, every store is boxed. -/
theorem Fits.boxed (hf : factor = 0 ∨ factor = 1) (hF : size factor = F) (hW : 0 < W)
    (h : Fits X Y W F text)
    (hw : w ∈ textWrites (charArr initializeChars factor) F X Y W text text.length) :
    Boxed (startColumn X W F text.length) Y W F w := by
  have hFpos : 0 < F := hF ▸ Nat.succ_pos _
  obtain ⟨p, hp, i, hi, j, hj, hw⟩ := mem_textWrites.mp hw
  obtain ⟨hpos, hpixel, hplace, hinked⟩ := of_mem_pixelWrites hw
  rw [glyphAt_charArr hf hF hj] at hinked
  have hlt : j / F < inkWidth text p :=
    lt_inkWidth ((Nat.div_lt_iff_lt_mul hFpos).mpr hi) ((Nat.div_lt_iff_lt_mul hFpos).mpr hj) hinked
  obtain ⟨hcol, hcancel⟩ := h p hp (Nat.zero_lt_of_lt hlt)
  refine (boxed_iff hW hi hj hpos hpixel hplace).mpr ⟨?_, hcancel⟩
  have hcolumn := (Nat.div_lt_iff_lt_mul hFpos).mp hlt
  rw [Nat.mul_comm] at hcolumn
  omega

/-! ## Where the text ends -/

/-- Of a text that ends left of the edge by its advance, the last character
alone can reach over it. -/
theorem not_protrudes_iff {s m : ℕ} (hF : F = 1 ∨ F = 2) (hend : s + 6 * F * m < W) :
    (∀ p < m, 0 < inkWidth text p → s + 6 * F * p + F * inkWidth text p ≤ W) ↔
      ¬ Protrudes s W F text m := by
  constructor
  · rintro h ⟨rfl, hm, hW, hink⟩
    have := h (m - 1) (by omega) (by omega)
    omega
  · intro h p hp _
    have hle := inkWidth_le text p
    rcases hF with rfl | rfl
    · omega
    · by_contra hgt
      obtain rfl : p = m - 1 := by omega
      exact h ⟨rfl, by omega, by omega, by omega⟩

/-- Nothing is drawn of characters that are blank. -/
theorem not_protrudes_of_blank {s m : ℕ} (h : ∀ p < m, inkWidth text p = 0) :
    ¬ Protrudes s W F text m := by
  rintro ⟨-, hm, -, hink⟩
  have := h (m - 1) (by omega)
  omega

/-- Where nothing wraps, only the column matters. -/
theorem fits_iff (hu : Unwrapped X Y W F text.length) :
    Fits X Y W F text ↔ ∀ p < shown X W F text.length, 0 < inkWidth text p →
      startColumn X W F text.length + 6 * F * p + F * inkWidth text p ≤ W := by
  refine forall₃_congr fun p _ _ => ?_
  rw [rowWraps_eq_zero hu, strideWraps_eq_zero hu, Nat.mul_zero]
  exact and_iff_left rfl

/-- **The box, by where the text ends.** -/
theorem fits_iff_endsInside (hF : F = 1 ∨ F = 2) (hXW : X < W)
    (hu : Unwrapped X Y W F text.length) : Fits X Y W F text ↔ EndsInside X W F text := by
  have htext := hu.text
  have hFpos : 0 < F := by omega
  rw [fits_iff hu, EndsInside]
  split
  · next hright =>
    rw [shown_of_right hFpos hright hu]
    rcases Nat.lt_or_ge X (6 * F * text.length) with hroom | hroom
    · -- the start column has wrapped, and is behind the edge
      have hstart : W < startColumn X W F text.length := by
        rw [startColumn_eq_mod hright]
        omega
      constructor
      · intro h
        refine .inl fun p hp => ?_
        by_contra hink
        have := h p hp (by omega)
        omega
      · rintro (h | ⟨h, -⟩) p hp hink
        · exact absurd (h p hp) (by omega)
        · omega
    · rw [startColumn_of_right hright hroom hu, not_protrudes_iff hF (by omega)]
      constructor
      · exact fun h => .inr ⟨hroom, h⟩
      · rintro (h | ⟨-, h⟩)
        · exact not_protrudes_of_blank h
        · exact h
  · next hleft =>
    have hle := Nat.mul_div_le (W - X - 1) (6 * F)
    have hmin := Nat.mul_le_mul_left (6 * F)
      (Nat.min_le_right text.length ((W - X - 1) / (6 * F)))
    rw [shown_of_left hFpos hXW (by omega) hu, startColumn_of_left (by omega),
      not_protrudes_iff hF (by omega)]

/-! ## The overlay -/

/-- A text without an escape, as `draw_text` draws it. -/
theorem boxed_drawText_iff (hf : factor = 0 ∨ factor = 1) (hXW : startx.toNat < width.toNat)
    (hW : width.toNat < 2 ^ 31) (hc : ∀ c ∈ text, c.toNat ≤ 126) (hnl : ¬ newline <:+: text) :
    (∀ w ∈ drawText initializeChars startx starty width text factor,
        Boxed (alignStart startx width (Int32.ofNat text.length) factor).toNat starty.toNat
          width.toNat (size factor) w) ↔
      Fits startx.toNat starty.toNat width.toNat (size factor) text := by
  rw [drawText_of_not_newline hf hXW hW hc hnl, alignStart_eq hf]
  exact ⟨fits_of_boxed hf rfl (by omega), fun h w hw => h.boxed hf rfl (by omega) hw⟩

/-- **The overlay stays in its box exactly if every character shown that
has something drawn ends at the edge at the latest**, and nothing wraps on
the way to it. At sizes where nothing can wrap, that is whether a text
aligned to the right has room, and whether a large one ends, by its
advance, just at the edge with a glyph of full width. -/
theorem boxed_timestampDraw_iff {malloc : Bool} {arrs arrs' : CharArrs} {params : TmsParam}
    {handle : TmsHandle} (hopen : timestampOpen malloc arrs params = (some handle, arrs'))
    (hX : params.startx.toInt = X) (hY : params.starty.toInt = Y)
    (hW : params.videoWidth.toInt = W) (hXW : X < W) (hfactor : params.factor.toInt + 1 = F)
    (hF : F = 1 ∨ F = 2) (hc : ∀ c ∈ text, 1 ≤ c.toNat ∧ c.toNat ≤ 126)
    (hnl : ¬ newline <:+: text) :
    ((∀ w ∈ timestampDraw arrs' handle text,
        Boxed (alignStart params.startx.toUInt32 params.videoWidth.toUInt32
          (Int32.ofNat text.length) params.factor.toUInt32).toNat Y W F w) ↔ Fits X Y W F text) ∧
      (Unwrapped X Y W F text.length → (Fits X Y W F text ↔ EndsInside X W F text)) := by
  have hnat : ∀ {x : Int32} {n : ℕ}, x.toInt = n → x.toUInt32.toNat = n := fun h => by
    exact_mod_cast (natCast_toNat_toUInt32 (by omega)).trans h
  have hX' := hnat hX
  have hY' := hnat hY
  have hW' := hnat hW
  have hWlt := params.videoWidth.toInt_lt
  have hfactor' : params.factor.toUInt32.toNat = F - 1 := hnat (by omega)
  have hsize : size params.factor.toUInt32 = F := by
    rw [size, hfactor']
    omega
  have hf : params.factor.toUInt32 = 0 ∨ params.factor.toUInt32 = 1 := by
    rw [← UInt32.toNat_inj, ← UInt32.toNat_inj, hfactor']
    rcases hF with rfl | rfl
    · exact .inl rfl
    · exact .inr rfl
  obtain ⟨rfl, rfl⟩ : handle = ⟨params.startx, params.starty, params.videoWidth, params.factor⟩ ∧
      arrs' = initializeChars := by
    rw [timestampOpen] at hopen
    split at hopen
    · obtain ⟨h₁, h₂⟩ := Prod.mk.inj hopen
      exact ⟨(Option.some.inj h₁).symm, h₂.symm⟩
    · cases hopen
  refine ⟨?_, fits_iff_endsInside hF hXW⟩
  rw [← hsize, ← hX', ← hY', ← hW']
  exact boxed_drawText_iff hf (by rwa [hX', hW']) (by rw [hW']; omega)
    (fun c hmem => (hc c hmem).2) hnl

/-- The year in large characters, ten pixels from the left. -/
theorem boxed_timestampDraw_iff_year :
    Fits 10 10 640 2 [50, 48, 50, 52] ∧
      ∀ w ∈ timestampDraw initializeChars ⟨10, 10, 640, 1⟩ [50, 48, 50, 52],
        Boxed (alignStart 10 640 4 1).toNat 10 640 2 w := by
  have hfits : Fits 10 10 640 2 [50, 48, 50, 52] := by decide +kernel
  have hopen : timestampOpen true firstPointers ⟨10, 10, 640, 1⟩ =
      (some ⟨10, 10, 640, 1⟩, initializeChars) := rfl
  have hX : (10 : Int32).toInt = (10 : ℕ) := rfl
  have hW : (640 : Int32).toInt = (640 : ℕ) := rfl
  have hF : (1 : Int32).toInt + 1 = (2 : ℕ) := rfl
  exact ⟨hfits, (boxed_timestampDraw_iff hopen hX hX hW (by omega) hF (.inr rfl) (by decide +kernel)
    (by decide +kernel)).1.mpr hfits⟩

/-- A large zero at the last column ends a column behind it, and a time
aligned to a column that has no room for it starts 4 GiB further on. -/
theorem not_boxed_timestampDraw :
    (¬ ∀ w ∈ timestampDraw initializeChars ⟨639, 10, 640, 1⟩ [48],
      Boxed (alignStart 639 640 1 1).toNat 10 640 2 w) ∧
    ¬ ∀ w ∈ timestampDraw initializeChars ⟨170, 10, 320, 1⟩
        [50, 48, 50, 52, 45, 48, 49, 45, 48, 49, 32, 48, 48, 58, 48, 48, 58, 48, 48, 32, 40, 85, 84,
          67, 41],
      Boxed (alignStart 170 320 25 1).toNat 10 320 2 w := by
  constructor
  · refine mt (boxed_drawText_iff (.inr rfl) ?_ ?_ ?_ ?_).mp ?_ <;> decide +kernel
  · refine mt (boxed_drawText_iff (.inr rfl) ?_ ?_ ?_ ?_).mp ?_ <;> decide +kernel

end Timestamp

end Camkit
