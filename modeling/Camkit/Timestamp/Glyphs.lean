import Mathlib.Tactic.LinearCombination
import Camkit.Timestamp.Model.Draw
/-!
# Time stamp — what the loops store

Both pointers of `draw_textn` walk: `image_ptr` along a row of the glyph,
on to the next and back to the head of the next character, `char_ptr`
along all pixels of a glyph. Here each is where it belongs, and the stores
are those of every pixel of every character drawn.
-/

namespace Camkit

namespace Timestamp

variable {g : Glyph} {text : List UInt8} {factor startx starty width : UInt32} {len : Int32}
  {s : Pen} {a : ℤ} {p k t : ℕ} {v : ℕ} {w : Write}

/-! ## A glyph -/

/-- The store for a pixel of value `v`, if there is one. -/
def pixelWrites (p : ℕ) (a : ℤ) (k v : ℕ) : List Write := ink ⟨p, a, k, []⟩ v

/-- The stores for a glyph of `F` times the small size, whose first pixel
is at `a` in an image of `W` columns. -/
def charWrites (g : Glyph) (F W p : ℕ) (a : ℤ) : List Write :=
  logged (fun i => logged (fun j =>
    pixelWrites p (a + i * W + j) (i * (7 * F) + j) (g (i * (7 * F) + j))) (7 * F)) (8 * F)

/-- What has been stored before does not matter. -/
theorem ink_eq : ink s v = pixelWrites s.pos s.imagePtr s.charPtr v := rfl

theorem drawPixel_iterate {posCheck : ℤ} (hc : 0 ≤ posCheck) (t : ℕ) :
    (drawPixel g posCheck)^[t] s =
      { s with
        imagePtr := s.imagePtr + t
        charPtr := s.charPtr + t
        writes := s.writes ++ logged (fun j =>
          pixelWrites s.pos (s.imagePtr + j) (s.charPtr + j) (g (s.charPtr + j))) t } := by
  induction t with
  | zero => simp
  | succ t ih =>
    rw [Function.iterate_succ_apply', ih, drawPixel, if_neg (by omega), logged_succ,
      List.append_assoc, ink_eq]
    simp only [Pen.mk.injEq, true_and, and_true]
    exact ⟨by push_cast; ring, by ring⟩

/-- The stores of a row, `lineOffset` being what is left of it. -/
theorem drawRow_iterate {posCheck : ℤ} {lineOffset : Int32} {F W : ℕ} (hc : 0 ≤ posCheck)
    (hw : (7 * (factor + 1)).toNat = 7 * F) (hlo : lineOffset.toInt = W - 7 * F) (t : ℕ) :
    (drawRow g posCheck factor lineOffset)^[t] s =
      { s with
        imagePtr := s.imagePtr + t * W
        charPtr := s.charPtr + t * (7 * F)
        writes := s.writes ++ logged (fun i => logged (fun j =>
          pixelWrites s.pos (s.imagePtr + i * W + j) (s.charPtr + i * (7 * F) + j)
            (g (s.charPtr + i * (7 * F) + j))) (7 * F)) t } := by
  induction t with
  | zero => simp
  | succ t ih =>
    rw [Function.iterate_succ_apply', ih, drawRow, drawPixel_iterate hc, hw, logged_succ,
      List.append_assoc]
    simp only [Pen.mk.injEq, true_and, and_true]
    refine ⟨?_, by ring⟩
    rw [hlo]
    push_cast
    ring

/-! ## The characters -/

/-- The glyph of character `p`. -/
def glyphAt (charArrPtr : List Glyph) (text : List UInt8) (p : ℕ) : Glyph :=
  charArrPtr.getD (text.getD p 0).toNat fun _ => 0

/-- From the head of a character to the head of the next, `nextCharOffs`
being the way back. -/
def stride (F W : ℕ) (nextCharOffs : ℤ) : ℤ := 8 * F * W - nextCharOffs

/-- A character of the range has its own code. -/
theorem toInt_toInt8 {c : UInt8} (hc : c.toNat ≤ 126) : c.toInt8.toInt = c.toNat := by
  rw [show c.toInt8 = Int8.ofNat c.toNat from by rw [← UInt8.toInt8_ofNat', UInt8.ofNat_toNat],
    Int8.toInt_ofNat_of_lt (by omega)]

theorem drawChar_eq {charArrPtr : List Glyph} {lineOffset nextCharOffs : Int32} {F W : ℕ}
    (hc : (text.getD s.pos 0).toNat ≤ 126) (hw : (7 * (factor + 1)).toNat = 7 * F)
    (hh : (8 * (factor + 1)).toNat = 8 * F) (hlo : lineOffset.toInt = W - 7 * F) :
    drawChar charArrPtr text factor lineOffset nextCharOffs s =
      { pos := s.pos + 1
        imagePtr := s.imagePtr + stride F W nextCharOffs.toInt
        charPtr := 8 * F * (7 * F)
        writes := s.writes ++
          charWrites (glyphAt charArrPtr text s.pos) F W s.pos s.imagePtr } := by
  rw [drawChar, toInt_toInt8 hc, drawRow_iterate (by omega) hw hlo, hh, Int.toNat_natCast]
  simp only [Pen.mk.injEq, true_and, Nat.zero_add]
  refine ⟨?_, rfl⟩
  rw [stride]
  push_cast
  ring

/-- What is read behind the text is zero. -/
theorem toNat_getD_le (hc : ∀ c ∈ text, c.toNat ≤ 126) (p : ℕ) : (text.getD p 0).toNat ≤ 126 := by
  rw [List.getD_eq_getElem?_getD]
  cases h : text[p]? with
  | none => exact Nat.zero_le _
  | some c => exact hc c (List.mem_of_getElem? h)

theorem drawChar_iterate (charArrPtr : List Glyph) {lineOffset : Int32} (nextCharOffs : Int32)
    {F W : ℕ} (a : ℤ) (hc : ∀ c ∈ text, c.toNat ≤ 126) (hw : (7 * (factor + 1)).toNat = 7 * F)
    (hh : (8 * (factor + 1)).toNat = 8 * F) (hlo : lineOffset.toInt = W - 7 * F) (t : ℕ) :
    ∃ k, (drawChar charArrPtr text factor lineOffset nextCharOffs)^[t] ⟨0, a, 0, []⟩ =
      { pos := t
        imagePtr := a + t * stride F W nextCharOffs.toInt
        charPtr := k
        writes := logged (fun p => charWrites (glyphAt charArrPtr text p) F W p
          (a + p * stride F W nextCharOffs.toInt)) t } := by
  induction t with
  | zero => exact ⟨0, by simp⟩
  | succ t ih =>
    obtain ⟨k, hk⟩ := ih
    refine ⟨8 * F * (7 * F), ?_⟩
    rw [Function.iterate_succ_apply', hk, drawChar_eq (toNat_getD_le hc _) hw hh hlo, logged_succ]
    simp only [Pen.mk.injEq, true_and, and_true]
    push_cast
    ring

/-! ## The text -/

/-- How many times the small size a text is drawn in. -/
def size (factor : UInt32) : ℕ := factor.toNat + 1

/-- A word read as a signed one. -/
theorem toInt_toInt32 {u : UInt32} {z : ℤ} (h : (u.toNat : ℤ) = z % 2 ^ 32) :
    u.toInt32.toInt = z.bmod (2 ^ 32) := by
  rw [show u.toInt32 = Int32.ofNat u.toNat from by rw [← UInt32.toInt32_ofNat', UInt32.ofNat_toNat],
    Int32.toInt_ofNat', h]
  exact Int.emod_bmod z (2 ^ 32)

theorem toNat_factor (hf : factor = 0 ∨ factor = 1) : (factor + 1).toNat = size factor := by
  rcases hf with rfl | rfl <;> rfl

theorem size_eq (hf : factor = 0 ∨ factor = 1) : size factor = 1 ∨ size factor = 2 :=
  hf.imp (congrArg size) (congrArg size)

/-- As many pixels, or advances, at the size of the text. -/
theorem toNat_scaled {u : UInt32} (hf : factor = 0 ∨ factor = 1) (hu : u.toNat < 16) :
    (u * (factor + 1)).toNat = u.toNat * size factor := by
  rw [UInt32.toNat_mul, toNat_factor hf]
  rcases size_eq hf with h | h <;> rw [h] <;> omega

theorem lineOffset_eq (hf : factor = 0 ∨ factor = 1) (hW : width.toNat < 2 ^ 31) :
    (width - 7 * (factor + 1)).toInt32.toInt = width.toNat - 7 * size factor := by
  have hF := size_eq hf
  have hu : ((width - 7 * (factor + 1)).toNat : ℤ) = (width.toNat - 7 * size factor) % 2 ^ 32 := by
    rw [UInt32.toNat_sub, toNat_scaled hf (by decide)]
    simp only [UInt32.reduceToNat]
    omega
  rw [toInt_toInt32 hu, Int.bmod_eq_of_le (by omega) (by omega)]

theorem nextCharOffs_eq (hf : factor = 0 ∨ factor = 1) :
    (width * 8 * (factor + 1) - 6 * (factor + 1)).toInt32.toInt =
      (8 * size factor * width.toNat - 6 * size factor : ℤ).bmod (2 ^ 32) := by
  refine toInt_toInt32 ?_
  rw [UInt32.toNat_sub, toNat_scaled hf (by decide), UInt32.toNat_mul, UInt32.toNat_mul,
    toNat_factor hf]
  simp only [UInt32.reduceToNat]
  rcases size_eq hf with h | h <;> rw [h] <;> omega

/-- The start column of `n` characters from column `X` of `W` on, aligned
to the right behind the middle. -/
def startColumn (X W F n : ℕ) : ℕ :=
  if W / 2 < X then ((X - 6 * F * n : ℤ) % 2 ^ 32).toNat else X

/-- The same in natural numbers. -/
theorem startColumn_eq_mod {X W F n : ℕ} (hright : W / 2 < X) :
    startColumn X W F n = (X + (2 ^ 32 - 6 * F * n % 2 ^ 32)) % 2 ^ 32 := by
  have hcast : (6 * F * n : ℤ) = (6 * F * n : ℕ) := by push_cast; rfl
  rw [startColumn, if_pos hright, hcast]
  omega

/-- How many of them are drawn. -/
def shown (X W F n : ℕ) : ℕ :=
  if X ≤ W / 2 ∧ W ≤ (X + 6 * F * n) % 2 ^ 32 then (W - X - 1) / (6 * F)
  else ((n : ℤ).bmod (2 ^ 32)).toNat

theorem alignStart_eq (hf : factor = 0 ∨ factor = 1) (n : ℕ) :
    (alignStart startx width (Int32.ofNat n) factor).toNat =
      startColumn startx.toNat width.toNat (size factor) n := by
  have hX := startx.toNat_lt
  have hmid : startx > width / 2 ↔ width.toNat / 2 < startx.toNat := by
    rw [gt_iff_lt, UInt32.lt_iff_toNat_lt, UInt32.toNat_div]
    exact Iff.rfl
  have hsub : ((startx - UInt32.ofNat n * (6 * (factor + 1))).toNat : ℤ) =
      (startx.toNat - 6 * size factor * n : ℤ) % 2 ^ 32 := by
    rw [UInt32.toNat_sub, UInt32.toNat_mul, UInt32.toNat_ofNat', toNat_scaled hf (by decide)]
    simp only [UInt32.reduceToNat]
    rcases size_eq hf with h | h <;> rw [h] <;> omega
  rw [alignStart, startColumn, Int32.toUInt32_ofNat', ← hsub]
  split
  · next h => rw [if_pos (hmid.mp h), Int.toNat_natCast]
  · next h => rw [if_neg fun h' => h (hmid.mpr h')]

/-- The column behind the text, which is where it was to start if it has
been aligned. -/
theorem toNat_textEnd (hf : factor = 0 ∨ factor = 1) (n : ℕ) :
    (alignStart startx width (Int32.ofNat n) factor +
        (Int32.ofNat n).toUInt32 * 6 * (factor + 1)).toNat =
      if width.toNat / 2 < startx.toNat then startx.toNat
      else (startx.toNat + 6 * size factor * n) % 2 ^ 32 := by
  have hX := startx.toNat_lt
  have hlen : ((Int32.ofNat n).toUInt32 * 6 * (factor + 1)).toNat =
      6 * size factor * n % 2 ^ 32 := by
    rw [Int32.toUInt32_ofNat', UInt32.toNat_mul, UInt32.toNat_mul, UInt32.toNat_ofNat',
      toNat_factor hf]
    simp only [UInt32.reduceToNat]
    rcases size_eq hf with h | h <;> rw [h] <;> omega
  rw [UInt32.toNat_add, hlen, alignStart_eq hf]
  split
  · next hright =>
    rw [startColumn_eq_mod hright]
    omega
  · next hleft => rw [startColumn, if_neg hleft, Nat.add_mod_mod]

/-- A clipped length. -/
theorem toInt_clipped (hf : factor = 0 ∨ factor = 1) (hXW : startx.toNat < width.toNat)
    (hW : width.toNat < 2 ^ 31) :
    ((width - startx - 1) / (6 * (factor + 1))).toInt32.toInt =
      ((width.toNat - startx.toNat - 1) / (6 * size factor) : ℕ) := by
  have hu : (((width - startx - 1) / (6 * (factor + 1))).toNat : ℤ) =
      ((width.toNat - startx.toNat - 1) / (6 * size factor) : ℕ) := by
    rw [UInt32.toNat_div, UInt32.toNat_sub_of_le _ _ ?_, UInt32.toNat_sub_of_le _ _ ?_,
      toNat_scaled hf (by decide)]
    · rfl
    · exact UInt32.le_iff_toNat_le.mpr hXW.le
    · rw [UInt32.le_iff_toNat_le, UInt32.toNat_sub_of_le _ _ (UInt32.le_iff_toNat_le.mpr hXW.le)]
      change 1 ≤ _
      omega
  have hle := Nat.div_le_self (width.toNat - startx.toNat - 1) (6 * size factor)
  rw [toInt_toInt32 (hu.trans (Int.emod_eq_of_lt (by omega) (by omega)).symm),
    Int.bmod_eq_of_le (by omega) (by omega)]

theorem clipLen_eq (hf : factor = 0 ∨ factor = 1) (hXW : startx.toNat < width.toNat)
    (hW : width.toNat < 2 ^ 31) (n : ℕ) :
    (clipLen (alignStart startx width (Int32.ofNat n) factor) width (Int32.ofNat n)
        factor).toInt.toNat =
      shown startx.toNat width.toNat (size factor) n := by
  have hclip : alignStart startx width (Int32.ofNat n) factor +
        (Int32.ofNat n).toUInt32 * 6 * (factor + 1) ≥ width ↔
      startx.toNat ≤ width.toNat / 2 ∧
        width.toNat ≤ (startx.toNat + 6 * size factor * n) % 2 ^ 32 := by
    rw [ge_iff_le, UInt32.le_iff_toNat_le, toNat_textEnd hf]
    split <;> omega
  rw [clipLen, shown]
  split
  · next h =>
    have hleft : alignStart startx width (Int32.ofNat n) factor = startx := by
      rw [← UInt32.toNat_inj, alignStart_eq hf, startColumn, if_neg]
      have := (hclip.mp h).1
      omega
    rw [if_pos (hclip.mp h), hleft, toInt_clipped hf hXW hW, Int.toNat_natCast]
  · next h =>
    rw [if_neg fun h' => h (hclip.mpr h'), Int32.toInt_ofNat']
    rfl

/-- The table that `char_arr_ptr` is set to. -/
def charArr (arrs : CharArrs) (factor : UInt32) : List Glyph :=
  if factor ≠ 0 then arrs.bigCharArrPtr else arrs.smallCharArrPtr

/-- The place of the first pixel of character `p`, the text starting at
row `Y`. -/
def charPlace (X Y W F n p : ℕ) : ℤ :=
  startColumn X W F n + (Y * W % 2 ^ 32 : ℕ) +
    p * stride F W ((8 * F * W - 6 * F : ℤ).bmod (2 ^ 32))

/-- The stores for `n` characters. -/
def textWrites (charArrPtr : List Glyph) (F X Y W : ℕ) (text : List UInt8) (n : ℕ) : List Write :=
  logged (fun p => charWrites (glyphAt charArrPtr text p) F W p (charPlace X Y W F n p))
    (shown X W F n)

/-- **All stores of `draw_textn`.** -/
theorem drawTextn_eq {arrs : CharArrs} (hf : factor = 0 ∨ factor = 1)
    (hXW : startx.toNat < width.toNat) (hW : width.toNat < 2 ^ 31)
    (hc : ∀ c ∈ text, c.toNat ≤ 126) (n : ℕ) :
    drawTextn arrs startx starty width text (Int32.ofNat n) factor =
      textWrites (charArr arrs factor) (size factor) startx.toNat starty.toNat width.toNat text
        n := by
  have hw : (7 * (factor + 1)).toNat = 7 * size factor := toNat_scaled hf (by decide)
  have hh : (8 * (factor + 1)).toNat = 8 * size factor := toNat_scaled hf (by decide)
  rw [drawTextn, clipLen_eq hf hXW hW, alignStart_eq hf, UInt32.toNat_mul]
  obtain ⟨k, hk⟩ := drawChar_iterate (charArr arrs factor)
    (width * 8 * (factor + 1) - 6 * (factor + 1)).toInt32
    (startColumn startx.toNat width.toNat (size factor) n +
      (starty.toNat * width.toNat % 2 ^ 32 : ℕ)) hc hw hh (lineOffset_eq hf hW)
    (shown startx.toNat width.toNat (size factor) n)
  rw [nextCharOffs_eq hf] at hk
  exact congrArg Pen.writes hk

/-! ## What wraps -/

/-- How often the offset of the first row wraps. -/
def rowWraps (Y W : ℕ) : ℕ := Y * W / 2 ^ 32

/-- How often the way from a character to the next does. -/
def strideWraps (F W : ℕ) : ℕ := (8 * F * W - 6 * F + 2 ^ 31) / 2 ^ 32

theorem stride_eq {F W : ℕ} (hW : 0 < W) :
    stride F W ((8 * F * W - 6 * F : ℤ).bmod (2 ^ 32)) = 6 * F + 2 ^ 32 * strideWraps F W := by
  have hle : 6 * F ≤ 8 * F * W := by
    calc 6 * F ≤ 8 * F * 1 := by omega
      _ ≤ 8 * F * W := Nat.mul_le_mul_left _ hW
  have hz : (8 * F * W - 6 * F : ℤ) = (8 * F * W - 6 * F : ℕ) := by
    push_cast [hle]
    rfl
  rw [stride, strideWraps, hz, Int.bmod_def]
  split <;> omega

/-- **A character stands at its row and column**, what wraps apart. -/
theorem charPlace_eq {X Y W F n : ℕ} (hW : 0 < W) : charPlace X Y W F n p =
    (Y * W + (startColumn X W F n + 6 * F * p) : ℕ) +
      2 ^ 32 * (p * strideWraps F W - rowWraps Y W : ℤ) := by
  have hmod : (Y * W : ℤ) = (Y * W % 2 ^ 32 : ℕ) + 2 ^ 32 * (rowWraps Y W : ℕ) := by
    rw [rowWraps]
    have := Nat.mod_add_div (Y * W) (2 ^ 32)
    omega
  rw [charPlace, stride_eq hW]
  push_cast at hmod ⊢
  linear_combination -hmod

/-! ## The font -/

/-- A glyph with every pixel doubled both ways. -/
def double (g : Glyph) : Glyph := fun k => g (k / 14 / 2 * 7 + k % 14 / 2)

theorem double_glyph {c : DrawChar} : double c.glyph = (bigChar c).glyph := by
  funext k
  change c.pix ((k / 14 / 2 * 7 + k % 14 / 2) / 7) ((k / 14 / 2 * 7 + k % 14 / 2) % 7) =
    c.pix (k / 14 / 2) (k % 14 / 2)
  congr 1 <;> omega

/-- Where every large character is the small one doubled, it stays so. -/
theorem foldl_pointTo {table : List DrawChar} {arrs : CharArrs}
    (h : arrs.bigCharArrPtr = arrs.smallCharArrPtr.map double) :
    ((table.zip (table.map bigChar)).foldl pointTo arrs).bigCharArrPtr =
      ((table.zip (table.map bigChar)).foldl pointTo arrs).smallCharArrPtr.map double := by
  induction table generalizing arrs with
  | nil => exact h
  | cons c table ih =>
    refine ih ?_
    change arrs.bigCharArrPtr.set c.ascii.toNat (bigChar c).glyph =
      (arrs.smallCharArrPtr.set c.ascii.toNat c.glyph).map double
    rw [List.map_set, h, double_glyph]

/-- **The large characters are the small ones doubled.** -/
theorem bigCharArrPtr_initializeChars :
    initializeChars.bigCharArrPtr = initializeChars.smallCharArrPtr.map double := by
  refine foldl_pointTo ?_
  change List.replicate asciiMax (bigChar _).glyph = (List.replicate asciiMax _).map double
  rw [List.map_replicate, double_glyph]
  rfl

/-- Pixel `(y, x)` of the small glyph of character `p`. -/
def pixelAt (text : List UInt8) (p y x : ℕ) : ℕ :=
  glyphAt initializeChars.smallCharArrPtr text p (y * 7 + x)

theorem getD_map_double (l : List Glyph) (c : ℕ) :
    ((l.map double).getD c fun _ => 0) = double (l.getD c fun _ => 0) := by
  rw [List.getD_eq_getElem?_getD, List.getElem?_map, List.getD_eq_getElem?_getD]
  cases l[c]? <;> rfl

theorem glyphAt_bigCharArrPtr (p : ℕ) :
    glyphAt initializeChars.bigCharArrPtr text p =
      double (glyphAt initializeChars.smallCharArrPtr text p) := by
  rw [glyphAt, bigCharArrPtr_initializeChars, getD_map_double, glyphAt]

/-- **Either size reads the small glyph**, at the pixel that it enlarges. -/
theorem glyphAt_charArr {F i j : ℕ} (hf : factor = 0 ∨ factor = 1) (hF : size factor = F)
    (hj : j < 7 * F) :
    glyphAt (charArr initializeChars factor) text p (i * (7 * F) + j) =
      pixelAt text p (i / F) (j / F) := by
  subst hF
  rcases hf with rfl | rfl
  · change glyphAt initializeChars.smallCharArrPtr text p (i * 7 + j) =
      glyphAt initializeChars.smallCharArrPtr text p (i / 1 * 7 + j / 1)
    rw [Nat.div_one, Nat.div_one]
  · change j < 14 at hj
    change glyphAt initializeChars.bigCharArrPtr text p (i * 14 + j) =
      glyphAt initializeChars.smallCharArrPtr text p (i / 2 * 7 + j / 2)
    rw [glyphAt_bigCharArrPtr, double]
    congr 1
    omega

/-! ## Pixels -/

/-- A pixel that is drawn. -/
def Inked (v : ℕ) : Prop := v = 1 ∨ v = 2

instance : DecidablePred Inked := fun v => inferInstanceAs (Decidable (v = 1 ∨ v = 2))

theorem of_mem_pixelWrites (h : w ∈ pixelWrites p a k v) :
    w.pos = p ∧ w.pixel = k ∧ w.place = a ∧ Inked v := by
  unfold pixelWrites ink at h
  split at h
  · obtain rfl := List.mem_singleton.mp h
    exact ⟨rfl, rfl, rfl, .inl rfl⟩
  · obtain rfl := List.mem_singleton.mp h
    exact ⟨rfl, rfl, rfl, .inr rfl⟩
  · cases h

theorem exists_mem_pixelWrites (h : Inked v) :
    ∃ w ∈ pixelWrites p a k v, w.pos = p ∧ w.pixel = k ∧ w.place = a := by
  rcases h with rfl | rfl
  · exact ⟨_, List.mem_singleton.mpr rfl, rfl, rfl, rfl⟩
  · exact ⟨_, List.mem_singleton.mpr rfl, rfl, rfl, rfl⟩

end Timestamp

end Camkit
