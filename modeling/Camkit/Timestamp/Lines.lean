import Camkit.Timestamp.Glyphs
/-!
# Time stamp — the lines of a text

`draw_text` looks for the escape of a new line twice, to count and to
draw. Here a text is the lines between its escapes, and what is stored is
what their characters are, line below line, the last at the row that was
asked for.
-/

namespace Camkit

namespace Timestamp

variable {arrs : CharArrs} {text found : List UInt8} {factor startx starty width : UInt32}
  {charArrPtr : List Glyph} {F X Y W n p : ℕ}

/-! ## Lines -/

/-- The lines of a text. -/
def lines : List UInt8 → List (List UInt8)
  | 92 :: 110 :: s => [] :: lines s
  | c :: s => (lines s).modifyHead (c :: ·)
  | [] => [[]]

/-- A text has one line more than escapes. -/
def escapes (text : List UInt8) : ℕ := (lines text).length - 1

/-- Where there is no escape, the text is its line. -/
theorem lines_of_strstr_none (h : strstr newline text = none) : lines text = [text] := by
  induction text using lines.induct with
  | case1 s => cases h
  | case2 c s hne ih =>
    rw [lines, ih]
    · rfl
    · rw [strstr] at h
      split at h
      · cases h
      · exact h
    · exact hne
  | case3 => rfl

/-- And else the first line ends where the first escape is found. -/
theorem lines_of_strstr_some (h : strstr newline text = some found) :
    ∃ l rest, text = l ++ found ∧ found = newline ++ rest ∧ lines text = l :: lines rest := by
  induction text using lines.induct with
  | case1 s =>
    obtain rfl := Option.some.inj h
    exact ⟨[], s, rfl, rfl, by rw [lines]⟩
  | case2 c s hne ih =>
    have hnot : newline.isPrefixOf (c :: s) = false := by
      rw [Bool.eq_false_iff]
      intro hp
      obtain ⟨s', hs'⟩ := List.isPrefixOf_iff_prefix.mp hp
      obtain ⟨hc, hs⟩ := List.cons_eq_cons.mp hs'
      exact hne s' hc.symm hs.symm
    rw [strstr, if_neg (by rw [hnot]; exact Bool.false_ne_true)] at h
    obtain ⟨l, rest, htext, hfound, hlines⟩ := ih h
    refine ⟨c :: l, rest, by rw [htext, List.cons_append], hfound, ?_⟩
    rw [lines, hlines]
    · rfl
    · exact hne
  | case3 => cases h

theorem lines_ne_nil (text : List UInt8) : lines text ≠ [] := by
  cases h : strstr newline text with
  | none => rw [lines_of_strstr_none h]; exact List.cons_ne_nil _ _
  | some found =>
    obtain ⟨l, rest, -, -, hlines⟩ := lines_of_strstr_some h
    rw [hlines]
    exact List.cons_ne_nil _ _

/-- Without an escape there is one line. -/
theorem strstr_eq_none (h : ¬ newline <:+: text) : strstr newline text = none := by
  cases hs : strstr newline text with
  | none => rfl
  | some found => exact absurd ((strstr_isPrefix hs).isInfix.trans (strstr_isSuffix hs).isInfix) h

/-! ## What is drawn of a line -/

/-- No more characters are drawn than there are. -/
theorem shown_le (hXW : X < W) : shown X W F n ≤ n := by
  rw [shown]
  split
  · next h =>
    have hle := Nat.mod_le (X + 6 * F * n) (2 ^ 32)
    refine Nat.div_le_of_le_mul ?_
    omega
  · rw [Int.bmod_def]
    split <;> omega

/-- Sizes at which no offset wraps, nor the column behind the text. -/
structure Unwrapped (X Y W F n : ℕ) : Prop where
  row : Y * W < 2 ^ 32
  stride : 8 * F * W < 2 ^ 31 + 6 * F
  text : X + 6 * F * n < 2 ^ 32

/-! There the line starts and ends as it is meant to. -/

/-- A text right of the middle ends at the column asked for. -/
theorem startColumn_of_right (hright : W / 2 < X) (hroom : 6 * F * n ≤ X)
    (hu : Unwrapped X Y W F n) : startColumn X W F n = X - 6 * F * n := by
  have htext := hu.text
  rw [startColumn_eq_mod hright]
  omega

/-- Any other starts there. -/
theorem startColumn_of_left (hleft : X ≤ W / 2) : startColumn X W F n = X :=
  if_neg (by omega)

theorem toNat_bmod (hF : 0 < F) (hu : Unwrapped X Y W F n) :
    ((n : ℤ).bmod (2 ^ 32)).toNat = n := by
  have hn : 6 * n ≤ 6 * F * n := by
    rw [Nat.mul_assoc]
    exact Nat.mul_le_mul_left 6 (Nat.le_mul_of_pos_left n hF)
  have htext := hu.text
  rw [Int.bmod_eq_of_le (by omega) (by omega), Int.toNat_natCast]

/-- Of a text right of the middle everything is shown. -/
theorem shown_of_right (hF : 0 < F) (hright : W / 2 < X) (hu : Unwrapped X Y W F n) :
    shown X W F n = n := by
  rw [shown, if_neg (by omega), toNat_bmod hF hu]

/-- Of any other what has room up to the edge. -/
theorem shown_of_left (hF : 0 < F) (hXW : X < W) (hleft : X ≤ W / 2) (hu : Unwrapped X Y W F n) :
    shown X W F n = min n ((W - X - 1) / (6 * F)) := by
  have hle : n ≤ (W - X - 1) / (6 * F) ↔ X + 6 * F * n < W := by
    rw [Nat.le_div_iff_mul_le (by omega), Nat.mul_comm]
    omega
  rw [shown, Nat.mod_eq_of_lt hu.text, toNat_bmod hF hu]
  split <;> omega

theorem rowWraps_eq_zero (hu : Unwrapped X Y W F n) : rowWraps Y W = 0 :=
  Nat.div_eq_of_lt hu.row

theorem strideWraps_eq_zero (hu : Unwrapped X Y W F n) : strideWraps F W = 0 := by
  have hstride := hu.stride
  exact Nat.div_eq_of_lt (by omega)

/-- What follows a line in the text does not matter to it. -/
theorem textWrites_append {l r : List UInt8} (hXW : X < W) :
    textWrites charArrPtr F X Y W (l ++ r) l.length = textWrites charArrPtr F X Y W l l.length := by
  refine logged_congr ?_
  intro p hp
  have hlt : p < l.length := Nat.lt_of_lt_of_le hp (shown_le hXW)
  have hget : (l ++ r).getD p 0 = l.getD p 0 := by
    rw [List.getD_eq_getElem?_getD, List.getD_eq_getElem?_getD, List.getElem?_append_left hlt]
  rw [glyphAt, glyphAt, hget]

/-- The stores for lines, the first of them at row `Y`. -/
def linesWrites (charArrPtr : List Glyph) (F X W : ℕ) : ℕ → List (List UInt8) → List Write
  | _, [] => []
  | Y, l :: ls =>
    textWrites charArrPtr F X Y W l l.length ++
      linesWrites charArrPtr F X W ((Y + 9 * F) % 2 ^ 32) ls

theorem toNat_lineSpace (hf : factor = 0 ∨ factor = 1) :
    ((factor + 1) * 9).toInt32.toUInt32.toNat = 9 * size factor := by
  rcases hf with rfl | rfl <;> rfl

/-- The loop over the text draws its lines, one under the other. -/
theorem drawLines_eq (hf : factor = 0 ∨ factor = 1) (hXW : startx.toNat < width.toNat)
    (hW : width.toNat < 2 ^ 31) (hc : ∀ c ∈ text, c.toNat ≤ 126) :
    drawLines arrs startx starty width text factor ((factor + 1) * 9).toInt32 =
      linesWrites (charArr arrs factor) (size factor) startx.toNat width.toNat starty.toNat
        (lines text) := by
  generalize hls : lines text = ls
  induction ls generalizing text starty with
  | nil => exact absurd hls (lines_ne_nil _)
  | cons l ls ih =>
    rw [drawLines]
    split
    · next hnone =>
      obtain ⟨rfl, rfl⟩ := List.cons_eq_cons.mp (hls.symm.trans (lines_of_strstr_none hnone))
      rw [drawTextn_eq hf hXW hW hc, linesWrites, linesWrites, List.append_nil]
    · next found hsome =>
      obtain ⟨l', rest, htext, hfound, hlines⟩ := lines_of_strstr_some hsome
      obtain ⟨rfl, rfl⟩ := List.cons_eq_cons.mp (hls.symm.trans hlines)
      have hlen : text.length - found.length = l.length := by
        rw [htext, List.length_append]
        omega
      have hrest : found.drop newline.length = rest := by rw [hfound, List.drop_left]
      have hcrest : ∀ c ∈ rest, c.toNat ≤ 126 := by
        intro c hmem
        refine hc c ?_
        rw [htext, hfound]
        exact List.mem_append_right _ (List.mem_append_right _ hmem)
      rw [drawTextn_eq hf hXW hW hc, hlen, hrest, ih hcrest rfl, linesWrites, UInt32.toNat_add,
        toNat_lineSpace hf, htext, textWrites_append hXW]

theorem countNewlines_eq (k : Int32) : countNewlines text k = k + Int32.ofNat (escapes text) := by
  rw [escapes]
  generalize hls : lines text = ls
  induction ls generalizing text k with
  | nil => exact absurd hls (lines_ne_nil _)
  | cons l ls ih =>
    rw [countNewlines]
    split
    · next hnone =>
      obtain ⟨-, rfl⟩ := List.cons_eq_cons.mp (hls.symm.trans (lines_of_strstr_none hnone))
      exact (Int32.add_zero k).symm
    · next found hsome =>
      obtain ⟨l', rest, htext, hfound, hlines⟩ := lines_of_strstr_some hsome
      obtain ⟨-, rfl⟩ := List.cons_eq_cons.mp (hls.symm.trans hlines)
      have hrest : found.drop newline.length = rest := by rw [hfound, List.drop_left]
      have hpos := List.length_pos_iff.mpr (lines_ne_nil rest)
      obtain ⟨m, hm⟩ := Nat.exists_eq_add_of_lt hpos
      rw [hrest, ih (k + 1) rfl, Int32.add_assoc, List.length_cons, hm, Nat.add_sub_cancel,
        Nat.add_sub_cancel, Nat.zero_add, Nat.add_comm m 1, Int32.ofNat_add]
      rfl

/-- The row of the first line. -/
theorem toNat_firstRow (hf : factor = 0 ∨ factor = 1)
    (hY : 9 * size factor * escapes text ≤ starty.toNat) :
    (starty - (((factor + 1) * 9).toInt32 * countNewlines text 0).toUInt32).toNat =
      starty.toNat - 9 * size factor * escapes text := by
  have hlt := starty.toNat_lt
  have hnl : (((factor + 1) * 9).toInt32 * countNewlines text 0).toUInt32.toNat =
      9 * size factor * escapes text := by
    rw [countNewlines_eq, Int32.zero_add, Int32.toUInt32_mul, UInt32.toNat_mul,
      toNat_lineSpace hf, Int32.toUInt32_ofNat', UInt32.toNat_ofNat', Nat.mul_mod_mod,
      Nat.mod_eq_of_lt (by omega)]
  rw [UInt32.toNat_sub_of_le _ _ (UInt32.le_iff_toNat_le.mpr (by rw [hnl]; exact hY)), hnl]

/-- **All stores of `draw_text`.** -/
theorem drawText_eq (hf : factor = 0 ∨ factor = 1) (hXW : startx.toNat < width.toNat)
    (hW : width.toNat < 2 ^ 31) (hc : ∀ c ∈ text, c.toNat ≤ 126)
    (hY : 9 * size factor * escapes text ≤ starty.toNat) :
    drawText arrs startx starty width text factor =
      linesWrites (charArr arrs factor) (size factor) startx.toNat width.toNat
        (starty.toNat - 9 * size factor * escapes text) (lines text) := by
  rw [drawText, drawLines_eq hf hXW hW hc, toNat_firstRow hf hY]

/-- A text without an escape is one line, at the row asked for. -/
theorem drawText_of_not_newline (hf : factor = 0 ∨ factor = 1) (hXW : startx.toNat < width.toNat)
    (hW : width.toNat < 2 ^ 31) (hc : ∀ c ∈ text, c.toNat ≤ 126) (hnl : ¬ newline <:+: text) :
    drawText arrs startx starty width text factor =
      textWrites (charArr arrs factor) (size factor) startx.toNat starty.toNat width.toNat text
        text.length := by
  have hlines := lines_of_strstr_none (strstr_eq_none hnl)
  have hesc : escapes text = 0 := by rw [escapes, hlines]; rfl
  rw [drawText_eq hf hXW hW hc (by rw [hesc]; exact Nat.zero_le _), hesc, hlines, linesWrites,
    linesWrites, List.append_nil]
  rfl

end Timestamp

end Camkit
