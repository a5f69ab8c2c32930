import Camkit.Common.Raster
import Camkit.Timestamp.Model.Font
/-!
# Time stamp — the code

`timestamp.c`: the last loops of `initialize_chars`, `draw_textn`,
`draw_text`, `timestamp_open` and `timestamp_draw`. An `unsigned int` is a
`UInt32` and an `int` an `Int32`, and a conversion between the two keeps
the 32 bits, as it does on the targets. The routines store into the image
and never read it, so what each of them leaves here is its stores, in
their order. A place is an offset from `image`.
-/

namespace Camkit

namespace Timestamp

/-! ## Data -/

/-- `struct tms_param`. -/
structure TmsParam where
  startx : Int32
  starty : Int32
  videoWidth : Int32
  factor : Int32
  deriving DecidableEq, Repr

/-- `struct tms_handle`. -/
structure TmsHandle where
  startx : Int32
  starty : Int32
  videoWidth : Int32
  factor : Int32
  deriving DecidableEq, Repr

/-- What a pointer to the first pixel of a character reads, by the offset
from there. -/
abbrev Glyph : Type := ℕ → ℕ

/-- `&draw_table[i].pix[0][0]`. -/
def DrawChar.glyph (c : DrawChar) : Glyph := fun k => c.pix (k / 7) (k % 7)

/-- `&big_table[i].pix[0][0]`. -/
def BigChar.glyph (c : BigChar) : Glyph := fun k => c.pix (k / 14) (k % 14)

/-- `small_char_arr_ptr` and `big_char_arr_ptr`. -/
structure CharArrs where
  smallCharArrPtr : List Glyph
  bigCharArrPtr : List Glyph

/-- A store of `draw_textn`: `*image_ptr = value`, for the pixel `char_ptr`
is at in the glyph of character `pos`. -/
structure Write where
  pos : ℕ
  pixel : ℕ
  place : ℤ
  value : UInt8
  deriving DecidableEq, Repr

/-- The variables of `draw_textn` that its loops move, and its stores. -/
structure Pen where
  pos : ℕ
  imagePtr : ℤ
  charPtr : ℕ
  writes : List Write
  deriving DecidableEq, Repr

/-! ## `initialize_chars` -/

/-- `ASCII_MAX`. -/
def asciiMax : ℕ := 127

/-- The second loop: all characters point to the first one of the table. -/
def firstPointers : CharArrs where
  smallCharArrPtr := List.replicate asciiMax (drawTable.head (List.cons_ne_nil _ _)).glyph
  bigCharArrPtr := List.replicate asciiMax (bigTable.head (List.cons_ne_nil _ _)).glyph

/-- A round of the third loop. -/
def pointTo (arrs : CharArrs) (c : DrawChar × BigChar) : CharArrs where
  smallCharArrPtr := arrs.smallCharArrPtr.set c.1.ascii.toNat c.1.glyph
  bigCharArrPtr := arrs.bigCharArrPtr.set c.1.ascii.toNat c.2.glyph

/-- `initialize_chars`. -/
def initializeChars : CharArrs := (drawTable.zip bigTable).foldl pointTo firstPointers

/-! ## `draw_textn` -/

/-- The `switch` on `*char_ptr`. -/
def ink (s : Pen) : ℕ → List Write
  | 1 => [⟨s.pos, s.charPtr, s.imagePtr, 0⟩]
  | 2 => [⟨s.pos, s.charPtr, s.imagePtr, 255⟩]
  | _ => []

/-- The body of the loop over `x`. -/
def drawPixel (charPtr : Glyph) (posCheck : ℤ) (s : Pen) : Pen :=
  { s with
    imagePtr := s.imagePtr + 1
    charPtr := s.charPtr + 1
    writes := s.writes ++ if posCheck < 0 then [] else ink s (charPtr s.charPtr) }

/-- The body of the loop over `y`. -/
def drawRow (charPtr : Glyph) (posCheck : ℤ) (factor : UInt32) (lineOffset : Int32) (s : Pen) :
    Pen :=
  let s := (drawPixel charPtr posCheck)^[(7 * (factor + 1)).toNat] s
  { s with imagePtr := s.imagePtr + lineOffset.toInt }

/-- The body of the loop over `pos`. The pointer a negative `pos_check`
loads, from in front of the table, is not read through. -/
def drawChar (charArrPtr : List Glyph) (text : List UInt8) (factor : UInt32)
    (lineOffset nextCharOffs : Int32) (s : Pen) : Pen :=
  let posCheck := (text.getD s.pos 0).toInt8.toInt
  let charPtr := charArrPtr.getD posCheck.toNat fun _ => 0
  let s := (drawRow charPtr posCheck factor lineOffset)^[(8 * (factor + 1)).toNat]
    { s with charPtr := 0 }
  { s with
    pos := s.pos + 1
    imagePtr := s.imagePtr - nextCharOffs.toInt }

/-- The right alignment of `startx`. -/
def alignStart (startx width : UInt32) (len : Int32) (factor : UInt32) : UInt32 :=
  if startx > width / 2 then startx - len.toUInt32 * (6 * (factor + 1)) else startx

/-- The clipping of `len`, `startx` being aligned. -/
def clipLen (startx width : UInt32) (len : Int32) (factor : UInt32) : Int32 :=
  if startx + len.toUInt32 * 6 * (factor + 1) ≥ width then
    ((width - startx - 1) / (6 * (factor + 1))).toInt32
  else len

/-- `draw_textn`. -/
def drawTextn (arrs : CharArrs) (startx starty width : UInt32) (text : List UInt8) (len : Int32)
    (factor : UInt32) : List Write :=
  let startx := alignStart startx width len factor
  let len := clipLen startx width len factor
  let lineOffset := (width - 7 * (factor + 1)).toInt32
  let nextCharOffs := (width * 8 * (factor + 1) - 6 * (factor + 1)).toInt32
  let imagePtr : ℤ := startx.toNat + (starty * width).toNat
  let charArrPtr := if factor ≠ 0 then arrs.bigCharArrPtr else arrs.smallCharArrPtr
  ((drawChar charArrPtr text factor lineOffset nextCharOffs)^[len.toInt.toNat]
    ⟨0, imagePtr, 0, []⟩).writes

/-! ## `draw_text` -/

/-- `NEWLINE`: a backslash and an `n`. -/
def newline : List UInt8 := [92, 110]

/-- `strstr`: the rest of a string from the first occurrence on. -/
def strstr (needle : List UInt8) : List UInt8 → Option (List UInt8)
  | [] => if needle = [] then some [] else none
  | c :: s => if needle.isPrefixOf (c :: s) then some (c :: s) else strstr needle s

/-- What `strstr` finds begins with the needle. -/
theorem strstr_isPrefix {needle s found : List UInt8} (h : strstr needle s = some found) :
    needle <+: found := by
  induction s with
  | nil =>
    rw [strstr] at h
    split at h
    · next hn => exact hn ▸ List.nil_prefix
    · cases h
  | cons c s ih =>
    rw [strstr] at h
    split at h
    · next hp => exact Option.some.inj h ▸ List.isPrefixOf_iff_prefix.mp hp
    · exact ih h

/-- And is an end of the string. -/
theorem strstr_isSuffix {needle s found : List UInt8} (h : strstr needle s = some found) :
    found <:+ s := by
  induction s with
  | nil =>
    rw [strstr] at h
    split at h
    · exact Option.some.inj h ▸ List.suffix_rfl
    · cases h
  | cons c s ih =>
    rw [strstr] at h
    split at h
    · exact Option.some.inj h ▸ List.suffix_rfl
    · exact (ih h).trans (List.suffix_cons c s)

/-- So the loops of `draw_text` come to an end. -/
theorem length_drop_strstr {s found : List UInt8} (h : strstr newline s = some found) :
    (found.drop newline.length).length < s.length := by
  have hp := (strstr_isPrefix h).length_le
  have hs := (strstr_isSuffix h).length_le
  have hn : newline.length = 2 := rfl
  rw [List.length_drop]
  omega

/-- The first loop: `num_nl`. -/
def countNewlines (text : List UInt8) (numNl : Int32) : Int32 :=
  match _ : strstr newline text with
  | none => numNl
  | some found => countNewlines (found.drop newline.length) (numNl + 1)
termination_by text.length
decreasing_by exact length_drop_strstr ‹_›

/-- The second loop, and the line after it. -/
def drawLines (arrs : CharArrs) (startx starty width : UInt32) (text : List UInt8)
    (factor : UInt32) (lineSpace : Int32) : List Write :=
  match _ : strstr newline text with
  | none => drawTextn arrs startx starty width text (Int32.ofNat text.length) factor
  | some found =>
    drawTextn arrs startx starty width text (Int32.ofNat (text.length - found.length)) factor ++
      drawLines arrs startx (starty + lineSpace.toUInt32) width (found.drop newline.length) factor
        lineSpace
termination_by text.length
decreasing_by exact length_drop_strstr ‹_›

/-- `draw_text`. -/
def drawText (arrs : CharArrs) (startx starty width : UInt32) (text : List UInt8)
    (factor : UInt32) : List Write :=
  let lineSpace := ((factor + 1) * 9).toInt32
  let starty := starty - (lineSpace * countNewlines text 0).toUInt32
  drawLines arrs startx starty width text factor lineSpace

/-- The image with the stores made. -/
def store (image : Mem) (ws : List Write) : Mem :=
  image.setAll (ws.map fun w => (w.place, w.value))

/-! ## `timestamp_open` and `timestamp_draw` -/

/-- `timestamp_open`: `malloc` is whether there is memory for the handle.
The character pointers are globals. -/
def timestampOpen (malloc : Bool) (arrs : CharArrs) (params : TmsParam) :
    Option TmsHandle × CharArrs :=
  if malloc then
    (some
      { startx := params.startx
        starty := params.starty
        videoWidth := params.videoWidth
        factor := params.factor }, initializeChars)
  else (none, arrs)

/-- `timestamp_draw`: `timestamp` is what `strftime` has made of the time. -/
def timestampDraw (arrs : CharArrs) (handle : TmsHandle) (timestamp : List UInt8) : List Write :=
  drawText arrs handle.startx.toUInt32 handle.starty.toUInt32 handle.videoWidth.toUInt32 timestamp
    handle.factor.toUInt32

end Timestamp

end Camkit
