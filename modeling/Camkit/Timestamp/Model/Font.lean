import Mathlib.Algebra.Group.Nat.Defs
/-!
# Time stamp — the font

`timestamp.c`: `draw_table`, the small characters of `draw_text`, and the
doubled ones that `initialize_chars` makes of them.
-/

namespace Camkit

namespace Timestamp

/-- `struct draw_char`: a character and the eight rows of its `pix`, each
of them written as a number of seven digits, one a pixel. -/
structure DrawChar where
  ascii : UInt8
  rows : List ℕ
  deriving DecidableEq, Repr

/-- `pix[y][x]`. -/
def DrawChar.pix (c : DrawChar) (y x : ℕ) : ℕ := c.rows.getD y 0 / 10 ^ (6 - x) % 10

/-- `struct big_char`. -/
structure BigChar where
  ascii : UInt8
  pix : ℕ → ℕ → ℕ

/-- `draw_table`. A pixel is 1 for black, 2 for white and 0 for none; the
row of `M` that the source gives six pixels of has its seventh zero. -/
def drawTable : List DrawChar :=
  [⟨32, [0000000, 0000000, 0000000, 0000000, 0000000, 0000000, 0000000, 0000000]⟩,
  -- the digits
   ⟨48, [0011100, 0122210, 1211221, 1212121, 1212121, 1221121, 0122210, 0011100]⟩,
   ⟨49, [0001000, 0012100, 0122100, 0012100, 0012100, 0012100, 0122210, 0011100]⟩,
   ⟨50, [0011100, 0122210, 1211121, 0112210, 0121100, 1211110, 1222221, 0111110]⟩,
   ⟨51, [0011100, 0122210, 1211121, 0112210, 0101121, 1211121, 0122210, 0011100]⟩,
   ⟨52, [0000100, 0001210, 0012210, 0121210, 1222221, 0111210, 0001210, 0000100]⟩,
   ⟨53, [0111110, 1222221, 1211110, 1222210, 0111120, 0111120, 1222210, 0111100]⟩,
   ⟨54, [0011110, 0122221, 1211110, 1222210, 1211121, 1211121, 0122210, 0011100]⟩,
   ⟨55, [0111110, 1222221, 0111121, 0001210, 0012100, 0121000, 0121000, 0010000]⟩,
   ⟨56, [0011100, 0122210, 1211121, 0122210, 1211121, 1211121, 0122210, 0011100]⟩,
   ⟨57, [0011100, 0122210, 1211121, 0122221, 0111121, 1211121, 0122210, 0011100]⟩,
  -- the signs
   ⟨34, [0010100, 0121210, 0121210, 0010100, 0000000, 0000000, 0000000, 0000000]⟩,
   ⟨47, [0000100, 0001210, 0001210, 0012100, 0012100, 0121000, 0121000, 0010000]⟩,
   ⟨40, [0001000, 0012100, 0121000, 0121000, 0121000, 0121000, 0012100, 0001000]⟩,
   ⟨41, [0001000, 0012100, 0001210, 0001210, 0001210, 0001210, 0012100, 0001000]⟩,
   ⟨64, [0011100, 0122210, 1211121, 1212221, 1212221, 1211110, 0122210, 0011100]⟩,
   ⟨126, [0000000, 0000000, 0010000, 0121010, 1212121, 0101210, 0000100, 0000000]⟩,
   ⟨35, [0010100, 0121210, 1222221, 0121210, 0121210, 1222221, 0121210, 0010100]⟩,
   ⟨60, [0000010, 0001121, 0112210, 1221100, 0112210, 0001121, 0000010, 0000000]⟩,
   ⟨62, [0100000, 1211000, 0122110, 0011221, 0122110, 1211000, 0100000, 0000000]⟩,
   ⟨124, [0001000, 0012100, 0012100, 0012100, 0012100, 0012100, 0012100, 0001000]⟩,
   ⟨44, [0000000, 0000000, 0000000, 0011000, 0122100, 0122100, 0121000, 0010000]⟩,
   ⟨46, [0000000, 0000000, 0000000, 0011000, 0122100, 0122100, 0011000, 0000000]⟩,
   ⟨58, [0011000, 0122100, 0122100, 0011000, 0011000, 0122100, 0122100, 0011000]⟩,
   ⟨45, [0000000, 0000000, 0011100, 0122210, 0011100, 0000000, 0000000, 0000000]⟩,
   ⟨43, [0000000, 0001000, 0012100, 0122210, 0012100, 0001000, 0000000, 0000000]⟩,
   ⟨95, [0000000, 0000000, 0000000, 0000000, 0000000, 0111110, 1222221, 0111110]⟩,
   ⟨39, [0001000, 0012100, 0012100, 0001000, 0000000, 0000000, 0000000, 0000000]⟩,
  -- the small letters
   ⟨97, [0000000, 0000000, 0011110, 0122221, 1211121, 1211121, 0122221, 0011110]⟩,
   ⟨98, [0100000, 1210000, 1211100, 1222210, 1211121, 1211121, 1222210, 0111100]⟩,
   ⟨99, [0000000, 0000000, 0011110, 0122221, 1211110, 1211110, 0122221, 0011110]⟩,
   ⟨100, [0000010, 0000121, 0011121, 0122221, 1211121, 1211121, 0122221, 0011110]⟩,
   ⟨101, [0000000, 0000000, 0011100, 0122210, 1221121, 1212210, 0122221, 0011110]⟩,
   ⟨102, [0000110, 0001221, 0012110, 0122210, 0012100, 0012100, 0012100, 0001000]⟩,
   ⟨103, [0000000, 0011110, 0122221, 1211121, 0122221, 0111121, 1222210, 0111100]⟩,
   ⟨104, [0100000, 1210000, 1211100, 1212210, 1221121, 1210121, 1210121, 0100010]⟩,
   ⟨105, [0001000, 0012100, 0001000, 0012100, 0012100, 0012100, 0122210, 0011100]⟩,
   ⟨106, [0001000, 0012100, 0001000, 0012100, 0012100, 0112100, 1221000, 0110000]⟩,
   ⟨107, [0100000, 1210000, 1210100, 1211210, 1212100, 1221210, 1210121, 0100010]⟩,
   ⟨108, [0011000, 0122100, 0012100, 0012100, 0012100, 0012100, 0001210, 0000100]⟩,
   ⟨109, [0000000, 0000000, 0110100, 1221210, 1212121, 1212121, 1212121, 0101010]⟩,
   ⟨110, [0000000, 0000000, 0101100, 1212210, 1221121, 1210121, 1210121, 0100010]⟩,
   ⟨111, [0000000, 0000000, 0011100, 0122210, 1211121, 1211121, 0122210, 0011100]⟩,
   ⟨112, [0000000, 0000000, 0111100, 1222210, 1211121, 1222210, 1211100, 1210000]⟩,
   ⟨113, [0000000, 0000000, 0011110, 0122221, 1211121, 0122221, 0011121, 0000121]⟩,
   ⟨114, [0000000, 0000000, 0101100, 1212210, 1221121, 1210010, 1210000, 0100000]⟩,
   ⟨115, [0000000, 0000000, 0011110, 0122221, 1222110, 0112221, 1222210, 0111100]⟩,
   ⟨116, [0001000, 0012100, 0012100, 0122210, 0012100, 0012100, 0001210, 0000100]⟩,
   ⟨117, [0000000, 0000000, 0100010, 1210121, 1210121, 1211221, 0122121, 0011010]⟩,
   ⟨118, [0000000, 0000000, 0100010, 1210121, 1210121, 0121210, 0012100, 0001000]⟩,
   ⟨119, [0000000, 0000000, 0100010, 1210121, 1211121, 1212121, 0121210, 0010100]⟩,
   ⟨120, [0000000, 0000000, 0100100, 1211210, 0122100, 0122100, 1211210, 0100100]⟩,
   ⟨121, [0000000, 0000000, 0100010, 1210121, 0121210, 0012100, 0121000, 1210000]⟩,
   ⟨122, [0000000, 0000000, 0111100, 1222210, 0112100, 0121100, 1222210, 0111100]⟩,
  -- the capitals
   ⟨65, [0011100, 0122210, 1211121, 1211121, 1222221, 1211121, 1210121, 0100010]⟩,
   ⟨66, [0111100, 1222210, 1211121, 1222210, 1211121, 1211121, 1222210, 0111100]⟩,
   ⟨67, [0011100, 0122210, 1211121, 1210010, 1210010, 1211121, 0122210, 0011100]⟩,
   ⟨68, [0111100, 1222210, 1211121, 1210121, 1210121, 1211121, 1222210, 0111100]⟩,
   ⟨69, [0111110, 1222221, 1211110, 1222210, 1211100, 1211110, 1222221, 0111110]⟩,
   ⟨70, [0111110, 1222221, 1211110, 1222210, 1211100, 1210000, 1210000, 0100000]⟩,
   ⟨71, [0011100, 0122210, 1211121, 1211110, 1212221, 1211121, 0122210, 0011100]⟩,
   ⟨72, [0100010, 1210121, 1211121, 1222221, 1211121, 1210121, 1210121, 0100010]⟩,
   ⟨73, [0011100, 0122210, 0012100, 0012100, 0012100, 0012100, 0122210, 0011100]⟩,
   ⟨74, [0011110, 0122221, 0011121, 0000121, 0100121, 1211121, 0122210, 0011100]⟩,
   ⟨75, [0100010, 1210121, 1211210, 1212100, 1222100, 1211210, 1210121, 0100010]⟩,
   ⟨76, [0100000, 1210000, 1210000, 1210000, 1210000, 1211100, 1222210, 0111100]⟩,
   ⟨77, [0110110, 1221221, 1212121, 1211120, 1210121, 1210121, 1210121, 0100010]⟩,
   ⟨78, [0100010, 1210121, 1221121, 1212121, 1211221, 1210121, 1210121, 0100010]⟩,
   ⟨79, [0011100, 0122210, 1211121, 1210121, 1210121, 1211121, 0122210, 0011100]⟩,
   ⟨80, [0111100, 1222210, 1211121, 1222210, 1211100, 1210000, 1210000, 0100000]⟩,
   ⟨81, [0011100, 0122210, 1211121, 1211121, 1212121, 1211210, 0122121, 0011010]⟩,
   ⟨82, [0111100, 1222210, 1211121, 1222210, 1212100, 1211210, 1210121, 0100010]⟩,
   ⟨83, [0011110, 0122221, 1211110, 0122210, 0011121, 0111121, 1222210, 0111100]⟩,
   ⟨84, [0111110, 1222221, 0112110, 0012100, 0012100, 0012100, 0012100, 0001000]⟩,
   ⟨85, [0100010, 1210121, 1210121, 1210121, 1210121, 1211121, 0122221, 0011110]⟩,
   ⟨86, [0100010, 1210121, 1210121, 1210121, 1210121, 0121210, 0012100, 0001000]⟩,
   ⟨87, [0100010, 1210121, 1210121, 1211121, 1212121, 1212121, 0121210, 0010100]⟩,
   ⟨88, [0100010, 1210121, 0121210, 0012100, 0012100, 0121210, 1210121, 0100010]⟩,
   ⟨89, [0100010, 1210121, 0121210, 0012100, 0012100, 0012100, 0012100, 0001000]⟩,
   ⟨90, [0111110, 1222221, 0111210, 0012100, 0121000, 1211110, 1222221, 0111110]⟩]

/-- `initialize_chars`, a round of its first loop: a character with every
pixel doubled both ways. -/
def bigChar (c : DrawChar) : BigChar where
  ascii := c.ascii
  pix y x := c.pix (y / 2) (x / 2)

/-- `big_table`, as the first loop leaves it. -/
def bigTable : List BigChar := drawTable.map bigChar

end Timestamp

end Camkit
