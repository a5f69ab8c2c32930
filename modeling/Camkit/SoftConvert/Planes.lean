import Camkit.SoftConvert.Scan
/-!
# Software converter — the planes of an image

An image of even width and height, small enough for its sizes to be
`int`s: every cursor is where its exact position is, each byte of the
output is written once, and the three planes are what 4:2:0 makes of the
input.
-/

namespace Camkit

namespace SoftConvert

variable {inbuf : Mem} {width height : Int32} {x : ℤ} {a b line o r t : ℕ} {w : Write} {m : Mem}
variable {ws : List Write}

/-! ## Sizes that are exact -/

/-- The width is `2 * a`, the height `2 * b`, and no size overflows. -/
structure Exact (width height : Int32) (a b : ℕ) : Prop where
  width : width.toInt = 2 * a
  height : height.toInt = 2 * b
  pos_a : 0 < a
  pos_b : 0 < b
  size : 64 * (a * b) < 2 ^ 31

/-- An `int` holds what is in its range. -/
theorem bmod_of_lt (h0 : 0 ≤ x) (hx : x < 2 ^ 31) : x.bmod (2 ^ 32) = x :=
  Int.bmod_eq_of_le (by omega) (by omega)

theorem place_of_lt (h0 : 0 ≤ x) (hx : x < 2 ^ 31) : place x = x :=
  Int32.toInt_ofInt_of_le (by omega) hx

theorem exact_of_toInt (hwidth : width.toInt = (2 * a : ℕ)) (hheight : height.toInt = (2 * b : ℕ))
    (ha : 0 < 2 * a) (hb : 0 < 2 * b) (hsize : 16 * (2 * a * (2 * b)) < 2 ^ 31) :
    Exact width height a b := by
  have harea : 16 * (2 * a * (2 * b)) = 64 * (a * b) := by ring
  exact ⟨by rw [hwidth, Nat.cast_mul, Nat.cast_ofNat],
    by rw [hheight, Nat.cast_mul, Nat.cast_ofNat], by omega, by omega, by omega⟩

namespace Exact

theorem a_le (e : Exact width height a b) : a ≤ a * b := Nat.le_mul_of_pos_right a e.pos_b

/-- The area of the image. -/
theorem area (e : Exact width height a b) : width.toInt * height.toInt = 4 * (a * b : ℕ) := by
  rw [e.width, e.height]
  push_cast
  ring

theorem toInt_mul (e : Exact width height a b) :
    (width * height).toInt = 4 * (a * b : ℕ) := by
  have hsize := e.size
  rw [Int32.toInt_mul, e.area, bmod_of_lt (by omega) (by omega)]

/-- The sizes and offsets the source computes from the area. -/
theorem toInt_mul_div (e : Exact width height a b) {k d : Int32} (h0 : 0 ≤ k.toInt)
    (hk : k.toInt ≤ 16) (hd : 0 < d.toInt) :
    (width * height * k / d).toInt = 4 * (a * b : ℕ) * k.toInt / d.toInt := by
  have hsize := e.size
  have hnonneg : 0 ≤ 4 * (a * b : ℕ) * k.toInt := Int.mul_nonneg (by omega) h0
  have hle : 4 * (a * b : ℕ) * k.toInt ≤ 4 * (a * b : ℕ) * 16 :=
    Int.mul_le_mul_of_nonneg_left hk (by omega)
  have hmul : (width * height * k).toInt = 4 * (a * b : ℕ) * k.toInt := by
    rw [Int32.toInt_mul, e.toInt_mul, bmod_of_lt hnonneg (by omega)]
  have hne : d ≠ -1 := by
    rintro rfl
    exact absurd hd (by decide)
  rw [Int32.toInt_div_of_ne_right _ _ hne, hmul, Int.tdiv_eq_ediv_of_nonneg hnonneg]

theorem cols (e : Exact width height a b) : rounds (width * 2) 4 = a := by
  have hsize := e.size
  have hle := e.a_le
  have htwo : (2 : Int32).toInt = 2 := rfl
  rw [rounds, Int32.toInt_mul, e.width, htwo, bmod_of_lt (by omega) (by omega)]
  omega

theorem rows (e : Exact width height a b) : rounds height 2 = b := by
  rw [rounds, e.height]
  omega

theorem vOffset (e : Exact width height a b) :
    (width * height * 5 / 4).toInt = 5 * (a * b : ℕ) := by
  rw [e.toInt_mul_div (by decide) (by decide) (by decide)]
  change 4 * (a * b : ℕ) * 5 / 4 = (5 * (a * b : ℕ) : ℤ)
  omega

end Exact

/-! ## The writes -/

/-- The write of pixel `c` of a line. -/
def yWrite (inbuf : Mem) (a line c : ℕ) : Write :=
  ⟨.y, (line * (2 * a) + c : ℕ), inbuf (2 * (line * (2 * a) + c : ℕ))⟩

/-- The bytes at `o` of input lines `2 * q` and `2 * q + 1`, taken together. -/
def chroma (inbuf : Mem) (a q o : ℕ) : UInt8 :=
  mean (inbuf (2 * q * (4 * a) + o : ℕ)) (inbuf ((2 * q + 1) * (4 * a) + o : ℕ))

/-- The writes of byte `p` of line `q` of the chroma planes. -/
def uWrite (inbuf : Mem) (a b q p : ℕ) : Write :=
  ⟨.u, (4 * (a * b) + (q * a + p) : ℕ), chroma inbuf a q (4 * p + 1)⟩

def vWrite (inbuf : Mem) (a b q p : ℕ) : Write :=
  ⟨.v, (5 * (a * b) + (q * a + p) : ℕ), chroma inbuf a q (4 * p + 3)⟩

/-- A place in a plane of `m` lines. -/
theorem line_lt {m n i k : ℕ} (hi : i < m) (hk : k < n) : i * n + k < m * n :=
  calc i * n + k < i * n + n := by omega
    _ = (i + 1) * n := (Nat.succ_mul i n).symm
    _ ≤ m * n := Nat.mul_le_mul_right n hi

namespace Exact

/-- An input position is where it is, and inside. -/
theorem inPos_lt (e : Exact width height a b) (hline : line < 2 * b) (ho : o < 4 * a) :
    line * (4 * a) + o < 8 * (a * b) ∧
      place (inPos width.toInt line o) = (line * (4 * a) + o : ℕ) := by
  have hlt : line * (4 * a) + o < 2 * b * (4 * a) := line_lt hline ho
  have harea : 2 * b * (4 * a) = 8 * (a * b) := by ring
  have hsize := e.size
  have hpos : inPos width.toInt line o = (line * (4 * a) + o : ℕ) := by
    rw [inPos, e.width]
    push_cast
    ring
  refine ⟨by omega, ?_⟩
  rw [hpos, place_of_lt (by omega) (by omega)]

/-- So is the position of a pixel. -/
theorem outPos_lt (e : Exact width height a b) {c : ℕ} (hline : line < 2 * b) (hc : c < 2 * a) :
    line * (2 * a) + c < 4 * (a * b) ∧
      place (outPos width.toInt line c) = (line * (2 * a) + c : ℕ) := by
  have hlt : line * (2 * a) + c < 2 * b * (2 * a) := line_lt hline hc
  have harea : 2 * b * (2 * a) = 4 * (a * b) := by ring
  have hsize := e.size
  have hpos : outPos width.toInt line c = (line * (2 * a) + c : ℕ) := by
    rw [outPos, e.width]
    push_cast
    ring
  refine ⟨by omega, ?_⟩
  rw [hpos, place_of_lt (by omega) (by omega)]

/-- And the positions of the chroma bytes. -/
theorem chroma_lt (e : Exact width height a b) (hr : r < b) (ht : t < a) :
    r * a + t < a * b ∧
      place ((width * height).toInt + (r * a + t : ℕ)) = (4 * (a * b) + (r * a + t) : ℕ) ∧
      place ((width * height * 5 / 4).toInt + (r * a + t : ℕ)) =
        (5 * (a * b) + (r * a + t) : ℕ) := by
  have hlt : r * a + t < b * a := line_lt hr ht
  have harea : b * a = a * b := Nat.mul_comm b a
  have hsize := e.size
  refine ⟨by omega, ?_, ?_⟩
  · rw [e.toInt_mul, place_of_lt (by omega) (by omega)]
    push_cast
    ring
  · rw [e.vOffset, place_of_lt (by omega) (by omega)]
    push_cast
    ring

/-- **The writes of a round**, at their exact positions. -/
theorem pairWrites_eq (e : Exact width height a b) (hr : r < b) (ht : t < a) :
    pairWrites inbuf width.toInt (width * height).toInt (width * height * 5 / 4).toInt (r * a) r t =
      [yWrite inbuf a (2 * r) (2 * t), yWrite inbuf a (2 * r) (2 * t + 1),
        yWrite inbuf a (2 * r + 1) (2 * t), yWrite inbuf a (2 * r + 1) (2 * t + 1),
        uWrite inbuf a b r t, vWrite inbuf a b r t] := by
  have hread : ∀ line o, line < 2 * b → o < 4 * a →
      place (inPos width.toInt line o) = (line * (4 * a) + o : ℕ) :=
    fun line o hline ho => (e.inPos_lt hline ho).2
  have hpixel : ∀ line c, line < 2 * b → c < 2 * a →
      place (outPos width.toInt line c) = (line * (2 * a) + c : ℕ) :=
    fun line c hline hc => (e.outPos_lt hline hc).2
  -- the byte of a pixel is at twice its position
  have hfirst : ∀ line : ℕ,
      ((line * (4 * a) + 4 * t : ℕ) : ℤ) = 2 * (line * (2 * a) + 2 * t : ℕ) := by
    intro line
    push_cast
    ring
  have hsecond : ∀ line : ℕ,
      ((line * (4 * a) + (4 * t + 2) : ℕ) : ℤ) = 2 * (line * (2 * a) + (2 * t + 1) : ℕ) := by
    intro line
    push_cast
    ring
  obtain ⟨-, hu, hv⟩ := e.chroma_lt hr ht
  rw [pairWrites, hu, hv, hpixel (2 * r) (2 * t) (by omega) (by omega),
    hpixel (2 * r) (2 * t + 1) (by omega) (by omega),
    hpixel (2 * r + 1) (2 * t) (by omega) (by omega),
    hpixel (2 * r + 1) (2 * t + 1) (by omega) (by omega),
    hread (2 * r) (4 * t) (by omega) (by omega), hread (2 * r) (4 * t + 1) (by omega) (by omega),
    hread (2 * r) (4 * t + 2) (by omega) (by omega),
    hread (2 * r) (4 * t + 3) (by omega) (by omega),
    hread (2 * r + 1) (4 * t) (by omega) (by omega),
    hread (2 * r + 1) (4 * t + 1) (by omega) (by omega),
    hread (2 * r + 1) (4 * t + 2) (by omega) (by omega),
    hread (2 * r + 1) (4 * t + 3) (by omega) (by omega), hfirst, hfirst, hsecond, hsecond]
  rfl

/-- **The writes of an image**: a pixel of some line, or a byte of a chroma
plane. -/
theorem mem_writes_iff (e : Exact width height a b) (inbuf : Mem) :
    w ∈ (yuv422ToYuv420 inbuf width height).writes ↔
      (∃ line < 2 * b, ∃ c < 2 * a, w = yWrite inbuf a line c) ∨
        (∃ q < b, ∃ p < a, w = uWrite inbuf a b q p) ∨
          ∃ q < b, ∃ p < a, w = vWrite inbuf a b q p := by
  rw [mem_writes, e.rows, e.cols]
  constructor
  · rintro ⟨r, hr, t, ht, hw⟩
    rw [e.pairWrites_eq hr ht] at hw
    simp only [List.mem_cons, List.not_mem_nil, or_false] at hw
    rcases hw with rfl | rfl | rfl | rfl | rfl | rfl
    · exact Or.inl ⟨_, by omega, _, by omega, rfl⟩
    · exact Or.inl ⟨_, by omega, _, by omega, rfl⟩
    · exact Or.inl ⟨_, by omega, _, by omega, rfl⟩
    · exact Or.inl ⟨_, by omega, _, by omega, rfl⟩
    · exact Or.inr (Or.inl ⟨r, hr, t, ht, rfl⟩)
    · exact Or.inr (Or.inr ⟨r, hr, t, ht, rfl⟩)
  · rintro (⟨line, hline, c, hc, rfl⟩ | ⟨q, hq, p, hp, rfl⟩ | ⟨q, hq, p, hp, rfl⟩)
    · have hr : line / 2 < b := by omega
      have ht : c / 2 < a := by omega
      refine ⟨line / 2, hr, c / 2, ht, ?_⟩
      rw [e.pairWrites_eq hr ht]
      simp only [List.mem_cons, List.not_mem_nil, or_false]
      obtain hl | hl : line = 2 * (line / 2) ∨ line = 2 * (line / 2) + 1 := by omega
      · obtain hc' | hc' : c = 2 * (c / 2) ∨ c = 2 * (c / 2) + 1 := by omega
        · exact Or.inl (by rw [← hl, ← hc'])
        · exact Or.inr (Or.inl (by rw [← hl, ← hc']))
      · obtain hc' | hc' : c = 2 * (c / 2) ∨ c = 2 * (c / 2) + 1 := by omega
        · exact Or.inr (Or.inr (Or.inl (by rw [← hl, ← hc'])))
        · exact Or.inr (Or.inr (Or.inr (Or.inl (by rw [← hl, ← hc']))))
    · refine ⟨q, hq, p, hp, ?_⟩
      rw [e.pairWrites_eq hq hp]
      simp
    · refine ⟨q, hq, p, hp, ?_⟩
      rw [e.pairWrites_eq hq hp]
      simp

/-- **The reads of an image** are inside it. -/
theorem reads_lt (e : Exact width height a b)
    (hx : x ∈ (yuv422ToYuv420 inbuf width height).reads) : 0 ≤ x ∧ x < 8 * (a * b : ℕ) := by
  rw [mem_reads, e.rows, e.cols] at hx
  obtain ⟨line, hline, o, ho, rfl⟩ := hx
  obtain ⟨hlt, hplace⟩ := e.inPos_lt hline ho
  rw [hplace]
  omega

/-- Each place of the output is that of some write. -/
theorem exists_write (e : Exact width height a b) (h0 : 0 ≤ x) (hx : x < 6 * (a * b : ℕ)) :
    x ∈ ((yuv422ToYuv420 inbuf width height).writes.map Write.index) := by
  obtain ⟨n, rfl⟩ := Int.eq_ofNat_of_zero_le h0
  have hpos := e.pos_a
  have harea : b * a = a * b := Nat.mul_comm b a
  have hmod : ∀ k, k % a < a := fun k => Nat.mod_lt k hpos
  have hline : ∀ k, k < a * b → k / a < b := fun k hk => Nat.div_lt_of_lt_mul hk
  rcases Nat.lt_or_ge n (4 * (a * b)) with hy | hy
  · have hdiv : n / (2 * a) < 2 * b := Nat.div_lt_of_lt_mul (by
      rw [show 2 * a * (2 * b) = 4 * (a * b) by ring]
      exact hy)
    refine List.mem_map.mpr ⟨_, (e.mem_writes_iff inbuf).mpr (Or.inl ⟨_, hdiv, n % (2 * a),
      Nat.mod_lt _ (by omega), rfl⟩), ?_⟩
    change ((n / (2 * a) * (2 * a) + n % (2 * a) : ℕ) : ℤ) = n
    rw [Nat.div_add_mod']
  · rcases Nat.lt_or_ge n (5 * (a * b)) with hu | hu
    · refine List.mem_map.mpr ⟨_, (e.mem_writes_iff inbuf).mpr (Or.inr (Or.inl
        ⟨_, hline (n - 4 * (a * b)) (by omega), _, hmod (n - 4 * (a * b)), rfl⟩)), ?_⟩
      change ((4 * (a * b) + ((n - 4 * (a * b)) / a * a + (n - 4 * (a * b)) % a) : ℕ) : ℤ) = n
      rw [Nat.div_add_mod']
      omega
    · refine List.mem_map.mpr ⟨_, (e.mem_writes_iff inbuf).mpr (Or.inr (Or.inr
        ⟨_, hline (n - 5 * (a * b)) (by omega), _, hmod (n - 5 * (a * b)), rfl⟩)), ?_⟩
      change ((5 * (a * b) + ((n - 5 * (a * b)) / a * a + (n - 5 * (a * b)) % a) : ℕ) : ℤ) = n
      rw [Nat.div_add_mod']
      omega

/-- **Each place of the output is written once**, and nothing else is. -/
theorem count_writes (e : Exact width height a b) (x : ℤ) :
    ((yuv422ToYuv420 inbuf width height).writes.map Write.index).count x =
      if 0 ≤ x ∧ x < (6 * (a * b) : ℕ) then 1 else 0 := by
  refine count_of_mem_of_length (fun i h0 hi => e.exists_write h0 (by omega)) ?_ x
  rw [List.length_map, length_writes, e.rows, e.cols]
  ring

end Exact

/-! ## What is left in the output -/

/-- A write whose place no other write names is what is left there. -/
theorem store_index (hw : w ∈ ws) (hnodup : (ws.map Write.index).Nodup) :
    store m ws w.index = w.value := by
  induction ws using List.reverseRecOn with
  | nil => exact absurd hw List.not_mem_nil
  | append_singleton ws w' ih =>
    rw [store, List.foldl_append]
    change (store m ws).set w'.index w'.value w.index = w.value
    rw [List.map_append, List.nodup_append] at hnodup
    rcases List.mem_append.mp hw with hmem | hmem
    · have hne : w.index ≠ w'.index :=
        hnodup.2.2 _ (List.mem_map_of_mem hmem) _ (List.mem_singleton.mpr rfl)
      rw [Mem.set, Function.update_of_ne hne]
      exact ih hmem hnodup.1
    · obtain rfl := List.mem_singleton.mp hmem
      exact Function.update_self _ _ _

/-- The mean of two bytes is a byte. -/
theorem toNat_mean (c d : UInt8) : (mean c d).toNat = (c.toNat + d.toNat) / 2 := by
  have hc := c.toNat_lt
  have hd := d.toNat_lt
  rw [mean, UInt8.toNat_ofNat_of_lt' (by change _ < 256; omega)]

/-- The chroma of two lines, in terms of the width. -/
theorem toNat_chroma (inbuf : Mem) (a q p o : ℕ) : (chroma inbuf a q (4 * p + o)).toNat =
    ((inbuf (4 * q * (2 * a) + 4 * p + o : ℕ)).toNat +
      (inbuf ((4 * q + 2) * (2 * a) + 4 * p + o : ℕ)).toNat) / 2 := by
  have hfirst : 2 * q * (4 * a) + (4 * p + o) = 4 * q * (2 * a) + 4 * p + o := by ring
  have hsecond : (2 * q + 1) * (4 * a) + (4 * p + o) = (4 * q + 2) * (2 * a) + 4 * p + o := by ring
  rw [chroma, toNat_mean, hfirst, hsecond]

/-- 4:2:0: each pixel's luma, and for every four pixels the mean of the
chroma of their two lines, in three planes. -/
structure Converted (inbuf outbuf : Mem) (W H : ℕ) : Prop where
  y : ∀ r < H, ∀ c < W, outbuf (r * W + c : ℕ) = inbuf (2 * (r * W + c) : ℕ)
  u : ∀ q < H / 2, ∀ p < W / 2, (outbuf (W * H + q * (W / 2) + p : ℕ)).toNat =
    ((inbuf (4 * q * W + 4 * p + 1 : ℕ)).toNat +
      (inbuf ((4 * q + 2) * W + 4 * p + 1 : ℕ)).toNat) / 2
  v : ∀ q < H / 2, ∀ p < W / 2, (outbuf (5 * W * H / 4 + q * (W / 2) + p : ℕ)).toNat =
    ((inbuf (4 * q * W + 4 * p + 3 : ℕ)).toNat +
      (inbuf ((4 * q + 2) * W + 4 * p + 3 : ℕ)).toNat) / 2

namespace Exact

/-- What a write of the image leaves in the output. -/
theorem store_write (e : Exact width height a b)
    (hw : w ∈ (yuv422ToYuv420 inbuf width height).writes) :
    store m (yuv422ToYuv420 inbuf width height).writes w.index = w.value := by
  refine store_index hw (List.nodup_iff_count_le_one.mpr fun x => ?_)
  rw [e.count_writes]
  split
  · exact le_refl 1
  · exact Nat.zero_le 1

/-- **The conversion is exact.** -/
theorem converted (e : Exact width height a b) (m inbuf : Mem) :
    Converted inbuf (store m (yuv422ToYuv420 inbuf width height).writes) (2 * a) (2 * b) where
  y := by
    intro r hr c hc
    have hw := e.store_write (m := m) ((e.mem_writes_iff inbuf).mpr
      (Or.inl ⟨r, hr, c, hc, rfl⟩))
    rw [Nat.cast_mul]
    exact hw
  u := by
    intro q hq p hp
    rw [Nat.mul_div_cancel_left _ two_pos] at hq hp ⊢
    have hw := e.store_write (m := m) ((e.mem_writes_iff inbuf).mpr
      (Or.inr (Or.inl ⟨q, hq, p, hp, rfl⟩)))
    have hindex : 2 * a * (2 * b) + q * a + p = 4 * (a * b) + (q * a + p) := by ring
    rw [hindex, ← toNat_chroma]
    exact congrArg UInt8.toNat hw
  v := by
    intro q hq p hp
    rw [Nat.mul_div_cancel_left _ two_pos] at hq hp
    have hw := e.store_write (m := m) ((e.mem_writes_iff inbuf).mpr
      (Or.inr (Or.inr ⟨q, hq, p, hp, rfl⟩)))
    have harea : 5 * (2 * a) * (2 * b) = 4 * (5 * (a * b)) := by ring
    have hindex : 5 * (2 * a) * (2 * b) / 4 + q * (2 * a / 2) + p =
        5 * (a * b) + (q * a + p) := by
      rw [harea, Nat.mul_div_cancel_left _ four_pos, Nat.mul_div_cancel_left _ two_pos, add_assoc]
    rw [hindex, ← toNat_chroma]
    exact congrArg UInt8.toNat hw

end Exact

variable {malloc : Bool} {mallocDst : Option Mem} {param : CvtParam} {h : CvtHandle}

/-! ## `convert_open` -/

/-- A product of two `int`s is computed where it is an `int`. -/
theorem mulInt_ok_iff {a b c : Int32} : mulInt a b = .ok c ↔ c.toInt = a.toInt * b.toInt := by
  unfold mulInt
  constructor
  · intro hc
    split at hc
    · next hrange =>
      obtain rfl := Except.ok.inj hc
      rw [Int32.toInt_mul]
      exact Int.bmod_eq_of_le (by omega) (by omega)
    · exact absurd hc (by simp)
  · intro hc
    have hle := c.le_toInt
    have hlt := c.toInt_lt
    rw [if_pos ⟨by omega, by omega⟩, ← Int32.ofInt_toInt a, ← Int32.ofInt_toInt b,
      ← Int32.ofInt_mul, ← hc, Int32.ofInt_toInt]

/-- What `convert_open` accepts, and the sizes it computes. -/
structure Opened (param : CvtParam) (h : CvtHandle) : Prop where
  params : h.params = param
  size : 16 * (param.inwidth.toInt * param.inheight.toInt) < 2 ^ 31
  src : h.srcBuffersize.toInt = 2 * (param.inwidth.toInt * param.inheight.toInt)
  dst : h.dstBuffersize.toInt = (12 * (param.inwidth.toInt * param.inheight.toInt)).tdiv 8

/-- A size in bytes, from one in bits. -/
theorem toInt_div_eight (bits : Int32) : (bits / 8).toInt = bits.toInt.tdiv 8 := by
  rw [Int32.toInt_div_of_ne_right _ _ (by decide)]
  rfl

/-- **A handle has exact sizes.** -/
theorem opened_of_convertOpen (hopen : convertOpen malloc mallocDst param = .ok (some h)) :
    Opened param h := by
  unfold convertOpen at hopen
  split at hopen
  · exact absurd hopen (by simp)
  · split at hopen
    · exact absurd hopen (by simp)
    · split at hopen
      · exact absurd hopen (by simp)
      · next hsame =>
        obtain ⟨hw, hh⟩ := not_or.mp hsame
        obtain ⟨inArea, hin, hopen⟩ := bind_eq_ok hopen
        obtain ⟨srcBits, hsrc, hopen⟩ := bind_eq_ok hopen
        obtain ⟨outArea, hout, hopen⟩ := bind_eq_ok hopen
        obtain ⟨dstBits, hdst, hopen⟩ := bind_eq_ok hopen
        rw [mulInt_ok_iff] at hin hsrc hout hdst
        rw [← not_not.mp hw, ← not_not.mp hh] at hout
        have hsixteen : (16 : Int32).toInt = 16 := rfl
        have htwelve : (12 : Int32).toInt = 12 := rfl
        rw [hin, hsixteen, Int.mul_comm _ 16] at hsrc
        rw [hout, htwelve, Int.mul_comm _ 12] at hdst
        have hlt := srcBits.toInt_lt
        split at hopen
        · exact absurd hopen (by simp [pure, Except.pure])
        · obtain rfl := Option.some.inj (Except.ok.inj hopen)
          refine ⟨rfl, by omega, ?_, ?_⟩
          · change (srcBits / 8).toInt = _
            have hbytes : 16 * (param.inwidth.toInt * param.inheight.toInt) =
                8 * (2 * (param.inwidth.toInt * param.inheight.toInt)) := by ring
            rw [toInt_div_eight, hsrc, hbytes, Int.mul_tdiv_cancel_left _ (by decide)]
          · change (dstBits / 8).toInt = _
            rw [toInt_div_eight, hdst]

/-- A call that is not refused opens a handle, if the products are `int`s. -/
theorem exists_opened (hopen : convertOpen malloc mallocDst param ≠ .ok none)
    (h0 : 0 ≤ param.inwidth.toInt * param.inheight.toInt)
    (hsize : 16 * (param.inwidth.toInt * param.inheight.toInt) < 2 ^ 31) :
    ∃ h, convertOpen malloc mallocDst param = .ok (some h) := by
  have hmul : ∀ {a b : Int32}, 0 ≤ a.toInt * b.toInt → a.toInt * b.toInt < 2 ^ 31 →
      ∃ c, mulInt a b = .ok c ∧ c.toInt = a.toInt * b.toInt :=
    fun {a b} h0 hlt => ⟨_, if_pos ⟨by omega, hlt⟩, mulInt_ok_iff.mp (if_pos ⟨by omega, hlt⟩)⟩
  have hsixteen : (16 : Int32).toInt = 16 := rfl
  have htwelve : (12 : Int32).toInt = 12 := rfl
  obtain ⟨area, harea, hexact⟩ := hmul h0 (by omega)
  obtain ⟨srcBits, hsrc, -⟩ : ∃ c, mulInt area 16 = .ok c ∧ _ :=
    hmul (by rw [hsixteen]; omega) (by rw [hsixteen]; omega)
  obtain ⟨dstBits, hdst, -⟩ : ∃ c, mulInt area 12 = .ok c ∧ _ :=
    hmul (by rw [htwelve]; omega) (by rw [htwelve]; omega)
  unfold convertOpen at hopen ⊢
  split at hopen
  · exact absurd rfl hopen
  · rw [if_neg ‹_›]
    split at hopen
    · exact absurd rfl hopen
    · rw [if_neg ‹_›]
      split at hopen
      · exact absurd rfl hopen
      · next hsame =>
        obtain ⟨hw, hh⟩ := not_or.mp hsame
        rw [if_neg hsame]
        rw [← not_not.mp hw, ← not_not.mp hh, harea] at hopen ⊢
        simp only [bind, Except.bind, hsrc, hdst] at hopen ⊢
        cases mallocDst with
        | none => exact absurd rfl hopen
        | some dstBuffer => exact ⟨_, rfl⟩

/-- A call with an input of the right size converts it. -/
theorem convertDo_of_eq (inbuf : Mem) : convertDo h inbuf h.srcBuffersize =
    .ok (let scan := yuv422ToYuv420 inbuf h.params.inwidth h.params.inheight
      ⟨{ h with dstBuffer := store h.dstBuffer scan.writes }, store h.dstBuffer scan.writes,
        h.dstBuffersize, scan⟩) := by
  rw [convertDo, if_neg (not_not.mpr rfl)]

/-- **The software converter computes 4:2:0 exactly**: each place of the
output is written once and no other is, nothing outside the input is read,
and the planes are those of the input. -/
theorem convertDo_exact {W H : ℕ} {isize : Int32}
    (hopen : convertOpen malloc mallocDst param = .ok (some h)) (hwidth : param.inwidth.toInt = W)
    (hheight : param.inheight.toInt = H) (hW : Even W) (hH : Even H) (hW0 : 0 < W) (hH0 : 0 < H)
    (hsize : 16 * W * H < 2 ^ 31) (hisize : isize.toInt = (2 * W * H : ℕ)) (inbuf : Mem) :
    ∃ r, convertDo h inbuf isize = .ok r ∧ r.osize.toInt = (3 * W * H / 2 : ℕ) ∧
      (∀ x : ℤ, (r.scan.writes.map Write.index).count x =
        if 0 ≤ x ∧ x < (3 * W * H / 2 : ℕ) then 1 else 0) ∧
      (∀ x ∈ r.scan.reads, 0 ≤ x ∧ x < (2 * W * H : ℕ)) ∧ Converted inbuf r.outbuf W H := by
  obtain ⟨a, rfl⟩ := even_iff_exists_two_mul.mp hW
  obtain ⟨b, rfl⟩ := even_iff_exists_two_mul.mp hH
  obtain ⟨rfl, -, hsrc, hdst⟩ := opened_of_convertOpen hopen
  have e := exact_of_toInt hwidth hheight hW0 hH0 (by rw [← Nat.mul_assoc]; exact hsize)
  have hin : 2 * (2 * a) * (2 * b) = 8 * (a * b) := by ring
  have hout : 3 * (2 * a) * (2 * b) / 2 = 6 * (a * b) := by
    rw [show 3 * (2 * a) * (2 * b) = 2 * (6 * (a * b)) by ring, Nat.mul_div_cancel_left _ two_pos]
  obtain rfl : isize = h.srcBuffersize := by
    refine Int32.toInt_inj.mp ?_
    rw [hisize, hsrc, e.area, hin]
    push_cast
    ring
  refine ⟨_, convertDo_of_eq inbuf, ?_, ?_, ?_, e.converted h.dstBuffer inbuf⟩
  · change h.dstBuffersize.toInt = _
    have hbytes : 12 * (4 * ((a * b : ℕ) : ℤ)) = 8 * (6 * (a * b : ℕ)) := by ring
    rw [hdst, e.area, hbytes, Int.mul_tdiv_cancel_left _ (by decide), hout, Nat.cast_mul 6]
    rfl
  · rw [hout]
    exact e.count_writes
  · rw [hin]
    intro x hx
    have hlt := e.reads_lt hx
    push_cast
    exact hlt

/-- An image of 4 by 2 pixels. -/
theorem convertDo_exact_small : ∃ h r,
    convertOpen true (some fun _ => 0) ⟨4, 2, v4l2PixFmtYuyv, 4, 2, v4l2PixFmtYuv420⟩ =
      .ok (some h) ∧
    convertDo h (fun x => UInt8.ofInt (3 * x)) 16 = .ok r ∧ r.osize.toInt = 12 ∧
      Converted (fun x => UInt8.ofInt (3 * x)) r.outbuf 4 2 := by
  obtain ⟨h, hopen⟩ : ∃ h, convertOpen true (some fun _ => 0)
      ⟨4, 2, v4l2PixFmtYuyv, 4, 2, v4l2PixFmtYuv420⟩ = .ok (some h) := ⟨_, rfl⟩
  have hsixteen : (16 : Int32).toInt = (2 * 4 * 2 : ℕ) := by decide
  obtain ⟨r, hr, hosize, -, -, hconverted⟩ := convertDo_exact (W := 4) (H := 2) hopen rfl rfl
    (by decide) (by decide) (by decide) (by decide) (by decide) hsixteen
    (fun x => UInt8.ofInt (3 * x))
  exact ⟨h, r, hopen, hr, hosize, hconverted⟩

end SoftConvert

end Camkit
