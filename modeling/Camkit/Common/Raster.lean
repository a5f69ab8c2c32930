import Camkit.Common.Loop
import Camkit.Common.Memory
/-!
# Rasters

An image is a memory that keeps its rows one behind the other. A stamp is
a block of pixels written to one, row by row, and what a pixel reads after
it depends on where the pixel lies in the block. Of an image enlarged by a
whole factor, a stamp enlarged as much is the enlargement of the image
stamped.
-/

namespace Camkit

/-- A memory with a list of bytes set in turn. -/
def Mem.setAll (m : Mem) (l : List (ℤ × UInt8)) : Mem := l.foldl (fun m w => m.set w.1 w.2) m

@[simp] theorem Mem.setAll_nil {m : Mem} : m.setAll [] = m := rfl

theorem Mem.setAll_append {m : Mem} {l₁ l₂ : List (ℤ × UInt8)} :
    m.setAll (l₁ ++ l₂) = (m.setAll l₁).setAll l₂ :=
  List.foldl_append

namespace Raster

/-- The place of a pixel in an image of `W` columns. -/
def cell (W r c : ℕ) : ℤ := (r * W + c : ℕ)

/-- `w` pixels written from a place on, `ink` being what each is set to,
if it is. -/
def run (ink : ℕ → Option UInt8) (a : ℤ) (w : ℕ) : List (ℤ × UInt8) :=
  logged (fun j => ((ink j).map fun v => (a + j, v)).toList) w

/-- `h` rows of as many, each a row of the image below the one before. -/
def stamp (ink : ℕ → ℕ → Option UInt8) (W : ℕ) (a : ℤ) (h w : ℕ) : List (ℤ × UInt8) :=
  logged (fun i => run (ink i) (a + i * W) w) h

/-- An image enlarged: every pixel of `small` is `k` by `k` pixels of `big`. -/
def Enlarges (k W H : ℕ) (small big : Mem) : Prop :=
  ∀ r < k * H, ∀ c < k * W, big (cell (k * W) r c) = small (cell W (r / k) (c / k))

variable {ink' : ℕ → ℕ → Option UInt8} {m small big : Mem} {a x : ℤ}
  {k W H h w r r₀ c c₀ : ℕ}

/-! ## What a pixel reads -/

/-- One pixel, set or left as it is. -/
theorem setAll_pixel {o : Option UInt8} :
    m.setAll (o.map fun v => (a, v)).toList x = if x = a then o.getD (m x) else m x := by
  cases o with
  | none => exact (ite_self _).symm
  | some v =>
    change m.set a v x = if x = a then v else m x
    split
    · next h => rw [h, Mem.set_self]
    · next h => exact Mem.set_of_ne h

theorem setAll_run {ink : ℕ → Option UInt8} : m.setAll (run ink a w) x =
    if a ≤ x ∧ x < a + w then (ink (x - a).toNat).getD (m x) else m x := by
  induction w with
  | zero => rw [run, logged_zero, Mem.setAll_nil, if_neg (by omega)]
  | succ w ih =>
    rw [run] at ih
    rw [run, logged_succ, Mem.setAll_append, setAll_pixel, ih]
    by_cases hx : x = a + w
    · rw [if_pos hx, if_neg (by omega), if_pos (by omega), show (x - a).toNat = w by omega]
    · rw [if_neg hx]
      refine if_congr ?_ rfl rfl
      omega

/-- A run that ends in its row meets that row and no other. -/
theorem cell_mem_run (hw : c₀ + w ≤ W) (hc : c < W) :
    (cell W r₀ c₀ ≤ cell W r c ∧ cell W r c < cell W r₀ c₀ + w) ↔
      r = r₀ ∧ c₀ ≤ c ∧ c < c₀ + w := by
  rw [cell, cell]
  rcases lt_trichotomy r r₀ with h | rfl | h
  · have := Nat.mul_le_mul_right W (Nat.succ_le_of_lt h)
    rw [Nat.succ_mul] at this
    omega
  · omega
  · have := Nat.mul_le_mul_right W (Nat.succ_le_of_lt h)
    rw [Nat.succ_mul] at this
    omega

/-- **A stamp sets the pixels it covers**, and no others. -/
theorem setAll_stamp {ink : ℕ → ℕ → Option UInt8} (hw : c₀ + w ≤ W) (hc : c < W) :
    m.setAll (stamp ink W (cell W r₀ c₀) h w) (cell W r c) =
      if (r₀ ≤ r ∧ r < r₀ + h) ∧ c₀ ≤ c ∧ c < c₀ + w then
        (ink (r - r₀) (c - c₀)).getD (m (cell W r c))
      else m (cell W r c) := by
  induction h with
  | zero => rw [stamp, logged_zero, Mem.setAll_nil, if_neg (by omega)]
  | succ h ih =>
    have hrow : cell W r₀ c₀ + (h : ℤ) * W = cell W (r₀ + h) c₀ := by
      rw [cell, cell]
      push_cast
      ring
    have hcol : r = r₀ + h → c₀ ≤ c →
        (cell W r c - cell W (r₀ + h) c₀).toNat = c - c₀ := by
      rintro rfl hle
      rw [cell, cell]
      omega
    rw [stamp] at ih
    rw [stamp, logged_succ, Mem.setAll_append, hrow, setAll_run, ih]
    by_cases hr : r = r₀ + h
    · by_cases hin : c₀ ≤ c ∧ c < c₀ + w
      · rw [if_pos ((cell_mem_run hw hc).mpr ⟨hr, hin⟩), if_neg (by omega), if_pos (by omega),
          hcol hr hin.1, show r - r₀ = h by omega]
      · rw [if_neg fun hm => hin ((cell_mem_run hw hc).mp hm).2, if_neg (by omega),
          if_neg (by omega)]
    · rw [if_neg fun hm => hr ((cell_mem_run hw hc).mp hm).1]
      refine if_congr ?_ rfl rfl
      omega

/-! ## Enlargement -/

/-- The rows, or the columns, an enlarged block covers are those it covers
before. -/
theorem enlarged_mem_iff (hk : 0 < k) :
    (k * r₀ ≤ r ∧ r < k * r₀ + k * h) ↔ r₀ ≤ r / k ∧ r / k < r₀ + h := by
  rw [Nat.le_div_iff_mul_le hk, Nat.div_lt_iff_lt_mul hk, Nat.mul_comm r₀ k, ← Nat.mul_add,
    Nat.mul_comm (r₀ + h) k]

/-- **An enlarged stamp enlarges the image stamped.** -/
theorem Enlarges.stamp {ink : ℕ → ℕ → Option UInt8} (hk : 0 < k)
    (hink : ∀ i, ∀ j < k * w, ink' i j = ink (i / k) (j / k)) (hw : c₀ + w ≤ W)
    (he : Enlarges k W H small big) :
    Enlarges k W H (small.setAll (stamp ink W (cell W r₀ c₀) h w))
      (big.setAll (stamp ink' (k * W) (cell (k * W) (k * r₀) (k * c₀)) (k * h) (k * w))) := by
  intro r hr c hc
  have hw' : k * c₀ + k * w ≤ k * W := by
    rw [← Nat.mul_add]
    exact Nat.mul_le_mul_left k hw
  rw [setAll_stamp hw' hc, setAll_stamp hw (Nat.div_lt_of_lt_mul hc), he r hr c hc]
  by_cases hin : (k * r₀ ≤ r ∧ r < k * r₀ + k * h) ∧ k * c₀ ≤ c ∧ c < k * c₀ + k * w
  · rw [if_pos hin, if_pos ⟨(enlarged_mem_iff hk).mp hin.1, (enlarged_mem_iff hk).mp hin.2⟩,
      hink _ _ (by omega), Nat.sub_mul_div, Nat.sub_mul_div]
  · rw [if_neg hin, if_neg]
    exact fun h' => hin ⟨(enlarged_mem_iff hk).mpr h'.1, (enlarged_mem_iff hk).mpr h'.2⟩

/-- And so does one after the other. -/
theorem Enlarges.logged {f f' : ℕ → List (ℤ × UInt8)} (he : Enlarges k W H small big) (n : ℕ)
    (hstep : ∀ p < n, ∀ s b, Enlarges k W H s b →
      Enlarges k W H (s.setAll (f p)) (b.setAll (f' p))) :
    Enlarges k W H (small.setAll (logged f n)) (big.setAll (logged f' n)) := by
  induction n with
  | zero => exact he
  | succ n ih =>
    rw [logged_succ, logged_succ, Mem.setAll_append, Mem.setAll_append]
    exact hstep n (Nat.lt_succ_self n) _ _ (ih fun p hp => hstep p (Nat.lt_succ_of_lt hp))

end Raster

end Camkit
