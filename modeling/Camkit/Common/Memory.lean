import Mathlib.Data.Int.Basic
import Mathlib.Logic.Function.Basic
import Mathlib.Tactic.Ring
/-!
# Byte memory

A memory is a map from addresses to bytes; a buffer is the stretch of one
from an address on. This file has the reads and the writes a program makes
to one — a run of bytes, a single byte, a bit field of a byte, a
little-endian number, a block copy — and what each read says after each
write.
-/

namespace Camkit

/-- A byte-addressed memory. -/
abbrev Mem : Type := ℤ → UInt8

/-- A pointer, `none` being the null pointer. -/
abbrev Ptr : Type := Option ℤ

/-- The address a pointer names. -/
def Ptr.addr (p : Ptr) : ℤ := p.getD 0

/-- A byte with its `width` bits from `low` on replaced by those of `v`,
which is how a bit field is assigned. -/
def setBits (b low width v : UInt8) : UInt8 :=
  let mask := ((1 <<< width) - 1) <<< low
  (b &&& ~~~mask) ||| ((v <<< low) &&& mask)

/-- The `n` low bytes of a number, the lowest first. -/
def leBytes (x : ℕ) : ℕ → List UInt8
  | 0 => []
  | n + 1 => UInt8.ofNat x :: leBytes (x / 256) n

namespace Mem

/-- The `n` bytes from address `a` on. -/
def bytes (m : Mem) (a : ℤ) : ℕ → List UInt8
  | 0 => []
  | n + 1 => m a :: bytes m (a + 1) n

/-- Write one byte. -/
def set (m : Mem) (a : ℤ) (b : UInt8) : Mem := Function.update m a b

/-- Set every byte of a block. -/
def fill (m : Mem) (a : ℤ) (n : ℕ) (b : UInt8) : Mem :=
  fun i => if a ≤ i ∧ i < a + n then b else m i

/-- Copy a block of `n` bytes, from address `s` of `src` to address `a`. -/
def copy (m : Mem) (a : ℤ) (src : Mem) (s : ℤ) (n : ℕ) : Mem :=
  fun i => if a ≤ i ∧ i < a + n then src (s + (i - a)) else m i

/-- Store a number in `n` bytes, its low byte first. -/
def storeLE (m : Mem) (a : ℤ) (n : ℕ) (x : ℕ) : Mem :=
  fun i => if a ≤ i ∧ i < a + n then UInt8.ofNat (x / 256 ^ (i - a).toNat) else m i

/-- The memory that holds a list from address `a` on, and zeros elsewhere. -/
def holding (a : ℤ) (l : List UInt8) : Mem := fun i => if i < a then 0 else l.getD (i - a).toNat 0

/-- Assign a bit field of one byte. -/
def setField (m : Mem) (a : ℤ) (low width v : UInt8) : Mem :=
  m.set a (setBits (m a) low width v)

end Mem

/-! ## Numbers -/

/-- An `int` that is not negative is kept where it is made unsigned. -/
theorem natCast_toNat_toUInt32 {x : Int32} (h : 0 ≤ x.toInt) :
    (x.toUInt32.toNat : ℤ) = x.toInt := by
  have hle : 0 ≤ x := Int32.le_iff_toInt_le.mpr h
  rw [Int32.toNat_toUInt32_of_le hle]
  exact Int.toNat_of_nonneg h


theorem leBytes_zero {n : ℕ} : leBytes 0 n = List.replicate n 0 := by
  induction n with
  | zero => rfl
  | succ n ih => rw [leBytes, Nat.zero_div, ih]; rfl

/-- The low byte of a number in Horner form is its last digit. -/
theorem leBytes_horner {a y n : ℕ} (ha : a < 256) :
    leBytes (y * 256 + a) (n + 1) = UInt8.ofNat a :: leBytes y n := by
  rw [leBytes, show (y * 256 + a) / 256 = y by omega, ← UInt8.ofNat_mod_size,
    show (y * 256 + a) % 2 ^ 8 = a by omega]

@[simp] theorem length_leBytes {x n : ℕ} : (leBytes x n).length = n := by
  induction n generalizing x with
  | zero => rfl
  | succ n ih => rw [leBytes, List.length_cons, ih]

/-- The bytes of a number, the lowest first. -/
theorem getElem?_leBytes {x n k : ℕ} (h : k < n) :
    (leBytes x n)[k]? = some (UInt8.ofNat (x / 256 ^ k)) := by
  induction n generalizing x k with
  | zero => omega
  | succ n ih =>
    rw [leBytes]
    cases k with
    | zero => simp
    | succ k => rw [List.getElem?_cons_succ, ih (by omega), Nat.div_div_eq_div_mul, pow_succ']

namespace Mem

variable {m m' : Mem} {a s i : ℤ} {n k : ℕ}

/-! ## Reading a run of bytes -/

@[simp] theorem bytes_zero : m.bytes a 0 = [] := rfl

theorem bytes_succ : m.bytes a (n + 1) = m a :: m.bytes (a + 1) n := rfl

@[simp] theorem length_bytes : (m.bytes a n).length = n := by
  induction n generalizing a with
  | zero => rfl
  | succ n ih => rw [bytes_succ, List.length_cons, ih]

/-- Bytes in two runs, one right behind the other. -/
theorem bytes_add : m.bytes a (n + k) = m.bytes a n ++ m.bytes (a + n) k := by
  induction n generalizing a with
  | zero => simp
  | succ n ih =>
    rw [show n + 1 + k = (n + k) + 1 by omega, bytes_succ, ih, bytes_succ, List.cons_append]
    congr 3
    push_cast
    ring

/-- Two lists lie in a memory one after the other. -/
theorem bytes_append {l₁ l₂ : List UInt8} : m.bytes a (l₁ ++ l₂).length = l₁ ++ l₂ ↔
    m.bytes a l₁.length = l₁ ∧ m.bytes (a + l₁.length) l₂.length = l₂ := by
  rw [List.length_append, bytes_add]
  constructor
  · exact fun h => List.append_inj h length_bytes
  · rintro ⟨h₁, h₂⟩
    rw [h₁, h₂]

/-- The first of them are the bytes from the same place. -/
theorem take_bytes (h : k ≤ n) : (m.bytes a n).take k = m.bytes a k := by
  obtain ⟨j, rfl⟩ := Nat.exists_eq_add_of_le h
  rw [bytes_add, List.take_left' length_bytes]

theorem bytes_isPrefix (h : k ≤ n) : m.bytes a k <+: m.bytes a n := by
  rw [← take_bytes h]
  exact List.take_prefix k _

/-- And what is behind those starts further on. -/
theorem drop_bytes (h : k ≤ n) : (m.bytes a n).drop k = m.bytes (a + k) (n - k) := by
  obtain ⟨j, rfl⟩ := Nat.exists_eq_add_of_le h
  rw [bytes_add, List.drop_left' length_bytes, Nat.add_sub_cancel_left]

/-- What is left of a list a memory holds is held further on. -/
theorem bytes_drop {l : List UInt8} (h : m.bytes a l.length = l) (hk : k ≤ l.length) :
    m.bytes (a + k) (l.drop k).length = l.drop k := by
  rw [List.length_drop, ← drop_bytes hk, h]

/-- The `k`-th byte is at `a + k`. -/
theorem getElem?_bytes (h : k < n) : (m.bytes a n)[k]? = some (m (a + k)) := by
  induction n generalizing a k with
  | zero => omega
  | succ n ih =>
    rw [bytes_succ]
    cases k with
    | zero => simp
    | succ k =>
      rw [List.getElem?_cons_succ, ih (by omega)]
      congr 2
      push_cast
      ring

/-- A stretch inside a stretch. -/
theorem bytes_infix {j : ℤ} (h₁ : a ≤ j) (h₂ : j + k ≤ a + n) : m.bytes j k <:+: m.bytes a n := by
  obtain ⟨x, rfl⟩ : ∃ x : ℕ, j = a + x := ⟨(j - a).toNat, by omega⟩
  obtain ⟨y, rfl⟩ : ∃ y : ℕ, n = x + k + y := ⟨n - x - k, by omega⟩
  rw [bytes_add, bytes_add]
  exact ⟨m.bytes a x, _, rfl⟩

theorem getLast?_bytes : (m.bytes a (n + 1)).getLast? = some (m (a + n)) := by
  rw [bytes_add, bytes_succ, bytes_zero, List.getLast?_append]
  rfl

/-- Two memories holding the same bytes at a stretch read alike there. -/
theorem bytes_congr (h : ∀ i, a ≤ i → i < a + n → m i = m' i) : m.bytes a n = m'.bytes a n := by
  induction n generalizing a with
  | zero => rfl
  | succ n ih =>
    rw [bytes_succ, bytes_succ, h a le_rfl (by omega),
      ih fun i h₁ h₂ => h i (by omega) (by push_cast; omega)]

/-- A run of one byte. -/
theorem bytes_eq_replicate {b : UInt8} (h : ∀ i, a ≤ i → i < a + n → m i = b) :
    m.bytes a n = List.replicate n b := by
  induction n generalizing a with
  | zero => rfl
  | succ n ih =>
    rw [bytes_succ, h a le_rfl (by omega), ih fun i h₁ h₂ => h i (by omega) (by push_cast; omega)]
    rfl

/-- And reading alike means holding the same bytes. -/
theorem eq_of_bytes_eq (h : m.bytes a n = m'.bytes a n) (h₁ : a ≤ i) (h₂ : i < a + n) :
    m i = m' i := by
  have hk : (i - a).toNat < n := by omega
  have hi : a + ((i - a).toNat : ℤ) = i := by omega
  have h₃ := getElem?_bytes (m := m) (a := a) hk
  rw [h, getElem?_bytes hk, hi] at h₃
  exact (Option.some.inj h₃).symm

/-- A memory that holds a list has its bytes. -/
theorem bytes_holding {l : List UInt8} : (holding a l).bytes a l.length = l := by
  refine List.ext_getElem? ?_
  intro k
  rcases Nat.lt_or_ge k l.length with h | h
  · rw [getElem?_bytes h, holding, if_neg (by omega), show (a + (k : ℤ) - a).toNat = k by omega,
      List.getD_eq_getElem?_getD, List.getElem?_eq_getElem h]
    rfl
  · rw [List.getElem?_eq_none (by simpa using h), List.getElem?_eq_none h]

/-! ## Reading after a write -/

@[simp] theorem set_self {b : UInt8} : m.set a b a = b := Function.update_self ..

/-- A byte that is set changes no other. -/
theorem set_of_ne {b : UInt8} (h : i ≠ a) : m.set a b i = m i := Function.update_of_ne h ..

@[simp] theorem setField_self {low width v : UInt8} :
    m.setField a low width v a = setBits (m a) low width v := set_self

/-- Nor does a bit field. -/
theorem setField_of_ne {low width v : UInt8} (h : i ≠ a) : m.setField a low width v i = m i :=
  set_of_ne h

/-- What `memset` fills. -/
theorem fill_of_mem {b : UInt8} (h₁ : a ≤ i) (h₂ : i < a + n) : m.fill a n b i = b :=
  if_pos ⟨h₁, h₂⟩

/-- A store leaves what is in front of it. -/
theorem storeLE_of_lt {x : ℕ} (h : i < a) : m.storeLE a n x i = m i := if_neg (by omega)

/-- And what is behind it. -/
theorem storeLE_of_ge {x : ℕ} (h : a + n ≤ i) : m.storeLE a n x i = m i := if_neg (by omega)

theorem copy_of_lt {src : Mem} (h : i < a) : m.copy a src s n i = m i := if_neg (by omega)

/-- A number stored is read back as its bytes. -/
theorem bytes_storeLE {x : ℕ} : (m.storeLE a n x).bytes a n = leBytes x n := by
  refine List.ext_getElem? ?_
  intro k
  rcases Nat.lt_or_ge k n with h | h
  · rw [getElem?_bytes h, getElem?_leBytes h]
    change some (if a ≤ a + (k : ℤ) ∧ a + (k : ℤ) < a + n then _ else _) = _
    rw [if_pos (by omega), show (a + (k : ℤ) - a).toNat = k by omega]
  · rw [List.getElem?_eq_none (by simpa using h), List.getElem?_eq_none (by simpa using h)]

/-- A block copied is the block read. -/
theorem bytes_copy {src : Mem} : (m.copy a src s n).bytes a n = src.bytes s n := by
  refine List.ext_getElem? ?_
  intro k
  rcases Nat.lt_or_ge k n with h | h
  · rw [getElem?_bytes h, getElem?_bytes h]
    change some (if a ≤ a + (k : ℤ) ∧ a + (k : ℤ) < a + n then _ else _) = _
    rw [if_pos (by omega), show s + (a + (k : ℤ) - a) = s + k by ring]
  · rw [List.getElem?_eq_none (by simpa using h), List.getElem?_eq_none (by simpa using h)]

end Mem

end Camkit
