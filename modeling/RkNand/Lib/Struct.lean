import Mathlib.Tactic

/-!
# Packed binary fields

Unsigned little-endian fields of any width in a byte buffer: packing one, writing it into a buffer
and reading it back.  The operations that have an error in the original interface return `none`
there: a value that does not fit its field, a field that does not fit the buffer.
-/

namespace Struct

/-- The `w` low bytes of a number, least significant first. -/
def leBytes : ℕ → ℕ → List UInt8
  | 0, _ => []
  | w + 1, n => UInt8.ofNat n :: leBytes w (n / 256)

/-- The number a little-endian byte string stands for. -/
def leNat : List UInt8 → ℕ
  | [] => 0
  | b :: bs => b.toNat + 256 * leNat bs

/-- The bytes from offset `a` up to offset `b`, as far as the buffer has them. -/
def slice (buf : List UInt8) (a b : ℕ) : List UInt8 := (buf.take b).drop a

/-- A field of `w` bytes. -/
def pack (w n : ℕ) : Option (List UInt8) := if n < 256 ^ w then some (leBytes w n) else none

/-- Write a field of `w` bytes into a buffer. -/
def packInto (w : ℕ) (buf : List UInt8) (off n : ℕ) : Option (List UInt8) :=
  if n < 256 ^ w ∧ off + w ≤ buf.length then
    some (buf.take off ++ leBytes w n ++ buf.drop (off + w))
  else none

/-- Read a field of `w` bytes from a buffer. -/
def unpackFrom (w : ℕ) (buf : List UInt8) (off : ℕ) : Option ℕ :=
  if off + w ≤ buf.length then some (leNat (slice buf off (off + w))) else none

/-! ## Numbers and bytes -/

@[simp] theorem length_leBytes (w n : ℕ) : (leBytes w n).length = w := by
  induction w generalizing n with
  | zero => rfl
  | succ w ih => simp [leBytes, ih]

theorem leNat_leBytes (w n : ℕ) (fits : n < 256 ^ w) : leNat (leBytes w n) = n := by
  induction w generalizing n with
  | zero =>
    rw [pow_zero] at fits
    simp only [leBytes, leNat]
    omega
  | succ w ih =>
    have high : n / 256 < 256 ^ w := by
      rw [pow_succ] at fits
      exact Nat.div_lt_of_lt_mul (by rwa [Nat.mul_comm])
    simp only [leBytes, leNat, ih _ high, UInt8.toNat_ofNat']
    omega

/-! ## Slices -/

theorem length_slice (buf : List UInt8) (a b : ℕ) (inside : b ≤ buf.length) :
    (slice buf a b).length = b - a := by
  simp [slice, inside]

/-- A part of a concatenation. -/
theorem slice_append (pre mid rest : List UInt8) :
    slice (pre ++ mid ++ rest) pre.length (pre.length + mid.length) = mid := by
  rw [slice, ← List.length_append, List.take_left, List.drop_left]

/-- A part before a concatenation's seam. -/
theorem slice_append_left (buf rest : List UInt8) (a b : ℕ) (before : b ≤ buf.length) :
    slice (buf ++ rest) a b = slice buf a b := by
  rw [slice, List.take_append_of_le_length before, slice]

theorem slice_drop (buf : List UInt8) (n a b : ℕ) :
    slice (buf.drop n) a b = slice buf (n + a) (n + b) := by
  rw [slice, slice, List.take_drop, List.drop_drop]

/-- Two buffers that agree on a range have the same slice there. -/
theorem slice_congr (buf buf' : List UInt8) (a b : ℕ)
    (agree : ∀ i, a ≤ i → i < b → buf[i]? = buf'[i]?) : slice buf a b = slice buf' a b := by
  apply List.ext_getElem?
  intro i
  rw [slice, slice, List.getElem?_drop, List.getElem?_drop, List.getElem?_take, List.getElem?_take]
  split
  · exact agree _ (by omega) (by assumption)
  · rfl

/-! ## Fields -/

theorem pack_eq_some (w n : ℕ) (fits : n < 256 ^ w) : pack w n = some (leBytes w n) := if_pos fits

theorem unpackFrom_append (w n : ℕ) (fits : n < 256 ^ w) (pre rest : List UInt8) :
    unpackFrom w (pre ++ leBytes w n ++ rest) pre.length = some n := by
  have inside : pre.length + w ≤ (pre ++ leBytes w n ++ rest).length := by simp
  have field := slice_append pre (leBytes w n) rest
  rw [length_leBytes] at field
  rw [unpackFrom, if_pos inside, field, leNat_leBytes w n fits]

/-- Two buffers of one length that agree on a field have the same value there. -/
theorem unpackFrom_congr (w off : ℕ) (buf buf' : List UInt8) (same : buf.length = buf'.length)
    (agree : ∀ i, off ≤ i → i < off + w → buf[i]? = buf'[i]?) :
    unpackFrom w buf off = unpackFrom w buf' off := by
  rw [unpackFrom, unpackFrom, same, slice_congr buf buf' _ _ agree]

/-- A field before a concatenation's seam. -/
theorem unpackFrom_append_left (w off : ℕ) (buf rest : List UInt8) (inside : off + w ≤ buf.length) :
    unpackFrom w (buf ++ rest) off = unpackFrom w buf off := by
  have longer : off + w ≤ (buf ++ rest).length := by
    rw [List.length_append]
    omega
  rw [unpackFrom, unpackFrom, if_pos inside, if_pos longer, slice_append_left _ _ _ _ inside]

/-- A field of the first part of a buffer. -/
theorem unpackFrom_take (w off n : ℕ) (buf : List UInt8) (before : off + w ≤ n)
    (inside : n ≤ buf.length) : unpackFrom w (buf.take n) off = unpackFrom w buf off := by
  conv_rhs => rw [← List.take_append_drop n buf]
  rw [unpackFrom_append_left w off _ _ (by rw [List.length_take]; omega)]

variable {w off n : ℕ} {buf buf' : List UInt8}

theorem packInto_eq_some (fits : n < 256 ^ w) (inside : off + w ≤ buf.length) :
    packInto w buf off n = some (buf.take off ++ leBytes w n ++ buf.drop (off + w)) :=
  if_pos ⟨fits, inside⟩

/-- What a write that succeeds has done. -/
theorem packInto_cases (written : packInto w buf off n = some buf') :
    n < 256 ^ w ∧ off + w ≤ buf.length ∧
      buf' = buf.take off ++ leBytes w n ++ buf.drop (off + w) := by
  rw [packInto] at written
  split at written
  · rename_i good
    exact ⟨good.1, good.2, (Option.some.inj written).symm⟩
  · cases written

theorem length_packInto (written : packInto w buf off n = some buf') :
    buf'.length = buf.length := by
  obtain ⟨-, inside, rfl⟩ := packInto_cases written
  simp
  omega

/-- The bytes of the field are those of the number. -/
theorem slice_packInto_self (written : packInto w buf off n = some buf') :
    slice buf' off (off + w) = leBytes w n := by
  obtain ⟨-, inside, rfl⟩ := packInto_cases written
  have start : (buf.take off).length = off := by simp; omega
  have field := slice_append (buf.take off) (leBytes w n) (buf.drop (off + w))
  rwa [start, length_leBytes] at field

/-- The field written reads back. -/
theorem unpackFrom_packInto (written : packInto w buf off n = some buf') :
    unpackFrom w buf' off = some n := by
  obtain ⟨fits, inside, -⟩ := packInto_cases written
  rw [unpackFrom, if_pos (by rw [length_packInto written]; exact inside),
    slice_packInto_self written, leNat_leBytes w n fits]

/-- Ranges apart from the field are as before. -/
theorem slice_packInto (written : packInto w buf off n = some buf') (a b : ℕ)
    (apart : b ≤ off ∨ off + w ≤ a) : slice buf' a b = slice buf a b := by
  obtain ⟨-, inside, rfl⟩ := packInto_cases written
  apply slice_congr
  intro i lower upper
  have start : (buf.take off).length = off := by simp; omega
  rcases apart with before | after
  · rw [List.append_assoc, List.getElem?_append_left (by omega), List.getElem?_take,
      if_pos (by omega)]
  · rw [List.getElem?_append_right (by simp; omega), List.getElem?_drop]
    congr 1
    simp only [List.length_append, start, length_leBytes]
    omega

/-- Fields apart from the one written are as before. -/
theorem unpackFrom_packInto_of_apart (written : packInto w buf off n = some buf') (v o : ℕ)
    (apart : o + v ≤ off ∨ off + w ≤ o) : unpackFrom v buf' o = unpackFrom v buf o := by
  rw [unpackFrom, unpackFrom, length_packInto written, slice_packInto written _ _ apart]

end Struct
