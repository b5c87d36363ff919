import RkNand.Lib.Struct

/-!
# Stream ciphers

A cipher that adds a keystream to the data, byte by byte: the keystream comes from a state that
does not see the data.  Such a cipher is its own inverse, and a part of the data is enough to
encrypt that part.  The same holds of a cipher applied to the blocks of the data one by one, each
from the start, the last of them possibly short.
-/

namespace StreamCipher

section Stream

variable {σ : Type*} (next : σ → UInt8 × σ)

/-- Add the keystream from state `st` to the data. -/
def xorStream : σ → List UInt8 → List UInt8
  | _, [] => []
  | st, b :: bs => (b ^^^ (next st).1) :: xorStream (next st).2 bs

@[simp] theorem length_xorStream (st : σ) (data : List UInt8) :
    (xorStream next st data).length = data.length := by
  induction data generalizing st with
  | nil => rfl
  | cons b bs ih => simp [xorStream, ih]

theorem xorStream_xorStream (st : σ) (data : List UInt8) :
    xorStream next st (xorStream next st data) = data := by
  induction data generalizing st with
  | nil => rfl
  | cons b bs ih =>
    rw [xorStream, xorStream, ih, UInt8.xor_assoc, UInt8.xor_self, UInt8.xor_zero]

theorem take_xorStream (st : σ) (data : List UInt8) (n : ℕ) :
    (xorStream next st data).take n = xorStream next st (data.take n) := by
  induction data generalizing st n with
  | nil => simp [xorStream]
  | cons b bs ih =>
    cases n with
    | zero => rfl
    | succ n => simp [xorStream, ih]

/-- Each byte is added to the keystream byte of its own position, whatever the data. -/
theorem getElem?_xorStream (st : σ) (data : List UInt8) (k : ℕ) :
    (xorStream next st data)[k]?
      = data[k]?.map (· ^^^ (next ((fun st => (next st).2)^[k] st)).1) := by
  induction data generalizing st k with
  | nil => simp [xorStream]
  | cons b bs ih =>
    cases k with
    | zero => simp [xorStream]
    | succ k => simp [xorStream, ih, Function.iterate_succ_apply]

end Stream

section Blocks

variable (f : List UInt8 → List UInt8) (size : ℕ)

/-- Apply `f` to each block of `size` bytes of the data. -/
def blockwise (data : List UInt8) : List UInt8 :=
  (List.range ((data.length + (size - 1)) / size)).flatMap fun k =>
    f (Struct.slice data (k * size) (k * size + size))

theorem blockwise_nil (positive : 0 < size) : blockwise f size [] = [] := by
  have none : (([] : List UInt8).length + (size - 1)) / size = 0 :=
    Nat.div_eq_of_lt (by simp; omega)
  rw [blockwise, none, List.range_zero, List.flatMap_nil]

/-- The first block, and the blocks of the rest. -/
theorem blockwise_of_ne_nil (positive : 0 < size) (data : List UInt8) (nonempty : data ≠ []) :
    blockwise f size data = f (data.take size) ++ blockwise f size (data.drop size) := by
  have long : 0 < data.length := List.length_pos_of_ne_nil nonempty
  have count : (data.length + (size - 1)) / size
      = ((data.drop size).length + (size - 1)) / size + 1 := by
    rw [List.length_drop, ← Nat.add_div_right _ positive]
    rcases Nat.le_total size data.length with whole | short
    · congr 1
      omega
    · rw [Nat.sub_eq_zero_of_le short, Nat.div_eq_of_lt_le (k := 1) (by omega) (by omega),
        Nat.div_eq_of_lt_le (k := 1) (by omega) (by omega)]
  rw [blockwise, count, List.range_succ_eq_map, List.flatMap_cons, List.flatMap_map, blockwise]
  congr 1
  · simp [Struct.slice]
  · apply List.flatMap_congr
    intro k _
    rw [Struct.slice_drop, show (k + 1) * size = size + k * size by ring, Nat.add_assoc]

variable {f} (same : ∀ data, (f data).length = data.length)
include same

theorem length_blockwise (positive : 0 < size) (data : List UInt8) :
    (blockwise f size data).length = data.length := by
  induction remaining : data.length using Nat.strong_induction_on generalizing data with
  | h n ih =>
    by_cases empty : data = []
    · subst empty
      simpa [blockwise_nil f size positive] using remaining
    · have long : 0 < data.length := List.length_pos_of_ne_nil empty
      rw [blockwise_of_ne_nil f size positive data empty, List.length_append, same,
        ih _ (by rw [List.length_drop]; omega) _ rfl, List.length_take, List.length_drop]
      omega

theorem blockwise_blockwise (positive : 0 < size) (inverse : ∀ data, f (f data) = data)
    (data : List UInt8) : blockwise f size (blockwise f size data) = data := by
  induction remaining : data.length using Nat.strong_induction_on generalizing data with
  | h n ih =>
    by_cases empty : data = []
    · rw [empty, blockwise_nil f size positive, blockwise_nil f size positive]
    · have long : 0 < data.length := List.length_pos_of_ne_nil empty
      have rest := ih _ (by rw [List.length_drop]; omega) (data.drop size) rfl
      have nonempty : f (data.take size) ++ blockwise f size (data.drop size) ≠ [] := by
        apply List.ne_nil_of_length_pos
        rw [List.length_append, same, List.length_take]
        omega
      rw [blockwise_of_ne_nil f size positive data empty,
        blockwise_of_ne_nil f size positive _ nonempty]
      -- a short block is the last one
      by_cases whole : size ≤ data.length
      · have first : (f (data.take size)).length = size := by
          rw [same, List.length_take, Nat.min_eq_left whole]
        rw [List.take_left' first, List.drop_left' first, inverse, rest, List.take_append_drop]
      · have last : data.drop size = [] := List.drop_eq_nil_of_le (by omega)
        have all : data.take size = data := List.take_of_length_le (by omega)
        have short : (f data).length ≤ size := by
          rw [same]
          omega
        rw [last, all, blockwise_nil f size positive, List.append_nil,
          List.take_of_length_le short, List.drop_eq_nil_of_le short, inverse,
          blockwise_nil f size positive, List.append_nil]

end Blocks

end StreamCipher
