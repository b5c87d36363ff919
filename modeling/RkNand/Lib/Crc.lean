import Mathlib.Data.List.GetD
import Mathlib.Tactic

/-!
# Shift registers

The register of a cyclic redundancy code, most significant bit first, of any width and feedback
polynomial.  One clock is linear in exclusive or, so the clocks of a value are those of its high
part, which decides the feedback, and a plain shift of the rest: what a table of the high parts
rests on (`iterate_clock_eq_table`).  With a polynomial whose lowest bit is set the clock is
injective, and the register tells apart any two data that differ within its width
(`foldl_feed_ne_of_burst`).
-/

namespace Crc

variable {w : ℕ} (poly : BitVec w)

/-- One clock of the register: the bit that leaves it decides whether the polynomial is added. -/
def clock (x : BitVec w) : BitVec w :=
  if x.msb then (x <<< 1) ^^^ poly else x <<< 1

theorem clock_xor (x y : BitVec w) : clock poly (x ^^^ y) = clock poly x ^^^ clock poly y := by
  simp only [clock, BitVec.msb_xor, BitVec.shiftLeft_xor_distrib]
  cases x.msb <;> cases y.msb
  · rfl
  · show (x <<< 1 ^^^ y <<< 1) ^^^ poly = x <<< 1 ^^^ (y <<< 1 ^^^ poly)
    rw [BitVec.xor_assoc]
  · show (x <<< 1 ^^^ y <<< 1) ^^^ poly = (x <<< 1 ^^^ poly) ^^^ y <<< 1
    ac_rfl
  · show x <<< 1 ^^^ y <<< 1 = (x <<< 1 ^^^ poly) ^^^ (y <<< 1 ^^^ poly)
    rw [show (x <<< 1 ^^^ poly) ^^^ (y <<< 1 ^^^ poly)
      = (x <<< 1 ^^^ y <<< 1) ^^^ (poly ^^^ poly) by ac_rfl, BitVec.xor_self, BitVec.xor_zero]

theorem iterate_clock_xor (n : ℕ) (x y : BitVec w) :
    (clock poly)^[n] (x ^^^ y) = (clock poly)^[n] x ^^^ (clock poly)^[n] y := by
  induction n generalizing x y with
  | zero => rfl
  | succ n ih => rw [Function.iterate_succ_apply, clock_xor, ih]; rfl

/-- A value whose `n` high bits are clear only moves up through `n` clocks. -/
theorem iterate_clock_of_clear (n : ℕ) (x : BitVec w)
    (clear : ∀ i, w ≤ i + n → x.getLsbD i = false) : (clock poly)^[n] x = x <<< n := by
  induction n generalizing x with
  | zero => simp
  | succ n ih =>
    have low : x.msb = false := by
      rw [BitVec.msb_eq_getLsbD_last]
      exact clear _ (by omega)
    have rest : ∀ i, w ≤ i + n → (x <<< 1).getLsbD i = false := by
      intro i hi
      rcases i with _ | i
      · simp
      · simp [clear i (by omega)]
    rw [Function.iterate_succ_apply, clock, if_neg (by simp [low]), ih _ rest, Nat.add_comm n 1,
      BitVec.shiftLeft_add]

/-- The high `n` bits of a value, in place. -/
def high (n : ℕ) (x : BitVec w) : BitVec w := (x >>> (w - n)) <<< (w - n)

theorem getLsbD_high (n : ℕ) (x : BitVec w) (i : ℕ) :
    (high n x).getLsbD i = (x.getLsbD i && decide (w ≤ i + n)) := by
  rw [high, BitVec.getLsbD_shiftLeft, BitVec.getLsbD_ushiftRight]
  by_cases below : i < w
  · by_cases inHigh : w - n ≤ i
    · have at_i : w - n + (i - (w - n)) = i := by omega
      simp [below, inHigh, at_i, show w ≤ i + n by omega]
    · simp [below, show i < w - n by omega, show ¬ w ≤ i + n by omega]
  · simp [below, BitVec.getLsbD_of_ge x i (by omega)]

/-- `n` clocks by table: the clocks of the high bits, and the rest moved up. -/
theorem iterate_clock_eq_table (n : ℕ) (x : BitVec w) :
    (clock poly)^[n] x = (clock poly)^[n] (high n x) ^^^ x <<< n := by
  have split : x = high n x ^^^ (x ^^^ high n x) := by
    rw [← BitVec.xor_assoc, BitVec.xor_comm (high n x) x, BitVec.xor_assoc, BitVec.xor_self,
      BitVec.xor_zero]
  have clear : ∀ i, w ≤ i + n → (x ^^^ high n x).getLsbD i = false := by
    intro i hi
    rw [BitVec.getLsbD_xor, getLsbD_high]
    simp [hi]
  have shifted : (x ^^^ high n x) <<< n = x <<< n := by
    apply BitVec.eq_of_getLsbD_eq
    intro i hi
    rw [BitVec.getLsbD_shiftLeft, BitVec.getLsbD_shiftLeft, BitVec.getLsbD_xor, getLsbD_high]
    by_cases below : i < n
    · simp [below]
    · simp [show ¬ w ≤ i - n + n by omega]
  conv_lhs => rw [split]
  rw [iterate_clock_xor, iterate_clock_of_clear poly n _ clear, shifted]

/-! ## A bit at a time -/

/-- A bit in the place of the highest. -/
def top (bit : Bool) : BitVec w := if bit then BitVec.twoPow w (w - 1) else 0#w

/-- One bit of data into the register. -/
def feed (x : BitVec w) (bit : Bool) : BitVec w := clock poly (x ^^^ top bit)

/-- Up to `w` bits of data, the first in the place of the highest. -/
def packed : List Bool → BitVec w
  | [] => 0#w
  | bit :: bits => top bit ^^^ packed bits >>> 1

theorem getLsbD_top (bit : Bool) (i : ℕ) :
    (top bit : BitVec w).getLsbD i = (bit && decide (i < w) && decide (i + 1 = w)) := by
  cases bit with
  | false => simp [top]
  | true =>
    rw [top, if_pos rfl, BitVec.getLsbD_twoPow]
    by_cases below : i < w
    · have last : w - 1 = i ↔ i + 1 = w := by omega
      simp [below, last, show w - 1 < w by omega]
    · simp only [below, decide_false, Bool.and_false, Bool.false_and, Bool.and_eq_false_iff,
        decide_eq_false_iff_not]
      omega

theorem getLsbD_packed (bits : List Bool) (i : ℕ) :
    (packed bits : BitVec w).getLsbD i = (decide (i < w) && bits.getD (w - 1 - i) false) := by
  induction bits generalizing i with
  | nil => simp [packed]
  | cons bit bits ih =>
    rw [packed, BitVec.getLsbD_xor, getLsbD_top, BitVec.getLsbD_ushiftRight, ih]
    by_cases below : i < w
    · by_cases last : i + 1 = w
      · simp [below, last, show w - 1 - i = 0 by omega, show ¬ 1 + i < w by omega]
      · simp [below, last, show w - 1 - i = (w - 1 - (1 + i)) + 1 by omega,
          show 1 + i < w by omega]
    · simp [below, show ¬ 1 + i < w by omega]

/-- A value with its lowest bit clear is the clock of its half. -/
theorem clock_ushiftRight_one (x : BitVec w) (clear : x.getLsbD 0 = false) :
    clock poly (x >>> 1) = x := by
  have low : (x >>> 1).msb = false := by
    rw [BitVec.msb_eq_getLsbD_last, BitVec.getLsbD_ushiftRight]
    exact BitVec.getLsbD_of_ge x _ (by omega)
  rw [clock, if_neg (by simp [low])]
  apply BitVec.eq_of_getLsbD_eq
  intro i hi
  rw [BitVec.getLsbD_shiftLeft, BitVec.getLsbD_ushiftRight]
  rcases i with _ | i
  · simp [clear]
  · simp [hi, Nat.add_comm 1 i]

/-- Up to `w` bits at once: they meet the high bits of the register, and the clocks follow. -/
theorem foldl_feed (bits : List Bool) (x : BitVec w) (fits : bits.length ≤ w) :
    bits.foldl (feed poly) x = (clock poly)^[bits.length] (x ^^^ packed bits) := by
  induction bits generalizing x with
  | nil => simp [packed]
  | cons bit bits ih =>
    rw [List.length_cons] at fits
    have clear : (packed bits : BitVec w).getLsbD 0 = false := by
      rw [getLsbD_packed, List.getD_eq_default _ _ (by omega), Bool.and_false]
    have step : feed poly x bit ^^^ packed bits
        = clock poly (x ^^^ (packed (bit :: bits) : BitVec w)) := by
      rw [packed, ← BitVec.xor_assoc, clock_xor, clock_ushiftRight_one poly _ clear, feed]
    rw [List.foldl_cons, ih _ (by omega), step, List.length_cons, Function.iterate_succ_apply]

theorem packed_injective {bits bits' : List Bool} (same : bits.length = bits'.length)
    (fits : bits.length ≤ w) (equal : (packed bits : BitVec w) = packed bits') : bits = bits' := by
  apply List.ext_getElem same
  intro k hk hk'
  have at_k := congrArg (fun x => x.getLsbD (w - 1 - k)) equal
  simp only [getLsbD_packed, show w - 1 - (w - 1 - k) = k by omega,
    show w - 1 - k < w by omega, decide_true, Bool.true_and] at at_k
  rwa [List.getD_eq_getElem _ _ hk, List.getD_eq_getElem _ _ hk'] at at_k

/-! ## Bursts

A polynomial with its lowest bit set makes the clock injective: a difference in the register
never dies out.
-/

section Burst

variable (odd : poly.getLsbD 0 = true)
include odd

theorem eq_zero_of_clock (x : BitVec w) (zero : clock poly x = 0#w) : x = 0#w := by
  have bit : ∀ i, (clock poly x).getLsbD i = false := by simp [zero]
  by_cases high : x.msb = true
  · have lowest := bit 0
    rw [clock, if_pos high, BitVec.getLsbD_xor, odd] at lowest
    simp at lowest
  · simp only [clock, if_neg high] at bit
    apply BitVec.eq_of_getLsbD_eq
    intro i hi
    rw [BitVec.getLsbD_zero]
    by_cases last : i + 1 = w
    · rw [BitVec.msb_eq_getLsbD_last, show w - 1 = i by omega] at high
      simpa using high
    · have moved := bit (i + 1)
      rw [BitVec.getLsbD_shiftLeft] at moved
      simpa [show i + 1 < w by omega] using moved

theorem clock_injective : Function.Injective (clock poly) := by
  intro x y equal
  have zero : clock poly (x ^^^ y) = 0#w := by rw [clock_xor, equal, BitVec.xor_self]
  exact BitVec.xor_eq_zero_iff.1 (eq_zero_of_clock poly odd _ zero)

theorem foldl_feed_injective (bits : List Bool) :
    Function.Injective fun x => bits.foldl (feed poly) x := by
  induction bits with
  | nil => exact Function.injective_id
  | cons bit bits ih =>
    intro x y equal
    have fed : x ^^^ top bit = y ^^^ top bit := clock_injective poly odd (ih equal)
    exact (BitVec.xor_left_inj _).1 fed

/-- Data that differ only within `w` consecutive bits leave different registers. -/
theorem foldl_feed_ne_of_burst (x : BitVec w) {bits bits' : List Bool}
    (same : bits.length = bits'.length) (differ : bits ≠ bits') (p : ℕ)
    (window : ∀ i, i < p ∨ p + w ≤ i → bits[i]? = bits'[i]?) :
    bits.foldl (feed poly) x ≠ bits'.foldl (feed poly) x := by
  have before : bits.take p = bits'.take p := by
    apply List.ext_getElem?
    intro i
    rw [List.getElem?_take, List.getElem?_take]
    split
    · exact window i (.inl (by assumption))
    · rfl
  have after : (bits.drop p).drop w = (bits'.drop p).drop w := by
    apply List.ext_getElem?
    intro i
    simp only [List.getElem?_drop]
    exact window _ (.inr (by omega))
  have parts : ∀ l : List Bool, l = l.take p ++ ((l.drop p).take w ++ (l.drop p).drop w) := by
    intro l
    rw [List.take_append_drop, List.take_append_drop]
  intro equal
  rw [parts bits, parts bits', List.foldl_append, List.foldl_append, List.foldl_append,
    List.foldl_append, before, after] at equal
  -- the registers were equal right after the window, hence the windows are
  have ended := foldl_feed_injective poly odd _ equal
  have lengths : ((bits.drop p).take w).length = ((bits'.drop p).take w).length := by
    simp [same]
  have fits : ((bits'.drop p).take w).length ≤ w := by simp
  rw [foldl_feed poly _ _ (lengths ▸ fits), foldl_feed poly _ _ fits, lengths] at ended
  have middle := packed_injective lengths (lengths ▸ fits)
    ((BitVec.xor_right_inj _).1 ((clock_injective poly odd).iterate _ ended))
  apply differ
  rw [parts bits, parts bits', before, middle, after]

end Burst

end Crc
