import Mathlib.Data.Nat.Bitwise
import RkNand.Lib.Crc

/-!
# The vendor's CRC-32 (`mk-rkparam.py`, `rknand-write-loader.py`)

Polynomial `0x04C10DB7`, most significant bit first, initial value 0, no final inversion.  The
parameter tool clocks the register a bit at a time; the loader tool looks a byte up in a table it
builds.  Both work on Python integers, masked to 32 bits: each is the fold of a register operation
on `BitVec 32`, and one table step is eight clocks.
-/

namespace RkNand

/-! ## The two scripts -/

namespace MkRkparam

/-- The body of the inner loop of `rk_crc32`. -/
def crcBit (crc : ℕ) : ℕ :=
  if crc &&& 0x80000000 ≠ 0 then ((crc <<< 1) ^^^ 0x04C10DB7) &&& 0xFFFFFFFF
  else (crc <<< 1) &&& 0xFFFFFFFF

/-- The body of the outer loop of `rk_crc32`. -/
def crcByte (crc : ℕ) (byte : UInt8) : ℕ := crcBit^[8] (crc ^^^ (byte.toNat <<< 24))

/-- `rk_crc32` of `mk-rkparam.py`. -/
def rkCrc32 (data : List UInt8) : ℕ := data.foldl crcByte 0

end MkRkparam

namespace WriteLoader

/-- The body of the inner loop of `_rk_crc_table`. -/
def tableBit (c : ℕ) : ℕ :=
  (if c &&& 0x80000000 ≠ 0 then (c <<< 1) ^^^ 0x04C10DB7 else c <<< 1) &&& 0xFFFFFFFF

/-- `_rk_crc_table`. -/
def rkCrcTable : List ℕ := (List.range 256).map fun i => tableBit^[8] (i <<< 24)

/-- The body of the loop of `rk_crc32`. -/
def crcByte (crc : ℕ) (b : UInt8) : ℕ :=
  (rkCrcTable.getD ((b.toNat ^^^ (crc >>> 24)) &&& 0xFF) 0 ^^^ ((crc <<< 8) &&& 0xFFFFFFFF))
    &&& 0xFFFFFFFF

/-- `rk_crc32` of `rknand-write-loader.py`. -/
def rkCrc32 (data : List UInt8) (crc : ℕ) : ℕ := data.foldl crcByte crc

end WriteLoader

/-! ## The register -/

/-- The feedback polynomial. -/
def rkCrcPoly : BitVec 32 := 0x04C10DB7#32

/-- One byte into the register: it meets the high byte, and eight clocks follow. -/
def rkCrcStep (x : BitVec 32) (byte : UInt8) : BitVec 32 :=
  (Crc.clock rkCrcPoly)^[8] (x ^^^ (BitVec.ofNat 32 byte.toNat <<< 24))

theorem and_mask (n : ℕ) : n &&& 0xFFFFFFFF = n % 2 ^ 32 := Nat.and_two_pow_sub_one_eq_mod n 32

theorem and_high_ne_zero_iff (x : BitVec 32) : x.toNat &&& 0x80000000 ≠ 0 ↔ x.msb = true := by
  have bit : x.toNat &&& 2 ^ 31 = (x.toNat.testBit 31).toNat * 2 ^ 31 := Nat.and_two_pow _ _
  rw [show (0x80000000 : ℕ) = 2 ^ 31 from rfl, bit, BitVec.msb_eq_getLsbD_last,
    ← BitVec.testBit_toNat]
  cases x.toNat.testBit 31 <;> simp

theorem crcBit_toNat (x : BitVec 32) :
    MkRkparam.crcBit x.toNat = (Crc.clock rkCrcPoly x).toNat := by
  simp only [MkRkparam.crcBit, Crc.clock, and_high_ne_zero_iff, and_mask, Nat.xor_mod_two_pow]
  split
  · rw [BitVec.toNat_xor, BitVec.toNat_shiftLeft]; rfl
  · rw [BitVec.toNat_shiftLeft]

theorem tableBit_eq_crcBit (c : ℕ) : WriteLoader.tableBit c = MkRkparam.crcBit c := by
  rw [WriteLoader.tableBit, MkRkparam.crcBit]
  split <;> rfl

theorem iterate_crcBit_toNat (n : ℕ) (x : BitVec 32) :
    MkRkparam.crcBit^[n] x.toNat = ((Crc.clock rkCrcPoly)^[n] x).toNat := by
  induction n generalizing x with
  | zero => rfl
  | succ n ih => rw [Function.iterate_succ_apply, crcBit_toNat, ih]; rfl

/-- A byte in the place of the high one. -/
theorem toNat_byte_shiftLeft (n : ℕ) (below : n < 256) :
    (BitVec.ofNat 32 n <<< 24).toNat = n <<< 24 := by
  rw [BitVec.toNat_shiftLeft, BitVec.toNat_ofNat, Nat.shiftLeft_eq, Nat.shiftLeft_eq]
  omega

theorem crcByte_toNat (x : BitVec 32) (byte : UInt8) :
    MkRkparam.crcByte x.toNat byte = (rkCrcStep x byte).toNat := by
  rw [MkRkparam.crcByte, rkCrcStep, ← iterate_crcBit_toNat, BitVec.toNat_xor,
    toNat_byte_shiftLeft _ byte.toNat_lt]

theorem getD_rkCrcTable (i : ℕ) (below : i < 256) :
    WriteLoader.rkCrcTable.getD i 0
      = ((Crc.clock rkCrcPoly)^[8] (BitVec.ofNat 32 i <<< 24)).toNat := by
  rw [← iterate_crcBit_toNat, toNat_byte_shiftLeft i below, WriteLoader.rkCrcTable,
    funext tableBit_eq_crcBit]
  simp [below]

/-- The table's index is the high byte of the register once the byte has been added. -/
theorem high_xor_byte (x : BitVec 32) (byte : UInt8) :
    Crc.high 8 (x ^^^ (BitVec.ofNat 32 byte.toNat <<< 24))
      = BitVec.ofNat 32 ((byte.toNat ^^^ (x.toNat >>> 24)) &&& 0xFF) <<< 24 := by
  apply BitVec.eq_of_getLsbD_eq
  intro i hi
  rw [Crc.getLsbD_high, BitVec.getLsbD_xor, BitVec.getLsbD_shiftLeft, BitVec.getLsbD_shiftLeft,
    BitVec.getLsbD_ofNat, BitVec.getLsbD_ofNat, Nat.testBit_and, Nat.testBit_xor,
    Nat.testBit_shiftRight, show (0xFF : ℕ) = 2 ^ 8 - 1 from rfl, Nat.testBit_two_pow_sub_one,
    BitVec.testBit_toNat]
  by_cases inHigh : 24 ≤ i
  · have back : 24 + (i - 24) = i := by omega
    simp [hi, back, show ¬ i < 24 by omega, show i - 24 < 32 by omega, show 32 ≤ i + 8 by omega,
      show i - 24 < 8 by omega, Bool.xor_comm]
  · simp [show i < 24 by omega, show ¬ 32 ≤ i + 8 by omega]

/-- The byte leaves the register in the shift. -/
theorem xor_byte_shiftLeft (x : BitVec 32) (byte : UInt8) :
    (x ^^^ (BitVec.ofNat 32 byte.toNat <<< 24)) <<< 8 = x <<< 8 := by
  rw [BitVec.shiftLeft_xor_distrib, ← BitVec.shiftLeft_add,
    BitVec.shiftLeft_eq_zero (show 32 ≤ 24 + 8 by decide), BitVec.xor_zero]

theorem tableByte_toNat (x : BitVec 32) (byte : UInt8) :
    WriteLoader.crcByte x.toNat byte = (rkCrcStep x byte).toNat := by
  have index : (byte.toNat ^^^ (x.toNat >>> 24)) &&& 0xFF < 256 :=
    Nat.lt_of_le_of_lt Nat.and_le_right (by decide)
  have step : (rkCrcStep x byte).toNat
      = WriteLoader.rkCrcTable.getD ((byte.toNat ^^^ (x.toNat >>> 24)) &&& 0xFF) 0
        ^^^ ((x.toNat <<< 8) &&& 0xFFFFFFFF) := by
    rw [rkCrcStep, Crc.iterate_clock_eq_table, xor_byte_shiftLeft, high_xor_byte, BitVec.toNat_xor,
      ← getD_rkCrcTable _ index, BitVec.toNat_shiftLeft, and_mask]
  rw [WriteLoader.crcByte, ← step, and_mask, Nat.mod_eq_of_lt (BitVec.isLt _)]

/-- Both folds follow the register. -/
theorem foldl_crcByte_toNat (data : List UInt8) (x : BitVec 32) :
    data.foldl MkRkparam.crcByte x.toNat = (data.foldl rkCrcStep x).toNat ∧
      data.foldl WriteLoader.crcByte x.toNat = (data.foldl rkCrcStep x).toNat := by
  induction data generalizing x with
  | nil => exact ⟨rfl, rfl⟩
  | cons byte data ih =>
    simp only [List.foldl_cons, crcByte_toNat, tableByte_toNat]
    exact ih _

/-- The two implementations agree on every byte string. -/
theorem rkCrc32_table_eq_bitwise (data : List UInt8) :
    WriteLoader.rkCrc32 data 0 = MkRkparam.rkCrc32 data := by
  obtain ⟨bitwise, table⟩ := foldl_crcByte_toNat data 0
  exact table.trans bitwise.symm

theorem rkCrc32_lt (data : List UInt8) : MkRkparam.rkCrc32 data < 2 ^ 32 := by
  obtain ⟨bitwise, -⟩ := foldl_crcByte_toNat data 0
  rw [MkRkparam.rkCrc32]
  exact bitwise ▸ BitVec.isLt _

end RkNand
