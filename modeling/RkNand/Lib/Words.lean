import Mathlib.Tactic

/-!
# Little-endian 32-bit words

The byte encoding of arrays of 32-bit words, least significant byte first, and their reading as
signed numbers.
-/

namespace Words

/-- The word of four bytes, least significant first. -/
def pack (a b c d : UInt8) : UInt32 :=
  UInt32.ofNat (a.toNat + 2 ^ 8 * b.toNat + 2 ^ 16 * c.toNat + 2 ^ 24 * d.toNat)

/-- The four bytes of a word, least significant first. -/
def unpack (w : UInt32) : List UInt8 :=
  [UInt8.ofNat w.toNat, UInt8.ofNat (w.toNat / 2 ^ 8), UInt8.ofNat (w.toNat / 2 ^ 16),
    UInt8.ofNat (w.toNat / 2 ^ 24)]

/-- The word at a byte offset. -/
def wordAt (bytes : List UInt8) (off : ℕ) : UInt32 :=
  pack (bytes.getD off 0) (bytes.getD (off + 1) 0) (bytes.getD (off + 2) 0) (bytes.getD (off + 3) 0)

/-- The encoding of an array of words. -/
def toBytes (ws : List UInt32) : List UInt8 := ws.flatMap unpack

/-- The array a byte string encodes; there is none if its length is not a multiple of four. -/
def fromBytes : List UInt8 → Option (List UInt32)
  | [] => some []
  | a :: b :: c :: d :: rest => (fromBytes rest).map (pack a b c d :: ·)
  | _ => none

/-- A word read as a two's complement number. -/
def signed (w : UInt32) : ℤ := if w.toNat < 2 ^ 31 then w.toNat else w.toNat - 2 ^ 32

theorem pack_unpack (w : UInt32) :
    pack (UInt8.ofNat w.toNat) (UInt8.ofNat (w.toNat / 2 ^ 8)) (UInt8.ofNat (w.toNat / 2 ^ 16))
      (UInt8.ofNat (w.toNat / 2 ^ 24)) = w := by
  apply UInt32.toNat_inj.1
  have := w.toNat_lt
  simp only [pack, UInt8.toNat_ofNat', UInt32.toNat_ofNat']
  omega

theorem fromBytes_toBytes (ws : List UInt32) : fromBytes (toBytes ws) = some ws := by
  induction ws with
  | nil => rfl
  | cons w ws ih =>
    rw [toBytes] at ih
    simp only [toBytes, List.flatMap_cons, unpack, List.cons_append, List.nil_append, fromBytes,
      ih, Option.map_some, pack_unpack]

theorem signed_ofNat {n : ℕ} (h : n < 2 ^ 31) : signed (UInt32.ofNat n) = n := by
  have : (UInt32.ofNat n).toNat = n := by
    rw [UInt32.toNat_ofNat']
    omega
  rw [signed, this, if_pos h]

end Words
