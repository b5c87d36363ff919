import RkNand.Tools.Rkparam

/-!
# Bursts and the vendor's CRC-32

The register takes the bits of the data one by one, most significant first.  The polynomial is odd,
so two byte strings of one length that differ within 32 consecutive bits have different CRCs,
wherever the window lies, and `inspect` of `mk-rkparam.py` notices such a damage of the text.
-/

namespace RkNand

/-! ## The bits of a byte string -/

/-- The bits of a byte, most significant first. -/
def byteBits (byte : UInt8) : List Bool := (List.range 8).map fun i => byte.toNat.testBit (7 - i)

/-- The bits of a byte string, most significant first. -/
def bits (data : List UInt8) : List Bool := data.flatMap byteBits

@[simp] theorem length_byteBits (byte : UInt8) : (byteBits byte).length = 8 := by simp [byteBits]

theorem length_bits (data : List UInt8) : (bits data).length = data.length * 8 := by
  simp [bits, List.length_flatMap]

theorem byteBits_injective : Function.Injective byteBits := by
  intro b b' equal
  apply UInt8.toNat_inj.1
  apply Nat.eq_of_testBit_eq
  intro i
  by_cases inside : i < 8
  · have at_i := congrArg (fun l => l[7 - i]?) equal
    simpa [byteBits, show 7 - i < 8 by omega, show 7 - (7 - i) = i by omega] using at_i
  · have above : 2 ^ 8 ≤ 2 ^ i := Nat.pow_le_pow_right (by decide) (by omega)
    rw [Nat.testBit_lt_two_pow (Nat.lt_of_lt_of_le b.toNat_lt above),
      Nat.testBit_lt_two_pow (Nat.lt_of_lt_of_le b'.toNat_lt above)]

theorem bits_injective : Function.Injective bits := by
  intro a b equal
  induction a generalizing b with
  | nil =>
    have none : b.length * 8 = 0 := by rw [← length_bits, ← equal]; rfl
    exact (List.eq_nil_of_length_eq_zero (by omega)).symm
  | cons x xs ih =>
    cases b with
    | nil =>
      have none : (x :: xs).length * 8 = 0 := by rw [← length_bits, equal]; rfl
      simp at none
    | cons y ys =>
      simp only [bits, List.flatMap_cons] at equal
      obtain ⟨first, rest⟩ := List.append_inj equal (by simp)
      rw [byteBits_injective first, ih rest]

/-! ## The register, a bit at a time -/

theorem packed_byteBits (byte : UInt8) :
    Crc.packed (byteBits byte) = BitVec.ofNat 32 byte.toNat <<< 24 := by
  apply BitVec.eq_of_getLsbD_eq
  intro i hi
  rw [Crc.getLsbD_packed, BitVec.getLsbD_shiftLeft, BitVec.getLsbD_ofNat,
    List.getD_eq_getElem?_getD]
  by_cases inHigh : 24 ≤ i
  · simp [byteBits, hi, show 31 - i < 8 by omega, show 7 - (31 - i) = i - 24 by omega,
      show ¬ i < 24 by omega, show i - 24 < 32 by omega]
  · simp [byteBits, hi, show 8 ≤ 31 - i by omega, show i < 24 by omega]

theorem rkCrcStep_eq_feed (x : BitVec 32) (byte : UInt8) :
    rkCrcStep x byte = (byteBits byte).foldl (Crc.feed rkCrcPoly) x := by
  rw [Crc.foldl_feed rkCrcPoly _ _ (by simp), packed_byteBits, length_byteBits, rkCrcStep]

theorem foldl_rkCrcStep (data : List UInt8) (x : BitVec 32) :
    data.foldl rkCrcStep x = (bits data).foldl (Crc.feed rkCrcPoly) x := by
  induction data generalizing x with
  | nil => rfl
  | cons byte data ih =>
    rw [List.foldl_cons, ih, rkCrcStep_eq_feed, bits, bits, List.flatMap_cons, List.foldl_append]

namespace MkRkparam

open Python

theorem rkCrc32_ne_of_burst {a b : List UInt8} (same : a.length = b.length) (differ : a ≠ b) (p : ℕ)
    (window : ∀ i, i < p ∨ p + 32 ≤ i → (bits a)[i]? = (bits b)[i]?) : rkCrc32 a ≠ rkCrc32 b := by
  have register : ∀ data, rkCrc32 data = ((bits data).foldl (Crc.feed rkCrcPoly) 0#32).toNat := by
    intro data
    rw [← foldl_rkCrcStep]
    exact (foldl_crcByte_toNat data 0#32).1
  have lengths : (bits a).length = (bits b).length := by rw [length_bits, length_bits, same]
  rw [register, register]
  intro equal
  exact Crc.foldl_feed_ne_of_burst rkCrcPoly (by decide) 0#32 lengths
    (fun equalBits => differ (bits_injective equalBits)) p window (BitVec.eq_of_toNat_eq equal)

/-! ## Damaged parameter blocks -/

/-- A file with other bytes in the place of its text. -/
def withText (raw text : List UInt8) : List UInt8 :=
  raw.take 8 ++ text ++ raw.drop (8 + text.length)

theorem inspect_ok_iff (raw : List UInt8) (seen : Inspection) :
    inspect raw = .ok seen ↔ Struct.unpackFrom 4 raw 0 = some seen.tag ∧
      Struct.unpackFrom 4 raw 4 = some seen.length ∧
      Struct.unpackFrom 4 raw (8 + seen.length) = some seen.crc ∧
      seen.text = Struct.slice raw 8 (8 + seen.length) ∧
      seen.good = (rkCrc32 seen.text == seen.crc) := by
  rw [inspect]
  cases tagField : Struct.unpackFrom 4 raw 0 with
  | none => simp
  | some tag =>
    cases lengthField : Struct.unpackFrom 4 raw 4 with
    | none => simp
    | some length =>
      cases crcField : Struct.unpackFrom 4 raw (8 + length) with
      | none =>
        simp only [orRaise_some_bind, crcField, orRaise_none_bind]
        constructor
        · intro raised
          cases raised
        · rintro ⟨-, same, crc, -⟩
          rw [← Option.some.inj same, crcField] at crc
          cases crc
      | some crc =>
        simp only [orRaise_some_bind, crcField, pure, Except.pure, Except.ok.injEq]
        constructor
        · rintro rfl
          exact ⟨rfl, rfl, crcField, rfl, rfl⟩
        · rintro ⟨tags, lengths, crcs, texts, good⟩
          obtain ⟨tag', length', text', crc', good'⟩ := seen
          simp only [Option.some.injEq] at tags lengths
          subst tags lengths
          rw [crcField, Option.some.injEq] at crcs
          simp only at texts good
          subst crcs texts good
          rfl

/-- The text of a file that `inspect` reads is all there. -/
theorem length_text {raw : List UInt8} {seen : Inspection} (read : inspect raw = .ok seen) :
    seen.text.length = seen.length ∧ 8 + seen.length + 4 ≤ raw.length := by
  obtain ⟨-, -, crcField, text, -⟩ := (inspect_ok_iff raw seen).1 read
  have inside : 8 + seen.length + 4 ≤ raw.length := by
    rw [Struct.unpackFrom] at crcField
    split at crcField
    · assumption
    · cases crcField
  rw [text, Struct.length_slice _ _ _ (by omega)]
  omega

/-- `inspect` reads the other bytes, and the same tag, length and CRC. -/
theorem inspect_withText {raw text : List UInt8} {seen : Inspection}
    (read : inspect raw = .ok seen) (same : text.length = seen.length) :
    inspect (withText raw text)
      = .ok ⟨seen.tag, seen.length, text, seen.crc, rkCrc32 text == seen.crc⟩ := by
  obtain ⟨tagField, lengthField, crcField, -, -⟩ := (inspect_ok_iff raw seen).1 read
  have inside := (length_text read).2
  have start : (raw.take 8).length = 8 := by rw [List.length_take]; omega
  have lengths : (withText raw text).length = raw.length := by
    rw [withText, List.length_append, List.length_append, start, List.length_drop]
    omega
  have agree : ∀ i, i < 8 ∨ 8 + seen.length ≤ i → (withText raw text)[i]? = raw[i]? := by
    intro i outside
    rw [withText]
    rcases outside with before | after
    · rw [List.append_assoc, List.getElem?_append_left (by omega), List.getElem?_take,
        if_pos before]
    · rw [List.getElem?_append_right (by rw [List.length_append]; omega), List.getElem?_drop,
        List.length_append, start]
      congr 1
      omega
  have field : ∀ off, off + 4 ≤ 8 ∨ 8 + seen.length ≤ off →
      Struct.unpackFrom 4 (withText raw text) off = Struct.unpackFrom 4 raw off := by
    intro off outside
    refine Struct.unpackFrom_congr 4 off _ _ lengths fun i lower upper => agree i ?_
    omega
  have body := Struct.slice_append (raw.take 8) text (raw.drop (8 + text.length))
  rw [start, same] at body
  rw [inspect_ok_iff]
  refine ⟨?_, ?_, ?_, ?_, rfl⟩
  · rw [field 0 (by omega), tagField]
  · rw [field 4 (by omega), lengthField]
  · rw [field _ (by simp), crcField]
  · rw [withText, same]
    exact body.symm

/-- A burst of up to 32 bits changes the CRC, and `inspect` reports it. -/
theorem burst_detected (a b : List UInt8) (same : a.length = b.length) (differ : a ≠ b) (p : ℕ)
    (window : ∀ i, i < p ∨ p + 32 ≤ i → (bits a)[i]? = (bits b)[i]?) :
    rkCrc32 a ≠ rkCrc32 b ∧
      ∀ raw seen, inspect raw = .ok seen → seen.text = a → seen.good = true →
        ∃ damaged, inspect (withText raw b) = .ok damaged ∧ damaged.text = b ∧
          damaged.good = false ∧ damaged.passed = false := by
  have crcs := rkCrc32_ne_of_burst same differ p window
  refine ⟨crcs, ?_⟩
  intro raw seen read text good
  have whole := (length_text read).1
  obtain ⟨-, -, -, -, checked⟩ := (inspect_ok_iff raw seen).1 read
  have stored : rkCrc32 a = seen.crc := by
    rw [good, text] at checked
    exact beq_iff_eq.1 checked.symm
  have noticed : (rkCrc32 b == seen.crc) = false := by
    rw [← stored]
    exact beq_eq_false_iff_ne.2 crcs.symm
  refine ⟨_, inspect_withText read (by rw [← same, ← text, whole]), rfl, noticed, ?_⟩
  simp only [Inspection.passed, noticed, Bool.and_false]

/-- The last bit of one letter and the first of the next. -/
theorem burst_detected_letters : rkCrc32 [0x41, 0x42] ≠ rkCrc32 [0x40, 0xC2] ∧
    ∃ damaged, inspect (withText (frame [0x41, 0x42]) [0x40, 0xC2]) = .ok damaged ∧
      damaged.passed = false := by
  have window : ∀ i, i < 7 ∨ 7 + 32 ≤ i →
      (bits [0x41, 0x42])[i]? = (bits [0x40, 0xC2])[i]? := by
    rintro i (before | after)
    · interval_cases i <;> rfl
    · rw [List.getElem?_eq_none (by rw [length_bits]; simp; omega),
        List.getElem?_eq_none (by rw [length_bits]; simp; omega)]
  have read := inspect_frame [0x41, 0x42] [] (by decide)
  rw [List.append_nil] at read
  obtain ⟨crcs, reported⟩ :=
    burst_detected [0x41, 0x42] [0x40, 0xC2] rfl (by decide) 7 window
  obtain ⟨damaged, inspected, -, -, failed⟩ := reported _ _ read rfl rfl
  exact ⟨crcs, damaged, inspected, failed⟩

end MkRkparam

end RkNand
