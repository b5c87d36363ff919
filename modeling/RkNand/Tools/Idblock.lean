import RkNand.Lib.StreamCipher
import RkNand.Tools.Python
import RkNand.Tools.WriteLoader

/-!
# The boot block (`mk-idblock.py`)

An idblock is a sector with a header, encrypted, three sectors of zeros, the DDR init blob and the
next-stage loader.  The header counts the two blobs in sectors.  The cipher adds a keystream to the
data (`rc4`), so the same call encrypts and decrypts, and the first word on the medium is the
encrypted magic whatever else the header holds.
-/

namespace RkNand.MkIdblock

open Python StreamCipher

/-! ## The script -/

/-- `RC4_KEY`. -/
def rc4Key : List UInt8 := [124, 78, 3, 4, 85, 5, 9, 7, 45, 44, 123, 56, 23, 13, 23, 17]

/-- `RK_MAGIC`. -/
def rkMagic : ℕ := 0x0FF0AA55

/-- `BLK`. -/
def blk : ℕ := 512

/-- `INIT_OFFSET`, in blocks. -/
def initOffset : ℕ := 4

/-- `s[i], s[j] = s[j], s[i]`. -/
def swap (s : List UInt8) (i j : ℕ) : List UInt8 := (s.set i (s.getD j 0)).set j (s.getD i 0)

/-- The key schedule: the first loop of `rc4`. -/
def rc4Schedule (key : List UInt8) : List UInt8 :=
  ((List.range 256).foldl (fun (s, j) i =>
    let j := (j + (s.getD i 0).toNat + (key.getD (i % key.length) 0).toNat) &&& 0xFF
    (swap s i j, j)) ((List.range 256).map UInt8.ofNat, 0)).1

/-- What the second loop of `rc4` keeps. -/
structure Rc4State where
  s : List UInt8
  i : ℕ
  j : ℕ

/-- One round of the second loop: the byte it adds to the data, and the next state. -/
def rc4Next (st : Rc4State) : UInt8 × Rc4State :=
  let i := (st.i + 1) &&& 0xFF
  let j := (st.j + (st.s.getD i 0).toNat) &&& 0xFF
  let s := swap st.s i j
  (s.getD (((s.getD i 0).toNat + (s.getD j 0).toNat) &&& 0xFF) 0, ⟨s, i, j⟩)

/-- `rc4`. -/
def rc4Keyed (data key : List UInt8) : List UInt8 :=
  xorStream rc4Next ⟨rc4Schedule key, 0, 0⟩ data

/-- `rc4`, with its default key. -/
def rc4 (data : List UInt8) : List UInt8 := rc4Keyed data rc4Key

/-- `rc4_blocks`. -/
def rc4BlocksOf (data : List UInt8) (size : ℕ) : List UInt8 := blockwise rc4 size data

/-- `rc4_blocks`, with its default block size. -/
def rc4Blocks (data : List UInt8) : List UInt8 := rc4BlocksOf data blk

/-- The check `build_idblock` makes of one blob. -/
def checkBlob (tag : PyStr) (blob : List UInt8) : Except PyError Unit :=
  if blob.length % blk ≠ 0 then
    .error (.systemExit (tag ++ str " blob is " ++ str (toString blob.length)
      ++ str " bytes, not a multiple of " ++ str (toString blk)))
  else .ok ()

/-- The header `build_idblock` fills in, with the two counts of blocks. -/
def header (initSize initBoot : ℕ) : Option (List UInt8) := do
  let header := List.replicate (initOffset * blk) 0
  let header ← Struct.packInto 4 header 0 rkMagic
  let header ← Struct.packInto 4 header 8 1
  let header ← Struct.packInto 2 header 12 initOffset
  let header ← Struct.packInto 2 header 506 initSize
  Struct.packInto 2 header 508 initBoot

/-- `build_idblock`. -/
def buildIdblock (ddr loader : List UInt8) : Except PyError (List UInt8) := do
  checkBlob (str "DDR init") ddr
  checkBlob (str "loader") loader
  let header ← orRaise .structError
    (header (ddr.length / blk) ((ddr.length + loader.length) / blk))
  .ok (rc4 (header.take blk) ++ header.drop blk ++ ddr ++ loader)

/-- What `inspect` decodes. -/
structure Inspection where
  magic : ℕ
  disableRc4 : ℕ
  initOff : ℕ
  initSize : ℕ
  initBoot : ℕ
deriving DecidableEq

/-- `inspect`, up to what it prints. -/
def inspect (raw : List UInt8) : Except PyError Inspection := do
  let h := rc4 (raw.take blk)
  let magic ← orRaise .structError (Struct.unpackFrom 4 h 0)
  let disableRc4 ← orRaise .structError (Struct.unpackFrom 4 h 8)
  let initOff ← orRaise .structError (Struct.unpackFrom 2 h 12)
  let initSize ← orRaise .structError (Struct.unpackFrom 2 h 506)
  let initBoot ← orRaise .structError (Struct.unpackFrom 2 h 508)
  pure ⟨magic, disableRc4, initOff, initSize, initBoot⟩

/-! ## The cipher -/

@[simp] theorem length_rc4 (data : List UInt8) : (rc4 data).length = data.length :=
  length_xorStream _ _ _

theorem rc4Keyed_rc4Keyed (data key : List UInt8) : rc4Keyed (rc4Keyed data key) key = data :=
  xorStream_xorStream _ _ _

theorem rc4_rc4 (data : List UInt8) : rc4 (rc4 data) = data := rc4Keyed_rc4Keyed _ _

theorem length_rc4BlocksOf (data : List UInt8) {size : ℕ} (positive : 1 ≤ size) :
    (rc4BlocksOf data size).length = data.length := length_blockwise size length_rc4 positive data

theorem rc4BlocksOf_rc4BlocksOf (data : List UInt8) {size : ℕ} (positive : 1 ≤ size) :
    rc4BlocksOf (rc4BlocksOf data size) size = data :=
  blockwise_blockwise size length_rc4 positive rc4_rc4 data

theorem length_rc4Blocks (data : List UInt8) : (rc4Blocks data).length = data.length :=
  length_rc4BlocksOf data (by decide)

/-- Decrypting the blocks of an encrypted range gives back the plaintext. -/
theorem rc4Blocks_rc4Blocks (plain : List UInt8) : rc4Blocks (rc4Blocks plain) = plain :=
  rc4BlocksOf_rc4BlocksOf plain (by decide)

theorem take_rc4 (data : List UInt8) (n : ℕ) : (rc4 data).take n = rc4 (data.take n) :=
  take_xorStream _ _ _ _

/-- The encrypted magic. -/
theorem rc4_magic : rc4 (Struct.leBytes 4 rkMagic) = Struct.leBytes 4 WriteLoader.idbMagic := by
  decide +kernel

/-! ## The header -/

/-- What a header holds. -/
structure Header (buf : List UInt8) (initSize initBoot : ℕ) : Prop where
  length : buf.length = 2048
  magic : Struct.slice buf 0 4 = Struct.leBytes 4 rkMagic
  disableRc4 : Struct.unpackFrom 4 buf 8 = some 1
  initOff : Struct.unpackFrom 2 buf 12 = some initOffset
  initSize : Struct.unpackFrom 2 buf 506 = some initSize
  initBoot : Struct.unpackFrom 2 buf 508 = some initBoot
  padding : Struct.slice buf 512 2048 = List.replicate 1536 0

/-- Both counts fit their fields, or there is no header. -/
theorem header_cases (initSize initBoot : ℕ) :
    (initSize < 256 ^ 2 ∧ initBoot < 256 ^ 2 ∧
        ∃ buf, header initSize initBoot = some buf ∧ Header buf initSize initBoot) ∨
      ¬ (initSize < 256 ^ 2 ∧ initBoot < 256 ^ 2) ∧ header initSize initBoot = none := by
  have blank : (List.replicate (initOffset * blk) (0 : UInt8)).length = 2048 :=
    List.length_replicate
  obtain ⟨b₁, h₁⟩ : ∃ b₁, Struct.packInto 4 (List.replicate (initOffset * blk) 0) 0 rkMagic
      = some b₁ := ⟨_, Struct.packInto_eq_some (by decide) (by omega)⟩
  have l₁ := (Struct.length_packInto h₁).trans blank
  obtain ⟨b₂, h₂⟩ : ∃ b₂, Struct.packInto 4 b₁ 8 1 = some b₂ :=
    ⟨_, Struct.packInto_eq_some (by decide) (by omega)⟩
  have l₂ := (Struct.length_packInto h₂).trans l₁
  obtain ⟨b₃, h₃⟩ : ∃ b₃, Struct.packInto 2 b₂ 12 initOffset = some b₃ :=
    ⟨_, Struct.packInto_eq_some (by decide) (by omega)⟩
  have l₃ := (Struct.length_packInto h₃).trans l₂
  have chain : header initSize initBoot
      = (Struct.packInto 2 b₃ 506 initSize).bind fun b₄ => Struct.packInto 2 b₄ 508 initBoot := by
    simp only [header, h₁, h₂, h₃, Option.bind_eq_bind, Option.bind_some]
  cases h₄ : Struct.packInto 2 b₃ 506 initSize with
  | none =>
    refine .inr ⟨fun fits => ?_, by rw [chain, h₄, Option.bind_none]⟩
    rw [Struct.packInto_eq_some fits.1 (by omega)] at h₄
    cases h₄
  | some b₄ =>
    have l₄ := (Struct.length_packInto h₄).trans l₃
    rw [h₄, Option.bind_some] at chain
    cases h₅ : Struct.packInto 2 b₄ 508 initBoot with
    | none =>
      refine .inr ⟨fun fits => ?_, by rw [chain, h₅]⟩
      rw [Struct.packInto_eq_some fits.2 (by omega)] at h₅
      cases h₅
    | some b₅ =>
      have l₅ := (Struct.length_packInto h₅).trans l₄
      rw [h₅] at chain
      refine .inl ⟨(Struct.packInto_cases h₄).1, (Struct.packInto_cases h₅).1, b₅, chain, ?_⟩
      -- the last four writes lie between the magic and the padding
      have kept : ∀ a b, b ≤ 8 ∨ 510 ≤ a → Struct.slice b₅ a b = Struct.slice b₁ a b := by
        intro a b outside
        rw [Struct.slice_packInto h₅ a b (by omega), Struct.slice_packInto h₄ a b (by omega),
          Struct.slice_packInto h₃ a b (by omega), Struct.slice_packInto h₂ a b (by omega)]
      exact {
        length := l₅
        magic := (kept 0 4 (by omega)).trans (Struct.slice_packInto_self h₁)
        disableRc4 := by
          rw [Struct.unpackFrom_packInto_of_apart h₅ 4 8 (by omega),
            Struct.unpackFrom_packInto_of_apart h₄ 4 8 (by omega),
            Struct.unpackFrom_packInto_of_apart h₃ 4 8 (by omega), Struct.unpackFrom_packInto h₂]
        initOff := by
          rw [Struct.unpackFrom_packInto_of_apart h₅ 2 12 (by omega),
            Struct.unpackFrom_packInto_of_apart h₄ 2 12 (by omega), Struct.unpackFrom_packInto h₃]
        initSize := by
          rw [Struct.unpackFrom_packInto_of_apart h₅ 2 506 (by omega),
            Struct.unpackFrom_packInto h₄]
        initBoot := Struct.unpackFrom_packInto h₅
        padding := by
          rw [kept 512 2048 (by omega), Struct.slice_packInto h₁ 512 2048 (by omega), Struct.slice,
            List.take_replicate, List.drop_replicate]
          rfl }

/-! ## The image -/

/-- `build_idblock` succeeds exactly on whole blocks that the header can count. -/
theorem buildIdblock_cases (ddr loader : List UInt8) :
    (512 ∣ ddr.length ∧ 512 ∣ loader.length ∧ (ddr.length + loader.length) / 512 ≤ 65535 ∧
        ∃ buf, Header buf (ddr.length / 512) ((ddr.length + loader.length) / 512) ∧
          buildIdblock ddr loader = .ok (rc4 (buf.take blk) ++ buf.drop blk ++ ddr ++ loader)) ∨
      ¬ (512 ∣ ddr.length ∧ 512 ∣ loader.length ∧ (ddr.length + loader.length) / 512 ≤ 65535) ∧
        ∃ e, buildIdblock ddr loader = .error e := by
  have check : ∀ tag blob, 512 ∣ blob.length → checkBlob tag blob = .ok () := by
    intro tag blob whole
    exact if_neg (not_not.2 (Nat.mod_eq_zero_of_dvd whole))
  have refuse : ∀ tag blob, ¬ 512 ∣ blob.length → ∃ e, checkBlob tag blob = .error e := by
    intro tag blob ragged
    exact ⟨_, if_pos fun rest => ragged (Nat.dvd_of_mod_eq_zero rest)⟩
  by_cases ddrWhole : 512 ∣ ddr.length
  · by_cases loaderWhole : 512 ∣ loader.length
    · have reach : buildIdblock ddr loader = orRaise .structError
          (header (ddr.length / blk) ((ddr.length + loader.length) / blk)) >>= fun header =>
            .ok (rc4 (header.take blk) ++ header.drop blk ++ ddr ++ loader) := by
        rw [buildIdblock, check _ ddr ddrWhole, check _ loader loaderWhole, ok_bind, ok_bind]
      rcases header_cases (ddr.length / blk) ((ddr.length + loader.length) / blk) with
        ⟨-, fits, buf, made, fields⟩ | ⟨excess, none⟩
      · refine .inl ⟨ddrWhole, loaderWhole, Nat.le_of_lt_succ fits, buf, fields, ?_⟩
        rw [reach, made, orRaise_some_bind]
      · refine .inr ⟨fun good => excess ?_, .structError, by rw [reach, none, orRaise_none_bind]⟩
        rw [blk]
        omega
    · obtain ⟨e, refused⟩ := refuse (str "loader") loader loaderWhole
      refine .inr ⟨fun good => loaderWhole good.2.1, e, ?_⟩
      rw [buildIdblock, check _ ddr ddrWhole, refused, ok_bind, error_bind]
  · obtain ⟨e, refused⟩ := refuse (str "DDR init") ddr ddrWhole
    refine .inr ⟨fun good => ddrWhole good.1, e, ?_⟩
    rw [buildIdblock, refused, error_bind]

section Image

/-- The image made with a header. -/
def image (buf ddr loader : List UInt8) : List UInt8 :=
  rc4 (buf.take blk) ++ buf.drop blk ++ ddr ++ loader

variable {buf : List UInt8} (ddr loader : List UInt8) {initSize initBoot : ℕ}

theorem length_first (fields : Header buf initSize initBoot) :
    (rc4 (buf.take blk)).length = 512 := by
  rw [length_rc4, List.length_take, fields.length, blk]
  rfl

/-- `inspect` decodes the header of the image. -/
theorem inspect_image (fields : Header buf initSize initBoot) :
    inspect (image buf ddr loader)
      = .ok ⟨rkMagic, 1, initOffset, initSize, initBoot⟩ := by
  have first : (image buf ddr loader).take blk = rc4 (buf.take blk) := by
    rw [image, List.append_assoc, List.append_assoc]
    exact List.take_left' (length_first fields)
  have field : ∀ w off, off + w ≤ 512 →
      Struct.unpackFrom w (buf.take blk) off = Struct.unpackFrom w buf off := fun w off inside =>
    Struct.unpackFrom_take w off blk buf inside (by rw [fields.length, blk]; decide)
  have magic : Struct.unpackFrom 4 buf 0 = some rkMagic := by
    rw [Struct.unpackFrom, if_pos (by rw [fields.length]; decide), fields.magic,
      Struct.leNat_leBytes 4 rkMagic (by decide)]
  simp only [inspect, first, rc4_rc4, field 4 0 (by decide), field 4 8 (by decide),
    field 2 12 (by decide), field 2 506 (by decide), field 2 508 (by decide), magic,
    fields.disableRc4, fields.initOff, fields.initSize, fields.initBoot, orRaise_some_bind]
  rfl

/-- The first word of the image is the encrypted magic. -/
theorem unpackFrom_image (fields : Header buf initSize initBoot) :
    Struct.unpackFrom 4 (image buf ddr loader) 0 = some WriteLoader.idbMagic := by
  have first := length_first fields
  have magic : (buf.take blk).take 4 = Struct.leBytes 4 rkMagic := by
    rw [List.take_take, ← fields.magic]
    rfl
  rw [image, List.append_assoc, List.append_assoc, Struct.unpackFrom_append_left _ _ _ _ (by omega),
    Struct.unpackFrom, if_pos (by omega), Struct.slice, take_rc4, magic, rc4_magic]
  rfl

theorem length_image (fields : Header buf initSize initBoot) :
    (image buf ddr loader).length = 2048 + ddr.length + loader.length := by
  have first := length_first fields
  have rest : (buf.drop blk).length = 1536 := by rw [List.length_drop, fields.length, blk]
  simp only [image, List.length_append, first, rest]

/-- The parts of the image after the first sector. -/
theorem slice_image (fields : Header buf initSize initBoot) :
    Struct.slice (image buf ddr loader) 512 2048 = List.replicate 1536 0 ∧
      Struct.slice (image buf ddr loader) 2048 (2048 + ddr.length) = ddr ∧
      Struct.slice (image buf ddr loader) (2048 + ddr.length)
        (2048 + ddr.length + loader.length) = loader := by
  have first := length_first fields
  have padding : buf.drop blk = List.replicate 1536 0 := by
    rw [← fields.padding, Struct.slice, ← fields.length, List.take_length, blk]
  have zeros := Struct.slice_append (rc4 (buf.take blk)) (buf.drop blk) (ddr ++ loader)
  have init := Struct.slice_append (rc4 (buf.take blk) ++ buf.drop blk) ddr loader
  have boot := Struct.slice_append (rc4 (buf.take blk) ++ buf.drop blk ++ ddr) loader []
  rw [padding, first, List.length_replicate] at zeros
  rw [padding, List.length_append, first, List.length_replicate] at init
  rw [padding, List.length_append, List.length_append, first, List.length_replicate,
    List.append_nil] at boot
  rw [image, padding]
  refine ⟨?_, init, boot⟩
  rw [List.append_assoc]
  exact zeros

end Image

/-- What an idblock image must decode to: the header that `inspect` finds places the two blobs, and
the writer refuses the image only for its length. -/
structure DecodesTo (img ddr loader : List UInt8) : Prop where
  header : ∃ seen, inspect img = .ok seen ∧ seen.magic = 0x0FF0AA55 ∧ seen.disableRc4 = 1 ∧
    seen.initOff = 4 ∧
    Struct.slice img (seen.initOff * 512) ((seen.initOff + seen.initSize) * 512) = ddr ∧
    Struct.slice img ((seen.initOff + seen.initSize) * 512)
      ((seen.initOff + seen.initBoot) * 512) = loader ∧
    (seen.initOff + seen.initBoot) * 512 = img.length
  padding : Struct.slice img 512 2048 = List.replicate 1536 0
  media : Struct.unpackFrom 4 img 0 = some 0xFCDC8C3B
  writable : ∀ idbBlk dry dev message,
    (WriteLoader.writeLoader img idbBlk dry dev).result = .error (.systemExit message) →
      256000 < img.length

/-- A count of whole blocks ends where its bytes end. -/
theorem blocks_end (n : ℕ) (whole : 512 ∣ n) : (initOffset + n / 512) * 512 = 2048 + n := by
  rw [Nat.add_mul, Nat.div_mul_cancel whole, initOffset]

theorem decodesTo_image {buf ddr loader : List UInt8} (ddrWhole : 512 ∣ ddr.length)
    (loaderWhole : 512 ∣ loader.length)
    (fields : Header buf (ddr.length / 512) ((ddr.length + loader.length) / 512)) :
    DecodesTo (image buf ddr loader) ddr loader := by
  obtain ⟨zeros, init, boot⟩ := slice_image ddr loader fields
  have size := length_image ddr loader fields
  have media := unpackFrom_image ddr loader fields
  have initEnd := blocks_end ddr.length ddrWhole
  have bootEnd := blocks_end (ddr.length + loader.length) (Nat.dvd_add ddrWhole loaderWhole)
  rw [← Nat.add_assoc] at bootEnd
  refine ⟨⟨_, inspect_image ddr loader fields, rfl, rfl, rfl, ?_, ?_, ?_⟩, zeros, media, ?_⟩
  · show Struct.slice _ (initOffset * 512) ((initOffset + ddr.length / 512) * 512) = ddr
    rw [initEnd, show initOffset * 512 = 2048 by decide, init]
  · show Struct.slice _ ((initOffset + ddr.length / 512) * 512)
      ((initOffset + (ddr.length + loader.length) / 512) * 512) = loader
    rw [initEnd, bootEnd, boot]
  · show (initOffset + (ddr.length + loader.length) / 512) * 512 = _
    rw [bootEnd, size]
  · intro idbBlk dry dev message refused
    have rejected := (WriteLoader.refused_iff_not_admitted _ idbBlk dry dev).1 ⟨message, refused⟩
    by_contra fits
    exact rejected ⟨media, by omega⟩

/-- `build_idblock` succeeds exactly on whole blocks that the header can count, and then the image
decodes to the blobs it was built from. -/
theorem idblock_roundtrip (ddr loader : List UInt8) :
    ((∃ img, buildIdblock ddr loader = .ok img) ↔
        512 ∣ ddr.length ∧ 512 ∣ loader.length ∧ (ddr.length + loader.length) / 512 ≤ 65535) ∧
      ∀ img, buildIdblock ddr loader = .ok img → DecodesTo img ddr loader := by
  rcases buildIdblock_cases ddr loader with
    ⟨ddrWhole, loaderWhole, fits, buf, fields, built⟩ | ⟨bad, e, raised⟩
  · refine ⟨⟨fun _ => ⟨ddrWhole, loaderWhole, fits⟩, fun _ => ⟨_, built⟩⟩, ?_⟩
    intro img returned
    rw [built, Except.ok.injEq] at returned
    rw [← returned]
    exact decodesTo_image ddrWhole loaderWhole fields
  · refine ⟨⟨?_, fun good => absurd good bad⟩, ?_⟩
    · rintro ⟨img, built⟩
      rw [raised] at built
      cases built
    · intro img built
      rw [raised] at built
      cases built

end RkNand.MkIdblock
