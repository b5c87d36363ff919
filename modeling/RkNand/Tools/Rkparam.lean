import RkNand.Lib.Struct
import RkNand.Lib.Text
import RkNand.Tools.Python
import RkNand.Tools.RkCrc

/-!
# The parameter block (`mk-rkparam.py`)

The partition table of the boot chain: a tag, the length of a text, the text and its CRC, padded to
a sector.  The partitions stand in the `mtdparts=` list of the text's last line, which the boot
chain finds and cuts up (`parseMtdparts`, the grammar of the script's documentation).
`parseMtdparts_buildText` reads the text back for every layout, and the frame is undone by
`inspect`.
-/

namespace RkNand.MkRkparam

open Python

/-! ## The script -/

/-- `TAG`. -/
def tag : ℕ := 0x4D524150

/-- `SECTOR`. -/
def sector : ℕ := 512

/-- A partition: its name, its first sector and its size, or none for the rest of the device. -/
structure Partition where
  name : PyStr
  start : ℕ
  size : Option ℕ
deriving DecidableEq

/-- `DEFAULT_PARTS`. -/
def defaultParts : List Partition :=
  [⟨str "uboot", 0x00002000, some 0x00002000⟩, ⟨str "trust", 0x00004000, some 0x00002000⟩,
    ⟨str "boot", 0x00006000, some 0x00020000⟩, ⟨str "rootfs", 0x00026000, none⟩]

/-- The `08x` format. -/
def hex08 (n : ℕ) : PyStr := format08 Nat.digitChar n

/-- One entry of the `mtdparts` list. -/
def mtdpart (p : Partition) : PyStr :=
  match p.size with
  | some size =>
    str "0x" ++ hex08 size ++ str "@0x" ++ hex08 p.start ++ str "(" ++ p.name ++ str ")"
  | none => str "-@0x" ++ hex08 p.start ++ str "(" ++ p.name ++ str ")"

/-- The lines before the last. -/
def headerLines : List PyStr :=
  [str "FIRMWARE_VER:1.0", str "MACHINE_MODEL:rk3229", str "MACHINE_ID:007",
    str "MANUFACTURER:RK3229", str "MAGIC: 0x5041524B", str "ATAG: 0x00200800",
    str "MACHINE: 3229", str "CHECK_MASK: 0x80", str "PWR_HLD: 0,0,A,0,1"]

/-- `build_text`. -/
def buildText (parts : List Partition) (cmdlineExtra : PyStr) : PyStr :=
  let mtd := (str ",").intercalate (parts.map mtdpart)
  let lines := headerLines ++ [str "CMDLINE:" ++ cmdlineExtra ++ str "mtdparts=rk29xxnand:" ++ mtd]
  (str "\n").intercalate lines ++ str "\n"

/-- `build`. -/
def build (parts : List Partition) (cmdlineExtra : PyStr) (padTo : ℕ) :
    Except PyError (List UInt8) := do
  let text ← orRaise .unicodeEncodeError (encode (buildText parts cmdlineExtra))
  let tagField ← orRaise .structError (Struct.pack 4 tag)
  let lengthField ← orRaise .structError (Struct.pack 4 text.length)
  let crcField ← orRaise .structError (Struct.pack 4 (rkCrc32 text))
  let blob := tagField ++ lengthField ++ text ++ crcField
  if blob.length > padTo then
    .error (.systemExit (str "parameter is " ++ str (toString blob.length)
      ++ str " bytes, does not fit in " ++ str (toString padTo)))
  else .ok (blob ++ List.replicate (padTo - blob.length) 0)

/-- What `inspect` reads from a file. -/
structure Inspection where
  tag : ℕ
  length : ℕ
  text : List UInt8
  crc : ℕ
  good : Bool

/-- `inspect`, up to what it returns. -/
def inspect (raw : List UInt8) : Except PyError Inspection := do
  let tag ← orRaise .structError (Struct.unpackFrom 4 raw 0)
  let length ← orRaise .structError (Struct.unpackFrom 4 raw 4)
  let text := Struct.slice raw 8 (8 + length)
  let crc ← orRaise .structError (Struct.unpackFrom 4 raw (8 + length))
  pure ⟨tag, length, text, crc, rkCrc32 text == crc⟩

/-- What `inspect` returns: whether the tag and the CRC are right. -/
def Inspection.passed (seen : Inspection) : Bool := seen.tag == MkRkparam.tag && seen.good

/-! ## The grammar -/

/-- The value of a hexadecimal digit. -/
def hexDigit : CodePoint → Option ℕ
  | .scalar c =>
    if '0' ≤ c ∧ c ≤ '9' then some (c.toNat - '0'.toNat)
    else if 'a' ≤ c ∧ c ≤ 'f' then some (c.toNat - 'a'.toNat + 10)
    else if 'A' ≤ c ∧ c ≤ 'F' then some (c.toNat - 'A'.toNat + 10)
    else none
  | .surrogate _ => none

/-- A hexadecimal number, marked by `0x`. -/
def parseHex : PyStr → Option ℕ
  | .scalar '0' :: .scalar 'x' :: digits =>
    if digits = [] then none
    else (digits.mapM hexDigit).map fun ds => ds.foldl (fun v d => 16 * v + d) 0
  | _ => none

/-- A size: a number, or `-` for the rest of the device. -/
def parseSize (s : PyStr) : Option (Option ℕ) :=
  if s = str "-" then some none else (parseHex s).map some

/-- An entry `size@start(name)`. -/
def parseItem (s : PyStr) : Option Partition := do
  let (size, s) ← Text.cutAt (.scalar '@') s
  let (start, s) ← Text.cutAt (.scalar '(') s
  let (name, s) ← Text.cutAt (.scalar ')') s
  if s = [] then pure ⟨name, ← parseHex start, ← parseSize size⟩ else none

/-- The partitions of a text: find the first `mtdparts`, skip to the next `:`, and split on `,` up
to the newline. -/
def parseMtdparts (text : PyStr) : Option (List Partition) := do
  let text ← Text.afterFirst (str "mtdparts") text
  let (_, text) ← Text.cutAt (.scalar ':') text
  let (line, _) ← Text.cutAt (.scalar '\n') text
  (line.splitOn (.scalar ',')).mapM parseItem

/-- A name the grammar can delimit. -/
def Partition.Delimited (p : Partition) : Prop :=
  ∀ c ∈ ['(', ')', ',', ':', '@', '\n'], CodePoint.scalar c ∉ p.name

instance (p : Partition) : Decidable p.Delimited :=
  List.decidableBAll (fun c => CodePoint.scalar c ∉ p.name) _

/-! ## Numbers -/

/-- The digits of the `08x` format, as numbers. -/
theorem hex08_eq_map_digits (n : ℕ) :
    ∃ ds : List ℕ, hex08 n = ds.map (fun d => CodePoint.scalar (Nat.digitChar d)) ∧
      (∀ d ∈ ds, d < 16) ∧ ds.foldl (fun v d => 16 * v + d) 0 = n := by
  have pad : ∀ zeros, (List.replicate zeros 0).foldl (fun v d => 16 * v + d) 0 = 0 := by
    intro zeros
    induction zeros with
    | zero => rfl
    | succ zeros ih => simpa [List.replicate_succ] using ih
  have value : (Nat.digits 16 n).foldr (fun d v => 16 * v + d) 0
      = Nat.ofDigits 16 (Nat.digits 16 n) := by
    rw [Nat.ofDigits_eq_foldr]
    simp [Nat.add_comm]
  refine ⟨List.replicate (8 - (Nat.digits 16 n).length) 0 ++ (Nat.digits 16 n).reverse, ?_, ?_, ?_⟩
  · simp [hex08, format08, List.leftpad, List.map_map, Function.comp_def]
  · intro d member
    rcases List.mem_append.1 member with zero | digit
    · simp [List.eq_of_mem_replicate zero]
    · exact Nat.digits_lt_base (by decide) (List.mem_reverse.1 digit)
  · rw [List.foldl_append, pad, List.foldl_reverse, value, Nat.ofDigits_digits]

theorem hexDigit_digitChar (d : ℕ) (below : d < 16) :
    hexDigit (.scalar (Nat.digitChar d)) = some d := by
  interval_cases d <;> rfl

theorem hex08_ne_nil (n : ℕ) : hex08 n ≠ [] := by
  apply List.ne_nil_of_length_pos
  rw [hex08, format08, List.length_map, List.length_leftpad]
  omega

/-- A number reads back from its `08x` form, however long that is. -/
theorem parseHex_hex08 (n : ℕ) : parseHex (str "0x" ++ hex08 n) = some n := by
  obtain ⟨ds, written, below, value⟩ := hex08_eq_map_digits n
  have digits : (hex08 n).mapM hexDigit = some ds := by
    rw [written]
    exact Text.mapM_map_eq_some _ _ ds fun d member => hexDigit_digitChar d (below d member)
  show (if hex08 n = [] then none
    else ((hex08 n).mapM hexDigit).map fun ds => ds.foldl (fun v d => 16 * v + d) 0) = some n
  rw [if_neg (hex08_ne_nil n), digits, Option.map_some, value]

/-- Only digits stand in a number. -/
theorem notMem_hex08 (c : CodePoint) (n : ℕ) (other : hexDigit c = none) : c ∉ hex08 n := by
  obtain ⟨ds, written, below, -⟩ := hex08_eq_map_digits n
  rw [written]
  intro member
  obtain ⟨d, digit, rfl⟩ := List.mem_map.1 member
  rw [hexDigit_digitChar d (below d digit)] at other
  cases other

/-! ## Entries -/

/-- The size of an entry, as text. -/
def sizeText : Option ℕ → PyStr
  | some size => str "0x" ++ hex08 size
  | none => str "-"

theorem mtdpart_eq (p : Partition) :
    mtdpart p = sizeText p.size ++ .scalar '@' :: (str "0x" ++ hex08 p.start
      ++ CodePoint.scalar '(' :: (p.name ++ [CodePoint.scalar ')'])) := by
  unfold mtdpart
  cases p.size <;> simp [sizeText, str]

theorem notMem_number (c : CodePoint) (n : ℕ) (other : hexDigit c = none) (mark : c ≠ .scalar 'x') :
    c ∉ str "0x" ++ hex08 n := by
  have zero : c ≠ .scalar '0' := by
    rintro rfl
    cases other
  simp [str, notMem_hex08 c n other, mark, zero]

theorem notMem_sizeText (c : CodePoint) (size : Option ℕ) (other : hexDigit c = none)
    (mark : c ≠ .scalar 'x') (dash : c ≠ .scalar '-') : c ∉ sizeText size := by
  cases size with
  | some n => exact notMem_number c n other mark
  | none => simpa [sizeText, str] using dash

theorem parseSize_sizeText (size : Option ℕ) : parseSize (sizeText size) = some size := by
  cases size with
  | none => rfl
  | some n =>
    have number : str "0x" ++ hex08 n ≠ str "-" := by simp [str]
    rw [sizeText, parseSize, if_neg number, parseHex_hex08, Option.map_some]

theorem parseItem_mtdpart (p : Partition) (delimited : p.Delimited) :
    parseItem (mtdpart p) = some p := by
  have size := notMem_sizeText (.scalar '@') p.size rfl (by decide) (by decide)
  have start := notMem_number (.scalar '(') p.start rfl (by decide)
  have name : CodePoint.scalar ')' ∉ p.name := delimited ')' (by decide)
  rw [parseItem, mtdpart_eq]
  simp only [Text.cutAt_append _ _ _ size, Text.cutAt_append _ _ _ start,
    Text.cutAt_append _ _ _ name, Option.bind_eq_bind, Option.bind_some, if_true,
    parseHex_hex08, parseSize_sizeText, Option.pure_def]

/-- A separator of the list does not stand inside an entry. -/
theorem notMem_mtdpart (c : Char) (p : Partition) (delimited : p.Delimited)
    (separator : c = ',' ∨ c = '\n') : CodePoint.scalar c ∉ mtdpart p := by
  have name : CodePoint.scalar c ∉ p.name :=
    delimited c (by rcases separator with rfl | rfl <;> decide)
  have size : CodePoint.scalar c ∉ sizeText p.size := by
    apply notMem_sizeText <;> rcases separator with rfl | rfl <;> decide
  have start : CodePoint.scalar c ∉ str "0x" ++ hex08 p.start := by
    apply notMem_number <;> rcases separator with rfl | rfl <;> decide
  have marks : c ≠ '@' ∧ c ≠ '(' ∧ c ≠ ')' := by rcases separator with rfl | rfl <;> decide
  rw [mtdpart_eq]
  simp only [List.mem_append, List.mem_cons, CodePoint.scalar.injEq, not_or] at name size start ⊢
  simp [name, size, start, marks]

/-! ## The text -/

/-- What stands before the `mtdparts` list. -/
def preamble (cmdlineExtra : PyStr) : PyStr :=
  headerLines.flatMap (· ++ str "\n") ++ str "CMDLINE:" ++ cmdlineExtra

theorem buildText_eq (parts : List Partition) (extra : PyStr) :
    buildText parts extra = preamble extra ++ (str "mtdparts" ++ (str "=rk29xxnand"
      ++ CodePoint.scalar ':' ::
        ((str ",").intercalate (parts.map mtdpart) ++ [CodePoint.scalar '\n']))) := by
  have marked :
      str "mtdparts=rk29xxnand:" =
        str "mtdparts" ++ (str "=rk29xxnand" ++ [CodePoint.scalar ':']) := by
    decide
  rw [buildText, Text.intercalate_concat, marked, show str "\n" = [.scalar '\n'] from rfl]
  simp [preamble, str]

/-- The word searched for does not occur before the list. -/
theorem preamble_lacks_mtdparts (extra : PyStr) (clean : ¬ str "mtdparts" <:+: extra) :
    ¬ str "mtdparts" <:+: preamble extra := by
  have header : CodePoint.scalar 'm' ∉ headerLines.flatMap (· ++ str "\n") ++ str "CMDLINE:" := by
    decide
  exact fun inside => clean (Text.infix_of_infix_append _ (str "tdparts") _ extra header inside)

/-- The boot chain's parser reads back the layout the text was made from. -/
theorem parseMtdparts_buildText (parts : List Partition) (extra : PyStr) (nonempty : parts ≠ [])
    (delimited : ∀ p ∈ parts, p.Delimited) (clean : ¬ str "mtdparts" <:+: extra) :
    parseMtdparts (buildText parts extra) = some parts := by
  have word : Text.afterFirst (str "mtdparts") (buildText parts extra) = some (str "=rk29xxnand"
      ++ CodePoint.scalar ':' ::
        ((str ",").intercalate (parts.map mtdpart) ++ [CodePoint.scalar '\n'])) := by
    rw [buildText_eq]
    exact Text.afterFirst_append _ (str "tdparts") _ _ (by decide)
      (preamble_lacks_mtdparts extra clean)
  have colon : CodePoint.scalar ':' ∉ str "=rk29xxnand" := by decide
  have newline : CodePoint.scalar '\n' ∉ (str ",").intercalate (parts.map mtdpart) := by
    apply Text.notMem_intercalate _ _ _ (by decide)
    intro entry member
    obtain ⟨p, hp, rfl⟩ := List.mem_map.1 member
    exact notMem_mtdpart _ p (delimited p hp) (.inr rfl)
  have entries : ((str ",").intercalate (parts.map mtdpart)).splitOn (.scalar ',')
      = parts.map mtdpart := by
    apply List.splitOn_intercalate (CodePoint.scalar ',')
    · intro entry member
      obtain ⟨p, hp, rfl⟩ := List.mem_map.1 member
      exact notMem_mtdpart _ p (delimited p hp) (.inl rfl)
    · simpa using nonempty
  have items := Text.mapM_map_eq_some mtdpart parseItem parts fun p hp =>
    parseItem_mtdpart p (delimited p hp)
  rw [parseMtdparts, word]
  simp only [Option.bind_eq_bind, Option.bind_some, Text.cutAt_append _ _ _ colon,
    Text.cutAt_append _ _ _ newline, entries, items]

/-! ## The frame -/

/-- The block before its padding. -/
def frame (text : List UInt8) : List UInt8 :=
  Struct.leBytes 4 tag ++ Struct.leBytes 4 text.length ++ text ++ Struct.leBytes 4 (rkCrc32 text)

theorem length_frame (text : List UInt8) : (frame text).length = text.length + 12 := by
  simp only [frame, List.length_append, Struct.length_leBytes]
  omega

/-- `build` of a text that has an encoding and a length that fits its field. -/
theorem build_eq (parts : List Partition) (extra : PyStr) (padTo : ℕ) (text : List UInt8)
    (encoded : encode (buildText parts extra) = some text) (short : text.length < 256 ^ 4) :
    build parts extra padTo = if (frame text).length > padTo then
        .error (.systemExit (str "parameter is " ++ str (toString (frame text).length)
          ++ str " bytes, does not fit in " ++ str (toString padTo)))
      else .ok (frame text ++ List.replicate (padTo - (frame text).length) 0) := by
  have tagField := Struct.pack_eq_some 4 tag (by decide)
  have lengthField := Struct.pack_eq_some 4 text.length short
  have crcField := Struct.pack_eq_some 4 (rkCrc32 text) (rkCrc32_lt text)
  simp only [build, encoded, orRaise_some_bind, tagField, lengthField, crcField]
  rfl

/-- `build` raises or returns, by whether the text has an encoding that fits with its frame. -/
theorem build_cases (parts : List Partition) (extra : PyStr) (padTo : ℕ) (small : padTo < 2 ^ 32) :
    (∃ e, build parts extra padTo = .error e) ∧
        (∀ text, encode (buildText parts extra) = some text → padTo < text.length + 12) ∨
      ∃ text, encode (buildText parts extra) = some text ∧ text.length + 12 ≤ padTo ∧
        build parts extra padTo
          = .ok (frame text ++ List.replicate (padTo - (text.length + 12)) 0) := by
  cases encoded : encode (buildText parts extra) with
  | none =>
    refine .inl ⟨⟨.unicodeEncodeError, ?_⟩, by simp⟩
    rw [build, encoded, orRaise_none_bind]
  | some text =>
    by_cases fits : text.length + 12 ≤ padTo
    · refine .inr ⟨text, rfl, fits, ?_⟩
      rw [build_eq parts extra padTo text encoded (by omega), length_frame, if_neg (by omega)]
    · refine .inl ⟨?_, by simp; omega⟩
      by_cases short : text.length < 256 ^ 4
      · rw [build_eq parts extra padTo text encoded short, length_frame, if_pos (by omega)]
        exact ⟨_, rfl⟩
      · refine ⟨.structError, ?_⟩
        have tagField := Struct.pack_eq_some 4 tag (by decide)
        have lengthField : Struct.pack 4 text.length = none := if_neg short
        simp only [build, encoded, orRaise_some_bind, tagField, lengthField, orRaise_none_bind]

/-- `inspect` undoes the frame, whatever follows it. -/
theorem inspect_frame (text rest : List UInt8) (short : text.length < 256 ^ 4) :
    inspect (frame text ++ rest) = .ok ⟨tag, text.length, text, rkCrc32 text, true⟩ := by
  have tagField : Struct.unpackFrom 4 (frame text ++ rest) 0 = some tag := by
    have read := Struct.unpackFrom_append 4 tag (by decide) []
      (Struct.leBytes 4 text.length ++ text ++ Struct.leBytes 4 (rkCrc32 text) ++ rest)
    simpa [frame] using read
  have lengthField : Struct.unpackFrom 4 (frame text ++ rest) 4 = some text.length := by
    have read := Struct.unpackFrom_append 4 text.length short (Struct.leBytes 4 tag)
      (text ++ Struct.leBytes 4 (rkCrc32 text) ++ rest)
    simpa [frame] using read
  have body : Struct.slice (frame text ++ rest) 8 (8 + text.length) = text := by
    have read := Struct.slice_append (Struct.leBytes 4 tag ++ Struct.leBytes 4 text.length) text
      (Struct.leBytes 4 (rkCrc32 text) ++ rest)
    simpa [frame] using read
  have crcField : Struct.unpackFrom 4 (frame text ++ rest) (8 + text.length)
      = some (rkCrc32 text) := by
    have read := Struct.unpackFrom_append 4 (rkCrc32 text) (rkCrc32_lt text)
      (Struct.leBytes 4 tag ++ Struct.leBytes 4 text.length ++ text) rest
    rw [List.length_append, List.length_append, Struct.length_leBytes, Struct.length_leBytes]
      at read
    exact read
  simp only [inspect, orRaise_some_bind, tagField, lengthField, body, crcField, beq_self_eq_true]
  rfl

/-- A parameter block decodes to the layout it was built from: `build` raises exactly when there is
no encoding of the text that fits in a sector with its frame, and otherwise returns a sector that
passes `inspect` and whose text has the layout in its `mtdparts` list. -/
theorem parameter_block_roundtrip (parts : List Partition) (extra : PyStr) (nonempty : parts ≠ [])
    (delimited : ∀ p ∈ parts, p.Delimited) (clean : ¬ str "mtdparts" <:+: extra) :
    ((∃ e, build parts extra sector = .error e) ↔
        ∀ text, encode (buildText parts extra) = some text → 512 < text.length + 12) ∧
      ∀ blob, build parts extra sector = .ok blob → blob.length = 512 ∧
        ∃ seen, inspect blob = .ok seen ∧ seen.passed = true ∧
          (decode seen.text).bind parseMtdparts = some parts := by
  rcases build_cases parts extra sector (by decide) with
    ⟨⟨e, raised⟩, long⟩ | ⟨text, encoded, fits, built⟩
  · refine ⟨⟨fun _ => long, fun _ => ⟨e, raised⟩⟩, ?_⟩
    intro blob built
    rw [raised] at built
    cases built
  · rw [sector] at fits
    refine ⟨⟨?_, fun long => absurd (long text encoded) (by omega)⟩, ?_⟩
    · rintro ⟨e, raised⟩
      rw [built] at raised
      cases raised
    · intro blob returned
      rw [built, Except.ok.injEq] at returned
      subst returned
      refine ⟨?_, _, inspect_frame text _ (by omega), by simp [Inspection.passed], ?_⟩
      · rw [List.length_append, length_frame, List.length_replicate, sector]
        omega
      · rw [decode_encode encoded, Option.bind_some]
        exact parseMtdparts_buildText parts extra nonempty delimited clean

/-- The default layout, with nothing inserted on the command line. -/
theorem parameter_block_roundtrip_default :
    (¬ ∃ e, build defaultParts [] sector = .error e) ∧
      ∀ blob, build defaultParts [] sector = .ok blob →
        ∃ seen, inspect blob = .ok seen ∧ seen.passed = true ∧
          (decode seen.text).bind parseMtdparts = some defaultParts := by
  obtain ⟨raises, back⟩ :=
    parameter_block_roundtrip defaultParts [] (List.cons_ne_nil _ _) (by decide +kernel)
      (by decide +kernel)
  refine ⟨?_, fun blob built => (back blob built).2⟩
  rw [raises]
  intro long
  have short : ((encode (buildText defaultParts [])).elim 512 List.length) ≤ 500 := by
    decide +kernel
  cases encoded : encode (buildText defaultParts []) with
  | none =>
    rw [encoded] at short
    exact absurd short (by decide)
  | some text =>
    rw [encoded] at short
    have longer := long text encoded
    simp only [Option.elim_some] at short
    omega

end RkNand.MkRkparam
