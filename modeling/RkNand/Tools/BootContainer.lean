import RkNand.Tools.Idblock

/-!
# The BOOT container (`mk-idblock.py`)

A container has three lists of entries, each found through a header that gives the number of
entries, the offset of the first and their stride; an entry has a name in UTF-16 and the range of
its payload, which is encrypted in blocks.  `parse_boot_container` decrypts them all into a `dict`.
-/

namespace RkNand.MkIdblock

open Python StreamCipher

/-! ## The script -/

/-- One byte in the `repr` of a byte string. -/
def reprByte (quote b : UInt8) : PyStr :=
  let self : PyStr := [.scalar (Char.ofNat b.toNat)]
  if b = quote ∨ b = 0x5C then str "\\" ++ self
  else if b = 9 then str "\\t"
  else if b = 10 then str "\\n"
  else if b = 13 then str "\\r"
  else if b < 0x20 ∨ 0x7F ≤ b then
    str "\\x" ++ [.scalar (Nat.digitChar (b.toNat / 16)), .scalar (Nat.digitChar (b.toNat % 16))]
  else self

/-- The `repr` of a byte string: in double quotes only if it has a single quote and no double
one. -/
def reprBytes (bs : List UInt8) : PyStr :=
  let quote : UInt8 := if 39 ∈ bs ∧ 34 ∉ bs then 34 else 39
  let mark : PyStr := [.scalar (Char.ofNat quote.toNat)]
  str "b" ++ mark ++ bs.flatMap (reprByte quote) ++ mark

/-- `b"BOOT"`. -/
def bootTag : List UInt8 := [0x42, 0x4F, 0x4F, 0x54]

/-- What `parse_boot_container` returns. -/
abbrev Payloads := Dict PyStr (List UInt8)

/-- `name.split("\0")[0]`. -/
def untilNul (name : PyStr) : PyStr := name.takeWhile (· ≠ .scalar (Char.ofNat 0))

/-- The body of the inner loop: the entry at offset `e`. -/
def parseEntry (d : List UInt8) (payloads : Payloads) (e : ℕ) : Except PyError Payloads := do
  let name ← orRaise .unicodeDecodeError (decodeUtf16le (Struct.slice d (e + 5) (e + 45)))
  let dataOff ← orRaise .structError (Struct.unpackFrom 4 d (e + 45))
  let dataSize ← orRaise .structError (Struct.unpackFrom 4 d (e + 49))
  let _delay ← orRaise .structError (Struct.unpackFrom 4 d (e + 53))
  .ok (payloads.set (untilNul name)
    (rc4Blocks (Struct.slice d dataOff (dataOff + dataSize))))

/-- The body of the outer loop: the list whose header is at offset `off`. -/
def parseList (d : List UInt8) (payloads : Payloads) (off : ℕ) : Except PyError Payloads := do
  let num ← orRaise .structError (Struct.unpackFrom 1 d off)
  let entOff ← orRaise .structError (Struct.unpackFrom 4 d (off + 1))
  let entSize ← orRaise .structError (Struct.unpackFrom 1 d (off + 5))
  (List.range num).foldlM (fun payloads i => parseEntry d payloads (entOff + i * entSize)) payloads

/-- `parse_boot_container`, of the bytes of the file. -/
def parseBootContainer (path : PyStr) (d : List UInt8) : Except PyError Payloads :=
  if d.take 4 ≠ bootTag then
    .error (.systemExit (path ++ str ": not an rkbin BOOT container (tag " ++ reprBytes (d.take 4)
      ++ str ")"))
  else [0x19, 0x19 + 6, 0x19 + 12].foldlM (parseList d) []

/-! ## Containers -/

/-- The number in the `w` bytes at an offset. -/
def numAt (d : List UInt8) (w off : ℕ) : ℕ := Struct.leNat (Struct.slice d off (off + w))

/-- The offsets of the entries of the list whose header is at `off`. -/
def listEntries (d : List UInt8) (off : ℕ) : List ℕ :=
  (List.range (numAt d 1 off)).map fun i => numAt d 4 (off + 1) + i * numAt d 1 (off + 5)

/-- The offsets of all entries, list by list. -/
def entries (d : List UInt8) : List ℕ := [0x19, 0x19 + 6, 0x19 + 12].flatMap (listEntries d)

/-- The name of an entry, if its field is UTF-16. -/
def entryName (d : List UInt8) (e : ℕ) : Option PyStr :=
  (decodeUtf16le (Struct.slice d (e + 5) (e + 45))).map untilNul

/-- `data_size` of an entry. -/
def entrySize (d : List UInt8) (e : ℕ) : ℕ := numAt d 4 (e + 49)

/-- The range of the file an entry points to. -/
def entryRange (d : List UInt8) (e : ℕ) : List UInt8 :=
  Struct.slice d (numAt d 4 (e + 45)) (numAt d 4 (e + 45) + entrySize d e)

/-- A container whose headers and entries can be read, wherever their payloads are. -/
structure Readable (d : List UInt8) : Prop where
  tag : d.take 4 = bootTag
  headers : 0x19 + 18 ≤ d.length
  inside : ∀ e ∈ entries d, e + 57 ≤ d.length
  names : ∀ e ∈ entries d, (entryName d e).isSome

/-- A container all of whose parts are there. -/
structure Container (d : List UInt8) : Prop extends Readable d where
  ranges : ∀ e ∈ entries d, numAt d 4 (e + 45) + entrySize d e ≤ d.length
  distinct : ((entries d).map (entryName d)).Nodup

theorem unpackFrom_eq_numAt {d : List UInt8} {w off : ℕ} (inside : off + w ≤ d.length) :
    Struct.unpackFrom w d off = some (numAt d w off) := if_pos inside

theorem eq_numAt_of_unpackFrom {d : List UInt8} {e : PyError} {w off v : ℕ}
    (read : orRaise e (Struct.unpackFrom w d off) = .ok v) :
    off + w ≤ d.length ∧ v = numAt d w off := by
  have field := eq_some_of_orRaise read
  rw [Struct.unpackFrom] at field
  split_ifs at field with inside
  exact ⟨inside, (Option.some.inj field).symm⟩

/-- The item an entry gives. -/
def entryItem (d : List UInt8) (e : ℕ) : PyStr × List UInt8 :=
  ((entryName d e).getD [], rc4Blocks (entryRange d e))

/-- The items of all entries, set one after the other. -/
def items (d : List UInt8) : Payloads :=
  ((entries d).map (entryItem d)).foldl (fun payloads item => payloads.set item.1 item.2) []

section Parse

variable {d : List UInt8}

section Readable

variable (readable : Readable d)
include readable

theorem parseEntry_ok {e : ℕ} (entry : e ∈ entries d) (payloads : Payloads) :
    parseEntry d payloads e = .ok (payloads.set (entryItem d e).1 (entryItem d e).2) := by
  have inside := readable.inside e entry
  obtain ⟨name, decoded⟩ := Option.isSome_iff_exists.1 (readable.names e entry)
  obtain ⟨field, units, rfl⟩ := Option.map_eq_some_iff.1 decoded
  simp only [parseEntry, units, orRaise_some_bind,
    unpackFrom_eq_numAt (show e + 45 + 4 ≤ d.length by omega),
    unpackFrom_eq_numAt (show e + 49 + 4 ≤ d.length by omega),
    unpackFrom_eq_numAt (show e + 53 + 4 ≤ d.length by omega), entryItem, decoded, Option.getD_some,
    entryRange, entrySize]

theorem parseList_ok {off : ℕ} (listed : off ∈ [0x19, 0x19 + 6, 0x19 + 12]) (payloads : Payloads) :
    parseList d payloads off = .ok ((listEntries d off).foldl
      (fun payloads e => payloads.set (entryItem d e).1 (entryItem d e).2) payloads) := by
  have inside : off + 6 ≤ d.length := by
    have headers := readable.headers
    simp only [List.mem_cons, List.not_mem_nil, or_false] at listed
    omega
  have entry : ∀ i ∈ List.range (numAt d 1 off),
      numAt d 4 (off + 1) + i * numAt d 1 (off + 5) ∈ entries d := fun i hi =>
    List.mem_flatMap.2 ⟨off, listed, List.mem_map.2 ⟨i, hi, rfl⟩⟩
  simp only [parseList, orRaise_some_bind,
    unpackFrom_eq_numAt (show off + 1 ≤ d.length by omega),
    unpackFrom_eq_numAt (show off + 1 + 4 ≤ d.length by omega),
    unpackFrom_eq_numAt (show off + 5 + 1 ≤ d.length by omega)]
  rw [listEntries, List.foldl_map]
  exact foldlM_ok _ _ _ _ fun i hi payloads => parseEntry_ok readable (entry i hi) payloads

theorem entryItem_name {e : ℕ} (entry : e ∈ entries d) :
    entryName d e = some (entryItem d e).1 := by
  obtain ⟨name, decoded⟩ := Option.isSome_iff_exists.1 (readable.names e entry)
  rw [entryItem, decoded, Option.getD_some]

/-- A container that can be read is parsed, wherever its payloads are. -/
theorem parseBootContainer_readable (path : PyStr) :
    parseBootContainer path d = .ok (items d) := by
  rw [parseBootContainer, if_neg (not_not.2 readable.tag),
    foldlM_ok _ _ _ _ fun off listed payloads => parseList_ok readable listed payloads,
    items, List.foldl_map, entries, List.foldl_flatMap]

end Readable

/-- An entry that was parsed is inside the file and has a name. -/
theorem entry_of_parseEntry {payloads payloads' : Payloads} {e : ℕ}
    (parsed : parseEntry d payloads e = .ok payloads') :
    e + 57 ≤ d.length ∧ (entryName d e).isSome := by
  obtain ⟨name, decoded, parsed⟩ := eq_ok_of_bind parsed
  obtain ⟨_, -, parsed⟩ := eq_ok_of_bind parsed
  obtain ⟨_, -, parsed⟩ := eq_ok_of_bind parsed
  obtain ⟨_, delay, -⟩ := eq_ok_of_bind parsed
  have inside := (eq_numAt_of_unpackFrom delay).1
  refine ⟨by omega, ?_⟩
  rw [entryName, eq_some_of_orRaise decoded]
  rfl

/-- A list that was parsed has its header and its entries inside the file. -/
theorem list_of_parseList {payloads payloads' : Payloads} {off : ℕ}
    (parsed : parseList d payloads off = .ok payloads') :
    off + 6 ≤ d.length ∧ ∀ e ∈ listEntries d off, e + 57 ≤ d.length ∧ (entryName d e).isSome := by
  obtain ⟨num, readNum, parsed⟩ := eq_ok_of_bind parsed
  obtain ⟨entOff, readOff, parsed⟩ := eq_ok_of_bind parsed
  obtain ⟨entSize, readSize, parsed⟩ := eq_ok_of_bind parsed
  obtain ⟨-, rfl⟩ := eq_numAt_of_unpackFrom readNum
  obtain ⟨-, rfl⟩ := eq_numAt_of_unpackFrom readOff
  obtain ⟨inside, rfl⟩ := eq_numAt_of_unpackFrom readSize
  refine ⟨by omega, fun e entry => ?_⟩
  obtain ⟨i, member, rfl⟩ := List.mem_map.1 entry
  obtain ⟨_, _, round⟩ := round_of_foldlM_ok parsed i member
  exact entry_of_parseEntry round

/-- What is parsed could be read. -/
theorem readable_of_parseBootContainer {path : PyStr} {payloads : Payloads}
    (parsed : parseBootContainer path d = .ok payloads) : Readable d := by
  rw [parseBootContainer] at parsed
  split_ifs at parsed with tag
  have lists : ∀ off ∈ [0x19, 0x19 + 6, 0x19 + 12], off + 6 ≤ d.length ∧
      ∀ e ∈ listEntries d off, e + 57 ≤ d.length ∧ (entryName d e).isSome := by
    intro off listed
    obtain ⟨_, _, round⟩ := round_of_foldlM_ok parsed off listed
    exact list_of_parseList round
  have every : ∀ e ∈ entries d, e + 57 ≤ d.length ∧ (entryName d e).isSome := by
    intro e entry
    obtain ⟨off, listed, member⟩ := List.mem_flatMap.1 entry
    exact (lists off listed).2 e member
  exact ⟨not_not.1 tag, (lists (0x19 + 12) (by simp)).1, fun e entry => (every e entry).1,
    fun e entry => (every e entry).2⟩

variable (container : Container d)
include container

theorem entryItem_length {e : ℕ} (entry : e ∈ entries d) :
    (entryItem d e).2.length = entrySize d e := by
  rw [entryItem, length_rc4Blocks, entryRange,
    Struct.length_slice _ _ _ (container.ranges e entry), Nat.add_sub_cancel_left]

theorem nodup_keys : (((entries d).map (entryItem d)).map Prod.fst).Nodup := by
  apply List.Nodup.of_map some
  have named : (((entries d).map (entryItem d)).map Prod.fst).map some
      = (entries d).map (entryName d) := by
    rw [List.map_map, List.map_map]
    exact List.map_congr_left fun e entry => (entryItem_name container.toReadable entry).symm
  rw [named]
  exact container.distinct

/-- The items of the result are those of the entries, in their order. -/
theorem parseBootContainer_eq (path : PyStr) :
    parseBootContainer path d = .ok ((entries d).map (entryItem d)) := by
  rw [parseBootContainer_readable container.toReadable, items,
    Dict.foldl_set _ [] (nodup_keys container), List.nil_append]

end Parse

/-- Every payload is recovered: there is one item for each entry, under its name, of its size, and
it is the plaintext if the range was encrypted in blocks. -/
theorem parseBootContainer_recovers (path : PyStr) (d : List UInt8) (container : Container d) :
    ∃ payloads, parseBootContainer path d = .ok payloads ∧ (payloads.map Prod.fst).Nodup ∧
      List.Forall₂ (fun e item => entryName d e = some item.1 ∧
        item.2.length = entrySize d e ∧
        ∀ plain, entryRange d e = rc4Blocks plain → item.2 = plain) (entries d) payloads := by
  refine ⟨_, parseBootContainer_eq container path, nodup_keys container, ?_⟩
  rw [List.forall₂_map_right_iff, List.forall₂_same]
  intro e entry
  refine ⟨entryItem_name container.toReadable entry, entryItem_length container entry, ?_⟩
  intro plain stored
  rw [entryItem, stored, rc4Blocks_rc4Blocks]

/-! ### One entry in the first list, two in the second -/

/-- An entry of a container: its name, its offset and its size. -/
def entryBytes (name : String) (off size : ℕ) : List UInt8 :=
  let chars := name.toList.flatMap fun c => Struct.leBytes 2 c.toNat
  [57, 4, 0, 0, 0] ++ chars ++ List.replicate (40 - chars.length) 0 ++ Struct.leBytes 4 off
    ++ Struct.leBytes 4 size ++ Struct.leBytes 4 0

/-- The headers and the entries. -/
def twoListsHead : List UInt8 :=
  bootTag ++ List.replicate 21 0 ++ [1, 43, 0, 0, 0, 57] ++ [2, 100, 0, 0, 0, 57]
    ++ List.replicate 6 0 ++ entryBytes "UsbHead" 214 3 ++ entryBytes "FlashData" 217 600
    ++ entryBytes "FlashBoot" 817 512

def usbHead : List UInt8 := [7, 8, 9]

/-- A payload of one block and part of another. -/
def flashData : List UInt8 := List.replicate 600 0x11

def flashBoot : List UInt8 := List.replicate 512 0x22

def twoLists : List UInt8 :=
  twoListsHead ++ rc4Blocks usbHead ++ rc4Blocks flashData ++ rc4Blocks flashBoot

theorem length_twoLists : twoLists.length = 1329 := by
  have head : twoListsHead.length = 214 := by decide +kernel
  simp only [twoLists, List.length_append, length_rc4Blocks, head]
  decide +kernel

theorem entries_twoLists : entries twoLists = [43, 100, 157] := by decide +kernel

theorem entryName_twoLists : entryName twoLists 43 = some (str "UsbHead") ∧
    entryName twoLists 100 = some (str "FlashData") ∧
    entryName twoLists 157 = some (str "FlashBoot") := by
  decide +kernel

theorem container_twoLists : Container twoLists where
  tag := by decide +kernel
  headers := by rw [length_twoLists]; decide
  inside := by rw [length_twoLists, entries_twoLists]; decide
  names := by
    rw [entries_twoLists]
    simp [entryName_twoLists.1, entryName_twoLists.2.1, entryName_twoLists.2.2]
  ranges := by rw [length_twoLists, entries_twoLists]; decide +kernel
  distinct := by
    rw [entries_twoLists, List.map_cons, List.map_cons, List.map_cons, List.map_nil,
      entryName_twoLists.1, entryName_twoLists.2.1, entryName_twoLists.2.2]
    decide +kernel

theorem entryRange_of_parts {d stored : List UInt8} {e : ℕ} (before after : List UInt8)
    (parts : d = before ++ stored ++ after) (off : numAt d 4 (e + 45) = before.length)
    (size : entrySize d e = stored.length) : entryRange d e = stored := by
  rw [entryRange, off, size, parts, Struct.slice_append]

theorem entryRange_twoLists : entryRange twoLists 43 = rc4Blocks usbHead ∧
    entryRange twoLists 100 = rc4Blocks flashData ∧
    entryRange twoLists 157 = rc4Blocks flashBoot := by
  have head : twoListsHead.length = 214 := by decide +kernel
  refine ⟨entryRange_of_parts twoListsHead (rc4Blocks flashData ++ rc4Blocks flashBoot)
      (by simp [twoLists]) ?_ ?_,
    entryRange_of_parts (twoListsHead ++ rc4Blocks usbHead) (rc4Blocks flashBoot)
      (by simp [twoLists]) ?_ ?_,
    entryRange_of_parts (twoListsHead ++ rc4Blocks usbHead ++ rc4Blocks flashData) []
      (by simp [twoLists]) ?_ ?_⟩
  all_goals
    simp only [List.length_append, length_rc4Blocks, head]
    decide +kernel

/-- All three plaintexts come back, each under its name. -/
theorem parseBootContainer_recovers_twoLists :
    parseBootContainer (str "boot.bin") twoLists = .ok [(str "UsbHead", usbHead),
      (str "FlashData", flashData), (str "FlashBoot", flashBoot)] := by
  obtain ⟨payloads, parsed, -, recovered⟩ :=
    parseBootContainer_recovers (str "boot.bin") twoLists container_twoLists
  rw [entries_twoLists] at recovered
  obtain ⟨usbRange, dataRange, bootRange⟩ := entryRange_twoLists
  rcases recovered with _ | ⟨usb, _ | ⟨data, _ | ⟨boot, _ | _⟩⟩⟩
  rw [entryName_twoLists.1, Option.some.injEq] at usb
  rw [entryName_twoLists.2.1, Option.some.injEq] at data
  rw [entryName_twoLists.2.2, Option.some.injEq] at boot
  rw [parsed, usb.1, data.1, boot.1, ← usb.2.2 _ usbRange, ← data.2.2 _ dataRange,
    ← boot.2.2 _ bootRange]

end RkNand.MkIdblock
