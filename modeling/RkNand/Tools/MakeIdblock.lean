import RkNand.Tools.BootContainer

/-!
# From a container to an idblock (`mk-idblock.py`)

`main` parses a container, takes the DDR init blob and the loader from it by name and builds an
idblock.  An entry's range is cut out of the file by a slice, which stops at the end of the file
without a word, and `build_idblock` asks for whole blocks only.  So a file that was cut short gives
short payloads (`neverShort_iff`), and an idblock is built of them (`truncated_builds`).
-/

namespace RkNand.MkIdblock

open Python StreamCipher

/-! ## The script -/

/-- The number of a code point, by which strings are ordered. -/
def codePoint : CodePoint → ℕ
  | .scalar c => c.toNat
  | .surrogate n => 0xD800 + n

/-- `sorted`, of strings. -/
def sorted (ss : List PyStr) : List PyStr :=
  ss.mergeSort fun a b => !decide (b.map codePoint < a.map codePoint)

section Script

-- the `repr` of a string, which depends on the characters Python holds to be printable
variable (reprStr : PyStr → PyStr)

/-- The `repr` of a list of strings. -/
def reprList (ss : List PyStr) : PyStr :=
  str "[" ++ (str ", ").intercalate (ss.map reprStr) ++ str "]"

/-- The payload of a name, without which `main` exits. -/
def wanted (image : PyStr) (payloads : Payloads) (want : PyStr) : Except PyError (List UInt8) :=
  match Dict.get? payloads want with
  | some blob => .ok blob
  | none => .error (.systemExit (image ++ str ": no payload named " ++ reprStr want
      ++ str "; found " ++ reprList reprStr (sorted (payloads.map Prod.fst))))

/-- The way through `main` that builds an idblock: from the bytes of the container and the two names
to the bytes of the file written. -/
def makeIdblock (image : PyStr) (d : List UInt8) (ddr loader : PyStr) :
    Except PyError (List UInt8) := do
  let payloads ← parseBootContainer image d
  let ddrBlob ← wanted reprStr image payloads ddr
  let loaderBlob ← wanted reprStr image payloads loader
  buildIdblock ddrBlob loaderBlob

end Script

/-! ## Complete payloads -/

/-- The range of an entry ends inside the file, or is empty. -/
def EntryWhole (d : List UInt8) (e : ℕ) : Prop :=
  entrySize d e = 0 ∨ numAt d 4 (e + 45) + entrySize d e ≤ d.length

/-- The payload of an entry ends where its range ends, or with the file. -/
theorem length_entryItem (d : List UInt8) (e : ℕ) : (entryItem d e).2.length
    = min (numAt d 4 (e + 45) + entrySize d e) d.length - numAt d 4 (e + 45) := by
  rw [entryItem, length_rc4Blocks, entryRange, Struct.slice, List.length_drop, List.length_take]

theorem length_entryItem_iff (d : List UInt8) (e : ℕ) :
    (entryItem d e).2.length = entrySize d e ↔ EntryWhole d e := by
  rw [length_entryItem, EntryWhole]
  omega

/-- The payload that the parser stores for an entry. -/
theorem parseEntry_nil_iff {d : List UInt8} (readable : Readable d) {e : ℕ} (entry : e ∈ entries d)
    (name : PyStr) (payload : List UInt8) :
    parseEntry d [] e = .ok [(name, payload)] ↔ (name, payload) = entryItem d e := by
  rw [parseEntry_ok readable entry, Dict.set, if_neg (by simp), List.nil_append, Except.ok.injEq]
  simp [eq_comm]

/-- A payload found under a name is that of an entry with the name. -/
theorem wanted_ok {reprStr : PyStr → PyStr} {image want : PyStr} {d blob : List UInt8}
    (readable : Readable d) (found : wanted reprStr image (items d) want = .ok blob) :
    ∃ e ∈ entries d, entryName d e = some want ∧ blob = (entryItem d e).2 := by
  rw [wanted] at found
  split at found
  · rename_i stored
    cases found
    rcases Dict.mem_foldl_set (Dict.mem_of_get? stored) with member | none
    · obtain ⟨e, entry, item⟩ := List.mem_map.1 member
      exact ⟨e, entry, by rw [entryItem_name readable entry, item], by rw [item]⟩
    · cases none
  · cases found

/-- A container never gives a short payload: each one stored has the size its entry declares, and an
idblock is built of such payloads only. -/
structure NeverShort (reprStr : PyStr → PyStr) (path : PyStr) (d : List UInt8) : Prop where
  stored : ∀ payloads, parseBootContainer path d = .ok payloads → ∀ e ∈ entries d,
    ∀ name payload, parseEntry d [] e = .ok [(name, payload)] → payload.length = entrySize d e
  built : ∀ ddr loader img, makeIdblock reprStr path d ddr loader = .ok img →
    ∃ e ∈ entries d, ∃ e' ∈ entries d, entryName d e = some ddr ∧ entryName d e' = some loader ∧
      ∃ ddrBlob loaderBlob, buildIdblock ddrBlob loaderBlob = .ok img ∧
        ddrBlob.length = entrySize d e ∧ loaderBlob.length = entrySize d e'

/-- No payload is short exactly if the parse raises or the range of every entry ends inside the
file. -/
theorem neverShort_iff (reprStr : PyStr → PyStr) (path : PyStr) (d : List UInt8) :
    NeverShort reprStr path d ↔ (Readable d → ∀ e ∈ entries d, EntryWhole d e) := by
  constructor
  · intro never readable e entry
    rw [← length_entryItem_iff]
    exact never.stored _ (parseBootContainer_readable readable path) e entry _ _
      ((parseEntry_nil_iff readable entry _ _).2 rfl)
  · intro whole
    constructor
    · intro payloads parsed e entry name payload stored
      have readable := readable_of_parseBootContainer parsed
      have item := (parseEntry_nil_iff readable entry name payload).1 stored
      rw [show payload = (entryItem d e).2 from congrArg Prod.snd item, length_entryItem_iff]
      exact whole readable e entry
    · intro ddr loader img made
      obtain ⟨payloads, parsed, made⟩ := eq_ok_of_bind made
      have readable := readable_of_parseBootContainer parsed
      obtain rfl : items d = payloads := by
        rw [parseBootContainer_readable readable path] at parsed
        exact Except.ok.inj parsed
      obtain ⟨ddrBlob, first, made⟩ := eq_ok_of_bind made
      obtain ⟨loaderBlob, second, made⟩ := eq_ok_of_bind made
      obtain ⟨e, entry, name, rfl⟩ := wanted_ok readable first
      obtain ⟨e', entry', name', rfl⟩ := wanted_ok readable second
      refine ⟨e, entry, e', entry', name, name', _, _, made, ?_, ?_⟩
      · exact (length_entryItem_iff d e).2 (whole readable e entry)
      · exact (length_entryItem_iff d e').2 (whole readable e' entry')

/-! ## A file that was cut short -/

/-- A container with a DDR init blob of one block and a loader of two, cut off after the first block
of the loader. -/
def truncated : List UInt8 :=
  bootTag ++ List.replicate 21 0 ++ List.replicate 12 0 ++ [2, 43, 0, 0, 0, 57]
    ++ entryBytes "FlashData" 157 512 ++ entryBytes "FlashBoot" 669 1024
    ++ List.replicate 512 0x11 ++ List.replicate 512 0x22

theorem entries_truncated : entries truncated = [43, 100] := by decide +kernel

theorem entryName_truncated : entryName truncated 43 = some (str "FlashData") ∧
    entryName truncated 100 = some (str "FlashBoot") := by
  decide +kernel

theorem readable_truncated : Readable truncated where
  tag := by decide
  headers := by decide +kernel
  inside := by rw [entries_truncated]; decide +kernel
  names := by
    rw [entries_truncated]
    simp [entryName_truncated.1, entryName_truncated.2]

/-- The loader comes out with half of its bytes, and an idblock is built. -/
theorem truncated_builds :
    entries truncated = [43, 100] ∧ entrySize truncated 100 = 1024 ∧
      ∃ blob img, parseEntry truncated [] 100 = .ok [(str "FlashBoot", blob)] ∧
        blob.length = 512 ∧
        makeIdblock id (str "boot.bin") truncated (str "FlashData") (str "FlashBoot") = .ok img ∧
        img.length = 2048 + 512 + 512 := by
  have sizes : (entryItem truncated 43).2.length = 512 ∧
      (entryItem truncated 100).2.length = 512 := by
    rw [length_entryItem, length_entryItem]
    decide +kernel
  obtain ⟨ddr, data⟩ : ∃ ddr, entryItem truncated 43 = (str "FlashData", ddr) :=
    ⟨_, by rw [entryItem, entryName_truncated.1]; rfl⟩
  obtain ⟨loader, boot⟩ : ∃ loader, entryItem truncated 100 = (str "FlashBoot", loader) :=
    ⟨_, by rw [entryItem, entryName_truncated.2]; rfl⟩
  rw [data, boot] at sizes
  have stored : items truncated = [(str "FlashData", ddr), (str "FlashBoot", loader)] := by
    rw [items, entries_truncated, List.map_cons, List.map_cons, data, boot]
    rfl
  rcases buildIdblock_cases ddr loader with ⟨-, -, -, buf, fields, made⟩ | ⟨refused, -⟩
  · refine ⟨entries_truncated, by decide +kernel, loader, image buf ddr loader, ?_, sizes.2, ?_, ?_⟩
    · rw [parseEntry_nil_iff readable_truncated (by rw [entries_truncated]; simp), boot]
    · rw [makeIdblock, parseBootContainer_readable readable_truncated, stored]
      exact made
    · rw [length_image ddr loader fields, sizes.1, sizes.2]
  · rw [sizes.1, sizes.2] at refused
    exact absurd (by decide) refused

end RkNand.MkIdblock
