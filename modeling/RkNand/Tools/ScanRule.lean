import RkNand.Tools.L2pScan

/-!
# The scan rule of the format documents

`ftl-l2p-algorithm.md` and `ftl-oob-format.md` leave out of Route A the pages whose version or
logical page number is `0xFFFFFFFF`.  `l2p-scan.py` looks at the magic only.  An invalid version
takes part in the wrapping comparison, where it is newer than the upper half of the versions and
older than the lower half, so what such a page does depends on the page it meets
(`scan_documented_iff`).
-/

namespace RkNand.L2pScan

open Newest

/-- The version and the logical page number that mean none. -/
def invalid : UInt32 := 0xFFFFFFFF

/-- A record that takes part in Route A, by the documents. -/
def Record.Valid (r : Record) : Prop := r.magic = dataMagic ∧ r.version ≠ invalid ∧ r.lpn ≠ invalid

instance (r : Record) : Decidable r.Valid := inferInstanceAs (Decidable (_ ∧ _))

/-- The pages of a logical page that take part, in scan order. -/
def validPagesOf (lpn : UInt32) (recs : List Record) : List (ℕ × UInt32) :=
  (recs.filter fun r => r.Valid ∧ r.lpn = lpn).map fun r => (r.pg, r.version)

/-- The map of the documents: of the pages that take part, one that is newer or equal replaces the
one before it. -/
def documentedMap (recs : List Record) (lpn : UInt32) : Option (ℕ × UInt32) :=
  winner beats (validPagesOf lpn recs)

/-- The map the script has built after some records. -/
def scannedMap (recs : List Record) (lpn : UInt32) : Option (ℕ × UInt32) :=
  (recs.foldl scanStep ∅).lookup lpn

/-! ## One more record -/

theorem scannedMap_concat (recs : List Record) (r : Record) (lpn : UInt32) :
    scannedMap (recs ++ [r]) lpn = if r.magic = dataMagic ∧ r.lpn = lpn then
      keep beats (scannedMap recs lpn) (r.pg, r.version) else scannedMap recs lpn := by
  rw [scannedMap, List.foldl_append]
  exact lookup_scanStep _ r lpn

theorem documentedMap_concat (recs : List Record) (r : Record) (lpn : UInt32) :
    documentedMap (recs ++ [r]) lpn = if r.Valid ∧ r.lpn = lpn then
      keep beats (documentedMap recs lpn) (r.pg, r.version) else documentedMap recs lpn := by
  by_cases part : r.Valid ∧ r.lpn = lpn
  · simp [documentedMap, validPagesOf, winner, part]
  · simp [documentedMap, validPagesOf, winner, part]

/-- No page of the documented map has an invalid version. -/
theorem version_ne_invalid {recs : List Record} {lpn : UInt32} {e : ℕ × UInt32}
    (stored : documentedMap recs lpn = some e) : e.2 ≠ invalid := by
  obtain ⟨r, member, rfl⟩ := List.mem_map.1 (mem_of_winner stored)
  rw [List.mem_filter, decide_eq_true_eq] at member
  exact member.2.1.2.1

theorem documentedMap_invalid (recs : List Record) : documentedMap recs invalid = none := by
  have none : validPagesOf invalid recs = [] := by
    simp only [validPagesOf, List.map_eq_nil_iff, List.filter_eq_nil_iff, decide_eq_true_eq]
    rintro r - ⟨valid, same⟩
    exact valid.2.2 same
  rw [documentedMap, none]
  rfl

/-! ## An invalid version in the comparison -/

theorem newer_invalid_iff (v : UInt32) : newer invalid v = true ↔ 0x7FFFFFFF ≤ v.toNat := by
  have below := v.toNat_lt
  rw [newer_iff, show invalid.toNat = 0xFFFFFFFF from rfl]
  omega

/-- An invalid version leaves a candidate of the documented map in place exactly if it is of the
lower half. -/
theorem keep_invalid_iff {stored : Option (ℕ × UInt32)} (pg : ℕ)
    (valid : ∀ e, stored = some e → e.2 ≠ invalid) :
    keep beats stored (pg, invalid) = stored ↔ ∃ e, stored = some e ∧ e.2.toNat < 0x7FFFFFFF := by
  cases stored with
  | none => simp [keep]
  | some e =>
    have upper : beats (pg, invalid) e = true ↔ 0x7FFFFFFF ≤ e.2.toNat := newer_invalid_iff e.2
    have other : (pg, invalid) ≠ e := by
      rintro rfl
      exact valid _ rfl rfl
    by_cases displaced : beats (pg, invalid) e = true
    · have high := upper.1 displaced
      simp only [keep, if_pos displaced, Option.some.injEq, other, exists_eq_left', false_iff]
      omega
    · have low := mt upper.2 displaced
      simp only [keep, if_neg displaced, Option.some.injEq, exists_eq_left', true_iff]
      omega

/-! ## The rule -/

/-- At every moment of the scan the map is that of the documents. -/
def ScansAsDocumented (recs : List Record) : Prop :=
  ∀ seen, seen <+: recs → ∀ lpn, scannedMap seen lpn = documentedMap seen lpn

/-- No data page has the invalid logical page number, and a data page with the invalid version comes
when its logical page is mapped already, to a version of the lower half. -/
structure Harmless (recs : List Record) : Prop where
  lpn : ∀ r ∈ recs, r.magic = dataMagic → r.lpn ≠ invalid
  version : ∀ seen r rest, recs = seen ++ r :: rest → r.magic = dataMagic → r.version = invalid →
    ∃ e, documentedMap seen r.lpn = some e ∧ e.2.toNat < 0x7FFFFFFF

theorem scansAsDocumented_iff (recs : List Record) : ScansAsDocumented recs ↔ Harmless recs := by
  constructor
  · intro same
    have later : ∀ seen r rest, recs = seen ++ r :: rest → r.magic = dataMagic →
        ¬ r.Valid → keep beats (documentedMap seen r.lpn) (r.pg, r.version)
          = documentedMap seen r.lpn := by
      intro seen r rest split magic invalidRecord
      have before := same seen (split ▸ List.prefix_append _ _) r.lpn
      have after := same (seen ++ [r]) (by rw [split]; simp) r.lpn
      rwa [scannedMap_concat, if_pos ⟨magic, rfl⟩, documentedMap_concat,
        if_neg fun part => invalidRecord part.1, before] at after
    constructor
    · intro r member magic noLpn
      obtain ⟨seen, rest, split⟩ := List.append_of_mem member
      have kept := later seen r rest split magic fun valid => valid.2.2 noLpn
      rw [noLpn, documentedMap_invalid] at kept
      cases kept
    · intro seen r rest split magic noVersion
      have kept := later seen r rest split magic fun valid => valid.2.1 noVersion
      rw [noVersion] at kept
      exact (keep_invalid_iff r.pg fun e => version_ne_invalid).1 kept
  · intro harmless seen
    induction seen using List.reverseRecOn with
    | nil => exact fun _ _ => rfl
    | append_singleton seen r ih =>
      rintro ⟨rest, split⟩ lpn
      rw [List.append_assoc, List.singleton_append] at split
      have before := ih (split ▸ List.prefix_append _ _) lpn
      rw [scannedMap_concat, documentedMap_concat, before]
      by_cases part : r.magic = dataMagic ∧ r.lpn = lpn
      · obtain ⟨magic, rfl⟩ := part
        have hasLpn := harmless.lpn r (split ▸ by simp) magic
        by_cases noVersion : r.version = invalid
        · rw [if_pos ⟨magic, rfl⟩, if_neg fun part => part.1.2.1 noVersion, noVersion]
          exact (keep_invalid_iff r.pg fun e => version_ne_invalid).2
            (harmless.version seen r rest split.symm magic noVersion)
        · rw [if_pos ⟨magic, rfl⟩, if_pos ⟨⟨magic, noVersion, hasLpn⟩, rfl⟩]
      · rw [if_neg part, if_neg fun valid => part ⟨valid.1.1, valid.2⟩]

/-! ## The end of the scan -/

theorem scannedMap_eq_winner (recs : List Record) (lpn : UInt32) :
    scannedMap recs lpn = winner beats (pagesOf lpn recs) := by
  rw [scannedMap, lookup_foldl_scanStep, AList.lookup_empty, winner]

theorem scannedMap_eq_none_iff {recs : List Record} {lpn : UInt32} :
    scannedMap recs lpn = none ↔ ∀ r ∈ recs, r.magic = dataMagic → r.lpn ≠ lpn := by
  rw [scannedMap_eq_winner, winner_eq_none_iff]
  simp [pagesOf]

theorem documentedMap_eq_none_iff {recs : List Record} {lpn : UInt32} :
    documentedMap recs lpn = none ↔ ∀ r ∈ recs, r.Valid → r.lpn ≠ lpn := by
  rw [documentedMap, winner_eq_none_iff]
  simp [validPagesOf]

/-- The invalid pages have done no harm by the end of the scan: each logical page with a data page
has a valid one, and of its data pages the script has stored last the one that the documents
choose. -/
structure HarmlessAtEnd (recs : List Record) : Prop where
  mapped : ∀ r ∈ recs, r.magic = dataMagic → ∃ r' ∈ recs, r'.Valid ∧ r'.lpn = r.lpn
  stored : ∀ lpn e, documentedMap recs lpn = some e →
    ∃ seen rest, LastStored beats (pagesOf lpn recs) seen e rest

theorem endsAsDocumented_iff (recs : List Record) :
    (∀ lpn, scannedMap recs lpn = documentedMap recs lpn) ↔ HarmlessAtEnd recs := by
  constructor
  · intro same
    constructor
    · intro r member magic
      by_contra none
      have hole : documentedMap recs r.lpn = Option.none := documentedMap_eq_none_iff.2
        fun r' member' valid lpn => none ⟨r', member', valid, lpn⟩
      rw [← same, scannedMap_eq_none_iff] at hole
      exact hole r member magic rfl
    · intro lpn e chosen
      rw [← same, scannedMap_eq_winner] at chosen
      exact winner_eq_some_iff_lastStored.1 chosen
  · intro harmless lpn
    cases chosen : documentedMap recs lpn with
    | none =>
      rw [scannedMap_eq_none_iff]
      intro r member magic own
      obtain ⟨r', member', valid, lpn'⟩ := harmless.mapped r member magic
      exact documentedMap_eq_none_iff.1 chosen r' member' valid (lpn'.trans own)
    | some e =>
      rw [scannedMap_eq_winner]
      exact winner_eq_some_iff_lastStored.2 (harmless.stored lpn e chosen)

/-- The script follows the documents on a list of records: at every moment of the scan, exactly if
the invalid pages are harmless; at its end, exactly if they have done no harm by then. -/
theorem scan_documented_iff (recs : List Record) :
    (ScansAsDocumented recs ↔ Harmless recs) ∧
      ((∀ lpn, scannedMap recs lpn = documentedMap recs lpn) ↔ HarmlessAtEnd recs) :=
  ⟨scansAsDocumented_iff recs, endsAsDocumented_iff recs⟩

/-- Two pages of logical page 7, the second with the invalid version, and such a page alone. -/
def tornPages : List Record :=
  [⟨1, dataMagic, 0x80000000, 7⟩, ⟨2, dataMagic, invalid, 7⟩, ⟨3, dataMagic, invalid, 8⟩]

/-- A page with the invalid version takes the place of a valid one, and another is mapped where the
documents have a hole. -/
theorem invalid_version_displaces :
    (scannedMap tornPages 7 = some (2, invalid) ∧
        documentedMap tornPages 7 = some (1, 0x80000000)) ∧
      scannedMap tornPages 8 = some (3, invalid) ∧ documentedMap tornPages 8 = none := by
  decide

end RkNand.L2pScan
