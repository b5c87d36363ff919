import RkNand.Lib.Struct
import RkNand.Tools.L2pScan
import RkNand.Tools.Python

/-!
# The write test (`nand-write-test.py`)

`--scan` proposes blocks that look erased, `--run` erases one and writes to it.  A page is read
three ways: its data at a 64-bit offset, its OOB through a field of 32 bits in which the offset
wraps, and its block is erased through a field of 32 bits that an offset must fit.  The range of
blocks reaches beyond 4 GiB, so there the scan vouches for a block by the OOBs of another and the
run cannot erase it (`candidate_checked_iff`).
-/

namespace RkNand.WriteTest

open Python L2pScan

/-! ## The script -/

/-- `PAGES_PER_BLK`. -/
def pagesPerBlk : ℕ := 256

/-- `BLK`. -/
def blkSize : ℕ := page * pagesPerBlk

/-- `NPAGES`. -/
def npages : ℕ := 0x200000000 / page

/-- `FLOOR_BLK`. -/
def floorBlk : ℕ := 64

/-- `SYS_BLK_LO`. -/
def sysBlkLo : ℕ := 4000

/-- The device as the script reads it: the data of a page, or none where `pread` raises; the OOB of
a page; and the answer of `MEMGETBADBLOCK` by byte offset, or none where it raises. -/
structure Mtd where
  data : ℕ → Option Page
  oob : Flash
  badBlock : ℕ → Option ℤ

/-- `read_oob`. -/
def readOob (mtd : Mtd) (pg : ℕ) : Except PyError (List UInt8) := do
  let buf ← orRaise .osError (memReadOob mtd.oob (reqStart pg))
  .ok (buf.raw.take 32)

/-- `oob_is_erased`. -/
def oobIsErased (o : List UInt8) : Bool := Words.wordAt o (2 * 4) &&& 0xFFFF == 0xFFFF

/-- `page_is_erased`. -/
def pageIsErased (mtd : Mtd) (pg : ℕ) : Except PyError Bool :=
  match mtd.data pg with
  | none => .ok false
  | some d =>
    if d.bytes = List.replicate page 0xFF then do
      let o ← readOob mtd pg
      .ok (oobIsErased o)
    else .ok false

/-- `block_bad`. -/
def blockBad (mtd : Mtd) (blk : ℕ) : Bool :=
  match mtd.badBlock (blk * blkSize) with
  | some answer => answer != 0
  | none => true

/-- The pages that `block_fully_erased` samples. -/
def samplePages (blk sample : ℕ) : List ℕ :=
  let step := max 1 (pagesPerBlk / sample)
  List.range' (blk * pagesPerBlk) ((pagesPerBlk + step - 1) / step) step

/-- The loop of `block_fully_erased`. -/
def allErased (mtd : Mtd) : List ℕ → Except PyError Bool
  | [] => .ok true
  | pg :: pgs => do
    let erased ← pageIsErased mtd pg
    if erased then allErased mtd pgs else .ok false

/-- `block_fully_erased`. -/
def blockFullyErased (mtd : Mtd) (blk : ℕ) (sample : ℕ) : Except PyError Bool :=
  if blockBad mtd blk then .ok false else allErased mtd (samplePages blk sample)

/-- The blocks a scan has printed, and how it ended. -/
structure Scan where
  found : List ℕ
  result : Except PyError Unit

/-- The loop of `scan`. -/
def scanLoop (mtd : Mtd) (want : ℕ) : List ℕ → List ℕ → Scan
  | [], found => ⟨found, .ok ()⟩
  | blk :: blks, found =>
    match blockFullyErased mtd blk 8 with
    | .error e => ⟨found, .error e⟩
    | .ok false => scanLoop mtd want blks found
    | .ok true =>
      if want ≤ (found ++ [blk]).length then ⟨found ++ [blk], .ok ()⟩
      else scanLoop mtd want blks (found ++ [blk])

/-- `scan`. -/
def scan (mtd : Mtd) (want : ℕ) : Scan :=
  let totalBlk := npages / pagesPerBlk
  scanLoop mtd want (List.range' floorBlk (min sysBlkLo totalBlk - floorBlk)) []

/-- What `run` does to the device. -/
inductive Op
  | memErase (ei : List UInt8)
  | pwrite (data : List UInt8) (off : ℕ)

/-- How the device answers once `run` has begun to change it: whether the erase and each of the
writes succeed, and what the pages then read as. -/
structure Answers where
  erases : Bool
  writes : ℕ → Bool
  readBack : ℕ → Option Page

/-- What a run has done, and how it ended. -/
structure Run where
  ops : List Op
  result : Except PyError Bool

/-- `struct.pack("<II", blk * BLK, BLK)`. -/
def eraseInfo (blk : ℕ) : Option (List UInt8) := do
  let start ← Struct.pack 4 (blk * blkSize)
  let length ← Struct.pack 4 blkSize
  pure (start ++ length)

/-- The pattern for page `i`. -/
def pattern (i : ℕ) : List UInt8 :=
  (List.range page).map fun j => UInt8.ofNat ((i * 37 + (j &&& 0xff)) &&& 0xff)

/-- The loop of `run` that writes the patterns. -/
def writePages (answers : Answers) (base : ℕ) : List ℕ → List Op × Except PyError Unit
  | [] => ([], .ok ())
  | i :: is =>
    let op := Op.pwrite (pattern i) ((base + i) * page)
    if answers.writes i then
      let rest := writePages answers base is
      (op :: rest.1, rest.2)
    else ([op], .error .osError)

/-- The loop of `run` that reads them back. -/
def verifyPages (answers : Answers) : List ℕ → Except PyError Bool
  | [] => .ok true
  | i :: is => do
    let rb ← orRaise .osError (answers.readBack i)
    let ok ← verifyPages answers is
    .ok (rb.bytes == pattern i && ok)

/-- `run`. -/
def run (mtd : Mtd) (answers : Answers) (blk : ℤ) : Run :=
  if blk < floorBlk ∨ sysBlkLo ≤ blk then
    ⟨[], .error (.systemExit (str "REFUSED: block " ++ str (toString blk)
      ++ str " outside safe range [" ++ str (toString floorBlk) ++ str ","
      ++ str (toString sysBlkLo) ++ str ")"))⟩
  else
    match blockFullyErased mtd blk.toNat 8 with
    | .error e => ⟨[], .error e⟩
    | .ok false => ⟨[], .error (.systemExit (str "REFUSED: block " ++ str (toString blk)
        ++ str " is not fully erased / is bad — pick one from --scan"))⟩
    | .ok true =>
      match eraseInfo blk.toNat with
      | none => ⟨[], .error .structError⟩
      | some ei =>
        if answers.erases then
          let written := writePages answers (blk.toNat * pagesPerBlk) (List.range 4)
          ⟨Op.memErase ei :: written.1, do
            written.2
            verifyPages answers (List.range 4)⟩
        else ⟨[Op.memErase ei], .error .osError⟩

/-! ## What a block is reported for -/

theorem allErased_ok {mtd : Mtd} {pgs : List ℕ} (erased : allErased mtd pgs = .ok true) :
    ∀ pg ∈ pgs, pageIsErased mtd pg = .ok true := by
  induction pgs with
  | nil => simp
  | cons pg pgs ih =>
    obtain ⟨first, page, rest⟩ := eq_ok_of_bind erased
    cases first with
    | false => cases rest
    | true =>
      intro p member
      rcases List.mem_cons.1 member with rfl | later
      · exact page
      · exact ih rest p later

/-- What is known of a page that passed: its data, and the OOB at its offset cut to 32 bits. -/
theorem pageIsErased_ok {mtd : Mtd} {pg : ℕ} (erased : pageIsErased mtd pg = .ok true) :
    (∃ d, mtd.data pg = some d ∧ d.bytes = List.replicate page 0xFF) ∧
      ∃ buf, mtd.oob (pg % half) = some buf ∧ oobIsErased (buf.raw.take 32) = true := by
  rw [pageIsErased] at erased
  cases read : mtd.data pg with
  | none =>
    rw [read] at erased
    cases erased
  | some d =>
    simp only [read] at erased
    by_cases blank : d.bytes = List.replicate page 0xFF
    · rw [if_pos blank] at erased
      obtain ⟨o, readO, passed⟩ := eq_ok_of_bind erased
      obtain ⟨buf, ioctl, cut⟩ := eq_ok_of_bind readO
      have there := eq_some_of_orRaise ioctl
      rw [memReadOob_reqStart] at there
      cases cut
      exact ⟨⟨d, rfl, blank⟩, buf, there, Except.ok.inj passed⟩
    · rw [if_neg blank] at erased
      cases erased

theorem blockFullyErased_ok {mtd : Mtd} {blk sample : ℕ}
    (erased : blockFullyErased mtd blk sample = .ok true) :
    ∀ pg ∈ samplePages blk sample, pageIsErased mtd pg = .ok true := by
  rw [blockFullyErased] at erased
  by_cases bad : blockBad mtd blk = true
  · rw [if_pos bad] at erased
    cases erased
  · rw [if_neg bad] at erased
    exact allErased_ok erased

/-- Every block of a scan was found before it, or has passed the check. -/
theorem mem_scanLoop {mtd : Mtd} {want blk : ℕ} {blks found : List ℕ}
    (reported : blk ∈ (scanLoop mtd want blks found).found) :
    blk ∈ found ∨ blk ∈ blks ∧ blockFullyErased mtd blk 8 = .ok true := by
  induction blks generalizing found with
  | nil => exact .inl reported
  | cons first blks ih =>
    have later : ∀ {found'}, blk ∈ (scanLoop mtd want blks found').found → blk ∈ found' ∨
        blk ∈ first :: blks ∧ blockFullyErased mtd blk 8 = .ok true := by
      intro found' member
      rcases ih member with old | ⟨there, passed⟩
      · exact .inl old
      · exact .inr ⟨List.mem_cons_of_mem _ there, passed⟩
    rw [scanLoop] at reported
    split at reported
    · exact .inl reported
    · exact later reported
    · rename_i passed
      have new : blk ∈ found ++ [first] → blk ∈ found ∨
          blk ∈ first :: blks ∧ blockFullyErased mtd blk 8 = .ok true := by
        intro member
        rcases List.mem_append.1 member with old | here
        · exact .inl old
        · rw [List.mem_singleton.1 here]
          exact .inr ⟨by simp, passed⟩
      split_ifs at reported
      · exact new reported
      · rcases later reported with old | right
        · exact new old
        · exact .inr right

theorem mem_scan {mtd : Mtd} {want blk : ℕ} (reported : blk ∈ (scan mtd want).found) :
    floorBlk ≤ blk ∧ blk < sysBlkLo ∧ blockFullyErased mtd blk 8 = .ok true := by
  rcases mem_scanLoop reported with none | ⟨range, passed⟩
  · cases none
  · rw [List.mem_range'_1] at range
    have total : min sysBlkLo (npages / pagesPerBlk) = 4000 := by decide
    rw [total, floorBlk] at range
    rw [floorBlk, sysBlkLo]
    exact ⟨range.1, by omega, passed⟩

/-! ## What it can be tested for -/

/-- The erase request of a block exists exactly below 4 GiB. -/
theorem eraseInfo_cases (blk : ℕ) :
    (blk < 2048 ∧ ∃ ei, eraseInfo blk = some ei ∧
        Struct.unpackFrom 4 ei 0 = some (blk * blkSize) ∧
        Struct.unpackFrom 4 ei 4 = some blkSize) ∨
      2048 ≤ blk ∧ eraseInfo blk = none := by
  have size : blkSize = 2097152 := by decide
  have length := Struct.pack_eq_some 4 blkSize (by decide)
  by_cases low : blk < 2048
  · have fits : blk * blkSize < 256 ^ 4 := by
      rw [size]
      omega
    have start := Struct.pack_eq_some 4 (blk * blkSize) fits
    have packed : eraseInfo blk
        = some (Struct.leBytes 4 (blk * blkSize) ++ Struct.leBytes 4 blkSize) := by
      simp only [eraseInfo, start, length, Option.bind_eq_bind, Option.bind_some, Option.pure_def]
    refine .inl ⟨low, _, packed, ?_, ?_⟩
    · have read := Struct.unpackFrom_append 4 (blk * blkSize) fits [] (Struct.leBytes 4 blkSize)
      simpa using read
    · have read := Struct.unpackFrom_append 4 blkSize (by decide)
        (Struct.leBytes 4 (blk * blkSize)) []
      simpa using read
  · have start : Struct.pack 4 (blk * blkSize) = none := by
      refine if_neg ?_
      rw [size]
      omega
    exact .inr ⟨by omega, by simp only [eraseInfo, start, Option.bind_eq_bind, Option.bind_none]⟩

/-- A block that was really checked and can be tested. -/
structure Checked (mtd : Mtd) (blk : ℕ) : Prop where
  data : ∀ pg ∈ samplePages blk 8,
    ∃ d, mtd.data pg = some d ∧ d.bytes = List.replicate page 0xFF
  oob : ∀ pg ∈ samplePages blk 8,
    ∃ buf, mtd.oob pg = some buf ∧ oobIsErased (buf.raw.take 32) = true
  erases : ∀ answers, ∃ ei rest, (run mtd answers blk).ops = Op.memErase ei :: rest ∧
    Struct.unpackFrom 4 ei 0 = some (blk * blkSize) ∧ Struct.unpackFrom 4 ei 4 = some blkSize

theorem mem_samplePages {blk pg : ℕ} (sampled : pg ∈ samplePages blk 8) :
    blk * 256 ≤ pg ∧ pg < blk * 256 + 256 := by
  obtain ⟨i, below, rfl⟩ := List.mem_range'.1 sampled
  have count : (pagesPerBlk + max 1 (pagesPerBlk / 8) - 1) / max 1 (pagesPerBlk / 8) = 8 := by
    decide
  have step : max 1 (pagesPerBlk / 8) = 32 := by decide
  rw [count] at below
  rw [step, pagesPerBlk]
  omega

/-- The part of `run` behind its guards. -/
theorem run_passed {mtd : Mtd} {blk : ℕ} (lower : floorBlk ≤ blk) (upper : blk < sysBlkLo)
    (passed : blockFullyErased mtd blk 8 = .ok true) (answers : Answers) :
    run mtd answers blk =
      match eraseInfo blk with
      | none => ⟨[], .error .structError⟩
      | some ei =>
        if answers.erases then
          let written := writePages answers (blk * pagesPerBlk) (List.range 4)
          ⟨Op.memErase ei :: written.1, do
            written.2
            verifyPages answers (List.range 4)⟩
        else ⟨[Op.memErase ei], .error .osError⟩ := by
  have inRange : ¬ ((blk : ℤ) < floorBlk ∨ (sysBlkLo : ℤ) ≤ blk) := by omega
  rw [run, if_neg inRange, Int.toNat_natCast]
  cases eraseInfo blk with
  | none => rw [passed]
  | some ei => rw [passed]

/-- A block that a scan reports is really checked and can be tested exactly if it lies below
4 GiB. -/
theorem candidate_checked_iff (mtd : Mtd) (want blk : ℕ)
    (reported : blk ∈ (scan mtd want).found) : Checked mtd blk ↔ blk < 2048 := by
  obtain ⟨lower, upper, passed⟩ := mem_scan reported
  constructor
  · intro checked
    obtain ⟨ei, rest, reached, -⟩ := checked.erases ⟨true, fun _ => true, fun _ => none⟩
    rcases eraseInfo_cases blk with ⟨low, -⟩ | ⟨-, unpacked⟩
    · exact low
    · rw [run_passed lower upper passed, unpacked] at reached
      exact absurd reached.symm (List.cons_ne_nil _ _)
  · intro low
    have sampled := blockFullyErased_ok passed
    refine ⟨fun pg member => (pageIsErased_ok (sampled pg member)).1, fun pg member => ?_, ?_⟩
    · -- below 4 GiB the offset does not wrap
      have place := mem_samplePages member
      have own := (pageIsErased_ok (sampled pg member)).2
      rwa [Nat.mod_eq_of_lt (show pg < half by rw [half]; omega)] at own
    · intro answers
      rcases eraseInfo_cases blk with ⟨-, ei, packed, start, length⟩ | ⟨high, -⟩
      · rw [run_passed lower upper passed, packed]
        split_ifs
        · exact ⟨ei, (writePages answers (blk * pagesPerBlk) (List.range 4)).1, rfl, start, length⟩
        · exact ⟨ei, [], rfl, start, length⟩
      · omega

/-! ## A device in use below a page -/

/-- A page of ones. -/
def onesPage : Page := ⟨List.replicate page 0xFF, List.length_replicate⟩

/-- An OOB with one byte all over. -/
def plainOob (b : UInt8) : OobBuf := ⟨List.replicate 64 b, List.length_replicate⟩

/-- A device whose pages hold zeros below `first` and ones from there on; the OOBs of its lower half
hold nothing, those of its upper half do. -/
def usedBelow (first : ℕ) : Mtd where
  data pg := some (if pg < first then Page.zero else onesPage)
  oob pg := some (plainOob (if pg < half then 0xFF else 0))
  badBlock _ := some 0

theorem pageIsErased_usedBelow (first pg : ℕ) :
    pageIsErased (usedBelow first) pg = .ok (decide (first ≤ pg)) := by
  by_cases used : pg < first
  · have zeros : ¬ Page.zero.bytes = List.replicate page 0xFF := by
      rw [Page.zero, List.replicate_inj]
      decide
    simp only [pageIsErased, usedBelow, if_pos used, if_neg zeros, Nat.not_le.2 used, decide_false]
  · have ones : onesPage.bytes = List.replicate page 0xFF := rfl
    have passed : oobIsErased ((plainOob 0xFF).raw.take 32) = true := by decide
    have wrapped : pg % half < half := Nat.mod_lt _ (by decide)
    simp only [pageIsErased, usedBelow, if_neg used, if_pos ones, readOob, memReadOob_reqStart,
      if_pos wrapped, orRaise_some_bind, ok_bind, passed, Nat.not_lt.1 used, decide_true]

theorem allErased_usedBelow {first : ℕ} {pgs : List ℕ} (erased : ∀ pg ∈ pgs, first ≤ pg) :
    allErased (usedBelow first) pgs = .ok true := by
  induction pgs with
  | nil => rfl
  | cons pg pgs ih =>
    rw [List.forall_mem_cons] at erased
    rw [allErased, pageIsErased_usedBelow, decide_eq_true erased.1, ok_bind, if_pos rfl]
    exact ih erased.2

/-- The blocks that are not in use pass, and the others do not. -/
theorem blockFullyErased_usedBelow (used blk : ℕ) :
    blockFullyErased (usedBelow (used * 256)) blk 8 = .ok (decide (used ≤ blk)) := by
  have good : blockBad (usedBelow (used * 256)) blk = false := rfl
  rw [blockFullyErased, good, if_neg (by simp)]
  by_cases free : used ≤ blk
  · rw [decide_eq_true free]
    refine allErased_usedBelow fun pg member => ?_
    have place := mem_samplePages member
    omega
  · rw [decide_eq_false free]
    obtain ⟨pg, pgs, sampled⟩ := List.exists_cons_of_length_pos
      (show 0 < (samplePages blk 8).length by rw [samplePages, List.length_range']; decide)
    have place := mem_samplePages (sampled ▸ List.mem_cons_self : pg ∈ samplePages blk 8)
    rw [sampled, allErased, pageIsErased_usedBelow, decide_eq_false (by omega), ok_bind]
    rfl

theorem subset_scanLoop (mtd : Mtd) (want : ℕ) (blks found : List ℕ) :
    found ⊆ (scanLoop mtd want blks found).found := by
  induction blks generalizing found with
  | nil => exact List.Subset.refl _
  | cons blk blks ih =>
    rw [scanLoop]
    split
    · exact List.Subset.refl _
    · exact ih found
    · split
      · exact List.subset_append_left _ _
      · exact List.Subset.trans (List.subset_append_left _ _) (ih _)

/-- The first block that passes is reported. -/
theorem mem_scanLoop_first {mtd : Mtd} {want blk : ℕ} {before after found : List ℕ}
    (failed : ∀ b ∈ before, blockFullyErased mtd b 8 = .ok false)
    (passed : blockFullyErased mtd blk 8 = .ok true) :
    blk ∈ (scanLoop mtd want (before ++ blk :: after) found).found := by
  induction before with
  | nil =>
    have here : blk ∈ found ++ [blk] := by simp
    rw [List.nil_append, scanLoop, passed]
    simp only
    split
    · exact here
    · exact subset_scanLoop mtd want after _ here
  | cons b before ih =>
    rw [List.forall_mem_cons] at failed
    rw [List.cons_append, scanLoop, failed.1]
    exact ih failed.2

theorem mem_scan_usedBelow (want : ℕ) {used : ℕ} (lower : 64 ≤ used) (upper : used < 4000) :
    used ∈ (scan (usedBelow (used * 256)) want).found := by
  have total : min sysBlkLo (npages / pagesPerBlk) - floorBlk
      = (used - 64) + (1 + (3999 - used)) := by
    rw [show min sysBlkLo (npages / pagesPerBlk) - floorBlk = 3936 by decide]
    omega
  have blocks : List.range' floorBlk (min sysBlkLo (npages / pagesPerBlk) - floorBlk)
      = List.range' 64 (used - 64) ++ used :: List.range' (used + 1) (3999 - used) := by
    rw [total, ← List.range'_append_1, ← List.range'_append_1, floorBlk,
      show 64 + (used - 64) = used by omega]
    rfl
  rw [scan, blocks]
  apply mem_scanLoop_first
  · intro b member
    rw [List.mem_range'_1] at member
    rw [blockFullyErased_usedBelow, decide_eq_false (by omega)]
  · rw [blockFullyErased_usedBelow, decide_eq_true (le_refl used)]

/-- A device in use below the range of the scan. -/
theorem candidate_checked_iff_first :
    64 ∈ (scan (usedBelow (64 * 256)) 5).found ∧ Checked (usedBelow (64 * 256)) 64 :=
  have reported := mem_scan_usedBelow 5 (le_refl 64) (by decide)
  ⟨reported, (candidate_checked_iff _ 5 64 reported).2 (by decide)⟩

/-- With the lower 4 GiB in use the scan proposes block 2048, whose own OOBs are not erased, and the
run cannot erase it. -/
theorem upper_block_proposed :
    2048 ∈ (scan (usedBelow (2048 * 256)) 5).found ∧
      (∀ pg ∈ samplePages 2048 8, ∀ buf, (usedBelow (2048 * 256)).oob pg = some buf →
        oobIsErased (buf.raw.take 32) = false) ∧
      run (usedBelow (2048 * 256)) ⟨true, fun _ => true, fun _ => none⟩ 2048
        = ⟨[], .error .structError⟩ := by
  refine ⟨mem_scan_usedBelow 5 (by decide) (by decide), ?_, ?_⟩
  · intro pg member buf read
    have place := mem_samplePages member
    have upper : ¬ pg < half := by
      rw [half]
      omega
    simp only [usedBelow, if_neg upper, Option.some.injEq] at read
    subst read
    decide
  · rcases eraseInfo_cases 2048 with ⟨low, -⟩ | ⟨-, unpacked⟩
    · exact absurd low (by decide)
    · have passed := blockFullyErased_usedBelow 2048 2048
      rw [decide_eq_true (le_refl 2048)] at passed
      exact (run_passed (by decide) (by decide) passed _).trans (by rw [unpacked])

end RkNand.WriteTest
