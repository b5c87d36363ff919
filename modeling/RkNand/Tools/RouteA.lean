import RkNand.Tools.L2pExtract
import RkNand.Tools.L2pScan

/-!
# Route A: scan, save the map, extract

The offline reconstruction of the logical image.  The version counter wraps, and `newer` is no order
on 32-bit values; but the versions of one logical page are the residues of numbers that lie close
together (`Counted`), and on those `newer` compares the numbers.  So each logical page of the image
is the data of its newest record, in whatever order the pages were scanned (`routeA_newest`).
-/

namespace RkNand.RouteA

open Newest L2pScan L2pExtract

/-- The scan rule over decoded records, the map file, and the extractor. -/
def routeA (med : Medium) (recs : List Record) (start count : ℤ) : Option (List UInt8) := do
  let mapfile ← saveMap (recs.foldl scanStep ∅)
  extract mapfile med start count

/-- The versions of the data records stand for the numbers `count`: they are their residues, those
of one logical page are distinct, and their counts lie within `2 ^ 31`. -/
structure Counted (recs : List Record) (count : Record → ℤ) : Prop where
  residue : ∀ r ∈ recs, r.magic = dataMagic → (r.version.toNat : ℤ) = count r % 2 ^ 32
  window : ∀ lpn, ∃ lo, ∀ r ∈ recs, r.magic = dataMagic → r.lpn = lpn →
    lo ≤ count r ∧ count r < lo + 2 ^ 31
  distinct : ∀ r ∈ recs, ∀ r' ∈ recs, r.magic = dataMagic → r'.magic = dataMagic →
    r.lpn = r'.lpn → r.version = r'.version → r = r'

/-- The data records of a logical page. -/
def dataRecords (lpn : ℕ) (recs : List Record) : List Record :=
  recs.filter fun r => r.magic = dataMagic ∧ r.lpn.toNat = lpn

/-- The record of a logical page that was written last. -/
def IsNewest (recs : List Record) (count : Record → ℤ) (lpn : ℕ) (r : Record) : Prop :=
  r ∈ dataRecords lpn recs ∧ ∀ r' ∈ dataRecords lpn recs, count r' ≤ count r

/-- The record the scan leaves for a logical page. -/
def kept (lpn : ℕ) (recs : List Record) : Option Record :=
  winner (fun r r' => newer r.version r'.version) (dataRecords lpn recs)

/-- The page of the image for a logical page. -/
def keptPage (med : Medium) (recs : List Record) (lpn : ℕ) : Page :=
  (kept lpn recs).elim Page.zero fun r => med.page r.pg

variable {recs recs' : List Record} {count : Record → ℤ} {lpn : ℕ} {r r' : Record}

theorem mem_dataRecords :
    r ∈ dataRecords lpn recs ↔ r ∈ recs ∧ r.magic = dataMagic ∧ r.lpn.toNat = lpn := by
  simp [dataRecords]

/-! ## What the scan keeps -/

/-- The map holds the record that is kept. -/
theorem lookup_scanned (recs : List Record) (lpn : UInt32) :
    (recs.foldl scanStep ∅).lookup lpn =
      (kept lpn.toNat recs).map fun r => (r.pg, r.version) := by
  have pages : pagesOf lpn recs =
      (dataRecords lpn.toNat recs).map fun r => (r.pg, r.version) := by
    simp only [pagesOf, dataRecords, UInt32.toNat_inj]
  rw [lookup_foldl_scanStep, AList.lookup_empty, pages]
  exact winner_map (fun _ _ => rfl) _

/-- On the records of one logical page, `newer` compares the counts. -/
theorem Counted.newer_iff (counted : Counted recs count) (hr : r ∈ dataRecords lpn recs)
    (hr' : r' ∈ dataRecords lpn recs) :
    newer r.version r'.version = true ↔ count r' ≤ count r := by
  rw [mem_dataRecords] at hr hr'
  have same : r'.lpn = r.lpn := UInt32.toNat_inj.1 (hr'.2.2.trans hr.2.2.symm)
  obtain ⟨lo, window⟩ := counted.window r.lpn
  have hw := window r hr.1 hr.2.1 rfl
  have hw' := window r' hr'.1 hr'.2.1 same
  have near : |count r - count r'| < 2 ^ 31 := by
    rw [abs_lt]
    omega
  rw [L2pScan.newer_iff, counted.residue r hr.1 hr.2.1,
    counted.residue r' hr'.1 hr'.2.1, ← Int.sub_emod]
  exact wrapped_newer_iff near

theorem Counted.eq_of_count_eq (counted : Counted recs count) (hr : r ∈ dataRecords lpn recs)
    (hr' : r' ∈ dataRecords lpn recs) (same : count r = count r') : r = r' := by
  rw [mem_dataRecords] at hr hr'
  refine counted.distinct r hr.1 r' hr'.1 hr.2.1 hr'.2.1
    (UInt32.toNat_inj.1 (hr.2.2.trans hr'.2.2.symm)) (UInt32.toNat_inj.1 ?_)
  have version := counted.residue r hr.1 hr.2.1
  have version' := counted.residue r' hr'.1 hr'.2.1
  rw [same] at version
  omega

/-- The scan keeps the newest record. -/
theorem Counted.kept_eq_some_iff (counted : Counted recs count) :
    kept lpn recs = some r ↔ IsNewest recs count lpn r := by
  have agree : ∀ r ∈ dataRecords lpn recs, ∀ r' ∈ dataRecords lpn recs,
      newer r.version r'.version = true ↔ count r' ≤ count r :=
    fun r hr r' hr' => counted.newer_iff hr hr'
  rw [kept, winner_eq_some_iff agree fun r hr r' hr' => counted.eq_of_count_eq hr hr', IsNewest]

/-- The scan keeps the same record whatever the order of the pages. -/
theorem Counted.kept_perm (counted : Counted recs count) (perm : recs'.Perm recs) (lpn : ℕ) :
    kept lpn recs' = kept lpn recs := by
  have agree : ∀ r ∈ dataRecords lpn recs, ∀ r' ∈ dataRecords lpn recs,
      newer r.version r'.version = true ↔ count r' ≤ count r :=
    fun r hr r' hr' => counted.newer_iff hr hr'
  exact winner_perm agree (fun r hr r' hr' => counted.eq_of_count_eq hr hr') (perm.filter _)

/-! ## The image -/

theorem mem_of_kept (h : kept lpn recs = some r) : r ∈ dataRecords lpn recs := mem_of_winner h

/-- With at least one data record, and page numbers that fit the map file, the image is made of the
pages that were kept. -/
theorem routeA_eq (med : Medium) (found : ∃ r ∈ recs, r.magic = dataMagic)
    (fits : ∀ r ∈ recs, r.pg < 2 ^ 31) (start : ℕ) {n : ℕ} (pos : 0 < n) :
    ∃ m, routeA med recs start n = some (mapImage m med start n) ∧
      ∀ lpn, mapPage m med lpn = keptPage med recs lpn := by
  have fits' : ∀ lpn e, (recs.foldl scanStep ∅).lookup lpn = some e → e.1 < 2 ^ 31 := by
    intro lpn e h
    rw [lookup_scanned, Option.map_eq_some_iff] at h
    obtain ⟨r, hr, rfl⟩ := h
    exact fits r (mem_dataRecords.1 (mem_of_kept hr)).1
  have nonempty : ∃ lpn e, (recs.foldl scanStep ∅).lookup lpn = some e := by
    obtain ⟨r, hr, magic⟩ := found
    have data : r ∈ dataRecords r.lpn.toNat recs := mem_dataRecords.2 ⟨hr, magic, rfl⟩
    obtain ⟨w, hw⟩ : ∃ w, kept r.lpn.toNat recs = some w :=
      Option.ne_none_iff_exists'.1 fun none => by simp [winner_eq_none_iff.1 none] at data
    exact ⟨r.lpn, _, (lookup_scanned recs r.lpn).trans (by rw [hw]; rfl)⟩
  obtain ⟨m, save, small, entry, hole⟩ := saveMap_eq nonempty fits'
  refine ⟨m, ?_, fun lpn => ?_⟩
  · simp only [routeA, save, Option.bind_eq_bind, Option.bind_some]
    exact extract_eq m med start pos
  · by_cases wide : lpn < 2 ^ 32
    · obtain ⟨l, rfl⟩ : ∃ l : UInt32, l.toNat = lpn :=
        ⟨.ofNat lpn, by rw [UInt32.toNat_ofNat']; omega⟩
      cases hk : kept l.toNat recs with
      | none =>
        have absent : (recs.foldl scanStep ∅).lookup l = none := by rw [lookup_scanned, hk]; rfl
        rw [mapPage, keptPage, hk]
        cases hw : m[l.toNat]? with
        | none => rfl
        | some w => rw [hole l absent w hw]; rfl
      | some r =>
        have present : (recs.foldl scanStep ∅).lookup l = some (r.pg, r.version) := by
          rw [lookup_scanned, hk]; rfl
        have signed := Words.signed_ofNat (fits' l _ present)
        simp only [mapPage, keptPage, hk, entry l _ present, signed]
        rw [if_neg (by omega)]
        rfl
    · have past : m[lpn]? = none := List.getElem?_eq_none (by omega)
      have none : kept lpn recs = none := by
        refine winner_eq_none_iff.2 (List.filter_eq_nil_iff.2 fun r _ => ?_)
        have := r.lpn.toNat_lt
        simp only [decide_eq_true_eq]
        omega
      rw [mapPage, keptPage, past, none]
      rfl

/-- For a range of at least one page, each page of the image is the data of the newest record of its
logical page, or zeros if it has none, and the order of the records does not matter. -/
theorem routeA_newest (med : Medium) (recs : List Record) (count : Record → ℤ)
    (counted : Counted recs count) (found : ∃ r ∈ recs, r.magic = dataMagic)
    (fits : ∀ r ∈ recs, r.pg < 2 ^ 31) (start n : ℕ) (pos : 0 < n) :
    ∃ image, routeA med recs start n = some image ∧ image.length = n * rkFtlPageSize ∧
      (∀ i < n, ∀ r, IsNewest recs count (start + i) r →
        (image.drop (i * rkFtlPageSize)).take rkFtlPageSize = (med.page r.pg).bytes) ∧
      (∀ i < n, (∀ r ∈ recs, r.magic = dataMagic → r.lpn.toNat ≠ start + i) →
        (image.drop (i * rkFtlPageSize)).take rkFtlPageSize = List.replicate rkFtlPageSize 0) ∧
      ∀ recs' : List Record, recs'.Perm recs → routeA med recs' start n = some image := by
  obtain ⟨m, image, pages⟩ := routeA_eq med found fits start pos
  have chunk (i : ℕ) (hi : i < n) :
      ((mapImage m med start n).drop (i * rkFtlPageSize)).take rkFtlPageSize =
        (keptPage med recs (start + i)).bytes := by
    have cut := take_drop_mapImage m med start hi (Nat.zero_add rkFtlPageSize).le
    rw [Nat.add_zero, List.drop_zero, pages,
      List.take_of_length_le (keptPage med recs (start + i)).length_bytes.le] at cut
    exact cut
  refine ⟨_, image, length_mapImage m med start n, fun i hi r newest => ?_, fun i hi none => ?_,
    fun recs' perm => ?_⟩
  · rw [chunk i hi, keptPage, counted.kept_eq_some_iff.2 newest]
    rfl
  · have empty : dataRecords (start + i) recs = [] :=
      List.filter_eq_nil_iff.2 fun r hr => by simpa using none r hr
    rw [chunk i hi, keptPage, kept, empty]
    rfl
  · have mem (r : Record) : r ∈ recs' ↔ r ∈ recs := perm.mem_iff
    have found' : ∃ r ∈ recs', r.magic = dataMagic := by simpa only [mem] using found
    obtain ⟨m', image', pages'⟩ := routeA_eq med found' (by simpa only [mem] using fits) start pos
    rw [image', mapImage, mapImage]
    simp only [pages, pages', keptPage, counted.kept_perm perm]

/-- Six pages of data. -/
def sixPages : Medium := ⟨49152, UInt8.ofNat⟩

/-- A page written before the counter wrapped and again after it. -/
def wrappedRecords : List Record :=
  [⟨5, 0xF095, 0, 1⟩, ⟨2, 0xF095, 0xFFFFFFFF, 1⟩, ⟨3, 0xF0C2, 7, 0⟩]

/-- The counts behind `wrappedRecords`. -/
def wrappedCount (r : Record) : ℤ := if r.version = 0 then 2 ^ 32 else r.version.toNat

theorem counted_wrappedRecords : Counted wrappedRecords wrappedCount where
  residue := by decide
  window := fun _ => ⟨2 ^ 32 - 1, by
    simp only [wrappedRecords, List.forall_mem_cons]
    refine ⟨fun _ _ => by decide, fun _ _ => by decide, fun h => absurd h (by decide), by simp⟩⟩
  distinct := by
    simp [wrappedRecords, dataMagic]

theorem routeA_newest_wrapped :
    Counted wrappedRecords wrappedCount ∧
    ∃ image, routeA sixPages wrappedRecords 0 4 = some image ∧ image.length = 4 * rkFtlPageSize ∧
      (image.drop (1 * rkFtlPageSize)).take rkFtlPageSize = (sixPages.page 5).bytes := by
  obtain ⟨image, run, len, newest, -⟩ := routeA_newest sixPages wrappedRecords wrappedCount
    counted_wrappedRecords (by decide) (by decide) 0 4 (by decide)
  have last : IsNewest wrappedRecords wrappedCount (0 + 1) ⟨5, 0xF095, 0, 1⟩ :=
    ⟨by simp [dataRecords, wrappedRecords, dataMagic], by decide⟩
  have second := newest 1 (by decide) _ last
  exact ⟨counted_wrappedRecords, image, run, len, second⟩

/-- The range of no pages is not what a count of zero gives, and with no data record there is no map
file to extract from. -/
theorem routeA_count_zero :
    (∃ image, routeA sixPages [⟨0, 0xF095, 1, 0⟩] 0 0 = some image ∧
      image.length ≠ 0 * rkFtlPageSize) ∧
    routeA sixPages [] 0 1 = none := by
  have map : saveMap (List.foldl scanStep ∅ [⟨0, 0xF095, 1, 0⟩]) = some (Words.toBytes [0]) := rfl
  have image := extract_count_zero [0] sixPages (Nat.zero_le 1)
  rw [Nat.cast_zero] at image
  refine ⟨⟨mapImage [0] sixPages 0 ([0].length - 0), ?_, ?_⟩, rfl⟩
  · simp only [routeA, map, Option.bind_eq_bind, Option.bind_some]
    exact image
  · rw [length_mapImage]
    norm_num [rkFtlPageSize]

end RkNand.RouteA
