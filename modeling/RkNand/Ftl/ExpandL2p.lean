import RkNand.Ftl.Readsect
import RkNand.Lib.Words

/-!
# Flattening the map (`rk-ftl.c`)

The vendor's map has two levels: a table of regions, each with the address of the map page that
holds the page addresses of its 2048 logical pages.  `rk_ftl_expand_l2p` reads the map pages into
the flat table of the read path, through the scratch buffer that the sectors are served from later.
Every access to a table is checked in the model, so that a run with a result is one that touched
nothing outside of them.
-/

namespace RkNand

/-! ## The code -/

/-- `RK_FTL_ENTRIES_PER_REGION`. -/
def rkFtlEntriesPerRegion : UInt32 := rkFtlSpp * 128

/-- `struct rk_ftl` while its map is being loaded: there is no flat table yet. -/
structure RkFtlLoad where
  pagesPerBlock : UInt32
  capacity : UInt32
  numRegions : UInt32
  regionToPpa : List UInt32
  pageBuf : Page
  pageBufLpn : UInt32

/-- `DIV_ROUND_UP`, in 32 bits. -/
def divRoundUp (n d : UInt32) : UInt32 := (n + d - 1) / d

/-- `rk_ftl_map_recovery`, whose walk over the map blocks is not written yet: it leaves a table of
holes.  `granted` says whether the allocator has the memory. -/
def rkFtlMapRecovery (ftl : RkFtlLoad) (granted : Bool) : ℤ × RkFtlLoad :=
  let ftl := { ftl with numRegions := divRoundUp ftl.capacity rkFtlEntriesPerRegion }
  if ¬ granted then (-enomem, ftl)
  else (0, { ftl with regionToPpa := List.replicate ftl.numRegions.toNat rkFtlPpaInvalid })

/-- `array_size`: a product that stays at `SIZE_MAX` instead of overflowing. -/
def arraySize (n size : ℕ) : ℕ := min (n * size) (2 ^ 32 - 1)

/-- `vmalloc`: whether there is an allocation.  It refuses a size of zero and one of the whole
address space. -/
def vmalloc (size : ℕ) (granted : Bool) : Bool :=
  granted && decide (size ≠ 0) && decide (size < 2 ^ 32 - 1)

/-- `le32_to_cpu(map_words[i])`. -/
def Page.word? (p : Page) (i : ℕ) : Option UInt32 :=
  if 4 * i + 4 ≤ p.bytes.length then some (Words.wordAt p.bytes (4 * i)) else none

/-- `ftl->l2p[i] = entry`. -/
def FtlMap.setEntry (map : FtlMap) (i : ℕ) (entry : UInt32) : Option FtlMap :=
  if i < map.l2p.length then
    some { map with l2p := map.l2p.set i entry, length_l2p := by simp [map.length_l2p] }
  else none

/-- The body of the inner loop of `rk_ftl_expand_l2p`. -/
def copyEntry (pageBuf : Page) (base : ℕ) (map : FtlMap) (i : ℕ) : Option FtlMap := do
  let entry ← pageBuf.word? i
  if entry ≠ rkFtlPpaInvalid then map.setEntry (base + i) entry else some map

/-- What the outer loop of `rk_ftl_expand_l2p` works on. -/
structure Expansion where
  ret : ℤ
  map : FtlMap
  pageBuf : Page

/-- The body of the outer loop of `rk_ftl_expand_l2p`; `reads` gives what `mtd_read` does for the
map page of each region. -/
def expandRegion (med : Medium) (regionToPpa : List UInt32) (reads : ℕ → MtdAttempt)
    (s : Expansion) (region : ℕ) : Option Expansion := do
  let ppa ← regionToPpa[region]?
  let base := region * rkFtlEntriesPerRegion.toNat
  if ppa = rkFtlPpaInvalid then some s
  else
    let (ret, buf) := rkFtlReadPage med (rkFtlPpaToLinear s.map ppa) (reads region)
    if ret ≠ 0 then some { s with ret := 0, pageBuf := buf }
    else
      let left := s.map.capacity - UInt32.ofNat base
      let n := if rkFtlEntriesPerRegion ≤ left then rkFtlEntriesPerRegion else left
      let map ← (List.range n.toNat).foldlM (copyEntry buf base) s.map
      some ⟨ret, map, buf⟩

/-- The instance's map right after the `memset` of the new flat table. -/
def RkFtlLoad.holes (ftl : RkFtlLoad) : FtlMap where
  pagesPerBlock := ftl.pagesPerBlock
  capacity := ftl.capacity
  l2p := List.replicate ftl.capacity.toNat 0xFFFFFFFF
  length_l2p := List.length_replicate

/-- `rk_ftl_expand_l2p`: its return code and the instance, if the flat table could be allocated. -/
def rkFtlExpandL2p (ftl : RkFtlLoad) (med : Medium) (reads : ℕ → MtdAttempt) (granted : Bool) :
    Option (ℤ × Option RkFtl) :=
  if vmalloc (arraySize ftl.capacity.toNat 4) granted then do
    let s ← (List.range ftl.numRegions.toNat).foldlM
      (expandRegion med ftl.regionToPpa reads) ⟨0, ftl.holes, ftl.pageBuf⟩
    some (s.ret, some { s.map with pageBuf := s.pageBuf, pageBufLpn := 0xFFFFFFFF })
  else some (-enomem, none)

/-! ## The two-level map -/

/-- The table of regions has an entry for each region of the capacity. -/
structure RkFtlLoad.Recovered (ftl : RkFtlLoad) : Prop where
  numRegions : ftl.numRegions = divRoundUp ftl.capacity rkFtlEntriesPerRegion
  length_regionToPpa : ftl.regionToPpa.length = ftl.numRegions.toNat

/-- A successful recovery leaves a table of the right size. -/
theorem recovered_of_mapRecovery (ftl : RkFtlLoad) (granted : Bool)
    (returned : (rkFtlMapRecovery ftl granted).1 = 0) :
    (rkFtlMapRecovery ftl granted).2.Recovered := by
  cases granted with
  | false => cases returned
  | true => exact ⟨rfl, List.length_replicate⟩

/-- The address of a region's map page. -/
def RkFtlLoad.regionPpa (ftl : RkFtlLoad) (region : ℕ) : UInt32 :=
  ftl.regionToPpa.getD region rkFtlPpaInvalid

/-- The page of the medium at a region's address. -/
def RkFtlLoad.mapPage (ftl : RkFtlLoad) (med : Medium) (region : ℕ) : Page :=
  med.page ((rkFtlPpaBlk (ftl.regionPpa region)).toNat * ftl.pagesPerBlock.toNat
    + (rkFtlPpaPage (ftl.regionPpa region)).toNat)

/-- The lookup through both levels: the word of the region's map page, or a hole if the region has
no map page or it could not be read. -/
def RkFtlLoad.lookup (ftl : RkFtlLoad) (med : Medium) (reads : ℕ → MtdAttempt) (lpn : ℕ) :
    UInt32 :=
  if ftl.regionPpa (lpn / 2048) ≠ rkFtlPpaInvalid ∧ (reads (lpn / 2048)).Good then
    Words.wordAt (ftl.mapPage med (lpn / 2048)).bytes (4 * (lpn % 2048))
  else rkFtlPpaInvalid

/-! ## Tables as functions -/

/-- A map with the entries that a function gives. -/
def FtlMap.tabulate (map : FtlMap) (f : ℕ → UInt32) : FtlMap :=
  { map with l2p := (List.range map.capacity.toNat).map f, length_l2p := by simp }

@[simp] theorem tabulate_capacity (map : FtlMap) (f : ℕ → UInt32) :
    (map.tabulate f).capacity = map.capacity := rfl

variable (map : FtlMap)

theorem tabulate_congr {f g : ℕ → UInt32} (same : ∀ j < map.capacity.toNat, f j = g j) :
    map.tabulate f = map.tabulate g := by
  have table : (List.range map.capacity.toNat).map f = (List.range map.capacity.toNat).map g :=
    List.map_congr_left fun j hj => same j (List.mem_range.1 hj)
  simp only [FtlMap.tabulate, table]

variable {map} in
theorem setEntry_tabulate (f : ℕ → UInt32) {i : ℕ} (entry : UInt32)
    (inside : i < map.capacity.toNat) :
    (map.tabulate f).setEntry i entry = some (map.tabulate (Function.update f i entry)) := by
  have table : ((List.range map.capacity.toNat).map f).set i entry
      = (List.range map.capacity.toNat).map (Function.update f i entry) := by
    apply List.ext_getElem
    · simp
    · intro j _ _
      simp only [List.getElem_set, List.getElem_map, List.getElem_range, Function.update_apply,
        eq_comm]
  rw [FtlMap.setEntry, if_pos (by simpa [FtlMap.tabulate] using inside)]
  simp only [FtlMap.tabulate, table]

theorem Page.word?_eq_some (p : Page) {i : ℕ} (inside : i < 2048) :
    p.word? i = some (Words.wordAt p.bytes (4 * i)) := by
  apply if_pos
  rw [p.length_bytes, rkFtlPageSize]
  omega

/-- The first `n` words of a page over a table from `base` on, where they are not holes. -/
def overlay (page : Page) (base n : ℕ) (f : ℕ → UInt32) (j : ℕ) : UInt32 :=
  if base ≤ j ∧ j < base + n ∧ Words.wordAt page.bytes (4 * (j - base)) ≠ rkFtlPpaInvalid then
    Words.wordAt page.bytes (4 * (j - base))
  else f j

theorem overlay_zero (page : Page) (base : ℕ) (f : ℕ → UInt32) : overlay page base 0 f = f := by
  funext j
  exact if_neg (by omega)

theorem overlay_succ (page : Page) (base n : ℕ) (f : ℕ → UInt32) :
    overlay page base (n + 1) f =
      if Words.wordAt page.bytes (4 * n) ≠ rkFtlPpaInvalid then
        Function.update (overlay page base n f) (base + n) (Words.wordAt page.bytes (4 * n))
      else overlay page base n f := by
  funext j
  by_cases last : j = base + n
  · have index : base + n - base = n := by omega
    subst last
    by_cases hole : Words.wordAt page.bytes (4 * n) = rkFtlPpaInvalid
    · simp [overlay, index, hole]
    · simp [overlay, index, hole]
  · have same : overlay page base (n + 1) f j = overlay page base n f j := by
      simp only [overlay, show j < base + (n + 1) ↔ j < base + n by omega]
    split
    · rw [same, Function.update_of_ne last]
    · exact same

/-- The inner loop overlays the words of the page. -/
theorem copyEntries_tabulate (page : Page) (base n : ℕ) (f : ℕ → UInt32) (words : n ≤ 2048)
    (inside : base + n ≤ map.capacity.toNat) :
    (List.range n).foldlM (copyEntry page base) (map.tabulate f)
      = some (map.tabulate (overlay page base n f)) := by
  induction n with
  | zero =>
    rw [overlay_zero]
    rfl
  | succ n ih =>
    rw [List.range_succ, List.foldlM_append, ih (by omega) (by omega), overlay_succ]
    simp only [Option.bind_eq_bind, Option.bind_some, List.foldlM_cons, List.foldlM_nil, copyEntry,
      page.word?_eq_some (show n < 2048 by omega)]
    split
    · rw [setEntry_tabulate _ _ (by omega)]
      rfl
    · rfl

/-! ## Regions -/

/-- The number of regions, without the wrap: a capacity whose table can be allocated is small. -/
theorem numRegions_toNat {ftl : RkFtlLoad} (recovered : ftl.Recovered)
    (small : ftl.capacity.toNat * 4 < 2 ^ 32) :
    ftl.numRegions.toNat = (ftl.capacity.toNat + 2047) / 2048 := by
  have sum : (ftl.capacity + rkFtlEntriesPerRegion).toNat = ftl.capacity.toNat + 2048 := by
    rw [UInt32.toNat_add, show rkFtlEntriesPerRegion.toNat = 2048 from rfl]
    exact Nat.mod_eq_of_lt (by omega)
  have one : (1 : UInt32) ≤ ftl.capacity + rkFtlEntriesPerRegion := by
    rw [UInt32.le_iff_toNat_le, sum, UInt32.toNat_one]
    omega
  rw [recovered.numRegions, divRoundUp, UInt32.toNat_div, UInt32.toNat_sub_of_le _ _ one, sum,
    UInt32.toNat_one, show rkFtlEntriesPerRegion.toNat = 2048 from rfl]
  congr 1

/-- The entries of one region that the inner loop copies end where the region or the capacity
ends. -/
theorem region_count {capacity : UInt32} {region : ℕ} (inside : region * 2048 < capacity.toNat) :
    (if rkFtlEntriesPerRegion ≤ capacity - UInt32.ofNat (region * 2048) then
      rkFtlEntriesPerRegion
    else capacity - UInt32.ofNat (region * 2048)).toNat
      = min 2048 (capacity.toNat - region * 2048) := by
  have base : (UInt32.ofNat (region * 2048)).toNat = region * 2048 := by
    rw [UInt32.toNat_ofNat']
    exact Nat.mod_eq_of_lt (by have := capacity.toNat_lt; omega)
  have left : (capacity - UInt32.ofNat (region * 2048)).toNat
      = capacity.toNat - region * 2048 := by
    rw [UInt32.toNat_sub_of_le _ _ (by rw [UInt32.le_iff_toNat_le, base]; omega), base]
  have epr : rkFtlEntriesPerRegion.toNat = 2048 := rfl
  split
  · rename_i whole
    rw [UInt32.le_iff_toNat_le, left, epr] at whole
    rw [epr, Nat.min_eq_left whole]
  · rename_i part
    rw [UInt32.le_iff_toNat_le, left, epr] at part
    rw [left, Nat.min_eq_right (by omega)]

section Run

variable (ftl : RkFtlLoad) (med : Medium) (reads : ℕ → MtdAttempt)

/-- The flat table once the first `r` regions are expanded. -/
def RkFtlLoad.upTo (r lpn : ℕ) : UInt32 :=
  if lpn / 2048 < r then ftl.lookup med reads lpn else rkFtlPpaInvalid

/-- A region without a map page, or with one that could not be read, stays a hole. -/
theorem upTo_succ_of_hole (r : ℕ)
    (hole : ftl.regionPpa r = rkFtlPpaInvalid ∨ ¬ (reads r).Good) :
    ftl.upTo med reads (r + 1) = ftl.upTo med reads r := by
  funext lpn
  by_cases here : lpn / 2048 = r
  · have missing : ftl.lookup med reads lpn = rkFtlPpaInvalid := by
      rw [RkFtlLoad.lookup, here]
      exact if_neg (by tauto)
    simp [RkFtlLoad.upTo, here, missing]
  · simp only [RkFtlLoad.upTo, show lpn / 2048 < r + 1 ↔ lpn / 2048 < r by omega]

/-- A region whose map page was read gets the words of that page. -/
theorem upTo_succ_of_read (r lpn : ℕ) (mapped : ftl.regionPpa r ≠ rkFtlPpaInvalid)
    (good : (reads r).Good) (inside : lpn < ftl.capacity.toNat) :
    overlay (ftl.mapPage med r) (r * 2048) (min 2048 (ftl.capacity.toNat - r * 2048))
      (ftl.upTo med reads r) lpn = ftl.upTo med reads (r + 1) lpn := by
  by_cases here : lpn / 2048 = r
  · have index : lpn - r * 2048 = lpn % 2048 := by omega
    have range : r * 2048 ≤ lpn ∧ lpn < r * 2048 + min 2048 (ftl.capacity.toNat - r * 2048) := by
      omega
    simp only [overlay, index, range, true_and, RkFtlLoad.upTo, here, Nat.lt_irrefl, if_false,
      Nat.lt_succ_self, if_true, RkFtlLoad.lookup, mapped, good, ne_eq, not_false_eq_true, and_self,
      ite_not]
    split
    · symm
      assumption
    · rfl
  · have range : ¬ (r * 2048 ≤ lpn ∧
        lpn < r * 2048 + min 2048 (ftl.capacity.toNat - r * 2048)) := by
      omega
    rw [overlay, if_neg (by tauto)]
    simp only [RkFtlLoad.upTo, show lpn / 2048 < r + 1 ↔ lpn / 2048 < r by omega]

variable {ftl map}

variable (map) in
/-- One region: its part of the table becomes the lookup through both levels. -/
theorem expandRegion_upTo (recovered : ftl.Recovered) (small : ftl.capacity.toNat * 4 < 2 ^ 32)
    (geometry : map.pagesPerBlock = ftl.pagesPerBlock) (size : map.capacity = ftl.capacity)
    (r : ℕ) (inside : r < ftl.numRegions.toNat) (buf : Page) :
    ∃ buf', expandRegion med ftl.regionToPpa reads ⟨0, map.tabulate (ftl.upTo med reads r), buf⟩ r
      = some ⟨0, map.tabulate (ftl.upTo med reads (r + 1)), buf'⟩ := by
  have count := numRegions_toNat recovered small
  have below : r * 2048 < ftl.capacity.toNat := by omega
  have listed : ftl.regionToPpa[r]? = some (ftl.regionPpa r) := by
    have bound : r < ftl.regionToPpa.length := by rwa [recovered.length_regionToPpa]
    rw [RkFtlLoad.regionPpa, List.getD_eq_getElem?_getD, List.getElem?_eq_getElem bound,
      Option.getD_some]
  have page : med.page (rkFtlPpaToLinear (map.tabulate (ftl.upTo med reads r)) (ftl.regionPpa r))
      = ftl.mapPage med r := by
    rw [RkFtlLoad.mapPage, ← geometry]
    rfl
  rw [expandRegion, listed, Option.bind_eq_bind, Option.bind_some]
  by_cases hole : ftl.regionPpa r = rkFtlPpaInvalid
  · refine ⟨buf, ?_⟩
    rw [if_pos hole, upTo_succ_of_hole ftl med reads r (.inl hole)]
  · rw [if_neg hole]
    by_cases good : (reads r).Good
    · have copied := copyEntries_tabulate map (ftl.mapPage med r) (r * 2048)
        (min 2048 (ftl.capacity.toNat - r * 2048)) (ftl.upTo med reads r) (by omega)
        (by rw [size]; omega)
      have table := tabulate_congr map fun lpn hlpn =>
        upTo_succ_of_read ftl med reads r lpn hole good (by rwa [size] at hlpn)
      refine ⟨ftl.mapPage med r, ?_⟩
      simp only [rkFtlReadPage_good good, page, ne_eq, not_true_eq_false, if_false, size,
        tabulate_capacity, show rkFtlEntriesPerRegion.toNat = 2048 from rfl, region_count below,
        copied, table]
      rfl
    · obtain ⟨failed, junk⟩ := rkFtlReadPage_bad med (rkFtlPpaToLinear
        (map.tabulate (ftl.upTo med reads r)) (ftl.regionPpa r)) good
      refine ⟨(reads r).junk, ?_⟩
      simp only [if_pos failed, junk]
      rw [upTo_succ_of_hole ftl med reads r (.inr good)]

theorem tabulate_holes : ftl.holes.tabulate (ftl.upTo med reads 0) = ftl.holes := by
  have table : (List.range ftl.capacity.toNat).map (ftl.upTo med reads 0)
      = List.replicate ftl.capacity.toNat 0xFFFFFFFF := by
    rw [List.eq_replicate_iff]
    refine ⟨by simp, fun entry member => ?_⟩
    obtain ⟨lpn, -, rfl⟩ := List.mem_map.1 member
    exact if_neg (Nat.not_lt_zero _)
  simp only [FtlMap.tabulate, RkFtlLoad.holes, table]

/-- The first `r` regions. -/
theorem expandRegions_upTo (recovered : ftl.Recovered) (small : ftl.capacity.toNat * 4 < 2 ^ 32)
    (r : ℕ) (inside : r ≤ ftl.numRegions.toNat) :
    ∃ buf, (List.range r).foldlM (expandRegion med ftl.regionToPpa reads)
        ⟨0, ftl.holes, ftl.pageBuf⟩
      = some ⟨0, ftl.holes.tabulate (ftl.upTo med reads r), buf⟩ := by
  induction r with
  | zero =>
    refine ⟨ftl.pageBuf, ?_⟩
    rw [tabulate_holes]
    rfl
  | succ r ih =>
    obtain ⟨before, done⟩ := ih (by omega)
    obtain ⟨after, next⟩ :=
      expandRegion_upTo ftl.holes med reads recovered small rfl rfl r inside before
    refine ⟨after, ?_⟩
    rw [List.range_succ, List.foldlM_append, done]
    simp only [Option.bind_eq_bind, Option.bind_some, List.foldlM_cons, List.foldlM_nil, next]
    rfl

end Run

/-- Flattening is the two-level lookup: wherever the table can be allocated, the call returns 0,
touches nothing outside its tables, and leaves for each logical page what the lookup gives; no call
of `rk_ftl_readsect` hits the buffer it leaves behind. -/
theorem expandL2p_eq_lookup (ftl : RkFtlLoad) (med : Medium) (reads : ℕ → MtdAttempt)
    (granted : Bool) (recovered : ftl.Recovered)
    (allocated : vmalloc (arraySize ftl.capacity.toNat 4) granted = true) :
    ∃ out : RkFtl, rkFtlExpandL2p ftl med reads granted = some (0, some out) ∧
      out.pagesPerBlock = ftl.pagesPerBlock ∧ out.capacity = ftl.capacity ∧
      (∀ lpn < ftl.capacity.toNat, out.l2p[lpn]? = some (ftl.lookup med reads lpn)) ∧
      ∀ block : UInt32, out.pageBufLpn ≠ block / rkFtlSpp := by
  have small : ftl.capacity.toNat * 4 < 2 ^ 32 := by
    have size : arraySize ftl.capacity.toNat 4 < 2 ^ 32 - 1 := by
      rw [vmalloc, Bool.and_eq_true] at allocated
      exact of_decide_eq_true allocated.2
    rw [arraySize] at size
    omega
  obtain ⟨buf, run⟩ := expandRegions_upTo med reads recovered small ftl.numRegions.toNat le_rfl
  refine ⟨{ ftl.holes.tabulate (ftl.upTo med reads ftl.numRegions.toNat) with
    pageBuf := buf, pageBufLpn := 0xFFFFFFFF }, ?_, rfl, rfl, ?_, ?_⟩
  · rw [rkFtlExpandL2p, if_pos allocated, run]
    rfl
  · intro lpn inside
    have covered : lpn / 2048 < ftl.numRegions.toNat := by
      rw [numRegions_toNat recovered small]
      omega
    simp [FtlMap.tabulate, RkFtlLoad.holes, RkFtlLoad.upTo, inside, covered]
  · intro block hit
    have quotient : (block / rkFtlSpp).toNat = 0xFFFFFFFF := by
      rw [← hit]
      rfl
    rw [UInt32.toNat_div, show rkFtlSpp.toNat = 16 from rfl] at quotient
    have bound := block.toNat_lt
    omega

/-- A map of one full region and two entries of another. -/
def twoRegions : RkFtlLoad where
  pagesPerBlock := 4
  capacity := 2050
  numRegions := 2
  regionToPpa := [1, 2]
  pageBuf := Page.zero
  pageBufLpn := 0

/-- The second map page cannot be read: the pages of its region are holes. -/
theorem expandL2p_eq_lookup_twoRegions :
    ∃ out : RkFtl, rkFtlExpandL2p twoRegions ⟨0, fun _ => 0⟩
        (fun region => ⟨if region = 0 then 0 else -ebadmsg, 8192, Page.zero⟩) true
        = some (0, some out) ∧ out.l2p[0]? = some 0 ∧ out.l2p[2049]? = some rkFtlPpaInvalid := by
  obtain ⟨out, run, -, -, entries, -⟩ := expandL2p_eq_lookup twoRegions ⟨0, fun _ => 0⟩
    (fun region => ⟨if region = 0 then 0 else -ebadmsg, 8192, Page.zero⟩) true
    ⟨by decide, by decide⟩ (by decide)
  refine ⟨out, run, ?_, ?_⟩
  · rw [entries 0 (by decide)]
    decide +kernel
  · rw [entries 2049 (by decide)]
    decide +kernel

end RkNand
