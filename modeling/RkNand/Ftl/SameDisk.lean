import RkNand.Ftl.Readsect
import RkNand.Tools.L2pExtract

/-!
# One logical disk, read two ways

The driver keeps the map as packed page addresses, the extractor as signed linear page numbers.
From two encodings of one map they serve the same logical pages (`SameMap.logicalPage_eq`), and so,
on a medium whose reads succeed, every sector the driver returns is the one that stands in the
extracted image (`readsects_eq_extract`).
-/

namespace RkNand

open L2pExtract OneEntryCache

/-! ## Two encodings of one map -/

/-- A page address stands for an entry of the map: all ones for a hole, else the block and the page
within it, with any flags above. -/
def EncodesEntry (ppb : ℕ) (page : Option ℕ) (ppa : UInt32) : Prop :=
  match page with
  | none => ppa = rkFtlPpaInvalid
  | some p => p / ppb < 2 ^ 16 ∧ ppa ≠ rkFtlPpaInvalid ∧
      ppa.toNat % 2 ^ 26 = (p / ppb) <<< 10 ||| p % ppb

/-- The driver's table stands for the map `m`. -/
structure SameMap (ftl : FtlMap) (m : List (Option ℕ)) : Prop where
  one_le : 1 ≤ ftl.pagesPerBlock.toNat
  le_1024 : ftl.pagesPerBlock.toNat ≤ 1024
  entries : List.Forall₂ (EncodesEntry ftl.pagesPerBlock.toNat) m ftl.l2p

/-- The entries of the map file: signed page numbers, -1 for a hole. -/
def mapWords (m : List (Option ℕ)) : List UInt32 :=
  m.map fun page => page.elim 0xFFFFFFFF UInt32.ofNat

/-- A page that fits a page address fits the map file. -/
theorem EncodesEntry.lt {ppb p : ℕ} {ppa : UInt32} (h : EncodesEntry ppb (some p) ppa)
    (pos : 1 ≤ ppb) (small : ppb ≤ 1024) : p < 2 ^ 31 :=
  calc p < (p / ppb + 1) * ppb := Nat.lt_mul_of_div_lt (Nat.lt_succ_self _) pos
    _ ≤ 2 ^ 16 * 1024 := Nat.mul_le_mul h.1 small
    _ < 2 ^ 31 := by norm_num

namespace SameMap

variable {ftl : FtlMap} {m : List (Option ℕ)} (same : SameMap ftl m)

include same

theorem length_eq : m.length = ftl.capacity.toNat := by
  rw [same.entries.length_eq, ftl.length_l2p]

/-- The driver finds the page that was encoded. -/
theorem rkFtlPpaToLinear_eq {p : ℕ} {ppa : UInt32}
    (h : EncodesEntry ftl.pagesPerBlock.toNat (some p) ppa) : rkFtlPpaToLinear ftl ppa = p := by
  obtain ⟨-, -, low⟩ := h
  have page : p % ftl.pagesPerBlock.toNat < 2 ^ 10 :=
    (Nat.mod_lt p same.one_le).trans_le same.le_1024
  rw [← Nat.shiftLeft_add_eq_or_of_lt page, Nat.shiftLeft_eq] at low
  have blk : ppa.toNat % 2 ^ 26 / 2 ^ 10 = p / ftl.pagesPerBlock.toNat := by omega
  have pg : ppa.toNat % 2 ^ 10 = p % ftl.pagesPerBlock.toNat := by omega
  simp only [rkFtlPpaToLinear, rkFtlPpaBlk_toNat, rkFtlPpaPage_toNat, blk, pg]
  exact Nat.div_add_mod' p _

/-- The two encodings give the same logical pages. -/
theorem logicalPage_eq (med : Medium) {lpn : UInt32} (inRange : ¬ ftl.capacity ≤ lpn) :
    ftl.logicalPage med lpn = mapPage (mapWords m) med lpn.toNat := by
  have hl : lpn.toNat < ftl.l2p.length := by
    rw [ftl.length_l2p]
    exact UInt32.lt_iff_toNat_lt.1 (UInt32.not_le.1 inRange)
  have hm : lpn.toNat < m.length := same.entries.length_eq ▸ hl
  obtain ⟨page, hp⟩ : ∃ page, m.get ⟨lpn.toNat, hm⟩ = page := ⟨_, rfl⟩
  have encodes : EncodesEntry ftl.pagesPerBlock.toNat page (ftl.entry lpn inRange) :=
    hp ▸ same.entries.get hm hl
  have word : (mapWords m)[lpn.toNat]? = some (page.elim 0xFFFFFFFF UInt32.ofNat) := by
    rw [mapWords, List.getElem?_map, List.getElem?_eq_getElem hm, ← hp]
    rfl
  rw [FtlMap.logicalPage, dif_neg inRange, mapPage, word]
  cases page with
  | none =>
    have hole : ftl.entry lpn inRange = rkFtlPpaInvalid := encodes
    rw [if_pos hole]
    rfl
  | some p =>
    have signed := Words.signed_ofNat (encodes.lt same.one_le same.le_1024)
    simp only [Option.elim_some, signed]
    rw [if_neg encodes.2.1, if_neg (by omega), same.rkFtlPpaToLinear_eq encodes]
    rfl

/-- A sector of the disk stands at its own place in the image. -/
theorem uncachedRead_eq (med : Medium) {block : UInt32}
    (inRange : block.toNat < ftl.capacity.toNat * 16) :
    ftl.uncachedRead med block =
      ((mapImage (mapWords m) med 0 ftl.capacity.toNat).drop (512 * block.toNat)).take 512 := by
  have lpn : (block / rkFtlSpp).toNat = block.toNat / 16 := UInt32.toNat_div _ _
  have sec : (secInPage block).val = block.toNat % 16 := UInt32.toNat_mod _ _
  have hlpn : ¬ ftl.capacity ≤ block / rkFtlSpp := by
    rw [UInt32.le_iff_toNat_le, lpn]
    omega
  have place : 512 * block.toNat =
      block.toNat / 16 * rkFtlPageSize + block.toNat % 16 * rkFtlSectSize := by
    simp only [rkFtlPageSize, rkFtlSectSize]
    omega
  have within : block.toNat % 16 * rkFtlSectSize + rkFtlSectSize ≤ rkFtlPageSize := by
    simp only [rkFtlPageSize, rkFtlSectSize]
    omega
  have page : block.toNat / 16 < ftl.capacity.toNat := by omega
  have cut := take_drop_mapImage (mapWords m) med 0 page within
  rw [FtlMap.uncachedRead, same.logicalPage_eq med hlpn, Page.sector, lpn, sec, place]
  rw [Nat.zero_add] at cut
  exact cut.symm

/-- The extractor's image of the whole map, from the map file. -/
theorem extract_mapWords (med : Medium) :
    extract (Words.toBytes (mapWords m)) med 0 ftl.capacity.toNat =
      some (mapImage (mapWords m) med 0 ftl.capacity.toNat) := by
  have len : (mapWords m).length = ftl.capacity.toNat := by
    rw [mapWords, List.length_map, same.length_eq]
  rcases Nat.eq_zero_or_pos ftl.capacity.toNat with empty | pos
  · have rest := extract_count_zero (mapWords m) med (Nat.zero_le _)
    rw [len, empty] at rest
    rw [empty]
    exact rest
  · exact extract_eq (mapWords m) med 0 pos

end SameMap

/-! ## The two ways of reading -/

/-- A call whose read would be good delivers a sector. -/
theorem rkFtlReadsect_isOk (med : Medium) (ftl : RkFtl) (block : UInt32) {a : MtdAttempt}
    (good : a.Good) : ∃ bytes, (rkFtlReadsect med ftl block a).1 = .ok bytes := by
  by_cases h : ftl.capacity ≤ block / rkFtlSpp
  · exact ⟨_, by rw [rkFtlReadsect_outOfRange h]⟩
  by_cases hit : ftl.pageBufLpn = block / rkFtlSpp
  · exact ⟨_, by rw [rkFtlReadsect_hit h hit]⟩
  · exact ⟨_, by rw [rkFtlReadsect_refill h hit (.inr good)]⟩

theorem readsects_isOk (med : Medium) (ftl : RkFtl) {calls : List (ReadCall × Page)}
    (good : ∀ c ∈ calls, (c.1.attempt c.2).Good) :
    ∀ r ∈ readsects med ftl calls, ∃ bytes, r = Except.ok bytes := by
  induction calls generalizing ftl with
  | nil => simp [readsects]
  | cons c rest ih =>
    rw [List.forall_mem_cons] at good
    rw [readsects, List.forall_mem_cons]
    exact ⟨rkFtlReadsect_isOk med ftl c.1.block good.1, ih _ good.2⟩

/-- Without failing reads every sequence of calls reads the logical disk. -/
theorem readsTransparent_of_good (med : Medium) (map : FtlMap) (pageBuf : Page)
    {calls : List (ReadCall × Page)} (good : ∀ c ∈ calls, (c.1.attempt c.2).Good) :
    ReadsTransparent med (RkFtl.fresh map pageBuf) calls := by
  rw [readsects_simulates]
  refine transparent_of_staleFree (by simp [Holds]) _ (staleFree_of_served _ _ fun a ha => ?_)
  rw [FtlMap.map_fst_accesses, List.mem_filterMap] at ha
  obtain ⟨call, hcall, hacc⟩ := ha
  obtain ⟨c, hc, rfl⟩ := List.mem_map.1 hcall
  rw [FtlMap.cacheAccess] at hacc
  split_ifs at hacc
  cases hacc
  exact decide_eq_true (.inr (good c hc))

/-- Every sector below the capacity is returned, and is the one that stands in the extracted
image. -/
theorem readsects_eq_extract (med : Medium) (ftl : FtlMap) (m : List (Option ℕ))
    (same : SameMap ftl m) (pageBuf : Page) (calls : List (ReadCall × Page))
    (good : ∀ c ∈ calls, (c.1.attempt c.2).Good) :
    ∃ image, extract (Words.toBytes (mapWords m)) med 0 ftl.capacity.toNat = some image ∧
      List.Forall₂ (fun c r => c.1.block.toNat < ftl.capacity.toNat * 16 →
        r = Except.ok ((image.drop (512 * c.1.block.toNat)).take 512))
        calls (readsects med (RkFtl.fresh ftl pageBuf) calls) := by
  refine ⟨_, same.extract_mapWords med, ?_⟩
  have transparent := readsTransparent_of_good med ftl pageBuf good
  rw [ReadsTransparent, List.forall₂_iff_zip] at transparent
  rw [List.forall₂_iff_zip]
  refine ⟨transparent.1, fun {c r} mem inRange => ?_⟩
  obtain ⟨bytes, rfl⟩ :=
    readsects_isOk med (RkFtl.fresh ftl pageBuf) good r (List.of_mem_zip mem).2
  rw [transparent.2 mem bytes rfl, RkFtl.toFtlMap_fresh, same.uncachedRead_eq med inRange]

/-- A hole, page 3 with a flag set, and page 0, at two pages a block. -/
def flaggedMap : FtlMap := ⟨2, 3, [0xFFFFFFFF, 0x04000401, 0], rfl⟩

theorem sameMap_flaggedMap : SameMap flaggedMap [none, some 3, some 0] where
  one_le := by decide
  le_1024 := by decide
  entries := by
    refine .cons rfl (.cons ⟨?_, ?_, ?_⟩ (.cons ⟨?_, ?_, ?_⟩ .nil)) <;> decide

theorem readsects_eq_extract_flaggedMap :
    SameMap flaggedMap [none, some 3, some 0] ∧
    ∃ image, extract (Words.toBytes (mapWords [none, some 3, some 0])) ⟨32768, UInt8.ofNat⟩ 0 3 =
        some image ∧
      readsects ⟨32768, UInt8.ofNat⟩ (RkFtl.fresh flaggedMap Page.zero)
          [(⟨17, 0, 8192⟩, Page.zero), (⟨2, -117, 8192⟩, Page.zero)] =
        [.ok ((image.drop (512 * 17)).take 512), .ok ((image.drop (512 * 2)).take 512)] := by
  obtain ⟨image, run, reads⟩ := readsects_eq_extract ⟨32768, UInt8.ofNat⟩ flaggedMap
    [none, some 3, some 0] sameMap_flaggedMap Page.zero
    [(⟨17, 0, 8192⟩, Page.zero), (⟨2, -117, 8192⟩, Page.zero)] (by simp; decide)
  refine ⟨sameMap_flaggedMap, image, run, ?_⟩
  obtain ⟨r, rs, first, rest, eq⟩ := List.forall₂_cons_left_iff.1 reads
  obtain ⟨r', rs', second, none, eq'⟩ := List.forall₂_cons_left_iff.1 rest
  rw [eq, eq', List.forall₂_nil_left_iff.1 none, first (by decide), second (by decide)]
  rfl

end RkNand
