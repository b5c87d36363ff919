import RkNand.Ftl.Readsect

/-!
# Page addresses and the device's geometry (`rk-ftl.c`)

A vendor page address has the page in ten bits: vendor blocks have up to 1024 pages.  The linear
page of the driver multiplies the block by the number of pages in an erase block of the MTD device,
which `rk_ftl_add_mtd` takes as it comes.  Where erase blocks are shorter than 1024 pages, the pages
of one vendor block run into those of the next.
-/

namespace RkNand

/-! ## The code -/

/-- `mtd->type`, as far as it is told apart. -/
inductive MtdType
  | nandflash
  | mlcnandflash
  | other
deriving DecidableEq

/-- `struct mtd_info`, as far as the geometry goes. -/
structure MtdInfo where
  type : MtdType
  writesize : UInt32
  erasesize : UInt32

/-- The geometry checks of `rk_ftl_add_mtd`: `pages_per_block` for a device it does not turn down.
-/
def rkFtlAddMtdGeometry (mtd : MtdInfo) : Option UInt32 :=
  if mtd.type ≠ .nandflash ∧ mtd.type ≠ .mlcnandflash then none
  else if mtd.writesize ≠ UInt32.ofNat rkFtlPageSize then none
  else some (mtd.erasesize / mtd.writesize)

/-! ## Aliases -/

/-- Two addresses name different vendor pages. -/
def OtherPage (p q : UInt32) : Prop :=
  rkFtlPpaBlk p ≠ rkFtlPpaBlk q ∨ rkFtlPpaPage p ≠ rkFtlPpaPage q

/-- With this many pages to a block, different vendor pages are different linear pages, and logical
pages mapped to different vendor pages are served from different physical pages. -/
structure AliasFree (pagesPerBlock : UInt32) : Prop where
  linear : ∀ map : FtlMap, map.pagesPerBlock = pagesPerBlock → ∀ p q, OtherPage p q →
    rkFtlPpaToLinear map p ≠ rkFtlPpaToLinear map q
  served : ∀ map : FtlMap, map.pagesPerBlock = pagesPerBlock → ∀ lpn lpn' h h',
    OtherPage (map.entry lpn h) (map.entry lpn' h') →
      rkFtlPpaToLinear map (map.entry lpn h) ≠ rkFtlPpaToLinear map (map.entry lpn' h')

theorem pagesPerBlock_toNat {mtd : MtdInfo} {pagesPerBlock : UInt32}
    (accepted : rkFtlAddMtdGeometry mtd = some pagesPerBlock) :
    pagesPerBlock.toNat = mtd.erasesize.toNat / 8192 := by
  rw [rkFtlAddMtdGeometry] at accepted
  split_ifs at accepted with wrongType otherSize
  rw [not_not] at otherSize
  rw [← Option.some.inj accepted, otherSize, UInt32.toNat_div]
  rfl

theorem rkFtlPpaPage_lt (ppa : UInt32) : (rkFtlPpaPage ppa).toNat < 1024 := by
  rw [rkFtlPpaPage_toNat]
  exact Nat.mod_lt _ (by decide)

/-- Addresses whose page lies inside the block are determined by their linear page. -/
theorem not_otherPage_of_linear_eq (map : FtlMap) {p q : UInt32}
    (inside : (rkFtlPpaPage p).toNat < map.pagesPerBlock.toNat)
    (inside' : (rkFtlPpaPage q).toNat < map.pagesPerBlock.toNat)
    (same : rkFtlPpaToLinear map p = rkFtlPpaToLinear map q) : ¬ OtherPage p q := by
  have positive : 0 < map.pagesPerBlock.toNat := by omega
  simp only [rkFtlPpaToLinear, Nat.mul_comm _ map.pagesPerBlock.toNat] at same
  have page : (rkFtlPpaPage p).toNat = (rkFtlPpaPage q).toNat := by
    have remainder := congrArg (· % map.pagesPerBlock.toNat) same
    simpa only [Nat.mul_add_mod, Nat.mod_eq_of_lt inside, Nat.mod_eq_of_lt inside'] using remainder
  have blk : (rkFtlPpaBlk p).toNat = (rkFtlPpaBlk q).toNat := by
    rw [page, Nat.add_right_cancel_iff] at same
    exact Nat.eq_of_mul_eq_mul_left positive same
  rintro (other | other)
  · exact other (UInt32.toNat_inj.1 blk)
  · exact other (UInt32.toNat_inj.1 page)

/-- In a block of fewer than 1024 pages, the first page address past its end is also the first page
of the next block. -/
theorem exists_alias (map : FtlMap) (short : map.pagesPerBlock.toNat < 1024) :
    ∃ p q, OtherPage p q ∧ rkFtlPpaToLinear map p = rkFtlPpaToLinear map q := by
  have pastEnd : rkFtlPpaBlk map.pagesPerBlock = 0 ∧
      rkFtlPpaPage map.pagesPerBlock = map.pagesPerBlock := by
    constructor
    · apply UInt32.toNat_inj.1
      rw [rkFtlPpaBlk_toNat, UInt32.toNat_zero]
      omega
    · apply UInt32.toNat_inj.1
      rw [rkFtlPpaPage_toNat]
      exact Nat.mod_eq_of_lt short
  have next : rkFtlPpaBlk 1024 = 1 ∧ rkFtlPpaPage 1024 = 0 := by decide
  refine ⟨map.pagesPerBlock, 1024, .inl ?_, ?_⟩
  · rw [pastEnd.1, next.1]
    decide
  · simp only [rkFtlPpaToLinear, pastEnd, next, UInt32.toNat_zero, UInt32.toNat_one]
    omega

/-- The translation is free of aliases on exactly the devices whose erase blocks hold a whole vendor
block: 1024 pages, 8 MiB. -/
theorem aliasFree_iff (mtd : MtdInfo) (pagesPerBlock : UInt32)
    (accepted : rkFtlAddMtdGeometry mtd = some pagesPerBlock) :
    AliasFree pagesPerBlock ↔ 1024 * 8192 ≤ mtd.erasesize.toNat := by
  have count := pagesPerBlock_toNat accepted
  constructor
  · intro free
    by_contra small
    let map : FtlMap := ⟨pagesPerBlock, 0, [], rfl⟩
    have short : map.pagesPerBlock.toNat < 1024 := by
      show pagesPerBlock.toNat < 1024
      omega
    obtain ⟨p, q, other, same⟩ := exists_alias map short
    exact free.linear map rfl p q other same
  · intro large
    have apart : ∀ map : FtlMap, map.pagesPerBlock = pagesPerBlock → ∀ p q, OtherPage p q →
        rkFtlPpaToLinear map p ≠ rkFtlPpaToLinear map q := by
      intro map geometry p q other same
      have page := rkFtlPpaPage_lt p
      have page' := rkFtlPpaPage_lt q
      exact not_otherPage_of_linear_eq map (by rw [geometry]; omega) (by rw [geometry]; omega)
        same other
    exact ⟨apart, fun map geometry _ _ _ _ other => apart map geometry _ _ other⟩

/-- An erase block of 8 MiB is enough. -/
theorem aliasFree_iff_large : AliasFree 1024 :=
  (aliasFree_iff ⟨.mlcnandflash, 8192, 0x800000⟩ 1024 (by decide)).2 (by decide)

/-- A device with erase blocks of 2 MiB, and a map of two logical pages to page 256 of block 1022
and to page 0 of block 1023. -/
theorem aliased_twoMegabyte :
    rkFtlAddMtdGeometry ⟨.mlcnandflash, 8192, 0x200000⟩ = some 256 ∧ ¬ AliasFree 256 ∧
      OtherPage (1022 * 1024 + 256) (1023 * 1024) ∧
      rkFtlPpaToLinear ⟨256, 2, [1022 * 1024 + 256, 1023 * 1024], rfl⟩ (1022 * 1024 + 256)
        = rkFtlPpaToLinear ⟨256, 2, [1022 * 1024 + 256, 1023 * 1024], rfl⟩ (1023 * 1024) := by
  have other : OtherPage (1022 * 1024 + 256) (1023 * 1024) := .inl (by decide)
  have same : rkFtlPpaToLinear ⟨256, 2, [1022 * 1024 + 256, 1023 * 1024], rfl⟩ (1022 * 1024 + 256)
      = rkFtlPpaToLinear ⟨256, 2, [1022 * 1024 + 256, 1023 * 1024], rfl⟩ (1023 * 1024) := by decide
  refine ⟨by decide, fun free => ?_, other, same⟩
  exact free.served ⟨256, 2, [1022 * 1024 + 256, 1023 * 1024], rfl⟩ rfl 0 1 (by decide) (by decide)
    other same

end RkNand
