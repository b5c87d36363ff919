import RkNand.Errno
import RkNand.Ftl.Format
import RkNand.Lib.OneEntryCache

/-!
# The read path of the block device (`rk-ftl.c`)

`rkFtlReadsect` serves one 512-byte sector through the one-page scratch buffer `page_buf`, which is
kept across the sixteen sectors of a page and remembered by its logical page number in
`page_buf_lpn`.  Each thing a call can do has its lemma (`rkFtlReadsect_outOfRange`, `_hit`,
`_refill`, `_failed`), and `readsects_simulates` shows that a sequence of calls is a run of the
one-entry cache of `OneEntryCache` over the logical disk.

A failed refill leaves the buffer overwritten and `page_buf_lpn` unchanged, so the next hit on that
page is served from the wreckage: `readsects_transparent_iff` says exactly for which sequences of
calls this cannot happen.
-/

namespace RkNand

open OneEntryCache

/-! ## The code -/

/-- What one call of `mtd_read` did: its return code, the length it reported, and what it left in
the buffer in case the page could not be read. -/
structure MtdAttempt where
  ret : ℤ
  retlen : ℕ
  junk : Page

/-- The page was read, in full. -/
def MtdAttempt.Good (a : MtdAttempt) : Prop :=
  (a.ret = 0 ∨ a.ret = -euclean) ∧ a.retlen = rkFtlPageSize

instance (a : MtdAttempt) : Decidable a.Good := inferInstanceAs (Decidable (_ ∧ _))

/-- `mtd_read` of one page: a page that is read yields the bytes of the medium, a read that fails
may have overwritten the buffer. -/
def mtdRead (med : Medium) (off : ℕ) (a : MtdAttempt) : ℤ × ℕ × Page :=
  (a.ret, a.retlen, if a.Good then med.page (off / rkFtlPageSize) else a.junk)

/-- `rk_ftl_read_page`: the return code and the buffer. -/
def rkFtlReadPage (med : Medium) (physPage : ℕ) (a : MtdAttempt) : ℤ × Page :=
  let off := physPage * rkFtlPageSize
  let (ret, retlen, buf) := mtdRead med off a
  let ret := if ret = -euclean then 0 else ret
  if ret ≠ 0 then (ret, buf)
  else if retlen ≠ rkFtlPageSize then (-eio, buf)
  else (0, buf)

/-- The geometry and the flat map of `struct rk_ftl`: a table of `capacity` page addresses. -/
structure FtlMap where
  pagesPerBlock : UInt32
  capacity : UInt32
  l2p : List UInt32
  length_l2p : l2p.length = capacity.toNat

/-- `struct rk_ftl`, as far as the read path uses it. -/
structure RkFtl extends FtlMap where
  pageBuf : Page
  pageBufLpn : UInt32

/-- `rk_ftl_ppa_to_linear`. -/
def rkFtlPpaToLinear (ftl : FtlMap) (ppa : UInt32) : ℕ :=
  let blk := rkFtlPpaBlk ppa
  let page := rkFtlPpaPage ppa
  blk.toNat * ftl.pagesPerBlock.toNat + page.toNat

/-- `ftl->l2p[lpn]`, which the code reads only below the capacity. -/
def FtlMap.entry (ftl : FtlMap) (lpn : UInt32) (inRange : ¬ ftl.capacity ≤ lpn) : UInt32 :=
  ftl.l2p.get ⟨lpn.toNat, by
    rw [ftl.length_l2p]
    exact UInt32.lt_iff_toNat_lt.1 (UInt32.not_le.1 inRange)⟩

/-- `rk_ftl_readsect`: the 512 bytes copied out, or the error returned. -/
def rkFtlReadsect (med : Medium) (ftl : RkFtl) (block : UInt32) (a : MtdAttempt) :
    Except ℤ (List UInt8) × RkFtl :=
  let lpn := block / rkFtlSpp
  let sec := block % rkFtlSpp
  if h : ftl.capacity ≤ lpn then (.ok (List.replicate rkFtlSectSize 0), ftl)
  else if ftl.pageBufLpn ≠ lpn then
    let ppa := ftl.entry lpn h
    if ppa = rkFtlPpaInvalid then
      let ftl := { ftl with pageBuf := Page.zero, pageBufLpn := lpn }
      (.ok (ftl.pageBuf.sector sec.toNat), ftl)
    else
      let (ret, buf) := rkFtlReadPage med (rkFtlPpaToLinear ftl.toFtlMap ppa) a
      if ret ≠ 0 then (.error ret, { ftl with pageBuf := buf })
      else
        let ftl := { ftl with pageBuf := buf, pageBufLpn := lpn }
        (.ok (ftl.pageBuf.sector sec.toNat), ftl)
  else (.ok (ftl.pageBuf.sector sec.toNat), ftl)

/-- The instance as `rk_ftl_add_mtd` exposes it: `page_buf_lpn` is `~0u`, and `page_buf` holds
whatever the map load left there. -/
def RkFtl.fresh (map : FtlMap) (pageBuf : Page) : RkFtl :=
  { map with pageBuf := pageBuf, pageBufLpn := 0xFFFFFFFF }

/-! ## The logical disk -/

/-- The sector within its page, as an index below sixteen. -/
def secInPage (block : UInt32) : Fin 16 :=
  ⟨(block % rkFtlSpp).toNat, by
    rw [UInt32.toNat_mod]
    exact Nat.mod_lt _ (by decide)⟩

namespace FtlMap

variable (ftl : FtlMap) (med : Medium)

/-- What an uncached read finds for a logical page: zeros for a hole, else the mapped page. -/
def logicalPage (lpn : UInt32) : Page :=
  if h : ftl.capacity ≤ lpn then Page.zero
  else if ftl.entry lpn h = rkFtlPpaInvalid then Page.zero
  else med.page (rkFtlPpaToLinear ftl (ftl.entry lpn h))

/-- What an uncached read of a sector delivers. -/
def uncachedRead (block : UInt32) : List UInt8 :=
  (ftl.logicalPage med (block / rkFtlSpp)).sector (secInPage block)

/-- A refill for this page needs no medium, or its read is good. -/
def Refills (lpn : UInt32) (a : MtdAttempt) : Prop :=
  (∃ h, ftl.entry lpn h = rkFtlPpaInvalid) ∨ a.Good

instance (lpn : UInt32) (a : MtdAttempt) : Decidable (ftl.Refills lpn a) :=
  inferInstanceAs (Decidable (_ ∨ _))

end FtlMap

/-! ## What one call does -/

theorem rkFtlReadPage_good {med : Medium} {p : ℕ} {a : MtdAttempt} (good : a.Good) :
    rkFtlReadPage med p a = (0, med.page p) := by
  obtain ⟨code, len⟩ := id good
  have page : p * rkFtlPageSize / rkFtlPageSize = p := Nat.mul_div_cancel _ (by decide)
  have ret : (if a.ret = -euclean then 0 else a.ret) = 0 := by
    rcases code with h | h <;> simp [h]
  simp only [rkFtlReadPage, mtdRead, if_pos good, page, ret, len, ne_eq, not_true_eq_false,
    if_false]

theorem rkFtlReadPage_bad (med : Medium) (p : ℕ) {a : MtdAttempt} (bad : ¬ a.Good) :
    (rkFtlReadPage med p a).1 ≠ 0 ∧ (rkFtlReadPage med p a).2 = a.junk := by
  simp only [rkFtlReadPage, mtdRead, if_neg bad]
  by_cases code : a.ret = 0 ∨ a.ret = -euclean
  · have ret : (if a.ret = -euclean then 0 else a.ret) = 0 := by
      rcases code with h | h <;> simp [h]
    have len : a.retlen ≠ rkFtlPageSize := fun len => bad ⟨code, len⟩
    simp [ret, len, eio]
  · rw [not_or] at code
    simp [code.1, code.2]

variable {med : Medium} {ftl : RkFtl} {block : UInt32} {a : MtdAttempt}

theorem rkFtlReadsect_outOfRange (h : ftl.capacity ≤ block / rkFtlSpp) :
    rkFtlReadsect med ftl block a = (.ok (List.replicate rkFtlSectSize 0), ftl) := by
  simp only [rkFtlReadsect, dif_pos h]

theorem rkFtlReadsect_hit (h : ¬ ftl.capacity ≤ block / rkFtlSpp)
    (hit : ftl.pageBufLpn = block / rkFtlSpp) :
    rkFtlReadsect med ftl block a = (.ok (ftl.pageBuf.sector (secInPage block)), ftl) := by
  simp only [rkFtlReadsect, dif_neg h, hit, ne_eq, not_true_eq_false, if_false, secInPage]

/-- A miss that can be served leaves the page and its number in step. -/
theorem rkFtlReadsect_refill (h : ¬ ftl.capacity ≤ block / rkFtlSpp)
    (miss : ftl.pageBufLpn ≠ block / rkFtlSpp) (refills : ftl.Refills (block / rkFtlSpp) a) :
    rkFtlReadsect med ftl block a =
      (.ok (ftl.uncachedRead med block),
        { ftl with
          pageBuf := ftl.logicalPage med (block / rkFtlSpp), pageBufLpn := block / rkFtlSpp }) := by
  simp only [rkFtlReadsect, FtlMap.uncachedRead, FtlMap.logicalPage, dif_neg h, if_pos miss,
    secInPage]
  by_cases hole : ftl.entry (block / rkFtlSpp) h = rkFtlPpaInvalid
  · simp only [if_pos hole]
  · have good : a.Good := refills.resolve_left fun ⟨_, e⟩ => hole e
    simp only [if_neg hole, rkFtlReadPage_good good, ne_eq, not_true_eq_false, if_false]

/-- A miss whose read fails keeps the old page number over an overwritten page. -/
theorem rkFtlReadsect_failed (med : Medium) (h : ¬ ftl.capacity ≤ block / rkFtlSpp)
    (miss : ftl.pageBufLpn ≠ block / rkFtlSpp) (fails : ¬ ftl.Refills (block / rkFtlSpp) a) :
    ∃ e, rkFtlReadsect med ftl block a = (.error e, { ftl with pageBuf := a.junk }) := by
  have hole : ftl.entry (block / rkFtlSpp) h ≠ rkFtlPpaInvalid := fun e => fails (.inl ⟨h, e⟩)
  obtain ⟨ret, buf⟩ := rkFtlReadPage_bad med
    (rkFtlPpaToLinear ftl.toFtlMap (ftl.entry (block / rkFtlSpp) h)) fun good => fails (.inr good)
  refine ⟨(rkFtlReadPage med (rkFtlPpaToLinear ftl.toFtlMap (ftl.entry _ h)) a).1, ?_⟩
  simp only [rkFtlReadsect, dif_neg h, if_pos miss, if_neg hole, if_pos ret, buf]

/-! ## Sequences of calls -/

/-- One call of `rk_ftl_readsect`: the sector, and what `mtd_read` returns if the call reads. -/
structure ReadCall where
  block : UInt32
  ret : ℤ
  retlen : ℕ

def ReadCall.attempt (c : ReadCall) (junk : Page) : MtdAttempt := ⟨c.ret, c.retlen, junk⟩

/-- The results of a sequence of calls, each given what a failing read of it would leave in the
buffer. -/
def readsects (med : Medium) : RkFtl → List (ReadCall × Page) → List (Except ℤ (List UInt8))
  | _, [] => []
  | ftl, (c, junk) :: rest =>
      let (r, next) := rkFtlReadsect med ftl c.block (c.attempt junk)
      r :: readsects med next rest

/-- Each call that returns 0 delivers what an uncached read would. -/
def ReadsTransparent (med : Medium) (ftl : RkFtl) (calls : List (ReadCall × Page)) : Prop :=
  List.Forall₂ (fun c r => ∀ bytes, r = Except.ok bytes → bytes = ftl.uncachedRead med c.1.block)
    calls (readsects med ftl calls)

/-- The access a call makes to the page cache, if its sector is in range. -/
def FtlMap.cacheAccess (ftl : FtlMap) (c : ReadCall) : Option (Access UInt32 (Fin 16)) :=
  if ftl.capacity ≤ c.block / rkFtlSpp then none
  else some ⟨c.block / rkFtlSpp, secInPage c.block,
    decide (ftl.Refills (c.block / rkFtlSpp) (c.attempt Page.zero))⟩

/-- No sector is asked for that belongs to the cached page while that page has been overwritten by
a failed read. -/
def NoStaleHit (ftl : FtlMap) (calls : List ReadCall) : Prop :=
  StaleFree none false (calls.filterMap ftl.cacheAccess)

/-- The accesses of a sequence of calls, with what their failing reads leave behind. -/
def FtlMap.accesses (ftl : FtlMap) (calls : List (ReadCall × Page)) :
    List (Access UInt32 (Fin 16) × Page) :=
  calls.filterMap fun c => (ftl.cacheAccess c.1).map fun acc => (acc, c.2)

/-- The page cache of an instance; `~0u` is no page. -/
def RkFtl.cache (ftl : RkFtl) : Cache UInt32 Page :=
  ⟨if ftl.pageBufLpn = 0xFFFFFFFF then none else some ftl.pageBufLpn, ftl.pageBuf⟩

@[simp] theorem RkFtl.toFtlMap_fresh (map : FtlMap) (pageBuf : Page) :
    (RkFtl.fresh map pageBuf).toFtlMap = map := rfl

@[simp] theorem RkFtl.cache_fresh (map : FtlMap) (pageBuf : Page) :
    (RkFtl.fresh map pageBuf).cache = ⟨none, pageBuf⟩ := rfl

/-- The number of a page in range is not the one that stands for no page. -/
theorem RkFtl.cache_tag_eq_some_iff (ftl : RkFtl) {lpn : UInt32} (inRange : ¬ ftl.capacity ≤ lpn) :
    ftl.cache.tag = some lpn ↔ ftl.pageBufLpn = lpn := by
  have ne : lpn ≠ 0xFFFFFFFF := by
    rintro rfl
    exact inRange (UInt32.le_iff_toNat_le.2 (Nat.le_of_lt_succ ftl.capacity.toNat_lt))
  simp only [cache]
  split_ifs with h
  · rw [h]
    simpa using Ne.symm ne
  · simp

theorem sector_zero {sec : ℕ} (h : sec < 16) :
    Page.zero.sector sec = List.replicate rkFtlSectSize 0 := by
  simp only [Page.sector, Page.zero, List.drop_replicate, List.take_replicate]
  congr 1
  simp only [rkFtlSectSize, rkFtlPageSize]
  omega

/-- No call changes the map. -/
theorem rkFtlReadsect_map (med : Medium) (ftl : RkFtl) (block : UInt32) (a : MtdAttempt) :
    (rkFtlReadsect med ftl block a).2.toFtlMap = ftl.toFtlMap := by
  by_cases h : ftl.capacity ≤ block / rkFtlSpp
  · rw [rkFtlReadsect_outOfRange h]
  by_cases hit : ftl.pageBufLpn = block / rkFtlSpp
  · rw [rkFtlReadsect_hit h hit]
  by_cases refills : ftl.Refills (block / rkFtlSpp) a
  · rw [rkFtlReadsect_refill h hit refills]
  · obtain ⟨e, he⟩ := rkFtlReadsect_failed med h hit refills
    rw [he]

/-- One call in range is one access to the page cache. -/
theorem rkFtlReadsect_access (med : Medium) (a : MtdAttempt)
    (h : ¬ ftl.capacity ≤ block / rkFtlSpp) :
    let acc : Access UInt32 (Fin 16) :=
      ⟨block / rkFtlSpp, secInPage block, decide (ftl.Refills (block / rkFtlSpp) a)⟩
    let answer := ftl.cache.access (ftl.logicalPage med) (fun sec p => p.sector sec.val) acc a.junk
    (∀ bytes, (rkFtlReadsect med ftl block a).1 = .ok bytes ↔ answer.1 = some bytes) ∧
      (rkFtlReadsect med ftl block a).2.cache = answer.2 := by
  intro acc answer
  have tag := ftl.cache_tag_eq_some_iff h
  by_cases hit : ftl.pageBufLpn = block / rkFtlSpp
  · have ha : answer = _ := Cache.access_hit (tag.2 hit) a.junk
    rw [ha, rkFtlReadsect_hit h hit]
    exact ⟨fun bytes => by simp [RkFtl.cache, acc], rfl⟩
  have miss : ftl.cache.tag ≠ some acc.key := mt tag.1 hit
  by_cases refills : ftl.Refills (block / rkFtlSpp) a
  · have ha : answer = _ := Cache.access_served miss (decide_eq_true refills) a.junk
    have next := (RkFtl.cache_tag_eq_some_iff
      { ftl with
        pageBuf := ftl.logicalPage med (block / rkFtlSpp), pageBufLpn := block / rkFtlSpp } h).2 rfl
    rw [ha, rkFtlReadsect_refill h hit refills]
    exact ⟨fun bytes => by simp [FtlMap.uncachedRead, acc],
      congrArg (fun t => Cache.mk t (ftl.logicalPage med (block / rkFtlSpp))) next⟩
  · have ha : answer = _ := Cache.access_failed miss (by simpa [acc] using refills) a.junk
    obtain ⟨e, he⟩ := rkFtlReadsect_failed med h hit refills
    rw [ha, he]
    exact ⟨fun bytes => by simp, rfl⟩

/-- A sequence of calls is a run of the one-entry cache over the logical disk: the calls are
transparent exactly when the accesses they make are. -/
theorem readsects_simulates (ftl : RkFtl) (calls : List (ReadCall × Page)) :
    ReadsTransparent med ftl calls ↔
      Transparent (ftl.logicalPage med) (fun sec p => p.sector sec.val) ftl.cache
        (ftl.accesses calls) := by
  induction calls generalizing ftl with
  | nil => simp [ReadsTransparent, readsects, FtlMap.accesses, Transparent]
  | cons call rest ih =>
    obtain ⟨c, junk⟩ := call
    have map := rkFtlReadsect_map med ftl c.block (c.attempt junk)
    have tail := ih (rkFtlReadsect med ftl c.block (c.attempt junk)).2
    rw [ReadsTransparent, map] at tail
    rw [ReadsTransparent, readsects, List.forall₂_cons, tail]
    by_cases h : ftl.capacity ≤ c.block / rkFtlSpp
    · have zero : ftl.uncachedRead med c.block = List.replicate rkFtlSectSize 0 := by
        simp only [FtlMap.uncachedRead, FtlMap.logicalPage, dif_pos h]
        exact sector_zero (secInPage c.block).isLt
      have skip : ftl.accesses ((c, junk) :: rest) = ftl.accesses rest := by
        simp [FtlMap.accesses, FtlMap.cacheAccess, h]
      rw [skip, rkFtlReadsect_outOfRange h]
      simp [zero]
    · have acc : ftl.accesses ((c, junk) :: rest) =
          (⟨c.block / rkFtlSpp, secInPage c.block,
            decide (ftl.Refills (c.block / rkFtlSpp) (c.attempt junk))⟩, junk) ::
              ftl.accesses rest := by
        simp only [FtlMap.accesses, List.filterMap_cons, FtlMap.cacheAccess, if_neg h]
        rfl
      obtain ⟨answer, cache⟩ := rkFtlReadsect_access med (c.attempt junk) h
      rw [acc, Transparent, cache]
      exact and_congr (forall_congr' fun bytes => imp_congr (answer bytes) Iff.rfl) Iff.rfl

theorem FtlMap.map_fst_accesses (ftl : FtlMap) (calls : List (ReadCall × Page)) :
    (ftl.accesses calls).map Prod.fst = (calls.map Prod.fst).filterMap ftl.cacheAccess := by
  simp only [accesses, List.map_filterMap, List.filterMap_map, Option.map_map]
  congr 1
  funext c
  simp [Function.comp_def]

/-- Every choice of leftovers for the accesses comes from a choice for the calls. -/
theorem FtlMap.exists_accesses_eq (ftl : FtlMap) (calls : List ReadCall)
    (accs : List (Access UInt32 (Fin 16) × Page))
    (h : accs.map Prod.fst = calls.filterMap ftl.cacheAccess) :
    ∃ tries : List (ReadCall × Page), tries.map Prod.fst = calls ∧ ftl.accesses tries = accs := by
  induction calls generalizing accs with
  | nil => exact ⟨[], rfl, by simpa [accesses] using h.symm⟩
  | cons c calls ih =>
    cases hc : ftl.cacheAccess c with
    | none =>
      obtain ⟨tries, rfl, rfl⟩ := ih accs (by simpa [hc] using h)
      exact ⟨(c, Page.zero) :: tries, rfl, by simp [accesses, hc]⟩
    | some acc =>
      rw [List.filterMap_cons_some hc] at h
      obtain ⟨⟨acc', junk⟩, accs', rfl, rfl, htail⟩ := List.map_eq_cons_iff.1 h
      obtain ⟨tries, rfl, rfl⟩ := ih accs' htail
      exact ⟨(c, junk) :: tries, rfl, by simp [accesses, hc]⟩

/-- Every page can be overwritten so that each of its sectors is wrong. -/
theorem exists_sector_ne (p : Page) : ∃ q : Page, ∀ sec : Fin 16, q.sector sec ≠ p.sector sec := by
  refine ⟨⟨p.bytes.map (· + 1), by simp [p.length_bytes]⟩, fun sec h => ?_⟩
  have head (l : List UInt8) (ne : l ≠ []) : l.map (· + 1) ≠ l := by
    cases l with
    | nil => exact absurd rfl ne
    | cons b l =>
      intro e
      have hb := congrArg UInt8.toNat (List.cons.inj e).1
      rw [UInt8.toNat_add, UInt8.toNat_one] at hb
      omega
  refine head (p.sector sec) ?_ (by simpa [Page.sector, List.map_take, List.map_drop] using h)
  have := sec.isLt
  simp only [Page.sector, ne_eq, List.take_eq_nil_iff, List.drop_eq_nil_iff, p.length_bytes,
    rkFtlSectSize, rkFtlPageSize]
  omega

/-- Whatever failing reads leave in the buffer, the calls that return 0 deliver what uncached reads
would, exactly when the sequence has no stale hit. -/
theorem readsects_transparent_iff (med : Medium) (map : FtlMap) (pageBuf : Page)
    (calls : List ReadCall) :
    (∀ tries : List (ReadCall × Page), tries.map Prod.fst = calls →
      ReadsTransparent med (RkFtl.fresh map pageBuf) tries) ↔ NoStaleHit map calls := by
  rw [NoStaleHit, ← transparent_iff_staleFree (map.logicalPage med)
    (fun (sec : Fin 16) p => p.sector sec.val) exists_sector_ne pageBuf]
  simp only [readsects_simulates, RkFtl.toFtlMap_fresh, RkFtl.cache_fresh]
  constructor
  · intro h accs haccs
    obtain ⟨tries, htries, rfl⟩ := map.exists_accesses_eq calls accs haccs
    exact h tries htries
  · rintro h tries rfl
    exact h _ (map.map_fst_accesses tries)

/-- Two mapped pages of zeros: sector 0 of the first is read, the second cannot be corrected and
leaves ones behind, and sector 1 of the first is then served from the ones. -/
theorem readsects_stale_hit :
    ¬ ReadsTransparent ⟨16384, fun _ => 0⟩ (RkFtl.fresh ⟨1, 2, [0, 1], rfl⟩ Page.zero)
      [(⟨0, 0, 8192⟩, Page.zero),
        (⟨16, -ebadmsg, 8192⟩, ⟨List.replicate rkFtlPageSize 1, List.length_replicate⟩),
        (⟨1, 0, 8192⟩, Page.zero)] := by
  rw [readsects_simulates]
  have accs : FtlMap.accesses ⟨1, 2, [0, 1], rfl⟩
      [(⟨0, 0, 8192⟩, Page.zero),
        (⟨16, -ebadmsg, 8192⟩, ⟨List.replicate rkFtlPageSize 1, List.length_replicate⟩),
        (⟨1, 0, 8192⟩, Page.zero)] =
      [(⟨0, 0, true⟩, Page.zero),
        (⟨1, 0, false⟩, ⟨List.replicate rkFtlPageSize 1, List.length_replicate⟩),
        (⟨0, 1, true⟩, Page.zero)] := rfl
  rw [RkFtl.toFtlMap_fresh, accs]
  rintro ⟨-, -, hit, -⟩
  have answer : Page.sector ⟨List.replicate rkFtlPageSize 1, List.length_replicate⟩ 1 =
      Page.sector (Medium.page ⟨16384, fun _ => 0⟩ 0) 1 := hit _ rfl
  have first := congrArg List.head? answer
  rw [Page.head?_sector, Page.head?_sector, Medium.getElem?_bytes_page _ (by decide),
    List.getElem?_replicate_of_lt (by decide)] at first
  exact absurd first (by decide)

end RkNand
