import Mathlib.Data.List.AList
import RkNand.Ftl.Format
import RkNand.Lib.Newest
import RkNand.Lib.Words

/-!
# The page scan (`l2p-scan.py`)

The script reads the OOB of every physical page with `MEMREADOOB`, decodes the vendor metadata and
keeps, for each logical page number, the newest page that carries it.  `lookup_foldl_scanStep` says
what is kept: the winner, by `newer`, of the pages of that number in scan order.

The request holds the byte offset of the page in 32 bits.  A device that does not report a usable
size is taken to have 8 GiB, and past 4 GiB the offset wraps: the second half of the scan reads the
OOBs of the first half again and records them under the wrong pages
(`lookup_scan_fallback`).
-/

namespace RkNand.L2pScan

open Newest

/-! ## The script -/

/-- `PAGE`. -/
def page : ℕ := 8192

/-- `STEPS`: BCH steps per page, one sys word each. -/
def steps : ℕ := 8

/-- `DATA_MAGIC`. -/
def dataMagic : UInt32 := 0xF095

/-- `sw`: the sys word of a vendor step, at its rotated place in the OOB. -/
def sw (o : List UInt8) (s : ℕ) : UInt32 :=
  let p := if s = 0 then steps - 1 else s - 1
  Words.wordAt o (p * 4)

/-- `newer`. -/
def newer (a b : UInt32) : Bool := ((a.toNat : ℤ) - b.toNat) % 2 ^ 32 < 0x80000001

/-- What the loop takes from one OOB. -/
structure Record where
  pg : ℕ
  magic : UInt32
  version : UInt32
  lpn : UInt32

/-- The buffer `MEMREADOOB` fills. -/
structure OobBuf where
  raw : List UInt8
  length_raw : raw.length = 64

/-- Decode the OOB read for page `pg`. -/
def decode (pg : ℕ) (buf : OobBuf) : Record :=
  let o := buf.raw.take 32
  ⟨pg, sw o 0 &&& 0xFFFF, sw o 1, sw o 2⟩

/-- `lpn2phys`. -/
abbrev Lpn2phys := AList fun _ : UInt32 => ℕ × UInt32

/-- The body of the loop, once the OOB is decoded. -/
def scanStep (lpn2phys : Lpn2phys) (r : Record) : Lpn2phys :=
  if r.magic = dataMagic then
    match lpn2phys.lookup r.lpn with
    | none => lpn2phys.insert r.lpn (r.pg, r.version)
    | some cur =>
        if newer r.version cur.2 then lpn2phys.insert r.lpn (r.pg, r.version) else lpn2phys
  else lpn2phys

/-- The device size the script works with, from the 32-bit size of `MEMGETINFO`. -/
def deviceSize (infoSize : UInt32) : ℕ :=
  if infoSize.toNat < 2 ^ 20 then 0x200000000 else infoSize.toNat

/-- `npages`. -/
def npages (infoSize : UInt32) : ℕ := deviceSize infoSize / page

/-- The OOBs on the device, by physical page; `none` where the read fails. -/
abbrev Flash := ℕ → Option OobBuf

/-- `MEMREADOOB`: the OOB of the page at the byte offset in the request. -/
def memReadOob (flash : Flash) (start : UInt32) : Option OobBuf := flash (start.toNat / page)

/-- `req.start = pg * PAGE`, assigned to a `c_uint32`. -/
def reqStart (pg : ℕ) : UInt32 := UInt32.ofNat (pg * page)

/-- The scan loop: pages whose ioctl raises `OSError` are passed over. -/
def scan (flash : Flash) (infoSize : UInt32) : Lpn2phys :=
  (List.range (npages infoSize)).foldl
    (fun lpn2phys pg =>
      match memReadOob flash (reqStart pg) with
      | none => lpn2phys
      | some buf => scanStep lpn2phys (decode pg buf)) ∅

/-- `max(lpn2phys)`. -/
def hi (lpn2phys : Lpn2phys) : ℕ := (lpn2phys.keys.map UInt32.toNat).foldr max 0

/-- `arr[l] = p` for an `array('i')`, which raises unless `p` fits. -/
def setEntry (arr : List UInt32) (e : Sigma fun _ : UInt32 => ℕ × UInt32) : Option (List UInt32) :=
  if e.2.1 < 2 ^ 31 then some (arr.set e.1.toNat (UInt32.ofNat e.2.1)) else none

/-- The map file: signed 32-bit page numbers by logical page, -1 for a hole.  None is written when
no logical page was found. -/
def saveMap (lpn2phys : Lpn2phys) : Option (List UInt8) :=
  if lpn2phys.entries.isEmpty then none
  else
    let arr := List.replicate (hi lpn2phys + 1) 0xFFFFFFFF
    (lpn2phys.entries.foldlM setEntry arr).map Words.toBytes

/-! ## What a scan keeps -/

/-- The newest of two entries, by the wrapping comparison of versions. -/
def beats (a b : ℕ × UInt32) : Bool := newer a.2 b.2

/-- The data pages of one logical page, in scan order. -/
def pagesOf (lpn : UInt32) (recs : List Record) : List (ℕ × UInt32) :=
  (recs.filter fun r => r.magic = dataMagic ∧ r.lpn = lpn).map fun r => (r.pg, r.version)

theorem newer_iff (a b : UInt32) :
    newer a b = true ↔ ((a.toNat : ℤ) - b.toNat) % 2 ^ 32 ≤ 2 ^ 31 := by
  simp only [newer, decide_eq_true_eq]
  omega

theorem newer_self (a : UInt32) : newer a a = true := by
  simp [newer_iff]

theorem lookup_scanStep (m : Lpn2phys) (r : Record) (lpn : UInt32) :
    (scanStep m r).lookup lpn =
      if r.magic = dataMagic ∧ r.lpn = lpn then keep beats (m.lookup lpn) (r.pg, r.version)
      else m.lookup lpn := by
  unfold scanStep
  by_cases magic : r.magic = dataMagic
  · by_cases same : r.lpn = lpn
    · subst same
      cases cur : m.lookup r.lpn with
      | none => simp [magic, keep]
      | some c =>
        simp only [magic, true_and, if_true, keep, beats]
        split_ifs with newer <;> simp [cur, newer]
    · simp only [magic, same, and_false, if_true, if_false]
      have insert (v : ℕ × UInt32) : (m.insert r.lpn v).lookup lpn = m.lookup lpn :=
        AList.lookup_insert_ne (Ne.symm same)
      split
      · exact insert _
      · split_ifs
        · exact insert _
        · rfl
  · simp [magic]

/-- A scan keeps, for each logical page, the winner of its data pages. -/
theorem lookup_foldl_scanStep (recs : List Record) (m : Lpn2phys) (lpn : UInt32) :
    (recs.foldl scanStep m).lookup lpn = (pagesOf lpn recs).foldl (keep beats) (m.lookup lpn) := by
  induction recs generalizing m with
  | nil => rfl
  | cons r recs ih =>
    rw [List.foldl_cons, ih, lookup_scanStep]
    by_cases h : r.magic = dataMagic ∧ r.lpn = lpn
    · simp [pagesOf, h]
    · simp [pagesOf, h]

/-- The records the loop sees. -/
def scanned (flash : Flash) (n : ℕ) : List Record :=
  (List.range n).filterMap fun pg => (memReadOob flash (reqStart pg)).map (decode pg)

theorem lookup_scan (flash : Flash) (infoSize lpn : UInt32) :
    (scan flash infoSize).lookup lpn =
      winner beats (pagesOf lpn (scanned flash (npages infoSize))) := by
  have loop : scan flash infoSize = (scanned flash (npages infoSize)).foldl scanStep ∅ := by
    rw [scan, scanned, List.foldl_filterMap]
    congr 1
    funext m pg
    cases memReadOob flash (reqStart pg) <;> rfl
  rw [loop, lookup_foldl_scanStep, AList.lookup_empty, winner]

/-! ## The saved map -/

theorem toNat_le_hi {m : Lpn2phys} {lpn : UInt32} {e : ℕ × UInt32} (h : m.lookup lpn = some e) :
    lpn.toNat ≤ hi m := by
  have key : lpn ∈ m.keys := AList.mem_keys.1 (AList.lookup_isSome.1 (by simp [h]))
  exact List.le_max_of_le (List.mem_map_of_mem key) (le_refl lpn.toNat)

theorem hi_lt (m : Lpn2phys) : hi m < 2 ^ 32 := by
  have : hi m ≤ 2 ^ 32 - 1 := List.max_le_of_forall_le _ _ fun n hn => by
    obtain ⟨lpn, -, rfl⟩ := List.mem_map.1 hn
    have := lpn.toNat_lt
    omega
  omega

/-- Storing entries with distinct keys: each place holds its own entry, the others are kept. -/
theorem foldlM_setEntry {l : List (Sigma fun _ : UInt32 => ℕ × UInt32)} (nodup : l.NodupKeys)
    (fits : ∀ e ∈ l, e.2.1 < 2 ^ 31) (arr : List UInt32) :
    ∃ arr', l.foldlM setEntry arr = some arr' ∧ arr'.length = arr.length ∧
      ∀ lpn : UInt32, lpn.toNat < arr.length →
        arr'[lpn.toNat]? =
          (l.dlookup lpn).elim arr[lpn.toNat]? fun e => some (UInt32.ofNat e.1) := by
  induction l generalizing arr with
  | nil => exact ⟨arr, rfl, rfl, fun lpn _ => rfl⟩
  | cons e l ih =>
    obtain ⟨k, p, v⟩ := e
    rw [List.nodupKeys_cons] at nodup
    obtain ⟨arr', fold, len, places⟩ := ih nodup.2 (fun e he => fits e (List.mem_cons_of_mem _ he))
      (arr.set k.toNat (UInt32.ofNat p))
    refine ⟨arr', ?_, by simpa using len, fun lpn hlpn => ?_⟩
    · rw [List.foldlM_cons, setEntry, if_pos (fits ⟨k, p, v⟩ (by simp))]
      exact fold
    · rw [places lpn (by simpa using hlpn)]
      by_cases same : lpn = k
      · subst same
        rw [List.dlookup_cons_eq, List.dlookup_eq_none.2 nodup.1]
        simp [hlpn]
      · have apart : k.toNat ≠ lpn.toNat := fun e => same (UInt32.toNat_inj.1 e.symm)
        rw [List.dlookup_cons_ne _ _ same, List.getElem?_set_ne apart]

/-- The saved map reads back as the map. -/
theorem saveMap_eq {m : Lpn2phys} (nonempty : ∃ lpn e, m.lookup lpn = some e)
    (fits : ∀ lpn e, m.lookup lpn = some e → e.1 < 2 ^ 31) :
    ∃ arr, saveMap m = some (Words.toBytes arr) ∧ arr.length ≤ 2 ^ 32 ∧
      (∀ lpn e, m.lookup lpn = some e → arr[lpn.toNat]? = some (UInt32.ofNat e.1)) ∧
      ∀ lpn, m.lookup lpn = none → ∀ w, arr[lpn.toNat]? = some w → w = 0xFFFFFFFF := by
  have fits' : ∀ e ∈ m.entries, e.2.1 < 2 ^ 31 := fun e he =>
    fits e.1 e.2 (AList.mem_lookup_iff.2 he)
  obtain ⟨arr, fold, len, places⟩ := foldlM_setEntry m.nodupKeys fits'
    (List.replicate (hi m + 1) 0xFFFFFFFF)
  rw [List.length_replicate] at len places
  refine ⟨arr, ?_, len ▸ hi_lt m, fun lpn e h => ?_, fun lpn h w hw => ?_⟩
  · obtain ⟨lpn, e, h⟩ := nonempty
    have : m.entries ≠ [] := by
      intro empty
      rw [AList.lookup, empty] at h
      cases h
    simp only [saveMap, List.isEmpty_iff, this, if_false, fold, Option.map_some]
  · have small := toNat_le_hi h
    rw [places lpn (by omega), show m.entries.dlookup lpn = some e from h]
    rfl
  · obtain ⟨small, -⟩ := List.getElem?_eq_some_iff.1 hw
    rw [len] at small
    rw [places lpn small, show m.entries.dlookup lpn = none from h, Option.elim_none,
      List.getElem?_replicate_of_lt small, Option.some.injEq] at hw
    exact hw.symm

/-! ## Which page an OOB belongs to -/

/-- Physical page `pg` itself carries a data OOB with this number and version. -/
def OwnOob (flash : Flash) (pg : ℕ) (lpn ver : UInt32) : Prop :=
  ∃ buf, flash pg = some buf ∧ (decode pg buf).magic = dataMagic ∧
    (decode pg buf).lpn = lpn ∧ (decode pg buf).version = ver

/-- Every entry of the final map names a page that carries that OOB itself. -/
def Attributed (flash : Flash) (infoSize : UInt32) : Prop :=
  ∀ lpn pg ver, (scan flash infoSize).lookup lpn = some (pg, ver) → OwnOob flash pg lpn ver

/-- The pages 4 GiB apart, whose byte offsets agree in 32 bits. -/
def half : ℕ := 2 ^ 19

theorem memReadOob_reqStart (flash : Flash) (pg : ℕ) :
    memReadOob flash (reqStart pg) = flash (pg % half) := by
  have : (reqStart pg).toNat / page = pg % half := by
    simp only [reqStart, UInt32.toNat_ofNat', page, half]
    omega
  rw [memReadOob, this]

/-- Every page recorded for a logical page is one whose offset, cut to 32 bits, led to that OOB. -/
theorem ownOob_of_mem_pagesOf {flash : Flash} {n pg : ℕ} {lpn ver : UInt32}
    (h : (pg, ver) ∈ pagesOf lpn (scanned flash n)) :
    pg < n ∧ OwnOob flash (pg % half) lpn ver := by
  simp only [pagesOf, scanned, List.mem_map, List.mem_filter, List.mem_filterMap, List.mem_range,
    decide_eq_true_eq, memReadOob_reqStart, Option.map_eq_some_iff] at h
  obtain ⟨r, ⟨⟨pg', hpg', buf, hbuf, rfl⟩, magic, lpn'⟩, e⟩ := h
  obtain ⟨rfl, version⟩ := Prod.mk.inj e
  exact ⟨hpg', buf, hbuf, magic, lpn', version⟩

/-- Below 4 GiB no offset wraps. -/
theorem attributed_of_size {flash : Flash} {infoSize : UInt32} (usable : 2 ^ 20 ≤ infoSize.toNat) :
    Attributed flash infoSize := by
  intro lpn pg ver h
  rw [lookup_scan] at h
  obtain ⟨small, own⟩ := ownOob_of_mem_pagesOf (mem_of_winner h)
  have := infoSize.toNat_lt
  have below : pg < half := by
    simp only [npages, deviceSize, if_neg (not_lt.2 usable), page] at small
    simp only [half]
    omega
  rwa [Nat.mod_eq_of_lt below] at own

/-- The data pages of one logical page in the first 4 GiB. -/
def lowPages (flash : Flash) (lpn : UInt32) : List (ℕ × UInt32) :=
  pagesOf lpn ((List.range half).filterMap fun pg => (flash pg).map (decode pg))

/-- The second half of an 8 GiB scan is the first half over again, under other page numbers. -/
theorem pagesOf_scanned_fallback (flash : Flash) (lpn : UInt32) :
    pagesOf lpn (scanned flash (2 ^ 20)) =
      lowPages flash lpn ++ (lowPages flash lpn).map fun e => (half + e.1, e.2) := by
  have split : (2 : ℕ) ^ 20 = half + half := rfl
  have low : ∀ pg ∈ List.range half, (memReadOob flash (reqStart pg)).map (decode pg) =
      (flash pg).map (decode pg) := by
    intro pg hpg
    rw [memReadOob_reqStart, Nat.mod_eq_of_lt (List.mem_range.1 hpg)]
  have high : ∀ pg ∈ List.range half,
      (memReadOob flash (reqStart (half + pg))).map (decode (half + pg)) =
        ((flash pg).map (decode pg)).map fun r => { r with pg := half + r.pg } := by
    intro pg hpg
    rw [memReadOob_reqStart, Nat.add_mod_left, Nat.mod_eq_of_lt (List.mem_range.1 hpg)]
    cases flash pg <;> rfl
  rw [scanned, split, List.range_add, List.filterMap_append, List.filterMap_map, Function.comp_def,
    List.filterMap_congr low, List.filterMap_congr high, ← List.map_filterMap]
  simp only [pagesOf, lowPages, List.filter_append, List.map_append, List.filter_map, List.map_map]
  rfl

/-- In an 8 GiB scan every entry ends up in the second half, 4 GiB above the page it was read
from. -/
theorem lookup_scan_fallback {flash : Flash} {infoSize : UInt32} (small : infoSize.toNat < 2 ^ 20)
    (lpn : UInt32) :
    (scan flash infoSize).lookup lpn =
      (winner beats (lowPages flash lpn ++ lowPages flash lpn)).map fun e => (half + e.1, e.2) := by
  have size : npages infoSize = 2 ^ 20 := by
    simp only [npages, deviceSize, if_pos small, page]
    norm_num
  rw [lookup_scan, size, pagesOf_scanned_fallback]
  exact winner_append_map (fun x => newer_self x.2) (fun _ _ => by simp only [beats])
    (fun _ _ => by simp only [beats]) _

/-- The page stored last for each logical page when the first 4 GiB are gone through twice has a
twin, 4 GiB above, with the same metadata. -/
def TwinsAgree (flash : Flash) : Prop :=
  ∀ lpn seen q ver rest,
    LastStored beats (lowPages flash lpn ++ lowPages flash lpn) seen (q, ver) rest →
      OwnOob flash (half + q) lpn ver

/-- The scan attributes every OOB to its own page exactly when the device reports its size, or the
two halves of an 8 GiB device happen to agree on the pages that are stored last. -/
theorem scan_attributed_iff (flash : Flash) (infoSize : UInt32) :
    Attributed flash infoSize ↔ 2 ^ 20 ≤ infoSize.toNat ∨ TwinsAgree flash := by
  constructor
  · intro attributed
    by_cases usable : 2 ^ 20 ≤ infoSize.toNat
    · exact .inl usable
    · refine .inr fun lpn seen q ver rest stored => attributed lpn (half + q) ver ?_
      rw [lookup_scan_fallback (not_le.1 usable), stored.winner_eq]
      rfl
  · rintro (usable | twins)
    · exact attributed_of_size usable
    · by_cases usable : 2 ^ 20 ≤ infoSize.toNat
      · exact attributed_of_size usable
      · intro lpn pg ver h
        rw [lookup_scan_fallback (not_le.1 usable), Option.map_eq_some_iff] at h
        obtain ⟨⟨q, v⟩, kept, e⟩ := h
        obtain ⟨rfl, rfl⟩ := Prod.mk.inj e
        obtain ⟨seen, rest, stored⟩ := winner_eq_some_iff_lastStored.1 kept
        exact twins lpn seen q v rest stored

/-- The OOB of a data page: version 1, logical page 0. -/
def exampleOob : OobBuf :=
  ⟨[1, 0, 0, 0, 0, 0, 0, 0] ++ List.replicate 20 0 ++ [0x95, 0xF0, 0, 0] ++ List.replicate 32 0,
    rfl⟩

/-- The OOB of an erased page. -/
def erasedOob : OobBuf := ⟨List.replicate 64 0xFF, rfl⟩

/-- An 8 GiB device, whose size is 0 in 32 bits, with one data page, page 0: the map names a page of
the upper half, which is erased. -/
theorem scan_misattributes :
    ¬ Attributed (fun pg => if pg = 0 then some exampleOob else some erasedOob) 0 := by
  intro attributed
  set flash : Flash := fun pg => if pg = 0 then some exampleOob else some erasedOob with hflash
  have low : (0, 1) ∈ lowPages flash 0 := by
    simp only [lowPages, pagesOf, List.mem_map, List.mem_filter, List.mem_filterMap, List.mem_range]
    exact ⟨decode 0 exampleOob, ⟨⟨0, by decide, rfl⟩, by decide⟩, by decide⟩
  cases kept : winner beats (lowPages flash 0 ++ lowPages flash 0) with
  | none =>
    rw [winner_eq_none_iff] at kept
    simp [List.append_eq_nil_iff.1 kept] at low
  | some e =>
    have entry : (scan flash 0).lookup 0 = some (half + e.1, e.2) := by
      rw [lookup_scan_fallback (by decide), kept]
      rfl
    obtain ⟨buf, hbuf, magic, -⟩ := attributed 0 _ _ entry
    have erased : flash (half + e.1) = some erasedOob := by
      rw [hflash]
      exact if_neg (by simp only [half]; omega)
    rw [erased, Option.some.injEq] at hbuf
    subst hbuf
    exact absurd magic (by simp only [decode]; decide)

end RkNand.L2pScan
