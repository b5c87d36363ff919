import Mathlib.Tactic

/-!
# The on-flash format (`rk-ftl.h`) and the medium under it

Geometry, page addresses and version numbers of the vendor format, and the flash as the read path
sees it: a run of descrambled bytes read 8192 at a time.  `unsigned long` is 32 bits wide: the
driver is built for the box's armv7 kernel.
-/

namespace RkNand

/-! ## Geometry -/

/-- `RK_FTL_SECT_SIZE`: the block layer's sector. -/
def rkFtlSectSize : ℕ := 512

/-- `RK_FTL_SPP`: sectors per page. -/
def rkFtlSpp : UInt32 := 16

/-- `RK_FTL_PAGE_SIZE`: host bytes per page. -/
def rkFtlPageSize : ℕ := 8192

/-- `RK_FTL_PPA_INVALID`: the page address of a hole. -/
def rkFtlPpaInvalid : UInt32 := 0xFFFFFFFF

/-! ## Page addresses -/

/-- `RK_FTL_PPA_PAGE`: the page within the block, in the low ten bits. -/
def rkFtlPpaPage (ppa : UInt32) : UInt32 := ppa &&& 0x3FF

/-- `RK_FTL_PPA_BLK`: the block, in the sixteen bits above; bits 26 to 31 are flags. -/
def rkFtlPpaBlk (ppa : UInt32) : UInt32 := (ppa &&& 0x03FFFFFF) >>> 10

theorem rkFtlPpaPage_toNat (ppa : UInt32) : (rkFtlPpaPage ppa).toNat = ppa.toNat % 2 ^ 10 := by
  rw [rkFtlPpaPage, UInt32.toNat_and]
  exact Nat.and_two_pow_sub_one_eq_mod _ 10

theorem rkFtlPpaBlk_toNat (ppa : UInt32) :
    (rkFtlPpaBlk ppa).toNat = ppa.toNat % 2 ^ 26 / 2 ^ 10 := by
  rw [rkFtlPpaBlk, UInt32.toNat_shiftRight, UInt32.toNat_and, Nat.shiftRight_eq_div_pow]
  congr 1
  exact Nat.and_two_pow_sub_one_eq_mod _ 26

/-! ## Versions -/

/-- `rk_ftl_ver_newer`: `a` is at most `2 ^ 31` counts ahead of `b`, modulo `2 ^ 32`. -/
def rkFtlVerNewer (a b : UInt32) : Bool := (a - b) &&& 0xFFFFFFFF < 0x80000001

theorem rkFtlVerNewer_iff (a b : UInt32) : rkFtlVerNewer a b = true ↔ (a - b).toNat ≤ 2 ^ 31 := by
  have mask : (a - b) &&& 0xFFFFFFFF = a - b := by
    apply UInt32.toNat_inj.1
    rw [UInt32.toNat_and]
    exact (Nat.and_two_pow_sub_one_eq_mod _ 32).trans (Nat.mod_eq_of_lt (a - b).toNat_lt)
  simp only [rkFtlVerNewer, mask, decide_eq_true_eq, UInt32.lt_iff_toNat_lt]
  exact Nat.lt_succ_iff

/-! ## Pages and the medium -/

/-- One page of data. -/
structure Page where
  bytes : List UInt8
  length_bytes : bytes.length = rkFtlPageSize

@[ext] theorem Page.ext {p q : Page} (h : p.bytes = q.bytes) : p = q := by
  cases p
  cases q
  simpa using h

/-- A page of zeros. -/
def Page.zero : Page := ⟨List.replicate rkFtlPageSize 0, List.length_replicate⟩

/-- Sector `sec` of a page: `page_buf + sec * RK_FTL_SECT_SIZE`. -/
def Page.sector (p : Page) (sec : ℕ) : List UInt8 :=
  (p.bytes.drop (sec * rkFtlSectSize)).take rkFtlSectSize

theorem Page.head?_sector (p : Page) (sec : ℕ) :
    (p.sector sec).head? = p.bytes[sec * rkFtlSectSize]? := by
  simp [sector, List.head?_take, List.head?_drop, rkFtlSectSize]

/-- The flash behind the character device: `size` bytes, descrambled. -/
structure Medium where
  size : ℕ
  byte : ℕ → UInt8

namespace Medium

variable (med : Medium)

/-- The byte at an offset, zero past the end. -/
def padded (off : ℕ) : UInt8 := if off < med.size then med.byte off else 0

/-- `os.pread`: up to `n` bytes from `off`, fewer at the end of the device. -/
def pread (n off : ℕ) : List UInt8 := (List.range' off (min n (med.size - off))).map med.byte

/-- The data of physical page `p`. -/
def page (p : ℕ) : Page :=
  ⟨(List.range' (p * rkFtlPageSize) rkFtlPageSize).map med.padded, by simp⟩

theorem getElem?_bytes_page {p i : ℕ} (hi : i < rkFtlPageSize) :
    (med.page p).bytes[i]? = some (med.padded (p * rkFtlPageSize + i)) := by
  simp [page, hi]

/-- A short read padded with zeros is the page. -/
theorem pread_append_zero (p : ℕ) :
    (med.pread rkFtlPageSize (p * rkFtlPageSize) ++ Page.zero.bytes).take rkFtlPageSize =
      (med.page p).bytes := by
  set off := p * rkFtlPageSize with hoff
  apply List.ext_getElem?
  intro i
  simp only [page, pread, Page.zero, ← hoff]
  by_cases hi : i < rkFtlPageSize
  · rw [List.getElem?_take_of_lt hi]
    by_cases inside : i < min rkFtlPageSize (med.size - off)
    · rw [List.getElem?_append_left (by simpa using inside)]
      have : off + i < med.size := by omega
      simp [padded, this, hi, inside]
    · rw [List.getElem?_append_right (by simp; omega)]
      have past : ¬ off + i < med.size := by omega
      have : i - min rkFtlPageSize (med.size - off) < rkFtlPageSize := by omega
      simp [padded, past, hi, this]
  · rw [List.getElem?_eq_none (by simp; omega), List.getElem?_eq_none (by simp; omega)]

/-- A read that is not short is the page as it stands. -/
theorem pread_of_length {p : ℕ}
    (full : (med.pread rkFtlPageSize (p * rkFtlPageSize)).length = rkFtlPageSize) :
    med.pread rkFtlPageSize (p * rkFtlPageSize) = (med.page p).bytes := by
  rw [← pread_append_zero, List.take_left' full]

end Medium

end RkNand
