import RkNand.Blob.Listing
import RkNand.Tools.L2pScan

/-!
# Which of two versions is newer

`ftl_cmp_data_ver`, the comparison of the blob, beside `rk_ftl_ver_newer`, that of the driver and of
the scan for the map.
-/

namespace RkNand.Blob

open Arm Arm.Reg Newest

/-- What `ftl_cmp_data_ver` answers. -/
def cmpDataVer (a b : UInt32) : Bool :=
  if b < a then a - b ≤ 0x80000000 else 0x80000000 < b - a

section Compare

variable {k : Link} {s : State} {a b : UInt32}

theorem ftlCmpDataVer_calls (h0 : s.reg r0 = a.toBitVec) (h1 : s.reg r1 = b.toBitVec) :
    Calls k.image .ftlCmpDataVer s fun t =>
      t.mem = s.mem ∧ (∀ r ≠ r0, t.reg r = s.reg r) ∧
        t.reg r0 = if cmpDataVer a b then 1#32 else 0#32 := by
  have at1750 := congrArg (after 1750) Link.ftlCmpDataVer.eq_1
  rw [calls_listing rfl Link.ftlCmpDataVer.eq_1]
  by_cases behind : b < a
  · have taken : ¬ a.toBitVec ≤ b.toBitVec := by
      simpa [UInt32.lt_iff_toBitVec_lt] using behind
    by_cases near : a - b ≤ 0x80000000
    · have near' : a.toBitVec - b.toBitVec ≤ 2147483648#32 := near
      have : ¬ 2147483648#32 < a.toBitVec - b.toBitVec := by simpa using near'
      simp [h0, h1, taken, near', this, cmpDataVer, behind, near]
      grind
    · have far : ¬ a.toBitVec - b.toBitVec ≤ 2147483648#32 := near
      have : 2147483648#32 < a.toBitVec - b.toBitVec := by simpa using far
      simp [h0, h1, taken, far, this, cmpDataVer, behind, near]
      grind
  · have taken : a.toBitVec ≤ b.toBitVec := by
      simpa [UInt32.lt_iff_toBitVec_lt] using behind
    simp [h0, h1, taken]
    rw [at1750]
    by_cases far : 0x80000000 < b - a
    · have far' : 2147483648#32 < b.toBitVec - a.toBitVec := far
      have : ¬ b.toBitVec - a.toBitVec ≤ 2147483648#32 := by simpa using far'
      simp [after, h0, h1, far', this, cmpDataVer, behind, far]
      grind
    · have near : ¬ 2147483648#32 < b.toBitVec - a.toBitVec := far
      have : b.toBitVec - a.toBitVec ≤ 2147483648#32 := by simpa using near
      simp [after, h0, h1, near, this, cmpDataVer, behind, far]
      grind

/-- The two comparisons part in two places: on equal versions, and on versions exactly half the
numbers apart where the second one is the larger. -/
theorem cmpDataVer_eq_iff :
    cmpDataVer a b = rkFtlVerNewer a b ↔ a ≠ b ∧ (a < b → b - a ≠ 0x80000000) := by
  have ha := a.toNat_lt
  have hb := b.toNat_lt
  rw [Bool.eq_iff_iff, rkFtlVerNewer_iff, cmpDataVer]
  split_ifs with lt <;>
    simp only [decide_eq_true_eq, UInt32.lt_iff_toNat_lt, UInt32.le_iff_toNat_le, ne_eq,
      ← UInt32.toNat_inj, UInt32.toNat_sub, UInt32.reduceToNat] at lt ⊢ <;> omega

/-- A call of `ftl_cmp_data_ver` on the two versions answers `newer`. -/
def Compares (k : Link) (a b : UInt32) (newer : Bool) : Prop :=
  ∀ s, s.reg r0 = a.toBitVec → s.reg r1 = b.toBitVec →
    Calls k.image .ftlCmpDataVer s fun t => t.reg r0 = if newer then 1#32 else 0#32

theorem compares_iff {newer : Bool} : Compares k a b newer ↔ newer = cmpDataVer a b := by
  constructor
  · intro compares
    -- any state with the two versions in place will do
    let s : State := ⟨fun r => if r = r0 then a.toBitVec else b.toBitVec,
      ⟨false, false, false, false⟩, fun _ => 0⟩
    obtain ⟨t, back, -, -, answer⟩ :=
      ftlCmpDataVer_calls (k := k) (s := s) (a := a) (b := b) rfl rfl
    have told := (compares s rfl rfl).of_returns back
    rw [answer] at told
    revert told
    cases newer <;> cases cmpDataVer a b <;> simp
  · rintro rfl s h0 h1
    exact (ftlCmpDataVer_calls h0 h1).mono fun t h => h.2.2

/-- The blob compares two versions as the driver does, unless they are the same or exactly half the
numbers apart with the larger one second. -/
theorem ftlCmpDataVer_agrees_iff (k : Link) (a b : UInt32) :
    Compares k a b (rkFtlVerNewer a b) ↔ a ≠ b ∧ (a < b → b - a ≠ 0x80000000) := by
  rw [compares_iff, eq_comm, cmpDataVer_eq_iff]

end Compare

/-! ## The scan -/

open L2pScan

end RkNand.Blob
