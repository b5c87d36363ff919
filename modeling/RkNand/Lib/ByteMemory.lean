import Mathlib.Tactic
import Mathlib.Data.BitVec

/-!
# Byte memory with little-endian loads and stores

A memory of 32-bit addresses, read and written one, two or four bytes at a time.  Two ranges of it
are apart when neither starts inside the other, counted around the end of the address space
(`Apart`); a load does not see a store to a range apart from it.
-/

/-- A memory: one byte at each 32-bit address. -/
abbrev ByteMemory := BitVec 32 → BitVec 8

namespace ByteMemory

variable (m : ByteMemory) {a b : BitVec 32}

/-- The halfword at an address, least significant byte first. -/
def ld16 (a : BitVec 32) : BitVec 16 := m (a + 1) ++ m a

/-- The word at an address, least significant halfword first. -/
def ld32 (a : BitVec 32) : BitVec 32 := m.ld16 (a + 2) ++ m.ld16 a

def st8 (a : BitVec 32) (v : BitVec 8) : ByteMemory := fun x => if x = a then v else m x

def st16 (a : BitVec 32) (v : BitVec 16) : ByteMemory :=
  (m.st8 a (v.extractLsb' 0 8)).st8 (a + 1) (v.extractLsb' 8 8)

def st32 (a : BitVec 32) (v : BitVec 32) : ByteMemory :=
  (m.st16 a (v.extractLsb' 0 16)).st16 (a + 2) (v.extractLsb' 16 16)

/-- Store words one after the other, from the `i`-th place at `a` on. -/
def storeWords : ByteMemory → BitVec 32 → ℕ → List (BitVec 32) → ByteMemory
  | m, _, _, [] => m
  | m, a, i, w :: ws => storeWords (m.st32 (a + BitVec.ofNat 32 (4 * i)) w) a (i + 1) ws

/-- The ranges of `k` bytes at `a` and of `n` bytes at `b` have no byte in common. -/
def Apart (a : BitVec 32) (k : ℕ) (b : BitVec 32) (n : ℕ) : Prop :=
  k ≤ (b - a).toNat ∧ n ≤ (a - b).toNat

instance (a : BitVec 32) (k : ℕ) (b : BitVec 32) (n : ℕ) : Decidable (Apart a k b n) :=
  inferInstanceAs (Decidable (_ ∧ _))

/-! ## Ranges apart -/

theorem Apart.symm {k n : ℕ} (h : Apart a k b n) : Apart b n a k := ⟨h.2, h.1⟩

/-- Ranges that do not wrap around, one below the other. -/
theorem apart_of_le {k n : ℕ} (hk : 0 < k) (h : a.toNat + k ≤ b.toNat)
    (fits : b.toNat + n ≤ 2 ^ 32) : Apart a k b n := by
  have low : (b - a).toNat = b.toNat - a.toNat := by
    rw [BitVec.toNat_sub_of_le]
    bv_omega
  unfold Apart
  rw [low]
  bv_omega

/-- Parts of ranges apart are apart. -/
theorem Apart.mono {k n i j : ℕ} {x y : BitVec 32} (h : Apart a k b n) (hi : 0 < i) (hj : 0 < j)
    (hx : (x - a).toNat + i ≤ k) (hy : (y - b).toNat + j ≤ n) : Apart x i y j := by
  unfold Apart at *
  bv_omega

@[simp] theorem apart_add_add {k n : ℕ} (x i j : BitVec 32) :
    Apart (x + i) k (x + j) n ↔ Apart i k j n := by
  have hl : x + j - (x + i) = j - i := by bv_omega
  have hr : x + i - (x + j) = i - j := by bv_omega
  simp only [Apart, hl, hr]

@[simp] theorem apart_self_add {k n : ℕ} (x j : BitVec 32) :
    Apart x k (x + j) n ↔ Apart 0 k j n := by
  simpa using apart_add_add (k := k) (n := n) x 0 j

@[simp] theorem apart_add_self {k n : ℕ} (x i : BitVec 32) :
    Apart (x + i) k x n ↔ Apart i k 0 n := by
  simpa using apart_add_add (k := k) (n := n) x i 0

/-! ## Loads after stores -/

theorem st8_apply_ne {v : BitVec 8} {x : BitVec 32} (h : x ≠ a) : m.st8 a v x = m x := if_neg h

/-- A store leaves every byte outside its range. -/
theorem ld16_st8_apart {v : BitVec 8} (h : Apart a 1 b 2) : (m.st8 a v).ld16 b = m.ld16 b := by
  have h0 : b ≠ a := by unfold Apart at h; bv_omega
  have h1 : b + 1 ≠ a := by unfold Apart at h; bv_omega
  rw [ld16, st8_apply_ne _ h0, st8_apply_ne _ h1, ld16]

theorem ld16_st16_apart {v : BitVec 16} (h : Apart a 2 b 2) :
    (m.st16 a v).ld16 b = m.ld16 b := by
  rw [st16, ld16_st8_apart _ (h.mono _ _ _ _), ld16_st8_apart _ (h.mono _ _ _ _)] <;> bv_omega

theorem ld16_st32_apart {v : BitVec 32} (h : Apart a 4 b 2) :
    (m.st32 a v).ld16 b = m.ld16 b := by
  rw [st32, ld16_st16_apart _ (h.mono _ _ _ _), ld16_st16_apart _ (h.mono _ _ _ _)] <;> bv_omega

theorem ld32_st16_apart {v : BitVec 16} (h : Apart a 2 b 4) :
    (m.st16 a v).ld32 b = m.ld32 b := by
  rw [ld32, ld16_st16_apart _ (h.mono _ _ _ _), ld16_st16_apart _ (h.mono _ _ _ _), ld32] <;>
    bv_omega

theorem ld32_st32_apart {v : BitVec 32} (h : Apart a 4 b 4) :
    (m.st32 a v).ld32 b = m.ld32 b := by
  rw [st32, ld32_st16_apart _ (h.mono _ _ _ _), ld32_st16_apart _ (h.mono _ _ _ _)] <;> bv_omega

@[simp] theorem ld16_st16_self (v : BitVec 16) : (m.st16 a v).ld16 a = v := by
  have h : a ≠ a + 1 := by bv_omega
  simp only [ld16, st16, st8, if_neg h, if_true]
  exact (BitVec.extractLsb'_append_extractLsb'_eq_extractLsb' (h := (rfl : 8 = 0 + 8))).trans
    BitVec.extractLsb'_eq_self

@[simp] theorem ld32_st32_self (v : BitVec 32) : (m.st32 a v).ld32 a = v := by
  have h : Apart (a + 2) 2 a 2 := by simp only [apart_add_self]; decide
  rw [ld32, st32, ld16_st16_self, ld16_st16_apart _ h, ld16_st16_self]
  exact (BitVec.extractLsb'_append_extractLsb'_eq_extractLsb' (h := (rfl : 16 = 0 + 16))).trans
    BitVec.extractLsb'_eq_self

/-! ## Frames -/

/-- The memories agree outside the given ranges. -/
def Frame (rs : List (BitVec 32 × ℕ)) (m m' : ByteMemory) : Prop :=
  ∀ x, (∀ r ∈ rs, r.2 ≤ (x - r.1).toNat) → m' x = m x

variable {m} {m' m'' : ByteMemory} {rs rs' : List (BitVec 32 × ℕ)}

theorem Frame.refl : Frame rs m m := fun _ _ => rfl

theorem Frame.trans (h : Frame rs m m') (h' : Frame rs m' m'') : Frame rs m m'' :=
  fun x hx => (h' x hx).trans (h x hx)

theorem Frame.subset (h : Frame rs m m') (sub : rs ⊆ rs') : Frame rs' m m' :=
  fun x hx => h x fun r hr => hx r (sub hr)

/-- A range may be made larger. -/
theorem Frame.mono (h : Frame rs m m')
    (sub : ∀ r ∈ rs, ∃ r' ∈ rs', (r.1 - r'.1).toNat + r.2 ≤ r'.2) (pos : ∀ r ∈ rs, 0 < r.2) :
    Frame rs' m m' := by
  intro x hx
  refine h x fun r hr => ?_
  obtain ⟨r', hr', within⟩ := sub r hr
  have := hx r' hr'
  have := pos r hr
  bv_omega

/-- The place of `i` bytes that end `j` bytes below `sp`, in the `n` bytes below `sp`. -/
theorem sub_below {sp : BitVec 32} {i j n : ℕ} (le : i + j ≤ n) :
    sp - BitVec.ofNat 32 j - BitVec.ofNat 32 i =
      sp - BitVec.ofNat 32 n + BitVec.ofNat 32 (n - i - j) := by
  have total : BitVec.ofNat 32 n =
      BitVec.ofNat 32 (n - i - j) + BitVec.ofNat 32 i + BitVec.ofNat 32 j := by
    rw [← BitVec.ofNat_add, ← BitVec.ofNat_add]
    congr 1
    omega
  rw [total]
  ring

theorem below_within {sp : BitVec 32} {i j n : ℕ} (le : i + j ≤ n) (fits : n < 2 ^ 32) :
    (sp - BitVec.ofNat 32 j - BitVec.ofNat 32 i - (sp - BitVec.ofNat 32 n)).toNat + i ≤ n := by
  rw [sub_below le, add_sub_cancel_left, BitVec.toNat_ofNat]
  omega

/-- A byte outside the `n` bytes below `sp` is outside `i` bytes that end `j` bytes below `sp`. -/
theorem le_sub_of_below {sp x : BitVec 32} {i j n : ℕ} (le : i + j ≤ n) (fits : n < 2 ^ 32)
    (hx : n ≤ (x - (sp - BitVec.ofNat 32 n)).toNat) :
    i ≤ (x - (sp - BitVec.ofNat 32 j - BitVec.ofNat 32 i)).toNat := by
  have small : (BitVec.ofNat 32 (n - i - j)).toNat = n - i - j := by
    rw [BitVec.toNat_ofNat]
    omega
  rw [sub_below le, ← sub_sub, BitVec.toNat_sub_of_le, small]
  · omega
  · rw [BitVec.le_def, small]
    omega

/-- A function writes `j` bytes below `sp`, and one it calls `i` bytes below those: together they
write `n` bytes below `sp`. -/
theorem Frame.grow {sp : BitVec 32} {i j n : ℕ} (own : Frame [(sp - BitVec.ofNat 32 j, j)] m m')
    (callee : Frame ((sp - BitVec.ofNat 32 j - BitVec.ofNat 32 i, i) :: rs) m' m'')
    (le : i + j ≤ n) (fits : n < 2 ^ 32) : Frame ((sp - BitVec.ofNat 32 n, n) :: rs) m m'' := by
  intro x hx
  have stack := hx (sp - BitVec.ofNat 32 n, n) (by simp)
  rw [callee x fun r hr => ?_, own x fun r hr => ?_]
  · obtain rfl := List.mem_singleton.1 hr
    simpa using le_sub_of_below (i := j) (j := 0) (by omega) fits stack
  · rcases List.mem_cons.1 hr with rfl | hr
    · exact le_sub_of_below le fits stack
    · exact hx r (List.mem_cons_of_mem _ hr)

theorem Frame.st8 (h : Frame rs m m') {r : BitVec 32 × ℕ} (hr : r ∈ rs) {v : BitVec 8}
    (within : (a - r.1).toNat < r.2) : Frame rs m (m'.st8 a v) := by
  intro x hx
  have : x ≠ a := by
    rintro rfl
    have := hx r hr
    omega
  rw [st8_apply_ne _ this]
  exact h x hx

theorem Frame.st16 (h : Frame rs m m') {r : BitVec 32 × ℕ} (hr : r ∈ rs) {v : BitVec 16}
    (within : (a - r.1).toNat + 2 ≤ r.2) (fits : r.2 ≤ 2 ^ 32) : Frame rs m (m'.st16 a v) := by
  refine (h.st8 hr ?_).st8 hr ?_
  · omega
  · bv_omega

theorem Frame.st32 (h : Frame rs m m') {r : BitVec 32 × ℕ} (hr : r ∈ rs) {v : BitVec 32}
    (within : (a - r.1).toNat + 4 ≤ r.2) (fits : r.2 ≤ 2 ^ 32) : Frame rs m (m'.st32 a v) := by
  refine (h.st16 hr ?_ fits).st16 hr ?_ fits
  · omega
  · bv_omega

theorem frame_st16 {v : BitVec 16} : Frame [(a, 2)] m (m.st16 a v) :=
  Frame.st16 .refl (List.mem_singleton_self _) (by simp) (by simp)

theorem frame_st32 {v : BitVec 32} : Frame [(a, 4)] m (m.st32 a v) :=
  Frame.st32 .refl (List.mem_singleton_self _) (by simp) (by simp)

theorem Frame.ld16 (h : Frame rs m m') (apart : ∀ r ∈ rs, Apart r.1 r.2 a 2) :
    m'.ld16 a = m.ld16 a := by
  have h0 : m' a = m a := h a fun r hr => (apart r hr).1
  have h1 : m' (a + 1) = m (a + 1) := by
    refine h _ fun r hr => ?_
    have := apart r hr
    unfold Apart at this
    bv_omega
  rw [ByteMemory.ld16, h0, h1, ByteMemory.ld16]

theorem Frame.ld32 (h : Frame rs m m') (apart : ∀ r ∈ rs, Apart r.1 r.2 a 4) :
    m'.ld32 a = m.ld32 a := by
  have low : m'.ld16 a = m.ld16 a := by
    refine h.ld16 fun r hr => ?_
    have := apart r hr
    unfold Apart at *
    bv_omega
  have high : m'.ld16 (a + 2) = m.ld16 (a + 2) := by
    refine h.ld16 fun r hr => ?_
    have := apart r hr
    unfold Apart at *
    bv_omega
  rw [ByteMemory.ld32, low, high, ByteMemory.ld32]

/-! ## Words stored one after the other -/

theorem frame_storeWords {n : ℕ} (fits : n ≤ 2 ^ 32) {ws : List (BitVec 32)} {i : ℕ}
    (room : 4 * (i + ws.length) ≤ n) (frame : Frame [(a, n)] m m') :
    Frame [(a, n)] m (m'.storeWords a i ws) := by
  induction ws generalizing i m' with
  | nil => exact frame
  | cons w ws ih =>
    simp only [List.length_cons] at room
    refine ih (by omega) (frame.st32 (r := (a, n)) (by simp) ?_ fits)
    have off : a + BitVec.ofNat 32 (4 * i) - a = BitVec.ofNat 32 (4 * i) := by bv_omega
    rw [off, BitVec.toNat_ofNat]
    omega

theorem ld32_storeWords_below {ws : List (BitVec 32)} {i j : ℕ} (hj : j < i)
    (room : 4 * (i + ws.length) ≤ 2 ^ 32) (m : ByteMemory) :
    (m.storeWords a i ws).ld32 (a + BitVec.ofNat 32 (4 * j)) =
      m.ld32 (a + BitVec.ofNat 32 (4 * j)) := by
  induction ws generalizing i m with
  | nil => rfl
  | cons w ws ih =>
    simp only [List.length_cons] at room
    rw [storeWords, ih (by omega) (by omega), ld32_st32_apart]
    rw [apart_add_add]
    unfold Apart
    bv_omega

theorem ld32_storeWords {ws : List (BitVec 32)} {i j : ℕ} {v : BitVec 32} (hv : ws[j]? = some v)
    (room : 4 * (i + ws.length) ≤ 2 ^ 32) (m : ByteMemory) :
    (m.storeWords a i ws).ld32 (a + BitVec.ofNat 32 (4 * (i + j))) = v := by
  induction ws generalizing i j m with
  | nil => simp at hv
  | cons w ws ih =>
    simp only [List.length_cons] at room
    rw [storeWords]
    cases j with
    | zero =>
      obtain rfl : w = v := by simpa using hv
      rw [ld32_storeWords_below (by omega) (by omega)]
      exact ld32_st32_self ..
    | succ j =>
      have := ih (i := i + 1) (j := j) (by simpa using hv) (by omega)
        (m.st32 (a + BitVec.ofNat 32 (4 * i)) w)
      rwa [Nat.add_assoc, Nat.add_comm 1 j] at this

end ByteMemory
