import RkNand.Blob.Address

/-!
# What the queue of free system blocks is in memory

`FtlFreeSysBlkQueueIn` and `FtlFreeSysBlkQueueOut` keep the free system blocks in a ring of 1024
halfwords.  What the two functions read and write of the memory is their `View`, the flash with it,
which `FlashEraseBlocks` changes.  Here are the places of the memory and what a store to each of
them does to the view.
-/

namespace RkNand.Blob

open Arm Arm.Reg ByteMemory

/-- What the functions of the queue see of the memory. -/
structure View (D : Type) where
  planes : BitVec 16
  blocks : BitVec 16
  /-- the places of the erase request and of the erase counts -/
  request : BitVec 32
  erase : BitVec 32
  /-- the flag against writing and erasing -/
  readOnly : BitVec 32
  /-- blocks are erased in two modes if it is set -/
  slcMode : BitVec 8
  front : BitVec 16
  tail : BitVec 16
  count : BitVec 16
  cell : ℕ → BitVec 16
  /-- the block in the erase request -/
  target : BitVec 32
  /-- erase counts of the blocks of a plane, and of all blocks together -/
  worn : ℕ → BitVec 16
  total : BitVec 32
  /-- the flash, as far as `FlashEraseBlocks` changes it -/
  device : D

/-- The variables that the functions of the queue only read: their places from `.LANCHOR2` and
sizes. -/
def fixedVars : List (BitVec 32 × ℕ) :=
  [(Var.gFlashSlcMode, 1), (Var.planesPerDie, 2), (Var.blksPerDie, 2), (Var.reqErase, 4),
    (Var.eraseCountTable, 4), (Var.readOnlyEn, 4)]

/-- With those that they write: the number of erases and the queue. -/
def queueVars : List (BitVec 32 × ℕ) :=
  (Var.totalEraseCount, 4) :: (Var.queueType, 2056) :: fixedVars

/-- The memory of the queue: the erase request (its status and the block), the erase counts, and the
flash, which is outside. -/
structure SysQueue (k : Link) (o : Outside) (D : Type) where
  request : BitVec 32
  erase : BitVec 32
  /-- number of erase counts -/
  size : ℕ
  device : ByteMemory → D
  /-- the flash is set up and takes commands -/
  ready : D → Prop
  /-- the flash after a block is erased in a mode -/
  act : D → BitVec 32 → BitVec 32 → D
  ready_act : ∀ d a mode, ready d → ready (act d a mode)
  size_pos : 0 < size
  size_lt : 2 * size < 2 ^ 31
  request_data : Apart request 8 k.data.1 k.data.2
  erase_data : Apart erase (2 * size) k.data.1 k.data.2
  request_erase : Apart request 8 erase (2 * size)
  own_pos : ∀ r ∈ o.own, 0 < r.2
  own_vars : ∀ r ∈ o.own, ∀ v ∈ queueVars, Apart r.1 r.2 (k.anchor + v.1) v.2
  own_erase : ∀ r ∈ o.own, Apart r.1 r.2 erase (2 * size)
  own_request : ∀ r ∈ o.own, Apart r.1 r.2 request 8
  device_of_frame : ∀ {m m' : ByteMemory} {rs : List (BitVec 32 × ℕ)}, Frame rs m m' →
    (∀ r ∈ rs, ∀ q ∈ o.own, Apart q.1 q.2 r.1 r.2) → device m' = device m

namespace SysQueue

variable {k : Link} {o : Outside} {D : Type} (Q : SysQueue k o D) {m m' : ByteMemory}

/-- The cell of the ring, and the erase count, at an index. -/
def cell (m : ByteMemory) (i : ℕ) : BitVec 16 :=
  if i < 1024 then m.ld16 (k.anchor + (Var.queueCells + BitVec.ofNat 32 (2 * i))) else 0

def worn (m : ByteMemory) (i : ℕ) : BitVec 16 :=
  if i < Q.size then m.ld16 (Q.erase + BitVec.ofNat 32 (2 * i)) else 0

/-- The memory as the functions see it. -/
def view (m : ByteMemory) : View D where
  planes := m.ld16 (k.anchor + Var.planesPerDie)
  blocks := m.ld16 (k.anchor + Var.blksPerDie)
  request := m.ld32 (k.anchor + Var.reqErase)
  erase := m.ld32 (k.anchor + Var.eraseCountTable)
  readOnly := m.ld32 (k.anchor + Var.readOnlyEn)
  slcMode := m (k.anchor + Var.gFlashSlcMode)
  front := m.ld16 (k.anchor + Var.queueFront)
  tail := m.ld16 (k.anchor + Var.queueTail)
  count := m.ld16 (k.anchor + Var.queueCount)
  cell := cell (k := k) m
  target := m.ld32 (Q.request + 4#32)
  worn := Q.worn m
  total := m.ld32 (k.anchor + Var.totalEraseCount)
  device := Q.device m

variable {Q}

theorem cell_offset {i : ℕ} (hi : i < 1024) :
    (Var.queueCells + BitVec.ofNat 32 (2 * i) - Var.queueCells).toNat + 2 ≤ 2048 := by
  rw [add_sub_cancel_left, BitVec.toNat_ofNat]
  omega

/-- The cells are in the queue. -/
theorem in_queue {c : BitVec 32} (hc : (c - Var.queueCells).toNat + 2 ≤ 2048) :
    (c - Var.queueType).toNat + 2 ≤ 2056 := by
  unfold Var.queueCells at hc
  unfold Var.queueType
  bv_omega

theorem worn_within {i : ℕ} (hi : i < Q.size) :
    (Q.erase + BitVec.ofNat 32 (2 * i) - Q.erase).toNat + 2 ≤ 2 * Q.size := by
  have := Q.size_lt
  rw [add_sub_cancel_left, BitVec.toNat_ofNat]
  omega

/-- The cells are where nothing but the cells is. -/
theorem cell_congr (same : ∀ c : BitVec 32, (c - Var.queueCells).toNat + 2 ≤ 2048 →
    m'.ld16 (k.anchor + c) = m.ld16 (k.anchor + c)) : cell (k := k) m' = cell (k := k) m := by
  funext i
  unfold cell
  split_ifs with hi
  · exact same _ (cell_offset hi)
  · rfl

theorem worn_congr (same : ∀ a : BitVec 32, (a - Q.erase).toNat + 2 ≤ 2 * Q.size →
    m'.ld16 a = m.ld16 a) : Q.worn m' = Q.worn m := by
  funext i
  unfold worn
  split_ifs with hi
  · exact same _ (worn_within hi)
  · rfl

theorem vars_within : ∀ v ∈ queueVars, 0 < v.2 ∧ (v.1 + 2752#32).toNat + v.2 ≤ 3648 := by
  decide

/-- What is apart from the data is apart from each variable. -/
theorem apart_vars {r : BitVec 32 × ℕ} (pos : 0 < r.2) (data : Apart r.1 r.2 k.data.1 k.data.2) :
    ∀ v ∈ queueVars, Apart r.1 r.2 (k.anchor + v.1) v.2 := fun v hv =>
  data.mono pos (vars_within v hv).1 (by simp) (Link.anchor_within (vars_within v hv).2)

/-- Writing apart from the variables that are only read. -/
theorem view_of_fixed {rs : List (BitVec 32 × ℕ)} (frame : Frame rs m m')
    (apart : ∀ r ∈ rs, ∀ v ∈ fixedVars, Apart r.1 r.2 (k.anchor + v.1) v.2) :
    Q.view m' = { Q.view m with
      front := m'.ld16 (k.anchor + Var.queueFront), tail := m'.ld16 (k.anchor + Var.queueTail)
      count := m'.ld16 (k.anchor + Var.queueCount), cell := cell (k := k) m'
      target := m'.ld32 (Q.request + 4#32), worn := Q.worn m'
      total := m'.ld32 (k.anchor + Var.totalEraseCount), device := Q.device m' } := by
  have half {c : BitVec 32} (hc : (c, 2) ∈ fixedVars) :
      m'.ld16 (k.anchor + c) = m.ld16 (k.anchor + c) :=
    frame.ld16 fun r hr => apart r hr (c, 2) hc
  have word {c : BitVec 32} (hc : (c, 4) ∈ fixedVars) :
      m'.ld32 (k.anchor + c) = m.ld32 (k.anchor + c) :=
    frame.ld32 fun r hr => apart r hr (c, 4) hc
  have byte : m' (k.anchor + Var.gFlashSlcMode) = m (k.anchor + Var.gFlashSlcMode) :=
    frame _ fun r hr => (apart r hr (Var.gFlashSlcMode, 1) (by decide)).1
  simp only [view, half (c := Var.planesPerDie) (by decide), half (c := Var.blksPerDie) (by decide),
    word (c := Var.reqErase) (by decide), word (c := Var.eraseCountTable) (by decide),
    word (c := Var.readOnlyEn) (by decide), byte]

/-- Writing apart from all variables changes at most the request, the erase counts and the flash. -/
theorem view_of_vars {rs : List (BitVec 32 × ℕ)} (frame : Frame rs m m')
    (apart : ∀ r ∈ rs, 0 < r.2 ∧ ∀ v ∈ queueVars, Apart r.1 r.2 (k.anchor + v.1) v.2) :
    Q.view m' = { Q.view m with
      target := m'.ld32 (Q.request + 4#32), worn := Q.worn m', device := Q.device m' } := by
  have queue {c : BitVec 32} (hc : (c - Var.queueType).toNat + 2 ≤ 2056) :
      m'.ld16 (k.anchor + c) = m.ld16 (k.anchor + c) := frame.ld16 fun r hr =>
    ((apart r hr).2 (Var.queueType, 2056) (by decide)).mono (apart r hr).1 (by omega) (by simp)
      (by simpa using hc)
  have cells : cell (k := k) m' = cell (k := k) m := cell_congr fun c hc => queue (in_queue hc)
  have total : m'.ld32 (k.anchor + Var.totalEraseCount) = m.ld32 (k.anchor + Var.totalEraseCount) :=
    frame.ld32 fun r hr => (apart r hr).2 (Var.totalEraseCount, 4) (by decide)
  rw [view_of_fixed frame fun r hr v hv => (apart r hr).2 v (by simp [queueVars, hv]),
    queue (c := Var.queueFront) (by decide), queue (c := Var.queueTail) (by decide),
    queue (c := Var.queueCount) (by decide), cells, total]
  rfl

/-- A range apart from all that the functions see, the flash aside. -/
structure Clear (Q : SysQueue k o D) (r : BitVec 32 × ℕ) : Prop where
  pos : 0 < r.2
  vars : ∀ v ∈ queueVars, Apart r.1 r.2 (k.anchor + v.1) v.2
  erase : Apart r.1 r.2 Q.erase (2 * Q.size)
  request : Apart r.1 r.2 (Q.request + 4#32) 4

theorem view_of_frame {rs : List (BitVec 32 × ℕ)} (frame : Frame rs m m')
    (clear : ∀ r ∈ rs, Q.Clear r) : Q.view m' = { Q.view m with device := Q.device m' } := by
  have target : m'.ld32 (Q.request + 4#32) = m.ld32 (Q.request + 4#32) :=
    frame.ld32 fun r hr => (clear r hr).request
  have worn : Q.worn m' = Q.worn m := worn_congr fun a ha => frame.ld16 fun r hr =>
    (clear r hr).erase.mono (clear r hr).pos (by omega) (by simp) ha
  rw [view_of_vars frame fun r hr => ⟨(clear r hr).pos, (clear r hr).vars⟩, target, worn]
  rfl

/-! ## Stores -/

section Stores

variable {K c : BitVec 32} {n : ℕ} (v : BitVec 16)

theorem device_st16 {a : BitVec 32} (own : ∀ r ∈ o.own, Apart r.1 r.2 a 2) :
    Q.device (m.st16 a v) = Q.device m := Q.device_of_frame frame_st16 (by simpa using own)

theorem device_st32 {a : BitVec 32} (w : BitVec 32) (own : ∀ r ∈ o.own, Apart r.1 r.2 a 4) :
    Q.device (m.st32 a w) = Q.device m := Q.device_of_frame frame_st32 (by simpa using own)

/-- The block of the request, apart from what the whole request is apart from. -/
theorem apart_target {a : BitVec 32} (hn : 0 < n) (apart : Apart a n Q.request 8) :
    Apart a n (Q.request + 4#32) 4 := apart.mono hn (by omega) (by simp) (by simp)

theorem ld16_st16_anchor (h : Apart K 2 c 2) :
    (m.st16 (k.anchor + K) v).ld16 (k.anchor + c) = m.ld16 (k.anchor + c) :=
  ld16_st16_apart _ (by rwa [apart_add_add])

/-- A store to the queue, which is 2056 bytes of the variables for its type, the two indices, the
count and the cells, changes nothing else. -/
theorem view_st16_queue (hK : (K - Var.queueType).toNat + 2 ≤ 2056) :
    Q.view (m.st16 (k.anchor + K) v) =
    { Q.view m with
      front := (m.st16 (k.anchor + K) v).ld16 (k.anchor + Var.queueFront)
      tail := (m.st16 (k.anchor + K) v).ld16 (k.anchor + Var.queueTail)
      count := (m.st16 (k.anchor + K) v).ld16 (k.anchor + Var.queueCount)
      cell := cell (k := k) (m.st16 (k.anchor + K) v) } := by
  have within : (K + 2752#32).toNat + 2 ≤ 3648 := by
    unfold Var.queueType at hK
    bv_omega
  have own : ∀ r ∈ o.own, Apart r.1 r.2 (k.anchor + K) 2 := fun r hr =>
    (Q.own_vars r hr (Var.queueType, 2056) (by decide)).mono (Q.own_pos r hr) (by omega) (by simp)
      (by simpa using hK)
  have target : (m.st16 (k.anchor + K) v).ld32 (Q.request + 4#32) = m.ld32 (Q.request + 4#32) :=
    ld32_st16_apart _ (apart_target (by omega) (Q.request_data.symm.mono (by omega) (by omega)
      (Link.anchor_within within) (by simp)))
  have worn : Q.worn (m.st16 (k.anchor + K) v) = Q.worn m := worn_congr fun a ha =>
    ld16_st16_apart _ (Q.erase_data.symm.mono (by omega) (by omega) (Link.anchor_within within) ha)
  have total : (m.st16 (k.anchor + K) v).ld32 (k.anchor + Var.totalEraseCount) =
      m.ld32 (k.anchor + Var.totalEraseCount) := by
    refine ld32_st16_apart _ ?_
    rw [apart_add_add]
    exact Apart.mono (a := Var.queueType) (k := 2056) (b := Var.totalEraseCount) (n := 4)
      (by decide) (by omega) (by omega) hK (by simp)
  rw [view_of_fixed frame_st16, target, worn, total, device_st16 v own]
  · rfl
  · intro r hr w hw
    obtain rfl := List.mem_singleton.1 hr
    have apart : ∀ w ∈ fixedVars, 0 < w.2 ∧ Apart Var.queueType 2056 w.1 w.2 := by decide
    rw [apart_add_add]
    exact (apart w hw).2.mono (by omega) (apart w hw).1 hK (by simp)

theorem cell_st16 (hK : Apart K 2 Var.queueCells 2048) :
    cell (k := k) (m.st16 (k.anchor + K) v) = cell (k := k) m :=
  cell_congr fun _ hc => ld16_st16_anchor v (hK.mono (by omega) (by omega) (by simp) hc)

theorem view_st16_type : Q.view (m.st16 (k.anchor + Var.queueType) v) = Q.view m := by
  rw [view_st16_queue v (by decide), cell_st16 v (by decide), ld16_st16_anchor v (by decide),
    ld16_st16_anchor v (by decide), ld16_st16_anchor v (by decide)]
  rfl

theorem view_st16_front :
    Q.view (m.st16 (k.anchor + Var.queueFront) v) = { Q.view m with front := v } := by
  rw [view_st16_queue v (by decide), cell_st16 v (by decide), ld16_st16_self,
    ld16_st16_anchor v (by decide), ld16_st16_anchor v (by decide)]
  rfl

theorem view_st16_tail :
    Q.view (m.st16 (k.anchor + Var.queueTail) v) = { Q.view m with tail := v } := by
  rw [view_st16_queue v (by decide), cell_st16 v (by decide), ld16_st16_self,
    ld16_st16_anchor v (by decide), ld16_st16_anchor v (by decide)]
  rfl

theorem view_st16_count :
    Q.view (m.st16 (k.anchor + Var.queueCount) v) = { Q.view m with count := v } := by
  rw [view_st16_queue v (by decide), cell_st16 v (by decide), ld16_st16_self,
    ld16_st16_anchor v (by decide), ld16_st16_anchor v (by decide)]
  rfl

theorem view_st16_cell {i : ℕ} (hi : i < 1024) :
    Q.view (m.st16 (k.anchor + (Var.queueCells + BitVec.ofNat 32 (2 * i))) v) =
      { Q.view m with cell := Function.update (Q.view m).cell i v } := by
  have apart {c : BitVec 32} (h : Apart Var.queueCells 2048 c 2) :
      Apart (Var.queueCells + BitVec.ofNat 32 (2 * i)) 2 c 2 :=
    h.mono (by omega) (by omega) (cell_offset hi) (by simp)
  have cells : cell (k := k) (m.st16 (k.anchor + (Var.queueCells + BitVec.ofNat 32 (2 * i))) v) =
      Function.update (cell (k := k) m) i v := by
    funext j
    by_cases same : j = i
    · rw [same, Function.update_self, cell, if_pos hi, ld16_st16_self]
    · rw [Function.update_of_ne same]
      unfold cell
      split_ifs with hj
      · refine ld16_st16_anchor v ?_
        rw [apart_add_add]
        unfold Apart
        bv_omega
      · rfl
  rw [view_st16_queue v (in_queue (cell_offset hi)), ld16_st16_anchor v (apart (by decide)),
    ld16_st16_anchor v (apart (by decide)), ld16_st16_anchor v (apart (by decide)), cells]
  rfl

theorem view_st16_worn {i : ℕ} (hi : i < Q.size) :
    Q.view (m.st16 (Q.erase + BitVec.ofNat 32 (2 * i)) v) =
      { Q.view m with worn := Function.update (Q.view m).worn i v } := by
  have within := worn_within (Q := Q) hi
  have own : ∀ r ∈ o.own, Apart r.1 r.2 (Q.erase + BitVec.ofNat 32 (2 * i)) 2 := fun r hr =>
    (Q.own_erase r hr).mono (Q.own_pos r hr) (by omega) (by simp) within
  have target : (m.st16 (Q.erase + BitVec.ofNat 32 (2 * i)) v).ld32 (Q.request + 4#32) =
      m.ld32 (Q.request + 4#32) :=
    ld32_st16_apart _ (apart_target (by omega)
      (Q.request_erase.symm.mono (by omega) (by omega) within (by simp)))
  have counts : Q.worn (m.st16 (Q.erase + BitVec.ofNat 32 (2 * i)) v) =
      Function.update (Q.worn m) i v := by
    funext j
    by_cases same : j = i
    · rw [same, Function.update_self, worn, if_pos hi, ld16_st16_self]
    · rw [Function.update_of_ne same]
      unfold worn
      split_ifs with hj
      · have := Q.size_lt
        refine ld16_st16_apart _ ?_
        rw [apart_add_add]
        unfold Apart
        bv_omega
      · rfl
  rw [view_of_vars frame_st16, target, counts, device_st16 v own]
  · rfl
  · intro r hr
    obtain rfl := List.mem_singleton.1 hr
    exact ⟨by simp, apart_vars (by simp)
      (Q.erase_data.mono (by simp) Link.data_pos within (by simp))⟩

theorem view_st32_target (w : BitVec 32) :
    Q.view (m.st32 (Q.request + 4#32) w) = { Q.view m with target := w } := by
  have counts : Q.worn (m.st32 (Q.request + 4#32) w) = Q.worn m := worn_congr fun a ha =>
    ld16_st32_apart _ (Q.request_erase.mono (by omega) (by omega) (by simp) ha)
  have own : ∀ r ∈ o.own, Apart r.1 r.2 (Q.request + 4#32) 4 := fun r hr =>
    apart_target (Q.own_pos r hr) (Q.own_request r hr)
  rw [view_of_vars frame_st32, ld32_st32_self, counts, device_st32 w own]
  · rfl
  · intro r hr
    obtain rfl := List.mem_singleton.1 hr
    exact ⟨by simp, apart_vars (by simp)
      (Q.request_data.mono (by simp) Link.data_pos (by simp) (by simp))⟩

theorem view_st32_total (w : BitVec 32) :
    Q.view (m.st32 (k.anchor + Var.totalEraseCount) w) = { Q.view m with total := w } := by
  have within : (k.anchor + Var.totalEraseCount - k.data.1).toNat + 4 ≤ k.data.2 :=
    Link.anchor_within (by decide)
  have own : ∀ r ∈ o.own, Apart r.1 r.2 (k.anchor + Var.totalEraseCount) 4 := fun r hr =>
    Q.own_vars r hr (Var.totalEraseCount, 4) (by decide)
  have half {c : BitVec 32} (h : Apart Var.totalEraseCount 4 c 2) :
      (m.st32 (k.anchor + Var.totalEraseCount) w).ld16 (k.anchor + c) = m.ld16 (k.anchor + c) :=
    ld16_st32_apart _ (by rwa [apart_add_add])
  have cells : cell (k := k) (m.st32 (k.anchor + Var.totalEraseCount) w) = cell (k := k) m :=
    cell_congr fun c hc => half (Apart.mono (a := Var.totalEraseCount) (k := 4)
      (b := Var.queueCells) (n := 2048) (by decide) (by omega) (by omega) (by simp) hc)
  have target : (m.st32 (k.anchor + Var.totalEraseCount) w).ld32 (Q.request + 4#32) =
      m.ld32 (Q.request + 4#32) :=
    ld32_st32_apart _ (apart_target (by omega)
      (Q.request_data.symm.mono (by omega) (by omega) within (by simp)))
  have counts : Q.worn (m.st32 (k.anchor + Var.totalEraseCount) w) = Q.worn m :=
    worn_congr fun a ha =>
      ld16_st32_apart _ (Q.erase_data.symm.mono (by omega) (by omega) within ha)
  rw [view_of_fixed frame_st32, half (c := Var.queueFront) (by decide),
    half (c := Var.queueTail) (by decide), half (c := Var.queueCount) (by decide), cells, target,
    counts, ld32_st32_self, device_st32 w own]
  · rfl
  · intro r hr v hv
    obtain rfl := List.mem_singleton.1 hr
    have apart : ∀ v ∈ fixedVars, Apart Var.totalEraseCount 4 v.1 v.2 := by decide
    rw [apart_add_add]
    exact apart v hv

end Stores

/-! ## The calls of the functions -/

/-- Stack of `n` bytes, apart from all the rest. -/
structure Room (Q : SysQueue k o D) (sp : BitVec 32) (n : ℕ) : Prop where
  pos : 0 < n
  data : Apart (sp - BitVec.ofNat 32 n) n k.data.1 k.data.2
  erase : Apart (sp - BitVec.ofNat 32 n) n Q.erase (2 * Q.size)
  request : Apart (sp - BitVec.ofNat 32 n) n Q.request 8
  own : ∀ r ∈ o.own, Apart r.1 r.2 (sp - BitVec.ofNat 32 n) n

theorem Room.sub {sp : BitVec 32} {n i j : ℕ} (room : Q.Room sp n) (hi : 0 < i) (le : i + j ≤ n)
    (fits : n < 2 ^ 32) : Q.Room (sp - BitVec.ofNat 32 j) i := by
  have within : (sp - BitVec.ofNat 32 j - BitVec.ofNat 32 i - (sp - BitVec.ofNat 32 n)).toNat + i ≤
      n := below_within le fits
  have := Q.size_pos
  exact ⟨hi, room.data.mono hi Link.data_pos within (by simp),
    room.erase.mono hi (by omega) within (by simp),
    room.request.mono hi (by omega) within (by simp),
    fun r hr => (room.own r hr).mono (Q.own_pos r hr) hi (by simp) within⟩

theorem Room.clear {sp : BitVec 32} {n : ℕ} (room : Q.Room sp n) :
    Q.Clear (sp - BitVec.ofNat 32 n, n) :=
  ⟨room.pos, apart_vars room.pos room.data, room.erase, apart_target room.pos room.request⟩

theorem view_of_stack {sp : BitVec 32} {n : ℕ} (room : Q.Room sp n)
    (frame : Frame [(sp - BitVec.ofNat 32 n, n)] m m') : Q.view m' = Q.view m := by
  rw [view_of_frame frame (by simpa using room.clear),
    Q.device_of_frame frame (by simpa using room.own)]
  rfl

/-- What `FlashEraseBlocks` writes of the blob's memory is the status of the request and
`gFlashCurMode`. -/
def erased (Q : SysQueue k o D) (sp : BitVec 32) : List (BitVec 32 × ℕ) :=
  (Q.request, 4) :: (k.anchor + Var.gFlashCurMode, 1) :: o.ranges sp

/-- `FlashEraseBlocks`, called with the request for one block, comes back with the block erased. -/
def Erases (Q : SysQueue k o D) : Prop :=
  ∀ s, s.reg r0 = Q.request → s.reg r2 = 1#32 → Q.ready (Q.device s.mem) →
    Q.Room (s.reg sp) o.depth → ∃ t, k.host .flashEraseBlocks s = some t ∧ Saved s t ∧
      Frame (Q.erased (s.reg sp)) s.mem t.mem ∧
      Q.device t.mem = Q.act (Q.device s.mem) (s.mem.ld32 (Q.request + 4#32)) (s.reg r1)

theorem clear_erased {sp : BitVec 32} (room : Q.Room sp o.depth) :
    ∀ r ∈ Q.erased sp, Q.Clear r := by
  have := Q.size_pos
  intro r hr
  simp only [erased, Outside.ranges, List.mem_cons] at hr
  rcases hr with rfl | rfl | rfl | hr
  · exact ⟨by simp, apart_vars (by simp)
      (Q.request_data.mono (by simp) Link.data_pos (by simp) (by simp)),
      Q.request_erase.mono (by simp) (by omega) (by simp) (by simp),
      (apart_self_add (k := 4) (n := 4) ..).2 (by decide)⟩
  · have mode : (k.anchor + Var.gFlashCurMode - k.data.1).toNat + 1 ≤ k.data.2 :=
      Link.anchor_within (by decide)
    refine ⟨by simp, fun v hv => ?_, ?_, ?_⟩
    · have : ∀ v ∈ queueVars, Apart Var.gFlashCurMode 1 v.1 v.2 := by decide
      rw [apart_add_add]
      exact this v hv
    · exact Q.erase_data.symm.mono (by simp) (by omega) mode (by simp)
    · exact apart_target (by simp) (Q.request_data.symm.mono (by simp) (by omega) mode (by simp))
  · exact room.clear
  · exact ⟨Q.own_pos r hr, Q.own_vars r hr, Q.own_erase r hr,
      apart_target (Q.own_pos r hr) (Q.own_request r hr)⟩

theorem Erases.calls {s : State} {P : State → Prop} (erases : Q.Erases) (one : s.reg r2 = 1#32)
    (asked : s.reg r0 = Q.request) (ready : Q.ready (Q.view s.mem).device)
    (room : Q.Room (s.reg sp) o.depth)
    (post : ∀ t, Saved s t → Frame (Q.erased (s.reg sp)) s.mem t.mem →
      Q.view t.mem = { Q.view s.mem with
        device := Q.act (Q.view s.mem).device (Q.view s.mem).target (s.reg r1) } → P t) :
    Calls k.image .flashEraseBlocks s P := by
  obtain ⟨t, host, saved, frame, device⟩ := erases s asked one ready room
  refine (calls_host rfl).2 ⟨t, host, post t saved frame ?_⟩
  rw [view_of_frame frame (clear_erased room), device]
  rfl

end SysQueue

end RkNand.Blob
