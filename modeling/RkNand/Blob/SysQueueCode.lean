import RkNand.Blob.SysQueue

/-!
# The code of the queue of free system blocks

`FtlFreeSysBlkQueueIn` and `FtlFreeSysBlkQueueOut`, instruction by instruction: over the view they
are `put` and `take`.  A block that comes out is erased first, one that goes in is on demand.
-/

namespace RkNand.Blob

open Arm Arm.Reg ByteMemory

/-! ## The functions over the view -/

namespace View

variable {D : Type} (act : D → BitVec 32 → BitVec 32 → D)

/-- Erase a block, in each of the modes, and count it. -/
def eraseBlock (v : View D) (modes : List (BitVec 32)) (x : BitVec 16) : View D :=
  let i := p2vBlock v.planes.toNat v.blocks.toNat x.toNat
  { v with
    target := x.setWidth 32 <<< 10
    device := modes.foldl (fun d mode => act d (x.setWidth 32 <<< 10) mode) v.device
    worn := Function.update v.worn i (v.worn i + 1#16)
    total := v.total + 1#32 }

/-- The numbers that are no block. -/
def NoBlock (x : BitVec 16) : Prop := x = 0 ∨ x = 65535

instance (x : BitVec 16) : Decidable (NoBlock x) := inferInstanceAs (Decidable (_ ∨ _))

/-- What `FtlFreeSysBlkQueueIn` does. -/
def put (v : View D) (x : BitVec 16) (erase : Bool) : View D :=
  if NoBlock x ∨ v.count = 1024#16 then v else
  let v := if erase ∧ v.readOnly = 0#32 then v.eraseBlock act [1#32] x else v
  { v with
    count := v.count + 1#16
    cell := Function.update v.cell v.tail.toNat x
    tail := (v.tail + 1#16) % 1024#16 }

/-- What a round of `FtlFreeSysBlkQueueOut` does. -/
def take (v : View D) : View D :=
  let x := v.cell v.front.toNat
  let v := { v with count := v.count - 1#16, front := (v.front + 1#16) % 1024#16 }
  if v.readOnly = 0#32 then v.eraseBlock act (if v.slcMode = 0#8 then [1#32] else [0#32, 1#32]) x
  else v

end View

namespace SysQueue

variable {k : Link} {o : Outside} {D : Type} {Q : SysQueue k o D} {s : State} {x : BitVec 16}

/-- A view with the request and the erase counts in their places, and the flash ready. -/
structure Located (Q : SysQueue k o D) (v : View D) : Prop where
  request : v.request = Q.request
  erase : v.erase = Q.erase
  planes : v.planes ≠ 0
  blocks : v.blocks ≠ 0
  size : v.blocks.toNat ≤ v.planes.toNat * Q.size
  ready : Q.ready v.device

theorem Located.congr {v w : View D} (located : Q.Located v) (request : w.request = v.request)
    (erase : w.erase = v.erase) (planes : w.planes = v.planes) (blocks : w.blocks = v.blocks)
    (ready : Q.ready w.device) : Q.Located w := by
  refine ⟨request.trans located.request, erase.trans located.erase, ?_, ?_, ?_, ready⟩
  · rw [planes]
    exact located.planes
  · rw [blocks]
    exact located.blocks
  · rw [blocks, planes]
    exact located.size

/-- And with the two indices in the ring. -/
structure Placed (Q : SysQueue k o D) (v : View D) : Prop extends Q.Located v where
  front : v.front.toNat < 1024
  tail : v.tail.toNat < 1024

/-- The index of the first entry stays in the ring when it moves on. -/
theorem Placed.next {v w : View D} (placed : Q.Placed v) (request : w.request = v.request)
    (erase : w.erase = v.erase) (planes : w.planes = v.planes) (blocks : w.blocks = v.blocks)
    (ready : Q.ready w.device) (front : w.front = (v.front + 1#16) % 1024#16)
    (tail : w.tail = v.tail) : Q.Placed w := by
  refine ⟨placed.toLocated.congr request erase planes blocks ready, ?_, tail ▸ placed.tail⟩
  rw [front, BitVec.toNat_umod]
  exact Nat.mod_lt _ (by decide)

theorem noBlock_iff :
    65533#32 < ((x.setWidth 32 - 1#32).setWidth 16).setWidth 32 ↔ View.NoBlock x := by
  unfold View.NoBlock
  bv_omega

/-- All that the functions write apart from their own stack, with `sp` after the push. -/
def touched (Q : SysQueue k o D) (sp : BitVec 32) : List (BitVec 32 × ℕ) :=
  (sp - BitVec.ofNat 32 (o.depth + 8), o.depth + 8) :: k.data :: (Q.erase, 2 * Q.size) ::
    (Q.request + 4#32, 4) :: Q.erased sp

theorem erased_subset_touched (a : BitVec 32) : Q.erased a ⊆ Q.touched a := fun _ hr => by
  simp [touched, hr]

/-- A store to a variable of the FTL. -/
theorem touched_st16 {a c : BitVec 32} {v : BitVec 16} {m m' : ByteMemory}
    (frame : Frame (Q.touched a) m m') (inside : (c + 2752#32).toNat + 2 ≤ 3648) :
    Frame (Q.touched a) m (m'.st16 (k.anchor + c) v) :=
  frame.st16 (r := k.data) (by simp [touched]) (Link.anchor_within inside) (by simp [Link.data])

/-- The block is written to the request, after a call that uses the stack. -/
theorem touched_request {a v : BitVec 32} {m m' : ByteMemory}
    (frame : Frame [(a - BitVec.ofNat 32 (o.depth + 8), o.depth + 8)] m m') :
    Frame (Q.touched a) m (m'.st32 (Q.request + 4#32) v) := by
  refine Frame.st32 (r := (Q.request + 4#32, 4)) ?_ (by simp [touched]) (by simp) (by simp)
  exact frame.subset (by simp [touched])

theorem Room.pushed {rs : List Reg} {n : ℕ} {m m' : ByteMemory}
    (room : Q.Room (s.reg sp) (o.depth + 40)) (hn : n = 4 * rs.length) (pos : 0 < n) (le : n ≤ 32)
    (pushed : Pushed s rs m) (frame : Frame (Q.touched (s.reg sp - BitVec.ofNat 32 n)) m m') :
    Pushed s rs m' := by
  have := o.depth_le
  have := o.depth_pos
  have := Q.size_pos
  have own : Q.Room (s.reg sp) n := by
    simpa using room.sub (i := n) (j := 0) pos (by omega) (by omega)
  have below {i : ℕ} (hi : 0 < i) (small : i ≤ 8200) :
      Apart (s.reg sp - BitVec.ofNat 32 n - BitVec.ofNat 32 i) i
        (s.reg sp - BitVec.ofNat 32 n) n := by
    generalize s.reg sp - BitVec.ofNat 32 n = a
    unfold Apart
    bv_omega
  refine pushed.of_frame (by omega) frame fun r hr => ?_
  rw [← hn]
  simp only [touched, erased, Outside.ranges, List.mem_cons] at hr
  rcases hr with rfl | rfl | rfl | rfl | rfl | rfl | rfl | hr
  · exact ⟨by simp, below (i := o.depth + 8) (by omega) (by omega)⟩
  · exact ⟨Link.data_pos, own.data.symm⟩
  · exact ⟨by simpa using Q.size_pos, own.erase.symm⟩
  · exact ⟨by simp, (apart_target pos own.request).symm⟩
  · exact ⟨by simp, own.request.symm.mono (by simp) pos (by simp) (by simp)⟩
  · exact ⟨by simp, own.data.symm.mono (by simp) pos (Link.anchor_within (n := 1) (by decide))
      (by simp)⟩
  · exact ⟨o.depth_pos, below o.depth_pos (by omega)⟩
  · exact ⟨Q.own_pos r hr, own.own r hr⟩

/-- What a function of the queue pushes leaves the queue as it is. -/
theorem Room.view_push (room : Q.Room (s.reg sp) (o.depth + 40)) (rs : List Reg) {n : ℕ}
    (hn : n = 4 * rs.length) (pos : 0 < n) (le : n ≤ 32) :
    Q.view (s.mem.storeWords (s.reg sp - BitVec.ofNat 32 n) 0 (rs.map s.reg)) = Q.view s.mem := by
  have := o.depth_le
  have own : Q.Room (s.reg sp) n := by
    simpa using room.sub (i := n) (j := 0) pos (by omega) (by omega)
  exact view_of_stack own (frame_storeWords (by omega) (by simp; omega) .refl)

theorem succ_half (v : BitVec 16) : (v.setWidth 32 + 1#32).setWidth 16 = v + 1#16 := by bv_omega

theorem half_shl (i : BitVec 16) : i.setWidth 32 <<< 1 = BitVec.ofNat 32 (2 * i.toNat) := by
  apply BitVec.eq_of_toNat_eq
  simp only [BitVec.toNat_shiftLeft, BitVec.toNat_setWidth, BitVec.toNat_ofNat, Nat.shiftLeft_eq]
  omega

theorem cell_addr (a : BitVec 32) (i : BitVec 16) :
    a - 1232#32 - 8#32 + i.setWidth 32 <<< 1 + 8#32 =
      a + (Var.queueCells + BitVec.ofNat 32 (2 * i.toNat)) := by
  rw [half_shl]
  generalize BitVec.ofNat 32 (2 * i.toNat) = b
  unfold Var.queueCells
  bv_omega

theorem ld16_cell {m : ByteMemory} {i : ℕ} (hi : i < 1024) :
    m.ld16 (k.anchor + (Var.queueCells + BitVec.ofNat 32 (2 * i))) = (Q.view m).cell i :=
  (if_pos hi).symm

theorem next_index (i : BitVec 16) :
    ((i.setWidth 32 + 1#32).extractLsb' 0 10).setWidth 16 = (i + 1#16) % 1024#16 := by
  apply BitVec.eq_of_toNat_eq
  simp only [BitVec.toNat_setWidth, BitVec.extractLsb'_toNat, BitVec.toNat_add, BitVec.toNat_umod,
    Nat.shiftRight_zero, BitVec.toNat_ofNat, Nat.reducePow, Nat.reduceMod]
  omega

theorem Placed.index_lt {v : View D} (placed : Q.Placed v) (x : BitVec 16) :
    p2vBlock v.planes.toNat v.blocks.toNat x.toNat < Q.size := by
  have pos : 0 < v.blocks.toNat := by
    have := placed.blocks
    bv_omega
  exact Nat.div_lt_of_lt_mul ((Nat.mod_lt _ pos).trans_le placed.size)

/-- The offset of a block's erase count, from the answer of `P2V_block_in_plane`. -/
theorem index_addr (p b : ℕ) (x : BitVec 16) :
    (BitVec.ofNat 16 (p2vBlock p b (x.toNat % 4294967296))).setWidth 32 <<< 1 =
      BitVec.ofNat 32 (2 * p2vBlock p b x.toNat) := by
  have mod : x.toNat % 4294967296 = x.toNat := Nat.mod_eq_of_lt (by omega)
  have small : p2vBlock p b x.toNat < 65536 :=
    ((Nat.div_le_self _ _).trans (Nat.mod_le _ _)).trans_lt x.isLt
  rw [mod, half_shl, BitVec.toNat_ofNat, Nat.mod_eq_of_lt small]

/-- The call of `P2V_block_in_plane` for the index of a block's erase count, with `n` bytes
pushed. -/
theorem index_calls {u : State} {n : ℕ} {P : State → Prop} (div : k.Divides o)
    (room : Q.Room (s.reg sp) (o.depth + 40)) (le : n ≤ 32)
    (hsp : u.reg sp = s.reg sp - BitVec.ofNat 32 n) (arg : u.reg r0 = x.setWidth 32)
    (placed : Q.Placed (Q.view u.mem))
    (post : ∀ t, Saved u t →
      Frame [(u.reg sp - BitVec.ofNat 32 (o.depth + 8), o.depth + 8)] u.mem t.mem →
      Q.view t.mem = Q.view u.mem → t.reg r0 <<< 1 = BitVec.ofNat 32
        (2 * p2vBlock (Q.view u.mem).planes.toNat (Q.view u.mem).blocks.toNat x.toNat) → P t) :
    Calls k.image .p2vBlockInPlane u P := by
  have := o.depth_le
  have below : Q.Room (u.reg sp) (o.depth + 8) := by
    rw [hsp]
    exact room.sub (by omega) (by omega) (by omega)
  refine (p2vBlockInPlane_calls div placed.planes placed.blocks below.data).mono fun t called => ?_
  obtain ⟨saved, frame, answer⟩ := called
  refine post t saved frame (view_of_stack below frame) ?_
  rw [answer, arg, BitVec.toNat_setWidth]
  exact index_addr _ _ x

/-- Counting an erase: the two counts as the code stores them. -/
def counted (Q : SysQueue k o D) (m : ByteMemory) (i : ℕ) : ByteMemory :=
  (m.st16 (Q.erase + BitVec.ofNat 32 (2 * i)) ((Q.view m).worn i + 1#16)).st32
    (k.anchor + Var.totalEraseCount) ((Q.view m).total + 1#32)

theorem view_counted {m : ByteMemory} {i : ℕ} (hi : i < Q.size) :
    Q.view (Q.counted m i) = { Q.view m with
      worn := Function.update (Q.view m).worn i ((Q.view m).worn i + 1#16)
      total := (Q.view m).total + 1#32 } := by
  rw [counted, view_st32_total, view_st16_worn _ hi]

/-- The loads and stores of the code that count. -/
theorem counted_eq {m : ByteMemory} {i : ℕ} (hi : i < Q.size) :
    (m.st16 (Q.erase + BitVec.ofNat 32 (2 * i))
      (((m.ld16 (Q.erase + BitVec.ofNat 32 (2 * i))).setWidth 32 + 1#32).setWidth 16)).st32
        (k.anchor + Var.totalEraseCount)
        ((m.st16 (Q.erase + BitVec.ofNat 32 (2 * i))
          (((m.ld16 (Q.erase + BitVec.ofNat 32 (2 * i))).setWidth 32 + 1#32).setWidth 16)).ld32
            (k.anchor + Var.totalEraseCount) + 1#32) = Q.counted m i := by
  have worn : m.ld16 (Q.erase + BitVec.ofNat 32 (2 * i)) = (Q.view m).worn i := (if_pos hi).symm
  have total (v : BitVec 16) : (m.st16 (Q.erase + BitVec.ofNat 32 (2 * i)) v).ld32
      (k.anchor + Var.totalEraseCount) = (Q.view m).total :=
    congrArg View.total (view_st16_worn v hi)
  rw [total, worn, succ_half, counted]

theorem Frame.counted {rs : List (BitVec 32 × ℕ)} {m m' : ByteMemory} {i : ℕ} (h : Frame rs m m')
    (hi : i < Q.size) (erase : (Q.erase, 2 * Q.size) ∈ rs) (data : k.data ∈ rs) :
    Frame rs m (Q.counted m' i) := by
  have := Q.size_lt
  refine (h.st16 erase (worn_within hi) (by simp; omega)).st32 data ?_ (by simp [Link.data])
  exact Link.anchor_within (by decide)

/-- The end of `FtlFreeSysBlkQueueIn`: the block is put in. -/
theorem in_end {u : State} (tail : (Q.view u.mem).tail.toNat < 1024)
    (h4 : u.reg r4 = k.anchor - 1232#32) (h6 : u.reg r6 = x.setWidth 32)
    (hsp : u.reg sp = s.reg sp - 24#32) (kept : ∀ r ∈ [r9, r10, fp], u.reg r = s.reg r)
    (room : Q.Room (s.reg sp) (o.depth + 40)) (pushed : Pushed s [r4, r5, r6, r7, r8, lr] u.mem) :
    Wp k.image k.ftlFreeSysBlkQueueIn (after 1812 k.ftlFreeSysBlkQueueIn) u fun a t =>
      a = s.reg lr ∧ Saved s t ∧ Q.view t.mem = { Q.view u.mem with
        count := (Q.view u.mem).count + 1#16
        cell := Function.update (Q.view u.mem).cell (Q.view u.mem).tail.toNat x
        tail := ((Q.view u.mem).tail + 1#16) % 1024#16 } := by
  have at1812 := congrArg (after 1812) (Link.ftlFreeSysBlkQueueIn.eq_1 k)
  have count₀ : u.mem.ld16 (k.anchor + Var.queueCount) = (Q.view u.mem).count := rfl
  have tail₁ (v : BitVec 16) : (u.mem.st16 (k.anchor + Var.queueCount) v).ld16
      (k.anchor + Var.queueTail) = (Q.view u.mem).tail := ld16_st16_anchor v (by decide)
  rw [at1812]
  simp [after, h4, h6, count₀, tail₁, succ_half, cell_addr, next_index]
  set m' := ((u.mem.st16 (k.anchor + Var.queueCount) ((Q.view u.mem).count + 1#16)).st16
    (k.anchor + (Var.queueCells + BitVec.ofNat 32 (2 * (Q.view u.mem).tail.toNat))) x).st16
    (k.anchor + Var.queueTail) (((Q.view u.mem).tail + 1#16) % 1024#16) with hm'
  have frame : Frame (Q.touched (s.reg sp - 24#32)) u.mem m' := by
    refine touched_st16 (touched_st16 (touched_st16 .refl (by decide)) ?_) (by decide)
    unfold Var.queueCells
    bv_omega
  refine wp_popPc s (room.pushed (by simp) (by omega) (by omega) pushed frame)
    (by simpa using hsp) ?_ fun v hv back _ => ⟨rfl, back, ?_⟩
  · simpa [calleeSaved] using kept
  · rw [hv]
    rw [view_st16_tail, view_st16_cell x tail, view_st16_count]

theorem ftlFreeSysBlkQueueIn_calls (div : k.Divides o) (erases : Q.Erases)
    (placed : Q.Placed (Q.view s.mem)) (arg : s.reg r0 = x.setWidth 32)
    (room : Q.Room (s.reg sp) (o.depth + 40)) :
    Calls k.image .ftlFreeSysBlkQueueIn s fun t => Saved s t ∧
      Q.view t.mem = (Q.view s.mem).put Q.act x (s.reg r1 ≠ 0#32) := by
  rw [calls_listing rfl (Link.ftlFreeSysBlkQueueIn.eq_1 k)]
  by_cases no : View.NoBlock x
  · simp [arg, noBlock_iff, no]
    refine ⟨by simp [Saved, calleeSaved], ?_⟩
    simp [View.put, no]
  set m₁ := s.mem.storeWords (s.reg sp - 24#32) 0
    [s.reg r4, s.reg r5, s.reg r6, s.reg r7, s.reg r8, s.reg lr] with hm₁
  have pushed₁ : Pushed s [r4, r5, r6, r7, r8, lr] m₁ := pushed_storeWords s (by simp) _
  have view₁ : Q.view m₁ = Q.view s.mem :=
    room.view_push [r4, r5, r6, r7, r8, lr] rfl (by omega) (by omega)
  have count₁ : m₁.ld16 (k.anchor + Var.queueCount) = (Q.view s.mem).count :=
    congrArg View.count view₁
  have readOnly₁ : m₁.ld32 (k.anchor + Var.readOnlyEn) = (Q.view s.mem).readOnly :=
    congrArg View.readOnly view₁
  by_cases full : (Q.view s.mem).count = 1024#16
  · simp [arg, noBlock_iff, no, ← hm₁, count₁, full]
    refine wp_popPc s (by simpa using pushed₁) (by simp) ?_ fun v hv back _ => ⟨rfl, back, ?_⟩
    · simp [calleeSaved]
    · rw [hv]
      simpa [View.put, full] using view₁
  have notFull : (Q.view s.mem).count.setWidth 32 ≠ 1024#32 := by bv_omega
  generalize hV : Q.view s.mem = V at *
  have tail₁ : (Q.view m₁).tail.toNat < 1024 := view₁ ▸ placed.tail
  have := o.depth_le
  by_cases erase : s.reg r1 ≠ 0#32 ∧ V.readOnly = 0#32
  · obtain ⟨asked, may⟩ := erase
    simp [arg, noBlock_iff, no, ← hm₁, count₁, notFull, asked, readOnly₁, may]
    refine index_calls (x := x) (n := 24) div room (by omega) (by simp) (by simp [arg]) ?_
      fun u saved frame view_u h0 => ?_
    · simpa [view₁] using placed
    simp [Saved, calleeSaved, view₁] at saved frame view_u h0
    have request_u : u.mem.ld32 (k.anchor + Var.reqErase) = Q.request :=
      (congrArg View.request view_u).trans placed.request
    refine erases.calls (by simp) (by simp [saved, request_u]) ?_ ?_ fun t saved' frame' view' => ?_
    · simpa [saved, request_u, view_st32_target, view_u] using placed.ready
    · simpa [saved] using room.sub (i := o.depth) (j := 24) o.depth_pos (by omega) (by omega)
    simp [Saved, calleeSaved, saved, request_u, view_st32_target, view_u] at saved' frame' view'
    have hi := placed.index_lt x
    set i := p2vBlock V.planes.toNat V.blocks.toNat x.toNat with hi_def
    have h7 : t.reg r7 <<< 1 = BitVec.ofNat 32 (2 * i) := by
      rw [saved'.2.2.2.1, h0]
    have erase_t : t.mem.ld32 (k.anchor + Var.eraseCountTable) = Q.erase :=
      (congrArg View.erase view').trans placed.erase
    simp only [saved'.2.1, Link.eraseCountTable_addr, Link.totalEraseCount_addr, erase_t, h7,
      counted_eq hi]
    have touch : Frame (Q.touched (s.reg sp - 24#32)) m₁ (Q.counted t.mem i) := by
      refine Frame.counted ?_ hi (by simp [touched]) (by simp [touched])
      exact (touched_request frame).trans (frame'.subset (erased_subset_touched _))
    have view'' : Q.view (Q.counted t.mem i) = V.eraseBlock Q.act [1#32] x := by
      rw [view_counted hi, view']
      rfl
    refine (wp_label rfl).2 ?_
    refine (in_end (Q := Q) (x := x) (s := s) ?_ (by simp [saved']) (by simp [saved'])
      (by simp [saved']) (by simp [saved']) room
      (room.pushed (by simp) (by omega) (by omega) pushed₁ touch)).mono fun a v ended => ?_
    · show (Q.view (Q.counted t.mem i)).tail.toNat < 1024
      rw [view'']
      exact placed.tail
    obtain ⟨back, kept, view_v⟩ := ended
    refine ⟨back, kept, view_v.trans ?_⟩
    show _ = V.put Q.act x true
    simp only [view'', View.put, no, false_or, if_neg full, may, and_self, if_true]
  · have put : V.put Q.act x (s.reg r1 ≠ 0#32) = { V with
        count := V.count + 1#16
        cell := Function.update V.cell V.tail.toNat x
        tail := (V.tail + 1#16) % 1024#16 } := by
      simp only [View.put, no, false_or, if_neg full, decide_eq_true_eq, if_neg erase]
    rw [put, ← view₁]
    by_cases asked : s.reg r1 = 0#32
    · simp [arg, noBlock_iff, no, ← hm₁, count₁, notFull, asked]
      exact in_end tail₁ (by simp) (by simp) (by simp) (by simp) room (by simpa)
    · have may : V.readOnly ≠ 0#32 := fun zero => erase ⟨asked, zero⟩
      simp [arg, noBlock_iff, no, ← hm₁, count₁, notFull, asked, readOnly₁, may]
      exact in_end tail₁ (by simp) (by simp) (by simp) (by simp) room (by simpa)

/-! ## `FtlFreeSysBlkQueueInit` -/

/-- `ftl_memset`, given memory apart from its stack, comes back, and writes only that memory and
its stack. -/
def Fills (k : Link) (o : Outside) : Prop :=
  ∀ s, Apart (s.reg r0) (s.reg r2).toNat (o.stack (s.reg sp)).1 (o.stack (s.reg sp)).2 →
    ∃ t, k.host .ftlMemset s = some t ∧ Saved s t ∧
      Frame [(s.reg r0, (s.reg r2).toNat), o.stack (s.reg sp)] s.mem t.mem

theorem Fills.calls {P : State → Prop} (fills : Fills k o)
    (apart : Apart (s.reg r0) (s.reg r2).toNat (o.stack (s.reg sp)).1 (o.stack (s.reg sp)).2)
    (post : ∀ t, Saved s t → Frame [(s.reg r0, (s.reg r2).toNat), o.stack (s.reg sp)] s.mem t.mem →
      P t) : Calls k.image .ftlMemset s P := by
  obtain ⟨t, host, saved, frame⟩ := fills s apart
  exact (calls_host rfl).2 ⟨t, host, post t saved frame⟩

theorem cells_within : (k.anchor + Var.queueCells - k.data.1).toNat + 2048 ≤ k.data.2 :=
  Link.anchor_within (by decide)

/-- Filling the cells changes nothing else. -/
theorem view_of_fill {m m' : ByteMemory} {a : BitVec 32} (room : Q.Room a o.depth)
    (frame : Frame [(k.anchor + Var.queueCells, 2048), o.stack a] m m') :
    Q.view m' = { Q.view m with cell := cell (k := k) m' } := by
  have apart {b : BitVec 32} {n : ℕ} (cells : Apart (k.anchor + Var.queueCells) 2048 b n)
      (stack : Apart (o.stack a).1 (o.stack a).2 b n) :
      ∀ r ∈ [(k.anchor + Var.queueCells, 2048), o.stack a], Apart r.1 r.2 b n := by
    intro r hr
    simp only [List.mem_cons, List.not_mem_nil, or_false] at hr
    rcases hr with rfl | rfl
    · exact cells
    · exact stack
  have data {c : BitVec 32} {n : ℕ} (hn : 0 < n) (h : Apart Var.queueCells 2048 c n)
      (hc : (c + 2752#32).toNat + n ≤ 3648) : ∀ r ∈ [(k.anchor + Var.queueCells, 2048), o.stack a],
        Apart r.1 r.2 (k.anchor + c) n :=
    apart (by rwa [apart_add_add])
      (room.data.mono room.pos hn (by simp [Outside.stack]) (Link.anchor_within hc))
  have half {c : BitVec 32} (h : Apart Var.queueCells 2048 c 2)
      (hc : (c + 2752#32).toNat + 2 ≤ 3648) : m'.ld16 (k.anchor + c) = m.ld16 (k.anchor + c) :=
    frame.ld16 (data (by omega) h hc)
  have total : m'.ld32 (k.anchor + Var.totalEraseCount) = m.ld32 (k.anchor + Var.totalEraseCount) :=
    frame.ld32 (data (by omega) (by decide) (by decide))
  have target : m'.ld32 (Q.request + 4#32) = m.ld32 (Q.request + 4#32) := by
    refine frame.ld32 (apart (apart_target (by omega) ?_) room.clear.request)
    exact Q.request_data.symm.mono (by omega) (by omega) cells_within (by simp)
  have worn : Q.worn m' = Q.worn m := worn_congr fun b hb => by
    refine frame.ld16 (apart ?_ (room.erase.mono room.pos (by omega) (by simp [Outside.stack]) hb))
    exact Q.erase_data.symm.mono (by omega) (by omega) cells_within hb
  have device : Q.device m' = Q.device m := by
    refine Q.device_of_frame frame fun r hr q hq => ?_
    refine (apart ?_ (room.own q hq).symm r hr).symm
    refine Apart.symm ((Q.own_vars q hq (Var.queueType, 2056) (by decide)).mono (Q.own_pos q hq)
      (by omega) (by simp) ?_)
    simp only [add_sub_add_left_eq_sub]
    decide
  rw [view_of_fixed frame, half (c := Var.queueFront) (by decide) (by decide),
    half (c := Var.queueTail) (by decide) (by decide),
    half (c := Var.queueCount) (by decide) (by decide), target, worn, total, device]
  · rfl
  · have fixed : ∀ v ∈ fixedVars, 0 < v.2 ∧ Apart Var.queueCells 2048 v.1 v.2 ∧
        (v.1 + 2752#32).toNat + v.2 ≤ 3648 := by decide
    exact fun r hr v hv => data (fixed v hv).1 (fixed v hv).2.1 (fixed v hv).2.2 r hr

/-- `FtlFreeSysBlkQueueInit` leaves an empty ring. -/
theorem ftlFreeSysBlkQueueInit_calls (fills : Fills k o) (room : Q.Room (s.reg sp) (o.depth + 40)) :
    Calls k.image .ftlFreeSysBlkQueueInit s fun t => Saved s t ∧ Q.view t.mem =
      { Q.view s.mem with
        front := 0#16, tail := 0#16, count := 0#16, cell := cell (k := k) t.mem } := by
  have := o.depth_le
  set m₁ := s.mem.storeWords (s.reg sp - 8#32) 0 [s.reg r4, s.reg lr] with hm₁
  have pushed₁ : Pushed s [r4, lr] m₁ := pushed_storeWords s (by simp) _
  have view₁ : Q.view m₁ = Q.view s.mem := room.view_push [r4, lr] rfl (by omega) (by omega)
  rw [calls_listing rfl (Link.ftlFreeSysBlkQueueInit.eq_1 k)]
  simp [← hm₁]
  set m₂ := (((m₁.st16 (k.anchor + Var.queueType) ((s.reg r0).setWidth 16)).st16
    (k.anchor + Var.queueFront) 0#16).st16 (k.anchor + Var.queueTail) 0#16).st16
    (k.anchor + Var.queueCount) 0#16 with hm₂
  have view₂ : Q.view m₂ =
      { Q.view s.mem with front := 0#16, tail := 0#16, count := 0#16 } := by
    rw [view_st16_count, view_st16_tail, view_st16_front, view_st16_type, view₁]
  have frame₂ : Frame (Q.touched (s.reg sp - 8#32)) m₁ m₂ := by
    refine touched_st16 (touched_st16 (touched_st16 (touched_st16 .refl ?_) ?_) ?_) ?_
    all_goals decide
  have room₂ : Q.Room (s.reg sp - 8#32) o.depth :=
    room.sub (j := 8) o.depth_pos (by omega) (by omega)
  refine fills.calls ?_ fun t saved fill => ?_
  · have apart : Apart (k.anchor + Var.queueCells) 2048 (o.stack (s.reg sp - 8#32)).1
        (o.stack (s.reg sp - 8#32)).2 :=
      (room₂.data.mono o.depth_pos (by omega) (by simp [Outside.stack]) cells_within).symm
    simpa [Link.queueCells_addr] using apart
  simp [Saved, calleeSaved, Link.queueCells_addr] at saved fill
  have frame : Frame (Q.touched (s.reg sp - 8#32)) m₁ t.mem := by
    refine frame₂.trans (fill.mono (fun r hr => ?_) (fun r hr => ?_))
    all_goals
      simp only [List.mem_cons, List.not_mem_nil, or_false] at hr
      rcases hr with rfl | rfl
    · exact ⟨k.data, by simp [touched], Link.anchor_within (n := 2048) (by decide)⟩
    · exact ⟨o.stack (s.reg sp - 8#32), by simp [touched, erased, Outside.ranges], by simp⟩
    · exact Nat.zero_lt_succ _
    · exact o.depth_pos
  refine wp_popPc s (by simpa using room.pushed (by simp) (by omega) (by omega) pushed₁ frame)
    (by simp [saved]) (by simp [calleeSaved, saved]) fun v hv back _ => ⟨rfl, back, ?_⟩
  rw [hv]
  refine (view_of_fill room₂ fill).trans ?_
  rw [view₂]
  rfl

/-! ## `FtlFreeSysBlkQueueEmpty` and `FtlFreeSysBlkQueueFull` -/

theorem ftlFreeSysBlkQueueEmpty_calls : Calls k.image .ftlFreeSysBlkQueueEmpty s fun t =>
    t.mem = s.mem ∧ t.reg r0 = if (Q.view s.mem).count = 0#16 then 1#32 else 0#32 := by
  have count : s.mem.ld16 (k.anchor + Var.queueCount) = (Q.view s.mem).count := rfl
  rw [calls_listing rfl (Link.ftlFreeSysBlkQueueEmpty.eq_1 k)]
  simp [count, countLeadingZeros_shift]
  exact if_congr (by bv_omega) rfl rfl

theorem ftlFreeSysBlkQueueFull_calls : Calls k.image .ftlFreeSysBlkQueueFull s fun t =>
    t.mem = s.mem ∧ t.reg r0 = if (Q.view s.mem).count = 1024#16 then 1#32 else 0#32 := by
  have count : s.mem.ld16 (k.anchor + Var.queueCount) = (Q.view s.mem).count := rfl
  rw [calls_listing rfl (Link.ftlFreeSysBlkQueueFull.eq_1 k)]
  simp [count, countLeadingZeros_shift]
  exact if_congr (by bv_omega) rfl rfl

/-! ## `FtlFreeSysBlkQueueOut` -/

/-- The end of `FtlFreeSysBlkQueueOut`: the block is given out. -/
theorem out_end {u : State} (h5 : u.reg r5 = x.setWidth 32) (block : ¬ View.NoBlock x)
    (hsp : u.reg sp = s.reg sp - 32#32) (hfp : u.reg fp = s.reg fp)
    (pushed : Pushed s [r4, r5, r6, r7, r8, r9, r10, lr] u.mem) :
    Wp k.image k.ftlFreeSysBlkQueueOut (after 1890 k.ftlFreeSysBlkQueueOut) u fun a t =>
      a = s.reg lr ∧ Saved s t ∧ t.reg r0 = x.setWidth 32 ∧ t.mem = u.mem := by
  have at1890 := congrArg (after 1890) (Link.ftlFreeSysBlkQueueOut.eq_1 k)
  have at1893 := congrArg (after 1893) (Link.ftlFreeSysBlkQueueOut.eq_1 k)
  have valid : ((x.setWidth 32 - 1#32).setWidth 16).setWidth 32 ≤ 65533#32 := by
    have := mt noBlock_iff.1 block
    bv_omega
  rw [at1890]
  simp [after, h5, valid, at1893]
  refine wp_popPc s (by simpa using pushed) (by simpa using hsp) ?_ fun v hv back other => ?_
  · simpa [calleeSaved] using hfp
  · refine ⟨rfl, back, ?_, by simpa using hv⟩
    rw [other r0 (by simp) (by simp)]
    simp

/-- The second half of `FtlFreeSysBlkQueueOut`: the block in the request is erased and counted. -/
theorem out_erase {u : State} {i : ℕ} (erases : Q.Erases) (placed : Q.Placed (Q.view u.mem))
    (h4 : u.reg r4 = k.anchor) (h5 : u.reg r5 = x.setWidth 32) (block : ¬ View.NoBlock x)
    (h8 : u.reg r8 <<< 1 = BitVec.ofNat 32 (2 * i)) (hi : i < Q.size)
    (hsp : u.reg sp = s.reg sp - 32#32) (hfp : u.reg fp = s.reg fp)
    (room : Q.Room (s.reg sp) (o.depth + 40))
    (pushed : Pushed s [r4, r5, r6, r7, r8, r9, r10, lr] u.mem) :
    Wp k.image k.ftlFreeSysBlkQueueOut (after 1891 k.ftlFreeSysBlkQueueOut) u fun a t =>
      a = s.reg lr ∧ Saved s t ∧ t.reg r0 = x.setWidth 32 ∧ Q.view t.mem = { Q.view u.mem with
        device := Q.act (Q.view u.mem).device (Q.view u.mem).target 1#32
        worn := Function.update (Q.view u.mem).worn i ((Q.view u.mem).worn i + 1#16)
        total := (Q.view u.mem).total + 1#32 } := by
  have at1891 := congrArg (after 1891) (Link.ftlFreeSysBlkQueueOut.eq_1 k)
  have request_u : u.mem.ld32 (k.anchor + Var.reqErase) = Q.request := placed.request
  have := o.depth_le
  rw [at1891]
  simp [after, h4, request_u]
  refine erases.calls (by simp) (by simp) ?_ ?_ fun t saved frame view => ?_
  · simpa using placed.ready
  · simpa [hsp] using room.sub (i := o.depth) (j := 32) o.depth_pos (by omega) (by omega)
  simp [Saved, calleeSaved, hsp] at saved frame view
  have erase_t : t.mem.ld32 (k.anchor + Var.eraseCountTable) = Q.erase :=
    (congrArg View.erase view).trans placed.erase
  simp only [saved, h4, h8, Link.eraseCountTable_addr, Link.totalEraseCount_addr, erase_t,
    counted_eq hi]
  have touch : Frame (Q.touched (s.reg sp - 32#32)) u.mem (Q.counted t.mem i) := by
    refine Frame.counted ?_ hi (by simp [touched]) (by simp [touched])
    exact frame.subset (erased_subset_touched _)
  refine (wp_label rfl).2 ?_
  refine (out_end (x := x) (s := s) (by simp [saved, h5]) block (by simp [saved])
    (by simp [saved, hfp])
    (room.pushed (by simp) (by omega) (by omega) pushed touch)).mono fun a v ended => ?_
  obtain ⟨back, kept, answer, mem⟩ := ended
  refine ⟨back, kept, answer, ?_⟩
  rw [mem]
  exact (view_counted hi).trans (by rw [view])

theorem pred_half (v : BitVec 16) : (v.setWidth 32 - 1#32).setWidth 16 = v - 1#16 := by bv_omega

/-- `FtlFreeSysBlkQueueOut` on a queue whose first entry is a block. -/
theorem ftlFreeSysBlkQueueOut_calls (div : k.Divides o) (erases : Q.Erases)
    (placed : Q.Placed (Q.view s.mem)) (some_left : (Q.view s.mem).count ≠ 0#16)
    (block : ¬ View.NoBlock ((Q.view s.mem).cell (Q.view s.mem).front.toNat))
    (room : Q.Room (s.reg sp) (o.depth + 40)) :
    Calls k.image .ftlFreeSysBlkQueueOut s fun t => Saved s t ∧
      t.reg r0 = ((Q.view s.mem).cell (Q.view s.mem).front.toNat).setWidth 32 ∧
      Q.view t.mem = (Q.view s.mem).take Q.act := by
  have at1888 := congrArg (after 1888) (Link.ftlFreeSysBlkQueueOut.eq_1 k)
  have := o.depth_le
  set m₁ := s.mem.storeWords (s.reg sp - 32#32) 0 [s.reg r4, s.reg r5, s.reg r6, s.reg r7, s.reg r8,
    s.reg r9, s.reg r10, s.reg lr] with hm₁
  have pushed₁ : Pushed s [r4, r5, r6, r7, r8, r9, r10, lr] m₁ := pushed_storeWords s (by simp) _
  have view₁ : Q.view m₁ = Q.view s.mem :=
    room.view_push [r4, r5, r6, r7, r8, r9, r10, lr] rfl (by omega) (by omega)
  have count₁ : m₁.ld16 (k.anchor + Var.queueCount) = (Q.view s.mem).count :=
    congrArg View.count view₁
  have front₁ : m₁.ld16 (k.anchor + Var.queueFront) = (Q.view s.mem).front :=
    congrArg View.front view₁
  have readOnly₁ : m₁.ld32 (k.anchor + Var.readOnlyEn) = (Q.view s.mem).readOnly :=
    congrArg View.readOnly view₁
  have entry (v : BitVec 16) : (m₁.st16 (k.anchor + Var.queueCount) v).ld16
      (k.anchor + (Var.queueCells + BitVec.ofNat 32 (2 * (Q.view s.mem).front.toNat))) =
        (Q.view s.mem).cell (Q.view s.mem).front.toNat := by
    rw [ld16_cell (Q := Q) placed.front, view_st16_count, view₁]
  have notEmpty : (Q.view s.mem).count.setWidth 32 ≠ 0#32 := by bv_omega
  generalize hV : Q.view s.mem = V at *
  set x := V.cell V.front.toNat with hx
  rw [calls_listing rfl (Link.ftlFreeSysBlkQueueOut.eq_1 k)]
  simp [← hm₁]
  refine (wp_label rfl).2 ?_
  rw [at1888]
  set m₂ := (m₁.st16 (k.anchor + Var.queueCount) (V.count - 1#16)).st16 (k.anchor + Var.queueFront)
    ((V.front + 1#16) % 1024#16) with hm₂
  have view₂ : Q.view m₂ =
      { V with count := V.count - 1#16, front := (V.front + 1#16) % 1024#16 } := by
    rw [view_st16_front, view_st16_count, view₁]
  have frame₂ : Frame (Q.touched (s.reg sp - 32#32)) m₁ m₂ :=
    touched_st16 (touched_st16 .refl (by decide)) (by decide)
  have pushed₂ : Pushed s [r4, r5, r6, r7, r8, r9, r10, lr] m₂ :=
    room.pushed (by simp) (by omega) (by omega) pushed₁ frame₂
  by_cases may : V.readOnly = 0#32
  · simp [after, count₁, front₁, readOnly₁, notEmpty, entry, cell_addr, may,
      pred_half, next_index, ← hm₂]
    refine index_calls (x := x) (n := 32) div room (by omega) (by simp) (by simp) ?_
      fun u saved frame view_u h0 => ?_
    · simp [view₂]
      exact placed.next rfl rfl rfl rfl placed.ready rfl rfl
    clear at1888
    clear_value x m₁ m₂
    simp [Saved, calleeSaved, view₂] at saved frame view_u h0
    have request_u : u.mem.ld32 (k.anchor + Var.reqErase) = Q.request :=
      (congrArg View.request view_u).trans placed.request
    set m₃ := u.mem.st32 (Q.request + 4#32) (x.setWidth 32 <<< 10) with hm₃
    have view₃ : Q.view m₃ = { V with
        count := V.count - 1#16, front := (V.front + 1#16) % 1024#16
        target := x.setWidth 32 <<< 10 } := by
      rw [view_st32_target, view_u]
    have frame₃ : Frame (Q.touched (s.reg sp - 32#32)) m₂ m₃ := touched_request frame
    have pushed₃ : Pushed s [r4, r5, r6, r7, r8, r9, r10, lr] m₃ :=
      room.pushed (by simp) (by omega) (by omega) pushed₂ frame₃
    clear_value m₃
    have slcMode₃ : m₃ (k.anchor + Var.gFlashSlcMode) = V.slcMode := congrArg View.slcMode view₃
    have hi := placed.index_lt x
    set i := p2vBlock V.planes.toNat V.blocks.toNat x.toNat with hi_def
    have placed₃ : Q.Placed (Q.view m₃) := by
      rw [view₃]
      exact placed.next rfl rfl rfl rfl placed.ready rfl rfl
    simp only [saved, Link.reqErase_addr, Link.gFlashSlcMode_addr, request_u, ← hm₃, slcMode₃]
    split_ifs with single
    · have once : V.slcMode = 0#8 := by bv_omega
      refine (out_erase (x := x) (i := i) (s := s) erases (by exact placed₃) (by simp [saved])
        (by simp [saved])
        block (by simpa using h0) hi (by simp [saved]) (by simp [saved]) room
        (by exact pushed₃)).mono fun a v ended => ?_
      obtain ⟨back, kept, answer, view_v⟩ := ended
      refine ⟨back, kept, answer, view_v.trans ?_⟩
      simp only [view₃, View.take, may, once, if_true, ← hx]
      rfl
    · have both : V.slcMode ≠ 0#8 := by bv_omega
      refine erases.calls (by simp) (by simp) ?_ ?_ fun t saved' frame' view' => ?_
      · simpa using placed₃.ready
      · simpa [saved] using room.sub (i := o.depth) (j := 32) o.depth_pos (by omega) (by omega)
      simp [Saved, calleeSaved, saved, view₃] at saved' frame' view'
      have touch : Frame (Q.touched (s.reg sp - 32#32)) m₃ t.mem :=
        frame'.subset (erased_subset_touched _)
      have placed' : Q.Placed (Q.view t.mem) := by
        rw [view']
        exact placed.next rfl rfl rfl rfl (Q.ready_act _ _ _ placed.ready) rfl rfl
      refine (wp_label rfl).2 ((out_erase (x := x) (i := i) (s := s) erases placed'
        (by simp [saved']) (by simp [saved']) block (by simpa [saved'] using h0) hi
        (by simp [saved']) (by simp [saved']) room
        (room.pushed (by simp) (by omega) (by omega) pushed₃ touch)).mono fun a v ended => ?_)
      obtain ⟨back, kept, answer, view_v⟩ := ended
      refine ⟨back, kept, answer, view_v.trans ?_⟩
      simp only [view', View.take, may, if_true, if_neg both, ← hx]
      simp [View.eraseBlock, hi_def]
  · simp [after, count₁, front₁, readOnly₁, notEmpty, entry, cell_addr, may,
      pred_half, next_index, ← hm₂]
    refine (out_end (x := x) (s := s) (by simp) block (by simp) (by simp) (by exact pushed₂)).mono
      fun a v ended => ?_
    obtain ⟨back, kept, answer, mem⟩ := ended
    refine ⟨back, kept, answer, ?_⟩
    rw [mem]
    exact view₂.trans (by simp only [View.take, if_neg may])

end SysQueue

end RkNand.Blob
