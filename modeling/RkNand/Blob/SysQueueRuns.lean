import RkNand.Blob.SysQueueCode
import RkNand.Lib.Ring
import RkNand.Lib.Transition

/-!
# Runs of the queue of free system blocks

Over any sequence of `FtlFreeSysBlkQueueIn` and `FtlFreeSysBlkQueueOut` the ring is a queue of at
most 1024 blocks: what comes out is what went in, in that order.
-/

namespace RkNand.Blob

open Arm Arm.Reg ByteMemory

/-! ## The queue -/

namespace View

variable {D : Type} {act : D → BitVec 32 → BitVec 32 → D} {v w : View D} {l : List (BitVec 16)}
  {x : BitVec 16} {erase : Bool}

/-- The ring holds the blocks of the list, and nothing that is no block. -/
structure Holds (v : View D) (l : List (BitVec 16)) : Prop where
  ring : Ring.Holds 1024 v.cell v.front.toNat l
  count : v.count.toNat = l.length
  front : v.front.toNat < 1024
  tail : v.tail.toNat = (v.front.toNat + l.length) % 1024
  blocks : ∀ x ∈ l, ¬ NoBlock x

theorem Holds.tail_lt (h : v.Holds l) : v.tail.toNat < 1024 :=
  h.tail ▸ Nat.mod_lt _ (by omega)

/-- The same indices and cells hold the same blocks. -/
theorem Holds.congr (h : v.Holds l) (front : w.front = v.front) (tail : w.tail = v.tail)
    (count : w.count = v.count) (cell : w.cell = v.cell) : w.Holds l where
  ring := by rw [front, cell]; exact h.ring
  count := by rw [count]; exact h.count
  front := by rw [front]; exact h.front
  tail := by rw [front, tail]; exact h.tail
  blocks := h.blocks

theorem Holds.eraseBlock (h : v.Holds l) (act : D → BitVec 32 → BitVec 32 → D)
    (modes : List (BitVec 32)) : (v.eraseBlock act modes x).Holds l := h.congr rfl rfl rfl rfl

theorem Holds.count_eq_iff (h : v.Holds l) : v.count = 1024#16 ↔ l.length = 1024 := by
  have := h.count
  bv_omega

/-- What is put in goes to the end, unless it is no block or the queue is full. -/
theorem Holds.put (h : v.Holds l) :
    (v.put act x erase).Holds (if NoBlock x ∨ l.length = 1024 then l else l ++ [x]) := by
  simp only [View.put, h.count_eq_iff]
  by_cases refused : NoBlock x ∨ l.length = 1024
  · simpa only [if_pos refused] using h
  simp only [if_neg refused]
  rw [not_or] at refused
  have short : l.length < 1024 := lt_of_le_of_ne h.ring.length_le refused.2
  have pushed (w : View D) (h : w.Holds l) : View.Holds { w with
      count := w.count + 1#16
      cell := Function.update w.cell w.tail.toNat x
      tail := (w.tail + 1#16) % 1024#16 } (l ++ [x]) := by
    refine ⟨h.tail ▸ h.ring.push short, ?_, h.front, ?_, ?_⟩
    · have := h.count
      simp only [BitVec.toNat_add, BitVec.toNat_ofNat, List.length_append, List.length_singleton]
      omega
    · have := h.tail
      simp only [BitVec.toNat_umod, BitVec.toNat_add, BitVec.toNat_ofNat, List.length_append,
        List.length_singleton, Nat.reducePow, Nat.reduceMod]
      omega
    · simpa [or_imp, forall_and, refused.1] using h.blocks
  by_cases erasing : erase ∧ v.readOnly = 0#32
  · simpa only [if_pos erasing] using pushed _ (h.eraseBlock act [1#32])
  · simpa only [if_neg erasing] using pushed _ h

theorem put_kept : (v.put act x erase).request = v.request ∧ (v.put act x erase).erase = v.erase ∧
    (v.put act x erase).planes = v.planes ∧ (v.put act x erase).blocks = v.blocks := by
  unfold View.put
  by_cases refused : NoBlock x ∨ v.count = 1024#16
  · simp only [if_pos refused, and_self]
  · by_cases erasing : erase ∧ v.readOnly = 0#32
    · simp only [if_neg refused, if_pos erasing, View.eraseBlock, and_self]
    · simp only [if_neg refused, if_neg erasing, and_self]

theorem put_device : (v.put act x erase).device =
    if ¬ (NoBlock x ∨ v.count = 1024#16) ∧ erase ∧ v.readOnly = 0#32
    then act v.device (x.setWidth 32 <<< 10) 1#32 else v.device := by
  unfold View.put
  by_cases refused : NoBlock x ∨ v.count = 1024#16
  · simp [refused]
  · by_cases erasing : erase ∧ v.readOnly = 0#32
    · simp only [if_pos erasing, refused, not_false_eq_true, true_and, if_false, View.eraseBlock,
        List.foldl_cons, List.foldl_nil]
    · simp only [if_neg erasing, refused, not_false_eq_true, true_and, if_false]

theorem take_kept : (v.take act).request = v.request ∧ (v.take act).erase = v.erase ∧
    (v.take act).planes = v.planes ∧ (v.take act).blocks = v.blocks := by
  unfold View.take
  by_cases may : v.readOnly = 0#32
  · simp only [if_pos may, View.eraseBlock, and_self]
  · simp only [if_neg may, and_self]

theorem take_device : (v.take act).device = if v.readOnly = 0#32 then
    (if v.slcMode = 0#8 then [1#32] else [0#32, 1#32]).foldl
      (fun d mode => act d ((v.cell v.front.toNat).setWidth 32 <<< 10) mode) v.device
    else v.device := by
  unfold View.take
  by_cases may : v.readOnly = 0#32
  · simp only [if_pos may, View.eraseBlock]
  · simp only [if_neg may]

/-- What comes out is the first block. -/
theorem Holds.take (h : v.Holds (x :: l)) : v.cell v.front.toNat = x ∧ (v.take act).Holds l := by
  obtain ⟨first, rest⟩ := h.ring.pop h.front
  refine ⟨first, ?_⟩
  have count := h.count
  have front := h.front
  have tail := h.tail
  rw [List.length_cons] at count tail
  have next : ((v.front + 1#16) % 1024#16).toNat = (v.front.toNat + 1) % 1024 := by
    simp only [BitVec.toNat_umod, BitVec.toNat_add, BitVec.toNat_ofNat, Nat.reducePow,
      Nat.reduceMod]
    omega
  have popped : View.Holds
      { v with count := v.count - 1#16, front := (v.front + 1#16) % 1024#16 } l := by
    refine ⟨next ▸ rest, ?_, ?_, ?_, fun y hy => h.blocks y (List.mem_cons_of_mem _ hy)⟩
    · show (v.count - 1#16).toNat = l.length
      bv_omega
    · rw [next]
      omega
    · show v.tail.toNat = (((v.front + 1#16) % 1024#16).toNat + l.length) % 1024
      rw [next]
      omega
  by_cases may : v.readOnly = 0#32
  · simp only [View.take, if_pos may]
    exact popped.eraseBlock _ _
  · simp only [View.take, if_neg may]
    exact popped

end View

/-! ## Runs -/

namespace SysQueue

variable {k : Link} {o : Outside} {D : Type} {Q : SysQueue k o D} {m m' : ByteMemory} {s t : State}
  {l : List (BitVec 16)} {x : BitVec 16}

/-- The memory holds the queue, and the request and the erase counts are in their places. -/
structure Good (Q : SysQueue k o D) (m : ByteMemory) (l : List (BitVec 16)) : Prop where
  located : Q.Located (Q.view m)
  holds : (Q.view m).Holds l

theorem Good.placed (good : Q.Good m l) : Q.Placed (Q.view m) :=
  ⟨good.located, good.holds.front, good.holds.tail_lt⟩

/-- What the rest of the FTL leaves alone between two calls: the queue and the places.  It may erase
blocks, and it may set or clear the flag against erasing. -/
structure Quiet (Q : SysQueue k o D) (m m' : ByteMemory) : Prop where
  planes : (Q.view m').planes = (Q.view m).planes
  blocks : (Q.view m').blocks = (Q.view m).blocks
  request : (Q.view m').request = (Q.view m).request
  erase : (Q.view m').erase = (Q.view m).erase
  front : (Q.view m').front = (Q.view m).front
  tail : (Q.view m').tail = (Q.view m).tail
  count : (Q.view m').count = (Q.view m).count
  cell : (Q.view m').cell = (Q.view m).cell

/-- The state `s` is at a call, after the memory was `m`. -/
structure At (Q : SysQueue k o D) (m : ByteMemory) (s : State) : Prop where
  quiet : Q.Quiet m s.mem
  ready : Q.ready (Q.device s.mem)
  room : Q.Room (s.reg sp) (o.depth + 40)

theorem Good.at_call (good : Q.Good m l) (entry : Q.At m s) : Q.Good s.mem l where
  located := good.located.congr entry.quiet.request entry.quiet.erase entry.quiet.planes
    entry.quiet.blocks entry.ready
  holds := good.holds.congr entry.quiet.front entry.quiet.tail entry.quiet.count entry.quiet.cell

/-- What has been accepted and what has been given out, beside the memory. -/
structure Track where
  mem : ByteMemory
  accepted : List (BitVec 16)
  given : List (BitVec 16)

/-- `FtlFreeSysBlkQueueIn` takes the block `x`. -/
def Accepts (v : View D) (x : BitVec 16) : Prop := ¬ (View.NoBlock x ∨ v.count = 1024#16)

instance (v : View D) (x : BitVec 16) : Decidable (Accepts v x) := inferInstanceAs (Decidable (¬ _))

/-- One call of one of the two functions. -/
inductive Step (Q : SysQueue k o D) : Track → Track → Prop
  | put {c : Track} {s t : State} {x : BitVec 16} (entry : Q.At c.mem s)
      (arg : s.reg r0 = x.setWidth 32) (back : Returns k.image .ftlFreeSysBlkQueueIn s t) :
      Step Q c ⟨t.mem, if Accepts (Q.view s.mem) x then c.accepted ++ [x] else c.accepted, c.given⟩
  | take {c : Track} {s t : State} (entry : Q.At c.mem s) (some_left : (Q.view c.mem).count ≠ 0#16)
      (back : Returns k.image .ftlFreeSysBlkQueueOut s t) :
      Step Q c ⟨t.mem, c.accepted, c.given ++ [(t.reg r0).setWidth 16]⟩

theorem Good.of_view {l' : List (BitVec 16)} (good : Q.Good m l)
    (kept : (Q.view m').request = (Q.view m).request ∧ (Q.view m').erase = (Q.view m).erase ∧
      (Q.view m').planes = (Q.view m).planes ∧ (Q.view m').blocks = (Q.view m).blocks)
    (ready : Q.ready (Q.view m').device) (holds : (Q.view m').Holds l') : Q.Good m' l' := by
  obtain ⟨request, erase, planes, blocks⟩ := kept
  exact ⟨good.located.congr request erase planes blocks ready, holds⟩

theorem ready_put {v : View D} {erase : Bool} (ready : Q.ready v.device) :
    Q.ready (v.put Q.act x erase).device := by
  rw [View.put_device]
  split_ifs
  · exact Q.ready_act _ _ _ ready
  · exact ready

theorem ready_take {v : View D} (ready : Q.ready v.device) : Q.ready (v.take Q.act).device := by
  rw [View.take_device]
  split_ifs
  · exact Q.ready_act _ _ _ ready
  · exact Q.ready_act _ _ _ (Q.ready_act _ _ _ ready)
  · exact ready

/-- The call of `FtlFreeSysBlkQueueIn` comes back: the block is at the end of the queue if it is
accepted, and it has been erased if that was asked for and allowed. -/
theorem good_put (div : k.Divides o) (erases : Q.Erases) (good : Q.Good m l) (entry : Q.At m s)
    (arg : s.reg r0 = x.setWidth 32) : Calls k.image .ftlFreeSysBlkQueueIn s fun t =>
      Q.Good t.mem (if Accepts (Q.view s.mem) x then l ++ [x] else l) ∧
        Q.device t.mem =
          if Accepts (Q.view s.mem) x ∧ s.reg r1 ≠ 0#32 ∧ (Q.view s.mem).readOnly = 0#32
          then Q.act (Q.device s.mem) (x.setWidth 32 <<< 10) 1#32 else Q.device s.mem := by
  have good := good.at_call entry
  refine (ftlFreeSysBlkQueueIn_calls div erases good.placed arg entry.room).mono fun t done => ?_
  obtain ⟨-, view⟩ := done
  constructor
  · refine good.of_view (view ▸ View.put_kept) (view ▸ ready_put good.located.ready) ?_
    rw [view]
    simpa only [Accepts, good.holds.count_eq_iff, ite_not] using good.holds.put
  · refine (congrArg View.device view).trans (View.put_device.trans ?_)
    exact if_congr (by simp only [Accepts, decide_eq_true_eq]) rfl rfl

/-- The call of `FtlFreeSysBlkQueueOut` on a queue with a block comes back with the first one, which
has been erased if that is allowed. -/
theorem good_take (div : k.Divides o) (erases : Q.Erases) (good : Q.Good m (x :: l))
    (entry : Q.At m s) : Calls k.image .ftlFreeSysBlkQueueOut s fun t =>
      t.reg r0 = x.setWidth 32 ∧ Q.Good t.mem l ∧
        Q.device t.mem = if (Q.view s.mem).readOnly = 0#32 then
          (if (Q.view s.mem).slcMode = 0#8 then [1#32] else [0#32, 1#32]).foldl
            (fun d mode => Q.act d (x.setWidth 32 <<< 10) mode) (Q.device s.mem)
          else Q.device s.mem := by
  have good := good.at_call entry
  obtain ⟨first, rest⟩ := good.holds.take
  have some_left : (Q.view s.mem).count ≠ 0#16 := by
    have := good.holds.count
    rw [List.length_cons] at this
    bv_omega
  have block : ¬ View.NoBlock ((Q.view s.mem).cell (Q.view s.mem).front.toNat) := by
    rw [first]
    exact good.holds.blocks x (by simp)
  refine (ftlFreeSysBlkQueueOut_calls div erases good.placed some_left block entry.room).mono
    fun t done => ?_
  obtain ⟨-, answer, view⟩ := done
  rw [first] at answer
  refine ⟨answer, good.of_view (view ▸ View.take_kept) (view ▸ ready_take good.located.ready)
    (view ▸ rest), ?_⟩
  refine (congrArg View.device view).trans ?_
  rw [View.take_device, first]
  rfl

/-! ### The empty queue -/

/-- On an empty queue `FtlFreeSysBlkQueueOut` prints and goes on forever. -/
theorem ftlFreeSysBlkQueueOut_empty (empty : (Q.view s.mem).count = 0#16)
    (room : Q.Room (s.reg sp) (o.depth + 40)) (t : State) :
    ¬ Returns k.image .ftlFreeSysBlkQueueOut s t := by
  intro back
  have called : Calls k.image .ftlFreeSysBlkQueueOut s fun _ => True := ⟨t, back, trivial⟩
  have at1888 := congrArg (after 1888) (Link.ftlFreeSysBlkQueueOut.eq_1 k)
  have at1889 := congrArg (after 1889) (Link.ftlFreeSysBlkQueueOut.eq_1 k)
  have := o.depth_le
  set m₁ := s.mem.storeWords (s.reg sp - 32#32) 0 [s.reg r4, s.reg r5, s.reg r6, s.reg r7, s.reg r8,
    s.reg r9, s.reg r10, s.reg lr] with hm₁
  have frame₁ : Frame [(s.reg sp - 32#32, 32)] s.mem m₁ :=
    frame_storeWords (by omega) (by simp) .refl
  have room₁ : Q.Room (s.reg sp) 32 := by
    simpa using room.sub (i := 32) (j := 0) (by omega) (by omega) (by omega)
  have count₁ : m₁.ld16 (k.anchor + Var.queueCount) = 0#16 :=
    (congrArg View.count (view_of_stack room₁ frame₁)).trans empty
  rw [calls_listing rfl (Link.ftlFreeSysBlkQueueOut.eq_1 k)] at called
  simp [← hm₁] at called
  replace called := (wp_label rfl).1 called
  rw [at1888] at called
  simp [after, count₁] at called
  rw [at1889] at called
  simp [after] at called
  obtain ⟨u, -, ends⟩ := called
  exact not_wp_loop rfl ((wp_label rfl).1 ends)

/-! ### Any sequence of calls -/

/-- The queue is what has been accepted and not yet been given out. -/
def Tracked (Q : SysQueue k o D) (c : Track) : Prop :=
  ∃ l, c.accepted = c.given ++ l ∧ Q.Good c.mem l

theorem Good.exists_cons (good : Q.Good m l) (some_left : (Q.view m).count ≠ 0#16) :
    ∃ x rest, l = x :: rest := by
  refine List.exists_cons_of_ne_nil fun nil => some_left ?_
  have := good.holds.count
  rw [nil, List.length_nil] at this
  bv_omega

theorem tracked_step (div : k.Divides o) (erases : Q.Erases) {c d : Track} (step : Q.Step c d)
    (tracked : Q.Tracked c) : Q.Tracked d := by
  obtain ⟨l, order, good⟩ := tracked
  cases step with
  | @put s t x entry arg back =>
    obtain ⟨after, -⟩ := (good_put div erases good entry arg).of_returns back
    refine ⟨_, ?_, after⟩
    by_cases taken : Accepts (Q.view s.mem) x
    · simp only [if_pos taken, order, List.append_assoc]
    · simp only [if_neg taken, order]
  | @take s t entry some_left back =>
    obtain ⟨x, rest, rfl⟩ := good.exists_cons some_left
    obtain ⟨answer, after, -⟩ := (good_take div erases good entry).of_returns back
    refine ⟨rest, ?_, after⟩
    have same : (t.reg r0).setWidth 16 = x := by
      rw [answer]
      bv_omega
    simp only [order, same, List.append_assoc, List.singleton_append]

/-- What the functions do when the queue holds `l`. -/
structure Serves (Q : SysQueue k o D) (c : Track) (l : List (BitVec 16)) : Prop where
  isEmpty : ∀ s, Q.At c.mem s → Calls k.image .ftlFreeSysBlkQueueEmpty s fun t =>
    t.mem = s.mem ∧ t.reg r0 = if l = [] then 1#32 else 0#32
  isFull : ∀ s, Q.At c.mem s → Calls k.image .ftlFreeSysBlkQueueFull s fun t =>
    t.mem = s.mem ∧ t.reg r0 = if l.length = 1024 then 1#32 else 0#32
  /-- a block that goes in is erased if that is asked for and allowed, and no other is -/
  put : ∀ s x, Q.At c.mem s → s.reg r0 = x.setWidth 32 →
    Calls k.image .ftlFreeSysBlkQueueIn s fun t =>
      Q.Step c ⟨t.mem, if View.NoBlock x ∨ l.length = 1024 then c.accepted else c.accepted ++ [x],
        c.given⟩ ∧
      Q.device t.mem =
        if ¬ (View.NoBlock x ∨ l.length = 1024) ∧ s.reg r1 ≠ 0#32 ∧ (Q.view s.mem).readOnly = 0#32
        then Q.act (Q.device s.mem) (x.setWidth 32 <<< 10) 1#32 else Q.device s.mem
  /-- the first block comes out, after it and no other has been erased if that is allowed -/
  take : ∀ s x rest, Q.At c.mem s → l = x :: rest →
    Calls k.image .ftlFreeSysBlkQueueOut s fun t => t.reg r0 = x.setWidth 32 ∧
      Q.Step c ⟨t.mem, c.accepted, c.given ++ [x]⟩ ∧
      Q.device t.mem = if (Q.view s.mem).readOnly = 0#32 then
        (if (Q.view s.mem).slcMode = 0#8 then [1#32] else [0#32, 1#32]).foldl
          (fun d mode => Q.act d (x.setWidth 32 <<< 10) mode) (Q.device s.mem)
        else Q.device s.mem
  /-- from an empty queue nothing comes out, ever -/
  hangs : ∀ s, Q.At c.mem s → l = [] → ∀ t, ¬ Returns k.image .ftlFreeSysBlkQueueOut s t

theorem Good.empty_iff (good : Q.Good m l) : (Q.view m).count = 0#16 ↔ l = [] := by
  have := good.holds.count
  rw [← List.length_eq_zero_iff, ← this]
  bv_omega

theorem serves_of_good (div : k.Divides o) (erases : Q.Erases) {c : Track} (good : Q.Good c.mem l) :
    Q.Serves c l where
  isEmpty s entry := by
    refine (ftlFreeSysBlkQueueEmpty_calls (Q := Q)).mono fun t told => ⟨told.1, told.2.trans ?_⟩
    exact if_congr (good.at_call entry).empty_iff rfl rfl
  isFull s entry := by
    refine (ftlFreeSysBlkQueueFull_calls (Q := Q)).mono fun t told => ⟨told.1, told.2.trans ?_⟩
    exact if_congr (good.at_call entry).holds.count_eq_iff rfl rfl
  put s x entry arg := by
    have full := (good.at_call entry).holds.count_eq_iff
    obtain ⟨t, back, -, device⟩ := good_put div erases good entry arg
    refine ⟨t, back, ?_, device.trans (if_congr (by simp only [Accepts, full]) rfl rfl)⟩
    have step := Step.put entry arg back
    simpa only [Accepts, full, ite_not] using step
  take s x rest entry eq := by
    subst eq
    obtain ⟨t, back, answer, -, device⟩ := good_take div erases good entry
    have some_left : (Q.view c.mem).count ≠ 0#16 := mt good.empty_iff.1 (by simp)
    have same : (t.reg r0).setWidth 16 = x := by
      rw [answer]
      bv_omega
    exact ⟨t, back, answer, same ▸ .take entry some_left back, device⟩
  hangs s entry eq := by
    have empty := (good.at_call entry).empty_iff.2 eq
    exact ftlFreeSysBlkQueueOut_empty empty entry.room

theorem good_init (fills : Fills k o) (located : Q.Located (Q.view s.mem))
    (room : Q.Room (s.reg sp) (o.depth + 40)) :
    Calls k.image .ftlFreeSysBlkQueueInit s fun t => Q.Good t.mem [] := by
  refine (ftlFreeSysBlkQueueInit_calls fills room).mono fun t done => ?_
  obtain ⟨-, view⟩ := done
  refine ⟨?_, ?_⟩
  · rw [view]
    exact located.congr rfl rfl rfl rfl located.ready
  · rw [view]
    exact ⟨Ring.holds_nil, rfl, Nat.zero_lt_succ _, rfl, by simp⟩

/-- From `FtlFreeSysBlkQueueInit` on, after any sequence of calls: the blocks have come out in the
order in which they were accepted, none lost and none twice, and the queue holds the others.  Every
further call does what it should to that queue; only from an empty one `FtlFreeSysBlkQueueOut` does
not come back. -/
theorem sysQueue_reachable (div : k.Divides o) (erases : Q.Erases) (fills : Fills k o)
    {s₀ t₀ : State}
    (located : Q.Located (Q.view s₀.mem)) (room : Q.Room (s₀.reg sp) (o.depth + 40))
    (init : Returns k.image .ftlFreeSysBlkQueueInit s₀ t₀) {c : Track}
    (run : Relation.ReflTransGen Q.Step ⟨t₀.mem, [], []⟩ c) :
    ∃ l, c.accepted = c.given ++ l ∧ l.length ≤ 1024 ∧ Q.Serves c l := by
  have start : Q.Good t₀.mem [] := (good_init fills located room).of_returns init
  obtain ⟨l, order, good⟩ := Transition.reflTransGen_invariant
    (fun _ _ step tracked => tracked_step div erases step tracked) run
    (⟨[], rfl, start⟩ : Q.Tracked _)
  exact ⟨l, order, good.holds.ring.length_le, serves_of_good div erases good⟩

/-! ## A flash with a byte for each block -/

section Sample

/-- The byte of a block. -/
def blockByte (x : BitVec 16) : BitVec 32 := 0x100000#32 + x.setWidth 32

/-- A blob whose `FlashEraseBlocks` sets the byte of the block, and the status and the mode. -/
def erasing : Link where
  anchor := 0x20000#32
  text _ := 0
  loc _ _ := 0
  host
    | .flashEraseBlocks, s => some { s with
        mem := ((s.mem.st8 (blockByte ((s.mem.ld32 (s.reg r0 + 4#32) >>> 10).setWidth 16))
          0xFF#8).st8 (0x20000#32 + Var.gFlashCurMode) 0#8).st32 (s.reg r0) 0#32 }
    | f, s => dividing.host f s

def erasingOutside : Outside := ⟨[(0x100000#32, 65536)], 96, by decide, by decide⟩

theorem blockByte_within (x : BitVec 16) : (blockByte x - 0x100000#32).toNat + 1 ≤ 65536 := by
  rw [blockByte, add_sub_cancel_left, BitVec.toNat_setWidth]
  omega

theorem blockByte_injective {x y : BitVec 16} (same : blockByte x = blockByte y) : x = y := by
  have := add_left_cancel same
  bv_omega

def erasingQueue : SysQueue erasing erasingOutside (BitVec 16 → BitVec 8) where
  request := 0x40000#32
  erase := 0x50000#32
  size := 1024
  device m x := m (blockByte x)
  ready _ := True
  act d a _ := Function.update d ((a >>> 10).setWidth 16) 0xFF#8
  ready_act _ _ _ h := h
  size_pos := by decide
  size_lt := by decide
  request_data := by decide
  erase_data := by decide
  request_erase := by decide
  own_pos := by decide
  own_vars := by decide
  own_erase := by decide
  own_request := by decide
  device_of_frame {m m' rs} frame apart := by
    funext x
    refine frame _ fun r hr => ?_
    have within := blockByte_within x
    obtain ⟨near, far⟩ := apart r hr (0x100000#32, 65536) (by simp [erasingOutside])
    simp only at far near
    bv_omega

theorem erasing_divides : erasing.Divides erasingOutside where
  uidiv := (dividing_divides (by decide)).uidiv
  uidivmod := (dividing_divides (by decide)).uidivmod

/-- The status and the mode are no part of the flash. -/
theorem erasing_status {m : ByteMemory} :
    erasingQueue.device ((m.st8 (0x20000#32 + Var.gFlashCurMode) 0#8).st32 0x40000#32 0#32) =
      erasingQueue.device m := by
  rw [device_st32 _ (by decide)]
  have mode : Frame [(0x20000#32 + Var.gFlashCurMode, 1)] m
      (m.st8 (0x20000#32 + Var.gFlashCurMode) 0#8) :=
    .st8 .refl (List.mem_singleton_self _) (by simp)
  exact erasingQueue.device_of_frame mode (by decide)

theorem erasing_erases : erasingQueue.Erases := by
  intro s request _ _ _
  have request : s.reg r0 = 0x40000#32 := request
  refine ⟨_, rfl, fun _ _ => rfl, ?_, ?_⟩
  all_goals simp only [request]
  · refine Frame.st32 (r := (0x40000#32, 4)) ?_ (by simp [erased, erasingQueue]) (by simp) (by simp)
    refine Frame.st8 (r := (0x20000#32 + Var.gFlashCurMode, 1)) ?_ ?_ (by simp)
    · refine Frame.st8 (r := (0x100000#32, 65536)) .refl ?_ (blockByte_within _)
      simp [erased, Outside.ranges, erasingOutside]
    · simp [erased, erasing]
  · refine erasing_status.trans (funext fun x => ?_)
    simp only [erasingQueue, Function.update_apply, ByteMemory.st8]
    exact if_congr ⟨blockByte_injective, fun same => same ▸ rfl⟩ rfl rfl

/-- The memory with the geometry and the places. -/
def unset : ByteMemory :=
  (((ByteMemory.st16 (fun _ => 0) (0x20000#32 + Var.planesPerDie) 4#16).st16
    (0x20000#32 + Var.blksPerDie) 4096#16).st32
    (0x20000#32 + Var.reqErase) 0x40000#32).st32 (0x20000#32 + Var.eraseCountTable) 0x50000#32

theorem erasing_fills : Fills erasing erasingOutside :=
  fun s _ => ⟨s, rfl, fun _ _ => rfl, .refl⟩

/-- A state at a call with the argument `x`. -/
def callWith (x : BitVec 32) (m : ByteMemory) : State where
  reg r := if r = r0 then x else if r = sp then 0x8000#32 else 0#32
  flags := ⟨false, false, false, false⟩
  mem := m

theorem callWith_room (x : BitVec 32) (m : ByteMemory) :
    erasingQueue.Room ((callWith x m).reg sp) (erasingOutside.depth + 40) := by
  have here : (callWith x m).reg sp = 0x8000#32 := rfl
  rw [here]
  exact ⟨by decide, by decide, by decide, by decide, by decide⟩

theorem callWith_at (x : BitVec 32) (m : ByteMemory) : erasingQueue.At m (callWith x m) :=
  ⟨⟨rfl, rfl, rfl, rfl, rfl, rfl, rfl, rfl⟩, trivial, callWith_room x m⟩

theorem unset_located : erasingQueue.Located (erasingQueue.view (callWith 0 unset).mem) :=
  ⟨by decide, by decide, by decide, by decide, by decide, trivial⟩

/-- After block 5 has been put in, the next call gives it out, erased. -/
theorem sysQueue_reachable_five : ∃ c : Track, c.accepted = [5#16] ∧ c.given = [] ∧
    ∀ s, erasingQueue.At c.mem s → (erasingQueue.view s.mem).readOnly = 0#32 →
      Calls erasing.image .ftlFreeSysBlkQueueOut s fun t =>
        t.reg r0 = 5#32 ∧ erasingQueue.device t.mem 5#16 = 0xFF#8 := by
  obtain ⟨t₀, init, empty⟩ := good_init erasing_fills unset_located (callWith_room _ _)
  obtain ⟨t, back, step, -⟩ := (serves_of_good (c := ⟨t₀.mem, [], []⟩) erasing_divides
    erasing_erases empty).put (callWith 5#32 t₀.mem) 5#16 (callWith_at _ _) rfl
  rw [if_neg (by decide)] at step
  obtain ⟨l, order, -, serves⟩ := sysQueue_reachable erasing_divides erasing_erases erasing_fills
    unset_located (callWith_room _ _) init (.single step)
  refine ⟨_, rfl, rfl, fun s entry may =>
    (serves.take s 5#16 [] entry order.symm).mono fun u done => ?_⟩
  obtain ⟨answer, -, device⟩ := done
  refine ⟨answer, ?_⟩
  rw [device, if_pos may]
  have here : (((5#16).setWidth 32 <<< 10) >>> 10).setWidth 16 = 5#16 := by decide
  split_ifs <;>
    simp only [List.foldl_cons, List.foldl_nil, erasingQueue, here, Function.update_self]

end Sample

end SysQueue

end RkNand.Blob
