import RkNand.Blob.ListRemove
import RkNand.Lib.Transition

/-!
# Runs of the free list

The free list over any sequence of `INSERT_FREE_LIST`, `List_pop_index_node` and `List_remove_node`
in which only superblocks off the list are put in and only listed ones are removed (`Op.Allowed`):
the memory always holds a list without repetitions that is sorted by erase count, and every call
comes back, with the answer and the list of the abstract operation.  Between two calls the rest of
the FTL may do what it likes, apart from the links of the listed superblocks and their erase counts
(`Quiet`).
-/

namespace RkNand.Blob

open Arm Arm.Reg ByteMemory LinkedList

namespace Tables

variable {k : Link} {T : Tables k}

/-! ## `INSERT_FREE_LIST` -/

section Counted

variable {s : State} {l : List (BitVec 16)} {x : BitVec 16} {m m' : ByteMemory}

/-- What `INSERT_FREE_LIST` may write: the nodes, the head and the number of entries. -/
def counted (T : Tables k) : List (BitVec 32 × ℕ) :=
  (k.anchor + Var.numFreeSuperblocks, 2) :: T.links Var.freeListHead

theorem links_subset_counted {r : BitVec 32 × ℕ} :
    r :: T.links Var.freeListHead ⊆ r :: T.counted :=
  List.cons_subset_cons _ (List.subset_cons_self ..)

theorem Room.sub_zero {sp : BitVec 32} {n i : ℕ} (room : T.Room sp n) (hi : 0 < i) (le : i ≤ n)
    (fits : n < 2 ^ 32) : T.Room sp i := by
  simpa using room.sub (j := 0) hi (by omega) fits

theorem count_within : (k.anchor + Var.numFreeSuperblocks - k.data.1).toNat + 2 ≤ k.data.2 :=
  Link.anchor_within (by decide)

/-- The number of entries is apart from the list. -/
theorem Holds.st16_count (H : T.Holds Var.freeListHead m l) (v : BitVec 16) :
    T.Holds Var.freeListHead (m.st16 (k.anchor + Var.numFreeSuperblocks) v) l := by
  have word {c : BitVec 32} (apart : Apart Var.numFreeSuperblocks 2 c 4) :
      (m.st16 (k.anchor + Var.numFreeSuperblocks) v).ld32 (k.anchor + c) = m.ld32 (k.anchor + c) :=
    ld32_st16_apart _ (by simpa using apart)
  have links {i : BitVec 16} (hi : i.toNat < T.size) :
      T.next (m.st16 (k.anchor + Var.numFreeSuperblocks) v) i = T.next m i ∧
        T.prev (m.st16 (k.anchor + Var.numFreeSuperblocks) v) i = T.prev m i := by
    have within := node_within hi
    have apart := T.nodes_data.symm
    constructor <;> refine congrArg half (ld16_st16_apart _ ?_)
    · exact apart.mono (by omega) (by omega) count_within (by omega)
    · exact apart.mono (by omega) (by omega) count_within (by bv_omega)
  exact ⟨(word (by decide)).trans H.nodes, (word (by decide)).trans H.erase, H.small, H.nodup,
    (word (by decide)).trans H.first, H.linked.congr (fun i hi => (links (H.small i hi)).1)
      fun i hi => (links (H.small i hi)).2⟩

/-- `INSERT_FREE_LIST` inserts and counts. -/
theorem insertFreeListCounted_calls (arg : s.reg r0 = x.setWidth 32) (hx : x.toNat < T.size)
    (H : T.Holds Var.freeListHead s.mem l) (fresh : x ∉ l) (room : T.Room (s.reg sp) 40) :
    Calls k.image .insertFreeListCounted s fun t => Saved s t ∧
      Frame ((s.reg sp - 40#32, 40) :: T.counted) s.mem t.mem ∧
      T.Holds Var.freeListHead t.mem (l.orderedInsert (T.lessWorn s.mem) x) := by
  set m₁ := s.mem.storeWords (s.reg sp - 8#32) 0 [s.reg r4, s.reg lr] with hm₁
  have frame₁ : Frame [(s.reg sp - 8#32, 8)] s.mem m₁ :=
    frame_storeWords (by omega) (by simp) .refl
  have pushed₁ : Pushed s [r4, lr] m₁ := pushed_storeWords s (by simp) _
  have room₁ : T.Room (s.reg sp) 8 := room.sub_zero (by omega) (by omega) (by omega)
  have H₁ : T.Holds Var.freeListHead m₁ l := H.of_stack (by omega) room₁ isHead_freeListHead frame₁
  have worn : ∀ z, z.toNat < T.size → T.eraseCount m₁ z = T.eraseCount s.mem z :=
    fun z hz => eraseCount_of_stack (by omega) room₁ frame₁ hz
  rw [calls_listing rfl (Link.insertFreeListCounted.eq_1 k)]
  simp [← hm₁]
  refine (insertFreeList_calls (T := T) (x := x) (l := l) (by simpa) hx H₁ fresh ?_).mono
    fun u inserted => ?_
  · simpa using room.sub (i := 32) (j := 8) (by omega) (by omega) (by omega)
  · obtain ⟨saved, frame, holds⟩ := inserted
    have same : l.orderedInsert (T.lessWorn m₁) x = l.orderedInsert (T.lessWorn s.mem) x :=
      orderedInsert_congr fun y hy => by rw [lessWorn, lessWorn, worn x hx, worn y (H.small y hy)]
    have frame : Frame ((s.reg sp - 8#32 - 32#32, 32) :: T.links Var.freeListHead) m₁ u.mem := by
      simpa using frame
    have holds : T.Holds Var.freeListHead u.mem (l.orderedInsert (T.lessWorn s.mem) x) :=
      same ▸ holds
    have usp : u.reg sp = s.reg sp - 8#32 := by simpa using saved sp (by simp [calleeSaved])
    have pushed : Pushed s [r4, lr] u.mem :=
      pushed_of_call (i := 32) (by omega) room₁ isHead_freeListHead (by simp) (by simp) pushed₁
        frame
    have whole : Frame ((s.reg sp - 40#32, 40) :: T.counted) s.mem u.mem :=
      (frame₁.grow frame (n := 40) (by omega) (by omega)).subset links_subset_counted
    have store (v : BitVec 16) : Frame [(k.anchor + Var.numFreeSuperblocks, 2)] u.mem
        (u.mem.st16 (k.anchor + Var.numFreeSuperblocks) v) :=
      Frame.st16 .refl (List.mem_singleton_self _) (by simp) (by simp)
    refine wp_popPc s (pushed.of_frame (by simp) (store _) ?_) (by simpa using usp) ?_
      fun v hv back _ => ⟨rfl, back, ?_, ?_⟩
    · intro r hr
      obtain rfl := List.mem_singleton.1 hr
      exact ⟨by simp, room₁.data.symm.mono (by simp) (by simp) count_within (by simp)⟩
    · simp [Saved, calleeSaved] at saved ⊢
      simp [saved]
    · rw [hv]
      exact whole.st16 (r := (k.anchor + Var.numFreeSuperblocks, 2)) (by simp [counted]) (by simp)
        (by simp)
    · rw [hv]
      exact holds.st16_count _

end Counted

/-! ## The abstract operations -/

/-- A call of one of the three functions, with the list head of the free list. -/
inductive Op
  | insert (x : BitVec 16)
  | pop (n : BitVec 16)
  | remove (x : BitVec 16)

namespace Op

def symbol : Op → Symbol
  | .insert _ => .insertFreeListCounted
  | .pop _ => .listPopIndexNode
  | .remove _ => .listRemoveNode

/-- The arguments in registers. -/
def Args (k : Link) (s : State) : Op → Prop
  | .insert x => s.reg r0 = x.setWidth 32
  | .pop n => s.reg r0 = k.anchor + Var.freeListHead ∧ s.reg r1 = n.setWidth 32
  | .remove x => s.reg r0 = k.anchor + Var.freeListHead ∧ s.reg r1 = x.setWidth 32

/-- A superblock is put in when it is not in the list, and removed when it is. -/
def Allowed (size : ℕ) (l : List (BitVec 16)) : Op → Prop
  | .insert x => x.toNat < size ∧ x ∉ l
  | .pop _ => True
  | .remove x => x ∈ l

/-- The place `List_pop_index_node` takes from: the index, or the last entry. -/
def place (n : BitVec 16) (l : List (BitVec 16)) : ℕ := min n.toNat (l.length - 1)

/-- The list after the operation. -/
def apply (le : BitVec 16 → BitVec 16 → Prop) [DecidableRel le] (l : List (BitVec 16)) :
    Op → List (BitVec 16)
  | .insert x => l.orderedInsert le x
  | .pop n => l.eraseIdx (place n l)
  | .remove x => l.erase x

/-- The answer in the register `r0`; only `List_pop_index_node` has one. -/
def Answers (l : List (BitVec 16)) (t : State) : Op → Prop
  | .pop n => t.reg r0 = (l[place n l]?.getD 65535#16).setWidth 32
  | _ => True

end Op

/-! ## Steps -/

section Steps

variable {m : ByteMemory} {l : List (BitVec 16)} {op : Op} {s t : State}

/-- What the rest of the FTL leaves alone: the head, the tables' places, and of the listed
superblocks the links and the erase counts. -/
structure Quiet (T : Tables k) (l : List (BitVec 16)) (m m' : ByteMemory) : Prop where
  head : m'.ld32 (k.anchor + Var.freeListHead) = m.ld32 (k.anchor + Var.freeListHead)
  nodes : m'.ld32 (k.anchor + Var.dataBlockListTable) = m.ld32 (k.anchor + Var.dataBlockListTable)
  erase : m'.ld32 (k.anchor + Var.eraseCountTable) = m.ld32 (k.anchor + Var.eraseCountTable)
  next : ∀ i ∈ l, T.next m' i = T.next m i
  prev : ∀ i ∈ l, T.prev m' i = T.prev m i
  worn : ∀ i ∈ l, T.eraseCount m' i = T.eraseCount m i

/-- The state `s` is at an allowed call of `op`, after the memory was `m` and held `l`. -/
structure At (T : Tables k) (op : Op) (m : ByteMemory) (l : List (BitVec 16)) (s : State) :
    Prop where
  quiet : T.Quiet l m s.mem
  args : op.Args k s
  allowed : op.Allowed T.size l
  room : T.Room (s.reg sp) 40

/-- A memory holds a sorted free list. -/
structure Good (T : Tables k) (m : ByteMemory) (l : List (BitVec 16)) : Prop where
  holds : T.Holds Var.freeListHead m l
  sorted : l.Pairwise (T.lessWorn m)

/-- One call, and the abstract operation beside it. -/
inductive Step (T : Tables k) :
    ByteMemory × List (BitVec 16) → ByteMemory × List (BitVec 16) → Prop
  | call {op : Op} {m : ByteMemory} {l : List (BitVec 16)} {s t : State} (entry : T.At op m l s)
      (back : Returns k.image op.symbol s t) :
      Step T (m, l) (t.mem, op.apply (T.lessWorn s.mem) l)

theorem Good.quiet (good : T.Good m l) (quiet : T.Quiet l m s.mem) : T.Good s.mem l where
  holds := ⟨quiet.nodes.trans good.holds.nodes, quiet.erase.trans good.holds.erase,
    good.holds.small, good.holds.nodup, quiet.head.trans good.holds.first,
    good.holds.linked.congr quiet.next quiet.prev⟩
  sorted := good.sorted.imp_of_mem fun {x y} hx hy le => by
    rwa [lessWorn, quiet.worn x hx, quiet.worn y hy]

/-- The erase counts are apart from all that the calls write. -/
theorem eraseCount_of_call {n : ℕ} (hn : 0 < n) (le : n ≤ 40) (room : T.Room (s.reg sp) 40)
    {m' : ByteMemory} (frame : Frame ((s.reg sp - BitVec.ofNat 32 n, n) :: T.counted) s.mem m')
    {i : BitVec 16} (hi : i.toNat < T.size) : T.eraseCount m' i = T.eraseCount s.mem i := by
  have := T.size_pos
  have data : ∀ {a : BitVec 32} {j : ℕ}, 0 < j → (a - k.data.1).toNat + j ≤ k.data.2 →
      Apart a j (T.erase + i.setWidth 32 <<< 1) 2 := fun hj within =>
    T.erase_data.symm.mono hj (by omega) within (erase_within hi)
  refine frame.ld16 fun r hr => ?_
  simp only [counted, links, List.mem_cons, List.not_mem_nil, or_false] at hr
  rcases hr with rfl | rfl | rfl | rfl
  · exact (room.sub_zero hn le (by omega)).erase.mono hn (by omega) (by simp) (erase_within hi)
  · exact data (by omega) count_within
  · exact T.nodes_erase.mono (by omega) (by omega) (by simp) (erase_within hi)
  · exact data (by omega) (Link.anchor_within isHead_freeListHead.inside)

theorem lessWorn_total (m : ByteMemory) : Std.Total (T.lessWorn m) :=
  ⟨fun x y => BitVec.le_total (T.eraseCount m x) (T.eraseCount m y)⟩

theorem lessWorn_trans (m : ByteMemory) : IsTrans (BitVec 16) (T.lessWorn m) :=
  ⟨fun _ _ _ => BitVec.le_trans⟩

/-- The abstract operations keep the list sorted. -/
theorem sorted_apply (sorted : l.Pairwise (T.lessWorn m)) :
    (op.apply (T.lessWorn m) l).Pairwise (T.lessWorn m) := by
  have := lessWorn_total (T := T) m
  have := lessWorn_trans (T := T) m
  cases op with
  | insert x => exact List.Pairwise.orderedInsert x l sorted
  | pop n => exact sorted.sublist (List.eraseIdx_sublist ..)
  | remove x => exact sorted.sublist List.erase_sublist

/-- Every allowed call comes back, with the answer and the list of the abstract operation. -/
theorem good_call (good : T.Good m l) (entry : T.At op m l s) :
    Calls k.image op.symbol s fun t =>
      op.Answers l t ∧ T.Good t.mem (op.apply (T.lessWorn s.mem) l) := by
  obtain ⟨holds, sorted⟩ := good.quiet entry.quiet
  have finish {n : ℕ} (hn : 0 < n) (le : n ≤ 40) {t : State}
      (frame : Frame ((s.reg sp - BitVec.ofNat 32 n, n) :: T.counted) s.mem t.mem)
      (left : T.Holds Var.freeListHead t.mem (op.apply (T.lessWorn s.mem) l)) :
      T.Good t.mem (op.apply (T.lessWorn s.mem) l) := by
    refine ⟨left, (sorted_apply sorted).imp_of_mem fun {x y} hx hy worn => ?_⟩
    rwa [lessWorn, eraseCount_of_call hn le entry.room frame (left.small x hx),
      eraseCount_of_call hn le entry.room frame (left.small y hy)]
  have args := entry.args
  have allowed := entry.allowed
  cases op with
  | insert x =>
    refine (insertFreeListCounted_calls args allowed.1 holds allowed.2 entry.room).mono
      fun t inserted => ?_
    obtain ⟨_, frame, left⟩ := inserted
    exact ⟨trivial, finish (n := 40) (by omega) (by omega) frame left⟩
  | pop n =>
    refine (listPopIndexNode_calls isHead_freeListHead holds args.1 args.2
      (entry.room.sub_zero (by omega) (by omega) (by omega))).mono fun t popped => ?_
    obtain ⟨_, frame, out⟩ := popped
    have frame := frame.subset links_subset_counted
    rcases out with ⟨rfl, r0, left⟩ | ⟨a, y, b, rfl, place, r0, left⟩
    · exact ⟨by simpa [Op.Answers] using r0, finish (n := 20) (by omega) (by omega) frame left⟩
    · have at_y : Op.place n (a ++ y :: b) = a.length := place.symm
      refine ⟨by simp [Op.Answers, at_y, r0], finish (n := 20) (by omega) (by omega) frame ?_⟩
      simpa [Op.apply, at_y, List.eraseIdx_append_of_length_le] using left
  | remove x =>
    obtain ⟨a, b, rfl⟩ := List.append_of_mem allowed
    have hx : x ∉ a := fun mem => (List.nodup_cons.1 (List.nodup_middle.1 holds.nodup)).1
      (List.mem_append_left _ mem)
    refine (listRemoveNode_calls isHead_freeListHead holds args.1 args.2
      (entry.room.sub_zero (by omega) (by omega) (by omega))).mono fun t removed => ?_
    obtain ⟨_, frame, left⟩ := removed
    have frame := frame.subset links_subset_counted
    refine ⟨trivial, finish (n := 12) (by omega) (by omega) frame ?_⟩
    rwa [Op.apply, List.erase_append_right _ hx, List.erase_cons_head]

theorem good_step {p q : ByteMemory × List (BitVec 16)} (step : T.Step p q)
    (good : T.Good p.1 p.2) : T.Good q.1 q.2 := by
  obtain ⟨entry, back⟩ := step
  exact ((good_call good entry).of_returns back).2

/-- From an empty free list on, after any sequence of allowed calls: the memory holds a sorted list
without repetitions, and every further allowed call comes back with the answer of the abstract
operation. -/
theorem freeList_reachable {m₀ : ByteMemory} (start : T.Holds Var.freeListHead m₀ [])
    (run : Relation.ReflTransGen T.Step (m₀, []) (m, l)) :
    T.Holds Var.freeListHead m l ∧ l.Pairwise (T.lessWorn m) ∧
      ∀ op s, T.At op m l s → Calls k.image op.symbol s fun t =>
        op.Answers l t ∧ T.Step (m, l) (t.mem, op.apply (T.lessWorn s.mem) l) := by
  have good : T.Good m l := Transition.reflTransGen_invariant (I := fun p => T.Good p.1 p.2)
    (fun _ _ step good => good_step step good) run ⟨start, .nil⟩
  refine ⟨good.holds, good.sorted, fun op s entry => ?_⟩
  obtain ⟨t, back, answer, _⟩ := good_call good entry
  exact ⟨t, back, answer, .call entry back⟩

end Steps

/-! ## A linked blob with four superblocks -/

def sampleLink : Link where
  anchor := 0x20000#32
  text _ := 0
  loc _ _ := 0
  host _ s := some s

def sampleTables : Tables sampleLink where
  nodes := 0x1000#32
  erase := 0x2000#32
  size := 4
  size_pos := by decide
  size_lt := by decide
  nodes_pos := by decide
  nodes_fit := by decide
  nodes_data := by decide
  erase_data := by decide
  nodes_erase := by decide

/-- The memory with the places of the tables and an empty free list.  Superblock 1 has been erased
3 times, superblock 2 7 times. -/
def sampleMemory : ByteMemory :=
  (((ByteMemory.st32 (fun _ => 0) (0x20000#32 + Var.dataBlockListTable) 0x1000#32).st32
    (0x20000#32 + Var.eraseCountTable) 0x2000#32).st16 0x2002#32 3#16).st16 0x2004#32 7#16

theorem sampleMemory_holds : sampleTables.Holds Var.freeListHead sampleMemory [] where
  nodes := by decide
  erase := by decide
  small := by simp
  nodup := by simp
  first := by decide
  linked := trivial

/-- A state at the call `INSERT_FREE_LIST(x)`. -/
def sampleCall (x : BitVec 16) (m : ByteMemory) : State where
  reg r := if r = r0 then x.setWidth 32 else if r = sp then 0x8000#32 else 0#32
  flags := ⟨false, false, false, false⟩
  mem := m

theorem sampleCall_room (x : BitVec 16) (m : ByteMemory) :
    sampleTables.Room ((sampleCall x m).reg sp) 40 := by
  have here : (sampleCall x m).reg sp = 0x8000#32 := rfl
  rw [here]
  exact ⟨by decide, by decide, by decide⟩

theorem sampleCall_at {x : BitVec 16} {m : ByteMemory} {l : List (BitVec 16)} (hx : x.toNat < 4)
    (fresh : x ∉ l) : sampleTables.At (.insert x) m l (sampleCall x m) where
  quiet := ⟨rfl, rfl, rfl, fun _ _ => rfl, fun _ _ => rfl, fun _ _ => rfl⟩
  args := rfl
  allowed := ⟨hx, fresh⟩
  room := sampleCall_room x m

/-- After superblock 2 and then the less worn 1 are put in, 1 is before 2, and every allowed call
comes back. -/
theorem freeList_reachable_two : ∃ m, sampleTables.Holds Var.freeListHead m [1#16, 2#16] ∧
    sampleTables.eraseCount m 1#16 < sampleTables.eraseCount m 2#16 ∧
    ∀ op s, sampleTables.At op m [1#16, 2#16] s → Calls sampleLink.image op.symbol s fun t =>
      op.Answers [1#16, 2#16] t := by
  have kept {x : BitVec 16} {m m' : ByteMemory}
      (frame : Frame (((sampleCall x m).reg sp - 40#32, 40) :: sampleTables.counted) m m')
      (i : BitVec 16) (hi : i.toNat < 4) :
      sampleTables.eraseCount m' i = sampleTables.eraseCount m i :=
    eraseCount_of_call (n := 40) (by omega) (by omega) (sampleCall_room x m) frame hi
  obtain ⟨t, back, -, frame, holds⟩ := insertFreeListCounted_calls (T := sampleTables)
    (s := sampleCall 2#16 sampleMemory) rfl (by decide) sampleMemory_holds (by simp)
    (sampleCall_room ..)
  have holds : sampleTables.Holds Var.freeListHead t.mem [2#16] := holds
  obtain ⟨u, back', -, frame', -⟩ := insertFreeListCounted_calls (T := sampleTables)
    (s := sampleCall 1#16 t.mem) rfl (by decide) holds (by decide) (sampleCall_room ..)
  have before : sampleTables.eraseCount t.mem 1#16 < sampleTables.eraseCount t.mem 2#16 := by
    rw [kept frame 1#16 (by decide), kept frame 2#16 (by decide)]
    decide
  have first : sampleTables.Step (sampleMemory, []) (t.mem, [2#16]) :=
    .call (sampleCall_at (by decide) (by simp)) back
  have second : sampleTables.Step (t.mem, [2#16]) (u.mem, [1#16, 2#16]) := by
    have step := Step.call (sampleCall_at (l := [2#16]) (by decide) (by decide)) back'
    have le : sampleTables.lessWorn (sampleCall 1#16 t.mem).mem 1#16 2#16 := BitVec.le_of_lt before
    rwa [Op.apply, List.orderedInsert, if_pos le] at step
  obtain ⟨listed, -, further⟩ :=
    freeList_reachable sampleMemory_holds (.tail (.single first) second)
  refine ⟨u.mem, listed, ?_, fun op s entry => (further op s entry).mono fun _ h => h.1⟩
  rw [kept frame' 1#16 (by decide), kept frame' 2#16 (by decide)]
  exact before

end Tables

end RkNand.Blob
