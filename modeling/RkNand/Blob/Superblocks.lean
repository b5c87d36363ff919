import RkNand.Blob.Address
import RkNand.Lib.LinkedList

/-!
# The lists of superblocks in memory

The blob keeps its superblocks in doubly linked lists.  A node is three halfwords in a table indexed
by superblock (next, previous, multiplier), `0xFFFF` ends a list in either direction, and the head
is the address of a node, or null.  `Tables.Holds` says that the memory holds a given list;
`Holds.insert` and `Holds.remove` say which stores put an entry in and take one out.
-/

namespace RkNand.Blob

open Arm Arm.Reg ByteMemory LinkedList

/-- The tables of nodes and of erase counts, one entry for each superblock; the number `0xFFFF` is
none. -/
structure Tables (k : Link) where
  nodes : BitVec 32
  erase : BitVec 32
  size : ℕ
  size_pos : 0 < size
  size_lt : size < 65536
  nodes_pos : 0 < nodes.toNat
  nodes_fit : nodes.toNat + 6 * size ≤ 2 ^ 32
  nodes_data : Apart nodes (6 * size) k.data.1 k.data.2
  erase_data : Apart erase (2 * size) k.data.1 k.data.2
  nodes_erase : Apart nodes (6 * size) erase (2 * size)

/-- A halfword as the number of a superblock. -/
def half (v : BitVec 16) : Option (BitVec 16) := if v = 65535#16 then none else some v

namespace Tables

variable {k : Link} (T : Tables k)

/-- The node of a superblock. -/
def node (i : BitVec 16) : BitVec 32 := T.nodes + 6#32 * i.setWidth 32

def next (m : ByteMemory) (i : BitVec 16) : Option (BitVec 16) := half (m.ld16 (T.node i))

def prev (m : ByteMemory) (i : BitVec 16) : Option (BitVec 16) := half (m.ld16 (T.node i + 2#32))

def eraseCount (m : ByteMemory) (i : BitVec 16) : BitVec 16 :=
  m.ld16 (T.erase + i.setWidth 32 <<< 1)

/-- A pointer to a node, or null. -/
def pointer : Option (BitVec 16) → BitVec 32
  | none => 0
  | some i => T.node i

/-- The memory holds the list `l` with its head in the variable at offset `h`. -/
structure Holds (h : BitVec 32) (m : ByteMemory) (l : List (BitVec 16)) : Prop where
  nodes : m.ld32 (k.anchor + Var.dataBlockListTable) = T.nodes
  erase : m.ld32 (k.anchor + Var.eraseCountTable) = T.erase
  small : ∀ i ∈ l, i.toNat < T.size
  nodup : l.Nodup
  first : m.ld32 (k.anchor + h) = T.pointer l.head?
  linked : Linked (T.next m) (T.prev m) none l none

/-- The `n` bytes of stack below `sp` are apart from the data and the tables. -/
structure Room (sp : BitVec 32) (n : ℕ) : Prop where
  nodes : Apart (sp - BitVec.ofNat 32 n) n T.nodes (6 * T.size)
  erase : Apart (sp - BitVec.ofNat 32 n) n T.erase (2 * T.size)
  data : Apart (sp - BitVec.ofNat 32 n) n k.data.1 k.data.2

/-! ## Addresses of nodes -/

variable {T} {i j : BitVec 16}

theorem toNat_node (hi : i.toNat < T.size) : (T.node i).toNat = T.nodes.toNat + 6 * i.toNat := by
  have := T.nodes_fit
  have := T.size_lt
  simp only [node]
  bv_omega

theorem node_ne_zero (hi : i.toNat < T.size) : T.node i ≠ 0 := by
  have := toNat_node hi
  have := T.nodes_pos
  bv_omega

theorem node_inj (hi : i.toNat < T.size) (hj : j.toNat < T.size) : T.node i = T.node j ↔ i = j := by
  refine ⟨fun h => ?_, fun h => by rw [h]⟩
  have hi' := toNat_node hi
  have hj' := toNat_node hj
  rw [h] at hi'
  bv_omega

theorem node_apart (hi : i.toNat < T.size) (hj : j.toNat < T.size) (ne : i ≠ j) :
    Apart (T.node i) 6 (T.node j) 6 := by
  have fit := T.nodes_fit
  have hi' := toNat_node hi
  have hj' := toNat_node hj
  have : i.toNat ≠ j.toNat := fun h => ne (BitVec.eq_of_toNat_eq h)
  rcases Nat.lt_or_gt_of_ne this with h | h
  · exact apart_of_le (by omega) (by omega) (by omega)
  · exact (apart_of_le (by omega) (by omega) (by omega)).symm

/-- The number of a node, as the code computes it from its address. -/
theorem index_node (hi : i.toNat < T.size) :
    ((2863311531#32 * (T.node i - T.nodes).sshiftRight 1).setWidth 16).setWidth 32 =
      i.setWidth 32 := by
  have third : (T.node i - T.nodes).sshiftRight 1 = 3#32 * i.setWidth 32 := by
    have off : (T.node i - T.nodes).toNat = 6 * i.toNat := by
      rw [BitVec.toNat_sub_of_le] <;> have := toNat_node hi <;> bv_omega
    have triple : (3#32 * i.setWidth 32).toNat = 3 * i.toNat := by bv_omega
    rw [BitVec.sshiftRight_eq_of_msb_false]
    · apply BitVec.eq_of_toNat_eq
      rw [BitVec.toNat_ushiftRight, off, triple]
      omega
    · rw [BitVec.msb_eq_false_iff_two_mul_lt, off]
      omega
  have one : 2863311531#32 * 3#32 = 1#32 := by decide
  rw [third, ← BitVec.mul_assoc, one, BitVec.one_mul]
  simp

@[simp] theorem nodes_add : T.nodes + 6#32 * i.setWidth 32 = T.node i := rfl

@[simp] theorem add_nodes : 6#32 * i.setWidth 32 + T.nodes = T.node i := BitVec.add_comm ..

/-! ## Loads after stores to a node -/

section Fields

variable {m : ByteMemory} {v : BitVec 16} (hi : i.toNat < T.size) (hj : j.toNat < T.size)
include hi hj

theorem ld16_node_st16_node :
    (m.st16 (T.node i) v).ld16 (T.node j) = if j = i then v else m.ld16 (T.node j) := by
  split_ifs with h
  · rw [h, ld16_st16_self]
  · have := node_apart hi hj (Ne.symm h)
    rw [ld16_st16_apart _ (this.mono (by omega) (by omega) _ _)] <;> simp

theorem ld16_prev_st16_node :
    (m.st16 (T.node i) v).ld16 (T.node j + 2#32) = m.ld16 (T.node j + 2#32) := by
  refine ld16_st16_apart _ ?_
  by_cases h : i = j
  · rw [h, apart_self_add]
    decide
  · exact (node_apart hi hj h).mono (by omega) (by omega) (by simp) (by bv_omega)

theorem ld16_node_st16_prev :
    (m.st16 (T.node i + 2#32) v).ld16 (T.node j) = m.ld16 (T.node j) := by
  refine ld16_st16_apart _ ?_
  by_cases h : i = j
  · rw [h, apart_add_self]
    decide
  · exact (node_apart hi hj h).mono (by omega) (by omega) (by bv_omega) (by simp)

theorem ld16_prev_st16_prev : (m.st16 (T.node i + 2#32) v).ld16 (T.node j + 2#32) =
    if j = i then v else m.ld16 (T.node j + 2#32) := by
  split_ifs with h
  · rw [h, ld16_st16_self]
  · have := node_apart hi hj (Ne.symm h)
    rw [ld16_st16_apart _ (this.mono (by omega) (by omega) _ _)] <;> bv_omega

theorem next_st16_node :
    T.next (m.st16 (T.node i) v) j = if j = i then half v else T.next m j := by
  rw [next, ld16_node_st16_node hi hj, apply_ite half, next]

theorem prev_st16_node : T.prev (m.st16 (T.node i) v) j = T.prev m j := by
  rw [prev, ld16_prev_st16_node hi hj, prev]

theorem next_st16_prev : T.next (m.st16 (T.node i + 2#32) v) j = T.next m j := by
  rw [next, ld16_node_st16_prev hi hj, next]

theorem prev_st16_prev :
    T.prev (m.st16 (T.node i + 2#32) v) j = if j = i then half v else T.prev m j := by
  rw [prev, ld16_prev_st16_prev hi hj, apply_ite half, prev]

end Fields

section Frames

variable {m : ByteMemory} {v : BitVec 16} {a c : BitVec 32} (hi : i.toNat < T.size)
include hi

theorem node_within : (T.node i - T.nodes).toNat + 6 ≤ 6 * T.size := by
  have := toNat_node hi
  rw [BitVec.toNat_sub_of_le] <;> bv_omega

theorem node_apart_anchor (hc : (c + 2752#32).toNat + 4 ≤ 3648) :
    Apart (T.node i) 6 (k.anchor + c) 4 := by
  exact T.nodes_data.mono (by omega) (by omega) (node_within hi) (Link.anchor_within hc)

theorem ld32_anchor_st16_node (hc : (c + 2752#32).toNat + 4 ≤ 3648) :
    (m.st16 (T.node i) v).ld32 (k.anchor + c) = m.ld32 (k.anchor + c) :=
  ld32_st16_apart _ ((node_apart_anchor hi hc).mono (by omega) (by omega) (by simp) (by simp))

theorem ld32_anchor_st16_prev (hc : (c + 2752#32).toNat + 4 ≤ 3648) :
    (m.st16 (T.node i + 2#32) v).ld32 (k.anchor + c) = m.ld32 (k.anchor + c) :=
  ld32_st16_apart _ ((node_apart_anchor hi hc).mono (by omega) (by omega) (by bv_omega) (by simp))

theorem ld32_table_st16_node : (m.st16 (T.node i) v).ld32 (k.anchor + Var.dataBlockListTable) =
    m.ld32 (k.anchor + Var.dataBlockListTable) := ld32_anchor_st16_node hi (by decide)

theorem ld32_table_st16_prev :
    (m.st16 (T.node i + 2#32) v).ld32 (k.anchor + Var.dataBlockListTable) =
      m.ld32 (k.anchor + Var.dataBlockListTable) := ld32_anchor_st16_prev hi (by decide)

theorem next_st32_anchor {w : BitVec 32} (hc : (c + 2752#32).toNat + 4 ≤ 3648) :
    T.next (m.st32 (k.anchor + c) w) i = T.next m i := by
  have := (node_apart_anchor hi hc).symm
  rw [next, ld16_st32_apart _ (this.mono (by omega) (by omega) (by simp) (by simp)), next]

theorem prev_st32_anchor {w : BitVec 32} (hc : (c + 2752#32).toNat + 4 ≤ 3648) :
    T.prev (m.st32 (k.anchor + c) w) i = T.prev m i := by
  have := (node_apart_anchor hi hc).symm
  rw [prev, ld16_st32_apart _ (this.mono (by omega) (by omega) (by simp) (by bv_omega)), prev]

omit hi in
theorem eq_of_half {w : BitVec 16} (h : half v = some w) : v = w := by
  unfold half at h
  split_ifs at h with none
  exact Option.some.inj h

omit hi in
theorem half_eq_none : half v = none ↔ v = 65535#16 := by
  unfold half
  split_ifs with h
  · simpa using h
  · simpa using h

theorem half_small : half i = some i := by
  have := T.size_lt
  have : i ≠ 65535#16 := by
    rintro rfl
    simp at hi
    omega
  rw [half, if_neg this]

end Frames

/-! ## Operations on the list in memory -/

/-- An offset of a list head: inside the data, apart from the two table pointers. -/
structure IsHead (h : BitVec 32) : Prop where
  inside : (h + 2752#32).toNat + 4 ≤ 3648
  nodes : Apart h 4 Var.dataBlockListTable 4
  erase : Apart h 4 Var.eraseCountTable 4

/-- What an operation on a list may write: the nodes and the head. -/
def links (T : Tables k) (h : BitVec 32) : List (BitVec 32 × ℕ) :=
  [(T.nodes, 6 * T.size), (k.anchor + h, 4)]

section Operations

variable {h : BitVec 32} {m m' : ByteMemory} {l a b : List (BitVec 16)} {x y : BitVec 16}

section Head

variable {i v : BitVec 16} {u : BitVec 32} (hh : IsHead h) (hi : i.toNat < T.size)
include hh hi

theorem ld32_head_st16_node :
    (m.st16 (T.node i) v).ld32 (k.anchor + h) = m.ld32 (k.anchor + h) :=
  ld32_anchor_st16_node hi hh.inside

theorem ld32_head_st16_prev :
    (m.st16 (T.node i + 2#32) v).ld32 (k.anchor + h) = m.ld32 (k.anchor + h) :=
  ld32_anchor_st16_prev hi hh.inside

theorem next_st32_head : T.next (m.st32 (k.anchor + h) u) i = T.next m i :=
  next_st32_anchor hi hh.inside

theorem prev_st32_head : T.prev (m.st32 (k.anchor + h) u) i = T.prev m i :=
  prev_st32_anchor hi hh.inside

end Head

theorem frame_st16_node {i : BitVec 16} {v : BitVec 16} (hi : i.toNat < T.size)
    (frame : Frame (T.links h) m m') : Frame (T.links h) m (m'.st16 (T.node i) v) := by
  have := node_within hi
  have := T.size_lt
  exact frame.st16 (r := (T.nodes, 6 * T.size)) (by simp [links]) (by simp only; omega)
    (by simp only; omega)

theorem frame_st16_prev {i : BitVec 16} {v : BitVec 16} (hi : i.toNat < T.size)
    (frame : Frame (T.links h) m m') : Frame (T.links h) m (m'.st16 (T.node i + 2#32) v) := by
  have := node_within hi
  have := T.size_lt
  exact frame.st16 (r := (T.nodes, 6 * T.size)) (by simp [links]) (by simp only; bv_omega)
    (by simp only; omega)

theorem frame_st32_head {w : BitVec 32} (frame : Frame (T.links h) m m') :
    Frame (T.links h) m (m'.st32 (k.anchor + h) w) :=
  frame.st32 (r := (k.anchor + h, 4)) (by simp [links]) (by simp) (by simp)

/-- A variable apart from the head keeps its value. -/
theorem ld32_anchor_of_frame (frame : Frame (T.links h) m m') {c : BitVec 32}
    (hc : (c + 2752#32).toNat + 4 ≤ 3648) (apart : Apart h 4 c 4) :
    m'.ld32 (k.anchor + c) = m.ld32 (k.anchor + c) := by
  refine frame.ld32 fun r hr => ?_
  simp only [links, List.mem_cons, List.not_mem_nil, or_false] at hr
  rcases hr with rfl | rfl
  · have := T.size_pos
    exact T.nodes_data.mono (by omega) (by omega) (by simp) (Link.anchor_within hc)
  · simpa using apart

theorem erase_within {i : BitVec 16} (hi : i.toNat < T.size) :
    (T.erase + i.setWidth 32 <<< 1 - T.erase).toNat + 2 ≤ 2 * T.size := by
  have := T.size_lt
  have off : T.erase + i.setWidth 32 <<< 1 - T.erase = i.setWidth 32 <<< 1 := by bv_omega
  rw [off, BitVec.toNat_shiftLeft, BitVec.toNat_setWidth, Nat.shiftLeft_eq]
  omega

/-- The erase counts stay. -/
theorem eraseCount_of_frame (hh : IsHead h) (frame : Frame (T.links h) m m') {i : BitVec 16}
    (hi : i.toNat < T.size) : T.eraseCount m' i = T.eraseCount m i := by
  refine frame.ld16 fun r hr => ?_
  have := T.size_pos
  simp only [links, List.mem_cons, List.not_mem_nil, or_false] at hr
  rcases hr with rfl | rfl
  · exact T.nodes_erase.mono (by omega) (by omega) (by simp) (erase_within hi)
  · exact T.erase_data.symm.mono (by omega) (by omega) (Link.anchor_within hh.inside)
      (erase_within hi)

theorem Holds.insert (hh : IsHead h) (H : T.Holds h m (a ++ b)) (hx : x.toNat < T.size)
    (fresh : x ∉ a ++ b) (frame : Frame (T.links h) m m')
    (first : m'.ld32 (k.anchor + h) = T.pointer (a ++ x :: b).head?)
    (hnx : T.next m' x = b.head?) (hpx : T.prev m' x = a.getLast?)
    (hn : ∀ y ∈ a ++ b, T.next m' y = if a.getLast? = some y then some x else T.next m y)
    (hp : ∀ y ∈ a ++ b, T.prev m' y = if b.head? = some y then some x else T.prev m y) :
    T.Holds h m' (a ++ x :: b) where
  nodes := (ld32_anchor_of_frame frame (by decide) hh.nodes).trans H.nodes
  erase := (ld32_anchor_of_frame frame (by decide) hh.erase).trans H.erase
  small i hi := by
    rcases List.mem_append.1 hi with hi | hi
    · exact H.small i (List.mem_append_left _ hi)
    · rcases List.mem_cons.1 hi with rfl | hi
      · exact hx
      · exact H.small i (List.mem_append_right _ hi)
  nodup := List.nodup_middle.2 (List.nodup_cons.2 ⟨fresh, H.nodup⟩)
  first := first
  linked := H.linked.insert H.nodup hnx hpx hn hp

theorem Holds.remove (hh : IsHead h) (H : T.Holds h m (a ++ x :: b))
    (frame : Frame (T.links h) m m')
    (first : m'.ld32 (k.anchor + h) = T.pointer (a ++ b).head?)
    (hn : ∀ y ∈ a ++ b, T.next m' y = if a.getLast? = some y then b.head? else T.next m y)
    (hp : ∀ y ∈ a ++ b, T.prev m' y = if b.head? = some y then a.getLast? else T.prev m y) :
    T.Holds h m' (a ++ b) := by
  have nodup : (a ++ b).Nodup := (List.nodup_cons.1 (List.nodup_middle.1 H.nodup)).2
  refine ⟨(ld32_anchor_of_frame frame (by decide) hh.nodes).trans H.nodes,
    (ld32_anchor_of_frame frame (by decide) hh.erase).trans H.erase, fun i hi => ?_, nodup,
    first, H.linked.remove nodup hn hp⟩
  refine H.small i ?_
  simp only [List.mem_append, List.mem_cons] at hi ⊢
  tauto

/-- What is pushed on the stack does not change the list. -/
theorem Holds.of_stack {sp : BitVec 32} {n : ℕ} (hn : 0 < n) (room : T.Room sp n) (hh : IsHead h)
    (H : T.Holds h m l) (frame : Frame [(sp - BitVec.ofNat 32 n, n)] m m') : T.Holds h m' l := by
  have data {c : BitVec 32} (hc : (c + 2752#32).toNat + 4 ≤ 3648) :
      m'.ld32 (k.anchor + c) = m.ld32 (k.anchor + c) := by
    refine frame.ld32 fun r hr => ?_
    obtain rfl := List.mem_singleton.1 hr
    exact room.data.mono hn (by omega) (by simp) (Link.anchor_within hc)
  have links {i : BitVec 16} (hi : i.toNat < T.size) :
      T.next m' i = T.next m i ∧ T.prev m' i = T.prev m i := by
    have within := node_within hi
    constructor <;> refine congrArg half (frame.ld16 fun r hr => ?_)
    · obtain rfl := List.mem_singleton.1 hr
      exact room.nodes.mono hn (by omega) (by simp) (by omega)
    · obtain rfl := List.mem_singleton.1 hr
      exact room.nodes.mono hn (by omega) (by simp) (by bv_omega)
  exact ⟨(data (by decide)).trans H.nodes, (data (by decide)).trans H.erase, H.small, H.nodup,
    (data hh.inside).trans H.first, H.linked.congr (fun i hi => (links (H.small i hi)).1)
      fun i hi => (links (H.small i hi)).2⟩

theorem eraseCount_of_stack {sp : BitVec 32} {n : ℕ} (hn : 0 < n) (room : T.Room sp n)
    (frame : Frame [(sp - BitVec.ofNat 32 n, n)] m m') {i : BitVec 16} (hi : i.toNat < T.size) :
    T.eraseCount m' i = T.eraseCount m i := by
  refine frame.ld16 fun r hr => ?_
  obtain rfl := List.mem_singleton.1 hr
  exact room.erase.mono hn (by omega) (by simp) (erase_within hi)

/-- Links of an entry off the list may be written. -/
theorem Holds.touch (H : T.Holds h m l) (hh : IsHead h) (hx : x.toNat < T.size) (fresh : x ∉ l)
    (v w : BitVec 16) :
    T.Holds h ((m.st16 (T.node x + 2#32) v).st16 (T.node x) w) l where
  nodes := by
    rw [ld32_table_st16_node hx, ld32_table_st16_prev hx]
    exact H.nodes
  erase := by
    rw [ld32_anchor_st16_node hx (by decide), ld32_anchor_st16_prev hx (by decide)]
    exact H.erase
  small := H.small
  nodup := H.nodup
  first := by
    rw [ld32_anchor_st16_node hx hh.inside, ld32_anchor_st16_prev hx hh.inside]
    exact H.first
  linked := by
    refine H.linked.congr (fun i hi => ?_) fun i hi => ?_
    · have : i ≠ x := fun same => fresh (same ▸ hi)
      simp [next_st16_node, next_st16_prev, hx, H.small i hi, this]
    · have : i ≠ x := fun same => fresh (same ▸ hi)
      simp [prev_st16_node, prev_st16_prev, hx, H.small i hi, this]

/-- What is written for a list is apart from the stack. -/
theorem Room.links {sp : BitVec 32} {n : ℕ} (room : T.Room sp n) (hn : 0 < n) (hh : IsHead h)
    {r : BitVec 32 × ℕ} (hr : r ∈ T.links h) :
    0 < r.2 ∧ Apart r.1 r.2 (sp - BitVec.ofNat 32 n) n := by
  have := T.size_pos
  simp only [Tables.links, List.mem_cons, List.not_mem_nil, or_false] at hr
  rcases hr with rfl | rfl
  · exact ⟨by simp only; omega, room.nodes.symm⟩
  · exact ⟨by simp, room.data.symm.mono (by omega) hn (Link.anchor_within hh.inside) (by simp)⟩

/-- What is on the stack stays there while the list is written. -/
theorem pushed_of_links {s : State} {rs : List Reg}
    (room : T.Room (s.reg sp) (4 * rs.length)) (hh : IsHead h) (few : rs.length < 2 ^ 29)
    (some_rs : rs ≠ []) (pushed : Pushed s rs m) (frame : Frame (T.links h) m m') :
    Pushed s rs m' := by
  have pos : 0 < rs.length := List.length_pos_iff.2 some_rs
  exact pushed.of_frame few frame fun r hr => room.links (by omega) hh hr

/-- It stays there also while a function is called that writes the list. -/
theorem pushed_of_call {s : State} {rs : List Reg} {i : ℕ} (hi : 0 < i)
    (room : T.Room (s.reg sp) (4 * rs.length)) (hh : IsHead h) (few : i + 4 * rs.length < 2 ^ 31)
    (some_rs : rs ≠ []) (pushed : Pushed s rs m)
    (frame : Frame ((s.reg sp - BitVec.ofNat 32 (4 * rs.length) - BitVec.ofNat 32 i, i) ::
      T.links h) m m') : Pushed s rs m' := by
  have pos : 0 < rs.length := List.length_pos_iff.2 some_rs
  refine pushed.of_frame (by omega) frame fun r hr => ?_
  rcases List.mem_cons.1 hr with rfl | hr
  · refine ⟨hi, ?_⟩
    generalize s.reg sp - BitVec.ofNat 32 (4 * rs.length) = base
    unfold Apart
    bv_omega
  · exact room.links (by omega) hh hr

end Operations

end Tables

end RkNand.Blob
