import RkNand.Blob.Superblocks

/-!
# Putting a superblock into the free list

The free superblocks are listed by erase count, the least worn first.  `insert_free_list` searches
from the head for the first one that is at least as worn as the new one and puts it before that; it
is proved block by block, with the search as a loop.
-/

namespace RkNand.Blob

open Arm Arm.Reg ByteMemory LinkedList

namespace Tables

variable {k : Link} {T : Tables k}

/-! ## `insert_free_list` -/

theorem isHead_freeListHead : IsHead Var.freeListHead := ⟨by decide, by decide, by decide⟩

/-- The registers in the search of `insert_free_list`: the entry `x` is to be put in, and the
search has come to `y`. -/
structure Search (T : Tables k) (s : State) (x y : BitVec 16) : Prop where
  r0 : s.reg r0 = x.setWidth 32
  r2 : s.reg r2 = y.setWidth 32
  r3 : s.reg r3 = T.node y
  r4 : s.reg r4 = 65535#32
  r5 : s.reg r5 = 6#32 * x.setWidth 32
  r6 : s.reg r6 = T.nodes
  r7 : s.reg r7 = T.nodes
  r8 : s.reg r8 = T.erase
  r9 : s.reg r9 = (T.eraseCount s.mem x).setWidth 32
  r10 : s.reg r10 = 6#32
  ip : s.reg ip = k.anchor
  lr : s.reg lr = T.node x

section Insert

variable {s : State} {a b : List (BitVec 16)} {x y z : BitVec 16} {Q : BitVec 32 → State → Prop}

/-- What has been done when the search is over and `x` is in between `a` and `b`. -/
structure Inserted (T : Tables k) (m m' : ByteMemory) (a b : List (BitVec 16)) (x : BitVec 16) :
    Prop where
  frame : Frame (T.links Var.freeListHead) m m'
  holds : T.Holds Var.freeListHead m' (a ++ x :: b)

theorem inserted_first {m : ByteMemory} (hx : x.toNat < T.size)
    (H : T.Holds Var.freeListHead m (y :: b)) (fresh : x ∉ y :: b) :
    Inserted T m ((((m.st16 (T.node x + 2#32) (m.ld16 (T.node y + 2#32))).st16 (T.node x) y).st16
      (T.node y + 2#32) x).st32 (k.anchor + Var.freeListHead) (T.node x)) [] (y :: b) x := by
  have hy : y.toNat < T.size := H.small y (by simp)
  have ne : x ≠ y := fun same => fresh (by simp [same])
  have frame : Frame (T.links Var.freeListHead) m _ :=
    frame_st32_head (w := T.node x) (frame_st16_prev (v := x) hy (frame_st16_node (v := y) hx
      (frame_st16_prev (v := m.ld16 (T.node y + 2#32)) hx .refl)))
  refine ⟨frame, Holds.insert (a := []) isHead_freeListHead H hx fresh frame ?_ ?_ ?_ ?_ ?_⟩
  · simp [pointer]
  · simp [next_st32_head isHead_freeListHead, next_st16_node, next_st16_prev, hx, hy, half_small hy]
  · have : half (m.ld16 (T.node y + 2#32)) = none := H.linked.1
    simp [prev_st32_head isHead_freeListHead, prev_st16_node, prev_st16_prev, hx, hy, this, ne]
  · intro j hj
    have small : j.toNat < T.size := H.small j hj
    have : j ≠ x := fun same => fresh (same ▸ hj)
    simp [next_st32_head isHead_freeListHead, next_st16_node, next_st16_prev, hx, hy, small, this]
  · intro j hj
    have small : j.toNat < T.size := H.small j hj
    have : j ≠ x := fun same => fresh (same ▸ hj)
    simp [prev_st32_head isHead_freeListHead, prev_st16_node, prev_st16_prev, hx, hy, small, this,
      half_small hx, eq_comm]

/-- The end of the search: `x` goes before the first entry. -/
theorem insert_first (h : Search T s x y) (hx : x.toNat < T.size)
    (H : T.Holds Var.freeListHead s.mem (y :: b)) (fresh : x ∉ y :: b)
    (done : ∀ t, SameFrame s t → Inserted T s.mem t.mem [] (y :: b) x →
      Wp k.image k.insertFreeList (after 1931 k.insertFreeList) t Q) :
    Wp k.image k.insertFreeList (after 1933 k.insertFreeList) s Q := by
  have at1933 := congrArg (after 1933) (Link.insertFreeList.eq_1 k)
  obtain ⟨h0, h2, h3, -, h5, h6, -, -, -, -, hip, hlr⟩ := h
  have head : s.mem.ld32 (k.anchor + Var.freeListHead) = T.node y := H.first
  rw [at1933]
  simp [after, h0, h2, h3, h5, h6, hip, hlr, head,
    ld32_head_st16_node isHead_freeListHead, ld32_head_st16_prev isHead_freeListHead, hx]
  exact done _ (by simp [SameFrame]) (inserted_first hx H fresh)

theorem Holds.prev_middle {m : ByteMemory} {h : BitVec 32}
    (H : T.Holds h m (a ++ z :: y :: b)) : m.ld16 (T.node y + 2#32) = z := by
  have := (linked_append.1 H.linked).2.2.2
  exact eq_of_half this.1

theorem inserted_middle {m : ByteMemory} (hx : x.toNat < T.size)
    (H : T.Holds Var.freeListHead m (a ++ z :: y :: b)) (fresh : x ∉ a ++ z :: y :: b) :
    Inserted T m ((((m.st16 (T.node x + 2#32) z).st16 (T.node x) y).st16 (T.node z) x).st16
      (T.node y + 2#32) x) (a ++ [z]) (y :: b) x := by
  have hy : y.toNat < T.size := H.small y (by simp)
  have hz : z.toNat < T.size := H.small z (by simp)
  have hxy : x ≠ y := fun same => fresh (by simp [same])
  have hxz : x ≠ z := fun same => fresh (by simp [same])
  have frame : Frame (T.links Var.freeListHead) m _ :=
    frame_st16_prev (v := x) hy (frame_st16_node (v := x) hz (frame_st16_node (v := y) hx
      (frame_st16_prev (v := z) hx .refl)))
  have split : a ++ z :: y :: b = (a ++ [z]) ++ y :: b := by simp
  rw [split] at H fresh
  refine ⟨frame, Holds.insert isHead_freeListHead H hx fresh frame ?_ ?_ ?_ ?_ ?_⟩
  · have := H.first
    simp [ld32_head_st16_node isHead_freeListHead, ld32_head_st16_prev isHead_freeListHead, hx, hy,
      hz] at this ⊢
    cases a <;> simpa using this
  · simp [next_st16_node, next_st16_prev, hx, hy, hz, hxz, half_small hy]
  · simp [prev_st16_node, prev_st16_prev, hx, hy, hz, hxy, half_small hz]
  · intro j hj
    have small : j.toNat < T.size := H.small j hj
    have : j ≠ x := fun same => fresh (same ▸ hj)
    simp [next_st16_node, next_st16_prev, hx, hy, hz, small, this, half_small hx, eq_comm]
  · intro j hj
    have small : j.toNat < T.size := H.small j hj
    have : j ≠ x := fun same => fresh (same ▸ hj)
    simp [prev_st16_node, prev_st16_prev, hx, hy, hz, small, this, half_small hx, eq_comm]

/-- The end of the search: `x` goes between `z` and `y`. -/
theorem insert_middle (h : Search T s x y) (hx : x.toNat < T.size)
    (H : T.Holds Var.freeListHead s.mem (a ++ z :: y :: b)) (fresh : x ∉ a ++ z :: y :: b)
    (done : ∀ t, SameFrame s t → Inserted T s.mem t.mem (a ++ [z]) (y :: b) x →
      Wp k.image k.insertFreeList (after 1931 k.insertFreeList) t Q) :
    Wp k.image k.insertFreeList (after 1933 k.insertFreeList) s Q := by
  have at1933 := congrArg (after 1933) (Link.insertFreeList.eq_1 k)
  obtain ⟨h0, h2, h3, -, h5, h6, -, -, -, -, hip, hlr⟩ := h
  have hy : y.toNat < T.size := H.small y (by simp)
  have hxy : y ≠ x := fun same => fresh (by simp [same])
  have nodes : s.mem.ld32 (k.anchor + Var.dataBlockListTable) = T.nodes := H.nodes
  -- the entry `y` is not the head
  have head : T.node y ≠ s.mem.ld32 (k.anchor + Var.freeListHead) := by
    have first : s.mem.ld32 (k.anchor + Var.freeListHead) = T.pointer (a ++ z :: y :: b).head? :=
      H.first
    obtain ⟨w, hw, ne⟩ : ∃ w, (a ++ z :: y :: b).head? = some w ∧ w ≠ y := by
      have := H.nodup
      cases a with
      | nil => exact ⟨z, rfl, fun same => by simp [same] at this⟩
      | cons w a => exact ⟨w, rfl, fun same => by simp [same] at this⟩
    rw [first, hw]
    exact fun same => ne ((node_inj hy (H.small w (List.mem_of_head? hw))).1 same).symm
  rw [at1933]
  simp [after, h0, h2, h3, h5, h6, hip, hlr, head, nodes,
    ld32_table_st16_node, ld32_table_st16_prev, ld32_head_st16_node isHead_freeListHead,
    ld32_head_st16_prev isHead_freeListHead, ld16_prev_st16_node, ld16_prev_st16_prev, hx, hy,
    hxy, H.prev_middle]
  exact done _ (by simp [SameFrame]) (inserted_middle hx H fresh)

theorem inserted_last {m : ByteMemory} (hx : x.toNat < T.size)
    (H : T.Holds Var.freeListHead m (a ++ [y])) (fresh : x ∉ a ++ [y]) (self : T.next m x = none) :
    Inserted T m ((m.st16 (T.node x + 2#32) y).st16 (T.node y) x) (a ++ [y]) [] x := by
  have hy : y.toNat < T.size := H.small y (by simp)
  have hxy : x ≠ y := fun same => fresh (by simp [same])
  have frame : Frame (T.links Var.freeListHead) m _ :=
    frame_st16_node (v := x) hy (frame_st16_prev (v := y) hx .refl)
  rw [← List.append_nil (a ++ [y])] at H fresh
  refine ⟨frame, Holds.insert isHead_freeListHead H hx fresh frame ?_ ?_ ?_ ?_ ?_⟩
  · have := H.first
    simp [ld32_head_st16_node isHead_freeListHead, ld32_head_st16_prev isHead_freeListHead, hx,
      hy] at this ⊢
    cases a <;> simpa using this
  · simp [next_st16_node, next_st16_prev, hx, hy, hxy, self]
  · simp [prev_st16_node, prev_st16_prev, hx, hy, half_small hy]
  · intro j hj
    have small : j.toNat < T.size := H.small j hj
    simp [next_st16_node, next_st16_prev, hx, hy, small, half_small hx, eq_comm]
  · intro j hj
    have small : j.toNat < T.size := H.small j hj
    have : j ≠ x := fun same => fresh (same ▸ hj)
    simp [prev_st16_node, prev_st16_prev, hx, hy, small, this]

theorem setWidth_le_setWidth {v w : BitVec 16} : v.setWidth 32 ≤ w.setWidth 32 ↔ v ≤ w := by
  bv_omega

/-- The order of the free list: less worn first. -/
def lessWorn (T : Tables k) (m : ByteMemory) (x y : BitVec 16) : Prop :=
  T.eraseCount m x ≤ T.eraseCount m y

instance (m : ByteMemory) : DecidableRel (T.lessWorn m) :=
  fun x y => inferInstanceAs (Decidable (T.eraseCount m x ≤ T.eraseCount m y))

theorem search_stop (h : Search T s x y) (stop : T.lessWorn s.mem x y)
    (found : ∀ t, SameFrame s t → t.mem = s.mem → Search T t x y →
      Wp k.image k.insertFreeList (after 1933 k.insertFreeList) t Q) :
    Wp k.image k.insertFreeList (after 1935 k.insertFreeList) s Q := by
  have at1935 := congrArg (after 1935) (Link.insertFreeList.eq_1 k)
  have worn := setWidth_le_setWidth.2 stop
  obtain ⟨h0, h2, h3, h4, h5, h6, h7, h8, h9, h10, hip, hlr⟩ := h
  rw [eraseCount, eraseCount] at worn
  rw [at1935]
  simp [after, h2, h8, h9, eraseCount, worn]
  refine found _ (by simp [SameFrame]) rfl
    ⟨?_, ?_, ?_, ?_, ?_, ?_, ?_, ?_, ?_, ?_, ?_, ?_⟩ <;> simpa

theorem search_next (h : Search T s x y) (pass : ¬ T.lessWorn s.mem x y) {w : BitVec 16}
    (next : T.next s.mem y = some w) (hw : w.toNat < T.size)
    (again : ∀ t, SameFrame s t → t.mem = s.mem → Search T t x w →
      Wp k.image k.insertFreeList (after 1935 k.insertFreeList) t Q) :
    Wp k.image k.insertFreeList (after 1935 k.insertFreeList) s Q := by
  have at1935 := congrArg (after 1935) (Link.insertFreeList.eq_1 k)
  have at1934 := congrArg (after 1934) (Link.insertFreeList.eq_1 k)
  have worn := mt setWidth_le_setWidth.1 pass
  obtain ⟨h0, h2, h3, h4, h5, h6, h7, h8, h9, h10, hip, hlr⟩ := h
  rw [eraseCount, eraseCount] at worn
  have other : w.setWidth 32 ≠ 65535#32 := by
    have := T.size_lt
    bv_omega
  rw [at1935]
  simp [after, h2, h3, h4, h8, h9, eraseCount, worn, eq_of_half next, other, at1934, h7, h10]
  refine again _ (by simp [SameFrame]) rfl
    ⟨?_, ?_, ?_, ?_, ?_, ?_, ?_, ?_, ?_, ?_, ?_, ?_⟩ <;> simp [*]

theorem search_end (h : Search T s x y) (pass : ¬ T.lessWorn s.mem x y)
    (next : T.next s.mem y = none)
    (done : ∀ t, SameFrame s t →
      t.mem = (s.mem.st16 (T.node x + 2#32) y).st16 (T.node y) x →
      Wp k.image k.insertFreeList (after 1931 k.insertFreeList) t Q) :
    Wp k.image k.insertFreeList (after 1935 k.insertFreeList) s Q := by
  have at1935 := congrArg (after 1935) (Link.insertFreeList.eq_1 k)
  have worn := mt setWidth_le_setWidth.1 pass
  obtain ⟨h0, h2, h3, h4, -, -, -, h8, h9, -, -, hlr⟩ := h
  rw [eraseCount, eraseCount] at worn
  rw [at1935]
  simp [after, h0, h2, h3, h4, h8, h9, eraseCount, worn, half_eq_none.1 next, hlr]
  exact (wp_label rfl).2 (done _ (by simp [SameFrame]) rfl)

theorem search_found (h : Search T s x y) (hx : x.toNat < T.size)
    (H : T.Holds Var.freeListHead s.mem (a ++ y :: b)) (fresh : x ∉ a ++ y :: b)
    (stop : T.lessWorn s.mem x y)
    (done : ∀ t, SameFrame s t → Inserted T s.mem t.mem a (y :: b) x →
      Wp k.image k.insertFreeList (after 1931 k.insertFreeList) t Q) :
    Wp k.image k.insertFreeList (after 1935 k.insertFreeList) s Q := by
  refine search_stop h stop fun t hsp hmem found => ?_
  rw [← hmem] at H
  have done' : ∀ u, SameFrame t u → Inserted T t.mem u.mem a (y :: b) x →
      Wp k.image k.insertFreeList (after 1931 k.insertFreeList) u Q :=
    fun u hu ins => done u (hsp.trans hu) (hmem ▸ ins)
  rcases List.eq_nil_or_concat' a with rfl | ⟨a, z, rfl⟩
  · exact insert_first found hx H fresh done'
  · have split : (a ++ [z]) ++ y :: b = a ++ z :: y :: b := by simp
    exact insert_middle found hx (split ▸ H) (split ▸ fresh) done'

/-- The search loop: `a` is behind, the search has come to `y`. -/
theorem search_loop (h : Search T s x y) (hx : x.toNat < T.size)
    (H : T.Holds Var.freeListHead s.mem (a ++ y :: b)) (fresh : x ∉ a ++ y :: b)
    (self : T.next s.mem x = none) (behind : ∀ z ∈ a, ¬ T.lessWorn s.mem x z)
    (done : ∀ t a' b', SameFrame s t → a ++ y :: b = a' ++ b' →
      (∀ z ∈ a', ¬ T.lessWorn s.mem x z) → (∀ z ∈ b'.head?, T.lessWorn s.mem x z) →
      Inserted T s.mem t.mem a' b' x →
      Wp k.image k.insertFreeList (after 1931 k.insertFreeList) t Q) :
    Wp k.image k.insertFreeList (after 1935 k.insertFreeList) s Q := by
  induction b generalizing a y s with
  | nil =>
    by_cases stop : T.lessWorn s.mem x y
    · exact search_found h hx H fresh stop fun t hsp =>
        done t a [y] hsp rfl behind (by simpa using stop)
    · refine search_end h stop ?_ fun t hsp hmem =>
        done t (a ++ [y]) [] hsp (by simp) ?_ (by simp) ?_
      · exact (linked_append.1 H.linked).2.2.1
      · simpa [stop, or_imp, forall_and] using behind
      · rw [hmem]
        exact inserted_last hx H fresh self
  | cons w b ih =>
    by_cases stop : T.lessWorn s.mem x y
    · exact search_found h hx H fresh stop fun t hsp =>
        done t a (y :: w :: b) hsp rfl behind (by simpa using stop)
    · have next : T.next s.mem y = some w := (linked_append.1 H.linked).2.2.1
      have split : a ++ y :: w :: b = (a ++ [y]) ++ w :: b := by simp
      refine search_next h stop next (H.small w (by simp)) fun t hsp hmem again => ?_
      rw [← hmem] at H self behind stop done
      refine ih again (split ▸ H) (split ▸ fresh) self ?_ fun u a' b' hu eq => ?_
      · simpa [stop, or_imp, forall_and] using behind
      · exact done u a' b' (hsp.trans hu) (split.trans eq)

theorem orderedInsert_split {r : BitVec 16 → BitVec 16 → Prop} [DecidableRel r]
    (before : ∀ z ∈ a, ¬ r x z) (stop : ∀ z ∈ b.head?, r x z) :
    (a ++ b).orderedInsert r x = a ++ x :: b := by
  induction a with
  | nil =>
    cases b with
    | nil => rfl
    | cons y b => exact if_pos (stop y rfl)
  | cons y a ih =>
    rw [List.cons_append, List.orderedInsert, if_neg (before y (by simp)),
      ih fun z hz => before z (List.mem_cons_of_mem _ hz)]
    rfl

theorem orderedInsert_congr {r r' : BitVec 16 → BitVec 16 → Prop} [DecidableRel r] [DecidableRel r']
    (same : ∀ y ∈ b, r x y ↔ r' x y) : b.orderedInsert r x = b.orderedInsert r' x := by
  induction b with
  | nil => rfl
  | cons y b ih =>
    simp only [List.orderedInsert, same y (by simp)]
    rw [ih fun z hz => same z (List.mem_cons_of_mem _ hz)]

theorem inserted_only {m : ByteMemory} (hx : x.toNat < T.size) (H : T.Holds Var.freeListHead m [])
    (next : T.next m x = none) (prev : T.prev m x = none) :
    Inserted T m (m.st32 (k.anchor + Var.freeListHead) (T.node x)) [] [] x := by
  have frame : Frame (T.links Var.freeListHead) m _ := frame_st32_head (w := T.node x) .refl
  refine ⟨frame, Holds.insert (a := []) isHead_freeListHead H hx (by simp) frame ?_ ?_ ?_ ?_ ?_⟩
  · simp [pointer]
  · simp [next_st32_head isHead_freeListHead, hx, next]
  · simp [prev_st32_head isHead_freeListHead, hx, prev]
  · simp
  · simp

/-- `insert_free_list` puts a superblock that is not in the list at its place by erase count. -/
theorem insertFreeList_calls {l : List (BitVec 16)} (arg : s.reg r0 = x.setWidth 32)
    (hx : x.toNat < T.size) (H : T.Holds Var.freeListHead s.mem l) (fresh : x ∉ l)
    (room : T.Room (s.reg sp) 32) :
    Calls k.image .insertFreeList s fun t => Saved s t ∧
      Frame ((s.reg sp - 32#32, 32) :: T.links Var.freeListHead) s.mem t.mem ∧
      T.Holds Var.freeListHead t.mem (l.orderedInsert (T.lessWorn s.mem) x) := by
  have at1931 := congrArg (after 1931) (Link.insertFreeList.eq_1 k)
  have number : x.setWidth 32 ≠ 65535#32 := by
    have := T.size_lt
    bv_omega
  set m₁ := s.mem.storeWords (s.reg sp - 32#32) 0 [s.reg r4, s.reg r5, s.reg r6, s.reg r7,
    s.reg r8, s.reg r9, s.reg r10, s.reg lr] with hm₁
  have frame₁ : Frame [(s.reg sp - 32#32, 32)] s.mem m₁ :=
    frame_storeWords (by omega) (by simp) .refl
  have pushed₁ : Pushed s [r4, r5, r6, r7, r8, r9, r10, lr] m₁ := pushed_storeWords s (by simp) _
  have H₁ : T.Holds Var.freeListHead m₁ l := H.of_stack (by omega) room isHead_freeListHead frame₁
  have nodes₁ : m₁.ld32 (k.anchor + Var.dataBlockListTable) = T.nodes := H₁.nodes
  set m₂ := (m₁.st16 (T.node x + 2#32) 65535#16).st16 (T.node x) 65535#16 with hm₂
  have frame₂ : Frame (T.links Var.freeListHead) m₁ m₂ :=
    frame_st16_node hx (frame_st16_prev hx .refl)
  have H₂ : T.Holds Var.freeListHead m₂ l := H₁.touch isHead_freeListHead hx fresh _ _
  have next₂ : T.next m₂ x = none := by
    simp [hm₂, next_st16_node, hx, half]
  have prev₂ : T.prev m₂ x = none := by
    simp [hm₂, prev_st16_node, prev_st16_prev, hx, half]
  have worn : ∀ z, z.toNat < T.size → T.eraseCount m₂ z = T.eraseCount s.mem z := fun z hz =>
    (eraseCount_of_frame isHead_freeListHead frame₂ hz).trans
      (eraseCount_of_stack (by omega) room frame₁ hz)
  -- the end of the function, with the list as it then is
  have finish : ∀ t l', t.reg sp = s.reg sp - 32#32 → t.reg fp = s.reg fp →
      Frame (T.links Var.freeListHead) m₂ t.mem → T.Holds Var.freeListHead t.mem l' →
      Wp k.image k.insertFreeList (after 1931 k.insertFreeList) t fun a u => a = s.reg lr ∧
        Saved s u ∧ Frame ((s.reg sp - 32#32, 32) :: T.links Var.freeListHead) s.mem u.mem ∧
        T.Holds Var.freeListHead u.mem l' := by
    intro t l' hsp hfp frame holds
    rw [at1931]
    simp [after]
    have links : Frame (T.links Var.freeListHead) m₁ t.mem := frame₂.trans frame
    refine wp_popPc s (pushed_of_links room isHead_freeListHead (by simp) (by simp) pushed₁ links)
      (by simpa using hsp) ?_ fun v hmem saved _ => ⟨rfl, saved, ?_, hmem ▸ holds⟩
    · simpa [calleeSaved] using hfp
    · rw [hmem]
      exact (frame₁.subset (by simp)).trans (links.subset (by simp))
  rw [calls_listing rfl (Link.insertFreeList.eq_1 k)]
  generalize hl' : l.orderedInsert (T.lessWorn s.mem) x = l'
  cases l with
  | nil =>
    obtain rfl : [x] = l' := hl'
    have head₂ : m₂.ld32 (k.anchor + Var.freeListHead) = 0#32 := H₂.first
    simp [arg, number, ← hm₁, nodes₁, ← hm₂, head₂]
    have ins := inserted_only hx H₂ next₂ prev₂
    exact finish _ [x] (by simp) (by simp) ins.frame ins.holds
  | cons y b =>
    have hy : y.toNat < T.size := H.small y (by simp)
    have head₂ : m₂.ld32 (k.anchor + Var.freeListHead) = T.node y := H₂.first
    have nodes₂ : m₂.ld32 (k.anchor + Var.dataBlockListTable) = T.nodes := H₂.nodes
    have erase₂ : m₂.ld32 (k.anchor + Var.eraseCountTable) = T.erase := H₂.erase
    have null : T.node y ≠ 0#32 := node_ne_zero hy
    simp [arg, number, ← hm₁, nodes₁, ← hm₂, head₂, null, nodes₂, erase₂]
    refine (wp_label rfl).2 (search_loop (a := []) (y := y) ?_ hx H₂ fresh next₂ (by simp)
      fun t a' b' same split before stop ins => ?_)
    · constructor <;> simp [arg, index_node hy, eraseCount]
    · rw [List.nil_append] at split
      have small : ∀ z ∈ a' ++ b', z.toNat < T.size := split ▸ H.small
      have sorted : l' = a' ++ x :: b' := by
        rw [← hl', split]
        refine orderedInsert_split (fun z hz => ?_) fun z hz => ?_
        · rw [lessWorn, ← worn x hx, ← worn z (small z (List.mem_append_left _ hz))]
          exact before z hz
        · have mem : z ∈ a' ++ b' := List.mem_append_right _ (List.mem_of_head? hz)
          rw [lessWorn, ← worn x hx, ← worn z (small z mem)]
          exact stop z hz
      rw [sorted]
      exact finish t _ (by simpa using same.1) (by simpa using same.2) ins.frame ins.holds

end Insert

end Tables

end RkNand.Blob
