import RkNand.Blob.FreeList

/-!
# Taking superblocks out of a list

`List_remove_node` unlinks a given superblock from the list with the given head, and
`List_pop_index_node` walks to an index and unlinks what it finds there.
-/

namespace RkNand.Blob

open Arm Arm.Reg ByteMemory LinkedList

namespace Tables

variable {k : Link} {T : Tables k} {h : BitVec 32} {s : State} {l a b : List (BitVec 16)}
  {x w z : BitVec 16} {Q : BitVec 32 → State → Prop}

/-! ## The stores of `List_remove_node` -/

/-- What has been done when `x` is out from between `a` and `b`. -/
structure Removed (T : Tables k) (h : BitVec 32) (m m' : ByteMemory) (a b : List (BitVec 16)) :
    Prop where
  frame : Frame (T.links h) m m'
  holds : T.Holds h m' (a ++ b)

section Stores

variable {m : ByteMemory} (hh : IsHead h)
include hh

theorem removed_only (H : T.Holds h m [x]) :
    Removed T h m (((m.st32 (k.anchor + h) 0#32).st16 (T.node x) 65535#16).st16
      (T.node x + 2#32) 65535#16) [] [] := by
  have hx : x.toNat < T.size := H.small x (by simp)
  have frame : Frame (T.links h) m _ := frame_st16_prev (v := 65535#16) hx
    (frame_st16_node (v := 65535#16) hx (frame_st32_head (w := 0#32) .refl))
  refine ⟨frame, Holds.remove (a := []) hh H frame ?_ (by simp) (by simp)⟩
  simp [ld32_head_st16_node, ld32_head_st16_prev, hx, hh, pointer]

theorem removed_first (H : T.Holds h m (x :: w :: b)) :
    Removed T h m ((((m.st32 (k.anchor + h) (T.node w)).st16 (T.node w + 2#32) 65535#16).st16
      (T.node x) 65535#16).st16 (T.node x + 2#32) 65535#16) [] (w :: b) := by
  have hx : x.toNat < T.size := H.small x (by simp)
  have hw : w.toNat < T.size := H.small w (by simp)
  have nodup := List.nodup_cons.1 H.nodup
  have frame : Frame (T.links h) m _ := frame_st16_prev (v := 65535#16) hx
    (frame_st16_node (v := 65535#16) hx (frame_st16_prev (v := 65535#16) hw
      (frame_st32_head (w := T.node w) .refl)))
  refine ⟨frame, Holds.remove (a := []) hh H frame ?_ (fun j hj => ?_) fun j hj => ?_⟩
  · simp [ld32_head_st16_node, ld32_head_st16_prev, hx, hw, hh, pointer]
  · have small : j.toNat < T.size := H.small j (List.mem_cons_of_mem _ hj)
    have : j ≠ x := fun same => nodup.1 (same ▸ hj)
    simp [next_st32_head, next_st16_node, next_st16_prev, hx, hw, hh, small, this]
  · have small : j.toNat < T.size := H.small j (List.mem_cons_of_mem _ hj)
    have : j ≠ x := fun same => nodup.1 (same ▸ hj)
    simp [prev_st32_head, prev_st16_node, prev_st16_prev, hx, hw, hh, small, this, half,
      eq_comm]

theorem removed_last (H : T.Holds h m (a ++ [z, x])) :
    Removed T h m (((m.st16 (T.node z) 65535#16).st16 (T.node x) 65535#16).st16
      (T.node x + 2#32) 65535#16) (a ++ [z]) [] := by
  have hx : x.toNat < T.size := H.small x (by simp)
  have hz : z.toNat < T.size := H.small z (by simp)
  have frame : Frame (T.links h) m _ := frame_st16_prev (v := 65535#16) hx
    (frame_st16_node (v := 65535#16) hx (frame_st16_node (v := 65535#16) hz .refl))
  have split : a ++ [z, x] = (a ++ [z]) ++ x :: [] := by simp
  rw [split] at H
  have nodup := List.nodup_cons.1 (List.nodup_middle.1 H.nodup)
  refine ⟨frame, Holds.remove hh H frame ?_ (fun j hj => ?_) fun j hj => ?_⟩
  · have := H.first
    simp [ld32_head_st16_node, ld32_head_st16_prev, hx, hz, hh] at this ⊢
    cases a <;> simpa using this
  · have small : j.toNat < T.size := H.small j (by simp at hj ⊢; tauto)
    have : j ≠ x := fun same => nodup.1 (same ▸ hj)
    simp [next_st16_node, next_st16_prev, hx, hz, small, this, half, eq_comm]
  · have small : j.toNat < T.size := H.small j (by simp at hj ⊢; tauto)
    have : j ≠ x := fun same => nodup.1 (same ▸ hj)
    simp [prev_st16_node, prev_st16_prev, hx, hz, small, this]

theorem removed_middle (H : T.Holds h m (a ++ z :: x :: w :: b)) :
    Removed T h m ((((m.st16 (T.node w + 2#32) z).st16 (T.node z) w).st16 (T.node x) 65535#16).st16
      (T.node x + 2#32) 65535#16) (a ++ [z]) (w :: b) := by
  have hx : x.toNat < T.size := H.small x (by simp)
  have hz : z.toNat < T.size := H.small z (by simp)
  have hw : w.toNat < T.size := H.small w (by simp)
  have frame : Frame (T.links h) m _ := frame_st16_prev (v := 65535#16) hx
    (frame_st16_node (v := 65535#16) hx (frame_st16_node (v := w) hz
      (frame_st16_prev (v := z) hw .refl)))
  have split : a ++ z :: x :: w :: b = (a ++ [z]) ++ x :: (w :: b) := by simp
  rw [split] at H
  have nodup := List.nodup_cons.1 (List.nodup_middle.1 H.nodup)
  refine ⟨frame, Holds.remove hh H frame ?_ (fun j hj => ?_) fun j hj => ?_⟩
  · have := H.first
    simp [ld32_head_st16_node, ld32_head_st16_prev, hx, hz, hw, hh] at this ⊢
    cases a <;> simpa using this
  · have small : j.toNat < T.size := H.small j (by simp at hj ⊢; tauto)
    have : j ≠ x := fun same => nodup.1 (same ▸ hj)
    simp [next_st16_node, next_st16_prev, hx, hz, hw, small, this, half_small hw, eq_comm]
  · have small : j.toNat < T.size := H.small j (by simp at hj ⊢; tauto)
    have : j ≠ x := fun same => nodup.1 (same ▸ hj)
    simp [prev_st16_node, prev_st16_prev, hx, hz, hw, small, this, half_small hz, eq_comm]

end Stores

/-! ## `List_remove_node` -/

section Links

variable {m : ByteMemory}

theorem Holds.next_eq (H : T.Holds h m (a ++ x :: w :: b)) : m.ld16 (T.node x) = w :=
  eq_of_half (linked_append.1 H.linked).2.2.1

theorem Holds.next_last (H : T.Holds h m (a ++ [x])) : m.ld16 (T.node x) = 65535#16 :=
  half_eq_none.1 (linked_append.1 H.linked).2.2.1

theorem number_ne_none (hx : x.toNat < T.size) : x.setWidth 32 ≠ 65535#32 := by
  have := T.size_lt
  bv_omega

/-- An entry that is not the first one is not what the head points to. -/
theorem Holds.node_ne_head (H : T.Holds h m (a ++ z :: x :: b)) :
    T.node x ≠ m.ld32 (k.anchor + h) := by
  obtain ⟨w, hw, ne⟩ : ∃ w, (a ++ z :: x :: b).head? = some w ∧ w ≠ x := by
    have := H.nodup
    cases a with
    | nil => exact ⟨z, rfl, fun same => by simp [same] at this⟩
    | cons w a => exact ⟨w, rfl, fun same => by simp [same] at this⟩
  rw [H.first, hw]
  exact fun same =>
    ne ((node_inj (H.small x (by simp)) (H.small w (List.mem_of_head? hw))).1 same).symm

end Links

/-- The end of `List_remove_node`: the links of `x` are cleared. -/
theorem remove_finish {t : State} {m₁ : ByteMemory} (hh : IsHead h) (room : T.Room (s.reg sp) 12)
    (frame₁ : Frame [(s.reg sp - 12#32, 12)] s.mem m₁) (pushed₁ : Pushed s [r4, r5, lr] m₁)
    (same : ∀ r ∈ [r6, r7, r8, r9, r10, fp], t.reg r = s.reg r)
    (hsp : t.reg sp = s.reg sp - 12#32) (h1 : t.reg r1 = 6#32 * x.setWidth 32)
    (h2 : t.reg r2 = T.nodes) (hlr : t.reg lr = T.node x)
    (rem : Removed T h m₁ ((t.mem.st16 (T.node x) 65535#16).st16 (T.node x + 2#32) 65535#16) a b)
    (left : a ++ b = l) :
    Wp k.image k.listRemoveNode (after 1947 k.listRemoveNode) t fun back u => back = s.reg lr ∧
      Saved s u ∧ Frame ((s.reg sp - 12#32, 12) :: T.links h) s.mem u.mem ∧
      T.Holds h u.mem l := by
  subst left
  have at1947 := congrArg (after 1947) (Link.listRemoveNode.eq_1 k)
  rw [at1947]
  simp [after, h1, h2, hlr]
  refine wp_popPc s (pushed_of_links room hh (by simp) (by simp) pushed₁ rem.frame)
    (by simpa using hsp) ?_ fun v hmem saved _ => ⟨rfl, saved, ?_, hmem ▸ rem.holds⟩
  · simpa [calleeSaved] using same
  · rw [hmem]
    exact (frame₁.subset (by simp)).trans (rem.frame.subset (by simp))

/-- `List_remove_node` takes a superblock of the list out of it. -/
theorem listRemoveNode_calls (hh : IsHead h) (H : T.Holds h s.mem (a ++ x :: b))
    (arg0 : s.reg r0 = k.anchor + h) (arg1 : s.reg r1 = x.setWidth 32)
    (room : T.Room (s.reg sp) 12) :
    Calls k.image .listRemoveNode s fun t => Saved s t ∧
      Frame ((s.reg sp - 12#32, 12) :: T.links h) s.mem t.mem ∧ T.Holds h t.mem (a ++ b) := by
  have at1945 := congrArg (after 1945) (Link.listRemoveNode.eq_1 k)
  have at1948 := congrArg (after 1948) (Link.listRemoveNode.eq_1 k)
  set m₁ := s.mem.storeWords (s.reg sp - 12#32) 0 [s.reg r4, s.reg r5, s.reg lr] with hm₁
  have frame₁ : Frame [(s.reg sp - 12#32, 12)] s.mem m₁ :=
    frame_storeWords (by omega) (by simp) .refl
  have pushed₁ : Pushed s [r4, r5, lr] m₁ := pushed_storeWords s (by simp) _
  have H₁ : T.Holds h m₁ _ := H.of_stack (by omega) room hh frame₁
  have nodes₁ : m₁.ld32 (k.anchor + Var.dataBlockListTable) = T.nodes := H₁.nodes
  have hx : x.toNat < T.size := H.small x (by simp)
  rw [calls_listing rfl (Link.listRemoveNode.eq_1 k)]
  rcases List.eq_nil_or_concat' a with rfl | ⟨a, z, rfl⟩
  · have first₁ : m₁.ld32 (k.anchor + h) = T.node x := H₁.first
    cases b with
    | nil =>
      simp [arg0, arg1, ← hm₁, nodes₁, first₁, H₁.next_last (a := [])]
      exact (wp_label rfl).2 (remove_finish (x := x) (a := []) (b := []) hh room frame₁ pushed₁
        (by simp) (by simp) (by simp) (by simp) (by simp) (removed_only hh H₁) (by simp))
    | cons w b =>
      have number := number_ne_none (H.small w (by simp))
      simp [arg0, arg1, ← hm₁, nodes₁, first₁, H₁.next_eq (a := []), number]
      exact (wp_label rfl).2 (remove_finish (x := x) (a := []) (b := w :: b) hh room frame₁ pushed₁
        (by simp) (by simp) (by simp) (by simp) (by simp) (removed_first hh H₁) (by simp))
  · have split : (a ++ [z]) ++ x :: b = a ++ z :: x :: b := by simp
    have H₁' : T.Holds h m₁ (a ++ z :: x :: b) := split ▸ H₁
    have number := number_ne_none (H.small z (by simp))
    cases b with
    | nil =>
      simp [arg0, arg1, ← hm₁, nodes₁, H₁'.node_ne_head, H₁.next_last, at1945, after,
        H₁'.prev_middle, number]
      exact remove_finish (x := x) (a := a ++ [z]) (b := []) hh room frame₁ pushed₁
        (by simp) (by simp) (by simp) (by simp) (by simp) (removed_last hh H₁') (by simp)
    | cons w b =>
      have hz : z.toNat < T.size := H.small z (by simp)
      have hw : w.toNat < T.size := H.small w (by simp)
      have ne : x ≠ w := fun same => by
        have := H₁'.nodup
        simp [same, List.nodup_append] at this
      simp [arg0, arg1, ← hm₁, nodes₁, H₁'.node_ne_head, H₁.next_eq, at1945, at1948, after,
        H₁'.prev_middle, number_ne_none hw, ld16_prev_st16_prev, ld16_node_st16_prev,
        ld32_table_st16_prev, hx, hw, ne]
      exact remove_finish (x := x) (a := a ++ [z]) (b := w :: b) hh room frame₁ pushed₁
        (by simp) (by simp) (by simp) (by simp) (by simp) (removed_middle hh H₁') (by simp)

/-! ## `List_pop_index_node` -/

/-- The registers in the walk of `List_pop_index_node`: `n` more steps are wanted, and the walk has
come to `y`. -/
structure Walk (T : Tables k) (h : BitVec 32) (s : State) (n y : BitVec 16) : Prop where
  r0 : s.reg r0 = k.anchor + h
  r1 : s.reg r1 = n.setWidth 32
  r2 : s.reg r2 = T.nodes
  r3 : s.reg r3 = T.node y
  r4 : s.reg r4 = 6#32
  lr : s.reg lr = 65535#32

/-- A state that differs in scratch registers only. -/
structure Walked (s t : State) : Prop where
  mem : t.mem = s.mem
  regs : ∀ r ∈ [r5, r6, r7, r8, r9, r10, fp, sp], t.reg r = s.reg r

theorem Walked.trans {t u : State} (h : Walked s t) (h' : Walked t u) : Walked s u :=
  ⟨h'.mem.trans h.mem, fun r hr => (h'.regs r hr).trans (h.regs r hr)⟩

theorem toNat_sub_one {n : BitVec 16} (hn : n ≠ 0#16) : (n - 1#16).toNat + 1 = n.toNat := by
  rw [BitVec.toNat_sub_of_le (by bv_omega)]
  bv_omega

theorem setWidth_sub_one {n : BitVec 16} (hn : n ≠ 0#16) :
    (n.setWidth 32 - 1#32).setWidth 16 = n - 1#16 := by
  have one : 1#32 ≤ n.setWidth 32 := by bv_omega
  apply BitVec.eq_of_toNat_eq
  rw [BitVec.toNat_setWidth, BitVec.toNat_sub_of_le one, BitVec.toNat_sub_of_le (by bv_omega)]
  bv_omega

theorem walk_loop {n y : BitVec 16} (walk : Walk T h s n y)
    (H : T.Holds h s.mem (a ++ y :: b))
    (done : ∀ t a' y' b', Walked s t → a ++ y :: b = a' ++ y' :: b' →
      a'.length = min (a.length + n.toNat) (a.length + b.length) →
      t.reg r0 = k.anchor + h → t.reg r2 = T.nodes → t.reg r3 = T.node y' →
      Wp k.image k.listPopIndexNode (after 1957 k.listPopIndexNode) t Q) :
    Wp k.image k.listPopIndexNode (after 1954 k.listPopIndexNode) s Q := by
  have at1954 := congrArg (after 1954) (Link.listPopIndexNode.eq_1 k)
  have at1955 := congrArg (after 1955) (Link.listPopIndexNode.eq_1 k)
  induction b generalizing a n y s with
  | nil =>
    obtain ⟨h0, h1, h2, h3, h4, hlr⟩ := walk
    rw [at1954]
    by_cases zero : n = 0#16
    · simp [after, h1, zero]
      exact (wp_label rfl).2 (done _ a y [] ⟨rfl, by simp⟩ rfl (by simp) (by simpa) (by simpa)
        (by simpa))
    · have more : n.setWidth 32 ≠ 0#32 := setWidth_ne_zero zero
      simp [after, h1, more, at1955, h3, H.next_last, hlr]
      exact done _ a y [] ⟨rfl, by simp⟩ rfl (by simp) (by simpa) (by simpa) (by simpa)
  | cons w b ih =>
    obtain ⟨h0, h1, h2, h3, h4, hlr⟩ := walk
    have hw : w.toNat < T.size := H.small w (by simp)
    have number := number_ne_none hw
    by_cases zero : n = 0#16
    · rw [at1954]
      simp [after, h1, zero]
      exact (wp_label rfl).2 (done _ a y (w :: b) ⟨rfl, by simp⟩ rfl (by simp [zero]) (by simpa)
        (by simpa) (by simpa))
    · have more : n.setWidth 32 ≠ 0#32 := setWidth_ne_zero zero
      have less := setWidth_sub_one zero
      have split : a ++ y :: w :: b = (a ++ [y]) ++ w :: b := by simp
      rw [at1954]
      simp [after, h1, more, at1955, h3, H.next_eq, hlr, number, h2, h4, less]
      refine ih (a := a ++ [y]) (n := n - 1#16) (y := w) ?_ (split ▸ H) ?_
      · constructor <;> simp [*]
      · intro t a' y' b' walked eq len
        refine done t a' y' b' (Walked.trans ?_ walked) (split.trans eq) ?_
        · exact ⟨rfl, by simp⟩
        · simp only [List.length_append, List.length_cons, List.length_nil] at len ⊢
          have := toNat_sub_one zero
          omega

theorem Room.sub {sp : BitVec 32} {n i j : ℕ} (room : T.Room sp n) (hi : 0 < i) (le : j + i ≤ n)
    (fits : n < 2 ^ 32) : T.Room (sp - BitVec.ofNat 32 j) i := by
  have := T.size_pos
  have within : (sp - BitVec.ofNat 32 j - BitVec.ofNat 32 i - (sp - BitVec.ofNat 32 n)).toNat + i ≤
      n := below_within (by omega) fits
  exact ⟨room.nodes.mono hi (by omega) within (by simp),
    room.erase.mono hi (by omega) within (by simp),
    room.data.mono hi Link.data_pos within (by simp)⟩

/-- `List_pop_index_node` takes out the entry at the index, or the last one if the list is
shorter, and returns its number; of an empty list it returns none. -/
theorem listPopIndexNode_calls {n : BitVec 16} (hh : IsHead h) (H : T.Holds h s.mem l)
    (arg0 : s.reg r0 = k.anchor + h) (arg1 : s.reg r1 = n.setWidth 32)
    (room : T.Room (s.reg sp) 20) :
    Calls k.image .listPopIndexNode s fun t => Saved s t ∧
      Frame ((s.reg sp - 20#32, 20) :: T.links h) s.mem t.mem ∧
      (l = [] ∧ t.reg r0 = 65535#32 ∧ T.Holds h t.mem [] ∨
        ∃ a y b, l = a ++ y :: b ∧ a.length = min n.toNat (l.length - 1) ∧
          t.reg r0 = y.setWidth 32 ∧ T.Holds h t.mem (a ++ b)) := by
  have at1957 := congrArg (after 1957) (Link.listPopIndexNode.eq_1 k)
  have at1958 := congrArg (after 1958) (Link.listPopIndexNode.eq_1 k)
  rw [calls_listing rfl (Link.listPopIndexNode.eq_1 k)]
  have first := H.first
  cases l with
  | nil =>
    have null : s.mem.ld32 (k.anchor + h) = 0#32 := first
    simp [arg0, null, at1958, after]
    exact ⟨by simp [Saved, calleeSaved], .refl, H⟩
  | cons y b =>
    have hy : y.toNat < T.size := H.small y (by simp)
    have head : s.mem.ld32 (k.anchor + h) = T.node y := first
    have null : T.node y ≠ 0#32 := node_ne_zero hy
    set m₁ := s.mem.storeWords (s.reg sp - 8#32) 0 [s.reg r4, s.reg lr] with hm₁
    have frame₁ : Frame [(s.reg sp - 8#32, 8)] s.mem m₁ :=
      frame_storeWords (by omega) (by simp) .refl
    have pushed₁ : Pushed s [r4, lr] m₁ := pushed_storeWords s (by simp) _
    have room₁ : T.Room (s.reg sp) 8 := by
      simpa using room.sub (i := 8) (j := 0) (by omega) (by omega) (by omega)
    have H₁ : T.Holds h m₁ (y :: b) := H.of_stack (by omega) room₁ hh frame₁
    have nodes₁ : m₁.ld32 (k.anchor + Var.dataBlockListTable) = T.nodes := H₁.nodes
    simp [arg0, head, null, ← hm₁, nodes₁]
    refine (wp_label rfl).2 (walk_loop (h := h) (n := n) (a := []) (y := y) ?_ H₁ ?_)
    · constructor <;> simp [*]
    · intro t a' y' b' walked split len h0 h2 h3
      rw [List.nil_append] at split
      have mem : t.mem = m₁ := walked.mem
      have hsp : t.reg sp = s.reg sp - 8#32 := by simpa using walked.regs sp (by simp)
      have hy' : y'.toNat < T.size := H.small y' (split ▸ by simp)
      have index := index_node hy'
      rw [at1957]
      simp [after, h2, h3]
      refine (listRemoveNode_calls (T := T) (a := a') (x := y') (b := b') hh ?_ (by simpa)
        (by simpa) ?_).mono fun u removed => ?_
      · simpa [mem, ← split] using H₁
      · simpa [hsp] using room.sub (i := 12) (j := 8) (by omega) (by omega) (by omega)
      · obtain ⟨saved, frame, holds⟩ := removed
        simp [mem, hsp] at frame
        have r4 : u.reg r4 = 2863311531#32 * (T.node y' - T.nodes).sshiftRight 1 := by
          simpa using saved Reg.r4 (by simp [calleeSaved])
        have kept : ∀ r ∈ [r5, r6, r7, r8, r9, r10, fp], u.reg r = s.reg r := by
          have := walked.regs
          simp [Saved, calleeSaved] at saved this ⊢
          simp [saved, this]
        have usp : u.reg sp = s.reg sp - 8#32 := by
          simpa [hsp] using saved sp (by simp [calleeSaved])
        have pushed : Pushed s [Reg.r4, lr] u.mem :=
          pushed_of_call (i := 12) (by omega) room₁ hh (by simp) (by simp) pushed₁ frame
        refine wp_popPc s (by simpa using pushed) (by simpa using usp) ?_ fun v hv back other => ?_
        · simpa [calleeSaved] using kept
        · refine ⟨rfl, back, ?_, a', y', b', split, ?_, ?_, ?_⟩
          · exact hv ▸ frame₁.grow frame (by omega) (by omega)
          · simpa using len
          · rw [other r0 (by simp) (by simp)]
            simpa [r4] using index
          · exact hv ▸ holds

end Tables

end RkNand.Blob
