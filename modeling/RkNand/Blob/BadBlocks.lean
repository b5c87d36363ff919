import RkNand.Blob.Address
import RkNand.Lib.Transition

/-!
# The map of bad blocks

A bitmap for each die, one bit for each of its blocks.  `FtlBbmMapBadBlock` sets the bit of a block
and counts, `FtlBbmIsBadBlock` reads it.
-/

namespace RkNand.Blob

open Arm Arm.Reg ByteMemory

/-- The bitmaps of the dies. -/
structure Bitmaps (k : Link) where
  dies : ℕ
  /-- the bitmap of a die -/
  map : ℕ → BitVec 32
  /-- words of a bitmap -/
  words : ℕ
  blocks : BitVec 16
  blocks_ne : blocks ≠ 0
  dies_le : dies ≤ 8
  words_pos : 0 < words
  words_fit : 4 * words < 2 ^ 31
  covers : blocks.toNat ≤ 32 * words
  map_data : ∀ i < dies, Apart (map i) (4 * words) k.data.1 k.data.2
  map_map : ∀ i < dies, ∀ j < dies, i ≠ j → Apart (map i) (4 * words) (map j) (4 * words)

namespace Bitmaps

variable {k : Link} (B : Bitmaps k)

/-- The word with the bit of a block. -/
def word (x : ℕ) : BitVec 32 :=
  B.map (x / B.blocks.toNat) + BitVec.ofNat 32 (4 * (x % B.blocks.toNat / 32))

/-- The bit of a block. -/
def bad (m : ByteMemory) (x : ℕ) : Bool := (m.ld32 (B.word x)).getLsbD (x % B.blocks.toNat % 32)

/-- How many times a block has been marked. -/
def count (_ : Bitmaps k) (m : ByteMemory) : BitVec 16 := m.ld16 (k.anchor + Var.bbtCount)

/-- A block of one of the dies. -/
def Valid (x : ℕ) : Prop := x < 65536 ∧ x / B.blocks.toNat < B.dies

/-- The variables of the memory are those of the bitmaps. -/
structure Holds (m : ByteMemory) : Prop where
  blocks : k.blocks m = B.blocks
  table : ∀ i < B.dies, m.ld32 (k.anchor + BitVec.ofNat 32 (4 * i) + Var.bbtMaps) = B.map i

variable {B} {m m' : ByteMemory} {x y : ℕ}

theorem index_lt (B : Bitmaps k) (x : ℕ) : x % B.blocks.toNat / 32 < B.words := by
  have pos : 0 < B.blocks.toNat := by
    have := B.blocks_ne
    bv_omega
  have := Nat.mod_lt x pos
  have := B.covers
  omega

theorem word_within (x : ℕ) :
    (B.word x - B.map (x / B.blocks.toNat)).toNat + 4 ≤ 4 * B.words := by
  have := B.index_lt x
  have := B.words_fit
  rw [word, add_sub_cancel_left, BitVec.toNat_ofNat]
  omega

/-- Two blocks share a word, or their words are apart. -/
theorem word_eq_or_apart (hx : B.Valid x) (hy : B.Valid y) :
    B.word x = B.word y ∨ Apart (B.word x) 4 (B.word y) 4 := by
  by_cases die : x / B.blocks.toNat = y / B.blocks.toNat
  · by_cases index : x % B.blocks.toNat / 32 = y % B.blocks.toNat / 32
    · exact .inl (by rw [word, word, die, index])
    · right
      have := B.index_lt x
      have := B.index_lt y
      have := B.words_fit
      rw [word, word, die, apart_add_add]
      unfold Apart
      bv_omega
  · exact .inr ((B.map_map _ hx.2 _ hy.2 die).mono (by omega) (by omega) (word_within x)
      (word_within y))

/-- A block is told by its word and its bit. -/
theorem eq_of_word (hx : B.Valid x) (hy : B.Valid y) (same : B.word x = B.word y)
    (bit : x % B.blocks.toNat % 32 = y % B.blocks.toNat % 32) : x = y := by
  have hxw := word_within (B := B) x
  have hyw := word_within (B := B) y
  by_cases die : x / B.blocks.toNat = y / B.blocks.toNat
  · have index : x % B.blocks.toNat / 32 = y % B.blocks.toNat / 32 := by
      have := B.index_lt x
      have := B.index_lt y
      have := B.words_fit
      rw [word, word, die] at same
      have := congrArg BitVec.toNat (add_left_cancel same)
      simp only [BitVec.toNat_ofNat] at this
      omega
    rw [← Nat.div_add_mod x B.blocks.toNat, ← Nat.div_add_mod y B.blocks.toNat, die,
      ← Nat.div_add_mod (x % B.blocks.toNat) 32, ← Nat.div_add_mod (y % B.blocks.toNat) 32, bit,
      index]
  · have := (B.map_map _ hx.2 _ hy.2 die).mono (by omega) (by omega) hxw hyw
    rw [same] at this
    simp [Apart] at this

theorem getLsbD_or_one_shift (w : BitVec 32) {i j : ℕ} (hj : j < 32) :
    (w ||| 1#32 <<< i).getLsbD j = (w.getLsbD j || decide (j = i)) := by
  rw [BitVec.getLsbD_or, BitVec.getLsbD_shiftLeft, BitVec.getLsbD_one]
  congr 1
  simp only [hj, decide_true, Bool.true_and]
  by_cases below : j < i
  · simp [below, below.ne]
  · have : j - i = 0 ↔ j = i := by omega
    simp [below, this]

/-- Setting the bit of a block. -/
theorem bad_st32 (hx : B.Valid x) (hy : B.Valid y) :
    B.bad (m.st32 (B.word x) (m.ld32 (B.word x) ||| 1#32 <<< (x % B.blocks.toNat % 32))) y =
      (decide (y = x) || B.bad m y) := by
  rcases word_eq_or_apart hx hy with same | apart
  · rw [bad, bad, ← same, ld32_st32_self, getLsbD_or_one_shift _ (by omega), Bool.or_comm]
    congr 1
    rw [decide_eq_decide]
    exact ⟨fun bit => eq_of_word hy hx same.symm bit, fun eq => by rw [eq]⟩
  · have ne : y ≠ x := by
      rintro rfl
      simp [Apart] at apart
    rw [bad, ld32_st32_apart _ apart, bad]
    simp [ne]

/-! ## What the calls leave alone -/

/-- A range apart from the bitmaps. -/
def Away (B : Bitmaps k) (r : BitVec 32 × ℕ) : Prop :=
  0 < r.2 ∧ ∀ i < B.dies, Apart r.1 r.2 (B.map i) (4 * B.words)

theorem Away.word {r : BitVec 32 × ℕ} (away : B.Away r) (hy : B.Valid y) :
    Apart r.1 r.2 (B.word y) 4 :=
  (away.2 _ hy.2).mono away.1 (by omega) (by simp) (word_within y)

theorem bad_of_frame {rs : List (BitVec 32 × ℕ)} (frame : Frame rs m m')
    (away : ∀ r ∈ rs, B.Away r) (hy : B.Valid y) : B.bad m' y = B.bad m y := by
  rw [bad, frame.ld32 fun r hr => (away r hr).word hy, bad]

/-- The bitmaps are as they were: their places, their bits, and the count. -/
structure Quiet (B : Bitmaps k) (m m' : ByteMemory) : Prop where
  blocks : k.blocks m' = k.blocks m
  table : ∀ i < B.dies, m'.ld32 (k.anchor + BitVec.ofNat 32 (4 * i) + Var.bbtMaps) =
    m.ld32 (k.anchor + BitVec.ofNat 32 (4 * i) + Var.bbtMaps)
  bad : ∀ x, B.Valid x → B.bad m' x = B.bad m x
  count : B.count m' = B.count m

theorem Quiet.trans {m'' : ByteMemory} (h : B.Quiet m m') (h' : B.Quiet m' m'') :
    B.Quiet m m'' where
  blocks := h'.blocks.trans h.blocks
  table i hi := (h'.table i hi).trans (h.table i hi)
  bad x hx := (h'.bad x hx).trans (h.bad x hx)
  count := h'.count.trans h.count

theorem Quiet.holds (quiet : B.Quiet m m') (H : B.Holds m) : B.Holds m' where
  blocks := quiet.blocks.trans H.blocks
  table i hi := (quiet.table i hi).trans (H.table i hi)

/-- A range apart from the bitmaps and the blob's variables. -/
def Clear (B : Bitmaps k) (r : BitVec 32 × ℕ) : Prop :=
  B.Away r ∧ Apart r.1 r.2 k.data.1 k.data.2

theorem table_within {i : ℕ} (hi : i < B.dies) :
    (k.anchor + BitVec.ofNat 32 (4 * i) + Var.bbtMaps - k.data.1).toNat + 4 ≤ k.data.2 := by
  have := B.dies_le
  rw [add_assoc]
  refine Link.anchor_within ?_
  unfold Var.bbtMaps
  bv_omega

theorem quiet_of_frame {rs : List (BitVec 32 × ℕ)} (frame : Frame rs m m')
    (clear : ∀ r ∈ rs, B.Clear r) : B.Quiet m m' where
  blocks := frame.ld16 fun r hr =>
    (clear r hr).2.mono (clear r hr).1.1 (by omega) (by simp) (Link.anchor_within (by decide))
  table i hi := frame.ld32 fun r hr =>
    (clear r hr).2.mono (clear r hr).1.1 (by omega) (by simp) (table_within hi)
  bad x hx := bad_of_frame frame (fun r hr => (clear r hr).1) hx
  count := frame.ld16 fun r hr =>
    (clear r hr).2.mono (clear r hr).1.1 (by omega) (by simp) (Link.anchor_within (by decide))

/-- Stack of `n` bytes, apart from the bitmaps and the variables. -/
theorem Clear.sub {sp : BitVec 32} {n i j : ℕ} (clear : B.Clear (sp - BitVec.ofNat 32 n, n))
    (hi : 0 < i) (le : i + j ≤ n) (fits : n < 2 ^ 32) :
    B.Clear (sp - BitVec.ofNat 32 j - BitVec.ofNat 32 i, i) := by
  have within :
      (sp - BitVec.ofNat 32 j - BitVec.ofNat 32 i - (sp - BitVec.ofNat 32 n)).toNat + i ≤ n :=
    below_within le fits
  have := B.words_pos
  exact ⟨⟨hi, fun d hd => (clear.1.2 d hd).mono hi (by omega) within (by simp)⟩,
    clear.2.mono hi Link.data_pos within (by simp)⟩

/-! ## The code -/

section Code

variable {s : State} {o : Outside}

theorem half_div (hx : x < 65536) :
    ((BitVec.ofNat 32 x / B.blocks.setWidth 32).setWidth 16).setWidth 32 =
      BitVec.ofNat 32 (x / B.blocks.toNat) := by
  have small : x / B.blocks.toNat < 65536 := (Nat.div_le_self ..).trans_lt hx
  apply BitVec.eq_of_toNat_eq
  simp only [BitVec.toNat_setWidth, BitVec.toNat_udiv, BitVec.toNat_ofNat]
  rw [Nat.mod_eq_of_lt (a := x) (by omega), Nat.mod_eq_of_lt (a := B.blocks.toNat) (by omega)]
  generalize x / B.blocks.toNat = q at *
  omega

theorem half_mod (hx : x < 65536) :
    ((BitVec.ofNat 32 x % B.blocks.setWidth 32).setWidth 16).setWidth 32 =
      BitVec.ofNat 32 (x % B.blocks.toNat) := by
  have small : x % B.blocks.toNat < 65536 := (Nat.mod_le ..).trans_lt hx
  apply BitVec.eq_of_toNat_eq
  simp only [BitVec.toNat_setWidth, BitVec.toNat_umod, BitVec.toNat_ofNat]
  rw [Nat.mod_eq_of_lt (a := x) (by omega), Nat.mod_eq_of_lt (a := B.blocks.toNat) (by omega)]
  generalize x % B.blocks.toNat = q at *
  omega

theorem shiftLeft_two (q : ℕ) : BitVec.ofNat 32 q <<< 2 = BitVec.ofNat 32 (4 * q) := by
  apply BitVec.eq_of_toNat_eq
  simp only [BitVec.toNat_shiftLeft, BitVec.toNat_ofNat, Nat.shiftLeft_eq]
  omega

theorem word_offset {q : ℕ} (hq : q < 65536) :
    BitVec.ofNat 32 q >>> 5 <<< 2 = BitVec.ofNat 32 (4 * (q / 32)) := by
  apply BitVec.eq_of_toNat_eq
  simp only [BitVec.toNat_shiftLeft, BitVec.toNat_ushiftRight, BitVec.toNat_ofNat,
    Nat.shiftLeft_eq, Nat.shiftRight_eq_div_pow]
  omega

theorem bit_place {q : ℕ} (hq : q < 65536) : (q % 4294967296 &&& 31) % 256 = q % 32 := by
  rw [Nat.mod_eq_of_lt (a := q) (by omega), Nat.and_two_pow_sub_one_eq_mod q 5]
  omega

theorem shift_and_one (w : BitVec 32) (i : ℕ) :
    w >>> i &&& 1#32 = if w.getLsbD i then 1#32 else 0#32 := by
  have := BitVec.and_one_eq_setWidth_ofBool_getLsbD (x := w >>> i)
  rw [this, BitVec.getLsbD_ushiftRight, Nat.add_zero]
  cases w.getLsbD i <;> rfl

/-- `FtlBbmIsBadBlock` -/
theorem ftlBbmIsBadBlock_calls (div : k.Divides o) (H : B.Holds s.mem) (hx : B.Valid x)
    (arg : s.reg r0 = BitVec.ofNat 32 x)
    (room : B.Clear (s.reg sp - BitVec.ofNat 32 (o.depth + 24), o.depth + 24)) :
    Calls k.image .ftlBbmIsBadBlock s fun t => Saved s t ∧
      Frame [(s.reg sp - BitVec.ofNat 32 (o.depth + 24), o.depth + 24)] s.mem t.mem ∧
      t.reg r0 = if B.bad s.mem x then 1#32 else 0#32 := by
  have := o.depth_le
  set m₁ := s.mem.storeWords (s.reg sp - 24#32) 0
    [s.reg r4, s.reg r5, s.reg r6, s.reg r7, s.reg r8, s.reg lr] with hm₁
  have framed₁ : Framed s [r4, r5, r6, r7, r8, lr] o.depth m₁ :=
    framed_storeWords s (by simp) (by simp only [List.length_cons, List.length_nil]; omega)
  have quiet {m : ByteMemory} (framed : Framed s [r4, r5, r6, r7, r8, lr] o.depth m) :
      B.Quiet s.mem m := quiet_of_frame framed.frame (by simpa using room)
  have blocks₁ : m₁.ld16 (k.anchor + Var.blksPerDie) = B.blocks := ((quiet framed₁).holds H).blocks
  have small : x % B.blocks.toNat < 65536 := (Nat.mod_le ..).trans_lt hx.1
  have nonzero := setWidth_ne_zero B.blocks_ne
  rw [calls_listing rfl (Link.ftlBbmIsBadBlock.eq_1 k)]
  simp [← hm₁, blocks₁]
  refine div.uidivmod_calls (by simpa using nonzero) fun u frame saved h0 h1 => ?_
  simp [Saved, calleeSaved] at frame saved h0 h1
  have framed_u := Link.framed_outside framed₁ (by simp) (by simp) frame
  refine div.uidiv_calls (by simpa [saved] using nonzero) fun v frame' saved' h0' => ?_
  simp [Saved, calleeSaved, saved, h1] at frame' saved' h0'
  have framed_v := Link.framed_outside framed_u (by simp) (by simp) frame'
  have table := ((quiet framed_v).holds H).table _ hx.2
  refine wp_popPc s (by simpa using framed_v.pushed) (by simp [saved']) ?_
    fun w memw back other => ⟨rfl, back, ?_, ?_⟩
  · simp [calleeSaved, saved']
  · rw [memw]
    exact framed_v.frame
  · rw [other r0 (by simp) (by simp)]
    simp [saved', h0', arg, half_div hx.1, half_mod hx.1, shiftLeft_two, word_offset small,
      bit_place small, table]
    rw [← (quiet framed_v).bad x hx]
    exact shift_and_one ..

/-- Stack for a call of `FtlBbmMapBadBlock` and of `printk` below it, and memory of `printk`, apart
from each other, the bitmaps and the variables. -/
structure Room (B : Bitmaps k) (o : Outside) (sp : BitVec 32) : Prop where
  stack : B.Clear (sp - BitVec.ofNat 32 (o.depth + 32), o.depth + 32)
  own : ∀ r ∈ o.own, B.Clear r
  own_stack : ∀ r ∈ o.own,
    Apart r.1 r.2 (sp - BitVec.ofNat 32 (o.depth + 32)) (o.depth + 32)

theorem Room.frame (room : B.Room o (s.reg sp)) : B.Clear (s.reg sp - 32#32, 32) := by
  have := o.depth_le
  simpa using room.stack.sub (i := 32) (j := 0) (by omega) (by omega) (by omega)

theorem Room.printk (room : B.Room o (s.reg sp)) :
    ∀ r ∈ o.ranges (s.reg sp - 32#32), B.Clear r := by
  have := o.depth_le
  intro r hr
  rcases List.mem_cons.1 hr with rfl | hr
  · exact room.stack.sub (j := 32) o.depth_pos (by omega) (by omega)
  · exact room.own r hr

/-- Part of the stack is apart from the memory of `printk`. -/
theorem Room.own_apart (room : B.Room o (s.reg sp)) {r : BitVec 32 × ℕ} (hr : r ∈ o.own)
    {i j : ℕ} (hi : 0 < i) (le : i + j ≤ o.depth + 32) :
    Apart r.1 r.2 (s.reg sp - BitVec.ofNat 32 j - BitVec.ofNat 32 i) i := by
  have := o.depth_le
  exact (room.own_stack r hr).mono (room.own r hr).1.1 hi (by simp) (below_within le (by omega))

theorem Room.fits (room : B.Room o (s.reg sp)) : o.Fits (s.reg sp - 32#32) := fun _ hr =>
  ⟨(room.own _ hr).1.1, room.own_apart (j := 32) hr o.depth_pos (by omega)⟩

/-- What `FtlBbmMapBadBlock` writes after its push. -/
def written (B : Bitmaps k) (o : Outside) (sp : BitVec 32) (x : ℕ) : List (BitVec 32 × ℕ) :=
  (B.word x, 4) :: (sp - 32#32, 12) :: (k.anchor + Var.bbtCount, 2) :: o.ranges (sp - 32#32)

theorem Room.pushed (room : B.Room o (s.reg sp)) (hx : B.Valid x)
    (pushed : Pushed s [r4, r5, r6, r7, lr] m) (frame : Frame (B.written o (s.reg sp) x) m m') :
    Pushed s [r4, r5, r6, r7, lr] m' := by
  have within : (s.reg sp - 20#32 - (s.reg sp - 32#32)).toNat + 20 ≤ 32 := by
    rw [sub_sub_sub_cancel_left]
    decide
  have := o.depth_le
  refine pushed.of_frame (by simp) frame fun r hr => ?_
  simp only [written, Outside.ranges, Outside.stack, List.mem_cons] at hr
  rcases hr with rfl | rfl | rfl | rfl | hr
  · exact ⟨by simp, (room.frame.1.word hx).symm.mono (by simp) (by simp) (by simp) within⟩
  · refine ⟨by simp, ?_⟩
    simp only [List.length_cons, List.length_nil, Nat.reduceAdd, Nat.reduceMul]
    generalize s.reg sp = a
    unfold Apart
    bv_omega
  · exact ⟨by simp, room.frame.2.symm.mono (by simp) (by simp)
      (Link.anchor_within (n := 2) (by decide)) within⟩
  · refine ⟨o.depth_pos, ?_⟩
    simp only [List.length_cons, List.length_nil, Nat.reduceAdd, Nat.reduceMul]
    generalize s.reg sp = a
    unfold Apart
    bv_omega
  · exact ⟨(room.own r hr).1.1, by
      simpa using room.own_apart (i := 20) (j := 0) hr (by omega) (by omega)⟩

/-- The bits of a bitmap are apart from the variables. -/
theorem Holds.st32_word (H : B.Holds m) (hx : B.Valid x) (v : BitVec 32) :
    B.Holds (m.st32 (B.word x) v) ∧ B.count (m.st32 (B.word x) v) = B.count m := by
  have data : Apart (B.word x) 4 k.data.1 k.data.2 :=
    (B.map_data _ hx.2).mono (by omega) Link.data_pos (word_within x) (by simp)
  have half {c : BitVec 32} (hc : (c + 2752#32).toNat + 2 ≤ 3648) :
      (m.st32 (B.word x) v).ld16 (k.anchor + c) = m.ld16 (k.anchor + c) :=
    ld16_st32_apart _ (data.mono (by omega) (by omega) (by simp) (Link.anchor_within hc))
  refine ⟨⟨(half (by decide)).trans H.blocks, fun i hi => ?_⟩, half (by decide)⟩
  rw [← H.table i hi]
  exact ld32_st32_apart _ (data.mono (by omega) (by omega) (by simp) (table_within hi))

/-- The count is apart from the other variables and the bitmaps. -/
theorem Holds.st16_count (H : B.Holds m) (v : BitVec 16) :
    B.Holds (m.st16 (k.anchor + Var.bbtCount) v) ∧
      ∀ y, B.Valid y → B.bad (m.st16 (k.anchor + Var.bbtCount) v) y = B.bad m y := by
  refine ⟨⟨?_, fun i hi => ?_⟩, fun y hy => ?_⟩
  · rw [← H.blocks]
    exact ld16_st16_apart _ (by rw [apart_add_add]; decide)
  · rw [← H.table i hi, add_assoc]
    refine ld32_st16_apart _ ?_
    have := B.dies_le
    rw [apart_add_add]
    unfold Apart Var.bbtCount Var.bbtMaps
    bv_omega
  · rw [bad, bad, ld32_st16_apart]
    exact (B.map_data _ hy.2).symm.mono (by omega) (by omega) (Link.anchor_within (by decide))
      (word_within y)

/-- `FtlBbmMapBadBlock` marks the block and counts. -/
theorem ftlBbmMapBadBlock_calls (div : k.Divides o) (prints : k.Prints o) (H : B.Holds s.mem)
    (hx : B.Valid x) (arg : s.reg r0 = BitVec.ofNat 32 x) (room : B.Room o (s.reg sp)) :
    Calls k.image .ftlBbmMapBadBlock s fun t => Saved s t ∧ t.reg r0 = 0 ∧ B.Holds t.mem ∧
      (∀ y, B.Valid y → B.bad t.mem y = (decide (y = x) || B.bad s.mem y)) ∧
      B.count t.mem = B.count s.mem + 1 := by
  have := o.depth_le
  set m₁ := s.mem.storeWords (s.reg sp - 32#32) 0
    [s.reg r0, s.reg r1, s.reg r2, s.reg r4, s.reg r5, s.reg r6, s.reg r7, s.reg lr] with hm₁
  have framed₁ : Framed s [r0, r1, r2, r4, r5, r6, r7, lr] o.depth m₁ :=
    framed_storeWords s (by simp) (by simp only [List.length_cons, List.length_nil]; omega)
  have quiet₁ {m : ByteMemory} (framed : Framed s [r0, r1, r2, r4, r5, r6, r7, lr] o.depth m) :
      B.Quiet s.mem m := quiet_of_frame framed.frame (by simpa using room.stack)
  have blocks₁ : m₁.ld16 (k.anchor + Var.blksPerDie) = B.blocks := ((quiet₁ framed₁).holds H).blocks
  have small : x % B.blocks.toNat < 65536 := (Nat.mod_le ..).trans_lt hx.1
  have nonzero := setWidth_ne_zero B.blocks_ne
  rw [calls_listing rfl (Link.ftlBbmMapBadBlock.eq_1 k)]
  simp [← hm₁, blocks₁]
  refine div.uidiv_calls (by simpa using nonzero) fun u frame saved h0 => ?_
  simp [Saved, calleeSaved, arg] at frame saved h0
  have framed_u := Link.framed_outside framed₁ (by simp) (by simp) frame
  refine div.uidivmod_calls (by simpa [saved] using nonzero) fun v frame' saved' h0' h1' => ?_
  simp [Saved, calleeSaved, saved, h0] at frame' saved' h1'
  have framed_v := Link.framed_outside framed_u (by simp) (by simp) frame'
  have quiet_v : B.Quiet s.mem v.mem := quiet₁ framed_v
  have table := (quiet_v.holds H).table _ hx.2
  have bit : (x % 4294967296 % (B.blocks.toNat % 4294967296) % 65536 % 4294967296 &&& 31) % 256 =
      x % B.blocks.toNat % 32 := by
    have := hx.1
    rw [Nat.mod_eq_of_lt (a := x) (by omega), Nat.mod_eq_of_lt (a := B.blocks.toNat) (by omega),
      Nat.mod_eq_of_lt small, bit_place small]
  simp [saved', h1', half_div hx.1, half_mod hx.1, shiftLeft_two, word_offset small, bit, table]
  rw [← word]
  set w := v.mem.ld32 (B.word x) ||| 1#32 <<< (x % B.blocks.toNat % 32) with hw
  refine prints.printk_calls (by simpa [saved'] using room.fits) fun t savedt framet => ?_
  simp [Saved, calleeSaved, saved'] at savedt framet
  simp only [savedt, Link.bbtCount_addr]
  set m₂ := v.mem.st32 (B.word x) w
  set m₃ := m₂.st32 (s.reg sp - 32#32) w
  have quiet₃ : B.Quiet m₂ m₃ := by
    have frame₃ : Frame [(s.reg sp - 32#32, 32)] m₂ m₃ :=
      Frame.st32 .refl (List.mem_singleton_self _) (by simp) (by simp)
    exact quiet_of_frame frame₃ (by simpa using room.frame)
  have quiet₄ : B.Quiet m₃ t.mem := quiet_of_frame framet room.printk
  have quiet := quiet₃.trans quiet₄
  have bits : ∀ y, B.Valid y → B.bad t.mem y = (decide (y = x) || B.bad s.mem y) := by
    intro y hy
    rw [quiet.bad y hy, bad_st32 hx hy, quiet_v.bad y hy]
  have pushed : Pushed s [r4, r5, r6, r7, lr] (t.mem.st16 (k.anchor + Var.bbtCount)
      ((BitVec.setWidth 32 (t.mem.ld16 (k.anchor + Var.bbtCount)) + 1#32).setWidth 16)) := by
    refine room.pushed hx (framed_v.pushed.drop (n := 3) (by simp)) ?_
    refine Frame.st16 (r := (k.anchor + Var.bbtCount, 2)) ?_ (by simp [written])
      (by simp) (by simp)
    refine Frame.trans ?_ (framet.subset fun r hr => by simp [written, hr])
    refine Frame.st32 (r := (s.reg sp - 32#32, 12)) ?_ (by simp [written]) (by simp) (by simp)
    exact Frame.st32 (r := (B.word x, 4)) .refl (by simp [written]) (by simp) (by simp)
  obtain ⟨holds₂, count₂⟩ := (quiet_v.holds H).st32_word hx w
  obtain ⟨holds₅, bits₅⟩ := (quiet.holds holds₂).st16_count
    ((BitVec.setWidth 32 (t.mem.ld16 (k.anchor + Var.bbtCount)) + 1#32).setWidth 16)
  refine wp_popPc s pushed (by simp; bv_omega) (by simp [calleeSaved, savedt])
    fun v hv back other => ⟨rfl, back, ?_, ?_, fun y hy => ?_, ?_⟩
  · rw [other r0 (by simp) (by simp)]
    simp
  · rw [hv]
    exact holds₅
  · rw [hv]
    exact (bits₅ y hy).trans (bits y hy)
  · rw [hv]
    have : B.count t.mem = B.count s.mem := quiet.count.trans (count₂.trans quiet_v.count)
    simp [count] at this ⊢
    rw [this]
    bv_omega

end Code

/-! ## Runs -/

section Runs

variable {o : Outside} {marked : List ℕ} {s t : State}

/-- A call of one of the two functions. -/
inductive Op
  | mark (x : ℕ)
  | ask (x : ℕ)

namespace Op

def symbol : Op → Symbol
  | .mark _ => .ftlBbmMapBadBlock
  | .ask _ => .ftlBbmIsBadBlock

def block : Op → ℕ
  | .mark x | .ask x => x

/-- The blocks marked so far, after the call. -/
def apply (marked : List ℕ) : Op → List ℕ
  | .mark x => x :: marked
  | .ask _ => marked

end Op

/-- The state `s` is at a call of `op`, after the memory was `m`. -/
structure At (B : Bitmaps k) (o : Outside) (op : Op) (m : ByteMemory) (s : State) : Prop where
  quiet : B.Quiet m s.mem
  valid : B.Valid op.block
  arg : s.reg r0 = BitVec.ofNat 32 op.block
  room : B.Room o (s.reg sp)

/-- One call; between two calls the rest of the FTL leaves the bitmaps alone. -/
inductive Step (B : Bitmaps k) (o : Outside) : ByteMemory × List ℕ → ByteMemory × List ℕ → Prop
  | call {op : Op} {m : ByteMemory} {marked : List ℕ} {s t : State} (entry : B.At o op m s)
      (back : Returns k.image op.symbol s t) : Step B o (m, marked) (t.mem, op.apply marked)

/-- The bits are those of `m₀` and of the blocks marked since, and the count has gone up by one for
each marking. -/
structure Good (B : Bitmaps k) (m₀ m : ByteMemory) (marked : List ℕ) : Prop where
  holds : B.Holds m
  bad : ∀ y, B.Valid y → B.bad m y = (decide (y ∈ marked) || B.bad m₀ y)
  count : B.count m = B.count m₀ + BitVec.ofNat 16 marked.length

/-- What a call answers. -/
def Answers (B : Bitmaps k) (m₀ : ByteMemory) (marked : List ℕ) (t : State) : Op → Prop
  | .mark _ => t.reg r0 = 0#32
  | .ask x => t.reg r0 = if x ∈ marked ∨ B.bad m₀ x then 1#32 else 0#32

variable {m₀ : ByteMemory} {op : Op}

theorem Good.quiet (good : B.Good m₀ m marked) (quiet : B.Quiet m m') : B.Good m₀ m' marked where
  holds := quiet.holds good.holds
  bad y hy := (quiet.bad y hy).trans (good.bad y hy)
  count := quiet.count.trans good.count

/-- Every call comes back with the right answer. -/
theorem good_call (div : k.Divides o) (prints : k.Prints o) (good : B.Good m₀ m marked)
    (entry : B.At o op m s) : Calls k.image op.symbol s fun t =>
      B.Answers m₀ marked t op ∧ B.Good m₀ t.mem (op.apply marked) := by
  have good := good.quiet entry.quiet
  obtain ⟨-, valid, arg, room⟩ := entry
  cases op with
  | mark x =>
    refine (ftlBbmMapBadBlock_calls (x := x) div prints good.holds valid arg room).mono
      fun t marking => ?_
    obtain ⟨_, answer, holds, bits, count⟩ := marking
    refine ⟨answer, holds, fun y hy => ?_, ?_⟩
    · rw [bits y hy, good.bad y hy]
      simp [Op.apply, Bool.or_assoc]
    · rw [count, good.count, Op.apply, List.length_cons]
      bv_omega
  | ask x =>
    have stack : B.Clear (s.reg sp - BitVec.ofNat 32 (o.depth + 24), o.depth + 24) := by
      have := o.depth_le
      simpa using room.stack.sub (i := o.depth + 24) (j := 0) (by omega) (by omega) (by omega)
    refine (ftlBbmIsBadBlock_calls (x := x) div good.holds valid arg stack).mono
      fun t asked => ?_
    obtain ⟨_, frame, answer⟩ := asked
    refine ⟨?_, good.quiet (quiet_of_frame frame (by simpa using stack))⟩
    rw [good.bad x valid] at answer
    simpa [Answers] using answer

theorem good_step (div : k.Divides o) (prints : k.Prints o) {p q : ByteMemory × List ℕ}
    (step : B.Step o p q) (good : B.Good m₀ p.1 p.2) : B.Good m₀ q.1 q.2 := by
  obtain ⟨entry, back⟩ := step
  exact ((good_call div prints good entry).of_returns back).2

/-- After any sequence of calls a block is told bad exactly when it was so at the start or has been
marked since, and no block is lost or gained otherwise.  The count is of the markings: a block
marked twice counts twice. -/
theorem badBlocks_reachable (div : k.Divides o) (prints : k.Prints o) (start : B.Holds m₀)
    (run : Relation.ReflTransGen (B.Step o) (m₀, []) (m, marked)) :
    B.count m = B.count m₀ + BitVec.ofNat 16 marked.length ∧
      ∀ op s, B.At o op m s → Calls k.image op.symbol s fun t =>
        B.Answers m₀ marked t op ∧ B.Step o (m, marked) (t.mem, op.apply marked) := by
  have good : B.Good m₀ m marked :=
    Transition.reflTransGen_invariant (I := fun p => B.Good m₀ p.1 p.2)
      (fun _ _ step => good_step div prints step) run ⟨start, fun y _ => by simp, by simp⟩
  refine ⟨good.count, fun op s entry => ?_⟩
  obtain ⟨t, back, answer, _⟩ := good_call div prints good entry
  exact ⟨t, back, answer, .call entry back⟩

end Runs

/-! ## One die of 4096 blocks -/

def sampleBitmaps : Bitmaps dividing where
  dies := 1
  map _ := 0x1000#32
  words := 128
  blocks := 4096
  blocks_ne := by decide
  dies_le := by decide
  words_pos := by decide
  words_fit := by decide
  covers := by decide
  map_data := by decide
  map_map := by decide

theorem dividing_prints : dividing.Prints sampleOutside :=
  fun s _ => ⟨s, rfl, fun _ _ => rfl, .refl⟩

/-- The memory with the geometry and the place of the bitmap, and no bad block. -/
def sampleMemory : ByteMemory :=
  (ByteMemory.st16 (fun _ => 0) (0x20000#32 + Var.blksPerDie) 4096#16).st32
    (0x20000#32 + Var.bbtMaps) 0x1000#32

theorem sampleMemory_holds : sampleBitmaps.Holds sampleMemory where
  blocks := by decide
  table := by decide

/-- A state at the call `FtlBbmMapBadBlock(5)`. -/
def sampleCall : State where
  reg r := if r = r0 then 5#32 else if r = sp then 0x8000#32 else 0#32
  flags := ⟨false, false, false, false⟩
  mem := sampleMemory

theorem sampleCall_at : sampleBitmaps.At sampleOutside (.mark 5) sampleMemory sampleCall where
  quiet := ⟨rfl, fun _ _ => rfl, fun _ _ => rfl, rfl⟩
  valid := ⟨by decide, by decide⟩
  arg := rfl
  room := ⟨⟨⟨by decide, by decide⟩, by decide⟩, by simp [sampleOutside], by simp [sampleOutside]⟩

/-- After block 5 is marked it is told bad, and block 6 is not. -/
theorem badBlocks_reachable_mark : ∃ m, sampleBitmaps.count m = 1 ∧
    (∀ s, sampleBitmaps.At sampleOutside (.ask 5) m s →
      Calls dividing.image .ftlBbmIsBadBlock s fun t => t.reg r0 = 1#32) ∧
    ∀ s, sampleBitmaps.At sampleOutside (.ask 6) m s →
      Calls dividing.image .ftlBbmIsBadBlock s fun t => t.reg r0 = 0#32 := by
  have clean : sampleBitmaps.Good sampleMemory sampleMemory [] :=
    ⟨sampleMemory_holds, fun y _ => by simp, by simp⟩
  obtain ⟨t, back, -⟩ := good_call (dividing_divides (by decide)) dividing_prints clean
    sampleCall_at
  obtain ⟨count, asked⟩ := badBlocks_reachable (dividing_divides (by decide)) dividing_prints
    sampleMemory_holds (.single (.call sampleCall_at back))
  have fine : sampleBitmaps.bad sampleMemory 6 = false := by decide
  refine ⟨t.mem, count.trans (by decide), fun s entry => ?_, fun s entry => ?_⟩
  · exact (asked (.ask 5) s entry).mono fun t h => by simpa [Answers, Op.apply] using h.1
  · exact (asked (.ask 6) s entry).mono fun t h => by simpa [Answers, Op.apply, fine] using h.1

end Bitmaps

end RkNand.Blob
