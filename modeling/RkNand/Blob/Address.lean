import RkNand.Blob.Listing

/-!
# Block addresses

`V2P_block` turns a plane and a block in it into the number of a physical block, `P2V_plane` and
`P2V_block_in_plane` turn that back.  The physical blocks of a die are numbered through its planes:
a die has `blocks` of them, and its planes take turns.
-/

namespace RkNand.Blob

open Arm Arm.Reg ByteMemory

namespace Link

variable (k : Link)

/-- The range of the blob's variables around `.LANCHOR2`. -/
def data : BitVec 32 × ℕ := (k.anchor - 2752, 3648)

/-- Planes of a die. -/
def planes (m : ByteMemory) : BitVec 16 := m.ld16 (k.anchor + Var.planesPerDie)

/-- Blocks of a die. -/
def blocks (m : ByteMemory) : BitVec 16 := m.ld16 (k.anchor + Var.blksPerDie)

/-- The `n` bytes of stack below `sp` are apart from the data. -/
def StackRoom (sp : BitVec 32) (n : ℕ) : Prop :=
  Apart (sp - BitVec.ofNat 32 n) n k.data.1 k.data.2

variable {k}

theorem anchor_within {c : BitVec 32} {n : ℕ} (hc : (c + 2752#32).toNat + n ≤ 3648) :
    (k.anchor + c - k.data.1).toNat + n ≤ k.data.2 := by
  have : k.anchor + c - k.data.1 = c + 2752#32 := by
    simp only [Link.data]
    bv_omega
  rwa [this]

theorem data_pos : 0 < k.data.2 := Nat.zero_lt_succ _

theorem StackRoom.sub {sp : BitVec 32} {n i j : ℕ} (room : k.StackRoom sp n) (hi : 0 < i)
    (le : j + i ≤ n) (fits : n < 2 ^ 32) : k.StackRoom (sp - BitVec.ofNat 32 j) i :=
  room.mono hi data_pos (below_within (by omega) fits) (by simp)

theorem ld16_of_stack {sp c : BitVec 32} {n : ℕ} {m m' : ByteMemory} (room : k.StackRoom sp n)
    (hn : 0 < n) (hc : (c + 2752#32).toNat + 2 ≤ 3648)
    (frame : Frame [(sp - BitVec.ofNat 32 n, n)] m m') :
    m'.ld16 (k.anchor + c) = m.ld16 (k.anchor + c) := by
  refine frame.ld16 fun r hr => ?_
  obtain rfl := List.mem_singleton.1 hr
  exact room.mono hn (by omega) (by simp) (anchor_within hc)

end Link

/-! ## What is outside -/

/-- The memory that functions outside the blob write: their own data, and the stack below them. -/
structure Outside where
  own : List (BitVec 32 × ℕ)
  depth : ℕ
  depth_pos : 0 < depth
  depth_le : depth ≤ 8192

namespace Outside

variable (o : Outside)

/-- The stack a function called with `sp` may use. -/
def stack (sp : BitVec 32) : BitVec 32 × ℕ := (sp - BitVec.ofNat 32 o.depth, o.depth)

def ranges (sp : BitVec 32) : List (BitVec 32 × ℕ) := o.stack sp :: o.own

/-- The stack is apart from the functions' own data. -/
def Fits (sp : BitVec 32) : Prop :=
  ∀ r ∈ o.own, 0 < r.2 ∧ Apart r.1 r.2 (o.stack sp).1 (o.stack sp).2

end Outside

namespace Link

/-- `__aeabi_uidiv` and `__aeabi_uidivmod` divide, and write to the stack below them only. -/
structure Divides (k : Link) (o : Outside) : Prop where
  uidiv (s : State) : s.reg r1 ≠ 0 → ∃ t, k.host .aeabiUidiv s = some t ∧
    Frame [o.stack (s.reg sp)] s.mem t.mem ∧ Saved s t ∧ t.reg r0 = s.reg r0 / s.reg r1
  uidivmod (s : State) : s.reg r1 ≠ 0 → ∃ t, k.host .aeabiUidivmod s = some t ∧
    Frame [o.stack (s.reg sp)] s.mem t.mem ∧ Saved s t ∧ t.reg r0 = s.reg r0 / s.reg r1 ∧
      t.reg r1 = s.reg r0 % s.reg r1

/-- `printk` comes back, and writes only what is its own. -/
def Prints (k : Link) (o : Outside) : Prop :=
  ∀ s, o.Fits (s.reg sp) → ∃ t, k.host .printk s = some t ∧ Saved s t ∧
    Frame (o.ranges (s.reg sp)) s.mem t.mem

variable {k : Link} {o : Outside} {s : State} {P : State → Prop}

theorem Divides.uidiv_calls (div : k.Divides o) (h1 : s.reg r1 ≠ 0)
    (post : ∀ t, Frame [o.stack (s.reg sp)] s.mem t.mem → Saved s t →
      t.reg r0 = s.reg r0 / s.reg r1 → P t) : Calls k.image .aeabiUidiv s P := by
  obtain ⟨t, host, frame, saved, h0⟩ := div.uidiv s h1
  exact (calls_host rfl).2 ⟨t, host, post t frame saved h0⟩

theorem Divides.uidivmod_calls (div : k.Divides o) (h1 : s.reg r1 ≠ 0)
    (post : ∀ t, Frame [o.stack (s.reg sp)] s.mem t.mem → Saved s t →
      t.reg r0 = s.reg r0 / s.reg r1 → t.reg r1 = s.reg r0 % s.reg r1 → P t) :
    Calls k.image .aeabiUidivmod s P := by
  obtain ⟨t, host, frame, saved, h0, h1⟩ := div.uidivmod s h1
  exact (calls_host rfl).2 ⟨t, host, post t frame saved h0 h1⟩

theorem Prints.printk_calls (prints : k.Prints o) (fits : o.Fits (s.reg sp))
    (post : ∀ t, Saved s t → Frame (o.ranges (s.reg sp)) s.mem t.mem → P t) :
    Calls k.image .printk s P := by
  obtain ⟨t, host, saved, frame⟩ := prints s fits
  exact (calls_host rfl).2 ⟨t, host, post t saved frame⟩

/-- What is pushed stays through a call of a function outside. -/
theorem framed_outside {rs : List Reg} {m m' : ByteMemory} (framed : Framed s rs o.depth m)
    (some_rs : rs ≠ []) (few : rs.length ≤ 15)
    (frame : Frame [o.stack (s.reg sp - BitVec.ofNat 32 (4 * rs.length))] m m') :
    Framed s rs o.depth m' := by
  have := o.depth_le
  exact framed.call o.depth_pos (by omega) some_rs frame

/-- So do the variables. -/
theorem ld16_of_framed {rs : List Reg} {c : BitVec 32} {m : ByteMemory}
    (framed : Framed s rs o.depth m) (room : k.StackRoom (s.reg sp) (o.depth + 4 * rs.length))
    (hc : (c + 2752#32).toNat + 2 ≤ 3648) :
    m.ld16 (k.anchor + c) = s.mem.ld16 (k.anchor + c) := by
  have := o.depth_pos
  exact ld16_of_stack room (by omega) hc framed.frame

end Link

/-! ## The numbers -/

/-- What `V2P_block` computes. -/
def v2p (planes blocks plane blk : ℕ) : ℕ :=
  planes * blk + plane % planes + blocks * (plane / planes)

/-- What `P2V_plane` computes. -/
def p2vPlane (planes blocks x : ℕ) : ℕ := x / blocks * planes + x % planes

/-- What `P2V_block_in_plane` computes. -/
def p2vBlock (planes blocks x : ℕ) : ℕ := x % blocks / planes

section Numbers

variable {planes blocks plane blk x : ℕ}

theorem v2p_p2v (hp : 0 < planes) (even : planes ∣ blocks) :
    v2p planes blocks (p2vPlane planes blocks x) (p2vBlock planes blocks x) = x := by
  have die : p2vPlane planes blocks x / planes = x / blocks := by
    rw [p2vPlane, Nat.mul_comm, Nat.mul_add_div hp, Nat.div_eq_of_lt (Nat.mod_lt _ hp)]
    rfl
  have turn : p2vPlane planes blocks x % planes = x % blocks % planes := by
    rw [p2vPlane, Nat.mul_add_mod', Nat.mod_mod, Nat.mod_mod_of_dvd _ even]
  rw [v2p, die, turn, p2vBlock, Nat.div_add_mod, Nat.add_comm, Nat.div_add_mod]

theorem p2v_v2p (hp : 0 < planes) (even : planes ∣ blocks) (hb : blk < blocks / planes) :
    p2vPlane planes blocks (v2p planes blocks plane blk) = plane ∧
      p2vBlock planes blocks (v2p planes blocks plane blk) = blk := by
  obtain ⟨q, rfl⟩ := even
  rw [Nat.mul_div_cancel_left _ hp] at hb
  have turn := Nat.mod_lt plane hp
  have inside : planes * blk + plane % planes < planes * q := by
    calc planes * blk + plane % planes < planes * (blk + 1) := by rw [Nat.mul_succ]; omega
      _ ≤ planes * q := Nat.mul_le_mul_left _ hb
  have pos : 0 < planes * q := by omega
  constructor
  · rw [p2vPlane, v2p, Nat.add_mul_div_left _ _ pos, Nat.div_eq_of_lt inside, Nat.zero_add,
      Nat.mul_assoc, Nat.add_mul_mod_self_left, Nat.mul_add_mod, Nat.mod_mod, Nat.div_add_mod']
  · rw [p2vBlock, v2p, Nat.add_mul_mod_self_left, Nat.mod_eq_of_lt inside, Nat.mul_add_div hp,
      Nat.div_eq_of_lt turn, Nat.add_zero]

theorem p2vPlane_le (hb : 0 < blocks) (even : planes ∣ blocks) : p2vPlane planes blocks x ≤ x := by
  calc p2vPlane planes blocks x = x / blocks * planes + x % blocks % planes := by
        rw [p2vPlane, Nat.mod_mod_of_dvd _ even]
    _ ≤ x / blocks * blocks + x % blocks :=
        Nat.add_le_add (Nat.mul_le_mul_left _ (Nat.le_of_dvd hb even)) (Nat.mod_le ..)
    _ = x := Nat.div_add_mod' ..

theorem p2vBlock_lt (hb : 0 < blocks) (even : planes ∣ blocks) :
    p2vBlock planes blocks x < blocks / planes := by
  refine Nat.div_lt_of_lt_mul ?_
  rw [Nat.mul_div_cancel' even]
  exact Nat.mod_lt _ hb

end Numbers

/-! ## The code -/

/-- Of the signed product of halfwords, the lower half is the product. -/
theorem setWidth_smulbb (a b : BitVec 16) :
    (a.signExtend 32 * b.signExtend 32).setWidth 16 = a * b := by
  have low (v : BitVec 16) : (v.signExtend 32).setWidth 16 = v := by
    ext i hi
    rw [BitVec.getElem_setWidth, BitVec.getLsbD_signExtend]
    simp [hi, show i < 32 by omega]
  rw [BitVec.setWidth_mul _ _ (by omega), low, low]

section Code

variable {k : Link} {o : Outside} {s : State}

theorem setWidth_ne_zero {v : BitVec 16} (hv : v ≠ 0) : v.setWidth 32 ≠ 0 := by bv_omega

theorem p2vBlock_word (x : BitVec 32) (p : BitVec 16) {b : BitVec 16} (hb : b ≠ 0) :
    ((((x % b.setWidth 32).setWidth 16).setWidth 32) / p.setWidth 32).setWidth 16 =
      BitVec.ofNat 16 (p2vBlock p.toNat b.toNat x.toNat) := by
  have pos : 0 < b.toNat := by bv_omega
  have small : x.toNat % b.toNat < 65536 := (Nat.mod_lt _ pos).trans b.isLt
  apply BitVec.eq_of_toNat_eq
  simp only [BitVec.toNat_setWidth, BitVec.toNat_udiv, BitVec.toNat_umod, BitVec.toNat_ofNat,
    p2vBlock]
  have hb32 : b.toNat % 2 ^ 32 = b.toNat := by omega
  have hp32 : p.toNat % 2 ^ 32 = p.toNat := by omega
  rw [hb32, hp32, Nat.mod_eq_of_lt (a := x.toNat % b.toNat) (b := 2 ^ 16) (by omega),
    Nat.mod_eq_of_lt (a := x.toNat % b.toNat) (b := 2 ^ 32) (by omega)]

theorem p2vPlane_word (x : BitVec 32) (p b : BitVec 16) :
    (((x / b.setWidth 32).setWidth 16).signExtend 32 * p.signExtend 32 +
      x % p.setWidth 32).setWidth 16 = BitVec.ofNat 16 (p2vPlane p.toNat b.toNat x.toNat) := by
  rw [BitVec.setWidth_add _ _ (by omega), setWidth_smulbb]
  apply BitVec.eq_of_toNat_eq
  have hb32 : b.toNat % 2 ^ 32 = b.toNat := by omega
  have hp32 : p.toNat % 2 ^ 32 = p.toNat := by omega
  simp only [BitVec.toNat_add, BitVec.toNat_mul, BitVec.toNat_setWidth, BitVec.toNat_udiv,
    BitVec.toNat_umod, BitVec.toNat_ofNat, p2vPlane, hb32, hp32]
  rw [← Nat.add_mod, Nat.add_mod, Nat.mul_mod, Nat.mod_mod, ← Nat.mul_mod, ← Nat.add_mod]

theorem v2p_word (p b : BitVec 16) (plane blk : BitVec 32) :
    (b.signExtend 32 * ((plane / p.setWidth 32).setWidth 16).signExtend 32 +
      (p.signExtend 32 * (blk.setWidth 16).signExtend 32 + plane % p.setWidth 32)).setWidth 16 =
      BitVec.ofNat 16 (v2p p.toNat b.toNat plane.toNat blk.toNat) := by
  rw [BitVec.setWidth_add _ _ (by omega), BitVec.setWidth_add _ _ (by omega), setWidth_smulbb,
    setWidth_smulbb]
  apply BitVec.eq_of_toNat_eq
  have hp32 : p.toNat % 2 ^ 32 = p.toNat := by omega
  simp only [BitVec.toNat_add, BitVec.toNat_mul, BitVec.toNat_setWidth, BitVec.toNat_udiv,
    BitVec.toNat_umod, BitVec.toNat_ofNat, v2p, hp32]
  rw [Nat.add_comm (p.toNat * blk.toNat + _)]
  simp only [Nat.add_mod, Nat.mul_mod, Nat.mod_mod]

/-- `P2V_block_in_plane` -/
theorem p2vBlockInPlane_calls (div : k.Divides o) (hp : k.planes s.mem ≠ 0)
    (hb : k.blocks s.mem ≠ 0) (room : k.StackRoom (s.reg sp) (o.depth + 8)) :
    Calls k.image .p2vBlockInPlane s fun t => Saved s t ∧
      Frame [(s.reg sp - BitVec.ofNat 32 (o.depth + 8), o.depth + 8)] s.mem t.mem ∧
      t.reg r0 = (BitVec.ofNat 16 (p2vBlock (k.planes s.mem).toNat (k.blocks s.mem).toNat
        (s.reg r0).toNat)).setWidth 32 := by
  have := o.depth_le
  set m₁ := s.mem.storeWords (s.reg sp - 8#32) 0 [s.reg r4, s.reg lr] with hm₁
  have framed₁ : Framed s [r4, lr] o.depth m₁ :=
    framed_storeWords s (by simp) (by simp only [List.length_cons, List.length_nil]; omega)
  have planes {m : ByteMemory} (framed : Framed s [r4, lr] o.depth m) :
      m.ld16 (k.anchor + Var.planesPerDie) = k.planes s.mem :=
    Link.ld16_of_framed framed room (by decide)
  have blocks₁ : m₁.ld16 (k.anchor + Var.blksPerDie) = k.blocks s.mem :=
    Link.ld16_of_framed framed₁ room (by decide)
  rw [calls_listing rfl (Link.p2vBlockInPlane.eq_1 k)]
  simp [← hm₁, blocks₁]
  refine div.uidivmod_calls (by simpa using setWidth_ne_zero hb) fun u frame saved h0 h1 => ?_
  simp [Saved, calleeSaved] at frame saved h0 h1
  have framed_u := Link.framed_outside framed₁ (by simp) (by simp) frame
  refine div.uidiv_calls (by simpa [saved, planes framed_u] using setWidth_ne_zero hp)
    fun v frame' saved' h0' => ?_
  simp [Saved, calleeSaved, saved, planes framed_u, h1] at frame' saved' h0'
  have framed_v := Link.framed_outside framed_u (by simp) (by simp) frame'
  refine wp_popPc s (by simpa using framed_v.pushed) (by simp [saved']) ?_
    fun w memw back other => ⟨rfl, back, ?_, ?_⟩
  · simp [calleeSaved, saved']
  · rw [memw]
    exact framed_v.frame
  · rw [other r0 (by simp) (by simp)]
    simp [h0', p2vBlock_word _ _ hb]

/-- `P2V_plane` -/
theorem p2vPlane_calls (div : k.Divides o) (hp : k.planes s.mem ≠ 0) (hb : k.blocks s.mem ≠ 0)
    (room : k.StackRoom (s.reg sp) (o.depth + 16)) :
    Calls k.image .p2vPlane s fun t => Saved s t ∧
      Frame [(s.reg sp - BitVec.ofNat 32 (o.depth + 16), o.depth + 16)] s.mem t.mem ∧
      t.reg r0 = (BitVec.ofNat 16 (p2vPlane (k.planes s.mem).toNat (k.blocks s.mem).toNat
        (s.reg r0).toNat)).setWidth 32 := by
  have := o.depth_le
  set m₁ := s.mem.storeWords (s.reg sp - 16#32) 0 [s.reg r4, s.reg r5, s.reg r6, s.reg lr] with hm₁
  have framed₁ : Framed s [r4, r5, r6, lr] o.depth m₁ :=
    framed_storeWords s (by simp) (by simp only [List.length_cons, List.length_nil]; omega)
  have planes₁ : m₁.ld16 (k.anchor + Var.planesPerDie) = k.planes s.mem :=
    Link.ld16_of_framed framed₁ room (by decide)
  have blocks₁ : m₁.ld16 (k.anchor + Var.blksPerDie) = k.blocks s.mem :=
    Link.ld16_of_framed framed₁ room (by decide)
  rw [calls_listing rfl (Link.p2vPlane.eq_1 k)]
  simp [← hm₁, blocks₁, planes₁]
  refine div.uidiv_calls (by simpa using setWidth_ne_zero hb) fun u frame saved h0 => ?_
  simp [Saved, calleeSaved] at frame saved h0
  have framed_u := Link.framed_outside framed₁ (by simp) (by simp) frame
  refine div.uidivmod_calls (by simpa [saved] using setWidth_ne_zero hp)
    fun v frame' saved' h0' h1' => ?_
  simp [Saved, calleeSaved, saved, h0] at frame' saved' h1'
  have framed_v := Link.framed_outside framed_u (by simp) (by simp) frame'
  refine wp_popPc s (by simpa using framed_v.pushed) (by simp [saved']) ?_
    fun w memw back other => ⟨rfl, back, ?_, ?_⟩
  · simp [calleeSaved, saved']
  · rw [memw]
    exact framed_v.frame
  · rw [other r0 (by simp) (by simp)]
    simp [saved', h1', p2vPlane_word]

/-- `V2P_block` -/
theorem v2pBlock_calls (div : k.Divides o) (hp : k.planes s.mem ≠ 0)
    (room : k.StackRoom (s.reg sp) (o.depth + 24)) :
    Calls k.image .v2pBlock s fun t => Saved s t ∧
      Frame [(s.reg sp - BitVec.ofNat 32 (o.depth + 24), o.depth + 24)] s.mem t.mem ∧
      t.reg r0 = (BitVec.ofNat 16 (v2p (k.planes s.mem).toNat (k.blocks s.mem).toNat
        (s.reg r0).toNat (s.reg r1).toNat)).setWidth 32 := by
  have := o.depth_le
  set m₁ := s.mem.storeWords (s.reg sp - 24#32) 0
    [s.reg r4, s.reg r5, s.reg r6, s.reg r7, s.reg r8, s.reg lr] with hm₁
  have framed₁ : Framed s [r4, r5, r6, r7, r8, lr] o.depth m₁ :=
    framed_storeWords s (by simp) (by simp only [List.length_cons, List.length_nil]; omega)
  have planes₁ : m₁.ld16 (k.anchor + Var.planesPerDie) = k.planes s.mem :=
    Link.ld16_of_framed framed₁ room (by decide)
  have blocks {m : ByteMemory} (framed : Framed s [r4, r5, r6, r7, r8, lr] o.depth m) :
      m.ld16 (k.anchor + Var.blksPerDie) = k.blocks s.mem :=
    Link.ld16_of_framed framed room (by decide)
  rw [calls_listing rfl (Link.v2pBlock.eq_1 k)]
  simp [← hm₁, planes₁]
  refine div.uidiv_calls (by simpa using setWidth_ne_zero hp) fun u frame saved h0 => ?_
  simp [Saved, calleeSaved] at frame saved h0
  have framed_u := Link.framed_outside framed₁ (by simp) (by simp) frame
  refine div.uidivmod_calls (by simpa [saved] using setWidth_ne_zero hp)
    fun v frame' saved' h0' h1' => ?_
  simp [Saved, calleeSaved, saved, h0, blocks framed_u] at frame' saved' h1'
  have framed_v := Link.framed_outside framed_u (by simp) (by simp) frame'
  refine wp_popPc s (by simpa using framed_v.pushed) (by simp [saved']) ?_
    fun w memw back other => ⟨rfl, back, ?_, ?_⟩
  · simp [calleeSaved, saved']
  · rw [memw]
    exact framed_v.frame
  · rw [other r0 (by simp) (by simp)]
    simp [saved', h1', v2p_word]

end Code

/-! ## Round trips -/

section RoundTrips

variable {k : Link} {o : Outside} {p b : BitVec 16}

/-- A state in which the dies have `p` planes and `b` blocks, with enough stack for a call and for
the divisions it makes. -/
structure Ready (k : Link) (o : Outside) (p b : BitVec 16) (s : State) : Prop where
  planes : k.planes s.mem = p
  blocks : k.blocks s.mem = b
  room : k.StackRoom (s.reg sp) (o.depth + 24)

/-- Every call of `f` with the given first argument, and second argument if there is one, comes
back with the answer `v`. -/
def Gives (k : Link) (o : Outside) (p b : BitVec 16) (f : Symbol) (arg0 : BitVec 32)
    (arg1 : Option (BitVec 32)) (v : BitVec 32) : Prop :=
  ∀ s, Ready k o p b s → s.reg r0 = arg0 → (∀ a ∈ arg1, s.reg r1 = a) →
    Calls k.image f s fun t => t.reg r0 = v

theorem gives_v2pBlock (div : k.Divides o) (hp : p ≠ 0) (plane blk : BitVec 32) :
    Gives k o p b .v2pBlock plane (some blk)
      ((BitVec.ofNat 16 (v2p p.toNat b.toNat plane.toNat blk.toNat)).setWidth 32) := by
  intro s ready h0 h1
  obtain rfl := h1 blk rfl
  obtain rfl := h0
  obtain ⟨rfl, rfl, room⟩ := ready
  exact (v2pBlock_calls div hp room).mono fun t h => h.2.2

theorem gives_p2vPlane (div : k.Divides o) (hp : p ≠ 0) (hb : b ≠ 0) (x : BitVec 32) :
    Gives k o p b .p2vPlane x none
      ((BitVec.ofNat 16 (p2vPlane p.toNat b.toNat x.toNat)).setWidth 32) := by
  intro s ready h0 _
  obtain rfl := h0
  obtain ⟨rfl, rfl, room⟩ := ready
  have := o.depth_le
  refine (p2vPlane_calls div hp hb ?_).mono fun t h => h.2.2
  simpa using room.sub (i := o.depth + 16) (j := 0) (by omega) (by omega) (by omega)

theorem gives_p2vBlockInPlane (div : k.Divides o) (hp : p ≠ 0) (hb : b ≠ 0) (x : BitVec 32) :
    Gives k o p b .p2vBlockInPlane x none
      ((BitVec.ofNat 16 (p2vBlock p.toNat b.toNat x.toNat)).setWidth 32) := by
  intro s ready h0 _
  obtain rfl := h0
  obtain ⟨rfl, rfl, room⟩ := ready
  have := o.depth_le
  refine (p2vBlockInPlane_calls div hp hb ?_).mono fun t h => h.2.2
  simpa using room.sub (i := o.depth + 8) (j := 0) (by omega) (by omega) (by omega)

theorem toNat_half {n : ℕ} (hn : n < 65536) : ((BitVec.ofNat 16 n).setWidth 32).toNat = n := by
  rw [BitVec.toNat_setWidth, BitVec.toNat_ofNat]
  omega

theorem half_toNat {v : BitVec 32} (hv : v.toNat < 65536) :
    (BitVec.ofNat 16 v.toNat).setWidth 32 = v := by
  apply BitVec.eq_of_toNat_eq
  rw [toNat_half hv]

/-- Where the planes of a die divide its blocks evenly, the two translations undo each other: a
plane and a block in it go to a physical block and back, and every physical block comes from one. -/
theorem blockAddress_roundTrips (div : k.Divides o) (hp : p ≠ 0) (hb : b ≠ 0)
    (even : p.toNat ∣ b.toNat) :
    (∀ plane blk : BitVec 32, blk.toNat < b.toNat / p.toNat →
        v2p p.toNat b.toNat plane.toNat blk.toNat < 65536 →
        ∃ x, x.toNat < 65536 ∧ Gives k o p b .v2pBlock plane (some blk) x ∧
          Gives k o p b .p2vPlane x none plane ∧ Gives k o p b .p2vBlockInPlane x none blk) ∧
      ∀ x : BitVec 32, x.toNat < 65536 → ∃ plane blk, blk.toNat < b.toNat / p.toNat ∧
        Gives k o p b .p2vPlane x none plane ∧ Gives k o p b .p2vBlockInPlane x none blk ∧
          Gives k o p b .v2pBlock plane (some blk) x := by
  have pos : 0 < p.toNat := by bv_omega
  have bpos : 0 < b.toNat := by bv_omega
  constructor
  · intro plane blk inside small
    obtain ⟨back, back'⟩ :
        p2vPlane p.toNat b.toNat (v2p p.toNat b.toNat plane.toNat blk.toNat) = plane.toNat ∧
          p2vBlock p.toNat b.toNat (v2p p.toNat b.toNat plane.toNat blk.toNat) = blk.toNat :=
      p2v_v2p pos even inside
    have hplane : plane.toNat < 65536 := back ▸ (p2vPlane_le bpos even).trans_lt small
    have hblk : blk.toNat < 65536 := by
      have := Nat.div_le_self b.toNat p.toNat
      omega
    set x := (BitVec.ofNat 16 (v2p p.toNat b.toNat plane.toNat blk.toNat)).setWidth 32
    have hx : x.toNat = v2p p.toNat b.toNat plane.toNat blk.toNat := toNat_half small
    refine ⟨x, hx ▸ small, gives_v2pBlock div hp plane blk, ?_, ?_⟩
    · have := gives_p2vPlane div hp hb x
      rwa [hx, back, half_toNat hplane] at this
    · have := gives_p2vBlockInPlane div hp hb x
      rwa [hx, back', half_toNat hblk] at this
  · intro x small
    have hplane := (p2vPlane_le (x := x.toNat) bpos even).trans_lt small
    have inside := p2vBlock_lt (x := x.toNat) bpos even
    have hblk : p2vBlock p.toNat b.toNat x.toNat < 65536 := by
      have := Nat.div_le_self b.toNat p.toNat
      omega
    refine ⟨_, _, ?_, gives_p2vPlane div hp hb x, gives_p2vBlockInPlane div hp hb x, ?_⟩
    · rwa [toNat_half hblk]
    · have := gives_v2pBlock (b := b) div hp
        ((BitVec.ofNat 16 (p2vPlane p.toNat b.toNat x.toNat)).setWidth 32)
        ((BitVec.ofNat 16 (p2vBlock p.toNat b.toNat x.toNat)).setWidth 32)
      rwa [toNat_half hplane, toNat_half hblk, v2p_p2v pos even, half_toNat small] at this

/-- A blob linked with functions that divide; the one that gives the remainder too pushes four
registers. -/
def dividing : Link where
  anchor := 0x20000#32
  text _ := 0
  loc _ _ := 0
  host
    | .aeabiUidiv, s => some (s.set r0 (s.reg r0 / s.reg r1))
    | .aeabiUidivmod, s => some
        { (s.set r0 (s.reg r0 / s.reg r1)).set r1 (s.reg r0 % s.reg r1) with
          mem := s.mem.storeWords (s.reg sp - 16#32) 0 [s.reg r0, s.reg r1, s.reg ip, s.reg lr] }
    | _, s => some s

theorem dividing_divides {o : Outside} (deep : 16 ≤ o.depth) : dividing.Divides o where
  uidiv s _ := ⟨_, rfl, .refl, by simp [Saved, calleeSaved], by simp⟩
  uidivmod s _ := by
    refine ⟨_, rfl, ?_, by simp [Saved, calleeSaved], by simp, by simp⟩
    have pushes : Frame [(s.reg sp - 16#32, 16)] s.mem
        (s.mem.storeWords (s.reg sp - 16#32) 0 [s.reg r0, s.reg r1, s.reg ip, s.reg lr]) :=
      frame_storeWords (by omega) (by simp) .refl
    refine pushes.mono (fun r hr => ⟨_, List.mem_singleton_self _, ?_⟩) (by simp)
    obtain rfl := List.mem_singleton.1 hr
    have within := @below_within (s.reg sp) 16 0 _ deep (o.depth_le.trans_lt (by omega))
    simpa [Outside.stack] using within

def sampleOutside : Outside := ⟨[], 64, by decide, by decide⟩

/-- The round trips on dies of two planes and 4096 blocks: plane 3, block 100. -/
theorem blockAddress_roundTrips_two_planes :
    ∃ x, x.toNat < 65536 ∧ Gives dividing sampleOutside 2 4096 .v2pBlock 3 (some 100) x ∧
      Gives dividing sampleOutside 2 4096 .p2vPlane x none 3 ∧
      Gives dividing sampleOutside 2 4096 .p2vBlockInPlane x none 100 :=
  (blockAddress_roundTrips (dividing_divides (by decide)) (by decide) (by decide) (by decide)).1
    3 100 (by decide) (by decide)

end RoundTrips

end RkNand.Blob
