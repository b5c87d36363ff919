import RkNand.Lib.ByteMemory

/-!
# A subset of the 32-bit ARM instruction set

Listings of ARM assembler as the compiler prints them: labels, conditional instructions, calls.  A
function is a listing and the place of execution in it is the rest of the listing, so that a branch
goes to what follows its label.  A call sets the link register to the address of what follows it
(`Image.loc`, chosen by the linker) and runs the listing of the callee, or what is assumed of a
function outside (`Fn.host`).  A listing ends when it loads the program counter: `Runs` gives the
address it leaves to and the state it leaves in, `Returns` is a call that leaves to its link
register.  `Wp` is total correctness of a listing, and `wp_instr` executes it one instruction at a
time.
-/

namespace Arm

/-- The registers a listing names, the program counter apart. -/
inductive Reg
  | r0 | r1 | r2 | r3 | r4 | r5 | r6 | r7 | r8 | r9 | r10 | fp | ip | sp | lr
  deriving DecidableEq, Repr

/-- The condition flags: negative, zero, carry and overflow. -/
structure Flags where
  n : Bool
  z : Bool
  c : Bool
  v : Bool
  deriving DecidableEq, Repr

/-- The flags of the subtraction `a - b`; carry means no borrow. -/
def Flags.ofSub (a b : BitVec 32) : Flags :=
  { n := (a - b).msb, z := a == b, c := b ≤ a, v := BitVec.ssubOverflow a b }

/-- The conditions an instruction is executed under. -/
inductive Cond
  | eq | ne | cs | cc | hi | ls | ge | lt | gt | le
  deriving DecidableEq, Repr

def Cond.holds : Cond → Flags → Bool
  | .eq, f => f.z
  | .ne, f => !f.z
  | .cs, f => f.c
  | .cc, f => !f.c
  | .hi, f => f.c && !f.z
  | .ls, f => !f.c || f.z
  | .ge, f => f.n == f.v
  | .lt, f => f.n != f.v
  | .gt, f => !f.z && f.n == f.v
  | .le, f => f.z || f.n != f.v

structure State where
  reg : Reg → BitVec 32
  flags : Flags
  mem : ByteMemory

/-- Write one register. -/
def State.set (s : State) (r : Reg) (v : BitVec 32) : State :=
  { s with reg := fun q => if q = r then v else s.reg q }

/-- The second operand of a data-processing instruction. -/
inductive Operand
  | imm (v : BitVec 32)
  | reg (r : Reg)
  | lsl (r : Reg) (k : ℕ)
  | lslBy (r q : Reg)
  deriving DecidableEq, Repr

instance : Coe Reg Operand := ⟨.reg⟩
instance (n : ℕ) : OfNat Operand n := ⟨.imm (BitVec.ofNat 32 n)⟩

/-- A shift by a register uses its lowest byte. -/
@[simp] def Operand.value (s : State) : Operand → BitVec 32
  | .imm v => v
  | .reg r => s.reg r
  | .lsl r k => s.reg r <<< k
  | .lslBy r q => s.reg r <<< ((s.reg q).toNat % 256)

/-- The address of a load or store: a base with an offset, a base with a shifted index, a base
moved after the access, a base moved before it. -/
inductive Addr
  | off (n : Reg) (i : BitVec 32)
  | idx (n m : Reg) (k : ℕ)
  | post (n : Reg) (i : BitVec 32)
  | pre (n : Reg) (i : BitVec 32)
  deriving DecidableEq, Repr

@[simp] def Addr.value (s : State) : Addr → BitVec 32
  | .off n i => s.reg n + i
  | .idx n m k => s.reg n + s.reg m <<< k
  | .post n _ => s.reg n
  | .pre n i => s.reg n + i

/-- The state with the base register written back. -/
@[simp] def Addr.writeBack (s : State) : Addr → State
  | .off _ _ | .idx _ _ _ => s
  | .post n i | .pre n i => s.set n (s.reg n + i)

/-- Number of zero bits above the highest one. -/
def countLeadingZeros (x : BitVec 32) : BitVec 32 :=
  BitVec.ofNat 32 (if x = 0 then 32 else 31 - x.toNat.log2)

/-- `clz` and a shift by 5, the way to test for zero without a branch. -/
theorem countLeadingZeros_shift (x : BitVec 32) :
    countLeadingZeros x >>> 5 = if x = 0#32 then 1#32 else 0#32 := by
  by_cases zero : x = 0#32
  · rw [zero]
    decide
  · have nonzero : ¬ x = 0 := zero
    rw [countLeadingZeros, if_neg nonzero, if_neg zero]
    apply BitVec.eq_of_toNat_eq
    simp only [BitVec.toNat_ushiftRight, BitVec.toNat_ofNat, Nat.shiftRight_eq_div_pow]
    omega

/-- The instructions, over the names `F` of the functions they call. -/
inductive Instr (F : Type)
  | label (l : ℕ)
  | when (c : Cond) (i : Instr F)
  | mov (d : Reg) (o : Operand)
  | mvn (d : Reg) (o : Operand)
  | add (d n : Reg) (o : Operand)
  | sub (d n : Reg) (o : Operand)
  | and (d n : Reg) (o : Operand)
  | orr (d n : Reg) (o : Operand)
  | eor (d n : Reg) (o : Operand)
  | lsl (d n : Reg) (o : Operand)
  | lsr (d n : Reg) (o : Operand)
  | asr (d n : Reg) (o : Operand)
  | mul (d n m : Reg)
  | mla (d n m a : Reg)
  | smulbb (d n m : Reg)
  | uxth (d n : Reg)
  | ubfx (d n : Reg) (lsb width : ℕ)
  | clz (d n : Reg)
  | cmp (n : Reg) (o : Operand)
  | lit (d : Reg) (v : BitVec 32)
  | ldr (d : Reg) (a : Addr)
  | ldrh (d : Reg) (a : Addr)
  | ldrb (d : Reg) (a : Addr)
  | str (d : Reg) (a : Addr)
  | strh (d : Reg) (a : Addr)
  | push (rs : List Reg)
  | pop (rs : List Reg)
  | popPc (rs : List Reg)
  | b (l : ℕ)
  | bx (r : Reg)
  | bl (f : F)
  deriving Repr

/-- Load registers from consecutive words at `a`, from word `i` on. -/
@[simp] def State.loadAll (a : BitVec 32) : ℕ → List Reg → State → State
  | _, [], s => s
  | i, r :: rs, s =>
      State.loadAll a (i + 1) rs (s.set r (s.mem.ld32 (a + BitVec.ofNat 32 (4 * i))))

/-- What an instruction does: go on, branch within the listing, leave it, or call a function. -/
inductive Effect (F : Type)
  | next (s : State)
  | goto (l : ℕ)
  | leave (target : BitVec 32) (s : State)
  | call (f : F)

/-- Pop registers and the program counter. -/
def State.popPc {F : Type} (s : State) (rs : List Reg) : Effect F :=
  .leave (s.mem.ld32 (s.reg .sp + BitVec.ofNat 32 (4 * rs.length)))
    ((State.loadAll (s.reg .sp) 0 rs s).set .sp
      (s.reg .sp + BitVec.ofNat 32 (4 * rs.length + 4)))

/-- The effect of an instruction.  Registers are pushed with the first one lowest. -/
@[simp] def Instr.effect {F : Type} (s : State) : Instr F → Effect F
  | .label _ => .next s
  | .when c i => if c.holds s.flags then i.effect s else .next s
  | .mov d o => .next (s.set d (o.value s))
  | .mvn d o => .next (s.set d (~~~ o.value s))
  | .add d n o => .next (s.set d (s.reg n + o.value s))
  | .sub d n o => .next (s.set d (s.reg n - o.value s))
  | .and d n o => .next (s.set d (s.reg n &&& o.value s))
  | .orr d n o => .next (s.set d (s.reg n ||| o.value s))
  | .eor d n o => .next (s.set d (s.reg n ^^^ o.value s))
  | .lsl d n o => .next (s.set d (s.reg n <<< ((o.value s).toNat % 256)))
  | .lsr d n o => .next (s.set d (s.reg n >>> ((o.value s).toNat % 256)))
  | .asr d n o => .next (s.set d ((s.reg n).sshiftRight ((o.value s).toNat % 256)))
  | .mul d n m => .next (s.set d (s.reg n * s.reg m))
  | .mla d n m a => .next (s.set d (s.reg n * s.reg m + s.reg a))
  | .smulbb d n m => .next (s.set d
      (((s.reg n).setWidth 16).signExtend 32 * ((s.reg m).setWidth 16).signExtend 32))
  | .uxth d n => .next (s.set d (((s.reg n).setWidth 16).setWidth 32))
  | .ubfx d n lsb width => .next (s.set d (((s.reg n).extractLsb' lsb width).setWidth 32))
  | .clz d n => .next (s.set d (countLeadingZeros (s.reg n)))
  | .cmp n o => .next { s with flags := .ofSub (s.reg n) (o.value s) }
  | .lit d v => .next (s.set d v)
  | .ldr d a => .next ((a.writeBack s).set d (s.mem.ld32 (a.value s)))
  | .ldrh d a => .next ((a.writeBack s).set d ((s.mem.ld16 (a.value s)).setWidth 32))
  | .ldrb d a => .next ((a.writeBack s).set d ((s.mem (a.value s)).setWidth 32))
  | .str d a => .next { a.writeBack s with mem := s.mem.st32 (a.value s) (s.reg d) }
  | .strh d a => .next { a.writeBack s with
      mem := s.mem.st16 (a.value s) ((s.reg d).setWidth 16) }
  | .push rs =>
      let base := s.reg .sp - BitVec.ofNat 32 (4 * rs.length)
      .next { s.set .sp base with mem := s.mem.storeWords base 0 (rs.map s.reg) }
  | .pop rs => .next ((State.loadAll (s.reg .sp) 0 rs s).set .sp
      (s.reg .sp + BitVec.ofNat 32 (4 * rs.length)))
  | .popPc rs => s.popPc rs
  | .b l => .goto l
  | .bx r => .leave (s.reg r) s
  | .bl f => .call f

/-- What follows a label. -/
def after {F : Type} (l : ℕ) : List (Instr F) → List (Instr F)
  | [] => []
  | .label k :: rest => if k = l then rest else after l rest
  | _ :: rest => after l rest

/-- A function: its listing, or what a call of a function outside does. -/
inductive Fn (F : Type)
  | listing (code : List (Instr F))
  | host (act : State → Option State)

/-- A linked program: its functions, and the address of each place in a listing. -/
structure Image (F : Type) where
  fn : F → Fn F
  loc : List (Instr F) → List (Instr F) → BitVec 32

section Run

variable {F : Type} (im : Image F)

/-- Execute the listing `cur` from `rest` on, with fuel for so many instructions in a row. -/
def exec : ℕ → List (Instr F) → List (Instr F) → State → Option (BitVec 32 × State)
  | 0, _, _, _ => none
  | _ + 1, _, [], _ => none
  | n + 1, cur, i :: rest, s =>
      match i.effect s with
      | .next t => exec n cur rest t
      | .goto l => exec n cur (after l cur) s
      | .leave a t => some (a, t)
      | .call f =>
          let back := im.loc cur rest
          match im.fn f with
          | .host act => (act (s.set .lr back)).bind fun t => exec n cur rest t
          | .listing code => (exec n code code (s.set .lr back)).bind fun out =>
              if out.1 = back then exec n cur rest out.2 else none

/-- The listing `cur`, executed from `rest` on, leaves to the address and in the state `out`. -/
def Runs (cur rest : List (Instr F)) (s : State) (out : BitVec 32 × State) : Prop :=
  ∃ n, exec im n cur rest s = some out

/-- A call of `f` in the state `s` comes back in the state `t`. -/
def Returns (f : F) (s t : State) : Prop :=
  match im.fn f with
  | .host act => act s = some t
  | .listing code => Runs im code code s (s.reg .lr, t)

variable {im} {cur rest : List (Instr F)} {s t : State} {out : BitVec 32 × State}

/-- More fuel does not change a result. -/
theorem exec_succ {n : ℕ} (h : exec im n cur rest s = some out) :
    exec im (n + 1) cur rest s = some out := by
  induction n generalizing cur rest s out with
  | zero => simp [exec] at h
  | succ n ih =>
    cases rest with
    | nil => simp [exec] at h
    | cons i rest =>
      rw [exec] at h ⊢
      split at h
      next t ht => exact ih h
      next l hl => exact ih h
      next a t ht => exact h
      next f hf =>
        simp only at h ⊢
        split at h
        next act hact =>
          obtain ⟨t, ht, hrest⟩ := Option.bind_eq_some_iff.1 h
          exact Option.bind_eq_some_iff.2 ⟨t, ht, ih hrest⟩
        next code hcode =>
          obtain ⟨u, hu, hrest⟩ := Option.bind_eq_some_iff.1 h
          refine Option.bind_eq_some_iff.2 ⟨u, ih hu, ?_⟩
          split_ifs at hrest ⊢ with back
          exact ih hrest

theorem exec_mono {n k : ℕ} (hk : n ≤ k) (h : exec im n cur rest s = some out) :
    exec im k cur rest s = some out := by
  induction k, hk using Nat.le_induction with
  | base => exact h
  | succ k _ ih => exact exec_succ ih

theorem Runs.unique {out' : BitVec 32 × State} (h : Runs im cur rest s out)
    (h' : Runs im cur rest s out') : out = out' := by
  obtain ⟨n, hn⟩ := h
  obtain ⟨k, hk⟩ := h'
  have left := exec_mono (Nat.le_max_left n k) hn
  have right := exec_mono (Nat.le_max_right n k) hk
  exact Option.some.inj (left.symm.trans right)

/-- A call comes back in one state only. -/
theorem Returns.unique {f : F} {t' : State} (h : Returns im f s t) (h' : Returns im f s t') :
    t = t' := by
  unfold Returns at h h'
  cases hf : im.fn f with
  | host act =>
    rw [hf] at h h'
    exact Option.some.inj (h.symm.trans h')
  | listing code =>
    rw [hf] at h h'
    exact (Prod.mk.inj (Runs.unique h h')).2

/-! ## Total correctness -/

/-- The listing `cur`, executed from `rest` on in `s`, leaves, and to an address and in a state that
meet `Q`. -/
def Wp (im : Image F) (cur rest : List (Instr F)) (s : State) (Q : BitVec 32 → State → Prop) :
    Prop :=
  ∃ a t, Runs im cur rest s (a, t) ∧ Q a t

/-- A call of `f` in `s` comes back, and in a state that meets `Q`. -/
def Calls (im : Image F) (f : F) (s : State) (Q : State → Prop) : Prop :=
  ∃ t, Returns im f s t ∧ Q t

/-- What is left to show after the effect of an instruction. -/
def Effect.Wp (im : Image F) (cur rest : List (Instr F)) (s : State)
    (Q : BitVec 32 → State → Prop) : Effect F → Prop
  | .next t => Arm.Wp im cur rest t Q
  | .goto l => Arm.Wp im cur (after l cur) s Q
  | .leave a t => Q a t
  | .call f => Calls im f (s.set .lr (im.loc cur rest)) fun t => Arm.Wp im cur rest t Q

theorem runs_iff_exists_succ :
    Runs im cur rest s out ↔ ∃ n, exec im (n + 1) cur rest s = some out :=
  ⟨fun ⟨n, hn⟩ => ⟨n, exec_succ hn⟩, fun ⟨n, hn⟩ => ⟨n + 1, hn⟩⟩

/-- A call of a listing runs it, with enough fuel for it and for what follows. -/
theorem runs_call {code : List (Instr F)} {back : BitVec 32} :
    (∃ n, ((exec im n code code s).bind fun u =>
        if u.1 = back then exec im n cur rest u.2 else none) = some out) ↔
      ∃ t, Runs im code code s (back, t) ∧ Runs im cur rest t out := by
  constructor
  · rintro ⟨n, hn⟩
    obtain ⟨⟨a, t⟩, called, returned⟩ := Option.bind_eq_some_iff.1 hn
    split_ifs at returned with h
    exact ⟨t, ⟨n, h ▸ called⟩, n, returned⟩
  · rintro ⟨t, ⟨n, called⟩, k, returned⟩
    refine ⟨max n k, Option.bind_eq_some_iff.2
      ⟨(back, t), exec_mono (Nat.le_max_left ..) called, ?_⟩⟩
    rw [if_pos rfl]
    exact exec_mono (Nat.le_max_right ..) returned

theorem runs_cons (i : Instr F) : Runs im cur (i :: rest) s out ↔
    match i.effect s with
    | .next t => Runs im cur rest t out
    | .goto l => Runs im cur (after l cur) s out
    | .leave a t => out = (a, t)
    | .call f => ∃ t, Returns im f (s.set .lr (im.loc cur rest)) t ∧ Runs im cur rest t out := by
  rw [runs_iff_exists_succ]
  simp only [exec]
  cases i.effect s with
  | next t => rfl
  | goto l => rfl
  | leave a t => simp [eq_comm]
  | call f =>
    simp only [Returns]
    cases im.fn f with
    | listing code => simpa [State.set] using runs_call
    | host act =>
      constructor
      · rintro ⟨n, hn⟩
        obtain ⟨t, called, returned⟩ := Option.bind_eq_some_iff.1 hn
        exact ⟨t, called, n, returned⟩
      · rintro ⟨t, called, n, returned⟩
        exact ⟨n, Option.bind_eq_some_iff.2 ⟨t, called, returned⟩⟩

variable {Q Q' : BitVec 32 → State → Prop}

theorem wp_cons (i : Instr F) :
    Wp im cur (i :: rest) s Q ↔ (i.effect s).Wp im cur rest s Q := by
  simp only [Wp, runs_cons]
  cases i.effect s with
  | next t => rfl
  | goto l => rfl
  | leave a t => simp [Effect.Wp]
  | call f =>
    constructor
    · rintro ⟨a, u, ⟨t, called, rest⟩, hQ⟩
      exact ⟨t, called, a, u, rest, hQ⟩
    · rintro ⟨t, called, a, u, rest, hQ⟩
      exact ⟨a, u, ⟨t, called, rest⟩, hQ⟩

/-- The rule of symbolic execution: the effect of the first instruction, then the rest.  It stops at
a label, where a block ends. -/
@[simp] theorem wp_instr {i : Instr F} (_ : ∀ l, i ≠ .label l) :
    Wp im cur (i :: rest) s Q ↔ (i.effect s).Wp im cur rest s Q := wp_cons i

/-- To come to a label is to branch to it. -/
theorem wp_label {l : ℕ} (at_l : after l cur = rest) :
    Wp im cur (.label l :: rest) s Q ↔ Wp im cur (after l cur) s Q := by
  rw [wp_cons, at_l]
  rfl

/-- A branch to itself goes on forever. -/
theorem not_wp_loop {l : ℕ} (at_l : after l cur = .b l :: rest) :
    ¬ Wp im cur (after l cur) s Q := by
  rintro ⟨a, t, ⟨n, run⟩, -⟩
  induction n with
  | zero => simp [exec] at run
  | succ n ih =>
    rw [at_l] at run
    exact ih (by simpa [exec] using run)

theorem Wp.mono (h : Wp im cur rest s Q) (imp : ∀ a t, Q a t → Q' a t) : Wp im cur rest s Q' := by
  obtain ⟨a, t, runs, hQ⟩ := h
  exact ⟨a, t, runs, imp a t hQ⟩

/-- What a call is known to come back with is so whenever it comes back. -/
theorem Calls.of_returns {f : F} {P : State → Prop} (h : Calls im f s P) (hr : Returns im f s t) :
    P t := by
  obtain ⟨u, returns, hP⟩ := h
  exact hr.unique returns ▸ hP

theorem Calls.mono {f : F} {P P' : State → Prop} (h : Calls im f s P) (imp : ∀ t, P t → P' t) :
    Calls im f s P' := by
  obtain ⟨t, returns, hP⟩ := h
  exact ⟨t, returns, imp t hP⟩

@[simp] theorem wp_next : (Effect.next t).Wp im cur rest s Q ↔ Wp im cur rest t Q := Iff.rfl

@[simp] theorem wp_goto {l : ℕ} :
    (Effect.goto l).Wp im cur rest s Q ↔ Wp im cur (after l cur) s Q := Iff.rfl

@[simp] theorem wp_leave {a : BitVec 32} : (Effect.leave a t).Wp im cur rest s Q ↔ Q a t := Iff.rfl

@[simp] theorem wp_call {f : F} : (Effect.call f).Wp im cur rest s Q ↔
    Calls im f (s.set .lr (im.loc cur rest)) fun t => Wp im cur rest t Q := Iff.rfl

@[simp] theorem wp_ite {p : Prop} [Decidable p] (e e' : Effect F) :
    (if p then e else e').Wp im cur rest s Q ↔
      if p then e.Wp im cur rest s Q else e'.Wp im cur rest s Q := by
  split_ifs <;> rfl

/-- A call of a listing is a run of it, from its first instruction on, that leaves to the link
register. -/
theorem calls_listing {f : F} {code body : List (Instr F)} {P : State → Prop}
    (hf : im.fn f = .listing code) (opened : code = body) :
    Calls im f s P ↔ Wp im code body s fun a t => a = s.reg .lr ∧ P t := by
  subst opened
  simp only [Calls, Returns, hf, Wp]
  constructor
  · rintro ⟨t, runs, hP⟩
    exact ⟨_, t, runs, rfl, hP⟩
  · rintro ⟨_, t, runs, rfl, hP⟩
    exact ⟨t, runs, hP⟩

/-- A call of a function outside does what is assumed of it. -/
theorem calls_host {f : F} {act : State → Option State} {P : State → Prop}
    (hf : im.fn f = .host act) : Calls im f s P ↔ ∃ t, act s = some t ∧ P t := by
  simp only [Calls, Returns, hf]

end Run

/-! ## Registers and flags after an instruction -/

section Fields

variable (s : State) (r q : Reg) (v : BitVec 32)

@[simp] theorem State.reg_set : (s.set r v).reg q = if q = r then v else s.reg q := rfl

@[simp] theorem State.mem_set : (s.set r v).mem = s.mem := rfl

@[simp] theorem State.flags_set : (s.set r v).flags = s.flags := rfl

/-- The registers a function gives back as it got them. -/
def calleeSaved : List Reg := [.r4, .r5, .r6, .r7, .r8, .r9, .r10, .fp, .sp]

def Saved (s t : State) : Prop := ∀ r ∈ calleeSaved, t.reg r = s.reg r

/-- The stack and the frame pointer are where they were. -/
def SameFrame (s t : State) : Prop := t.reg .sp = s.reg .sp ∧ t.reg .fp = s.reg .fp

theorem SameFrame.trans {s t u : State} (h : SameFrame s t) (h' : SameFrame t u) :
    SameFrame s u := ⟨h'.1.trans h.1, h'.2.trans h.2⟩

/-- The words below the stack pointer of `s` hold its registers `rs`. -/
def Pushed (rs : List Reg) (m : ByteMemory) : Prop :=
  ∀ j r, rs[j]? = some r →
    m.ld32 (s.reg .sp - BitVec.ofNat 32 (4 * rs.length) + BitVec.ofNat 32 (4 * j)) = s.reg r

theorem pushed_storeWords {rs : List Reg} (room : 4 * rs.length ≤ 2 ^ 32) (m : ByteMemory) :
    Pushed s rs (m.storeWords (s.reg .sp - BitVec.ofNat 32 (4 * rs.length)) 0 (rs.map s.reg)) := by
  intro j r hr
  have word : (rs.map s.reg)[j]? = some (s.reg r) := by simp [hr]
  have := ByteMemory.ld32_storeWords (a := s.reg .sp - BitVec.ofNat 32 (4 * rs.length)) (i := 0)
    word (by simpa using room) m
  rwa [Nat.zero_add] at this

open ByteMemory in
theorem Pushed.of_frame {s : State} {rs : List Reg} {m m' : ByteMemory} (h : Pushed s rs m)
    (few : rs.length < 2 ^ 29) {ranges : List (BitVec 32 × ℕ)} (frame : Frame ranges m m')
    (apart : ∀ r ∈ ranges, 0 < r.2 ∧
      Apart r.1 r.2 (s.reg .sp - BitVec.ofNat 32 (4 * rs.length)) (4 * rs.length)) :
    Pushed s rs m' := by
  intro j r hr
  rw [← h j r hr]
  refine frame.ld32 fun q hq => ?_
  obtain ⟨pos, ap⟩ := apart q hq
  have hj : j < rs.length := (List.getElem?_eq_some_iff.1 hr).1
  refine ap.mono pos (by omega) (by simp) ?_
  have off : s.reg .sp - BitVec.ofNat 32 (4 * rs.length) + BitVec.ofNat 32 (4 * j) -
      (s.reg .sp - BitVec.ofNat 32 (4 * rs.length)) = BitVec.ofNat 32 (4 * j) := by
    generalize s.reg .sp - BitVec.ofNat 32 (4 * rs.length) = base
    bv_omega
  rw [off, BitVec.toNat_ofNat]
  omega

/-- The first registers of a list are lowest; without them the others are still there. -/
theorem Pushed.drop {s : State} {rs : List Reg} {m : ByteMemory} (h : Pushed s rs m) {n : ℕ}
    (le : n ≤ rs.length) : Pushed s (rs.drop n) m := by
  intro j r hr
  rw [List.getElem?_drop] at hr
  rw [← h (n + j) r hr, List.length_drop]
  congr 1
  have total : BitVec.ofNat 32 (4 * rs.length) =
      BitVec.ofNat 32 (4 * (rs.length - n)) + BitVec.ofNat 32 (4 * n) := by
    rw [← BitVec.ofNat_add]
    congr 1
    omega
  rw [total, Nat.mul_add, BitVec.ofNat_add]
  ring

/-- The memory of `s` with its registers `rs` pushed, and below them at most `n` bytes written by
functions that were called. -/
structure Framed (rs : List Reg) (n : ℕ) (m : ByteMemory) : Prop where
  pushed : Pushed s rs m
  frame : ByteMemory.Frame
    [(s.reg .sp - BitVec.ofNat 32 (n + 4 * rs.length), n + 4 * rs.length)] s.mem m

open ByteMemory in
theorem framed_storeWords {rs : List Reg} {n : ℕ} (some_rs : rs ≠ [])
    (few : n + 4 * rs.length < 2 ^ 31) : Framed s rs n
      (s.mem.storeWords (s.reg .sp - BitVec.ofNat 32 (4 * rs.length)) 0 (rs.map s.reg)) := by
  have pos : 0 < rs.length := List.length_pos_iff.2 some_rs
  refine ⟨pushed_storeWords s (by omega) _, ?_⟩
  have own : Frame [(s.reg .sp - BitVec.ofNat 32 (4 * rs.length), 4 * rs.length)] s.mem
      (s.mem.storeWords (s.reg .sp - BitVec.ofNat 32 (4 * rs.length)) 0 (rs.map s.reg)) :=
    frame_storeWords (by omega) (by simp) .refl
  refine own.mono (fun r hr => ⟨_, List.mem_singleton_self _, ?_⟩) fun r hr => ?_
  · obtain rfl := List.mem_singleton.1 hr
    have within := @below_within (s.reg .sp) (4 * rs.length) 0 (n + 4 * rs.length) (by omega)
      (by omega)
    simpa using within
  · obtain rfl := List.mem_singleton.1 hr
    simp only
    omega

open ByteMemory in
/-- A function that is called writes below what is pushed, so that stays. -/
theorem Framed.call {s : State} {rs : List Reg} {n : ℕ} {m m' : ByteMemory}
    (h : Framed s rs n m) (hn : 0 < n) (few : n + 4 * rs.length < 2 ^ 31) (some_rs : rs ≠ [])
    (frame : Frame [(s.reg .sp - BitVec.ofNat 32 (4 * rs.length) - BitVec.ofNat 32 n, n)] m m') :
    Framed s rs n m' := by
  have pos : 0 < rs.length := List.length_pos_iff.2 some_rs
  constructor
  · refine h.pushed.of_frame (by omega) frame fun r hr => ?_
    obtain rfl := List.mem_singleton.1 hr
    refine ⟨hn, ?_⟩
    generalize s.reg .sp - BitVec.ofNat 32 (4 * rs.length) = base
    unfold Apart
    bv_omega
  · refine h.frame.trans (frame.mono (fun r hr => ⟨_, List.mem_singleton_self _, ?_⟩)
      fun r hr => ?_)
    · obtain rfl := List.mem_singleton.1 hr
      exact below_within (by omega) (by omega)
    · obtain rfl := List.mem_singleton.1 hr
      exact hn

theorem mem_loadAll {a : BitVec 32} {i : ℕ} {rs : List Reg} {t : State} :
    (State.loadAll a i rs t).mem = t.mem := by
  induction rs generalizing i t with
  | nil => rfl
  | cons r rs ih => rw [State.loadAll, ih, State.mem_set]

theorem reg_loadAll_of_notMem {a : BitVec 32} {i : ℕ} {rs : List Reg} {t : State} {q : Reg}
    (hq : q ∉ rs) : (State.loadAll a i rs t).reg q = t.reg q := by
  induction rs generalizing i t with
  | nil => rfl
  | cons r rs ih =>
    rw [List.mem_cons, not_or] at hq
    rw [State.loadAll, ih hq.2, State.reg_set, if_neg hq.1]

theorem reg_loadAll {a : BitVec 32} {i : ℕ} {rs : List Reg} {t : State} {v : Reg → BitVec 32}
    (words : ∀ j r, rs[j]? = some r → t.mem.ld32 (a + BitVec.ofNat 32 (4 * (i + j))) = v r)
    {q : Reg} (hq : q ∈ rs) : (State.loadAll a i rs t).reg q = v q := by
  induction rs generalizing i t with
  | nil => simp at hq
  | cons r rs ih =>
    rw [State.loadAll]
    by_cases later : q ∈ rs
    · refine ih (fun j r' hr' => ?_) later
      have := words (j + 1) r' (by simpa using hr')
      rwa [State.mem_set, Nat.add_assoc, Nat.add_comm 1 j]
    · obtain rfl : q = r := by simpa [later] using hq
      rw [reg_loadAll_of_notMem later, State.reg_set, if_pos rfl]
      exact words 0 q rfl

/-- A function that has pushed `rs` and its link register and then pops them returns, with the
registers it has to give back as they were. -/
theorem wp_popPc {F : Type} {im : Image F} {cur rest : List (Instr F)} {t u : State}
    {rs : List Reg} {Q : BitVec 32 → State → Prop} (pushed : Pushed s (rs ++ [.lr]) t.mem)
    (hsp : t.reg .sp = s.reg .sp - BitVec.ofNat 32 (4 * (rs.length + 1)))
    (kept : ∀ r ∈ calleeSaved.filter (· ∉ Reg.sp :: rs), t.reg r = s.reg r)
    (post : ∀ v, v.mem = t.mem → Saved s v → (∀ r, r ≠ .sp → r ∉ rs → v.reg r = t.reg r) →
      Q (s.reg .lr) v) : (t.popPc rs : Effect F).Wp im cur rest u Q := by
  have words : ∀ j r, (rs ++ [Reg.lr])[j]? = some r →
      t.mem.ld32 (t.reg .sp + BitVec.ofNat 32 (4 * j)) = s.reg r := by
    intro j r hr
    have := pushed j r hr
    rwa [List.length_append, List.length_singleton, ← hsp] at this
  have inside : ∀ j r, rs[j]? = some r →
      t.mem.ld32 (t.reg .sp + BitVec.ofNat 32 (4 * (0 + j))) = s.reg r := by
    intro j r hr
    rw [Nat.zero_add]
    refine words j r ?_
    rw [List.getElem?_append_left (List.getElem?_eq_some_iff.1 hr).1, hr]
  have target : t.mem.ld32 (t.reg .sp + BitVec.ofNat 32 (4 * rs.length)) = s.reg .lr :=
    words rs.length .lr (by simp)
  rw [State.popPc, wp_leave, target]
  refine post _ ?_ (fun r hr => ?_) fun r hr hrs => ?_
  · rw [State.mem_set, mem_loadAll]
  · rw [State.reg_set]
    split_ifs with h
    · rw [h, hsp]
      bv_omega
    · by_cases hrs : r ∈ rs
      · exact reg_loadAll inside hrs
      · rw [reg_loadAll_of_notMem hrs]
        exact kept r (List.mem_filter.2 ⟨hr, by simp [h, hrs]⟩)
  · rw [State.reg_set, if_neg hr, reg_loadAll_of_notMem hrs]

end Fields

section Conditions

variable {a b : BitVec 32}

@[simp] theorem holds_eq : Cond.eq.holds (.ofSub a b) = true ↔ a = b := by
  simp [Cond.holds, Flags.ofSub]

@[simp] theorem holds_ne : Cond.ne.holds (.ofSub a b) = true ↔ a ≠ b := by
  simp [Cond.holds, Flags.ofSub]

@[simp] theorem holds_cs : Cond.cs.holds (.ofSub a b) = true ↔ b ≤ a := by
  simp [Cond.holds, Flags.ofSub]

@[simp] theorem holds_cc : Cond.cc.holds (.ofSub a b) = true ↔ a < b := by
  simp [Cond.holds, Flags.ofSub]

@[simp] theorem holds_hi : Cond.hi.holds (.ofSub a b) = true ↔ b < a := by
  simp only [Cond.holds, Flags.ofSub, Bool.and_eq_true, decide_eq_true_eq, Bool.not_eq_true',
    beq_eq_false_iff_ne]
  bv_omega

@[simp] theorem holds_ls : Cond.ls.holds (.ofSub a b) = true ↔ a ≤ b := by
  simp only [Cond.holds, Flags.ofSub, Bool.or_eq_true, Bool.not_eq_true', decide_eq_false_iff_not,
    beq_iff_eq]
  bv_omega

end Conditions

end Arm
