import RkNand.Driver.Completion
import RkNand.Errno

/-!
# Registering the interrupt handlers (`rk_nand_base.c`)

Probing stores the interrupt line and the register base of a controller in `g_nandc_info`;
`rk_nandc_irq_init` registers the handler for the controllers, with the register base as `dev_id`,
and `rk_nandc_irq_deinit` is to release them.  The test for the second controller is the wrong way
round, and the release passes `NULL` for `dev_id`: the handler of the first controller stays
registered for good (`first_left_registered`), and a second controller has none
(`second_unregistered`).  The two calls do what they are for only when there is no controller at all
(`handlersMatch_iff`), that is, when probing has stored none (`probed_unmatched`).
-/

namespace RkNand.Irq

open Completion (Flags Nandc)

/-- An entry of `g_nandc_info`, with `0` for a `NULL` register base. -/
structure NandcInfo where
  irq : ℤ
  regBase : ℕ

/-- The handler of a controller: its line, and its register base as `dev_id`. -/
def NandcInfo.handler (i : NandcInfo) : ℤ × ℕ := (i.irq, i.regBase)

/-! ## Probing -/

/-- What `rknand_probe` meets. -/
structure PlatformDevice where
  membase : ℕ
  nandcId : Nandc
  /-- The first word of the boot data behind the registers. -/
  idbTag : BitVec 32
  /-- The third word. -/
  bootMedia : BitVec 32
  irq : ℤ
  /-- The error of the clock `hclk_nandc`, or 0. -/
  hclk : ℤ
  dmaSetMask : ℤ

/-- `rknand_probe`. -/
def rknandProbe (info : Nandc → NandcInfo) (dev : PlatformDevice) : ℤ × (Nandc → NandcInfo) :=
  if dev.membase = 0 then (-1, info)
  else if dev.nandcId = .nandc0 ∧ dev.idbTag = 0x44535953 ∧ dev.bootMedia = 2 then (-1, info)
  else if dev.irq < 0 then (dev.irq, info)
  else
    let info := Function.update info dev.nandcId ⟨dev.irq, dev.membase⟩
    if dev.hclk ≠ 0 then (dev.hclk, info) else (dev.dmaSetMask, info)

/-- The table after the devices have been probed. -/
def probed (devices : List PlatformDevice) : Nandc → NandcInfo :=
  devices.foldl (fun info dev => (rknandProbe info dev).2) fun _ => ⟨0, 0⟩

/-- Probing gets as far as to store the controller. -/
structure PlatformDevice.Stored (dev : PlatformDevice) : Prop where
  membase : dev.membase ≠ 0
  bootMedia : ¬ (dev.nandcId = .nandc0 ∧ dev.idbTag = 0x44535953 ∧ dev.bootMedia = 2)
  irq : 0 ≤ dev.irq

theorem rknandProbe_stored {dev : PlatformDevice} (stored : dev.Stored) (info : Nandc → NandcInfo) :
    (rknandProbe info dev).2 = Function.update info dev.nandcId ⟨dev.irq, dev.membase⟩ := by
  rw [rknandProbe, if_neg stored.membase, if_neg stored.bootMedia, if_neg (Int.not_lt.2 stored.irq)]
  split_ifs <;> rfl

theorem rknandProbe_not_stored {dev : PlatformDevice} (notStored : ¬ dev.Stored)
    (info : Nandc → NandcInfo) : (rknandProbe info dev).2 = info := by
  rw [rknandProbe]
  split_ifs with noBase emmc noIrq
  · rfl
  · rfl
  · rfl
  · exact absurd ⟨noBase, emmc, Int.not_lt.1 noIrq⟩ notStored
  · exact absurd ⟨noBase, emmc, Int.not_lt.1 noIrq⟩ notStored

/-- Probing takes no controller away. -/
theorem present_rknandProbe {info : Nandc → NandcInfo} {id : Nandc}
    (present : (info id).regBase ≠ 0) (dev : PlatformDevice) :
    ((rknandProbe info dev).2 id).regBase ≠ 0 := by
  by_cases stored : dev.Stored
  · rw [rknandProbe_stored stored]
    by_cases same : id = dev.nandcId
    · rw [same, Function.update_self]
      exact stored.membase
    · rwa [Function.update_of_ne same]
  · rwa [rknandProbe_not_stored stored]

theorem present_probed {devices : List PlatformDevice} {dev : PlatformDevice}
    (member : dev ∈ devices) (stored : dev.Stored) :
    (probed devices dev.nandcId).regBase ≠ 0 := by
  obtain ⟨before, later, rfl⟩ := List.append_of_mem member
  rw [probed, List.foldl_append, List.foldl_cons, rknandProbe_stored stored]
  refine List.foldlRecOn
    (motive := fun info : Nandc → NandcInfo => (info dev.nandcId).regBase ≠ 0) later _ ?_
    fun _ present next _ => present_rknandProbe present next
  rw [Function.update_self]
  exact stored.membase

/-! ## The calls -/

/-- The completion flags, and the handlers that the kernel has, by line and `dev_id`. -/
structure State where
  flags : Flags
  handlers : List (ℤ × ℕ)

variable (canRequest : ℤ → Bool) (info : Nandc → NandcInfo)

/-- `request_irq` for a line that is not shared: the kernel refuses some lines, and a line that has
a handler. -/
def requestIrq (irq : ℤ) (devId : ℕ) (s : State) : ℤ × State :=
  if canRequest irq = false then (-einval, s)
  else if ∃ h ∈ s.handlers, h.1 = irq then (-ebusy, s)
  else (0, { s with handlers := s.handlers ++ [(irq, devId)] })

/-- `free_irq`: only the handler with the same `dev_id` goes. -/
def freeIrq (irq : ℤ) (devId : ℕ) (s : State) : State :=
  { s with handlers := s.handlers.filter (· ≠ (irq, devId)) }

/-- `rk_nandc_irq_config`. -/
def rkNandcIrqConfig (id : Nandc) (mode : Bool) (s : State) : ℤ × State :=
  let irq := (info id).irq
  if mode then requestIrq canRequest irq (info id).regBase s
  else (0, freeIrq irq 0 s)

/-- `rk_nandc_irq_init`. -/
def rkNandcIrqInit (s : State) : ℤ × State :=
  let s := { s with flags := { s.flags with nandc0Ready := false, nandc0Xfer := false } }
  let (ret, s) := rkNandcIrqConfig canRequest info .nandc0 true s
  if (info .nandc1).regBase = 0 then
    let s := { s with flags := { s.flags with nandc1Ready := false, nandc1Xfer := false } }
    (ret, (rkNandcIrqConfig canRequest info .nandc1 true s).2)
  else (ret, s)

/-- `rk_nandc_irq_deinit`. -/
def rkNandcIrqDeinit (s : State) : ℤ × State :=
  let s := (rkNandcIrqConfig canRequest info .nandc0 false s).2
  if (info .nandc1).regBase = 0 then (0, (rkNandcIrqConfig canRequest info .nandc1 false s).2)
  else (0, s)

inductive Call
  | irqInit
  | irqDeinit

def call (s : State) : Call → State
  | .irqInit => (rkNandcIrqInit canRequest info s).2
  | .irqDeinit => (rkNandcIrqDeinit canRequest info s).2

/-- No handler is registered. -/
def boot : State := ⟨⟨false, false, false, false⟩, []⟩

/-- The state after a sequence of calls. -/
def after (calls : List Call) : State := calls.foldl (call canRequest info) boot

/-- After every `rk_nandc_irq_init` the handlers are those of the controllers that are there, and
after the `rk_nandc_irq_deinit` that follows none of these is left. -/
structure HandlersMatch : Prop where
  registered : ∀ calls h, h ∈ (after canRequest info (calls ++ [.irqInit])).handlers ↔
    ∃ id, (info id).regBase ≠ 0 ∧ h = (info id).handler
  released : ∀ calls id, (info id).regBase ≠ 0 →
    (info id).handler ∉
      (after canRequest info (calls ++ [.irqInit, .irqDeinit])).handlers

/-! ## What the calls do to the handlers -/

variable {canRequest info}

theorem mem_requestIrq_iff {irq : ℤ} {devId : ℕ} {s : State} {h : ℤ × ℕ} :
    h ∈ (requestIrq canRequest irq devId s).2.handlers ↔ h ∈ s.handlers ∨
      h = (irq, devId) ∧ canRequest irq = true ∧ ∀ g ∈ s.handlers, g.1 ≠ irq := by
  unfold requestIrq
  split_ifs with refused taken
  · simp [refused]
  · obtain ⟨g, member, same⟩ := taken
    refine ⟨.inl, fun either => either.resolve_right fun new => ?_⟩
    exact new.2.2 g member same
  · have free : ∀ g ∈ s.handlers, g.1 ≠ irq := fun g member line => taken ⟨g, member, line⟩
    have can : canRequest irq = true := by simpa using refused
    simp only [List.mem_append, List.mem_singleton]
    exact or_congr_right (iff_self_and.2 fun _ => ⟨can, free⟩)

theorem mem_freeIrq_iff {irq : ℤ} {devId : ℕ} {s : State} {h : ℤ × ℕ} :
    h ∈ (freeIrq irq devId s).handlers ↔ h ∈ s.handlers ∧ h ≠ (irq, devId) := by
  simp [freeIrq]

theorem line_of_requestIrq {irq : ℤ} (devId : ℕ) (s : State) (can : canRequest irq = true) :
    ∃ h ∈ (requestIrq canRequest irq devId s).2.handlers, h.1 = irq := by
  by_cases taken : ∃ h ∈ s.handlers, h.1 = irq
  · obtain ⟨h, member, line⟩ := taken
    exact ⟨h, mem_requestIrq_iff.2 (.inl member), line⟩
  · push Not at taken
    exact ⟨(irq, devId), mem_requestIrq_iff.2 (.inr ⟨rfl, can, taken⟩), rfl⟩

/-- After the line of the first controller, that of the second is requested if there is none. -/
theorem mem_init_iff {s : State} {h : ℤ × ℕ} :
    h ∈ (call canRequest info s .irqInit).handlers ↔
      h ∈ (requestIrq canRequest (info .nandc0).irq (info .nandc0).regBase s).2.handlers ∨
        (info .nandc1).regBase = 0 ∧ h = ((info .nandc1).irq, 0) ∧
          canRequest (info .nandc1).irq = true ∧
          ∀ g ∈ (requestIrq canRequest (info .nandc0).irq (info .nandc0).regBase s).2.handlers,
            g.1 ≠ (info .nandc1).irq := by
  simp only [call, rkNandcIrqInit, rkNandcIrqConfig, if_true]
  split_ifs with absent
  · simp only [mem_requestIrq_iff, absent, true_and]
  · simp only [mem_requestIrq_iff, absent, false_and, or_false]

theorem mem_deinit_iff {s : State} {h : ℤ × ℕ} :
    h ∈ (call canRequest info s .irqDeinit).handlers ↔ h ∈ s.handlers ∧
      h ≠ ((info .nandc0).irq, 0) ∧
      ((info .nandc1).regBase = 0 → h ≠ ((info .nandc1).irq, 0)) := by
  simp only [call, rkNandcIrqDeinit, rkNandcIrqConfig, Bool.false_eq_true, if_false]
  split_ifs with absent
  · simp only [mem_freeIrq_iff, absent, forall_const, and_assoc]
  · simp only [mem_freeIrq_iff, absent, false_implies, and_true]

/-- No call takes away a handler whose `dev_id` is not `NULL`. -/
theorem mem_call {s : State} {h : ℤ × ℕ} (c : Call) (notNull : h.2 ≠ 0) (member : h ∈ s.handlers) :
    h ∈ (call canRequest info s c).handlers := by
  have kept (irq : ℤ) : h ≠ (irq, 0) := fun same => notNull (congrArg Prod.snd same)
  cases c with
  | irqInit => exact mem_init_iff.2 (.inl (mem_requestIrq_iff.2 (.inl member)))
  | irqDeinit => exact mem_deinit_iff.2 ⟨member, kept _, fun _ => kept _⟩

/-- `rk_nandc_irq_init` leaves a handler on the line of the first controller, and on that of the
second if there is no second controller. -/
theorem line_of_init (s : State) (id : Nandc) (absent : id = .nandc1 → (info .nandc1).regBase = 0)
    (can : canRequest (info id).irq = true) :
    ∃ h ∈ (call canRequest info s .irqInit).handlers, h.1 = (info id).irq := by
  cases id with
  | nandc0 =>
    obtain ⟨h, member, line⟩ := line_of_requestIrq (info .nandc0).regBase s can
    exact ⟨h, mem_init_iff.2 (.inl member), line⟩
  | nandc1 =>
    simp only [call, rkNandcIrqInit, rkNandcIrqConfig, if_true, if_pos (absent rfl)]
    exact line_of_requestIrq _ _ can

/-! ## Every sequence of calls -/

variable (canRequest info) in
/-- The only handlers that are ever registered. -/
def Due (h : ℤ × ℕ) : Prop :=
  h = (info .nandc0).handler ∧ canRequest (info .nandc0).irq = true ∨
    h = ((info .nandc1).irq, 0) ∧ (info .nandc1).regBase = 0 ∧ canRequest (info .nandc1).irq = true

theorem due_call {s : State} (due : ∀ h ∈ s.handlers, Due canRequest info h) (c : Call) :
    ∀ h ∈ (call canRequest info s c).handlers, Due canRequest info h := by
  intro h member
  cases c with
  | irqInit =>
    rcases mem_init_iff.1 member with first | ⟨absent, rfl, can, -⟩
    · rcases mem_requestIrq_iff.1 first with before | ⟨rfl, can, -⟩
      · exact due h before
      · exact .inl ⟨rfl, can⟩
    · exact .inr ⟨rfl, absent, can⟩
  | irqDeinit => exact due h (mem_deinit_iff.1 member).1

theorem due_of_mem (calls : List Call) :
    ∀ h ∈ (after canRequest info calls).handlers, Due canRequest info h :=
  List.foldlRecOn (motive := fun s : State => ∀ h ∈ s.handlers, Due canRequest info h) calls _
    (by simp [boot]) fun _ due c _ => due_call due c

/-- The handler of the first controller is registered for good. -/
theorem first_left_registered (present : (info .nandc0).regBase ≠ 0)
    (can : canRequest (info .nandc0).irq = true) (calls : List Call) :
    (info .nandc0).handler ∈ (after canRequest info (.irqInit :: calls)).handlers := by
  refine List.foldlRecOn (motive := fun s : State => (info .nandc0).handler ∈ s.handlers)
    calls _ ?_ fun _ member c _ => mem_call c present member
  exact mem_init_iff.2 (.inl (mem_requestIrq_iff.2 (.inr ⟨rfl, can, by simp [boot]⟩)))

/-- A second controller with a register base of its own never has its handler registered. -/
theorem second_unregistered (present : (info .nandc1).regBase ≠ 0)
    (own : (info .nandc1).regBase ≠ (info .nandc0).regBase) (calls : List Call) :
    (info .nandc1).handler ∉ (after canRequest info calls).handlers := by
  intro member
  rcases due_of_mem calls _ member with ⟨same, -⟩ | ⟨same, -, -⟩
  · exact own (congrArg Prod.snd same)
  · exact present (congrArg Prod.snd same)

/-- Where the line of the second entry cannot be requested, as on a board with one controller, every
`rk_nandc_irq_init` leaves exactly the handler of the first controller. -/
theorem one_controller_registered (can : canRequest (info .nandc0).irq = true)
    (refused : canRequest (info .nandc1).irq = false) (calls : List Call) (h : ℤ × ℕ) :
    h ∈ (after canRequest info (calls ++ [.irqInit])).handlers ↔
      h = (info .nandc0).handler := by
  have due (g : ℤ × ℕ) (member : g ∈ (after canRequest info (calls ++ [.irqInit])).handlers) :
      g = (info .nandc0).handler := by
    rcases due_of_mem _ g member with ⟨same, -⟩ | ⟨-, -, can⟩
    · exact same
    · simp [refused] at can
  refine ⟨due h, ?_⟩
  rintro rfl
  obtain ⟨g, member, -⟩ := line_of_init (after canRequest info calls) .nandc0 (by simp) can
  have last : g ∈ (after canRequest info (calls ++ [.irqInit])).handlers := by
    simpa [after] using member
  exact due g last ▸ last

theorem HandlersMatch.absent (matched : HandlersMatch canRequest info) (id : Nandc) :
    (info id).regBase = 0 := by
  have quiet : ¬ ((info .nandc0).regBase ≠ 0 ∧ canRequest (info .nandc0).irq = true) := fun loud =>
    matched.released [] .nandc0 loud.1 (first_left_registered loud.1 loud.2 [.irqDeinit])
  by_contra present
  have member := (matched.registered [] _).2 ⟨id, present, rfl⟩
  rcases due_of_mem _ _ member with ⟨same, can⟩ | ⟨same, -, -⟩
  · exact quiet ⟨fun null => present ((congrArg Prod.snd same).trans null), can⟩
  · exact present (congrArg Prod.snd same)

/-- The handlers match the controllers that exist only where none exists, and the kernel refuses
both lines. -/
theorem handlersMatch_iff (canRequest : ℤ → Bool) (info : Nandc → NandcInfo) :
    HandlersMatch canRequest info ↔
      ∀ id, (info id).regBase = 0 ∧ canRequest (info id).irq = false := by
  constructor
  · intro matched
    refine fun id => ⟨matched.absent id, Bool.eq_false_iff.2 fun can => ?_⟩
    obtain ⟨h, member, -⟩ := line_of_init boot id (fun _ => matched.absent .nandc1) can
    obtain ⟨id', present, -⟩ := (matched.registered [] h).1 member
    exact present (matched.absent id')
  · intro none
    have empty (calls : List Call) (h : ℤ × ℕ) : h ∉ (after canRequest info calls).handlers := by
      intro member
      rcases due_of_mem calls h member with ⟨-, can⟩ | ⟨-, -, can⟩
      · simp [(none .nandc0).2] at can
      · simp [(none .nandc1).2] at can
    refine ⟨fun calls h => ⟨fun member => (empty _ h member).elim, ?_⟩, fun calls id _ => empty _ _⟩
    rintro ⟨id, present, -⟩
    exact (present (none id).1).elim

/-- So they match on no board on which probing has stored a controller. -/
theorem probed_unmatched {devices : List PlatformDevice} {dev : PlatformDevice}
    (member : dev ∈ devices) (stored : dev.Stored) : ¬ HandlersMatch canRequest (probed devices) :=
  fun matched => present_probed member stored (matched.absent dev.nandcId)

/-- The box: one controller, which does not boot from eMMC. -/
def box : PlatformDevice where
  membase := 0xf0a30000
  nandcId := .nandc0
  idbTag := 0
  bootMedia := 0
  irq := 45
  hclk := 0
  dmaSetMask := 0

/-- The box's handler is still registered after it should have been released. -/
theorem box_left_registered :
    ((probed [box]) .nandc0).regBase = 0xf0a30000 ∧ ((probed [box]) .nandc1).regBase = 0 ∧
      (after (· = 45) (probed [box]) [.irqInit, .irqDeinit]).handlers = [(45, 0xf0a30000)] := by
  decide +kernel

end RkNand.Irq
