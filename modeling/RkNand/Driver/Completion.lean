import RkNand.Lib.Transition

/-!
# Completion flags (`rk_nand_base.c`)

The interrupt handler of a controller sets a flag for each of the two things the FTL waits for, the
end of a transfer and the flash being ready; a wait sleeps until its flag is set and then clears it.
There are two controllers, told apart by their register bases, and four flags.

The handler, the waits and the two routines that clear a flag beforehand are cut into the steps
between which others may run: the handler stores its flags one after the other, and a wait finds its
flag set in one step and clears it in another.  The trace of a run says what happened to each flag,
and a wait finds its flag set only after an interrupt of its own (`waits_served`).
-/

namespace RkNand.Completion

open Transition

/-! ## The flags -/

/-- The controllers, by their place in `g_nandc_info`. -/
inductive Nandc
  | nandc0
  | nandc1
deriving DecidableEq

/-- What a wait is for: the end of a transfer, or the flash being ready. -/
inductive Kind
  | xfer
  | ready
deriving DecidableEq

/-- The bit of the interrupt status. -/
def Kind.bit : Kind → ℕ
  | .xfer => 0
  | .ready => 1

/-- The register bases in `g_nandc_info`. -/
structure Board where
  regBase : Nandc → ℕ
  distinct : regBase .nandc0 ≠ regBase .nandc1

/-- The four flags. -/
structure Flags where
  nandc0Xfer : Bool
  nandc0Ready : Bool
  nandc1Xfer : Bool
  nandc1Ready : Bool

variable (board : Board)

/-- The flag that the functions take for a register base. -/
def Flags.get (flags : Flags) (kind : Kind) (nandcReg : ℕ) : Bool :=
  match kind with
  | .xfer => if nandcReg = board.regBase .nandc0 then flags.nandc0Xfer else flags.nandc1Xfer
  | .ready => if nandcReg = board.regBase .nandc0 then flags.nandc0Ready else flags.nandc1Ready

/-- An assignment to that flag. -/
def Flags.put (flags : Flags) (kind : Kind) (nandcReg : ℕ) (v : Bool) : Flags :=
  match kind with
  | .xfer =>
    if nandcReg = board.regBase .nandc0 then { flags with nandc0Xfer := v }
    else { flags with nandc1Xfer := v }
  | .ready =>
    if nandcReg = board.regBase .nandc0 then { flags with nandc0Ready := v }
    else { flags with nandc1Ready := v }

/-- An assignment for one controller and kind is seen there and nowhere else. -/
theorem Flags.get_put (flags : Flags) (kind kind' : Kind) (c c' : Nandc) (v : Bool) :
    (flags.put board kind (board.regBase c) v).get board kind' (board.regBase c')
      = if kind = kind' ∧ c = c' then v else flags.get board kind' (board.regBase c') := by
  have other : board.regBase .nandc1 ≠ board.regBase .nandc0 := board.distinct.symm
  cases kind <;> cases kind' <;> cases c <;> cases c' <;> simp [put, get, other]

/-- A flag that is set after a clearing was set before, and is not the one that was cleared. -/
theorem Flags.get_of_put_false {flags : Flags} {kind kind' : Kind} {c c' : Nandc}
    (set : (flags.put board kind (board.regBase c) false).get board kind' (board.regBase c')
      = true) :
    flags.get board kind' (board.regBase c') = true ∧ ¬ (kind = kind' ∧ c = c') := by
  rw [get_put] at set
  split_ifs at set with here
  exact ⟨set, here⟩

/-! ## The steps -/

/-- Where the handler of a controller is: about to test a bit of the status it has read. -/
inductive Handler
  | idle
  | testing (kind : Kind) (status : BitVec 32)

/-- Where the wait for a controller and kind is: asleep, or past its loop and about to clear the
flag. -/
inductive Waiter
  | idle
  | asleep
  | leaving
deriving DecidableEq

structure State where
  flags : Flags
  /-- `rk_nand_wait_busy_schedule`. -/
  schedule : Bool
  handler : Nandc → Handler
  /-- One waiter for each kind and controller. -/
  waiter : Kind → Nandc → Waiter

/-- The actions, each of one context. -/
inductive Action
  /-- `rk_nand_schedule_enable_config`. -/
  | scheduleEnableConfig (en : Bool)
  /-- `rk_nandc_xfer_irq_flag_init` and `rk_nandc_rb_irq_flag_init`. -/
  | flagInit (kind : Kind) (c : Nandc)
  /-- `rk_nandc_interrupt` is entered and reads the status. -/
  | interruptEnter (c : Nandc) (status : BitVec 32)
  /-- It tests the next bit, and stores the flag if the bit is set. -/
  | interruptTest (c : Nandc)
  /-- `wait_for_nandc_xfer_completed` and `wait_for_nand_flash_ready` are entered. -/
  | waitEnter (kind : Kind) (c : Nandc)
  /-- `wait_event_timeout` finds the flag set. -/
  | waitFound (kind : Kind) (c : Nandc)
  /-- `wait_event_timeout` runs into its timeout, and the loop goes round. -/
  | waitTimeout (kind : Kind) (c : Nandc)
  /-- The flag is cleared, and the wait returns. -/
  | waitReturn (kind : Kind) (c : Nandc)

/-- The handler after the test of a bit. -/
def Handler.next : Kind → BitVec 32 → Handler
  | .xfer, status => .testing .ready status
  | .ready, _ => .idle

/-- Move a waiter. -/
def State.moveWaiter (s : State) (kind : Kind) (c : Nandc) (w : Waiter) : State :=
  { s with waiter := fun k d => if k = kind ∧ d = c then w else s.waiter k d }

/-- One step of the driver. -/
def step (s : State) : Action → Option State
  | .scheduleEnableConfig en => some { s with schedule := en }
  | .flagInit kind c => some { s with flags := s.flags.put board kind (board.regBase c) false }
  | .interruptEnter c status =>
    match s.handler c with
    | .idle => some { s with handler := Function.update s.handler c (.testing .xfer status) }
    | .testing _ _ => none
  | .interruptTest c =>
    match s.handler c with
    | .idle => none
    | .testing kind status =>
      some { s with
        flags := if status.getLsbD kind.bit then s.flags.put board kind (board.regBase c) true
          else s.flags
        handler := Function.update s.handler c (Handler.next kind status) }
  | .waitEnter kind c =>
    match s.waiter kind c with
    | .idle => some (s.moveWaiter kind c (if s.schedule then .asleep else .leaving))
    | _ => none
  | .waitFound kind c =>
    if s.waiter kind c = .asleep ∧ s.flags.get board kind (board.regBase c) = true then
      some (s.moveWaiter kind c .leaving)
    else none
  | .waitTimeout kind c =>
    if s.waiter kind c = .asleep ∧ s.flags.get board kind (board.regBase c) = false then some s
    else none
  | .waitReturn kind c =>
    if s.waiter kind c = .leaving then
      some { s.moveWaiter kind c .idle with
        flags := s.flags.put board kind (board.regBase c) false }
    else none

/-- Before the first call. -/
def start : State where
  flags := ⟨false, false, false, false⟩
  schedule := false
  handler _ := .idle
  waiter _ _ := .idle

/-- Waits are entered in schedule mode. -/
def InSchedule (s : State) : Action → Prop
  | .waitEnter _ _ => s.schedule = true
  | _ => True

instance (s : State) (a : Action) : Decidable (InSchedule s a) := by
  cases a <;> unfold InSchedule <;> infer_instance

/-! ## The trace -/

/-- What a run shows of the flags. -/
inductive Event
  | flagInit (kind : Kind) (c : Nandc)
  /-- The handler of `c` has dealt with the bit of `kind` in a status. -/
  | handled (kind : Kind) (c : Nandc) (status : BitVec 32)
  | found (kind : Kind) (c : Nandc)
  | returned (kind : Kind) (c : Nandc)
deriving DecidableEq

/-- The event of an action. -/
def event (s : State) : Action → Option Event
  | .flagInit kind c => some (.flagInit kind c)
  | .interruptTest c =>
    match s.handler c with
    | .idle => none
    | .testing kind status => some (.handled kind c status)
  | .waitFound kind c => some (.found kind c)
  | .waitReturn kind c => some (.returned kind c)
  | _ => none

/-- The steps with the trace. -/
def tracedStep : State × List Event → Action → Option (State × List Event) :=
  observe (step board) fun s a trace => trace ++ (event s a).toList

/-- An interrupt of the controller with the bit of the kind set. -/
def Own (kind : Kind) (c : Nandc) (e : Event) : Prop :=
  ∃ status, e = .handled kind c status ∧ status.getLsbD kind.bit = true

/-- What uses an interrupt up: the flag is cleared beforehand, or a wait has returned. -/
def Spent (kind : Kind) (c : Nandc) (e : Event) : Prop :=
  e = .flagInit kind c ∨ e = .returned kind c

/-- An interrupt of the controller with the bit of the kind set was handled after both the last
clearing of the flag and the last return. -/
def Fresh (kind : Kind) (c : Nandc) (trace : List Event) : Prop :=
  Since (Own kind c) (Spent kind c) trace

/-- When a wait may find its flag set, and when it may return: it has found its flag set before, and
unless the flag was cleared in between, nothing has changed since. -/
def Allowed (before : List Event) : Event → Prop
  | .found kind c => Fresh kind c before
  | .returned kind c => ∃ earlier later, before = earlier ++ .found kind c :: later ∧
      .returned kind c ∉ later ∧ Fresh kind c earlier ∧
      (.flagInit kind c ∉ later → Fresh kind c before)
  | _ => True

/-! ## The invariant -/

/-- Each flag that is set has a fresh interrupt behind it, and each wait that is about to return has
found one. -/
structure Inv (s : State) (trace : List Event) : Prop where
  allowed : Guarded Allowed trace
  fresh : ∀ kind c, s.flags.get board kind (board.regBase c) = true → Fresh kind c trace
  leaving : ∀ kind c, s.waiter kind c = .leaving → ∃ earlier later,
    trace = earlier ++ .found kind c :: later ∧ .returned kind c ∉ later ∧ Fresh kind c earlier

variable {board}

theorem inv_start : Inv board start [] where
  allowed := guarded_nil
  fresh := by
    rintro (_ | _) c set <;> simp [start, Flags.get] at set
  leaving := by
    intro kind c leaving
    cases leaving

section

variable {s t : State} {trace : List Event} {kind : Kind} {c : Nandc}

/-- A return that is due. -/
theorem allowed_returned {earlier later : List Event} (fresh : Fresh kind c earlier)
    (none : .returned kind c ∉ later) :
    Allowed (earlier ++ .found kind c :: later) (.returned kind c) := by
  refine ⟨earlier, later, rfl, none, fresh, fun kept => Since.append fresh ?_⟩
  intro e member
  rcases List.mem_cons.1 member with rfl | there
  · simp [Spent]
  · rintro (rfl | rfl)
    · exact kept there
    · exact none there

/-- One more event: it is allowed, and whatever is set or about to return afterwards was so before,
and the event does not concern it, or has its reason in the event. -/
theorem Inv.concat (inv : Inv board s trace) {e : Event} (allowed : Allowed trace e)
    (fresh : ∀ kind c, t.flags.get board kind (board.regBase c) = true → Own kind c e ∨
      s.flags.get board kind (board.regBase c) = true ∧ ¬ Spent kind c e)
    (leaving : ∀ kind c, t.waiter kind c = .leaving → e = .found kind c ∨
      s.waiter kind c = .leaving ∧ e ≠ .returned kind c) :
    Inv board t (trace ++ [e]) where
  allowed := inv.allowed.concat allowed
  fresh kind c set := by
    refine since_concat_iff.2 ((fresh kind c set).imp_right fun before => ?_)
    exact ⟨inv.fresh kind c before.1, before.2⟩
  leaving kind c isLeaving := by
    rcases leaving kind c isLeaving with rfl | ⟨before, other⟩
    · exact ⟨trace, [], rfl, by simp, allowed⟩
    · obtain ⟨earlier, later, rfl, none, found⟩ := inv.leaving kind c before
      refine ⟨earlier, later ++ [e], by simp, ?_, found⟩
      simp [none, other.symm]

/-- A flag that is set after the handler has tested a bit was set before, or is set for that bit. -/
theorem own_of_tested {flags : Flags} {status : BitVec 32} {kind' : Kind} {c' : Nandc}
    (set : (if status.getLsbD kind.bit then flags.put board kind (board.regBase c) true
      else flags).get board kind' (board.regBase c') = true) :
    Own kind' c' (.handled kind c status) ∨ flags.get board kind' (board.regBase c') = true := by
  split_ifs at set with bit
  · rw [Flags.get_put] at set
    split_ifs at set with here
    · obtain ⟨rfl, rfl⟩ := here
      exact .inl ⟨status, rfl, bit⟩
    · exact .inr set
  · exact .inr set

theorem moveWaiter_eq_leaving {kind' : Kind} {c' : Nandc} {w : Waiter}
    (isLeaving : (s.moveWaiter kind c w).waiter kind' c' = .leaving) :
    (kind' = kind ∧ c' = c) ∧ w = .leaving ∨
      ¬ (kind' = kind ∧ c' = c) ∧ s.waiter kind' c' = .leaving := by
  simp only [State.moveWaiter] at isLeaving
  split_ifs at isLeaving with here
  · exact .inl ⟨here, isLeaving⟩
  · exact .inr ⟨here, isLeaving⟩

/-- A step without an event: no flag is set by it, and no wait comes to be about to return. -/
theorem Inv.silent (inv : Inv board s trace) (same : t.flags = s.flags)
    (leaving : ∀ kind c, t.waiter kind c = .leaving → s.waiter kind c = .leaving) :
    Inv board t (trace ++ []) := by
  rw [List.append_nil]
  refine ⟨inv.allowed, ?_, fun kind c isLeaving => inv.leaving kind c (leaving kind c isLeaving)⟩
  intro kind c set
  exact inv.fresh kind c (same ▸ set)

/-- A step keeps the invariant. -/
theorem Inv.step {a : Action} (inv : Inv board s trace) (mode : InSchedule s a)
    (next : step board s a = some t) : Inv board t (trace ++ (event s a).toList) := by
  cases a with
  | scheduleEnableConfig en =>
    cases next
    exact inv.silent rfl fun _ _ isLeaving => isLeaving
  | flagInit kind c =>
    cases next
    refine inv.concat trivial ?_ fun kind' c' isLeaving => .inr ⟨isLeaving, by simp⟩
    intro kind' c' set
    obtain ⟨before, other⟩ := Flags.get_of_put_false board set
    exact .inr ⟨before, by simpa [Spent] using other⟩
  | interruptEnter c status =>
    cases at_ : s.handler c with
    | idle =>
      simp only [Completion.step, at_, Option.some.injEq] at next
      subst next
      exact inv.silent rfl fun _ _ isLeaving => isLeaving
    | testing kind' status' => simp [Completion.step, at_] at next
  | interruptTest c =>
    cases at_ : s.handler c with
    | idle => simp [Completion.step, at_] at next
    | testing kind status =>
      simp only [Completion.step, at_, Option.some.injEq] at next
      subst next
      have noted : event s (.interruptTest c) = some (.handled kind c status) := by
        simp [event, at_]
      rw [noted]
      refine inv.concat trivial ?_ fun kind' c' isLeaving => .inr ⟨isLeaving, by simp⟩
      intro kind' c' set
      rcases own_of_tested set with own | before
      · exact .inl own
      · exact .inr ⟨before, by simp [Spent]⟩
  | waitEnter kind c =>
    cases at_ : s.waiter kind c with
    | idle =>
      have scheduled : s.schedule = true := mode
      simp only [Completion.step, at_, scheduled, if_true, Option.some.injEq] at next
      subst next
      refine inv.silent rfl fun kind' c' isLeaving => ?_
      rcases moveWaiter_eq_leaving isLeaving with ⟨-, asleep⟩ | ⟨-, before⟩
      · cases asleep
      · exact before
    | asleep => simp [Completion.step, at_] at next
    | leaving => simp [Completion.step, at_] at next
  | waitFound kind c =>
    simp only [Completion.step, Option.ite_none_right_eq_some, Option.some.injEq] at next
    obtain ⟨⟨-, set⟩, rfl⟩ := next
    refine inv.concat (inv.fresh kind c set) (fun kind' c' set' => .inr ⟨set', by simp [Spent]⟩) ?_
    intro kind' c' isLeaving
    rcases moveWaiter_eq_leaving isLeaving with ⟨⟨rfl, rfl⟩, -⟩ | ⟨-, before⟩
    · exact .inl rfl
    · exact .inr ⟨before, by simp⟩
  | waitTimeout kind c =>
    simp only [Completion.step, Option.ite_none_right_eq_some, Option.some.injEq] at next
    obtain ⟨-, rfl⟩ := next
    exact inv.silent rfl fun _ _ isLeaving => isLeaving
  | waitReturn kind c =>
    simp only [Completion.step, Option.ite_none_right_eq_some, Option.some.injEq] at next
    obtain ⟨isLeaving, rfl⟩ := next
    obtain ⟨earlier, later, rfl, none, found⟩ := inv.leaving kind c isLeaving
    refine inv.concat (allowed_returned found none) ?_ ?_
    · intro kind' c' set
      obtain ⟨before, other⟩ := Flags.get_of_put_false board set
      exact .inr ⟨before, by simpa [Spent] using other⟩
    · intro kind' c' stillLeaving
      rcases moveWaiter_eq_leaving stillLeaving with ⟨-, idle⟩ | ⟨other, before⟩
      · cases idle
      · refine .inr ⟨before, ?_⟩
        rintro ⟨⟩
        exact other ⟨rfl, rfl⟩

end

/-! ## Every run -/

/-- However the interrupts of the two controllers, the clearings of the flags and the waits in
schedule mode run into each other, a wait finds its flag set only after an interrupt of its own
controller with the bit of its own kind, handled after the last clearing of the flag and after the
last return of that wait; and it returns only after it has found its flag set. -/
theorem waits_served (board : Board) (actions : List Action) (t : State)
    (scheduled : Along (step board) InSchedule start actions)
    (reached : run (step board) start actions = some t) :
    ∃ trace, run (tracedStep board) (start, []) actions = some (t, trace) ∧
      Guarded Allowed trace := by
  obtain ⟨trace, traced⟩ : ∃ trace, run (tracedStep board) (start, []) actions = some (t, trace) :=
    run_observe reached []
  refine ⟨trace, traced, ?_⟩
  have inv : Inv board t trace :=
    run_invariant_along (I := fun u => Inv board u.1 u.2)
      (fun u a v mode inv next => by
        obtain ⟨moved, noted⟩ := observe_eq_some.1 next
        exact noted ▸ inv.step mode moved)
      (scheduled.observe []) traced inv_start
  exact inv.allowed

/-- Two controllers. -/
def twoControllers : Board where
  regBase
    | .nandc0 => 0xf0a30000
    | .nandc1 => 0xf0a34000
  distinct := by decide

/-- A wait for the first controller, with interrupts of both. -/
def servedWait : List Action :=
  [.scheduleEnableConfig true, .flagInit .ready .nandc0, .waitEnter .ready .nandc0,
    .interruptEnter .nandc1 3, .interruptTest .nandc1, .interruptTest .nandc1,
    .waitTimeout .ready .nandc0, .interruptEnter .nandc0 2, .interruptTest .nandc0,
    .interruptTest .nandc0, .waitFound .ready .nandc0, .waitReturn .ready .nandc0]

/-- The trace of `servedWait`. -/
def servedTrace : List Event :=
  [.flagInit .ready .nandc0, .handled .xfer .nandc1 3, .handled .ready .nandc1 3,
    .handled .xfer .nandc0 2, .handled .ready .nandc0 2, .found .ready .nandc0,
    .returned .ready .nandc0]

theorem waits_served_ready :
    ∃ t, run (tracedStep twoControllers) (start, []) servedWait = some (t, servedTrace) ∧
      Guarded Allowed servedTrace := by
  have enabled : (run (step twoControllers) start servedWait).isSome = true := by decide +kernel
  obtain ⟨t, reached⟩ := Option.isSome_iff_exists.1 enabled
  obtain ⟨trace, traced, guarded⟩ :=
    waits_served twoControllers servedWait t (by decide +kernel) reached
  have noted : (run (tracedStep twoControllers) (start, []) servedWait).map Prod.snd
      = some servedTrace := by decide +kernel
  rw [traced, Option.map_some, Option.some.injEq] at noted
  exact ⟨t, noted ▸ traced, noted ▸ guarded⟩

/-- The flag is cleared beforehand while a wait has found it set and has not yet returned. -/
def clearedWait : List Action :=
  [.scheduleEnableConfig true, .waitEnter .ready .nandc0,
    .interruptEnter .nandc0 2, .interruptTest .nandc0, .interruptTest .nandc0,
    .waitFound .ready .nandc0, .flagInit .ready .nandc0, .waitReturn .ready .nandc0]

/-- The trace of `clearedWait` up to the return. -/
def clearedTrace : List Event :=
  [.handled .xfer .nandc0 2, .handled .ready .nandc0 2, .found .ready .nandc0]
    ++ [.flagInit .ready .nandc0]

/-- Then the wait returns with no interrupt since the clearing. -/
theorem clearing_overtaken :
    Along (step twoControllers) InSchedule start clearedWait ∧
      (run (tracedStep twoControllers) (start, []) clearedWait).map Prod.snd
        = some (clearedTrace ++ [.returned .ready .nandc0]) ∧
      ¬ Fresh .ready .nandc0 clearedTrace := by
  refine ⟨by decide +kernel, by decide +kernel, fun fresh => ?_⟩
  rcases since_concat_iff.1 fresh with own | ⟨-, unspent⟩
  · obtain ⟨status, same, -⟩ := own
    cases same
  · exact unspent (.inl rfl)

end RkNand.Completion
