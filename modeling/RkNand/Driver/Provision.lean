import RkNand.Driver.Contexts

/-!
# Provisioning a blank flash (`rknand_provision_thread`)

The thread formats a flash that reports no capacity, and brings up the disk, the entries and the GC
thread on one that does.  What it reads, calls and creates is kept in a trace beside the state of
the driver, and `Allowed` says what may follow what: no provisioning call once a capacity has been
read or the request to stop has been seen, and nothing comes up without a capacity.  The request to
stop is an action of its own, so that it comes at any moment, and every other context may run in
between.
-/

namespace RkNand.Driver

open Ledger Transition

/-! ## The trace -/

/-- What the provision thread reads, calls and creates. -/
inductive ProvEvent where
  | capacity (cap : ℤ)
  | stopCheck (seen : Bool)
  | call (c : ProvCall)
  | create (r : Resource) (ok : Bool)
  | nandAddDev (ok : Bool)
  deriving DecidableEq

/-- The events of a step of the thread, in order. -/
def provEvents (s : Sys) (ans : ProvAnswer) : List ProvEvent :=
  match s.prov with
  | .capacity | .capacityReInit | .capacityFormat => [.capacity ans.ret]
  | .stopReInit | .stopLoad | .stopMake | .stopFormat | .idle => [.stopCheck s.provisionStop]
  | .call c => [.call c]
  | .retry attempt =>
      -- the loop tests `attempt <= 10` before it polls, and polls before it reads
      if attempt ≤ 10 then
        if s.provisionStop then [.stopCheck true] else [.stopCheck false, .capacity ans.ret]
      else []
  | .guard cap => if cap = 0 then [] else [.stopCheck s.provisionStop]
  | .addDev _ =>
      if ans.ok then [.create .disk true] else [.create .disk false, .nandAddDev false]
  | .addDisk => [.nandAddDev (ans.ret = 0)]
  | .procfs => [.create .procfs ans.ok]
  | .sysStorage => [.create .sysStorage ans.ok]
  | .vendorStorage => [.create .vendorStorage (ans.ret = 0 ∧ ans.ok)]
  | .startGc => [.create .gcThread ans.ok]
  | .absent | .inside _ | .markProcfs | .markSysStorage | .markVendorStorage | .markGc | .done
  | .exited => []

/-- The actions of the driver, and the request of `kthread_stop` at any moment. -/
inductive StopAction where
  | act (a : Action)
  | requestStop

def stopStep (s : Sys) : StopAction → Option Sys
  | .act a => sysStep s a
  | .requestStop => some { s with provisionStop := true }

def provNote (s : Sys) : StopAction → List ProvEvent → List ProvEvent
  | .act (.prov ans), trace => trace ++ provEvents s ans
  | _, trace => trace

/-- The driver with the trace of its provision thread. -/
def provisionStep : Sys × List ProvEvent → StopAction → Option (Sys × List ProvEvent) :=
  observe stopStep provNote

/-! ## What may follow what -/

/-- Every capacity read so far was zero. -/
def Blank (trace : List ProvEvent) : Prop := ∀ cap, .capacity cap ∈ trace → cap = 0

def ProvEvent.capacity? : ProvEvent → Option ℤ
  | .capacity cap => some cap
  | _ => none

/-- What `rk_ftl_get_capacity` returned last. -/
def lastCapacity (trace : List ProvEvent) : Option ℤ :=
  (trace.filterMap ProvEvent.capacity?).getLast?

/-- The last capacity is not zero. -/
def Provisioned (trace : List ProvEvent) : Prop := ∃ cap, lastCapacity trace = some cap ∧ cap ≠ 0

/-- `nand_add_dev` has returned 0. -/
def Added (trace : List ProvEvent) : Prop :=
  .nandAddDev true ∈ trace ∧ .nandAddDev false ∉ trace

/-- What the thread may do after what it has done: call on a blank flash and before it has seen the
request to stop, and create on a provisioned one. -/
def Allowed (before : List ProvEvent) : ProvEvent → Prop
  | .call _ => Blank before ∧ .stopCheck true ∉ before
  | .create r _ => Provisioned before ∧ (r ≠ .disk → Added before)
  | _ => True

/-- `nand_add_dev` has not returned. -/
def Unadded (trace : List ProvEvent) : Prop := ∀ ok, .nandAddDev ok ∉ trace

/-- What is behind the thread at each point. -/
def ProvPc.Behind (trace : List ProvEvent) : ProvPc → Prop
  | .capacity | .stopReInit | .inside _ | .capacityReInit | .stopLoad | .stopMake | .stopFormat
  | .capacityFormat | .retry _ => Blank trace ∧ Unadded trace
  -- the request may have come since the poll, so that it says nothing about `provisionStop`
  | .call _ => (Blank trace ∧ Unadded trace) ∧ .stopCheck true ∉ trace
  | .guard cap => (cap ≠ 0 → lastCapacity trace = some cap) ∧ Unadded trace
  | .addDev _ | .addDisk => Provisioned trace ∧ Unadded trace
  | .procfs | .markProcfs | .sysStorage | .markSysStorage | .vendorStorage | .markVendorStorage
  | .startGc => Provisioned trace ∧ Added trace
  | .absent | .markGc | .done | .idle | .exited => True

section events

variable {trace : List ProvEvent} {e : ProvEvent}

theorem blank_concat : Blank (trace ++ [e]) ↔ Blank trace ∧ ∀ cap, e = .capacity cap → cap = 0 := by
  simp only [Blank, List.mem_append, List.mem_singleton, or_imp, forall_and, eq_comm]

theorem unadded_concat :
    Unadded (trace ++ [e]) ↔ Unadded trace ∧ ∀ ok, e ≠ .nandAddDev ok := by
  simp only [Unadded, List.mem_append, List.mem_singleton, not_or, forall_and, ne_eq, eq_comm]

theorem lastCapacity_concat_capacity (cap : ℤ) :
    lastCapacity (trace ++ [ProvEvent.capacity cap]) = some cap := by
  simp [lastCapacity, ProvEvent.capacity?]

theorem lastCapacity_concat_other (other : e.capacity? = none) :
    lastCapacity (trace ++ [e]) = lastCapacity trace := by
  simp [lastCapacity, other]

theorem added_concat (other : ∀ ok, e ≠ .nandAddDev ok) : Added (trace ++ [e]) ↔ Added trace := by
  simp [Added, (other _).symm]

end events

/-! ## One step of the thread -/

/-- The trace is as it may be, a request to stop that was seen is still there, and the thread is
where its trace has taken it. -/
structure ProvInv (pc : ProvPc) (stop : Bool) (trace : List ProvEvent) : Prop where
  allowed : Guarded Allowed trace
  seen : .stopCheck true ∈ trace → stop = true
  behind : pc.Behind trace

section step

variable {pc pc' : ProvPc} {stop : Bool} {trace : List ProvEvent}

theorem ProvInv.move (inv : ProvInv pc stop trace) (behind : pc'.Behind trace) :
    ProvInv pc' stop trace := ⟨inv.allowed, inv.seen, behind⟩

theorem ProvInv.mono {stop' : Bool} (inv : ProvInv pc stop trace)
    (stays : stop = true → stop' = true) : ProvInv pc stop' trace :=
  ⟨inv.allowed, fun member => stays (inv.seen member), inv.behind⟩

theorem ProvInv.concat {e : ProvEvent} (inv : ProvInv pc stop trace) (allowed : Allowed trace e)
    (seen : e = .stopCheck true → stop = true) (behind : pc'.Behind (trace ++ [e])) :
    ProvInv pc' stop (trace ++ [e]) where
  allowed := inv.allowed.concat allowed
  seen := by
    intro member
    rcases List.mem_append.1 member with earlier | last
    · exact inv.seen earlier
    · exact seen (List.mem_singleton.1 last).symm
  behind := behind

/-- A capacity that is not zero takes the thread out of the provisioning. -/
theorem ProvInv.capacity (inv : ProvInv pc stop trace) (blank : Blank trace)
    (unadded : Unadded trace) (cap : ℤ)
    (next : ∀ trace', Blank trace' ∧ Unadded trace' → pc'.Behind trace') :
    ProvInv (.withCapacity cap pc') stop (trace ++ [ProvEvent.capacity cap]) := by
  refine inv.concat trivial (by simp) ?_
  have unadded' : Unadded (trace ++ [ProvEvent.capacity cap]) := unadded_concat.2 ⟨unadded, by simp⟩
  rw [ProvPc.withCapacity]
  split_ifs with zero
  · exact next _ ⟨blank_concat.2 ⟨blank, by simp [zero]⟩, unadded'⟩
  · exact ⟨fun _ => lastCapacity_concat_capacity cap, unadded'⟩

/-- A check for the request to stop, before a provisioning call. -/
theorem ProvInv.stopCheck (inv : ProvInv pc stop trace) (blank : Blank trace)
    (unadded : Unadded trace) (c : ProvCall)
    (skip : ∀ trace', Blank trace' ∧ Unadded trace' → pc'.Behind trace') :
    ProvInv (if stop then pc' else .call c) stop (trace ++ [ProvEvent.stopCheck stop]) := by
  refine inv.concat trivial (by simp) ?_
  have kept : Blank (trace ++ [ProvEvent.stopCheck stop]) ∧
      Unadded (trace ++ [ProvEvent.stopCheck stop]) :=
    ⟨blank_concat.2 ⟨blank, by simp⟩, unadded_concat.2 ⟨unadded, by simp⟩⟩
  cases stop with
  | true => exact skip _ kept
  | false =>
    have unseen : .stopCheck true ∉ trace := fun member => by simpa using inv.seen member
    exact ⟨kept, by simpa using unseen⟩

/-- A creation after `nand_add_dev`. -/
theorem ProvInv.create (inv : ProvInv pc stop trace) (provisioned : Provisioned trace)
    (added : Added trace) (r : Resource) (ok : Bool)
    (next : ∀ trace', Provisioned trace' ∧ Added trace' → pc'.Behind trace') :
    ProvInv pc' stop (trace ++ [ProvEvent.create r ok]) := by
  refine inv.concat ⟨provisioned, fun _ => added⟩ (by simp) ?_
  apply next
  refine ⟨?_, (added_concat (by simp)).2 added⟩
  rwa [Provisioned, lastCapacity_concat_other rfl]

variable {s t : Sys} {ans : ProvAnswer}

/-- A round of the retries polls, and then reads the capacity. -/
theorem ProvInv.retry {attempt : ℕ} (inv : ProvInv s.prov s.provisionStop trace)
    (hpc : s.prov = .retry attempt) (h : provStep s ans = some t) :
    ProvInv t.prov t.provisionStop (trace ++ provEvents s ans) := by
  obtain ⟨blank, unadded⟩ : Blank trace ∧ Unadded trace := by
    have behind := inv.behind
    rwa [hpc] at behind
  simp only [provStep, hpc] at h
  by_cases more : attempt ≤ 10
  · cases stopped : s.provisionStop with
    | true =>
      simp only [more, stopped, not_true_eq_false, and_false, if_false, Option.some.injEq] at h
      subst h
      simp only [provEvents, hpc, more, stopped, if_true]
      rw [stopped] at inv
      exact inv.concat trivial (fun _ => rfl)
        ⟨fun cap => absurd rfl cap, unadded_concat.2 ⟨unadded, by simp⟩⟩
    | false =>
      simp only [more, stopped, Bool.false_eq_true, not_false_eq_true, and_self, if_true,
        Option.some.injEq] at h
      subst h
      simp only [provEvents, hpc, more, stopped, if_true, Bool.false_eq_true, if_false]
      have blank' : Blank (trace ++ [ProvEvent.stopCheck false]) := blank_concat.2 ⟨blank, by simp⟩
      have unadded' : Unadded (trace ++ [ProvEvent.stopCheck false]) :=
        unadded_concat.2 ⟨unadded, by simp⟩
      have checked : ProvInv (.retry attempt) false (trace ++ [ProvEvent.stopCheck false]) :=
        (stopped ▸ inv).concat trivial (by simp) ⟨blank', unadded'⟩
      rw [List.append_cons]
      exact checked.capacity blank' unadded' _ fun _ => id
  · simp only [more, false_and, if_false, Option.some.injEq] at h
    subst h
    simp only [provEvents, hpc, more, if_false, List.append_nil]
    exact inv.move ⟨fun cap => absurd rfl cap, unadded⟩

/-- `nand_add_dev` up to the disk: from here on it is there, or the call has failed. -/
theorem ProvInv.addDev {cap : ℤ} (inv : ProvInv s.prov s.provisionStop trace)
    (hpc : s.prov = .addDev cap) (h : provStep s ans = some t) :
    ProvInv t.prov t.provisionStop (trace ++ provEvents s ans) := by
  obtain ⟨provisioned, unadded⟩ : Provisioned trace ∧ Unadded trace := by
    have behind := inv.behind
    rwa [hpc] at behind
  have disk (ok : Bool) : Allowed trace (.create .disk ok) :=
    ⟨provisioned, fun other => absurd rfl other⟩
  simp only [provStep, hpc] at h
  simp only [provEvents, hpc]
  split_ifs at h with ok
  · cases h
    rw [if_pos ok]
    refine inv.concat (disk true) (by simp) ⟨?_, unadded_concat.2 ⟨unadded, by simp⟩⟩
    rwa [Provisioned, lastCapacity_concat_other rfl]
  · cases h
    rw [if_neg ok, List.append_cons]
    have failed : ProvInv .done s.provisionStop (trace ++ [ProvEvent.create .disk false]) :=
      inv.concat (disk false) (by simp) trivial
    exact failed.concat trivial (by simp) trivial

/-- A step of the thread adds what it may to the trace. -/
theorem ProvInv.step (inv : ProvInv s.prov s.provisionStop trace) (h : provStep s ans = some t) :
    ProvInv t.prov t.provisionStop (trace ++ provEvents s ans) := by
  have behind := inv.behind
  cases hpc : s.prov with
  | absent | exited =>
    simp only [provStep, hpc] at h
    cases h
  | capacity | capacityReInit | capacityFormat =>
    simp only [provStep, hpc, Option.some.injEq] at h
    subst h
    rw [hpc] at behind
    simp only [provEvents, hpc]
    exact inv.capacity behind.1 behind.2 _ fun _ => id
  | stopReInit | stopLoad | stopMake | stopFormat =>
    simp only [provStep, hpc, Option.some.injEq] at h
    subst h
    rw [hpc] at behind
    simp only [provEvents, hpc]
    exact inv.stopCheck behind.1 behind.2 _ fun _ => id
  | call c =>
    simp only [provStep, hpc, Option.some.injEq] at h
    subst h
    rw [hpc] at behind
    simp only [provEvents, hpc]
    obtain ⟨⟨blank, unadded⟩, unseen⟩ := behind
    exact inv.concat ⟨blank, unseen⟩ (by simp)
      ⟨blank_concat.2 ⟨blank, by simp⟩, unadded_concat.2 ⟨unadded, by simp⟩⟩
  | inside c =>
    simp only [provStep, hpc, Option.some.injEq] at h
    subst h
    rw [hpc] at behind
    simp only [provEvents, hpc, List.append_nil]
    apply inv.move
    cases c with
    | loadFactorBbt =>
      dsimp only [ProvPc.afterCall]
      split_ifs
      · exact behind
      · exact behind
    | _ => exact behind
  | retry attempt => exact inv.retry hpc h
  | guard cap =>
    simp only [provStep, hpc, Option.some.injEq] at h
    subst h
    rw [hpc] at behind
    simp only [provEvents, hpc]
    by_cases zero : cap = 0
    · simp only [zero, true_or, if_true, List.append_nil]
      exact inv.move trivial
    · simp only [zero, false_or, if_false]
      refine inv.concat trivial (by simp) ?_
      split_ifs
      · trivial
      · refine ⟨⟨cap, ?_, zero⟩, unadded_concat.2 ⟨behind.2, by simp⟩⟩
        rw [lastCapacity_concat_other rfl]
        exact behind.1 zero
  | addDev cap => exact inv.addDev hpc h
  | addDisk =>
    simp only [provStep, hpc] at h
    rw [hpc] at behind
    obtain ⟨provisioned, unadded⟩ := behind
    simp only [provEvents, hpc]
    split_ifs at h with ok
    · cases h
      refine inv.concat trivial (by simp) ⟨?_, ?_⟩
      · rwa [Provisioned, lastCapacity_concat_other rfl]
      · simp [Added, ok, unadded false]
    · cases h
      exact inv.concat trivial (by simp) trivial
  | procfs | sysStorage | vendorStorage | startGc =>
    simp only [provStep, hpc] at h
    rw [hpc] at behind
    simp only [provEvents, hpc]
    split_ifs at h
    all_goals
      cases h
      exact inv.create behind.1 behind.2 _ _ (by simp [ProvPc.Behind])
  | markProcfs | markSysStorage | markVendorStorage =>
    simp only [provStep, hpc, Option.some.injEq] at h
    subst h
    rw [hpc] at behind
    simp only [provEvents, hpc, List.append_nil]
    exact inv.move behind
  | markGc | done =>
    simp only [provStep, hpc, Option.some.injEq] at h
    subst h
    simp only [provEvents, hpc, List.append_nil]
    exact inv.move trivial
  | idle =>
    simp only [provStep, hpc, Option.some.injEq] at h
    subst h
    simp only [provEvents, hpc]
    refine inv.concat trivial (by simp) ?_
    split_ifs <;> trivial

end step

/-! ## The flags -/

section flags

variable {s t : Sys}

/-- The flag of a resource that the provision thread creates says whether the resource is there;
between the creation and the assignment, at `mark`, it is behind.  Up to the stage `last` it has not
been set. -/
structure Flagged (s : Sys) (flag : Bool) (r : Resource) (mark : ProvPc) (last : ℕ) : Prop where
  set_iff : flag = true ↔ Held s.log r ∧ s.prov ≠ mark
  marking : s.prov = mark → Held s.log r
  unset : s.prov.stage ≤ last → flag = false

/-- A tail of the ledger with nothing about a resource. -/
def NothingOf (r : Resource) (tail : List (Entry Resource)) : Prop := ∀ e ∈ tail, e.resource ≠ r

/-- What a step can do to a flag and to the resource it is about. -/
inductive FlagStep (s t : Sys) (flag flag' : Bool) (r : Resource) (mark : ProvPc) (last : ℕ) : Prop
  | other {tail : List (Entry Resource)} (same : flag' = flag) (log : t.log = s.log ++ tail)
    (nothing : NothingOf r tail) (marks : t.prov = mark ↔ s.prov = mark)
    (stage : s.prov.stage ≤ t.prov.stage)
  | created (same : flag' = flag) (log : t.log = s.log ++ [.taken r]) (early : s.prov.stage ≤ last)
    (now : t.prov = mark)
  | marked (set : flag' = true) (log : t.log = s.log) (here : s.prov = mark)
    (moved : t.prov ≠ mark) (late : ¬ t.prov.stage ≤ last)
  | cleared (was : flag = true) (cleared : flag' = false) (log : t.log = s.log ++ [.given r])
    (samePc : t.prov = s.prov)

theorem FlagStep.keeps {flag flag' : Bool} {r : Resource} {mark : ProvPc} {last : ℕ}
    (step : FlagStep s t flag flag' r mark last) (inv : Flagged s flag r mark last) :
    Flagged t flag' r mark last := by
  cases step with
  | other same log nothing marks stage =>
    have held : Held t.log r ↔ Held s.log r := by
      rw [log]
      exact held_append nothing
    refine ⟨?_, ?_, ?_⟩
    · rw [same, held, ne_eq, marks]
      exact inv.set_iff
    · rw [held, marks]
      exact inv.marking
    · rw [same]
      exact fun early => inv.unset (stage.trans early)
  | created same log early now =>
    have unset : flag' = false := same.trans (inv.unset early)
    exact ⟨iff_of_false (by simp [unset]) (fun other => other.2 now),
      fun _ => log ▸ held_taken s.log r, fun _ => unset⟩
  | marked set log here moved late =>
    exact ⟨iff_of_true set ⟨log ▸ inv.marking here, moved⟩, fun stays => absurd stays moved,
      fun early => absurd early late⟩
  | cleared was cleared log samePc =>
    exact ⟨iff_of_false (by simp [cleared]) fun held => not_held_given s.log r (log ▸ held.1),
      fun here => absurd (samePc ▸ here) (inv.set_iff.1 was).2, fun _ => cleared⟩

/-- A step that adds nothing to the ledger and does not come to the assignment or from it. -/
theorem FlagStep.quiet {flag : Bool} {r : Resource} {mark : ProvPc} {last : ℕ}
    (log : t.log = s.log) (before : s.prov ≠ mark) (after : t.prov ≠ mark)
    (stage : s.prov.stage ≤ t.prov.stage) : FlagStep s t flag flag r mark last := by
  have nothing : t.log = s.log ++ [] := by rw [log, List.append_nil]
  exact .other rfl nothing (by simp [NothingOf]) (iff_of_false after before) stage

/-- The flags of the entry and of the GC thread, which is joined only once its flag is set. -/
structure FlagInv (s : Sys) : Prop where
  procfs : Flagged s s.procfsCreated .procfs .markProcfs 1
  gc : Flagged s s.gcStarted .gcThread .markGc 2
  joining : s.mod = .joinGc → s.gcStarted = true

/-- What a step of the provision thread does to the flags, the ledger and its trace. -/
structure ProvEffect (s : Sys) (ans : ProvAnswer) (t : Sys) : Prop where
  procfs : FlagStep s t s.procfsCreated t.procfsCreated .procfs .markProcfs 1
  gc : FlagStep s t s.gcStarted t.gcStarted .gcThread .markGc 2
  started : s.gcStarted = true → t.gcStarted = true
  ledger : ∃ tail, t.log = s.log ++ tail ∧
    ∀ r, .taken r ∈ tail → .create r true ∈ provEvents s ans

/-- A step that leaves the entry and the GC thread alone. -/
theorem ProvEffect.other {ans : ProvAnswer} {tail : List (Entry Resource)}
    (before : s.prov ≠ .markProcfs ∧ s.prov ≠ .markGc)
    (after : t.prov ≠ .markProcfs ∧ t.prov ≠ .markGc) (stage : s.prov.stage ≤ t.prov.stage)
    (procfs : t.procfsCreated = s.procfsCreated) (gc : t.gcStarted = s.gcStarted)
    (log : t.log = s.log ++ tail) (nothing : ∀ r ∈ [.procfs, .gcThread], NothingOf r tail)
    (events : ∀ r, .taken r ∈ tail → .create r true ∈ provEvents s ans) : ProvEffect s ans t where
  procfs := .other procfs log (nothing _ (by simp)) (iff_of_false after.1 before.1) stage
  gc := .other gc log (nothing _ (by simp)) (iff_of_false after.2 before.2) stage
  started set := gc.trans set
  ledger := ⟨tail, log, events⟩

/-- A step that moves the thread, and nothing else of what the flags are about. -/
theorem ProvEffect.move {ans : ProvAnswer} (before : s.prov ≠ .markProcfs ∧ s.prov ≠ .markGc)
    (after : t.prov ≠ .markProcfs ∧ t.prov ≠ .markGc) (stage : s.prov.stage ≤ t.prov.stage)
    (procfs : t.procfsCreated = s.procfsCreated) (gc : t.gcStarted = s.gcStarted)
    (log : t.log = s.log) : ProvEffect s ans t := by
  have same : t.log = s.log ++ [] := by rw [log, List.append_nil]
  exact .other before after stage procfs gc same (by simp [NothingOf]) (by simp)

theorem provStep_effect {ans : ProvAnswer} (h : provStep s ans = some t) :
    ProvEffect s ans t := by
  have stage := (provStep_stage h).1
  cases hpc : s.prov with
  | absent | exited =>
    simp only [provStep, hpc] at h
    cases h
  | capacity | capacityReInit | capacityFormat =>
    simp only [provStep, hpc, Option.some.injEq] at h
    subst h
    refine .move (by simp [hpc]) ?_ stage rfl rfl rfl
    rw [ProvPc.withCapacity]
    split_ifs <;> simp
  | stopReInit | stopLoad | stopMake | stopFormat | guard | idle =>
    simp only [provStep, hpc, Option.some.injEq] at h
    subst h
    refine .move (by simp [hpc]) ?_ stage rfl rfl rfl
    split_ifs <;> simp
  | call c =>
    simp only [provStep, hpc, Option.some.injEq] at h
    subst h
    exact .move (by simp [hpc]) (by simp) stage rfl rfl rfl
  | inside c =>
    simp only [provStep, hpc, Option.some.injEq] at h
    subst h
    refine .move (by simp [hpc]) ?_ stage rfl rfl rfl
    cases c with
    | loadFactorBbt =>
      rw [ProvPc.afterCall]
      split_ifs <;> simp
    | _ => simp [ProvPc.afterCall]
  | retry attempt =>
    simp only [provStep, hpc] at h
    split_ifs at h
    · cases h
      refine .move (by simp [hpc]) ?_ stage rfl rfl rfl
      rw [ProvPc.withCapacity]
      split_ifs <;> simp
    · cases h
      exact .move (by simp [hpc]) (by simp) stage rfl rfl rfl
  | addDev | sysStorage | vendorStorage =>
    simp only [provStep, hpc] at h
    split_ifs at h with ok
    · cases h
      exact .other (by simp [hpc]) (by simp) stage rfl rfl rfl
        (by simp [NothingOf, Entry.resource]) (by simp [provEvents, hpc, ok])
    · cases h
      exact .move (by simp [hpc]) (by simp) stage rfl rfl rfl
  | addDisk =>
    simp only [provStep, hpc] at h
    split_ifs at h
    · cases h
      exact .move (by simp [hpc]) (by simp) stage rfl rfl rfl
    · cases h
      exact .other (by simp [hpc]) (by simp) stage rfl rfl rfl
        (by simp [NothingOf, Entry.resource]) (by simp)
  | procfs =>
    simp only [provStep, hpc] at h
    split_ifs at h with ok
    · cases h
      exact ⟨.created rfl rfl (by simp [hpc, ProvPc.stage]) rfl,
        .other rfl rfl (by simp [NothingOf, Entry.resource]) (by simp [hpc]) stage, id, _, rfl,
        by simp [provEvents, hpc, ok]⟩
    · cases h
      exact .move (by simp [hpc]) (by simp) stage rfl rfl rfl
  | startGc =>
    simp only [provStep, hpc] at h
    split_ifs at h with ok
    · cases h
      exact ⟨.other rfl rfl (by simp [NothingOf, Entry.resource]) (by simp [hpc]) stage,
        .created rfl rfl (by simp [hpc, ProvPc.stage]) rfl, id, _, rfl,
        by simp [provEvents, hpc, ok]⟩
    · cases h
      exact .move (by simp [hpc]) (by simp) stage rfl rfl rfl
  | markProcfs =>
    simp only [provStep, hpc, Option.some.injEq] at h
    subst h
    exact ⟨.marked rfl rfl hpc (by simp) (by simp [ProvPc.stage]),
      .quiet rfl (by simp [hpc]) (by simp) stage, id, [], (List.append_nil _).symm, by simp⟩
  | markGc =>
    simp only [provStep, hpc, Option.some.injEq] at h
    subst h
    exact ⟨.quiet rfl (by simp [hpc]) (by simp) stage,
      .marked rfl rfl hpc (by simp) (by simp [ProvPc.stage]), fun _ => rfl, [],
      (List.append_nil _).symm, by simp⟩
  | markSysStorage | markVendorStorage | done =>
    simp only [provStep, hpc, Option.some.injEq] at h
    subst h
    exact .move (by simp [hpc]) (by simp) stage rfl rfl rfl

/-- What a step of the unloading task does to them: it only gives back, and clears the flags of the
entry and the GC thread as it gives these back. -/
structure ModEffect (s t : Sys) : Prop where
  stop : s.provisionStop = true → t.provisionStop = true
  procfs : FlagStep s t s.procfsCreated t.procfsCreated .procfs .markProcfs 1
  gc : FlagStep s t s.gcStarted t.gcStarted .gcThread .markGc 2
  joins : t.mod = .joinGc → t.gcStarted = true
  ledger : ∃ tail, t.log = s.log ++ tail ∧ ∀ r, .taken r ∉ tail

/-- A step that gives back other resources, if any. -/
theorem ModEffect.gives {tail : List (Entry Resource)}
    (stop : s.provisionStop = true → t.provisionStop = true) (samePc : t.prov = s.prov)
    (procfs : t.procfsCreated = s.procfsCreated) (gc : t.gcStarted = s.gcStarted)
    (joins : t.mod = .joinGc → t.gcStarted = true) (log : t.log = s.log ++ tail)
    (given : ∀ r, .taken r ∉ tail) (other : ∀ r ∈ [.procfs, .gcThread], NothingOf r tail) :
    ModEffect s t where
  stop := stop
  procfs := .other procfs log (other _ (by simp)) (by rw [samePc]) (by rw [samePc])
  gc := .other gc log (other _ (by simp)) (by rw [samePc]) (by rw [samePc])
  joins := joins
  ledger := ⟨tail, log, given⟩

theorem modStep_effect (joining : s.mod = .joinGc → s.gcStarted = true)
    (h : modStep s = some t) : ModEffect s t := by
  have nothing : ∀ r ∈ [.procfs, .gcThread], NothingOf r [] := by simp [NothingOf]
  have same : s.log = s.log ++ [] := (List.append_nil _).symm
  cases hpc : s.mod with
  | registered | inFlush | exitUnlock | deInit =>
    simp only [modStep, hpc, Option.some.injEq] at h
    subst h
    exact .gives id rfl rfl rfl (by simp) same (by simp) nothing
  | live | exitTrylock =>
    simp only [modStep, hpc] at h
    split_ifs at h
    all_goals
      cases h
      exact .gives id rfl rfl rfl (by simp) same (by simp) nothing
  | unregister =>
    simp only [modStep, hpc, Option.some.injEq] at h
    subst h
    refine .gives id rfl rfl rfl ?_ same (by simp) nothing
    dsimp only
    split_ifs <;> simp
  | stopProvision =>
    simp only [modStep, hpc] at h
    split_ifs at h
    · cases h
      exact .gives (fun _ => rfl) rfl rfl rfl (by simp) same (by simp) nothing
    · cases h
      exact .gives id rfl rfl rfl (by simp) same (by simp) nothing
  | joinProvision =>
    simp only [modStep, hpc] at h
    split_ifs at h
    cases h
    exact .gives id rfl rfl rfl (by simp) rfl (by simp) (by simp [NothingOf, Entry.resource])
  | stopGc =>
    simp only [modStep, hpc] at h
    split_ifs at h with started
    · cases h
      exact .gives id rfl rfl rfl (fun _ => started) same (by simp) nothing
    · cases h
      exact .gives id rfl rfl rfl (by simp) same (by simp) nothing
  | joinGc =>
    simp only [modStep, hpc] at h
    split_ifs at h
    cases h
    exact ⟨id, .other rfl rfl (by simp [NothingOf, Entry.resource]) Iff.rfl le_rfl,
      .cleared (joining hpc) rfl rfl rfl, by simp, _, rfl, by simp⟩
  | removeProc =>
    simp only [modStep, hpc] at h
    split_ifs at h with created
    · cases h
      exact ⟨id, .cleared created rfl rfl rfl,
        .other rfl rfl (by simp [NothingOf, Entry.resource]) Iff.rfl le_rfl, by simp, _, rfl,
        by simp⟩
    · cases h
      exact .gives id rfl rfl rfl (by simp) same (by simp) nothing
  | freeTagSet =>
    simp only [modStep, hpc] at h
    split_ifs at h
    · cases h
      exact .gives id rfl rfl rfl (by simp) (List.append_assoc _ _ _) (by simp)
        (by simp [NothingOf, Entry.resource])
    · cases h
      exact .gives id rfl rfl rfl (by simp) same (by simp) nothing
  | freeBuffer =>
    simp only [modStep, hpc] at h
    split_ifs at h
    · cases h
      exact .gives id rfl rfl rfl (by simp) rfl (by simp) (by simp [NothingOf, Entry.resource])
    · cases h
      exact .gives id rfl rfl rfl (by simp) same (by simp) nothing
  | removeDevs | unregisterBlkdev | inDeInit | unregisterDriver =>
    simp only [modStep, hpc, Option.some.injEq] at h
    subst h
    exact .gives id rfl rfl rfl (by simp) rfl (by simp) (by simp [NothingOf, Entry.resource])
  | miscDeinit =>
    simp only [modStep, hpc, Option.some.injEq] at h
    subst h
    obtain ⟨tail, log, misc⟩ := rknandMiscDeinit_log s.toStatics
    obtain ⟨_, _, _, shape⟩ := rknandMiscDeinit_shape s.toStatics
    refine .gives id rfl (by rw [shape]) (by rw [shape]) (by simp) log
      (fun r member => by simpa using misc _ member) ?_
    intro r own e member
    rcases misc e member with rfl | rfl <;> rintro rfl <;> simp [Entry.resource] at own
  | unloaded =>
    simp only [modStep, hpc] at h
    cases h

theorem FlagInv.prov {ans : ProvAnswer} (inv : FlagInv s) (h : provStep s ans = some t) :
    FlagInv t where
  procfs := (provStep_effect h).procfs.keeps inv.procfs
  gc := (provStep_effect h).gc.keeps inv.gc
  joining joins := by
    have mod : t.mod = s.mod := by
      obtain ⟨_, _, _, rfl, -⟩ := provStep_shape h
      rfl
    exact (provStep_effect h).started (inv.joining (mod ▸ joins))

theorem FlagInv.module (inv : FlagInv s) (h : modStep s = some t) : FlagInv t :=
  have effect := modStep_effect inv.joining h
  ⟨effect.procfs.keeps inv.procfs, effect.gc.keeps inv.gc, effect.joins⟩

/-- The other contexts leave the flags and the ledger alone. -/
theorem sysStep_frame_flags {a : Action} (h : sysStep s a = some t)
    (prov : a.context ≠ .provision) (module : a.context ≠ .module) :
    t.procfsCreated = s.procfsCreated ∧ t.gcStarted = s.gcStarted ∧ t.log = s.log := by
  cases a with
  | prov ans => exact absurd rfl prov
  | gc =>
    obtain ⟨_, _, _, _, rfl⟩ := gcStep_shape h
    exact ⟨rfl, rfl, rfl⟩
  | rq i a =>
    obtain ⟨_, _, _, _, _, rfl⟩ := rqStep_shape h
    exact ⟨rfl, rfl, rfl⟩
  | flush i =>
    obtain ⟨_, _, rfl⟩ := flushStep_shape h
    exact ⟨rfl, rfl, rfl⟩
  | pm =>
    obtain ⟨_, _, _, rfl⟩ := pmStep_shape h
    exact ⟨rfl, rfl, rfl⟩
  | module => exact absurd rfl module

theorem FlagInv.step {a : StopAction} (inv : FlagInv s) (h : stopStep s a = some t) :
    FlagInv t := by
  cases a with
  | requestStop =>
    simp only [stopStep, Option.some.injEq] at h
    subst h
    exact ⟨⟨inv.procfs.set_iff, inv.procfs.marking, inv.procfs.unset⟩,
      ⟨inv.gc.set_iff, inv.gc.marking, inv.gc.unset⟩, inv.joining⟩
  | act a =>
    by_cases prov : a.context = .provision
    · cases a with
      | prov ans => exact inv.prov h
      | _ => cases prov
    by_cases module : a.context = .module
    · cases a with
      | module => exact inv.module h
      | _ => cases module
    obtain ⟨procfs, gc, log⟩ := sysStep_frame_flags h prov module
    have samePc : t.prov = s.prov := (sysStep_samePc h (Ne.symm prov)).resolve_right (by simp)
    have sameMod : t.mod = s.mod := (sysStep_samePc h (Ne.symm module)).resolve_right (by simp)
    have same : t.log = s.log ++ [] := log.trans (List.append_nil _).symm
    have other {flag flag' : Bool} {r : Resource} {mark : ProvPc} {last : ℕ} (kept : flag' = flag) :
        FlagStep s t flag flag' r mark last :=
      .other kept same (by simp [NothingOf]) (by rw [samePc]) (by rw [samePc])
    exact ⟨(other procfs).keeps inv.procfs, (other gc).keeps inv.gc,
      by rw [sameMod, gc]; exact inv.joining⟩

/-- `nand_blk_register` creates nothing of what the provision thread creates. -/
theorem nandBlkRegister_bare (env : InitEnv) (d : Statics) :
    (nandBlkRegister env d).2.procfsCreated = d.procfsCreated ∧
      (nandBlkRegister env d).2.gcStarted = d.gcStarted ∧
      ∃ tail, (nandBlkRegister env d).2.log = d.log ++ tail ∧ ∀ e ∈ tail, ¬ ProvEntry e := by
  generalize register : nandBlkRegister env d = result
  simp only [nandBlkRegister, mtdBufferError, tagSetError, rqInitError, Statics.give, Statics.take,
    List.append_assoc] at register
  split_ifs at register
  · subst register
    exact ⟨rfl, rfl, [], (List.append_nil _).symm, by simp⟩
  all_goals
    subst register
    exact ⟨rfl, rfl, _, rfl, by simp [ProvEntry, Entry.resource]⟩

theorem registered_bare (env : InitEnv) :
    (registered env).procfsCreated = false ∧ (registered env).gcStarted = false ∧
      ∀ e ∈ (registered env).log, ¬ ProvEntry e := by
  obtain ⟨procfs, gc, tail, log, bare⟩ :=
    nandBlkRegister_bare env ((Statics.initial.take .platformDriver).take .ftl)
  refine ⟨procfs, gc, fun e member => ?_⟩
  rw [registered, log] at member
  rcases List.mem_append.1 member with earlier | later
  · simp only [Statics.take, Statics.initial, List.nil_append, List.mem_append,
      List.mem_singleton] at earlier
    rcases earlier with rfl | rfl <;> simp [ProvEntry, Entry.resource]
  · exact bare e later

theorem flagInv_start (env : InitEnv) : FlagInv (Sys.start (registered env)) := by
  obtain ⟨procfs, gc, bare⟩ := registered_bare env
  have unheld (r : Resource) (own : ProvEntry (.taken r)) : ¬ Held (registered env).log r := by
    have none : Held ([] ++ (registered env).log) r ↔ Held [] r :=
      held_append fun e member same => bare e member (by rw [ProvEntry, same]; exact own)
    rw [List.nil_append] at none
    rw [none]
    simp [Held, entriesOf]
  have early (pc : ProvPc) (other : pc ≠ .capacity) (other' : pc ≠ .absent) :
      (Sys.start (registered env)).prov ≠ pc := by
    simp only [Sys.start]
    split_ifs
    · exact other.symm
    · exact other'.symm
  have unheldProcfs := unheld .procfs (by simp [ProvEntry, Entry.resource])
  have unheldGc := unheld .gcThread (by simp [ProvEntry, Entry.resource])
  refine ⟨⟨iff_of_false (by simp [Sys.start, procfs]) fun held => unheldProcfs held.1, ?_, ?_⟩,
    ⟨iff_of_false (by simp [Sys.start, gc]) fun held => unheldGc held.1, ?_, ?_⟩,
    by simp [Sys.start]⟩
  · exact fun marking => absurd marking (early _ (by simp) (by simp))
  · exact fun _ => procfs
  · exact fun marking => absurd marking (early _ (by simp) (by simp))
  · exact fun _ => gc

end flags

/-! ## Every run -/

section run

variable {s t : Sys} {trace : List ProvEvent}

/-- A request to stop stays. -/
theorem stopStep_stop {a : StopAction} (inv : FlagInv s) (h : stopStep s a = some t)
    (stopped : s.provisionStop = true) : t.provisionStop = true := by
  cases a with
  | requestStop =>
    simp only [stopStep, Option.some.injEq] at h
    exact h ▸ rfl
  | act a =>
    by_cases module : a = .module
    · subst module
      exact (modStep_effect inv.joining h).stop stopped
    · rw [(sysStep_frame_module h module).2.2.1, stopped]

/-- The thread and its trace, the flags, and a trace that knows of all that was created. -/
structure ProvisionInv (s : Sys) (trace : List ProvEvent) : Prop where
  prov : ProvInv s.prov s.provisionStop trace
  flags : FlagInv s
  created : ∀ r, ProvEntry (.taken r) → .taken r ∈ s.log → .create r true ∈ trace

theorem ProvisionInv.step {a : StopAction} (inv : ProvisionInv s trace)
    (h : stopStep s a = some t) : ProvisionInv t (provNote s a trace) := by
  have flags := inv.flags.step h
  have stays := stopStep_stop inv.flags h
  cases a with
  | requestStop =>
    simp only [stopStep, Option.some.injEq] at h
    subst h
    exact ⟨inv.prov.mono stays, flags, inv.created⟩
  | act a =>
    by_cases prov : a.context = .provision
    · cases a with
      | prov ans =>
        obtain ⟨tail, log, created⟩ := (provStep_effect h).ledger
        refine ⟨inv.prov.step h, flags, fun r own member => ?_⟩
        rw [log] at member
        rcases List.mem_append.1 member with earlier | now
        · exact List.mem_append_left _ (inv.created r own earlier)
        · exact List.mem_append_right _ (created r now)
      | _ => cases prov
    have samePc : t.prov = s.prov := (sysStep_samePc h (Ne.symm prov)).resolve_right (by simp)
    have sameTrace : provNote s (.act a) trace = trace := by
      cases a with
      | prov ans => exact absurd rfl prov
      | _ => rfl
    have log : ∃ tail, t.log = s.log ++ tail ∧ ∀ r, .taken r ∉ tail := by
      by_cases module : a.context = .module
      · cases a with
        | module =>
          exact (modStep_effect inv.flags.joining h).ledger
        | _ => cases module
      · exact ⟨[], by rw [(sysStep_frame_flags h prov module).2.2, List.append_nil], by simp⟩
    obtain ⟨tail, log, given⟩ := log
    rw [sameTrace]
    refine ⟨samePc ▸ inv.prov.mono stays, flags, fun r own member => ?_⟩
    rw [log] at member
    exact inv.created r own ((List.mem_append.1 member).resolve_right (given r))

theorem provisionInv_start (env : InitEnv) : ProvisionInv (Sys.start (registered env)) [] where
  prov := by
    refine ⟨guarded_nil, by simp, ?_⟩
    simp only [Sys.start]
    split_ifs
    · exact ⟨by simp [Blank], by simp [Unadded]⟩
    · trivial
  flags := flagInv_start env
  created := fun r own member => absurd own ((registered_bare env).2.2 _ member)

/-- Whatever the calls answer, whatever the other contexts do and whenever the thread is asked to
stop: it calls nothing that formats the flash once it has read a capacity, calls nothing to
provision it once it has seen the request to stop, creates nothing unless the last capacity was not
zero, and nothing but the disk unless `nand_add_dev` returned 0; all that the driver has taken for
it is in its trace; and the flags say what is there, but between the creation of the entry or of the
thread and the assignment after it. -/
theorem provisioning_safe (env : InitEnv) (acts : List StopAction) (s : Sys)
    (reached : run stopStep (Sys.start (registered env)) acts = some s) :
    ∃ trace, run provisionStep (Sys.start (registered env), []) acts = some (s, trace) ∧
      Guarded Allowed trace ∧
      (∀ r, ProvEntry (.taken r) → .taken r ∈ s.log → .create r true ∈ trace) ∧
      (s.procfsCreated = true ↔ Held s.log .procfs ∧ s.prov ≠ .markProcfs) ∧
      (s.gcStarted = true ↔ Held s.log .gcThread ∧ s.prov ≠ .markGc) := by
  obtain ⟨trace, traced⟩ :
      ∃ trace, run provisionStep (Sys.start (registered env), []) acts = some (s, trace) :=
    run_observe reached []
  have inv : ProvisionInv s trace := by
    refine run_invariant (I := fun u : Sys × List ProvEvent => ProvisionInv u.1 u.2) ?_ traced
      (provisionInv_start env)
    rintro ⟨s, trace⟩ a ⟨t, trace'⟩ inv h
    obtain ⟨next, rfl⟩ := observe_eq_some.1 h
    exact inv.step next
  exact ⟨trace, traced, inv.prov.allowed, inv.created, inv.flags.procfs.set_iff,
    inv.flags.gc.set_iff⟩

end run

/-- Steps of the provision thread whose calls all return `ret`, and whose creations succeed. -/
def provSteps (n : ℕ) (ret : ℤ) : List StopAction := List.replicate n (.act (.prov ⟨ret, true⟩))

/-- A blank flash that only the low-level format brings up, and a request to stop at the end. -/
def blankFlash : List StopAction :=
  provSteps 7 0 ++ provSteps 1 (-1) ++ provSteps 6 0 ++ provSteps 1 16384 ++ provSteps 12 0 ++
    [StopAction.requestStop]

theorem provisioning_safe_blankFlash :
    ∃ s trace, run provisionStep (Sys.start (registered allWell), []) blankFlash = some (s, trace) ∧
      Guarded Allowed trace ∧ .create .gcThread true ∈ trace ∧ Held s.log .gcThread := by
  have final : (run stopStep (Sys.start (registered allWell)) blankFlash).map
      (fun s => (s.gcStarted, decide (.taken .gcThread ∈ s.log))) = some (true, true) := by
    decide +kernel
  obtain ⟨s, reached, state⟩ := Option.map_eq_some_iff.1 final
  simp only [Prod.mk.injEq, decide_eq_true_eq] at state
  obtain ⟨started, taken⟩ := state
  obtain ⟨trace, traced, allowed, created, -, gc⟩ :=
    provisioning_safe allWell blankFlash s reached
  exact ⟨s, trace, traced, allowed, created .gcThread (by simp [ProvEntry, Entry.resource]) taken,
    (gc.1 started).1⟩

end RkNand.Driver
