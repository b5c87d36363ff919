import RkNand.Blk.Request
import RkNand.Driver.Init
import RkNand.Lib.Transition

/-!
# The contexts of the driver

The threads and callers that run the driver once `nand_blk_register` has returned, as one step
function: the provision thread, the GC thread, any number of callers of `rk_nand_queue_rq` and of
`rknand_dev_flush`, power management, and the task that loads the module and later unloads it.  Each
context has its own program counter; a step carries one context from one point where the others can
interfere to the next.  A call of the FTL blob takes two steps, one to enter and one to return, and
what the call returns is part of the action.
-/

namespace RkNand.Driver

open Ledger Blk

/-! ## Program counters -/

inductive Context where
  | provision
  | gc
  | rq (i : ℕ)
  | flush (i : ℕ)
  | pm
  | module
  deriving DecidableEq

/-- The calls of the blob that provision a blank flash. -/
inductive ProvCall where
  | reInit
  | loadFactorBbt
  | makeFactorBbt
  | lowFormat
  deriving DecidableEq

/-- `rknand_provision_thread`.  The constructors that start with `stop` poll `kthread_should_stop`,
and those that start with `mark` set the flag of what has just been created. -/
inductive ProvPc where
  | absent
  | capacity
  | stopReInit
  | call (c : ProvCall)
  | inside (c : ProvCall)
  | capacityReInit
  | stopLoad
  | stopMake
  | stopFormat
  | capacityFormat
  | retry (attempt : ℕ)
  | guard (cap : ℤ)
  | addDev (cap : ℤ)
  | addDisk
  | procfs
  | markProcfs
  | sysStorage
  | markSysStorage
  | vendorStorage
  | markVendorStorage
  | startGc
  | markGc
  | done
  | idle
  | exited
  deriving DecidableEq

/-- `nand_gc_thread`. -/
inductive GcPc where
  | absent
  | start
  | loop
  | sample
  | trylock
  | inGc
  | unlock
  | count
  | flushLock
  | inFlush
  | flushUnlock
  | wait
  | exited
  deriving DecidableEq

/-- A request with its tag. -/
structure Rq where
  tag : ℕ
  req : Request

/-- `rk_nand_queue_rq`, which clears `rk_ftl_gc_do` as it is called, with the loop of
`rk_nand_blktrans_work`. -/
inductive RqPc where
  | idle
  | lockQueue (r : Rq)
  | append (r : Rq)
  | next
  | lockDev (r : Rq)
  | exec (r : Rq)
  | inFtl (r : Rq)
  | unlockDev (r : Rq)
  | complete (r : Rq)
  | relock
  | setGc

/-- `rknand_dev_flush`. -/
inductive FlushPc where
  | idle
  | lock
  | inFlush
  | unlock
  deriving DecidableEq

/-- `rknand_dev_suspend` and `rknand_dev_resume`, which are called in turn: `rk_nand_suspend_state`
is 0 from `inResume` to `idle`.  A suspend that finds the device gone skips its work. -/
inductive PmPc where
  | idle
  | suspendLock
  | inSuspend
  | suspended
  | skipped
  | inResume
  | resumeUnlock
  deriving DecidableEq

/-- The end of `rknand_dev_init`, and `rknand_driver_exit` with what it calls. -/
inductive ModPc where
  | registered
  | live
  | exitTrylock
  | inFlush
  | exitUnlock
  | unregister
  | stopProvision
  | joinProvision
  | stopGc
  | joinGc
  | removeDevs
  | freeTagSet
  | removeProc
  | freeBuffer
  | unregisterBlkdev
  | deInit
  | inDeInit
  | miscDeinit
  | unregisterDriver
  | unloaded
  deriving DecidableEq

/-- The driver and all that runs in it. -/
structure Sys extends Statics where
  gcDo : Bool
  provisionStop : Bool
  deviceLock : Option Context
  queueLock : Option ℕ
  rqList : List Rq
  reqEmptyTimes : ℤ
  prov : ProvPc
  gc : GcPc
  rq : ℕ → RqPc
  flush : ℕ → FlushPc
  pm : PmPc
  mod : ModPc

/-- `nand_blk_register` has returned 0 and `rk_nand_dev_initialised` is still to be set; the
provision thread has been created, if it could be. -/
def Sys.start (d : Statics) : Sys :=
  { d with
    gcDo := false
    provisionStop := false
    deviceLock := none
    queueLock := none
    rqList := []
    reqEmptyTimes := 0
    prov := if d.provisionTask then .capacity else .absent
    gc := .absent
    rq := fun _ => .idle
    flush := fun _ => .idle
    pm := .idle
    mod := .registered }

/-! ## The provision thread -/

/-- Where the thread goes with a capacity: on to the retries if there is none yet. -/
def ProvPc.withCapacity (cap : ℤ) (none : ProvPc) : ProvPc := if cap = 0 then none else .guard cap

/-- What the calls of one step return: the answer of the FTL or the kernel, and whether a creation
or an allocation succeeds. -/
structure ProvAnswer where
  ret : ℤ
  ok : Bool

/-- The thread after a provisioning call has returned. -/
def ProvPc.afterCall (ret : ℤ) : ProvCall → ProvPc
  | .reInit => .capacityReInit
  | .loadFactorBbt => if ret ≠ 0 then .stopMake else .stopFormat
  | .makeFactorBbt => .stopFormat
  | .lowFormat => .capacityFormat

def provStep (s : Sys) (ans : ProvAnswer) : Option Sys :=
  match s.prov with
  | .absent => none
  | .capacity => some { s with prov := .withCapacity ans.ret .stopReInit }
  | .stopReInit =>
      some { s with prov := if s.provisionStop then .retry 1 else .call .reInit }
  | .call c => some { s with prov := .inside c }
  | .inside c => some { s with prov := .afterCall ans.ret c }
  | .capacityReInit => some { s with prov := .withCapacity ans.ret .stopLoad }
  | .stopLoad =>
      some { s with prov := if s.provisionStop then .retry 1 else .call .loadFactorBbt }
  | .stopMake =>
      some { s with prov := if s.provisionStop then .stopFormat else .call .makeFactorBbt }
  | .stopFormat =>
      some { s with prov := if s.provisionStop then .retry 1 else .call .lowFormat }
  | .capacityFormat => some { s with prov := .withCapacity ans.ret (.retry 1) }
  | .retry attempt =>
      if attempt ≤ 10 ∧ ¬ s.provisionStop then
        some { s with prov := .withCapacity ans.ret (.retry (attempt + 1)) }
      else some { s with prov := .guard 0 }
  | .guard cap =>
      some { s with prov := if cap = 0 ∨ s.provisionStop then .done else .addDev cap }
  | .addDev _ =>
      -- from here on the disk can be read: `device_add_disk` scans it for partitions
      if ans.ok then
        some { s with
          toStatics := { s.take .disk with
            devs := s.devs ++ [s.lastDevIndex], lastDevIndex := s.lastDevIndex + 1 }
          prov := .addDisk }
      else some { s with prov := .done }
  | .addDisk =>
      if ans.ret = 0 then some { s with prov := .procfs }
      else some { s with
        toStatics := { s.give .disk with devs := s.devs.dropLast }, prov := .done }
  | .procfs =>
      if ans.ok then some { s with toStatics := s.take .procfs, prov := .markProcfs }
      else some { s with prov := .sysStorage }
  | .markProcfs => some { s with procfsCreated := true, prov := .sysStorage }
  | .sysStorage =>
      if ans.ok then some { s with toStatics := s.take .sysStorage, prov := .markSysStorage }
      else some { s with prov := .vendorStorage }
  | .markSysStorage => some { s with sysStorageRegistered := true, prov := .vendorStorage }
  | .vendorStorage =>
      if ans.ret = 0 ∧ ans.ok then
        some { s with toStatics := s.take .vendorStorage, prov := .markVendorStorage }
      else some { s with prov := .startGc }
  | .markVendorStorage => some { s with vendorStorageRegistered := true, prov := .startGc }
  | .startGc =>
      if ans.ok then
        some { s with
          toStatics := { s.take .gcThread with quit := false, nandThQuited := false }
          gc := .start, prov := .markGc }
      else some { s with quit := false, nandThQuited := false, prov := .done }
  | .markGc => some { s with gcStarted := true, prov := .done }
  | .done => some { s with provisionDone := true, prov := .idle }
  | .idle => some { s with prov := if s.provisionStop then .exited else .idle }
  | .exited => none

/-! ## The GC thread -/

/-- A C `int`. -/
def wrap32 (x : ℤ) : ℤ := (x + 2 ^ 31) % 2 ^ 32 - 2 ^ 31

def gcStep (s : Sys) : Option Sys :=
  match s.gc with
  | .absent => none
  | .start => some { s with gcDo := true, reqEmptyTimes := 0, gc := .loop }
  | .loop => some { s with gc := if s.quit then .exited else .sample }
  | .sample =>
      if s.gcDo then some { s with gc := .trylock }
      else some { s with reqEmptyTimes := 0, gc := .wait }
  | .trylock =>
      if s.deviceLock = none then some { s with deviceLock := some .gc, gc := .inGc }
      else some { s with gc := .count }
  | .inGc => some { s with gc := .unlock }
  | .unlock => some { s with deviceLock := none, gc := .count }
  | .count =>
      let n := wrap32 (s.reqEmptyTimes + 1)
      some { s with reqEmptyTimes := n, gc := if 5 ≤ n ∧ n < 7 then .flushLock else .wait }
  | .flushLock =>
      if s.deviceLock = none then some { s with deviceLock := some .gc, gc := .inFlush } else none
  | .inFlush => some { s with gc := .flushUnlock }
  | .flushUnlock => some { s with deviceLock := none, gc := .wait }
  | .wait => some { s with gc := .loop }
  | .exited => none

/-! ## Requests -/

/-- A request is queued on an idle caller, or the caller goes on; a request under the device mutex
is taken to the FTL or refused by the checks. -/
inductive RqAction where
  | queue (r : Rq)
  | go (enters : Bool)

def Sys.setRq (s : Sys) (i : ℕ) (pc : RqPc) : Sys := { s with rq := Function.update s.rq i pc }

def rqStep (s : Sys) (i : ℕ) : RqAction → Option Sys
  | .queue r =>
      match s.rq i with
      | .idle => if s.devs = [] then none else some { s.setRq i (.lockQueue r) with gcDo := false }
      | _ => none
  | .go enters =>
      match s.rq i with
      | .idle => none
      | .lockQueue r =>
          if s.queueLock = none then some { s.setRq i (.append r) with queueLock := some i }
          else none
      | .append r => some { s.setRq i .next with rqList := s.rqList ++ [r] }
      | .next =>
          match s.rqList with
          | [] => some { s.setRq i .setGc with queueLock := none }
          | r :: rest => some { s.setRq i (.lockDev r) with queueLock := none, rqList := rest }
      | .lockDev r =>
          if s.deviceLock = none then some { s.setRq i (.exec r) with deviceLock := some (.rq i) }
          else none
      | .exec r => some (s.setRq i (if enters then .inFtl r else .unlockDev r))
      | .inFtl r => some (s.setRq i (.unlockDev r))
      | .unlockDev r => some { s.setRq i (.complete r) with deviceLock := none }
      | .complete _ => some (s.setRq i .relock)
      | .relock =>
          if s.queueLock = none then some { s.setRq i .next with queueLock := some i } else none
      | .setGc => some { s.setRq i .idle with gcDo := true }

/-! ## Flush and power management -/

def Sys.setFlush (s : Sys) (i : ℕ) (pc : FlushPc) : Sys :=
  { s with flush := Function.update s.flush i pc }

def flushStep (s : Sys) (i : ℕ) : Option Sys :=
  match s.flush i with
  | .idle => if s.rkNandDevInitialised then some (s.setFlush i .lock) else some s
  | .lock =>
      if s.deviceLock = none then
        some { s.setFlush i .inFlush with deviceLock := some (.flush i) }
      else none
  | .inFlush => some (s.setFlush i .unlock)
  | .unlock => some { s.setFlush i .idle with deviceLock := none }

/-- The callbacks of the platform driver do not run while the module is still being loaded. -/
def pmStep (s : Sys) : Option Sys :=
  match s.pm with
  | .idle =>
      if s.mod = .registered then none
      else if s.rkNandDevInitialised then
        some { s with scheduleMode := false, pm := .suspendLock }
      else some { s with pm := .skipped }
  | .suspendLock =>
      if s.deviceLock = none then some { s with deviceLock := some .pm, pm := .inSuspend }
      else none
  | .inSuspend => some { s with pm := .suspended }
  | .suspended | .skipped =>
      some { s with pm := if s.rkNandDevInitialised then .inResume else .idle }
  | .inResume => some { s with pm := .resumeUnlock }
  | .resumeUnlock => some { s with deviceLock := none, scheduleMode := true, pm := .idle }

/-! ## Unloading -/

/-- `nand_blk_unregister` after its check, and `rknand_driver_exit` around it. -/
def modStep (s : Sys) : Option Sys :=
  match s.mod with
  | .registered => some { s with rkNandDevInitialised := true, mod := .live }
  | .live =>
      if s.rkNandDevInitialised then
        some { s with rkNandDevInitialised := false, mod := .exitTrylock }
      else some { s with mod := .miscDeinit }
  | .exitTrylock =>
      if s.deviceLock = none then some { s with deviceLock := some .module, mod := .inFlush }
      else some { s with mod := .unregister }
  | .inFlush => some { s with mod := .exitUnlock }
  | .exitUnlock => some { s with deviceLock := none, mod := .unregister }
  | .unregister =>
      some { s with mod := if s.rkNandDevInitialised then .stopProvision else .deInit }
  | .stopProvision =>
      if s.provisionTask then some { s with provisionStop := true, mod := .joinProvision }
      else some { s with mod := .stopGc }
  | .joinProvision =>
      if s.prov = .exited then
        some { s with
          toStatics := { s.give .provisionThread with provisionTask := false }, mod := .stopGc }
      else none
  | .stopGc =>
      if s.gcStarted then some { s with quit := true, mod := .joinGc }
      else some { s with mod := .removeDevs }
  | .joinGc =>
      if s.gc = .exited then
        some { s with
          toStatics := { s.give .gcThread with gcStarted := false }, mod := .removeDevs }
      else none
  | .removeDevs =>
      some { s with
        toStatics := { s.toStatics with
          log := s.log ++ s.devs.map fun _ => .given .disk, devs := [] }
        mod := .freeTagSet }
  | .freeTagSet =>
      if s.tagSet then
        some { s with
          toStatics := { (s.give .tags).give .tagSet with tagSet := false }, mod := .removeProc }
      else some { s with mod := .removeProc }
  | .removeProc =>
      if s.procfsCreated then
        some { s with
          toStatics := { s.give .procfs with procfsCreated := false }, mod := .freeBuffer }
      else some { s with mod := .freeBuffer }
  | .freeBuffer =>
      if s.mtdReadTempBuffer then
        some { s with
          toStatics := { s.give .tempBuffer with mtdReadTempBuffer := false }
          mod := .unregisterBlkdev }
      else some { s with mod := .unregisterBlkdev }
  | .unregisterBlkdev => some { s with toStatics := s.give .major, mod := .deInit }
  | .deInit => some { s with mod := .inDeInit }
  | .inDeInit => some { s with toStatics := s.give .ftl, mod := .miscDeinit }
  | .miscDeinit =>
      some { s with toStatics := rknandMiscDeinit s.toStatics, mod := .unregisterDriver }
  | .unregisterDriver => some { s with toStatics := s.give .platformDriver, mod := .unloaded }
  | .unloaded => none

/-! ## The system -/

inductive Action where
  | prov (ans : ProvAnswer)
  | gc
  | rq (i : ℕ) (a : RqAction)
  | flush (i : ℕ)
  | pm
  | module

/-- The context an action belongs to. -/
def Action.context : Action → Context
  | prov _ => .provision
  | gc => .gc
  | rq i _ => .rq i
  | flush i => .flush i
  | pm => .pm
  | module => .module

def sysStep (s : Sys) : Action → Option Sys
  | .prov ans => provStep s ans
  | .gc => gcStep s
  | .rq i a => rqStep s i a
  | .flush i => flushStep s i
  | .pm => pmStep s
  | .module => modStep s

/-! ## What a step changes -/

section shape

variable {s t : Sys}

/-- What the provision thread enters into the ledger: what it creates, and a disk it takes back. -/
def ProvEntry (e : Entry Resource) : Prop :=
  e.resource ∈ [.disk, .procfs, .sysStorage, .vendorStorage, .gcThread]

/-- The provision thread keeps `rk_nand_dev_initialised`, adds its own entries to the ledger, and
touches no other context but the GC thread it creates. -/
theorem provStep_shape {ans : ProvAnswer} (h : provStep s ans = some t) :
    ∃ d pc gc, t = { s with toStatics := d, prov := pc, gc := gc } ∧
      d.rkNandDevInitialised = s.rkNandDevInitialised ∧
      (∃ tail, d.log = s.log ++ tail ∧ ∀ e ∈ tail, ProvEntry e) ∧
      (gc = s.gc ∨ s.prov = .startGc ∧ gc = .start) := by
  have quiet : ∃ tail, s.log = s.log ++ tail ∧ ∀ e ∈ tail, ProvEntry e := ⟨[], by simp, by simp⟩
  have entry (e : Entry Resource) (he : ProvEntry e) :
      ∃ tail, s.log ++ [e] = s.log ++ tail ∧ ∀ e ∈ tail, ProvEntry e :=
    ⟨[e], rfl, by simpa using he⟩
  cases hpc : s.prov with
  | absent | exited =>
    simp only [provStep, hpc] at h
    cases h
  | retry attempt =>
    simp only [provStep, hpc] at h
    split_ifs at h
    all_goals
      cases h
      exact ⟨_, _, _, rfl, rfl, quiet, .inl rfl⟩
  | addDev | procfs | sysStorage | vendorStorage =>
    simp only [provStep, hpc] at h
    split_ifs at h
    · cases h
      exact ⟨_, _, _, rfl, rfl, entry _ (by simp [ProvEntry, Entry.resource]), .inl rfl⟩
    · cases h
      exact ⟨_, _, _, rfl, rfl, quiet, .inl rfl⟩
  | addDisk =>
    simp only [provStep, hpc] at h
    split_ifs at h
    · cases h
      exact ⟨_, _, _, rfl, rfl, quiet, .inl rfl⟩
    · cases h
      exact ⟨_, _, _, rfl, rfl, entry _ (by simp [ProvEntry, Entry.resource]), .inl rfl⟩
  | startGc =>
    simp only [provStep, hpc] at h
    split_ifs at h
    · cases h
      exact ⟨_, _, _, rfl, rfl, entry _ (by simp [ProvEntry, Entry.resource]), .inr ⟨rfl, rfl⟩⟩
    · cases h
      exact ⟨_, _, _, rfl, rfl, quiet, .inl rfl⟩
  | _ =>
    simp only [provStep, hpc] at h
    cases h
    exact ⟨_, _, _, rfl, rfl, quiet, .inl rfl⟩

theorem gcStep_shape (h : gcStep s = some t) :
    ∃ gcDo n lock pc,
      t = { s with gcDo := gcDo, reqEmptyTimes := n, deviceLock := lock, gc := pc } := by
  unfold gcStep at h
  split at h
  all_goals
    try split_ifs at h
    all_goals first
      | cases h; done
      | (cases h
         exact ⟨_, _, _, _, rfl⟩)

theorem rqStep_shape {i : ℕ} {a : RqAction} (h : rqStep s i a = some t) :
    ∃ pc gcDo lock queue list,
      t = { s.setRq i pc with
        gcDo := gcDo, deviceLock := lock, queueLock := queue, rqList := list } := by
  cases a with
  | queue r =>
    simp only [rqStep] at h
    split at h
    · split_ifs at h
      cases h
      exact ⟨_, _, _, _, _, rfl⟩
    · cases h
  | go enters =>
    simp only [rqStep] at h
    split at h
    all_goals
      try split at h
      all_goals first
        | cases h; done
        | (cases h
           exact ⟨_, _, _, _, _, rfl⟩)

theorem flushStep_shape {i : ℕ} (h : flushStep s i = some t) :
    ∃ pc lock, t = { s.setFlush i pc with deviceLock := lock } := by
  unfold flushStep at h
  split at h
  · split_ifs at h
    · cases h
      exact ⟨_, _, rfl⟩
    · cases h
      exact ⟨s.flush i, s.deviceLock, by simp [Sys.setFlush]⟩
  · split_ifs at h
    cases h
    exact ⟨_, _, rfl⟩
  · cases h
    exact ⟨_, _, rfl⟩
  · cases h
    exact ⟨_, _, rfl⟩

theorem pmStep_shape (h : pmStep s = some t) :
    ∃ mode lock pc, t = { s with scheduleMode := mode, deviceLock := lock, pm := pc } := by
  unfold pmStep at h
  split at h
  all_goals
    try split_ifs at h
    all_goals
      cases h
      exact ⟨_, _, _, rfl⟩

theorem modStep_shape (h : modStep s = some t) :
    ∃ d stop lock pc,
      t = { s with toStatics := d, provisionStop := stop, deviceLock := lock, mod := pc } := by
  unfold modStep at h
  split at h
  all_goals
    try split_ifs at h
    all_goals first
      | cases h; done
      | (cases h
         exact ⟨_, _, _, _, rfl⟩)

/-- The program counter of a context is the same in two states. -/
def SamePc (s t : Sys) : Context → Prop
  | .provision => t.prov = s.prov
  | .gc => t.gc = s.gc
  | .rq i => t.rq i = s.rq i
  | .flush i => t.flush i = s.flush i
  | .pm => t.pm = s.pm
  | .module => t.mod = s.mod

/-- A step moves its own context only, and may create the GC thread. -/
theorem sysStep_samePc {a : Action} {c : Context} (h : sysStep s a = some t)
    (other : c ≠ a.context) : SamePc s t c ∨ c = .gc ∧ t.gc = .start := by
  cases a with
  | prov ans =>
    obtain ⟨d, pc, gc, rfl, -, -, gc'⟩ := provStep_shape h
    cases c with
    | provision => exact absurd rfl other
    | gc => exact gc'.imp id fun ⟨_, start⟩ => ⟨rfl, start⟩
    | _ => exact .inl rfl
  | gc =>
    obtain ⟨_, _, _, _, rfl⟩ := gcStep_shape h
    cases c with
    | gc => exact absurd rfl other
    | _ => exact .inl rfl
  | rq i a =>
    obtain ⟨_, _, _, _, _, rfl⟩ := rqStep_shape h
    cases c with
    | rq j =>
      have ne : j ≠ i := fun e => other (congrArg Context.rq e)
      exact .inl (Function.update_of_ne ne _ _)
    | _ => exact .inl rfl
  | flush i =>
    obtain ⟨_, _, rfl⟩ := flushStep_shape h
    cases c with
    | flush j =>
      have ne : j ≠ i := fun e => other (congrArg Context.flush e)
      exact .inl (Function.update_of_ne ne _ _)
    | _ => exact .inl rfl
  | pm =>
    obtain ⟨_, _, _, rfl⟩ := pmStep_shape h
    cases c with
    | pm => exact absurd rfl other
    | _ => exact .inl rfl
  | module =>
    obtain ⟨_, _, _, _, rfl⟩ := modStep_shape h
    cases c with
    | module => exact absurd rfl other
    | _ => exact .inl rfl

/-- The loading and unloading task is the only one to set and clear `rk_nand_dev_initialised`, to
stop the provision thread and to give back what `nand_blk_register` took. -/
theorem sysStep_frame_module {a : Action} (h : sysStep s a = some t) (other : a ≠ .module) :
    t.mod = s.mod ∧ t.rkNandDevInitialised = s.rkNandDevInitialised ∧
      t.provisionStop = s.provisionStop ∧
      ∃ tail, t.log = s.log ++ tail ∧ ∀ e ∈ tail, ProvEntry e := by
  have quiet : ∃ tail, s.log = s.log ++ tail ∧ ∀ e ∈ tail, ProvEntry e := ⟨[], by simp, by simp⟩
  cases a with
  | prov ans =>
    obtain ⟨d, pc, gc, rfl, same, log, -⟩ := provStep_shape h
    exact ⟨rfl, same, rfl, log⟩
  | gc =>
    obtain ⟨_, _, _, _, rfl⟩ := gcStep_shape h
    exact ⟨rfl, rfl, rfl, quiet⟩
  | rq i a =>
    obtain ⟨_, _, _, _, _, rfl⟩ := rqStep_shape h
    exact ⟨rfl, rfl, rfl, quiet⟩
  | flush i =>
    obtain ⟨_, _, rfl⟩ := flushStep_shape h
    exact ⟨rfl, rfl, rfl, quiet⟩
  | pm =>
    obtain ⟨_, _, _, rfl⟩ := pmStep_shape h
    exact ⟨rfl, rfl, rfl, quiet⟩
  | module => exact absurd rfl other

/-! ## The order of creation -/

/-- How far the provision thread has come: before `nand_add_dev`, before the flag of the procfs
entry is set, before the start of the GC thread, or past all three. -/
def ProvPc.stage : ProvPc → ℕ
  | .capacity | .stopReInit | .call _ | .inside _ | .capacityReInit | .stopLoad | .stopMake
  | .stopFormat | .capacityFormat | .retry _ | .guard _ | .addDev _ => 0
  | .addDisk | .procfs | .markProcfs => 1
  | .sysStorage | .markSysStorage | .vendorStorage | .markVendorStorage | .startGc => 2
  | _ => 3

/-- The thread does not go back, adds its disk as it leaves the first stage and creates the GC
thread as it leaves the third. -/
theorem provStep_stage {ans : ProvAnswer} (h : provStep s ans = some t) :
    s.prov.stage ≤ t.prov.stage ∧ (t.prov.stage = 0 → t.devs = s.devs) ∧
      (t.prov.stage ≤ 2 → t.gc = s.gc) := by
  cases hpc : s.prov with
  | absent | exited =>
    simp only [provStep, hpc] at h
    cases h
  | retry attempt =>
    simp only [provStep, hpc] at h
    split_ifs at h
    all_goals
      cases h
      exact ⟨Nat.zero_le _, fun _ => rfl, fun _ => rfl⟩
  | addDev | addDisk | procfs | sysStorage | vendorStorage | startGc =>
    simp only [provStep, hpc] at h
    split_ifs at h
    all_goals
      cases h
      simp [ProvPc.stage]
  | idle =>
    simp only [provStep, hpc, Option.some.injEq] at h
    subst h
    refine ⟨?_, fun _ => rfl, fun _ => rfl⟩
    dsimp only
    split_ifs <;> rfl
  | markProcfs | markSysStorage | markVendorStorage | markGc | done =>
    simp only [provStep, hpc, Option.some.injEq] at h
    subst h
    exact ⟨by simp [ProvPc.stage], fun _ => rfl, fun _ => rfl⟩
  | _ =>
    simp only [provStep, hpc, Option.some.injEq] at h
    subst h
    exact ⟨Nat.zero_le _, fun _ => rfl, fun _ => rfl⟩

/-- There is no GC thread until the provision thread has started it. -/
def Sys.GcLater (s : Sys) : Prop := s.prov.stage ≤ 2 → s.gc = .absent

theorem Sys.GcLater.step {a : Action} (later : s.GcLater) (h : sysStep s a = some t) :
    t.GcLater := by
  intro stage
  by_cases own : a.context = .provision
  · cases a with
    | prov ans =>
      obtain ⟨forward, -, same⟩ := provStep_stage h
      rw [same stage]
      exact later (forward.trans stage)
    | _ => cases own
  · have prov : t.prov = s.prov := (sysStep_samePc h (Ne.symm own)).resolve_right nofun
    have absent : s.gc = .absent := later (prov ▸ stage)
    cases a with
    | prov ans => exact absurd rfl own
    | gc =>
      simp only [sysStep, gcStep, absent] at h
      cases h
    | rq i a =>
      obtain ⟨_, _, _, _, _, rfl⟩ := rqStep_shape h
      exact absent
    | flush i =>
      obtain ⟨_, _, rfl⟩ := flushStep_shape h
      exact absent
    | pm =>
      obtain ⟨_, _, _, rfl⟩ := pmStep_shape h
      exact absent
    | module =>
      obtain ⟨_, _, _, _, rfl⟩ := modStep_shape h
      exact absent

end shape

end RkNand.Driver
