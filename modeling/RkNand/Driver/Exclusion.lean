import RkNand.Driver.Contexts
import RkNand.Lib.Mutex

/-!
# One context at a time in the FTL

The blob is not reentrant.  The driver keeps its contexts apart in two ways: the paths of requests,
GC, flushes and power management enter the blob under the device mutex, and the provision thread,
which takes no lock, formats the flash before there is a disk to queue requests on and before the GC
thread exists.  `KeptApart` says what neither of the two covers: flushes, power management and the
write-back of `rknand_dev_exit` may meet the provision thread, and `rk_ftl_de_init` may meet
anyone.  In the runs whose steps are kept apart in this way at most one context is inside, and in
no others (`along_keptApart_iff`).
-/

namespace RkNand.Driver

open Ledger Blk Transition

/-- The context is inside a call of the blob that changes its state. -/
def Sys.Inside (s : Sys) : Context → Prop
  | .provision => ∃ c, s.prov = .inside c
  | .gc => s.gc = .inGc ∨ s.gc = .inFlush
  | .rq i => ∃ r, s.rq i = .inFtl r
  | .flush i => s.flush i = .inFlush
  | .pm => s.pm = .inSuspend ∨ s.pm = .inResume
  | .module => s.mod = .inFlush ∨ s.mod = .inDeInit

def Exclusive (s : Sys) : Prop := ∀ c c', s.Inside c → s.Inside c' → c = c'

/-- The context has taken the device mutex and not given it back. -/
def Sys.Holds (s : Sys) : Context → Prop
  | .provision => False
  | .gc => s.gc = .inGc ∨ s.gc = .unlock ∨ s.gc = .inFlush ∨ s.gc = .flushUnlock
  | .rq i => ∃ r, s.rq i = .exec r ∨ s.rq i = .inFtl r ∨ s.rq i = .unlockDev r
  | .flush i => s.flush i = .inFlush ∨ s.flush i = .unlock
  | .pm => s.pm = .inSuspend ∨ s.pm = .suspended ∨ s.pm = .inResume ∨ s.pm = .resumeUnlock
  | .module => s.mod = .inFlush ∨ s.mod = .exitUnlock

/-- The step takes its context into the blob. -/
def Enters (s : Sys) (a : Action) : Prop :=
  ∃ t, sysStep s a = some t ∧ t.Inside a.context ∧ ¬ s.Inside a.context

/-- When a context enters the blob, it does not meet those that no lock and no order of creation
keeps away from it. -/
def KeptApart (s : Sys) (a : Action) : Prop :=
  Enters s a → s.mod ≠ .inDeInit ∧
    match a with
    | .prov _ => ¬ s.Inside .pm ∧ ¬ s.Inside .module ∧ ∀ i, ¬ s.Inside (.flush i)
    | .flush _ | .pm => ¬ s.Inside .provision
    | .module => ¬ s.Inside .provision ∧ (s.mod = .deInit → ∀ c, ¬ s.Inside c)
    | .gc | .rq _ _ => True

structure ExclusionInv (s : Sys) : Prop where
  locked : Mutex.Kept s.deviceLock s.Holds
  gcLater : s.GcLater
  order : s.prov.stage = 0 → s.devs = [] ∧ ∀ i, s.rq i = .idle
  skipped : s.pm = .skipped → s.mod ≠ .registered ∧ s.rkNandDevInitialised = false
  provision : s.Inside .provision → ∀ c, s.Inside c → c = .provision
  deInit : s.mod = .inDeInit → ∀ c, s.Inside c → c = .module

variable {s t : Sys} {a : Action} {c : Context}

/-- Outside of provisioning and `rk_ftl_de_init` the blob is entered under the mutex only. -/
theorem holds_of_inside (h : s.Inside c) :
    c = .provision ∨ c = .module ∧ s.mod = .inDeInit ∨ s.Holds c := by
  cases c with
  | provision => exact .inl rfl
  | gc =>
    rcases h with h | h
    · exact .inr (.inr (.inl h))
    · exact .inr (.inr (.inr (.inr (.inl h))))
  | rq i =>
    obtain ⟨r, h⟩ := h
    exact .inr (.inr ⟨r, .inr (.inl h)⟩)
  | flush i => exact .inr (.inr (.inl h))
  | pm =>
    rcases h with h | h
    · exact .inr (.inr (.inl h))
    · exact .inr (.inr (.inr (.inr (.inl h))))
  | module =>
    rcases h with h | h
    · exact .inr (.inr (.inl h))
    · exact .inr (.inl ⟨rfl, h⟩)

theorem ExclusionInv.exclusive (inv : ExclusionInv s) : Exclusive s := by
  intro c c' h h'
  rcases holds_of_inside h with rfl | ⟨rfl, deInit⟩ | holds
  · exact (inv.provision h c' h').symm
  · exact (inv.deInit deInit c' h').symm
  rcases holds_of_inside h' with rfl | ⟨rfl, deInit⟩ | holds'
  · exact inv.provision h' c h
  · exact inv.deInit deInit c h
  · exact inv.locked.unique holds holds'

/-! ## What a step does to the other contexts -/

theorem inside_of_other (h : sysStep s a = some t) (other : c ≠ a.context) (inside : t.Inside c) :
    s.Inside c := by
  rcases sysStep_samePc h other with same | ⟨rfl, start⟩
  · cases c <;> simp only [SamePc] at same <;> simpa only [Sys.Inside, same] using inside
  · simp [Sys.Inside, start] at inside

theorem holds_of_other (h : sysStep s a = some t) (other : c ≠ a.context) (holds : t.Holds c) :
    s.Holds c := by
  rcases sysStep_samePc h other with same | ⟨rfl, start⟩
  · cases c with
    | provision => exact holds
    | _ =>
      simp only [SamePc] at same
      simpa only [Sys.Holds, same] using holds
  · simp [Sys.Holds, start] at holds

/-! ## The mutex -/

theorem gcStep_mutex (h : gcStep s = some t) :
    Mutex.Step s.deviceLock t.deviceLock s.Holds t.Holds .gc := by
  have others (c : Context) (other : c ≠ .gc) : t.Holds c → s.Holds c :=
    holds_of_other (a := .gc) h other
  cases hpc : s.gc with
  | absent | exited =>
    simp only [gcStep, hpc] at h
    cases h
  | sample | trylock | flushLock =>
    simp only [gcStep, hpc] at h
    split_ifs at h
    all_goals
      cases h
      refine ⟨?_, ?_, others⟩ <;> simp_all [Sys.Holds]
  | loop | count =>
    simp only [gcStep, hpc, Option.some.injEq] at h
    subst h
    refine ⟨.inl rfl, ?_, others⟩
    simp only [Sys.Holds]
    split_ifs <;> simp
  | _ =>
    simp only [gcStep, hpc, Option.some.injEq] at h
    subst h
    refine ⟨?_, ?_, others⟩ <;> simp [Sys.Holds, hpc]

theorem rqStep_mutex {i : ℕ} {a : RqAction} (h : rqStep s i a = some t) :
    Mutex.Step s.deviceLock t.deviceLock s.Holds t.Holds (.rq i) := by
  have others (c : Context) (other : c ≠ .rq i) : t.Holds c → s.Holds c :=
    holds_of_other (a := .rq i a) h other
  cases a with
  | queue r =>
    simp only [rqStep] at h
    split at h
    · split_ifs at h
      cases h
      exact ⟨.inl rfl, by simp [Sys.Holds, Sys.setRq], others⟩
    · cases h
  | go enters =>
    cases hpc : s.rq i with
    | idle =>
      simp only [rqStep, hpc] at h
      cases h
    | lockQueue | relock | lockDev =>
      simp only [rqStep, hpc] at h
      split_ifs at h
      cases h
      refine ⟨?_, ?_, others⟩ <;> simp_all [Sys.Holds, Sys.setRq]
    | next =>
      simp only [rqStep, hpc] at h
      split at h
      all_goals
        cases h
        refine ⟨?_, ?_, others⟩ <;> simp [Sys.Holds, Sys.setRq]
    | _ =>
      simp only [rqStep, hpc, Option.some.injEq] at h
      subst h
      refine ⟨?_, ?_, others⟩ <;> simp [Sys.Holds, Sys.setRq, hpc]

theorem flushStep_mutex {i : ℕ} (h : flushStep s i = some t) :
    Mutex.Step s.deviceLock t.deviceLock s.Holds t.Holds (.flush i) := by
  have others (c : Context) (other : c ≠ .flush i) : t.Holds c → s.Holds c :=
    holds_of_other (a := .flush i) h other
  cases hpc : s.flush i with
  | idle | lock =>
    simp only [flushStep, hpc] at h
    split_ifs at h
    all_goals
      cases h
      refine ⟨?_, ?_, others⟩ <;> simp_all [Sys.Holds, Sys.setFlush]
  | _ =>
    simp only [flushStep, hpc, Option.some.injEq] at h
    subst h
    refine ⟨?_, ?_, others⟩ <;> simp [Sys.Holds, Sys.setFlush, hpc]

theorem pmStep_mutex (h : pmStep s = some t)
    (skipped : s.pm = .skipped → s.rkNandDevInitialised = false) :
    Mutex.Step s.deviceLock t.deviceLock s.Holds t.Holds .pm := by
  have others (c : Context) (other : c ≠ .pm) : t.Holds c → s.Holds c :=
    holds_of_other (a := .pm) h other
  cases hpc : s.pm with
  | idle | suspendLock =>
    simp only [pmStep, hpc] at h
    split_ifs at h
    all_goals
      cases h
      refine ⟨?_, ?_, others⟩ <;> simp_all [Sys.Holds]
  | suspended | skipped =>
    simp only [pmStep, hpc, Option.some.injEq] at h
    subst h
    refine ⟨.inl rfl, ?_, others⟩
    simp_all [Sys.Holds]
  | _ =>
    simp only [pmStep, hpc, Option.some.injEq] at h
    subst h
    refine ⟨?_, ?_, others⟩ <;> simp [Sys.Holds, hpc]

theorem modStep_mutex (h : modStep s = some t) :
    Mutex.Step s.deviceLock t.deviceLock s.Holds t.Holds .module := by
  have others (c : Context) (other : c ≠ .module) : t.Holds c → s.Holds c :=
    holds_of_other (a := .module) h other
  cases hpc : s.mod with
  | unloaded =>
    simp only [modStep, hpc] at h
    cases h
  | registered | inFlush | exitUnlock | removeDevs | unregisterBlkdev | deInit | inDeInit
  | miscDeinit | unregisterDriver =>
    simp only [modStep, hpc, Option.some.injEq] at h
    subst h
    refine ⟨?_, ?_, others⟩ <;> simp [Sys.Holds, hpc]
  | unregister =>
    simp only [modStep, hpc, Option.some.injEq] at h
    subst h
    refine ⟨.inl rfl, ?_, others⟩
    simp only [Sys.Holds]
    split_ifs <;> simp
  | _ =>
    simp only [modStep, hpc] at h
    split_ifs at h
    all_goals
      cases h
      refine ⟨?_, ?_, others⟩ <;> simp_all [Sys.Holds]

theorem sysStep_mutex (h : sysStep s a = some t)
    (skipped : s.pm = .skipped → s.rkNandDevInitialised = false) :
    Mutex.Step s.deviceLock t.deviceLock s.Holds t.Holds a.context := by
  cases a with
  | prov ans =>
    have others (c : Context) (other : c ≠ .provision) : t.Holds c → s.Holds c :=
      holds_of_other h other
    obtain ⟨d, pc, gc, rfl, -⟩ := provStep_shape h
    exact ⟨.inl rfl, False.elim, others⟩
  | gc => exact gcStep_mutex h
  | rq i a => exact rqStep_mutex h
  | flush i => exact flushStep_mutex h
  | pm => exact pmStep_mutex h skipped
  | module => exact modStep_mutex h

/-! ## The order of creation -/

/-- The loading task adds no disk, does not load the module again, and sets the flag once only. -/
theorem modStep_statics (h : modStep s = some t) :
    (t.devs = s.devs ∨ t.devs = []) ∧ t.mod ≠ .registered ∧
      (s.mod ≠ .registered → s.rkNandDevInitialised = false → t.rkNandDevInitialised = false) := by
  cases hpc : s.mod with
  | unloaded =>
    simp only [modStep, hpc] at h
    cases h
  | registered =>
    simp only [modStep, hpc, Option.some.injEq] at h
    subst h
    exact ⟨.inl rfl, nofun, fun ne => absurd rfl ne⟩
  | miscDeinit =>
    simp only [modStep, hpc, Option.some.injEq] at h
    subst h
    obtain ⟨_, _, _, shape⟩ := rknandMiscDeinit_shape s.toStatics
    rw [shape]
    exact ⟨.inl rfl, nofun, fun _ => id⟩
  | removeDevs =>
    simp only [modStep, hpc, Option.some.injEq] at h
    subst h
    exact ⟨.inr rfl, nofun, fun _ => id⟩
  | inFlush | exitUnlock | unregisterBlkdev | deInit | inDeInit | unregisterDriver =>
    simp only [modStep, hpc, Option.some.injEq] at h
    subst h
    exact ⟨.inl rfl, nofun, fun _ => id⟩
  | unregister =>
    simp only [modStep, hpc, Option.some.injEq] at h
    subst h
    refine ⟨.inl rfl, ?_, fun _ => id⟩
    dsimp only
    split_ifs <;> nofun
  | live =>
    simp only [modStep, hpc] at h
    split_ifs at h
    · cases h
      exact ⟨.inl rfl, nofun, fun _ _ => rfl⟩
    · cases h
      exact ⟨.inl rfl, nofun, fun _ => id⟩
  | _ =>
    simp only [modStep, hpc] at h
    split_ifs at h
    all_goals
      cases h
      exact ⟨.inl rfl, nofun, fun _ => id⟩

theorem order_step (order : s.prov.stage = 0 → s.devs = [] ∧ ∀ i, s.rq i = .idle)
    (h : sysStep s a = some t) : t.prov.stage = 0 → t.devs = [] ∧ ∀ i, t.rq i = .idle := by
  intro early
  cases a with
  | prov ans =>
    obtain ⟨forward, devs, -⟩ := provStep_stage h
    have before := order (Nat.le_zero.1 (forward.trans early.le))
    rw [devs early]
    obtain ⟨d, pc, gc, rfl, -⟩ := provStep_shape h
    exact before
  | gc =>
    obtain ⟨_, _, _, _, rfl⟩ := gcStep_shape h
    exact order early
  | rq i a =>
    obtain ⟨_, _, _, _, _, rfl⟩ := rqStep_shape h
    obtain ⟨devs, idle⟩ := order early
    cases a <;> simp [sysStep, rqStep, idle i, devs] at h
  | flush i =>
    obtain ⟨_, _, rfl⟩ := flushStep_shape h
    exact order early
  | pm =>
    obtain ⟨_, _, _, rfl⟩ := pmStep_shape h
    exact order early
  | module =>
    have devs := (modStep_statics h).1
    obtain ⟨_, _, _, _, rfl⟩ := modStep_shape h
    obtain ⟨none, idle⟩ := order early
    refine ⟨?_, idle⟩
    rcases devs with same | empty
    · exact same.trans none
    · exact empty

theorem skipped_step
    (skipped : s.pm = .skipped → s.mod ≠ .registered ∧ s.rkNandDevInitialised = false)
    (h : sysStep s a = some t) :
    t.pm = .skipped → t.mod ≠ .registered ∧ t.rkNandDevInitialised = false := by
  intro pm
  by_cases module : a = .module
  · subst module
    obtain ⟨-, left, flag⟩ := modStep_statics h
    have before : s.pm = .skipped := by
      obtain ⟨_, _, _, _, rfl⟩ := modStep_shape h
      exact pm
    exact ⟨left, flag (skipped before).1 (skipped before).2⟩
  · obtain ⟨mod, flag, -⟩ := sysStep_frame_module h module
    rw [mod, flag]
    by_cases own : a = .pm
    · subst own
      cases hpc : s.pm with
      | idle =>
        simp only [sysStep, pmStep, hpc] at h
        split_ifs at h with loading live
        · cases h
          cases pm
        · exact ⟨loading, by simpa using live⟩
      | suspendLock =>
        simp only [sysStep, pmStep, hpc] at h
        split_ifs at h
        cases h
        cases pm
      | skipped => exact skipped hpc
      | suspended =>
        simp only [sysStep, pmStep, hpc, Option.some.injEq] at h
        subst h
        have pm' : (if s.rkNandDevInitialised then PmPc.inResume else .idle) = .skipped := pm
        split_ifs at pm'
      | _ =>
        simp only [sysStep, pmStep, hpc, Option.some.injEq] at h
        subst h
        cases pm
    · have other : Context.pm ≠ a.context := by
        cases a <;> simp_all [Action.context]
      have same : t.pm = s.pm := (sysStep_samePc h other).resolve_right (by simp)
      exact skipped (same ▸ pm)

/-! ## Runs -/

/-- No request and no collection is inside the blob before the disk exists. -/
theorem not_inside_of_stage (later : s.GcLater)
    (order : s.prov.stage = 0 → s.devs = [] ∧ ∀ i, s.rq i = .idle) (early : s.prov.stage = 0) :
    ¬ s.Inside .gc ∧ ∀ i, ¬ s.Inside (.rq i) := by
  have absent : s.gc = .absent := later (early.le.trans zero_le_two)
  refine ⟨?_, fun i => ?_⟩
  · simp [Sys.Inside, absent]
  · simp [Sys.Inside, (order early).2 i]

theorem provision_step (inv : ExclusionInv s) (apart : KeptApart s a) (h : sysStep s a = some t) :
    t.Inside .provision → ∀ c, t.Inside c → c = .provision := by
  intro prov c inside
  by_contra ne
  obtain ⟨call, hcall⟩ := id prov
  have early : t.prov.stage = 0 := by
    rw [hcall]
    rfl
  obtain ⟨noGc, noRq⟩ := not_inside_of_stage (inv.gcLater.step h) (order_step inv.order h) early
  by_cases own : a.context = .provision
  · have before : s.Inside c := inside_of_other h (own ▸ ne) inside
    have entered : Enters s a :=
      ⟨t, h, own ▸ prov, fun was => ne (inv.provision (own ▸ was) c before)⟩
    cases a with
    | prov ans =>
      obtain ⟨-, pm, module, flush⟩ := apart entered
      cases c with
      | provision => exact ne rfl
      | gc => exact noGc inside
      | rq i => exact noRq i inside
      | flush i => exact flush i before
      | pm => exact pm before
      | module => exact module before
    | _ => cases own
  · have before : s.Inside .provision := inside_of_other h (Ne.symm own) prov
    have notBefore : ¬ s.Inside c := fun was => ne (inv.provision before c was)
    obtain rfl : c = a.context := by
      by_contra other
      exact notBefore (inside_of_other h other inside)
    have apart := apart ⟨t, h, inside, notBefore⟩
    cases a with
    | prov ans => exact own rfl
    | gc => exact noGc inside
    | rq i a => exact noRq i inside
    | flush i => exact apart.2 before
    | pm => exact apart.2 before
    | module => exact apart.2.1 before

theorem modStep_inDeInit (h : modStep s = some t) (deInit : t.mod = .inDeInit) :
    s.mod = .deInit := by
  cases hpc : s.mod with
  | deInit => rfl
  | unloaded =>
    simp only [modStep, hpc] at h
    cases h
  | unregister =>
    simp only [modStep, hpc, Option.some.injEq] at h
    subst h
    have deInit' : (if s.rkNandDevInitialised then ModPc.stopProvision else .deInit) = .inDeInit :=
      deInit
    split_ifs at deInit'
  | registered | inFlush | exitUnlock | removeDevs | unregisterBlkdev | inDeInit | miscDeinit
  | unregisterDriver =>
    simp only [modStep, hpc, Option.some.injEq] at h
    subst h
    cases deInit
  | _ =>
    simp only [modStep, hpc] at h
    split_ifs at h
    all_goals
      cases h
      cases deInit

theorem deInit_step (inv : ExclusionInv s) (apart : KeptApart s a) (h : sysStep s a = some t) :
    t.mod = .inDeInit → ∀ c, t.Inside c → c = .module := by
  intro deInit c inside
  by_contra ne
  by_cases own : a.context = .module
  · have before : s.Inside c := inside_of_other h (own ▸ ne) inside
    cases a with
    | module =>
      have from_deInit := modStep_inDeInit h deInit
      have entered : Enters s .module := by
        refine ⟨t, h, .inr deInit, ?_⟩
        simp [Sys.Inside, Action.context, from_deInit]
      exact (apart entered).2.2 from_deInit c before
    | _ => cases own
  · have same : t.mod = s.mod := (sysStep_samePc h (Ne.symm own)).resolve_right nofun
    have before : s.mod = .inDeInit := same ▸ deInit
    have notBefore : ¬ s.Inside c := fun was => ne (inv.deInit before c was)
    obtain rfl : c = a.context := by
      by_contra other
      exact notBefore (inside_of_other h other inside)
    exact (apart ⟨t, h, inside, notBefore⟩).1 before

theorem ExclusionInv.step (inv : ExclusionInv s) (apart : KeptApart s a)
    (h : sysStep s a = some t) : ExclusionInv t where
  locked := (sysStep_mutex h fun pm => (inv.skipped pm).2).kept inv.locked
  gcLater := inv.gcLater.step h
  order := order_step inv.order h
  skipped := skipped_step inv.skipped h
  provision := provision_step inv apart h
  deInit := deInit_step inv apart h

theorem exclusionInv_start {env : InitEnv} (ok : (rknandDriverInit env .initial).1 = 0) :
    ExclusionInv (Sys.start (registered env)) where
  locked := by
    intro c holds
    cases c <;> simp [Sys.Holds, Sys.start] at holds
  gcLater := fun _ => rfl
  order := fun _ => ⟨(registered_log (rknandDriverInit_ok ok).2).2.1, fun _ => rfl⟩
  skipped := nofun
  provision := by
    rintro ⟨call, h⟩
    simp only [Sys.start] at h
    split_ifs at h
  deInit := nofun

theorem exclusionInv_run {env : InitEnv} (ok : (rknandDriverInit env .initial).1 = 0)
    {acts : List Action} (apart : Along sysStep KeptApart (Sys.start (registered env)) acts)
    (reached : run sysStep (Sys.start (registered env)) acts = some s) : ExclusionInv s :=
  run_invariant_along (fun _ _ _ apart inv h => ExclusionInv.step inv apart h) apart reached
    (exclusionInv_start ok)

/-- In every run of the driver whose steps are kept apart, at most one context is inside the blob.
-/
theorem exclusive_of_keptApart (env : InitEnv) (ok : (rknandDriverInit env .initial).1 = 0)
    (acts : List Action) (s : Sys)
    (apart : Along sysStep KeptApart (Sys.start (registered env)) acts)
    (reached : run sysStep (Sys.start (registered env)) acts = some s) : Exclusive s :=
  (exclusionInv_run ok apart reached).exclusive

/-- A flush and a suspend contend for the mutex: while the flush is inside the suspend has to wait,
and after it the suspend is inside alone. -/
theorem exclusive_of_keptApart_contended :
    ∃ s t,
      run sysStep (Sys.start (registered allWell)) [.module, .flush 0, .flush 0, .pm] = some s ∧
      s.Inside (.flush 0) ∧ s.pm = .suspendLock ∧ sysStep s .pm = none ∧
      run sysStep s [.flush 0, .flush 0, .pm] = some t ∧ t.Inside .pm ∧ Exclusive t := by
  refine ⟨_, _, rfl, rfl, rfl, rfl, rfl, .inl rfl, ?_⟩
  refine exclusive_of_keptApart allWell (by decide)
    [.module, .flush 0, .flush 0, .pm, .flush 0, .flush 0, .pm] _ ?_ rfl
  have load : KeptApart (Sys.start (registered allWell)) .module := by
    rintro ⟨t, h, inside, -⟩
    cases h
    rcases inside with h | h <;> cases h
  have waits {s : Sys} {a : Action} (flushOrPm : a = .flush 0 ∨ a = .pm) (loaded : s.mod = .live)
      (prov : s.prov = .capacity) : KeptApart s a := by
    intro
    rcases flushOrPm with rfl | rfl
    all_goals exact ⟨by simp [loaded], by simp [Sys.Inside, prov]⟩
  refine .cons load rfl (.cons (waits (.inl rfl) rfl rfl) rfl (.cons (waits (.inl rfl) rfl rfl) rfl
    (.cons (waits (.inr rfl) rfl rfl) rfl (.cons (waits (.inl rfl) rfl rfl) rfl
      (.cons (waits (.inl rfl) rfl rfl) rfl (.cons (waits (.inr rfl) rfl rfl) rfl trivial))))))

/-! ### Runs that are not kept apart -/

theorem inside_of_samePc (same : SamePc s t c) (inside : s.Inside c) : t.Inside c := by
  cases c <;> simp only [SamePc] at same <;> simpa only [Sys.Inside, same] using inside

theorem modStep_samePc (h : modStep s = some t) (other : c ≠ .module) : SamePc s t c := by
  obtain ⟨_, _, _, _, rfl⟩ := modStep_shape h
  cases c with
  | module => exact absurd rfl other
  | _ => rfl

/-- A step into a state in which at most one context is inside is kept apart, so that `KeptApart`
asks no more than it has to. -/
theorem keptApart_of_exclusive (h : sysStep s a = some t) (exclusive : Exclusive t) :
    KeptApart s a := by
  rintro ⟨t', h', inside, notBefore⟩
  obtain rfl : t = t' := Option.some.inj (h.symm.trans h')
  have alone {c : Context} (other : c ≠ a.context) (same : SamePc s t c) : ¬ s.Inside c :=
    fun was => other (exclusive c _ (inside_of_samePc same was) inside)
  have away {c : Context} (other : c ≠ a.context) (notGc : c ≠ .gc) : ¬ s.Inside c :=
    alone other ((sysStep_samePc h other).resolve_right fun created => notGc created.1)
  refine ⟨fun deInit => ?_, ?_⟩
  · by_cases own : a.context = .module
    · exact notBefore (own ▸ .inr deInit)
    · exact away (Ne.symm own) (by simp) (.inr deInit)
  · cases a with
    | prov ans =>
      exact ⟨away (by simp [Action.context]) (by simp), away (by simp [Action.context]) (by simp),
        fun i => away (by simp [Action.context]) (by simp)⟩
    | flush i => exact away (by simp [Action.context]) (by simp)
    | pm => exact away (by simp [Action.context]) (by simp)
    | module =>
      refine ⟨away (by simp [Action.context]) (by simp), fun _ c was => ?_⟩
      by_cases own : c = .module
      · subst own
        exact notBefore was
      · exact alone own (modStep_samePc h own) was
    | gc => trivial
    | rq i a => trivial

/-- The steps of a run are kept apart exactly if at most one context is inside in every state on its
way. -/
theorem along_keptApart_iff (env : InitEnv) (ok : (rknandDriverInit env .initial).1 = 0)
    (acts : List Action) :
    Along sysStep KeptApart (Sys.start (registered env)) acts ↔
      ∀ n s, run sysStep (Sys.start (registered env)) (acts.take n) = some s → Exclusive s := by
  constructor
  · intro apart n s reached
    exact (exclusionInv_run ok (apart.take n) reached).exclusive
  · generalize Sys.start (registered env) = start
    intro exclusive
    induction acts generalizing start with
    | nil => trivial
    | cons a acts ih =>
      refine ⟨fun entered => ?_, fun t h => ih t fun n s reached => ?_⟩
      · obtain ⟨t, h, -⟩ := id entered
        exact keptApart_of_exclusive h (exclusive 1 t (by simp [run, h])) entered
      · exact exclusive (n + 1) s (by simp [run_cons_eq_some, h, reached])

/-- The module is unloaded while the flash is being formatted: the write-back of `rknand_dev_exit`
and `FtlReInitForSDUpdata` are in the blob at the same time. -/
theorem exit_meets_provision :
    (rknandDriverInit allWell .initial).1 = 0 ∧
      ∃ s, run sysStep (Sys.start (registered allWell))
          [.module, .prov ⟨0, true⟩, .prov ⟨0, true⟩, .prov ⟨0, true⟩, .module, .module] = some s ∧
        ¬ Exclusive s := by
  refine ⟨by decide, _, rfl, fun exclusive => ?_⟩
  have same := exclusive .provision .module ⟨.reInit, rfl⟩ (.inl rfl)
  cases same

end RkNand.Driver
