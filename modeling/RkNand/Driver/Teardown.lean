import RkNand.Driver.Contexts

/-!
# Unloading the module

`rknand_dev_exit` clears `rk_nand_dev_initialised` before it calls `nand_blk_unregister`, which
looks at that flag and returns at once.  So in every run in which the module is loaded and then
unloaded the provision thread is not stopped and the block major, the bounce buffer and the tag set
stay with the module (`teardown_incomplete`).
-/

namespace RkNand.Driver

open Ledger Transition

/-- The threads are gone, no disk is left, and what the module took for the block device has been
given back exactly once. -/
structure TornDown (s : Sys) : Prop where
  provision : s.prov = .absent ∨ s.prov = .exited
  gc : s.gc = .absent ∨ s.gc = .exited
  devs : s.devs = []
  returned : ∀ r ∈ [.provisionThread, .gcThread, .disk, .procfs] ++ blkResources,
    SettledFor s.log r

/-- From the moment the flag is cleared on, up to the test of it in `nand_blk_unregister`. -/
def ModPc.Exiting : ModPc → Prop
  | .exitTrylock | .inFlush | .exitUnlock | .unregister => True
  | _ => False

/-- Past that test. -/
def ModPc.Unregistering : ModPc → Prop
  | .stopProvision | .joinProvision | .stopGc | .joinGc | .removeDevs | .freeTagSet | .removeProc
  | .freeBuffer | .unregisterBlkdev => True
  | _ => False

structure TeardownInv (s : Sys) : Prop where
  cleared : s.mod.Exiting → s.rkNandDevInitialised = false
  skipped : ¬ s.mod.Unregistering
  running : s.provisionStop = false
  kept : ∀ r ∈ blkResources, .taken r ∈ s.log ∧ .given r ∉ s.log
  gone : s.mod = .unloaded → .given .platformDriver ∈ s.log

theorem TeardownInv.kept_append {s : Sys} (inv : TeardownInv s) {tail : List (Entry Resource)}
    (other : ∀ r ∈ blkResources, Entry.given r ∉ tail) :
    ∀ r ∈ blkResources, .taken r ∈ s.log ++ tail ∧ .given r ∉ s.log ++ tail := by
  intro r hr
  obtain ⟨taken, notGiven⟩ := inv.kept r hr
  exact ⟨List.mem_append_left _ taken, by simp [notGiven, other r hr]⟩

theorem not_given_of_provEntry {tail : List (Entry Resource)} (h : ∀ e ∈ tail, ProvEntry e) :
    ∀ r ∈ blkResources, Entry.given r ∉ tail := by
  intro r hr mem
  have own := h _ mem
  simp only [blkResources, List.mem_cons, List.not_mem_nil, or_false] at hr
  rcases hr with rfl | rfl | rfl | rfl <;> simp [ProvEntry, Entry.resource] at own

/-- No step of the unloading task gets past the test in `nand_blk_unregister`. -/
theorem TeardownInv.module {s t : Sys} (inv : TeardownInv s) (h : modStep s = some t) :
    TeardownInv t := by
  obtain ⟨cleared, skipped, running, kept, -⟩ := id inv
  cases hpc : s.mod with
  | registered =>
    simp only [modStep, hpc, Option.some.injEq] at h
    subst h
    exact ⟨False.elim, id, running, kept, by simp⟩
  | live =>
    simp only [modStep, hpc] at h
    split_ifs at h
    · cases h
      exact ⟨fun _ => rfl, id, running, kept, by simp⟩
    · cases h
      exact ⟨False.elim, id, running, kept, by simp⟩
  | exitTrylock =>
    rw [hpc] at cleared
    simp only [modStep, hpc] at h
    split_ifs at h
    · cases h
      exact ⟨cleared, id, running, kept, by simp⟩
    · cases h
      exact ⟨cleared, id, running, kept, by simp⟩
  | inFlush | exitUnlock =>
    rw [hpc] at cleared
    simp only [modStep, hpc, Option.some.injEq] at h
    subst h
    exact ⟨cleared, id, running, kept, by simp⟩
  | unregister =>
    rw [hpc] at cleared
    simp only [modStep, hpc, cleared trivial, Option.some.injEq] at h
    subst h
    exact ⟨False.elim, id, running, kept, by simp⟩
  | deInit =>
    simp only [modStep, hpc, Option.some.injEq] at h
    subst h
    exact ⟨False.elim, id, running, kept, by simp⟩
  | inDeInit =>
    simp only [modStep, hpc, Option.some.injEq] at h
    subst h
    exact ⟨False.elim, id, running, inv.kept_append (by decide), by simp⟩
  | unregisterDriver =>
    simp only [modStep, hpc, Option.some.injEq] at h
    subst h
    exact ⟨False.elim, id, running, inv.kept_append (by decide), fun _ => by simp [Statics.give]⟩
  | miscDeinit =>
    simp only [modStep, hpc, Option.some.injEq] at h
    subst h
    obtain ⟨tail, log, misc⟩ := rknandMiscDeinit_log s.toStatics
    refine ⟨False.elim, id, running, ?_, by simp⟩
    show ∀ r ∈ blkResources, .taken r ∈ (rknandMiscDeinit s.toStatics).log ∧
      .given r ∉ (rknandMiscDeinit s.toStatics).log
    rw [log]
    apply inv.kept_append
    intro r hr mem
    rcases misc _ mem with e | e <;> cases e <;> exact absurd hr (by decide)
  | unloaded =>
    simp only [modStep, hpc] at h
    cases h
  | _ => exact absurd (hpc ▸ trivial) skipped

theorem TeardownInv.step {s t : Sys} {a : Action} (inv : TeardownInv s)
    (h : sysStep s a = some t) : TeardownInv t := by
  by_cases module : a = .module
  · subst module
    exact inv.module h
  · obtain ⟨mod, flag, stop, tail, log, own⟩ := sysStep_frame_module h module
    refine ⟨?_, ?_, stop.trans inv.running, ?_, ?_⟩
    · rw [mod, flag]
      exact inv.cleared
    · rw [mod]
      exact inv.skipped
    · rw [log]
      exact inv.kept_append (not_given_of_provEntry own)
    · rw [mod, log]
      exact fun unloaded => List.mem_append_left _ (inv.gone unloaded)

theorem teardownInv_start {env : InitEnv} (ok : (rknandDriverInit env .initial).1 = 0) :
    TeardownInv (Sys.start (registered env)) :=
  ⟨False.elim, id, rfl, (registered_log (rknandDriverInit_ok ok).2).2.2, nofun⟩

/-- Whatever the threads have done and the calls have answered, once the module has been unloaded
and its platform driver is gone it is not torn down: the provision thread was never asked to stop,
and the block major, the bounce buffer and the tag set were taken and not given back. -/
theorem teardown_incomplete (env : InitEnv) (ok : (rknandDriverInit env .initial).1 = 0)
    (acts : List Action) (s : Sys)
    (reached : run sysStep (Sys.start (registered env)) acts = some s)
    (unloaded : s.mod = .unloaded) :
    ¬ TornDown s ∧ .given .platformDriver ∈ s.log ∧ s.provisionStop = false ∧
      ∀ r ∈ blkResources, .taken r ∈ s.log ∧ .given r ∉ s.log := by
  have inv := run_invariant (fun _ _ _ inv h => TeardownInv.step inv h) reached
    (teardownInv_start ok)
  refine ⟨fun tornDown => ?_, inv.gone unloaded, inv.running, inv.kept⟩
  obtain ⟨taken, notGiven⟩ := inv.kept .major (by decide)
  exact notGiven ((tornDown.returned .major (by decide)).given_mem taken)

theorem teardown_incomplete_allWell :
    ∃ s, run sysStep (Sys.start (registered allWell)) (List.replicate 10 .module) = some s ∧
      s.mod = .unloaded ∧ ¬ TornDown s := by
  refine ⟨_, rfl, rfl, ?_⟩
  exact (teardown_incomplete allWell (by decide) (List.replicate 10 .module) _ rfl rfl).1

/-- A module that is unloaded right after it was loaded leaves the provision thread running. -/
theorem unload_leaves_provision :
    (rknandDriverInit allWell .initial).1 = 0 ∧
      ∃ s, run sysStep (Sys.start (registered allWell)) (List.replicate 10 .module) = some s ∧
        s.mod = .unloaded ∧ s.prov = .capacity ∧ .given .major ∉ s.log ∧ ¬ TornDown s := by
  refine ⟨by decide, _, rfl, rfl, rfl, by decide, fun tornDown => ?_⟩
  rcases tornDown.provision with h | h <;> cases h

end RkNand.Driver
