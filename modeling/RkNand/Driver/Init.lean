import RkNand.Errno
import RkNand.Lib.Ledger

/-!
# Loading the module

`rknand_driver_init` registers the platform driver, finds the register base, starts the FTL, and
lets `nand_blk_register` take the block major, the bounce buffer and the tag set and start the
provision thread.  Each failing step unwinds what its own function took.  Nothing gives the FTL back
when `nand_blk_register` fails, so that the unwinding is complete only for the failures before it
(`failed_init_clean_iff`).
-/

namespace RkNand.Driver

open Ledger

inductive Resource where
  | platformDriver
  | ftl
  | major
  | tempBuffer
  | tagSet
  | tags
  | provisionThread
  | gcThread
  | disk
  | procfs
  | sysStorage
  | vendorStorage
  deriving DecidableEq

/-- The static variables of the module, pointers by whether they are set, and the ledger of what it
has taken and given back. -/
structure Statics where
  major : ℤ
  tagSet : Bool
  mtdReadTempBuffer : Bool
  rkNandDevInitialised : Bool
  scheduleMode : Bool
  quit : Bool
  nandThQuited : Bool
  provisionTask : Bool
  provisionDone : Bool
  gcStarted : Bool
  procfsCreated : Bool
  sysStorageRegistered : Bool
  vendorStorageRegistered : Bool
  devs : List ℕ
  lastDevIndex : ℕ
  log : List (Entry Resource)
  deriving DecidableEq

namespace Statics

/-- The module as it is loaded. -/
def initial : Statics where
  major := 0
  tagSet := false
  mtdReadTempBuffer := false
  rkNandDevInitialised := false
  scheduleMode := false
  quit := false
  nandThQuited := false
  provisionTask := false
  provisionDone := false
  gcStarted := false
  procfsCreated := false
  sysStorageRegistered := false
  vendorStorageRegistered := false
  devs := []
  lastDevIndex := 0
  log := []

def take (d : Statics) (r : Resource) : Statics := { d with log := d.log ++ [.taken r] }

def give (d : Statics) (r : Resource) : Statics := { d with log := d.log ++ [.given r] }

end Statics

/-- What the kernel and the FTL answer while the module is loaded. -/
structure InitEnv where
  platformDriverRegister : ℤ
  nandc0 : Bool
  rkFtlInit : ℤ
  registerBlkdev : ℤ
  allocBuffer : Bool
  allocTagSet : Bool
  blkMqAllocTagSet : ℤ
  provisionRun : Bool

/-! ## The code -/

/-- The labels at the end of `nand_blk_register`. -/
def mtdBufferError (d : Statics) : Statics := d.give .major

@[inherit_doc mtdBufferError]
def tagSetError (d : Statics) : Statics :=
  mtdBufferError { d.give .tempBuffer with mtdReadTempBuffer := false }

@[inherit_doc mtdBufferError]
def rqInitError (d : Statics) : Statics := tagSetError (d.give .tagSet)

/-- `nand_blk_register`. -/
def nandBlkRegister (env : InitEnv) (d : Statics) : ℤ × Statics :=
  let d := { d with scheduleMode := true, quit := false, nandThQuited := false }
  let ret := env.registerBlkdev
  if ret < 0 then (ret, d)
  else
    let d := { d.take .major with major := if d.major = 0 then ret else d.major }
    if ¬ env.allocBuffer then (-enomem, mtdBufferError { d with mtdReadTempBuffer := false })
    else
      let d := { d.take .tempBuffer with mtdReadTempBuffer := true }
      if ¬ env.allocTagSet then (-enomem, tagSetError { d with tagSet := false })
      else
        let d := { d.take .tagSet with tagSet := true }
        let ret := env.blkMqAllocTagSet
        if ret ≠ 0 then (ret, rqInitError d)
        else
          let d := { d.take .tags with devs := [], lastDevIndex := 0, provisionDone := false }
          if env.provisionRun then (0, { d.take .provisionThread with provisionTask := true })
          else (0, { d with provisionTask := false })

/-- `rknand_dev_init`. -/
def rknandDevInit (env : InitEnv) (d : Statics) : ℤ × Statics :=
  if ¬ env.nandc0 then (-1, d)
  else if env.rkFtlInit ≠ 0 then (-1, d)
  else
    let d := d.take .ftl
    let (ret, d) := nandBlkRegister env d
    if ret ≠ 0 then (-1, d)
    else (ret, { d with rkNandDevInitialised := true })

/-- `rknand_misc_deinit`. -/
def rknandMiscDeinit (d : Statics) : Statics :=
  let d :=
    if d.sysStorageRegistered then { d.give .sysStorage with sysStorageRegistered := false } else d
  if d.vendorStorageRegistered then
    { d.give .vendorStorage with vendorStorageRegistered := false }
  else d

/-- `rknand_driver_init`. -/
def rknandDriverInit (env : InitEnv) (d : Statics) : ℤ × Statics :=
  if env.platformDriverRegister ≠ 0 then (env.platformDriverRegister, d)
  else
    let d := d.take .platformDriver
    let (ret, d) := rknandDevInit env d
    if ret ≠ 0 then (ret, (rknandMiscDeinit d).give .platformDriver)
    else (ret, d)

/-! ## Success -/

/-- The statics when `nand_blk_register` returns to `rknand_dev_init`. -/
def registered (env : InitEnv) : Statics :=
  (nandBlkRegister env ((Statics.initial.take .platformDriver).take .ftl)).2

/-- What `nand_blk_register` has taken once it returns 0. -/
def blkResources : List Resource := [.major, .tempBuffer, .tagSet, .tags]

theorem rknandDriverInit_ok {env : InitEnv} (ok : (rknandDriverInit env .initial).1 = 0) :
    rknandDriverInit env .initial = (0, { registered env with rkNandDevInitialised := true }) ∧
      (nandBlkRegister env ((Statics.initial.take .platformDriver).take .ftl)).1 = 0 := by
  unfold rknandDriverInit rknandDevInit registered at *
  by_cases register : env.platformDriverRegister = 0
  · simp only [register, ne_eq, not_true_eq_false, if_false] at ok ⊢
    split_ifs at ok ⊢ <;> simp_all
  · simp [register] at ok

theorem nandBlkRegister_ok {env : InitEnv} {d : Statics} (ok : (nandBlkRegister env d).1 = 0) :
    ¬ env.registerBlkdev < 0 ∧ env.allocBuffer = true ∧ env.allocTagSet = true ∧
      env.blkMqAllocTagSet = 0 := by
  unfold nandBlkRegister at ok
  by_cases major : env.registerBlkdev < 0
  · rw [if_pos major] at ok
    exact absurd ok (ne_of_lt major)
  by_cases buffer : env.allocBuffer
  · by_cases tagSet : env.allocTagSet
    · by_cases tags : env.blkMqAllocTagSet = 0
      · exact ⟨major, buffer, tagSet, tags⟩
      · simp [major, buffer, tagSet, tags] at ok
    · simp [major, buffer, tagSet, enomem] at ok
  · simp [major, buffer, enomem] at ok

/-- After a registration that succeeds the resources are in the ledger and not given back. -/
theorem registered_log {env : InitEnv}
    (ok : (nandBlkRegister env ((Statics.initial.take .platformDriver).take .ftl)).1 = 0) :
    (registered env).rkNandDevInitialised = false ∧ (registered env).devs = [] ∧
      ∀ r ∈ blkResources, .taken r ∈ (registered env).log ∧ .given r ∉ (registered env).log := by
  obtain ⟨major, buffer, tagSet, tags⟩ := nandBlkRegister_ok ok
  unfold registered nandBlkRegister
  simp only [major, buffer, tagSet, tags, not_true_eq_false, if_false, ne_eq]
  by_cases run : env.provisionRun
  · rw [if_pos run]
    exact ⟨rfl, rfl, by simp [blkResources, Statics.take, Statics.initial]⟩
  · rw [if_neg run]
    exact ⟨rfl, rfl, by simp [blkResources, Statics.take, Statics.initial]⟩

/-- Every step of the load succeeds. -/
def allWell : InitEnv := ⟨0, true, 0, 254, true, true, 0, true⟩

/-! ## Failures -/

/-- Everything was given back once, and the statics that later code looks at are as they were. -/
structure Clean (d : Statics) : Prop where
  settled : Settled d.log
  tagSet : d.tagSet = Statics.initial.tagSet
  mtdReadTempBuffer : d.mtdReadTempBuffer = Statics.initial.mtdReadTempBuffer
  rkNandDevInitialised : d.rkNandDevInitialised = Statics.initial.rkNandDevInitialised

/-- The module fails to load before the FTL has been started. -/
def FailsEarly (env : InitEnv) : Prop :=
  env.platformDriverRegister ≠ 0 ∨ env.nandc0 = false ∨ env.rkFtlInit ≠ 0

theorem clean_initial : Clean Statics.initial := ⟨fun _ => .inl rfl, rfl, rfl, rfl⟩

theorem clean_driver_returned :
    Clean ((Statics.initial.take .platformDriver).give .platformDriver) where
  settled := by
    intro r
    cases r <;> decide
  tagSet := rfl
  mtdReadTempBuffer := rfl
  rkNandDevInitialised := rfl

theorem rknandDevInit_of_early {env : InitEnv} (early : env.nandc0 = false ∨ env.rkFtlInit ≠ 0)
    (d : Statics) : rknandDevInit env d = (-1, d) := by
  unfold rknandDevInit
  by_cases base : env.nandc0
  · rcases early with none | ftl
    · simp [base] at none
    · simp [base, ftl]
  · simp [base]

/-- `nand_blk_register` adds to the ledger, but never that the FTL was given back. -/
theorem nandBlkRegister_log (env : InitEnv) (d : Statics) :
    ∃ tail, (nandBlkRegister env d).2.log = d.log ++ tail ∧ Entry.given .ftl ∉ tail := by
  unfold nandBlkRegister
  dsimp only
  split_ifs
  all_goals
    simp only [mtdBufferError, tagSetError, rqInitError, Statics.give, Statics.take,
      List.append_assoc]
  · exact ⟨[], by simp, by simp⟩
  all_goals exact ⟨_, rfl, by decide⟩

theorem rknandMiscDeinit_log (d : Statics) :
    ∃ tail, (rknandMiscDeinit d).log = d.log ++ tail ∧
      ∀ e ∈ tail, e = .given .sysStorage ∨ e = .given .vendorStorage := by
  unfold rknandMiscDeinit
  dsimp only
  split_ifs
  · exact ⟨[.given .sysStorage, .given .vendorStorage], by simp [Statics.give], by simp⟩
  · exact ⟨[.given .sysStorage], rfl, by simp⟩
  · exact ⟨[.given .vendorStorage], rfl, by simp⟩
  · exact ⟨[], by simp, by simp⟩

/-- Beside the ledger, only the flags of the misc devices change. -/
theorem rknandMiscDeinit_shape (d : Statics) :
    ∃ sys vendor log, rknandMiscDeinit d =
      { d with sysStorageRegistered := sys, vendorStorageRegistered := vendor, log := log } := by
  unfold rknandMiscDeinit
  dsimp only
  split_ifs <;> exact ⟨_, _, _, rfl⟩

/-- Once the FTL has been started, a failing load keeps it. -/
theorem ftl_kept_of_late_failure {env : InitEnv} (late : ¬ FailsEarly env)
    (failed : (rknandDriverInit env .initial).1 ≠ 0) :
    Entry.taken .ftl ∈ (rknandDriverInit env .initial).2.log ∧
      Entry.given .ftl ∉ (rknandDriverInit env .initial).2.log := by
  simp only [FailsEarly, not_or, not_not, Bool.not_eq_false] at late
  obtain ⟨register, base, ftl⟩ := late
  obtain ⟨tail, log, notGiven⟩ :=
    nandBlkRegister_log env ((Statics.initial.take .platformDriver).take .ftl)
  simp only [rknandDriverInit, rknandDevInit, register, base, ftl, ne_eq, not_true_eq_false,
    if_false] at failed ⊢
  set blk := nandBlkRegister env ((Statics.initial.take .platformDriver).take .ftl)
  by_cases ok : blk.1 = 0
  · simp [ok] at failed
  obtain ⟨tail', log', misc⟩ := rknandMiscDeinit_log blk.2
  have notGiven' : Entry.given .ftl ∉ tail' := fun h => by simpa using misc _ h
  simp only [ok, not_false_eq_true, if_true]
  rw [if_pos (by decide)]
  simp only [Statics.give, log', log]
  constructor
  · simp [Statics.take]
  · simp [Statics.take, Statics.initial, notGiven, notGiven']

/-- A load that fails leaves nothing behind exactly if it fails before the FTL has been started. -/
theorem failed_init_clean_iff (env : InitEnv) (failed : (rknandDriverInit env .initial).1 ≠ 0) :
    Clean (rknandDriverInit env .initial).2 ↔ FailsEarly env := by
  constructor
  · intro clean
    by_contra late
    obtain ⟨taken, notGiven⟩ := ftl_kept_of_late_failure late failed
    exact notGiven ((clean.settled .ftl).given_mem taken)
  · intro early
    unfold rknandDriverInit
    by_cases register : env.platformDriverRegister ≠ 0
    · rw [if_pos register]
      exact clean_initial
    · rw [if_neg register]
      simp only [rknandDevInit_of_early (early.resolve_left register)]
      exact clean_driver_returned

theorem failed_init_clean_noFtl :
    (rknandDriverInit ⟨0, true, -1, 254, true, true, 0, true⟩ .initial).1 ≠ 0 ∧
      Clean (rknandDriverInit ⟨0, true, -1, 254, true, true, 0, true⟩ .initial).2 := by
  have failed : (rknandDriverInit ⟨0, true, -1, 254, true, true, 0, true⟩ .initial).1 ≠ 0 := by
    decide
  exact ⟨failed, (failed_init_clean_iff _ failed).2 (.inr (.inr (by decide)))⟩

/-- No memory for the tags: the module fails to load, the FTL is still running, and the pointer to
the freed tag set stays behind. -/
theorem failed_init_keeps_ftl :
    (rknandDriverInit ⟨0, true, 0, 254, true, true, -12, true⟩ .initial).1 = -1 ∧
      Entry.given .ftl ∉
        (rknandDriverInit ⟨0, true, 0, 254, true, true, -12, true⟩ .initial).2.log ∧
      (rknandDriverInit ⟨0, true, 0, 254, true, true, -12, true⟩ .initial).2.tagSet = true ∧
      ¬ Clean (rknandDriverInit ⟨0, true, 0, 254, true, true, -12, true⟩ .initial).2 := by
  refine ⟨by decide, by decide, by decide, fun clean => ?_⟩
  exact absurd clean.tagSet (by decide)

end RkNand.Driver
