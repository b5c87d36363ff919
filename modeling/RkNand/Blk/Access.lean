import RkNand.Blk.Request
import RkNand.Errno
import RkNand.Lib.Transition

/-!
# The access flags

The flags of a device are set from the type of its partition and changed by `rknand_ioctl`, which
takes no lock, while a request is on its way through `do_blktrans_all_request` under the device
mutex.  The request is cut at the points where it looks at the device: the capacity check, the
dispatch on its kind, the access check of `nand_dev_transfer`, and the entry of the FTL; an ioctl is
cut at each of its stores.

READ and WRITE are checked, DISCARD is not.  A run respects the flags if its discards meet a
writable device and no flag is set under a request that has passed its check
(`respects_of_orderly`).
-/

namespace RkNand.Blk

open Transition

/-! ## Partitions -/

structure NandPart where
  offset : UInt32
  size : UInt32
  type : UInt8

def partReadonly : UInt8 := 0x85
def partWriteonly : UInt8 := 0x86
def partNoAccess : UInt8 := 0x87

/-- `nand_add_dev`, as far as the requests depend on it: no device for an empty partition, else one
with the flags of the type. -/
def nandAddDev (part : NandPart) : Option NandBlkDev :=
  if part.size = 0 then none
  else some
    { size := part.size
      offSize := part.offset
      readonly := part.type = partReadonly
      writeonly := part.type = partWriteonly
      disableAccess := part.type = partNoAccess }

/-! ## Ioctls -/

inductive Flag where
  | readonly
  | writeonly
  | disableAccess
  deriving DecidableEq

/-- A store to a flag of the device. -/
abbrev Store := Flag × Bool

def NandBlkDev.store (dev : NandBlkDev) : Store → NandBlkDev
  | (.readonly, v) => { dev with readonly := v }
  | (.writeonly, v) => { dev with writeonly := v }
  | (.disableAccess, v) => { dev with disableAccess := v }

/-- `rknand_ioctl`: the return code, and the stores in their order. -/
def rknandIoctl (cmd : UInt32) : ℤ × List Store :=
  if cmd = 0x5601 then (0, [(.disableAccess, false), (.readonly, false)])
  else if cmd = 0x5600 then (0, [(.readonly, true)])
  else if cmd = 0x5603 then (0, [(.disableAccess, false), (.writeonly, false)])
  else if cmd = 0x5602 then (0, [(.writeonly, true)])
  else (-enotty, [])

/-! ## The system -/

/-- Where a request stands in `do_blktrans_all_request`: before the capacity check, at the switch,
at the access check, about to enter the FTL, inside it. -/
inductive Stage where
  | arrived
  | dispatch
  | check
  | entry
  | inside
  deriving DecidableEq

/-- A device, the stores that ioctls in progress have still to make, and the request under the
device mutex. -/
structure AccessState where
  dev : NandBlkDev
  ioctls : List (List Store)
  exec : Option (Stage × Request)

inductive AccessAction where
  | start (req : Request)
  | advance
  | ioctl (cmd : UInt32)
  | store (i : ℕ)

/-- The next stage of a request, if it is not over. -/
def nextStage (dev : NandBlkDev) (req : Request) : Stage → Option Stage
  | .arrived => if req.pos + req.curBytes / 512 > dev.size.toNat then none else some .dispatch
  | .dispatch =>
      match req.op with
      | .discard => some .entry
      | .read | .write => some .check
      | .other => none
  | .check => if dev.refuses req.op then none else some .entry
  | .entry => some .inside
  | .inside => none

def accessStep (s : AccessState) : AccessAction → Option AccessState
  | .start req =>
      match s.exec with
      | none => some { s with exec := some (.arrived, req) }
      | some _ => none
  | .advance =>
      match s.exec with
      | none => none
      | some (stage, req) =>
          some { s with exec := (nextStage s.dev req stage).map fun next => (next, req) }
  | .ioctl cmd => some { s with ioctls := s.ioctls ++ [(rknandIoctl cmd).2] }
  | .store i =>
      match s.ioctls[i]? with
      | some (w :: rest) => some { s with dev := s.dev.store w, ioctls := s.ioctls.set i rest }
      | _ => none

/-- The device lets a request of this kind through. -/
def NandBlkDev.Permits (dev : NandBlkDev) : ReqOp → Prop
  | .read => dev.writeonly = false ∧ dev.disableAccess = false
  | .write | .discard => dev.readonly = false ∧ dev.disableAccess = false
  | .other => True

/-- A request that enters the FTL is one the device permits at that moment. -/
def Respects (s : AccessState) : Prop :=
  ∀ req, s.exec = some (.entry, req) → s.dev.Permits req.op

/-- A store that takes the permission for requests of a kind away. -/
def Revokes : Store → ReqOp → Prop
  | (.readonly, true), op => op = .write ∨ op = .discard
  | (.writeonly, true), op => op = .read
  | _, _ => False

/-- A discard is dispatched on a writable device only, and no flag is set between the check of a
request it concerns, or the dispatch of a discard, and the entry of the FTL. -/
def Orderly (s : AccessState) : AccessAction → Prop
  | .advance => ∀ req, s.exec = some (.dispatch, req) → req.op = .discard →
      s.dev.readonly = false ∧ s.dev.disableAccess = false
  | .store i => ∀ req w rest, s.exec = some (.entry, req) → s.ioctls[i]? = some (w :: rest) →
      ¬ Revokes w req.op
  | _ => True

/-! ## Flags and requests -/

theorem permits_of_not_refuses {dev : NandBlkDev} {op : ReqOp} (transfer : op = .read ∨ op = .write)
    (accepted : ¬ dev.refuses op = true) : dev.Permits op := by
  unfold NandBlkDev.refuses at accepted
  rcases transfer with rfl | rfl
  all_goals
    simp only [NandBlkDev.Permits]
    simp at accepted
    tauto

theorem NandBlkDev.Permits.store {dev : NandBlkDev} {op : ReqOp} {w : Store}
    (permits : dev.Permits op) (kept : ¬ Revokes w op) (ne : w ≠ (.disableAccess, true)) :
    (dev.store w).Permits op := by
  obtain ⟨flag, v⟩ := w
  cases flag <;> cases v <;> cases op <;>
    simp_all [NandBlkDev.store, NandBlkDev.Permits, Revokes]

/-- Access is never disabled again once the device exists. -/
theorem rknandIoctl_ne_disable {cmd : UInt32} {w : Store} (hw : w ∈ (rknandIoctl cmd).2) :
    w ≠ (.disableAccess, true) := by
  unfold rknandIoctl at hw
  rintro rfl
  split_ifs at hw <;> simp at hw

/-! ## A request by itself -/

section alone

variable {dev : NandBlkDev} {req : Request} {temp : ℕ} {mem : Memory} {ans : FtlAnswer}

/-- The checks let the request through to the FTL. -/
def PassesChecks (dev : NandBlkDev) (req : Request) : Prop :=
  req.pos + req.curBytes / 512 ≤ dev.size.toNat ∧
    (req.op = .discard ∨ (req.op = .read ∨ req.op = .write) ∧ ¬ dev.refuses req.op = true)

theorem nandDevTransfer_calls_ne_nil_iff {start nsector : UInt32} {buf : ℕ} {cmd : ReqOp}
    (transfer : cmd = .read ∨ cmd = .write) :
    (nandDevTransfer dev start nsector buf cmd mem ans).calls ≠ [] ↔ ¬ dev.refuses cmd = true := by
  unfold nandDevTransfer
  by_cases refused : dev.refuses cmd
  · rw [if_pos refused]
    simp [refused]
  · rw [if_neg refused]
    rcases transfer with rfl | rfl <;> simp [refused]

theorem calls_ne_nil_iff_passesChecks :
    (doBlktransAllRequest dev req temp mem ans).calls ≠ [] ↔ PassesChecks dev req := by
  unfold doBlktransAllRequest PassesChecks
  by_cases range : req.pos + req.curBytes / 512 > dev.size.toNat
  · rw [if_pos range]
    simp [not_le.2 range]
  rw [if_neg range]
  simp only [not_lt.1 range, true_and]
  cases hop : req.op with
  | discard => simp
  | read =>
    simp only [reduceCtorEq, false_or, or_false, true_and]
    rw [← nandDevTransfer_calls_ne_nil_iff (.inl rfl)]
    split_ifs <;> exact Iff.rfl
  | write =>
    simp only [reduceCtorEq, false_or, true_and]
    exact nandDevTransfer_calls_ne_nil_iff (.inr rfl)
  | other => simp

/-- What the stage of a request says about the checks it has passed. -/
def StagePassed (dev : NandBlkDev) (req : Request) : Stage → Prop
  | .arrived => True
  | .dispatch => req.pos + req.curBytes / 512 ≤ dev.size.toNat
  | .check => req.pos + req.curBytes / 512 ≤ dev.size.toNat ∧ (req.op = .read ∨ req.op = .write)
  | .entry | .inside => PassesChecks dev req

theorem StagePassed.next {stage next : Stage} (passed : StagePassed dev req stage)
    (h : nextStage dev req stage = some next) : StagePassed dev req next := by
  cases stage with
  | arrived =>
    simp only [nextStage] at h
    split_ifs at h with range
    cases h
    exact not_lt.1 range
  | dispatch =>
    cases hop : req.op with
    | discard =>
      simp only [nextStage, hop, Option.some.injEq] at h
      subst h
      exact ⟨passed, .inl hop⟩
    | read =>
      simp only [nextStage, hop, Option.some.injEq] at h
      subst h
      exact ⟨passed, .inl hop⟩
    | write =>
      simp only [nextStage, hop, Option.some.injEq] at h
      subst h
      exact ⟨passed, .inr hop⟩
    | other => simp [nextStage, hop] at h
  | check =>
    simp only [nextStage] at h
    split_ifs at h with refused
    cases h
    exact ⟨passed.1, .inr ⟨passed.2, refused⟩⟩
  | entry =>
    cases h
    exact passed
  | inside => cases h

theorem StagePassed.run {stage last : Stage} (passed : StagePassed dev req stage) (n : ℕ)
    (reached : run accessStep ⟨dev, [], some (stage, req)⟩ (List.replicate n .advance) =
      some ⟨dev, [], some (last, req)⟩) : StagePassed dev req last := by
  induction n generalizing stage with
  | zero =>
    cases reached
    exact passed
  | succ n ih =>
    obtain ⟨t, ht, rest⟩ := run_cons_eq_some.1 reached
    cases ht
    cases hnext : nextStage dev req stage with
    | some next =>
      simp only [hnext, Option.map_some] at rest
      exact ih (passed.next hnext) rest
    | none =>
      rw [hnext] at rest
      cases n with
      | zero => cases rest
      | succ n => cases rest

/-- The stages of a request that no ioctl meets are those of the function: it comes to the entry of
the FTL exactly if the function calls it. -/
theorem reaches_entry_iff_calls (dev : NandBlkDev) (req : Request) (temp : ℕ) (mem : Memory)
    (ans : FtlAnswer) :
    (∃ n, run accessStep ⟨dev, [], some (.arrived, req)⟩ (List.replicate n .advance) =
        some ⟨dev, [], some (.entry, req)⟩) ↔
      (doBlktransAllRequest dev req temp mem ans).calls ≠ [] := by
  rw [calls_ne_nil_iff_passesChecks]
  constructor
  · rintro ⟨n, reached⟩
    have passed : StagePassed dev req .arrived := trivial
    exact passed.run n reached
  · rintro ⟨range, passes⟩
    have fits : ¬ dev.size.toNat < req.pos + req.curBytes / 512 := not_lt.2 range
    rcases passes with discard | ⟨transfer, accepted⟩
    · exact ⟨2, by simp [Transition.run, accessStep, nextStage, fits, discard]⟩
    · refine ⟨3, ?_⟩
      rcases transfer with hop | hop <;>
        · rw [hop] at accepted
          simp [Transition.run, accessStep, nextStage, fits, hop, accepted]

end alone

/-! ## Runs -/

structure AccessInv (s : AccessState) : Prop where
  respects : Respects s
  transfer : ∀ req, s.exec = some (.check, req) → req.op = .read ∨ req.op = .write
  pending : ∀ l ∈ s.ioctls, ∀ w ∈ l, w ≠ (.disableAccess, true)

theorem accessInv_idle {s : AccessState} (idle : s.exec = none) (quiet : s.ioctls = []) :
    AccessInv s where
  respects := by simp [Respects, idle]
  transfer := by simp [idle]
  pending := by simp [quiet]

/-- The stage a request moves on to is one the invariant allows. -/
theorem AccessInv.advance {s : AccessState} {stage : Stage} {req : Request} (inv : AccessInv s)
    (at_stage : s.exec = some (stage, req)) (orderly : Orderly s .advance) :
    AccessInv { s with exec := (nextStage s.dev req stage).map fun next => (next, req) } where
  respects := by
    intro req' h
    obtain ⟨next, hnext, same⟩ := Option.map_eq_some_iff.1 h
    obtain ⟨rfl, rfl⟩ := Prod.mk.inj same
    cases stage with
    | dispatch =>
      cases hop : req.op with
      | discard => exact orderly req at_stage hop
      | _ => simp [nextStage, hop] at hnext
    | check =>
      by_cases refused : s.dev.refuses req.op
      · simp [nextStage, refused] at hnext
      · exact permits_of_not_refuses (inv.transfer req at_stage) refused
    | _ => simp [nextStage] at hnext
  transfer := by
    intro req' h
    obtain ⟨next, hnext, same⟩ := Option.map_eq_some_iff.1 h
    obtain ⟨rfl, rfl⟩ := Prod.mk.inj same
    cases stage with
    | dispatch =>
      cases hop : req.op with
      | read => exact .inl rfl
      | write => exact .inr rfl
      | _ => simp [nextStage, hop] at hnext
    | _ => simp [nextStage] at hnext
  pending := inv.pending

theorem AccessInv.store {s : AccessState} {i : ℕ} {w : Store} {rest : List Store}
    (inv : AccessInv s) (at_store : s.ioctls[i]? = some (w :: rest))
    (orderly : Orderly s (.store i)) :
    AccessInv { s with dev := s.dev.store w, ioctls := s.ioctls.set i rest } where
  respects := by
    intro req h
    have ne := inv.pending _ (List.mem_of_getElem? at_store) w (by simp)
    exact (inv.respects req h).store (orderly req w rest h at_store) ne
  transfer := inv.transfer
  pending := by
    intro l hl w' hw'
    rcases List.mem_or_eq_of_mem_set hl with old | rfl
    · exact inv.pending l old w' hw'
    · exact inv.pending _ (List.mem_of_getElem? at_store) w' (List.mem_cons_of_mem _ hw')

theorem AccessInv.step {s t : AccessState} {a : AccessAction} (inv : AccessInv s)
    (orderly : Orderly s a) (h : accessStep s a = some t) : AccessInv t := by
  cases a with
  | start req =>
    unfold accessStep at h
    cases hexec : s.exec with
    | none =>
      simp only [hexec, Option.some.injEq] at h
      subst h
      exact ⟨by simp [Respects], by simp, inv.pending⟩
    | some _ => simp [hexec] at h
  | advance =>
    unfold accessStep at h
    cases hexec : s.exec with
    | none => simp [hexec] at h
    | some at_stage =>
      simp only [hexec, Option.some.injEq] at h
      subst h
      exact inv.advance hexec orderly
  | ioctl cmd =>
    simp only [accessStep, Option.some.injEq] at h
    subst h
    refine ⟨inv.respects, inv.transfer, fun l hl w hw => ?_⟩
    rcases List.mem_append.1 hl with old | new
    · exact inv.pending l old w hw
    · rw [List.mem_singleton.1 new] at hw
      exact rknandIoctl_ne_disable hw
  | store i =>
    simp only [accessStep] at h
    split at h
    · next w rest at_store =>
      simp only [Option.some.injEq] at h
      subst h
      exact inv.store at_store orderly
    · cases h

/-- A device that `nand_add_dev` has just created for a partition. -/
def AccessInit (part : NandPart) (s : AccessState) : Prop :=
  ∃ dev, nandAddDev part = some dev ∧ s = ⟨dev, [], none⟩

/-- On every partition, in every run whose steps are orderly, the requests that enter the FTL are
permitted by the flags of the device at that moment. -/
theorem respects_of_orderly (part : NandPart) (s₀ s : AccessState) (init : AccessInit part s₀)
    (acts : List AccessAction) (orderly : Along accessStep Orderly s₀ acts)
    (reached : run accessStep s₀ acts = some s) : Respects s := by
  obtain ⟨dev, -, rfl⟩ := init
  have start : AccessInv ⟨dev, [], none⟩ := accessInv_idle rfl rfl
  exact (run_invariant_along (fun _ _ _ ok inv => inv.step ok) orderly reached start).respects

/-- A read-only partition of `2 ^ 20` sectors, and its device. -/
def readonlyPart : NandPart := ⟨0, 0x100000, partReadonly⟩

@[inherit_doc readonlyPart]
def readonlyDev : NandBlkDev := ⟨0x100000, 0, true, false, false⟩

theorem accessInit_readonlyPart : AccessInit readonlyPart ⟨readonlyDev, [], none⟩ :=
  ⟨readonlyDev, rfl, rfl⟩

/-- Writing is enabled before the discard comes. -/
theorem respects_of_orderly_enabled :
    ∃ s, run accessStep ⟨readonlyDev, [], none⟩
        [.ioctl 0x5601, .store 0, .store 0, .start mergedDiscard, .advance, .advance] = some s ∧
      s.exec = some (.entry, mergedDiscard) ∧ Respects s := by
  refine ⟨⟨{ readonlyDev with readonly := false }, [[]], some (.entry, mergedDiscard)⟩, rfl, rfl,
    ?_⟩
  refine respects_of_orderly readonlyPart _ _ accessInit_readonlyPart
    [.ioctl 0x5601, .store 0, .store 0, .start mergedDiscard, .advance, .advance] ?_ rfl
  apply Along.cons trivial rfl
  apply Along.cons (fun _ _ _ h => nomatch h) rfl
  apply Along.cons (fun _ _ _ h => nomatch h) rfl
  apply Along.cons trivial rfl
  apply Along.cons (fun _ h => nomatch h) rfl
  apply Along.cons (fun _ _ _ => ⟨rfl, rfl⟩) rfl
  trivial

/-- A discard of a read-only partition enters the FTL. -/
theorem discard_enters_readonly :
    AccessInit readonlyPart ⟨readonlyDev, [], none⟩ ∧
      ∃ s, run accessStep ⟨readonlyDev, [], none⟩ [.start mergedDiscard, .advance, .advance] =
          some s ∧ ¬ Respects s := by
  refine ⟨accessInit_readonlyPart, ⟨readonlyDev, [], some (.entry, mergedDiscard)⟩, rfl,
    fun h => ?_⟩
  exact absurd (h mergedDiscard rfl).1 (by decide)

end RkNand.Blk
