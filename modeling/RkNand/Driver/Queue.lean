import RkNand.Driver.Exclusion
import RkNand.Lib.Lifecycle

/-!
# The request queue

`rk_nand_queue_rq` appends its request to `rq_list` and drains the list.  The queue lock is dropped
while a request is served, so one caller may run the requests of others while new ones are appended.
The log of a run says what became of each request; every request goes once through the phases of
`life`, in the order in which the requests were appended, and nothing is left behind when the
callers have returned (`requests_served_once`).
-/

namespace RkNand.Driver

open Blk Transition Lifecycle

/-! ## What becomes of a request -/

/-- `executed` says whether the caller that ran `do_blktrans_all_request` held the device mutex. -/
inductive Phase where
  | queued
  | appended
  | removed
  | started
  | executed (locked : Bool)
  | ended
  deriving DecidableEq

/-- From the call of `rk_nand_queue_rq` to `__blk_mq_end_request`. -/
def life : List Phase := [.queued, .appended, .removed, .started, .executed true, .ended]

/-- What a step does to requests, by their tags. -/
def served (s : Sys) : Action → List (ℕ × Phase)
  | .rq _ (.queue r) => goThrough r.tag [.queued]
  | .rq i (.go _) =>
      match s.rq i with
      | .append r => goThrough r.tag [.appended]
      | .next =>
          match s.rqList with
          | [] => []
          | r :: _ => goThrough r.tag [.removed, .started]
      | .exec r => goThrough r.tag [.executed (s.deviceLock = some (.rq i))]
      | .complete r => goThrough r.tag [.ended]
      | _ => []
  | _ => []

def noteServed (s : Sys) (a : Action) (log : List (ℕ × Phase)) : List (ℕ × Phase) :=
  log ++ served s a

def logStep : Sys × List (ℕ × Phase) → Action → Option (Sys × List (ℕ × Phase)) :=
  observe sysStep noteServed

/-- The tag of the request an action queues. -/
def Action.queued : Action → Option ℕ
  | .rq _ (.queue r) => some r.tag
  | _ => none

/-- The action is a step of a caller in `rk_nand_queue_rq`. -/
def Action.serves : Action → Bool
  | .rq _ (.go _) => true
  | _ => false

/-! ## Where a request is -/

/-- The request a caller has in hand, with the number of phases it has gone through. -/
def RqPc.inHand : RqPc → Option (ℕ × ℕ)
  | .lockQueue r | .append r => some (r.tag, 1)
  | .lockDev r | .exec r => some (r.tag, 4)
  | .inFtl r | .unlockDev r | .complete r => some (r.tag, 5)
  | _ => none

/-- The caller will look at the list again. -/
def RqPc.Draining : RqPc → Prop
  | .next | .lockDev _ | .exec _ | .inFtl _ | .unlockDev _ | .complete _ | .relock => True
  | _ => False

/-- The caller holds the queue lock. -/
def RqPc.HasQueue : RqPc → Prop
  | .append _ | .next => True
  | _ => False

/-- What a step of caller `i` does to the requests: nothing, or it carries one request from where it
is to where it is next. -/
inductive Moves (s t : Sys) (i : ℕ) (pc : RqPc) : List (ℕ × Phase) → Prop where
  | quiet : pc.inHand = (s.rq i).inHand → t.rqList = s.rqList → Moves s t i pc []
  | queue (tag : ℕ) : (s.rq i).inHand = none → pc.inHand = some (tag, 1) →
      t.rqList = s.rqList → Moves s t i pc (goThrough tag [.queued])
  | append (r : Rq) : (s.rq i).inHand = some (r.tag, 1) → pc.inHand = none → pc.Draining →
      t.rqList = s.rqList ++ [r] → Moves s t i pc (goThrough r.tag [.appended])
  | pop (r : Rq) : (s.rq i).inHand = none → pc.inHand = some (r.tag, 4) →
      s.rqList = r :: t.rqList → Moves s t i pc (goThrough r.tag [.removed, .started])
  | exec (tag : ℕ) : (s.rq i).inHand = some (tag, 4) → pc.inHand = some (tag, 5) →
      t.rqList = s.rqList → Moves s t i pc (goThrough tag [.executed true])
  | finish (tag : ℕ) : (s.rq i).inHand = some (tag, 5) → pc.inHand = none →
      t.rqList = s.rqList → Moves s t i pc (goThrough tag [.ended])

section steps

variable {s t : Sys} {i : ℕ}

/-- A step of a caller. -/
structure Serves (s t : Sys) (i : ℕ) (pc : RqPc) (events : List (ℕ × Phase)) : Prop where
  rq : t.rq = Function.update s.rq i pc
  moves : Moves s t i pc events
  drains : (s.rq i).Draining → pc.Draining ∨ t.rqList = []

theorem rqStep_queue_serves {r : Rq} (h : rqStep s i (.queue r) = some t) :
    ∃ pc, Serves s t i pc (served s (.rq i (.queue r))) := by
  simp only [rqStep] at h
  split at h
  · rename_i idle
    split_ifs at h
    cases h
    refine ⟨.lockQueue r, rfl, .queue r.tag ?_ rfl rfl, ?_⟩
    · rw [idle]
      rfl
    · rw [idle]
      exact False.elim
  · cases h

theorem rqStep_go_serves {enters : Bool} (h : rqStep s i (.go enters) = some t)
    (locked : ∀ r, s.rq i = .exec r → s.deviceLock = some (.rq i)) :
    ∃ pc, Serves s t i pc (served s (.rq i (.go enters))) := by
  cases hpc : s.rq i with
  | idle =>
    simp only [rqStep, hpc] at h
    cases h
  | lockQueue r =>
    simp only [rqStep, hpc] at h
    split_ifs at h
    cases h
    simp only [served, hpc]
    exact ⟨.append r, rfl, .quiet (by rw [hpc]; rfl) rfl, by rw [hpc]; exact False.elim⟩
  | append r =>
    simp only [rqStep, hpc, Option.some.injEq] at h
    subst h
    simp only [served, hpc]
    exact ⟨.next, rfl, .append r (by rw [hpc]; rfl) rfl trivial rfl, fun _ => .inl trivial⟩
  | next =>
    simp only [rqStep, hpc] at h
    simp only [served, hpc]
    cases hlist : s.rqList with
    | nil =>
      simp only [hlist, Option.some.injEq] at h
      subst h
      exact ⟨.setGc, rfl, .quiet (by rw [hpc]; rfl) rfl, fun _ => .inr hlist⟩
    | cons r rest =>
      simp only [hlist, Option.some.injEq] at h
      subst h
      exact ⟨.lockDev r, rfl, .pop r (by rw [hpc]; rfl) rfl hlist, fun _ => .inl trivial⟩
  | lockDev r =>
    simp only [rqStep, hpc] at h
    split_ifs at h
    cases h
    simp only [served, hpc]
    exact ⟨.exec r, rfl, .quiet (by rw [hpc]; rfl) rfl, fun _ => .inl trivial⟩
  | exec r =>
    simp only [rqStep, hpc, Option.some.injEq] at h
    subst h
    simp only [served, hpc, locked r hpc, decide_true]
    refine ⟨_, rfl, .exec r.tag (by rw [hpc]; rfl) ?_ rfl, fun _ => .inl ?_⟩
    · split_ifs <;> rfl
    · split_ifs <;> trivial
  | inFtl r =>
    simp only [rqStep, hpc, Option.some.injEq] at h
    subst h
    simp only [served, hpc]
    exact ⟨.unlockDev r, rfl, .quiet (by rw [hpc]; rfl) rfl, fun _ => .inl trivial⟩
  | unlockDev r =>
    simp only [rqStep, hpc, Option.some.injEq] at h
    subst h
    simp only [served, hpc]
    exact ⟨.complete r, rfl, .quiet (by rw [hpc]; rfl) rfl, fun _ => .inl trivial⟩
  | complete r =>
    simp only [rqStep, hpc, Option.some.injEq] at h
    subst h
    simp only [served, hpc]
    exact ⟨.relock, rfl, .finish r.tag (by rw [hpc]; rfl) rfl rfl, fun _ => .inl trivial⟩
  | relock =>
    simp only [rqStep, hpc] at h
    split_ifs at h
    cases h
    simp only [served, hpc]
    exact ⟨.next, rfl, .quiet (by rw [hpc]; rfl) rfl, fun _ => .inl trivial⟩
  | setGc =>
    simp only [rqStep, hpc, Option.some.injEq] at h
    subst h
    simp only [served, hpc]
    exact ⟨.idle, rfl, .quiet (by rw [hpc]; rfl) rfl, by rw [hpc]; exact False.elim⟩

end steps

/-! ## No request is lost or served twice -/

/-- Where a request is, who has it in hand and how often it is in the list being given: nowhere, in
the hands of one caller, or once in the list; and it has gone through the phases that lead there. -/
inductive OnePlace (hands : ℕ → ℕ → Prop) (count : ℕ) : List Phase → Prop where
  | nowhere {phases : List Phase} : (∀ i n, ¬ hands i n) → count = 0 →
      phases = [] ∨ phases = life → OnePlace hands count phases
  | hand (i n : ℕ) : (∀ j m, hands j m ↔ j = i ∧ m = n) → count = 0 →
      OnePlace hands count (life.take n)
  | listed : (∀ i n, ¬ hands i n) → count = 1 → OnePlace hands count (life.take 2)

def Sys.Hands (s : Sys) (tag i n : ℕ) : Prop := (s.rq i).inHand = some (tag, n)

def Sys.listedTags (s : Sys) : List ℕ := s.rqList.map Rq.tag

/-- The request of this tag is in one place. -/
def Placed (s : Sys) (log : List (ℕ × Phase)) (tag : ℕ) : Prop :=
  OnePlace (s.Hands tag) (s.listedTags.count tag) (phasesOf log tag)

structure ServedInv (s : Sys) (log : List (ℕ × Phase)) : Prop where
  placed : ∀ tag, Placed s log tag
  order : itemsAt log .appended = itemsAt log .started ++ s.listedTags
  drained : s.rqList ≠ [] → ∃ i, (s.rq i).Draining

section places

variable {hands : ℕ → ℕ → Prop} {count i n : ℕ} {phases : List Phase}

theorem OnePlace.of_hand (h : OnePlace hands count phases) (hand : hands i n) :
    (∀ j m, hands j m ↔ j = i ∧ m = n) ∧ count = 0 ∧ phases = life.take n := by
  cases h with
  | nowhere none => exact absurd hand (none i n)
  | hand j m only zero =>
    obtain ⟨rfl, rfl⟩ := (only i n).1 hand
    exact ⟨only, zero, rfl⟩
  | listed none => exact absurd hand (none i n)

theorem OnePlace.of_count (h : OnePlace hands count phases) (some : count ≠ 0) :
    (∀ i n, ¬ hands i n) ∧ count = 1 ∧ phases = life.take 2 := by
  cases h with
  | nowhere _ zero => exact absurd zero some
  | hand _ _ _ zero => exact absurd zero some
  | listed none one => exact ⟨none, one, rfl⟩

theorem OnePlace.isPrefix (h : OnePlace hands count phases) : phases <+: life := by
  cases h with
  | nowhere _ _ ends =>
    rcases ends with rfl | rfl
    · exact List.nil_prefix
    · exact List.prefix_refl _
  | hand _ n => exact List.take_prefix n life
  | listed => exact List.take_prefix 2 life

end places

section moves

variable {s t : Sys} {i tag : ℕ} {pc : RqPc} {log : List (ℕ × Phase)} {ps : List Phase}

theorem RqPc.inHand_pos {n : ℕ} (h : pc.inHand = some (tag, n)) : n ≠ 0 := by
  cases pc <;> simp_all [inHand] <;> omega

/-- A request nothing has happened to yet is nowhere. -/
theorem Placed.of_fresh (h : Placed s log tag) (fresh : phasesOf log tag = []) :
    (∀ i n, ¬ s.Hands tag i n) ∧ s.listedTags.count tag = 0 := by
  unfold Placed at h
  rw [fresh] at h
  generalize hp : ([] : List Phase) = phases at h
  cases h with
  | nowhere none zero => exact ⟨none, zero⟩
  | hand i n only zero =>
    have pos := RqPc.inHand_pos ((only i n).2 ⟨rfl, rfl⟩)
    cases n with
    | zero => exact absurd rfl pos
    | succ n => cases hp
  | listed => cases hp

theorem hands_update (rq : t.rq = Function.update s.rq i pc) (tag j n : ℕ) :
    t.Hands tag j n ↔ j = i ∧ pc.inHand = some (tag, n) ∨ j ≠ i ∧ s.Hands tag j n := by
  unfold Sys.Hands
  rw [rq]
  by_cases own : j = i
  · subst own
    simp
  · simp [own]

/-- A step that moves one request leaves the others where they are. -/
theorem placed_of_move (placed : ∀ tag, Placed s log tag) (rq : t.rq = Function.update s.rq i pc)
    (before : ∀ u n, (s.rq i).inHand = some (u, n) → u = tag)
    (after : ∀ u n, pc.inHand = some (u, n) → u = tag)
    (list : ∀ u ≠ tag, t.listedTags.count u = s.listedTags.count u)
    (own : Placed t (log ++ goThrough tag ps) tag) (u : ℕ) :
    Placed t (log ++ goThrough tag ps) u := by
  by_cases same : u = tag
  · subst same
    exact own
  · have hands : t.Hands u = s.Hands u := by
      funext j n
      rw [hands_update rq, eq_iff_iff]
      constructor
      · rintro (⟨-, taken⟩ | ⟨-, held⟩)
        · exact absurd (after u n taken) same
        · exact held
      · intro held
        refine .inr ⟨?_, held⟩
        rintro rfl
        exact same (before u n held)
    unfold Placed
    rw [hands, list u same, phasesOf_append, phasesOf_goThrough_of_ne same, List.append_nil]
    exact placed u

theorem placed_in_hand {n : ℕ} (rq : t.rq = Function.update s.rq i pc)
    (taken : pc.inHand = some (tag, n)) (nobody : ∀ j m, j ≠ i → ¬ s.Hands tag j m)
    (zero : t.listedTags.count tag = 0) (phases : phasesOf log tag = life.take n) :
    Placed t log tag := by
  unfold Placed
  rw [phases]
  refine .hand i n (fun j m => ?_) zero
  rw [hands_update rq, taken]
  constructor
  · rintro (⟨rfl, same⟩ | ⟨other, held⟩)
    · simp_all
    · exact absurd held (nobody j m other)
  · rintro ⟨rfl, rfl⟩
    exact .inl ⟨rfl, rfl⟩

theorem no_hands (rq : t.rq = Function.update s.rq i pc) (empty : pc.inHand = none)
    (nobody : ∀ j m, j ≠ i → ¬ s.Hands tag j m) (j n : ℕ) : ¬ t.Hands tag j n := by
  rw [hands_update rq, empty]
  rintro (⟨-, taken⟩ | ⟨other, held⟩)
  · cases taken
  · exact nobody j n other held

/-- Every request stays in one place. -/
theorem Serves.placed {events : List (ℕ × Phase)} (serves : Serves s t i pc events)
    (placed : ∀ tag, Placed s log tag)
    (fresh : ∀ tag, (tag, .queued) ∈ events → phasesOf log tag = []) :
    ∀ tag, Placed t (log ++ events) tag := by
  obtain ⟨rq, moves, -⟩ := serves
  cases moves with
  | quiet same list =>
    intro tag
    have hands : t.Hands tag = s.Hands tag := by
      funext j n
      rw [hands_update rq, same, eq_iff_iff]
      unfold Sys.Hands
      by_cases own : j = i <;> simp [own]
    unfold Placed Sys.listedTags
    rw [hands, list, List.append_nil]
    exact placed tag
  | queue tag none taken list =>
    have fresh := fresh tag (by simp [goThrough])
    obtain ⟨nobody, zero⟩ := (placed tag).of_fresh fresh
    apply placed_of_move placed rq (by simp [none]) (by simp [taken])
      (by simp [Sys.listedTags, list])
    apply placed_in_hand rq taken fun j m _ => nobody j m
    · rwa [Sys.listedTags, list]
    · rw [phasesOf_append, phasesOf_goThrough_self, fresh]
      rfl
  | append r taken none _ list =>
    obtain ⟨only, zero, phases⟩ := (placed r.tag).of_hand taken
    have counts (u : ℕ) : t.listedTags.count u = s.listedTags.count u + [r.tag].count u := by
      simp [Sys.listedTags, list]
    apply placed_of_move placed rq (by simp [taken]) (by simp [none])
    · intro u other
      simp [counts, other.symm]
    · unfold Placed
      rw [phasesOf_append, phasesOf_goThrough_self, phases]
      apply OnePlace.listed
      · exact no_hands rq none fun j m other held => other ((only j m).1 held).1
      · simp [counts, zero]
  | pop r none taken list =>
    have counts (u : ℕ) : s.listedTags.count u = t.listedTags.count u + [r.tag].count u := by
      simp [Sys.listedTags, list, List.count_cons]
    obtain ⟨nobody, one, phases⟩ := (placed r.tag).of_count (by simp [counts])
    apply placed_of_move placed rq (by simp [none]) (by simp [taken])
    · intro u other
      simp [counts, other.symm]
    · apply placed_in_hand rq taken fun j m _ => nobody j m
      · rw [counts] at one
        simpa using one
      · rw [phasesOf_append, phasesOf_goThrough_self, phases]
        rfl
  | exec tag held taken list =>
    obtain ⟨only, zero, phases⟩ := (placed tag).of_hand held
    apply placed_of_move placed rq (by simp [held]) (by simp [taken])
      (by simp [Sys.listedTags, list])
    apply placed_in_hand rq taken fun j m other held => other ((only j m).1 held).1
    · rwa [Sys.listedTags, list]
    · rw [phasesOf_append, phasesOf_goThrough_self, phases]
      rfl
  | finish tag held none list =>
    obtain ⟨only, zero, phases⟩ := (placed tag).of_hand held
    apply placed_of_move placed rq (by simp [held]) (by simp [none])
      (by simp [Sys.listedTags, list])
    unfold Placed
    rw [phasesOf_append, phasesOf_goThrough_self, phases]
    refine .nowhere ?_ (by rwa [Sys.listedTags, list]) (.inr rfl)
    exact no_hands rq none fun j m other held => other ((only j m).1 held).1

theorem Serves.order {events : List (ℕ × Phase)} (serves : Serves s t i pc events)
    (order : itemsAt log .appended = itemsAt log .started ++ s.listedTags) :
    itemsAt (log ++ events) .appended = itemsAt (log ++ events) .started ++ t.listedTags := by
  unfold Sys.listedTags at order ⊢
  rw [itemsAt_append, itemsAt_append, order]
  cases serves.moves with
  | quiet _ list | queue _ _ _ list | append _ _ _ _ list | exec _ _ _ list | finish _ _ _ list =>
    simp [list]
  | pop r _ _ list => simp [list]

theorem Serves.drained {events : List (ℕ × Phase)} (serves : Serves s t i pc events)
    (drained : s.rqList ≠ [] → ∃ i, (s.rq i).Draining) :
    t.rqList ≠ [] → ∃ i, (t.rq i).Draining := by
  intro some
  have own (h : pc.Draining) : ∃ i, (t.rq i).Draining :=
    ⟨i, by rwa [serves.rq, Function.update_self]⟩
  have after (before : s.rqList ≠ []) : ∃ i, (t.rq i).Draining := by
    obtain ⟨j, hj⟩ := drained before
    by_cases self : j = i
    · subst self
      exact own ((serves.drains hj).resolve_right some)
    · exact ⟨j, by rwa [serves.rq, Function.update_of_ne self]⟩
  cases serves.moves with
  | quiet _ list | queue _ _ _ list | exec _ _ _ list | finish _ _ _ list =>
    exact after (list ▸ some)
  | append _ _ _ drains _ => exact own drains
  | pop r _ _ list => exact after (by simp [list])

end moves

/-! ## The locks -/

/-- Both locks are with the callers that believe to hold them, and with nobody else. -/
structure LockInv (s : Sys) : Prop where
  device : Mutex.Kept s.deviceLock s.Holds
  skipped : s.pm = .skipped → s.mod ≠ .registered ∧ s.rkNandDevInitialised = false
  owner : ∀ i, s.deviceLock = some (.rq i) → s.Holds (.rq i)
  queue : Mutex.Exact s.queueLock fun i => (s.rq i).HasQueue

section locks

variable {s t : Sys} {a : Action} {i : ℕ}

theorem rqStep_owner {a : RqAction} (h : rqStep s i a = some t)
    (owner : s.deviceLock = some (.rq i) → s.Holds (.rq i)) :
    t.deviceLock = some (.rq i) → t.Holds (.rq i) := by
  intro own
  cases a with
  | queue r =>
    simp only [rqStep] at h
    split at h
    · rename_i idle
      split_ifs at h
      cases h
      simp [Sys.Holds, idle] at owner
      exact absurd own owner
    · cases h
  | go enters =>
    cases hpc : s.rq i with
    | idle =>
      simp only [rqStep, hpc] at h
      cases h
    | lockQueue | relock =>
      simp only [rqStep, hpc] at h
      split_ifs at h
      cases h
      simp [Sys.Holds, hpc] at owner
      exact absurd own owner
    | lockDev r =>
      simp only [rqStep, hpc] at h
      split_ifs at h
      cases h
      simp [Sys.Holds, Sys.setRq]
    | next =>
      simp [Sys.Holds, hpc] at owner
      simp only [rqStep, hpc] at h
      split at h
      all_goals
        cases h
        exact absurd own owner
    | exec r =>
      simp only [rqStep, hpc, Option.some.injEq] at h
      subst h
      cases enters <;> simp [Sys.Holds, Sys.setRq]
    | inFtl r =>
      simp only [rqStep, hpc, Option.some.injEq] at h
      subst h
      simp [Sys.Holds, Sys.setRq]
    | unlockDev r =>
      simp only [rqStep, hpc, Option.some.injEq] at h
      subst h
      cases own
    | append | complete | setGc =>
      simp only [rqStep, hpc, Option.some.injEq] at h
      subst h
      simp [Sys.Holds, hpc] at owner
      exact absurd own owner

theorem rqStep_queueLock {a : RqAction} (h : rqStep s i a = some t)
    (queue : Mutex.Exact s.queueLock fun j => (s.rq j).HasQueue) :
    Mutex.Exact t.queueLock fun j => (t.rq j).HasQueue := by
  have others (j : ℕ) (other : j ≠ i) : (t.rq j).HasQueue ↔ (s.rq j).HasQueue := by
    obtain ⟨_, _, _, _, _, rfl⟩ := rqStep_shape h
    simp [Sys.setRq, other]
  cases a with
  | queue r =>
    simp only [rqStep] at h
    split at h
    · rename_i idle
      split_ifs at h
      cases h
      exact queue.leave others (by simp [Sys.setRq, idle, RqPc.HasQueue])
    · cases h
  | go enters =>
    cases hpc : s.rq i with
    | idle =>
      simp only [rqStep, hpc] at h
      cases h
    | lockQueue | relock =>
      simp only [rqStep, hpc] at h
      split_ifs at h with free
      cases h
      rw [free] at queue
      exact queue.acquire others (by simp [Sys.setRq, RqPc.HasQueue])
    | lockDev r =>
      simp only [rqStep, hpc] at h
      split_ifs at h
      cases h
      exact queue.leave others (by simp [Sys.setRq, hpc, RqPc.HasQueue])
    | next =>
      simp only [rqStep, hpc] at h
      have held : (s.rq i).HasQueue := by
        rw [hpc]
        trivial
      split at h
      all_goals
        cases h
        exact queue.release others held (by simp [Sys.setRq, RqPc.HasQueue])
    | exec r =>
      simp only [rqStep, hpc, Option.some.injEq] at h
      subst h
      apply queue.leave others
      cases enters <;> simp [Sys.setRq, hpc, RqPc.HasQueue]
    | _ =>
      simp only [rqStep, hpc, Option.some.injEq] at h
      subst h
      exact queue.leave others (by simp [Sys.setRq, hpc, RqPc.HasQueue])

/-- The others do not touch the requests. -/
theorem sysStep_frame_rq (h : sysStep s a = some t) (other : ∀ i b, a ≠ .rq i b) :
    t.rq = s.rq ∧ t.rqList = s.rqList ∧ t.queueLock = s.queueLock := by
  cases a with
  | prov ans =>
    obtain ⟨_, _, _, rfl, -⟩ := provStep_shape h
    exact ⟨rfl, rfl, rfl⟩
  | gc =>
    obtain ⟨_, _, _, _, rfl⟩ := gcStep_shape h
    exact ⟨rfl, rfl, rfl⟩
  | rq i b => exact absurd rfl (other i b)
  | flush i =>
    obtain ⟨_, _, rfl⟩ := flushStep_shape h
    exact ⟨rfl, rfl, rfl⟩
  | pm =>
    obtain ⟨_, _, _, rfl⟩ := pmStep_shape h
    exact ⟨rfl, rfl, rfl⟩
  | module =>
    obtain ⟨_, _, _, _, rfl⟩ := modStep_shape h
    exact ⟨rfl, rfl, rfl⟩

theorem LockInv.step (inv : LockInv s) (h : sysStep s a = some t) : LockInv t := by
  have mutex := sysStep_mutex h fun pm => (inv.skipped pm).2
  refine ⟨mutex.kept inv.device, skipped_step inv.skipped h, ?_, ?_⟩
  · intro i own
    by_cases self : a.context = .rq i
    · cases a with
      | rq j b =>
        cases self
        exact rqStep_owner h (inv.owner _) own
      | _ => cases self
    · -- another context can only have left the lock where it was
      have same : s.deviceLock = some (.rq i) := by
        rcases mutex.effect with same | ⟨-, taken⟩ | ⟨-, given⟩
        · exact same ▸ own
        · rw [taken, Option.some.injEq] at own
          exact absurd own self
        · rw [given] at own
          cases own
      have pc : t.rq i = s.rq i := (sysStep_samePc h (Ne.symm self)).resolve_right (by simp)
      simpa only [Sys.Holds, pc] using inv.owner i same
  · by_cases caller : ∃ i b, a = .rq i b
    · obtain ⟨i, b, rfl⟩ := caller
      exact rqStep_queueLock h inv.queue
    · obtain ⟨rq, -, lock⟩ := sysStep_frame_rq h (by simpa using caller)
      rw [rq, lock]
      exact inv.queue

theorem lockInv_start (d : Statics) : LockInv (Sys.start d) where
  device := by
    intro c holds
    cases c <;> simp [Sys.Holds, Sys.start] at holds
  skipped := by simp [Sys.start]
  owner := by simp [Sys.start]
  queue := by simp [Mutex.Exact, Sys.start, RqPc.HasQueue]

end locks

/-! ## Progress -/

/-- The steps a caller has left, but for the requests in the list. -/
def RqPc.work : RqPc → ℕ
  | .idle => 0
  | .setGc => 1
  | .next => 2
  | .relock => 3
  | .complete _ => 4
  | .unlockDev _ => 5
  | .inFtl _ => 6
  | .exec _ => 7
  | .lockDev _ => 8
  | .append _ => 11
  | .lockQueue _ => 12

/-- The steps the first `k` callers have left. -/
def Sys.work (s : Sys) (k : ℕ) : ℕ := 8 * s.rqList.length + ∑ i ∈ Finset.range k, (s.rq i).work

section progress

variable {s t : Sys} {a : Action} {i k : ℕ}

theorem work_update {pc : RqPc} (below : i < k) (rq : t.rq = Function.update s.rq i pc) :
    ∑ j ∈ Finset.range k, (t.rq j).work + (s.rq i).work =
      ∑ j ∈ Finset.range k, (s.rq j).work + pc.work := by
  have mem : i ∈ Finset.range k := Finset.mem_range.2 below
  rw [← Finset.add_sum_erase _ _ mem, ← Finset.add_sum_erase _ _ mem]
  have rest : ∑ j ∈ (Finset.range k).erase i, (t.rq j).work =
      ∑ j ∈ (Finset.range k).erase i, (s.rq j).work := by
    apply Finset.sum_congr rfl
    intro j hj
    rw [rq, Function.update_of_ne (Finset.ne_of_mem_erase hj)]
  rw [rest, rq, Function.update_self]
  omega

/-- The work that an action brings. -/
def Action.brings (a : Action) : ℕ := if a.queued.isSome then 12 else 0

/-- A request brings twelve steps of work with it, and each step of a caller takes one away. -/
theorem rqStep_pays {b : RqAction} (h : rqStep s i b = some t) :
    ∃ pc, t.rq = Function.update s.rq i pc ∧
      pc.work + 8 * t.rqList.length + (Action.rq i b).serves.toNat ≤
        (s.rq i).work + 8 * s.rqList.length + (Action.rq i b).brings := by
  cases b with
  | queue r =>
    simp only [rqStep] at h
    split at h
    · rename_i idle
      split_ifs at h
      cases h
      refine ⟨_, rfl, ?_⟩
      simp only [idle, Sys.setRq, RqPc.work, Action.serves, Action.brings, Action.queued]
      simp [add_comm]
    · cases h
  | go enters =>
    simp only [Action.serves, Action.brings, Action.queued, Bool.toNat_true, Option.isSome_none,
      Bool.false_eq_true, if_false]
    cases hpc : s.rq i with
    | idle =>
      simp only [rqStep, hpc] at h
      cases h
    | lockQueue | relock | lockDev =>
      simp only [rqStep, hpc] at h
      split_ifs at h
      cases h
      exact ⟨_, rfl, by simp only [Sys.setRq, RqPc.work]; omega⟩
    | append r =>
      simp only [rqStep, hpc, Option.some.injEq] at h
      subst h
      refine ⟨_, rfl, ?_⟩
      simp only [RqPc.work, List.length_append, List.length_singleton]
      omega
    | next =>
      simp only [rqStep, hpc] at h
      cases hlist : s.rqList with
      | nil =>
        simp only [hlist, Option.some.injEq] at h
        subst h
        exact ⟨_, rfl, by simp [Sys.setRq, RqPc.work, hlist]⟩
      | cons r rest =>
        simp only [hlist, Option.some.injEq] at h
        subst h
        refine ⟨_, rfl, ?_⟩
        simp only [RqPc.work, List.length_cons]
        omega
    | exec r =>
      simp only [rqStep, hpc, Option.some.injEq] at h
      subst h
      refine ⟨_, rfl, ?_⟩
      cases enters
      all_goals
        simp only [Sys.setRq, RqPc.work, Bool.false_eq_true, if_true, if_false]
        omega
    | _ =>
      simp only [rqStep, hpc, Option.some.injEq] at h
      subst h
      exact ⟨_, rfl, by simp only [Sys.setRq, RqPc.work]; omega⟩

theorem sysStep_work (h : sysStep s a = some t) (below : ∀ i b, a = .rq i b → i < k) :
    t.work k + a.serves.toNat ≤ s.work k + a.brings := by
  by_cases caller : ∃ i b, a = .rq i b
  · obtain ⟨i, b, rfl⟩ := caller
    obtain ⟨pc, rq, pays⟩ := rqStep_pays h
    have sums := work_update (below i b rfl) rq
    unfold Sys.work
    omega
  · have other : ∀ i b, a ≠ .rq i b := by simpa using caller
    obtain ⟨rq, list, -⟩ := sysStep_frame_rq h other
    have still : a.serves = false ∧ a.queued = none := by
      cases a with
      | rq i b => exact absurd rfl (other i b)
      | _ => exact ⟨rfl, rfl⟩
    simp [Sys.work, rq, list, still, Action.brings]

/-- The callers take at most twelve steps for each request that is queued. -/
theorem run_work {acts : List Action} (reached : run sysStep s acts = some t)
    (below : ∀ i b, .rq i b ∈ acts → i < k) :
    t.work k + acts.countP Action.serves ≤
      s.work k + 12 * (acts.filterMap Action.queued).length := by
  induction acts generalizing s with
  | nil =>
    simp only [run_nil, Option.some.injEq] at reached
    simp [reached]
  | cons a acts ih =>
    obtain ⟨u, hu, rest⟩ := run_cons_eq_some.1 reached
    have here := sysStep_work (k := k) hu fun i b e => below i b (by simp [e])
    have later := ih rest fun i b mem => below i b (List.mem_cons_of_mem _ mem)
    unfold Action.brings at here
    rw [List.countP_cons, List.filterMap_cons]
    cases hq : a.queued <;> cases hs : a.serves <;> simp [hq, hs] at here ⊢ <;> omega

/-- A caller that does not wait for a lock can go on. -/
theorem rqStep_go_enabled (busy : s.rq i ≠ .idle)
    (queue : s.queueLock = none ∨ (s.rq i).HasQueue ∨ s.Holds (.rq i))
    (device : s.deviceLock = none ∨ (s.rq i).HasQueue ∨ s.Holds (.rq i)) :
    ∃ t, sysStep s (.rq i (.go true)) = some t := by
  rw [← Option.isSome_iff_exists]
  cases hpc : s.rq i with
  | idle => exact absurd hpc busy
  | lockQueue | relock =>
    have free : s.queueLock = none := by simpa [hpc, RqPc.HasQueue, Sys.Holds] using queue
    simp [sysStep, rqStep, hpc, free]
  | lockDev r =>
    have free : s.deviceLock = none := by simpa [hpc, RqPc.HasQueue, Sys.Holds] using device
    simp [sysStep, rqStep, hpc, free]
  | next => cases hlist : s.rqList <;> simp [sysStep, rqStep, hpc, hlist]
  | _ => simp [sysStep, rqStep, hpc]

/-- As long as a caller has not returned, some caller can go on, unless the mutex is with another
context. -/
theorem LockInv.exists_go (inv : LockInv s) (busy : s.rq i ≠ .idle)
    (free : ∀ c, s.deviceLock = some c → ∃ j, c = .rq j) :
    ∃ j t, sysStep s (.rq j (.go true)) = some t := by
  cases queue : s.queueLock with
  | some j =>
    have held : (s.rq j).HasQueue := (inv.queue j).1 queue
    have busy : s.rq j ≠ .idle := fun idle => by simp [idle, RqPc.HasQueue] at held
    exact ⟨j, rqStep_go_enabled busy (.inr (.inl held)) (.inr (.inl held))⟩
  | none =>
    cases device : s.deviceLock with
    | some c =>
      obtain ⟨j, rfl⟩ := free c device
      have held : s.Holds (.rq j) := inv.owner j device
      have busy : s.rq j ≠ .idle := fun idle => by simp [idle, Sys.Holds] at held
      exact ⟨j, rqStep_go_enabled busy (.inr (.inr held)) (.inr (.inr held))⟩
    | none => exact ⟨i, rqStep_go_enabled busy (.inl queue) (.inl device)⟩

end progress

/-! ## Runs -/

section runs

variable {s t : Sys} {a : Action} {log : List (ℕ × Phase)}

/-- The call of `rk_nand_queue_rq` queues its request, and nothing else queues one. -/
theorem mem_served_queued {tag : ℕ} : (tag, .queued) ∈ served s a ↔ tag ∈ a.queued := by
  cases a with
  | rq i b =>
    cases b with
    | queue r => simp [served, goThrough, Action.queued, eq_comm]
    | go enters =>
      cases hpc : s.rq i with
      | next => cases hlist : s.rqList <;> simp [served, hpc, hlist, goThrough, Action.queued]
      | _ => simp [served, hpc, goThrough, Action.queued]
  | _ => simp [served, Action.queued]

theorem ServedInv.step (inv : ServedInv s log) (locks : LockInv s) (h : sysStep s a = some t)
    (fresh : ∀ tag ∈ a.queued, phasesOf log tag = []) : ServedInv t (noteServed s a log) := by
  unfold noteServed
  by_cases caller : ∃ i b, a = .rq i b
  · obtain ⟨i, b, rfl⟩ := caller
    obtain ⟨pc, serves⟩ : ∃ pc, Serves s t i pc (served s (.rq i b)) := by
      cases b with
      | queue r => exact rqStep_queue_serves h
      | go enters => exact rqStep_go_serves h fun r hr => locks.device (.rq i) ⟨r, .inl hr⟩
    refine ⟨serves.placed inv.placed ?_, serves.order inv.order, serves.drained inv.drained⟩
    intro tag mem
    exact fresh tag (mem_served_queued.1 mem)
  · have other : ∀ i b, a ≠ .rq i b := by simpa using caller
    obtain ⟨rq, list, -⟩ := sysStep_frame_rq h other
    have nothing : served s a = [] := by
      cases a with
      | rq i b => exact absurd rfl (other i b)
      | _ => rfl
    rw [nothing, List.append_nil]
    obtain ⟨placed, order, drained⟩ := inv
    refine ⟨?_, ?_, ?_⟩
    · have hands : t.Hands = s.Hands := by
        unfold Sys.Hands
        rw [rq]
      simpa only [Placed, hands, Sys.listedTags, list] using placed
    · simpa only [Sys.listedTags, list] using order
    · simpa only [rq, list] using drained

theorem servedInv_start (d : Statics) : ServedInv (Sys.start d) [] where
  placed := fun tag => .nowhere (by simp [Sys.Hands, Sys.start, RqPc.inHand]) rfl (.inl rfl)
  order := rfl
  drained := by simp [Sys.start]

/-- A request whose call is not in the log has no events at all. -/
theorem ServedInv.fresh (inv : ServedInv s log) {tag : ℕ} (unknown : .queued ∉ phasesOf log tag) :
    phasesOf log tag = [] := by
  obtain ⟨rest, split⟩ := (inv.placed tag).isPrefix
  cases phases : phasesOf log tag with
  | nil => rfl
  | cons p ps =>
    rw [phases] at split unknown
    obtain rfl : p = .queued := (List.cons.inj split).1
    exact absurd List.mem_cons_self unknown

theorem queued_noteServed {tag : ℕ} :
    .queued ∈ phasesOf (noteServed s a log) tag ↔ .queued ∈ phasesOf log tag ∨ tag ∈ a.queued := by
  rw [noteServed, phasesOf_append, List.mem_append, ← mem_served_queued (s := s)]
  simp [phasesOf]

/-- The invariant along a run whose requests are distinct. -/
theorem run_served {acts : List Action} {log' : List (ℕ × Phase)}
    (reached : run logStep (s, log) acts = some (t, log')) (locks : LockInv s)
    (inv : ServedInv s log) (distinct : (acts.filterMap Action.queued).Nodup)
    (fresh : ∀ tag ∈ acts.filterMap Action.queued, .queued ∉ phasesOf log tag) :
    LockInv t ∧ ServedInv t log' ∧ ∀ tag,
      .queued ∈ phasesOf log tag ∨ tag ∈ acts.filterMap Action.queued →
        .queued ∈ phasesOf log' tag := by
  induction acts generalizing s log with
  | nil =>
    simp only [run_nil, Option.some.injEq, Prod.mk.injEq] at reached
    obtain ⟨rfl, rfl⟩ := reached
    exact ⟨locks, inv, by simp⟩
  | cons a acts ih =>
    obtain ⟨⟨u, log₁⟩, step, rest⟩ := run_cons_eq_some.1 reached
    obtain ⟨hu, rfl⟩ := observe_eq_some.1 step
    have split : (a :: acts).filterMap Action.queued =
        a.queued.toList ++ acts.filterMap Action.queued := by
      cases hq : a.queued <;> simp [hq]
    rw [split, List.nodup_append'] at distinct
    simp only [split, List.mem_append, Option.mem_toList] at fresh ⊢
    obtain ⟨-, distinct, apart⟩ := distinct
    have next := inv.step locks hu fun tag mem => inv.fresh (fresh tag (.inl mem))
    obtain ⟨locks', inv', known⟩ := ih rest (locks.step hu) next distinct (by
      intro tag mem
      rw [queued_noteServed, not_or]
      exact ⟨fresh tag (.inr mem), fun here => apart (Option.mem_toList.2 here) mem⟩)
    refine ⟨locks', inv', fun tag from' => known tag ?_⟩
    rw [queued_noteServed]
    tauto

/-- What the log of a run says: each request goes through `life` once, in the order in which the
requests are appended; once the callers have returned all of them are through; and the callers do
return, since some caller can always go on and each request takes twelve steps at most. -/
structure ServedOnce (acts : List Action) (s : Sys) (log : List (ℕ × Phase)) : Prop where
  known : ∀ tag ∈ acts.filterMap Action.queued, .queued ∈ phasesOf log tag
  once : ∀ tag, phasesOf log tag <+: life
  inOrder : itemsAt log .started <+: itemsAt log .appended
  returned : (∀ i, s.rq i = .idle) →
    s.rqList = [] ∧ ∀ tag ∈ acts.filterMap Action.queued, phasesOf log tag = life
  goesOn : (∃ i, s.rq i ≠ .idle) → (∀ c, s.deviceLock = some c → ∃ j, c = .rq j) →
    ∃ j t, sysStep s (.rq j (.go true)) = some t
  ends : acts.countP Action.serves ≤ 12 * (acts.filterMap Action.queued).length

theorem ServedInv.returned (inv : ServedInv s log) (idle : ∀ i, s.rq i = .idle) :
    s.rqList = [] ∧ ∀ tag, .queued ∈ phasesOf log tag → phasesOf log tag = life := by
  have empty : s.rqList = [] := by
    by_contra some
    obtain ⟨i, draining⟩ := inv.drained some
    rw [idle i] at draining
    exact draining
  refine ⟨empty, fun tag known => ?_⟩
  have placed := inv.placed tag
  unfold Placed at placed
  generalize phasesOf log tag = phases at placed known ⊢
  cases placed with
  | nowhere _ _ ends =>
    rcases ends with rfl | rfl
    · cases known
    · rfl
  | hand i n only =>
    have held : s.Hands tag i n := (only i n).2 ⟨rfl, rfl⟩
    rw [Sys.Hands, idle i] at held
    cases held
  | listed _ one =>
    rw [Sys.listedTags, empty] at one
    cases one

theorem exists_bound (acts : List Action) : ∃ k, ∀ i b, .rq i b ∈ acts → i < k := by
  induction acts with
  | nil => exact ⟨0, by simp⟩
  | cons a acts ih =>
    obtain ⟨k, below⟩ := ih
    cases a with
    | rq i b =>
      refine ⟨max k (i + 1), fun j b' mem => ?_⟩
      rcases List.mem_cons.1 mem with e | mem
      · cases e
        omega
      · have := below j b' mem
        omega
    | _ => exact ⟨k, fun j b mem => below j b (by simpa using mem)⟩

/-- In every run of the driver whose requests are distinct, every request is served exactly once. -/
theorem requests_served_once (env : InitEnv) (acts : List Action) (s : Sys)
    (reached : run sysStep (Sys.start (registered env)) acts = some s)
    (distinct : (acts.filterMap Action.queued).Nodup) :
    ∃ log, run logStep (Sys.start (registered env), []) acts = some (s, log) ∧
      ServedOnce acts s log := by
  obtain ⟨log, logged⟩ :
      ∃ log, run logStep (Sys.start (registered env), []) acts = some (s, log) :=
    run_observe reached []
  obtain ⟨locks, inv, known⟩ :=
    run_served logged (lockInv_start _) (servedInv_start _) distinct (by simp)
  refine ⟨log, logged, fun tag mem => known tag (.inr mem), fun tag => (inv.placed tag).isPrefix,
    ⟨s.listedTags, inv.order.symm⟩, ?_, fun ⟨i, busy⟩ free => locks.exists_go busy free, ?_⟩
  · intro idle
    obtain ⟨empty, through⟩ := inv.returned idle
    exact ⟨empty, fun tag mem => through tag (known tag (.inr mem))⟩
  · obtain ⟨k, below⟩ := exists_bound acts
    have work := run_work reached below
    have start : (Sys.start (registered env)).work k = 0 := by simp [Sys.work, Sys.start, RqPc.work]
    omega

end runs

/-- The disk is added; then two callers take turns. -/
def twoCallers : List Action :=
  Action.module :: Action.prov ⟨1, true⟩ :: List.replicate 2 (Action.prov ⟨0, true⟩) ++
    [Action.rq 0 (.queue ⟨0, pageRead⟩), Action.rq 1 (.queue ⟨1, pageRead⟩)] ++
    List.replicate 3 (Action.rq 0 (.go true)) ++ List.replicate 3 (Action.rq 1 (.go true)) ++
    List.replicate 8 (Action.rq 0 (.go true)) ++ List.replicate 8 (Action.rq 1 (.go true))

theorem requests_served_once_twoCallers :
    twoCallers.filterMap Action.queued = [0, 1] ∧
      ∃ s log, run logStep (Sys.start (registered allWell), []) twoCallers = some (s, log) ∧
        ServedOnce twoCallers s log := by
  have queued : twoCallers.filterMap Action.queued = [0, 1] := by decide
  have enabled : (run sysStep (Sys.start (registered allWell)) twoCallers).isSome := by
    decide +kernel
  obtain ⟨s, reached⟩ := Option.isSome_iff_exists.1 enabled
  exact ⟨queued, s, requests_served_once allWell twoCallers s reached (by rw [queued]; decide)⟩

end RkNand.Driver
