import RkNand.Driver.Contexts

/-!
# The write-back of the idle GC thread

The GC thread counts the iterations that find the disk idle in `req_empty_times` and writes the
cache back when the count is 5 or 6.  The count starts again only when the thread reads
`rk_ftl_gc_do` while a request is in flight.  A history variable follows each write: it is written
back within ten idle iterations if the thread, at its first look at `rk_ftl_gc_do` after the write,
finds its count in reach of 5; a write that slips between two looks while the count is past 6 is
missed.
-/

namespace RkNand.Driver

open Blk Transition

/-! ## The history of a write -/

/-- `rk_ftl_cache_write_back` is entered. -/
def writesBack (s : Sys) : Action → Bool
  | .gc => s.gc = .flushLock
  | .flush i => s.flush i = .lock
  | .module => s.mod = .exitTrylock ∧ s.deviceLock = none
  | _ => false

/-- What is known of the present iteration of the GC thread: nothing, that it began after the write
was completed, or that it also read `rk_ftl_gc_do = 1`. -/
inductive Iteration where
  | other
  | begun
  | idle
  deriving DecidableEq

/-- A write request since it was executed. -/
structure Written where
  caller : ℕ
  /-- The request has been completed. -/
  completed : Bool
  /-- A request has been queued since the completion. -/
  queued : Bool
  /-- `rk_ftl_cache_write_back` has been called since the write. -/
  flushed : Bool
  /-- The GC thread has read `rk_ftl_gc_do` since the completion. -/
  sampled : Bool
  iteration : Iteration
  /-- The iterations that began after the completion, read `rk_ftl_gc_do = 1` and finished. -/
  idleIterations : ℕ

def Written.start (i : ℕ) : Written := ⟨i, false, false, false, false, .other, 0⟩

/-- The GC thread as seen from a completed write. -/
def Written.afterGc (s : Sys) (w : Written) : Written :=
  match s.gc with
  | .loop => { w with iteration := .begun }
  | .sample =>
      { w with
        sampled := true
        iteration := if w.iteration = .begun ∧ s.gcDo then .idle else .other }
  | .wait =>
      { w with
        iteration := .other
        idleIterations := w.idleIterations + if w.iteration = .idle then 1 else 0 }
  | _ => w

def Written.follow (s : Sys) (a : Action) (w : Written) : Written :=
  match a with
  | .rq _ (.queue _) => if w.completed then { w with queued := true } else w
  | .rq i (.go _) =>
      match s.rq i with
      | .complete _ => if w.caller = i then { w with completed := true } else w
      | _ => w
  | .gc => if w.completed then w.afterGc s else w
  | _ => w

def Written.next (s : Sys) (a : Action) (w : Written) : Written :=
  { w.follow s a with flushed := w.flushed || writesBack s a }

/-- A write request is executed. -/
def written (s : Sys) : Action → List Written
  | .rq i (.go _) =>
      match s.rq i with
      | .exec r => if r.req.op = .write then [.start i] else []
      | _ => []
  | _ => []

/-- The writes of a run, each with its history. -/
def noteWrites (s : Sys) (a : Action) (h : List Written) : List Written :=
  h.map (Written.next s a) ++ written s a

/-- The driver with the history of its writes. -/
def watchStep : Sys × List Written → Action → Option (Sys × List Written) :=
  observe sysStep noteWrites

/-- No write is left in the cache by ten idle iterations of the GC thread. -/
def NoneLeft (h : List Written) : Prop :=
  ∀ w ∈ h, w.completed → ¬ w.queued → 10 ≤ w.idleIterations → w.flushed

instance (h : List Written) : Decidable (NoneLeft h) :=
  inferInstanceAs (Decidable (∀ w ∈ h, _))

/-- The write is completed, nothing was queued since, and it has not been written back. -/
def Written.Waiting (w : Written) : Prop := w.completed ∧ ¬ w.queued ∧ ¬ w.flushed

/-- When the GC thread reads `rk_ftl_gc_do = 1` for the first time since a write was completed that
still waits to be written back, ten iterations are enough to bring `req_empty_times` to 5 or 6. -/
def InReach : Sys × List Written → Action → Prop
  | (s, h), .gc => s.gc = .sample → s.gcDo →
      ∀ w ∈ h, w.Waiting → ¬ w.sampled → -5 ≤ s.reqEmptyTimes ∧ s.reqEmptyTimes ≤ 5
  | _, _ => True

instance (w : Written) : Decidable w.Waiting := inferInstanceAs (Decidable (_ ∧ _ ∧ _))

instance : ∀ u a, Decidable (InReach u a)
  | (s, h), .gc => inferInstanceAs (Decidable (s.gc = .sample → s.gcDo →
      ∀ w ∈ h, w.Waiting → ¬ w.sampled → -5 ≤ s.reqEmptyTimes ∧ s.reqEmptyTimes ≤ 5))
  | _, .prov _ | _, .rq _ _ | _, .flush _ | _, .pm | _, .module => .isTrue trivial

/-! ## The GC thread between the steps of the others -/

section frame

variable {s t : Sys} {a : Action}

/-- A caller clears `rk_ftl_gc_do` only as a request is queued. -/
theorem rqStep_go_gcDo {i : ℕ} {enters : Bool} (h : rqStep s i (.go enters) = some t) :
    t.gcDo = s.gcDo ∨ t.gcDo = true := by
  simp only [rqStep] at h
  split at h
  all_goals
    try split at h
    all_goals first
      | cases h; done
      | (cases h
         exact .inl rfl)
      | (cases h
         exact .inr rfl)

/-- As long as no request is queued, the others leave a running GC thread its count, and
`rk_ftl_gc_do` once it is set. -/
theorem sysStep_frame_gc (later : s.GcLater) (h : sysStep s a = some t) (running : s.gc ≠ .absent)
    (other : a ≠ .gc) (quiet : ∀ i r, a ≠ .rq i (.queue r)) :
    t.gc = s.gc ∧ t.reqEmptyTimes = s.reqEmptyTimes ∧ (s.gcDo → t.gcDo) := by
  cases a with
  | prov ans =>
    obtain ⟨d, pc, gc, rfl, -, -, same | ⟨start, -⟩⟩ := provStep_shape h
    · exact ⟨same, rfl, id⟩
    · have early : s.prov.stage ≤ 2 := by
        rw [start]
        exact le_rfl
      exact absurd (later early) running
  | gc => exact absurd rfl other
  | rq i a =>
    cases a with
    | queue r => exact absurd rfl (quiet i r)
    | go enters =>
      have gcDo := rqStep_go_gcDo h
      obtain ⟨_, _, _, _, _, rfl⟩ := rqStep_shape (a := .go enters) h
      refine ⟨rfl, rfl, fun set => ?_⟩
      rcases gcDo with same | now
      · exact same.trans set
      · exact now
  | flush i =>
    obtain ⟨_, _, rfl⟩ := flushStep_shape h
    exact ⟨rfl, rfl, id⟩
  | pm =>
    obtain ⟨_, _, _, rfl⟩ := pmStep_shape h
    exact ⟨rfl, rfl, id⟩
  | module =>
    obtain ⟨_, _, _, _, rfl⟩ := modStep_shape h
    exact ⟨rfl, rfl, id⟩

end frame

/-! ## The count -/

theorem wrap32_of_small {n : ℤ} (low : -5 ≤ n) (high : n ≤ 5) : wrap32 (n + 1) = n + 1 := by
  unfold wrap32
  omega

/-- The count `n` is `k` idle iterations away from where it was within reach of 5. -/
def Ahead (n k : ℤ) : GcPc → Prop
  | .loop | .sample | .trylock | .inGc | .unlock | .count => k ≤ n + 5 ∧ n ≤ 5
  | .wait => k ≤ n + 4 ∧ n ≤ 4
  | .flushLock | .exited => True
  | .absent | .start | .inFlush | .flushUnlock => False

/-- A write that waits to be written back while the GC thread counts. -/
structure Paced (s : Sys) (w : Written) : Prop where
  set : 0 < w.idleIterations ∨ w.iteration = .idle → s.gcDo
  few : w.idleIterations < 10
  ahead : Ahead s.reqEmptyTimes w.idleIterations s.gc

/-- What holds of every write of a run. -/
structure WrittenInv (s : Sys) (w : Written) : Prop where
  pending : w.completed = false → w.sampled = false
  unsampled : w.sampled = false → w.idleIterations = 0 ∧ w.iteration ≠ .idle
  paced : w.Waiting → w.sampled → Paced s w

section steps

variable {s t : Sys} {a : Action} {w : Written}

theorem writtenInv_start (s : Sys) (i : ℕ) : WrittenInv s (.start i) where
  pending := fun _ => rfl
  unsampled := fun _ => ⟨rfl, nofun⟩
  paced := nofun

theorem Paced.frame (paced : Paced s w) (later : s.GcLater) (h : sysStep s a = some t)
    (other : a ≠ .gc) (quiet : ∀ i r, a ≠ .rq i (.queue r)) : Paced t w := by
  have running : s.gc ≠ .absent := by
    intro absent
    have ahead := paced.ahead
    rw [absent] at ahead
    exact ahead
  obtain ⟨gc, count, gcDo⟩ := sysStep_frame_gc later h running other quiet
  refine ⟨fun idle => gcDo (paced.set idle), paced.few, ?_⟩
  rw [gc, count]
  exact paced.ahead

/-- A look at `rk_ftl_gc_do`: either the count stays in reach, or it starts again while no iteration
since the write was idle. -/
theorem paced_of_sample (h : gcStep s = some t) (sample : s.gc = .sample)
    (few : w.idleIterations < 10) (busy : ¬ s.gcDo → w.idleIterations = 0)
    (reach : s.gcDo → Ahead s.reqEmptyTimes w.idleIterations .sample) :
    Paced t (w.afterGc s) := by
  simp only [gcStep, sample] at h
  simp only [Written.afterGc, sample]
  split_ifs at h with gcDo
  · cases h
    exact ⟨fun _ => gcDo, few, reach gcDo⟩
  · cases h
    have none := busy gcDo
    refine ⟨by simp [none, gcDo], few, ?_⟩
    simp [Ahead, none]

/-- The count goes up: it comes to 5 or 6, and the thread turns to the write-back, or stays below.
-/
theorem Paced.count (paced : Paced s w) (h : gcStep s = some t) (hpc : s.gc = .count) :
    Paced t w := by
  obtain ⟨set, few, ahead⟩ := paced
  simp only [gcStep, hpc, Option.some.injEq] at h
  subst h
  rw [hpc] at ahead
  obtain ⟨low, high⟩ := ahead
  refine ⟨set, few, ?_⟩
  dsimp only
  rw [wrap32_of_small (by omega) high]
  split_ifs with flush
  · trivial
  · show (w.idleIterations : ℤ) ≤ s.reqEmptyTimes + 1 + 4 ∧ s.reqEmptyTimes + 1 ≤ 4
    omega

/-- An iteration ends. -/
theorem Paced.wait (paced : Paced s w) (h : gcStep s = some t) (hpc : s.gc = .wait) :
    Paced t (w.afterGc s) := by
  obtain ⟨set, few, ahead⟩ := paced
  simp only [gcStep, hpc, Option.some.injEq] at h
  subst h
  simp only [Written.afterGc, hpc]
  rw [hpc] at ahead
  obtain ⟨low, high⟩ := ahead
  have one : (if w.iteration = .idle then 1 else 0) ≤ 1 := by split_ifs <;> decide
  refine ⟨fun idle => ?_, ?_, ?_⟩
  · by_cases counted : w.iteration = .idle
    · exact set (.inr counted)
    · exact set (.inl (by simpa [counted] using idle))
  · dsimp only
    omega
  · show ((w.idleIterations + if w.iteration = .idle then 1 else 0 : ℕ) : ℤ) ≤
        s.reqEmptyTimes + 5 ∧ s.reqEmptyTimes ≤ 5
    omega

/-- A step of the GC thread that does not write back. -/
theorem Paced.gcStep (paced : Paced s w) (h : gcStep s = some t) (noFlush : s.gc ≠ .flushLock) :
    Paced t (w.afterGc s) := by
  have ahead := paced.ahead
  cases hpc : s.gc with
  | absent | start | inFlush | flushUnlock =>
    rw [hpc] at ahead
    exact ahead.elim
  | flushLock => exact absurd hpc noFlush
  | exited =>
    simp only [Driver.gcStep, hpc] at h
    cases h
  | loop =>
    simp only [Driver.gcStep, hpc, Option.some.injEq] at h
    subst h
    simp only [Written.afterGc, hpc]
    refine ⟨fun idle => paced.set (idle.imp_right (by simp)), paced.few, ?_⟩
    rw [hpc] at ahead
    dsimp only
    split_ifs
    · trivial
    · exact ahead
  | sample =>
    rw [hpc] at ahead
    apply paced_of_sample h hpc paced.few
    · -- the disk is busy: so it has been since the write, and no iteration was idle
      intro busy
      by_contra some
      exact busy (paced.set (.inl (Nat.pos_of_ne_zero some)))
    · exact fun _ => ahead
  | trylock =>
    simp only [Driver.gcStep, hpc] at h
    simp only [Written.afterGc, hpc]
    rw [hpc] at ahead
    split_ifs at h
    all_goals
      cases h
      exact ⟨paced.set, paced.few, ahead⟩
  | inGc | unlock =>
    simp only [Driver.gcStep, hpc, Option.some.injEq] at h
    subst h
    simp only [Written.afterGc, hpc]
    rw [hpc] at ahead
    exact ⟨paced.set, paced.few, ahead⟩
  | count =>
    simp only [Written.afterGc, hpc]
    exact paced.count h hpc
  | wait => exact paced.wait h hpc

/-- A step that neither belongs to the GC thread nor queues a request. -/
theorem WrittenInv.keep (inv : WrittenInv s w) (later : s.GcLater) (h : sysStep s a = some t)
    (other : a ≠ .gc) (quiet : ∀ i r, a ≠ .rq i (.queue r)) {completed flushed : Bool}
    (stays : w.completed → completed) (stays' : w.flushed → flushed) :
    WrittenInv t { w with completed := completed, flushed := flushed } where
  pending := by
    intro off
    apply inv.pending
    by_contra on
    rw [Bool.not_eq_false] at on
    exact absurd (stays on) (by simpa using off)
  unsampled := inv.unsampled
  paced := by
    rintro ⟨-, idle, open'⟩ sampled
    have waiting : w.Waiting := by
      refine ⟨?_, idle, fun done => open' (stays' done)⟩
      by_contra off
      rw [Bool.not_eq_true] at off
      exact absurd sampled (by simp [inv.pending off])
    obtain ⟨set, few, ahead⟩ := (inv.paced waiting sampled).frame later h other quiet
    exact ⟨set, few, ahead⟩

/-- Nothing is asked of a write that does not wait. -/
theorem WrittenInv.settled (inv : WrittenInv s w) (t : Sys) {queued : Bool} (flushed : Bool)
    (off : ¬ w.completed ∨ queued) :
    WrittenInv t { w with queued := queued, flushed := flushed } where
  pending := inv.pending
  unsampled := inv.unsampled
  paced := fun ⟨completed, idle, _⟩ => absurd off (by simp_all)

theorem Written.afterGc_flags (s : Sys) (w : Written) :
    (w.afterGc s).completed = w.completed ∧ (w.afterGc s).queued = w.queued := by
  unfold afterGc
  split <;> exact ⟨rfl, rfl⟩

theorem WrittenInv.unsampled_afterGc (inv : WrittenInv s w)
    (unsampled : (w.afterGc s).sampled = false) :
    w.sampled = false ∧ (w.afterGc s).idleIterations = 0 ∧ (w.afterGc s).iteration ≠ .idle := by
  unfold Written.afterGc at unsampled ⊢
  cases hpc : s.gc with
  | sample =>
    simp only [hpc] at unsampled
    cases unsampled
  | loop =>
    simp only [hpc] at unsampled ⊢
    exact ⟨unsampled, (inv.unsampled unsampled).1, nofun⟩
  | wait =>
    simp only [hpc] at unsampled ⊢
    obtain ⟨none, busy⟩ := inv.unsampled unsampled
    exact ⟨unsampled, by simp [none, busy], nofun⟩
  | _ =>
    simp only [hpc] at unsampled ⊢
    exact ⟨unsampled, inv.unsampled unsampled⟩

theorem sampled_afterGc (sampled : (w.afterGc s).sampled) : w.sampled ∨ s.gc = .sample := by
  unfold Written.afterGc at sampled
  cases hpc : s.gc with
  | sample => exact .inr rfl
  | _ =>
    simp only [hpc] at sampled
    exact .inl sampled

/-- A step of the GC thread. -/
theorem WrittenInv.gc (inv : WrittenInv s w) (h : gcStep s = some t) (completed : w.completed)
    (reach : s.gc = .sample → s.gcDo → w.Waiting → ¬ w.sampled →
      -5 ≤ s.reqEmptyTimes ∧ s.reqEmptyTimes ≤ 5) :
    WrittenInv t { w.afterGc s with flushed := w.flushed || writesBack s .gc } where
  pending := by
    intro off
    have on := (Written.afterGc_flags s w).1.trans completed
    exact absurd on (by simpa using off)
  unsampled := fun unsampled => (inv.unsampled_afterGc unsampled).2
  paced := by
    rintro ⟨-, idle, open'⟩ sampled
    obtain ⟨unflushed, noFlush⟩ : w.flushed = false ∧ s.gc ≠ .flushLock := by
      simpa [writesBack] using open'
    have waiting : w.Waiting :=
      ⟨completed, (Written.afterGc_flags s w).2 ▸ idle, by simp [unflushed]⟩
    suffices paced : Paced t (w.afterGc s) from ⟨paced.set, paced.few, paced.ahead⟩
    by_cases before : w.sampled
    · exact (inv.paced waiting before).gcStep h noFlush
    · have sample : s.gc = .sample := (sampled_afterGc sampled).resolve_left before
      have fresh := (inv.unsampled (by simpa using before)).1
      apply paced_of_sample h sample (by omega) fun _ => fresh
      intro gcDo
      obtain ⟨low, high⟩ := reach sample gcDo waiting before
      rw [fresh]
      exact ⟨by push_cast; omega, high⟩

/-- The step lemma. -/
theorem WrittenInv.next (inv : WrittenInv s w) (later : s.GcLater) (h : sysStep s a = some t)
    (reach : a = .gc → s.gc = .sample → s.gcDo → w.Waiting → ¬ w.sampled →
      -5 ≤ s.reqEmptyTimes ∧ s.reqEmptyTimes ≤ 5) : WrittenInv t (w.next s a) := by
  have kept (other : a ≠ .gc) (quiet : ∀ i r, a ≠ .rq i (.queue r)) (completed : Bool)
      (stays : w.completed → completed) :
      WrittenInv t { w with completed := completed, flushed := w.flushed || writesBack s a } :=
    inv.keep later h other quiet stays (by simp +contextual)
  cases a with
  | gc =>
    by_cases completed : w.completed
    · simpa [Written.next, Written.follow, completed] using inv.gc h completed (reach rfl)
    · simpa [Written.next, Written.follow, completed] using inv.settled t _ (.inl completed)
  | rq i a =>
    cases a with
    | queue r =>
      by_cases completed : w.completed
      · simpa [Written.next, Written.follow, completed] using inv.settled t _ (.inr rfl)
      · simpa [Written.next, Written.follow, completed] using inv.settled t _ (.inl completed)
    | go enters =>
      have kept := kept nofun nofun
      unfold Written.next Written.follow
      cases hpc : s.rq i with
      | complete r =>
        by_cases own : w.caller = i
        · simpa [hpc, own] using kept true fun _ => rfl
        · simpa [hpc, own] using kept w.completed id
      | _ => simpa [hpc] using kept w.completed id
  | _ => exact kept nofun nofun w.completed id

end steps

/-! ## Runs -/

theorem eq_start_of_mem_written {s : Sys} {a : Action} {w : Written} (h : w ∈ written s a) :
    ∃ i, w = .start i := by
  unfold written at h
  split at h
  · split at h
    · split_ifs at h
      · exact ⟨_, List.mem_singleton.1 h⟩
      · cases h
    · cases h
  · cases h

structure WatchInv (u : Sys × List Written) : Prop where
  later : u.1.GcLater
  each : ∀ w ∈ u.2, WrittenInv u.1 w

theorem WatchInv.step {u v : Sys × List Written} {a : Action} (inReach : InReach u a)
    (inv : WatchInv u) (h : watchStep u a = some v) : WatchInv v := by
  obtain ⟨s, writes⟩ := u
  obtain ⟨hs, hw⟩ := observe_eq_some.1 h
  refine ⟨inv.later.step hs, ?_⟩
  intro w mem
  rw [hw, noteWrites, List.mem_append, List.mem_map] at mem
  rcases mem with ⟨w, mem, rfl⟩ | new
  · apply (inv.each w mem).next inv.later hs
    rintro rfl sample gcDo
    exact inReach sample gcDo w mem
  · obtain ⟨i, rfl⟩ := eq_start_of_mem_written new
    exact writtenInv_start _ i

theorem WrittenInv.flushed {s : Sys} {w : Written} (inv : WrittenInv s w) (completed : w.completed)
    (idle : ¬ w.queued) (ten : 10 ≤ w.idleIterations) : w.flushed := by
  by_contra unflushed
  have sampled : w.sampled := by
    by_contra unsampled
    have none := (inv.unsampled (by simpa using unsampled)).1
    omega
  have few := (inv.paced ⟨completed, idle, unflushed⟩ sampled).few
  omega

/-- A write of eight sectors. -/
def pageWrite : Request := { pageRead with op := .write, filled := by decide }

/-- The module is loaded, the disk is added and the GC thread is created. -/
def gcCreated : List Action := .module :: .prov ⟨1, true⟩ :: .replicate 10 (.prov ⟨0, true⟩)

/-- `pageWrite` from its queueing to the return of `rk_nand_queue_rq`. -/
def writePage : List Action := .rq 0 (.queue ⟨0, pageWrite⟩) :: .replicate 11 (.rq 0 (.go true))

/-- In every run in which the GC thread finds its count in reach after each write, no write is left
in the cache by ten idle iterations. -/
theorem noneLeft_of_inReach (env : InitEnv) (acts : List Action) (s : Sys)
    (reached : run sysStep (Sys.start (registered env)) acts = some s)
    (inReach : Along watchStep InReach (Sys.start (registered env), []) acts) :
    ∃ writes, run watchStep (Sys.start (registered env), []) acts = some (s, writes) ∧
      NoneLeft writes := by
  obtain ⟨writes, watched⟩ :
      ∃ writes, run watchStep (Sys.start (registered env), []) acts = some (s, writes) :=
    run_observe reached []
  have start : WatchInv (Sys.start (registered env), []) := ⟨fun _ => rfl, by simp⟩
  have inv : WatchInv (s, writes) :=
    run_invariant_along (fun _ _ _ inReach inv h => inv.step inReach h) inReach watched start
  exact ⟨writes, watched, fun w mem => (inv.each w mem).flushed⟩

/-- A write right after the GC thread has come up is written back. -/
theorem noneLeft_of_inReach_freshCount :
    (run watchStep (Sys.start (registered allWell), [])
        (gcCreated ++ .gc :: writePage ++ .replicate 76 .gc)).map
          (fun u => u.2.map Written.idleIterations) = some [10] ∧
      ∃ s writes, run watchStep (Sys.start (registered allWell), [])
          (gcCreated ++ .gc :: writePage ++ .replicate 76 .gc) = some (s, writes) ∧
        NoneLeft writes := by
  refine ⟨by decide +kernel, ?_⟩
  have enabled : (run sysStep (Sys.start (registered allWell))
      (gcCreated ++ .gc :: writePage ++ .replicate 76 .gc)).isSome := by decide +kernel
  obtain ⟨s, reached⟩ := Option.isSome_iff_exists.1 enabled
  exact ⟨s, noneLeft_of_inReach allWell _ s reached (by decide +kernel)⟩

/-- A write that comes and goes between two looks at `rk_ftl_gc_do`, after six idle iterations: ten
more pass and none of them writes back. -/
theorem quickWrite_left :
    (rknandDriverInit allWell .initial).1 = 0 ∧
      ∃ s writes, run watchStep (Sys.start (registered allWell), [])
          (gcCreated ++ .replicate 49 .gc ++ writePage ++ .replicate 70 .gc) = some (s, writes) ∧
        ¬ NoneLeft writes := by
  have left : (run watchStep (Sys.start (registered allWell), [])
      (gcCreated ++ .replicate 49 .gc ++ writePage ++ .replicate 70 .gc)).map
        (fun u => decide (NoneLeft u.2)) = some false := by decide +kernel
  obtain ⟨⟨s, writes⟩, reached, left⟩ := Option.map_eq_some_iff.1 left
  exact ⟨by decide, s, writes, reached, of_decide_eq_false left⟩

end RkNand.Driver
