import Mathlib.Tactic

/-!
# Lock discipline

A lock that records its holder, over contexts that know from their own program counters whether they
hold it.  If every step takes the lock only when it is free and gives it back only when its own
context holds it, then at most one context holds the lock at any time.  If moreover nobody leaves
without giving it back, the lock is with exactly the context that believes to hold it (`Exact`).
-/

namespace Mutex

variable {C : Type*} {lock lock' : Option C} {holds holds' : C → Prop} {actor c c' : C}

/-- Whoever believes to hold the lock is its holder. -/
def Kept (lock : Option C) (holds : C → Prop) : Prop := ∀ c, holds c → lock = some c

/-- A step of one context: it leaves the lock alone, takes it or gives it back, and no other context
comes to hold it. -/
structure Step (lock lock' : Option C) (holds holds' : C → Prop) (actor : C) : Prop where
  effect : lock' = lock ∨ lock = none ∧ lock' = some actor ∨ holds actor ∧ lock' = none
  own : holds' actor → lock' = some actor ∨ holds actor ∧ lock' = lock
  others : ∀ c ≠ actor, holds' c → holds c

theorem Step.kept (step : Step lock lock' holds holds' actor) (kept : Kept lock holds) :
    Kept lock' holds' := by
  intro c hc
  by_cases own : c = actor
  · subst own
    rcases step.own hc with taken | ⟨held, same⟩
    · exact taken
    · rw [same]
      exact kept c held
  · have held := kept c (step.others c own hc)
    rcases step.effect with same | ⟨free, -⟩ | ⟨releases, -⟩
    · rw [same]
      exact held
    · rw [free] at held
      cases held
    · rw [kept actor releases, Option.some.injEq] at held
      exact absurd held.symm own

theorem Kept.unique (kept : Kept lock holds) (h : holds c) (h' : holds c') : c = c' :=
  Option.some.inj ((kept c h).symm.trans (kept c' h'))

/-- The lock is with the context that believes to hold it, and free if there is none. -/
def Exact (lock : Option C) (holds : C → Prop) : Prop := ∀ c, lock = some c ↔ holds c

section exact

variable (others : ∀ c ≠ actor, holds' c ↔ holds c)

include others

theorem Exact.leave (exact : Exact lock holds) (same : holds' actor ↔ holds actor) :
    Exact lock holds' := by
  intro c
  by_cases own : c = actor
  · subst own
    rw [same]
    exact exact c
  · rw [others c own]
    exact exact c

theorem Exact.acquire (exact : Exact none holds) (taken : holds' actor) :
    Exact (some actor) holds' := by
  intro c
  by_cases own : c = actor
  · subst own
    simp [taken]
  · rw [others c own, ← exact c]
    simp [Ne.symm own]

theorem Exact.release (exact : Exact lock holds) (held : holds actor) (given : ¬ holds' actor) :
    Exact none holds' := by
  intro c
  by_cases own : c = actor
  · subst own
    simp [given]
  · rw [others c own, ← exact c, (exact actor).2 held]
    simp [Ne.symm own]

end exact

end Mutex
