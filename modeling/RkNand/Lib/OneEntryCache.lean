import Mathlib.Logic.Basic
import Mathlib.Data.List.Basic

/-!
# A one-entry cache over a store that can fail

A cache holds one buffer and the key it was filled for.  An access to that key is answered from the
buffer; any other access refills the buffer from the store, and only then changes the key.  A refill
that fails leaves whatever it wrote (`junk`) in the buffer and the old key beside it.

`StaleFree` says when this is harmless: no access hits the key while the last refill to touch the
buffer is one that failed.  It is exactly the condition under which every answer is the one the
store itself would give, whatever the failing refills leave behind (`transparent_iff_staleFree`).
-/

namespace OneEntryCache

/-- The buffer and the key it was filled for. -/
structure Cache (K V : Type*) where
  tag : Option K
  buf : V

/-- One access: the key, what part of the buffer is asked for, and whether a refill, if one is
needed, succeeds. -/
structure Access (K O : Type*) where
  key : K
  view : O
  served : Bool

variable {K V O R : Type*} [DecidableEq K] (store : K → V) (look : O → V → R)

/-- Answer one access; `junk` is what a failing refill leaves in the buffer. -/
def Cache.access (c : Cache K V) (a : Access K O) (junk : V) : Option R × Cache K V :=
  if c.tag = some a.key then (some (look a.view c.buf), c)
  else if a.served then (some (look a.view (store a.key)), ⟨some a.key, store a.key⟩)
  else (none, { c with buf := junk })

/-- Every access that is answered gets what the store holds. -/
def Transparent : Cache K V → List (Access K O × V) → Prop
  | _, [] => True
  | c, (a, junk) :: rest =>
      (∀ r, (c.access store look a junk).1 = some r → r = look a.view (store a.key)) ∧
        Transparent (c.access store look a junk).2 rest

/-- No access hits `tag` while the buffer is `dirty`, that is, last written by a failed refill. -/
def StaleFree : Option K → Bool → List (Access K O) → Prop
  | _, _, [] => True
  | tag, dirty, a :: rest =>
      if tag = some a.key then dirty = false ∧ StaleFree tag dirty rest
      else if a.served then StaleFree (some a.key) false rest
      else StaleFree tag true rest

/-- The buffer holds what the store has for the key, unless a failed refill wrote it last. -/
def Holds (c : Cache K V) (dirty : Bool) : Prop :=
  dirty = false → ∀ k, c.tag = some k → c.buf = store k

variable {store look}

theorem Cache.access_hit {c : Cache K V} {a : Access K O} (hit : c.tag = some a.key) (junk : V) :
    c.access store look a junk = (some (look a.view c.buf), c) := if_pos hit

theorem Cache.access_served {c : Cache K V} {a : Access K O} (miss : c.tag ≠ some a.key)
    (served : a.served = true) (junk : V) :
    c.access store look a junk = (some (look a.view (store a.key)), ⟨some a.key, store a.key⟩) := by
  rw [Cache.access, if_neg miss, if_pos served]

theorem Cache.access_failed {c : Cache K V} {a : Access K O} (miss : c.tag ≠ some a.key)
    (failed : ¬ a.served = true) (junk : V) :
    c.access store look a junk = (none, { c with buf := junk }) := by
  rw [Cache.access, if_neg miss, if_neg failed]

theorem transparent_of_staleFree {c : Cache K V} {dirty : Bool} (holds : Holds store c dirty)
    (calls : List (Access K O × V)) (free : StaleFree c.tag dirty (calls.map Prod.fst)) :
    Transparent store look c calls := by
  induction calls generalizing c dirty with
  | nil => trivial
  | cons call rest ih =>
    obtain ⟨a, junk⟩ := call
    simp only [List.map_cons, StaleFree] at free
    simp only [Transparent, Cache.access]
    split_ifs at free ⊢ with hit served
    · refine ⟨fun r hr => ?_, ih holds free.2⟩
      simp only [Option.some.injEq] at hr
      rw [← hr, holds free.1 a.key hit]
    · have filled : Holds store ⟨some a.key, store a.key⟩ false := by
        rintro - k hk
        simp only [Option.some.injEq] at hk
        rw [hk]
      exact ⟨fun r hr => by simpa using hr.symm, ih filled free⟩
    · have spoilt : Holds store { c with buf := junk } true := by simp [Holds]
      exact ⟨by simp, ih spoilt free⟩

/-- An adversary that leaves a visibly wrong buffer after every failed refill is found out by the
first stale hit. -/
theorem staleFree_of_transparent (hostile : ∀ v : V, ∃ w, ∀ o : O, look o w ≠ look o v)
    {c : Cache K V} {dirty : Bool}
    (spoilt : dirty = true → ∀ k, c.tag = some k → ∀ o : O, look o c.buf ≠ look o (store k))
    (accs : List (Access K O))
    (always : ∀ calls : List (Access K O × V), calls.map Prod.fst = accs →
      Transparent store look c calls) : StaleFree c.tag dirty accs := by
  induction accs generalizing c dirty with
  | nil => trivial
  | cons a rest ih =>
    have step (junk : V) (calls : List (Access K O × V)) (h : calls.map Prod.fst = rest) :=
      always ((a, junk) :: calls) (by simp [h])
    simp only [Transparent, Cache.access] at step
    simp only [StaleFree]
    split_ifs at step ⊢ with hit served
    · refine ⟨?_, ih spoilt fun calls h => (step c.buf calls h).2⟩
      by_contra hd
      have answer :=
        (step c.buf (rest.map fun b => (b, c.buf)) (by simp [Function.comp_def])).1 _ rfl
      exact spoilt (by simpa using hd) a.key hit a.view answer
    · exact ih (c := ⟨some a.key, store a.key⟩) (by simp) fun calls h => (step c.buf calls h).2
    · obtain ⟨w, hw⟩ : ∃ w, ∀ k, c.tag = some k → ∀ o : O, look o w ≠ look o (store k) := by
        cases htag : c.tag with
        | none => exact ⟨c.buf, by simp⟩
        | some k =>
          obtain ⟨w, hw⟩ := hostile (store k)
          exact ⟨w, fun k' hk' => by simp only [Option.some.injEq] at hk'; exact hk' ▸ hw⟩
      exact ih (c := { c with buf := w }) (fun _ => hw) fun calls h => (step w calls h).2

variable (store look) in
/-- From an empty cache, the answers are the store's for every behaviour of the failing refills
exactly when no access is a stale hit. -/
theorem transparent_iff_staleFree (hostile : ∀ v : V, ∃ w, ∀ o : O, look o w ≠ look o v) (buf : V)
    (accs : List (Access K O)) :
    (∀ calls : List (Access K O × V), calls.map Prod.fst = accs →
      Transparent store look ⟨none, buf⟩ calls) ↔ StaleFree none false accs := by
  constructor
  · exact staleFree_of_transparent hostile (by simp) accs
  · rintro free calls rfl
    exact transparent_of_staleFree (by simp [Holds]) calls free

/-- If no refill fails, no hit is stale. -/
theorem staleFree_of_served (tag : Option K) (accs : List (Access K O))
    (served : ∀ a ∈ accs, a.served = true) : StaleFree tag false accs := by
  induction accs generalizing tag with
  | nil => trivial
  | cons a rest ih =>
    have hrest : ∀ b ∈ rest, b.served = true := fun b hb => served b (by simp [hb])
    simp only [StaleFree, served a (by simp), if_true]
    split_ifs
    · exact ⟨trivial, ih tag hrest⟩
    · exact ih _ hrest

end OneEntryCache
