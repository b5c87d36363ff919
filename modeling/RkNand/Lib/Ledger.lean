import Mathlib.Tactic

/-!
# Ledgers of resources

A ledger lists, in order, which resources were taken and which were given back.  It is settled when
every resource that occurs in it was taken once and then given back once.  A resource is held while
the last entry about it says that it was taken.
-/

namespace Ledger

variable {R : Type*}

inductive Entry (R : Type*) where
  | taken (r : R)
  | given (r : R)
  deriving DecidableEq

def Entry.resource : Entry R → R
  | taken r | given r => r

variable [DecidableEq R]

/-- The entries about one resource. -/
def entriesOf (log : List (Entry R)) (r : R) : List (Entry R) := log.filter (·.resource = r)

/-- Taken once, then given back once. -/
def ReturnedOnce (log : List (Entry R)) (r : R) : Prop := entriesOf log r = [.taken r, .given r]

/-- Never taken, or taken and given back once. -/
def SettledFor (log : List (Entry R)) (r : R) : Prop := entriesOf log r = [] ∨ ReturnedOnce log r

def Settled (log : List (Entry R)) : Prop := ∀ r, SettledFor log r

instance (log : List (Entry R)) (r : R) : Decidable (SettledFor log r) :=
  inferInstanceAs (Decidable (_ = _ ∨ _ = _))

theorem SettledFor.given_mem {log : List (Entry R)} {r : R} (settled : SettledFor log r)
    (h : .taken r ∈ log) : .given r ∈ log := by
  have entry : Entry.taken r ∈ entriesOf log r := List.mem_filter.2 ⟨h, by simp [Entry.resource]⟩
  rcases settled with none | once
  · rw [none] at entry
    cases entry
  · have : Entry.given r ∈ entriesOf log r := by
      rw [once]
      simp
    exact List.mem_of_mem_filter this

/-- Taken, and not given back since. -/
def Held (log : List (Entry R)) (r : R) : Prop := (entriesOf log r).getLast? = some (.taken r)

theorem held_taken (log : List (Entry R)) (r : R) : Held (log ++ [.taken r]) r := by
  simp [Held, entriesOf, Entry.resource]

theorem not_held_given (log : List (Entry R)) (r : R) : ¬ Held (log ++ [.given r]) r := by
  simp [Held, entriesOf, Entry.resource]

theorem held_append {log tail : List (Entry R)} {r : R} (other : ∀ e ∈ tail, e.resource ≠ r) :
    Held (log ++ tail) r ↔ Held log r := by
  have none : entriesOf tail r = [] := by simpa [entriesOf] using other
  rw [Held, Held, entriesOf, List.filter_append]
  rw [entriesOf] at none
  rw [none, List.append_nil, entriesOf]

end Ledger
