import Mathlib.Tactic

/-!
# Ring buffers

A list kept in `N` cells, from the cell `front` on and around the end.
-/

namespace Ring

variable {α : Type*} {N front : ℕ} {cell : ℕ → α} {l : List α} {x : α}

/-- The cells from `front` on hold the list. -/
structure Holds (N : ℕ) (cell : ℕ → α) (front : ℕ) (l : List α) : Prop where
  length_le : l.length ≤ N
  cells : ∀ j y, l[j]? = some y → cell ((front + j) % N) = y

theorem holds_nil : Holds N cell front [] := ⟨Nat.zero_le _, by simp⟩

/-- The cell after the list is none of its own. -/
theorem cell_ne {j n : ℕ} (hj : j < n) (hn : n < N) : (front + j) % N ≠ (front + n) % N := by
  intro same
  have := (Nat.ModEq.add_left_cancel' front same : j ≡ n [MOD N])
  rw [Nat.ModEq, Nat.mod_eq_of_lt (hj.trans hn), Nat.mod_eq_of_lt hn] at this
  omega

/-- Writing the cell after the list appends to it. -/
theorem Holds.push (h : Holds N cell front l) (room : l.length < N) :
    Holds N (Function.update cell ((front + l.length) % N) x) front (l ++ [x]) where
  length_le := by simpa using room
  cells j y hy := by
    rcases Nat.lt_trichotomy j l.length with inside | rfl | beyond
    · rw [List.getElem?_append_left inside] at hy
      rw [Function.update_of_ne (cell_ne inside room), h.cells j y hy]
    · simpa using hy
    · rw [List.getElem?_eq_none (by simpa using beyond)] at hy
      cases hy

/-- The first cell holds the first item, and the others the rest. -/
theorem Holds.pop (h : Holds N cell front (x :: l)) (hf : front < N) :
    cell front = x ∧ Holds N cell ((front + 1) % N) l := by
  refine ⟨?_, ?_, fun j y hy => ?_⟩
  · simpa [Nat.mod_eq_of_lt hf] using h.cells 0 x rfl
  · exact (Nat.le_succ _).trans h.length_le
  · rw [← h.cells (j + 1) y (by simpa using hy), Nat.mod_add_mod, Nat.add_assoc, Nat.add_comm 1 j]

end Ring
