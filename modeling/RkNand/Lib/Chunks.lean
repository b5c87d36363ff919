import Mathlib.Tactic

/-!
# Files made of equal pieces

A concatenation of pieces of one length `n`: its length, and what stands at an offset within the
`i`-th piece.
-/

namespace Chunks

variable {α : Type*} {f : ℕ → List α} {n k : ℕ}

theorem length_flatMap_range (equal : ∀ i, (f i).length = n) (k : ℕ) :
    ((List.range k).flatMap f).length = k * n := by
  simp [List.length_flatMap, equal]

/-- A cut that lies within the `i`-th piece is a cut of that piece. -/
theorem take_drop_flatMap_range (equal : ∀ i, (f i).length = n) {i off len : ℕ} (hi : i < k)
    (within : off + len ≤ n) :
    (((List.range k).flatMap f).drop (i * n + off)).take len = ((f i).drop off).take len := by
  obtain ⟨j, rfl⟩ : ∃ j, k = i + 1 + j := ⟨k - i - 1, by omega⟩
  have pieces : (List.range (i + 1 + j)).flatMap f =
      (List.range i).flatMap f ++ (f i ++ (List.range j).flatMap fun x => f (i + 1 + x)) := by
    rw [List.range_add, List.range_succ]
    simp [List.flatMap_append, List.flatMap_map]
  rw [pieces, ← length_flatMap_range equal i, List.drop_length_add_append,
    List.drop_append_of_le_length (by rw [equal]; omega),
    List.take_append_of_le_length (by rw [List.length_drop, equal]; omega)]

end Chunks
