import Mathlib.Tactic

/-!
# Cutting text

Searching a list for a separator or for the first occurrence of a pattern, and what the search
finds in a list that was put together from known parts.
-/

namespace Text

variable {α β : Type*} [DecidableEq α]

/-- The parts before and after the first `c`. -/
def cutAt (c : α) : List α → Option (List α × List α)
  | [] => none
  | a :: s => if a = c then some ([], s) else (cutAt c s).map fun p => (a :: p.1, p.2)

/-- What follows the first occurrence of `pat`. -/
def afterFirst (pat : List α) : List α → Option (List α)
  | [] => if pat = [] then some [] else none
  | a :: s => if pat <+: a :: s then some ((a :: s).drop pat.length) else afterFirst pat s

theorem cutAt_append (c : α) (xs ys : List α) (absent : c ∉ xs) :
    cutAt c (xs ++ c :: ys) = some (xs, ys) := by
  induction xs with
  | nil => simp [cutAt]
  | cons x xs ih =>
    obtain ⟨other, rest⟩ := not_or.1 (List.mem_cons.not.1 absent)
    simp only [List.cons_append, cutAt, if_neg (Ne.symm other), ih rest, Option.map_some]

omit [DecidableEq α] in
/-- A pattern whose first element occurs nowhere else in it does not begin inside `xs` and run into
the copy of it that follows `xs`. -/
theorem prefix_of_prefix_append (a : α) (pat xs rest : List α) (once : a ∉ pat) (nonempty : xs ≠ [])
    (starts : a :: pat <+: xs ++ (a :: pat ++ rest)) : a :: pat <+: xs := by
  by_contra beyond
  have long : xs.length < (a :: pat).length := by
    by_contra short
    exact beyond (List.prefix_of_prefix_length_le starts (List.prefix_append _ _) (by omega))
  obtain ⟨tail, split⟩ := List.prefix_of_prefix_length_le (List.prefix_append _ _) starts long.le
  rw [← split, List.prefix_append_right_inj] at starts
  cases xs with
  | nil => exact nonempty rfl
  | cons x xs =>
    cases tail with
    | nil =>
      rw [← split] at long
      simp at long
    | cons b tail =>
      have same : b = a := by
        rw [split, List.cons_append, List.cons_prefix_cons] at starts
        exact starts.1
      rw [List.cons_append, List.cons.injEq] at split
      apply once
      rw [← split.2, same]
      simp

/-- The first occurrence is the one known to be there, if the pattern does not occur before it. -/
theorem afterFirst_append (a : α) (pat xs rest : List α) (once : a ∉ pat)
    (absent : ¬ a :: pat <:+: xs) :
    afterFirst (a :: pat) (xs ++ (a :: pat ++ rest)) = some rest := by
  induction xs with
  | nil =>
    rw [List.nil_append, List.cons_append, afterFirst, ← List.cons_append,
      if_pos (List.prefix_append _ _), List.drop_left]
  | cons x xs ih =>
    have later : ¬ a :: pat <+: x :: xs ++ (a :: pat ++ rest) := fun starts =>
      absent (prefix_of_prefix_append a pat (x :: xs) rest once (by simp) starts).isInfix
    rw [List.cons_append, afterFirst, ← List.cons_append, if_neg later]
    exact ih fun inside => absent (inside.trans (List.suffix_cons x xs).isInfix)

omit [DecidableEq α] in
/-- A pattern does not begin in a part that lacks its first element. -/
theorem infix_of_infix_append (a : α) (pat xs ys : List α) (absent : a ∉ xs)
    (inside : a :: pat <:+: xs ++ ys) : a :: pat <:+: ys := by
  induction xs with
  | nil => exact inside
  | cons x xs ih =>
    obtain ⟨other, rest⟩ := not_or.1 (List.mem_cons.not.1 absent)
    rw [List.cons_append, List.infix_cons_iff] at inside
    rcases inside with start | later
    · exact absurd (List.cons_prefix_cons.1 start).1 other
    · exact ih rest later

omit [DecidableEq α] in
/-- Reading back, one by one, what was written one by one. -/
theorem mapM_map_eq_some (write : β → α) (read : α → Option β) (xs : List β)
    (back : ∀ x ∈ xs, read (write x) = some x) : (xs.map write).mapM read = some xs := by
  induction xs with
  | nil => rfl
  | cons x xs ih =>
    rw [List.map_cons, List.mapM_cons, back x (by simp), ih fun y hy => back y (by simp [hy])]
    rfl

omit [DecidableEq α] in
theorem intercalate_concat (sep x : List α) (ls : List (List α)) :
    sep.intercalate (ls ++ [x]) = ls.flatMap (· ++ sep) ++ x := by
  induction ls with
  | nil => simp [List.intercalate]
  | cons l ls ih =>
    cases ls with
    | nil => simp [List.intercalate]
    | cons l' ls =>
      rw [List.cons_append, List.cons_append, List.intercalate_cons_cons, ← List.cons_append, ih]
      simp

omit [DecidableEq α] in
/-- What is in no part and not in the separator is not in the whole. -/
theorem notMem_intercalate (c : α) (sep : List α) (ls : List (List α)) (apart : c ∉ sep)
    (absent : ∀ l ∈ ls, c ∉ l) : c ∉ sep.intercalate ls := by
  induction ls with
  | nil => simp [List.intercalate]
  | cons l ls ih =>
    cases ls with
    | nil => simpa [List.intercalate] using absent
    | cons l' ls =>
      have first : c ∉ l := absent l (by simp)
      have rest := ih fun l member => absent l (by simp [member])
      rw [List.intercalate_cons_cons, List.mem_append, List.mem_append]
      tauto

end Text
