import Mathlib.Tactic
import Mathlib.Data.List.Perm.Basic

/-!
# Newest wins

A scan keeps one candidate and replaces it by every later item that `beats` it.  Nothing is asked of
`beats`, which for a wrapping counter is not an order: what is left is the item stored last
(`winner_eq_some_iff_lastStored`).  Where it agrees with an order on the items at hand, that is the
greatest item, whatever the order of the scan (`winner_eq_some_iff`); `wrapped_newer_iff` says when
a comparison modulo `2 * M` agrees with the order of the numbers that were counted.
-/

namespace Newest

variable {α : Type*} (beats : α → α → Bool)

/-- Look at one more item. -/
def keep : Option α → α → Option α
  | none, a => some a
  | some b, a => if beats a b then some a else some b

/-- The item that is left after a scan. -/
def winner (l : List α) : Option α := l.foldl (keep beats) none

variable {beats}

theorem foldl_keep_mem (l : List α) (b : α) :
    ∃ a ∈ b :: l, l.foldl (keep beats) (some b) = some a := by
  induction l generalizing b with
  | nil => exact ⟨b, by simp, rfl⟩
  | cons x l ih =>
    simp only [List.foldl_cons, keep]
    split_ifs
    · obtain ⟨a, ha, fold⟩ := ih x
      exact ⟨a, List.mem_cons_of_mem _ ha, fold⟩
    · obtain ⟨a, ha, fold⟩ := ih b
      exact ⟨a, by simp only [List.mem_cons] at ha ⊢; tauto, fold⟩

/-- The candidate at the end is the greatest of the items, if `beats` follows a rank on them. -/
theorem foldl_keep_rank {rank : α → ℤ} {l : List α} {b : α}
    (agree : ∀ x ∈ b :: l, ∀ y ∈ b :: l, beats x y = true ↔ rank y ≤ rank x) :
    ∃ a ∈ b :: l, l.foldl (keep beats) (some b) = some a ∧ ∀ x ∈ b :: l, rank x ≤ rank a := by
  induction l generalizing b with
  | nil => exact ⟨b, by simp, rfl, by simp⟩
  | cons x l ih =>
    simp only [List.foldl_cons, keep]
    have first := agree x (by simp) b (by simp)
    split_ifs with newer
    · obtain ⟨a, ha, fold, top⟩ := ih (b := x) fun y hy z hz =>
        agree y (List.mem_cons_of_mem _ hy) z (List.mem_cons_of_mem _ hz)
      refine ⟨a, List.mem_cons_of_mem _ ha, fold, fun y hy => ?_⟩
      rcases List.mem_cons.1 hy with rfl | hy
      · exact (first.1 newer).trans (top x (by simp))
      · exact top y hy
    · have sub : ∀ y ∈ b :: l, y ∈ b :: x :: l := by simp; tauto
      obtain ⟨a, ha, fold, top⟩ := ih (b := b) fun y hy z hz => agree y (sub y hy) z (sub z hz)
      refine ⟨a, sub a ha, fold, fun y hy => ?_⟩
      by_cases same : y = x
      · rw [same]
        have : rank x < rank b := not_le.1 (mt first.2 newer)
        exact this.le.trans (top b (by simp))
      · exact top y (by simp only [List.mem_cons] at hy ⊢; tauto)

/-- The winner of a scan is the greatest item, if `beats` follows a rank that tells the items
apart. -/
theorem winner_eq_some_iff {rank : α → ℤ} {l : List α}
    (agree : ∀ x ∈ l, ∀ y ∈ l, beats x y = true ↔ rank y ≤ rank x)
    (apart : ∀ x ∈ l, ∀ y ∈ l, rank x = rank y → x = y) {a : α} :
    winner beats l = some a ↔ a ∈ l ∧ ∀ x ∈ l, rank x ≤ rank a := by
  cases l with
  | nil => simp [winner]
  | cons b l =>
    obtain ⟨c, hc, fold, top⟩ := foldl_keep_rank agree
    have hwin : winner beats (b :: l) = some c := fold
    rw [hwin, Option.some.injEq]
    constructor
    · rintro rfl
      exact ⟨hc, top⟩
    · rintro ⟨ha, greatest⟩
      exact apart c hc a ha (le_antisymm (greatest c hc) (top a ha))

/-- The order of the scan does not matter then. -/
theorem winner_perm {rank : α → ℤ} {l l' : List α}
    (agree : ∀ x ∈ l, ∀ y ∈ l, beats x y = true ↔ rank y ≤ rank x)
    (apart : ∀ x ∈ l, ∀ y ∈ l, rank x = rank y → x = y) (perm : l'.Perm l) :
    winner beats l' = winner beats l := by
  have mem (x : α) : x ∈ l' ↔ x ∈ l := perm.mem_iff
  have agree' : ∀ x ∈ l', ∀ y ∈ l', beats x y = true ↔ rank y ≤ rank x := by
    simpa only [mem] using agree
  apply Option.ext
  intro a
  rw [winner_eq_some_iff agree apart, winner_eq_some_iff agree' (by simpa only [mem] using apart)]
  simp only [mem]

theorem winner_cons (b : α) (l : List α) : ∃ a ∈ b :: l, winner beats (b :: l) = some a :=
  foldl_keep_mem l b

theorem winner_eq_none_iff {l : List α} : winner beats l = none ↔ l = [] := by
  cases l with
  | nil => simp [winner]
  | cons b l =>
    obtain ⟨a, -, ha⟩ := @winner_cons _ beats b l
    simp [ha]

theorem mem_of_winner {l : List α} {a : α} (h : winner beats l = some a) : a ∈ l := by
  cases l with
  | nil => simp [winner] at h
  | cons b l =>
    obtain ⟨c, hc, hw⟩ := @winner_cons _ beats b l
    rw [h, Option.some.injEq] at hw
    exact hw ▸ hc

/-! ## The item stored last -/

theorem winner_concat (l : List α) (x : α) :
    winner beats (l ++ [x]) = keep beats (winner beats l) x := by
  simp [winner]

variable (beats) in
/-- The item is the last that a scan stores: it beats the candidate it meets, and nothing after it
beats it. -/
structure LastStored (l seen : List α) (a : α) (rest : List α) : Prop where
  split : l = seen ++ a :: rest
  displaces : ∀ b, winner beats seen = some b → beats a b
  last : ∀ x ∈ rest, ¬ beats x a

theorem LastStored.winner_eq {l seen rest : List α} {a : α}
    (stored : LastStored beats l seen a rest) : winner beats l = some a := by
  obtain ⟨rfl, displaces, last⟩ := stored
  induction rest using List.reverseRecOn with
  | nil =>
    rw [winner_concat]
    cases before : winner beats seen with
    | none => rfl
    | some b => exact if_pos (displaces b before)
  | append_singleton rest x ih =>
    have earlier := ih fun y member => last y (List.mem_append_left _ member)
    rw [← List.cons_append, ← List.append_assoc, winner_concat, earlier]
    exact if_neg (last x (by simp))

theorem LastStored.concat {l seen rest : List α} {a x : α}
    (stored : LastStored beats l seen a rest) (older : ¬ beats x a) :
    LastStored beats (l ++ [x]) seen a (rest ++ [x]) where
  split := by simp [stored.split]
  displaces := stored.displaces
  last y member := by
    rcases List.mem_append.1 member with earlier | new
    · exact stored.last y earlier
    · rwa [List.mem_singleton.1 new]

/-- A scan leaves the item it stored last. -/
theorem winner_eq_some_iff_lastStored {l : List α} {a : α} :
    winner beats l = some a ↔ ∃ seen rest, LastStored beats l seen a rest := by
  constructor
  · induction l using List.reverseRecOn with
    | nil => exact fun none => by cases none
    | append_singleton l x ih =>
      rw [winner_concat]
      intro final
      cases before : winner beats l with
      | none =>
        obtain rfl : x = a := by simpa [before, keep] using final
        exact ⟨l, [], rfl, by simp [before], by simp⟩
      | some b =>
        simp only [before, keep] at final
        split_ifs at final with newer
        · obtain rfl : x = a := Option.some.inj final
          refine ⟨l, [], rfl, fun c candidate => ?_, by simp⟩
          rwa [← Option.some.inj (before.symm.trans candidate)]
        · obtain rfl : b = a := Option.some.inj final
          obtain ⟨seen, rest, stored⟩ := ih before
          exact ⟨seen, rest ++ [x], stored.concat newer⟩
  · rintro ⟨seen, rest, stored⟩
    exact stored.winner_eq

/-- Renaming the items renames the winner. -/
theorem winner_map {β : Type*} {f : β → α} {beats' : β → β → Bool}
    (same : ∀ x y, beats (f x) (f y) = beats' x y) (l : List β) :
    winner beats (l.map f) = (winner beats' l).map f := by
  have fold : ∀ (l : List β) (c : Option β),
      (l.map f).foldl (keep beats) (c.map f) = (l.foldl (keep beats') c).map f := by
    intro l
    induction l with
    | nil => exact fun _ => rfl
    | cons x l ih =>
      intro c
      rw [List.map_cons, List.foldl_cons, List.foldl_cons, ← ih]
      congr 1
      cases c with
      | none => rfl
      | some b =>
        simp only [Option.map_some, keep, same]
        split_ifs <;> rfl
  exact fold l none

/-- Going through the items a second time under other names `f` that compare the same leaves the
renamed candidate: at the latest, the old one is replaced by its own second appearance. -/
theorem foldl_keep_map {f : α → α} (self : ∀ x, beats x x = true)
    (left : ∀ x y, beats (f x) y = beats x y) (right : ∀ x y, beats x (f y) = beats x y)
    {l : List α} {s t : α} (linked : s = f t ∨ s = t ∧ t ∈ l) :
    (l.map f).foldl (keep beats) (some s) = (l.foldl (keep beats) (some t)).map f := by
  induction l generalizing s t with
  | nil =>
    obtain rfl : s = f t := by simpa using linked
    rfl
  | cons x l ih =>
    have compare : beats (f x) s = beats x t := by
      rcases linked with rfl | ⟨rfl, -⟩
      · rw [left, right]
      · rw [left]
    simp only [List.map_cons, List.foldl_cons, keep, compare]
    split_ifs with newer
    · exact ih (.inl rfl)
    · refine ih (linked.imp_right fun ⟨same, ht⟩ => ⟨same, ?_⟩)
      rcases List.mem_cons.1 ht with rfl | ht
      · exact absurd (self t) newer
      · exact ht

theorem winner_append_map {f : α → α} (self : ∀ x, beats x x = true)
    (left : ∀ x y, beats (f x) y = beats x y) (right : ∀ x y, beats x (f y) = beats x y)
    (l : List α) : winner beats (l ++ l.map f) = (winner beats (l ++ l)).map f := by
  simp only [winner, List.foldl_append]
  cases hw : l.foldl (keep beats) none with
  | none =>
    obtain rfl : l = [] := winner_eq_none_iff.1 hw
    rfl
  | some w => exact foldl_keep_map self left right (.inr ⟨rfl, mem_of_winner hw⟩)

/-! ## Wrapping counters -/

/-- Two numbers less than `M` apart compare modulo `2 * M` as they do themselves. -/
theorem wrapped_newer_iff {M x y : ℤ} (near : |x - y| < M) : (x - y) % (2 * M) ≤ M ↔ y ≤ x := by
  obtain ⟨lo, hi⟩ := abs_lt.1 near
  constructor
  · intro h
    by_contra lt
    have wrapped : (x - y) % (2 * M) = x - y + 2 * M := by
      rw [← Int.add_emod_right]
      exact Int.emod_eq_of_lt (by omega) (by omega)
    omega
  · intro le
    rw [Int.emod_eq_of_lt (by omega) (by omega)]
    omega

end Newest
