import Mathlib.Data.List.Nodup
import Mathlib.Data.List.Sort

/-!
# Doubly linked lists

A list kept in two arrays, `next` and `prev`.  `Linked next prev p l q` says that the links of the
entries of `l` follow `l`, from the entry `p` before it to the entry `q` after it; entries off the
list are not looked at.  Putting an entry in and taking one out change the links of at most two
others, the last before it and the first after it.
-/

namespace LinkedList

variable {ι : Type*}

/-- The entries of `l` are linked in this order; the first points back to `p`, the last on to
`q`. -/
def Linked (next prev : ι → Option ι) : Option ι → List ι → Option ι → Prop
  | _, [], _ => True
  | p, x :: l, q => prev x = p ∧ next x = l.head?.or q ∧ Linked next prev (some x) l q

variable {next prev next' prev' : ι → Option ι} {p p' q q' : Option ι} {l a b : List ι} {x : ι}

theorem linked_append : Linked next prev p (a ++ b) q ↔
    Linked next prev p a (b.head?.or q) ∧ Linked next prev (a.getLast?.or p) b q := by
  induction a generalizing p with
  | nil => simp [Linked]
  | cons x a ih =>
    have last : (x :: a).getLast?.or p = a.getLast?.or (some x) := by
      rw [List.getLast?_cons]
      cases a.getLast? <;> rfl
    rw [List.cons_append, Linked, Linked, ih, last, List.head?_append, Option.or_assoc]
    tauto

/-- Links that agree on the entries of the list. -/
theorem Linked.congr (h : Linked next prev p l q) (hn : ∀ y ∈ l, next' y = next y)
    (hp : ∀ y ∈ l, prev' y = prev y) : Linked next' prev' p l q := by
  induction l generalizing p with
  | nil => trivial
  | cons x l ih =>
    obtain ⟨hprev, hnext, rest⟩ := h
    refine ⟨(hp x (by simp)).trans hprev, (hn x (by simp)).trans hnext, ih rest ?_ ?_⟩
    · exact fun y hy => hn y (List.mem_cons_of_mem _ hy)
    · exact fun y hy => hp y (List.mem_cons_of_mem _ hy)

variable [DecidableEq ι]

/-- Lead the last entry elsewhere. -/
theorem Linked.setEnd (h : Linked next prev p l q) (nodup : l.Nodup)
    (hn : ∀ y ∈ l, next' y = if l.getLast? = some y then q' else next y)
    (hp : ∀ y ∈ l, prev' y = prev y) : Linked next' prev' p l q' := by
  induction l generalizing p with
  | nil => trivial
  | cons x l ih =>
    obtain ⟨hprev, hnext, rest⟩ := h
    obtain ⟨hx, nodup⟩ := List.nodup_cons.1 nodup
    refine ⟨(hp x (by simp)).trans hprev, ?_, ih rest nodup ?_ ?_⟩
    · rw [hn x (by simp), hnext]
      cases l with
      | nil => simp
      | cons y l =>
        have : (y :: l).getLast? ≠ some x := fun same => hx (List.mem_of_getLast? same)
        simp [this]
    · intro y hy
      rw [hn y (List.mem_cons_of_mem _ hy)]
      cases l with
      | nil => simp at hy
      | cons z l => simp
    · exact fun y hy => hp y (List.mem_cons_of_mem _ hy)

/-- Lead the first entry back elsewhere. -/
theorem Linked.setStart (h : Linked next prev p l q) (nodup : l.Nodup)
    (hn : ∀ y ∈ l, next' y = next y)
    (hp : ∀ y ∈ l, prev' y = if l.head? = some y then p' else prev y) :
    Linked next' prev' p' l q := by
  cases l with
  | nil => trivial
  | cons x l =>
    obtain ⟨-, hnext, rest⟩ := h
    obtain ⟨hx, nodup⟩ := List.nodup_cons.1 nodup
    refine ⟨by simp [hp x], (hn x (by simp)).trans hnext, rest.congr ?_ ?_⟩
    · exact fun y hy => hn y (List.mem_cons_of_mem _ hy)
    · intro y hy
      have : x ≠ y := fun same => hx (same ▸ hy)
      simp [hp y (List.mem_cons_of_mem _ hy), this]

/-- Put an entry in between `a` and `b`. -/
theorem Linked.insert (h : Linked next prev none (a ++ b) none) (nodup : (a ++ b).Nodup)
    (hnx : next' x = b.head?) (hpx : prev' x = a.getLast?)
    (hn : ∀ y ∈ a ++ b, next' y = if a.getLast? = some y then some x else next y)
    (hp : ∀ y ∈ a ++ b, prev' y = if b.head? = some y then some x else prev y) :
    Linked next' prev' none (a ++ x :: b) none := by
  obtain ⟨left, right⟩ := linked_append.1 h
  obtain ⟨na, nb, disjoint⟩ := List.nodup_append.1 nodup
  refine linked_append.2 ⟨left.setEnd na ?_ ?_, hpx.trans (by simp), hnx.trans (by simp),
    right.setStart nb ?_ ?_⟩
  · intro y hy
    simpa using hn y (List.mem_append_left _ hy)
  · intro y hy
    have : b.head? ≠ some y := fun same => disjoint y hy y (List.mem_of_head? same) rfl
    simp [hp y (List.mem_append_left _ hy), this]
  · intro y hy
    have : a.getLast? ≠ some y := fun same => disjoint y (List.mem_of_getLast? same) y hy rfl
    simp [hn y (List.mem_append_right _ hy), this]
  · exact fun y hy => hp y (List.mem_append_right _ hy)

/-- Take an entry out from between `a` and `b`. -/
theorem Linked.remove (h : Linked next prev none (a ++ x :: b) none) (nodup : (a ++ b).Nodup)
    (hn : ∀ y ∈ a ++ b, next' y = if a.getLast? = some y then b.head? else next y)
    (hp : ∀ y ∈ a ++ b, prev' y = if b.head? = some y then a.getLast? else prev y) :
    Linked next' prev' none (a ++ b) none := by
  obtain ⟨left, -, -, right⟩ := linked_append.1 h
  obtain ⟨na, nb, disjoint⟩ := List.nodup_append.1 nodup
  refine linked_append.2 ⟨left.setEnd na ?_ ?_, right.setStart nb ?_ ?_⟩
  · intro y hy
    simpa using hn y (List.mem_append_left _ hy)
  · intro y hy
    have : b.head? ≠ some y := fun same => disjoint y hy y (List.mem_of_head? same) rfl
    simp [hp y (List.mem_append_left _ hy), this]
  · intro y hy
    have : a.getLast? ≠ some y := fun same => disjoint y (List.mem_of_getLast? same) y hy rfl
    simp [hn y (List.mem_append_right _ hy), this]
  · intro y hy
    simpa using hp y (List.mem_append_right _ hy)

end LinkedList
