import Mathlib.Tactic

/-!
# Copies between a buffer and scattered ranges

Memory by address, ranges of it, and the two loops that move data between a list of ranges and one
contiguous buffer.  Both are made of the same pieces (`pieces`), each of which stays inside the
buffer; what a loop moves and what it leaves alone follows for ranges that are apart from the buffer
and, where they are written, from each other.
-/

namespace ScatterGather

variable {β : Type*}

/-- A range of addresses. -/
structure Range where
  start : ℕ
  len : ℕ

/-- The addresses of a range. -/
def Range.Has (r : Range) (a : ℕ) : Prop := r.start ≤ a ∧ a < r.start + r.len

/-- Two ranges without a common address between their ends. -/
def Range.Apart (r s : Range) : Prop := r.start + r.len ≤ s.start ∨ s.start + s.len ≤ r.start

/-- What a range holds. -/
def read (mem : ℕ → β) (r : Range) : List β := (List.range' r.start r.len).map mem

/-- What a list of ranges holds, in order. -/
def readAll (mem : ℕ → β) (rs : List Range) : List β := rs.flatMap (read mem)

/-- The length of a list of ranges. -/
def total (rs : List Range) : ℕ := (rs.map Range.len).sum

/-- Copy `n` cells. -/
def copy (mem : ℕ → β) (dst src n : ℕ) : ℕ → β :=
  fun a => if dst ≤ a ∧ a < dst + n then mem (src + (a - dst)) else mem a

/-- Put data into a range. -/
def fill (mem : ℕ → β) (p n : ℕ) (data : ℕ → β) : ℕ → β :=
  fun a => if p ≤ a ∧ a < p + n then data (a - p) else mem a

/-- The parts of a buffer at `p` that belong to each of a list of ranges. -/
def pieces : List Range → ℕ → List (ℕ × Range)
  | [], _ => []
  | r :: rs, p => (p, r) :: pieces rs (p + r.len)

/-- Copy a buffer out to the ranges, piece by piece. -/
def scatter (mem : ℕ → β) (rs : List Range) (p : ℕ) : ℕ → β :=
  (pieces rs p).foldl (fun mem piece => copy mem piece.2.start piece.1 piece.2.len) mem

/-- Copy the ranges into a buffer, piece by piece. -/
def gather (mem : ℕ → β) (rs : List Range) (p : ℕ) : ℕ → β :=
  (pieces rs p).foldl (fun mem piece => copy mem piece.1 piece.2.start piece.2.len) mem

theorem total_cons (r : Range) (rs : List Range) : total (r :: rs) = r.len + total rs := by
  simp [total]

theorem gather_cons (mem : ℕ → β) (r : Range) (rs : List Range) (p : ℕ) :
    gather mem (r :: rs) p = gather (copy mem p r.start r.len) rs (p + r.len) := rfl

theorem scatter_cons (mem : ℕ → β) (r : Range) (rs : List Range) (p : ℕ) :
    scatter mem (r :: rs) p = scatter (copy mem r.start p r.len) rs (p + r.len) := rfl

/-- Every piece lies inside the buffer. -/
theorem pieces_inside (rs : List Range) (p : ℕ) :
    ∀ piece ∈ pieces rs p, p ≤ piece.1 ∧ piece.1 + piece.2.len ≤ p + total rs := by
  induction rs generalizing p with
  | nil => simp [pieces]
  | cons r rs ih =>
    intro piece member
    rw [total_cons]
    rcases List.mem_cons.1 member with rfl | later
    · simp only
      omega
    · have bounds := ih (p + r.len) piece later
      omega

/-! ## Reading -/

theorem read_congr {mem mem' : ℕ → β} {r : Range} (same : ∀ a, r.Has a → mem a = mem' a) :
    read mem r = read mem' r := by
  apply List.map_congr_left
  intro a member
  rw [List.mem_range'_1] at member
  exact same a member

theorem read_append (mem : ℕ → β) (p m n : ℕ) :
    read mem ⟨p, m + n⟩ = read mem ⟨p, m⟩ ++ read mem ⟨p + m, n⟩ := by
  rw [read, read, read, ← List.map_append, List.range'_append_1]

/-- Ranges that follow on each other are one range. -/
theorem readAll_of_adjacent (mem : ℕ → β) (rs : List Range) (p : ℕ)
    (adjacent : ∀ piece ∈ pieces rs p, piece.2.start = piece.1) :
    readAll mem rs = read mem ⟨p, total rs⟩ := by
  induction rs generalizing p with
  | nil => rfl
  | cons r rs ih =>
    have first : r.start = p := adjacent (p, r) (by simp [pieces])
    have rest := ih (p + r.len) fun piece member =>
      adjacent piece (List.mem_cons_of_mem _ member)
    rw [total_cons, read_append, ← rest, ← first]
    rfl

/-- The addresses of ranges that follow on each other. -/
theorem has_of_adjacent (rs : List Range) (p a : ℕ)
    (adjacent : ∀ piece ∈ pieces rs p, piece.2.start = piece.1)
    (has : (Range.mk p (total rs)).Has a) : ∃ r ∈ rs, r.Has a := by
  induction rs generalizing p with
  | nil =>
    simp only [Range.Has, total, List.map_nil, List.sum_nil] at has
    omega
  | cons r rs ih =>
    have first : r.start = p := adjacent (p, r) (by simp [pieces])
    simp only [Range.Has, total_cons] at has
    by_cases here : a < p + r.len
    · exact ⟨r, by simp, by simp only [Range.Has]; omega⟩
    · obtain ⟨s, member, later⟩ := ih (p + r.len)
        (fun piece member => adjacent piece (List.mem_cons_of_mem _ member))
        (by simp only [Range.Has]; omega)
      exact ⟨s, by simp [member], later⟩

/-! ## Copying -/

theorem copy_outside (mem : ℕ → β) {dst src n a : ℕ} (outside : ¬ (Range.mk dst n).Has a) :
    copy mem dst src n a = mem a := if_neg outside

theorem fill_outside (mem : ℕ → β) {p n a : ℕ} (data : ℕ → β) (outside : ¬ (Range.mk p n).Has a) :
    fill mem p n data a = mem a := if_neg outside

theorem read_fill (mem : ℕ → β) (p n : ℕ) (data : ℕ → β) :
    read (fill mem p n data) ⟨p, n⟩ = (List.range n).map data := by
  apply List.ext_getElem
  · simp [read]
  · intro i hi _
    have bound : i < n := by simpa [read] using hi
    simp [read, fill, bound]

theorem read_copy (mem : ℕ → β) (dst src n : ℕ) :
    read (copy mem dst src n) ⟨dst, n⟩ = read mem ⟨src, n⟩ := by
  apply List.ext_getElem
  · simp [read]
  · intro i hi _
    have bound : i < n := by simpa [read] using hi
    simp [read, copy, bound]

theorem read_copy_of_apart (mem : ℕ → β) (dst src n : ℕ) {r : Range}
    (apart : r.Apart ⟨dst, n⟩) : read (copy mem dst src n) r = read mem r := by
  apply read_congr
  intro a has
  apply copy_outside
  simp only [Range.Has, Range.Apart] at has apart ⊢
  omega

/-! ## The loops -/

/-- Gathering writes to the buffer only. -/
theorem gather_outside (mem : ℕ → β) (rs : List Range) (p a : ℕ)
    (outside : ¬ (Range.mk p (total rs)).Has a) : gather mem rs p a = mem a := by
  induction rs generalizing mem p with
  | nil => rfl
  | cons r rs ih =>
    simp only [Range.Has, total_cons] at outside
    have rest : ¬ (Range.mk (p + r.len) (total rs)).Has a := by
      simp only [Range.Has]
      omega
    have first : ¬ (Range.mk p r.len).Has a := by
      simp only [Range.Has]
      omega
    rw [gather_cons, ih _ _ rest, copy_outside mem first]

/-- Gathering leaves in the buffer what the ranges hold, in order. -/
theorem read_gather (mem : ℕ → β) (rs : List Range) (p : ℕ)
    (apart : ∀ r ∈ rs, r.Apart ⟨p, total rs⟩) :
    read (gather mem rs p) ⟨p, total rs⟩ = readAll mem rs := by
  induction rs generalizing mem p with
  | nil => rfl
  | cons r rs ih =>
    simp only [total_cons, List.forall_mem_cons, Range.Apart] at apart
    have first : read (gather mem (r :: rs) p) ⟨p, r.len⟩ = read mem r := by
      rw [← read_copy mem p r.start r.len]
      apply read_congr
      intro a has
      rw [gather_cons]
      apply gather_outside
      simp only [Range.Has] at has ⊢
      omega
    have rest : read (gather mem (r :: rs) p) ⟨p + r.len, total rs⟩ = readAll mem rs := by
      have moved := ih (copy mem p r.start r.len) (p + r.len) fun s member => by
        have away := apart.2 s member
        simp only [Range.Apart]
        omega
      rw [gather_cons, moved]
      refine List.flatMap_congr fun s member => read_copy_of_apart _ _ _ _ ?_
      have away := apart.2 s member
      simp only [Range.Apart]
      omega
    rw [total_cons, read_append, first, rest]
    rfl

/-- Scattering writes to the ranges only. -/
theorem scatter_outside (mem : ℕ → β) (rs : List Range) (p a : ℕ)
    (outside : ∀ r ∈ rs, ¬ r.Has a) : scatter mem rs p a = mem a := by
  induction rs generalizing mem p with
  | nil => rfl
  | cons r rs ih =>
    rw [List.forall_mem_cons] at outside
    rw [scatter_cons, ih _ _ outside.2, copy_outside mem outside.1]

/-- Scattering leaves in the ranges, in order, what the buffer holds. -/
theorem readAll_scatter (mem : ℕ → β) (rs : List Range) (p : ℕ)
    (disjoint : rs.Pairwise Range.Apart) (apart : ∀ r ∈ rs, r.Apart ⟨p, total rs⟩) :
    readAll (scatter mem rs p) rs = read mem ⟨p, total rs⟩ := by
  induction rs generalizing mem p with
  | nil => rfl
  | cons r rs ih =>
    simp only [total_cons, List.forall_mem_cons, Range.Apart] at apart
    rw [List.pairwise_cons] at disjoint
    have first : read (scatter mem (r :: rs) p) r = read mem ⟨p, r.len⟩ := by
      rw [← read_copy mem r.start p r.len]
      apply read_congr
      intro a has
      rw [scatter_cons]
      apply scatter_outside
      intro s member
      have away := disjoint.1 s member
      simp only [Range.Has, Range.Apart] at has away ⊢
      omega
    have rest : readAll (scatter mem (r :: rs) p) rs = read mem ⟨p + r.len, total rs⟩ := by
      have moved := ih (copy mem r.start p r.len) (p + r.len) disjoint.2 fun s member => by
        have away := apart.2 s member
        simp only [Range.Apart]
        omega
      rw [scatter_cons, moved]
      apply read_copy_of_apart
      have away := apart.1
      simp only [Range.Apart]
      omega
    rw [total_cons, read_append, ← first, ← rest]
    rfl

end ScatterGather
