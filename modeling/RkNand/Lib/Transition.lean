import Mathlib.Data.List.Basic
import Mathlib.Logic.Relation

/-!
# Runs of a step function

A system is a partial step function `step : σ → α → Option σ`: the action `a` is enabled in `s` when
`step s a` is some state, and whatever a context may meet (a lock taken, a call failing) is part of
the action.  `run step s as` carries out a list of actions; an invariant of every step is an
invariant of every run, also when the steps are known to meet a side condition (`Along`), and also
when the system is given as a relation (`reflTransGen_invariant`).  What a
state does not remember of its run is kept beside it, in a history variable (`observe`); where that
is the list of events so far, `Guarded` says what has to come before what, and `Since` what has not
been undone.
-/

namespace Transition

variable {σ α : Type*} (step : σ → α → Option σ)

/-- Carry out a list of actions, as long as each is enabled. -/
def run : σ → List α → Option σ
  | s, [] => some s
  | s, a :: as => (step s a).bind fun t => run t as

/-- Every action of the list is taken in a state that meets `P`. -/
def Along (P : σ → α → Prop) : σ → List α → Prop
  | _, [] => True
  | s, a :: as => P s a ∧ ∀ t, step s a = some t → Along P t as

/-- The system with a history variable: `note s a h` is the history after the action `a` in `s`. -/
def observe {η : Type*} (note : σ → α → η → η) : σ × η → α → Option (σ × η)
  | (s, h), a => (step s a).map fun t => (t, note s a h)

variable {step}

@[simp] theorem run_nil (s : σ) : run step s [] = some s := rfl

theorem run_cons_eq_some {s u : σ} {a : α} {as : List α} :
    run step s (a :: as) = some u ↔ ∃ t, step s a = some t ∧ run step t as = some u := by
  simp only [run, Option.bind_eq_some_iff]

theorem Along.cons {P : σ → α → Prop} {s t : σ} {a : α} {as : List α} (met : P s a)
    (next : step s a = some t) (rest : Along step P t as) : Along step P s (a :: as) :=
  ⟨met, fun u hu => by rwa [← Option.some.inj (next.symm.trans hu)]⟩

theorem Along.take {P : σ → α → Prop} {s : σ} {as : List α} (met : Along step P s as) (n : ℕ) :
    Along step P s (as.take n) := by
  induction as generalizing s n with
  | nil => simp [Along]
  | cons a as ih =>
    cases n with
    | zero => trivial
    | succ n => exact ⟨met.1, fun t h => ih (met.2 t h) n⟩

instance Along.decidable {P : σ → α → Prop} [∀ s a, Decidable (P s a)] :
    ∀ (s : σ) (as : List α), Decidable (Along step P s as)
  | _, [] => .isTrue trivial
  | s, a :: as =>
      match next : step s a with
      | none => decidable_of_iff (P s a) (by simp [Along, next])
      | some t =>
          have : Decidable (Along step P t as) := Along.decidable t as
          decidable_of_iff (P s a ∧ Along step P t as) (by simp [Along, next])

/-- The invariant rule for runs whose steps all meet a side condition. -/
theorem run_invariant_along {P : σ → α → Prop} {I : σ → Prop}
    (kept : ∀ s a t, P s a → I s → step s a = some t → I t) {s t : σ} {as : List α}
    (met : Along step P s as) (reached : run step s as = some t) (hs : I s) : I t := by
  induction as generalizing s with
  | nil =>
    simp only [run_nil, Option.some.injEq] at reached
    exact reached ▸ hs
  | cons a as ih =>
    obtain ⟨u, hu, rest⟩ := run_cons_eq_some.1 reached
    exact ih (met.2 u hu) rest (kept s a u met.1 hs hu)

theorem along_true (s : σ) (as : List α) : Along step (fun _ _ => True) s as := by
  induction as generalizing s with
  | nil => trivial
  | cons a as ih => exact ⟨trivial, fun t _ => ih t⟩

/-- The invariant rule for all runs. -/
theorem run_invariant {I : σ → Prop} (kept : ∀ s a t, I s → step s a = some t → I t) {s t : σ}
    {as : List α} (reached : run step s as = some t) (hs : I s) : I t :=
  run_invariant_along (P := fun _ _ => True) (fun s a t _ => kept s a t) (along_true s as)
    reached hs

/-- The invariant rule for a system given as a relation. -/
theorem reflTransGen_invariant {next : σ → σ → Prop} {I : σ → Prop}
    (kept : ∀ s t, next s t → I s → I t) {s t : σ} (reached : Relation.ReflTransGen next s t)
    (hs : I s) : I t := by
  induction reached with
  | refl => exact hs
  | tail _ last ih => exact kept _ _ last ih

section observe

variable {η : Type*} {note : σ → α → η → η}

theorem observe_eq_some {s : σ} {h : η} {a : α} {u : σ × η} :
    observe step note (s, h) a = some u ↔ step s a = some u.1 ∧ u.2 = note s a h := by
  rcases u with ⟨t, h'⟩
  cases next : step s a with
  | none => simp [observe, next]
  | some t' => simp [observe, next, eq_comm (a := h')]

/-- Keeping a history takes no run away. -/
theorem run_observe {s t : σ} {as : List α} (reached : run step s as = some t) (h : η) :
    ∃ h', run (observe step note) (s, h) as = some (t, h') := by
  induction as generalizing s h with
  | nil =>
    simp only [run_nil, Option.some.injEq] at reached
    exact ⟨h, by rw [run_nil, reached]⟩
  | cons a as ih =>
    obtain ⟨u, hu, rest⟩ := run_cons_eq_some.1 reached
    obtain ⟨h', reached'⟩ := ih rest (note s a h)
    exact ⟨h', run_cons_eq_some.2 ⟨(u, note s a h), observe_eq_some.2 ⟨hu, rfl⟩, reached'⟩⟩

/-- A side condition on the states is one on the states with their history. -/
theorem Along.observe {P : σ → α → Prop} {s : σ} {as : List α} (met : Along step P s as) (h : η) :
    Along (Transition.observe step note) (fun u a => P u.1 a) (s, h) as := by
  induction as generalizing s h with
  | nil => trivial
  | cons a as ih =>
    refine ⟨met.1, fun u next => ?_⟩
    exact ih (met.2 u.1 (observe_eq_some.1 next).1) u.2

end observe

section trace

variable {ε : Type*} {allowed : List ε → ε → Prop}

variable (allowed) in
/-- Every event of the trace is allowed after those before it. -/
def Guarded (trace : List ε) : Prop :=
  ∀ before e after, trace = before ++ e :: after → allowed before e

theorem guarded_nil : Guarded allowed [] := by
  intro before e after split
  simp at split

theorem Guarded.concat {trace : List ε} {e : ε} (guarded : Guarded allowed trace)
    (last : allowed trace e) : Guarded allowed (trace ++ [e]) := by
  intro before f after split
  rcases List.eq_nil_or_concat after with rfl | ⟨rest, g, rfl⟩
  · obtain ⟨rfl, same⟩ := List.append_inj' split rfl
    rw [List.cons.injEq] at same
    exact same.1 ▸ last
  · have earlier : trace ++ [e] = (before ++ f :: rest) ++ [g] := by simpa using split
    exact guarded before f rest (List.append_inj' earlier rfl).1

/-- There was a good event, and no bad one since. -/
def Since (good bad : ε → Prop) (trace : List ε) : Prop :=
  ∃ before e after, trace = before ++ e :: after ∧ good e ∧ ∀ f ∈ after, ¬ bad f

variable {good bad : ε → Prop}

theorem Since.append {trace : List ε} (since : Since good bad trace) {later : List ε}
    (harmless : ∀ e ∈ later, ¬ bad e) : Since good bad (trace ++ later) := by
  obtain ⟨before, e, after, rfl, isGood, none⟩ := since
  refine ⟨before, e, after ++ later, by simp, isGood, fun f member => ?_⟩
  rcases List.mem_append.1 member with there | new
  · exact none f there
  · exact harmless f new

theorem since_concat_iff {trace : List ε} {e : ε} :
    Since good bad (trace ++ [e]) ↔ good e ∨ Since good bad trace ∧ ¬ bad e := by
  constructor
  · rintro ⟨before, f, after, split, isGood, none⟩
    rcases List.eq_nil_or_concat after with rfl | ⟨rest, g, rfl⟩
    · obtain ⟨-, same⟩ := List.append_inj' split rfl
      rw [List.cons.injEq] at same
      exact .inl (same.1 ▸ isGood)
    · have earlier : trace ++ [e] = (before ++ f :: rest) ++ [g] := by simpa using split
      obtain ⟨rfl, same⟩ := List.append_inj' earlier rfl
      rw [List.cons.injEq] at same
      refine .inr ⟨⟨before, f, rest, rfl, isGood, fun g' member => none g' (by simp [member])⟩, ?_⟩
      exact same.1 ▸ none g (by simp)
  · rintro (isGood | ⟨since, harmless⟩)
    · exact ⟨trace, e, [], rfl, isGood, by simp⟩
    · exact since.append (by simpa using harmless)

end trace

end Transition
