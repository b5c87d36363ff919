import Mathlib.Data.List.Basic

/-!
# The phases of an item

A log of events, each an item with the phase it enters.  `phasesOf log t` is the course one item has
taken, `itemsAt log p` the order in which items have entered one phase, and `goThrough t ps` the
events of an item that goes through the phases `ps`.
-/

namespace Lifecycle

variable {T P : Type*} {log log' : List (T × P)} {t u : T} {p : P} {ps : List P}

def goThrough (t : T) (ps : List P) : List (T × P) := ps.map fun p => (t, p)

section items

variable [DecidableEq T]

def phasesOf (log : List (T × P)) (t : T) : List P := (log.filter fun e => e.1 = t).map Prod.snd

@[simp] theorem phasesOf_nil (t : T) : phasesOf ([] : List (T × P)) t = [] := rfl

@[simp] theorem phasesOf_append : phasesOf (log ++ log') t = phasesOf log t ++ phasesOf log' t := by
  simp [phasesOf]

@[simp] theorem phasesOf_goThrough_self : phasesOf (goThrough t ps) t = ps := by
  simp [phasesOf, goThrough, List.filter_map, Function.comp_def]

theorem phasesOf_goThrough_of_ne (ne : u ≠ t) : phasesOf (goThrough t ps) u = [] := by
  simp [phasesOf, goThrough, List.filter_map, Function.comp_def, ne.symm]

end items

section phases

variable [DecidableEq P]

def itemsAt (log : List (T × P)) (p : P) : List T := (log.filter fun e => e.2 = p).map Prod.fst

@[simp] theorem itemsAt_nil (p : P) : itemsAt ([] : List (T × P)) p = [] := rfl

@[simp] theorem itemsAt_append : itemsAt (log ++ log') p = itemsAt log p ++ itemsAt log' p := by
  simp [itemsAt]

@[simp] theorem itemsAt_goThrough :
    itemsAt (goThrough t ps) p = (ps.filter fun q => q = p).map fun _ => t := by
  simp [itemsAt, goThrough, List.filter_map, Function.comp_def]

end phases

end Lifecycle
