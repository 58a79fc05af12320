import Mathlib.Algebra.BigOperators.Group.List.Basic
import Mathlib.Algebra.Ring.Nat

/- Sums over the records of a table with empty cells. A count is the sum of an
indicator. -/
namespace Tally

open List

variable {α : Type}

def cell (weight : α → Nat) (slot : Option α) : Nat := slot.elim 0 weight

def total (weight : α → Nat) (cells : List (Option α)) : Nat := (cells.map (cell weight)).sum

variable (weight : α → Nat)

@[simp] theorem cell_none : cell weight none = 0 := rfl

@[simp] theorem cell_some (x : α) : cell weight (some x) = weight x := rfl

theorem total_cons (slot : Option α) (cells : List (Option α)) :
    total weight (slot :: cells) = cell weight slot + total weight cells := by
  simp [total]

theorem total_append (first second : List (Option α)) :
    total weight (first ++ second) = total weight first + total weight second := by
  simp [total]

theorem total_replicate_none (n : Nat) : total weight (replicate n none) = 0 := by
  rw [total]
  simp

theorem total_set {i : Nat} {old : Option α} (new : Option α) :
    ∀ {cells : List (Option α)}, cells[i]? = some old →
      total weight (cells.set i new) + cell weight old = total weight cells + cell weight new := by
  induction i with
  | zero =>
    intro cells here
    cases cells with
    | nil => cases here
    | cons slot cells =>
      obtain rfl := Option.some.inj here
      rw [set_cons_zero, total_cons, total_cons]
      omega
  | succ i ih =>
    intro cells here
    cases cells with
    | nil => cases here
    | cons slot cells =>
      have rest := ih here
      rw [set_cons_succ, total_cons, total_cons]
      omega

end Tally
