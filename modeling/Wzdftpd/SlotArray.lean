import Mathlib.Data.List.Basic
import Mathlib.Data.List.TakeDrop

/- Arrays of a fixed number of cells of which the first ones are in use: the loops that search
such an array and close the gap of a removed element. -/
namespace SlotArray

open List

variable {α : Type} [DecidableEq α]

/-- The first of so many cells from an index on that holds an element. -/
def search (cells : List α) (x : α) : Nat → Nat → Option (Option Nat)
  | 0, _ => some none
  | turns + 1, i =>
    match cells[i]? with
    | none => none
    | some y => if y = x then some (some i) else search cells x turns (i + 1)

/-- The last of these cells, or `found` if there is none. -/
def searchLast (cells : List α) (x : α) : Nat → Nat → Option Nat → Option (Option Nat)
  | 0, _, found => some found
  | turns + 1, i, found =>
    match cells[i]? with
    | none => none
    | some y => searchLast cells x turns (i + 1) (if y = x then some i else found)

/-- The cells of an array. -/
abbrev Cells (α : Type) (n : Nat) := { cells : List α // cells.length = n }

variable {n : Nat}

/-- `cells[i] = x` -/
def write (cells : Cells α n) (i : Nat) (x : α) : Option (Cells α n) :=
  if i < n then some ⟨cells.val.set i x, by rw [length_set, cells.property]⟩ else none

/-- `cells[i] = cells[i + 1]` for so many indices. -/
def shift : Nat → Nat → Cells α n → Option (Cells α n)
  | 0, _, cells => some cells
  | turns + 1, i, cells =>
    match cells.val[i + 1]? with
    | none => none
    | some next => (write cells i next).bind (shift turns (i + 1))

omit [DecidableEq α] in
theorem take_write {cells after : Cells α n} {i : Nat} {x : α}
    (done : write cells i x = some after) : after.val.take (i + 1) = cells.val.take i ++ [x] := by
  unfold write at done
  split at done
  · cases done
    change (cells.val.set i x).take (i + 1) = _
    rw [set_eq_take_append_cons_drop, if_pos (by omega), take_append, length_take,
      Nat.min_eq_left (by omega), take_of_length_le (by rw [length_take]; omega),
      show i + 1 - i = 1 by omega, take_succ_cons, take_zero]
  · cases done

variable (cells : List α) (x : α) (turns : Nat)

theorem search_eq : ∀ i, i + turns ≤ cells.length →
    search cells x turns i = some ((((cells.drop i).take turns).idxOf? x).map (· + i)) := by
  induction turns with
  | zero =>
    intro i _
    rfl
  | succ turns ih =>
    intro i inside
    have below : i < cells.length := by omega
    rw [search, getElem?_eq_getElem below, drop_eq_getElem_cons below, take_succ_cons, idxOf?_cons]
    by_cases same : cells[i] = x
    · simp [same]
    · simp only [if_neg same, beq_iff_eq, ih (i + 1) (by omega), Option.map_map]
      congr 2
      funext j
      simp only [Function.comp_apply]
      omega

theorem search_take {cells : List α} {num : Nat} (x : α) (inside : num ≤ cells.length) :
    search cells x num 0 = some ((cells.take num).idxOf? x) := by
  rw [search_eq cells x num 0 (by omega)]
  simp

/-- Among distinct elements the last place is the first one. -/
theorem searchLast_eq : ∀ i found,
    i + turns ≤ cells.length → ((cells.drop i).take turns).Nodup →
    searchLast cells x turns i found =
      some (((((cells.drop i).take turns).idxOf? x).map (· + i)).or found) := by
  induction turns with
  | zero =>
    intro i found _ _
    rfl
  | succ turns ih =>
    intro i found inside distinct
    have below : i < cells.length := by omega
    rw [drop_eq_getElem_cons below, take_succ_cons, nodup_cons] at distinct
    rw [searchLast, getElem?_eq_getElem below, drop_eq_getElem_cons below,
      take_succ_cons, idxOf?_cons]
    simp only [ih (i + 1) _ (by omega) distinct.2]
    by_cases same : cells[i] = x
    · have absent : ((cells.drop (i + 1)).take turns).idxOf? x = none := by
        rw [idxOf?_eq_none_iff, ← same]
        exact distinct.1
      simp [absent, same]
    · simp only [if_neg same, beq_iff_eq, Option.map_map]
      congr 3
      funext j
      simp only [Function.comp_apply]
      omega

theorem searchLast_take {cells : List α} {num : Nat} (x : α) (inside : num ≤ cells.length)
    (distinct : (cells.take num).Nodup) :
    searchLast cells x num 0 none = some ((cells.take num).idxOf? x) := by
  rw [searchLast_eq cells x num 0 none (by omega) (by simpa using distinct)]
  simp

omit [DecidableEq α] in
theorem shift_eq (turns : Nat) : ∀ (i : Nat) (cells : Cells α n), i + turns < n →
    ∃ after, shift turns i cells = some after ∧ after.val =
      cells.val.take i ++ (cells.val.drop (i + 1)).take turns ++ cells.val.drop (i + turns) := by
  induction turns with
  | zero =>
    intro i cells _
    exact ⟨cells, rfl, by simp⟩
  | succ turns ih =>
    intro i cells inside
    obtain ⟨cells, rfl⟩ := cells
    have next : i + 1 < cells.length := by omega
    have written : cells.set i cells[i + 1] =
        cells.take i ++ cells[i + 1] :: cells.drop (i + 1) := by
      rw [set_eq_take_append_cons_drop, if_pos (by omega)]
    have length : (cells.take i).length = i := by
      rw [length_take]
      omega
    rw [shift, getElem?_eq_getElem next]
    simp only [write, if_pos (show i < cells.length by omega)]
    obtain ⟨after, done, same⟩ :=
      ih (i + 1) ⟨cells.set i cells[i + 1], length_set⟩ (by omega)
    refine ⟨after, done, ?_⟩
    simp only [written] at same
    -- the cell at `i` is now the first of those that have moved
    have first : (cells.take i ++ cells[i + 1] :: cells.drop (i + 1)).take (i + 1) =
        cells.take i ++ [cells[i + 1]] := by
      rw [take_append, length, take_of_length_le (by omega),
        show i + 1 - i = 1 by omega, take_succ_cons, take_zero]
    have later : ∀ k, (cells.take i ++ cells[i + 1] :: cells.drop (i + 1)).drop (i + 1 + k) =
        cells.drop (i + 1 + k) := by
      intro k
      rw [drop_append, length, drop_of_length_le (by omega), nil_append,
        show i + 1 + k - i = k + 1 by omega, drop_succ_cons, drop_drop]
    rw [same, first, later turns, later 1, drop_eq_getElem_cons next, take_succ_cons,
      show i + (turns + 1) = i + 1 + turns by omega]
    simp

omit [DecidableEq α] in
/-- Closing the gap at an index takes the element there out of the used cells. -/
theorem shift_erases (cells : Cells α n) {num i turns : Nat} (used : i < num)
    (enough : num ≤ i + turns + 1) (inside : i + turns < n) :
    ∃ after, shift turns i cells = some after ∧
      after.val.take (num - 1) = (cells.val.take num).eraseIdx i := by
  obtain ⟨after, done, same⟩ := shift_eq turns i cells inside
  have length : (cells.val.take i).length = i := by
    rw [length_take]
    omega
  refine ⟨after, done, ?_⟩
  rw [same, eraseIdx_eq_take_drop_succ, take_take, Nat.min_eq_left (by omega),
    append_assoc, take_append, length, take_of_length_le (by omega),
    take_append_of_le_length (by rw [length_take, length_drop]; omega),
    take_take, Nat.min_eq_left (by omega), drop_take]
  congr 2
  omega

omit [DecidableEq α] in
theorem shift_eq_none {turns i : Nat} : ∀ {cells : Cells α n}, n ≤ i + turns →
    0 < turns → shift turns i cells = none := by
  induction turns generalizing i with
  | zero => exact fun _ positive => absurd positive (Nat.lt_irrefl 0)
  | succ turns ih =>
    intro cells beyond _
    rw [shift]
    cases next : cells.val[i + 1]? with
    | none => rfl
    | some y =>
      have inside := (List.getElem?_eq_some_iff.mp next).1
      simp only [write, if_pos (show i < n by omega)]
      exact ih (by omega) (by omega)

end SlotArray
