import Mathlib.Data.List.Basic

/- Lists that record in which order participants have announced themselves, the latest first,
and what follows when each of them has looked at those behind it. -/
namespace LatestFirst

open List

variable {ι : Type}

/-- Every participant is good with respect to those that came before it. -/
def Each (good : ι → List ι → Prop) : List ι → Prop
  | [] => True
  | i :: older => good i older ∧ Each good older

theorem Each.imp {good good' : ι → List ι → Prop} {order : List ι} (each : Each good order)
    (step : ∀ i older, (i :: older) <:+ order → good i older → good' i older) :
    Each good' order := by
  induction order with
  | nil => exact trivial
  | cons i older ih =>
    obtain ⟨here, rest⟩ := each
    refine ⟨step i older suffix_rfl here, ih rest fun j below suffix => ?_⟩
    exact step j below (suffix.trans (suffix_cons i older))

theorem Each.filter {good : ι → List ι → Prop} {order : List ι} (each : Each good order)
    (fewer : ∀ i older below, below.Sublist older → good i older → good i below)
    (stays : ι → Bool) : Each good (order.filter stays) := by
  induction order with
  | nil => exact trivial
  | cons i older ih =>
    obtain ⟨here, rest⟩ := each
    rw [filter_cons]
    split
    · exact ⟨fewer i older _ filter_sublist here, ih rest⟩
    · exact ih rest

theorem countP_le_of_each {p q : ι → Bool} (implies : ∀ i, p i = true → q i = true) {n : Nat}
    {order : List ι} (each : Each (fun i older => p i = true → older.countP q < n) order) :
    order.countP p ≤ n := by
  induction order with
  | nil => exact Nat.zero_le n
  | cons i older ih =>
    obtain ⟨here, rest⟩ := each
    by_cases inside : p i = true
    · have before : older.countP p ≤ older.countP q :=
        countP_mono_left fun j _ => implies j
      have few := here inside
      rw [countP_cons_of_pos inside]
      omega
    · rw [countP_cons_of_neg inside]
      exact ih rest

/-- Crossing one name off a list of names still to be looked at adds at most that
one to those that have been looked at. -/
theorem countP_crossed [DecidableEq ι] {older : List ι} (distinct : older.Nodup) (p : ι → Bool)
    (x : ι) (rest : List ι) :
    older.countP (fun j => p j && decide (j ∉ rest)) ≤
      older.countP (fun j => p j && decide (j ∉ x :: rest)) +
        if x ∈ older ∧ p x = true then 1 else 0 := by
  induction older with
  | nil => exact Nat.zero_le _
  | cons i older ih =>
    obtain ⟨apart, later⟩ := nodup_cons.mp distinct
    have tail := ih later
    by_cases same : i = x
    · subst same
      have absent : ¬(i ∈ older ∧ p i = true) := fun both => apart both.1
      rw [if_neg absent] at tail
      have crossed : (i :: older).countP (fun j => p j && decide (j ∉ i :: rest)) =
          older.countP (fun j => p j && decide (j ∉ i :: rest)) :=
        countP_cons_of_neg (by simp)
      rw [countP_cons]
      by_cases holds : p i = true
      · have found : (if i ∈ i :: older ∧ p i = true then 1 else 0) = 1 :=
          if_pos ⟨mem_cons_self, holds⟩
        split <;> omega
      · simp only [holds, Bool.false_and, Bool.false_eq_true, if_false]
        omega
    · have step : (i ∈ rest) ↔ (i ∈ x :: rest) := by simp [same]
      have member : (x ∈ i :: older) ↔ x ∈ older := by simp [Ne.symm same]
      simp only [countP_cons, member, step]
      omega

end LatestFirst
