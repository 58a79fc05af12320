import Mathlib.Data.List.Nodup

/- Lists of records that are found by a key. The first record of a key is the one
that is found, removed or changed; where the keys are distinct, the operations are
those of a finite map. -/
namespace NamedList

open List Option

variable {α κ : Type} {key : α → κ}

theorem nodup_append {l : List α} (distinct : (l.map key).Nodup) {x : α}
    (absent : key x ∉ l.map key) : ((l ++ [x]).map key).Nodup := by
  rw [map_append, List.nodup_append]
  refine ⟨distinct, nodup_singleton _, ?_⟩
  rintro a inside b last rfl
  rw [map_singleton, mem_singleton] at last
  exact absent (last ▸ inside)

theorem map_key_filterMap_sublist {f : α → Option α} (kept : ∀ x y, f x = some y → key y = key x)
    (l : List α) : ((l.filterMap f).map key).Sublist (l.map key) := by
  induction l with
  | nil => exact Sublist.refl _
  | cons x l ih =>
    rw [filterMap_cons]
    cases passed : f x with
    | none => exact ih.cons _
    | some y =>
      simp only [map_cons]
      rw [kept x y passed]
      exact ih.cons_cons _

variable [DecidableEq κ]

def lookup (key : α → κ) (k : κ) (l : List α) : Option α := l.find? fun x => key x = k

def remove (key : α → κ) (k : κ) (l : List α) : List α := l.eraseP fun x => key x = k

def modify (key : α → κ) (k : κ) (f : α → α) : List α → List α
  | [] => []
  | x :: rest => if key x = k then f x :: rest else x :: modify key k f rest

theorem lookup_nil (key : α → κ) (k : κ) : lookup key k [] = none := rfl

theorem lookup_cons (x : α) (l : List α) (k : κ) :
    lookup key k (x :: l) = if key x = k then some x else lookup key k l := by
  unfold lookup
  by_cases same : key x = k
  · simp [same]
  · simp [same]

variable {f : α → α} {l : List α} {k : κ} {x : α}

theorem key_of_lookup (found : lookup key k l = some x) : key x = k := by
  have tested := find?_some found
  exact of_decide_eq_true tested

theorem mem_of_lookup (found : lookup key k l = some x) : x ∈ l :=
  mem_of_find?_eq_some found

theorem lookup_eq_none_iff (l : List α) (k : κ) : lookup key k l = none ↔ k ∉ l.map key := by
  unfold lookup
  rw [find?_eq_none, List.mem_map]
  constructor
  · rintro absent ⟨x, member, same⟩
    exact absent x member (decide_eq_true same)
  · intro absent x member same
    exact absent ⟨x, member, of_decide_eq_true same⟩

theorem lookup_append (l m : List α) (k : κ) :
    lookup key k (l ++ m) = (lookup key k l).or (lookup key k m) :=
  find?_append

theorem lookup_of_mem (distinct : (l.map key).Nodup) {x : α} (member : x ∈ l) :
    lookup key (key x) l = some x := by
  induction l with
  | nil => cases member
  | cons y l ih =>
    rw [map_cons, nodup_cons] at distinct
    rw [lookup_cons]
    rcases mem_cons.mp member with rfl | later
    · rw [if_pos rfl]
    · have other : key y ≠ key x := by
        intro same
        exact distinct.1 (same ▸ mem_map_of_mem later)
      rw [if_neg other]
      exact ih distinct.2 later

theorem modify_append (f : α → α) {l : List α} (m : List α) {k : κ} (absent : k ∉ l.map key) :
    modify key k f (l ++ m) = l ++ modify key k f m := by
  induction l with
  | nil => rfl
  | cons x l ih =>
    rw [map_cons, mem_cons, not_or] at absent
    simp [modify, Ne.symm absent.1, ih absent.2]

theorem map_key_modify (kept : ∀ x, key (f x) = key x) (l : List α) (k : κ) :
    (modify key k f l).map key = l.map key := by
  induction l with
  | nil => rfl
  | cons x l ih =>
    rw [modify]
    split
    · simp [kept]
    · simp [ih]

theorem mem_modify {y : α} (member : y ∈ modify key k f l) :
    y ∈ l ∨ ∃ x ∈ l, key x = k ∧ y = f x := by
  induction l with
  | nil => cases member
  | cons x l ih =>
    rw [modify] at member
    split at member
    · rename_i same
      rcases mem_cons.mp member with rfl | later
      · exact .inr ⟨x, mem_cons_self, same, rfl⟩
      · exact .inl (mem_cons_of_mem x later)
    · rcases mem_cons.mp member with rfl | later
      · exact .inl mem_cons_self
      · rcases ih later with here | ⟨z, inside, same, changed⟩
        · exact .inl (mem_cons_of_mem x here)
        · exact .inr ⟨z, mem_cons_of_mem x inside, same, changed⟩

theorem lookup_modify (kept : ∀ x, key (f x) = key x) (l : List α) (j k : κ) :
    lookup key j (modify key k f l) =
      if j = k then (lookup key k l).map f else lookup key j l := by
  induction l with
  | nil => split <;> rfl
  | cons x l ih =>
    rw [modify]
    by_cases first : key x = k
    · rw [if_pos first, lookup_cons, kept, lookup_cons, lookup_cons, if_pos first]
      by_cases asked : j = k
      · simp [asked, first.trans asked.symm]
      · have other : key x ≠ j := fun same => asked (same.symm.trans first)
        rw [if_neg asked, if_neg other, if_neg other]
    · rw [if_neg first, lookup_cons, ih, lookup_cons, lookup_cons, if_neg first]
      by_cases asked : j = k
      · have other : key x ≠ j := fun same => first (same.trans asked)
        rw [if_pos asked, if_pos asked, if_neg other]
      · rw [if_neg asked, if_neg asked]

theorem lookup_remove (distinct : (l.map key).Nodup) (j k : κ) :
    lookup key j (remove key k l) = if j = k then none else lookup key j l := by
  induction l with
  | nil => split <;> rfl
  | cons x l ih =>
    rw [map_cons, nodup_cons] at distinct
    unfold remove at ih ⊢
    rw [eraseP_cons, lookup_cons]
    by_cases first : key x = k
    · rw [decide_eq_true first]
      by_cases asked : j = k
      · have absent : j ∉ l.map key := by
          rw [asked, ← first]
          exact distinct.1
        rw [if_pos asked]
        exact (lookup_eq_none_iff l j).mpr absent
      · have other : key x ≠ j := fun same => asked (same.symm.trans first)
        rw [if_neg asked, if_neg other]
        rfl
    · rw [decide_eq_false first, cond_false, lookup_cons, ih distinct.2]
      by_cases asked : j = k
      · have other : key x ≠ j := fun same => first (same.trans asked)
        rw [if_pos asked, if_pos asked, if_neg other]
      · rw [if_neg asked, if_neg asked]

theorem lookup_filterMap {f : α → Option α} (kept : ∀ x y, f x = some y → key y = key x)
    {l : List α} (distinct : (l.map key).Nodup) (k : κ) :
    lookup key k (l.filterMap f) = (lookup key k l).bind f := by
  induction l with
  | nil => rfl
  | cons x l ih =>
    rw [map_cons, nodup_cons] at distinct
    rw [filterMap_cons, lookup_cons]
    cases passed : f x with
    | none =>
      rw [ih distinct.2]
      by_cases first : key x = k
      · have absent : k ∉ l.map key := first ▸ distinct.1
        simp [first, (lookup_eq_none_iff l k).mpr absent, passed]
      · rw [if_neg first]
    | some y =>
      rw [lookup_cons, kept x y passed, ih distinct.2]
      by_cases first : key x = k
      · simp [first, passed]
      · rw [if_neg first, if_neg first]

theorem remove_eq_filter (distinct : (l.map key).Nodup) (k : κ) :
    remove key k l = l.filter fun x => key x ≠ k := by
  induction l with
  | nil => rfl
  | cons x l ih =>
    rw [map_cons, nodup_cons] at distinct
    unfold remove at ih ⊢
    rw [eraseP_cons, filter_cons]
    by_cases first : key x = k
    · have others : l.filter (fun x => key x ≠ k) = l := by
        refine filter_eq_self.mpr fun y member => ?_
        rw [decide_eq_true_eq]
        exact fun same => distinct.1 (first.trans same.symm ▸ mem_map_of_mem member)
      rw [decide_eq_true first, cond_true, if_neg (by simpa using first), others]
    · rw [decide_eq_false first, cond_false, if_pos (by simpa using first), ih distinct.2]

theorem nodup_remove (distinct : (l.map key).Nodup) (k : κ) : ((remove key k l).map key).Nodup :=
  distinct.sublist (eraseP_sublist.map key)

theorem lookup_eq_some_iff (distinct : (l.map key).Nodup) {k : κ} {x : α} :
    lookup key k l = some x ↔ x ∈ l ∧ key x = k := by
  constructor
  · exact fun found => ⟨mem_of_lookup found, key_of_lookup found⟩
  · rintro ⟨member, rfl⟩
    exact lookup_of_mem distinct member

theorem lookup_perm {m : List α} (perm : l.Perm m) (distinct : (l.map key).Nodup) (k : κ) :
    lookup key k l = lookup key k m := by
  have other : (m.map key).Nodup := (perm.map key).nodup_iff.mp distinct
  ext x
  rw [lookup_eq_some_iff distinct, lookup_eq_some_iff other, perm.mem_iff]

end NamedList
