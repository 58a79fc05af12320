import Mathlib.Data.List.Basic

/- Lists that are searched for the first match, stored without the elements that
repeat an earlier one. -/
namespace FirstMatch

open List

variable {σ τ : Type} {same : τ → τ → Bool}

def keep (same : τ → τ → Bool) (kept : List τ) (t : τ) : List τ :=
  if kept.any (same · t) then kept else kept ++ [t]

/-- The list without the elements that are the same as an earlier one. -/
def keepFirst (same : τ → τ → Bool) (ts : List τ) : List τ := ts.foldl (keep same) []

variable (f : σ → τ) {p : τ → Bool}

theorem keep_map (kept : List σ) (t : σ) :
    keep same (kept.map f) (f t) = (keep (fun a b => same (f a) (f b)) kept t).map f := by
  unfold keep
  rw [any_map]
  simp only [Function.comp_def]
  split
  · rfl
  · simp

theorem foldl_keep_map (ts kept : List σ) :
    (ts.map f).foldl (keep same) (kept.map f) =
      (ts.foldl (keep fun a b => same (f a) (f b)) kept).map f := by
  induction ts generalizing kept with
  | nil => rfl
  | cons t ts ih =>
    rw [map_cons, foldl_cons, keep_map]
    exact ih _

theorem mem_keep {kept : List τ} {s t : τ} (member : s ∈ keep same kept t) : s ∈ kept ∨ s = t := by
  unfold keep at member
  split at member
  · exact .inl member
  · rw [mem_append, mem_singleton] at member
    exact member

theorem mem_foldl_keep {ts kept : List τ} {s : τ} (member : s ∈ ts.foldl (keep same) kept) :
    s ∈ kept ∨ s ∈ ts := by
  induction ts generalizing kept with
  | nil => exact .inl member
  | cons t ts ih =>
    rcases ih member with early | late
    · rcases mem_keep early with old | rfl
      · exact .inl old
      · exact .inr mem_cons_self
    · exact .inr (mem_cons_of_mem _ late)

theorem mem_keepFirst {ts : List τ} {s : τ} (member : s ∈ keepFirst same ts) : s ∈ ts :=
  (mem_foldl_keep member).resolve_left not_mem_nil

theorem foldl_keep_append (ts kept : List τ) :
    ∃ more, ts.foldl (keep same) kept = kept ++ more := by
  induction ts generalizing kept with
  | nil => exact ⟨[], (append_nil kept).symm⟩
  | cons t ts ih =>
    obtain ⟨more, later⟩ := ih (keep same kept t)
    rw [foldl_cons, later]
    unfold keep
    split
    · exact ⟨more, rfl⟩
    · exact ⟨t :: more, by rw [append_assoc, singleton_append]⟩

/-- The first match that no earlier element hides. -/
def firstKept (p : τ → Bool) (hides : τ → τ → Bool) : List τ → List τ → Option τ
  | _, [] => none
  | before, t :: rest =>
    if p t && !before.any (hides · t) then some t else firstKept p hides (before ++ [t]) rest

variable {hides : τ → τ → Bool}

theorem firstKept_dropWhile (before ts : List τ) :
    firstKept p hides before ts =
      firstKept p hides (before ++ ts.takeWhile (!p ·)) (ts.dropWhile (!p ·)) := by
  induction ts generalizing before with
  | nil => rfl
  | cons t ts ih =>
    cases matched : p t with
    | true => simp [matched]
    | false =>
      rw [firstKept, matched, ih]
      simp [matched]

/-- What is hidden is exactly a match that repeats an element which does not match, so that
the list without repetitions is searched for the first match that is not hidden. -/
theorem find?_foldl_keep {before kept : List τ} (ts : List τ)
    (trans : ∀ a b c, same a b = true → same b c = true → same a c = true)
    (same_of_hides : ∀ a b, hides a b = true → same a b = true)
    (hidden : ∀ a ∈ before ++ ts, ∀ b ∈ before ++ ts, same a b = true → p a = false → p b = true →
      hides a b = true)
    (inside : ∀ k ∈ kept, k ∈ before) (covered : ∀ a ∈ before, ∃ k ∈ kept, same k a = true)
    (itself : ∀ a, same a a = true) (missed : ∀ k ∈ kept, p k = false) :
    (ts.foldl (keep same) kept).find? p = firstKept p hides before ts := by
  induction ts generalizing before kept with
  | nil =>
    rw [foldl_nil, firstKept, find?_eq_none]
    exact fun k member => Bool.eq_false_iff.mp (missed k member)
  | cons t ts ih =>
    rw [append_cons] at hidden
    have here : t ∈ before ++ [t] ++ ts := by simp
    rw [foldl_cons, firstKept]
    by_cases repeated : kept.any (same · t) = true
    · obtain ⟨k, member, alike⟩ := any_eq_true.mp repeated
      have skipped : (p t && !before.any (hides · t)) = false := by
        cases matched : p t with
        | false => rfl
        | true =>
          have old : k ∈ before ++ [t] ++ ts := by simp [inside k member]
          have hides := hidden k old t here alike (missed k member) matched
          simp only [Bool.true_and, Bool.not_eq_false', any_eq_true]
          exact ⟨k, inside k member, hides⟩
      rw [skipped, keep, if_pos repeated]
      refine ih hidden (fun k member => mem_append_left _ (inside k member)) ?_ missed
      rw [forall_mem_append, forall_mem_singleton]
      exact ⟨covered, k, member, alike⟩
    · rw [keep, if_neg repeated]
      cases matched : p t with
      | true =>
        have shown : before.any (hides · t) = false := by
          rw [← Bool.not_eq_true, any_eq_true]
          rintro ⟨a, member, hides⟩
          obtain ⟨k, stored, alike⟩ := covered a member
          exact repeated (any_eq_true.mpr ⟨k, stored, trans k a t alike (same_of_hides a t hides)⟩)
        obtain ⟨more, grown⟩ := @foldl_keep_append _ same ts (kept ++ [t])
        have none : kept.find? p = none := find?_eq_none.mpr fun k member =>
          Bool.eq_false_iff.mp (missed k member)
        simp [grown, shown, none, matched]
      | false =>
        refine ih hidden ?_ ?_ ?_
        · rw [forall_mem_append]
          exact ⟨fun k member => mem_append_left _ (inside k member), by simp⟩
        · rw [forall_mem_append, forall_mem_singleton]
          refine ⟨fun a member => ?_, t, by simp, itself t⟩
          obtain ⟨k, stored, alike⟩ := covered a member
          exact ⟨k, mem_append_left _ stored, alike⟩
        · rw [forall_mem_append, forall_mem_singleton]
          exact ⟨missed, matched⟩

end FirstMatch
