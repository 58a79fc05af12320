import Wzdftpd.PathSimplify
import Wzdftpd.Session

/- `path_getdirname`, `path_getbasename` and `path_gettrailingname` of wzd_dir.c. Each
scans the name backwards for a separator and stops at the first character, where a
separator counts for nothing. -/
namespace Wzdftpd

open List Option

/-- `path_getdirname` -/
def pathGetdirname (file : Option Text) : Option Text :=
  file.map fun file =>
    let ptr := backUp file file.length
    if ptr = 0 then if file[ptr]? = some '/' then ['/'] else ['.'] else file.take ptr

def nameBehind (file : Text) (ptr : Nat) : Text :=
  if ptr = 0 then
    if file[ptr]? = some '/' ∧ file[ptr + 1]? ≠ none then file.drop 1 else file
  else file.drop (ptr + 1)

/-- `if (suffix && *suffix != '\0')` and what follows -/
def removeSuffix (basename : Text) (suffix : Option Text) : Text :=
  match suffix with
  | none => basename
  | some suffix =>
    if suffix ≠ [] ∧ basename.length ≥ suffix.length ∧
      basename.drop (basename.length - suffix.length) = suffix then
      basename.take (basename.length - suffix.length)
    else basename

/-- `path_getbasename` -/
def pathGetbasename (file suffix : Option Text) : Option Text :=
  file.map fun file => removeSuffix (nameBehind file (backUp file file.length)) suffix

/-- `while ((ptr > file) && (count < n))`, with the separators seen so far. -/
def backOver (file : Text) (n : Nat) : Nat → Nat → Nat
  | 0, _ => 0
  | ptr + 1, count =>
    if count < n then
      if file[ptr + 1]? = some '/' then
        if count + 1 ≥ n then ptr + 1 else backOver file n ptr (count + 1)
      else backOver file n ptr count
    else ptr + 1

/-- `path_gettrailingname` -/
def pathGettrailingname (file : Option Text) (n : Nat) : Option Text :=
  file.map fun file => nameBehind file (backOver file n file.length 0)

section Scans

variable {file front rest : Text} {n : Nat}

theorem backOver_one (ptr : Nat) : backOver file 1 ptr 0 = backUp file ptr := by
  induction ptr with
  | zero => rfl
  | succ ptr ih =>
    rw [backOver, ih]
    rfl

/-- From a position behind a separator the scan gets there when it has seen all but one
of the separators it looks for. -/
theorem backOver_split (some' : front ≠ []) (j : Nat) : ∀ count,
    (rest.take j).count '/' + count + 1 = n →
    backOver (front ++ '/' :: rest) n (front.length + j) count = front.length := by
  obtain ⟨start, last, rfl⟩ : ∃ start last, front = start ++ [last] :=
    ⟨_, _, (dropLast_append_getLast some').symm⟩
  have length : (start ++ [last]).length = start.length + 1 := by simp
  induction j with
  | zero =>
    intro count seen
    rw [take_zero, count_nil] at seen
    have here : (start ++ [last] ++ '/' :: rest)[start.length + 1]? = some '/' := by
      rw [← length, getElem?_append_right (Nat.le_refl _), Nat.sub_self]
      rfl
    rw [length, backOver, if_pos (by omega), here, if_pos rfl, if_pos (by omega)]
  | succ j ih =>
    intro count seen
    have here : (start ++ [last] ++ '/' :: rest)[start.length + 1 + j + 1]? = rest[j]? := by
      rw [← length, Nat.add_assoc, getElem?_append_right (Nat.le_add_right _ _),
        Nat.add_sub_cancel_left, getElem?_cons_succ]
    have more : (rest.take (j + 1)).count '/' =
        (rest.take j).count '/' + if rest[j]? = some '/' then 1 else 0 := by
      rw [take_add_one, count_append]
      cases rest[j]? with
      | none => rfl
      | some c => by_cases slash : c = '/' <;> simp [slash]
    rw [more] at seen
    rw [length] at ih ⊢
    rw [← Nat.add_assoc, backOver, if_pos (by omega), here]
    by_cases slash : rest[j]? = some '/'
    · rw [if_pos slash] at seen ⊢
      rw [if_neg (by omega)]
      exact ih (count + 1) (by omega)
    · rw [if_neg slash] at seen ⊢
      exact ih count (by omega)

theorem backOver_zero (ptr : Nat) : ∀ count, (file.tail.take ptr).count '/' + count < n →
    backOver file n ptr count = 0 := by
  induction ptr with
  | zero => exact fun _ _ => rfl
  | succ ptr ih =>
    intro count few
    have more : (file.tail.take (ptr + 1)).count '/' =
        (file.tail.take ptr).count '/' + if file[ptr + 1]? = some '/' then 1 else 0 := by
      rw [take_add_one, count_append, getElem?_tail]
      cases file[ptr + 1]? with
      | none => rfl
      | some c => by_cases slash : c = '/' <;> simp [slash]
    rw [more] at few
    rw [backOver, if_pos (by omega)]
    by_cases slash : file[ptr + 1]? = some '/'
    · rw [if_pos slash] at few ⊢
      rw [if_neg (by omega)]
      exact ih (count + 1) (by omega)
    · rw [if_neg slash] at few ⊢
      exact ih count (by omega)

theorem backUp_split (some' : front ≠ []) (noSlash : '/' ∉ rest) :
    backUp (front ++ '/' :: rest) (front ++ '/' :: rest).length = front.length := by
  have whole : (front ++ '/' :: rest).length = front.length + (rest.length + 1) := by simp
  rw [← backOver_one, whole]
  refine backOver_split some' _ 0 ?_
  rw [take_of_length_le (Nat.le_succ _), count_eq_zero.mpr noSlash]

theorem backUp_zero (noSlash : '/' ∉ file.tail) : backUp file file.length = 0 := by
  rw [← backOver_one]
  refine backOver_zero _ 0 ?_
  rw [count_eq_zero.mpr fun slash => noSlash (take_subset _ _ slash)]
  exact Nat.one_pos

end Scans

/-- A name without the separator it starts with; a separator alone stays. -/
def withoutRoot (file : Text) : Text :=
  if file.head? = some '/' ∧ file ≠ ['/'] then file.tail else file

section Laws

variable {front rest : Text}

theorem nameBehind_zero (file : Text) : nameBehind file 0 = withoutRoot file := by
  unfold nameBehind withoutRoot
  rcases file with _ | ⟨c, _ | ⟨d, rest⟩⟩ <;> simp

theorem nameBehind_split (some' : front ≠ []) :
    nameBehind (front ++ '/' :: rest) front.length = rest := by
  have positive : front.length ≠ 0 := fun none' => some' (length_eq_zero_iff.mp none')
  simp [nameBehind, positive, ← drop_drop]

theorem removeSuffix_append (base : Text) {suffix : Text} (some' : suffix ≠ []) :
    removeSuffix (base ++ suffix) (some suffix) = base := by
  have length : (base ++ suffix).length - suffix.length = base.length := by simp
  rw [removeSuffix, length, drop_left, take_left, if_pos]
  exact ⟨some', by simp, rfl⟩

theorem removeSuffix_other {base suffix : Text} (other : ¬suffix <:+ base) :
    removeSuffix base (some suffix) = base := by
  rw [removeSuffix, if_neg]
  rintro ⟨_, _, same⟩
  exact other (same ▸ drop_suffix _ _)

theorem pathGetdirname_single {file : Text} (noSlash : '/' ∉ file.tail) :
    pathGetdirname (some file) = some (if file.head? = some '/' then ['/'] else ['.']) := by
  simp [pathGetdirname, backUp_zero noSlash, head?_eq_getElem?]

theorem pathGetbasename_single (file : Text) (noSlash : '/' ∉ file.tail) :
    pathGetbasename (some file) none = some (withoutRoot file) := by
  simp [pathGetbasename, backUp_zero noSlash, nameBehind_zero, removeSuffix]

end Laws

/-- The laws of splitting a name, for every name. The separator that counts is the last one
behind the first character; `path_gettrailingname` counts these from the end. -/
theorem path_splitting_laws (file : Text) :
    (∀ front rest, file = front ++ '/' :: rest → front ≠ [] → '/' ∉ rest →
      ∃ dir base, pathGetdirname (some file) = some dir ∧
        pathGetbasename (some file) none = some base ∧ dir ++ '/' :: base = file) ∧
    (∀ name, file = '/' :: name → name ≠ [] → '/' ∉ name →
      pathGetdirname (some file) = some ['/'] ∧ pathGetbasename (some file) none = some name) ∧
    ('/' ∉ file →
      pathGetdirname (some file) = some ['.'] ∧ pathGetbasename (some file) none = some file) ∧
    (∀ suffix, suffix ≠ [] →
      (∀ base, pathGetbasename (some file) none = some (base ++ suffix) →
        pathGetbasename (some file) (some suffix) = some base) ∧
      (∀ base, pathGetbasename (some file) none = some base → ¬suffix <:+ base →
        pathGetbasename (some file) (some suffix) = some base)) ∧
    (∀ n ≥ 1,
      (∀ front rest, file = front ++ '/' :: rest → front ≠ [] → rest.count '/' + 1 = n →
        pathGettrailingname (some file) n = some rest) ∧
      (file.tail.count '/' < n → pathGettrailingname (some file) n = some (withoutRoot file))) ∧
    pathGettrailingname (some file) 1 = pathGetbasename (some file) none := by
  refine ⟨?_, ?_, ?_, ?_, ?_, ?_⟩
  · rintro front rest rfl some' noSlash
    have positive : front.length ≠ 0 := fun none' => some' (length_eq_zero_iff.mp none')
    refine ⟨front, rest, ?_, ?_, rfl⟩
    · simp only [pathGetdirname, map_some, backUp_split some' noSlash, if_neg positive,
        take_left]
    · simp only [pathGetbasename, map_some, backUp_split some' noSlash,
        nameBehind_split some', removeSuffix]
  · rintro name rfl some' noSlash
    constructor
    · exact pathGetdirname_single noSlash
    · rw [pathGetbasename_single ('/' :: name) noSlash, withoutRoot,
        if_pos ⟨rfl, by simp [some']⟩]
      rfl
  · intro noSlash
    have single : '/' ∉ file.tail := fun slash => noSlash (mem_of_mem_tail slash)
    have first : file.head? ≠ some '/' := fun slash => noSlash (mem_of_head? slash)
    constructor
    · rw [pathGetdirname_single single, if_neg first]
    · rw [pathGetbasename_single _ single, withoutRoot, if_neg fun both => first both.1]
  · intro suffix some'
    simp only [pathGetbasename, map_some, some.injEq]
    constructor
    · intro base same
      rw [removeSuffix] at same
      rw [same, removeSuffix_append base some']
    · intro base same other
      rw [removeSuffix] at same
      rw [same, removeSuffix_other other]
  · intro n positive
    simp only [pathGettrailingname, map_some]
    constructor
    · rintro front rest rfl some' count
      have whole : (front ++ '/' :: rest).length = front.length + (rest.length + 1) := by simp
      rw [whole, backOver_split some' _ 0, nameBehind_split some']
      rw [take_of_length_le (Nat.le_succ _)]
      exact count
    · intro few
      rw [backOver_zero _ 0, nameBehind_zero]
      exact Nat.lt_of_le_of_lt ((take_sublist _ _).count_le '/') few
  · simp [pathGettrailingname, pathGetbasename, backOver_one, removeSuffix]

example : pathGettrailingname (some "/srv/a/b".toList) 2 = some "a/b".toList := by decide

end Wzdftpd
