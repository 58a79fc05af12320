import Wzdftpd.SegmentWalk

/- Slash-separated paths read lexically: empty and `.` components are skipped
and `..` removes the component before it. Nothing here looks at a file system. -/
namespace LexicalPath

open SegmentWalk List

def segOf (component : List Char) : Seg (List Char) :=
  if component = [] ∨ component = ['.'] then .stay
  else if component = ['.', '.'] then .up
  else .down component

def segments (path : List Char) : List (Seg (List Char)) :=
  (path.splitOn '/').map segOf

def resolve (path : List Char) : List (List Char) := walk [] (segments path)

/-- A component that names something: non-empty, without a separator, and
neither `.` nor `..`. -/
structure Plain (component : List Char) : Prop where
  noSlash : '/' ∉ component
  names : segOf component = .down component

theorem segOf_down_iff (component : List Char) :
    segOf component = .down component ↔
      component ≠ [] ∧ component ≠ ['.'] ∧ component ≠ ['.', '.'] := by
  unfold segOf
  split
  · simp; tauto
  · split
    · simp; tauto
    · simp; tauto

theorem plain_iff (component : List Char) :
    Plain component ↔
      '/' ∉ component ∧ component ≠ [] ∧ component ≠ ['.'] ∧ component ≠ ['.', '.'] := by
  rw [← segOf_down_iff]
  exact ⟨fun plain => ⟨plain.1, plain.2⟩, fun both => ⟨both.1, both.2⟩⟩

instance (component : List Char) : Decidable (Plain component) :=
  decidable_of_iff _ (plain_iff component).symm

variable {component : List Char}

theorem Plain.ne_nil (plain : Plain component) : component ≠ [] :=
  ((plain_iff component).mp plain).2.1

theorem Plain.not_closed (plain : Plain component) (front : List Char) :
    (front ++ component).getLast? ≠ some '/' := by
  obtain ⟨start, c, rfl⟩ : ∃ start c, component = start ++ [c] :=
    ⟨_, _, (dropLast_append_getLast plain.ne_nil).symm⟩
  rw [← append_assoc, getLast?_concat]
  intro same
  exact plain.noSlash (by simp [Option.some.inj same])

theorem Plain.append {first second : List Char} (front : Plain first) (back : Plain second) :
    Plain (first ++ second) := by
  obtain ⟨_, _, frontDot, _⟩ := (plain_iff first).mp front
  have := (plain_iff second).mp back
  obtain ⟨_, xs, rfl⟩ := exists_cons_of_ne_nil front.ne_nil
  obtain ⟨_, _, rfl⟩ := exists_cons_of_ne_nil back.ne_nil
  refine (plain_iff _).mpr ⟨by simp_all, by simp, by simp, ?_⟩
  intro same
  cases xs with
  | nil =>
    simp only [cons_append, cons.injEq] at same
    exact frontDot (by rw [same.1])
  | cons z zs => simp at same

theorem segments_append (front back : List Char) :
    segments (front ++ '/' :: back) = segments front ++ segments back := by
  simp [segments, splitOn_append_cons_self]

@[simp] theorem segments_nil : segments [] = [.stay] := rfl

theorem resolve_append (front back : List Char) :
    resolve (front ++ '/' :: back) = walk (resolve front) (segments back) := by
  rw [resolve, segments_append, walk_append, resolve]

def joined (components : List (List Char)) : List Char := ['/'].intercalate components

@[simp] theorem joined_nil : joined [] = [] := rfl

@[simp] theorem joined_singleton (component : List Char) : joined [component] = component := by
  simp [joined]

theorem joined_cons_cons (first second : List Char) (rest : List (List Char)) :
    joined (first :: second :: rest) = first ++ '/' :: joined (second :: rest) := by
  simp [joined]

theorem joined_cons {rest : List (List Char)} (first : List Char) (more : rest ≠ []) :
    joined (first :: rest) = first ++ '/' :: joined rest := by
  obtain ⟨second, rest, rfl⟩ := exists_cons_of_ne_nil more
  exact joined_cons_cons first second rest

variable {components : List (List Char)}

theorem joined_eq_nil (named : [] ∉ components)
    (empty : joined components = []) : components = [] := by
  cases components with
  | nil => rfl
  | cons first rest =>
    by_cases last : rest = []
    · rw [last, joined_singleton] at empty
      exact absurd (empty ▸ mem_cons_self) named
    · rw [joined_cons first last] at empty
      simp at empty

theorem joined_inj {first second : List (List Char)} (named : [] ∉ first ∧ [] ∉ second)
    (noSlash : (∀ name ∈ first, '/' ∉ name) ∧ ∀ name ∈ second, '/' ∉ name)
    (same : joined first = joined second) : first = second := by
  by_cases empty : first = []
  · rw [empty] at same
    rw [empty, joined_eq_nil named.2 same.symm]
  · have other : second ≠ [] := by
      rintro rfl
      exact empty (joined_eq_nil named.1 same)
    rw [← splitOn_intercalate '/' noSlash.1 empty, ← joined, same, joined,
      splitOn_intercalate '/' noSlash.2 other]

theorem joined_concat (components : List (List Char)) (last : List Char) :
    joined (components ++ [last]) = components.flatMap (· ++ ['/']) ++ last := by
  induction components with
  | nil => simp
  | cons first rest ih =>
    rw [cons_append, joined_cons _ (by simp), ih]
    simp

theorem walk_joined (place components : List (List Char))
    (plain : ∀ component ∈ components, Plain component) :
    walk place (segments (joined components)) = place ++ components := by
  by_cases empty : components = []
  · subst empty
    simp [move]
  · have apart : (joined components).splitOn '/' = components :=
      splitOn_intercalate '/' (fun component member => (plain component member).noSlash) empty
    have downs : components.map segOf = components.map .down :=
      map_congr_left fun component member => (plain component member).names
    rw [segments, apart, downs, walk_down]

theorem walk_segments_trailing (place : List (List Char)) (path : List Char) :
    walk place (segments (path ++ ['/'])) = walk place (segments path) := by
  rw [segments_append, walk_append]
  simp [move]

theorem walk_joined_trailing (place components : List (List Char))
    (plain : ∀ component ∈ components, Plain component) :
    walk place (segments (joined components ++ ['/'])) = place ++ components := by
  rw [walk_segments_trailing, walk_joined place components plain]

/-- A path with a separator after it, added only when it has none. -/
def slashed (path : List Char) : List Char :=
  if path.getLast? = some '/' then path else path ++ ['/']

variable (path : List Char)

theorem prefix_slashed : path <+: slashed path := by
  unfold slashed
  split
  · exact prefix_refl path
  · exact prefix_append path ['/']

theorem slashed_eq : ∃ stem, slashed path = stem ++ ['/'] ∧ resolve stem = resolve path := by
  unfold slashed
  split
  · rename_i closed
    obtain ⟨stem, rfl⟩ := getLast?_eq_some_iff.mp closed
    refine ⟨stem, rfl, ?_⟩
    rw [resolve_append]
    simp [move]
  · exact ⟨path, rfl, rfl⟩

theorem resolve_slashed_append (path back : List Char) :
    resolve (slashed path ++ back) = walk (resolve path) (segments back) := by
  obtain ⟨_, same, start⟩ := slashed_eq path
  simp [same, resolve_append, start]

theorem resolve_below (components : List (List Char))
    (plain : ∀ component ∈ components, Plain component) :
    resolve (slashed path ++ joined components) = resolve path ++ components := by
  rw [resolve_slashed_append, walk_joined _ _ plain]

theorem resolve_below_trailing (components : List (List Char))
    (plain : ∀ component ∈ components, Plain component) :
    resolve (slashed path ++ (joined components ++ ['/'])) = resolve path ++ components := by
  rw [resolve_slashed_append, walk_joined_trailing _ _ plain]

theorem segOf_eq_down {name : List Char} (enters : segOf component = .down name) :
    name = component := by
  unfold segOf at enters
  split at enters
  · cases enters
  · split at enters
    · cases enters
    · cases enters
      rfl

theorem noSlash_of_mem_splitOn {path : List Char} (member : component ∈ path.splitOn '/') :
    '/' ∉ component := by
  induction path generalizing component with
  | nil => simp_all
  | cons c rest ih =>
    rw [splitOn_cons_eq_if_modifyHead] at member
    split at member
    · rcases mem_cons.mp member with rfl | member
      · simp
      · exact ih member
    rename_i other
    obtain ⟨first, _, same⟩ := exists_cons_of_ne_nil (splitOn_ne_nil '/' rest)
    rw [same] at member
    rcases mem_cons.mp member with rfl | member
    · have inner := ih (same ▸ mem_cons_self : first ∈ rest.splitOn '/')
      simp only [mem_cons, not_or]
      exact ⟨fun slash => other (by simp [slash.symm]), inner⟩
    · exact ih (same ▸ mem_cons_of_mem _ member)

theorem move_plain {place : List (List Char)} (plain : ∀ name ∈ place, Plain name)
    (noSlash : '/' ∉ component) : ∀ name ∈ move place (segOf component), Plain name := by
  cases seg : segOf component with
  | stay => exact plain
  | up => exact fun name member => plain name (dropLast_subset place member)
  | down name =>
    have same := segOf_eq_down seg
    subst same
    exact forall_mem_append.mpr ⟨plain, forall_mem_singleton.mpr ⟨noSlash, seg⟩⟩

theorem walk_plain (components : List (List Char)) :
    ∀ place : List (List Char), (∀ name ∈ place, Plain name) →
      (∀ component ∈ components, '/' ∉ component) →
      ∀ name ∈ walk place (components.map segOf), Plain name := by
  induction components with
  | nil => exact fun place plain _ => plain
  | cons first rest ih =>
    intro place plain noSlash
    exact ih _ (move_plain plain (noSlash first mem_cons_self))
      (forall_mem_cons.mp noSlash).2

theorem resolve_plain : ∀ name ∈ resolve path, Plain name :=
  walk_plain _ [] (by simp) (fun _ member => noSlash_of_mem_splitOn member)

/-- Components written with a separator before each of them. -/
def rendered (components : List (List Char)) : List Char := components.flatMap ('/' :: ·)

@[simp] theorem rendered_nil : rendered [] = [] := rfl

@[simp] theorem rendered_cons (first : List Char) (rest : List (List Char)) :
    rendered (first :: rest) = '/' :: (first ++ rendered rest) := by simp [rendered]

theorem rendered_append (front back : List (List Char)) :
    rendered (front ++ back) = rendered front ++ rendered back := by simp [rendered]

theorem rendered_concat (front : List (List Char)) (last : List Char) :
    rendered (front ++ [last]) = rendered front ++ '/' :: last := by simp [rendered]

theorem rendered_eq (some' : components ≠ []) : rendered components = '/' :: joined components := by
  induction components with
  | nil => exact absurd rfl some'
  | cons first rest ih =>
    by_cases last : rest = []
    · simp [last]
    · rw [rendered_cons, ih last, joined_cons first last]

theorem rendered_splitOn : rendered (path.splitOn '/') = '/' :: path := by
  simp [rendered_eq (splitOn_ne_nil '/' path), joined]

theorem rendered_closed (noSlash : ∀ c ∈ components, '/' ∉ c) :
    (rendered components).getLast? = some '/' ↔ components.getLast? = some [] := by
  rcases eq_nil_or_concat components with rfl | ⟨front, last, rfl⟩
  · simp
  rw [concat_eq_append] at noSlash ⊢
  have noLast : '/' ∉ last := noSlash last (by simp)
  rcases eq_nil_or_concat last with rfl | ⟨start, c, rfl⟩
  · simp [rendered_append]
  · have other : c ≠ '/' := fun slash => noLast (by simp [slash])
    have ends : rendered (front ++ [start ++ [c]]) = (rendered front ++ '/' :: start) ++ [c] := by
      simp [rendered_append]
    rw [concat_eq_append, ends, getLast?_concat]
    simp [other]

theorem takeWhile_component (noSlash : '/' ∉ component) (rest : List (List Char)) :
    (component ++ rendered rest).takeWhile (· ≠ '/') = component := by
  have all : ∀ c ∈ component, decide (c ≠ '/') = true := by
    intro c member
    simp only [decide_eq_true_eq]
    exact fun slash => noSlash (slash ▸ member)
  rw [takeWhile_append_of_pos all]
  cases rest <;> simp

theorem component_eq_of_append {first second : List Char} {front back : List (List Char)}
    (noFirst : '/' ∉ first) (noSecond : '/' ∉ second)
    (same : first ++ rendered front = second ++ rendered back) : first = second := by
  rw [← takeWhile_component noFirst front, same, takeWhile_component noSecond back]

def trailing (path : List Char) : List Char :=
  if path.getLast? = some '/' then ['/'] else []

/-- The canonical absolute path: its resolution, keeping a trailing separator; `/` when nothing
is left. -/
def canonical (path : List Char) : List Char :=
  let out := rendered (resolve path) ++ trailing path
  if out = [] then ['/'] else out

theorem canonical_eq_joined :
    canonical path = '/' :: joined (resolve path) ++
      if path.getLast? = some '/' ∧ resolve path ≠ [] then ['/'] else [] := by
  unfold canonical trailing
  by_cases empty : resolve path = []
  · by_cases closed : path.getLast? = some '/'
    · simp [empty]
    · simp [empty]
  · rw [rendered_eq empty]
    simp [empty]

theorem canonical_eq : ∃ tail, canonical path = '/' :: (joined (resolve path) ++ tail) ∧
    (tail = [] ∨ tail = ['/']) ∧ (resolve path = [] → tail = []) := by
  refine ⟨_, canonical_eq_joined path, ?_, fun empty => if_neg fun both => both.2 empty⟩
  split
  · exact Or.inr rfl
  · exact Or.inl rfl

theorem resolve_canonical : resolve (canonical path) = resolve path := by
  obtain ⟨tail, same, shape, _⟩ := canonical_eq path
  have start : resolve ('/' :: (joined (resolve path) ++ tail)) =
      walk [] (segments (joined (resolve path) ++ tail)) := by
    exact resolve_append [] (joined (resolve path) ++ tail)
  rw [same, start]
  rcases shape with rfl | rfl
  · simp [walk_joined _ _ (resolve_plain path)]
  · simp [walk_joined_trailing _ _ (resolve_plain path)]

theorem canonical_closed {path : List Char} (some' : resolve path ≠ []) :
    (canonical path).getLast? = some '/' ↔ path.getLast? = some '/' := by
  have last := resolve_plain path _ (getLast_mem some')
  rw [canonical_eq_joined, ← dropLast_append_getLast some', joined_concat]
  by_cases closed : path.getLast? = some '/'
  · rw [if_pos ⟨closed, by simp⟩, getLast?_concat]
    simp [closed]
  · rw [if_neg fun both => closed both.1, append_nil, ← cons_append]
    exact iff_of_false (last.not_closed _) closed

theorem canonical_canonical : canonical (canonical path) = canonical path := by
  rw [canonical_eq_joined (canonical path), resolve_canonical, canonical_eq_joined path]
  by_cases empty : resolve path = []
  · simp [empty]
  · rw [← canonical_eq_joined path]
    simp only [canonical_closed empty]
    exact (canonical_eq_joined path).symm

end LexicalPath
