import Wzdftpd.CheckPath

/- Where the component loop of `checkpath_new` ends when neither a link entry
nor a virtual directory diverts it, in terms of components instead of text. -/
namespace Wzdftpd

open SegmentWalk LexicalPath List

/-- The directories entered, and the name that components are glued to after a regular file. -/
structure Place where
  dirs : List Text
  stem : Text

variable {name : Text}

namespace Place

def start : Place := ⟨[], []⟩

def text (place : Place) (root : Text) : Text :=
  slashed root ++ (place.dirs.flatMap (· ++ ['/']) ++ place.stem)

def components (place : Place) : List Text :=
  if place.stem = [] then place.dirs else place.dirs ++ [place.stem]

def enter (place : Place) (kind : FileKind) (name : Text) : Place :=
  if kind = .dir ∨ kind = .lnk then ⟨place.dirs ++ [place.stem ++ name], []⟩
  else ⟨place.dirs, place.stem ++ name⟩

/-- Every name of a position is plain, the open one included once it is not empty. -/
structure Tidy (place : Place) : Prop where
  dirs : ∀ name ∈ place.dirs, Plain name
  stem : place.stem ≠ [] → Plain place.stem

variable {place : Place}

theorem Tidy.stem_append (tidy : place.Tidy) (plain : Plain name) : Plain (place.stem ++ name) := by
  by_cases open' : place.stem = []
  · rw [open']
    exact plain
  · exact (tidy.stem open').append plain

theorem start_tidy : start.Tidy := ⟨by simp [start], fun open' => absurd rfl open'⟩

theorem Tidy.enter (tidy : place.Tidy) (kind : FileKind)
    (plain : Plain name) : (place.enter kind name).Tidy := by
  have longer := tidy.stem_append plain
  unfold Place.enter
  split
  · refine ⟨?_, fun open' => absurd rfl open'⟩
    exact forall_mem_append.mpr ⟨tidy.dirs, forall_mem_singleton.mpr longer⟩
  · exact ⟨tidy.dirs, fun _ => longer⟩

theorem Tidy.components {place : Place} (tidy : place.Tidy) :
    ∀ name ∈ place.components, Plain name := by
  unfold Place.components
  split
  · exact tidy.dirs
  · rename_i open'
    exact forall_mem_append.mpr ⟨tidy.dirs, forall_mem_singleton.mpr (tidy.stem open')⟩

theorem text_eq (place : Place) (root : Text) :
    place.text root = slashed root ++ joined place.components ∨
      place.text root = slashed root ++ (joined place.components ++ ['/']) := by
  unfold text components
  by_cases open' : place.stem = []
  · rw [if_pos open', open']
    rcases eq_nil_or_concat place.dirs with empty | ⟨front, last, same⟩
    · exact Or.inl (by simp [empty])
    · right
      rw [same, concat_eq_append, joined_concat]
      simp
  · rw [if_neg open', joined_concat]
    exact Or.inl rfl

theorem text_append (place : Place) (root name : Text) :
    place.text root ++ name = slashed root ++ joined (place.dirs ++ [place.stem ++ name]) := by
  rw [joined_concat, text]
  simp

theorem resolve_text (tidy : place.Tidy) (root : Text) :
    resolve (place.text root) = resolve root ++ place.components := by
  rcases place.text_eq root with same | same
  · rw [same, resolve_below root _ tidy.components]
  · rw [same, resolve_below_trailing root _ tidy.components]

end Place

/-- The loop while every component exists. -/
def follow (fs : FileSystem) (root : Text) : List Text → Place → Option Place
  | [], place => some place
  | name :: rest, place =>
    match fs.lstat (place.text root ++ name) with
    | none => none
    | some s => follow fs root rest (place.enter s.kind name)

variable {names : List Text}

theorem follow_tidy {fs : FileSystem} {root : Text}
    (plain : ∀ name ∈ names, Plain name) {place last : Place} (tidy : place.Tidy)
    (followed : follow fs root names place = some last) : last.Tidy := by
  induction names generalizing place with
  | nil =>
    cases followed
    exact tidy
  | cons name rest ih =>
    rw [follow] at followed
    split at followed
    · cases followed
    · exact ih (forall_mem_cons.mp plain).2
        (tidy.enter _ (plain name mem_cons_self)) followed

/-- No link entry and no virtual directory answers for one of the names
anywhere below the root. -/
def NoEntryMatches (fs : FileSystem) (server : Server) (user : User) (names : List Text) : Prop :=
  ∀ below, ∀ name ∈ names, redirect fs server user (slashed user.rootpath ++ below) name = none

/-- What is left to read of a path whose components are `names`. -/
def remaining (tail : Text) (names : List Text) : Text :=
  if names = [] then [] else joined names ++ tail

variable {tail : Text}

theorem remaining_cons (rest : List Text) (plain : Plain name) (shape : tail = [] ∨ tail = ['/']) :
    (remaining tail (name :: rest)).takeWhile (· ≠ '/') = name ∧
      ((remaining tail (name :: rest)).dropWhile (· ≠ '/')).tail = remaining tail rest := by
  have all : ∀ c ∈ name, decide (c ≠ '/') = true := by
    intro c member
    simp only [decide_eq_true_eq]
    exact fun slash => plain.noSlash (slash ▸ member)
  rw [remaining, if_neg (cons_ne_nil _ _), remaining]
  by_cases last : rest = []
  · rw [last, joined_singleton, takeWhile_append_of_pos all, dropWhile_append_of_pos all]
    rcases shape with rfl | rfl <;> simp
  · rw [joined_cons name last, if_neg last, append_assoc, takeWhile_append_of_pos all,
      dropWhile_append_of_pos all]
    simp

theorem remaining_ne_nil (rest : List Text) (plain : Plain name) :
    remaining tail (name :: rest) ≠ [] := by
  rw [remaining]
  by_cases last : rest = []
  · simp [last, plain.ne_nil]
  · simp [joined_cons name last]

theorem remaining_eq_nil (plain : ∀ name ∈ names, Plain name) :
    remaining tail names = [] ↔ names = [] := by
  cases names with
  | nil => simp [remaining]
  | cons name rest => simp [remaining_ne_nil rest (plain name mem_cons_self)]

/-- How a run of the loop ends, by its return code. -/
inductive Ends (fs : FileSystem) (root : Text) (names : List Text) (place : Place) :
    Resolved → Prop
  | found (last : Place) (followed : follow fs root names place = some last) :
      Ends fs root names place ⟨.ok, some (last.text root)⟩
  | missing (front : List Text) (name : Text) (last : Place) (split : names = front ++ [name])
      (followed : follow fs root front place = some last)
      (absent : fs.lstat (last.text root ++ name) = none) :
      Ends fs root names place ⟨.fileNoExist, some (last.text root ++ name)⟩
  | refused (code : Errno) (failed : code ≠ .ok) (unnamed : code ≠ .fileNoExist) :
      Ends fs root names place ⟨code, none⟩

theorem Ends.enter {fs : FileSystem} {root : Text} {rest : List Text} {place : Place}
    {result : Resolved} {s : FileStat} (found : fs.lstat (place.text root ++ name) = some s)
    (ends : Ends fs root rest (place.enter s.kind name) result) :
    Ends fs root (name :: rest) place result := by
  have first : ∀ names, follow fs root (name :: names) place =
      follow fs root names (place.enter s.kind name) := by
    intro names
    rw [follow, found]
  cases ends with
  | found last followed => exact .found last ((first rest).trans followed)
  | missing front other last split followed absent =>
    exact .missing (name :: front) other last (by simp [split])
      ((first front).trans followed) absent
  | refused code failed unnamed => exact .refused code failed unnamed

theorem slashed_text_enter (place : Place) (root name : Text) (plain : Plain name) (kind : FileKind)
    (directory : kind = .dir ∨ kind = .lnk) :
    slashed (place.text root ++ name) = (place.enter kind name).text root := by
  rw [slashed, if_neg (plain.not_closed _), Place.enter, if_pos directory, Place.text, Place.text]
  simp [flatMap_append]

theorem text_enter_file (place : Place) (root name : Text) (kind : FileKind)
    (file : ¬(kind = .dir ∨ kind = .lnk)) :
    place.text root ++ name = (place.enter kind name).text root := by
  rw [Place.enter, if_neg file, Place.text, Place.text]
  simp

variable (fs : FileSystem) (server : Server)

/-- The loop follows the components for as long as they exist. -/
theorem checkpathLoop_ends (user : User) (tail : Text)
    (shape : tail = [] ∨ tail = ['/']) (names : List Text) (plain : ∀ name ∈ names, Plain name)
    (unmatched : NoEntryMatches fs server user names) :
    ∀ (turns : Nat) (place : Place), names.length ≤ turns →
      Ends fs user.rootpath names place
        (checkpathLoop fs server user turns (remaining tail names) (place.text user.rootpath)) := by
  induction names with
  | nil =>
    intro turns place _
    have done :
        checkpathLoop fs server user turns (remaining tail []) (place.text user.rootpath) =
        ⟨.ok, some (place.text user.rootpath)⟩ := by
      cases turns <;> simp [checkpathLoop, remaining]
    rw [done]
    exact .found place rfl
  | cons name rest ih =>
    intro turns place enough
    obtain ⟨turns, rfl⟩ : ∃ more, turns = more + 1 :=
      ⟨turns - 1, by rw [length_cons] at enough; omega⟩
    have plainName := plain name mem_cons_self
    have plainRest : ∀ other ∈ rest, Plain other :=
      (forall_mem_cons.mp plain).2
    have next := ih plainRest
      (fun below other member => unmatched below other (mem_cons_of_mem _ member)) turns
    have few : rest.length ≤ turns := by
      rw [length_cons] at enough
      omega
    obtain ⟨left, right⟩ := remaining_cons rest plainName shape
    have none' : redirect fs server user (place.text user.rootpath) name = none :=
      unmatched _ name mem_cons_self
    rw [checkpathLoop, if_neg (remaining_ne_nil rest plainName)]
    simp only [left, right, if_neg plainName.ne_nil, lookup]
    cases found : fs.lstat (place.text user.rootpath ++ name) with
    | none =>
      simp only [none', remaining_eq_nil plainRest]
      split
      · rename_i last
        subst last
        exact .missing [] name place rfl rfl found
      · exact .refused .wrongPath (by decide) (by decide)
    | some s =>
      by_cases directory : s.kind = .dir ∨ s.kind = .lnk
      · simp only [if_pos directory]
        split
        · exact .refused .noPerm (by decide) (by decide)
        · rw [slashed_text_enter place _ name plainName s.kind directory]
          exact (next _ few).enter found
      · simp only [if_neg directory]
        rw [text_enter_file place _ name s.kind directory]
        exact (next _ few).enter found

theorem length_le_joined (plain : ∀ name ∈ names, Plain name) :
    names.length ≤ (joined names).length := by
  induction names with
  | nil => simp
  | cons name rest ih =>
    have positive : 0 < name.length :=
      length_pos_iff.mpr (plain name mem_cons_self).ne_nil
    have more := ih (forall_mem_cons.mp plain).2
    by_cases last : rest = []
    · simp [last]
      omega
    · rw [joined_cons name last]
      simp
      omega

theorem checkpathAbsolute_ends (user : User) {wanted : Text} (absolute : wanted.head? = some '/')
    (unmatched : NoEntryMatches fs server user (resolve wanted)) :
    Ends fs user.rootpath (resolve wanted) .start (checkpathAbsolute fs server user wanted) := by
  obtain ⟨rest, rfl⟩ : ∃ rest, wanted = '/' :: rest := head?_eq_some_iff.mp absolute
  obtain ⟨tail, same, shape, empty⟩ := canonical_eq ('/' :: rest)
  have plain := resolve_plain ('/' :: rest)
  have few := length_le_joined plain
  have left : joined (resolve ('/' :: rest)) ++ tail = remaining tail (resolve ('/' :: rest)) := by
    unfold remaining
    split
    · rename_i none'
      simp [none', empty none', joined_nil]
    · rfl
  have start : slashed user.rootpath = Place.start.text user.rootpath := by
    simp [Place.text, Place.start]
  rw [checkpathAbsolute, pathSimplify_eq, same]
  rw [left, start]
  apply checkpathLoop_ends fs server user tail shape _ plain unmatched
  rw [← left]
  simp
  omega

/-- The path a client means: from the root, or from the current path. -/
def ftpPath (ctx : Context) (wanted : Text) : Text :=
  if wanted.head? = some '/' then wanted else relativePath ctx.currentpath.text wanted

theorem relativePath_absolute (current : CurrentPath) (wanted : Text) :
    (relativePath current.text wanted).head? = some '/' := by
  obtain ⟨rest, same⟩ : ∃ rest, current.text = '/' :: rest :=
    head?_eq_some_iff.mp current.absolute
  rw [relativePath, same]
  split_ifs with _ more
  · rfl
  · rfl
  · cases rest with
    | nil => exact absurd rfl more
    | cons c rest => rfl

/-- Every call of the resolver ends where following the components of the
client's path from the user's root ends, or writes nothing. -/
theorem checkpathNew_ends (ctx : Context) (user : User)
    (wanted : Text) (known : server.getUserByID ctx.userid = some user)
    (unmatched : NoEntryMatches fs server user (resolve (ftpPath ctx wanted))) :
    Ends fs user.rootpath (resolve (ftpPath ctx wanted)) .start
      (checkpathNew fs server ctx (some wanted)) := by
  simp only [checkpathNew, known]
  split
  · exact .refused .paramInvalid (by decide) (by decide)
  split
  · exact .refused .paramBig (by decide) (by decide)
  split
  · rename_i relative
    have ftp : ftpPath ctx wanted = relativePath ctx.currentpath.text wanted := if_neg relative
    have absolute := relativePath_absolute ctx.currentpath wanted
    rw [ftp] at unmatched ⊢
    split_ifs
    · exact .refused .wrongPath (by decide) (by decide)
    · exact .refused .paramBig (by decide) (by decide)
    obtain ⟨rest, same⟩ : ∃ rest, relativePath ctx.currentpath.text wanted = '/' :: rest :=
      head?_eq_some_iff.mp absolute
    rw [same] at unmatched ⊢
    rw [← resolve_pathSimplify rest] at unmatched ⊢
    apply checkpathAbsolute_ends fs server user _ unmatched
    obtain ⟨_, shape, _⟩ := canonical_eq ('/' :: rest)
    rw [pathSimplify_eq, shape]
    rfl
  · rename_i absolute
    have head : wanted.head? = some '/' := Decidable.not_not.mp absolute
    have ftp : ftpPath ctx wanted = wanted := if_pos head
    rw [ftp] at unmatched ⊢
    exact checkpathAbsolute_ends fs server user head unmatched

end Wzdftpd
