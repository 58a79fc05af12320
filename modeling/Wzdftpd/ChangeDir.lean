import Wzdftpd.Resolver
import Wzdftpd.StripDir

/- `do_chdir` of wzd_ClientThread.c. The directory is checked under the path that
`checkpath_new` makes of the request; the path that is stored is made of the same request by
two calls of `stripdir`. -/
namespace Wzdftpd

open SegmentWalk LexicalPath TextBuffer List Option

abbrev PathArray := { array : List Char // array.length = maxPath }

/-- The arrays of `do_chdir`, whether those that `stripdir` writes lie below the paths it
reads, and the answer of `getcwd`. -/
structure ChdirMemory where
  currentpath : PathArray
  buffer2 : PathArray
  path : PathArray
  buffer2Below : Bool
  pathBelow : Bool
  cwd : Option (List Char)

/-- What is left in `buffer`: the path that is asked for. -/
def chdirBuffer (ctx : Context) (wanted : Text) : Option Text :=
  if wanted.head? = some '/' then if wanted.length < maxPath then some wanted else none
  else some ((slashed ctx.currentpath.text ++ wanted).take (maxPath - 1))

def storePath (memory : ChdirMemory) (ctx : Context) (buffer : Text) : Option Text :=
  (stripdir memory.buffer2Below memory.cwd buffer memory.buffer2.1 (maxPath - 1)).bind
    fun first =>
      (place memory.currentpath.1 0 (ctx.currentpath.text ++ ['\x00'])).bind fun array =>
        (copyText array first.2 (maxPath - 1)).bind fun array =>
          (terminated array).bind fun current =>
            (stripdir memory.pathBelow memory.cwd current memory.path.1 maxPath).bind
              fun second =>
                if second.1 then (copyText array second.2 (maxPath - 1)).bind terminated
                else some current

/-- `do_chdir`: the code it returns and the current path. -/
def doChdir (fs : FileSystem) (server : Server) (memory : ChdirMemory) (ctx : Context)
    (wantedPath : Option Text) : Option (Errno × Text) :=
  (server.getUserByID ctx.userid).bind fun user =>
    if !user.may .cwd then some (.noPerm, ctx.currentpath.text)
    else
      match wantedPath with
      | none => some (.wrongPath, ctx.currentpath.text)
      | some wanted =>
        match checkpathNew fs server ctx (some wanted) with
        | ⟨.ok, some path⟩ =>
          if isHiddenFile server path then some (.fileForbidden, ctx.currentpath.text)
          else
            match fs.stat (removeTrailingSlash path) with
            | none => some (.fileNoExist, ctx.currentpath.text)
            | some s =>
              if s.kind = .dir then
                ((chdirBuffer ctx wanted).bind (storePath memory ctx)).map fun current =>
                  (.ok, current)
              else some (.notDir, ctx.currentpath.text)
        | ⟨ret, _⟩ => some (ret, ctx.currentpath.text)

section Strip

variable {below first second : Bool} {last rest : List Char} {front names : List (List Char)}

theorem stripped_length (below : Bool) (rest : List Char) :
    (joined (walk [] (stripSegs below (rest.splitOn '/')))).length ≤ rest.length := by
  have bound := rendered_walk_le below (rest.splitOn '/') []
  rw [rendered_splitOn, length_cons, rendered_nil, length_nil] at bound
  by_cases empty : walk [] (stripSegs below (rest.splitOn '/')) = []
  · rw [empty]
    exact Nat.zero_le _
  · rw [rendered_eq empty, length_cons] at bound
    omega

theorem strip_kept (noSlash : ∀ name ∈ names ++ [last], '/' ∉ name)
    (kept : ∀ name ∈ names, stripSeg name = .down name) :
    walk [] (stripSegs below ((joined (names ++ [last])).splitOn '/')) =
      move names (lastSeg below last) := by
  have same : names.map stripSeg = names.map .down := map_congr_left kept
  rw [joined, splitOn_intercalate '/' noSlash (by simp), walk_stripSegs_concat, same,
    walk_down, nil_append]

theorem lastSeg_and_of_lower (lower : ∀ name, lastSeg first last ≠ .down name) :
    lastSeg (first && second) last = lastSeg first last := by
  cases first with
  | false => rfl
  | true =>
    by_cases empty : last = []
    · rw [empty, lastSeg, if_neg fun both => both.1 rfl, lastSeg, if_neg fun both => both.1 rfl]
    · exact absurd (if_pos ⟨empty, rfl⟩) (lower last)

theorem lastSeg_and_of_down (down : lastSeg first last = .down last) :
    lastSeg (first && second) last = lastSeg second last := by
  cases first with
  | true => rfl
  | false =>
    rw [Bool.false_and, down]
    rw [lastSeg, if_neg fun both => Bool.false_ne_true both.2] at down
    exact (lastSeg_of_segOf down).symm

/-- Stripping twice takes a last component for a name only if both calls do. -/
theorem strip_again (first second : Bool) (noSlash : ∀ name ∈ front ++ [last], '/' ∉ name) :
    walk [] (stripSegs second
        ((joined (walk [] (stripSegs first (front ++ [last])))).splitOn '/')) =
      move (walk [] (front.map stripSeg)) (lastSeg (first && second) last) := by
  rw [walk_stripSegs_concat]
  have kept : ∀ name ∈ walk [] (front.map stripSeg), stripSeg name = .down name ∧ '/' ∉ name := by
    intro name member
    obtain ⟨down, inside⟩ := stripSeg_of_mem member
    exact ⟨down, noSlash name (mem_append_left _ inside)⟩
  generalize walk [] (front.map stripSeg) = st at kept
  -- what is left when the last component is no name
  have unmoved : ∀ names : List (List Char), names <+: st →
      walk [] (stripSegs second ((joined names).splitOn '/')) = names := by
    intro names part
    rcases eq_nil_or_concat names with rfl | ⟨init, name, rfl⟩
    · rfl
    rw [concat_eq_append] at part ⊢
    have known : ∀ other ∈ init ++ [name], stripSeg other = .down other ∧ '/' ∉ other :=
      fun other member => kept other (part.subset member)
    rw [strip_kept (fun other member => (known other member).2)
      (fun other member => (known other (mem_append_left _ member)).1),
      lastSeg_of_segOf (segOf_of_stripSeg (known name (by simp)).1)]
    rfl
  cases seg : lastSeg first last with
  | stay =>
    rw [lastSeg_and_of_lower (by rw [seg]; simp), seg]
    exact unmoved st (prefix_refl st)
  | up =>
    rw [lastSeg_and_of_lower (by rw [seg]; simp), seg]
    exact unmoved st.dropLast (List.dropLast_prefix st)
  | down name =>
    obtain rfl := lastSeg_eq_down seg
    rw [lastSeg_and_of_down seg]
    refine strip_kept (fun other member => ?_) fun other member => (kept other member).1
    rcases mem_append.mp member with member | member
    · exact (kept other member).2
    · exact noSlash other (mem_append_right _ member)

theorem storePath_eq (memory : ChdirMemory) {ctx : Context} (clean : '\x00' ∉ rest)
    (short : rest.length + 2 < maxPath) (room : ctx.currentpath.text.length < maxPath)
    (parts : rest.splitOn '/' = front ++ [last]) :
    storePath memory ctx ('/' :: rest) = some ('/' :: joined (move (walk [] (front.map stripSeg))
        (lastSeg (memory.buffer2Below && memory.pathBelow) last))) := by
  have noSlash : ∀ name ∈ front ++ [last], '/' ∉ name := by
    rw [← parts]
    exact fun name member => noSlash_of_mem_splitOn member
  have again := strip_again memory.buffer2Below memory.pathBelow noSlash
  rw [← parts] at again
  obtain ⟨first, ran, written, size⟩ := stripdir_absolute memory.buffer2Below memory.cwd
    (maxPath - 1) clean (by omega) (memory.buffer2.2.symm ▸ short)
  have length := stripped_length memory.buffer2Below rest
  generalize walk [] (stripSegs memory.buffer2Below (rest.splitOn '/')) = names at *
  have count : (text first).length = (joined names).length + 1 := by simp [written]
  rw [memory.buffer2.2] at size
  obtain ⟨array, placed⟩ :
      ∃ array, place memory.currentpath.1 0 (ctx.currentpath.text ++ ['\x00']) = some array := by
    refine ⟨_, if_pos ?_⟩
    rw [memory.currentpath.2, length_append, length_singleton]
    omega
  have arrayLength : array.length = maxPath := (place_length placed).trans memory.currentpath.2
  obtain ⟨stored, copied, current, _⟩ := copyText_text array first
    (maxPath - 1) (by omega) (by omega) (by omega)
  have clean' : '\x00' ∉ joined names := by
    intro null
    have impossible : '\x00' ∉ text first := null_notMem_text
    rw [written] at impossible
    exact impossible (mem_cons_of_mem _ null)
  obtain ⟨second, ran', written', size'⟩ := stripdir_absolute memory.pathBelow memory.cwd
    maxPath clean' (by omega) (by rw [memory.path.2]; omega)
  have length' := stripped_length memory.pathBelow (joined names)
  rw [again] at written' length'
  have count' := congrArg List.length written'
  rw [length_cons] at count'
  rw [memory.path.2] at size'
  obtain ⟨_, copied', ends, _⟩ := copyText_text stored second
    (maxPath - 1) (by omega) (by omega) (by omega)
  rw [written] at current
  simp [storePath, ran, placed, copied, current, ran', copied', ends, written']

end Strip

/-- A name whose last one or two characters are dots, and not these dots alone. -/
def DotEnded (name : Text) : Prop :=
  endDots name = 1 ∧ name ≠ ['.'] ∨ endDots name = 2 ∧ name ≠ ['.', '.']

instance (name : Text) : Decidable (DotEnded name) := inferInstanceAs (Decidable (_ ∨ _))

/-- Behind each such name that a separator follows, the path climbs to the root. -/
def DotsClimbed (path : Text) : Prop :=
  ∀ front name rest, path.splitOn '/' = front ++ name :: rest → rest ≠ [] → DotEnded name →
    (walk [] ((front ++ [name]).map segOf)).length ≤ (net (rest.map segOf)).ups

/-- The last component is `.` or `..`. -/
def EndsInDots (path : Text) : Prop :=
  (path.splitOn '/').getLast? = some ['.'] ∨ (path.splitOn '/').getLast? = some ['.', '.']

section Compare

variable {both : Bool} {component last : List Char} {front : List (List Char)}

theorem stripSeg_of_dotEnded (ended : DotEnded component) :
    (stripSeg component = .stay ∨ stripSeg component = .up) ∧
      segOf component = .down component := by
  have named : component ≠ [] := by
    rintro rfl
    revert ended
    decide
  have stays : endDots component = 1 → stripSeg component = .stay := fun one => if_pos (Or.inr one)
  rcases ended with ⟨one, other⟩ | ⟨two, other⟩
  · refine ⟨Or.inl (stays one), (segOf_down_iff component).mpr ⟨named, other, ?_⟩⟩
    rintro rfl
    revert one
    decide
  · have climbs : stripSeg component = .up := by
      rw [stripSeg, if_neg (by simp [named, two]), if_pos two]
    refine ⟨Or.inr climbs, (segOf_down_iff component).mpr ⟨named, ?_, other⟩⟩
    rintro rfl
    revert two
    decide

theorem stripSeg_of_not_dotEnded (plain : ¬DotEnded component) :
    stripSeg component = segOf component := by
  unfold stripSeg segOf
  by_cases empty : component = []
  · rw [if_pos (Or.inl empty), if_pos (Or.inl empty)]
  by_cases one : endDots component = 1
  · have dot : component = ['.'] := by
      by_contra other
      exact plain (Or.inl ⟨one, other⟩)
    rw [if_pos (Or.inr one), if_pos (Or.inr dot)]
  · by_cases two : endDots component = 2
    · have dots : component = ['.', '.'] := by
        by_contra other
        exact plain (Or.inr ⟨two, other⟩)
      rw [dots]
      decide
    · have dot : component ≠ ['.'] := by
        rintro rfl
        exact one rfl
      have dots : component ≠ ['.', '.'] := by
        rintro rfl
        exact two rfl
      rw [if_neg (by simp [empty, one]), if_neg two, if_neg (by simp [empty, dot]), if_neg dots]

theorem stripSeg_ne_iff : stripSeg component ≠ segOf component ↔ DotEnded component := by
  constructor
  · intro differ
    by_contra plain
    exact differ (stripSeg_of_not_dotEnded plain)
  · intro ended same
    obtain ⟨lower, down⟩ := stripSeg_of_dotEnded ended
    rw [same, down] at lower
    rcases lower with impossible | impossible <;> cases impossible

theorem stripSeg_lag (component : List Char) : stripSeg component = segOf component ∨
    (stripSeg component = .stay ∨ stripSeg component = .up) ∧
      ∃ name, segOf component = .down name := by
  by_cases ended : DotEnded component
  · obtain ⟨lower, down⟩ := stripSeg_of_dotEnded ended
    exact Or.inr ⟨lower, component, down⟩
  · exact Or.inl (stripSeg_of_not_dotEnded ended)

theorem strip_front_eq_iff :
    walk [] (front.map stripSeg ++ [segOf last]) = walk [] ((front ++ [last]).map segOf) ↔
      ∀ before name behind, front ++ [last] = before ++ name :: behind → behind ≠ [] →
        DotEnded name →
        (walk [] ((before ++ [name]).map segOf)).length ≤ (net (behind.map segOf)).ups := by
  have closed : ∀ inner, (inner ++ [last]).map segOf = inner.map segOf ++ [segOf last] :=
    fun inner => map_append
  rw [closed, walk_map_eq_iff stripSeg_lag [segOf last] front (Sublist.refl [])]
  constructor
  · rintro ⟨_, climbs⟩ before name behind split more ended
    obtain ⟨inner, final, rfl⟩ : ∃ inner final, behind = inner ++ [final] :=
      ⟨_, _, (dropLast_append_getLast more).symm⟩
    rw [← cons_append, ← append_assoc] at split
    obtain ⟨parts, same⟩ := append_inj' split rfl
    cases same
    rw [closed]
    exact climbs before name inner parts (stripSeg_ne_iff.mpr ended)
  · intro climbs
    refine ⟨fun differ => absurd rfl differ, fun before name inner parts differ => ?_⟩
    rw [← closed]
    exact climbs before name (inner ++ [last]) (by rw [parts]; simp) (by simp)
      (stripSeg_ne_iff.mp differ)

theorem lastSeg_eq_segOf (other : ¬(both = true ∧ (last = ['.'] ∨ last = ['.', '.']))) :
    lastSeg both last = segOf last := by
  unfold lastSeg
  split
  · rename_i taken
    have plain := not_or.mp fun dots => other ⟨taken.2, dots⟩
    exact ((segOf_down_iff last).mpr ⟨taken.1, plain⟩).symm
  · rfl

theorem strip_eq_iff (both : Bool) (noSlash : ∀ name ∈ front ++ [last], '/' ∉ name) :
    move (walk [] (front.map stripSeg)) (lastSeg both last) =
        walk [] ((front ++ [last]).map segOf) ↔
      (∀ before name behind, front ++ [last] = before ++ name :: behind → behind ≠ [] →
        DotEnded name →
        (walk [] ((before ++ [name]).map segOf)).length ≤ (net (behind.map segOf)).ups) ∧
      ¬(both = true ∧ (last = ['.'] ∨ last = ['.', '.'])) := by
  rw [← strip_front_eq_iff]
  by_cases dots : both = true ∧ (last = ['.'] ∨ last = ['.', '.'])
  · refine ⟨fun equal => absurd dots ?_, fun equal => absurd dots equal.2⟩
    -- the last component is kept, and it is no name of a resolved path
    have named : last ≠ [] := by
      rintro rfl
      simp at dots
    have down : lastSeg both last = .down last := if_pos ⟨named, dots.1⟩
    have plain := walk_plain (front ++ [last]) [] (by simp) noSlash
    rw [← equal, down] at plain
    obtain ⟨_, _, one, two⟩ := (plain_iff last).mp (plain last (by simp [move]))
    exact fun dots => dots.2.elim one two
  · rw [lastSeg_eq_segOf dots, walk_append]
    exact ⟨fun equal => ⟨equal, dots⟩, fun equal => equal.1⟩

end Compare

/-- What a session stands in: an absolute path without anything to simplify. -/
def Context.Canonical (ctx : Context) : Prop :=
  ctx.currentpath.text = '/' :: joined (resolve ctx.currentpath.text)

theorem chdirBuffer_eq {ctx : Context} {wanted : Text} (canonical : ctx.Canonical)
    (fits : (ftpPath ctx wanted).length + 1 < maxPath) :
    chdirBuffer ctx wanted = some (ftpPath ctx wanted) := by
  unfold chdirBuffer ftpPath at *
  by_cases absolute : wanted.head? = some '/'
  · rw [if_pos absolute] at fits ⊢
    rw [if_pos absolute, if_pos (by omega)]
  rw [if_neg absolute] at fits ⊢
  have same : slashed ctx.currentpath.text ++ wanted =
      relativePath ctx.currentpath.text wanted := by
    unfold slashed relativePath
    by_cases closed : ctx.currentpath.text.getLast? = some '/'
    · have root : ctx.currentpath.text = ['/'] := by
        by_contra other
        have names : resolve ctx.currentpath.text ≠ [] := by
          intro none'
          rw [Context.Canonical, none'] at canonical
          exact other canonical
        have plain := resolve_plain ctx.currentpath.text
        rw [canonical, ← rendered_eq names,
          rendered_closed fun name member => (plain name member).noSlash] at closed
        exact (plain [] (mem_of_getLast? closed)).ne_nil rfl
      rw [root]
      rfl
    · simp [closed]
  rw [if_neg absolute, same, take_of_length_le (by omega)]

section Chdir

variable {fs : FileSystem} {server : Server} {memory : ChdirMemory} {ctx : Context} {user : User}
variable {wanted path after : Text}

theorem null_notMem_ftpPath (clean : '\x00' ∉ ctx.currentpath.text ∧ '\x00' ∉ wanted) :
    '\x00' ∉ ftpPath ctx wanted := by
  obtain ⟨here, there⟩ := clean
  unfold ftpPath relativePath
  split_ifs
  · exact there
  · simp [here, there]
  · simp [there]
  · intro null
    rcases mem_append.mp null with null | null
    · exact here (dropLast_subset _ null)
    · exact there null

theorem doChdir_of_checked (user : User) (known : server.getUserByID ctx.userid = some user)
    (allowed : user.may .cwd)
    (checked : checkpathNew fs server ctx (some wanted) = ⟨.ok, some path⟩)
    (visible : isHiddenFile server path = false)
    (directory : (fs.stat (removeTrailingSlash path)).map (·.kind) = some .dir)
    {buffer : Text} (asked : chdirBuffer ctx wanted = some buffer)
    (stored : storePath memory ctx buffer = some after) :
    doChdir fs server memory ctx (some wanted) = some (.ok, after) := by
  obtain ⟨_, found, kind⟩ := map_eq_some_iff.mp directory
  simp [doChdir, known, allowed, checked, visible, found, kind, asked, stored]

theorem doChdir_stored (known : server.getUserByID ctx.userid = some user)
    (checked : checkpathNew fs server ctx (some wanted) = ⟨.ok, some path⟩)
    (success : doChdir fs server memory ctx (some wanted) = some (.ok, after)) :
    (chdirBuffer ctx wanted).bind (storePath memory ctx) = some after := by
  simp only [doChdir, known, bind_some, checked] at success
  split at success
  · cases success
  split at success
  · cases success
  split at success
  · cases success
  · split at success
    · obtain ⟨_, same, equal⟩ := map_eq_some_iff.mp success
      cases equal
      exact same
    · cases success

theorem storePath_components (memory : ChdirMemory) (clean : '\x00' ∉ ftpPath ctx wanted)
    (fits : (ftpPath ctx wanted).length + 1 < maxPath)
    (room : ctx.currentpath.text.length < maxPath) :
    ∃ front last, (ftpPath ctx wanted).splitOn '/' = front ++ [last] ∧
      storePath memory ctx (ftpPath ctx wanted) =
        some ('/' :: joined (move (walk [] (front.map stripSeg))
          (lastSeg (memory.buffer2Below && memory.pathBelow) last))) := by
  obtain ⟨rest, absolute⟩ : ∃ rest, ftpPath ctx wanted = '/' :: rest := by
    refine head?_eq_some_iff.mp ?_
    unfold ftpPath
    split
    · assumption
    · exact relativePath_absolute ctx.currentpath wanted
  rw [absolute] at clean fits ⊢
  obtain ⟨front, last, parts⟩ : ∃ front last, rest.splitOn '/' = front ++ [last] :=
    ⟨_, _, (dropLast_append_getLast (splitOn_ne_nil '/' rest)).symm⟩
  refine ⟨[] :: front, last, by rw [Stripping.splitOn_slash, parts]; rfl, ?_⟩
  rw [storePath_eq memory (fun null => clean (mem_cons_of_mem _ null)) fits room parts]
  rfl

theorem stripped_names (both : Bool) {front : List (List Char)} {last name : List Char}
    (noSlash : ∀ name ∈ front ++ [last], '/' ∉ name)
    (member : name ∈ move (walk [] (front.map stripSeg)) (lastSeg both last)) :
    name ≠ [] ∧ '/' ∉ name := by
  have kept : ∀ name ∈ walk [] (front.map stripSeg), name ≠ [] ∧ '/' ∉ name := by
    intro name member
    obtain ⟨down, inside⟩ := stripSeg_of_mem member
    refine ⟨?_, noSlash name (mem_append_left _ inside)⟩
    rintro rfl
    cases down
  cases seg : lastSeg both last with
  | stay =>
    rw [seg] at member
    exact kept name member
  | up =>
    rw [seg] at member
    exact kept name (dropLast_subset _ member)
  | down other =>
    obtain rfl := lastSeg_eq_down seg
    rw [seg] at member
    rcases mem_append.mp member with member | member
    · exact kept name member
    · rw [mem_singleton.mp member]
      refine ⟨?_, noSlash other (by simp)⟩
      rintro rfl
      cases both <;> cases seg

end Chdir

/-- A successful `CWD` stores the simplified request, and that is the directory that was
checked, exactly when three conditions hold: behind each name with one or two dots at its end
that a separator follows, the request climbs to the root; a last `.` or `..` is not read in
two buffers that both lie below the path; and the request runs through directories. -/
theorem doChdir_checked_iff (fs : FileSystem) (server : Server) (memory : ChdirMemory)
    (ctx : Context) (user : User) (wanted path after : Text)
    (known : server.getUserByID ctx.userid = some user) (canonical : ctx.Canonical)
    (clean : '\x00' ∉ ctx.currentpath.text ∧ '\x00' ∉ wanted)
    (fits : ctx.currentpath.text.length < maxPath ∧ (ftpPath ctx wanted).length + 1 < maxPath)
    (unmatched : NoEntryMatches fs server user (resolve (ftpPath ctx wanted)))
    (checked : checkpathNew fs server ctx (some wanted) = ⟨.ok, some path⟩)
    (success : doChdir fs server memory ctx (some wanted) = some (.ok, after)) :
    (after = '/' :: joined (resolve (ftpPath ctx wanted)) ∧
        WrittenBelow user.rootpath (resolve after) path) ↔
      DotsClimbed (ftpPath ctx wanted) ∧
        ¬(memory.buffer2Below ∧ memory.pathBelow ∧ EndsInDots (ftpPath ctx wanted)) ∧
        ThroughDirectories fs user.rootpath (resolve (ftpPath ctx wanted)) := by
  obtain ⟨front, last, parts, stored⟩ := storePath_components memory
    (null_notMem_ftpPath clean) fits.2 fits.1
  have kept := doChdir_stored known checked success
  rw [chdirBuffer_eq canonical fits.2, bind_some, stored, some.injEq] at kept
  have noSlash : ∀ name ∈ front ++ [last], '/' ∉ name := by
    rw [← parts]
    exact fun name member => noSlash_of_mem_splitOn member
  have resolved : resolve (ftpPath ctx wanted) = walk [] ((front ++ [last]).map segOf) := by
    rw [← parts]
    rfl
  have plain := resolve_plain (ftpPath ctx wanted)
  have equal : after = '/' :: joined (resolve (ftpPath ctx wanted)) ↔
      DotsClimbed (ftpPath ctx wanted) ∧
        ¬(memory.buffer2Below ∧ memory.pathBelow ∧ EndsInDots (ftpPath ctx wanted)) := by
    have names := fun name (member : name ∈ _) =>
      stripped_names (memory.buffer2Below && memory.pathBelow) noSlash member
    have compare := strip_eq_iff (memory.buffer2Below && memory.pathBelow) noSlash
    rw [← resolved] at compare
    rw [← kept, cons.injEq, DotsClimbed, EndsInDots, parts, getLast?_concat,
      some.injEq, some.injEq, ← and_assoc, ← Bool.and_eq_true, ← compare]
    constructor
    · rintro ⟨_, same⟩
      exact joined_inj
        ⟨fun none' => (names [] none').1 rfl, fun none' => (plain [] none').ne_nil rfl⟩
        ⟨fun name member => (names name member).2, fun name member => (plain name member).noSlash⟩
        same
    · intro same
      exact ⟨rfl, congrArg joined same⟩
  have place : WrittenBelow user.rootpath (resolve (ftpPath ctx wanted)) path ↔
      ThroughDirectories fs user.rootpath (resolve (ftpPath ctx wanted)) := by
    have ends := checkpathNew_ends fs server ctx user wanted known unmatched
    rw [checked] at ends
    cases ends with
    | found last followed => exact follow_written_iff plain followed
  rw [← and_assoc, ← equal, ← place]
  refine and_congr_right fun same => ?_
  have again : resolve after = resolve (ftpPath ctx wanted) := by
    rw [same]
    exact (resolve_append [] _).trans (walk_joined [] _ plain)
  rw [again]

/-- The directories `/srv/a.`, `/srv/a./b` and `/srv/d`. -/
def dottedFiles : FileSystem :=
  .ofList [("/srv/a.".toList, .dir), ("/srv/a./b".toList, .dir), ("/srv/d".toList, .dir)]

def blankArray : PathArray := ⟨replicate maxPath ' ', length_replicate⟩

def blankMemory : ChdirMemory := ⟨blankArray, blankArray, blankArray, false, false, none⟩

/-- A name that is lost and that the request leaves again. -/
theorem doChdir_checked_iff_left :
    doChdir dottedFiles (.single srvUser) blankMemory srvContext (some "a./../d".toList) =
        some (.ok, "/d".toList) ∧
      DotsClimbed "/a./../d".toList := by
  have parts : "a./../d".toList.splitOn '/' = ["a.".toList, "..".toList] ++ ["d".toList] := by
    decide
  have stored : storePath blankMemory srvContext ('/' :: "a./../d".toList) = some "/d".toList :=
    storePath_eq blankMemory (by decide) (by decide) (by decide) parts
  have checked : checkpathNew dottedFiles (.single srvUser) srvContext (some "a./../d".toList) =
      ⟨.ok, some "/srv/d/".toList⟩ := by decide
  have success : doChdir dottedFiles (.single srvUser) blankMemory srvContext
      (some "a./../d".toList) = some (.ok, "/d".toList) :=
    doChdir_of_checked srvUser rfl (by decide) checked (by decide) (by decide) (by decide) stored
  exact ⟨success, ((doChdir_checked_iff dottedFiles (.single srvUser) blankMemory srvContext srvUser
    "a./../d".toList "/srv/d/".toList "/d".toList rfl rfl (by decide) (by decide)
    (fun _ _ _ => rfl) (by decide) success).mp (by decide)).1⟩

/-- Asked for `a./b`, which it checks, the server stores `/b`. -/
theorem doChdir_loses_name :
    srvContext.Canonical ∧
      NoEntryMatches dottedFiles (.single srvUser) srvUser
        (resolve (ftpPath srvContext "a./b".toList)) ∧
      checkpathNew dottedFiles (.single srvUser) srvContext (some "a./b".toList) =
        ⟨.ok, some "/srv/a./b/".toList⟩ ∧
      doChdir dottedFiles (.single srvUser) blankMemory srvContext (some "a./b".toList) =
        some (.ok, "/b".toList) ∧
      "/b".toList ≠ '/' :: joined (resolve (ftpPath srvContext "a./b".toList)) := by
  have checked : checkpathNew dottedFiles (.single srvUser) srvContext (some "a./b".toList) =
      ⟨.ok, some "/srv/a./b/".toList⟩ := by decide
  have parts : "a./b".toList.splitOn '/' = ["a.".toList] ++ ["b".toList] := by decide
  have stored : storePath blankMemory srvContext ('/' :: "a./b".toList) = some "/b".toList :=
    storePath_eq blankMemory (by decide) (by decide) (by decide) parts
  have success := doChdir_of_checked srvUser rfl (by decide) checked (by decide) (by decide)
    (by decide) stored
  exact ⟨rfl, fun _ _ _ => rfl, checked, success, by decide⟩

end Wzdftpd
