import Wzdftpd.Placement

/- What the resolver guarantees about the path it writes, and where it does not
write the path the client named: a regular file before the last component. -/
namespace Wzdftpd

open SegmentWalk LexicalPath Place List

/-- Plain components below the root, with at most one separator at the end. -/
def WrittenBelow (root : Text) (names : List Text) (path : Text) : Prop :=
  path = slashed root ++ joined names ∨ path = slashed root ++ (joined names ++ ['/'])

instance (root : Text) (names : List Text) (path : Text) :
    Decidable (WrittenBelow root names path) :=
  inferInstanceAs (Decidable (_ ∨ _))

theorem WrittenBelow.resolve {root path : Text} {names : List Text}
    (below : WrittenBelow root names path) (plain : ∀ name ∈ names, Plain name) :
    resolve path = resolve root ++ names := by
  rcases below with rfl | rfl
  · exact resolve_below root names plain
  · exact resolve_below_trailing root names plain

theorem Ends.below {fs : FileSystem} {root path : Text} {names : List Text} {result : Resolved}
    (plain : ∀ name ∈ names, Plain name) (ends : Ends fs root names .start result)
    (written : result.path = some path) :
    ∃ placed, (∀ name ∈ placed, Plain name) ∧ WrittenBelow root placed path := by
  cases ends with
  | found last followed =>
    cases written
    have tidy := follow_tidy plain start_tidy followed
    exact ⟨last.components, tidy.components, last.text_eq root⟩
  | missing front name last split followed absent =>
    cases written
    subst split
    have tidy : last.Tidy :=
      follow_tidy (fun other member => plain other (mem_append_left _ member))
        start_tidy followed
    have longer := tidy.stem_append (plain name (by simp))
    refine ⟨last.dirs ++ [last.stem ++ name], ?_, Or.inl (last.text_append root name)⟩
    exact forall_mem_append.mpr ⟨tidy.dirs, forall_mem_singleton.mpr longer⟩
  | refused => cases written

/-- Whatever the file system answers, a path that the resolver writes is the
user's root followed by plain components, so it stays below the root. -/
theorem checkpathNew_confined (fs : FileSystem) (server : Server) (ctx : Context) (user : User)
    (wanted path : Text) (known : server.getUserByID ctx.userid = some user)
    (unmatched : NoEntryMatches fs server user (resolve (ftpPath ctx wanted)))
    (written : (checkpathNew fs server ctx (some wanted)).path = some path) :
    (∃ names, (∀ name ∈ names, Plain name) ∧ WrittenBelow user.rootpath names path) ∧
      resolve user.rootpath <+: resolve path := by
  have ends := checkpathNew_ends fs server ctx user wanted known unmatched
  obtain ⟨names, plain, below⟩ := ends.below (resolve_plain _) written
  refine ⟨⟨names, plain, below⟩, ?_⟩
  rw [below.resolve plain]
  exact prefix_append _ _

theorem checkpathNew_confined_dotted :
    (checkpathNew (.ofList []) (.single srvUser) srvContext (some "a/../../new".toList)).path =
        some "/srv/new".toList ∧
      resolve srvUser.rootpath <+: resolve "/srv/new".toList :=
  ⟨by decide, (checkpathNew_confined (.ofList []) (.single srvUser) srvContext srvUser
    "a/../../new".toList "/srv/new".toList rfl (fun _ _ _ => rfl) (by decide)).2⟩

/-- A directory or a symbolic link: what the loop puts a separator behind. -/
def Enterable (fs : FileSystem) (path : Text) : Prop :=
  ∃ s, fs.lstat path = some s ∧ (s.kind = .dir ∨ s.kind = .lnk)

/-- Every component but the last is a directory or a link where it is written. -/
def ThroughDirectories (fs : FileSystem) (root : Text) (names : List Text) : Prop :=
  ∀ front name rest, names = front ++ name :: rest → rest ≠ [] →
    Enterable fs (slashed root ++ joined (front ++ [name]))

theorem components_enter_length (place : Place) (kind : FileKind) {name : Text}
    (some' : name ≠ []) :
    (place.enter kind name).components.length =
      if place.stem = [] then place.components.length + 1 else place.components.length := by
  unfold enter components
  by_cases directory : kind = .dir ∨ kind = .lnk
  · by_cases open' : place.stem = [] <;> simp [directory, open']
  · by_cases open' : place.stem = [] <;> simp [directory, open', some']

variable {fs : FileSystem} {root : Text} {names : List Text}

theorem follow_length (plain : ∀ name ∈ names, Plain name) {place last : Place}
    (followed : follow fs root names place = some last) :
    last.components.length ≤ place.components.length + names.length ∧
      (place.stem ≠ [] → names ≠ [] →
        last.components.length < place.components.length + names.length) := by
  induction names generalizing place with
  | nil =>
    cases followed
    exact ⟨Nat.le_refl _, fun _ none' => absurd rfl none'⟩
  | cons name rest ih =>
    rw [follow] at followed
    split at followed
    · cases followed
    rename_i s _
    have grown := components_enter_length place s.kind (plain name mem_cons_self).ne_nil
    obtain ⟨bound, _⟩ := ih (forall_mem_cons.mp plain).2
      followed
    rw [grown] at bound
    rw [length_cons]
    constructor
    · split at bound <;> omega
    · intro open' _
      rw [if_neg open'] at bound
      omega

section Exact

variable {fs : FileSystem} {root : Text} {names dirs : List Text} {last : Place}

theorem text_dirs (dirs : List Text) (root name : Text) :
    (mk dirs []).text root ++ name = slashed root ++ joined (dirs ++ [name]) := by
  simp [text_append]

/-- If no component was lost on the way, there was no regular file in it. -/
theorem follow_through (plain : ∀ name ∈ names, Plain name)
    (followed : follow fs root names ⟨dirs, []⟩ = some last)
    (full : last.components.length = dirs.length + names.length) :
    ∀ front name rest, names = front ++ name :: rest → rest ≠ [] →
      Enterable fs (slashed root ++ joined (dirs ++ front ++ [name])) := by
  induction names generalizing dirs with
  | nil =>
    intro front name rest split
    simp at split
  | cons first names ih =>
    have plainFirst := plain first mem_cons_self
    have plainRest : ∀ name ∈ names, Plain name :=
      (forall_mem_cons.mp plain).2
    intro front name rest split more
    rw [follow] at followed
    split at followed
    · cases followed
    rename_i s found
    rw [text_dirs] at found
    have names' : names ≠ [] := by
      rintro rfl
      cases front with
      | nil => exact more (cons.inj split).2.symm
      | cons c front => simp at split
    by_cases directory : s.kind = .dir ∨ s.kind = .lnk
    · rw [enter, if_pos directory] at followed
      cases front with
      | nil =>
        obtain ⟨same, _⟩ := cons.inj split
        rw [append_nil, ← same]
        exact ⟨s, found, directory⟩
      | cons c front =>
        obtain ⟨same, split⟩ := cons.inj split
        have count : last.components.length = (dirs ++ [first]).length + names.length := by
          simp at full ⊢
          omega
        have inner := ih plainRest followed count front name rest split more
        rw [same] at inner
        simpa using inner
    · exfalso
      rw [enter, if_neg directory] at followed
      have shorter := (follow_length plainRest followed).2 plainFirst.ne_nil names'
      simp [components, plainFirst.ne_nil] at shorter full
      omega

theorem follow_components (plain : ∀ name ∈ names, Plain name)
    (followed : follow fs root names ⟨dirs, []⟩ = some last)
    (through : ∀ front name rest, names = front ++ name :: rest → rest ≠ [] →
      Enterable fs (slashed root ++ joined (dirs ++ front ++ [name]))) :
    last.components = dirs ++ names := by
  induction names generalizing dirs with
  | nil =>
    cases followed
    simp [components]
  | cons first names ih =>
    have plainFirst := plain first mem_cons_self
    rw [follow] at followed
    split at followed
    · cases followed
    rename_i s found
    rw [text_dirs] at found
    by_cases final : names = []
    · subst final
      cases followed
      unfold enter components
      split <;> simp [plainFirst.ne_nil]
    · obtain ⟨_, found', directory⟩ := through [] first names rfl final
      rw [append_nil, found] at found'
      cases found'
      rw [enter, if_pos directory, nil_append] at followed
      rw [ih (forall_mem_cons.mp plain).2 followed, append_assoc, singleton_append]
      intro front name rest split more
      have outer := through (first :: front) name rest (by simp [split]) more
      simpa using outer

/-- The last component was looked up, and the text ends with it. -/
theorem follow_exists {front : List Text} {name : Text} {place : Place} (plain : Plain name)
    (followed : follow fs root (front ++ [name]) place = some last) :
    (fs.lstat (removeTrailingSlash (last.text root))).isSome := by
  induction front generalizing place with
  | nil =>
    rw [nil_append, follow] at followed
    split at followed
    · cases followed
    rename_i s found
    cases followed
    have closed := plain.not_closed (place.text root)
    have positive : 0 < name.length := length_pos_iff.mpr plain.ne_nil
    have stripped : removeTrailingSlash ((place.enter s.kind name).text root) =
        place.text root ++ name := by
      by_cases directory : s.kind = .dir ∨ s.kind = .lnk
      · rw [← slashed_text_enter place root name plain s.kind directory, slashed,
          if_neg closed, removeTrailingSlash, if_pos]
        · rw [dropLast_concat]
        · simp
          omega
      · rw [← text_enter_file place root name s.kind directory, removeTrailingSlash,
          if_neg fun both => closed both.2]
    rw [stripped, found]
    rfl
  | cons first front ih =>
    rw [cons_append, follow] at followed
    split at followed
    · cases followed
    · exact ih followed

end Exact

/-- The loop has written the path the client named exactly when that path runs through
directories. -/
theorem follow_written_iff {last : Place}
    (plain : ∀ name ∈ names, Plain name) (followed : follow fs root names .start = some last) :
    WrittenBelow root names (last.text root) ↔ ThroughDirectories fs root names := by
  constructor
  · intro below
    have same : last.components = names := by
      have whole := below.resolve plain
      rw [resolve_text (follow_tidy plain start_tidy followed)] at whole
      exact append_cancel_left whole
    exact follow_through plain followed (by rw [same]; simp)
  · intro through
    have same := follow_components plain followed through
    rw [nil_append] at same
    rw [← same]
    exact last.text_eq root

/-- A successful call has written the path the client named, and something is
there, exactly when the client's path runs through directories and, if it names
nothing below the root, the root exists. -/
theorem checkpathNew_exact_iff (fs : FileSystem) (server : Server) (ctx : Context) (user : User)
    (wanted path : Text) (known : server.getUserByID ctx.userid = some user)
    (unmatched : NoEntryMatches fs server user (resolve (ftpPath ctx wanted)))
    (zero : checkpathNew fs server ctx (some wanted) = ⟨.ok, some path⟩) :
    (WrittenBelow user.rootpath (resolve (ftpPath ctx wanted)) path ∧
        (fs.lstat (removeTrailingSlash path)).isSome) ↔
      ThroughDirectories fs user.rootpath (resolve (ftpPath ctx wanted)) ∧
        (resolve (ftpPath ctx wanted) = [] →
          (fs.lstat (removeTrailingSlash (slashed user.rootpath))).isSome) := by
  have ends := checkpathNew_ends fs server ctx user wanted known unmatched
  have plain := resolve_plain (ftpPath ctx wanted)
  rw [zero] at ends
  generalize resolve (ftpPath ctx wanted) = names at ends plain ⊢
  cases ends with
  | found last followed =>
    rw [follow_written_iff plain followed]
    constructor
    · rintro ⟨through, present⟩
      refine ⟨through, ?_⟩
      rintro rfl
      cases followed
      simpa [text, start] using present
    · rintro ⟨through, rooted⟩
      refine ⟨through, ?_⟩
      rcases eq_nil_or_concat names with rfl | ⟨front, name, rfl⟩
      · cases followed
        simpa [text, start] using rooted rfl
      · rw [concat_eq_append] at plain followed
        exact follow_exists (plain name (by simp)) followed

/-- The regular files `/srv/d/f`, `/srv/f` and `/srv/fx`. -/
def srvFiles : FileSystem :=
  .ofList [("/srv/d".toList, .dir), ("/srv/d/f".toList, .reg), ("/srv/f".toList, .reg),
    ("/srv/fx".toList, .reg)]

theorem checkpathNew_exact_iff_nested :
    checkpathNew srvFiles (.single srvUser) srvContext (some "d/f".toList) =
        ⟨.ok, some "/srv/d/f".toList⟩ ∧
      ThroughDirectories srvFiles srvUser.rootpath (resolve "/d/f".toList) :=
  ⟨by decide, ((checkpathNew_exact_iff srvFiles (.single srvUser) srvContext srvUser "d/f".toList
    "/srv/d/f".toList rfl (fun _ _ _ => rfl) (by decide)).mp ⟨by decide, by decide⟩).1⟩

/-- Asked for `f/x` where `f` is a regular file, the resolver reports success
with the path of the unrelated file `fx`. -/
theorem checkpathNew_glues_names :
    NoEntryMatches srvFiles (.single srvUser) srvUser (resolve (ftpPath srvContext "f/x".toList)) ∧
      checkpathNew srvFiles (.single srvUser) srvContext (some "f/x".toList) =
        ⟨.ok, some "/srv/fx".toList⟩ ∧
      ¬WrittenBelow srvUser.rootpath (resolve (ftpPath srvContext "f/x".toList))
        "/srv/fx".toList :=
  ⟨fun _ _ _ => rfl, by decide, by decide⟩

end Wzdftpd
