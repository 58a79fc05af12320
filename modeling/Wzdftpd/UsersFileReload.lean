import Wzdftpd.UsersFileSections

/- How `read_files` gets over the lines and records of a users file, and what the number
of the records allows for any file (libplaintext_file.c). -/
namespace Wzdftpd

open DirectiveText List Loaded Option

section

variable {α : Type} {idOf : α → Nat} {named : Text → Option Text} {most : Nat}
  {read : Nat → Text → Text → Option (α × Text)}

theorem idsListed_append {ids : List Nat} (valid : ∀ id ∈ ids, id ≠ invalidUser)
    (rest : List (Option Nat)) :
    idsListed (ids.map some ++ some invalidUser :: rest) = some ids := by
  induction ids with
  | nil => rw [map_nil, nil_append, idsListed, if_pos rfl]
  | cons id ids ih =>
    simp [idsListed, valid id mem_cons_self, ih (forall_mem_cons.mp valid).2]

theorem idsListed_getList (t : Table idOf) :
    t.registry.getList.bind idsListed = some t.registry.ids := by
  have valid : ∀ id ∈ t.registry.ids, id ≠ invalidUser := by
    intro id member
    have below := ((t.registry.mem_ids id).mp member).1
    have small := t.sound.max_lt_invalid
    omega
  obtain ⟨_, list, _⟩ := t.sound.getList_eq
  simp [list, idsListed_append valid]

theorem recordsListed_eq (kept : α → Bool) (t : Table idOf) :
    recordsListed kept t = some (t.saved kept) := by
  rw [recordsListed, idsListed_getList]
  rfl

/-- No more ids are in use than records have been read, and fewer than the limit. -/
def Loaded.Covered (most : Nat) (loaded : Loaded idOf) : Prop :=
  ∃ ids : List Nat, ids.length ≤ loaded.count ∧ ids.length < most ∧
    ∀ id, loaded.table.getById id ≠ none → id ∈ ids

theorem covered_start (positive : 0 < most) : ({} : Loaded idOf).Covered most :=
  ⟨[], Nat.le_refl _, positive, fun id used => absurd (by rw [Table.getById_eq]; rfl) used⟩

variable {loaded : Loaded idOf}

theorem Loaded.Covered.enter (covered : loaded.Covered most)
    {readRest : Nat → Text → Option (α × Text)} {file : Text} {out : Loaded idOf × Text}
    (done : loaded.enter most readRest file = some out) : out.1.Covered most := by
  obtain ⟨ids, counted, few, covers⟩ := covered
  simp only [Loaded.enter] at done
  split at done
  · cases done
    exact ⟨ids, Nat.le_succ_of_le counted, few, covers⟩
  obtain ⟨_, _, done⟩ := bind_eq_some_iff.mp done
  obtain ⟨⟨record, _⟩, _, done⟩ := bind_eq_some_iff.mp done
  split at done
  · cases done
    exact ⟨ids, Nat.le_succ_of_le counted, few, covers⟩
  cases done
  refine ⟨idOf record :: ids, Nat.succ_le_succ counted, ?_, fun id used => ?_⟩
  · rw [length_cons]
    omega
  · obtain ⟨_, found⟩ := ne_none_iff_exists'.mp used
    rcases Table.getById_of_register found with rfl | old
    · rw [← Table.id_of_getById found]
      exact mem_cons_self
    · exact mem_cons_of_mem _ (covers id (by rw [old]; exact some_ne_none _))

theorem Loaded.Covered.section (covered : loaded.Covered most)
    {file : Text} {out : Loaded idOf × Text}
    (done : readSection (maxLine - 2) (recordEntry named most read) loaded file = some out) :
    out.1.Covered most := by
  apply sectionLoop_keeps (Covered most) ?_ _ covered done
  intro line rest state next now entered
  unfold recordEntry at entered
  split at entered
  · cases entered
    exact now
  · exact now.enter entered

/-- A text that is read as a record, whatever follows it. -/
def ReadsAs (named : Text → Option Text) (read : Nat → Text → Text → Option (α × Text))
    (text : Text) (record : α) : Prop :=
  ∀ free rest, readNamed named read free (text ++ rest) = some (record, rest)

/-- A record with a line in front that gives its name. -/
theorem readsAs_of_read {line name body : Text} {record : α} (single : '\n' ∉ line)
    (fits : line.length < maxLine - 2) (begins : named (chomp line) = some name)
    (reads : ∀ free rest, read free name (body ++ rest) = some (record, rest)) :
    ReadsAs named read (line ++ '\n' :: body) record := by
  intro free rest
  rw [readNamed, append_assoc, cons_append, fgets_line line _ single _ fits]
  simp only [chomp_concat, begins]
  exact reads free rest

def Loaded.add (loaded : Loaded idOf) (record : α) : Loaded idOf :=
  ⟨loaded.table.register record, loaded.count + 1⟩

theorem foldl_add (records : List α) : ∀ loaded : Loaded idOf,
    records.foldl add loaded =
      ⟨loaded.table.registerAll records, loaded.count + records.length⟩ := by
  induction records with
  | nil => exact fun _ => rfl
  | cons record records ih =>
    intro loaded
    rw [foldl_cons, ih, add, Nat.add_assoc, Nat.add_comm 1]
    rfl

theorem enter_eq (room : loaded.count + 1 < most)
    {readRest : Nat → Text → Option (α × Text)} {file rest : Text} {record : α}
    (reads : ∀ free, readRest free file = some (record, rest))
    (valid : idOf record ≠ invalidUser) :
    loaded.enter most readRest file = some (loaded.add record, rest) := by
  obtain ⟨free, found, _⟩ :=
    loaded.table.sound.findFreeLoop_spec loaded.table.registry.max 0 (by omega)
  have search : loaded.table.registry.findFree 0 = some free := by
    exact found
  simp only [enter, if_neg (Nat.not_le.mpr room), search, bind_eq_bind,
    bind_some, reads, if_neg valid, Option.pure_def]
  rfl

/-- The reader of a section gets over a record that survives. -/
theorem passes_record (room : loaded.count + 1 < most) {c : Char}
    {text : Text} {record : α} (plain : c ≠ '\xff' ∧ c ≠ '\n' ∧ c ≠ '#' ∧ c ≠ '[')
    (more : text ≠ []) (nameless : named [] = none)
    (survives : ReadsAs named read (c :: text) record) (valid : idOf record ≠ invalidUser) :
    Crosses (maxLine - 2) (recordEntry named most read) loaded (c :: text) (loaded.add record) := by
  apply Crosses.record plain more (by decide)
  intro rest
  have taken : ∀ free, ((named (chomp (fgets (maxLine - 2) (c :: text ++ rest)).1)).bind
      fun name => read free name (fgets (maxLine - 2) (c :: text ++ rest)).2) =
      some (record, rest) := fun free => survives free rest
  obtain ⟨name, found, _⟩ := bind_eq_some_iff.mp (taken 0)
  have reads : ∀ free, read free name (fgets (maxLine - 2) (c :: text ++ rest)).2 =
      some (record, rest) := by
    intro free
    obtain ⟨_, also, same⟩ := bind_eq_some_iff.mp (taken free)
    rw [found] at also
    cases also
    exact same
  constructor
  · intro empty
    rw [empty, nameless] at found
    cases found
  · rw [recordEntry, found]
    exact enter_eq room reads valid

/-- The reader of a section reads all records, if they are few. -/
theorem passes_records (textOf : α → Text) (back : α → α) (records : List α)
    (begins : ∀ record ∈ records, ∃ c text, textOf record = c :: text ∧ text ≠ [] ∧
      c ≠ '\xff' ∧ c ≠ '\n' ∧ c ≠ '#' ∧ c ≠ '[')
    (nameless : named [] = none)
    (survive : ∀ record ∈ records, ReadsAs named read (textOf record) (back record) ∧
      idOf (back record) ≠ invalidUser)
    (few : records.length < most) :
    Crosses (maxLine - 2) (recordEntry named most read) ({} : Loaded idOf)
      (records.flatMap textOf) ⟨.refill idOf (records.map back), records.length⟩ := by
  have all : Crosses (maxLine - 2) (recordEntry named most read) ({} : Loaded idOf)
      (records.flatMap textOf)
      (records.foldl (fun loaded record => loaded.add (back record)) {}) := by
    apply Crosses.flatMap textOf _ (fun left (loaded : Loaded idOf) =>
      left ⊆ records ∧ loaded.count + left.length < most)
    · rintro record left loaded ⟨inside, room⟩
      have member := inside mem_cons_self
      rw [length_cons] at room
      obtain ⟨c, text, shape, more, plain⟩ := begins record member
      obtain ⟨survives, valid⟩ := survive record member
      refine ⟨?_, fun other later => inside (mem_cons_of_mem record later), ?_⟩
      · rw [shape] at survives ⊢
        exact passes_record (by omega) plain more nameless survives valid
      · rw [add]
        simp only
        omega
    · exact ⟨Subset.refl _, by rw [Nat.zero_add]; exact few⟩
  have filled : records.foldl (fun loaded record => loaded.add (back record)) ({} : Loaded idOf) =
      ⟨.refill idOf (records.map back), records.length⟩ := by
    rw [← foldl_map (f := back) (g := add), foldl_add, length_map, Nat.zero_add]
    rfl
  rwa [filled] at all

end

theorem readFilesLoop_lines (lines : List Text)
    (skipped : ∀ line ∈ lines, (line = [] ∨ line.head? = some '#') ∧ '\n' ∉ line ∧
      line.length < maxLine - 2)
    (state : LoadState) : ∀ (fuel : Nat) (rest : Text),
      (lines.flatMap (· ++ ['\n']) ++ rest).length ≤ fuel → ∃ less, rest.length ≤ less ∧
        readFilesLoop fuel state (lines.flatMap (· ++ ['\n']) ++ rest) =
          readFilesLoop less state rest := by
  induction lines with
  | nil => exact fun fuel rest enough => ⟨fuel, enough, rfl⟩
  | cons line lines ih =>
    intro fuel rest enough
    obtain ⟨shape, single, fits⟩ := skipped line mem_cons_self
    have behind := ih (forall_mem_cons.mp skipped).2
    have laid : (line :: lines).flatMap (· ++ ['\n']) ++ rest =
        line ++ '\n' :: (lines.flatMap (· ++ ['\n']) ++ rest) := by
      simp
    rw [laid, length_append, length_cons] at enough
    obtain ⟨less, rfl⟩ : ∃ less, fuel = less + 1 := ⟨fuel - 1, by omega⟩
    obtain ⟨left, remains, same⟩ := behind less rest (by omega)
    refine ⟨left, remains, ?_⟩
    rw [laid, readFilesLoop, fgets_line line _ single _ fits, ← same]
    simp only [chomp_concat]
    rcases shape with rfl | comment
    · rfl
    · obtain ⟨_, rfl⟩ := head?_eq_some_iff.mp comment
      rw [chomp_cons (by decide) (by decide)]
      rfl

theorem readFilesLoop_section {line text name : Text} (single : '\n' ∉ line)
    (fits : line.length < maxLine - 2) (title : chomp line = '[' :: text)
    (word : (strtok [']'] text).1 = some name) {state next : LoadState} {rest behind : Text}
    (reads : readNamedSection name state rest = some (.ok (next, behind))) (fuel : Nat) :
    readFilesLoop (fuel + 1) state (line ++ '\n' :: rest) = readFilesLoop fuel next behind := by
  have some : ¬line ++ '\n' :: rest = [] :=
    append_ne_nil_of_right_ne_nil _ (cons_ne_nil _ _)
  rw [readFilesLoop, if_neg some, fgets_line line rest single _ fits]
  simp only [chomp_concat, title, word, reads]

theorem readFilesLoop_nil (fuel : Nat) (state : LoadState) :
    readFilesLoop fuel state [] = some (0, state) := by
  cases fuel with
  | zero => rfl
  | succ fuel => rfl

/-- The file around the records of the groups and of the users. -/
def fileText (groupText userText : Text) : Text :=
  fileHeader.flatMap (· ++ ['\n']) ++ "\n# groups definitions\n[GROUPS]\n".toList ++
    groupText ++ "# users definitions\n# users MUST begin by line name=<>\n[USERS]\n".toList ++
    userText

def openingLines : List Text := fileHeader ++ [[], "# groups definitions".toList]

theorem openingLines_skipped : ∀ line ∈ openingLines,
    (line = [] ∨ line.head? = some '#') ∧ '\n' ∉ line ∧ line.length < maxLine - 2 := by
  decide +kernel

theorem fileText_eq (groupText userText : Text) :
    fileText groupText userText = openingLines.flatMap (· ++ ['\n']) ++
      ("[GROUPS]".toList ++ '\n' ::
        (groupText ++ (('#' :: (" users definitions".toList ++ ['\n']) ++
          '#' :: (" users MUST begin by line name=<>".toList ++ ['\n'])) ++
          ("[USERS]".toList ++ '\n' :: userText)))) := by
  rw [fileText, openingLines, flatMap_append]
  simp only [append_assoc]
  rfl

theorem readFiles_fileText {groupText userText : Text} {groups : Loaded GroupEntry.id}
    {users : Loaded UserRecord.id}
    (groupsPass : Crosses (maxLine - 2) groupEntry {} groupText groups)
    (usersPass : Crosses (maxLine - 2) (userEntry groups.table) {} userText users) :
    readFiles (fileText groupText userText) = some (0, ⟨groups, users⟩) := by
  have comments : Crosses (maxLine - 2) groupEntry groups
      ('#' :: (" users definitions".toList ++ ['\n']) ++
        '#' :: (" users MUST begin by line name=<>".toList ++ ['\n'])) groups :=
    (Crosses.comment (by decide) (by decide)).append (Crosses.comment (by decide) (by decide))
  have groupsRead := (groupsPass.append comments).readSection_bracket
    ("USERS]".toList ++ '\n' :: userText)
  rw [append_assoc] at groupsRead
  have first : readNamedSection "GROUPS".toList {} (groupText ++
      ('#' :: (" users definitions".toList ++ ['\n']) ++
        '#' :: (" users MUST begin by line name=<>".toList ++ ['\n']) ++
        ("[USERS]".toList ++ '\n' :: userText))) =
      some (.ok (⟨groups, {}⟩, "[USERS]".toList ++ '\n' :: userText)) := by
    exact congrArg (Option.map _) groupsRead
  have second : readNamedSection "USERS".toList ⟨groups, {}⟩ userText =
      some (.ok (⟨groups, users⟩, [])) := by
    rw [readNamedSection, if_pos (by decide)]
    simp [readSectionUsers, usersPass.readSection_end]
  have laid : readFiles (fileText groupText userText) =
      readFilesLoop (fileText groupText userText).length {} _ :=
    congrArg (readFilesLoop _ {}) (fileText_eq groupText userText)
  obtain ⟨fuel, enough, opened⟩ := readFilesLoop_lines openingLines openingLines_skipped {} _ _
    (Nat.le_of_eq (congrArg length (fileText_eq groupText userText)).symm)
  simp only [length_append, length_cons] at enough
  obtain ⟨less, rfl⟩ : ∃ less, fuel = less + 1 + 1 := ⟨fuel - 2, by omega⟩
  have groupsTitle : chomp "[GROUPS]".toList = '[' :: "GROUPS]".toList := by decide
  have usersTitle : chomp "[USERS]".toList = '[' :: "USERS]".toList := by decide
  rw [laid, opened, readFilesLoop_section (by decide) (by decide) groupsTitle (by decide) first,
    readFilesLoop_section (by decide) (by decide) usersTitle (by decide) second,
    readFilesLoop_nil]

/-- What the number of records allows, whatever the file is. -/
structure LoadState.Covered (state : LoadState) : Prop where
  groups : state.groups.Covered hardDefGroupMax
  users : state.users.Covered hardDefUserMax

theorem readFilesLoop_covered (fuel : Nat) : ∀ {state : LoadState} {file : Text}
    {out : Int × LoadState}, state.Covered → readFilesLoop fuel state file = some out →
      out.2.Covered := by
  induction fuel with
  | zero =>
    intro state file out covered read
    cases read
    exact covered
  | succ fuel ih =>
    intro state file out covered read
    rw [readFilesLoop] at read
    split at read
    · cases read
      exact covered
    simp only at read
    split at read
    · exact ih covered read
    · exact ih covered read
    · split at read
      · cases read
      split at read
      · cases read
      · cases read
        exact covered
      rename_i name _ next behind section_
      apply ih ?_ read
      unfold readNamedSection at section_
      split_ifs at section_
      · obtain ⟨⟨_, rest⟩, done, same⟩ := map_eq_some_iff.mp section_
        cases same
        exact ⟨covered.groups, covered.users.section done⟩
      · obtain ⟨⟨_, rest⟩, done, same⟩ := map_eq_some_iff.mp section_
        cases same
        exact ⟨covered.groups.section done, covered.users⟩
      · obtain ⟨rest, _, same⟩ := map_eq_some_iff.mp section_
        cases same
        exact covered
      · cases section_
    · cases read
      exact covered

theorem readFiles_covered {file : Text} {out : Int × LoadState}
    (read : readFiles file = some out) : out.2.Covered :=
  readFilesLoop_covered _ ⟨covered_start (by decide), covered_start (by decide)⟩ read

end Wzdftpd
