import Wzdftpd.PermFileText
import Wzdftpd.Runs

/- What the reader of permission files gives back of what the writer was given. -/
namespace Wzdftpd

open PermEntry List

/-- Two entries give the same rights; the order of the access control lines is left
open. -/
structure PermEntry.SameRights (file other : PermEntry) : Prop where
  owner : other.owner = file.owner
  group : other.group = file.group
  permissions : other.permissions = file.permissions
  acl : other.acl.Perm file.acl

/-- The entry of a file that is no link and has an owner. -/
structure PermEntry.Plain (file : PermEntry) : Prop extends file.Printable where
  noLink : file.kind ≠ .lnk
  owner : Word file.owner
  group : Word file.group

theorem PermEntry.Plain.restored_eq {file : PermEntry} (plain : file.Plain) (umask : Nat) :
    file.restored umask =
      some { file with acl := file.acl.reverse, kind := .notSet, data := [] } := by
  rw [restored, if_neg plain.noLink, if_neg fun both => plain.owner.nonempty both.1]

theorem readToken_dropWhile (text : Text) :
    readToken (some (text.dropWhile CNumber.isSpace)) = readToken (some text) := by
  induction text with
  | nil => rfl
  | cons c text ih =>
    by_cases space : CNumber.isSpace c = true
    · rw [dropWhile_cons_of_pos space, ih, readToken_cons_space space]
    · rw [dropWhile_cons_of_neg space]

theorem startsReadable_of_unquoted {text : Text} (unquoted : Unquoted text) : StartsReadable text :=
  .inr unquoted.starts

/-- The token at the name of a line starts with white space only in quotes, whatever
the name is. -/
theorem startsReadable_readToken {name word : Text} (printable : Printable name)
    (isWord : Word word) (rest : Text) {token : Text}
    (read : (readToken (some (quoted name ++ '\t' :: (word ++ '\t' :: rest)))).1 = some token) :
    StartsReadable token := by
  have tab : '\t' ∈ blanks := by decide
  by_cases spaced : ' ' ∈ name
  · obtain ⟨next, same, _⟩ := readToken_label ⟨printable, .inl spaced⟩ (word ++ '\t' :: rest)
    rw [same] at read
    cases read
    exact .inl spaced
  · rw [quoted, if_neg spaced] at read
    rw [← readToken_dropWhile, dropWhile_append] at read
    split at read
    · -- the name is all white space, so that the next word is taken for it
      rw [dropWhile_cons_of_pos (by decide), readToken_dropWhile,
        readToken_unquoted isWord.unquoted tab] at read
      cases read
      exact startsReadable_of_unquoted isWord.unquoted
    · rename_i some
      have unquoted : Unquoted (name.dropWhile CNumber.isSpace) :=
        { nonempty := by
            intro empty
            rw [empty] at some
            exact some rfl
          starts := fun c first => by
            have stopped := head?_dropWhile_not CNumber.isSpace name
            rw [first] at stopped
            simpa using stopped
          plain := fun c member => by
            have inside := (dropWhile_sublist CNumber.isSpace).subset member
            obtain ⟨notTab, notCr, notLf, _, notQuote⟩ := printable.plain c inside
            refine ⟨fun blank => ?_, notQuote⟩
            rcases (mem_blanks c).mp blank with rfl | rfl | rfl | rfl
            · exact spaced inside
            · exact notTab rfl
            · exact notCr rfl
            · exact notLf rfl }
      rw [readToken_unquoted unquoted tab] at read
      cases read
      exact startsReadable_of_unquoted unquoted

theorem map_filename_changeFile {change : PermEntry → PermEntry}
    (kept : ∀ file, (change file).filename = file.filename) (name : Text)
    (files : List PermEntry) :
    (changeFile name change files).map filename = files.map filename :=
  NamedList.map_key_modify kept files name

variable {umask : Nat} {files : List PermEntry}

variable {after : List PermEntry}

theorem decodeLine_names {word name third fourth rest : Text}
    (done : decodeLine umask word name third fourth rest files = some after) :
    after.map filename = files.map filename := by
  unfold decodeLine at done
  split_ifs at done
  · obtain ⟨owner, _, rest⟩ := Option.bind_eq_some_iff.mp done
    obtain ⟨group, _, rfl⟩ := Option.map_eq_some_iff.mp rest
    apply map_filename_changeFile
    exact fun file => rfl
  · obtain ⟨_, _, rfl⟩ := Option.map_eq_some_iff.mp done
    apply map_filename_changeFile
    exact fun file => rfl
  · split at done
    · cases done
      rfl
    · obtain ⟨owner, _, rest⟩ := Option.bind_eq_some_iff.mp done
      obtain ⟨group, _, rfl⟩ := Option.map_eq_some_iff.mp rest
      apply map_filename_changeFile
      exact fun file => rfl
  · cases done
    rfl

theorem findOrAddFile_names {name : Text} (done : findOrAddFile umask name files = some after) :
    ∀ other ∈ after.map filename, other ∈ files.map filename ∨ other = name := by
  intro other member
  unfold findOrAddFile at done
  split at done
  · cases done
    exact .inl member
  obtain ⟨_, fits, rfl⟩ := Option.map_eq_some_iff.mp done
  unfold field at fits
  split at fits
  · cases fits
    rw [map_append, mem_append, map_singleton, mem_singleton] at member
    exact member
  · cases fits

theorem readPermLine_names {line : Text} (done : readPermLine umask files line = some after) :
    ∀ name ∈ after.map filename, name ∈ files.map filename ∨
      (readToken (some (strtok blanks line).2)).1 = some name := by
  intro name member
  unfold readPermLine at done
  split at done
  · cases done
    exact .inl member
  rename_i word rest first
  split at done
  · cases done
    exact .inl member
  rename_i token next second
  split at done
  · cases done
    exact .inl member
  · cases done
  split at done
  · cases done
    exact .inl member
  obtain ⟨_, added, decoded⟩ := Option.bind_eq_some_iff.mp done
  rw [decodeLine_names decoded] at member
  rcases findOrAddFile_names added name member with old | rfl
  · exact .inl old
  · rw [first, second]
    exact .inr rfl

theorem startsReadable_readPermLine {file : PermEntry} (plain : file.Plain) {line : Text}
    (isLine : line ∈ entryLines file)
    (readable : ∀ name ∈ files.map filename, StartsReadable name)
    (done : readPermLine umask files line = some after) :
    ∀ name ∈ after.map filename, StartsReadable name := by
  intro name member
  rcases readPermLine_names done name member with old | read
  · exact readable name old
  rw [entryLines, if_neg plain.noLink, if_pos (.inl plain.owner.nonempty),
    singleton_append, mem_cons, mem_map] at isLine
  rcases isLine with rfl | ⟨acl, inside, rfl⟩
  · rw [ownerLine_eq plain.owner, plain.owner.quoted_eq] at read
    exact startsReadable_readToken plain.name plain.owner _ read
  · have user := (plain.lines acl inside).user
    rw [permLine_eq user, user.quoted_eq] at read
    exact startsReadable_readToken plain.name user _ read

theorem startsReadable_of_read (plain : ∀ file ∈ files, file.Plain)
    (done : readPermText umask (writePermText files) = some after) :
    ∀ name ∈ after.map filename, StartsReadable name := by
  rw [readPermText_lines umask fun file member => (plain file member).toPrintable] at done
  refine Runs.foldlM_keeps (fun files => ∀ name ∈ files.map filename, StartsReadable name)
    (files.flatMap entryLines) ?_ (fun name member => absurd member not_mem_nil) done
  intro state line member readable next read
  obtain ⟨file, inside, isLine⟩ := mem_flatMap.mp member
  exact startsReadable_readPermLine (plain file inside) isLine readable read

theorem readPermFile_writePermFile (umask : Nat) (path : Text) {disk : Disk}
    (granted : disk.refuses (disk.place path) = false) :
    readPermFile umask path (writePermFile path files disk).2 =
      if files = [] then some (.fileNoExist, [])
      else (readPermText umask (writePermText files)).map fun after => (.ok, after) := by
  have place (content : Option Text) : (disk.put (disk.place path) content).files
      ((disk.put (disk.place path) content).place path) = content := if_pos rfl
  unfold writePermFile
  by_cases empty : files = []
  · simp only [if_pos empty, granted, Bool.false_eq_true, or_false]
    by_cases missing : disk.files (disk.place path) = none
    · simp [missing, readPermFile]
    · simp only [if_neg missing, readPermFile, place]
  · simp [if_neg empty, granted, readPermFile, place]

/-- The same files in the same order, with the same rights. -/
def SameFiles (files after : List PermEntry) : Prop :=
  List.Forall₂ (fun file other => other.filename = file.filename ∧ file.SameRights other)
    files after

theorem sameFiles_restored (plain : ∀ file ∈ files, file.Plain) :
    SameFiles files (files.filterMap (restored umask)) := by
  induction files with
  | nil => exact .nil
  | cons file files ih =>
    have rest := ih (forall_mem_cons.mp plain).2
    rw [filterMap_cons, (plain file mem_cons_self).restored_eq]
    refine .cons ⟨rfl, ⟨rfl, rfl, rfl, ?_⟩⟩ rest
    exact reverse_perm file.acl

theorem SameFiles.names {after : List PermEntry} (same : SameFiles files after) :
    after.map filename = files.map filename := by
  induction same with
  | nil => rfl
  | cons head _ ih => rw [map_cons, map_cons, head.1, ih]

theorem not_sameFiles_of_unreadable (plain : ∀ file ∈ files, file.Plain)
    (done : readPermText umask (writePermText files) = some after) (same : SameFiles files after) :
    ∀ file ∈ files, StartsReadable file.filename := by
  intro file member
  apply startsReadable_of_read plain done
  rw [same.names]
  exact mem_map_of_mem member

/-- A permission file is read back as it was written exactly if no name starts with
white space that the quotes do not keep. -/
theorem permFile_round_trip_iff (umask : Nat) (path : Text) (disk : Disk)
    (files : List PermEntry) (granted : disk.refuses (disk.place path) = false)
    (distinct : (files.map PermEntry.filename).Nodup) (plain : ∀ file ∈ files, file.Plain) :
    (∃ ret after, readPermFile umask path (writePermFile path files disk).2 = some (ret, after) ∧
      SameFiles files after) ↔ ∀ file ∈ files, StartsReadable file.filename := by
  rw [readPermFile_writePermFile umask path granted]
  by_cases empty : files = []
  · subst empty
    exact ⟨fun _ => nofun, fun _ => ⟨_, _, rfl, .nil⟩⟩
  rw [if_neg empty]
  constructor
  · rintro ⟨ret, after, done, same⟩
    obtain ⟨_, decoded, both⟩ := Option.map_eq_some_iff.mp done
    cases both
    exact not_sameFiles_of_unreadable plain decoded same
  · intro readable
    have storable : ∀ file ∈ files, file.Storable := fun file member =>
      { toPrintable := (plain file member).toPrintable
        nameStarts := readable file member
        dataStarts := fun isLink => absurd isLink (plain file member).noLink }
    rw [readPermText_writePermText umask storable distinct]
    exact ⟨_, _, rfl, sameFiles_restored plain⟩

def spacedFile : PermEntry :=
  { filename := "my file".toList, owner := "ann".toList, group := "staff".toList
    permissions := 0o640, acl := [⟨"bob".toList, 'r', 'w', '-'⟩] }

def tabbedFile : PermEntry :=
  { filename := ['\x0b', 'x'], owner := "ann".toList, group := "staff".toList
    permissions := 0o640 }

theorem plain_spacedFile : spacedFile.Plain where
  name := by decide
  fits := by decide
  bits := by decide
  owned := .inl ⟨by decide, by decide⟩
  lines := by
    intro line member
    rw [mem_singleton.mp member]
    exact ⟨by decide, all_iff_forall_prop.mp (by decide)⟩
  users := by decide
  link := nofun
  noLink := nofun
  owner := by decide
  group := by decide

theorem plain_tabbedFile : tabbedFile.Plain where
  name := by decide
  fits := by decide
  bits := by decide
  owned := .inl ⟨by decide, by decide⟩
  lines := nofun
  users := by decide
  link := nofun
  noLink := nofun
  owner := by decide
  group := by decide

theorem permFile_round_trip_iff_spaced :
    ∃ ret after, readPermFile 0o644 permFile (writePermFile permFile [spacedFile] emptyDisk).2 =
      some (ret, after) ∧ SameFiles [spacedFile] after := by
  apply (permFile_round_trip_iff 0o644 permFile emptyDisk [spacedFile] rfl (by decide) ?_).mpr
  · intro file member
    rw [mem_singleton.mp member]
    exact .inl (by decide)
  · intro file member
    rw [mem_singleton.mp member]
    exact plain_spacedFile

/-- The vertical tab is skipped like a blank. -/
theorem leading_vertical_tab_lost :
    tabbedFile.Plain ∧
      readPermFile 0o644 permFile (writePermFile permFile [tabbedFile] emptyDisk).2 =
        some (.ok, [{ tabbedFile with filename := ['x'] }]) ∧
      ¬∃ ret after, readPermFile 0o644 permFile
        (writePermFile permFile [tabbedFile] emptyDisk).2 = some (ret, after) ∧
          SameFiles [tabbedFile] after := by
  have read : readPermFile 0o644 permFile (writePermFile permFile [tabbedFile] emptyDisk).2 =
      some (.ok, [{ tabbedFile with filename := ['x'] }]) := rfl
  refine ⟨plain_tabbedFile, read, ?_⟩
  rintro ⟨ret, after, done, same⟩
  cases done
  have names := same.names
  revert names
  decide

end Wzdftpd
