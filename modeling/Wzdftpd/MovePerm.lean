import Wzdftpd.SetPerm

/- What renaming and removing a file do to the permission files. -/
namespace Wzdftpd

open Disk List Option

/-- The entry that `_movePerm` writes for the target, with owner and group as they are. -/
def movedEntry (umask : Nat) (name : Text) (moved : PermEntry) (there : Option PermEntry) :
    PermEntry :=
  match there with
  | none =>
    { filename := name, owner := moved.owner, group := moved.group, permissions := umask
      acl := moved.acl }
  | some file => { file with acl := moved.acl }

variable {umask : Nat} {name : Text} {moved : PermEntry}

theorem movedEntry_none_settled (small : umask < 2 ^ 32)
    (label : Label name) (fits : name.length < 256)
    (settled : moved.Settled umask) : (movedEntry umask name moved none).Settled umask where
  name := label.toPrintable
  fits := fits
  bits := by
    change umask < 2 ^ 64
    omega
  owned := by
    rcases settled.owned with words | ⟨_, none⟩
    · exact .inl words
    · exact .inr ⟨nofun, none⟩
  lines := settled.lines
  users := settled.users
  link := nofun
  nameStarts := label.starts
  dataStarts := nofun
  linkAcl := nofun
  fileKind := fun _ => ⟨rfl, rfl⟩
  unowned := fun noOwner => ⟨(settled.unowned noOwner).1, rfl⟩

theorem movedEntry_some_storable (name : Text) {there : PermEntry}
    (settled : moved.Settled umask) (known : there.Storable) :
    (movedEntry umask name moved (some there)).Storable :=
  { known with
    lines := settled.lines
    users := settled.users }

/-- The entry of the target before it gets the access control lines. -/
def addedEntry (umask : Nat) (name : Text) (moved : PermEntry) : PermEntry :=
  { filename := name, owner := moved.owner, group := moved.group, permissions := umask }

/-- The files of the target are `known`, with the entry of the source in place of its own. -/
structure MadeFrom (umask : Nat) (name : Text) (moved : PermEntry) (files known : List PermEntry) :
    Prop where
  storable : StorableFiles (changeFile name (fun file => { file with acl := moved.acl }) known)
  found : ∀ other,
    findFile other (changeFile name (fun file => { file with acl := moved.acl }) known) =
      if other = name then some (movedEntry umask name moved (findFile name files))
      else findFile other files

section

variable {umask : Nat} {name : Text} {moved : PermEntry} {files : List PermEntry}

theorem filename_with_acl (acl : List AclLine) (file : PermEntry) :
    ({ file with acl := acl } : PermEntry).filename = file.filename := rfl

theorem madeFrom_append (small : umask < 2 ^ 32) (label : Label name) (fits : name.length < 256)
    (settled : moved.Settled umask) (storable : StorableFiles files)
    (absent : findFile name files = none) :
    MadeFrom umask name moved files (files ++ [addedEntry umask name moved]) := by
  have changed := movedEntry_none_settled small label fits settled
  have plain : (addedEntry umask name moved).Storable :=
    { changed.toStorable with
      lines := nofun
      users := nodup_nil }
  have all := storable.append plain absent
  have added (other : Text) : findFile other (files ++ [addedEntry umask name moved]) =
      if other = name then some (addedEntry umask name moved) else findFile other files :=
    findFile_append files (addedEntry umask name moved) other absent
  have atName : findFile name (files ++ [addedEntry umask name moved]) =
      some (addedEntry umask name moved) := (added name).trans (if_pos rfl)
  refine ⟨all.change (fun _ => rfl) ?_, fun other => ?_⟩
  · intro file member same
    have first := NamedList.lookup_of_mem all.distinct member
    rw [same] at first
    rw [some.inj (first.symm.trans atName)]
    exact changed.toStorable
  · rw [findFile_changeFile (filename_with_acl moved.acl), atName, added, absent]
    split <;> rfl

theorem madeFrom_change {keep : PermEntry → PermEntry} (kept : ∀ file, keep file = file)
    (settled : moved.Settled umask) (storable : StorableFiles files) {there : PermEntry}
    (present : findFile name files = some there) :
    MadeFrom umask name moved files (changeFile name keep files) := by
  have named (file : PermEntry) : (keep file).filename = file.filename := by rw [kept]
  have all : StorableFiles (changeFile name keep files) := by
    apply storable.change named
    intro file member _
    rw [kept]
    exact storable.storable file member
  refine ⟨all.change (fun _ => rfl) fun file member _ => ?_, fun other => ?_⟩
  · exact movedEntry_some_storable name settled (all.storable file member)
  · rw [findFile_changeFile (filename_with_acl moved.acl), findFile_changeFile named, if_pos rfl,
      present, findFile_changeFile named, map_some, kept]
    split <;> rfl

end

variable {env : PermEnv}

theorem targetFiles_spec (label : Label name) (fits : name.length < 256)
    (settled : moved.Settled env.umask) {files : List PermEntry}
    (storable : StorableFiles files) :
    ∃ known, targetFiles env name moved false false files = some known ∧
      MadeFrom env.umask name moved files known := by
  cases found : findFile name files with
  | none =>
    have added : targetFiles env name moved false false files =
        some (files ++ [addedEntry env.umask name moved]) := by
      simp [targetFiles, found, addNewFile, field_eq fits, addedEntry]
    exact ⟨_, added, madeFrom_append env.small label fits settled storable found⟩
  | some there =>
    simp only [targetFiles, found]
    exact ⟨_, rfl, madeFrom_change (fun _ => rfl) settled storable found⟩

/-- The entry of `a` goes, and the one of `b` is made from it and from what `b` has
meanwhile. -/
structure EntryMoved (umask : Nat) (a b : Nat × Text) (disk after : Disk) : Prop where
  target : ∃ there, after.entry umask b =
      ((disk.entry umask a).map fun moved => movedEntry umask b.2 moved there).bind
        (PermEntry.restored umask) ∧
    (∀ file, there = some file → file.Settled umask) ∧
    (if a = b then there = none else Rewritten (disk.entry umask b) there)
  source : a ≠ b → after.entry umask a = none
  others : ∀ other, other ≠ a → other ≠ b →
    SameEntry (disk.entry umask other) (after.entry umask other)

variable {disk : Disk}

variable {after : Disk}

/-- What `_movePerm` does to the entries. -/
theorem moveEntry_entry {sourcePath targetPath : Text} {a b : Nat × Text}
    (written : disk.Written) (sourcePlace : disk.place sourcePath = (a.1, permFile))
    (targetPlace : disk.place targetPath = (b.1, permFile))
    (sourceGranted : disk.refuses (a.1, permFile) = false)
    (targetGranted : disk.refuses (b.1, permFile) = false) (label : Label b.2)
    (fits : b.2.length < 256)
    (done : moveEntry env sourcePath a.2 targetPath b.2 false false disk = some after) :
    EntryMoved env.umask a b disk after := by
  have small := env.small
  obtain ⟨_, read, _⟩ := written.read env.umask sourcePlace
  obtain ⟨writtenMid, goneMid, restMid⟩ := written.remove small sourcePlace sourceGranted
  rw [moveEntry, read, bind_some] at done
  simp only at done
  have midPlace : (writePermFile sourcePath (removeFile a.2 (disk.entries env.umask a.1))
      disk).2.place targetPath = (b.1, permFile) := by
    rw [writePermFile_place]
    exact targetPlace
  have midGranted : (writePermFile sourcePath (removeFile a.2 (disk.entries env.umask a.1))
      disk).2.refuses (b.1, permFile) = false := by
    rw [writePermFile_refuses]
    exact targetGranted
  generalize (writePermFile sourcePath (removeFile a.2 (disk.entries env.umask a.1)) disk).2 = mid
    at done writtenMid goneMid restMid midPlace midGranted
  obtain ⟨_, readMid, _⟩ := writtenMid.read env.umask midPlace
  rw [readMid, bind_some] at done
  have midTarget : if a = b then mid.entry env.umask b = none
      else Rewritten (disk.entry env.umask b) (mid.entry env.umask b) := by
    split
    · rename_i same
      rw [← same]
      exact goneMid
    · rename_i different
      exact restMid b (Ne.symm different)
  have midSettled : ∀ file, mid.entry env.umask b = some file → file.Settled env.umask :=
    fun _ found => writtenMid.entry_settled small found
  cases moved : disk.entry env.umask a with
  | none =>
    rw [show findFile a.2 (disk.entries env.umask a.1) = none from moved] at done
    cases done
    obtain ⟨_, gone, rest⟩ := writtenMid.remove small midPlace midGranted
    refine ⟨⟨mid.entry env.umask b, ?_, midSettled, midTarget⟩, fun different => ?_,
      fun other notA notB => ?_⟩
    · rw [gone, moved]
      rfl
    · exact (rest a different).none_iff.mpr goneMid
    · exact (restMid other notA).sameEntry.trans (rest other notB).sameEntry
  | some file =>
    rw [show findFile a.2 (disk.entries env.umask a.1) = some file from moved] at done
    have settled := written.entry_settled small moved
    obtain ⟨_, added, storable, found⟩ := targetFiles_spec label fits settled
      (writtenMid.storableFiles small b.1)
    simp only [added] at done
    cases done
    obtain ⟨made, rest⟩ := writtenMid.replace small midPlace midGranted storable found
    refine ⟨⟨mid.entry env.umask b, ?_, midSettled, midTarget⟩, fun different => ?_,
      fun other notA notB => ?_⟩
    · rw [made, moved]
      rfl
    · exact (rest a different).none_iff.mpr goneMid
    · exact (restMid other notA).sameEntry.trans (rest other notB).sameEntry

variable {source target : Text}

theorem moveEntry_dirOf {sourceName targetName : Text} {owner group : Bool}
    (done : moveEntry env source sourceName target targetName owner group disk = some after) :
    after.dirOf = disk.dirOf := by
  obtain ⟨_, _, rest⟩ := bind_eq_some_iff.mp done
  obtain ⟨_, _, last⟩ := bind_eq_some_iff.mp rest
  split at last
  · cases last
    rw [writePermFile_dirOf, writePermFile_dirOf]
  · obtain ⟨_, _, rfl⟩ := map_eq_some_iff.mp last
    rw [writePermFile_dirOf, writePermFile_dirOf]

theorem length_withSlash_le (before : Char) (dir : Text) :
    (withSlash before dir).length ≤ dir.length + 1 := by
  unfold withSlash
  split
  · simp
  · omega

theorem length_withSlash_of_split {path dir : Text} (before : Char)
    (split : splitSlash path = some (dir, name)) :
    (withSlash before dir).length ≤ path.length := by
  have bound := length_withSlash_le before dir
  rw [(splitSlash_spec split).1, length_append, length_append, length_singleton]
  omega

/-- `_movePerm` comes to the permission files: the source is no directory, and neither
is a target that exists. -/
def MovesEntry (fs : FileSystem) (old new : Text) : Prop :=
  (∃ s, fs.stat old = some s ∧ s.kind ≠ .dir) ∧ (fs.stat new).map (·.kind) ≠ some .dir

/-- The name of the permission file can be appended to a path. -/
def RoomForPermFile (path : Text) : Prop := path.length + permFile.length ≤ 4095

variable {fs : FileSystem}

theorem movePerm_moveEntry {old new : Text} {out : Int × Disk} (oldSome : old ≠ [])
    (newSome : new ≠ []) (oldRoom : RoomForPermFile old) (newRoom : RoomForPermFile new)
    (oldBounds : env.InBounds old) (newBounds : env.InBounds new) (moves : MovesEntry fs old new)
    (done : movePerm env fs old new false false disk = some out) :
    ∃ sourcePath targetPath, disk.place sourcePath = ((disk.place old).1, permFile) ∧
      disk.place targetPath = ((disk.place new).1, permFile) ∧
      moveEntry env sourcePath (disk.place old).2 targetPath (disk.place new).2 false false disk =
        some out.2 := by
  obtain ⟨⟨_, stat, notDir⟩, targetNoDir⟩ := moves
  unfold RoomForPermFile at oldRoom newRoom
  have oldShort : ¬old.length ≥ bufferLen := by
    simp only [bufferLen]
    omega
  have newShort : ¬new.length ≥ bufferLen := by
    simp only [bufferLen]
    omega
  simp only [movePerm, if_neg (not_or.mpr ⟨oldSome, newSome⟩), if_neg oldShort, stat,
    if_neg notDir] at done
  cases oldSplit : splitSlash old with
  | none =>
    rw [oldSplit] at done
    cases done
  | some source =>
    have sourceFits := length_withSlash_of_split env.before oldSplit
    simp only [oldSplit, if_neg newShort, if_neg targetNoDir] at done
    rw [if_neg (by omega)] at done
    cases newSplit : splitSlash new with
    | none =>
      rw [newSplit] at done
      cases done
    | some target =>
      have targetFits := length_withSlash_of_split env.before newSplit
      simp only [newSplit] at done
      rw [if_neg (by omega)] at done
      obtain ⟨_, ran, rfl⟩ := map_eq_some_iff.mp done
      obtain ⟨sourcePlace, sameSource⟩ := place_permPath disk oldSplit oldBounds
      obtain ⟨targetPlace, sameTarget⟩ := place_permPath disk newSplit newBounds
      refine ⟨_, _, sourcePlace, targetPlace, ?_⟩
      rw [sameSource, sameTarget]
      exact ran

theorem movePerm_unchanged {old new : Text} {out : Int × Disk} (moves : ¬MovesEntry fs old new)
    (done : movePerm env fs old new false false disk = some out) : out.2 = disk := by
  unfold movePerm at done
  split at done
  · cases done
    rfl
  split at done
  · cases done
  split at done
  · cases done
    rfl
  rename_i s stat
  split at done
  · cases done
    rfl
  rename_i notDir
  split at done
  · cases done
  simp only at done
  split at done
  · cases done
    rfl
  split at done
  · cases done
  · split_ifs at done with targetNoDir
    · cases done
      rfl
    · exact absurd ⟨⟨s, stat, notDir⟩, targetNoDir⟩ moves

theorem moveFile_entry (umask : Nat)
    (sourceName : (disk.place source).2 ≠ permFile) (targetName : (disk.place target).2 ≠ permFile)
    (file : Nat × Text) :
    (disk.moveFile source target).entry umask file = disk.entry umask file := by
  have notTarget : (file.1, permFile) ≠ disk.place target :=
    fun same => targetName (congrArg Prod.snd same.symm)
  have notSource : (file.1, permFile) ≠ disk.place source :=
    fun same => sourceName (congrArg Prod.snd same.symm)
  have same : (disk.moveFile source target).files (file.1, permFile) =
      disk.files (file.1, permFile) := by
    exact (if_neg notTarget).trans (if_neg notSource)
  simp only [entry, entries, same]

/-- The checks of `file_rename` let it come to the permission files. -/
def RenameAllowed (w : World) (fs : FileSystem) (user : User) (source target : Text) : Prop :=
  '/' ∈ target ∧ checkPermFull fs w user .rnfr source = 0 ∧
    checkPermFull fs w user .stor (splitParent target) = 0

section

variable {env : PermEnv} {w : World} {user : User} {source target : Text} {disk : Disk}

theorem RenameAllowed.fileRenameOn_eq
    (allowed : RenameAllowed w (disk.view env.umask w.fsAfter) user source target) :
    fileRenameOn env w user source target disk =
      (movePerm env (disk.view env.umask w.fsAfter) source target false false disk).map
        fun moved => if w.fsRename source target then (0, moved.2.moveFile source target)
          else (1, moved.2) := by
  obtain ⟨slash, renames, stores⟩ := allowed
  simp [fileRenameOn, if_neg (not_not.mpr slash), renames, stores, ne_eq]

theorem RenameAllowed.source_ne_nil (allowed : RenameAllowed w fs user source target) :
    source ≠ [] := by
  rintro rfl
  cases allowed.2.1

theorem RenameAllowed.target_ne_nil (allowed : RenameAllowed w fs user source target) :
    target ≠ [] := by
  rintro rfl
  exact not_mem_nil allowed.1

theorem renameAllowed_of_zero (done : fileRenameOn env w user source target disk = some (0, after))
    :
    RenameAllowed w (disk.view env.umask w.fsAfter) user source target ∧
      w.fsRename source target = true := by
  have allowed : RenameAllowed w (disk.view env.umask w.fsAfter) user source target := by
    simp only [fileRenameOn] at done
    split at done
    · cases done
    rename_i slash
    rw [not_not] at slash
    by_cases renames : checkPermFull (disk.view env.umask w.fsAfter) w user .rnfr source = 0
    · by_cases stores : checkPermFull (disk.view env.umask w.fsAfter) w user .stor
          (splitParent target) = 0
      · exact ⟨slash, renames, stores⟩
      · rw [if_neg (not_not.mpr renames), if_pos stores] at done
        cases done
    · rw [if_pos renames] at done
      cases done
  refine ⟨allowed, ?_⟩
  rw [allowed.fileRenameOn_eq] at done
  obtain ⟨_, _, same⟩ := map_eq_some_iff.mp done
  by_contra failed
  rw [if_neg failed] at same
  cases same

end

/-- The entry of `a` has become the one of `b`, and no other one has changed. -/
structure Carried (umask : Nat) (a b : Nat × Text) (disk after : Disk) : Prop where
  target : SameEntry (disk.entry umask a) (after.entry umask b)
  source : after.entry umask a = none
  others : ∀ other, other ≠ a → other ≠ b →
    SameEntry (disk.entry umask other) (after.entry umask other)

/-- The permissions are those of a new entry, or the target has owner, group and permissions
already. -/
def CarriesOver (umask : Nat) (a b : Nat × Text) (disk : Disk) : Prop :=
  ∀ moved, disk.entry umask a = some moved → a ≠ b ∧
    (disk.entry umask b = none → moved.permissions = umask) ∧
    ∀ there, disk.entry umask b = some there →
      there.owner = moved.owner ∧ there.group = moved.group ∧
        there.permissions = moved.permissions ∧ (there.kind = .lnk → moved.acl = [])

/-- A new entry of the target has all of the source but its permissions. -/
theorem sameEntry_movedEntry_none_iff (small : umask < 2 ^ 32)
    (label : Label name) (fits : name.length < 256)
    (settled : moved.Settled umask) :
    SameEntry (some moved) ((movedEntry umask name moved none).restored umask) ↔
      moved.permissions = umask := by
  rw [(movedEntry_none_settled small label fits settled).restored_eq]
  constructor
  · rintro ⟨⟨_, _, permissions, _⟩⟩
    exact permissions.symm
  · exact fun same => .some ⟨rfl, rfl, same.symm, reverse_perm moved.acl⟩

/-- An entry of the target that was there has only the access control lines of the
source. -/
theorem sameEntry_movedEntry_some_iff (name : Text) {there : PermEntry}
    (settled : moved.Settled umask) (known : there.Settled umask) :
    SameEntry (some moved) ((movedEntry umask name moved (some there)).restored umask) ↔
      there.owner = moved.owner ∧ there.group = moved.group ∧
        there.permissions = moved.permissions ∧ (there.kind = .lnk → moved.acl = []) := by
  have storable := movedEntry_some_storable name settled known.toStorable
  have kind : (movedEntry umask name moved (some there)).kind = there.kind := rfl
  have owner : (movedEntry umask name moved (some there)).owner = there.owner := rfl
  have acl : (movedEntry umask name moved (some there)).acl = moved.acl := rfl
  by_cases noOwner : there.owner = []
  · have notLink : there.kind ≠ .lnk := by
      rcases known.owned with ⟨word, _⟩ | ⟨notLink, _⟩
      · exact absurd noOwner word.nonempty
      · exact notLink
    rw [restored_of_no_owner storable noOwner, acl]
    constructor
    · intro same
      split at same
      · cases same
      · cases same with
        | some same =>
          refine ⟨same.owner, same.group, ?_, fun isLink => absurd isLink notLink⟩
          exact (known.unowned noOwner).2.trans same.permissions
    · rintro ⟨sameOwner, sameGroup, samePermissions, _⟩
      have lines := (settled.unowned (sameOwner.symm.trans noOwner)).1
      rw [if_neg lines]
      refine .some ⟨sameOwner, sameGroup, ?_, reverse_perm moved.acl⟩
      exact (known.unowned noOwner).2.symm.trans samePermissions
  · unfold PermEntry.restored
    rw [kind, owner]
    by_cases isLink : there.kind = .lnk
    · rw [if_pos isLink]
      constructor
      · rintro ⟨same⟩
        exact ⟨same.owner, same.group, same.permissions, fun _ => same.acl.symm.eq_nil⟩
      · rintro ⟨sameOwner, sameGroup, samePermissions, noLines⟩
        refine .some ⟨sameOwner, sameGroup, samePermissions, ?_⟩
        rw [noLines isLink]
    · rw [if_neg isLink, if_neg fun both => noOwner both.1]
      constructor
      · rintro ⟨same⟩
        exact ⟨same.owner, same.group, same.permissions, fun link => absurd link isLink⟩
      · rintro ⟨sameOwner, sameGroup, samePermissions, _⟩
        exact .some ⟨sameOwner, sameGroup, samePermissions, reverse_perm moved.acl⟩

/-- The permission files were written by the server and can be written again, the paths leave
room for their name, and the name of the target can be stored. -/
structure RenameSetting (env : PermEnv) (source target : Text) (disk : Disk) : Prop where
  written : disk.Written
  sourceGranted : disk.refuses ((disk.place source).1, permFile) = false
  targetGranted : disk.refuses ((disk.place target).1, permFile) = false
  sourceRoom : RoomForPermFile source
  targetRoom : RoomForPermFile target
  sourceBounds : env.InBounds source
  targetBounds : env.InBounds target
  label : Label (disk.place target).2
  fits : (disk.place target).2.length < 256

variable {w : World} {user : User}

theorem RenameSetting.moveEntry_entry {moved : Int × Disk}
    (setting : RenameSetting env source target disk)
    (allowed : RenameAllowed w fs user source target) (moves : MovesEntry fs source target)
    (ran : movePerm env fs source target false false disk = some moved) :
    EntryMoved env.umask (disk.place source) (disk.place target) disk moved.2 ∧
      moved.2.dirOf = disk.dirOf := by
  obtain ⟨_, _, sourcePlace, targetPlace, done⟩ := movePerm_moveEntry
    allowed.source_ne_nil allowed.target_ne_nil setting.sourceRoom setting.targetRoom
    setting.sourceBounds setting.targetBounds moves ran
  have entryMoved := Wzdftpd.moveEntry_entry setting.written sourcePlace targetPlace
    setting.sourceGranted setting.targetGranted setting.label setting.fits done
  exact ⟨entryMoved, moveEntry_dirOf done⟩

/-- A rename that succeeds moves the entry. -/
theorem RenameSetting.fileRenameOn_entry (setting : RenameSetting env source target disk)
    (regular : ∃ s, w.fsAfter.stat source = some s ∧ s.kind = .reg)
    (targetRegular : ∀ s, w.fsAfter.stat target = some s → s.kind = .reg)
    (sourceName : (disk.place source).2 ≠ permFile) (targetName : (disk.place target).2 ≠ permFile)
    (done : fileRenameOn env w user source target disk = some (0, after)) :
    EntryMoved env.umask (disk.place source) (disk.place target) disk after := by
  obtain ⟨allowed, renamed⟩ := renameAllowed_of_zero done
  have moves : MovesEntry (disk.view env.umask w.fsAfter) source target := by
    obtain ⟨s, stat, isReg⟩ := regular
    refine ⟨⟨s, stat, by simp [isReg]⟩, fun isDir => ?_⟩
    obtain ⟨t, targetStat, kind⟩ := map_eq_some_iff.mp isDir
    rw [targetRegular t targetStat] at kind
    cases kind
  rw [allowed.fileRenameOn_eq, renamed] at done
  obtain ⟨moved, ran, same⟩ := map_eq_some_iff.mp done
  obtain ⟨⟨atTarget, atSource, others⟩, _⟩ := setting.moveEntry_entry allowed moves ran
  have entries : ∀ file, after.entry env.umask file = moved.2.entry env.umask file := by
    intro file
    cases same
    apply moveFile_entry env.umask
    · exact sourceName
    · exact targetName
  simp only [← entries] at atTarget atSource others
  exact ⟨atTarget, atSource, others⟩

namespace EntryMoved

variable {umask : Nat} {a b : Nat × Text} {disk after : Disk}

theorem carried_of_none (entryMoved : EntryMoved umask a b disk after)
    (none_ : disk.entry umask a = none) : Carried umask a b disk after := by
  obtain ⟨⟨_, atTarget, _⟩, atSource, others⟩ := entryMoved
  have gone : after.entry umask b = none := by
    rw [atTarget, none_]
    rfl
  refine ⟨?_, ?_, others⟩
  · rw [none_, gone]
    exact .none
  · by_cases same : a = b
    · rw [same]
      exact gone
    · exact atSource same

/-- The entry of another file is carried over exactly if it is new there and has the
usual permissions, or agrees with the one that is there. -/
theorem carried_some_iff (entryMoved : EntryMoved umask a b disk after) (different : a ≠ b)
    (small : umask < 2 ^ 32) (label : Label b.2) (fits : b.2.length < 256) {entry : PermEntry}
    (found : disk.entry umask a = some entry) (settled : entry.Settled umask) :
    Carried umask a b disk after ↔ (disk.entry umask b = none → entry.permissions = umask) ∧
      ∀ file, disk.entry umask b = some file → file.owner = entry.owner ∧ file.group = entry.group ∧
          file.permissions = entry.permissions ∧ (file.kind = .lnk → entry.acl = []) := by
  obtain ⟨⟨there, atTarget, settledThere, isThere⟩, atSource, others⟩ := entryMoved
  rw [found, map_some, bind_some] at atTarget
  rw [if_neg different] at isThere
  have carriedIff : Carried umask a b disk after ↔
      SameEntry (some entry) ((movedEntry umask b.2 entry there).restored umask) := by
    rw [← atTarget, ← found]
    exact ⟨fun carried => carried.target, fun same => ⟨same, atSource different, others⟩⟩
  rw [carriedIff]
  cases known : disk.entry umask b with
  | none =>
    rw [known] at isThere
    rw [isThere.none_iff.mpr rfl, sameEntry_movedEntry_none_iff small label fits settled]
    constructor
    · intro bits
      refine ⟨fun _ => bits, fun file some_ => ?_⟩
      cases some_
    · exact fun both => both.1 rfl
  | some file =>
    rw [known] at isThere
    obtain ⟨kept, rfl⟩ : ∃ kept, there = some kept := by
      cases there with
      | none => cases isThere.none_iff.mp rfl
      | some kept => exact ⟨kept, rfl⟩
    obtain ⟨⟨owner, group, permissions, _⟩⟩ := isThere.sameEntry
    rw [sameEntry_movedEntry_some_iff _ settled (settledThere kept rfl), owner, group,
      permissions, isThere.kind]
    constructor
    · intro fields
      refine ⟨fun none_ => ?_, fun other some_ => ?_⟩
      · cases none_
      · cases some_
        exact fields
    · exact fun both => both.2 file rfl

end EntryMoved

/-- After a rename the target has the entry of the source exactly if the entry was new
to it with the usual permissions, or differed from its own one only in the access
control lines. -/
theorem rename_carries_permissions_iff {env : PermEnv} {w : World} {user : User}
    {source target : Text} {disk after : Disk} (setting : RenameSetting env source target disk)
    (regular : ∃ s, w.fsAfter.stat source = some s ∧ s.kind = .reg)
    (targetRegular : ∀ s, w.fsAfter.stat target = some s → s.kind = .reg)
    (sourceName : (disk.place source).2 ≠ permFile) (targetName : (disk.place target).2 ≠ permFile)
    (done : fileRenameOn env w user source target disk = some (0, after)) :
    Carried env.umask (disk.place source) (disk.place target) disk after ↔
      CarriesOver env.umask (disk.place source) (disk.place target) disk := by
  have entryMoved := setting.fileRenameOn_entry regular targetRegular sourceName targetName done
  cases found : disk.entry env.umask (disk.place source) with
  | none =>
    constructor
    · intro _ entry some_
      cases found.symm.trans some_
    · exact fun _ => entryMoved.carried_of_none found
  | some entry =>
    have settled := setting.written.entry_settled env.small found
    by_cases same : disk.place source = disk.place target
    · constructor
      · rintro ⟨carried, gone, _⟩
        rw [found, ← same, gone] at carried
        cases carried
      · exact fun carries => absurd same (carries entry found).1
    · rw [entryMoved.carried_some_iff same env.small setting.label setting.fits found settled]
      constructor
      · intro agrees other isEntry
        cases found.symm.trans isEntry
        exact ⟨same, agrees⟩
      · exact fun carries => (carries entry found).2

def annsFile (bits : Nat) : PermEntry :=
  { filename := ['a'], owner := "ann".toList, group := "staff".toList, permissions := bits }

def diskOf (files : List PermEntry) : Disk :=
  emptyDisk.put (0, permFile) (some (writePermText files))

theorem annsFile_storable {bits : Nat} (small : bits < 2 ^ 32) : (annsFile bits).Storable where
  name := (by decide : Printable ['a'])
  fits := by simp [annsFile]
  bits := by
    change bits < 2 ^ 64
    omega
  owned := .inl ⟨(by decide : Word "ann".toList), (by decide : Word "staff".toList)⟩
  lines := nofun
  users := nodup_nil
  link := nofun
  nameStarts := (by decide : Word ['a']).label.starts
  dataStarts := nofun

theorem written_diskOf {files : List PermEntry} (storable : StorableFiles files) :
    (diskOf files).Written := by
  intro dir content here
  by_cases place : (dir, permFile) = (0, permFile)
  · rw [place] at here
    cases here
    exact ⟨files, storable, rfl⟩
  · rw [diskOf, put_files_of_ne _ place] at here
    cases here

/-- The siteop that renames `/srv/a` to `/srv/b`. -/
def siteop : User := { srvUser with flags := ['O'] }

def renameWorld : World :=
  { server := Server.single siteop
    fs := FileSystem.ofList [("/srv".toList, .dir), ("/srv/a".toList, .reg)]
    fsAfter := FileSystem.ofList [("/srv".toList, .dir), ("/srv/a".toList, .reg)] }

theorem renameSetting_annsFile {bits : Nat} (small : bits < 2 ^ 32) :
    RenameSetting usualEnv "/srv/a".toList "/srv/b".toList (diskOf [annsFile bits]) where
  written := by
    apply written_diskOf
    refine ⟨fun file member => ?_, nodup_singleton _⟩
    rw [mem_singleton.mp member]
    exact annsFile_storable small
  sourceGranted := rfl
  targetGranted := rfl
  sourceRoom := by
    unfold RoomForPermFile
    decide
  targetRoom := by
    unfold RoomForPermFile
    decide
  sourceBounds := inBounds_usualEnv _
  targetBounds := inBounds_usualEnv _
  label := by
    have word : Word ['b'] := by decide
    exact word.label
  fits := by simp [place]

theorem rename_carries_permissions_iff_usual : ∃ after,
    fileRenameOn usualEnv renameWorld siteop "/srv/a".toList "/srv/b".toList
      (diskOf [annsFile 0o644]) = some (0, after) ∧
    Carried usualEnv.umask (0, ['a']) (0, ['b']) (diskOf [annsFile 0o644]) after := by
  have returned : ∃ after, fileRenameOn usualEnv renameWorld siteop "/srv/a".toList
      "/srv/b".toList (diskOf [annsFile 0o644]) = some (0, after) := ⟨_, rfl⟩
  obtain ⟨after, done⟩ := returned
  have regular : ∃ s, renameWorld.fsAfter.stat "/srv/a".toList = some s ∧ s.kind = .reg :=
    ⟨⟨.reg, 0⟩, by decide, rfl⟩
  refine ⟨after, done, (rename_carries_permissions_iff
    (renameSetting_annsFile (by decide : 0o644 < 2 ^ 32)) regular (fun s found => ?_)
    (by decide) (by decide) done).mpr ?_⟩
  · cases found
  intro moved found
  have entry : (diskOf [annsFile 0o644]).entry usualEnv.umask (0, ['a']) =
      some (annsFile 0o644) := rfl
  have there : (diskOf [annsFile 0o644]).entry usualEnv.umask (0, ['b']) = none := rfl
  cases entry.symm.trans found
  refine ⟨by decide, fun _ => rfl, fun file found => ?_⟩
  cases there.symm.trans found

/-- The permissions 0600 of the file are 0644 after the rename. -/
theorem rename_resets_permissions : ∃ after entry,
    fileRenameOn usualEnv renameWorld siteop "/srv/a".toList "/srv/b".toList
      (diskOf [annsFile 0o600]) = some (0, after) ∧
    (diskOf [annsFile 0o600]).entry usualEnv.umask (0, ['a']) = some (annsFile 0o600) ∧
    after.entry usualEnv.umask (0, ['b']) = some entry ∧ entry.permissions = 0o644 ∧
    ¬Carried usualEnv.umask (0, ['a']) (0, ['b']) (diskOf [annsFile 0o600]) after := by
  refine ⟨_, { annsFile 0o644 with filename := ['b'] }, rfl, rfl, rfl, rfl, ?_⟩
  rintro ⟨target, _⟩
  obtain ⟨⟨_, _, permissions, _⟩⟩ := target
  revert permissions
  decide

end Wzdftpd
