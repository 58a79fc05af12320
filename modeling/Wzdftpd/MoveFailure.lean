import Wzdftpd.MovePerm

/- Renaming and removing a file where the system refuses. -/
namespace Wzdftpd

open List Option

def Unchanged (umask : Nat) (disk after : Disk) : Prop :=
  ∀ file, SameEntry (disk.entry umask file) (after.entry umask file)

/-- There is nothing to move or to remove, or both are the same file with the permissions of a
new entry. -/
def NothingToMove (umask : Nat) (a b : Nat × Text) (disk : Disk) : Prop :=
  (disk.entry umask a = none ∧ disk.entry umask b = none) ∨
    (a = b ∧ ∀ moved, disk.entry umask a = some moved → moved.permissions = umask)

namespace EntryMoved

variable {umask : Nat} {a b : Nat × Text} {disk after : Disk}

theorem unchanged_none_iff (entryMoved : EntryMoved umask a b disk after)
    (found : disk.entry umask a = none) :
    Unchanged umask disk after ↔ disk.entry umask b = none := by
  have carried := entryMoved.carried_of_none found
  have gone : after.entry umask b = none := by
    have same := carried.target
    rw [found] at same
    exact sameEntry_none.mp same
  constructor
  · intro unchanged
    have same := unchanged b
    rw [gone] at same
    cases known : disk.entry umask b with
    | none => rfl
    | some file =>
      rw [known] at same
      cases same
  · intro none_ file
    by_cases isTarget : file = b
    · rw [isTarget, none_, gone]
      exact .none
    · by_cases isSource : file = a
      · rw [isSource, found, carried.source]
        exact .none
      · exact carried.others file isSource isTarget

theorem unchanged_self_iff (entryMoved : EntryMoved umask a a disk after)
    (small : umask < 2 ^ 32) (label : Label a.2) (fits : a.2.length < 256) {entry : PermEntry}
    (found : disk.entry umask a = some entry) (settled : entry.Settled umask) :
    Unchanged umask disk after ↔ entry.permissions = umask := by
  obtain ⟨⟨_, atTarget, _, isThere⟩, _, others⟩ := entryMoved
  rw [if_pos rfl] at isThere
  rw [found, map_some, bind_some, isThere] at atTarget
  rw [← sameEntry_movedEntry_none_iff small label fits settled, ← atTarget, ← found]
  constructor
  · exact fun unchanged => unchanged a
  · intro same file
    by_cases isSource : file = a
    · rw [isSource]
      exact same
    · exact others file isSource isSource

end EntryMoved

section

variable {env : PermEnv} {w : World} {user : User} {source target : Text} {disk : Disk}

/-- `_movePerm` alone leaves all entries as they are only if there is nothing to move. -/
theorem RenameSetting.unchanged_iff {fs : FileSystem} {moved : Int × Disk}
    (setting : RenameSetting env source target disk)
    (allowed : RenameAllowed w fs user source target) (moves : MovesEntry fs source target)
    (ran : movePerm env fs source target false false disk = some moved) :
    Unchanged env.umask disk moved.2 ↔
      NothingToMove env.umask (disk.place source) (disk.place target) disk := by
  have entryMoved := (setting.moveEntry_entry allowed moves ran).1
  have label := setting.label
  have fits := setting.fits
  generalize disk.place source = a at entryMoved ⊢
  generalize disk.place target = b at entryMoved label fits ⊢
  cases found : disk.entry env.umask a with
  | none =>
    rw [entryMoved.unchanged_none_iff found]
    constructor
    · exact fun none_ => .inl ⟨found, none_⟩
    · rintro (⟨_, none_⟩ | ⟨same, _⟩)
      · exact none_
      · exact same ▸ found
  | some entry =>
    have settled := setting.written.entry_settled env.small found
    by_cases same : a = b
    · subst same
      rw [entryMoved.unchanged_self_iff env.small label fits found settled]
      constructor
      · intro bits
        refine .inr ⟨rfl, fun other isEntry => ?_⟩
        cases found.symm.trans isEntry
        exact bits
      · rintro (⟨none_, _⟩ | ⟨_, bits⟩)
        · cases found.symm.trans none_
        · exact bits entry found
    · constructor
      · intro unchanged
        have lost := unchanged a
        rw [found, entryMoved.source same] at lost
        cases lost
      · rintro (⟨none_, _⟩ | ⟨isSame, _⟩)
        · cases found.symm.trans none_
        · exact absurd isSame same

/-- A rename that the system refuses keeps the entries exactly if `_movePerm` has not
come to the permission files, or has found nothing to move. -/
theorem fileRenameOn_unchanged_iff {out : Int × Disk}
    (setting : RenameSetting env source target disk)
    (allowed : RenameAllowed w (disk.view env.umask w.fsAfter) user source target)
    (failed : w.fsRename source target = false)
    (done : fileRenameOn env w user source target disk = some out) :
    Unchanged env.umask disk out.2 ↔
      (MovesEntry w.fsAfter source target →
        NothingToMove env.umask (disk.place source) (disk.place target) disk) := by
  rw [allowed.fileRenameOn_eq, failed] at done
  obtain ⟨_, ran, rfl⟩ := map_eq_some_iff.mp done
  by_cases moves : MovesEntry w.fsAfter source target
  · have unchangedIff := setting.unchanged_iff allowed moves ran
    constructor
    · exact fun unchanged _ => unchangedIff.mp unchanged
    · exact fun nothing => unchangedIff.mpr (nothing moves)
  · constructor
    · exact fun _ reached => absurd reached moves
    · intro _ file
      rw [movePerm_unchanged moves ran]
      exact .refl _

end

variable {disk : Disk}

theorem writePermFile_files_of_ne {path : Text} {files : List PermEntry}
    {other : Nat × Text} (different : other ≠ disk.place path) :
    (writePermFile path files disk).2.files other = disk.files other := by
  unfold writePermFile
  simp only
  split
  · split
    · rfl
    · exact disk.put_files_of_ne different none
  · split
    · rfl
    · exact disk.put_files_of_ne different _

variable {env : PermEnv} {filename : Text}

/-- A file in the root directory: the name of the permission file is spoiled. -/
theorem fileRemoveIn_root_entry {name : Text}
    {out : Int × Disk} (split : splitSlash filename = some ([], name)) (some : name ≠ [])
    (done : fileRemoveIn env false filename [] name disk = .some out) (file : Nat × Text) :
    out.2.entry env.umask file = disk.entry env.umask file := by
  obtain ⟨whole, noSlash⟩ := splitSlash_spec split
  have place : disk.place (filename ++ permFile) = (disk.dirOf ['/'], name ++ permFile) := by
    have shape : filename ++ permFile = ['/'] ++ (name ++ permFile) := by
      simp [whole]
    have plain : '/' ∉ name ++ permFile := by
      rw [mem_append, not_or]
      exact ⟨noSlash, by decide⟩
    rw [shape, place_append disk (.inr rfl) plain]
  have different : (file.1, permFile) ≠ disk.place (filename ++ permFile) := by
    rw [place]
    intro same
    have lengths := congrArg (fun place : Nat × Text => place.2.length) same
    simp only [length_append] at lengths
    exact some (eq_nil_of_length_eq_zero (by omega))
  obtain ⟨_, _, rfl⟩ := map_eq_some_iff.mp done
  simp only [if_pos]
  split
  · rename_i impossible
    cases impossible
  · unfold Disk.entry Disk.entries
    split
    · rw [writePermFile_files_of_ne different]
    · rfl

theorem fileRemoveIn_entry {dir name : Text} {out : Int × Disk} (written : disk.Written)
    (granted : disk.refuses ((disk.place filename).1, permFile) = false)
    (split : splitSlash filename = some (dir, name)) (inDir : dir ≠ [])
    (done : fileRemoveIn env false filename dir name disk = some out) :
    Unchanged env.umask disk out.2 ↔ disk.entry env.umask (disk.place filename) = none := by
  obtain ⟨whole, noSlash⟩ := splitSlash_spec split
  have ends : dir ++ ['/'] = [] ∨ (dir ++ ['/']).getLast? = some '/' :=
    .inr getLast?_concat
  have here : disk.place filename = (disk.dirOf (dir ++ ['/']), name) := by
    rw [whole, place_append disk ends noSlash]
  have place : disk.place (dir ++ ['/'] ++ permFile) = ((disk.place filename).1, permFile) := by
    rw [place_append disk ends (by decide), here]
  obtain ⟨_, read, missing⟩ := written.read env.umask place
  obtain ⟨_, gone, rest⟩ := written.remove env.small place granted
  rw [fileRemoveIn, if_neg inDir, read, map_some] at done
  simp only [Bool.false_eq_true, if_false, some.injEq] at done
  rw [← done]
  have sameName : (disk.place filename).2 = name := by rw [here]
  rw [sameName] at gone rest
  split
  · constructor
    · intro unchanged
      have same := unchanged (disk.place filename)
      rw [gone] at same
      cases known : disk.entry env.umask (disk.place filename) with
      | none => rfl
      | some file =>
        rw [known] at same
        cases same
    · intro none_ file
      by_cases isFile : file = disk.place filename
      · rw [isFile, none_, gone]
        exact .none
      · exact (rest file isFile).sameEntry
  · rename_i failed
    constructor
    · intro _
      rw [Disk.entry, missing failed]
      rfl
    · exact fun _ file => .refl _

/-- A file that the system does not remove keeps its entry exactly if it has none, or
stands in the root directory. -/
theorem fileRemove_unchanged_iff {user : User} {statOwner : Option Text}
    {deleteGranted : Bool} {after : Disk} (written : disk.Written)
    (granted : disk.refuses ((disk.place filename).1, permFile) = false)
    (allowed : user.has 'O' = true ∨ statOwner = some user.username ∨ deleteGranted = true)
    (done : fileRemove env user statOwner deleteGranted false filename disk = some (1, after)) :
    Unchanged env.umask disk after ↔
      (∃ name, splitSlash filename = some ([], name)) ∨
        disk.entry env.umask (disk.place filename) = none := by
  unfold fileRemove at done
  split at done
  · cases done
  cases split_ : splitSlash filename with
  | none =>
    rw [split_] at done
    cases done
  | some parts =>
    obtain ⟨dir, name⟩ := parts
    simp only [split_] at done
    by_cases empty : name = []
    · rw [if_pos empty] at done
      cases done
    rw [if_neg empty] at done
    generalize (if dir = [] then filename.length else dir.length + 1) = length at done
    split at done
    · cases done
    by_cases root : dir = []
    · subst root
      constructor
      · exact fun _ => .inl ⟨name, rfl⟩
      · intro _ file
        rw [fileRemoveIn_root_entry split_ empty done]
        exact .refl _
    · rw [fileRemoveIn_entry written granted split_ root done]
      constructor
      · exact .inr
      · rintro (⟨_, same⟩ | none_)
        · cases same
          exact absurd rfl root
        · exact none_

/-- Entries are kept by a rename or a removal that fails in the end exactly if there
was nothing to write before. -/
theorem failed_change_keeps_entries_iff (env : PermEnv) (disk : Disk) :
    (∀ (w : World) (user : User) (source target : Text) (out : Int × Disk),
      RenameSetting env source target disk →
      RenameAllowed w (disk.view env.umask w.fsAfter) user source target →
      w.fsRename source target = false →
      fileRenameOn env w user source target disk = some out →
      (Unchanged env.umask disk out.2 ↔
        (MovesEntry w.fsAfter source target →
          NothingToMove env.umask (disk.place source) (disk.place target) disk))) ∧
    (∀ (user : User) (statOwner : Option Text) (deleteGranted : Bool) (filename : Text)
      (after : Disk), disk.Written →
      disk.refuses ((disk.place filename).1, permFile) = false →
      (user.has 'O' = true ∨ statOwner = some user.username ∨ deleteGranted = true) →
      fileRemove env user statOwner deleteGranted false filename disk = some (1, after) →
      (Unchanged env.umask disk after ↔
        (∃ name, splitSlash filename = some ([], name)) ∨
          disk.entry env.umask (disk.place filename) = none)) :=
  ⟨fun _ _ _ _ _ setting allowed failed done =>
      fileRenameOn_unchanged_iff setting allowed failed done,
    fun _ _ _ _ _ written granted allowed done =>
      fileRemove_unchanged_iff written granted allowed done⟩

def stuckWorld : World := { renameWorld with fsRename := fun _ _ => false }

theorem renameAllowed_stuckWorld (disk : Disk) : RenameAllowed stuckWorld
    (disk.view usualEnv.umask stuckWorld.fsAfter) siteop "/srv/a".toList "/srv/b".toList :=
  ⟨by decide, rfl, rfl⟩

/-- Nothing is lost where there is no entry. -/
theorem failed_change_keeps_entries_iff_empty :
    (∃ out, fileRenameOn usualEnv stuckWorld siteop "/srv/a".toList "/srv/b".toList (diskOf []) =
      some out ∧ Unchanged usualEnv.umask (diskOf []) out.2) ∧
    (∃ after, fileRemove usualEnv siteop none false false "/srv/a".toList (diskOf []) =
      some (1, after) ∧ Unchanged usualEnv.umask (diskOf []) after) := by
  have written : (diskOf []).Written := written_diskOf ⟨nofun, nodup_nil⟩
  have setting : RenameSetting usualEnv "/srv/a".toList "/srv/b".toList (diskOf []) :=
    { renameSetting_annsFile (by decide : 0o644 < 2 ^ 32) with
      written := written
      label := (renameSetting_annsFile (by decide : 0o644 < 2 ^ 32)).label }
  have both := failed_change_keeps_entries_iff usualEnv (diskOf [])
  constructor
  · have returned : ∃ out, fileRenameOn usualEnv stuckWorld siteop "/srv/a".toList
        "/srv/b".toList (diskOf []) = some out := ⟨_, rfl⟩
    obtain ⟨out, done⟩ := returned
    refine ⟨out, done, (both.1 _ _ _ _ _ setting (renameAllowed_stuckWorld _) rfl done).mpr ?_⟩
    exact fun _ => .inl ⟨rfl, rfl⟩
  · have returned : ∃ after, fileRemove usualEnv siteop none false false "/srv/a".toList
        (diskOf []) = some (1, after) := ⟨_, rfl⟩
    obtain ⟨after, done⟩ := returned
    exact ⟨after, done, (both.2 _ _ _ _ _ written rfl (.inl rfl) done).mpr (.inr rfl)⟩

/-- The file is still there, and its entry is gone in both cases. -/
theorem failed_change_loses_entry :
    (diskOf [annsFile 0o600]).entry usualEnv.umask (0, ['a']) = some (annsFile 0o600) ∧
    (∃ after, fileRenameOn usualEnv stuckWorld siteop "/srv/a".toList "/srv/b".toList
      (diskOf [annsFile 0o600]) = some (1, after) ∧
        after.entry usualEnv.umask (0, ['a']) = none ∧
        ¬Unchanged usualEnv.umask (diskOf [annsFile 0o600]) after) ∧
    (∃ after, fileRemove usualEnv siteop none false false "/srv/a".toList
      (diskOf [annsFile 0o600]) = some (1, after) ∧
        after.entry usualEnv.umask (0, ['a']) = none ∧
        ¬Unchanged usualEnv.umask (diskOf [annsFile 0o600]) after) := by
  have entry : (diskOf [annsFile 0o600]).entry usualEnv.umask (0, ['a']) =
      some (annsFile 0o600) := rfl
  have lost : ∀ after : Disk, after.entry usualEnv.umask (0, ['a']) = none →
      ¬Unchanged usualEnv.umask (diskOf [annsFile 0o600]) after := by
    intro after gone unchanged
    have same := unchanged (0, ['a'])
    rw [entry, gone] at same
    cases same
  exact ⟨entry, ⟨_, rfl, rfl, lost _ rfl⟩, ⟨_, rfl, rfl, lost _ rfl⟩⟩

end Wzdftpd
