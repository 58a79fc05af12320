import Wzdftpd.UserGroupsPart
import Wzdftpd.UsersFileReload

/- The registries that `read_files` fills from the file that `write_user_file` has
written. -/
namespace Wzdftpd

open DirectiveText List Option Table

def GroupEntry.Survives (group : GroupEntry) : Prop :=
  ReadsAs groupNamed readSingleGroup (writeSingleGroup group) group

/-- A user who is read back as written, while the groups are registered. -/
def UserRecord.Survives (groups : GroupTable) (user : UserRecord) : Prop :=
  ∃ text, writeSingleUser groups user = some text ∧
    ReadsAs userNamed (readSingleUser groups) text user.packed

section

variable {users : Accounts} {groups : GroupTable}

def userText (groups : GroupTable) (user : UserRecord) : Text :=
  (writeSingleUser groups user).getD []

theorem UserRecord.Survives.text {user : UserRecord} (survives : user.Survives groups) :
    writeSingleUser groups user = some (userText groups user) ∧
      ReadsAs userNamed (readSingleUser groups) (userText groups user) user.packed := by
  obtain ⟨_, written, reads⟩ := survives
  rw [userText, written]
  exact ⟨rfl, reads⟩

theorem mapM_eq_some {α β : Type} {f : α → Option β} {g : α → β} {list : List α}
    (same : ∀ a ∈ list, f a = some (g a)) : list.mapM f = some (list.map g) := by
  induction list with
  | nil => rfl
  | cons a list ih =>
    simp [same a mem_cons_self, ih (forall_mem_cons.mp same).2]

theorem writeUserFile_eq (survive : ∀ user ∈ users.saved UserRecord.kept, user.Survives groups) :
    writeUserFile users groups =
      some (fileText ((groups.saved GroupEntry.kept).flatMap writeSingleGroup)
        ((users.saved UserRecord.kept).flatMap (userText groups))) := by
  have texts : (users.saved UserRecord.kept).mapM (writeSingleUser groups) =
      some ((users.saved UserRecord.kept).map (userText groups)) :=
    mapM_eq_some fun user member => (survive user member).text.1
  simp only [writeUserFile, recordsListed_eq, texts, bind_eq_bind, bind_some]
  rfl

def reloadedGroups (groups : GroupTable) : GroupTable :=
  .refill GroupEntry.id (groups.saved GroupEntry.kept)

theorem partOf_reloaded
    (names : ∀ id other group same, groups.getById id = some group →
      groups.getById other = some same → group.groupname = same.groupname → id = other) :
    PartOf (reloadedGroups groups) groups := by
  refine ⟨fun id group found => ?_, names⟩
  rcases getById_of_registerAll _ found with member | impossible
  · rw [← id_of_getById found]
    exact ((mem_saved group).mp member).2.1
  · rw [getById_eq] at impossible
    cases impossible

theorem writeSingleGroup_begins (group : GroupEntry) :
    ∃ c text, writeSingleGroup group = c :: text ∧ text ≠ [] ∧
      c ≠ '\xff' ∧ c ≠ '\n' ∧ c ≠ '#' ∧ c ≠ '[' := by
  have laid : writeSingleGroup group = 'p' :: ("rivgroup\t".toList ++
      (group.groupname.take hardGroupnameLength ++
        (['\n'] ++ recordText GroupKey.text (groupDirectives group)))) := by
    rw [← append_assoc, ← append_assoc]
    rfl
  exact ⟨'p', _, laid, append_ne_nil_of_left_ne_nil (by decide) _, by decide⟩

theorem writeSingleUser_begins {user : UserRecord} {text : Text}
    (written : writeSingleUser groups user = some text) :
    ∃ c rest, text = c :: rest ∧ rest ≠ [] ∧ c ≠ '\xff' ∧ c ≠ '\n' ∧ c ≠ '#' ∧ c ≠ '[' := by
  have first : "name".toList = 'n' :: "ame".toList := by decide
  obtain ⟨_, _, rfl⟩ := map_eq_some_iff.mp written
  rw [directive, first, append_assoc, append_assoc]
  exact ⟨'n', _, rfl, append_ne_nil_of_left_ne_nil (by decide) _, by decide⟩

/-- What is read back, as long as there are few records. -/
theorem readFiles_written (groupIds : ∀ id group, groups.getById id = some group → id < intMax)
    (userIds : ∀ id user, users.getById id = some user → id < intMax)
    (partOf : PartOf (reloadedGroups groups) groups)
    (groupsSurvive : ∀ group ∈ groups.saved GroupEntry.kept, group.Survives)
    (usersSurvive : ∀ user ∈ users.saved UserRecord.kept, user.Survives groups)
    (fewGroups : (groups.saved GroupEntry.kept).length < hardDefGroupMax)
    (fewUsers : (users.saved UserRecord.kept).length < hardDefUserMax) :
    readFiles (fileText ((groups.saved GroupEntry.kept).flatMap writeSingleGroup)
        ((users.saved UserRecord.kept).flatMap (userText groups))) =
      some (0, ⟨⟨reloadedGroups groups, (groups.saved GroupEntry.kept).length⟩,
        ⟨.refill UserRecord.id ((users.saved UserRecord.kept).map
          fun user => user.packed.within (reloadedGroups groups)),
          (users.saved UserRecord.kept).length⟩⟩) := by
  have large : intMax < invalidUser := by decide
  have groupsPass : Crosses (maxLine - 2) groupEntry {}
      ((groups.saved GroupEntry.kept).flatMap writeSingleGroup)
      ⟨reloadedGroups groups, (groups.saved GroupEntry.kept).length⟩ := by
    have pass : Crosses (maxLine - 2) groupEntry {}
        ((groups.saved GroupEntry.kept).flatMap writeSingleGroup)
        ⟨.refill GroupEntry.id ((groups.saved GroupEntry.kept).map id),
          (groups.saved GroupEntry.kept).length⟩ := by
      apply passes_records writeSingleGroup id _ (fun group _ => writeSingleGroup_begins group)
        (by decide : groupNamed [] = none) ?_ fewGroups
      intro group member
      have small := groupIds _ _ ((mem_saved group).mp member).2.1
      exact ⟨groupsSurvive group member, Nat.ne_of_lt (small.trans large)⟩
    rwa [List.map_id] at pass
  have usersPass : Crosses (maxLine - 2) (userEntry (reloadedGroups groups)) {}
      ((users.saved UserRecord.kept).flatMap (userText groups))
      ⟨.refill UserRecord.id ((users.saved UserRecord.kept).map
        fun user => user.packed.within (reloadedGroups groups)),
        (users.saved UserRecord.kept).length⟩ := by
    apply passes_records (userText groups) _ _ ?_ (by decide : userNamed [] = none) ?_ fewUsers
    · exact fun user member => writeSingleUser_begins (usersSurvive user member).text.1
    intro user member
    constructor
    · intro free rest
      obtain ⟨name, found, read⟩ :=
        bind_eq_some_iff.mp ((usersSurvive user member).text.2 free rest)
      exact bind_eq_some_iff.mpr ⟨name, found, (partOf.readSingleUser read).1⟩
    · have small := userIds _ _ ((mem_saved user).mp member).2.1
      exact Nat.ne_of_lt (small.trans large)
  exact readFiles_fileText groupsPass usersPass

/-- A user keeps the groups exactly if all of them are read back. -/
theorem within_eq_iff {part : GroupTable} (partOf : PartOf part groups) {user : UserRecord}
    (survives : user.Survives groups) :
    user.packed.within part = user.packed ↔ ∀ gid ∈ user.groups.members, part.has gid = true := by
  obtain ⟨_, _, reads⟩ := survives
  obtain ⟨_, _, read⟩ := bind_eq_some_iff.mp (reads 0 [])
  obtain ⟨gids, filled⟩ := (partOf.readSingleUser read).2
  have few : user.groups.num ≤ maxGroupsPerUser := by
    obtain ⟨array, done, num, _⟩ := GroupArray.foldlM_push_of_length_le gids filled.length_le
    have same : array = user.groups.packed := Option.some.inj (done.symm.trans filled)
    have length := filled.length_le
    rw [← num, same] at length
    exact length
  have members : gids = user.groups.members :=
    filled.members.symm.trans (GroupArray.members_packed few)
  rw [← members, ← filled.restrict_eq_iff, UserRecord.within]
  constructor
  · exact fun same => congrArg UserRecord.groups same
  · intro same
    rw [same]

/-- Writing the file and reading it into empty registries gives the same groups and users
exactly if both registries are reloadable and every group of a user is saved. -/
theorem users_file_round_trip_iff (users : Accounts) (groups : GroupTable)
    (userIds : ∀ id user, users.getById id = some user → id < intMax)
    (groupIds : ∀ id group, groups.getById id = some group → id < intMax)
    (names : ∀ id other group same, groups.getById id = some group →
      groups.getById other = some same → group.groupname = same.groupname → id = other)
    (usersSurvive : ∀ id user, users.getById id = some user → user.kept = true →
      user.Survives groups)
    (groupsSurvive : ∀ id group, groups.getById id = some group → group.kept = true →
      group.Survives) :
    (∃ file loaded, writeUserFile users groups = some file ∧ readFiles file = some (0, loaded) ∧
      (∀ id, loaded.groups.table.getById id = (groups.getById id).filter GroupEntry.kept) ∧
      ∀ id, loaded.users.table.getById id =
        ((users.getById id).filter UserRecord.kept).map UserRecord.packed) ↔
    groups.Reloadable GroupEntry.kept hardDefGroupMax ∧
      users.Reloadable UserRecord.kept hardDefUserMax ∧
      ∀ id user, users.getById id = some user → user.kept = true →
        ∀ gid ∈ user.groups.members, ∃ group, groups.getById gid.toNat = some group ∧
          group.kept = true := by
  have usersWritten : ∀ user ∈ users.saved UserRecord.kept, user.Survives groups := by
    intro user member
    obtain ⟨_, found, kept⟩ := (mem_saved user).mp member
    exact usersSurvive _ user found kept
  have groupsWritten : ∀ group ∈ groups.saved GroupEntry.kept, group.Survives := by
    intro group member
    obtain ⟨_, found, kept⟩ := (mem_saved group).mp member
    exact groupsSurvive _ group found kept
  have written := writeUserFile_eq usersWritten
  have partOf := partOf_reloaded names
  have reads := readFiles_written groupIds userIds partOf groupsWritten usersWritten
  have groupsIff := registerAll_saved_iff GroupEntry.kept groupIds id id fun _ => rfl
  have usersIff := registerAll_saved_iff UserRecord.kept userIds
    (fun user => user.packed.within (reloadedGroups groups)) UserRecord.packed fun _ => rfl
  rw [List.map_id] at groupsIff
  simp only [Option.map_id, id] at groupsIff
  have membersIff : (∀ id, (reloadedGroups groups).getById id =
      (groups.getById id).filter GroupEntry.kept) → ∀ gid : UInt32,
      (reloadedGroups groups).has gid = true ↔
        ∃ group, groups.getById gid.toNat = some group ∧ group.kept = true := by
    intro same gid
    rw [GroupTable.has, same, isSome_iff_exists]
    simp
  constructor
  · rintro ⟨file, loaded, wrote, read, sameGroups, sameUsers⟩
    rw [written] at wrote
    cases wrote
    obtain ⟨⟨_, _, groupsBelow, groupsIn⟩, ⟨_, _, usersBelow, usersIn⟩⟩ :=
      readFiles_covered read
    have fewGroups : (groups.saved GroupEntry.kept).length < hardDefGroupMax := by
      have same : ∀ gid, loaded.groups.table.getById gid =
          ((groups.getById gid).filter GroupEntry.kept).map id := by
        intro gid
        simp [sameGroups, id]
      exact (length_saved_le groupsIn same).trans_lt groupsBelow
    have fewUsers : (users.saved UserRecord.kept).length < hardDefUserMax :=
      (length_saved_le usersIn sameUsers).trans_lt usersBelow
    rw [reads fewGroups fewUsers] at read
    cases read
    obtain ⟨groupsLast, groupsGapless, _⟩ := groupsIff.mp sameGroups
    obtain ⟨usersLast, usersGapless, alike⟩ := usersIff.mp sameUsers
    refine ⟨⟨groupsLast, groupsGapless, fewGroups⟩, ⟨usersLast, usersGapless, fewUsers⟩, ?_⟩
    intro id user found kept gid member
    have listed := mem_saved_of_last usersLast found kept
    have all := (within_eq_iff partOf (usersWritten user listed)).mp (alike user listed)
    exact (membersIff sameGroups gid).mp (all gid member)
  · rintro ⟨⟨groupsLast, groupsGapless, fewGroups⟩, ⟨usersLast, usersGapless, fewUsers⟩, members⟩
    have sameGroups := groupsIff.mpr ⟨groupsLast, groupsGapless, fun _ _ => trivial⟩
    refine ⟨_, _, written, reads fewGroups fewUsers, sameGroups, usersIff.mpr
      ⟨usersLast, usersGapless, fun user listed => ?_⟩⟩
    obtain ⟨_, found, kept⟩ := (mem_saved user).mp listed
    apply (within_eq_iff partOf (usersWritten user listed)).mpr
    exact fun gid member => (membersIff sameGroups gid).mpr (members _ user found kept gid member)

end

theorem Table.getById_allocated_put {α : Type} {idOf : α → Nat} {record : α}
    (inside : idOf record < 257) (j : Nat) :
    ((allocated : Table idOf).put record).getById j =
      if j = idOf record then some record else none := by
  have cells : (allocated : Table idOf).registry.array = replicate 257 none := rfl
  have empty : (allocated : Table idOf).registry.lookup j = none := by
    rw [Registry.lookup, cells, getElem?_replicate]
    split
    · rfl
    · rfl
  have length : idOf record < (allocated : Table idOf).registry.array.length := by
    rw [cells, length_replicate]
    exact inside
  rw [getById_eq, put, Registry.lookup_store length, Function.update_apply, empty]

/-- A table with one record, which is not at the maximum index. -/
theorem Table.reloadable_single {α : Type} {idOf : α → Nat} {t : Table idOf} {kept : α → Bool}
    {record : α} {most : Nat} (only : ∀ id other, t.getById id = some other → other = record)
    (last : t.getById t.registry.max = none) (some : 1 < most) : t.Reloadable kept most := by
  have inside : ∀ other ∈ t.saved kept, other = record :=
    fun other member => only _ other ((mem_saved other).mp member).2.1
  have ordered := t.saved_ordered kept
  have free : ∀ other, t.getById t.registry.max = .some other → kept other = false := by
    intro other found
    rw [last] at found
    cases found
  generalize list : t.saved kept = records at inside ordered
  cases records with
  | nil => exact ⟨free, by rw [list]; trivial, by rw [list]; exact Nat.zero_lt_of_lt some⟩
  | cons first records =>
    cases records with
    | nil => exact ⟨free, by rw [list]; trivial, by rw [list]; exact some⟩
    | cons second records =>
      have less := (pairwise_cons.mp ordered).1 second mem_cons_self
      rw [inside first mem_cons_self,
        inside second (mem_cons_of_mem _ mem_cons_self)] at less
      exact absurd less (Nat.lt_irrefl _)

theorem GroupKey.ofText_text (key : GroupKey) : GroupKey.ofText key.text = some key := by
  cases key <;> decide

theorem assign_groupDirective (key : GroupKey) {text : Text} (some : chomp text ≠ [])
    (group : GroupEntry) : assign groupDirective group (key.text, text) =
      .some (groupEdit key (readBack text) group) := by
  simp [assign, some, groupDirective, key.ofText_text, readBack]

def staffUsers : Accounts := allocated.put staffUser

def staffGroup : GroupEntry := { gid := 1, groupname := "staff".toList }

theorem staffGroup_read (free : Nat) (rest : Text) :
    readSingleGroup free "staff".toList (recordText GroupKey.text
      [(.rights, "0x0".toList), (.gid, "1".toList)] ++ rest) = some (staffGroup, rest) := by
  have gid : longArg (readBack "1".toList) = some 1 := by decide
  have text : recordText GroupKey.text [(.rights, "0x0".toList), (.gid, "1".toList)] =
      [(GroupKey.rights.text, "0x0".toList), (GroupKey.gid.text, "1".toList)].flatMap directive ++
        ['\n'] := rfl
  rw [text, readSingleGroup, append_assoc, singleton_append, readRecord_directives ?_,
    foldlM_cons, assign_groupDirective _ (by decide), bind_eq_bind,
    bind_some, foldlM_cons, assign_groupDirective _ (by decide),
    bind_eq_bind, bind_some, foldlM_nil]
  · simp only [groupEdit, gid, elim_some]
    refine congrArg (fun group => some (group, rest)) ?_
    decide
  · intro line member
    rcases mem_cons.mp member with rfl | later
    · exact ⟨⟨by decide, all_eq_true.mp (by decide), by decide, by decide⟩, by decide⟩
    · rw [mem_singleton.mp later]
      exact ⟨⟨by decide, all_eq_true.mp (by decide), by decide, by decide⟩, by decide⟩

theorem staffGroup_survives : staffGroup.Survives := by
  have written : writeSingleGroup staffGroup = "privgroup\tstaff".toList ++ '\n' ::
      recordText GroupKey.text [(.rights, "0x0".toList), (.gid, "1".toList)] := by decide
  rw [GroupEntry.Survives, written]
  exact readsAs_of_read (by decide) (by decide) (by decide) staffGroup_read

theorem staffUser_survives : staffUser.Survives staffTable := by
  have text : directive ("name".toList, staffUser.username) = "name=ann".toList ++ ['\n'] := by
    decide
  have name : userNamed (chomp "name=ann".toList) = some staffUser.username := by decide
  have written : writeSingleUser staffTable staffUser =
      some ("name=ann".toList ++ '\n' :: recordText UserKey.text staffLines) := by
    rw [writeSingleUser, staffLines_written, map_some,
      take_of_length_le staffUser_inFields.username, text, append_assoc,
      singleton_append]
  refine ⟨_, written, readsAs_of_read (by decide) (by decide) name ?_⟩
  exact readSingleUser_restorable staffUser_inFields staffUser_plain (by decide) (by decide)
    (by decide) (by decide)
    (fun gid member => (staffUser_registered gid member).imp fun _ facts => facts.1)
    (by decide) (by decide) staffLines_written staffUser_restorable

theorem users_file_round_trip_staff :
    ∃ file loaded, writeUserFile staffUsers staffTable = some file ∧
      readFiles file = some (0, loaded) ∧
      (∀ id, loaded.groups.table.getById id = (staffTable.getById id).filter GroupEntry.kept) ∧
      ∀ id, loaded.users.table.getById id =
        ((staffUsers.getById id).filter UserRecord.kept).map UserRecord.packed := by
  have users : ∀ id user, staffUsers.getById id = some user → id = 5 ∧ user = staffUser := by
    intro id user found
    rw [staffUsers, getById_allocated_put (by decide)] at found
    split at found
    · rename_i same
      exact ⟨same, (Option.some.inj found).symm⟩
    · cases found
  have groups : ∀ id group, staffTable.getById id = some group → id = 1 ∧ group = staffGroup := by
    intro id group found
    rw [staffTable, getById_allocated_put (by decide)] at found
    split at found
    · rename_i same
      exact ⟨same, (Option.some.inj found).symm⟩
    · cases found
  apply (users_file_round_trip_iff staffUsers staffTable ?_ ?_ ?_ ?_ ?_).mpr
  · refine ⟨reloadable_single (fun id group found => (groups id group found).2) ?_
      (by decide),
      reloadable_single (fun id user found => (users id user found).2) ?_ (by decide), ?_⟩
    · rfl
    · rfl
    intro id user found _ gid member
    rw [(users id user found).2] at member
    rw [mem_singleton.mp (member : gid ∈ [1])]
    refine ⟨staffGroup, ?_, by decide⟩
    rfl
  · intro id user found
    rw [(users id user found).1]
    decide
  · intro id group found
    rw [(groups id group found).1]
    decide
  · intro id other group same found also _
    rw [(groups id group found).1, (groups other same also).1]
  · intro id user found _
    rw [(users id user found).2]
    exact staffUser_survives
  · intro id group found _
    rw [(groups id group found).2]
    exact staffGroup_survives

def lateUser : UserRecord := { uid := 255, username := "ann".toList, rootpath := ['/'] }

def lateUsers : Accounts := empty.register lateUser

/-- The user at the maximum index is not written to the file. -/
theorem users_file_loses_user :
    lateUsers.getById 255 = some lateUser ∧ lateUser.kept = true ∧
      (writeUserFile lateUsers .empty).bind readFiles = some (0, {}) := by
  have behind : Behind (.empty : Accounts) [lateUser] :=
    behind_empty (by decide) (pairwise_singleton _ _)
  have noUsers : lateUsers.saved UserRecord.kept = [] := by
    rw [eq_nil_iff_forall_not_mem]
    intro user member
    obtain ⟨below, found, _⟩ := (mem_saved user).mp member
    rw [lateUsers, behind.getById_register] at found
    split at found
    · rename_i same
      rw [same] at below
      revert below
      decide
    · rw [getById_eq] at found
      cases found
  have survive : ∀ user ∈ lateUsers.saved UserRecord.kept, user.Survives .empty := by
    rw [noUsers]
    exact fun user impossible => absurd impossible not_mem_nil
  refine ⟨?_, by decide, ?_⟩
  · rfl
  · rw [writeUserFile_eq survive, noUsers, bind_some]
    exact readFiles_fileText Crosses.nil Crosses.nil

end Wzdftpd
