import Wzdftpd.PermCheck

/- The second evaluation of an entry, `file_getperms` (wzd_file.c), which gives all
rights of a user at once, against the one of `_checkFileForPerm`. -/
namespace Wzdftpd

open List Option Wzdftpd.Right

/-- The rights of one class. The source sets them alike from a line and from the permission
bits. -/
def rightsWord (read write enter : Bool) : Nat :=
  (if read then retr.mask else 0) |||
    (if write then stor.mask ||| rnfr.mask else 0) |||
    (if enter then cwd.mask else 0)

def aclWord (acl : AclLine) (isDir : Bool) : Nat :=
  rightsWord (acl.read = 'r') (acl.write = 'w') (isDir && acl.enter = 'x')

def classWord (permissions shift : Nat) (isDir : Bool) : Nat :=
  rightsWord (permissions &&& (4 <<< shift) ≠ 0) (permissions &&& (2 <<< shift) ≠ 0)
    (isDir && decide (permissions &&& (1 <<< shift) ≠ 0))

def sameGroup (server : Server) (file : PermEntry) (gid : Nat) : Bool :=
  match server.getGroupByID gid with
  | some group => group.groupname = file.group
  | none => false

/-- A turn of the loop over the groups: how many were the one of the file, and the rights so
far. -/
def groupTurn (server : Server) (file : PermEntry) (isDir : Bool) (state : Nat × Nat) (gid : Nat) :
    Nat × Nat :=
  if sameGroup server file gid then
    (state.1 + 1, state.2 ||| classWord file.permissions 3 isDir)
  else state

def directoryWord (perms : Nat) : Nat :=
  let perms := if perms &&& retr.mask ≠ 0 then perms ||| list.mask else perms
  if perms &&& stor.mask ≠ 0 then perms ||| mkdir.mask else perms

/-- `file_getperms` -/
def fileGetperms (server : Server) (file : Option PermEntry) (user : Option User) : Nat :=
  match user, file with
  | none, _ => 0
  | some user, none => if user.userperms &&& 0xffffffff = 0 then 1 else 0
  | some user, some file =>
    let isDir : Bool := file.kind = .dir
    let perms :=
      match file.acl.find? (·.user = user.username) with
      | some acl => aclWord acl isDir
      | none =>
        if user.username = file.owner then classWord file.permissions 6 isDir
        else
          let (found, perms) := user.groups.foldl (groupTurn server file isDir) (0, 0)
          if found = 0 then perms ||| classWord file.permissions 0 isDir else perms
    if isDir then directoryWord perms else perms

/-- The rights that go with reading, writing and entering a directory. -/
def grants (read write enter : Bool) : Right → Bool
  | .retr | .list => read
  | .stor | .rnfr | .mkdir => write
  | .cwd => enter
  | .rmdir | .dele => false

theorem directoryWord_contains (read write enter : Bool) (right : Right) :
    directoryWord (rightsWord read write enter) &&& right.mask ≠ 0 ↔
      grants read write enter right = true := by
  revert read write enter
  cases right <;> decide

variable (server : Server) (file : PermEntry)

/-- The loop counts the groups, and has their rights once there is one. -/
theorem foldl_groupTurn (isDir : Bool) (gids : List Nat) :
    ∀ found perms, gids.foldl (groupTurn server file isDir) (found, perms) =
      (found + gids.countP (sameGroup server file),
        if gids.any (sameGroup server file) then perms ||| classWord file.permissions 3 isDir
        else perms) := by
  induction gids with
  | nil => exact fun _ _ => rfl
  | cons gid gids ih =>
    intro found perms
    rw [foldl_cons, groupTurn, countP_cons, any_cons]
    cases same : sameGroup server file gid with
    | false =>
      exact ih found perms
    | true =>
      simp only [if_true]
      rw [ih, Nat.or_assoc, Nat.or_self, ite_self]
      congr 1
      omega

theorem any_sameGroup (user : User) :
    user.groups.any (sameGroup server file) = inGroup server user file.group := by
  congr 1

theorem groupWord_eq (user : User) (isDir : Bool) :
    (let (found, perms) := user.groups.foldl (groupTurn server file isDir) (0, 0)
      if found = 0 then perms ||| classWord file.permissions 0 isDir else perms) =
      classWord file.permissions (if inGroup server user file.group then 3 else 0) isDir := by
  rw [foldl_groupTurn, ← any_sameGroup]
  cases any : user.groups.any (sameGroup server file) with
  | false =>
    have none_ : user.groups.countP (sameGroup server file) = 0 := by
      rw [countP_eq_zero]
      intro gid member same
      have some_ := any_eq_true.mpr ⟨gid, member, same⟩
      rw [any] at some_
      cases some_
    simp [none_]
  | true =>
    have some_ : user.groups.countP (sameGroup server file) ≠ 0 := by
      obtain ⟨gid, member, same⟩ := any_eq_true.mp any
      rw [ne_eq, countP_eq_zero]
      exact fun all => all gid member same
    simp [some_]

def comparedRights : List Right := [.retr, .stor, .rnfr, .cwd, .list, .mkdir]

theorem classPerm_eq_zero_iff (permissions shift : Nat) {right : Right}
    (compared : right ∈ comparedRights) :
    classPerm permissions shift right = 0 ↔
      directoryWord (classWord permissions shift true) &&& right.mask ≠ 0 := by
  rw [classWord, directoryWord_contains]
  cases right with
  | dele => exact absurd compared (by decide)
  | rmdir => exact absurd compared (by decide)
  | list | retr | stor | cwd | mkdir | rnfr => simp [classPerm, classBit, grants]

theorem aclPerm_eq_zero_iff (acl : AclLine) {right : Right} (compared : right ∈ comparedRights) :
    aclPerm acl right true = 0 ↔
      directoryWord (aclWord acl true) &&& right.mask ≠ 0 ∧ right ≠ .mkdir := by
  rw [aclWord, directoryWord_contains]
  cases right with
  | dele => exact absurd compared (by decide)
  | rmdir => exact absurd compared (by decide)
  | list | retr | stor | cwd | mkdir | rnfr => simp [aclPerm, grants]

/-- The place of the bits that hold for a user. -/
def classShift (server : Server) (file : PermEntry) (user : User) : Nat :=
  if user.username = file.owner then 6 else if inGroup server user file.group then 3 else 0

/-- The rights word of a directory, by the class of the user. -/
theorem fileGetperms_directory (user : User) :
    fileGetperms server (some { file with kind := .dir }) (some user) =
      directoryWord (((file.acl.find? (·.user = user.username)).map (aclWord · true)).getD
        (classWord file.permissions (classShift server file user) true)) := by
  have groups := groupWord_eq server { file with kind := .dir } user true
  simp only [fileGetperms, decide_true, if_true]
  congr 1
  cases file.acl.find? (·.user = user.username) with
  | some acl => rfl
  | none =>
    simp only [classShift]
    split
    · rfl
    · exact groups

/-- The two evaluations differ only for making a directory, which an access control
line never grants to the first one. -/
theorem evaluators_agree_iff {fs : FileSystem} {server : Server} {dir : Text} {user : User}
    {entries : List PermEntry} {file : PermEntry} {right : Right}
    (room : dir.length + permFile.length < maxPath) (notSiteop : user.has 'O' = false)
    (stored : fs.readPermFile (dir ++ permFile) = some entries)
    (found : entries.find? (·.filename = ['.']) = some file)
    (compared : right ∈ comparedRights) :
    (checkFileForPerm fs server dir ['.'] right user = 0 ↔
      fileGetperms server (some { file with kind := .dir }) (some user) &&& right.mask ≠ 0) ↔
    ¬(right = .mkdir ∧
      ∃ acl, file.acl.find? (·.user = user.username) = some acl ∧ acl.write = 'w') := by
  have check : checkFileForPerm fs server dir ['.'] right user =
      entryPerm server file right true user := by
    simp [checkFileForPerm, if_neg (Nat.not_le.mpr room), notSiteop, stored, found]
  rw [check, fileGetperms_directory, entryPerm]
  cases line : file.acl.find? (·.user = user.username) with
  | none =>
    simp only [reduceCtorEq, false_and, exists_false, and_false, not_false_eq_true, iff_true,
      map_none, getD_none, classShift]
    split
    · exact classPerm_eq_zero_iff _ _ compared
    · split
      · exact classPerm_eq_zero_iff _ _ compared
      · exact classPerm_eq_zero_iff _ _ compared
  | some acl =>
    simp only [map_some, getD_some]
    rw [aclPerm_eq_zero_iff acl compared]
    by_cases makes : right = .mkdir
    · have granted : directoryWord (aclWord acl true) &&& right.mask ≠ 0 ↔ acl.write = 'w' := by
        rw [aclWord, directoryWord_contains, makes]
        exact decide_eq_true_iff
      rw [granted]
      simp [makes]
    · simp [makes]

/-- A directory of bob that is open to others but for writing, and one where ann has
an access control line. -/
def openDirectory : PermEntry :=
  { filename := ['.'], owner := "bob".toList, group := "staff".toList, permissions := 0o755 }

def sharedDirectory : PermEntry := { openDirectory with acl := [⟨"ann".toList, 'r', 'w', 'x'⟩] }

def filesWith (file : PermEntry) : FileSystem :=
  { FileSystem.ofList [] with readPermFile := fun _ => some [file] }

theorem evaluators_agree_iff_open :
    checkFileForPerm (filesWith openDirectory) (Server.single srvUser) "/srv/".toList ['.'] .cwd
        srvUser = 0 ↔
      fileGetperms (Server.single srvUser) (some { openDirectory with kind := .dir })
        (some srvUser) &&& cwd.mask ≠ 0 := by
  apply (evaluators_agree_iff (by decide) rfl rfl rfl (by decide)).mpr
  rintro ⟨isMkdir, _⟩
  cases isMkdir

theorem evaluators_differ_on_mkdir :
    checkFileForPerm (filesWith sharedDirectory) (Server.single srvUser) "/srv/".toList ['.']
        .mkdir srvUser = -1 ∧
      fileGetperms (Server.single srvUser) (some { sharedDirectory with kind := .dir })
        (some srvUser) &&& mkdir.mask ≠ 0 := by
  refine ⟨rfl, ?_⟩
  decide

end Wzdftpd
