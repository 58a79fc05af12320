import Wzdftpd.Session

/- Rights on files: the evaluation of a permission file (wzd_file.c), the name
tests of wzd_misc.c and `test_path` of wzd_vfs.c. -/
namespace Wzdftpd

open Nat List

/-- `_default_perm` -/
def defaultPerm (right : Right) (user : User) : Int :=
  if user.may right then 0 else 1

/-- The bit of a class that a right needs; none for those of the default case. -/
def classBit : Right → Option Nat
  | .list | .retr => some 4
  | .stor | .mkdir | .rmdir | .rnfr => some 2
  | .cwd => some 1
  | .dele => none

/-- One of the three switches over the bits: `0` when the bit is set. -/
def classPerm (permissions shift : Nat) (right : Right) : Int :=
  match classBit right with
  | some bit => if permissions &&& (bit <<< shift) ≠ 0 then 0 else 1
  | none => 1

def aclPerm (acl : AclLine) (right : Right) (isDir : Bool) : Int :=
  match right with
  | .retr => if acl.read ≠ 'r' then 1 else 0
  | .stor => if acl.write ≠ 'w' then 1 else 0
  | .cwd => if isDir then (if acl.enter ≠ 'x' then 1 else 0) else -1
  | .list => if isDir then (if acl.read ≠ 'r' then 1 else 0) else -1
  | .rnfr => if acl.write ≠ 'w' then 1 else 0
  | _ => -1

def inGroup (server : Server) (user : User) (group : Text) : Bool :=
  user.groups.any fun gid =>
    match server.getGroupByID gid with
    | some found => found.groupname = group
    | none => false

def entryPerm (server : Server) (entry : PermEntry) (right : Right) (isDir : Bool)
    (user : User) : Int :=
  match entry.acl.find? (·.user = user.username) with
  | some acl => aclPerm acl right isDir
  | none =>
    if user.username = entry.owner then classPerm entry.permissions 6 right
    else if inGroup server user entry.group then classPerm entry.permissions 3 right
    else classPerm entry.permissions 0 right

/-- `_checkFileForPerm`: `0` when the user may. `dir` ends in a separator. -/
def checkFileForPerm (fs : FileSystem) (server : Server) (dir wantedFile : Text) (right : Right)
    (user : User) : Int :=
  if dir.length + permFile.length ≥ maxPath then -1
  else if user.has 'O' then 0
  else
    match fs.readPermFile (dir ++ permFile) with
    | none => defaultPerm right user
    | some entries =>
      match entries.find? (·.filename = wantedFile) with
      | some entry => entryPerm server entry right (wantedFile = ['.']) user
      | none => defaultPerm right user

/-- The text before the last separator, which keeps a leading one, and the name after it. -/
def splitLast (path : Text) : Text × Text :=
  let name := (path.reverse.takeWhile (· ≠ '/')).reverse
  let dir := path.take (path.length - name.length - 1)
  (if dir = [] then ['/'] else dir, name)

/-- `_checkPerm`. A missing file is judged by its parent; the source recurses without end when
`/` is missing. -/
def checkPerm (fs : FileSystem) (server : Server) (user : User) (right : Right) :
    Nat → Text → Int
  | 0, _ => -1
  | depth + 1, filename =>
    if filename = [] then -1
    else if user.has 'A' ∧ right ∈ [Right.stor, .mkdir, .rmdir, .rnfr] then -1
    else
      let check (dir name : Text) : Int :=
        checkFileForPerm fs server (if dir.getLast? = some '/' then dir else dir ++ ['/']) name
          right user
      match fs.stat filename with
      | none =>
        if right ≠ .stor ∧ right ≠ .mkdir then -1
        else
          let (dir, name) := splitLast filename
          if checkPerm fs server user right depth dir ≠ 0 then -1 else check dir name
      | some s =>
        if s.kind = .dir then check filename ['.']
        else
          let (dir, name) := splitLast filename
          check dir name

/-- `is_hidden_file` -/
def isHiddenFile (server : Server) (filename : Text) : Bool :=
  let name := (filename.reverse.takeWhile (· ≠ '/')).reverse
  name.map Char.toLower = permFile ∨ (name.head? = some '.' ∧ server.hideDottedFiles)

/-- `test_path` -/
def testPath (fs : FileSystem) (server : Server) (user : Option User) (path : Text) : Errno :=
  match user with
  | none => .userIDontExist
  | some user =>
    match fs.lstat path with
    | none => .fileNoExist
    | some s =>
      if s.kind = .dir ∨ s.kind = .lnk then
        if path.getLast? ≠ some '/' then .wrongPath
        else if checkFileForPerm fs server path ['.'] .cwd user ≠ 0 then .noPerm
        else .ok
      else .ok

/-- `ratio_check_download` for a user that exists. -/
def ratioCheckDownload (fs : FileSystem) (user : User) (path : Text) : Int :=
  if user.ratio = 0 then 0
  else
    match fs.stat path with
    | none => -1
    | some s => if s.size ≤ user.credits then 0 else 1

/-- The level that `_checkPerm` goes to from a path that does not exist. -/
def parentOf (path : Text) : Text := (splitLast path).1

theorem parentOf_absolute {path : Text} (absolute : path.head? = some '/') (below : path ≠ ['/']) :
    (parentOf path).head? = some '/' ∧ (parentOf path).length < path.length := by
  obtain ⟨rest, rfl⟩ := head?_eq_some_iff.mp absolute
  have some : rest ≠ [] := fun none => below (none ▸ rfl)
  have length : 0 < rest.length := length_pos_of_ne_nil some
  simp only [parentOf, splitLast]
  split
  · exact ⟨rfl, by simpa using length⟩
  rename_i inner
  constructor
  · rw [head?_take, if_neg fun none => inner (by rw [none, take_zero])]
    rfl
  · rw [length_take, length_cons]
    omega

section Missing

variable {fs : FileSystem}

/-- From an absolute path the root is reached, level by level. -/
theorem exists_nearest (root : fs.stat ['/'] ≠ none) (bound : Nat) : ∀ {path : Text},
    path.length ≤ bound → path.head? = some '/' →
    ∃ n < path.length, fs.stat (parentOf^[n] path) ≠ none ∧
      ∀ m < n, fs.stat (parentOf^[m] path) = none := by
  induction bound with
  | zero =>
    intro path fits absolute
    rw [length_eq_zero_iff.mp (le_zero.mp fits)] at absolute
    cases absolute
  | succ bound ih =>
    intro path fits absolute
    by_cases there : fs.stat path = none
    · have below : path ≠ ['/'] := fun same => root (same ▸ there)
      obtain ⟨upper, _⟩ := parentOf_absolute absolute below
      obtain ⟨n, _, nearest, missing⟩ := ih (by omega) upper
      refine ⟨n + 1, by omega, nearest, fun m lower => ?_⟩
      cases m with
      | zero => exact there
      | succ m => exact missing m (lt_of_succ_lt_succ lower)
    · refine ⟨0, length_pos_of_ne_nil fun none => ?_, there, fun m none => ?_⟩
      · rw [none] at absolute
        cases absolute
      · cases none

variable (server : Server) (user : User) (right : Right)

/-- The calls end at the first level that exists. -/
theorem checkPerm_deep (n : Nat) : ∀ (path : Text), fs.stat (parentOf^[n] path) ≠ none →
    (∀ m < n, fs.stat (parentOf^[m] path) = none) → ∀ depth > n,
      checkPerm fs server user right depth path = checkPerm fs server user right (n + 1) path := by
  induction n with
  | zero =>
    intro path there _ depth deep
    obtain ⟨depth, rfl⟩ := exists_eq_succ_of_ne_zero (Nat.ne_of_gt deep)
    obtain ⟨s, found⟩ := Option.ne_none_iff_exists'.mp there
    have found : fs.stat path = some s := found
    simp only [checkPerm, found]
  | succ n ih =>
    intro path nearest missing depth deep
    obtain ⟨depth, rfl⟩ := exists_eq_succ_of_ne_zero (Nat.ne_of_gt (zero_lt_of_lt deep))
    have upper := ih (parentOf path) nearest
      (fun m lower => missing (m + 1) (succ_lt_succ lower)) depth (lt_of_succ_lt_succ deep)
    unfold parentOf at upper
    rw [checkPerm, checkPerm]
    simp [upper]

variable {server user right}

/-- A right on a missing path is one to create something, and is granted on its parent. -/
theorem checkPerm_missing {depth : Nat} {path : Text} (missing : fs.stat path = none)
    (granted : checkPerm fs server user right (depth + 1) path = 0) :
    (right = .stor ∨ right = .mkdir) ∧
      checkPerm fs server user right depth (parentOf path) = 0 := by
  rw [checkPerm] at granted
  simp only [missing] at granted
  split at granted
  · cases granted
  split at granted
  · cases granted
  split at granted
  · cases granted
  rename_i creates
  split at granted
  · cases granted
  · rename_i upper
    refine ⟨?_, not_not.mp upper⟩
    by_contra other
    exact creates (not_or.mp other)

end Missing

/-- `_checkPerm` on an absolute path: it looks at the levels from the path to the first one
that exists, `n` levels above, and calls itself no further. On a path that does not exist it
grants only a right to create something, and only with the same right on each of these
levels. -/
theorem checkPerm_creation (fs : FileSystem) (server : Server) (user : User) (right : Right)
    (path : Text) (root : fs.stat ['/'] ≠ none) (absolute : path.head? = some '/') :
    ∃ n < path.length, fs.stat (parentOf^[n] path) ≠ none ∧
      (∀ m < n, fs.stat (parentOf^[m] path) = none) ∧
      (∀ depth > n,
        checkPerm fs server user right depth path = checkPerm fs server user right (n + 1) path) ∧
      (fs.stat path = none → checkPerm fs server user right (n + 1) path = 0 →
        (right = .stor ∨ right = .mkdir) ∧
        ∀ m ≤ n, checkPerm fs server user right (n + 1) (parentOf^[m] path) = 0) := by
  obtain ⟨n, few, nearest, missing⟩ := exists_nearest root path.length le_rfl absolute
  refine ⟨n, few, nearest, missing, checkPerm_deep server user right n path nearest missing,
    fun gone granted => ⟨(checkPerm_missing gone granted).1, fun m => ?_⟩⟩
  induction m with
  | zero => exact fun _ => granted
  | succ m ih =>
    intro upper
    have above : ∀ k, parentOf^[k] (parentOf^[m + 1] path) = parentOf^[k + (m + 1)] path :=
      fun k => (Function.iterate_add_apply parentOf k (m + 1) path).symm
    have deep := checkPerm_deep server user right (n - (m + 1)) (parentOf^[m + 1] path)
      (by rw [above, Nat.sub_add_cancel upper]; exact nearest)
      (fun k lower => by rw [above]; exact missing _ (by omega))
    have parent := (checkPerm_missing (missing m (by omega)) (ih (by omega))).2
    rw [← Function.iterate_succ_apply' parentOf m path, deep n (by omega)] at parent
    rw [deep (n + 1) (by omega), parent]

/-- `/d/f` is a file, and the entry of `/d` itself gives no rights. -/
def fileInTheWay : FileSystem :=
  { FileSystem.ofList [(['/'], .dir), ("/d".toList, .dir), ("/d/f".toList, .reg)] with
    readPermFile := fun path =>
      if path = "/d/.dirinfo".toList then some [{ filename := ['.'], owner := ['o'] }] else none }

theorem checkPerm_creation_new : ∃ n < 6, ∀ m ≤ n,
    checkPerm fileInTheWay (.single srvUser) srvUser .stor (n + 1)
      (parentOf^[m] "/d/f/x".toList) = 0 := by
  obtain ⟨n, few, _, _, deep, granted⟩ := checkPerm_creation fileInTheWay (.single srvUser)
    srvUser .stor "/d/f/x".toList (by decide) rfl
  have few : n < 6 := few
  refine ⟨n, few, (granted (by decide) ?_).2⟩
  rw [← deep 7 (by omega)]
  decide

/-- A right is granted below a file although its directory does not grant it. -/
theorem checkPerm_below_file :
    fileInTheWay.stat "/d/f/x".toList = none ∧
    checkPerm fileInTheWay (.single srvUser) srvUser .stor 7 "/d/f/x".toList = 0 ∧
    (fileInTheWay.stat "/d/f".toList).map FileStat.kind = some .reg ∧
    (fileInTheWay.stat "/d".toList).map FileStat.kind = some .dir ∧
    checkPerm fileInTheWay (.single srvUser) srvUser .stor 3 "/d".toList = 1 := by
  decide

end Wzdftpd
