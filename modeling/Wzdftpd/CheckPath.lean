import Wzdftpd.PathSimplify
import Wzdftpd.PermCheck

/- `checkpath_new` of wzd_vfs.c: from a path as the client writes it to a path
of the file system. The loop walks one component at a time below the user's
root; a missing component may still be a link entry of the permission file or a
virtual directory. -/
namespace Wzdftpd

open SegmentWalk LexicalPath

/-- A call's return code and what it wrote into its output buffer, if anything. -/
structure Resolved where
  ret : Errno
  path : Option Text
  deriving DecidableEq, Repr

/-- The target of the first link entry of that name with an absolute target. -/
def linkTarget (entries : List PermEntry) (lpart : Text) : Option Text :=
  (entries.find? fun entry =>
    entry.kind = .lnk ∧ lpart = entry.filename ∧ entry.data.head? = some '/').map (·.data)

/-- The physical directory of the first virtual one in `syspath` of that name that the user may
see. -/
def vfsTarget (server : Server) (user : User) (syspath lpart : Text) : Option Text :=
  (server.vfs.find? fun vfs =>
    match server.vfsReplaceCookies vfs.virtualDir user with
    | none => false
    | some buffer =>
      syspath <+: buffer ∧ server.vfsMatchPerm vfs.target user ∧
        '/' ∉ buffer.drop syspath.length ∧ lpart = buffer.drop syspath.length).map (·.physicalDir)

/-- Where a component that does not exist in the file system may still lead. -/
def redirect (fs : FileSystem) (server : Server) (user : User) (syspath lpart : Text) :
    Option Text :=
  match linkTarget ((fs.readPermFile (syspath ++ permFile)).getD []) lpart with
  | some target => some target
  | none => vfsTarget server user syspath lpart

/-- The two `lstat` calls of a turn: the system path and its kind, or the prefix for a new
name. -/
def lookup (fs : FileSystem) (server : Server) (user : User) (syspath lpart : Text) :
    Except Text (Text × FileKind) :=
  match fs.lstat (syspath ++ lpart) with
  | some s => .ok (syspath ++ lpart, s.kind)
  | none =>
    match redirect fs server user syspath lpart with
    | none => .error syspath
    | some target =>
      match fs.lstat target with
      | some s => .ok (target, s.kind)
      | none => .error target

/-- The component loop; as many turns as characters are enough. Opening the directory at the
end never fails. -/
def checkpathLoop (fs : FileSystem) (server : Server) (user : User) :
    Nat → Text → Text → Resolved
  | 0, _, syspath => ⟨.ok, some syspath⟩
  | turns + 1, ftppath, syspath =>
    if ftppath = [] then ⟨.ok, some syspath⟩
    else
      let lpart := ftppath.takeWhile (· ≠ '/')
      let rpart := (ftppath.dropWhile (· ≠ '/')).tail
      if lpart = [] then ⟨.ok, some syspath⟩
      else
        match lookup fs server user syspath lpart with
        | .error base =>
          if rpart = [] then ⟨.fileNoExist, some (base ++ lpart)⟩ else ⟨.wrongPath, none⟩
        | .ok (syspath, kind) =>
          if kind = .dir ∨ kind = .lnk then
            if checkFileForPerm fs server (slashed syspath) ['.'] .cwd user ≠ 0 then
              ⟨.noPerm, none⟩
            else checkpathLoop fs server user turns rpart (slashed syspath)
          -- a file before the last component: no separator is added
          else checkpathLoop fs server user turns rpart syspath

def checkpathAbsolute (fs : FileSystem) (server : Server) (user : User) (wanted : Text) :
    Resolved :=
  let ftppath := pathSimplify wanted
  let rest := if ftppath.head? = some '/' then ftppath.tail else ftppath
  checkpathLoop fs server user ftppath.length rest (slashed user.rootpath)

/-- The current path with a relative one behind it. A separator at its end is overwritten,
unless it is all of it. -/
def relativePath (current wanted : Text) : Text :=
  if current.getLast? ≠ some '/' then current ++ '/' :: wanted
  else if current = ['/'] then '/' :: wanted
  else current.dropLast ++ wanted

/-- `checkpath_new`. The recursive call for a relative path is written out. -/
def checkpathNew (fs : FileSystem) (server : Server) (ctx : Context) (wantedPath : Option Text) :
    Resolved :=
  match wantedPath with
  | none => ⟨.paramNull, none⟩
  | some wanted =>
    if ctx.currentpath.text = [] then ⟨.paramInvalid, none⟩
    else
      match server.getUserByID ctx.userid with
      | none => ⟨.userIDontExist, none⟩
      | some user =>
        if user.rootpath.length + wanted.length ≥ maxPath then ⟨.paramBig, none⟩
        else if wanted.head? ≠ some '/' then
          let ftppath := relativePath ctx.currentpath.text wanted
          if ['/', '.', '.', '/'] <+: ftppath then ⟨.wrongPath, none⟩
          else
            let ftppath := pathSimplify ftppath
            if user.rootpath.length + ftppath.length ≥ maxPath then ⟨.paramBig, none⟩
            else checkpathAbsolute fs server user ftppath
        else checkpathAbsolute fs server user wanted

/-- A call writes its output buffer exactly when it returns `0` or
`E_FILE_NOEXIST`. -/
def Resolved.Honest (result : Resolved) : Prop :=
  result.path.isSome ↔ result.ret = .ok ∨ result.ret = .fileNoExist

theorem Resolved.Honest.path_eq_none {result : Resolved} (honest : result.Honest) :
    result.path = none ↔ result.ret ≠ .ok ∧ result.ret ≠ .fileNoExist := by
  rw [← Option.not_isSome_iff_eq_none, ← not_or]
  exact not_congr honest

variable (fs : FileSystem) (server : Server)

theorem checkpathLoop_honest (user : User) (turns : Nat) :
    ∀ ftppath syspath, (checkpathLoop fs server user turns ftppath syspath).Honest := by
  induction turns with
  | zero =>
    intro ftppath syspath
    simp [checkpathLoop, Resolved.Honest]
  | succ turns ih =>
    intro ftppath syspath
    simp only [checkpathLoop]
    repeat' split
    any_goals exact ih _ _
    all_goals simp [Resolved.Honest]

theorem checkpathNew_honest (ctx : Context)
    (wantedPath : Option Text) : (checkpathNew fs server ctx wantedPath).Honest := by
  simp only [checkpathNew]
  repeat' split
  any_goals exact checkpathLoop_honest fs server _ _ _ _
  all_goals simp [Resolved.Honest]

/-- `REMOVE_TRAILING_SLASH` -/
def removeTrailingSlash (path : Text) : Text :=
  if path.length > 1 ∧ path.getLast? = some '/' then path.dropLast else path

end Wzdftpd
