import Wzdftpd.FileTransfer
import Wzdftpd.PermFile

/- The functions that change permission files (wzd_file.c): `_setPerm`, `_movePerm`,
and the renaming and removing of files that rewrite them. -/
namespace Wzdftpd

/-- `mainConfig->umask`, and the byte that lies in front of the buffer `dir`. -/
structure PermEnv where
  umask : Nat
  small : umask < 2 ^ 32
  before : Char

/-- A directory with a separator at its end. The test reads `dir[-1]` of an empty one. -/
def withSlash (before : Char) (dir : Text) : Text :=
  if dir.getLastD before ≠ '/' then dir ++ ['/'] else dir

def splitSlash (path : Text) : Option (Text × Text) :=
  if '/' ∈ path then
    let name := (path.reverse.takeWhile (· ≠ '/')).reverse
    some (path.take (path.length - name.length - 1), name)
  else none

/-- The optional arguments of `_setPerm`: `(unsigned long)-1` stands for no
permissions. -/
structure PermArgs where
  owner : Option Text := none
  group : Option Text := none
  /-- The user and the rights of an access control line. -/
  acl : Option (Text × Text) := none
  perms : Option Nat := none

def PermArgs.fit (args : PermArgs) : Bool :=
  args.owner.all (·.length < 256) ∧ args.group.all (·.length < 256) ∧
    args.acl.all (·.1.length < 256)

/-- Setting one of owner and group gives the other one a name, too. -/
def setOwner (owner group : Option Text) (file : PermEntry) : PermEntry :=
  if owner.isSome ∨ group.isSome then
    let owner := owner.getD file.owner
    let group := group.getD file.group
    { file with
      owner := if owner = [] then "nobody".toList else owner
      group := if group = [] then "nogroup".toList else group }
  else file

/-- What `_setPerm` does to the entry. -/
def applyPerm (args : PermArgs) (file : PermEntry) : PermEntry :=
  let file := setOwner args.owner args.group file
  let file := match args.acl with
    | some (user, rights) => { file with acl := addAcl user rights file.acl }
    | none => file
  { file with permissions := args.perms.getD file.permissions }

/-- The part of `_setPerm` under its lock. The result of the write is not looked at. -/
def setPermIn (env : PermEnv) (path name : Text) (args : PermArgs) (disk : Disk) :
    Option (Int × Disk) :=
  (readPermFile env.umask path disk).bind fun read =>
    (findOrAddFile env.umask name read.2).bind fun files =>
      if args.fit then
        some (0, (writePermFile path (changeFile name (applyPerm args) files) disk).2)
      else none

/-- `_setPerm` on a path without a separator at its end. -/
def setPerm (env : PermEnv) (fs : FileSystem) (filename : Text) (args : PermArgs) (disk : Disk) :
    Option (Int × Disk) :=
  if filename = [] then some (-1, disk)
  else if filename.length ≥ maxPath then none
  else
    match fs.stat filename with
    | none => some (-1, disk)
    | some s =>
      match if s.kind = .dir then some (filename, ['.']) else splitSlash filename with
      | none => none
      | some (dir, name) =>
        let dir := withSlash env.before dir
        if dir.length + permFile.length ≥ maxPath then some (-1, disk)
        else setPermIn env (dir ++ permFile) name args disk

/-- The entry of the target in `_movePerm`: a new one has owner and group of the source,
another keeps its own unless they are asked for. -/
def targetFiles (env : PermEnv) (name : Text) (moved : PermEntry) (owner group : Bool)
    (files : List PermEntry) : Option (List PermEntry) :=
  match findFile name files with
  | none => addNewFile env.umask name moved.owner moved.group files
  | some _ =>
    some (changeFile name (fun file => { file with
      owner := if owner then moved.owner else file.owner
      group := if group then moved.group else file.group }) files)

/-- The part of `_movePerm` under its lock. -/
def moveEntry (env : PermEnv) (source sourceName target targetName : Text) (owner group : Bool)
    (disk : Disk) : Option Disk :=
  (readPermFile env.umask source disk).bind fun read =>
    let moved := findFile sourceName read.2
    let disk := (writePermFile source (removeFile sourceName read.2) disk).2
    (readPermFile env.umask target disk).bind fun read =>
      match moved with
      | none => some (writePermFile target (removeFile targetName read.2) disk).2
      | some moved =>
        (targetFiles env targetName moved owner group read.2).map fun files =>
          (writePermFile target
            (changeFile targetName (fun file => { file with acl := moved.acl }) files) disk).2

/-- `_movePerm`. A directory keeps its permissions inside of itself. -/
def movePerm (env : PermEnv) (fs : FileSystem) (old new : Text) (owner group : Bool)
    (disk : Disk) : Option (Int × Disk) :=
  if old = [] ∨ new = [] then some (-1, disk)
  else if old.length ≥ bufferLen then none
  else
    match fs.stat old with
    | none => some (-1, disk)
    | some s =>
      if s.kind = .dir then some (0, disk)
      else
        match splitSlash old with
        | none => none
        | some (sourceDir, sourceName) =>
          let sourceDir := withSlash env.before sourceDir
          if sourceDir.length + permFile.length > 4095 then some (-1, disk)
          else if new.length ≥ bufferLen then none
          else if (fs.stat new).map (·.kind) = some .dir then some (-1, disk)
          else
            match splitSlash new with
            | none => none
            | some (targetDir, targetName) =>
              let targetDir := withSlash env.before targetDir
              if targetDir.length + permFile.length > 4095 then some (-1, disk)
              else
                (moveEntry env (sourceDir ++ permFile) sourceName (targetDir ++ permFile)
                  targetName owner group disk).map fun disk => (0, disk)

namespace Disk

def view (disk : Disk) (umask : Nat) (fs : FileSystem) : FileSystem :=
  { fs with
    readPermFile := fun path =>
      match readPermFile umask path disk with
      | some (.ok, files) => some files
      | _ => none }

/-- `rename`: the content goes to the new place. -/
def moveFile (disk : Disk) (source target : Text) : Disk :=
  { disk with
    files := fun place =>
      if place = disk.place target then disk.files (disk.place source)
      else if place = disk.place source then none
      else disk.files place }

end Disk

/-- `file_rename` with what it does to the disk. The result of `_movePerm` is not
looked at. -/
def fileRenameOn (env : PermEnv) (w : World) (user : User) (source target : Text) (disk : Disk) :
    Option (Int × Disk) :=
  let fs := disk.view env.umask w.fsAfter
  if '/' ∉ target then some (1, disk)
  else if checkPermFull fs w user .rnfr source ≠ 0 then some (1, disk)
  else if checkPermFull fs w user .stor (splitParent target) ≠ 0 then some (1, disk)
  else
    (movePerm env fs source target false false disk).map fun moved =>
      if w.fsRename source target then (0, moved.2.moveFile source target) else (1, moved.2)

/-- `file_remove` behind its test of the rights; `unlinked` is the success of `unlink`. In the
root directory the name of the permission file is appended to the file's. -/
def fileRemoveIn (env : PermEnv) (unlinked : Bool) (filename dir name : Text) (disk : Disk) :
    Option (Int × Disk) :=
  let path := if dir = [] then filename ++ permFile else dir ++ ['/'] ++ permFile
  (readPermFile env.umask path disk).map fun read =>
    let disk := if read.1 = .ok then (writePermFile path (removeFile name read.2) disk).2 else disk
    if unlinked then (0, disk.put (disk.place filename) none) else (1, disk)

/-- `file_remove`. A siteop may remove every file, others their own or, with the permission
`delete`, all. -/
def fileRemove (env : PermEnv) (user : User) (statOwner : Option Text) (deleteGranted : Bool)
    (unlinked : Bool) (filename : Text) (disk : Disk) : Option (Int × Disk) :=
  if filename.length ≥ bufferLen then none
  else
    match splitSlash filename with
    | none => some (-1, disk)
    | some (dir, name) =>
      let length := if dir = [] then filename.length else dir.length + 1
      if name = [] then some (-1, disk)
      else if length + permFile.length > 4095 then some (-1, disk)
      else if ¬(user.has 'O' ∨ statOwner = some user.username ∨ deleteGranted) then
        some (1, disk)
      else fileRemoveIn env unlinked filename dir name disk

end Wzdftpd
