import Wzdftpd.CheckPath
import Wzdftpd.PermFile

/- `dir_open` and `dir_read` of wzd_dir.c, and `file_stat` of wzd_file.c. The entries of a
directory come from the file system, from the virtual directories and from the links of the
permission file; the entries that the permission file has for files of the directory are
taken out of its list. `wzd_strncpy` is `copyText`. A function that does not come back
properly gives `none`, and a null pointer is `some none`. -/
namespace Wzdftpd

open LexicalPath TextBuffer List Option

/-- MAX_DIRECTORY_ENTRIES -/
def maxDirectoryEntries : Nat := 65535

/-- What the functions find around them. -/
structure DirWorld where
  umask : Nat
  server : Server
  user : User
  disk : Disk
  lstat : Text → Option FileStat

/-- `file_deep_copy`, which copies the first line of an access list for each line. -/
def fileDeepCopy (file : PermEntry) : PermEntry :=
  match file.acl with
  | [] => file
  | first :: rest => { file with acl := first :: rest.map fun _ => first }

def plainEntry (umask : Nat) (name : Text) : PermEntry := { filename := name, permissions := umask }

def EntryKind.ofStat (kind : EntryKind) : FileKind → EntryKind
  | .dir => .dir
  | .lnk => .lnk
  | .reg => .reg
  | .other => kind

/-- Where `file_stat` looks for an entry: the directory of the permission file, the name, what
was found there, and whether the path is missing. -/
def statPlace (lstat : Text → Option FileStat) (filename : Text) :
    Option (Text × Text × FileStat × Bool) :=
  let path := removeTrailingSlash filename
  if '/' ∉ path then none
  else
    let last := (path.reverse.takeWhile (· ≠ '/')).reverse
    let dir := path.take (path.length - last.length - 1)
    match lstat filename with
    | some s => if s.kind = .dir then some (path, ['.'], s, false) else some (dir, last, s, false)
    | none => (lstat dir).map fun s => (dir, last, s, true)

/-- `file_stat` of a path that is no virtual directory. -/
def statEntry (w : DirWorld) (filename : Text) : Option (Option PermEntry) :=
  if filename.length ≥ maxPath then none
  else
    match statPlace w.lstat filename with
    | none => some none
    | some (dir, name, s, missing) =>
      if dir.length + permFile.length + 1 ≥ maxPath then some none
      -- the character in front of an empty path is looked at
      else if dir = [] then none
      else
        (readPermFile w.umask (slashed dir ++ permFile) w.disk).bind fun read =>
          match (if read.1 = .ok then findFile name read.2 else none) with
          | some file => some (some { fileDeepCopy file with kind := file.kind.ofStat s.kind })
          | none =>
            if missing then some none
            else
              (field name).map fun name =>
                some { plainEntry w.umask name with kind := EntryKind.notSet.ofStat s.kind }

/-- The physical directory of the first virtual directory at a path. -/
def virtualAt (w : DirWorld) (filename : Text) : Option Text :=
  (w.server.vfs.find? fun vfs =>
    w.server.vfsReplaceCookies vfs.virtualDir w.user = some filename).map (·.physicalDir)

/-- `file_stat`, which calls itself at a virtual directory, to a depth of its calls. -/
def fileStat (w : DirWorld) : Nat → Text → Option (Option PermEntry)
  | 0, _ => none
  | depth + 1, filename =>
    match virtualAt w filename with
    | some physical => fileStat w depth physical
    | none => statEntry w filename

/-- The list of the permission file, the entries so far and the watchdog. -/
structure Opening where
  perm : List PermEntry
  entries : List PermEntry
  watchdog : Nat

/-- `.` and `..`, and what `is_hidden_file` hides. -/
def passedOver (w : DirWorld) (name : Text) : Bool :=
  name = ['.'] ∨ name = ['.', '.'] ∨ isHiddenFile w.server name

/-- The path of an entry in `buffer_file`; none if it has no end. Nothing is copied to a path
that fills the buffer. -/
def entryPath (base name : Text) : Option Text :=
  if base.length = maxPath then some base
  else if base.length + name.length < maxPath then some (base ++ name)
  else none

/-- The entry of a file that the permission file does not list; a null pointer if `lstat`
fails. -/
def unlistedEntry (w : DirWorld) (depth : Nat) (base name : Text) : Option (Option PermEntry) :=
  (entryPath base name).bind fun path =>
    match w.lstat path with
    | none => some none
    | some s =>
      if s.kind = .dir then
        (fileStat w depth path).bind fun found =>
          (field name).map fun name =>
            some { found.getD (plainEntry w.umask name) with filename := name }
      else (field name).map fun name => some (plainEntry w.umask name)

def physicalEntries (w : DirWorld) (depth : Nat) (base : Text) :
    List Text → Opening → Option (Option Opening)
  | [], o => some (some o)
  | name :: names, o =>
    if o.watchdog > maxDirectoryEntries then some none
    else if passedOver w name then
      physicalEntries w depth base names { o with watchdog := o.watchdog + 1 }
    else
      match findFile name o.perm with
      | some entry =>
        physicalEntries w depth base names
          ⟨removeFile name o.perm, o.entries ++ [entry], o.watchdog + 1⟩
      | none =>
        (unlistedEntry w depth base name).bind fun entry =>
          physicalEntries w depth base names
            ⟨o.perm, o.entries ++ entry.toList, o.watchdog + 1⟩

def vfsEntry (w : DirWorld) (vfs : VfsEntry) (name : Text) (found : Option PermEntry) : PermEntry :=
  { found.getD (plainEntry w.umask name) with
    filename := name, kind := .vfs, data := vfs.physicalDir }

/-- A virtual directory: its path is copied to the buffer, and the name is read from there. -/
def vfsCandidate (w : DirWorld) (name : Text) (vfs : VfsEntry) (buffer : List Char) :
    Option (List Char × Option Text) :=
  match w.server.vfsReplaceCookies vfs.virtualDir w.user with
  | none => some (buffer, none)
  | some path =>
    (copyText buffer (path ++ ['\x00']) maxPath).bind fun buffer =>
      if name <+: buffer ∧ w.server.vfsMatchPerm vfs.target w.user then
        -- behind the name, and behind one character more if it has no separator
        let behind := buffer.drop (slashed name).length
        if '/' ∈ text behind then some (buffer, none)
        else (terminated behind).map fun tail => (buffer, some tail)
      else some (buffer, none)

def vfsEntries (w : DirWorld) (depth : Nat) (name : Text) :
    List VfsEntry → List Char → Opening → Option (Option Opening)
  | [], _, o => some (some o)
  | vfs :: rest, buffer, o =>
    if o.watchdog > maxDirectoryEntries then some none
    else
      (vfsCandidate w name vfs buffer).bind fun turn =>
        match turn.2 with
        | none => vfsEntries w depth name rest turn.1 { o with watchdog := o.watchdog + 1 }
        | some tail =>
          (fileStat w depth vfs.physicalDir).bind fun found =>
            (field tail).bind fun tail =>
              vfsEntries w depth name rest turn.1
                ⟨o.perm, o.entries ++ [vfsEntry w vfs tail found], o.watchdog + 1⟩

/-- Where the loop goes on behind a link that was taken out: the next entry, or once more the
first if that is in front. -/
def behindLink : List PermEntry → List PermEntry → List PermEntry × List PermEntry
  | [first], rest => ([], first :: rest)
  | front, rest => (front, rest)

/-- The loop on what is left of the permission file; `turns` are left to the watchdog. -/
def linkEntries : Nat → List PermEntry → List PermEntry → List PermEntry →
    Option (List PermEntry)
  | _, _, [], entries => some entries
  | 0, _, _ :: _, _ => none
  | turns + 1, front, it :: rest, entries =>
    if it.kind = .lnk then
      linkEntries turns (behindLink front rest).1 (behindLink front rest).2 (entries ++ [it])
    else linkEntries turns (front ++ [it]) rest entries

/-- The path of the directory with a separator, as `dir_open` builds it in `buffer_file`. -/
def entryBase (name : Text) : Text :=
  if name.length > 1 ∧ name.getLast? ≠ some '/' then name ++ ['/'] else name

/-- `dir_open` of a directory that holds `names`, with what the allocated buffer holds. -/
def dirOpen (w : DirWorld) (depth : Nat) (name : Text) (names : List Text) (buffer : List Char) :
    Option (Option (List PermEntry)) :=
  (readPermFile w.umask (slashed name ++ permFile) w.disk).bind fun read =>
    if read.1 ≠ .ok ∧ read.1 ≠ .fileNoExist then some none
    -- `buffer_file` is left without its end
    else if name.length ≥ maxPath then none
    else
      (physicalEntries w depth (entryBase name) names ⟨read.2, [], 0⟩).bind fun opening =>
        match opening with
        | none => some none
        | some o =>
          (vfsEntries w depth name w.server.vfs buffer o).map fun opening =>
            opening.bind fun o =>
              linkEntries (maxDirectoryEntries + 1 - o.watchdog) [] o.perm o.entries

/-- `dir_read`: the next entry, and what is left to read. -/
def dirRead : List PermEntry → Option (PermEntry × List PermEntry)
  | [] => none
  | entry :: rest => some (entry, rest)

theorem fileDeepCopy_acl_iff (file : PermEntry) :
    (fileDeepCopy file).acl = file.acl ↔ ∀ line ∈ file.acl, file.acl.head? = some line := by
  rcases lines : file.acl with _ | ⟨first, rest⟩
  · simp [fileDeepCopy, lines]
  rw [fileDeepCopy, lines]
  simp only [cons.injEq, true_and, head?_cons, some.injEq,
    forall_mem_cons, map_const']
  constructor
  · intro same line member
    rw [← same] at member
    exact (eq_of_mem_replicate member).symm
  · intro same
    exact (eq_replicate_iff.mpr ⟨rfl, fun line member => (same line member).symm⟩).symm

/-- `file_stat` reports what the permission file stores about an existing file exactly if the
paths fit, the file is not in the root, and the lines of its access list are all the same. -/
theorem fileStat_stored_iff (w : DirWorld) (depth : Nat) (filename dir name : Text) (s : FileStat)
    (perm : List PermEntry) (file : PermEntry) (physical : virtualAt w filename = none)
    (place : statPlace w.lstat filename = some (dir, name, s, false))
    (read : readPermFile w.umask (slashed dir ++ permFile) w.disk = some (.ok, perm))
    (listed : findFile name perm = some file) :
    (∃ stat, fileStat w (depth + 1) filename = some (some stat) ∧ stat.owner = file.owner ∧
        stat.group = file.group ∧ stat.permissions = file.permissions ∧ stat.acl = file.acl) ↔
      filename.length < maxPath ∧ dir.length + permFile.length + 1 < maxPath ∧ dir ≠ [] ∧
        ∀ line ∈ file.acl, file.acl.head? = some line := by
  have kept : (fileDeepCopy file).owner = file.owner ∧ (fileDeepCopy file).group = file.group ∧
      (fileDeepCopy file).permissions = file.permissions := by
    unfold fileDeepCopy
    split <;> exact ⟨rfl, rfl, rfl⟩
  rw [← fileDeepCopy_acl_iff, fileStat, physical]
  simp only [statEntry, place, read, bind_some, listed]
  by_cases long : filename.length ≥ maxPath
  · simp [long]
  · by_cases deep : dir.length + permFile.length + 1 ≥ maxPath
    · simp [long, deep]
    · by_cases root : dir = []
      · simp [long, root]
      · simp [long, deep, root, kept, Nat.lt_of_not_le long, Nat.lt_of_not_le deep]

/-- A directory `/d` whose permission file is that of one entry. -/
def storedWorld (file : PermEntry) : DirWorld where
  umask := 420
  server := .single srvUser
  user := srvUser
  disk := emptyDisk.put (0, permFile) (some (writePermText [file]))
  lstat _ := some { kind := .reg }

def aclFile (lines : List AclLine) : PermEntry :=
  { filename := ['f'], owner := ['o'], group := ['g'], permissions := 0o640, acl := lines }

theorem fileStat_stored_iff_one : ∃ stat,
    fileStat (storedWorld (aclFile [⟨['a'], 'r', 'w', '-'⟩])) 1 "/d/f".toList = some (some stat) ∧
      stat.owner = ['o'] ∧ stat.group = ['g'] ∧ stat.permissions = 0o640 ∧
      stat.acl = [⟨['a'], 'r', 'w', '-'⟩] :=
  (fileStat_stored_iff (storedWorld (aclFile [⟨['a'], 'r', 'w', '-'⟩])) 0 "/d/f".toList "/d".toList
    ['f'] { kind := .reg } [aclFile [⟨['a'], 'r', 'w', '-'⟩]] (aclFile [⟨['a'], 'r', 'w', '-'⟩])
    (by decide) rfl rfl rfl).mpr
    ⟨by decide, by decide, by decide, forall_mem_singleton.mpr rfl⟩

def twoLines : DirWorld := storedWorld (aclFile [⟨['a'], 'r', 'w', '-'⟩, ⟨['b'], '-', '-', '-'⟩])

/-- The second line of the access list comes out as the first one. -/
theorem fileStat_repeats_line :
    ((readPermFile 420 "/d/.dirinfo".toList twoLines.disk).bind fun read =>
      (findFile ['f'] read.2).map fun file => file.acl.map AclLine.user) =
        some [['b'], ['a']] ∧
    (fileStat twoLines 1 "/d/f".toList).map (Option.map fun stat => stat.acl.map AclLine.user) =
      some (some [['b'], ['b']]) := by
  decide

end Wzdftpd
