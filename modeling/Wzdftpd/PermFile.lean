import Wzdftpd.NamedList
import Wzdftpd.PermCheck
import Wzdftpd.Tokens

/- Permission files (wzd_file.c): how a list of entries is written to a text and
decoded from one, and the files of a disk that hold such texts. A string that is
left without its end, and `strtok_r` on a null pointer, make a function return
`none`. -/
namespace Wzdftpd

/-- BUFFER_LEN -/
def bufferLen : Nat := 4096

/-- `strncpy` into one of the name fields, which have 256 bytes. -/
def field (text : Text) : Option Text := if text.length < 256 then some text else none

theorem field_eq_some {text stored : Text} (kept : field text = some stored) :
    stored = text ∧ text.length < 256 := by
  unfold field at kept
  split at kept
  · cases kept
    exact ⟨rfl, by assumption⟩
  · cases kept

/-- The text that a string function sees in a buffer. -/
def bufferText (buffer : Text) : Text := buffer.takeWhile (· ≠ '\x00')

/-- `find_file` -/
def findFile (name : Text) (files : List PermEntry) : Option PermEntry :=
  NamedList.lookup PermEntry.filename name files

/-- `remove_file`: what is left of the list. -/
def removeFile (name : Text) (files : List PermEntry) : List PermEntry :=
  NamedList.remove PermEntry.filename name files

/-- A change of the structure that `find_file` points to. -/
def changeFile (name : Text) (change : PermEntry → PermEntry) (files : List PermEntry) :
    List PermEntry :=
  NamedList.modify PermEntry.filename name change files

/-- `add_new_file` -/
def addNewFile (umask : Nat) (name owner group : Text) (files : List PermEntry) :
    Option (List PermEntry) :=
  (field name).map fun name =>
    files ++ [{ filename := name, owner := owner, group := group, permissions := umask }]

def findOrAddFile (umask : Nat) (name : Text) (files : List PermEntry) :
    Option (List PermEntry) :=
  match findFile name files with
  | some _ => some files
  | none => addNewFile umask name [] [] files

/-- `addAcl`. Rights of less than three characters are filled up with zeros. -/
def addAcl (user rights : Text) (acl : List AclLine) : List AclLine :=
  let read := rights.getD 0 '\x00'
  let write := rights.getD 1 '\x00'
  let enter := rights.getD 2 '\x00'
  match NamedList.lookup AclLine.user user acl with
  | none => ⟨user, read, write, enter⟩ :: acl
  | some _ =>
    NamedList.modify AclLine.user user
      (fun line => { line with read := read, write := write, enter := enter }) acl

/-- The permissions at the end of a line: the umask if there are none, no change if they are no
number. -/
def readPermissions (umask current : Nat) (token : Option Text) : Nat :=
  match token with
  | none => umask
  | some token => ((CNumber.readOctal token).map CNumber.Reading.toULong).getD current

/-- What the first word of a line says about the other ones. -/
def decodeLine (umask : Nat) (word name third fourth rest : Text) (files : List PermEntry) :
    Option (List PermEntry) :=
  if word = "owner".toList then
    (field third).bind fun owner => (field fourth).map fun group =>
      changeFile name (fun file => { file with
        owner := owner, group := group
        permissions := readPermissions umask file.permissions (strtok blanks rest).1 }) files
  else if word = "perm".toList then
    (field third).map fun user =>
      changeFile name (fun file => { file with acl := addAcl user fourth file.acl }) files
  else if word = "link".toList then
    match strtok blanks rest with
    | (none, _) => some files
    | (some fifth, rest) =>
      (field fourth).bind fun owner => (field fifth).map fun group =>
        changeFile name (fun file => { file with
          kind := .lnk, data := third, owner := owner, group := group
          permissions := readPermissions umask file.permissions (strtok blanks rest).1 }) files
  else some files

/-- A turn of `readPermFile`. A line of less than four tokens is skipped; any other makes an
entry. -/
def readPermLine (umask : Nat) (files : List PermEntry) (line : Text) :
    Option (List PermEntry) :=
  match strtok blanks line with
  | (none, _) => some files
  | (some word, rest) =>
    match readToken (some rest) with
    | (none, _) => some files
    | (some name, rest) =>
      match readToken rest with
      | (none, _) => some files
      | (some _, none) => none
      | (some third, some rest) =>
        match strtok blanks rest with
        | (none, _) => some files
        | (some fourth, rest) =>
          (findOrAddFile umask name files).bind
            (decodeLine umask word name third fourth rest)

/-- `wzd_cache_gets` without a cache: at most `room` characters, up to the end of the
line. -/
def cacheGets : Nat → Text → Text × Text
  | 0, text => ([], text)
  | _ + 1, [] => ([], [])
  | room + 1, c :: text =>
    if c = '\n' then (['\n'], text)
    else
      let (line, rest) := cacheGets room text
      (c :: line, rest)

/-- The lines a file is read in; the length of the text bounds their number. -/
def permLines : Nat → Text → List Text
  | 0, _ => []
  | fuel + 1, text =>
    if text = [] then []
    else
      let (line, rest) := cacheGets (bufferLen - 2) text
      bufferText line :: permLines fuel rest

def readPermText (umask : Nat) (content : Text) : Option (List PermEntry) :=
  (permLines content.length content).foldlM (readPermLine umask) []

/-- `snprintf` into a buffer, and `fwrite` of its text. -/
def printed (text : Text) : Text := bufferText (text.take (bufferLen - 1))

def quoted (text : Text) : Text := if ' ' ∈ text then ['\''] ++ text ++ ['\''] else text

def linkLine (file : PermEntry) : Text :=
  "link".toList ++ ['\t'] ++ file.filename ++ ['\t'] ++ quoted file.data ++ ['\t'] ++
    file.owner ++ ['\t'] ++ file.group ++ ['\t'] ++ CNumber.octal file.permissions ++ ['\n']

def ownerLine (file : PermEntry) : Text :=
  "owner".toList ++ ['\t'] ++ quoted file.filename ++ ['\t'] ++ file.owner ++ ['\t'] ++
    file.group ++ ['\t'] ++ CNumber.octal file.permissions ++ ['\n']

def permLine (file : PermEntry) (line : AclLine) : Text :=
  "perm".toList ++ ['\t'] ++ quoted file.filename ++ ['\t'] ++ line.user ++ ['\t'] ++
    [line.read, line.write, line.enter] ++ ['\n']

/-- The lines of `writePermFile` for an entry. The permissions stand on the line of the owner,
which is left out where there is neither owner nor group. -/
def entryLines (file : PermEntry) : List Text :=
  if file.kind = .lnk then [linkLine file]
  else
    (if file.owner ≠ [] ∨ file.group ≠ [] then [ownerLine file] else []) ++
      file.acl.map (permLine file)

def writePermText (files : List PermEntry) : Text :=
  (files.flatMap fun file => (entryLines file).map printed).flatten

/-- The files of a disk, by directory and name. `dirOf` is the directory a path leads to;
`refuses` tells where the server may not write. -/
structure Disk where
  dirOf : Text → Nat
  doubled : ∀ dir, dirOf (dir ++ ['/', '/']) = dirOf (dir ++ ['/'])
  files : Nat × Text → Option Text
  refuses : Nat × Text → Bool := fun _ => false

namespace Disk

def place (disk : Disk) (path : Text) : Nat × Text :=
  let name := (path.reverse.takeWhile (· ≠ '/')).reverse
  (disk.dirOf (path.take (path.length - name.length)), name)

def put (disk : Disk) (place : Nat × Text) (content : Option Text) : Disk :=
  { disk with files := fun other => if other = place then content else disk.files other }

end Disk

def emptyDisk : Disk := { dirOf := fun _ => 0, doubled := fun _ => rfl, files := fun _ => none }

/-- `readPermFile` on an empty list. -/
def readPermFile (umask : Nat) (path : Text) (disk : Disk) : Option (Errno × List PermEntry) :=
  match disk.files (disk.place path) with
  | none => some (.fileNoExist, [])
  | some content => (readPermText umask content).map fun files => (.ok, files)

/-- `writePermFile`: an empty list removes the file. -/
def writePermFile (path : Text) (files : List PermEntry) (disk : Disk) : Int × Disk :=
  let place := disk.place path
  if files = [] then
    if disk.files place = none ∨ disk.refuses place then (-1, disk) else (0, disk.put place none)
  else if disk.refuses place then (-1, disk)
  else (0, disk.put place (some (writePermText files)))

end Wzdftpd
