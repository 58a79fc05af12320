import Wzdftpd.CommandPerm
import Wzdftpd.RegistryReload
import Wzdftpd.UsersFile

/- The sections of the users file: `write_user_file` and `read_files` (libplaintext_file.c). -/
namespace Wzdftpd

open DirectiveText

/-- A registry that is being filled, and the number of records met so far. -/
structure Loaded {α : Type} (idOf : α → Nat) where
  table : Table idOf := .empty
  count : Nat := 0

section

variable {α : Type} {idOf : α → Nat}

/-- What follows the name of a record: from `most` records on it is left to the reader of
the section, line by line. -/
def Loaded.enter (most : Nat) (read : Nat → Text → Option (α × Text)) (file : Text)
    (loaded : Loaded idOf) : Option (Loaded idOf × Text) := do
  let count := loaded.count + 1
  if count ≥ most then
    return (⟨loaded.table, count⟩, file)
  let free ← loaded.table.registry.findFree 0
  let (record, rest) ← read free file
  if idOf record = invalidUser then
    return (⟨loaded.table, count⟩, rest)
  return (⟨loaded.table.register record, count⟩, rest)

/-- A line of a section. One that begins no record is skipped. -/
def recordEntry (named : Text → Option Text) (most : Nat)
    (read : Nat → Text → Text → Option (α × Text)) (line file : Text) (loaded : Loaded idOf) :
    Option (Loaded idOf × Text) :=
  match named line with
  | none => some (loaded, file)
  | some name => loaded.enter most (fun free => read free name) file

/-- A record that begins at a place of the file. -/
def readNamed (named : Text → Option Text) (read : Nat → Text → Text → Option (α × Text))
    (free : Nat) (file : Text) : Option (α × Text) :=
  let (buffer, rest) := fgets (maxLine - 2) file
  (named (chomp buffer)).bind fun name => read free name rest

/-- The ids of `user_get_list` up to the end mark; a cell that was not written has no
value. -/
def idsListed : List (Option Nat) → Option (List Nat)
  | some id :: cells => if id = invalidUser then some [] else (idsListed cells).map (id :: ·)
  | _ => none

/-- The records that `write_user_file` writes of a registry. -/
def recordsListed (kept : α → Bool) (t : Table idOf) : Option (List α) :=
  (t.registry.getList.bind idsListed).map fun ids => (ids.filterMap t.getById).filter kept

end

/-- The name in a line `privgroup name`. -/
def groupNamed (line : Text) : Option Text :=
  if (line.take 9).map Char.toLower = "privgroup".toList then
    (strtok [' ', '\t', '\n'] (strtok [' ', '\t'] line).2).1
  else none

/-- The name in a line `name=value`. -/
def userNamed (line : Text) : Option Text :=
  match split line with
  | some (varname, value) => if varname = "name".toList then some value else none
  | none => none

def groupEntry : Text → Text → Loaded GroupEntry.id → Option (Loaded GroupEntry.id × Text) :=
  recordEntry groupNamed hardDefGroupMax readSingleGroup

def userEntry (groups : GroupTable) :
    Text → Text → Loaded UserRecord.id → Option (Loaded UserRecord.id × Text) :=
  recordEntry userNamed hardDefUserMax (readSingleUser groups)

/-- `read_section_groups` -/
def readSectionGroups (loaded : Loaded GroupEntry.id) (file : Text) :
    Option (Loaded GroupEntry.id × Text) :=
  readSection (maxLine - 2) groupEntry loaded file

/-- `read_section_users` -/
def readSectionUsers (groups : GroupTable) (loaded : Loaded UserRecord.id) (file : Text) :
    Option (Loaded UserRecord.id × Text) :=
  readSection (maxLine - 2) (userEntry groups) loaded file

/-- `section_ignore`: the lines up to an empty one. -/
def sectionIgnore (file : Text) : Option Text :=
  (readRecord (maxLine - 2) (fun _ _ (record : Unit) => some record) () file).map Prod.snd

/-- The registries as `read_files` fills them. -/
structure LoadState where
  groups : Loaded GroupEntry.id := {}
  users : Loaded UserRecord.id := {}

/-- A section by its name; the code 1 is for one that is not known. -/
def readNamedSection (name : Text) (state : LoadState) (file : Text) :
    Option (Except Int (LoadState × Text)) :=
  if sameLetters "USERS".toList name then
    (readSectionUsers state.groups.table state.users file).map fun (users, rest) =>
      .ok ({ state with users := users }, rest)
  else if sameLetters "GROUPS".toList name then
    (readSectionGroups state.groups file).map fun (groups, rest) =>
      .ok ({ state with groups := groups }, rest)
  else if sameLetters "HOSTS".toList name then
    (sectionIgnore file).map fun rest => .ok (state, rest)
  else some (.error 1)

/-- The loop of `read_files`, with a bound for the number of its turns. A section without
a name is compared with by its null pointer. -/
def readFilesLoop : Nat → LoadState → Text → Option (Int × LoadState)
  | 0, state, _ => some (0, state)
  | fuel + 1, state, file =>
    if file = [] then some (0, state)
    else
      let (buffer, rest) := fgets (maxLine - 2) file
      match chomp buffer with
      | [] => readFilesLoop fuel state rest
      | '#' :: _ => readFilesLoop fuel state rest
      | '[' :: text =>
        match (strtok [']'] text).1 with
        | none => none
        | some name =>
          match readNamedSection name state rest with
          | none => none
          | some (.error code) => some (code, state)
          | some (.ok (next, behind)) => readFilesLoop fuel next behind
      | _ :: _ => some (1, state)

/-- `read_files` on the content of the file, with empty registries. -/
def readFiles (file : Text) : Option (Int × LoadState) := readFilesLoop file.length {} file

def GroupEntry.kept (group : GroupEntry) : Bool :=
  group.groupname ≠ [] ∧ group.groupname ≠ "nogroup".toList

def UserRecord.kept (user : UserRecord) : Bool :=
  user.username ≠ [] ∧ user.username ≠ "nobody".toList

/-- `file_header` -/
def fileHeader : List Text :=
  ["# general considerations:".toList,
    "#".toList,
    "# comment lines begin by #".toList,
    "# empty lines are removed".toList,
    "#".toList,
    "# directives have format: <tagname>=<value>".toList,
    "# with the regexp: ^([a-zA-Z0-9_]+)[ \\t]*=[ \\t]*(.+)".toList,
    "#".toList,
    "# directives are grouped into sections".toList,
    "# section begins by [SECTIONNAME]".toList]

/-- `write_user_file`: the content of the file. -/
def writeUserFile (users : Accounts) (groups : GroupTable) : Option Text := do
  let groupList ← recordsListed GroupEntry.kept groups
  let userList ← recordsListed UserRecord.kept users
  let userTexts ← userList.mapM (writeSingleUser groups)
  return fileHeader.flatMap (· ++ ['\n']) ++ "\n# groups definitions\n[GROUPS]\n".toList ++
    groupList.flatMap writeSingleGroup ++
    "# users definitions\n# users MUST begin by line name=<>\n[USERS]\n".toList ++
    userTexts.flatten

end Wzdftpd
