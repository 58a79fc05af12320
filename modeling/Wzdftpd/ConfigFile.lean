import Mathlib.Data.List.DropRight
import Wzdftpd.CNumber
import Wzdftpd.NamedList
import Wzdftpd.Session

/- Configuration files (wzd_configfile.c): the groups of keys, the functions that look
up, set and remove values, the reader of data and the writer. Texts are C strings, so
they hold no null character. What only the reader uses, the buffer of the line that is
being read, is kept beside the groups. -/
namespace Wzdftpd

inductive CfCode where
  | ok
  | invalidArgs
  | groupNotFound
  | noCurrentGroup
  | parse
  | notFound
  | keyAlreadyExists
  deriving Repr, DecidableEq

/-- A key with its value, or a comment, which has no key. -/
structure KeyValue where
  key : Option Text
  value : Text
  deriving Repr, DecidableEq

/-- The first group of a file has no name. -/
structure ConfigGroup where
  name : Option Text
  comment : Option Text
  values : List KeyValue
  deriving Repr, DecidableEq

/-- The groups, the position of the current one, and the flag of `CF_FILE_MERGE_MULTIPLE`. -/
structure ConfigTree where
  groups : List ConfigGroup
  currentGroup : Option Nat
  merge : Bool
  deriving Repr, DecidableEq

/-- The parse buffer is `none` until a first character is appended to it. -/
structure ConfigFile where
  tree : ConfigTree
  parseBuffer : Option Text
  deriving Repr, DecidableEq

/-- `_configfile_group_init`, and the name that its callers set. -/
def ConfigGroup.init (name : Option Text) : ConfigGroup := ⟨name, none, []⟩

namespace ConfigTree

/-- The groups of `config_init`. -/
def new : ConfigTree := ⟨[ConfigGroup.init none], some 0, false⟩

def lookupGroup (config : ConfigTree) (groupname : Text) : Option ConfigGroup :=
  NamedList.lookup ConfigGroup.name (some groupname) config.groups

/-- The values of the group that `lookupGroup` finds are replaced. -/
def putValues (config : ConfigTree) (groupname : Text) (values : List KeyValue) : ConfigTree :=
  { config with
    groups := NamedList.modify ConfigGroup.name (some groupname)
      (fun group => { group with values := values }) config.groups }

end ConfigTree

/-- `config_lookup_keyvalue`. -/
def lookupKeyvalue (values : List KeyValue) (key : Text) : Option KeyValue :=
  NamedList.lookup KeyValue.key (some key) values

def replaceValue (values : List KeyValue) (key : Text) (f : Text → Text) : List KeyValue :=
  NamedList.modify KeyValue.key (some key) (fun kv => { kv with value := f kv.value }) values

/-- The value that two lines with one key make, with `VALUE_LIST_SEPARATOR`. -/
def mergedValue (value old : Text) : Text := old ++ ',' :: ' ' :: value

/-- `config_add_key`. -/
def addKey (merge : Bool) (values : List KeyValue) (key value : Text) :
    CfCode × List KeyValue :=
  if lookupKeyvalue values key = none then (.ok, values ++ [⟨some key, value⟩])
  else if merge then (.ok, replaceValue values key (mergedValue value))
  else (.keyAlreadyExists, values)

namespace ConfigTree

/-- `config_add_group`: the new group is the current one. -/
def addGroup (config : ConfigTree) (groupname : Text) : ConfigTree :=
  { config with
    groups := config.groups ++ [ConfigGroup.init (some groupname)]
    currentGroup := some config.groups.length }

/-- `config_get_value`. -/
def getValue (config : ConfigTree) (groupname key : Text) : Option Text := do
  let group ← config.lookupGroup groupname
  let kv ← lookupKeyvalue group.values key
  return kv.value

/-- `config_has_group`. -/
def hasGroup (config : ConfigTree) (groupname : Text) : Bool :=
  (config.lookupGroup groupname).isSome

/-- `config_has_key`. -/
def hasKey (config : ConfigTree) (groupname key : Text) : Bool :=
  ((config.lookupGroup groupname).bind fun group => lookupKeyvalue group.values key).isSome

/-- `config_get_groups`: a string for every group, without a text for the unnamed one. -/
def getGroups (config : ConfigTree) : List (Option Text) := config.groups.map ConfigGroup.name

def withGroup (config : ConfigTree) (groupname : Text) : ConfigTree :=
  if config.lookupGroup groupname = none then config.addGroup groupname else config

/-- `config_set_value`. -/
def setValue (config : ConfigTree) (groupname key value : Text) : CfCode × ConfigTree :=
  let config := config.withGroup groupname
  match config.lookupGroup groupname with
  | none => (.groupNotFound, config)
  | some group =>
    if lookupKeyvalue group.values key = none then
      let added := addKey config.merge group.values key value
      (added.1, config.putValues groupname added.2)
    else (.ok, config.putValues groupname (replaceValue group.values key fun _ => value))

/-- `config_remove_key`. -/
def removeKey (config : ConfigTree) (groupname key : Text) : CfCode × ConfigTree :=
  match config.lookupGroup groupname with
  | none => (.groupNotFound, config)
  | some group =>
    if lookupKeyvalue group.values key = none then (.notFound, config)
    else
      (.ok, config.putValues groupname
        (NamedList.remove KeyValue.key (some key) group.values))

/-- The current group after the one at a position is removed. -/
def currentWithout (removed : Nat) : Option Nat → Option Nat
  | none => none
  | some current =>
    if current = removed then (if removed = 0 then none else some 0)
    else if removed < current then some (current - 1) else some current

/-- `config_remove_group`. -/
def removeGroup (config : ConfigTree) (groupname : Text) : CfCode × ConfigTree :=
  match config.groups.findIdx? fun group => group.name = some groupname with
  | none => (.groupNotFound, config)
  | some removed =>
    (.ok, { config with
      groups := NamedList.remove ConfigGroup.name (some groupname) config.groups
      currentGroup := currentWithout removed config.currentGroup })

end ConfigTree

/-- What a function of the reader returns and leaves; `none` where it reads outside of the
line. -/
abbrev CfOutcome (σ : Type) := Option (CfCode × σ)

/-- Goes on where a step returned `CF_OK`, and stops with its code where it did not. -/
def CfOutcome.andThen {σ : Type} (outcome : CfOutcome σ) (next : σ → CfOutcome σ) : CfOutcome σ :=
  match outcome with
  | some (.ok, state) => next state
  | stopped => stopped

/-- The reader's functions use the C library's `isspace`. -/
def trimmedRight (text : Text) : Text := text.rdropWhile CNumber.isSpace

def trimmedLeft (text : Text) : Text := text.dropWhile CNumber.isSpace

/-- `config_line_is_comment`. -/
def lineIsComment (line : Text) : Bool := line.head?.all (· ∈ ['#', '\n'])

/-- `config_line_is_group`. -/
def lineIsGroup (line : Text) : Bool := line.head? = some '[' ∧ ']' ∈ line

/-- `config_line_is_keyvalue`. -/
def lineIsKeyvalue (line : Text) : Bool := '=' ∈ line ∧ line.head? ≠ some '='

/-- The value of a line, by the length that is given for the line. That of a value wraps around
where the blanks behind the sign reach beyond it. -/
def valueOf (line : Text) (length : Nat) : Text :=
  let rest := trimmedLeft ((line.dropWhile (· ≠ '=')).drop 1)
  let valueStart := line.length - rest.length
  if length < valueStart then rest else trimmedRight (rest.take (length - valueStart))

namespace ConfigTree

/-- The group that the pointer `current_group` leads to. -/
def current (config : ConfigTree) : Option ConfigGroup :=
  config.currentGroup.bind (config.groups[·]?)

def putCurrent (config : ConfigTree) (values : List KeyValue) : ConfigTree :=
  match config.currentGroup with
  | none => config
  | some current =>
    { config with
      groups := config.groups.modify current fun group => { group with values := values } }

/-- `config_parse_comment`. -/
def parseComment (config : ConfigTree) (line : Text) : CfCode × ConfigTree :=
  match config.current with
  | none => (.noCurrentGroup, config)
  | some group => (.ok, config.putCurrent (group.values ++ [⟨none, line⟩]))

/-- `config_parse_group`: the name starts behind the first character, and its end is looked for
backwards from the given length. -/
def parseGroup (config : ConfigTree) (line : Text) (length : Nat) : CfOutcome ConfigTree :=
  match (line.take length).reverse.dropWhile (· ≠ ']') with
  | [] => none
  | _ :: before => some (.ok, config.addGroup (before.reverse.drop 1))

/-- `config_parse_keyvalue`. -/
def parseKeyvalue (config : ConfigTree) (line : Text) (length : Nat) : CfCode × ConfigTree :=
  match config.current with
  | none => (.noCurrentGroup, config)
  | some group =>
    if group.name = none then (.noCurrentGroup, config)
    else
      let key := trimmedRight (line.takeWhile (· ≠ '='))
      if length < key.length + 1 then (.parse, config)
      else
        let added := addKey config.merge group.values key (valueOf line length)
        (added.1, config.putCurrent added.2)

/-- `config_parse_line`. The blanks in front are taken off the length, and not off the line. -/
def parseLine (config : ConfigTree) (line : Text) : CfOutcome ConfigTree :=
  let lineStart := trimmedLeft line
  if lineIsComment lineStart then some (config.parseComment line)
  else if lineIsGroup lineStart then config.parseGroup line lineStart.length
  else if lineIsKeyvalue lineStart then some (config.parseKeyvalue line lineStart.length)
  else some (.parse, config)

end ConfigTree

namespace ConfigFile

/-- `config_new`. -/
def new : ConfigFile := ⟨ConfigTree.new, none⟩

/-- `config_parse_flush_buffer`. The length of a buffer that was never used is the greatest
number. -/
def flushBuffer (config : ConfigFile) : CfOutcome ConfigFile :=
  match config.parseBuffer with
  | none => some (.invalidArgs, config)
  | some [] => some (.ok, config)
  | some line =>
    (config.tree.parseLine line).map fun done => (done.1, ⟨done.2, some []⟩)

/-- What `config_parse_data` does with the line in the buffer. -/
def endLine (config : ConfigFile) : CfOutcome ConfigFile :=
  match config.parseBuffer with
  | some [] => let done := config.tree.parseComment []; some (done.1, ⟨done.2, some []⟩)
  | _ => config.flushBuffer

def withoutLast (c : Char) (line : Text) : Text :=
  if line.getLast? = some c then line.dropLast else line

/-- A newline. The buffer is looked at only where it is not the first character of the data. -/
def newline (inside : Bool) (config : ConfigFile) : CfOutcome ConfigFile :=
  if inside then
    match config.parseBuffer with
    | none => none
    | some buffer =>
      let line := withoutLast '\r' buffer
      if line.getLast? = some '\\' then
        some (.ok, { config with parseBuffer := some line.dropLast })
      else endLine { config with parseBuffer := some line }
  else config.endLine

def appendC (config : ConfigFile) (c : Char) : ConfigFile :=
  { config with parseBuffer := some (config.parseBuffer.getD [] ++ [c]) }

/-- The loop of `config_parse_data`, inside of the data or at its first character. -/
def parseFrom : Bool → ConfigFile → Text → CfOutcome ConfigFile
  | _, config, [] => some (.ok, config)
  | inside, config, c :: rest =>
    CfOutcome.andThen (if c = '\n' then config.newline inside else some (.ok, config.appendC c))
      fun config => parseFrom true config rest

/-- `config_parse_data`. -/
def parseData (config : ConfigFile) (data : Text) : CfOutcome ConfigFile :=
  config.parseFrom false data

/-- The last line is flushed, and what that returns is not looked at. -/
def finish (config : ConfigFile) : CfOutcome ConfigFile :=
  config.flushBuffer.map fun done => (.ok, done.2)

def withMerge (config : ConfigFile) (merge : Bool) : ConfigFile :=
  { config with tree := { config.tree with merge := merge } }

/-- `config_load_from_data`. -/
def loadFromData (config : ConfigFile) (data : Text) (merge : Bool) : CfOutcome ConfigFile :=
  if data = [] then some (.invalidArgs, config)
  else CfOutcome.andThen ((config.withMerge merge).parseData data) finish

/-- Pieces of data, one after the other, up to the first that is refused. -/
def parseChunks : ConfigFile → List Text → CfOutcome ConfigFile
  | config, [] => some (.ok, config)
  | config, chunk :: chunks =>
    CfOutcome.andThen (config.parseData chunk) fun config => parseChunks config chunks

/-- `config_load_from_fd`, by the pieces that `read` returns. -/
def loadFromFd (config : ConfigFile) (reads : List Text) (merge : Bool) : CfOutcome ConfigFile :=
  if reads.flatten = [] then some (.parse, config)
  else CfOutcome.andThen ((config.withMerge merge).parseChunks reads) finish

end ConfigFile

/-- A line of `config_to_data`. -/
def KeyValue.print (kv : KeyValue) : Text :=
  match kv.key with
  | some key => key ++ ' ' :: '=' :: ' ' :: kv.value
  | none => kv.value

def ConfigGroup.lines (group : ConfigGroup) : List Text :=
  group.comment.toList ++ (group.name.map fun name => '[' :: name ++ [']']).toList ++
    group.values.map KeyValue.print

/-- `config_to_data`. -/
def ConfigTree.toData (config : ConfigTree) : Text :=
  (config.groups.flatMap ConfigGroup.lines).flatMap fun line => line ++ ['\n']

end Wzdftpd
