import Wzdftpd.FirstMatch
import Wzdftpd.PermFile

/- Command permissions (wzd_perm.c): a line of the configuration becomes a list of
entries, and the entries are tried in order on the user that gives a command. The
line is parsed in a copy that the tokenizer writes into; a read behind the copy, a
name without its end and a null pointer make a function return `none`. -/
namespace Wzdftpd

/-- `strcasecmp(s, t) == 0` -/
def sameLetters (s t : Text) : Bool := s.map Char.toLower = t.map Char.toLower

/-- wzd_cp_t -/
inductive CpKind where
  | user | group | flag
  deriving DecidableEq, Repr

/-- wzd_command_perm_entry_t -/
structure CommandEntry where
  target : Text
  cp : CpKind
  deriving DecidableEq, Repr

/-- wzd_command_perm_t -/
structure CommandPerm where
  commandName : Text
  entryList : List CommandEntry
  deriving DecidableEq, Repr

/-- `perm_find_create`: the list of permissions, in which a new one is the last. -/
def permFindCreate (commandname : Text) (perms : List CommandPerm) :
    Option (List CommandPerm) :=
  if perms.any fun perm => perm.commandName = commandname then some perms
  else (field commandname).map fun name => perms ++ [⟨name, []⟩]

/-- What `perm_find_create_entry` takes for the same entry. -/
def sameEntry (entry other : CommandEntry) : Bool :=
  sameLetters entry.target other.target ∧ entry.cp = other.cp

/-- `perm_find_create_entry`: the entries, in which a new one is the last. -/
def permFindCreateEntry (target : Text) (cp : CpKind) (entries : List CommandEntry) :
    Option (List CommandEntry) :=
  if entries.any (sameEntry · ⟨target, cp⟩) then some entries
  else (field target).map fun target => entries ++ [⟨target, cp⟩]

/-- `strtok_r` in a buffer: where the token starts, the buffer with its end, and the saved
position. -/
def strtokAt (delims buffer : Text) (saved : Nat) : Option (Option Nat × Text × Nat) :=
  let start := saved + ((buffer.drop saved).takeWhile (· ∈ delims)).length
  match buffer.drop start with
  | [] => none
  | c :: _ =>
    if c = '\x00' then some (none, buffer, start)
    else
      let stop := start +
        ((buffer.drop start).takeWhile fun c => c ∉ delims ∧ c ≠ '\x00').length
      match buffer.drop stop with
      | [] => none
      | c :: _ =>
        if c = '\x00' then some (some start, buffer, stop)
        else some (some start, buffer.set stop '\x00', stop + 1)

/-- The entry type that a character of a token stands for. -/
def entryType (c : Char) : Option CpKind :=
  if c = '=' then some .user
  else if c = '-' then some .group
  else if c = '+' then some .flag
  else if c = '*' then some .user
  else none

/-- The start of the loop in `perm_add_perm`: the buffer, the type and the place of the target.
At a character without a meaning the loop goes on with the next one, which need not belong to
the token. -/
def scanToken (buffer : Text) : Nat → Nat → Option (Text × CpKind × Nat)
  | 0, _ => none
  | fuel + 1, token =>
    match buffer.drop token with
    | [] => none
    | c :: rest =>
      if c = '!' then
        match rest with
        | [] => none
        | c :: _ =>
          match entryType c with
          | none => scanToken buffer fuel (token + 2)
          | some cp =>
            -- the sign is written in front of the name, over the type
            let target := if c = '*' then token else token + 1
            some (buffer.set target '!', cp, target)
      else
        match entryType c with
        | none => scanToken buffer fuel (token + 1)
        | some cp => some (buffer, cp, if c = '*' then token else token + 1)

/-- The loop in `perm_add_perm`, from a saved position of the tokenizer. -/
def addTokens : Nat → Text → Nat → List CommandEntry → Option (List CommandEntry)
  | 0, _, _, _ => none
  | fuel + 1, buffer, saved, entries =>
    match strtokAt blanks buffer saved with
    | none => none
    | some (none, _, _) => some entries
    | some (some token, buffer, saved) =>
      match scanToken buffer buffer.length token with
      | none => none
      | some (buffer, cp, target) =>
        (permFindCreateEntry (bufferText (buffer.drop target)) cp entries).bind
          (addTokens fuel buffer saved)

/-- `perm_add_perm`. Every token takes a character, so that the fuel is enough. -/
def permAddPerm (permname permline : Text) (perms : List CommandPerm) :
    Option (Int × List CommandPerm) :=
  if permname = [] ∨ permline = [] ∨ bufferLen ≤ permline.length then some (1, perms)
  else
    match permFindCreate permname perms with
    | none => none
    | some perms =>
      let known := (NamedList.lookup CommandPerm.commandName permname perms).map (·.entryList)
      (addTokens (permline.length + 1) (permline ++ ['\x00']) 0 (known.getD [])).map
        fun entries => (0, NamedList.modify CommandPerm.commandName permname
          (fun perm => { perm with entryList := entries }) perms)

section

variable (getGroupByID : Nat → Option Group)

/-- The loop over the groups of the user in `perm_check_perm`. -/
def groupHit (name : Text) : List Nat → Option Bool
  | [] => some false
  | gid :: gids =>
    match getGroupByID gid with
    | none => none
    | some group => if sameLetters name group.groupname then some true else groupHit name gids

/-- The test of one entry in `perm_check_perm`, after the sign has been taken off. -/
def entryHit (user : Option User) (cp : CpKind) (target : Text) : Option Bool :=
  if target.head? = some '*' then some true
  else
    match user with
    | none => none
    | some user =>
      match cp with
      | .user => some (sameLetters target user.username)
      | .group => groupHit getGroupByID target user.groups
      -- `strchr` finds the end of the string too
      | .flag => some ((target.head?.map user.has).getD true)

/-- The sign of an entry and what follows it. -/
def splitSign (target : Text) : Bool × Text :=
  if target.head? = some '!' then (true, target.tail) else (false, target)

/-- The loop over the entries in `perm_check_perm`. -/
def checkEntries (user : Option User) : List CommandEntry → Option Int
  | [] => some 1
  | entry :: entries =>
    let (negate, target) := splitSign entry.target
    match entryHit getGroupByID user entry.cp target with
    | none => none
    | some true => some (if negate then 1 else 0)
    | some false => checkEntries user entries

/-- `perm_check_perm`, where `user` is the user of the context. -/
def permCheckPerm (perm : Option CommandPerm) (user : Option User) : Option Int :=
  match perm with
  | none => some (-1)
  | some perm => checkEntries getGroupByID user perm.entryList

end

end Wzdftpd
