import Wzdftpd.DirectiveText
import Wzdftpd.SiteUser

/- The users file of the plaintext backend (libplaintext_file.c). A record of a user or
a group is a line with its name, directives, and an empty line. A function returns
`none` where the source leaves an array, uses a null pointer, or looks at what an
earlier line has left in the buffer. -/
namespace Wzdftpd

open DirectiveText CNumber

/-- MAX_LINE -/
def maxLine : Nat := 1024

/-- HARD_DEF_USER_MAX -/
def hardDefUserMax : Nat := 640

/-- HARD_DEF_GROUP_MAX -/
def hardDefGroupMax : Nat := 640

/-- RIGHT_CWD, which every user gets. -/
def rightCwd : UInt64 := .ofNat (Right.mask .cwd)

/-- The directives of a user, in the order of `write_single_user`. -/
inductive UserKey where
  | pass | home | uid | creator | groups | rights | tagline | ipAllowed | maxUlSpeed
  | maxDlSpeed | credits | bytesUlTotal | bytesDlTotal | filesUlTotal | filesDlTotal | ratio
  | numLogins | loginsPerIp | maxIdleTime | flags | userSlots | leechSlots | lastLogin
  deriving DecidableEq

namespace UserKey

def text : UserKey → Text
  | .pass => "pass".toList
  | .home => "home".toList
  | .uid => "uid".toList
  | .creator => "creator".toList
  | .groups => "groups".toList
  | .rights => "rights".toList
  | .tagline => "tagline".toList
  | .ipAllowed => "ip_allowed".toList
  | .maxUlSpeed => "max_ul_speed".toList
  | .maxDlSpeed => "max_dl_speed".toList
  | .credits => "credits".toList
  | .bytesUlTotal => "bytes_ul_total".toList
  | .bytesDlTotal => "bytes_dl_total".toList
  | .filesUlTotal => "files_ul_total".toList
  | .filesDlTotal => "files_dl_total".toList
  | .ratio => "ratio".toList
  | .numLogins => "num_logins".toList
  | .loginsPerIp => "logins_per_ip".toList
  | .maxIdleTime => "max_idle_time".toList
  | .flags => "flags".toList
  | .userSlots => "user_slots".toList
  | .leechSlots => "leech_slots".toList
  | .lastLogin => "last_login".toList

def all : List UserKey :=
  [.pass, .home, .uid, .creator, .groups, .rights, .tagline, .ipAllowed, .maxUlSpeed, .maxDlSpeed,
    .credits, .bytesUlTotal, .bytesDlTotal, .filesUlTotal, .filesDlTotal, .ratio, .numLogins,
    .loginsPerIp, .maxIdleTime, .flags, .userSlots, .leechSlots, .lastLogin]

/-- The key that a name is compared equal to by `strcmp`. -/
def ofText (varname : Text) : Option UserKey := all.find? fun key => key.text = varname

end UserKey

/-- The directives of a group, in the order of `write_single_group`. -/
inductive GroupKey where
  | maxIdleTime | numLogins | maxUlSpeed | maxDlSpeed | rights | tagline | gid | ipAllowed
  | defaultHome | ratio | flags
  deriving DecidableEq

namespace GroupKey

def text : GroupKey → Text
  | .maxIdleTime => "max_idle_time".toList
  | .numLogins => "num_logins".toList
  | .maxUlSpeed => "max_ul_speed".toList
  | .maxDlSpeed => "max_dl_speed".toList
  | .rights => "rights".toList
  | .tagline => "tagline".toList
  | .gid => "gid".toList
  | .ipAllowed => "ip_allowed".toList
  | .defaultHome => "default_home".toList
  | .ratio => "ratio".toList
  | .flags => "flags".toList

def all : List GroupKey :=
  [.maxIdleTime, .numLogins, .maxUlSpeed, .maxDlSpeed, .rights, .tagline, .gid, .ipAllowed,
    .defaultHome, .ratio, .flags]

/-- The key of a name. Only `max_idle_time` is compared by `strcasecmp`. -/
def ofText (varname : Text) : Option GroupKey :=
  all.find? fun key =>
    key.text = varname ∨ key = .maxIdleTime ∧ key.text = varname.map Char.toLower

end GroupKey

/-- A number that takes the whole value and is not negative, by `strtol`. -/
def longArg (value : Text) : Option Nat :=
  let (num, rest) := strtol value
  if rest = value ∨ rest ≠ [] ∨ num < 0 then none else some num.toNat

/-- A number that takes the whole value, by `strtoul`. -/
def ulongArg (value : Text) : Option Nat :=
  let (num, rest) := strtoul value
  if rest = value ∨ rest ≠ [] then none else some num

/-- The directive `flags`: texts of another length are ignored. -/
def flagsArg (value : Text) : Option Text :=
  if value.length = 0 ∨ value.length ≥ maxFlagsNum then none else some value

/-- The directive `home`: a `/` at the end is removed. -/
def homeArg (value : Text) : Text :=
  (if value.getLast? = some '/' ∧ value ≠ ['/'] then value.dropLast else value).take (maxPath - 1)

/-- `user->groups[user->group_num++] = gid` -/
def GroupArray.push (a : GroupArray) (gid : UInt32) : Option GroupArray :=
  (SlotArray.write a.cells a.num gid).map fun cells => ⟨a.num + 1, cells⟩

def gidsNamed (groups : GroupTable) (names : List Text) : List UInt32 :=
  names.filterMap fun name => (groups.named name).map GroupEntry.gid

/-- What a directive of `read_single_user` sets, all but the groups. -/
def userEdit (key : UserKey) (value : Text) (user : UserRecord) : UserRecord :=
  match key with
  | .uid => (longArg value).elim user fun num => { user with uid := .ofNat num }
  | .home => { user with rootpath := homeArg value }
  | .pass => { user with userpass := value.take (maxPassLength - 1) }
  | .flags => (flagsArg value).elim user fun flags => { user with flags := flags }
  | .creator => (longArg value).elim user fun num => { user with creator := .ofNat num }
  | .rights => { user with userperms := .ofNat (strtoul value).1 ||| rightCwd }
  | .groups => user
  | .tagline => { user with tagline := value.take maxTaglineLength }
  | .maxUlSpeed => (longArg value).elim user fun num => { user with maxUlSpeed := .ofNat num }
  | .lastLogin => (longArg value).elim user fun num => { user with lastLogin := .ofNat num }
  | .maxDlSpeed => (longArg value).elim user fun num => { user with maxDlSpeed := .ofNat num }
  | .bytesUlTotal => (numberArg value).elim user fun num =>
    { user with stats := { user.stats with bytesUlTotal := .ofNat num } }
  | .bytesDlTotal => (numberArg value).elim user fun num =>
    { user with stats := { user.stats with bytesDlTotal := .ofNat num } }
  | .filesDlTotal => (ulongArg value).elim user fun num =>
    { user with stats := { user.stats with filesDlTotal := .ofNat num } }
  | .filesUlTotal => (ulongArg value).elim user fun num =>
    { user with stats := { user.stats with filesUlTotal := .ofNat num } }
  | .credits => (numberArg value).elim user fun num => { user with credits := .ofNat num }
  | .numLogins => (longArg value).elim user fun num => { user with numLogins := .ofNat num }
  | .loginsPerIp => (longArg value).elim user fun num => { user with loginsPerIp := .ofNat num }
  | .ratio => (longArg value).elim user fun num => { user with ratio := .ofNat num }
  | .userSlots => (ulongArg value).elim user fun num => { user with userSlots := .ofNat num }
  | .leechSlots => (ulongArg value).elim user fun num => { user with leechSlots := .ofNat num }
  | .maxIdleTime => (longArg value).elim user fun num => { user with maxIdleTime := .ofNat num }
  | .ipAllowed => { user with ipList := ipAddCheck user.ipList value }

/-- The directive `groups`: names that are not registered are left out. -/
def addGroups (groups : GroupTable) (value : Text) (user : UserRecord) : Option UserRecord :=
  ((gidsNamed groups (allTokens [','] value)).foldlM GroupArray.push user.groups).map
    fun after => { user with groups := after }

/-- The body of the loop of `read_single_user`. -/
def userDirective (groups : GroupTable) (varname value : Text) (user : UserRecord) :
    Option UserRecord :=
  match UserKey.ofText varname with
  | none => some user
  | some key =>
    if key = .groups then addGroups groups value user else some (userEdit key value user)

/-- `read_single_user`, where `free` is what `user_find_free_uid` returns. -/
def readSingleUser (groups : GroupTable) (free : Nat) (username file : Text) :
    Option (UserRecord × Text) :=
  readRecord (maxLine - 2) (userDirective groups)
    { uid := .ofNat free, username := username.take (hardUsernameLength - 1) } file

/-- The body of the loop of `read_single_group`. -/
def groupEdit (key : GroupKey) (value : Text) (group : GroupEntry) : GroupEntry :=
  match key with
  | .gid => (longArg value).elim group fun num => { group with gid := .ofNat num }
  | .maxIdleTime => (longArg value).elim group fun num => { group with maxIdleTime := .ofNat num }
  | .numLogins => (longArg value).elim group fun num => { group with numLogins := .ofNat num }
  | .ipAllowed => { group with ipList := ipAddCheck group.ipList value }
  | .defaultHome => { group with defaultpath := value.take maxPath }
  | .ratio => (longArg value).elim group fun num => { group with ratio := .ofNat num }
  | .rights => { group with groupperms := .ofNat (strtoul value).1 }
  | .flags => (flagsArg value).elim group fun flags => { group with flags := flags }
  | .maxDlSpeed => (longArg value).elim group fun num => { group with maxDlSpeed := .ofNat num }
  | .maxUlSpeed => (longArg value).elim group fun num => { group with maxUlSpeed := .ofNat num }
  | .tagline => { group with tagline := value.take maxTaglineLength }

def groupDirective (varname value : Text) (group : GroupEntry) : Option GroupEntry :=
  some ((GroupKey.ofText varname).elim group fun key => groupEdit key value group)

/-- `read_single_group`, where `free` is what `group_find_free_gid` returns. -/
def readSingleGroup (free : Nat) (groupname file : Text) : Option (GroupEntry × Text) :=
  readRecord (maxLine - 2) groupDirective
    { gid := .ofNat free, groupname := groupname.take (hardGroupnameLength - 1),
      groupperms := 0xffffffff } file

/-- A number that is written only if it is not 0. -/
def numberDirective {κ : Type} (key : κ) (n : Nat) : List (κ × Text) :=
  if n = 0 then [] else [(key, decimal n)]

/-- A text that is written only if it is not empty. -/
def textDirective {κ : Type} (key : κ) (text : Text) : List (κ × Text) :=
  if text = [] then [] else [(key, text)]

/-- A counter of slots, which `%hd` prints with a sign. -/
def slotsDirective (key : UserKey) (slots : UInt16) : List (UserKey × Text) :=
  if slots = 0 then [] else [(key, signedDecimal slots.toInt16.toInt)]

def ipDirectives {κ : Type} (key : κ) (list : List IpEntry) : List (κ × Text) :=
  list.map fun ip => (key, ip.regexp)

/-- The names of the groups in `write_single_user`. A group that is not registered has
no name. -/
def groupNames (groups : GroupTable) (gids : List UInt32) : List Text :=
  gids.map fun gid => (groups.getById gid.toNat).elim [] GroupEntry.groupname

def joinedNames (groups : GroupTable) (a : GroupArray) : Text :=
  [','].intercalate (groupNames groups a.members)

/-- The line of the groups, which are joined in a buffer of 4096 bytes. -/
def groupsDirective (groups : GroupTable) (a : GroupArray) : Option (List (UserKey × Text)) :=
  if a.num = 0 ∨ groups.getById a.first.toNat = none then some []
  else if a.num > maxGroupsPerUser ∨ (joinedNames groups a).length ≥ 4096 then none
  else some [(.groups, joinedNames groups a)]

/-- The directives of `write_single_user` in front of the groups. -/
def directivesBefore (user : UserRecord) : List (UserKey × Text) :=
  [(.pass, user.userpass.take maxPassLength), (.home, user.rootpath.take maxPath),
    (.uid, decimal user.uid.toNat), (.creator, decimal user.creator.toNat)]

def directivesAfter (user : UserRecord) : List (UserKey × Text) :=
  [(UserKey.rights, '0' :: 'x' :: hex user.userperms.toNat)] ++
  textDirective UserKey.tagline (user.tagline.take maxTaglineLength) ++
  ipDirectives UserKey.ipAllowed user.ipList ++
  numberDirective UserKey.maxUlSpeed user.maxUlSpeed.toNat ++
  numberDirective UserKey.maxDlSpeed user.maxDlSpeed.toNat ++
  [(UserKey.credits, decimal user.credits.toNat),
    (UserKey.bytesUlTotal, decimal user.stats.bytesUlTotal.toNat),
    (UserKey.bytesDlTotal, decimal user.stats.bytesDlTotal.toNat)] ++
  numberDirective UserKey.filesUlTotal user.stats.filesUlTotal.toNat ++
  numberDirective UserKey.filesDlTotal user.stats.filesDlTotal.toNat ++
  numberDirective UserKey.ratio user.ratio.toNat ++
  numberDirective UserKey.numLogins user.numLogins.toNat ++
  numberDirective UserKey.loginsPerIp user.loginsPerIp.toNat ++
  numberDirective UserKey.maxIdleTime user.maxIdleTime.toNat ++
  textDirective UserKey.flags (user.flags.take maxFlagsNum) ++
  slotsDirective UserKey.userSlots user.userSlots ++
  slotsDirective UserKey.leechSlots user.leechSlots ++
  if user.lastLogin = 0 then []
    else [(UserKey.lastLogin, signedDecimal user.lastLogin.toInt)]

def userDirectives (groups : GroupTable) (user : UserRecord) : Option (List (UserKey × Text)) :=
  (groupsDirective groups user.groups).map fun line =>
    directivesBefore user ++ line ++ directivesAfter user

/-- The lines of a list of directives and the empty line that ends the record. -/
def recordText {κ : Type} (keyText : κ → Text) (lines : List (κ × Text)) : Text :=
  lines.flatMap (fun line => directive (keyText line.1, line.2)) ++ ['\n']

/-- `write_single_user` -/
def writeSingleUser (groups : GroupTable) (user : UserRecord) : Option Text :=
  (userDirectives groups user).map fun lines =>
    directive ("name".toList, user.username.take hardUsernameLength) ++
      recordText UserKey.text lines

def groupDirectives (group : GroupEntry) : List (GroupKey × Text) :=
  numberDirective GroupKey.maxIdleTime group.maxIdleTime.toNat ++
  numberDirective GroupKey.numLogins group.numLogins.toNat ++
  numberDirective GroupKey.maxUlSpeed group.maxUlSpeed.toNat ++
  numberDirective GroupKey.maxDlSpeed group.maxDlSpeed.toNat ++
  [(GroupKey.rights, '0' :: 'x' :: hex group.groupperms.toNat)] ++
  textDirective GroupKey.tagline (group.tagline.take maxTaglineLength) ++
  [(GroupKey.gid, decimal group.gid.toNat)] ++
  ipDirectives GroupKey.ipAllowed group.ipList ++
  textDirective GroupKey.defaultHome (group.defaultpath.take maxPath) ++
  numberDirective GroupKey.ratio group.ratio.toNat ++
  textDirective GroupKey.flags (group.flags.take maxFlagsNum)

/-- `write_single_group` -/
def writeSingleGroup (group : GroupEntry) : Text :=
  "privgroup\t".toList ++ group.groupname.take hardGroupnameLength ++ ['\n'] ++
    recordText GroupKey.text (groupDirectives group)

end Wzdftpd
