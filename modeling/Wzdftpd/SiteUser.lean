import Wzdftpd.UserRecord

/- The SITE commands that administer users (wzd_site_user.c), on the tables of users
and groups that the plaintext backend keeps (libplaintext_main.c). A handler first
checks its line and the rights of the caller, and then changes the records that the
tables point to. The client thread has cut the blanks at the end of the line, so that
`str_tok` finds a token whenever something is left. An access through a null or a freed
pointer, or outside of an array, makes a handler return `none`. -/
namespace Wzdftpd

open CNumber

/-- An entry of the context list. `exitclient` ends the session; `cancelled` stands
for `pthread_cancel`. -/
structure Online where
  userid : Nat
  pid : Nat
  exitclient : Bool := false
  cancelled : Bool := false
  deriving DecidableEq

/-- What the commands read and write. `userCount` is the counter of the backend. -/
structure Site where
  users : Accounts
  groups : GroupTable
  userCount : Nat := 0
  online : List Online := []

/-- What the outside answers: the encryption of passwords, the file system, the
comparison of addresses, what the stack holds behind a name that `strncpy` has left
without its end, and whether `backend_mod_user` takes a changed record, which stays
changed if it does not. -/
structure SiteWorld where
  changepass : Text → Text → Option Text
  isDir : Text → Bool
  ipCompare : Text → Text → Bool
  junk : Text := []
  commits : UserRecord → Bool := fun _ => true

structure Caller where
  userid : Nat
  pid : Nat

/-- A job that a command puts into the crontab. -/
inductive Job where
  | purgeAll
  deriving DecidableEq

/-- A reply: its code and the texts that are sent. -/
structure Reply where
  code : Nat
  lines : List String
  deriving DecidableEq

structure Done where
  replies : List Reply
  site : Site
  job : Option Job := none

def refuse (text : String) : Reply := ⟨501, [text]⟩

def accept (text : String) : Reply := ⟨200, [text]⟩

/-- `snprintf` into a buffer. -/
def printedTo (size : Nat) (parts : List Text) : String :=
  String.ofList (parts.flatten.take (size - 1))

/-- HARD_DEF_USER_MAX -/
def userCountMax : Nat := 640

namespace Site

/-- `GetUserByID` -/
def user (site : Site) (uid : Nat) : Option UserRecord := site.users.getById uid

/-- `GetUserByName` -/
def userNamed (site : Site) (name : Text) : Option UserRecord := site.users.named name

/-- `GetGroupByName` -/
def groupNamed (site : Site) (name : Text) : Option GroupEntry := site.groups.named name

/-- `GetGroupIDByName`, with `none` for -1. -/
def groupIdNamed (site : Site) (name : Text) : Option UInt32 :=
  (site.groupNamed name).map GroupEntry.gid

def put (site : Site) (user : UserRecord) : Site := { site with users := site.users.put user }

/-- The backend takes the record of an account as the table has it. -/
def commits (w : SiteWorld) (site : Site) (uid : Nat) : Bool := (site.user uid).all w.commits

/-- What is reported before the last reply if it does not. -/
def trouble (w : SiteWorld) (site : Site) (uid : Nat) (text : String) : List Reply :=
  if site.commits w uid then [] else [refuse text]

end Site

/-- The checks of a handler: the reply that refuses, or what they have found. -/
abbrev Check := Except Reply

def refuseIf (wrong : Bool) (reply : Reply) : Check Unit := if wrong then .error reply else .ok ()

def found {α : Type} (x : Option α) (reply : Reply) : Check α :=
  match x with
  | some a => .ok a
  | none => .error reply

/-- `str_tok` with the delimiters of words: the word and the rest of the line. -/
def word (line : Text) (usage : Reply) : Check (Text × Text) :=
  match strtok blanks line with
  | (some token, rest) => .ok (token, rest)
  | (none, _) => .error usage

/-- The tokens of a line that a loop of `str_tok` reads. Each takes something of the
line, so that its length bounds their number. -/
def tokensOf (delims : Text) : Nat → Text → List Text
  | 0, _ => []
  | fuel + 1, line =>
    match strtok delims line with
    | (some token, rest) => token :: tokensOf delims fuel rest
    | (none, _) => []

def allTokens (delims line : Text) : List Text := tokensOf delims line.length line

/-- A number that starts with a digit and takes the whole text. -/
def numberArg (text : Text) : Option Nat :=
  match text with
  | [] => none
  | c :: _ =>
    if '0' ≤ c ∧ c ≤ '9' ∧ (strtoul text).2 = [] then some (strtoul text).1
    else none

/-- The frame of a handler: the record of the caller, the checks, and the change. -/
def serve {α : Type} (site : Site) (caller : Caller) (check : UserRecord → Check α)
    (perform : UserRecord → α → Option Done) : Option Done :=
  (site.user caller.userid).bind fun me =>
    match check me with
    | .error reply => some ⟨[reply], site, none⟩
    | .ok plan => perform me plan

def adduserUsage : Reply := refuse "site adduser <user> <password> <group> [<ip1> <ip2> <...>]"

/-- `user_create`. The ratio of the group is not taken over. -/
def userCreate (site : Site) (username pass groupname : Text) : Check UserRecord := do
  refuseIf (username = [] ∨ username.length ≥ hardUsernameLength)
    (refuse "Invalid name or parameter")
  refuseIf (site.userNamed username).isSome (refuse "A user already exists with this name")
  let group ← found (site.groupNamed groupname) (refuse "Error while adding user")
  return {
    userperms := group.groupperms
    username := username.take (hardUsernameLength - 1)
    userpass := pass.take (maxPassLength - 1)
    rootpath := group.defaultpath.take (maxPath - 1)
    groups := ⟨if group.gid ≠ 0xffffffff then 1 else 0,
      (GroupArray.empty.cells.val.set 0 group.gid), by simp [GroupArray.empty]⟩ }

/-- `ip_add_check` for an address that is allowed. -/
def ipAddCheck (list : List IpEntry) (ip : Text) : List IpEntry :=
  if ip.length < 1 ∨ ip.length ≥ maxIpLength then list else list ++ [⟨ip, true⟩]

/-- The record that SITE ADDUSER hands to the backend. -/
def adduserRecord (site : Site) (line : Text) (me : UserRecord) : Check UserRecord := do
  let (username, line) ← word line adduserUsage
  let (password, line) ← word line adduserUsage
  let (groupname, line) ← word line adduserUsage
  let group ← found (site.groupNamed groupname) adduserUsage
  refuseIf (me.has 'G' ∧ (me.groups.num = 0 ∨ me.groups.first ≠ group.gid))
    (refuse "You are not allowed to add users to this group")
  refuseIf (me.has 'G' ∧ me.userSlots = 0) (refuse "No more slots available")
  let newuser ← userCreate site username password group.groupname
  return { newuser with ipList := (allTokens [' ', '\t'] line).foldl ipAddCheck newuser.ipList }

/-- The password that the backend stores; `%` is kept as it is. -/
def storedPass (w : SiteWorld) (username pass : Text) : Option Text :=
  if pass = ['%'] then some pass else w.changepass username pass

/-- `backend_mod_user` with _USER_CREATE: the new account, or `none` where the backend
refuses it. -/
def backendCreate (w : SiteWorld) (site : Site) (user : UserRecord) :
    Option (Option (UserRecord × Site)) :=
  if (site.userNamed user.name).isSome ∨ site.userCount ≥ userCountMax then some none
  else
    match storedPass w user.name user.userpass with
    | none => some none
    | some hash =>
      (site.users.create fun id => { user with userpass := hash, uid := UInt32.ofNat id }).map
        fun (user, users) =>
          some (user, { site with users := users, userCount := site.userCount + 1 })

/-- `do_site_adduser`. A group admin pays with a slot. If the new account has taken
the place of the admin's own record, the second commit frees what is registered. -/
def doSiteAdduser (w : SiteWorld) (caller : Caller) (line : Text) (site : Site) : Option Done :=
  serve site caller (adduserRecord site line) fun me record =>
    (backendCreate w site record).bind fun
      | none => some ⟨[refuse "Problem adding user"], site, none⟩
      | some (newuser, site) =>
        if ¬me.has 'G' then some ⟨[accept "User added"], site, none⟩
        else if newuser.id = caller.userid then none
        else
          let site := site.put { newuser with creator := me.uid }
          (site.user caller.userid).map fun me =>
            let site := site.put { me with userSlots := me.userSlots - 1 }
            ⟨site.trouble w newuser.id "Problem setting creator of new user" ++
              site.trouble w caller.userid "Problem decrementing your user_slots - lucky you!" ++
              [accept "User added"], site, none⟩

def deluserUsage : Reply := refuse "site deluser <user>"

/-- The account that SITE DELUSER marks. -/
def deluserTarget (site : Site) (line : Text) (me : UserRecord) : Check UserRecord := do
  let (username, _) ← word line deluserUsage
  let user ← found (site.userNamed username) (refuse "User does not exist")
  refuseIf (me.has 'G' ∧ ¬me.sameGroup user) (refuse "You can't delete this user")
  refuseIf (user.has 'D') (refuse "User already marked as deleted")
  refuseIf (user.flags.length + 1 ≥ maxFlagsNum) (refuse "Too many flags for user")
  return user

/-- The creator whose slot SITE DELUSER gives back: its first group is compared, in use
or not. -/
def refundTo (site : Site) (user : UserRecord) : Option UserRecord :=
  (site.user user.creator.toNat).filter fun creator => creator.groups.first = user.groups.first

/-- `do_site_deluser` -/
def doSiteDeluser (w : SiteWorld) (caller : Caller) (line : Text) (site : Site) : Option Done :=
  serve site caller (deluserTarget site line) fun _ user =>
    let user := { user with flags := user.flags ++ ['D'] }
    let site := site.put user
    if ¬w.commits user then some ⟨[refuse "Problem deleting user"], site, none⟩
    else
      match refundTo site user with
      | none => some ⟨[accept "User deleted"], site, none⟩
      | some creator =>
        let site := site.put { user with creator := 0xffffffff }
        (site.user creator.id).map fun creator =>
          let site := site.put { creator with userSlots := creator.userSlots + 1 }
          ⟨site.trouble w creator.id "Problem returning user_slot to creator" ++
            site.trouble w user.id "Problem resetting creator on deleted user" ++
            [accept "User deleted"], site, none⟩

def readduserUsage : Reply := refuse "site readduser <user>"

def readduserTarget (site : Site) (line : Text) (me : UserRecord) : Check UserRecord := do
  let (username, _) ← word line readduserUsage
  let user ← found (site.userNamed username) (refuse "User does not exist")
  refuseIf (me.has 'G' ∧ ¬me.sameGroup user) (refuse "You can't change this user")
  refuseIf (me.has 'G' ∧ me.userSlots = 0) (refuse "No more slots available")
  refuseIf (¬user.has 'D') (refuse "User is not marked as deleted")
  return user

/-- `do_site_readduser`. The first mark is taken out of the flags. -/
def doSiteReadduser (w : SiteWorld) (caller : Caller) (line : Text) (site : Site) : Option Done :=
  serve site caller (readduserTarget site line) fun me user =>
    let user := { user with flags := user.flags.erase 'D' }
    if ¬w.commits user then some ⟨[refuse "Problem readding user"], site.put user, none⟩
    else if me.has 'G' then
      let site := site.put { user with creator := me.uid }
      (site.user caller.userid).map fun me =>
        let site := site.put { me with userSlots := me.userSlots - 1 }
        ⟨site.trouble w user.id "Problem setting creator of target user" ++
          site.trouble w caller.userid "Problem decrementing your user_slots - lucky you!" ++
          [accept "User undeleted"], site, none⟩
    else some ⟨[accept "User undeleted"], site.put user, none⟩

/-- `kill_child_signal`: the first session with this thread is cancelled, unless it is
the own one. -/
def killChildSignal (own : Option Nat) (online : List Online) (pid : Nat) : List Online :=
  if own = some pid then online
  else
    online.modify (online.findIdx (·.pid = pid)) fun session => { session with cancelled := true }

/-- `kill_child_new`: as before, by a mark that the session looks at. -/
def killChildNew (own : Nat) (online : List Online) (pid : Nat) : Int × List Online :=
  if own = pid then (1, online)
  else (0, online.modify (online.findIdx (·.pid = pid)) fun session =>
    { session with exitclient := true })

def killSessions (own : Option Nat) (online : List Online) (who : Online → Bool) : List Online :=
  online.foldl
    (fun list session => if who session then killChildSignal own list session.pid else list) online

def purgeTarget (site : Site) (caller : Caller) (username : Text) (me : UserRecord) :
    Check UserRecord := do
  let user ← found (site.userNamed username) (refuse "User does not exist")
  refuseIf (¬user.has 'D') (refuse "User is not marked as deleted")
  refuseIf (user.id = caller.userid) (refuse <| "Can't purge myself while logged. " ++
    "Use another user or try site purge without argument")
  refuseIf (me.has 'G' ∧ ¬me.sameGroup user)
    (refuse "You can't purge this user (GAdmin limits)")
  return user

/-- `do_site_purgeuser`. Without a name all deleted users are purged later. -/
def doSitePurgeuser (caller : Caller) (line : Text) (site : Site) : Option Done :=
  match strtok blanks line with
  | (some username, _) =>
    serve site caller (purgeTarget site caller username) fun _ user =>
      some ⟨[accept "User purged"],
        { site with
          users := site.users.remove user.id
          online := killSessions (some caller.pid) site.online fun session =>
            session.userid = user.id }, none⟩
  | (none, _) =>
    (site.user caller.userid).map fun _ =>
      ⟨[accept "All deleted users will be purged"], site, some .purgeAll⟩

/-- The second step of `_kick_and_purge`, over the list of ids up to its end. -/
def purgeDeleted (users : Accounts) : List (Option Nat) → Accounts
  | some uid :: uids =>
    if uid = invalidUser then users
    else if (users.getById uid).any fun user => user.has 'D' then
      purgeDeleted (users.remove uid) uids
    else purgeDeleted users uids
  | _ => users

/-- `_kick_and_purge` -/
def kickAndPurge (site : Site) : Site :=
  { site with
    users := purgeDeleted site.users (site.users.registry.getList.getD [])
    online := killSessions none site.online fun session =>
      (site.user session.userid).any fun user => user.has 'D' }

def Job.run (site : Site) : Job → Site
  | .purgeAll => kickAndPurge site

/-- `ip_inlist`. An empty entry ends the search. -/
def ipInlist (w : SiteWorld) (ip : Text) : List IpEntry → Bool
  | [] => false
  | entry :: list =>
    if entry.regexp = [] then false else w.ipCompare ip entry.regexp || ipInlist w ip list

/-- `ip_remove` -/
def ipRemove (list : List IpEntry) (ip : Text) : Option (List IpEntry) :=
  if list.any (·.regexp = ip) then some (list.eraseP (·.regexp = ip)) else none

def addipUsage : Reply := refuse "site addip <user> <ip1> [<ip2> ...]"

def addipTarget (site : Site) (line : Text) (me : UserRecord) :
    Check (UserRecord × List Text) := do
  let (username, line) ← word line addipUsage
  let user ← found (site.userNamed username) (refuse "User does not exist")
  let (ip, line) ← word line addipUsage
  refuseIf (me.has 'G' ∧ ¬me.sameGroup user) (refuse "You can't change this user")
  return (user, ip :: allTokens blanks line)

/-- The loop of SITE ADDIP: the reply and the list it leaves. -/
def addIps (w : SiteWorld) : List Text → List IpEntry → Reply × List IpEntry
  | [], list => (accept "User IP address(es) added", list)
  | ip :: ips, list =>
    if ipInlist w ip list then (refuse "IP address is already included in list", list)
    else addIps w ips (ipAddCheck list ip)

/-- `do_site_addip` -/
def doSiteAddip (w : SiteWorld) (caller : Caller) (line : Text) (site : Site) : Option Done :=
  serve site caller (addipTarget site line) fun _ (user, ips) =>
    let (reply, list) := addIps w ips user.ipList
    some ⟨[reply], site.put { user with ipList := list }, none⟩

def delipUsage : Reply :=
  ⟨501, ["501-Usage: site delip <user> <ip1> [<ip2> ...]",
    "501  ip can be replaced by the slot_number (get it with site user <user>)"]⟩

def delipTarget (site : Site) (line : Text) (me : UserRecord) :
    Check (UserRecord × List Text) := do
  let (username, line) ← word line delipUsage
  let user ← found (site.userNamed username) (refuse "User does not exist")
  refuseIf (me.has 'G' ∧ ¬me.sameGroup user) (refuse "You can't change this user")
  let (ip, line) ← word line delipUsage
  return (user, ip :: allTokens blanks line)

/-- The loop of SITE DELIP. An argument that is a number counts the entries from 1. -/
def delIps : List Text → List IpEntry → Reply × List IpEntry
  | [], list => (accept "User IP address(es) removed", list)
  | ip :: ips, list =>
    let (slot, rest) := strtoul ip
    if rest = [] then
      match list[slot - 1]? with
      | none =>
        (refuse (printedTo 256 ["IP slot ".toList, Nat.toDigits 10 slot, " not found".toList]),
          list)
      | some entry => delIps ips (list.eraseP (·.regexp = entry.regexp))
    else
      match ipRemove list ip with
      | none => (refuse (printedTo 256 ["IP ".toList, ip, " not found".toList]), list)
      | some list => delIps ips list

/-- `do_site_delip` -/
def doSiteDelip (caller : Caller) (line : Text) (site : Site) : Option Done :=
  serve site caller (delipTarget site line) fun _ (user, ips) =>
    let (reply, list) := delIps ips user.ipList
    some ⟨[reply], site.put { user with ipList := list }, none⟩

/-- What SITE CHANGE does to a record. `nothing` is a number that could not be read. -/
inductive FieldEdit where
  | nothing
  | name (value : Text)
  | pass (value : Text)
  | homedir (value : Text)
  | creator (uid : UInt32)
  | tagline (value : Text)
  | group (gid : Option UInt32)
  | maxIdle (n : Nat)
  | perms (n : Nat)
  | flags (after : Text)
  | maxUl (n : Nat)
  | maxDl (n : Nat)
  | credits (n : Nat)
  | numLogins (n : Nat)
  | loginsPerIp (n : Nat)
  | ratio (n : Nat)
  | userSlots (n : Nat)
  | leechSlots (n : Nat)
  deriving DecidableEq

/-- The edit of a record in place. Numbers are cut to the width of their field. -/
def FieldEdit.apply (user : UserRecord) : FieldEdit → Option UserRecord
  | .nothing => some user
  | .name value => some { user with username := value.take hardUsernameLength }
  | .pass value => some { user with userpass := value.take maxPassLength }
  | .homedir value => some { user with rootpath := value.take maxPath }
  | .creator uid => some { user with creator := uid }
  | .tagline value => some { user with tagline := value.take (maxTaglineLength - 1) }
  | .group none => some user
  | .group (some gid) => (user.groups.toggle gid).map fun groups => { user with groups := groups }
  | .maxIdle n => some { user with maxIdleTime := UInt32.ofNat n }
  | .perms n => some { user with userperms := UInt64.ofNat n }
  | .flags after => some { user with flags := after }
  | .maxUl n => some { user with maxUlSpeed := UInt32.ofNat n }
  | .maxDl n => some { user with maxDlSpeed := UInt32.ofNat n }
  | .credits n => some { user with credits := UInt64.ofNat n }
  | .numLogins n => some { user with numLogins := UInt16.ofNat n }
  | .loginsPerIp n => some { user with loginsPerIp := UInt16.ofNat n }
  | .ratio n => some { user with ratio := UInt32.ofNat n }
  | .userSlots n => some { user with userSlots := UInt16.ofNat n }
  | .leechSlots n => some { user with leechSlots := UInt16.ofNat n }

/-- `backend_mod_user` on the record itself: only a password is still encrypted. -/
def FieldEdit.commit (w : SiteWorld) (user : UserRecord) : FieldEdit → Bool × UserRecord
  | .pass _ =>
    match storedPass w user.name user.userpass with
    | some hash => (true, { user with userpass := hash })
    | none => (false, user)
  | _ => (w.commits user, user)

def changeUsage : Reply :=
  ⟨501, ["501-site change <user> <field> <value>", "field can be one of:",
    " name          changes the user login name", " pass          changes user password",
    " homedir       changes user chroot's dir", " tagline       changes user tagline",
    " group         add/remove user from group", " max_idle      changes idle time",
    " perms         changes default user permissions", " flags         changes user flags",
    " max_ul        changes maximum upload speed", " max_dl        changes maximum download speed",
    " credits       changes user credits", " ratio         changes user ratio",
    " num_logins    changes maximum simultaneous logins allowed (0=unlimited)",
    " logins_per_ip changes maximum logins per ip (0=unlimited)",
    " user_slots    changes allowed user slots (for GAdmins)",
    " leech_slots   changes allowed leech slots (for GAdmins)", "501 site change aborted"]⟩

/-- The reply to an error of `user_flags_change` in SITE CHANGE. -/
def flagsRefusal (code : Int) : Reply :=
  refuse <|
    if code = -1 then "Invalid syntax or argument values"
    else if code = -2 then "Error adding flags to user"
    else if code = -3 then "Error removing flags from user"
    else if code = -4 then "Critical error replacing flags. All flags lost!"
    else "GADMIN and SITEOP flags cannot be used together"

/-- A field that holds a number, as `strtoul` reads it from the whole value. -/
def numberEdit (value : Text) (edit : Nat → FieldEdit) : FieldEdit :=
  if (strtoul value).2 = [] then edit (strtoul value).1 else .nothing

def gadminField (me : UserRecord) : Check Unit :=
  refuseIf (me.has 'G') (refuse "You can't change that field")

/-- The slots of a user who has to be a group admin. -/
def slotsEdit (me user : UserRecord) (value : Text) (edit : Nat → FieldEdit) :
    Check FieldEdit := do
  gadminField me
  refuseIf (¬user.has 'G') (refuse "User is not a gadmin")
  return numberEdit value edit

/-- A limit that a group admin may only lower. -/
def limitEdit (me : UserRecord) (current : UInt16) (value : Text) (edit : Nat → FieldEdit) :
    Check FieldEdit := do
  refuseIf ((strtoul value).2 = [] ∧ me.has 'G' ∧
    current < UInt16.ofNat (strtoul value).1) (refuse "You cannot increase this field")
  return numberEdit value edit

/-- The chain of comparisons of `do_site_change`. -/
def fieldEdit (w : SiteWorld) (site : Site) (me user : UserRecord) (field value : Text) :
    Check FieldEdit :=
  if field = "name".toList then .ok (.name value)
  else if field = "pass".toList then .ok (.pass value)
  else if field = "homedir".toList then do
    refuseIf (¬w.isDir value) (refuse "Homedir does not exist")
    return .homedir value
  else if field = "creator".toList then do
    gadminField me
    let creator ← found (site.userNamed value) (refuse "Could not find the creator specified")
    return .creator creator.uid
  else if field = "tagline".toList then .ok (.tagline value)
  else if field = "group".toList then do
    gadminField me
    return .group (site.groupIdNamed value)
  else if field = "max_idle".toList then .ok (numberEdit value .maxIdle)
  else if field = "perms".toList then .ok (numberEdit value .perms)
  else if field = "flags".toList then do
    gadminField me
    let (code, after) := userFlagsChange user.flags value
    refuseIf (code < 0) (flagsRefusal code)
    return .flags after
  else if field = "max_ul".toList then .ok (numberEdit value .maxUl)
  else if field = "max_dl".toList then .ok (numberEdit value .maxDl)
  else if field = "credits".toList then do
    let n ← found (numberArg value) changeUsage
    return .credits n
  else if field = "num_logins".toList then limitEdit me user.numLogins value .numLogins
  else if field = "logins_per_ip".toList then limitEdit me user.loginsPerIp value .loginsPerIp
  else if field = "ratio".toList then do
    refuseIf ((strtoul value).2 = [] ∧ me.has 'G' ∧ (strtoul value).1 = 0 ∧
      me.leechSlots = 0) (refuse "No more leech slots available")
    return numberEdit value .ratio
  else if field = "user_slots".toList then slotsEdit me user value .userSlots
  else if field = "leech_slots".toList then slotsEdit me user value .leechSlots
  else .error (refuse "Field does not exist")

/-- `strncpy` of an argument into `old_username`. -/
def oldUsername (w : SiteWorld) (username : Text) : Text :=
  if username.length < hardUsernameLength then username
  else username.take hardUsernameLength ++ w.junk

/-- The record that SITE CHANGE edits, and the edit. -/
def changePlan (w : SiteWorld) (site : Site) (line : Text) (me : UserRecord) :
    Check (UserRecord × FieldEdit) := do
  let (username, line) ← word line changeUsage
  let user ← found (site.userNamed (oldUsername w username)) (refuse "User does not exist")
  let (field, line) ← word line changeUsage
  let value ← found (strtok ['\r', '\n'] line).1 changeUsage
  refuseIf (me.has 'G' ∧ ¬me.sameGroup user) (refuse "You can't change this user")
  let edit ← fieldEdit w site me user field value
  return (user, edit)

/-- What a group admin's change of a ratio does to the leech slots. -/
def adjustLeech (oldratio ratio : UInt32) (slots : UInt16) : UInt16 :=
  let slots := if ratio = 0 then slots - 1 else slots
  if oldratio = 0 ∧ ratio ≠ 0 then slots + 1 else slots

/-- The slots are kept in the record of the caller, which may be the one that was
changed. -/
def Site.payLeech (site : Site) (caller : Caller) (oldratio ratio : UInt32) : Option Site :=
  (site.user caller.userid).map fun me =>
    site.put { me with leechSlots := adjustLeech oldratio ratio me.leechSlots }

def changeReply (user : UserRecord) : Reply :=
  if user.has 'G' ∧ user.has 'O' then
    accept <| "Change okay - You have set flags G and O, THIS IS NOT WHAT YOU WANT - " ++
      "repeat: THIS IS STUPID !!"
  else accept "User field change successful"

/-- `do_site_change` -/
def doSiteChange (w : SiteWorld) (caller : Caller) (line : Text) (site : Site) : Option Done :=
  serve site caller (changePlan w site line) fun me (user, edit) =>
    (edit.apply user).bind fun changed =>
      let (ok, stored) := edit.commit w changed
      let site := site.put stored
      match edit with
      | .ratio _ =>
        if me.has 'G' ∧ ok then
          (site.payLeech caller user.ratio stored.ratio).map fun site =>
            ⟨[changeReply stored], site, none⟩
        else some ⟨[changeReply stored], site, none⟩
      | _ => some ⟨[changeReply stored], site, none⟩

def changegrpUsage : Reply :=
  ⟨501, ["501-site changegrp <user> <group1> [<group2> ...]",
    " Add user to group, or remove it if already in group", "501 site changegrp aborted"]⟩

def changegrpTarget (site : Site) (line : Text) : Check (UserRecord × List Text) := do
  let (username, line) ← word line changegrpUsage
  let user ← found (site.userNamed username) (refuse "User does not exist")
  let (group, line) ← word line changegrpUsage
  return (user, group :: allTokens blanks line)

/-- The reply at the end of SITE CHANGEGRP, or at the first group that is none. -/
def changegrpReply (site : Site) (groups : List Text) : Reply :=
  match groups.find? fun name => (site.groupIdNamed name).isNone with
  | some name => refuse (printedTo 1023 ["Group ".toList, name, " is invalid".toList])
  | none => accept "User field change successful"

/-- `do_site_changegrp`. The caller is not looked at. -/
def doSiteChangegrp (line : Text) (site : Site) : Option Done :=
  match changegrpTarget site line with
  | .error reply => some ⟨[reply], site, none⟩
  | .ok (user, groups) =>
    (user.groups.toggleAll (groups.map site.groupIdNamed)).map fun after =>
      ⟨[changegrpReply site groups], site.put { user with groups := after }, none⟩

def chratioUsage : Reply := refuse "site chratio <user> <ratio>"

def chratioPlan (site : Site) (line : Text) (me : UserRecord) : Check (UserRecord × UInt32) := do
  let (username, line) ← word line chratioUsage
  let (number, _) ← word line chratioUsage
  let user ← found (site.userNamed username) (refuse "User does not exist")
  let n ← found (numberArg number) chratioUsage
  let ratio := UInt32.ofNat n
  refuseIf (me.has 'G' ∧ ¬me.sameGroup user)
    (refuse "You are not allowed to change users from this group")
  return (user, ratio)

/-- `do_site_chratio`. After the reply "No more slots available" the argument is freed a
second time. -/
def doSiteChratio (w : SiteWorld) (caller : Caller) (line : Text) (site : Site) : Option Done :=
  serve site caller (chratioPlan site line) fun me (user, ratio) =>
    if me.has 'G' ∧ ratio = 0 ∧ me.leechSlots = 0 then none
    else
      let site := site.put { user with ratio := ratio }
      if ¬w.commits { user with ratio := ratio } then
        some ⟨[refuse "Problem changing value"], site, none⟩
      else if me.has 'G' then
        (site.payLeech caller user.ratio ratio).map fun site =>
          ⟨[accept "User ratio changed"], site, none⟩
      else some ⟨[accept "User ratio changed"], site, none⟩

def flagsUsage : Reply :=
  ⟨501, ["501-site flags [<user>] [<flags>]",
    " If no arguments are supplied, view flags for your account.",
    " With optional <user> argument, view flags for specified user.",
    " With both <user> and <flags> arguments, change flags for specified user.",
    " <flags> can start with either + or - to give or take flags.",
    " Otherwise <flags> will replace any existing flags the user has.",
    " <flags> is a case sensitive alphanumeric string.", "501 site flags aborted"]⟩

/-- Who may see the flags of a user. -/
def viewFlags (me user : UserRecord) : Reply :=
  if me.has 'G' ∧ me.uid ≠ user.uid ∧ ¬me.sameGroup user then
    refuse "You can't view flags for users outside your group"
  else if ¬(me.has 'G' ∧ me.uid ≠ user.uid) ∧ ¬me.has 'O' ∧ me.uid ≠ user.uid then
    refuse "You can't view flags for other users"
  else accept (printedTo 1023 ["Flags for ".toList, user.username, ": ".toList, user.flags])

/-- `do_site_flags` after the account is found: a change is for site operators. An
error has its reply, and the flags that `user_flags_change` leaves. -/
def setFlags (w : SiteWorld) (me user : UserRecord) (newflags : Text) : Reply × UserRecord :=
  if ¬me.has 'O' then (refuse "You can't change flags assigned to other users", user)
  else
    let (code, after) := userFlagsChange user.flags newflags
    let user := { user with flags := after }
    if code = -1 then (flagsUsage, user)
    else if code < 0 then (flagsRefusal code, user)
    else if w.commits user then (accept "Flags changed", user)
    else (refuse "Flags changed, but changes could not be committed to the backend", user)

/-- The account that SITE FLAGS is about; without an argument it is the own one. -/
def flagsName (site : Site) (caller : Caller) (username : Option Text) : Option Text :=
  match username with
  | some username => some username
  | none => (site.user caller.userid).map UserRecord.name

/-- `do_site_flags` -/
def doSiteFlags (w : SiteWorld) (caller : Caller) (line : Text) (site : Site) : Option Done :=
  let (username, line) := strtok blanks line
  (flagsName site caller username).bind fun name =>
    match site.userNamed name with
    | none => some ⟨[refuse "User does not exist"], site, none⟩
    | some user =>
      (site.user caller.userid).map fun me =>
        match (strtok blanks line).1 with
        | none => ⟨[viewFlags me user], site, none⟩
        | some newflags =>
          let (reply, user) := setFlags w me user newflags
          ⟨[reply], site.put user, none⟩

def kickTarget (site : Site) (line : Text) : Check UserRecord := do
  let (username, _) ← word line (refuse "Usage: site kick <user>")
  found (site.userNamed username) (refuse "User does not exist")

def kickAllowed (me user : UserRecord) : Check Unit := do
  refuseIf (¬me.has 'O' ∧ ¬me.has 'G') (refuse "You are not authorized to use this command")
  refuseIf (me.has 'G' ∧ ¬me.sameGroup user)
    (refuse "You can only kick users within your own group")

/-- A turn of the loop of SITE KICK, which reports after every session. -/
def kickTurn (caller : Caller) (user : UserRecord) :
    List Online × Nat × List Reply → Online → List Online × Nat × List Reply
  | (online, count, replies), session =>
    let (killed, online) :=
      if session.userid = user.id then killChildNew caller.pid online session.pid else (1, online)
    let count := if killed = 0 then count + 1 else count
    let reply :=
      if count = 0 then
        refuse (if user.id ≠ caller.userid then "User has no connections to server"
          else "Can not commit suicide")
      else accept (printedTo 1023 ["User's ".toList, Nat.toDigits 10 count,
        " connections to server have been killed".toList])
    (online, count, replies ++ [reply])

/-- `do_site_kick` -/
def doSiteKick (caller : Caller) (line : Text) (site : Site) : Option Done :=
  match kickTarget site line with
  | .error reply => some ⟨[reply], site, none⟩
  | .ok user =>
    (site.user caller.userid).map fun me =>
      match kickAllowed me user with
      | .error reply => ⟨[reply], site, none⟩
      | .ok _ =>
        let (online, _, replies) :=
          site.online.foldl (kickTurn caller user) (site.online, 0, [])
        ⟨replies, { site with online := online }, none⟩

def giveUsage : Reply := refuse "site give <user> <kbytes>"

/-- The account that receives, the amount, and whether it is for free: site operators
give what they do not have, and group admins in their group. -/
structure Gift where
  user : UserRecord
  bytes : UInt64
  free : Bool

def givePlan (site : Site) (line : Text) (me : UserRecord) : Check Gift := do
  let (username, line) ← word line giveUsage
  let (amount, _) ← word line giveUsage
  let user ← found (site.userNamed username) (refuse "User does not exist")
  let n ← found (numberArg amount) giveUsage
  let bytes := UInt64.ofNat n
  let free := me.has 'O' || me.has 'G' && me.sameGroup user
  refuseIf (!free && me.ratio = 0) (refuse "Users without a ratio cannot give credits")
  refuseIf (!free && me.credits < bytes) (refuse "You don't have enough credits")
  refuseIf (user.ratio = 0) (refuse "Users without a ratio cannot receive credits")
  return ⟨user, bytes, free⟩

/-- ULLONG_MAX as a value of its type. -/
def ullong : UInt64 := 0xffffffffffffffff

/-- What the account can still take of an amount. -/
def clipped (credits bytes : UInt64) : UInt64 :=
  if ullong - bytes ≤ credits then ullong - credits else bytes

/-- The credits after a gift, which end at the largest value. -/
def toppedUp (credits bytes : UInt64) : UInt64 :=
  if ullong - bytes ≤ credits then ullong else credits + bytes

/-- The reply of a command on credits, once the account has changed. -/
def creditsReply (w : SiteWorld) (site : Site) (uid : Nat) (text : String) : Reply :=
  if site.commits w uid then accept text else refuse "Problem changing value"

/-- `do_site_give`. The answer of the backend for the record of the caller is not looked
at. -/
def doSiteGive (w : SiteWorld) (caller : Caller) (line : Text) (site : Site) : Option Done :=
  serve site caller (givePlan site line) fun _ gift =>
    let user := gift.user
    let site := site.put { user with credits := toppedUp user.credits gift.bytes }
    if gift.free then some ⟨[creditsReply w site user.id "Credits given"], site, none⟩
    else
      (site.user caller.userid).map fun me =>
        let site := site.put { me with credits := me.credits - clipped user.credits gift.bytes }
        ⟨[creditsReply w site user.id "Credits given"], site, none⟩

def takeUsage : Reply := refuse "site take <user> <kbytes>"

def takePlan (site : Site) (line : Text) (me : UserRecord) : Check (UserRecord × UInt64) := do
  refuseIf (¬me.has 'G' ∨ ¬me.has 'O') (refuse "You are not authorized to use this command")
  let (username, line) ← word line takeUsage
  let (amount, _) ← word line takeUsage
  let user ← found (site.userNamed username) (refuse "User does not exist")
  let n ← found (numberArg amount) takeUsage
  refuseIf (me.has 'G' ∧ ¬me.sameGroup user)
    (refuse "You are not allowed to change users from this group")
  refuseIf (user.ratio = 0) (refuse "User has unlimited credits!")
  return (user, UInt64.ofNat n)

/-- `do_site_take` -/
def doSiteTake (w : SiteWorld) (caller : Caller) (line : Text) (site : Site) : Option Done :=
  serve site caller (takePlan site line) fun _ (user, bytes) =>
    let site := site.put { user with
      credits := if user.credits > bytes then user.credits - bytes else 0 }
    some ⟨[creditsReply w site user.id "Credits removed"], site, none⟩

inductive SiteCommand where
  | adduser (line : Text)
  | deluser (line : Text)
  | readduser (line : Text)
  | purge (line : Text)
  | addip (line : Text)
  | delip (line : Text)
  | change (line : Text)
  | changegrp (line : Text)
  | chratio (line : Text)
  | flags (line : Text)
  | kick (line : Text)
  | give (line : Text)
  | take (line : Text)
  deriving DecidableEq

def SiteCommand.run (w : SiteWorld) (caller : Caller) (site : Site) : SiteCommand → Option Done
  | .adduser line => doSiteAdduser w caller line site
  | .deluser line => doSiteDeluser w caller line site
  | .readduser line => doSiteReadduser w caller line site
  | .purge line => doSitePurgeuser caller line site
  | .addip line => doSiteAddip w caller line site
  | .delip line => doSiteDelip caller line site
  | .change line => doSiteChange w caller line site
  | .changegrp line => doSiteChangegrp line site
  | .chratio line => doSiteChratio w caller line site
  | .flags line => doSiteFlags w caller line site
  | .kick line => doSiteKick caller line site
  | .give line => doSiteGive w caller line site
  | .take line => doSiteTake w caller line site

end Wzdftpd
