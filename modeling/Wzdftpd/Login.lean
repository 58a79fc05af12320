import Wzdftpd.Tokens

/- The login: the user table (wzd_user.c), the checks that USER and PASS make and
the loop that reads the lines before the session starts (wzd_login.c). The backend
is the one that keeps its users in the table (libplaintext_main.c). -/
namespace Wzdftpd

/-- `(uid_t)-1` -/
def invalidUser : Nat := 2 ^ 32 - 1

/-- HARD_USERNAME_LENGTH -/
def hardUsernameLength : Nat := 256

/-- `_user_array`. A user is registered under the uid it carries, and a name fits
in its field. -/
structure UserTable where
  array : List (Option User)
  indexed : ∀ (uid : Nat) (user : User), array[uid]? = some (some user) → user.uid = uid
  short : ∀ user, some user ∈ array → user.username.length < hardUsernameLength

namespace UserTable

/-- `_max_uid` is the last index. -/
def maxUid (table : UserTable) : Nat := table.array.length - 1

/-- `user_get_by_id` -/
def getById (table : UserTable) (uid : Nat) : Option User :=
  if uid = invalidUser ∨ uid > table.maxUid ∨ table.maxUid = 0 then none
  else table.array[uid]?.join

/-- `user_get_by_name` -/
def getByName (table : UserTable) (name : Text) : Option User :=
  if name = [] ∨ table.maxUid = 0 then none
  else table.array.findSome? fun slot => slot.filter fun user => user.username = name

end UserTable

inductive TlsType where
  | noType | explicit | strictExplicit | implicit
  deriving DecidableEq, Repr

/-- What the login reads of the server: its tables, its options, and the comparisons of
passwords, addresses and idents. `haveTls` and `haveKrb5` are build options. -/
structure LoginConfig where
  users : UserTable
  getGroupByID : Nat → Option Group := fun _ => none
  siteClosed : Bool := false
  maxUsers : Nat := 0
  rejectUnknownUsers : Bool := false
  disableTls : Bool := false
  tlsType : TlsType := .explicit
  haveTls : Bool := true
  haveKrb5 : Bool := false
  checkAuth : Text → Text → Text → Bool
  ipCompare : Ip → NetFamily → Text → Bool
  ipIsBnc : Ip → NetFamily → Bool := fun _ _ => false
  strCompare : Text → Text → Bool := fun ident pattern => ident = pattern

/-- What the outside answers while one line is handled. -/
structure LoginWorld where
  /-- The other entries of the context list; `none` where the magic number is not
  the one of a live context. -/
  others : List (Option Context) := []
  /-- What the stack holds behind the last byte that `strncpy` writes. -/
  junk : Text := []
  /-- `do_chdir` to the home directory. -/
  chdir : Context → Option CurrentPath := fun ctx => some ctx.currentpath
  tlsAuth : Text → Bool := fun _ => true
  gssapiInit : Bool := true
  gssapiAccept : Text → Int := fun _ => 0
  hostKnown : Text → Bool := fun _ => true

/-- `backend_validate_login` -/
def backendValidateLogin (cfg : LoginConfig) (name : Text) : Option Nat :=
  match cfg.users.getByName name with
  | none => none
  | some user => if user.uid = invalidUser then none else some user.uid

/-- `backend_validate_pass`. The password `%` accepts anything. -/
def backendValidatePass (cfg : LoginConfig) (name pass : Text) : Option Nat :=
  match cfg.users.getByName name with
  | none => none
  | some user =>
    if user.userpass = ['%'] ∨ cfg.checkAuth name pass user.userpass then
      if user.uid = invalidUser then none else some user.uid
    else none

/-- FLAG_ALWAYS_ALLOW_LOGIN or FLAG_SITEOP -/
def User.exempt (user : User) : Bool := user.has 'a' ∨ user.has 'O'

def countsLogin (ctx other : Context) : Bool :=
  ctx.userid = other.userid ∧ ctx.controlSocket ≠ other.controlSocket

def countsFromIp (ctx other : Context) : Bool :=
  countsLogin ctx other ∧ ctx.hostip = other.hostip

def loginLimits (me : User) (countLogins countFromip : Nat) : Errno :=
  if me.numLogins ≠ 0 ∧ countLogins ≥ me.numLogins then .userNumLogins
  else if me.loginsPerIp ≠ 0 ∧ countFromip ≥ me.loginsPerIp then .userLoginsPerIp
  else .ok

/-- The contexts that the loops look at, the own one among them. -/
def liveContexts (w : LoginWorld) (ctx : Context) : List Context := ctx :: w.others.filterMap id

/-- The checks on the number of logins, which exempt users bypass. -/
def userLimits (cfg : LoginConfig) (w : LoginWorld) (me : User) (ctx : Context) : Errno :=
  if me.exempt then .ok
  else if cfg.maxUsers ≠ 0 ∧ w.others.length + 1 > cfg.maxUsers then .userTooManyUsers
  else
    loginLimits me ((liveContexts w ctx).countP (countsLogin ctx))
      ((liveContexts w ctx).countP (countsFromIp ctx))

/-- How often a group occurs among those of the connected users. -/
def groupLogins (cfg : LoginConfig) (contexts : List Context) (gid : Nat) : Nat :=
  ((contexts.filterMap fun ctx => cfg.users.getById ctx.userid).map fun user =>
    user.groups.count gid).sum

def groupFull (cfg : LoginConfig) (w : LoginWorld) (me : User) (ctx : Context) : Bool :=
  me.groups.any fun gid =>
    match cfg.getGroupByID gid with
    | none => false
    | some group =>
      group.numLogins ≠ 0 ∧ groupLogins cfg (liveContexts w ctx) gid > group.numLogins

/-- `check_tls_forced` -/
def checkTlsForced (user : User) (ctx : Context) : Bool := user.has 'k' ∧ ¬ctx.tls

/-- `do_user` -/
def doUser (cfg : LoginConfig) (w : LoginWorld) (username : Text) (ctx : Context) :
    Errno × Context :=
  match backendValidateLogin cfg username with
  | none => (.userRejected, ctx)
  | some uid =>
    let ctx := { ctx with userid := uid }
    match cfg.users.getById uid with
    | none => (.userIDontExist, ctx)
    | some me =>
      if me.has 'D' then (.userDeleted, ctx)
      else if cfg.siteClosed ∧ ¬me.has 'O' then (.userClosed, ctx)
      else
        let limits := userLimits cfg w me ctx
        if limits ≠ .ok then (limits, ctx)
        else if groupFull cfg w me ctx then (.groupNumLogins, ctx)
        else if checkTlsForced me ctx then (.userTlsForced, ctx)
        else (.ok, ctx)

/-- The ident in front of an address pattern; without an ident only `*` accepts. -/
def identMatches (cfg : LoginConfig) (ident : Option Text) (pattern : Text) : Bool :=
  match ident with
  | none => pattern = ['*']
  | some ident => cfg.strCompare ident pattern

def ipEntryMatches (cfg : LoginConfig) (ctx : Context) (entry : IpEntry) : Bool :=
  if '@' ∈ entry.regexp then
    identMatches cfg ctx.ident (entry.regexp.takeWhile (· ≠ '@')) &&
      cfg.ipCompare ctx.hostip ctx.family ((entry.regexp.dropWhile (· ≠ '@')).drop 1)
  else cfg.ipCompare ctx.hostip ctx.family entry.regexp

/-- `ip_list_check_ident`: the first line that matches decides. -/
def ipListCheckIdent (cfg : LoginConfig) (list : List IpEntry) (ctx : Context) : Option Bool :=
  (list.find? (ipEntryMatches cfg ctx)).map (·.isAllowed)

/-- `do_user_ip` -/
def doUserIp (cfg : LoginConfig) (ctx : Context) : Errno :=
  match cfg.users.getById ctx.userid with
  | none => if cfg.rejectUnknownUsers then .userIDontExist else .ok
  | some user =>
    if ipListCheckIdent cfg user.ipList ctx = some true then .ok
    else if (user.groups.filterMap cfg.getGroupByID).any fun group =>
        ipListCheckIdent cfg group.ipList ctx = some true then .ok
    else .userNoIp

/-- `do_pass` -/
def doPass (cfg : LoginConfig) (w : LoginWorld) (username pass : Text) (ctx : Context) :
    Errno × Context :=
  match cfg.users.getById ctx.userid with
  | none => (.userRejected, ctx)
  | some user =>
    if user.has 'D' then (.userDeleted, ctx)
    else
      match backendValidatePass cfg username pass with
      | none => (.passRejected, ctx)
      | some uid =>
        let ctx := { ctx with userid := uid, currentpath := .root }
        match w.chdir ctx with
        | none => (.userNoHome, ctx)
        | some path => (.ok, { ctx with currentpath := path })

/-- The commands the loop knows, as `identify_token` tells them apart. -/
inductive LoginToken where
  | help | user | pass | auth | adat | pbsz | prot | feat | opts | idnt | other
  deriving DecidableEq, Repr

/-- `identify_token` -/
def identifyToken (token : Option Text) : LoginToken :=
  match token with
  | none => .other
  | some token =>
    let lower := token.map Char.toLower
    if lower = "help".toList then .help
    else if lower = "user".toList then .user
    else if lower = "pass".toList then .pass
    else if lower = "auth".toList then .auth
    else if lower = "adat".toList then .adat
    else if lower = "pbsz".toList then .pbsz
    else if lower = "prot".toList then .prot
    else if lower = "feat".toList then .feat
    else if lower = "opts".toList then .opts
    else if lower = "idnt".toList then .idnt
    else .other

/-- `chop` -/
def chop (line : Text) : Text := (line.reverse.dropWhile fun c => c = '\r' ∨ c = '\n').reverse

/-- The first word of a line and what follows it. -/
def splitCommand (line : Text) : LoginToken × Text :=
  let first := strtok [' ', '\t', '\r', '\n'] line
  (identifyToken first.1, first.2)

def lineArgument (rest : Text) : Option Text := (strtok ['\r', '\n'] rest).1

/-- The local variables of `do_login_loop`. `gssapi` is set while the nested loop
of `do_login_gssapi` reads. -/
structure LoginState where
  ctx : Context
  username : Text := []
  userOk : Bool := false
  tlsOk : Bool := false
  gssapi : Bool := false

/-- One turn of the loop: the code it returns with, if it does. -/
structure LoginTurn where
  ret : Option Nat
  state : LoginState
  replies : List Effect

namespace LoginState

def stay (s : LoginState) (replies : List Effect) : LoginTurn := ⟨none, s, replies⟩

def reply (s : LoginState) (code : Nat) (args : List String) : LoginTurn :=
  ⟨none, s, [.message code (args.map String.toList)]⟩

def fail (s : LoginState) (code : Nat) (args : List String) : LoginTurn :=
  ⟨some 1, s, [.message code (args.map String.toList)]⟩

end LoginState

/-- What the loop answers to the code of `do_user`; unknown and deleted users are only told so
if the option says it. -/
def userRefusal (cfg : LoginConfig) : Errno → Option (Nat × String)
  | .ok => none
  | .userRejected => if cfg.rejectUnknownUsers then some (421, "User rejected") else none
  | .userDeleted => if cfg.rejectUnknownUsers then some (421, "User deleted") else none
  | .userNumLogins => some (421, "Too many connections with this login account")
  | .userLoginsPerIp => some (421, "Too many connections with this IP address")
  | .userClosed => some (421, "Site is closed, try again later")
  | .userIDontExist => some (501, "Mama says I don't exist! (problem with backend?)")
  | .userTlsForced => some (421, "User MUST connect in TLS/SSL mode")
  | .groupNumLogins => some (421, "Too many connections for your group")
  | .userTooManyUsers => some (421, "Too many connections to the server")
  | _ => some (421, "User rejected (unknown error)")

/-- `strncpy(username,token,HARD_USERNAME_LENGTH-1)`: a name that fills the
buffer is not terminated. -/
def storedName (w : LoginWorld) (token : Text) : Text :=
  if token.length < hardUsernameLength - 1 then token
  else token.take (hardUsernameLength - 1) ++ w.junk

def loginUser (cfg : LoginConfig) (w : LoginWorld) (rest : Text) (s : LoginState) : LoginTurn :=
  if s.userOk then s.fail 421 ["USER command issued twice"]
  else
    match lineArgument rest with
    | none => s.fail 421 ["Give me a user name!"]
    | some token =>
      let checked := doUser cfg w token s.ctx
      let s := { s with ctx := checked.2 }
      match userRefusal cfg checked.1 with
      | some (code, text) => s.fail code [text]
      | none =>
        if doUserIp cfg s.ctx ≠ .ok then s.fail 421 ["IP not allowed"]
        else
          { s with username := storedName w token, userOk := true }.stay
            [.message 331 [storedName w token]]

/-- What the loop answers to a code of `do_pass` other than `E_OK`. -/
def passRefusal : Errno → String
  | .userRejected => "User rejected"
  | .passRejected => "Password rejected"
  | .userDeleted => "User deleted"
  | .userNoHome => "Could not go to my home directory!"
  | _ => "User rejected (unknown error)"

/-- PASS. `pass_ok` is never set. -/
def loginPass (cfg : LoginConfig) (w : LoginWorld) (rest : Text) (s : LoginState) : LoginTurn :=
  if ¬s.userOk then s.fail 421 ["Incorrect login sequence"]
  else
    match lineArgument rest with
    | none => s.fail 421 ["Give me a password!"]
    | some token =>
      let checked := doPass cfg w s.username token s.ctx
      let s := { s with ctx := checked.2 }
      if checked.1 ≠ .ok then s.fail 421 [passRefusal checked.1]
      else if cfg.haveTls ∧ cfg.tlsType = .strictExplicit ∧ ¬s.tlsOk then
        s.fail 421 ["TLS session MUST be engaged"]
      else ⟨some 0, s, []⟩

def loginAuth (cfg : LoginConfig) (w : LoginWorld) (rest : Text) (s : LoginState) : LoginTurn :=
  if ¬cfg.haveTls then s.reply 530 ["TLS commands disabled"]
  else
    match lineArgument rest with
    | none => s.fail 421 ["Invalid token in AUTH command\n"]
    | some token =>
      if cfg.haveKrb5 ∧ token.map Char.toLower = "gssapi".toList then
        if w.gssapiInit then { s with gssapi := true }.reply 334 ["Waiting for ", "ADAT"]
        else s.reply 550 ["GSSAPI", "Initialisation failed"]
      else if cfg.disableTls then s.reply 502 ["TLS Disabled by config"]
      else
        let mode := if token.map Char.toLower = "ssl".toList ∨ cfg.tlsType = .implicit
          then TlsDataMode.priv else .clear
        let s := { s with ctx := { s.ctx with tlsDataMode := mode } }
        let agreed := if cfg.tlsType = TlsType.implicit then [] else [Effect.message 234 [token]]
        if ¬w.tlsAuth token then
          ⟨some 1, s, agreed ++ [.message 431 ["Failed TLS negotiation".toList]]⟩
        else { s with tlsOk := true, ctx := { s.ctx with tls := true } }.stay agreed

/-- PROT. Without an argument the source compares with a null pointer. -/
def loginProt (cfg : LoginConfig) (rest : Text) (s : LoginState) : LoginTurn :=
  if ¬cfg.haveTls then s.reply 530 ["TLS commands disabled"]
  else
    match (lineArgument rest).map fun token => token.map Char.toLower with
    | none => ⟨some 1, s, []⟩
    | some ['p'] =>
      { s with ctx := { s.ctx with tlsDataMode := .priv } }.reply 200 ["PROT command okay"]
    | some ['c'] =>
      { s with ctx := { s.ctx with tlsDataMode := .clear } }.reply 200 ["PROT command okay"]
    | some _ => s.reply 550 ["PROT", "must be C or P"]

/-- IDNT, which only a bouncer may send. -/
def loginIdnt (cfg : LoginConfig) (w : LoginWorld) (rest : Text) (s : LoginState) : LoginTurn :=
  let first := strtok ['@'] rest
  let second := strtok [':'] first.2
  if s.ctx.idntAddress ≠ none then s.fail 530 ["Multiple IDNT commands"]
  else if ¬cfg.ipIsBnc s.ctx.hostip s.ctx.family then s.fail 530 ["Permission denied"]
  else
    match first.1, second.1 with
    | some ident, some address =>
      if second.2 = [] then s.fail 501 ["Syntax error"]
      else if ¬w.hostKnown address then s.fail 501 ["IDNT failed"]
      else
        { s with ctx := { s.ctx with ident := some ident, idntAddress := some address } }.stay []
    | _, _ => s.fail 501 ["Syntax error"]

/-- What one call of `read_fct` gives. -/
inductive LoginRead where
  | closed
  | error
  | data (w : LoginWorld) (text : Text)

/-- A turn of the loop in `do_login_gssapi`; it ends by going back to the login loop. ADAT may
have no data. -/
def gssapiTurn (s : LoginState) : LoginRead → LoginTurn
  | .closed | .error => { s with gssapi := false }.stay []
  | .data w text =>
    if text = [] then s.stay []
    else
      let command := splitCommand (chop text)
      match command.1 with
      | .help => s.reply 530 ["Login with USER and PASS"]
      | .adat =>
        let data := ((strtok [' ', '\t', '\r', '\n'] command.2).1).getD []
        if w.gssapiAccept data = 1 then s.reply 334 ["ADAT="]
        else if w.gssapiAccept data = 0 then { s with gssapi := false }.reply 235 ["ADAT="]
        else { s with gssapi := false }.reply 535 ["GSSAPI authentication failed"]
      | _ => { s with gssapi := false }.reply 530 ["Invalid login sequence"]

/-- One turn of the loop in `do_login_loop`. -/
def loginTurn (cfg : LoginConfig) (s : LoginState) (read : LoginRead) : LoginTurn :=
  if s.gssapi then gssapiTurn s read
  else
    match read with
    | .closed | .error => ⟨some 1, s, []⟩
    | .data w text =>
      let line := chop text
      if line = [] then s.stay []
      else
        let command := splitCommand line
        match command.1 with
        | .help => s.reply 530 ["Login with USER and PASS"]
        | .user => loginUser cfg w command.2 s
        | .pass => loginPass cfg w command.2 s
        | .auth => loginAuth cfg w command.2 s
        | .pbsz =>
          if cfg.haveTls then s.reply 200 ["Command okay"]
          else s.reply 530 ["TLS commands disabled"]
        | .prot => loginProt cfg command.2 s
        -- the two only print, or set a flag that the login does not read
        | .feat | .opts => s.stay []
        | .idnt => loginIdnt cfg w command.2 s
        | .adat | .other => s.fail 530 ["Invalid login sequence"]

/-- The beginning of `do_login_loop`. -/
def loginStart (ctx : Context) : LoginState := { ctx := { ctx with state := .logging } }

/-- `do_login_loop`: its code and the state it leaves, or nothing while it still waits. -/
def doLoginLoop (cfg : LoginConfig) : LoginState → List LoginRead → Option (Nat × LoginState)
  | _, [] => none
  | s, read :: reads =>
    match (loginTurn cfg s read).ret with
    | some ret => some (ret, (loginTurn cfg s read).state)
    | none => doLoginLoop cfg (loginTurn cfg s read).state reads

def loginUserRecord : User :=
  { srvUser with userpass := "secret".toList, ipList := [⟨['*'], true⟩], numLogins := 2 }

def loginTable : UserTable where
  array := [none, some loginUserRecord]
  indexed := by
    intro uid user stored
    match uid, stored with
    | 1, stored => cases stored; rfl
  short := by
    intro user member
    simp only [List.mem_cons, reduceCtorEq, Option.some.injEq, List.not_mem_nil, or_false,
      false_or] at member
    subst member
    decide

def loginConfig : LoginConfig :=
  { users := loginTable, checkAuth := fun _ pass stored => pass = stored
    ipCompare := fun _ _ pattern => pattern = ['*'] }

end Wzdftpd
