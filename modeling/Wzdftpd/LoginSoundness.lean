import Wzdftpd.Login

/- A login succeeds only for a user that USER has accepted and whose password PASS has
validated. -/
namespace Wzdftpd

open List Option

variable {name : Text} {user : User}

theorem UserTable.getByName_spec {table : UserTable} (found : table.getByName name = some user) :
    user.username = name ∧ name.length < hardUsernameLength ∧
      (user.uid ≠ invalidUser → table.getById user.uid = some user) := by
  unfold getByName at found
  split at found
  · cases found
  rename_i usable
  obtain ⟨_, member, named⟩ := exists_of_findSome?_eq_some found
  obtain ⟨rfl, same⟩ := filter_eq_some_iff.mp named
  have same' : user.username = name := of_decide_eq_true same
  refine ⟨same', same' ▸ table.short user member, fun valid => ?_⟩
  obtain ⟨uid, inside, stored⟩ := getElem_of_mem member
  have at' : table.array[uid]? = some (some user) := by
    rw [getElem?_eq_getElem inside, stored]
  have index := table.indexed uid user at'
  have several : table.maxUid ≠ 0 := fun single => usable (.inr single)
  have below : ¬uid > table.maxUid := by
    unfold maxUid
    omega
  have usableUid : ¬(uid = invalidUser ∨ uid > table.maxUid ∨ table.maxUid = 0) := by
    rintro (bad | bad | bad)
    · exact valid (index.trans bad)
    · exact below bad
    · exact several bad
  rw [getById, index, if_neg usableUid, at']
  rfl

def otherLogins (w : LoginWorld) (ctx : Context) (user : User) : List Context :=
  (w.others.filterMap id).filter fun other =>
    user.uid = other.userid ∧ ctx.controlSocket ≠ other.controlSocket

/-- A user that exists, is not deleted and is let in by the site, the limits and the
encryption. -/
structure UserAccepted (cfg : LoginConfig) (w : LoginWorld) (name : Text) (ctx : Context)
    (user : User) : Prop where
  known : cfg.users.getByName name = some user
  live : user.has 'D' = false
  siteOpen : cfg.siteClosed = true → user.has 'O' = true
  limits : user.exempt = true ∨
    (cfg.maxUsers = 0 ∨ w.others.length + 1 ≤ cfg.maxUsers) ∧
      (user.numLogins = 0 ∨ (otherLogins w ctx user).length < user.numLogins) ∧
      (user.loginsPerIp = 0 ∨
        (otherLogins w ctx user).countP (fun other => ctx.hostip = other.hostip) <
          user.loginsPerIp)
  groups : ∀ gid ∈ user.groups, ∀ group, cfg.getGroupByID gid = some group →
    group.numLogins = 0 ∨
      groupLogins cfg (liveContexts w { ctx with userid := user.uid }) gid ≤ group.numLogins
  tls : user.has 'k' = true → ctx.tls = true

/-- The address of the client is on the list of the user or of one of its groups. -/
def UserIpAllowed (cfg : LoginConfig) (ctx : Context) (user : User) : Prop :=
  ipListCheckIdent cfg user.ipList ctx = some true ∨
    ∃ gid ∈ user.groups, ∃ group, cfg.getGroupByID gid = some group ∧
      ipListCheckIdent cfg group.ipList ctx = some true

theorem countP_countsLogin (w : LoginWorld) (ctx : Context) (user : User) :
    (liveContexts w { ctx with userid := user.uid }).countP
        (countsLogin { ctx with userid := user.uid }) = (otherLogins w ctx user).length := by
  rw [liveContexts, countP_cons_of_neg (by simp [countsLogin]), countP_eq_length_filter]
  rfl

theorem countP_countsFromIp (w : LoginWorld) (ctx : Context) (user : User) :
    (liveContexts w { ctx with userid := user.uid }).countP
        (countsFromIp { ctx with userid := user.uid }) =
      (otherLogins w ctx user).countP (fun other => ctx.hostip = other.hostip) := by
  rw [liveContexts, countP_cons_of_neg (by simp [countsFromIp, countsLogin]), otherLogins,
    countP_filter]
  congr 1
  funext other
  simp [countsFromIp, countsLogin, and_comm]

variable {cfg : LoginConfig} {w : LoginWorld} {ctx : Context}

theorem userLimits_ok (ok : userLimits cfg w user { ctx with userid := user.uid } = .ok) :
    user.exempt = true ∨ (cfg.maxUsers = 0 ∨ w.others.length + 1 ≤ cfg.maxUsers) ∧
      (user.numLogins = 0 ∨ (otherLogins w ctx user).length < user.numLogins) ∧
      (user.loginsPerIp = 0 ∨
        (otherLogins w ctx user).countP (fun other => ctx.hostip = other.hostip) <
          user.loginsPerIp) := by
  rw [userLimits, countP_countsLogin, countP_countsFromIp] at ok
  split at ok
  · rename_i exempt
    exact .inl exempt
  split at ok
  · cases ok
  unfold loginLimits at ok
  split at ok
  · cases ok
  · split at ok
    · cases ok
    · refine .inr ⟨?_, ?_, ?_⟩ <;> omega

theorem groupFull_false (free : groupFull cfg w user ctx = false) :
    ∀ gid ∈ user.groups, ∀ group, cfg.getGroupByID gid = some group →
      group.numLogins = 0 ∨ groupLogins cfg (liveContexts w ctx) gid ≤ group.numLogins := by
  intro gid member group found
  have here := any_eq_false.mp free gid member
  rw [found] at here
  simp only [decide_eq_true_eq] at here
  omega

/-- What `do_user` can return, together with what it has stored. -/
inductive UserOutcome (cfg : LoginConfig) (w : LoginWorld) (name : Text) (ctx : Context) :
    Errno × Context → Prop where
  | accepted (user : User) (accepted : UserAccepted cfg w name ctx user)
      (valid : user.uid ≠ invalidUser) :
      UserOutcome cfg w name ctx (.ok, { ctx with userid := user.uid })
  | unknown : UserOutcome cfg w name ctx (.userRejected, ctx)
  | deleted (user : User) (known : cfg.users.getById user.uid = some user)
      (flag : user.has 'D' = true) :
      UserOutcome cfg w name ctx (.userDeleted, { ctx with userid := user.uid })
  | refused (ret : Errno) (ctx' : Context) (final : userRefusal cfg ret ≠ none) :
      UserOutcome cfg w name ctx (ret, ctx')

theorem userLimits_answers (cfg : LoginConfig) (w : LoginWorld) (user : User) (ctx : Context) :
    userLimits cfg w user ctx ∈ [.ok, .userTooManyUsers, .userNumLogins, .userLoginsPerIp] := by
  unfold userLimits loginLimits
  split
  · decide
  split
  · decide
  split
  · decide
  split <;> decide

theorem userLimits_refusal (full : userLimits cfg w user ctx ≠ .ok) :
    userRefusal cfg (userLimits cfg w user ctx) ≠ none := by
  have answers := userLimits_answers cfg w user ctx
  simp only [mem_cons, full, not_mem_nil, or_false, false_or] at answers
  rcases answers with same | same | same
  · rw [same]
    exact some_ne_none _
  · rw [same]
    exact some_ne_none _
  · rw [same]
    exact some_ne_none _

theorem doUser_outcome (cfg : LoginConfig) (w : LoginWorld) (name : Text) (ctx : Context) :
    UserOutcome cfg w name ctx (doUser cfg w name ctx) := by
  unfold doUser backendValidateLogin
  cases known : cfg.users.getByName name with
  | none => exact .unknown
  | some user =>
    obtain ⟨-, -, byId⟩ := UserTable.getByName_spec known
    by_cases invalid : user.uid = invalidUser
    · simp only [invalid]
      exact .unknown
    simp only [if_neg invalid, byId invalid]
    split
    · rename_i flag
      exact .deleted user (byId invalid) flag
    rename_i live
    split
    · exact .refused _ _ (some_ne_none _)
    rename_i siteOpen
    split
    · rename_i full
      exact .refused _ _ (userLimits_refusal full)
    rename_i free
    split_ifs with groups tls
    · exact .refused _ _ (some_ne_none _)
    · exact .refused _ _ (some_ne_none _)
    refine .accepted user ⟨known, Bool.eq_false_iff.mpr live, ?_, ?_,
      groupFull_false (Bool.eq_false_iff.mpr groups), ?_⟩ invalid
    · intro closed
      by_contra operator
      exact siteOpen ⟨closed, operator⟩
    · exact userLimits_ok (not_not.mp free)
    · intro flag
      by_contra clear
      exact tls (decide_eq_true ⟨flag, clear⟩)

theorem doUserIp_ok (found : cfg.users.getById ctx.userid = some user)
    (ok : doUserIp cfg ctx = .ok) : UserIpAllowed cfg ctx user := by
  simp only [doUserIp, found] at ok
  split at ok
  · rename_i own
    exact .inl own
  split at ok
  · rename_i grouped
    obtain ⟨group, member, allowed⟩ := any_eq_true.mp grouped
    obtain ⟨gid, inGroups, same⟩ := mem_filterMap.mp member
    exact .inr ⟨gid, inGroups, group, same, of_decide_eq_true allowed⟩
  · cases ok

def LoginRead.Sends (read : LoginRead) (w : LoginWorld) (token : LoginToken) (arg : Text) : Prop :=
  ∃ text, read = .data w text ∧ (splitCommand (chop text)).1 = token ∧
    lineArgument (splitCommand (chop text)).2 = some arg

/-- What USER and PASS pass on is untouched. -/
structure SameLogin (s t : LoginState) : Prop where
  userOk : t.userOk = s.userOk
  username : t.username = s.username
  userid : t.ctx.userid = s.ctx.userid

/-- A turn that neither ends the login successfully nor changes who logs in. -/
def Minor (s : LoginState) (turn : LoginTurn) : Prop := turn.ret ≠ some 0 ∧ SameLogin s turn.state

theorem SameLogin.refl (s : LoginState) : SameLogin s s := ⟨rfl, rfl, rfl⟩

variable {s t final : LoginState}

theorem gssapiTurn_minor (s : LoginState) (read : LoginRead) : Minor s (gssapiTurn s read) := by
  cases read with
  | closed => exact ⟨nofun, rfl, rfl, rfl⟩
  | error => exact ⟨nofun, rfl, rfl, rfl⟩
  | data w text =>
    simp only [gssapiTurn]
    repeat' split
    all_goals exact ⟨nofun, rfl, rfl, rfl⟩

theorem loginAuth_minor (cfg : LoginConfig) (w : LoginWorld) (rest : Text) (s : LoginState) :
    Minor s (loginAuth cfg w rest s) := by
  simp only [loginAuth]
  repeat' split
  all_goals exact ⟨nofun, rfl, rfl, rfl⟩

theorem loginProt_minor (cfg : LoginConfig) (rest : Text) (s : LoginState) :
    Minor s (loginProt cfg rest s) := by
  simp only [loginProt]
  repeat' split
  all_goals exact ⟨nofun, rfl, rfl, rfl⟩

theorem loginIdnt_minor (cfg : LoginConfig) (w : LoginWorld) (rest : Text) (s : LoginState) :
    Minor s (loginIdnt cfg w rest s) := by
  simp only [loginIdnt]
  repeat' split
  all_goals exact ⟨nofun, rfl, rfl, rfl⟩

/-- What a turn of the login loop can do to the login. -/
inductive TurnOutcome (cfg : LoginConfig) (s : LoginState) (read : LoginRead) : LoginTurn → Prop
  | minor (turn : LoginTurn) (minor : Minor s turn) : TurnOutcome cfg s read turn
  | failed (turn : LoginTurn) (failed : turn.ret = some 1) : TurnOutcome cfg s read turn
  | user (w : LoginWorld) (name : Text) (turn : LoginTurn) (sends : read.Sends w .user name)
      (first : s.userOk = false) (goes : turn.ret = none)
      (passes : userRefusal cfg (doUser cfg w name s.ctx).1 = none)
      (ip : doUserIp cfg (doUser cfg w name s.ctx).2 = .ok)
      (stored : turn.state = { s with
        ctx := (doUser cfg w name s.ctx).2, username := storedName w name, userOk := true }) :
      TurnOutcome cfg s read turn
  | pass (w : LoginWorld) (pass : Text) (turn : LoginTurn) (sends : read.Sends w .pass pass)
      (named : s.userOk = true) (ends : turn.ret = some 0)
      (ok : doPass cfg w s.username pass s.ctx = (.ok, turn.state.ctx)) :
      TurnOutcome cfg s read turn

theorem loginUser_outcome {text : Text} (command : (splitCommand (chop text)).1 = .user) :
    TurnOutcome cfg s (.data w text) (loginUser cfg w (splitCommand (chop text)).2 s) := by
  simp only [loginUser]
  split
  · exact .minor _ ⟨nofun, .refl s⟩
  rename_i first
  split
  · exact .minor _ ⟨nofun, .refl s⟩
  rename_i name given
  split
  · exact .failed _ rfl
  rename_i passes
  split
  · exact .failed _ rfl
  · rename_i ip
    exact .user w name _ ⟨text, rfl, command, given⟩ (Bool.eq_false_iff.mpr first) rfl passes
      (not_not.mp ip) rfl

theorem loginPass_outcome {text : Text} (command : (splitCommand (chop text)).1 = .pass) :
    TurnOutcome cfg s (.data w text) (loginPass cfg w (splitCommand (chop text)).2 s) := by
  simp only [loginPass]
  split
  · exact .minor _ ⟨nofun, .refl s⟩
  rename_i named
  split
  · exact .minor _ ⟨nofun, .refl s⟩
  rename_i pass given
  split_ifs with ok
  · exact .failed _ rfl
  · exact .failed _ rfl
  · exact .pass w pass _ ⟨text, rfl, command, given⟩ (not_not.mp named) rfl
      (Prod.ext (not_not.mp ok) rfl)

theorem loginTurn_outcome (cfg : LoginConfig) (s : LoginState) (read : LoginRead) :
    TurnOutcome cfg s read (loginTurn cfg s read) := by
  unfold loginTurn
  split
  · exact .minor _ (gssapiTurn_minor s read)
  cases read with
  | closed => exact .failed _ rfl
  | error => exact .failed _ rfl
  | data w text =>
    simp only
    split
    · exact .minor _ ⟨nofun, .refl s⟩
    split
    · exact .minor _ ⟨nofun, .refl s⟩
    · rename_i command
      exact loginUser_outcome command
    · rename_i command
      exact loginPass_outcome command
    · exact .minor _ (loginAuth_minor ..)
    · split <;> exact .minor _ ⟨nofun, .refl s⟩
    · exact .minor _ (loginProt_minor ..)
    · exact .minor _ ⟨nofun, .refl s⟩
    · exact .minor _ ⟨nofun, .refl s⟩
    · exact .minor _ (loginIdnt_minor ..)
    · exact .minor _ ⟨nofun, .refl s⟩
    · exact .minor _ ⟨nofun, .refl s⟩

/-- The state in which the loop waits after some reads, if it still does. -/
def loginWaits (cfg : LoginConfig) : LoginState → List LoginRead → Option LoginState
  | s, [] => some s
  | s, read :: reads =>
    match (loginTurn cfg s read).ret with
    | some _ => none
    | none => loginWaits cfg (loginTurn cfg s read).state reads

variable {read : LoginRead}

theorem loginWaits_cons (goes : (loginTurn cfg s read).ret = none) (reads : List LoginRead) :
    loginWaits cfg s (read :: reads) = loginWaits cfg (loginTurn cfg s read).state reads := by
  simp only [loginWaits, goes]

theorem doLoginLoop_cons (goes : (loginTurn cfg s read).ret = none) (reads : List LoginRead) :
    doLoginLoop cfg s (read :: reads) = doLoginLoop cfg (loginTurn cfg s read).state reads := by
  simp only [doLoginLoop, goes]

theorem doLoginLoop_ended {ret : Nat}
    (ends : (loginTurn cfg s read).ret = some ret) {reads : List LoginRead}
    (ended : doLoginLoop cfg s (read :: reads) = some (0, final)) :
    ret = 0 ∧ (loginTurn cfg s read).state = final := by
  simp only [doLoginLoop, ends, some.injEq, Prod.mk.injEq] at ended
  exact ended

theorem SameLogin.trans {u : LoginState} (first : SameLogin s t) (second : SameLogin t u) :
    SameLogin s u :=
  ⟨second.userOk.trans first.userOk, second.username.trans first.username,
    second.userid.trans first.userid⟩

/-- The first turn of a successful loop that is not minor: a USER that it goes on after, or
else a PASS for the name and the uid that USER has stored. -/
theorem login_major (reads : List LoginRead) :
    ∀ s : LoginState, doLoginLoop cfg s reads = some (0, final) →
      ∃ before read rest w arg t, reads = before ++ read :: rest ∧
        loginWaits cfg s before = some t ∧ SameLogin s t ∧
        (s.userOk = false ∧ read.Sends w .user arg ∧
            userRefusal cfg (doUser cfg w arg t.ctx).1 = none ∧
            doUserIp cfg (doUser cfg w arg t.ctx).2 = .ok ∧
            (∃ u, u = { t with
                ctx := (doUser cfg w arg t.ctx).2, username := storedName w arg, userOk := true } ∧
              loginWaits cfg t [read] = some u ∧ doLoginLoop cfg u rest = some (0, final)) ∨
          s.userOk = true ∧ read.Sends w .pass arg ∧
            doPass cfg w s.username arg t.ctx = (.ok, final.ctx)) := by
  induction reads with
  | nil => exact fun _ ended => nomatch ended
  | cons read reads ih =>
    intro s ended
    cases loginTurn_outcome cfg s read with
    | minor _ minor =>
      have same := minor.2
      cases goes : (loginTurn cfg s read).ret with
      | none =>
        rw [doLoginLoop_cons goes] at ended
        obtain ⟨before, major, rest, w, arg, t, rfl, waits, later, found⟩ := ih _ ended
        rw [same.userOk, same.username] at found
        refine ⟨read :: before, major, rest, w, arg, t, rfl, ?_, same.trans later, found⟩
        rw [loginWaits_cons goes]
        exact waits
      | some ret =>
        have same := congrArg some (doLoginLoop_ended goes ended).1
        exact absurd (goes.trans same) minor.1
    | failed _ failed => cases (doLoginLoop_ended failed ended).1
    | user w name _ sends first goes passes ip stored =>
      rw [doLoginLoop_cons goes] at ended
      exact ⟨[], read, reads, w, name, s, rfl, rfl, .refl s,
        .inl ⟨first, sends, passes, ip, _, stored, loginWaits_cons goes [], ended⟩⟩
    | pass w pass _ sends named ends ok =>
      obtain ⟨_, rfl⟩ := doLoginLoop_ended ends ended
      exact ⟨[], read, reads, w, pass, s, rfl, rfl, .refl s, .inr ⟨named, sends, ok⟩⟩

theorem loginWaits_append {reads : List LoginRead} :
    ∀ {s t : LoginState}, loginWaits cfg s reads = some t → ∀ more : List LoginRead,
      loginWaits cfg s (reads ++ more) = loginWaits cfg t more := by
  induction reads with
  | nil =>
    rintro s t ⟨⟩ more
    rfl
  | cons read reads ih =>
    intro s t waits more
    cases goes : (loginTurn cfg s read).ret with
    | none =>
      rw [loginWaits_cons goes] at waits
      rw [cons_append, loginWaits_cons goes]
      exact ih waits more
    | some ret => simp only [loginWaits, goes, reduceCtorEq] at waits

theorem doPass_ok {username pass : Text} {ctx' : Context}
    (ok : doPass cfg w username pass ctx = (.ok, ctx')) :
    ∃ user, cfg.users.getById ctx.userid = some user ∧ user.has 'D' = false ∧
      backendValidatePass cfg username pass = some ctx'.userid := by
  simp only [doPass] at ok
  split at ok
  · cases ok
  rename_i user found
  split at ok
  · cases ok
  rename_i live
  split at ok
  · cases ok
  · rename_i uid validated
    split at ok
    · cases ok
    · cases ok
      exact ⟨user, found, Bool.eq_false_iff.mpr live, validated⟩

theorem backendValidatePass_known {pass : Text} {uid : Nat}
    (validated : backendValidatePass cfg name pass = some uid) :
    ∃ user, cfg.users.getByName name = some user ∧ user.uid = uid := by
  simp only [backendValidatePass] at validated
  split at validated
  · cases validated
  rename_i user found
  split at validated
  · split at validated
    · cases validated
    · cases validated
      exact ⟨user, found, rfl⟩
  · cases validated

theorem storedName_eq (fits : name.length < hardUsernameLength)
    (copyFits : (storedName w name).length < hardUsernameLength) : storedName w name = name := by
  unfold storedName at copyFits ⊢
  split
  · rfl
  rename_i fills
  rw [if_neg fills, length_append, length_take] at copyFits
  have noJunk : w.junk = [] := by
    rw [← length_eq_zero_iff]
    omega
  rw [noJunk, append_nil, take_of_length_le (by omega)]

/-- A USER after which the loop goes on has either accepted a user, or left a uid
that PASS refuses. -/
theorem user_then_pass (fresh : ctx.userid = invalidUser)
    (passes : userRefusal cfg (doUser cfg w name ctx).1 = none)
    (found : cfg.users.getById (doUser cfg w name ctx).2.userid = some user)
    (live : user.has 'D' = false) :
    UserAccepted cfg w name ctx user ∧
      (doUser cfg w name ctx).2 = { ctx with userid := user.uid } := by
  have outcome := doUser_outcome cfg w name ctx
  generalize doUser cfg w name ctx = result at outcome passes found
  cases outcome with
  | accepted other accepted valid =>
    have same : other = user := by
      have byId := (UserTable.getByName_spec accepted.known).2.2 valid
      exact some.inj (byId.symm.trans found)
    exact same ▸ ⟨accepted, rfl⟩
  | unknown =>
    rw [fresh] at found
    cases found
  | deleted other known flag =>
    cases known.symm.trans found
    cases live.symm.trans flag
  | refused ret ctx' final => exact absurd passes final

/-- The login loop of a new connection succeeds only after a USER that was
accepted, an address check that succeeded for that user and then a PASS that the
backend has validated for the same name; the session's uid is that user's. -/
theorem doLoginLoop_sound (cfg : LoginConfig) (ctx : Context) (reads : List LoginRead)
    (final : LoginState) (fresh : ctx.userid = invalidUser)
    (success : doLoginLoop cfg (loginStart ctx) reads = some (0, final)) :
    ∃ before userRead between passRead after w w' name pass user t p,
      reads = before ++ userRead :: (between ++ passRead :: after) ∧
        loginWaits cfg (loginStart ctx) before = some t ∧ userRead.Sends w .user name ∧
        UserAccepted cfg w name t.ctx user ∧ UserIpAllowed cfg t.ctx user ∧
        loginWaits cfg (loginStart ctx) (before ++ userRead :: between) = some p ∧
        passRead.Sends w' .pass pass ∧ backendValidatePass cfg name pass = some user.uid ∧
        final.ctx.userid = user.uid := by
  obtain ⟨before, userRead, rest, w, name, t, rfl, waits, same, majorUser⟩ :=
    login_major reads (loginStart ctx) success
  rcases majorUser with ⟨-, userSends, passes, ip, _, rfl, waits', later⟩ | ⟨named, -⟩
  rotate_left
  · cases named
  obtain ⟨between, passRead, after, w', pass, p, rfl, waits'', same', majorPass⟩ :=
    login_major rest _ later
  rcases majorPass with ⟨unnamed, -⟩ | ⟨-, passSends, ok⟩
  · cases unnamed
  obtain ⟨user, found, live, validated⟩ := doPass_ok ok
  rw [same'.userid] at found
  have started : t.ctx.userid = invalidUser := same.userid.trans fresh
  obtain ⟨accepted, stored⟩ := user_then_pass started passes found live
  have allowed : UserIpAllowed cfg (doUser cfg w name t.ctx).2 user := doUserIp_ok found ip
  rw [stored] at allowed
  -- the copy of the name is the name, since both are in the table
  obtain ⟨-, short, -⟩ := UserTable.getByName_spec accepted.known
  obtain ⟨other, named, sameUid⟩ := backendValidatePass_known validated
  have copied := storedName_eq short (UserTable.getByName_spec named).2.1
  rw [copied] at named validated
  have sameUser : other = user := some.inj (named.symm.trans accepted.known)
  rw [← sameUid, sameUser] at validated
  refine ⟨before, userRead, between, passRead, after, w, w', name, pass, user, t, p, rfl, waits,
    userSends, accepted, allowed, ?_, passSends, validated, sameUid.symm.trans (sameUser ▸ rfl)⟩
  rw [loginWaits_append waits]
  exact (loginWaits_append waits' between).trans waits''

def loginLines : List LoginRead :=
  [.data {} "USER ann\r\n".toList, .data {} "PASS secret\r\n".toList]

theorem doLoginLoop_sound_ann :
    ∃ final, doLoginLoop loginConfig (loginStart { srvContext with userid := invalidUser })
        loginLines = some (0, final) ∧
      ∃ w name t user, UserAccepted loginConfig w name t user ∧ final.ctx.userid = user.uid := by
  refine ⟨_, rfl, ?_⟩
  obtain ⟨_, _, _, _, _, w, _, name, _, user, t, _, _, _, _, accepted, _, _, _, _, same⟩ :=
    doLoginLoop_sound loginConfig { srvContext with userid := invalidUser } loginLines _ rfl rfl
  exact ⟨w, name, t.ctx, user, accepted, same⟩

end Wzdftpd
