import Wzdftpd.FileTransfer

/- The other commands that touch the data connection or the current action, and
what the client loop does between commands: data events and timeouts
(wzd_ClientThread.c and wzd_data.c). -/
namespace Wzdftpd

open Outcome

/-- `while (param[0]=='-')`: every option ends at a blank. -/
def skipOptions : Nat → Text → Text
  | turns + 1, '-' :: rest => skipOptions turns ((rest.dropWhile (· ≠ ' ')).drop 1)
  | _, param => param

def hasWildcard (cmd : Text) : Bool := '*' ∈ cmd ∨ '?' ∈ cmd

def wildcardError : List Text :=
  ["You can't put wildcards in the middle of path, only in the last part.".toList]

/-- The directory and the mask of LIST and STAT, or the code and text of a
refusal. With a separator before the wildcard the last part is copied over the
front of the buffer, which is then cut where the separator was. -/
def listArgument (arg : Text) : Except (Errno × List Text) (Text × Text) :=
  let param := skipOptions arg.length arg
  let cmd := dropSlash param
  let last := (cmd.reverse.takeWhile (· ≠ '/')).reverse
  -- the last separator stands after the last star, or there is no star
  if hasWildcard cmd ∧ '/' ∈ cmd ∧ last.length < (cmd.reverse.takeWhile (· ≠ '*')).length then
    .error (.noDataCtx, wildcardError)
  else
    let parts : Text × Text :=
      if ¬hasWildcard cmd then (cmd, [])
      else if '/' ∈ cmd then (last.take (cmd.length - last.length - 1), [])
      else ([], cmd)
    if hasWildcard parts.1 then .error (.paramInvalid, wildcardError)
    else if ['/', '/'] <+: param then
      .error (.paramInvalid, ["Too many / in the path - is it a joke?".toList])
    else .ok parts

/-- The replies of LIST, MLSD and MLST to a path that does not resolve. -/
def resolveError (name : String) : Errno → Effect
  | .notDir => .message 501 ["Not a directory".toList]
  | .wrongPath => .message 550 [name.toList, "Invalid path".toList]
  | .fileNoExist => .message 550 [name.toList, "No such file or directory (no access?)".toList]
  | .fileForbidden | .noPerm =>
    .message 550 [name.toList, "Negative on that, Houston (access denied)".toList]
  | _ => .message 501 [name.toList ++ " failed (syntax error?)".toList]

/-- The end of LIST and MLSD: the listing goes over a data connection that is
closed at once. -/
def sendListing (w : World) (user : User) (ctx : Context) : Outcome :=
  let data := openData w user ctx
  after data.effects <|
    match data.sock with
    | none => ⟨openDataError ctx, data.ctx, []⟩
    | some sock =>
      let reply := if w.listed then Effect.message 226 []
        else .message 501 ["Error processing list".toList]
      ⟨.ok, { data.ctx with pasvSocket := none, dataSocket := none, state := .unknown },
        [reply, .socketClose sock]⟩

/-- `do_list`, for LIST and NLST. -/
def doList (w : World) (user : User) (arg : Text) (ctx : Context) : Outcome :=
  if ¬user.may .list then answer ctx .noPerm 550 ["LIST", "No access"]
  else if arg.length > maxPath - 10 then
    answer ctx .paramBig 501 ["Argument or parameter too big."]
  else if ctx.pasvSocket = none ∧ ctx.dataport = 0 then
    answer ctx .noDataCtx 501 ["No data connection available."]
  else if ctx.state = .xfer then answer ctx .xferProgress 491 []
  else
    let ctx := { ctx with resume := 0 }
    match listArgument arg with
    | .error (ret, text) => ⟨ret, ctx, [.message 501 text]⟩
    | .ok (cmd, mask) =>
      match checkpathNew w.fs w.server ctx (some cmd) with
      | ⟨.ok, some path⟩ =>
        if ['.', '.'] <+: mask then ⟨.paramInvalid, ctx, [resolveError "LIST" .ok]⟩
        else if checkPermFull w.fs w user .list (removeTrailingSlash path) ≠ 0 then
          answer ctx .noPerm 550 ["LIST", "No access"]
        else sendListing w user ctx
      | ⟨ret, _⟩ => ⟨.paramInvalid, ctx, [resolveError "LIST" ret]⟩

/-- `do_mlsd` -/
def doMlsd (w : World) (user : User) (arg : Text) (ctx : Context) : Outcome :=
  if ¬user.may .list then answer ctx .noPerm 550 ["MLSD", "No access"]
  else if ctx.pasvSocket = none ∧ ctx.dataport = 0 then
    answer ctx .noDataCtx 501 ["No data connection available."]
  else if ctx.state = .xfer then answer ctx .xferProgress 491 []
  else
    match checkpathNew w.fs w.server ctx (some arg) with
    | ⟨.ok, some path⟩ =>
      if checkPermFull w.fs w user .list (removeTrailingSlash path) ≠ 0 then
        answer ctx .noPerm 550 ["LIST", "No access"]
      else sendListing w user ctx
    | ⟨ret, _⟩ => ⟨.paramInvalid, ctx, [resolveError "MLSD" ret]⟩

/-- MLST goes on to store its state. -/
def mlstAdmits (user : User) (arg : Text) : Bool :=
  user.may .list ∧ arg ≠ [] ∧ arg.length ≤ maxPath - 10

/-- `do_mlst` -/
def doMlst (w : World) (user : User) (arg : Text) (ctx : Context) : Outcome :=
  if ¬user.may .list then answer ctx .noPerm 550 ["MLST", "No access"]
  else if arg = [] then answer ctx .paramBig 501 ["Usage: MLST filename"]
  else if arg.length > maxPath - 10 then
    answer ctx .paramBig 501 ["Argument or parameter too big."]
  else
    let ctx := { ctx with state := .command }
    match checkpathNew w.fs w.server ctx (some arg) with
    | ⟨.ok, some path⟩ =>
      match w.mlstSingleFile (removeTrailingSlash path) with
      | none => answer ctx .paramInvalid 501 ["Error occurred"]
      | some facts =>
        ⟨.ok, { ctx with state := .unknown },
          [.raw ("250- Listing ".toList ++ arg ++ "\r\n".toList), .raw (facts ++ "\r\n".toList),
            .raw "250 End\r\n".toList]⟩
    | ⟨ret, _⟩ => ⟨.paramInvalid, ctx, [resolveError "MLST" ret]⟩

/-- STAT goes on to store its state. -/
def statAdmits (user : User) (arg : Text) : Bool :=
  user.may .list ∧ arg ≠ [] ∧ arg.length ≤ maxPath - 10

/-- `do_stat`. The listing goes over the control connection. -/
def doStat (w : World) (user : User) (arg : Text) (ctx : Context) : Outcome :=
  if ¬user.may .list then answer ctx .noPerm 550 ["LIST", "No access"]
  else if arg = [] ∨ arg.length > maxPath - 10 then
    answer ctx .paramBig 501 ["Argument or parameter too big."]
  else
    let ctx := { ctx with resume := 0, state := .command }
    match listArgument arg with
    | .error (ret, text) => ⟨ret, ctx, [.message 501 text]⟩
    | .ok (cmd, mask) =>
      match checkpathNew w.fs w.server ctx (some cmd) with
      | ⟨.ok, some path⟩ =>
        if ['.', '.'] <+: mask then answer ctx .paramInvalid 501 ["Invalid filter/path"]
        else if checkPermFull w.fs w user .list (removeTrailingSlash path) ≠ 0 then
          answer ctx .noPerm 550 ["STAT", "No access"]
        else
          ⟨.ok, { ctx with state := .unknown },
            [.raw "213-Status of .:\r\n".toList, .raw "total 0\r\n".toList,
              if w.listed then .raw "213 End of Status\r\n".toList
              else .raw "213 Error processing list\r\n".toList]⟩
      | _ => answer ctx .paramInvalid 501 ["Invalid filter/path"]

/-- The replies at `label_error_mkdir`. -/
def mkdirError (ctx : Context) (param : Text) (ret : Errno) : Outcome :=
  let text :=
    if ret = .noPerm then "Could not create dir: permission denied".toList
    else
      "Could not create dir '".toList ++ param ++ "' (".toList ++ Nat.toDigits 10 ret.code ++ [')']
  ⟨ret, ctx, [.message 553 [text]]⟩

/-- The path that `do_mkdir` tests for being hidden. -/
def mkdirPath (w : World) (param : Text) (ctx : Context) : Option Text :=
  if param.head? = some '/' then
    match checkpathNew w.fs w.server ctx (some param) with
    | ⟨.fileNoExist, path⟩ => path.map fun path => removeTrailingSlash (LexicalPath.slashed path)
    | _ => none
  else
    match checkpathNew w.fs w.server ctx (some ['.']) with
    | ⟨.ok, path⟩ => path.map fun path =>
      removeTrailingSlash ((LexicalPath.slashed path ++ param).take (maxPath - 1))
    | _ => none

/-- The path a section is looked up by. -/
def mkdirFtpPath (param : Text) (ctx : Context) : Text :=
  if param.head? = some '/' then param
  else LexicalPath.slashed (ctx.currentpath.text.take (maxPath - 1 - param.length)) ++ param

/-- The path filter of the section: only looked at below a directory that is not
the system's root. -/
def mkdirFiltered (w : World) (param buffer : Text) (ctx : Context) : Bool :=
  let name := (splitLast buffer).2
  '/' ∈ buffer ∧ name.length + 1 < buffer.length ∧ ¬w.pathFilter (mkdirFtpPath param ctx) name

/-- `do_mkdir` up to the store of its token: the directory to create, or the
outcome of a refusal. -/
def mkdirTarget (w : World) (user : User) (param : Text) (ctx : Context) : Except Outcome Text :=
  if param = [] ∨ param.length > maxPath - 1 then
    .error (answer ctx .paramInvalid 501 ["Invalid path"])
  else if ¬user.may .mkdir then .error (mkdirError ctx param .noPerm)
  else if param = ['/'] then .error (mkdirError ctx param .wrongPath)
  else
    match mkdirPath w param ctx with
    | none => .error (mkdirError ctx param .wrongPath)
    | some path =>
      match checkpathNew w.fs w.server ctx (some param) with
      | ⟨.fileNoExist, some buffer⟩ =>
        let hooked := [Effect.event .preMkdir [user.username, buffer]]
        if w.hook .preMkdir [user.username, buffer] ∉ [EventReply.ok, .break] then
          .error ((answer ctx .xferRejected 501 ["MKDIR denied"]).after hooked)
        else if isHiddenFile w.server path then
          .error ((answer ctx .fileForbidden 553 ["Forbidden!"]).after hooked)
        else if mkdirFiltered w param (dropSlash buffer) ctx then
          .error ((answer ctx .mkdirPathFilter 553
            ["Dirname does not match pathfilter"]).after hooked)
        else .ok buffer
      | ⟨ret, _⟩ => .error (mkdirError ctx param ret)

/-- `do_mkdir` -/
def doMkdir (w : World) (user : User) (param : Text) (ctx : Context) : Outcome :=
  match mkdirTarget w user param ctx with
  | .error refusal => refusal
  | .ok resolved =>
    let buffer := dropSlash resolved
    let ctx := { ctx with
      currentAction := { ctx.currentAction with
        token := .mkd, arg := buffer, currentFile := none } }
    after [.event .preMkdir [user.username, resolved]] <|
      if checkPermFull w.fsAfter w user .mkdir buffer ≠ 0 then mkdirError ctx param .noPerm
      else
        after [.fileMkdir buffer] <|
          if ¬w.fsMkdir buffer then mkdirError ctx param .commandFailed
          else
            let group := (user.groups.head?.bind w.server.getGroupByID).map (·.groupname)
            ⟨.ok, ctx,
              [.fileChown buffer user.username group, .raw "257- Command okay\r\n".toList,
                .event .mkdir [user.username, buffer], .message 257 [param, "created".toList]]⟩

/-- `do_dele` up to the store of its token: the file to remove, or the outcome of
a refusal. -/
def deleTarget (w : World) (user : Option User) (param : Text) (ctx : Context) :
    Except Outcome Text :=
  if param = [] ∨ param.length > maxPath - 1 then
    .error (answer ctx .paramInvalid 501 ["Syntax error"])
  else
    match user with
    | none => .error (answer ctx .userIDontExist 501 ["Mama says I don't exist!"])
    | some user =>
      if ¬user.may .dele then .error (answer ctx .noPerm 501 ["Permission denied"])
      else
        match checkpathNew w.fs w.server ctx (some param) with
        | ⟨.ok, some resolved⟩ =>
          let path := dropSlash resolved
          if isHiddenFile w.server path then
            .error (answer ctx .fileForbidden 501 ["Forbidden"])
          else
            match w.fs.lstat path with
            | none => .error (answer ctx .fileNoExist 501 ["File does not exist"])
            | some s =>
              if s.kind = .dir then .error (answer ctx .isDir 501 ["This is a directory!"])
              else .ok path
        | _ => .error (answer ctx .fileNoExist 501 ["Permission denied or inexistant file"])

/-- `do_dele`. The token is stored, and reset at the end. -/
def doDele (w : World) (user : Option User) (param : Text) (ctx : Context) : Outcome :=
  match deleTarget w user param ctx with
  | .error refusal => refusal
  | .ok path =>
    let username := (user.map (·.username)).getD []
    let ctx := { ctx with
      currentAction := { ctx.currentAction with token := .unknown, arg := path } }
    after [.fileRemove path] <|
      if w.fileRemove path then
        ⟨.ok, ctx, [.event .dele [username, path],
          .message 250 ["DELE".toList, " command successful".toList]]⟩
      else answer ctx .ok 501 ["DELE failed"]

/-- `do_abor` after the passive socket. -/
def aborTransfer (w : World) (user : User) (ctx : Context) : Outcome :=
  match ctx.currentAction.currentFile with
  | none => answer ctx .ok 226 []
  | some _ =>
    after [.message 426 []] <|
      if ctx.currentAction.token = .stor ∨ ctx.currentAction.token = .retr then
        let ended := dataEndTransfer w user (ctx.currentAction.token = .stor) ctx
        (answer ended.1 .ok 226 []).after ended.2
      else answer ctx .ok 226 []

/-- `do_abor`. A passive socket that is the data socket is left to the end of the
transfer. -/
def doAbor (w : World) (user : User) (ctx : Context) : Outcome :=
  if ctx.dataSocket = ctx.pasvSocket then aborTransfer w user ctx
  else (aborTransfer w user { ctx with pasvSocket := none }).after (closeSocket ctx.pasvSocket)

/-- The passive socket of PASV and EPSV: bound and listening, or closed again. -/
def openPasv (w : World) (family : NetFamily) (reply : Nat → Effect) (ctx : Context) : Outcome :=
  after (closeSocket ctx.pasvSocket) <|
    match w.passive with
    | none => answer { ctx with pasvSocket := none } .noDataCtx 425 []
    | some (sock, none) =>
      (answer { ctx with pasvSocket := none } .noDataCtx 425 []).after
        [.socketOpen sock, .socketClose sock]
    | some (sock, some port) =>
      ⟨.ok, { ctx with pasvSocket := some sock, datafamily := family },
        [.socketOpen sock, reply port]⟩

/-- `do_pasv`, for PASV and CPSV. -/
def doPasv (w : World) (ctx : Context) : Outcome :=
  openPasv w .inet4 (fun port => .message 227
    (w.pasvAddress ++ [Nat.toDigits 10 (port / 256 % 256), Nat.toDigits 10 (port % 256)])) ctx

/-- `do_epsv` -/
def doEpsv (w : World) (ctx : Context) : Outcome :=
  openPasv w .inet6 (fun port => .raw
    ("229 Entering Passive Mode (|||".toList ++ Nat.toDigits 10 port ++ "|)\r\n".toList)) ctx

/-- The end of a transfer that `data_execute` or the transfer thread has seen. -/
def finishTransfer (w : World) (user : User) (isUpload : Bool) (code : Nat) (ctx : Context) :
    Outcome :=
  let ended := dataEndTransfer w user isUpload ctx
  (answer ended.1 .ok code []).after ended.2

/-- `data_execute`: `moved` is what `file_read` returns for a download and what
the socket's read returns for an upload, `sent` what the socket's write returns. -/
def dataExecute (w : World) (user : User) (moved sent : Int) (ctx : Context) : Outcome :=
  let counted := { ctx with
    currentAction := { ctx.currentAction with
      bytesnow := ctx.currentAction.bytesnow + moved.toNat } }
  match ctx.currentAction.token with
  | .retr =>
    if moved > 0 then
      if sent ≤ 0 then finishTransfer w user false 426 ctx else ⟨.ok, counted, []⟩
    else finishTransfer w user false 226 ctx
  | .stor => if moved > 0 then ⟨.ok, counted, []⟩ else finishTransfer w user true 226 ctx
  | _ => ⟨.ok, ctx, []⟩

/-- The end of `do_local_retr` and `do_local_stor`, run by the transfer thread. -/
def endThread (w : World) (user : User) (isUpload exitOk : Bool) (ctx : Context) : Outcome :=
  let ended := finishTransfer w user isUpload (if exitOk then 226 else 426) ctx
  { ended with ctx := { ended.ctx with isTransferring := false } }

/-- HARD_XFER_TIMEOUT -/
def hardXferTimeout : Nat := 30

/-- `check_timeout`, after `delay` seconds on the control connection and
`dataDelay` on the data connection. -/
def checkTimeout (w : World) (user : User) (delay dataDelay : Nat) (ctx : Context) : Outcome :=
  if ctx.currentAction.token = .stor ∨ ctx.currentAction.token = .retr then
    if dataDelay > hardXferTimeout then
      let args := [user.username, ctx.currentAction.arg]
      let denied := if w.hook .postUpload args = .deny then
        [Effect.fileRemove ctx.currentAction.arg, .event .postUploadDenied args] else []
      ⟨.ok, dataClose { ctx with
          currentAction := { ctx.currentAction with
            currentFile := none, bytesnow := 0, token := .unknown } },
        closeFile ctx.currentAction.currentFile ++ [.event .postUpload args] ++ denied ++
          closeSocket ctx.dataSocket ++ [.message 426 []]⟩
    else ⟨.ok, ctx, []⟩
  else if user.has 'I' then ⟨.ok, ctx, []⟩
  else
    let groups := user.groups.filterMap w.server.getGroupByID
    let limits := user.maxIdleTime :: groups.map (·.maxIdleTime)
    if limits.any fun limit => limit > 0 ∧ delay > limit then
      answer { ctx with exitclient := true } .ok 421 ["Timeout, closing connection"]
    else ⟨.ok, ctx, []⟩

end Wzdftpd
