import Wzdftpd.CheckPath
import Wzdftpd.DataConnection

/- The commands that hand a system path to the file layer: RETR, STOR and APPE,
RNFR and RNTO (wzd_ClientThread.c), with `file_open` and `file_rename` below
them (wzd_file.c).

`user` is the session's entry of the user table. Where the source tests the
pointer it is an option here, elsewhere it is dereferenced at once. An absent
argument is the empty text: every handler answers alike for the two. -/
namespace Wzdftpd

open Outcome

/-- `if (path[strlen(path)-1]=='/') path[strlen(path)-1]='\0';` -/
def dropSlash (path : Text) : Text := if path.getLast? = some '/' then path.dropLast else path

/-- `_checkPerm` with as many levels of recursion as the path can have. -/
def checkPermFull (fs : FileSystem) (w : World) (user : User) (right : Right) (path : Text) : Int :=
  checkPerm fs w.server user right (path.length + 1) path

/-- `file_open`: the descriptor, and what was done with it. -/
def fileOpen (w : World) (user : User) (path : Text) (mode : OpenMode) : Option Nat × List Effect :=
  let called := [Effect.fileOpen path mode]
  let right := if mode = .wrOnlyCreat then Right.stor else .retr
  if checkPermFull w.fsAfter w user right path ≠ 0 then (none, called)
  else if (w.fsAfter.stat path).map (·.kind) = some .dir then (none, called)
  else
    match w.fsOpen path mode with
    | none => (none, called)
    | some fd =>
      let refused : Bool := match mode with
        | .wrOnlyCreat => w.isLocked fd = some true
        | .rdOnly => w.isLocked fd = some true ∧ w.server.denyAccessFilesUploaded
      if refused then (none, called ++ [.fileClose fd]) else (some fd, called)

/-- The end of RETR and STOR: the transfer is under way, or handed to a thread. -/
def startTransfer (w : World) (user : User) (token : Token) (path : Text) (fd sock : Nat)
    (ctx : Context) : Outcome :=
  let ctx := { ctx with
    dataSocket := some sock, state := .xfer, resume := 0,
    currentAction := { token := token, arg := path, currentFile := some fd, bytesnow := 0 } }
  if w.server.experimental then
    if ctx.transferThread then
      let (ctx, effects) := dataEndTransfer w user false ctx
      (answer ctx .xferProgress 426 []).after effects
    else ⟨.ok, { ctx with isTransferring := true, transferThread := true }, []⟩
  else ⟨.ok, ctx, []⟩

/-- RETR from the hook on, with the path the local buffer holds. -/
def retrPath (w : World) (user : User) (arg path : Text) (ctx : Context) : Outcome :=
  let ctx := { ctx with currentAction := { ctx.currentAction with arg := path } }
  after [.event .preDownload [user.username, path]] <|
    if w.hook .preDownload [user.username, path] ∉ [EventReply.ok, .break] then
      answer ctx .xferRejected 501 ["Download denied"]
    else if testPath w.fsAfter w.server (w.server.getUserByID ctx.userid) path ≠ .ok then
      answer ctx .paramInvalid 501 ["Invalid file name"]
    else
      let path := dropSlash path
      if isHiddenFile w.server path then answer ctx .fileForbidden 501 ["Forbidden"]
      else if ratioCheckDownload w.fsAfter user path ≠ 0 then
        answer ctx .credsInsuff 501 ["Insufficient credits - Upload first"]
      else
        let opened := fileOpen w user path .rdOnly
        after opened.2 <|
          match opened.1 with
          | none =>
            ⟨.fileNoExist, ctx,
              [.message 550 [arg, "nonexistant file or permission denied".toList]]⟩
          | some fd =>
            let data := openData w user ctx
            after data.effects <|
              match data.sock with
              | none => ⟨openDataError ctx, data.ctx, [.fileClose fd]⟩
              | some sock => startTransfer w user .retr path fd sock data.ctx

/-- `do_retr`. The local buffer holds `stale` before the resolver is called. -/
def doRetr (w : World) (user : User) (stale arg : Text) (ctx : Context) : Outcome :=
  if ¬user.may .retr then answer ctx .noPerm 550 ["RETR", "No access"]
  else if ctx.pasvSocket = none ∧ ctx.dataport = 0 then
    answer ctx .noDataCtx 501 ["No data connection available - issue PORT or PASV first"]
  else if ctx.state = .xfer then answer ctx .xferProgress 491 []
  else if arg = [] then answer ctx .paramInvalid 501 ["Incorrect filename"]
  else if arg.length > maxPath - 1 then answer ctx .paramBig 501 ["Filename too long"]
  else
    let resolved := checkpathNew w.fs w.server ctx (some arg)
    if resolved.ret ∉ [Errno.ok, .noPerm, .fileNoExist] then
      answer ctx .paramInvalid 501 ["Invalid file name"]
    else retrPath w user arg (resolved.path.getD stale) ctx

/-- What STOR appends its argument to: the root, or the resolved current directory. -/
def storBase (w : World) (user : User) (arg : Text) (ctx : Context) : Option Text :=
  if arg.head? = some '/' then some user.rootpath
  else
    let resolved := checkpathNew w.fs w.server ctx (some ['.'])
    if resolved.ret ≠ .ok then none else resolved.path.map LexicalPath.slashed

/-- STOR from the composed path on. -/
def storPath (w : World) (user : User) (name path : Text) (ctx : Context) : Outcome :=
  if isHiddenFile w.server path then answer ctx .fileForbidden 501 ["Forbidden"]
  else
    after [.event .preUpload [user.username, path]] <|
      if w.hook .preUpload [user.username, path] ∉ [EventReply.ok, .break] then
        answer ctx .xferRejected 501 ["Upload denied"]
      else
        let ctx :=
          if name.map Char.toLower = "appe".toList then { ctx with resume := 2 ^ 64 - 1 } else ctx
        let opened := fileOpen w user path .wrOnlyCreat
        after opened.2 <|
          match opened.1 with
          | none => answer ctx .fileNoExist 501 ["Nonexistant file or permission denied"]
          | some fd =>
            let data := openData w user ctx
            after data.effects <|
              match data.sock with
              | none => ⟨openDataError ctx, data.ctx, [.fileClose fd]⟩
              | some sock =>
                -- the group pointer is not initialised for a user without groups
                let group := (user.groups.head?.bind w.server.getGroupByID).map (·.groupname)
                after [.fileChown path user.username group] <|
                  startTransfer w user .stor path fd sock data.ctx

/-- `do_stor`, for STOR and APPE. -/
def doStor (w : World) (user : Option User) (name arg : Text) (ctx : Context) : Outcome :=
  match user with
  | none => answer ctx .noPerm 550 ["STOR", "No access"]
  | some user =>
    if ¬user.may .stor then answer ctx .noPerm 550 ["STOR", "No access"]
    else if ctx.pasvSocket = none ∧ ctx.dataport = 0 then
      answer ctx .noDataCtx 503 ["Issue PORT or PASV First"]
    else if ctx.state = .xfer then answer ctx .xferProgress 491 []
    else if arg = [] then answer ctx .paramInvalid 501 ["Incorrect filename"]
    else if arg.length > maxPath - 1 then answer ctx .paramBig 501 ["Filename too long"]
    else
      match storBase w user arg ctx with
      | none => answer ctx .paramInvalid 501 ["Incorrect filename"]
      -- `strlcat` stops at the size of the buffer
      | some base => storPath w user name ((base ++ arg).take (maxPath - 1)) ctx

/-- `do_rnfr` up to the store of its token: the file, or the outcome of a refusal. -/
def rnfrTarget (w : World) (user : Option User) (arg : Text) (ctx : Context) :
    Except Outcome Text :=
  match user with
  | none => .error (answer ctx .fileNoExist 550 ["RNFR", "permission denied"])
  | some user =>
    if ¬user.may .rnfr then .error (answer ctx .fileNoExist 550 ["RNFR", "permission denied"])
    else if arg = [] ∨ arg.length ≥ maxPath then
      .error (answer ctx .fileNoExist 550 ["RNFR", "file does not exist"])
    else
      match checkpathNew w.fs w.server ctx (some arg) with
      | ⟨.ok, some resolved⟩ =>
        let path := dropSlash resolved
        if isHiddenFile w.server path then .error (answer ctx .fileForbidden 501 ["Forbidden"])
        else .ok path
      | _ => .error (answer ctx .fileNoExist 550 ["RNFR", "file does not exist"])

/-- `do_rnfr` -/
def doRnfr (w : World) (user : Option User) (arg : Text) (ctx : Context) : Outcome :=
  match rnfrTarget w user arg ctx with
  | .error refusal => refusal
  | .ok path =>
    answer { ctx with
      currentAction := { token := .rnfr, arg := path, currentFile := none, bytesnow := 0 } }
      .ok 350 ["OK, send RNTO"]

def splitParent (target : Text) : Text :=
  target.take (target.length - (target.reverse.takeWhile (· ≠ '/')).length - 1)

/-- `file_rename`: `0` when the file has been renamed. -/
def fileRename (w : World) (user : User) (source target : Text) : Int :=
  if '/' ∉ target then 1
  else if checkPermFull w.fsAfter w user .rnfr source ≠ 0 then 1
  else if checkPermFull w.fsAfter w user .stor (splitParent target) ≠ 0 then 1
  else if w.fsRename source target then 0 else 1

/-- RNTO from the local buffer on. -/
def rntoPath (w : World) (user : User) (path : Text) (ctx : Context) : Outcome :=
  let path := dropSlash path
  let source := ctx.currentAction.arg
  let args := [user.username, source, path]
  if isHiddenFile w.server path then answer ctx .fileForbidden 501 ["Forbidden"]
  else
    after [.event .preRename args] <|
      if w.hook .preRename args = .deny then answer ctx .fileForbidden 501 ["Forbidden"]
      else
        let ctx := { ctx with
          currentAction := { ctx.currentAction with
            token := .unknown, currentFile := none, bytesnow := 0 } }
        after [.fileRename source path] <|
          if fileRename w user source path ≠ 0 then answer ctx .ok 550 ["RNTO", "command failed"]
          else
            after [.event .postRename args] <|
              answer ctx .ok 250 ["RNTO", " command okay"]

/-- `do_rnto`. The code of the resolver is not looked at: the buffer keeps `stale` when nothing
is written. -/
def doRnto (w : World) (user : Option User) (stale arg : Text) (ctx : Context) : Outcome :=
  match user with
  | none => answer ctx .fileNoExist 550 ["RNTO", "permission denied"]
  | some user =>
    if ¬user.may .rnfr then answer ctx .fileNoExist 550 ["RNTO", "permission denied"]
    else if arg = [] ∨ arg.length ≥ maxPath then
      answer ctx .paramInvalid 553 ["RNTO", "wrong file name?"]
    else if ctx.currentAction.token ≠ .rnfr then
      answer ctx .paramInvalid 553 ["RNTO", "send RNFR before!"]
    else
      rntoPath w user ((checkpathNew w.fs w.server ctx (some arg)).path.getD stale) ctx

end Wzdftpd
