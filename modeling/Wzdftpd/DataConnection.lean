import Wzdftpd.Session

/- The data connection of a session: how it is opened for a transfer and what
ending a transfer does (wzd_ClientThread.c and wzd_data.c). -/
namespace Wzdftpd

/-- `fxp_is_denied` -/
def fxpIsDenied (user : User) : Bool := user.has 'F'

/-- `test_fxp`: whether the remote address differs from the client's. -/
def testFxp (remote : Ip) (family : NetFamily) (ctx : Context) : Bool :=
  match family with
  | .inet4 => remote.front ≠ ctx.hostip.front
  | .inet6 => remote ≠ ctx.hostip
  | .none => true

/-- A data socket, if the connection came up, and what was done for it. -/
structure Connection where
  sock : Option Nat
  ctx : Context
  effects : List Effect

def Connection.failed (ctx : Context) (effects : List Effect) (code : Nat) (args : List String) :
    Connection :=
  ⟨none, ctx, effects ++ [.message code (args.map String.toList)]⟩

def tlsMissing (user : User) (ctx : Context) : Bool :=
  user.has 'K' ∧ ctx.tlsDataMode ≠ .priv

/-- `waitconnect`. A socket whose negotiation fails is not closed. -/
def waitconnect (w : World) (user : User) (ctx : Context) : Connection :=
  if tlsMissing user ctx then
    .failed ctx [] 501 ["Your class must use encrypted data connections"]
  else if ctx.datafamily = .none then .failed ctx [] 425 []
  else
    match w.connect with
    | none => .failed ctx [.message 150 []] 425 []
    | some sock =>
      if ctx.tlsDataMode = .priv ∧ ¬w.tlsInit then
        .failed ctx [.message 150 [], .socketOpen sock] 426
          ["Data connection closed (SSL/TLS negotiation failed)."]
      else ⟨some sock, ctx, [.message 150 [], .socketOpen sock]⟩

/-- `waitaccept` on the passive socket `listening`. -/
def waitaccept (w : World) (user : User) (listening : Nat) (ctx : Context) : Connection :=
  if tlsMissing user ctx then
    .failed ctx [] 501 ["Your class must use encrypted data connections"]
  else
    match w.accept with
    | none => .failed { ctx with pasvSocket := none } [.socketClose listening] 501 ["PASV timeout"]
    | some (sock, remote, family) =>
      let ctx := { ctx with datafamily := family }
      if fxpIsDenied user ∧ testFxp remote family ctx then
        .failed { ctx with dataip := .zero, pasvSocket := none }
          [.socketOpen sock, .socketClose listening, .socketClose sock] 501 ["FXP not allowed"]
      else if ctx.tlsDataMode = .priv ∧ ¬w.tlsInit then
        .failed { ctx with pasvSocket := none }
          [.socketOpen sock, .socketClose listening, .socketClose sock] 426
          ["Data connection closed (SSL/TLS negotiation failed)."]
      else
        ⟨some sock,
          { ctx with pasvSocket := some sock, dataSocket := some sock, datamode := .pasv },
          [.socketOpen sock, .socketClose listening]⟩

/-- The choice every transfer command makes between PORT and PASV. -/
def openData (w : World) (user : User) (ctx : Context) : Connection :=
  match ctx.pasvSocket with
  | none => waitconnect w user ctx
  | some listening =>
    let connection := waitaccept w user listening ctx
    { connection with effects := .message 150 [] :: connection.effects }

/-- The code a command returns when the data connection did not come up. -/
def openDataError (ctx : Context) : Errno :=
  if ctx.pasvSocket = none then .connectTimeout else .pasvFailed

/-- Closing a descriptor that may be `-1`. -/
def closeSocket (sock : Option Nat) : List Effect := (sock.map Effect.socketClose).toList

def closeFile (fd : Option Nat) : List Effect := (fd.map Effect.fileClose).toList

/-- `data_close` -/
def dataClose (ctx : Context) : Context :=
  { ctx with dataSocket := none, pasvSocket := none, state := .unknown }

/-- `data_end_transfer` -/
def dataEndTransfer (w : World) (user : User) (isUpload : Bool) (ctx : Context) :
    Context × List Effect :=
  let args := [user.username, ctx.currentAction.arg]
  let event := if isUpload then Event.postUpload else .postDownload
  let denied := isUpload ∧ w.hook event args = .deny
  let effects := closeFile ctx.currentAction.currentFile ++ closeSocket ctx.dataSocket ++
    [.event event args] ++
    if denied then [.fileRemove ctx.currentAction.arg, .event .postUploadDenied args] else []
  (dataClose { ctx with
    currentAction := { ctx.currentAction with
      currentFile := none, bytesnow := 0, token := .unknown } },
    effects)

end Wzdftpd
