import Wzdftpd.DataTarget
import Wzdftpd.SessionCommands

/- The client loop as a machine: commands, data events, timeouts and the transfer
thread (`clientThreadProc` in wzd_ClientThread.c). -/
namespace Wzdftpd

/-- The commands of the table. `other` stands for those that write no field of a transfer: they
may leave any value in the fields it names. -/
inductive SessionCommand where
  | retr (stale arg : Text)
  | stor (name arg : Text)
  | rnfr (arg : Text)
  | rnto (stale arg : Text)
  | port (arg : Text)
  | eprt (pton : InetPton) (arg : Text)
  | pasv
  | epsv
  | list (arg : Text)
  | mlsd (arg : Text)
  | mlst (arg : Text)
  | stat (arg : Text)
  | mkd (arg : Text)
  | dele (arg : Text)
  | abor
  | other (userid : Nat) (path : CurrentPath) (resume : Nat) (tls : TlsDataMode) (leaves : Bool)

def SessionCommand.run (w : World) (user : User) (ctx : Context) : SessionCommand → Outcome
  | .retr stale arg => doRetr w user stale arg ctx
  | .stor name arg => doStor w (some user) name arg ctx
  | .rnfr arg => doRnfr w (some user) arg ctx
  | .rnto stale arg => doRnto w (some user) stale arg ctx
  | .port arg => doPort user arg ctx
  | .eprt pton arg => doEprt pton user arg ctx
  | .pasv => doPasv w ctx
  | .epsv => doEpsv w ctx
  | .list arg => doList w user arg ctx
  | .mlsd arg => doMlsd w user arg ctx
  | .mlst arg => doMlst w user arg ctx
  | .stat arg => doStat w user arg ctx
  | .mkd arg => doMkdir w user arg ctx
  | .dele arg => doDele w (some user) arg ctx
  | .abor => doAbor w user ctx
  | .other userid path resume tls leaves =>
    ⟨.ok, { ctx with
      userid := userid, currentpath := path, resume := resume, tlsDataMode := tls,
      exitclient := leaves }, []⟩

/-- What one turn of the loop finds, or what the transfer thread does meanwhile. -/
inductive SessionEvent where
  | command (w : World) (user : User) (cmd : SessionCommand)
  | data (w : World) (user : User) (moved sent : Int)
  | tick (w : World) (user : User) (delay dataDelay : Nat)
  | threadEnds (w : World) (user : User) (isUpload exitOk : Bool)

/-- `data_set_fd` and `data_check_fd`: the data socket is only looked at here. -/
def dataWatched (ctx : Context) : Bool :=
  ¬ctx.transferThread ∧ (ctx.currentAction.token = .retr ∨ ctx.currentAction.token = .stor) ∧
    ctx.state = .xfer ∧ ctx.dataSocket ≠ none

def joinThread (ctx : Context) : Context :=
  if ctx.transferThread ∧ ¬ctx.isTransferring then { ctx with transferThread := false } else ctx

def SessionEvent.run (ctx : Context) : SessionEvent → Outcome
  | .command w user cmd => cmd.run w user ctx
  | .data w user moved sent =>
    if dataWatched ctx then dataExecute w user moved sent ctx else ⟨.ok, ctx, []⟩
  | .tick w user delay dataDelay => checkTimeout w user delay dataDelay ctx
  | .threadEnds w user isUpload exitOk =>
    if ctx.isTransferring then endThread w user isUpload exitOk ctx else ⟨.ok, ctx, []⟩

/-- The open sockets, with a number as often as it has been handed out. -/
def replay (sockets : List Nat) (effects : List Effect) : List Nat :=
  effects.foldl (fun sockets effect => match effect with
    | .socketOpen sock => sock :: sockets
    | .socketClose sock => sockets.erase sock
    | _ => sockets) sockets

/-- A session and the sockets the system holds open for it. -/
structure Live where
  ctx : Context
  sockets : List Nat

def Live.joined (live : Live) : Live := ⟨joinThread live.ctx, live.sockets⟩

def Live.apply (live : Live) (out : Outcome) : Live := ⟨out.ctx, replay live.sockets out.effects⟩

/-- One turn of `while (!context->exitclient)`. -/
def Live.step (live : Live) (event : SessionEvent) : Live :=
  if live.ctx.exitclient then live else live.joined.apply (event.run live.joined.ctx)

end Wzdftpd
