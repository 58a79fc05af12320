import Wzdftpd.TransferMoves

/- Whether `STATE_XFER` means that a transfer is under way, over whole runs of the
client loop. -/
namespace Wzdftpd

/-- The commands that write to a running transfer: the state by STAT and MLST, the
token by MKD, RNFR and DELE, and the data socket by a new PORT or PASV, when it
came from a PASV itself. -/
def SessionCommand.Overwrites (w : World) (user : User) (ctx : Context) : SessionCommand → Prop
  | .stat arg => statAdmits user arg = true
  | .mlst arg => mlstAdmits user arg = true
  | .mkd arg => ∃ target, mkdirTarget w user arg ctx = .ok target
  | .rnfr arg => ∃ target, rnfrTarget w (some user) arg ctx = .ok target
  | .dele arg => ∃ target, deleTarget w (some user) arg ctx = .ok target
  | .port _ | .eprt _ _ | .pasv | .epsv => ctx.pasvSocket = ctx.dataSocket
  | _ => False

/-- A turn of the loop that does not write to a running transfer. -/
def Undisturbed (live : Live) : SessionEvent → Prop
  | .command w user cmd =>
    FreshAccept w live.ctx ∧ (live.ctx.state = .xfer → ¬cmd.Overwrites w user live.ctx)
  | _ => True

/-- The state is `STATE_XFER` exactly while a RETR or STOR has its file and its
data socket open. -/
def TransferInvariant (live : Live) : Prop :=
  live.ctx.state = .xfer ↔
    (live.ctx.currentAction.token = .retr ∨ live.ctx.currentAction.token = .stor) ∧
      live.ctx.currentAction.currentFile ≠ none ∧
      ∃ sock, live.ctx.dataSocket = some sock ∧ sock ∈ live.sockets

/-- A transfer is running, or nothing is left of one. -/
def Coherent (live : Live) : Prop := Running live ∨ Resting live.ctx

variable {w : World} {live : Live} {event : SessionEvent}

theorem Coherent.transferInvariant (coherent : Coherent live) : TransferInvariant live := by
  rcases coherent with ⟨state, running⟩ | ⟨state, file⟩
  · exact iff_of_true state running
  · exact iff_of_false state fun running => running.2.1 file

theorem SessionCommand.run_running {user : User} {ctx : Context} {cmd : SessionCommand}
    (xfer : ctx.state = .xfer)
    (token : ctx.currentAction.token = .retr ∨ ctx.currentAction.token = .stor)
    (file : ctx.currentAction.currentFile ≠ none) (spared : ¬cmd.Overwrites w user ctx) :
    Spares ctx (cmd.run w user ctx) ∨ Settles (cmd.run w user ctx) := by
  cases cmd with
  | retr stale arg => exact .inl (doRetr_busy xfer ..).spares
  | stor name arg => exact .inl (doStor_busy xfer ..).spares
  | rnfr arg =>
    simp only [SessionCommand.run, doRnfr]
    split
    · rename_i stopped
      exact .inl (rnfrTarget_refused stopped).spares
    · rename_i target admitted
      exact absurd ⟨target, admitted⟩ spared
  | rnto stale arg =>
    have other : ctx.currentAction.token ≠ .rnfr := by
      rcases token with same | same <;> simp [same]
    exact .inl (doRnto_needs_rnfr other ..).spares
  | port arg => exact .inl (doPort_spares spared ..)
  | eprt pton arg => exact .inl (doEprt_spares spared ..)
  | pasv => exact .inl (openPasv_spares spared _ _ fun _ => quiet_message _ _)
  | epsv => exact .inl (openPasv_spares spared _ _ fun _ => quiet_raw _)
  | list arg => exact .inl (doList_busy xfer ..).spares
  | mlsd arg => exact .inl (doMlsd_busy xfer ..).spares
  | mlst arg => exact .inl (doMlst_refused (Bool.eq_false_iff.mpr spared) ..).spares
  | stat arg => exact .inl (doStat_refused (Bool.eq_false_iff.mpr spared) ..).spares
  | mkd arg =>
    simp only [SessionCommand.run, doMkdir]
    split
    · rename_i stopped
      exact .inl (mkdirTarget_refused stopped).spares
    · rename_i target admitted
      exact absurd ⟨target, admitted⟩ spared
  | dele arg =>
    simp only [SessionCommand.run, doDele]
    split
    · rename_i stopped
      exact .inl (deleTarget_refused stopped).spares
    · rename_i target admitted
      exact absurd ⟨target, admitted⟩ spared
  | abor => exact .inr (doAbor_ends token file w user)
  | other userid path resume tls leaves => exact .inl ⟨rfl, rfl, rfl, rfl, fun _ _ _ mem => mem⟩

theorem SessionCommand.run_resting {ctx : Context} (resting : Resting ctx)
    (fresh : FreshAccept w ctx) (user : User) (cmd : SessionCommand) :
    Settles (cmd.run w user ctx) := by
  cases cmd with
  | retr stale arg => exact doRetr_settles resting fresh ..
  | stor name arg => exact doStor_settles resting fresh ..
  | rnfr arg => exact doRnfr_settles resting ..
  | rnto stale arg => exact doRnto_settles resting ..
  | port arg => exact doPort_settles resting ..
  | eprt pton arg => exact doEprt_settles resting ..
  | pasv => exact openPasv_settles resting ..
  | epsv => exact openPasv_settles resting ..
  | list arg => exact doList_settles resting fresh ..
  | mlsd arg => exact doMlsd_settles resting fresh ..
  | mlst arg => exact doMlst_settles resting ..
  | stat arg => exact doStat_settles resting ..
  | mkd arg => exact doMkdir_settles resting ..
  | dele arg => exact doDele_settles resting ..
  | abor => exact doAbor_settles resting ..
  | other userid path resume tls leaves => exact .inl resting

/-- What one turn of the loop does to a coherent session. -/
theorem SessionEvent.run_moves (coherent : Coherent live) (undisturbed : Undisturbed live event) :
    Spares live.ctx (event.run live.ctx) ∨ Settles (event.run live.ctx) := by
  cases event with
  | command w user cmd =>
    obtain ⟨fresh, spared⟩ := undisturbed
    rcases coherent with ⟨xfer, token, file, _⟩ | resting
    · exact SessionCommand.run_running xfer token file (spared xfer)
    · exact .inr (SessionCommand.run_resting resting fresh user cmd)
  | data w user moved sent =>
    simp only [SessionEvent.run]
    split
    · exact dataExecute_moves ..
    · exact .inl (Spares.refl _)
  | tick w user delay dataDelay =>
    rcases coherent with ⟨_, token, _⟩ | resting
    · exact checkTimeout_moves token ..
    · exact .inr (checkTimeout_settles resting ..)
  | threadEnds w user isUpload exitOk =>
    simp only [SessionEvent.run]
    split
    · exact .inr (endThread_settles ..)
    · exact .inl (Spares.refl _)

theorem Coherent.apply {out : Outcome} (coherent : Coherent live)
    (moves : Spares live.ctx out ∨ Settles out) : Coherent (live.apply out) := by
  rcases moves with ⟨state, token, file, data, survives⟩ | resting | starts
  · rcases coherent with ⟨xfer, kind, current, sock, bound, mem⟩ | ⟨idle, none⟩
    · refine .inl ⟨state.trans xfer, kind.imp token.trans token.trans, ?_, sock, data.trans bound,
        survives sock bound _ mem⟩
      exact fun closed => current (file.symm.trans closed)
    · exact .inr ⟨fun xfer => idle (state.symm.trans xfer), file.trans none⟩
  · exact .inr resting
  · obtain ⟨xfer, kind, file, sock, bound, opens⟩ := starts
    exact .inl ⟨xfer, kind, file, sock, bound, opens _⟩

theorem Coherent.joined (coherent : Coherent live) : Coherent live.joined := by
  unfold Live.joined joinThread
  split <;> exact coherent

theorem Live.step_coherent (coherent : Coherent live)
    (undisturbed : Undisturbed live.joined event) : Coherent (live.step event) := by
  unfold Live.step
  split
  · exact coherent
  · exact coherent.joined.apply (SessionEvent.run_moves coherent.joined undisturbed)

/-- A session that no command disturbs during a transfer has `STATE_XFER` exactly
while a transfer is under way. -/
theorem transferInvariant_throughout (live : Live) (events : List SessionEvent)
    (login : live.ctx.state = .command) (noFile : live.ctx.currentAction.currentFile = none)
    (undisturbed : Runs.Always Live.step (fun live => Undisturbed live.joined) live events) :
    Runs.Throughout Live.step TransferInvariant live events := by
  have start : Coherent live := .inr ⟨by rw [login]; nofun, noFile⟩
  have kept := Runs.throughout_of_always Live.step Coherent _
    (fun _ _ coherent safe => Live.step_coherent coherent safe) events live start undisturbed
  exact kept.imp fun _ coherent => coherent.transferInvariant

/-- `/srv/f` is a file, and the client listens. -/
def fetchWorld : World :=
  let fs := FileSystem.ofList [("/srv".toList, .dir), ("/srv/f".toList, .reg)]
  { server := .single srvUser, fs := fs, fsAfter := fs, fsOpen := fun _ _ => some 5
    connect := some 7 }

def fetchFile : List SessionEvent :=
  [.command fetchWorld srvUser (.port "127,0,0,1,200,10".toList),
    .command fetchWorld srvUser (.retr [] "f".toList)]

theorem transferInvariant_throughout_download :
    (fetchFile.foldl Live.step ⟨srvContext, []⟩).ctx.state = .xfer ∧
      Runs.Throughout Live.step TransferInvariant ⟨srvContext, []⟩ fetchFile := by
  refine ⟨by decide, transferInvariant_throughout ⟨srvContext, []⟩ fetchFile rfl rfl ?_⟩
  exact ⟨⟨nofun, nofun⟩, ⟨nofun, fun _ => id⟩, trivial⟩

/-- STAT during a download: the state is lost, and with it the transfer, whose
socket the loop no longer watches. -/
theorem stat_stops_download :
    let live := fetchFile.foldl Live.step ⟨srvContext, []⟩
    let after := live.step (.command fetchWorld srvUser (.stat "f".toList))
    live.ctx.state = .xfer ∧ after.ctx.state ≠ .xfer ∧
      after.ctx.currentAction = ⟨.retr, "/srv/f".toList, some 5, 0⟩ ∧
      after.ctx.dataSocket = some 7 ∧ after.sockets = [7] ∧ ¬TransferInvariant after ∧
      dataWatched after.ctx = false := by
  intro live after
  have lost : after.ctx.state ≠ .xfer := by decide
  have action : after.ctx.currentAction = ⟨.retr, "/srv/f".toList, some 5, 0⟩ := by decide
  have data : after.ctx.dataSocket = some 7 := by decide
  have open7 : after.sockets = [7] := by decide
  refine ⟨by decide, lost, action, data, open7, fun holds => lost (holds.mpr ?_), by decide⟩
  rw [action, open7]
  exact ⟨.inl rfl, nofun, 7, data, List.mem_singleton.mpr rfl⟩

end Wzdftpd
