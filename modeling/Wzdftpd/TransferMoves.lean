import Wzdftpd.ClientLoop

/- What each handler can do to the fields of a transfer: refuse and leave the
session as it was, spare a running transfer, or leave the session with a transfer
just started or with none. -/
namespace Wzdftpd

open List

theorem replay_append (sockets : List Nat) (first second : List Effect) :
    replay sockets (first ++ second) = replay (replay sockets first) second :=
  foldl_append

/-- A socket that is open before some effects is open after them. -/
def Survives (sock : Nat) (effects : List Effect) : Prop :=
  ∀ sockets, sock ∈ sockets → sock ∈ replay sockets effects

/-- A socket is open after some effects, whatever was open before. -/
def Opens (sock : Nat) (effects : List Effect) : Prop := ∀ sockets, sock ∈ replay sockets effects

def Quiet (effects : List Effect) : Prop :=
  ∀ effect ∈ effects, ∀ sock, effect ≠ .socketOpen sock ∧ effect ≠ .socketClose sock

theorem Quiet.replay_eq {effects : List Effect} (quiet : Quiet effects) (sockets : List Nat) :
    replay sockets effects = sockets := by
  induction effects with
  | nil => rfl
  | cons effect effects ih =>
    have rest := ih (forall_mem_cons.mp quiet).2
    have here := quiet effect mem_cons_self
    cases effect with
    | socketOpen sock => exact absurd rfl (here sock).1
    | socketClose sock => exact absurd rfl (here sock).2
    | _ => exact rest

theorem Quiet.survives {effects : List Effect} (quiet : Quiet effects) (sock : Nat) :
    Survives sock effects := by
  intro sockets mem
  rw [quiet.replay_eq]
  exact mem

theorem quiet_singleton {effect : Effect}
    (apart : ∀ sock, effect ≠ .socketOpen sock ∧ effect ≠ .socketClose sock) : Quiet [effect] := by
  intro only mem
  rw [mem_singleton.mp mem]
  exact apart

theorem quiet_message (code : Nat) (args : List Text) : Quiet [.message code args] :=
  quiet_singleton fun _ => ⟨nofun, nofun⟩

theorem quiet_raw (text : Text) : Quiet [.raw text] :=
  quiet_singleton fun _ => ⟨nofun, nofun⟩

theorem quiet_event (id : Event) (args : List Text) : Quiet [.event id args] :=
  quiet_singleton fun _ => ⟨nofun, nofun⟩

variable {second : List Effect}

theorem Quiet.append {first : List Effect} (before : Quiet first) (after : Quiet second) :
    Quiet (first ++ second) := by
  intro effect mem
  exact (mem_append.mp mem).elim (before effect) (after effect)

variable {sock : Nat}

theorem Survives.append {first : List Effect} (before : Survives sock first)
    (after : Survives sock second) : Survives sock (first ++ second) := by
  intro sockets mem
  rw [replay_append]
  exact after _ (before _ mem)

theorem Opens.append_left (opens : Opens sock second) (first : List Effect) :
    Opens sock (first ++ second) := by
  intro sockets
  rw [replay_append]
  exact opens _

theorem Opens.append_right {first : List Effect} (opens : Opens sock first)
    (after : Survives sock second) : Opens sock (first ++ second) := by
  intro sockets
  rw [replay_append]
  exact after _ (opens _)

theorem closeSocket_survives {other : Option Nat} (differ : other ≠ some sock) :
    Survives sock (closeSocket other) := by
  intro sockets mem
  cases other with
  | none => exact mem
  | some closed =>
    have distinct : sock ≠ closed := fun same => differ (same ▸ rfl)
    exact (mem_erase_of_ne distinct).mpr mem

/-- A transfer is running, and its data socket is open. -/
def Running (live : Live) : Prop :=
  live.ctx.state = .xfer ∧
    (live.ctx.currentAction.token = .retr ∨ live.ctx.currentAction.token = .stor) ∧
    live.ctx.currentAction.currentFile ≠ none ∧
    ∃ sock, live.ctx.dataSocket = some sock ∧ sock ∈ live.sockets

/-- No transfer is running, and no file is left from one. -/
def Resting (ctx : Context) : Prop :=
  ctx.state ≠ .xfer ∧ ctx.currentAction.currentFile = none

/-- A command that is refused leaves the session as it was. -/
def Refused (ctx : Context) (out : Outcome) : Prop := out.ctx = ctx ∧ Quiet out.effects

/-- The fields of the transfer are untouched and its data socket stays open. -/
def Spares (ctx : Context) (out : Outcome) : Prop :=
  out.ctx.state = ctx.state ∧ out.ctx.currentAction.token = ctx.currentAction.token ∧
    out.ctx.currentAction.currentFile = ctx.currentAction.currentFile ∧
    out.ctx.dataSocket = ctx.dataSocket ∧
    ∀ sock, ctx.dataSocket = some sock → Survives sock out.effects

def Starts (out : Outcome) : Prop :=
  out.ctx.state = .xfer ∧
    (out.ctx.currentAction.token = .retr ∨ out.ctx.currentAction.token = .stor) ∧
    out.ctx.currentAction.currentFile ≠ none ∧
    ∃ sock, out.ctx.dataSocket = some sock ∧ Opens sock out.effects

/-- What a handler may do between transfers. -/
def Settles (out : Outcome) : Prop := Resting out.ctx ∨ Starts out

theorem refused_answer (ctx : Context) (ret : Errno) (code : Nat) (args : List String) :
    Refused ctx (answer ctx ret code args) :=
  ⟨rfl, quiet_message code _⟩

variable {ctx : Context} {out : Outcome}

theorem Refused.spares (refused : Refused ctx out) : Spares ctx out := by
  obtain ⟨same, quiet⟩ := refused
  refine ⟨?_, ?_, ?_, ?_, fun sock _ => quiet.survives sock⟩ <;> rw [same]

theorem Starts.after (starts : Starts out) (effects : List Effect) :
    Starts (out.after effects) := by
  obtain ⟨state, token, file, sock, data, opens⟩ := starts
  exact ⟨state, token, file, sock, data, opens.append_left effects⟩

theorem Settles.after (settles : Settles out) (effects : List Effect) :
    Settles (out.after effects) :=
  settles.imp id fun starts => starts.after effects

/- Refusals. While a transfer runs, the commands that need a data connection are
refused by the state, and RNTO by the token. -/

theorem doRetr_busy (xfer : ctx.state = .xfer) (w : World) (user : User) (stale arg : Text) :
    Refused ctx (doRetr w user stale arg ctx) := by
  unfold doRetr
  split_ifs <;> exact refused_answer ..

theorem doStor_busy (xfer : ctx.state = .xfer) (w : World) (user : User) (name arg : Text) :
    Refused ctx (doStor w (some user) name arg ctx) := by
  unfold doStor
  simp only [if_pos xfer]
  split_ifs <;> exact refused_answer ..

theorem doList_busy (xfer : ctx.state = .xfer) (w : World) (user : User) (arg : Text) :
    Refused ctx (doList w user arg ctx) := by
  unfold doList
  split_ifs <;> exact refused_answer ..

theorem doMlsd_busy (xfer : ctx.state = .xfer) (w : World) (user : User) (arg : Text) :
    Refused ctx (doMlsd w user arg ctx) := by
  unfold doMlsd
  split_ifs <;> exact refused_answer ..

theorem doRnto_needs_rnfr (token : ctx.currentAction.token ≠ .rnfr) (w : World) (user : User)
    (stale arg : Text) : Refused ctx (doRnto w (some user) stale arg ctx) := by
  unfold doRnto
  simp only [if_pos token]
  split_ifs <;> exact refused_answer ..

variable {user : User} {arg : Text}

theorem doMlst_refused (stopped : mlstAdmits user arg = false)
    (w : World) (ctx : Context) : Refused ctx (doMlst w user arg ctx) := by
  have missing := of_decide_eq_false stopped
  unfold doMlst
  split
  · exact refused_answer ..
  · rename_i right
    split_ifs with given short
    · exact refused_answer ..
    · exact refused_answer ..
    · exact absurd ⟨not_not.mp right, given, Nat.not_lt.mp short⟩ missing

theorem doStat_refused (stopped : statAdmits user arg = false)
    (w : World) (ctx : Context) : Refused ctx (doStat w user arg ctx) := by
  have missing := of_decide_eq_false stopped
  unfold doStat
  split
  · exact refused_answer ..
  rename_i right
  split
  · exact refused_answer ..
  · rename_i size
    obtain ⟨given, short⟩ := not_or.mp size
    exact absurd ⟨not_not.mp right, given, Nat.not_lt.mp short⟩ missing

theorem mkdirError_refused (ctx : Context) (param : Text) (ret : Errno) :
    Refused ctx (mkdirError ctx param ret) :=
  ⟨rfl, quiet_message 553 _⟩

theorem Refused.after {effects : List Effect} (refused : Refused ctx out) (quiet : Quiet effects) :
    Refused ctx (out.after effects) :=
  ⟨refused.1, quiet.append refused.2⟩

variable {test : Prop} {first : Outcome}

theorem refused_or [Decidable test] {rest : Except Outcome Text}
    (refusal : Refused ctx first) (later : rest = .error out → Refused ctx out) :
    (if test then .error first else rest) = .error out → Refused ctx out := by
  split
  · rintro ⟨⟩
    exact refusal
  · exact later

variable {w : World}

theorem mkdirTarget_refused {param : Text} :
    mkdirTarget w user param ctx = .error out → Refused ctx out := by
  have hooked (buffer : Text) : Quiet [Effect.event .preMkdir [user.username, buffer]] :=
    quiet_event .preMkdir _
  refine refused_or (refused_answer ..) (refused_or (mkdirError_refused ..)
    (refused_or (mkdirError_refused ..) ?_))
  split
  · rintro ⟨⟩
    exact mkdirError_refused ..
  split
  · refine refused_or ((refused_answer ..).after (hooked _))
      (refused_or ((refused_answer ..).after (hooked _))
        (refused_or ((refused_answer ..).after (hooked _)) nofun))
  · rintro ⟨⟩
    exact mkdirError_refused ..

theorem rnfrTarget_refused {user : Option User} :
    rnfrTarget w user arg ctx = .error out → Refused ctx out := by
  simp only [rnfrTarget]
  split
  · rintro ⟨⟩
    exact refused_answer ..
  · refine refused_or (refused_answer ..) (refused_or (refused_answer ..) ?_)
    split
    · exact refused_or (refused_answer ..) nofun
    · rintro ⟨⟩
      exact refused_answer ..

theorem deleTarget_refused {user : Option User} {param : Text} :
    deleTarget w user param ctx = .error out → Refused ctx out := by
  refine refused_or (refused_answer ..) ?_
  split
  · rintro ⟨⟩
    exact refused_answer ..
  refine refused_or (refused_answer ..) ?_
  split
  · refine refused_or (refused_answer ..) ?_
    split
    · rintro ⟨⟩
      exact refused_answer ..
    · exact refused_or (refused_answer ..) nofun
  · rintro ⟨⟩
    exact refused_answer ..

/- Between transfers. -/

/-- The system does not hand out the number of the passive socket again while
that socket is open. -/
def FreshAccept (w : World) (ctx : Context) : Prop :=
  ∀ sock remote family, w.accept = some (sock, remote, family) → ctx.pasvSocket ≠ some sock

theorem Outcome.after_after (first second : List Effect) (out : Outcome) :
    (out.after second).after first = out.after (first ++ second) := by
  simp [Outcome.after]

variable {rest : Outcome}

theorem settles_or [Decidable test] (stops : Settles first)
    (goes : Settles rest) : Settles (if test then first else rest) := by
  split
  · exact stops
  · exact goes

theorem Resting.or {test : Prop} [Decidable test] {first rest : Outcome}
    (resting : Resting first.ctx) (goes : Settles rest) :
    Settles (if test then first else rest) :=
  settles_or (.inl resting) goes

theorem waitconnect_spec (w : World) (user : User) (ctx : Context) :
    (waitconnect w user ctx).ctx = ctx ∧
      ∀ sock, (waitconnect w user ctx).sock = some sock →
        Opens sock (waitconnect w user ctx).effects := by
  unfold waitconnect
  split
  · exact ⟨rfl, nofun⟩
  split
  · exact ⟨rfl, nofun⟩
  split
  · exact ⟨rfl, nofun⟩
  · split
    · exact ⟨rfl, nofun⟩
    · refine ⟨rfl, ?_⟩
      rintro sock ⟨⟩ _
      exact mem_cons_self

theorem waitaccept_spec {listening : Nat} (passive : ctx.pasvSocket = some listening)
    (fresh : FreshAccept w ctx) (user : User) :
    (waitaccept w user listening ctx).ctx.state = ctx.state ∧
      (waitaccept w user listening ctx).ctx.currentAction = ctx.currentAction ∧
      ∀ sock, (waitaccept w user listening ctx).sock = some sock →
        Opens sock (waitaccept w user listening ctx).effects := by
  simp only [waitaccept]
  split
  · exact ⟨rfl, rfl, nofun⟩
  split
  · exact ⟨rfl, rfl, nofun⟩
  rename_i accepted remote family answered
  split_ifs
  · exact ⟨rfl, rfl, nofun⟩
  · exact ⟨rfl, rfl, nofun⟩
  refine ⟨rfl, rfl, ?_⟩
  rintro sock ⟨⟩ _
  have distinct : accepted ≠ listening := by
    intro same
    exact fresh accepted remote family answered (same ▸ passive)
  exact (mem_erase_of_ne distinct).mpr mem_cons_self

/-- Opening a data connection leaves the state and the action alone, and the
socket of one that came up is open. -/
theorem openData_spec (fresh : FreshAccept w ctx) (user : User) :
    (openData w user ctx).ctx.state = ctx.state ∧
      (openData w user ctx).ctx.currentAction = ctx.currentAction ∧
      ∀ sock, (openData w user ctx).sock = some sock →
        Opens sock (openData w user ctx).effects := by
  simp only [openData]
  split
  · obtain ⟨same, opens⟩ := waitconnect_spec w user ctx
    rw [same]
    exact ⟨rfl, rfl, opens⟩
  · rename_i listening passive
    obtain ⟨state, action, opens⟩ := waitaccept_spec passive fresh user
    exact ⟨state, action, fun sock up => (opens sock up).append_left [.message 150 []]⟩

theorem startTransfer_settles {token : Token} (kind : token = .retr ∨ token = .stor)
    {before : List Effect} (opens : Opens sock before) (w : World) (user : User) (path : Text)
    (fd : Nat) (ctx : Context) :
    Settles ((startTransfer w user token path fd sock ctx).after before) := by
  have started : Opens sock (before ++ []) := opens.append_right fun _ mem => mem
  simp only [startTransfer]
  split
  · split
    · exact .inl ⟨nofun, rfl⟩
    · exact .inr ⟨rfl, kind, nofun, sock, rfl, started⟩
  · exact .inr ⟨rfl, kind, nofun, sock, rfl, started⟩

section

variable (resting : Resting ctx) (fresh : FreshAccept w ctx) (user : User)

include resting

section

include fresh

theorem openData_resting : Resting (openData w user ctx).ctx := by
  obtain ⟨state, action, _⟩ := openData_spec fresh user
  rw [Resting, state, action]
  exact resting

theorem openData_settles (failed : List Effect) (next : Nat → Outcome)
    (goes : ∀ sock before, Opens sock before → Settles ((next sock).after before)) :
    Settles (Outcome.after (openData w user ctx).effects
      (match (openData w user ctx).sock with
      | none => ⟨openDataError ctx, (openData w user ctx).ctx, failed⟩
      | some sock => next sock)) := by
  split
  · exact .inl (openData_resting resting fresh user)
  · rename_i sock up
    exact goes sock _ ((openData_spec fresh user).2.2 sock up)

theorem retrPath_settles (arg path : Text) : Settles (retrPath w user arg path ctx) := by
  refine Settles.after (resting.or (resting.or (resting.or (resting.or (Settles.after ?_ _))))) _
  split
  · exact .inl resting
  · refine openData_settles ?_ ?_ _ _ _ fun sock before opens => ?_
    · exact resting
    · exact fresh
    · exact startTransfer_settles (.inl rfl) opens ..

theorem storPath_settles (name path : Text) : Settles (storPath w user name path ctx) := by
  -- APPE only changes the offset
  have appe : ∀ offset, Resting { ctx with resume := offset } := fun _ => resting
  refine resting.or (Settles.after (resting.or (Settles.after ?_ _)) _)
  generalize name.map Char.toLower = lower
  split
  · refine .inl ?_
    split
    · exact appe _
    · exact resting
  · refine openData_settles ?_ ?_ _ _ _ fun sock before opens => ?_
    · split
      · exact appe _
      · exact resting
    · split <;> exact fresh
    · rw [Outcome.after_after]
      refine startTransfer_settles (.inr rfl) (opens.append_right ?_) ..
      intro sockets mem
      exact mem

theorem doRetr_settles (stale arg : Text) : Settles (doRetr w user stale arg ctx) := by
  exact resting.or (resting.or (resting.or (resting.or (resting.or (resting.or
    (retrPath_settles resting fresh user arg _))))))

theorem doStor_settles (name arg : Text) : Settles (doStor w (some user) name arg ctx) := by
  refine resting.or (resting.or (resting.or (resting.or (resting.or ?_))))
  split
  · exact .inl resting
  · exact storPath_settles resting fresh user name _

theorem sendListing_resting : Resting (sendListing w user ctx).ctx := by
  have opened := openData_resting resting fresh user
  simp only [sendListing]
  split
  · exact opened
  · exact ⟨nofun, opened.2⟩

theorem doList_settles (arg : Text) : Settles (doList w user arg ctx) := by
  simp only [doList]
  refine resting.or (resting.or (resting.or (resting.or ?_)))
  split
  · exact .inl resting
  · split
    · have rewound : Resting { ctx with resume := 0 } := resting
      exact resting.or (resting.or (.inl (sendListing_resting rewound fresh user)))
    · exact .inl resting

theorem doMlsd_settles (arg : Text) : Settles (doMlsd w user arg ctx) := by
  refine resting.or (resting.or (resting.or ?_))
  split
  · exact resting.or (.inl (sendListing_resting resting fresh user))
  · exact .inl resting

end

theorem doMlst_settles (w : World) (user : User) (arg : Text) :
    Settles (doMlst w user arg ctx) := by
  simp only [doMlst]
  refine resting.or (resting.or (resting.or ?_))
  split
  · split <;> exact .inl ⟨nofun, resting.2⟩
  · exact .inl ⟨nofun, resting.2⟩

theorem doStat_settles (w : World) (user : User) (arg : Text) :
    Settles (doStat w user arg ctx) := by
  have stored : ∀ ret code args,
      Settles (answer { ctx with resume := 0, state := .command } ret code args) :=
    fun _ _ _ => .inl ⟨nofun, resting.2⟩
  simp only [doStat]
  refine resting.or (resting.or ?_)
  split
  · exact .inl ⟨nofun, resting.2⟩
  · split
    · exact settles_or (stored ..) (settles_or (stored ..) (.inl ⟨nofun, resting.2⟩))
    · exact stored ..

theorem doMkdir_settles (w : World) (user : User) (param : Text) :
    Settles (doMkdir w user param ctx) := by
  simp only [doMkdir]
  split
  · rename_i stopped
    refine .inl ?_
    rw [(mkdirTarget_refused stopped).1]
    exact resting
  · exact Settles.after (settles_or (.inl ⟨resting.1, rfl⟩)
      (Settles.after (settles_or (.inl ⟨resting.1, rfl⟩) (.inl ⟨resting.1, rfl⟩)) _)) _

theorem doDele_settles (w : World) (user : Option User) (param : Text) :
    Settles (doDele w user param ctx) := by
  simp only [doDele]
  split
  · rename_i stopped
    refine .inl ?_
    rw [(deleTarget_refused stopped).1]
    exact resting
  · exact Settles.after (resting.or (.inl resting)) _

theorem doRnfr_settles (w : World) (user : Option User) (arg : Text) :
    Settles (doRnfr w user arg ctx) := by
  simp only [doRnfr]
  split
  · rename_i stopped
    refine .inl ?_
    rw [(rnfrTarget_refused stopped).1]
    exact resting
  · exact .inl ⟨resting.1, rfl⟩

theorem doRnto_settles (w : World) (user : User) (stale arg : Text) :
    Settles (doRnto w (some user) stale arg ctx) := by
  refine resting.or (resting.or (resting.or
    (resting.or (Settles.after (resting.or (Settles.after (settles_or ?_ ?_) _)) _))))
  · exact .inl ⟨resting.1, rfl⟩
  · exact .inl ⟨resting.1, rfl⟩

theorem doPort_settles (user : User) (arg : Text) : Settles (doPort user arg ctx) := by
  refine Settles.after ?_ _
  split
  · exact .inl resting
  · exact resting.or (resting.or (.inl resting))

theorem doEprt_settles (pton : InetPton) (user : User) (arg : Text) :
    Settles (doEprt pton user arg ctx) := by
  refine Settles.after ?_ _
  split
  · exact .inl resting
  · exact resting.or (.inl resting)

theorem openPasv_settles (w : World) (family : NetFamily)
    (reply : Nat → Effect) : Settles (openPasv w family reply ctx) := by
  refine Settles.after ?_ _
  split <;> exact .inl resting

theorem aborTransfer_settles (w : World) (user : User) : Settles (aborTransfer w user ctx) := by
  simp only [aborTransfer, resting.2]
  exact .inl resting

theorem doAbor_settles (w : World) (user : User) : Settles (doAbor w user ctx) :=
  settles_or (aborTransfer_settles resting w user)
    (Settles.after (aborTransfer_settles (show Resting { ctx with pasvSocket := none } from resting)
      w user) _)

theorem checkTimeout_settles (w : World) (user : User)
    (delay dataDelay : Nat) : Settles (checkTimeout w user delay dataDelay ctx) := by
  refine settles_or (settles_or (.inl ⟨nofun, rfl⟩) (.inl resting)) (resting.or
    (resting.or (.inl resting)))

end

theorem endThread_settles (w : World) (user : User) (isUpload exitOk : Bool) (ctx : Context) :
    Settles (endThread w user isUpload exitOk ctx) :=
  .inl ⟨nofun, rfl⟩

/- During a transfer. -/

theorem aborTransfer_ends
    (token : ctx.currentAction.token = .retr ∨ ctx.currentAction.token = .stor)
    (file : ctx.currentAction.currentFile ≠ none) (w : World) (user : User) :
    Settles (aborTransfer w user ctx) := by
  obtain ⟨_, current⟩ := Option.ne_none_iff_exists'.mp file
  simp only [aborTransfer, current, if_pos token.symm]
  exact .inl ⟨nofun, rfl⟩

theorem doAbor_ends (token : ctx.currentAction.token = .retr ∨ ctx.currentAction.token = .stor)
    (file : ctx.currentAction.currentFile ≠ none) (w : World) (user : User) :
    Settles (doAbor w user ctx) :=
  settles_or (aborTransfer_ends token file w user) (Settles.after (aborTransfer_ends
    (show ({ ctx with pasvSocket := none } : Context).currentAction.token = .retr ∨ _ from token)
    file w user) _)

theorem Spares.refl (ctx : Context) : Spares ctx ⟨.ok, ctx, []⟩ :=
  ⟨rfl, rfl, rfl, rfl, fun _ _ _ mem => mem⟩

theorem dataExecute_moves (w : World) (user : User) (moved sent : Int) :
    Spares ctx (dataExecute w user moved sent ctx) ∨
      Settles (dataExecute w user moved sent ctx) := by
  have counted : Spares ctx ⟨.ok, { ctx with
      currentAction := { ctx.currentAction with
        bytesnow := ctx.currentAction.bytesnow + moved.toNat } }, []⟩ :=
    ⟨rfl, rfl, rfl, rfl, fun _ _ _ mem => mem⟩
  have finished (isUpload : Bool) (code : Nat) :
      Settles (finishTransfer w user isUpload code ctx) := .inl ⟨nofun, rfl⟩
  simp only [dataExecute]
  split
  · split
    · split
      · exact .inr (finished ..)
      · exact .inl counted
    · exact .inr (finished ..)
  · split
    · exact .inl counted
    · exact .inr (finished ..)
  · exact .inl (Spares.refl ctx)

theorem checkTimeout_moves
    (token : ctx.currentAction.token = .retr ∨ ctx.currentAction.token = .stor) (w : World)
    (user : User) (delay dataDelay : Nat) :
    Spares ctx (checkTimeout w user delay dataDelay ctx) ∨
      Settles (checkTimeout w user delay dataDelay ctx) := by
  simp only [checkTimeout, if_pos token.symm]
  split
  · exact .inr (.inl ⟨nofun, rfl⟩)
  · exact .inl (Spares.refl ctx)

theorem spares_closing (apart : ctx.pasvSocket ≠ ctx.dataSocket) (spares : Spares ctx out) :
    Spares ctx (out.after (closeSocket ctx.pasvSocket)) := by
  obtain ⟨state, token, file, data, survives⟩ := spares
  refine ⟨state, token, file, data, fun sock bound => ?_⟩
  exact (closeSocket_survives (bound ▸ apart)).append (survives sock bound)

theorem spares_or [Decidable test] (stops : Spares ctx first)
    (goes : Spares ctx rest) : Spares ctx (if test then first else rest) := by
  split
  · exact stops
  · exact goes

theorem spares_answer {ctx' : Context} (state : ctx'.state = ctx.state)
    (action : ctx'.currentAction = ctx.currentAction) (data : ctx'.dataSocket = ctx.dataSocket)
    (ret : Errno) (code : Nat) (args : List String) : Spares ctx (answer ctx' ret code args) := by
  refine ⟨state, ?_, ?_, data, fun sock _ => (quiet_message code _).survives sock⟩
  · exact congrArg Action.token action
  · exact congrArg Action.currentFile action

theorem doPort_spares (apart : ctx.pasvSocket ≠ ctx.dataSocket) (user : User) (arg : Text) :
    Spares ctx (doPort user arg ctx) := by
  refine spares_closing apart ?_
  split
  · exact spares_answer rfl rfl rfl ..
  · exact spares_or (spares_answer rfl rfl rfl ..) (spares_or (spares_answer rfl rfl rfl ..)
      (spares_answer rfl rfl rfl ..))

theorem parseEprt_quiet {pton : InetPton} {ret : Errno} {replies : List Effect}
    (stopped : parseEprt pton arg = .error (ret, replies)) : Quiet replies := by
  simp only [parseEprt] at stopped
  split at stopped
  · cases stopped
    exact (quiet_message 502 []).append (quiet_message 501 _)
  split at stopped
  · cases stopped
    exact quiet_message 501 _
  split at stopped
  · cases stopped
    exact quiet_message 501 _
  split at stopped
  · cases stopped
    exact quiet_message 501 _
  · split at stopped
    · cases stopped
      exact quiet_message 501 _
    · cases stopped

theorem doEprt_spares (apart : ctx.pasvSocket ≠ ctx.dataSocket) (pton : InetPton) (user : User)
    (arg : Text) : Spares ctx (doEprt pton user arg ctx) := by
  refine spares_closing apart ?_
  split
  · rename_i stopped
    exact ⟨rfl, rfl, rfl, rfl, fun sock _ => (parseEprt_quiet stopped).survives sock⟩
  · exact spares_or (spares_answer rfl rfl rfl ..) (spares_answer rfl rfl rfl ..)

theorem openPasv_spares (apart : ctx.pasvSocket ≠ ctx.dataSocket) (w : World) (family : NetFamily)
    {reply : Nat → Effect} (quiet : ∀ port, Quiet [reply port]) :
    Spares ctx (openPasv w family reply ctx) := by
  refine spares_closing apart ?_
  split
  · exact spares_answer rfl rfl rfl ..
  · rename_i opened _
    -- the new socket is opened and closed again
    refine ⟨rfl, rfl, rfl, rfl, fun sock _ sockets mem => ?_⟩
    change sock ∈ (opened :: sockets).erase opened
    rw [erase_cons_head]
    exact mem
  · rename_i opened port _
    refine ⟨rfl, rfl, rfl, rfl, fun sock _ sockets mem => ?_⟩
    exact (quiet port).survives sock (opened :: sockets) (mem_cons_of_mem _ mem)

end Wzdftpd
