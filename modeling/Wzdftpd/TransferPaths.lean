import Wzdftpd.FileTransfer
import Wzdftpd.Resolver

/- Which system paths the transfer and rename commands act on. -/
namespace Wzdftpd

open SegmentWalk LexicalPath List Option

variable {path : Text}

section Opens

variable {p : Text} {mode : OpenMode}

variable (w : World)

theorem openData_no_open (user : User) (ctx : Context) :
    .fileOpen p mode ∉ (openData w user ctx).effects := by
  unfold openData
  split
  · unfold waitconnect
    repeat' split
    all_goals simp [Connection.failed]
  · simp only [mem_cons, not_or]
    refine ⟨by simp, ?_⟩
    simp only [waitaccept]
    repeat' split
    all_goals simp [Connection.failed]

theorem startTransfer_no_open (user : User) (token : Token) (path : Text)
    (fd sock : Nat) (ctx : Context) :
    .fileOpen p mode ∉ (startTransfer w user token path fd sock ctx).effects := by
  unfold startTransfer
  repeat' split
  all_goals simp [answer, dataEndTransfer, closeFile, closeSocket]
  split <;> simp

theorem fileOpen_opens {w : World} {user : User} {how : OpenMode}
    (opened : .fileOpen p mode ∈ (fileOpen w user path how).2) : p = path := by
  simp only [fileOpen] at opened
  repeat' split at opened
  all_goals simp at opened
  all_goals exact opened.1

/-- A command opens no file but one. -/
def OpensOnly (path : Text) (out : Outcome) : Prop :=
  ∀ p mode, .fileOpen p mode ∈ out.effects → p = path

theorem opensOnly_answer {ctx : Context} {ret : Errno} {code : Nat} {args : List String} :
    OpensOnly path (answer ctx ret code args) := by
  intro p mode opened
  simp [answer] at opened

theorem OpensOnly.after {effects : List Effect} {rest : Outcome}
    (before : ∀ p mode, .fileOpen p mode ∈ effects → p = path) (behind : OpensOnly path rest) :
    OpensOnly path (rest.after effects) := by
  intro p mode opened
  rcases mem_append.mp opened with early | late
  · exact before p mode early
  · exact behind p mode late

theorem opensOnly_or {cond : Prop} [Decidable cond] {first second : Outcome}
    (yes : OpensOnly path first) (no : OpensOnly path second) :
    OpensOnly path (if cond then first else second) := by
  split
  · exact yes
  · exact no

theorem startTransfer_opensOnly {w : World} {user : User} {token : Token} {fd sock : Nat}
    {ctx : Context} : OpensOnly path (startTransfer w user token path fd sock ctx) :=
  fun _ _ opened => absurd opened (startTransfer_no_open _ _ _ _ _ _ _)

theorem storPath_opensOnly (user : User) (name path : Text) (ctx : Context) :
    OpensOnly path (storPath w user name path ctx) := by
  refine opensOnly_or opensOnly_answer (.after (by simp) ?_)
  refine opensOnly_or opensOnly_answer (.after (fun _ _ => fileOpen_opens) ?_)
  split
  · exact opensOnly_answer
  refine .after (fun _ _ opened => absurd opened (openData_no_open _ _ _)) ?_
  split
  · intro p mode opened
    simp at opened
  · exact .after (by simp) startTransfer_opensOnly

theorem retrPath_opensOnly (user : User) (arg path : Text) (ctx : Context) :
    OpensOnly (dropSlash path) (retrPath w user arg path ctx) := by
  refine .after (by simp) (opensOnly_or opensOnly_answer ?_)
  refine opensOnly_or opensOnly_answer (opensOnly_or opensOnly_answer ?_)
  refine opensOnly_or opensOnly_answer (.after (fun _ _ => fileOpen_opens) ?_)
  split
  · intro p mode opened
    simp at opened
  refine .after (fun _ _ opened => absurd opened (openData_no_open _ _ _)) ?_
  split
  · intro p mode opened
    simp at opened
  · exact startTransfer_opensOnly

end Opens

theorem doStor_opens {w : World} {user : User} {name arg p : Text} {mode : OpenMode} {ctx : Context}
    (opened : .fileOpen p mode ∈ (doStor w (some user) name arg ctx).effects) :
    ∃ base, storBase w user arg ctx = some base ∧ p = (base ++ arg).take (maxPath - 1) := by
  simp only [doStor] at opened
  repeat' split at opened
  any_goals simp [answer] at opened
  rename_i base same
  exact ⟨base, same, storPath_opensOnly _ _ _ _ _ _ _ opened⟩

/-- The components below the root of the directory that a relative argument of
STOR is appended to. -/
def storBelow (w : World) (user : User) (arg : Text) (ctx : Context) : List Text :=
  if arg.head? = some '/' then []
  else ((follow w.fs user.rootpath (resolve (ftpPath ctx ['.'])) .start).map
    Place.components).getD []

theorem storBase_resolve {w : World} {user : User} {arg base : Text} {ctx : Context}
    (known : w.server.getUserByID ctx.userid = some user)
    (unmatched : NoEntryMatches w.fs w.server user (resolve (ftpPath ctx ['.'])))
    (composed : storBase w user arg ctx = some base) :
    resolve (base ++ arg) =
      walk (resolve user.rootpath ++ storBelow w user arg ctx) (segments arg) := by
  unfold storBase at composed
  unfold storBelow
  split at composed
  · rename_i absolute
    cases composed
    obtain ⟨rest, rfl⟩ := head?_eq_some_iff.mp absolute
    have below : segments ('/' :: rest) = .stay :: segments rest := segments_append [] rest
    simp [absolute, resolve_append, below, walk_cons, move]
  · rename_i relative
    have ends := checkpathNew_ends w.fs w.server ctx user ['.'] known unmatched
    generalize checkpathNew w.fs w.server ctx (some ['.']) = result at ends composed
    cases ends with
    | found last followed =>
      simp only [ne_eq, not_true_eq_false, ↓reduceIte, map_some, some.injEq]
        at composed
      have tidy := follow_tidy (resolve_plain _) Place.start_tidy followed
      rw [if_neg relative, followed, ← composed, resolve_slashed_append, Place.resolve_text tidy]
      rfl
    | missing => simp at composed
    | refused code failed => simp at composed

/-- The path that STOR hands to `file_open` stays below the user's root exactly
when the argument climbs no further than the directory it is appended to lies
below the root, or re-enters every level of the root that it has left. -/
theorem doStor_confined_iff (w : World) (user : User) (name arg p : Text) (mode : OpenMode)
    (ctx : Context) (known : w.server.getUserByID ctx.userid = some user)
    (unmatched : NoEntryMatches w.fs w.server user (resolve (ftpPath ctx ['.'])))
    (fits : ∀ base, storBase w user arg ctx = some base → (base ++ arg).length < maxPath)
    (opened : .fileOpen p mode ∈ (doStor w (some user) name arg ctx).effects) :
    resolve user.rootpath <+: resolve p ↔
      (resolve user.rootpath).drop ((resolve user.rootpath).length -
        ((net (segments arg)).ups - (storBelow w user arg ctx).length)) <+:
          (net (segments arg)).names := by
  obtain ⟨base, composed, rfl⟩ := doStor_opens opened
  have short := fits base composed
  rw [take_of_length_le (by omega), storBase_resolve known unmatched composed]
  exact prefix_walk_iff _ _ _

def srvTransfer : Context := { srvContext with dataport := 4000, datafamily := .inet4 }

/-- A world in which only `/`, `/etc` and the root exist. -/
def srvWorld : World :=
  let fs := FileSystem.ofList [("/".toList, .dir), ("/etc".toList, .dir), ("/srv".toList, .dir),
    ("/srv/".toList, .dir), ("/srv/..".toList, .dir), ("/srv/../etc".toList, .dir)]
  { server := .single srvUser, fs := fs, fsAfter := fs }

theorem doStor_confined_iff_plain :
    .fileOpen "/srv/new".toList .wrOnlyCreat ∈
        (doStor srvWorld (some srvUser) "stor".toList "new".toList srvTransfer).effects ∧
      resolve srvUser.rootpath <+: resolve "/srv/new".toList :=
  ⟨by decide, (doStor_confined_iff srvWorld srvUser "stor".toList "new".toList "/srv/new".toList
    .wrOnlyCreat srvTransfer rfl (fun _ _ _ => rfl) (by decide) (by decide)).mpr (by decide)⟩

/-- STOR of `../etc/x` opens a file outside of the root. -/
theorem doStor_leaves_root :
    NoEntryMatches srvWorld.fs srvWorld.server srvUser (resolve (ftpPath srvTransfer ['.'])) ∧
      .fileOpen "/srv/../etc/x".toList .wrOnlyCreat ∈
        (doStor srvWorld (some srvUser) "stor".toList "../etc/x".toList srvTransfer).effects ∧
      ¬resolve srvUser.rootpath <+: resolve "/srv/../etc/x".toList :=
  ⟨fun _ _ _ => rfl, by decide, by decide⟩

section Resolved

variable (w : World) (user : User) (arg : Text) (ctx : Context)

/-- What RETR tests before it calls the resolver. -/
def RetrAdmits : Prop :=
  user.may .retr ∧ ¬(ctx.pasvSocket = none ∧ ctx.dataport = 0) ∧ ctx.state ≠ .xfer ∧ arg ≠ [] ∧
    arg.length ≤ maxPath - 1

/-- What RNTO tests before it calls the resolver. -/
def RntoAdmits : Prop :=
  user.may .rnfr ∧ arg ≠ [] ∧ arg.length < maxPath ∧ ctx.currentAction.token = .rnfr

/-- RETR acts on what the resolver wrote for this argument and on nothing that
was in its buffer before. -/
def RetrUsesResolved : Prop :=
  (∀ stale other, doRetr w user stale arg ctx = doRetr w user other arg ctx) ∧
    ∀ stale path mode, .fileOpen path mode ∈ (doRetr w user stale arg ctx).effects →
      ∃ written, (checkpathNew w.fs w.server ctx (some arg)).path = some written ∧
        path = dropSlash written

def RntoUsesResolved : Prop :=
  (∀ stale other, doRnto w (some user) stale arg ctx = doRnto w (some user) other arg ctx) ∧
    ∀ stale source target,
      .fileRename source target ∈ (doRnto w (some user) stale arg ctx).effects →
      ∃ written, (checkpathNew w.fs w.server ctx (some arg)).path = some written ∧
        target = dropSlash written

variable {w user arg ctx}

theorem doRetr_admitted (admits : RetrAdmits user arg ctx) (stale : Text) :
    doRetr w user stale arg ctx =
      if (checkpathNew w.fs w.server ctx (some arg)).ret ∉ [Errno.ok, .noPerm, .fileNoExist] then
        answer ctx .paramInvalid 501 ["Invalid file name"]
      else retrPath w user arg
        ((checkpathNew w.fs w.server ctx (some arg)).path.getD stale) ctx := by
  obtain ⟨right, data, idle, some', short⟩ := admits
  rw [doRetr, if_neg (not_not_intro right), if_neg data, if_neg idle, if_neg some',
    if_neg (Nat.not_lt.mpr short)]

theorem doRetr_refused (refused : ¬RetrAdmits user arg ctx) (stale : Text) :
    doRetr w user stale arg ctx = doRetr w user [] arg ctx ∧
      ∀ path mode, .fileOpen path mode ∉ (doRetr w user stale arg ctx).effects := by
  unfold doRetr
  split
  · exact ⟨rfl, by simp [answer]⟩
  rename_i right
  split_ifs with data idle some' short
  · exact ⟨rfl, by simp [answer]⟩
  · exact ⟨rfl, by simp [answer]⟩
  · exact ⟨rfl, by simp [answer]⟩
  · exact ⟨rfl, by simp [answer]⟩
  · exact absurd ⟨not_not.mp right, data, idle, some', Nat.not_lt.mp short⟩ refused

theorem doRnto_admitted (admits : RntoAdmits user arg ctx) (stale : Text) :
    doRnto w (some user) stale arg ctx =
      rntoPath w user ((checkpathNew w.fs w.server ctx (some arg)).path.getD stale) ctx := by
  obtain ⟨right, some', _, begun⟩ := admits
  have sized : ¬(arg = [] ∨ arg.length ≥ maxPath) := by
    rintro (none' | long)
    · exact some' none'
    · omega
  simp only [doRnto]
  rw [if_neg (not_not_intro right), if_neg sized, if_neg (not_not_intro begun)]

theorem doRnto_refused (refused : ¬RntoAdmits user arg ctx) (stale : Text) :
    doRnto w (some user) stale arg ctx = doRnto w (some user) [] arg ctx ∧ ∀ source target,
        .fileRename source target ∉ (doRnto w (some user) stale arg ctx).effects := by
  simp only [doRnto]
  split
  · exact ⟨rfl, by simp [answer]⟩
  rename_i right
  split_ifs with sized begun
  · exact ⟨rfl, by simp [answer]⟩
  · exact ⟨rfl, by simp [answer]⟩
  · have bounds := not_or.mp sized
    exact absurd ⟨not_not.mp right, bounds.1, Nat.not_le.mp bounds.2, not_not.mp begun⟩
      refused

theorem rntoPath_renames {source target : Text}
    (renamed : .fileRename source target ∈ (rntoPath w user path ctx).effects) :
    target = dropSlash path := by
  simp only [rntoPath] at renamed
  repeat' split at renamed
  all_goals simp [answer] at renamed
  all_goals exact renamed.2

theorem retrPath_stale : retrPath w user arg [] ctx ≠ retrPath w user arg ['x'] ctx := by
  intro same
  have hooks := congrArg (fun outcome => outcome.effects.head?) same
  cases hooks

theorem rntoPath_stale : rntoPath w user [] ctx ≠ rntoPath w user ['x'] ctx := by
  intro same
  have hooks := congrArg (fun outcome => outcome.effects.head?) same
  cases hooks

theorem retrUsesResolved_iff :
    RetrUsesResolved w user arg ctx ↔
      (RetrAdmits user arg ctx → (checkpathNew w.fs w.server ctx (some arg)).ret ≠ .noPerm) := by
  have honest := checkpathNew_honest w.fs w.server ctx (some arg)
  constructor
  · rintro ⟨same, _⟩ admits denied
    have none' : (checkpathNew w.fs w.server ctx (some arg)).path = none := by
      rw [honest.path_eq_none, denied]
      decide
    have both := same [] ['x']
    rw [doRetr_admitted admits, doRetr_admitted admits, none', denied,
      if_neg (by simp), if_neg (by simp), getD_none, getD_none] at both
    exact retrPath_stale both
  · intro allowed
    by_cases admits : RetrAdmits user arg ctx
    · have passed := allowed admits
      cases written : (checkpathNew w.fs w.server ctx (some arg)).path with
      | none =>
        have stopped : (checkpathNew w.fs w.server ctx (some arg)).ret ∉
            [Errno.ok, .noPerm, .fileNoExist] := by
          obtain ⟨failed, unnamed⟩ := honest.path_eq_none.mp written
          simp only [mem_cons, not_mem_nil, or_false, not_or]
          exact ⟨failed, passed, unnamed⟩
        refine ⟨fun stale other => ?_, fun stale path mode opened => ?_⟩
        · rw [doRetr_admitted admits, doRetr_admitted admits, if_pos stopped, if_pos stopped]
        · rw [doRetr_admitted admits, if_pos stopped] at opened
          simp [answer] at opened
      | some path =>
        refine ⟨fun stale other => ?_, fun stale opened mode member => ⟨path, written, ?_⟩⟩
        · rw [doRetr_admitted admits, doRetr_admitted admits, written]
          rfl
        · rw [doRetr_admitted admits, written] at member
          split at member
          · simp [answer] at member
          · exact retrPath_opensOnly _ _ _ _ _ _ _ member
    · refine ⟨fun stale other => ?_, fun stale path mode opened => ?_⟩
      · rw [(doRetr_refused admits stale).1, (doRetr_refused admits other).1]
      · exact absurd opened ((doRetr_refused admits stale).2 path mode)

theorem rntoUsesResolved_iff :
    RntoUsesResolved w user arg ctx ↔
      (RntoAdmits user arg ctx →
        (checkpathNew w.fs w.server ctx (some arg)).ret = .ok ∨
          (checkpathNew w.fs w.server ctx (some arg)).ret = .fileNoExist) := by
  have honest := checkpathNew_honest w.fs w.server ctx (some arg)
  constructor
  · rintro ⟨same, _⟩ admits
    by_contra failed
    have none' := honest.path_eq_none.mpr (not_or.mp failed)
    have both := same [] ['x']
    rw [doRnto_admitted admits, doRnto_admitted admits, none'] at both
    exact rntoPath_stale both
  · intro allowed
    by_cases admits : RntoAdmits user arg ctx
    · obtain ⟨path, written⟩ := isSome_iff_exists.mp (honest.mpr (allowed admits))
      refine ⟨fun stale other => ?_, fun stale source target member => ⟨path, written, ?_⟩⟩
      · rw [doRnto_admitted admits, doRnto_admitted admits, written]
        rfl
      · rw [doRnto_admitted admits, written] at member
        exact rntoPath_renames member
    · refine ⟨fun stale other => ?_, fun stale source target renamed => ?_⟩
      · rw [(doRnto_refused admits stale).1, (doRnto_refused admits other).1]
      · exact absurd renamed ((doRnto_refused admits stale).2 source target)

end Resolved

/-- RETR and RNTO act on a path that the resolver wrote for their argument
exactly when they stop before calling it, or it answers with none of the codes
they let through without a path: `E_NOPERM` for RETR, any failure but
`E_FILE_NOEXIST` for RNTO. -/
theorem retr_rnto_resolved_iff (w : World) (user : User) (arg : Text) (ctx : Context) :
    (RetrUsesResolved w user arg ctx ↔
        (RetrAdmits user arg ctx → (checkpathNew w.fs w.server ctx (some arg)).ret ≠ .noPerm)) ∧
      (RntoUsesResolved w user arg ctx ↔
        (RntoAdmits user arg ctx →
          (checkpathNew w.fs w.server ctx (some arg)).ret = .ok ∨
            (checkpathNew w.fs w.server ctx (some arg)).ret = .fileNoExist)) :=
  ⟨retrUsesResolved_iff, rntoUsesResolved_iff⟩

def shutUser : User := { srvUser with userperms := 0x200006 }

/-- `/srv/d` is a directory and `/etc/passwd` a file. -/
def shutWorld : World :=
  let fs := FileSystem.ofList [("/".toList, .dir), ("/etc".toList, .dir),
    ("/etc/passwd".toList, .reg), ("/srv/d".toList, .dir), ("/srv/f".toList, .reg)]
  { server := .single shutUser, fs := fs, fsAfter := fs }

/-- The resolver refuses both arguments and writes nothing, but RETR opens and
RNTO overwrites the file that the buffer happened to name. -/
theorem retr_rnto_use_stale :
    (checkpathNew shutWorld.fs shutWorld.server srvTransfer (some "d".toList)) = ⟨.noPerm, none⟩ ∧
      .fileOpen "/etc/passwd".toList .rdOnly ∈
        (doRetr shutWorld shutUser "/etc/passwd".toList "d".toList srvTransfer).effects ∧
      (checkpathNew shutWorld.fs shutWorld.server srvTransfer (some "a/b".toList)) =
        ⟨.wrongPath, none⟩ ∧
      .fileRename "/srv/f".toList "/etc/passwd".toList ∈
        (doRnto shutWorld (some shutUser) "/etc/passwd".toList "a/b".toList
          { srvTransfer with
            currentAction := { token := .rnfr, arg := "/srv/f".toList } }).effects := by
  decide

end Wzdftpd
