import Wzdftpd.LatestFirst
import Wzdftpd.LoginSoundness
import Wzdftpd.Runs

/- `do_user` in several sessions at once: its reads and writes interleave with the others'. -/
namespace Wzdftpd

open LatestFirst List

/-- Where a session stands in `do_user`; `remaining` is what it still has to count. A closed
session still stands in the list for a while. -/
inductive LoginStage where
  | waiting
  | stored
  | counting (remaining : List Nat) (countLogins countFromip : Nat)
  | counted
  | accepted
  | refused
  | closed
  deriving DecidableEq

namespace LoginStage

def isAccepted : LoginStage → Bool
  | .accepted => true
  | _ => false

/-- The session has stored its uid and its control connection is open. -/
def isStarted : LoginStage → Bool
  | .waiting | .closed => false
  | _ => true

end LoginStage

structure Slot where
  ctx : Context
  stage : LoginStage

/-- The context list, as addresses, and what stands there. -/
structure Hall where
  list : List Nat
  slot : Nat → Slot

/-- The value -1 of a socket. -/
def invalidSocket : Nat := 2 ^ 32 - 1

/-- `context_init`, and what the server thread adds for a new connection. -/
def newContext (sock : Nat) (ip : Ip) : Context :=
  { userid := invalidUser, currentpath := .root, state := .connecting, controlSocket := sock
    hostip := ip }

namespace Hall

def empty : Hall := ⟨[], fun _ => ⟨newContext 0 .zero, .waiting⟩⟩

def set (hall : Hall) (id : Nat) (slot : Slot) : Hall :=
  { hall with slot := Function.update hall.slot id slot }

def setStage (hall : Hall) (id : Nat) (stage : LoginStage) : Hall :=
  hall.set id { hall.slot id with stage := stage }

end Hall

/-- The steps of the sessions. `settle` is the end of `do_user`, either way; `close`, `reset`
and `leave` are the end of `client_die`. -/
inductive LoginAct where
  | connect (id sock : Nat) (ip : Ip)
  | user (id : Nat) (name : Text)
  | check (id : Nat)
  | visit (id : Nat)
  | finish (id : Nat)
  | settle (id : Nat) (free : Bool)
  | close (id : Nat)
  | reset (id : Nat)
  | leave (id : Nat)

def checkedStage (cfg : LoginConfig) (hall : Hall) (id : Nat) : LoginStage :=
  match cfg.users.getById (hall.slot id).ctx.userid with
  | none => .refused
  | some me =>
    if me.has 'D' ∨ (cfg.siteClosed ∧ ¬me.has 'O') then .refused
    else if me.exempt then .counted
    else if cfg.maxUsers ≠ 0 ∧ hall.list.length > cfg.maxUsers then .refused
    else .counting hall.list 0 0

/-- One turn of the counting loop. An element that has left the list meanwhile is
not seen. -/
def visitedStage (hall : Hall) (id x : Nat) (rest : List Nat) (countLogins countFromip : Nat) :
    LoginStage :=
  let own := (hall.slot id).ctx
  let other := (hall.slot x).ctx
  if x ∈ hall.list then
    .counting rest (countLogins + (countsLogin own other).toNat)
      (countFromip + (countsFromIp own other).toNat)
  else .counting rest countLogins countFromip

def finishedStage (cfg : LoginConfig) (hall : Hall) (id countLogins countFromip : Nat) :
    LoginStage :=
  match cfg.users.getById (hall.slot id).ctx.userid with
  | none => .refused
  | some me => if loginLimits me countLogins countFromip = .ok then .counted else .refused

/-- A step of a session; one that is not its next changes nothing. A new context goes to the
head of the list, at a free address, with a socket that is not open; a context about to leave
may still name it. -/
def Hall.step (cfg : LoginConfig) (hall : Hall) : LoginAct → Hall
  | .connect id sock ip =>
    if id ∉ hall.list ∧ ∀ j ∈ hall.list,
        (hall.slot j).stage ≠ .closed → (hall.slot j).ctx.controlSocket ≠ sock then
      { hall.set id ⟨newContext sock ip, .waiting⟩ with list := id :: hall.list }
    else hall
  | .user id name =>
    match (hall.slot id).stage, backendValidateLogin cfg name with
    | .waiting, some uid =>
      if id ∈ hall.list then
        hall.set id ⟨{ (hall.slot id).ctx with userid := uid }, .stored⟩
      else hall
    | _, _ => hall
  | .check id =>
    match (hall.slot id).stage with
    | .stored => hall.setStage id (checkedStage cfg hall id)
    | _ => hall
  | .visit id =>
    match (hall.slot id).stage with
    | .counting (x :: rest) countLogins countFromip =>
      hall.setStage id (visitedStage hall id x rest countLogins countFromip)
    | _ => hall
  | .finish id =>
    match (hall.slot id).stage with
    | .counting [] countLogins countFromip =>
      hall.setStage id (finishedStage cfg hall id countLogins countFromip)
    | _ => hall
  | .settle id free =>
    match (hall.slot id).stage with
    | .counted => hall.setStage id (if free then .accepted else .refused)
    | _ => hall
  | .close id => hall.setStage id .closed
  | .reset id =>
    match (hall.slot id).stage with
    | .closed =>
      hall.set id ⟨{ (hall.slot id).ctx with controlSocket := invalidSocket }, .closed⟩
    | _ => hall
  | .leave id =>
    match (hall.slot id).stage with
    | .closed => { hall with list := hall.list.filter (· ≠ id) }
    | _ => hall

/-- The connected sessions that `do_user` has accepted for a user. -/
def Hall.acceptedFor (hall : Hall) (uid : Nat) : List Nat :=
  hall.list.filter fun id =>
    (hall.slot id).stage.isAccepted && decide ((hall.slot id).ctx.userid = uid)

/-- While a session counts, it has counted all of its user that it has passed; once it got
through, there are fewer than the limit. -/
def Fits (cfg : LoginConfig) (uidOf : Nat → Nat) (stage : LoginStage) (uid : Nat)
    (older : List Nat) : Prop :=
  match stage with
  | .counting remaining countLogins _ =>
    older.countP (fun j => decide (uidOf j = uid) && decide (j ∉ remaining)) ≤ countLogins
  | .counted | .accepted =>
    ∀ me, cfg.users.getById uid = some me → me.exempt = false → 0 < me.numLogins →
      older.countP (fun j => decide (uidOf j = uid)) < me.numLogins
  | _ => True

def Hall.uidOf (hall : Hall) (id : Nat) : Nat := (hall.slot id).ctx.userid

/-- The open sessions in the order in which they have stored their uid. -/
structure Ordered (cfg : LoginConfig) (hall : Hall) (order : List Nat) : Prop where
  distinct : order.Nodup
  listed : ∀ id ∈ order, id ∈ hall.list
  started : ∀ id ∈ order, (hall.slot id).stage.isStarted = true
  complete : ∀ id ∈ hall.list, (hall.slot id).stage.isStarted = true → id ∈ order
  fits : Each
    (fun i older => Fits cfg hall.uidOf (hall.slot i).stage (hall.uidOf i) older) order

def OwnSockets (hall : Hall) : Prop :=
  ∀ i ∈ hall.list, ∀ j ∈ hall.list, i ≠ j → (hall.slot i).stage ≠ .closed →
    (hall.slot j).stage ≠ .closed →
      (hall.slot i).ctx.controlSocket ≠ (hall.slot j).ctx.controlSocket

structure Orderly (cfg : LoginConfig) (hall : Hall) : Prop where
  distinct : hall.list.Nodup
  sockets : OwnSockets hall
  ordered : ∃ order, Ordered cfg hall order

variable {stage : LoginStage}

section Steps

variable {cfg : LoginConfig} {hall : Hall}

theorem Hall.slot_set_self (hall : Hall) (id : Nat) (slot : Slot) :
    (hall.set id slot).slot id = slot :=
  Function.update_self ..

variable {id : Nat}

theorem Hall.slot_set_of_ne (hall : Hall) {j : Nat} (slot : Slot) (apart : j ≠ id) :
    (hall.set id slot).slot j = hall.slot j :=
  Function.update_of_ne apart ..

theorem Hall.stage_setStage (hall : Hall) (id : Nat) (stage : LoginStage) :
    ((hall.setStage id stage).slot id).stage = stage := by
  rw [Hall.setStage, Hall.slot_set_self]

theorem Hall.stage_setStage_of_ne (hall : Hall) {j : Nat} (stage : LoginStage)
    (apart : j ≠ id) : ((hall.setStage id stage).slot j).stage = (hall.slot j).stage := by
  rw [Hall.setStage, Hall.slot_set_of_ne hall _ apart]

theorem Hall.ctx_setStage (hall : Hall) (id : Nat) (stage : LoginStage) (j : Nat) :
    ((hall.setStage id stage).slot j).ctx = (hall.slot j).ctx := by
  by_cases same : j = id
  · rw [same, Hall.setStage, Hall.slot_set_self]
  · rw [Hall.setStage, Hall.slot_set_of_ne hall _ same]

theorem Hall.uidOf_setStage (hall : Hall) (id : Nat) (stage : LoginStage) :
    (hall.setStage id stage).uidOf = hall.uidOf := by
  funext j
  exact congrArg Context.userid (hall.ctx_setStage id stage j)

variable {older : List Nat}

theorem Fits.congr {uidOf uidOf' : Nat → Nat} {uid : Nat} (same : ∀ j ∈ older, uidOf' j = uidOf j)
    (fits : Fits cfg uidOf stage uid older) : Fits cfg uidOf' stage uid older := by
  have equal : older.countP (fun j => decide (uidOf' j = uid))
      = older.countP (fun j => decide (uidOf j = uid)) :=
    countP_congr fun j member => by rw [same j member]
  unfold Fits at *
  split
  · rename_i remaining _ _
    have passed : older.countP (fun j => decide (uidOf' j = uid) && decide (j ∉ remaining))
        = older.countP (fun j => decide (uidOf j = uid) && decide (j ∉ remaining)) :=
      countP_congr fun j member => by rw [same j member]
    rw [passed]
    exact fits
  · rw [equal]
    exact fits
  · rw [equal]
    exact fits
  · trivial

theorem Fits.sublist {uidOf : Nat → Nat} {uid : Nat} {below : List Nat}
    (fewer : below.Sublist older) (fits : Fits cfg uidOf stage uid older) :
    Fits cfg uidOf stage uid below := by
  unfold Fits at *
  split
  · exact le_trans (fewer.countP_le ..) fits
  · exact fun me known bound limited =>
      lt_of_le_of_lt (fewer.countP_le ..) (fits me known bound limited)
  · exact fun me known bound limited =>
      lt_of_le_of_lt (fewer.countP_le ..) (fits me known bound limited)
  · trivial

theorem fits_checked (listed : ∀ j ∈ older, j ∈ hall.list) :
    Fits cfg hall.uidOf (checkedStage cfg hall id) (hall.uidOf id) older := by
  unfold checkedStage
  split
  · trivial
  rename_i me known
  split
  · trivial
  split
  · rename_i exempt
    intro found sameUser bound _
    rw [Hall.uidOf, known, Option.some.injEq] at sameUser
    rw [← sameUser, exempt] at bound
    exact absurd bound Bool.true_eq_false.mp
  split
  · trivial
  have none : older.countP
      (fun j => decide (hall.uidOf j = hall.uidOf id) && decide (j ∉ hall.list)) = 0 := by
    rw [countP_eq_zero]
    intro j member
    simp [listed j member]
  exact le_of_eq none

variable {countLogins countFromip : Nat}

/-- An older session of the same user is counted when the loop comes to it. -/
theorem fits_visited (sockets : OwnSockets hall) {x : Nat} {rest : List Nat}
    (listed : ∀ j ∈ id :: older, j ∈ hall.list) (distinct : (id :: older).Nodup)
    (opened : ∀ j ∈ id :: older, (hall.slot j).stage ≠ .closed)
    (fits : Fits cfg hall.uidOf (.counting (x :: rest) countLogins countFromip) (hall.uidOf id)
      older) :
    Fits cfg hall.uidOf (visitedStage hall id x rest countLogins countFromip) (hall.uidOf id)
      older := by
  obtain ⟨own, apart⟩ := nodup_cons.mp distinct
  have crossed := countP_crossed apart
    (fun j => decide (hall.uidOf j = hall.uidOf id)) x rest
  have before : older.countP (fun j => decide (hall.uidOf j = hall.uidOf id) &&
      decide (j ∉ x :: rest)) ≤ countLogins := fits
  have seen (both : x ∈ older ∧ decide (hall.uidOf x = hall.uidOf id) = true) :
      countsLogin (hall.slot id).ctx (hall.slot x).ctx = true := by
    have differ : id ≠ x := fun same => own (same ▸ both.1)
    have first : id ∈ id :: older := mem_cons_self
    have second : x ∈ id :: older := mem_cons_of_mem id both.1
    have apart := sockets id (listed id first) x (listed x second) differ (opened id first)
      (opened x second)
    exact decide_eq_true ⟨(of_decide_eq_true both.2).symm, apart⟩
  unfold visitedStage
  split
  · refine le_trans crossed (Nat.add_le_add before ?_)
    split
    · rename_i both
      rw [seen both]
      exact le_rfl
    · exact Nat.zero_le _
  · rename_i gone
    have absent : ¬(x ∈ older ∧ decide (hall.uidOf x = hall.uidOf id) = true) :=
      fun both => gone (listed x (mem_cons_of_mem id both.1))
    rw [if_neg absent] at crossed
    exact le_trans crossed before

theorem fits_finished
    (fits : Fits cfg hall.uidOf (.counting [] countLogins countFromip) (hall.uidOf id) older) :
    Fits cfg hall.uidOf (finishedStage cfg hall id countLogins countFromip) (hall.uidOf id)
      older := by
  have counted : older.countP (fun j => decide (hall.uidOf j = hall.uidOf id)) ≤ countLogins := by
    simpa [Fits] using fits
  unfold finishedStage
  split
  · trivial
  rename_i me known
  split
  · rename_i within
    intro found sameUser _ limited
    rw [Hall.uidOf, known, Option.some.injEq] at sameUser
    subst sameUser
    have below : ¬(me.numLogins ≠ 0 ∧ countLogins ≥ me.numLogins) := by
      intro full
      rw [loginLimits, if_pos full] at within
      exact Errno.noConfusion within
    omega
  · trivial

theorem LoginStage.ne_closed_of_started (started : stage.isStarted = true) : stage ≠ .closed := by
  intro same
  rw [same] at started
  exact Bool.false_ne_true started

theorem OwnSockets.mono (own : OwnSockets hall) {next : Hall}
    (listed : ∀ j ∈ next.list, j ∈ hall.list)
    (same : ∀ j, (next.slot j).stage ≠ .closed → (hall.slot j).stage ≠ .closed ∧
      (next.slot j).ctx.controlSocket = (hall.slot j).ctx.controlSocket) : OwnSockets next := by
  intro i here j there apart openI openJ
  obtain ⟨wasOpenI, sockI⟩ := same i openI
  obtain ⟨wasOpenJ, sockJ⟩ := same j openJ
  rw [sockI, sockJ]
  exact own i (listed i here) j (listed j there) apart wasOpenI wasOpenJ

theorem fits_of_same {order : List Nat} {next : Hall}
    (fits : Each (fun i older => Fits cfg hall.uidOf (hall.slot i).stage (hall.uidOf i) older)
      order) (same : ∀ j ∈ order, next.slot j = hall.slot j) :
    Each (fun i older => Fits cfg next.uidOf (next.slot i).stage (next.uidOf i) older) order := by
  refine fits.imp fun i older suffix fits => ?_
  have own : next.slot i = hall.slot i := same i (suffix.subset mem_cons_self)
  have others : ∀ j ∈ older, next.uidOf j = hall.uidOf j := by
    intro j member
    have below : next.slot j = hall.slot j :=
      same j (suffix.subset (mem_cons_of_mem i member))
    rw [Hall.uidOf, below, Hall.uidOf]
  rw [Hall.uidOf, own]
  exact Fits.congr others fits

theorem Orderly.setStage (orderly : Orderly cfg hall)
    (active : (hall.slot id).stage.isStarted = true) (goes : stage.isStarted = true)
    (kept : ∀ order older, Ordered cfg hall order → (id :: older) <:+ order → Fits cfg hall.uidOf
      (hall.slot id).stage (hall.uidOf id) older → Fits cfg hall.uidOf stage (hall.uidOf id)
      older) : Orderly cfg (hall.setStage id stage) := by
  obtain ⟨distinct, sockets, order, ordered⟩ := orderly
  refine ⟨distinct, sockets.mono (fun _ member => member) ?_, order, ordered.distinct,
    ordered.listed, ?_, ?_, ?_⟩
  · intro j opened
    refine ⟨?_, by rw [hall.ctx_setStage]⟩
    by_cases same : j = id
    · rw [same]
      exact LoginStage.ne_closed_of_started active
    · rw [hall.stage_setStage_of_ne _ same] at opened
      exact opened
  · intro j member
    by_cases same : j = id
    · rw [same, hall.stage_setStage]
      exact goes
    · rw [hall.stage_setStage_of_ne _ same]
      exact ordered.started j member
  · intro j member started
    by_cases same : j = id
    · rw [same] at member ⊢
      exact ordered.complete id member active
    · rw [hall.stage_setStage_of_ne _ same] at started
      exact ordered.complete j member started
  · refine ordered.fits.imp fun j older suffix fits => ?_
    rw [hall.uidOf_setStage]
    by_cases same : j = id
    · rw [same] at suffix fits ⊢
      rw [hall.stage_setStage]
      exact kept order older ordered suffix fits
    · rw [hall.stage_setStage_of_ne _ same]
      exact fits

theorem Orderly.connect (orderly : Orderly cfg hall) {id sock : Nat} (ip : Ip)
    (fresh : id ∉ hall.list) (free : ∀ j ∈ hall.list, (hall.slot j).stage ≠ .closed →
      (hall.slot j).ctx.controlSocket ≠ sock) :
    Orderly cfg { hall.set id ⟨newContext sock ip, .waiting⟩ with list := id :: hall.list } := by
  obtain ⟨distinct, sockets, order, ordered⟩ := orderly
  have other {j : Nat} (member : j ∈ hall.list) :
      (hall.set id ⟨newContext sock ip, .waiting⟩).slot j = hall.slot j :=
    hall.slot_set_of_ne _ fun same => fresh (same ▸ member)
  refine ⟨nodup_cons.mpr ⟨fresh, distinct⟩, ?_, order, ordered.distinct, ?_, ?_, ?_, ?_⟩
  · intro i here j there differ
    rcases mem_cons.mp here with rfl | first
    · rcases mem_cons.mp there with rfl | second
      · exact absurd rfl differ
      · rw [hall.slot_set_self, other second]
        exact fun _ opened => (free j second opened).symm
    · rw [other first]
      rcases mem_cons.mp there with rfl | second
      · rw [hall.slot_set_self]
        exact fun opened _ => free i first opened
      · rw [other second]
        exact sockets i first j second differ
  · exact fun j member => mem_cons_of_mem id (ordered.listed j member)
  · intro j member
    rw [other (ordered.listed j member)]
    exact ordered.started j member
  · intro j member started
    rcases mem_cons.mp member with rfl | present
    · rw [hall.slot_set_self] at started
      exact absurd started Bool.false_ne_true
    · rw [other present] at started
      exact ordered.complete j present started
  · exact fits_of_same ordered.fits fun j member => other (ordered.listed j member)

theorem Orderly.store (orderly : Orderly cfg hall) {id : Nat} (uid : Nat) (present : id ∈ hall.list)
    (waiting : (hall.slot id).stage = .waiting) :
    Orderly cfg (hall.set id ⟨{ (hall.slot id).ctx with userid := uid }, .stored⟩) := by
  obtain ⟨distinct, sockets, order, ordered⟩ := orderly
  have absent : id ∉ order := by
    intro member
    have started := ordered.started id member
    rw [waiting] at started
    exact Bool.false_ne_true started
  have apart {j : Nat} (member : j ∈ order) : j ≠ id := fun same => absent (same ▸ member)
  refine ⟨distinct, sockets.mono (fun _ member => member) ?_, id :: order,
    nodup_cons.mpr ⟨absent, ordered.distinct⟩, ?_, ?_, ?_, ?_, ?_⟩
  · intro j opened
    by_cases same : j = id
    · rw [same, hall.slot_set_self, waiting]
      exact ⟨nofun, rfl⟩
    · rw [hall.slot_set_of_ne _ same] at opened ⊢
      exact ⟨opened, rfl⟩
  · exact forall_mem_cons.mpr ⟨present, ordered.listed⟩
  · intro j member
    rcases mem_cons.mp member with rfl | member
    · rw [hall.slot_set_self]
      rfl
    · rw [hall.slot_set_of_ne _ (apart member)]
      exact ordered.started j member
  · intro j member started
    by_cases same : j = id
    · rw [same]
      exact mem_cons_self
    · rw [hall.slot_set_of_ne _ same] at started
      exact mem_cons_of_mem id (ordered.complete j member started)
  · change Fits cfg _ ((hall.set id _).slot id).stage _ order
    rw [hall.slot_set_self]
    trivial
  · exact fits_of_same ordered.fits fun j member => hall.slot_set_of_ne _ (apart member)

/-- A context may be changed in any way when the session is closed. -/
theorem Orderly.close (orderly : Orderly cfg hall) (id : Nat) (ctx : Context) :
    Orderly cfg (hall.set id ⟨ctx, .closed⟩) := by
  obtain ⟨distinct, sockets, order, ordered⟩ := orderly
  have stays {j : Nat} : j ∈ order.filter (· ≠ id) ↔ j ∈ order ∧ j ≠ id := by
    simp
  have fits := fits_of_same (ordered.fits.filter (fun _ _ _ => Fits.sublist) (· ≠ id))
    fun j member => hall.slot_set_of_ne ⟨ctx, .closed⟩ (stays.mp member).2
  refine ⟨distinct, sockets.mono (fun _ member => member) ?_, order.filter (· ≠ id),
    ordered.distinct.filter _, fun j member => ordered.listed j (stays.mp member).1, ?_, ?_, fits⟩
  · intro j opened
    by_cases same : j = id
    · rw [same, hall.slot_set_self] at opened
      exact absurd rfl opened
    · rw [hall.slot_set_of_ne _ same] at opened ⊢
      exact ⟨opened, rfl⟩
  · intro j member
    obtain ⟨present, apart⟩ := stays.mp member
    rw [hall.slot_set_of_ne _ apart]
    exact ordered.started j present
  · intro j member started
    by_cases same : j = id
    · rw [same, hall.slot_set_self] at started
      exact absurd started Bool.false_ne_true
    · rw [hall.slot_set_of_ne _ same] at started
      exact stays.mpr ⟨ordered.complete j member started, same⟩

theorem Orderly.leave (orderly : Orderly cfg hall) {id : Nat}
    (closed : (hall.slot id).stage = .closed) :
    Orderly cfg { hall with list := hall.list.filter (· ≠ id) } := by
  obtain ⟨distinct, sockets, order, ordered⟩ := orderly
  have listed {j : Nat} : j ∈ hall.list.filter (· ≠ id) ↔ j ∈ hall.list ∧ j ≠ id := by
    simp
  have apart {j : Nat} (member : j ∈ order) : j ≠ id :=
    fun same => LoginStage.ne_closed_of_started (ordered.started j member) (same ▸ closed)
  refine ⟨distinct.filter _, ?_, order, ordered.distinct, ?_, ordered.started, ?_, ordered.fits⟩
  · exact sockets.mono (fun j member => (listed.mp member).1) fun j opened => ⟨opened, rfl⟩
  · exact fun j member => listed.mpr ⟨ordered.listed j member, apart member⟩
  · exact fun j member started => ordered.complete j (listed.mp member).1 started

theorem checkedStage_isStarted : (checkedStage cfg hall id).isStarted = true := by
  unfold checkedStage
  repeat' split
  all_goals rfl

theorem visitedStage_isStarted {x : Nat} {rest : List Nat} :
    (visitedStage hall id x rest countLogins countFromip).isStarted = true := by
  unfold visitedStage
  split <;> rfl

theorem finishedStage_isStarted :
    (finishedStage cfg hall id countLogins countFromip).isStarted = true := by
  unfold finishedStage
  split
  · rfl
  split <;> rfl

/-- Every step of every session keeps the order. -/
theorem Hall.step_orderly (orderly : Orderly cfg hall) (act : LoginAct) :
    Orderly cfg (hall.step cfg act) := by
  cases act with
  | connect id sock ip =>
    simp only [Hall.step]
    split
    · rename_i both
      exact orderly.connect ip both.1 both.2
    · exact orderly
  | user id name =>
    simp only [Hall.step]
    split
    · rename_i uid waiting _
      split
      · rename_i present
        exact orderly.store uid present waiting
      · exact orderly
    · exact orderly
  | check id =>
    simp only [Hall.step]
    split
    · rename_i stored
      refine orderly.setStage (by rw [stored]; rfl) checkedStage_isStarted ?_
      intro order older ordered suffix _
      refine fits_checked fun j member => ?_
      exact ordered.listed j (suffix.subset (mem_cons_of_mem id member))
    · exact orderly
  | visit id =>
    simp only [Hall.step]
    split
    · rename_i x rest countLogins countFromip counting
      refine orderly.setStage (by rw [counting]; rfl) visitedStage_isStarted ?_
      intro order older ordered suffix fits
      rw [counting] at fits
      have distinct := ordered.distinct.sublist suffix.sublist
      refine fits_visited orderly.sockets ?_ distinct ?_ fits
      · exact fun j member => ordered.listed j (suffix.subset member)
      · intro j member
        exact LoginStage.ne_closed_of_started (ordered.started j (suffix.subset member))
    · exact orderly
  | finish id =>
    simp only [Hall.step]
    split
    · rename_i countLogins countFromip counting
      refine orderly.setStage (by rw [counting]; rfl) finishedStage_isStarted ?_
      intro order older _ _ fits
      rw [counting] at fits
      exact fits_finished fits
    · exact orderly
  | settle id free =>
    simp only [Hall.step]
    split
    · rename_i counted
      refine orderly.setStage (by rw [counted]; rfl) (by split <;> rfl) ?_
      intro order older _ _ fits
      rw [counted] at fits
      cases free with
      | true => exact fits
      | false => trivial
    · exact orderly
  | close id => exact orderly.close id _
  | reset id =>
    simp only [Hall.step]
    split
    · exact orderly.close id _
    · exact orderly
  | leave id =>
    simp only [Hall.step]
    split
    · rename_i closed
      exact orderly.leave closed
    · exact orderly

theorem orderly_empty : Orderly cfg Hall.empty :=
  ⟨nodup_nil, nofun, [], nodup_nil, nofun, nofun, nofun, trivial⟩

theorem LoginStage.eq_accepted (accepted : stage.isAccepted = true) : stage = .accepted := by
  cases stage with
  | accepted => rfl
  | waiting | stored | counting | counted | refused | closed =>
    exact absurd accepted Bool.false_ne_true

/-- In an orderly list the accepted sessions of a user are within the limit: the
latest of them has seen all others. -/
theorem Orderly.acceptedFor_le (orderly : Orderly cfg hall) {user : User}
    (known : cfg.users.getById user.uid = some user) (bound : user.exempt = false)
    (limited : 0 < user.numLogins) : (hall.acceptedFor user.uid).length ≤ user.numLogins := by
  obtain ⟨distinct, _, order, ordered⟩ := orderly
  have inside : (hall.acceptedFor user.uid) ⊆ order.filter fun id =>
      (hall.slot id).stage.isAccepted && decide ((hall.slot id).ctx.userid = user.uid) := by
    intro id member
    obtain ⟨present, both⟩ := mem_filter.mp member
    have started : (hall.slot id).stage.isStarted = true := by
      rw [LoginStage.eq_accepted (Bool.and_eq_true_iff.mp both).1]
      rfl
    exact mem_filter.mpr ⟨ordered.complete id present started, both⟩
  have each : Each (fun id older =>
      ((hall.slot id).stage.isAccepted && decide ((hall.slot id).ctx.userid = user.uid)) = true →
        older.countP (fun j => decide (hall.uidOf j = user.uid)) < user.numLogins) order := by
    refine ordered.fits.imp fun id older _ fits both => ?_
    obtain ⟨accepted, same⟩ := Bool.and_eq_true_iff.mp both
    have own : hall.uidOf id = user.uid := of_decide_eq_true same
    rw [LoginStage.eq_accepted accepted, own] at fits
    exact fits user known bound limited
  calc (hall.acceptedFor user.uid).length ≤ (order.filter _).length :=
        ((distinct.filter _).subperm inside).length_le
    _ = order.countP _ := countP_eq_length_filter.symm
    _ ≤ user.numLogins :=
        countP_le_of_each (fun _ both => (Bool.and_eq_true_iff.mp both).2) each

end Steps

/-- However the sessions interleave, at no time are more of them accepted for a
user than the user may have logins. -/
theorem accepted_le_numLogins (cfg : LoginConfig) (user : User) (acts : List LoginAct)
    (known : cfg.users.getById user.uid = some user) (bound : user.exempt = false)
    (limited : 0 < user.numLogins) :
    Runs.Throughout (Hall.step cfg)
      (fun hall => (hall.acceptedFor user.uid).length ≤ user.numLogins) Hall.empty acts := by
  have always : Runs.Throughout (Hall.step cfg) (Orderly cfg) Hall.empty acts :=
    Runs.throughout_of_step (fun hall act orderly => hall.step_orderly orderly act) acts
      orderly_empty
  exact always.imp fun hall orderly => orderly.acceptedFor_le known bound limited

/-- The loop over a list of `size` entries and the comparisons behind it. -/
def scan (id size : Nat) : List LoginAct := replicate size (.visit id) ++ [.finish id]

/-- Two logins are allowed. The first two sessions store their uid before either counts; the
third comes too late, and the fourth gets the socket of the first. -/
def loginRace : List LoginAct :=
  [.connect 1 5 .zero, .connect 2 6 .zero, .connect 3 7 .zero, .user 1 "ann".toList,
    .user 2 "ann".toList, .check 1, .visit 1, .check 2, .visit 1, .visit 1, .finish 1]
  ++ scan 2 3 ++ [.settle 2 true, .settle 1 true, .user 3 "ann".toList, .check 3]
  ++ scan 3 3 ++ [.close 3, .reset 3, .leave 3, .close 1, .connect 4 5 .zero,
    .user 4 "ann".toList, .check 4]
  ++ scan 4 3 ++ [.settle 4 true, .reset 1, .leave 1]

theorem accepted_le_numLogins_ann :
    ((loginRace.foldl (Hall.step loginConfig) Hall.empty).acceptedFor 1).length = 2 ∧
      Runs.Throughout (Hall.step loginConfig) (fun hall => (hall.acceptedFor 1).length ≤ 2)
        Hall.empty loginRace :=
  ⟨by decide, accepted_le_numLogins loginConfig loginUserRecord loginRace rfl rfl (by decide)⟩

end Wzdftpd
