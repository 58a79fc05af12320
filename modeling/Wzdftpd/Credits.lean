import Wzdftpd.ClientLoop

/- RETR compares the size of the file with the credits once; they are taken block by block. -/
namespace Wzdftpd

/-- ULLONG_MAX -/
def ullongMax : Nat := 2 ^ 64 - 1

def spentCredits (credits n : Nat) : Nat := if credits ≥ n then credits - n else 0

/-- The credits after a block, where `product` is `user->ratio * n`. -/
def earnedCredits (credits product : Nat) : Nat :=
  if ullongMax - product ≤ credits then ullongMax else credits + product

/-- A user record, with the totals of its statistics counted from the start of a run. -/
structure Account where
  user : User
  downloaded : Nat
  uploaded : Nat

/-- What a turn of a transfer loop counts. -/
inductive Charge where
  | nothing
  | down (n : Nat)
  | up (n product : Nat)
  deriving DecidableEq, Repr

namespace Account

def opened (user : User) : Account := ⟨user, 0, 0⟩

def withCredits (account : Account) (credits : Nat) : Account :=
  if account.user.ratio = 0 then account
  else { account with user := { account.user with credits := credits } }

def apply (account : Account) : Charge → Account
  | .nothing => account
  | .down n => { account with downloaded := account.downloaded + n }.withCredits
      (spentCredits account.user.credits n)
  | .up n product => { account with uploaded := account.uploaded + n }.withCredits
      (earnedCredits account.user.credits product)

end Account

/-- What `data_execute` counts, with a product of `unsigned int`, whatever `file_write`
returns. -/
def dataExecuteCharge (ratio : Nat) (token : Token) (moved sent : Int) : Charge :=
  match token with
  | .retr => if moved > 0 ∧ ¬sent ≤ 0 then .down moved.toNat else .nothing
  | .stor => if moved > 0 then .up moved.toNat (ratio * moved.toNat % 2 ^ 32) else .nothing
  | _ => .nothing

/-- What a turn of a transfer thread counts, where `count` bytes were read and `ret` written,
with a product of 64 bits. -/
def threadCharge (ratio : Nat) (isUpload : Bool) (count ret : Int) : Charge :=
  if isUpload then
    if count > 0 ∧ ret = count then .up count.toNat (ratio * count.toNat % 2 ^ 64) else .nothing
  else if count > 0 ∧ ¬ret ≤ 0 then .down count.toNat
  else .nothing

/-- The sessions of a user and the record that they share. -/
structure Sharing where
  account : Account
  session : Nat → Live

/-- A turn of the loop of one session, or of its transfer thread. -/
inductive SharingEvent where
  | turn (id : Nat) (event : SessionEvent)
  | thread (id : Nat) (isUpload : Bool) (count ret : Int)

def SessionEvent.withUser (user : User) : SessionEvent → SessionEvent
  | .command w _ cmd => .command w user cmd
  | .data w _ moved sent => .data w user moved sent
  | .tick w _ delay dataDelay => .tick w user delay dataDelay
  | .threadEnds w _ isUpload exitOk => .threadEnds w user isUpload exitOk

namespace Sharing

def charge (s : Sharing) : SharingEvent → Charge
  | .turn id (.data _ _ moved sent) =>
    let live := (s.session id).joined
    if ¬live.ctx.exitclient ∧ dataWatched live.ctx then
      dataExecuteCharge s.account.user.ratio live.ctx.currentAction.token moved sent
    else .nothing
  | .turn _ _ => .nothing
  | .thread id isUpload count ret =>
    if (s.session id).ctx.isTransferring then
      threadCharge s.account.user.ratio isUpload count ret
    else .nothing

def sessionsAfter (s : Sharing) : SharingEvent → Nat → Live
  | .turn id event => Function.update s.session id
      ((s.session id).step (event.withUser s.account.user))
  | .thread .. => s.session

def step (s : Sharing) (event : SharingEvent) : Sharing :=
  ⟨s.account.apply (s.charge event), s.sessionsAfter event⟩

/-- No more has been downloaded than the credits and the uploads allow. -/
def Bounded (user : User) (s : Sharing) : Prop :=
  s.account.downloaded ≤ user.credits + user.ratio * s.account.uploaded

/-- A block that is sent does not exceed the credits that are left. -/
def BlockCovered (s : Sharing) (event : SharingEvent) : Prop :=
  ∀ n, s.charge event = .down n → n ≤ s.account.user.credits

/-- A block that is received is counted without overflow. -/
def UploadExact (s : Sharing) (event : SharingEvent) : Prop :=
  ∀ n product, s.charge event = .up n product →
    product = s.account.user.ratio * n ∧ s.account.user.credits + product ≤ ullongMax

/-- What has been downloaded and what is left are covered. -/
def Solvent (user : User) (s : Sharing) : Prop :=
  s.account.user.ratio = user.ratio ∧
    s.account.downloaded + s.account.user.credits ≤ user.credits + user.ratio * s.account.uploaded

/-- The credits are what the books say. -/
def Balanced (user : User) (s : Sharing) : Prop :=
  s.account.user.ratio = user.ratio ∧
    s.account.downloaded + s.account.user.credits = user.credits + user.ratio * s.account.uploaded

variable {user : User} {s : Sharing} {event : SharingEvent}

variable {n product : Nat}

theorem dataExecuteCharge_le {ratio : Nat} {token : Token} {moved sent : Int}
    (charged : dataExecuteCharge ratio token moved sent = .up n product) :
    product ≤ ratio * n := by
  unfold dataExecuteCharge at charged
  split at charged
  · split at charged <;> exact nomatch charged
  · split at charged
    · obtain ⟨rfl, rfl⟩ := Charge.up.inj charged
      exact Nat.mod_le _ _
    · exact nomatch charged
  · exact nomatch charged

theorem threadCharge_le {ratio : Nat} {isUpload : Bool} {count ret : Int}
    (charged : threadCharge ratio isUpload count ret = .up n product) : product ≤ ratio * n := by
  unfold threadCharge at charged
  split at charged
  · split at charged
    · obtain ⟨rfl, rfl⟩ := Charge.up.inj charged
      exact Nat.mod_le _ _
    · exact nomatch charged
  · split at charged <;> exact nomatch charged

theorem product_le (charged : s.charge event = .up n product) :
    product ≤ s.account.user.ratio * n := by
  unfold charge at charged
  split at charged
  · simp only at charged
    split at charged
    · exact dataExecuteCharge_le charged
    · exact nomatch charged
  · exact nomatch charged
  · split at charged
    · exact threadCharge_le charged
    · exact nomatch charged

theorem step_of_nothing (charged : s.charge event = .nothing) :
    (s.step event).account = s.account := by
  rw [step, charged]
  rfl

theorem step_of_down (ratio : s.account.user.ratio ≠ 0) (charged : s.charge event = .down n) :
    (s.step event).account = ⟨{ s.account.user with
      credits := spentCredits s.account.user.credits n }, s.account.downloaded + n,
      s.account.uploaded⟩ := by
  rw [step, charged]
  exact if_neg ratio

theorem step_of_up (ratio : s.account.user.ratio ≠ 0) (charged : s.charge event = .up n product) :
    (s.step event).account = ⟨{ s.account.user with
      credits := earnedCredits s.account.user.credits product }, s.account.downloaded,
      s.account.uploaded + n⟩ := by
  rw [step, charged]
  exact if_neg ratio

theorem earnedCredits_le (credits product : Nat) :
    earnedCredits credits product ≤ credits + product := by
  unfold earnedCredits
  split <;> omega

theorem earnedCredits_eq {credits : Nat} (room : credits + product ≤ ullongMax) :
    earnedCredits credits product = credits + product := by
  unfold earnedCredits
  split <;> omega

theorem ratio_step : (s.step event).account.user.ratio = s.account.user.ratio := by
  unfold step Account.apply
  cases s.charge event with
  | nothing => rfl
  | down n | up n product =>
    simp only [Account.withCredits]
    split <;> rfl

theorem step_books (ratio : s.account.user.ratio ≠ 0) (covered : BlockCovered s event) :
    ∃ n, (s.step event).account.uploaded = s.account.uploaded + n ∧
      (s.step event).account.downloaded + (s.step event).account.user.credits ≤
        s.account.downloaded + s.account.user.credits + s.account.user.ratio * n ∧
      (UploadExact s event →
        (s.step event).account.downloaded + (s.step event).account.user.credits =
          s.account.downloaded + s.account.user.credits + s.account.user.ratio * n) := by
  cases charged : s.charge event with
  | nothing =>
    rw [step_of_nothing charged]
    exact ⟨0, rfl, Nat.le_refl _, fun _ => rfl⟩
  | down n =>
    have enough := covered n charged
    rw [step_of_down ratio charged, spentCredits, if_pos enough]
    refine ⟨0, rfl, ?_, fun _ => ?_⟩ <;> simp only <;> omega
  | up n product =>
    rw [step_of_up ratio charged]
    refine ⟨n, rfl, ?_, ?_⟩
    · have most := product_le charged
      have earned := earnedCredits_le s.account.user.credits product
      simp only
      omega
    · intro precise
      obtain ⟨full, room⟩ := precise n product charged
      rw [earnedCredits_eq room, full, Nat.add_assoc]

theorem Solvent.step (ratio : user.ratio ≠ 0) (solvent : Solvent user s)
    (covered : BlockCovered s event) : Solvent user (s.step event) := by
  obtain ⟨same, _⟩ := solvent
  obtain ⟨_, uploaded, most, _⟩ := step_books (same ▸ ratio) covered
  refine ⟨ratio_step.trans same, ?_⟩
  rw [same] at most
  rw [uploaded, Nat.mul_add]
  omega

theorem Balanced.step (ratio : user.ratio ≠ 0) (balanced : Balanced user s)
    (precise : UploadExact s event) (covered : BlockCovered s event) :
    Balanced user (s.step event) := by
  obtain ⟨same, _⟩ := balanced
  obtain ⟨_, uploaded, _, full⟩ := step_books (same ▸ ratio) covered
  have all := full precise
  refine ⟨ratio_step.trans same, ?_⟩
  rw [same] at all
  rw [uploaded, Nat.mul_add]
  omega

theorem Balanced.not_bounded (ratio : user.ratio ≠ 0) (balanced : Balanced user s)
    (uncovered : ¬BlockCovered s event) : ¬Bounded user (s.step event) := by
  obtain ⟨same, _⟩ := balanced
  obtain ⟨_, uncovered⟩ := not_forall.mp uncovered
  obtain ⟨charged, _⟩ := Classical.not_imp.mp uncovered
  rw [Bounded, step_of_down (same ▸ ratio) charged]
  simp only
  omega

theorem Solvent.bounded (solvent : Solvent user s) : Bounded user s := by
  have books := solvent.2
  unfold Bounded
  omega

theorem Balanced.solvent (balanced : Balanced user s) : Solvent user s :=
  ⟨balanced.1, balanced.2.le⟩

def start (user : User) (sessions : Nat → Live) : Sharing := ⟨.opened user, sessions⟩

theorem start_balanced (user : User) (sessions : Nat → Live) :
    Balanced user (start user sessions) := by
  refine ⟨rfl, ?_⟩
  simp only [start, Account.opened]
  omega

/-- The downloads stay within the credits as long as every block does; and where the
uploads are counted without overflow, only then. -/
theorem downloads_within_credits (user : User) (ratio : user.ratio ≠ 0) (sessions : Nat → Live)
    (events : List SharingEvent) :
    (Runs.Always step BlockCovered (start user sessions) events →
      Runs.Throughout step (Bounded user) (start user sessions) events) ∧
    (Runs.Always step UploadExact (start user sessions) events →
      (Runs.Throughout step (Bounded user) (start user sessions) events ↔
        Runs.Always step BlockCovered (start user sessions) events)) := by
  have balanced := start_balanced user sessions
  constructor
  · intro covered
    have solvent := Runs.throughout_of_always step (Solvent user) BlockCovered
      (fun _ _ now safe => now.step ratio safe) events _ balanced.solvent covered
    exact solvent.imp fun _ now => now.bounded
  · exact Runs.throughout_iff_always_of_side step (Balanced user) (Bounded user) UploadExact
      BlockCovered (fun _ now => now.solvent.bounded)
      (fun _ _ now precise safe => now.step ratio precise safe)
      (fun _ _ now _ beyond => now.not_bounded ratio beyond) events _ balanced

end Sharing

def debtor : User := { srvUser with ratio := 3, credits := 10 }

/-- `/srv/f` has ten bytes, and the client listens. -/
def tenBytes : World :=
  let stat (path : Text) : Option FileStat :=
    if path = "/srv".toList then some ⟨.dir, 0⟩
    else if path = "/srv/f".toList then some ⟨.reg, 10⟩
    else none
  let fs : FileSystem := { lstat := stat, stat := stat }
  { server := .single debtor, fs := fs, fsAfter := fs, fsOpen := fun _ _ => some 5
    connect := some 7 }

def portSessions (_ : Nat) : Live :=
  ⟨{ srvContext with datafamily := .inet4, dataport := 2000 }, []⟩

def startDownload (id : Nat) : SharingEvent := .turn id (.command tenBytes debtor (.retr [] ['f']))

def sendBlock (id : Nat) : SharingEvent := .turn id (.data tenBytes debtor 10 10)

/-- One session downloads the file. -/
theorem downloads_within_credits_single :
    Runs.Throughout Sharing.step (Sharing.Bounded debtor) (Sharing.start debtor portSessions)
      [startDownload 0, sendBlock 0] := by
  apply (Sharing.downloads_within_credits debtor (by decide) portSessions _).1
  refine ⟨nofun, ?_, trivial⟩
  intro n charged
  have ten : Charge.down 10 = .down n := Eq.trans (by decide) charged
  obtain rfl := Charge.down.inj ten
  decide

/-- Two sessions start a download of ten bytes each while there are ten credits, and
both files are sent. -/
theorem two_sessions_spend_credits_twice :
    let before := [startDownload 0, startDownload 1].foldl Sharing.step
      (Sharing.start debtor portSessions)
    let after := [sendBlock 0, sendBlock 1].foldl Sharing.step before
    (before.session 0).ctx.state = .xfer ∧ (before.session 1).ctx.state = .xfer ∧
      after.account.downloaded = 20 ∧ after.account.uploaded = 0 ∧ debtor.credits = 10 ∧
      ¬after.Bounded debtor := by
  intro before after
  have downloaded : after.account.downloaded = 20 := by decide
  have uploaded : after.account.uploaded = 0 := by decide
  refine ⟨by decide, by decide, downloaded, uploaded, rfl, ?_⟩
  rw [Sharing.Bounded]
  decide

end Wzdftpd
