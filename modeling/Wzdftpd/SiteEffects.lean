import Wzdftpd.SiteSteps

/- What each SITE command can do to the accounts. The results about the commands are
case analyses over `SiteEffect` and do not look into the handlers again. -/
namespace Wzdftpd

open List Option

namespace UserRecord

variable (user : UserRecord)

def marked : UserRecord := { user with flags := user.flags ++ ['D'] }

def unmarked : UserRecord := { user with flags := user.flags.erase 'D' }

def ownedBy (creator : UInt32) : UserRecord := { user with creator := creator }

def payUserSlot : UserRecord := { user with userSlots := user.userSlots - 1 }

def gainUserSlot : UserRecord := { user with userSlots := user.userSlots + 1 }

def rated (ratio : UInt32) : UserRecord := { user with ratio := ratio }

def charged (oldratio ratio : UInt32) : UserRecord :=
  { user with leechSlots := adjustLeech oldratio ratio user.leechSlots }

def regrouped (groups : GroupArray) : UserRecord := { user with groups := groups }

def funded (credits : UInt64) : UserRecord := { user with credits := credits }

theorem uid_marked : user.marked.uid = user.uid := rfl

theorem uid_unmarked : user.unmarked.uid = user.uid := rfl

theorem uid_ownedBy (creator : UInt32) : (user.ownedBy creator).uid = user.uid := rfl

theorem username_ownedBy (creator : UInt32) :
    (user.ownedBy creator).username = user.username := rfl

theorem uid_payUserSlot : user.payUserSlot.uid = user.uid := rfl

theorem uid_gainUserSlot : user.gainUserSlot.uid = user.uid := rfl

theorem uid_rated (ratio : UInt32) : (user.rated ratio).uid = user.uid := rfl

theorem uid_charged (oldratio ratio : UInt32) : (user.charged oldratio ratio).uid = user.uid := rfl

theorem uid_regrouped (groups : GroupArray) : (user.regrouped groups).uid = user.uid := rfl

theorem uid_funded (credits : UInt64) : (user.funded credits).uid = user.uid := rfl

theorem credits_funded (credits : UInt64) : (user.funded credits).credits = credits := rfl

theorem flags_funded (credits : UInt64) : (user.funded credits).flags = user.flags := rfl

theorem funded_funded (first second : UInt64) :
    (user.funded first).funded second = user.funded second := rfl

theorem funded_self : user.funded user.credits = user := rfl

theorem gainUserSlot_ne : user.gainUserSlot ≠ user := by
  intro same
  have slots : user.userSlots + 1 = user.userSlots := congrArg UserRecord.userSlots same
  have counts := congrArg UInt16.toNat slots
  rw [UInt16.toNat_add] at counts
  change (_ + 1) % 2 ^ 16 = _ at counts
  omega

end UserRecord

/-- The checks of a handler accept what the caller wants. -/
def Passes {α : Type} (site : Site) (caller : Caller) (check : UserRecord → Check α) : Prop :=
  ∃ me plan, site.user caller.userid = some me ∧ check me = .ok plan

variable {site : Site} {caller : Caller}

theorem not_passes {α : Type} {check : UserRecord → Check α}
    {me : UserRecord} {reply : Reply} (here : site.user caller.userid = some me)
    (refused : check me = .error reply) : ¬Passes site caller check := by
  rintro ⟨_, _, own, passed⟩
  cases here.symm.trans own
  cases refused.symm.trans passed

/-- A command that does nothing is one that refuses. -/
def SiteCommand.Idle (w : SiteWorld) (caller : Caller) (site : Site) : SiteCommand → Prop
  | .adduser line => ∀ me record, site.user caller.userid = some me →
      adduserRecord site line me = .ok record → backendCreate w site record = some none
  | .deluser line => ¬Passes site caller (deluserTarget site line)
  | .readduser line => ¬Passes site caller (readduserTarget site line)
  | .purge line => (strtok blanks line).1 ≠ none
  | .change line => ¬Passes site caller (changePlan w site line)
  | .changegrp line => ∀ plan, changegrpTarget site line ≠ .ok plan
  | .chratio line => ¬Passes site caller (chratioPlan site line)
  | _ => True

/-- The accounts after a command, and the job that it has left. The accounts of a
command that refuses, reads, or only ends sessions are the old ones. -/
inductive SiteEffect (w : SiteWorld) (caller : Caller) (site : Site) :
    SiteCommand → Accounts → Option Job → Prop where
  | nothing {command : SiteCommand} (idle : command.Idle w caller site) :
      SiteEffect w caller site command site.users none
  | added {line : Text} {me record newuser : UserRecord} {created : Site}
      (here : site.user caller.userid = some me) (passed : adduserRecord site line me = .ok record)
      (stored : backendCreate w site record = some (some (newuser, created)))
      (free : me.has 'G' = false) : SiteEffect w caller site (.adduser line) created.users none
  | addedPaid {line : Text} {me now record newuser : UserRecord} {created : Site}
      (here : site.user caller.userid = some me) (passed : adduserRecord site line me = .ok record)
      (stored : backendCreate w site record = some (some (newuser, created)))
      (gadmin : me.has 'G' = true) (apart : newuser.id ≠ caller.userid)
      (there : (created.put (newuser.ownedBy me.uid)).user caller.userid = some now) :
      SiteEffect w caller site (.adduser line)
        ((created.put (newuser.ownedBy me.uid)).put now.payUserSlot).users none
  | deleted {line : Text} {me user : UserRecord} (here : site.user caller.userid = some me)
      (passed : deluserTarget site line me = .ok user)
      (alone : w.commits user.marked = true →
        refundTo (site.put user.marked) user.marked = none) :
      SiteEffect w caller site (.deluser line) (site.put user.marked).users none
  | deletedRefund {line : Text} {me user creator now : UserRecord}
      (here : site.user caller.userid = some me) (passed : deluserTarget site line me = .ok user)
      (taken : w.commits user.marked = true)
      (refund : refundTo (site.put user.marked) user.marked = some creator)
      (there : ((site.put user.marked).put (user.marked.ownedBy 0xffffffff)).user
        creator.id = some now) :
      SiteEffect w caller site (.deluser line)
        (((site.put user.marked).put (user.marked.ownedBy 0xffffffff)).put
          now.gainUserSlot).users none
  | readded {line : Text} {me user : UserRecord} (here : site.user caller.userid = some me)
      (passed : readduserTarget site line me = .ok user)
      (free : w.commits user.unmarked = true → me.has 'G' = false) :
      SiteEffect w caller site (.readduser line) (site.put user.unmarked).users none
  | readdedPaid {line : Text} {me user now : UserRecord} (here : site.user caller.userid = some me)
      (passed : readduserTarget site line me = .ok user) (gadmin : me.has 'G' = true)
      (taken : w.commits user.unmarked = true)
      (there : (site.put (user.unmarked.ownedBy me.uid)).user caller.userid = some now) :
      SiteEffect w caller site (.readduser line)
        ((site.put (user.unmarked.ownedBy me.uid)).put now.payUserSlot).users none
  | purged {line username rest : Text} {me user : UserRecord}
      (here : site.user caller.userid = some me)
      (first : strtok blanks line = (some username, rest))
      (passed : purgeTarget site caller username me = .ok user) :
      SiteEffect w caller site (.purge line) (site.users.remove user.id) none
  | purgeLater {line : Text} (empty : (strtok blanks line).1 = none) :
      SiteEffect w caller site (.purge line) site.users (some .purgeAll)
  | ipsAdded {line : Text} {me user : UserRecord} {ips : List Text} {list : List IpEntry}
      (here : site.user caller.userid = some me)
      (passed : addipTarget site line me = .ok (user, ips)) :
      SiteEffect w caller site (.addip line) (site.put { user with ipList := list }).users none
  | ipsRemoved {line : Text} {me user : UserRecord} {ips : List Text} {list : List IpEntry}
      (here : site.user caller.userid = some me)
      (passed : delipTarget site line me = .ok (user, ips)) :
      SiteEffect w caller site (.delip line) (site.put { user with ipList := list }).users none
  | changed {line : Text} {me user changed : UserRecord} {edit : FieldEdit}
      (here : site.user caller.userid = some me)
      (passed : changePlan w site line me = .ok (user, edit))
      (applied : edit.apply user = some changed)
      (free : w.commits changed = true → me.has 'G' = false ∨ ∀ n, edit ≠ .ratio n) :
      SiteEffect w caller site (.change line) (site.put (edit.commit w changed).2).users none
  | changedPaid {line : Text} {me user now : UserRecord} {n : Nat}
      (here : site.user caller.userid = some me)
      (passed : changePlan w site line me = .ok (user, .ratio n)) (gadmin : me.has 'G' = true)
      (taken : w.commits (user.rated (UInt32.ofNat n)) = true)
      (there : (site.put (user.rated (UInt32.ofNat n))).user caller.userid = some now) :
      SiteEffect w caller site (.change line)
        ((site.put (user.rated (UInt32.ofNat n))).put
          (now.charged user.ratio (UInt32.ofNat n))).users none
  | regrouped {line : Text} {user : UserRecord} {groups : List Text} {after : GroupArray}
      (passed : changegrpTarget site line = .ok (user, groups))
      (toggled : user.groups.toggleAll (groups.map site.groupIdNamed) = some after) :
      SiteEffect w caller site (.changegrp line) (site.put (user.regrouped after)).users none
  | rated {line : Text} {me user : UserRecord} {ratio : UInt32}
      (here : site.user caller.userid = some me)
      (passed : chratioPlan site line me = .ok (user, ratio))
      (free : w.commits (user.rated ratio) = true → me.has 'G' = false) :
      SiteEffect w caller site (.chratio line) (site.put (user.rated ratio)).users none
  | ratedPaid {line : Text} {me user now : UserRecord} {ratio : UInt32}
      (here : site.user caller.userid = some me)
      (passed : chratioPlan site line me = .ok (user, ratio)) (gadmin : me.has 'G' = true)
      (slots : ¬(ratio = 0 ∧ me.leechSlots = 0)) (taken : w.commits (user.rated ratio) = true)
      (there : (site.put (user.rated ratio)).user caller.userid = some now) :
      SiteEffect w caller site (.chratio line)
        ((site.put (user.rated ratio)).put (now.charged user.ratio ratio)).users none
  | flagged {line name newflags : Text} {me user : UserRecord}
      (here : site.user caller.userid = some me) (named : site.userNamed name = some user)
      (siteop : me.has 'O' = true) :
      SiteEffect w caller site (.flags line)
        (site.put { user with flags := (userFlagsChange user.flags newflags).2 }).users none
  | gave {line : Text} {me : UserRecord} {gift : Gift} (here : site.user caller.userid = some me)
      (passed : givePlan site line me = .ok gift) (free : gift.free = true) :
      SiteEffect w caller site (.give line)
        (site.put (gift.user.funded (toppedUp gift.user.credits gift.bytes))).users none
  | gavePaid {line : Text} {me now : UserRecord} {gift : Gift}
      (here : site.user caller.userid = some me) (passed : givePlan site line me = .ok gift)
      (paid : gift.free = false)
      (there : (site.put (gift.user.funded (toppedUp gift.user.credits gift.bytes))).user
        caller.userid = some now) :
      SiteEffect w caller site (.give line)
        ((site.put (gift.user.funded (toppedUp gift.user.credits gift.bytes))).put
          (now.funded (now.credits - clipped gift.user.credits gift.bytes))).users none
  | took {line : Text} {me user : UserRecord} {bytes : UInt64}
      (here : site.user caller.userid = some me)
      (passed : takePlan site line me = .ok (user, bytes)) :
      SiteEffect w caller site (.take line) (site.put (user.funded
        (if user.credits > bytes then user.credits - bytes else 0))).users none

section

variable {w : SiteWorld} {caller : Caller} {site : Site} {line : Text} {done : Done}

theorem adduser_effect (ran : doSiteAdduser w caller line site = some done) :
    SiteEffect w caller site (.adduser line) done.site.users done.job := by
  obtain ⟨_, here, ⟨_, refused, rfl⟩ | ⟨record, passed, ran⟩⟩ := serve_cases ran
  · refine .nothing fun me' record own passed => ?_
    exact absurd ⟨me', record, own, passed⟩ (not_passes here refused)
  obtain ⟨answer, stored, ran⟩ := bind_eq_some_iff.mp ran
  cases answer with
  | none =>
    cases ran
    refine .nothing fun me' record' own passed' => ?_
    cases here.symm.trans own
    cases passed.symm.trans passed'
    exact stored
  | some made =>
    simp only at ran
    split at ran
    · rename_i free
      cases ran
      exact .added here passed stored (Bool.eq_false_iff.mpr free)
    rename_i paid
    split at ran
    · cases ran
    · rename_i apart
      obtain ⟨_, there, ran⟩ := map_eq_some_iff.mp ran
      cases ran
      exact .addedPaid here passed stored (not_not.mp paid) apart there

theorem deluser_effect (ran : doSiteDeluser w caller line site = some done) :
    SiteEffect w caller site (.deluser line) done.site.users done.job := by
  obtain ⟨_, here, ⟨_, refused, rfl⟩ | ⟨_, passed, ran⟩⟩ := serve_cases ran
  · exact .nothing (not_passes here refused)
  simp only at ran
  split at ran
  · rename_i failed
    cases ran
    exact .deleted here passed fun taken => absurd taken failed
  rename_i taken
  split at ran
  · rename_i alone
    cases ran
    exact .deleted here passed fun _ => alone
  · rename_i creator refund
    obtain ⟨_, there, ran⟩ := map_eq_some_iff.mp ran
    cases ran
    exact .deletedRefund here passed (not_not.mp taken) refund there

theorem readduser_effect (ran : doSiteReadduser w caller line site = some done) :
    SiteEffect w caller site (.readduser line) done.site.users done.job := by
  obtain ⟨_, here, ⟨_, refused, rfl⟩ | ⟨_, passed, ran⟩⟩ := serve_cases ran
  · exact .nothing (not_passes here refused)
  simp only at ran
  split at ran
  · rename_i failed
    cases ran
    exact .readded here passed fun taken => absurd taken failed
  rename_i taken
  split at ran
  · rename_i gadmin
    obtain ⟨_, there, ran⟩ := map_eq_some_iff.mp ran
    cases ran
    exact .readdedPaid here passed gadmin (not_not.mp taken) there
  · rename_i free
    cases ran
    exact .readded here passed fun _ => Bool.eq_false_iff.mpr free

theorem purgeuser_effect (ran : doSitePurgeuser caller line site = some done) :
    SiteEffect w caller site (.purge line) done.site.users done.job := by
  unfold doSitePurgeuser at ran
  split at ran
  · rename_i username rest first
    obtain ⟨me, here, ⟨_, _, rfl⟩ | ⟨_, passed, ran⟩⟩ := serve_cases ran
    · apply SiteEffect.nothing
      rw [SiteCommand.Idle, first]
      exact some_ne_none username
    · cases ran
      exact .purged here first passed
  · rename_i rest empty
    obtain ⟨me, _, ran⟩ := map_eq_some_iff.mp ran
    cases ran
    exact .purgeLater (by rw [empty])

theorem addip_effect (ran : doSiteAddip w caller line site = some done) :
    SiteEffect w caller site (.addip line) done.site.users done.job := by
  obtain ⟨_, here, ⟨_, _, rfl⟩ | ⟨⟨_, _⟩, passed, ran⟩⟩ := serve_cases ran
  · exact .nothing trivial
  · cases ran
    exact .ipsAdded here passed

theorem delip_effect (ran : doSiteDelip caller line site = some done) :
    SiteEffect w caller site (.delip line) done.site.users done.job := by
  obtain ⟨_, here, ⟨_, _, rfl⟩ | ⟨⟨_, _⟩, passed, ran⟩⟩ := serve_cases ran
  · exact .nothing trivial
  · cases ran
    exact .ipsRemoved here passed

theorem change_effect (ran : doSiteChange w caller line site = some done) :
    SiteEffect w caller site (.change line) done.site.users done.job := by
  obtain ⟨_, here, ⟨_, refused, rfl⟩ | ⟨⟨_, _⟩, passed, ran⟩⟩ := serve_cases ran
  · exact .nothing (not_passes here refused)
  obtain ⟨_, applied, ran⟩ := bind_eq_some_iff.mp ran
  simp only at ran
  split at ran
  · cases applied
    split at ran
    · rename_i both
      obtain ⟨_, paid, ran⟩ := map_eq_some_iff.mp ran
      obtain ⟨_, there, paid⟩ := map_eq_some_iff.mp paid
      cases ran
      cases paid
      exact .changedPaid here passed both.1 both.2 there
    · rename_i free
      cases ran
      refine .changed here passed rfl fun taken => .inl ?_
      exact Bool.eq_false_iff.mpr fun gadmin => free ⟨gadmin, taken⟩
  · rename_i other
    cases ran
    exact .changed here passed applied fun _ => .inr other

theorem changegrp_effect (ran : doSiteChangegrp line site = some done) :
    SiteEffect w caller site (.changegrp line) done.site.users done.job := by
  unfold doSiteChangegrp at ran
  split at ran
  · rename_i refused
    cases ran
    refine .nothing fun plan passed => ?_
    cases refused.symm.trans passed
  · rename_i user groups passed
    obtain ⟨_, toggled, ran⟩ := map_eq_some_iff.mp ran
    cases ran
    exact .regrouped passed toggled

theorem chratio_effect (ran : doSiteChratio w caller line site = some done) :
    SiteEffect w caller site (.chratio line) done.site.users done.job := by
  obtain ⟨_, here, ⟨_, refused, rfl⟩ | ⟨⟨_, _⟩, passed, ran⟩⟩ := serve_cases ran
  · exact .nothing (not_passes here refused)
  simp only at ran
  split at ran
  · cases ran
  rename_i slots
  split at ran
  · rename_i failed
    cases ran
    exact .rated here passed fun taken => absurd taken failed
  rename_i taken
  split at ran
  · rename_i gadmin
    obtain ⟨_, paid, ran⟩ := map_eq_some_iff.mp ran
    obtain ⟨_, there, paid⟩ := map_eq_some_iff.mp paid
    cases ran
    cases paid
    exact .ratedPaid here passed gadmin (fun none => slots ⟨gadmin, none⟩) (not_not.mp taken) there
  · rename_i free
    cases ran
    exact .rated here passed fun _ => Bool.eq_false_iff.mpr free

theorem setFlags_cases (w : SiteWorld) (me user : UserRecord) (newflags : Text) :
    (setFlags w me user newflags).2 = user ∨ me.has 'O' = true ∧ (setFlags w me user newflags).2 =
      { user with flags := (userFlagsChange user.flags newflags).2 } := by
  unfold setFlags
  split
  · exact .inl rfl
  rename_i siteop
  refine .inr ⟨not_not.mp siteop, ?_⟩
  simp only
  split
  · rfl
  · split
    · rfl
    · split <;> rfl

theorem flags_effect (ran : doSiteFlags w caller line site = some done) :
    SiteEffect w caller site (.flags line) done.site.users done.job := by
  obtain ⟨_, _, ran⟩ := bind_eq_some_iff.mp ran
  split at ran
  · cases ran
    exact .nothing trivial
  rename_i user named
  obtain ⟨me, here, ran⟩ := map_eq_some_iff.mp ran
  split at ran
  · cases ran
    exact .nothing trivial
  rename_i newflags _
  cases ran
  simp only
  rcases setFlags_cases w me user newflags with same | ⟨siteop, edited⟩
  · rw [same, Site.put_eq_self (Site.user_of_userNamed named).1]
    exact .nothing trivial
  · rw [edited]
    exact .flagged here named siteop

theorem kick_effect (ran : doSiteKick caller line site = some done) :
    SiteEffect w caller site (.kick line) done.site.users done.job := by
  unfold doSiteKick at ran
  split at ran
  · cases ran
    exact .nothing trivial
  obtain ⟨_, _, ran⟩ := map_eq_some_iff.mp ran
  split at ran
  · cases ran
    exact .nothing trivial
  · cases ran
    exact .nothing trivial

theorem give_effect (ran : doSiteGive w caller line site = some done) :
    SiteEffect w caller site (.give line) done.site.users done.job := by
  obtain ⟨_, here, ⟨_, _, rfl⟩ | ⟨_, passed, ran⟩⟩ := serve_cases ran
  · exact .nothing trivial
  split at ran
  · rename_i free
    cases ran
    exact .gave here passed free
  · rename_i paid
    obtain ⟨_, there, ran⟩ := map_eq_some_iff.mp ran
    cases ran
    exact .gavePaid here passed (Bool.eq_false_iff.mpr paid) there

theorem take_effect (ran : doSiteTake w caller line site = some done) :
    SiteEffect w caller site (.take line) done.site.users done.job := by
  obtain ⟨_, here, ⟨_, _, rfl⟩ | ⟨⟨_, _⟩, passed, ran⟩⟩ := serve_cases ran
  · exact .nothing trivial
  · cases ran
    exact .took here passed

end

variable {w : SiteWorld}

theorem SiteCommand.effect {command : SiteCommand}
    {done : Done} (ran : command.run w caller site = some done) :
    SiteEffect w caller site command done.site.users done.job := by
  cases command with
  | adduser line => exact adduser_effect ran
  | deluser line => exact deluser_effect ran
  | readduser line => exact readduser_effect ran
  | purge line => exact purgeuser_effect ran
  | addip line => exact addip_effect ran
  | delip line => exact delip_effect ran
  | change line => exact change_effect ran
  | changegrp line => exact changegrp_effect ran
  | chratio line => exact chratio_effect ran
  | flags line => exact flags_effect ran
  | kick line => exact kick_effect ran
  | give line => exact give_effect ran
  | take line => exact take_effect ran

def Accounts.All (p : UserRecord → Prop) (users : Accounts) : Prop :=
  ∀ uid user, users.getById uid = some user → p user

namespace Accounts.All

variable {p : UserRecord → Prop} {users after : Accounts} {site : Site}

theorem of_array (each : ∀ slot ∈ users.registry.array, ∀ user ∈ slot, p user) : All p users :=
  fun _ user found => each _ (mem_of_getElem? (Table.read_of_getById found)) user rfl

theorem update {id : Nat} {slot : Option UserRecord} (all : All p users)
    (lookup : after.getById = Function.update users.getById id slot)
    (holds : ∀ user, slot = some user → p user) : All p after := by
  intro uid user found
  rw [lookup] at found
  by_cases own : uid = id
  · rw [own, Function.update_self] at found
    exact holds user found
  · rw [Function.update_of_ne own] at found
    exact all uid user found

theorem put {user edited : UserRecord} (all : All p site.users)
    (known : site.user user.id = some user) (same : edited.uid = user.uid)
    (kept : p user → p edited) : All p (site.put edited).users :=
  all.update (Site.user_put known same) fun _ here => some.inj here ▸ kept (all _ _ known)

theorem putTwice {user edited now paid : UserRecord} {uid : Nat} (all : All p site.users)
    (known : site.user user.id = some user) (same : edited.uid = user.uid)
    (kept : p user → p edited) (there : (site.put edited).user uid = some now)
    (unchanged : paid.uid = now.uid) (kept' : p now → p paid) :
    All p ((site.put edited).put paid).users :=
  (all.put known same kept).put (Site.user_of_user there) unchanged kept'

theorem created {newuser : UserRecord} {created : Site} (all : All p site.users)
    (lookup : created.user = Function.update site.user newuser.id (some newuser))
    (holds : p newuser) : All p created.users :=
  all.update lookup fun _ here => some.inj here ▸ holds

theorem remove (all : All p users) (id : Nat) : All p (users.remove id) :=
  all.update (Table.getById_remove id) fun _ here => by cases here

theorem purgeDeleted (uids : List (Option Nat)) : ∀ {users : Accounts}, All p users →
    All p (purgeDeleted users uids) := by
  induction uids with
  | nil => exact fun all => all
  | cons first uids ih =>
    intro users all
    cases first with
    | none => exact all
    | some uid =>
      unfold Wzdftpd.purgeDeleted
      split
      · exact all
      · split
        · exact ih (all.remove uid)
        · exact ih all

end Accounts.All

/-- An account after a command that sets no flags: it may be marked as deleted, or not any
more. -/
structure FlagsKept (user edited : UserRecord) : Prop where
  uid : edited.uid = user.uid
  flags : edited.flags = user.flags ∨ edited.flags = user.flags ++ ['D'] ∨
    edited.flags = user.flags.erase 'D'

theorem UserRecord.flagsKept_funded (user : UserRecord) (credits : UInt64) :
    FlagsKept user (user.funded credits) := ⟨user.uid_funded credits, .inl rfl⟩

/-- What all accounts have is kept by every command, if new accounts have it, and it is kept
where flags are marked and where they are set. -/
theorem SiteEffect.all {p : UserRecord → Prop} {command : SiteCommand}
    {users : Accounts} {job : Option Job} (effect : SiteEffect w caller site command users job)
    (all : site.users.All p) (fresh : ∀ user : UserRecord, user.flags = [] → p user)
    (kept : ∀ {user edited}, FlagsKept user edited → p user → p edited)
    (set : ∀ {me user edited : UserRecord} {value : Text}, site.user caller.userid = some me →
      (me.has 'O' = true ∨ ∃ line after, changePlan w site line me = .ok (user, .flags after)) →
      edited.uid = user.uid → edited.flags = (userFlagsChange user.flags value).2 → p user →
      p edited) : users.All p := by
  have same : ∀ {user edited : UserRecord}, edited.uid = user.uid → edited.flags = user.flags →
      p user → p edited := fun uid flags => kept ⟨uid, .inl flags⟩
  cases effect with
  | nothing | purgeLater => exact all
  | added here passed stored =>
    obtain ⟨⟨_, _, rfl⟩, _, _, lookup, _⟩ := backendCreate_ok stored
    exact all.created lookup (fresh _ (adduserRecord_ok passed).flags)
  | addedPaid here passed stored gadmin apart there =>
    obtain ⟨⟨_, _, rfl⟩, _, _, lookup, _⟩ := backendCreate_ok stored
    have first := all.created lookup (fresh _ (adduserRecord_ok passed).flags)
    exact first.putTwice (backendCreate_user stored) rfl (same rfl rfl) there rfl (same rfl rfl)
  | deleted here passed =>
    exact all.put (deluserTarget_ok passed).1.known rfl (kept ⟨rfl, .inr (.inl rfl)⟩)
  | @deletedRefund _ _ user _ _ here passed taken refund there =>
    have known := (deluserTarget_ok passed).1.known
    have first : Accounts.All _ (site.put user.marked).users :=
      all.put known rfl (kept ⟨rfl, .inr (.inl rfl)⟩)
    exact first.putTwice (Site.user_put_self known rfl) rfl (same rfl rfl) there rfl (same rfl rfl)
  | readded here passed =>
    exact all.put (readduserTarget_ok passed).1.known rfl (kept ⟨rfl, .inr (.inr rfl)⟩)
  | readdedPaid here passed gadmin taken there =>
    exact all.putTwice (readduserTarget_ok passed).1.known rfl (kept ⟨rfl, .inr (.inr rfl)⟩) there
      rfl (same rfl rfl)
  | purged here first passed => exact all.remove _
  | ipsAdded here passed => exact all.put (addipTarget_ok passed).known rfl (same rfl rfl)
  | ipsRemoved here passed => exact all.put (delipTarget_ok passed).known rfl (same rfl rfl)
  | @changed line _ _ changed edit here passed applied free =>
    obtain ⟨target, value, _, granted⟩ := changePlan_ok passed
    obtain ⟨_, stored⟩ := FieldEdit.commit_eq w changed edit
    rw [stored]
    have uid := (FieldEdit.edited_of_apply applied).uid
    refine all.put target.known uid ?_
    rcases (FieldEdit.edited_of_apply applied).flags with flags | rfl
    · exact same uid flags
    · exact set here (.inr ⟨line, _, passed⟩) uid granted
  | changedPaid here passed gadmin taken there =>
    exact all.putTwice (changePlan_ok passed).1.known rfl (same rfl rfl) there rfl (same rfl rfl)
  | regrouped passed => exact all.put (changegrpTarget_ok passed) rfl (same rfl rfl)
  | rated here passed => exact all.put (chratioPlan_ok passed).known rfl (same rfl rfl)
  | ratedPaid here passed gadmin slots taken there =>
    exact all.putTwice (chratioPlan_ok passed).known rfl (same rfl rfl) there rfl (same rfl rfl)
  | flagged here named siteop =>
    exact all.put (Site.user_of_userNamed named).1 rfl (set here (.inl siteop) rfl rfl)
  | @gave _ _ gift here passed =>
    have kept := kept (gift.user.flagsKept_funded (toppedUp gift.user.credits gift.bytes))
    exact all.put (givePlan_ok passed) (UserRecord.uid_funded _ _) kept
  | @gavePaid _ _ now gift here passed paid there =>
    exact all.putTwice (givePlan_ok passed) (UserRecord.uid_funded _ _)
      (kept (gift.user.flagsKept_funded _)) there (UserRecord.uid_funded _ _)
      (kept (now.flagsKept_funded _))
  | @took _ _ user _ here passed =>
    exact all.put (takePlan_ok passed).known (UserRecord.uid_funded _ _)
      (kept (user.flagsKept_funded _))

/-- The commands never make an account site operator and group admin at once. -/
theorem SiteEffect.exclusive {command : SiteCommand}
    {users : Accounts} {job : Option Job} (effect : SiteEffect w caller site command users job)
    (all : site.users.All fun user => Exclusive user.flags) :
    users.All fun user => Exclusive user.flags := by
  refine effect.all all (fun user none_set => ?_) (fun {user edited} kept holds => ?_)
    fun _ _ _ flags holds => ?_
  · rw [none_set]
    exact exclusive_nil
  · rcases kept.flags with same | marked | unmarked
    · rwa [same]
    · rw [marked]
      exact holds.mark
    · rw [unmarked]
      exact holds.of_subset erase_subset
  · rw [flags]
    exact holds.change _

/-- What changes the accounts: commands, and the jobs that they have left. -/
inductive SiteEvent where
  | send (caller : Caller) (command : SiteCommand)
  | fire (job : Job)

def siteStep (w : SiteWorld) (s : Option Site) : SiteEvent → Option Site
  | .send caller command => s.bind fun site => (command.run w caller site).map Done.site
  | .fire job => s.map fun site => job.run site

/-- A command in a run of commands only. -/
def commandStep (w : SiteWorld) (s : Option Site) (call : Caller × SiteCommand) : Option Site :=
  siteStep w s (.send call.1 call.2)

theorem commandStep_some {call : Caller × SiteCommand} {done : Done}
    (ran : call.2.run w call.1 site = some done) :
    commandStep w (some site) call = some done.site := by
  simp [commandStep, siteStep, ran]

theorem exclusive_step (w : SiteWorld) (s : Option Site) (event : SiteEvent)
    (exclusive : ∀ site ∈ s, site.users.All fun user => Exclusive user.flags) :
    ∀ site ∈ siteStep w s event, site.users.All fun user => Exclusive user.flags := by
  intro after reached
  cases event with
  | send caller command =>
    obtain ⟨site, rfl, ran⟩ := bind_eq_some_iff.mp reached
    obtain ⟨_, returned, rfl⟩ := map_eq_some_iff.mp ran
    exact (SiteCommand.effect returned).exclusive (exclusive site rfl)
  | fire job =>
    obtain ⟨site, rfl, rfl⟩ := map_eq_some_iff.mp reached
    cases job
    exact (exclusive site rfl).purgeDeleted _

/-- A site that commands and jobs reach from one where no account has both flags. -/
def Site.Reachable (site : Site) : Prop :=
  ∃ (w : SiteWorld) (start : Site) (events : List SiteEvent),
    (start.users.All fun user => Exclusive user.flags) ∧
      events.foldl (siteStep w) (some start) = some site

theorem Site.Reachable.exclusive (reachable : site.Reachable) :
    site.users.All fun user => Exclusive user.flags := by
  obtain ⟨w, start, events, initial, reached⟩ := reachable
  have first : ∀ site ∈ some start, site.users.All fun user => Exclusive user.flags :=
    fun _ same => some.inj same ▸ initial
  have all := Runs.throughout_of_step (exclusive_step w) events first
  exact all events (prefix_refl events) site reached

end Wzdftpd
