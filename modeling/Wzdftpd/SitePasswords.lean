import Wzdftpd.SiteEffects

/- The two commands that set a password: SITE CHPASS (wzd_site.c), which protects site
operators from each other, and the field `pass` of SITE CHANGE, which does not. -/
namespace Wzdftpd

open Option

/-- What `do_site_help` prints about SITE CHPASS. -/
def chpassUsage : Reply :=
  ⟨501, ["501-", "change the password of a user", "site chpass [user] new_pass", "501 "]⟩

/-- The account that SITE CHPASS is about and the password: one word alone is the
password of the caller. -/
def chpassWords (site : Site) (line : Text) (me : UserRecord) : Check (UserRecord × Text) := do
  let (first, line) ← word line chpassUsage
  match (strtok blanks line).1 with
  | none => return (me, first)
  | some pass =>
    let user ← found (site.userNamed first) (refuse "User does not exist")
    return (user, pass)

def chpassPlan (site : Site) (line : Text) (me : UserRecord) : Check (UserRecord × Text) := do
  let (user, pass) ← chpassWords site line me
  refuseIf (me.has 'G' ∧ ¬me.sameGroup user) (refuse "You can't change this user")
  refuseIf (¬me.has 'G' ∧ ¬me.has 'O' ∧ me.uid ≠ user.uid)
    (refuse "You can't change password for other users")
  refuseIf (user.has 'O' ∧ me.uid ≠ user.uid) (refuse "You can't change password for a siteop")
  return (user, pass)

/-- A password written into the record and encrypted by the backend, and whether the
backend took it. -/
def setPass (w : SiteWorld) (user : UserRecord) (pass : Text) : Bool × UserRecord :=
  (FieldEdit.pass pass).commit w { user with userpass := pass.take maxPassLength }

/-- `do_site_chpass` -/
def doSiteChpass (w : SiteWorld) (caller : Caller) (line : Text) (site : Site) : Option Done :=
  serve site caller (chpassPlan site line) fun _ (user, pass) =>
    let (ok, stored) := setPass w user pass
    let reply :=
      if ok then accept "Password changed" else refuse "An error occurred during password change"
    some ⟨[reply], site.put stored, none⟩

inductive PasswordCommand where
  | chpass (line : Text)
  | change (line : Text)
  deriving DecidableEq

def PasswordCommand.run (w : SiteWorld) (caller : Caller) (site : Site) :
    PasswordCommand → Option Done
  | .chpass line => doSiteChpass w caller line site
  | .change line => doSiteChange w caller line site

def passwordStep (w : SiteWorld) (s : Option Site) (call : Caller × PasswordCommand) :
    Option Site :=
  s.bind fun site => (call.2.run w call.1 site).map Done.site

def Site.Siteop (uid : Nat) (site : Site) : Prop :=
  ∃ user, site.user uid = some user ∧ user.has 'O' = true

def Site.passOf (site : Site) (uid : Nat) : Option Text := (site.user uid).map UserRecord.userpass

/-- The command is a SITE CHANGE that passes its tests, for the password of the account. -/
def SetsPassword (w : SiteWorld) (uid : Nat) (site : Site)
    (call : Caller × PasswordCommand) : Prop :=
  ∃ line me user pass, call.2 = .change line ∧ site.user call.1.userid = some me ∧
    changePlan w site line me = .ok (user, .pass pass) ∧ user.id = uid

/-- The command does not write the password of the account, or it writes what is there
already. -/
def PasswordSafe (w : SiteWorld) (uid : Nat) (s : Option Site)
    (call : Caller × PasswordCommand) : Prop :=
  ∀ site ∈ s, ∀ line me user pass, call.2 = .change line →
    site.user call.1.userid = some me → changePlan w site line me = .ok (user, .pass pass) →
    user.id = uid → (setPass w user pass).2.userpass = user.userpass

section

variable {w : SiteWorld} {caller : Caller} {site : Site} {line : Text} {me user : UserRecord}

theorem setPass_uid (w : SiteWorld) (user : UserRecord) (pass : Text) :
    (setPass w user pass).2.uid = user.uid := by
  obtain ⟨_, same⟩ := FieldEdit.commit_eq w { user with userpass := pass.take maxPassLength }
    (.pass pass)
  rw [setPass, same]

theorem chpassPlan_ok {pass : Text} (here : site.user caller.userid = some me)
    (passed : chpassPlan site line me = .ok (user, pass)) :
    site.user user.id = some user ∧ (user.has 'O' = true → user.id = caller.userid) := by
  simp only [chpassPlan, Check.bind_eq_ok, refuseIf_eq_ok, Prod.exists] at passed
  obtain ⟨_, _, words, _, _, _, _, _, siteop, same⟩ := passed
  cases same
  constructor
  · simp only [chpassWords, Check.bind_eq_ok, Prod.exists] at words
    obtain ⟨_, _, _, words⟩ := words
    split at words
    · cases words
      exact Site.user_of_user here
    · simp only [Check.bind_eq_ok, found_eq_ok] at words
      obtain ⟨_, named, same⟩ := words
      cases same
      exact (Site.user_of_userNamed named).1
  · intro flag
    have own : me.uid = user.uid := by
      by_contra other
      exact of_decide_eq_false siteop ⟨flag, other⟩
    rw [← UserRecord.id_eq own]
    exact Site.id_of_user here

variable {done : Done} {edit : FieldEdit} {uid : Nat} {edited : UserRecord}

theorem Site.passOf_put (known : site.user user.id = some user)
    (same : edited.uid = user.uid) (uid : Nat) :
    (site.put edited).passOf uid =
      if uid = user.id then some edited.userpass else site.passOf uid := by
  unfold passOf
  by_cases own : uid = user.id
  · simp [own, user_put_self known same]
  · rw [if_neg own, user_put_of_ne known same own]

theorem Site.passOf_put_iff (known : site.user user.id = some user)
    (same : edited.uid = user.uid) (uid : Nat) :
    (site.put edited).passOf uid = site.passOf uid ↔
      (user.id = uid → edited.userpass = user.userpass) := by
  rw [passOf_put known same]
  by_cases own : uid = user.id
  · rw [if_pos own, own, passOf, known, map_some, some_inj]
    exact ⟨fun kept _ => kept, fun kept => kept rfl⟩
  · rw [if_neg own]
    exact iff_of_true rfl fun found => absurd found.symm own

theorem Site.passOf_put_of_eq (known : site.user user.id = some user)
    (same : edited.uid = user.uid) (pass : edited.userpass = user.userpass) (uid : Nat) :
    (site.put edited).passOf uid = site.passOf uid :=
  (passOf_put_iff known same uid).mpr fun _ => pass

theorem passOf_chpass (ran : doSiteChpass w caller line site = some done)
    (siteop : site.Siteop uid) (other : caller.userid ≠ uid) :
    done.site.passOf uid = site.passOf uid := by
  obtain ⟨_, here, ⟨_, _, rfl⟩ | ⟨⟨user, pass⟩, passed, ran⟩⟩ := serve_cases ran
  · rfl
  obtain ⟨known, own⟩ := chpassPlan_ok here passed
  have after : done.site = site.put (setPass w user pass).2 :=
    (congrArg Done.site (some.inj ran)).symm
  rw [after, Site.passOf_put known (setPass_uid w user pass), if_neg]
  rintro rfl
  obtain ⟨_, found, flag⟩ := siteop
  cases known.symm.trans found
  exact other (own flag).symm

theorem passwordSafe_change_iff (here : site.user caller.userid = some me)
    (passed : changePlan w site line me = .ok (user, edit)) :
    PasswordSafe w uid (some site) (caller, .change line) ↔
      ∀ pass, edit = .pass pass → user.id = uid →
        (setPass w user pass).2.userpass = user.userpass := by
  constructor
  · intro safe pass same own
    cases same
    exact safe site rfl line me user pass rfl here passed own
  intro safe site' found line' me' user' pass' same here' passed'
  cases found
  cases same
  cases here.symm.trans here'
  cases passed.symm.trans passed'
  exact safe pass' rfl

/-- SITE CHANGE leaves the password of an account exactly when it is safe. -/
theorem passOf_change_iff (ran : doSiteChange w caller line site = some done) :
    done.site.passOf uid = site.passOf uid ↔
      PasswordSafe w uid (some site) (caller, .change line) := by
  have effect := change_effect ran
  generalize users : done.site.users = after at effect
  have seen : ∀ other : Site, other.users = after → done.site.passOf uid = other.passOf uid := by
    intro other same
    rw [Site.passOf, Site.passOf, Site.user, Site.user, users, same]
  generalize job : done.job = left at effect
  cases effect with
  | nothing idle =>
    rw [seen site rfl]
    refine iff_of_true rfl ?_
    intro site' found line' me user pass same here passed
    cases found
    cases same
    exact absurd ⟨me, _, here, passed⟩ idle
  | @changed _ me user changed edit here passed applied free =>
    have known := (changePlan_ok passed).1.known
    have uid_eq : (edit.commit w changed).2.uid = user.uid := by
      obtain ⟨pass, same⟩ := FieldEdit.commit_eq w changed edit
      rw [same]
      change changed.uid = user.uid
      exact (FieldEdit.edited_of_apply applied).uid
    rw [seen _ rfl, passwordSafe_change_iff here passed]
    by_cases password : ∃ pass, edit = .pass pass
    · obtain ⟨pass, rfl⟩ := password
      cases applied
      rw [Site.passOf_put_iff known uid_eq]
      constructor
      · intro kept pass' same
        cases same
        exact kept
      · intro safe
        exact safe pass rfl
    · have others := not_exists.mp password
      refine iff_of_true ?_ fun pass same => absurd same (others pass)
      have pass := (FieldEdit.edited_of_apply applied).userpass others w
      exact Site.passOf_put_of_eq known uid_eq pass uid
  | @changedPaid _ me user now n here passed gadmin taken there =>
    have known := (changePlan_ok passed).1.known
    have own := Site.user_of_user there
    rw [seen _ rfl, passwordSafe_change_iff here passed,
      Site.passOf_put_of_eq own (now.uid_charged _ _) rfl,
      Site.passOf_put_of_eq known (user.uid_rated (UInt32.ofNat n)) rfl]
    refine iff_of_true rfl ?_
    intro pass same
    cases same

/-- One command of another user leaves the password of a site operator exactly when it is
safe. -/
theorem passwordStep_keeps_iff {call : Caller × PasswordCommand}
    (siteop : site.Siteop uid) (other : call.1.userid ≠ uid) :
    (∀ after ∈ passwordStep w (some site) call, after.passOf uid = site.passOf uid) ↔
      PasswordSafe w uid (some site) call := by
  obtain ⟨caller, command⟩ := call
  constructor
  · intro kept
    cases command with
    | chpass line =>
      intro _ _ _ _ _ _ same
      cases same
    | change line =>
      intro site' found line' me user pass same here passed own
      cases found
      cases same
      have returned : (doSiteChange w caller line site).isSome := by
        rw [doSiteChange, serve_of_ok here passed]
        rfl
      obtain ⟨done, ran⟩ := isSome_iff_exists.mp returned
      have reached : done.site ∈ passwordStep w (some site) (caller, .change line) := by
        change (doSiteChange w caller line site).map Done.site = some done.site
        simp [ran]
      have safe := (passOf_change_iff ran).mp (kept done.site reached)
      exact safe site rfl line me user pass rfl here passed own
  · intro safe after reached
    obtain ⟨done, ran, rfl⟩ := map_eq_some_iff.mp reached
    cases command with
    | chpass line => exact passOf_chpass ran siteop other
    | change line => exact (passOf_change_iff ran).mpr safe

end

/-- Commands of other users leave the password of a site operator along a run exactly
when no SITE CHANGE of the run writes another one; so they do if none is for the password of
this account. -/
theorem siteop_password_kept_iff (w : SiteWorld) (start : Site) (uid : Nat)
    (calls : List (Caller × PasswordCommand)) (others : ∀ call ∈ calls, call.1.userid ≠ uid)
    (siteop : Runs.Throughout (passwordStep w) (fun s => ∀ site ∈ s, site.Siteop uid) (some start)
      calls) :
    (Runs.Throughout (passwordStep w) (fun s => ∀ site ∈ s, site.passOf uid = start.passOf uid)
        (some start) calls ↔
      Runs.Always (passwordStep w) (PasswordSafe w uid) (some start) calls) ∧
    (Runs.Always (passwordStep w) (fun s call => ∀ site ∈ s, ¬SetsPassword w uid site call)
        (some start) calls →
      Runs.Throughout (passwordStep w) (fun s => ∀ site ∈ s, site.passOf uid = start.passOf uid)
        (some start) calls) := by
  refine and_iff_left_of_imp ?_ |>.mpr ?_
  · intro exact' unset
    refine exact'.mpr (unset.imp (fun s call free site here => ?_) calls)
    exact fun line me user pass same own passed is =>
      absurd ⟨line, me, user, pass, same, own, passed, is⟩ (free site here)
  apply Runs.throughout_iff_always_of_side _
    (fun s => ∀ site ∈ s, site.passOf uid = start.passOf uid) _
    (fun s call => (∀ site ∈ s, site.Siteop uid) ∧ call.1.userid ≠ uid)
  · exact fun _ kept => kept
  · intro s call kept side safe after reached
    cases s with
    | none => cases reached
    | some site =>
      rw [← kept site rfl]
      exact (passwordStep_keeps_iff (side.1 site rfl) side.2).mpr safe after reached
  · intro s call kept side unsafe' stays
    cases s with
    | none => exact unsafe' fun site found => by cases found
    | some site =>
      refine unsafe' ((passwordStep_keeps_iff (side.1 site rfl) side.2).mp ?_)
      intro after reached
      rw [kept site rfl]
      exact stays after reached
  · intro site found
    cases found
    rfl
  · exact Runs.Throughout.always calls others siteop

theorem siteop_of_all {s : Option Site} {uid : Nat}
    (all : s.all (fun site => (site.user uid).any fun user => user.has 'O') = true) :
    ∀ site ∈ s, site.Siteop uid := by
  intro site found
  rw [mem_def.mp found] at all
  exact (any_eq_true _ _).mp all

def passAdmin : UserRecord :=
  { uid := 1, username := "ann".toList, userpass := "spring".toList, flags := ['O'] }

def passSiteop : UserRecord :=
  { uid := 2, username := "bob".toList, userpass := "summer".toList, flags := ['O'] }

def passUser : UserRecord :=
  { uid := 3, username := "eve".toList, userpass := "autumn".toList }

def passSite : Site := .holding [passAdmin, passSiteop, passUser] []

/-- One site operator sets the password of the user, and tries that of the other one. -/
def passCalls : List (Caller × PasswordCommand) :=
  [(⟨1, 1⟩, .change "eve pass frost".toList), (⟨1, 1⟩, .chpass "bob winter".toList)]

theorem siteop_password_kept_for_user :
    Runs.Throughout (passwordStep plainWorld)
      (fun s => ∀ site ∈ s, site.passOf 2 = passSite.passOf 2) (some passSite) passCalls := by
  have admin : passSite.user 1 = some passAdmin := by decide
  have plan : changePlan plainWorld passSite "eve pass frost".toList passAdmin =
      .ok (passUser, .pass "frost".toList) := by decide
  refine (siteop_password_kept_iff plainWorld passSite 2 passCalls ?_ ?_).2 ⟨?_, ?_, trivial⟩
  · simp [passCalls]
  · rw [passCalls, Runs.throughout_cons, Runs.throughout_cons, Runs.throughout_nil]
    refine ⟨siteop_of_all ?_, siteop_of_all ?_, siteop_of_all ?_⟩
    · decide
    · decide
    · decide
  · rintro site found ⟨line, me, user, pass, same, here, passed, own⟩
    cases found
    cases same
    cases admin.symm.trans here
    cases plan.symm.trans passed
    exact absurd own (by decide)
  · rintro _ _ ⟨_, _, _, _, same, _⟩
    cases same

/-- A site operator sets the password of another one. -/
theorem siteop_password_overwritten :
    (passSite.user 2).map (fun user => user.has 'O') = some true ∧
    passSite.passOf 2 = some "summer".toList ∧
    (doSiteChpass plainWorld ⟨1, 1⟩ "bob winter".toList passSite).map Done.replies =
      some [refuse "You can't change password for a siteop"] ∧
    (doSiteChange plainWorld ⟨1, 1⟩ "bob pass winter".toList passSite).map
      (fun done => (done.replies, done.site.passOf 2)) =
        some ([accept "User field change successful"], some "winter".toList) := by
  refine ⟨?_, ?_, ?_, ?_⟩
  · decide
  · decide
  · decide
  · decide

end Wzdftpd
