import Wzdftpd.SiteEffects

/- What a group admin's commands leave alone: the accounts of other groups. -/
namespace Wzdftpd

open List Option Site

/-- An account whose primary group is not that of the admin. -/
def Foreign (me user : UserRecord) : Prop := user.groups.primary ≠ me.groups.primary

instance (me user : UserRecord) : Decidable (Foreign me user) :=
  inferInstanceAs (Decidable ¬user.groups.primary = me.groups.primary)

def Accounts.Keeps (p : UserRecord → Prop) (users after : Accounts) : Prop :=
  ∀ uid user, users.getById uid = some user → p user → after.getById uid = some user

namespace Accounts.Keeps

variable {p : UserRecord → Prop} {users after : Accounts} {site : Site}

theorem refl (users : Accounts) : Keeps p users users := fun _ _ found _ => found

theorem andUpdate {between : Accounts} {id : Nat} {slot : Option UserRecord}
    (kept : Keeps p users between)
    (lookup : after.getById = Function.update between.getById id slot)
    (own : ∀ user, users.getById id = some user → ¬p user) : Keeps p users after := by
  intro uid user found holds
  rw [lookup, Function.update_of_ne, kept uid user found holds]
  intro same
  rw [same] at found
  exact own user found holds

theorem put {user edited : UserRecord} (known : site.user user.id = some user)
    (same : edited.uid = user.uid) (own : ¬p user) :
    Keeps p site.users (site.put edited).users := by
  apply (refl site.users).andUpdate (user_put known same)
  intro other found
  cases known.symm.trans found
  exact own

theorem andPut {between : Site} {now paid : UserRecord} {uid : Nat}
    (kept : Keeps p users between.users) (there : between.user uid = some now)
    (same : paid.uid = now.uid) (own : ∀ user, users.getById uid = some user → ¬p user) :
    Keeps p users (between.put paid).users := by
  apply kept.andUpdate (user_put (user_of_user there) same)
  rw [id_of_user there]
  exact own

end Accounts.Keeps

theorem GroupArray.primary_eq {first second : GroupArray} :
    (first.num ≠ 0 ∧ second.num ≠ 0 ∧ first.first = second.first) →
      second.primary = first.primary := by
  rintro ⟨some, other, same⟩
  rw [primary, primary, if_neg some, if_neg other, same]

theorem Target.own {site : Site} {me user : UserRecord} (target : Target site me user)
    (gadmin : me.has 'G' = true) : ¬Foreign me user := by
  have group := target.allowed gadmin
  rw [UserRecord.sameGroup, decide_eq_true_eq] at group
  exact fun foreign => foreign (GroupArray.primary_eq group)

theorem not_foreign_self (me : UserRecord) : ¬Foreign me me := fun foreign => foreign rfl

namespace Accounts.Keeps

variable {site : Site} {me user edited now paid : UserRecord} {uid : Nat}

theorem target (target : Target site me user) (gadmin : me.has 'G' = true)
    (same : edited.uid = user.uid) : Keeps (Foreign me) site.users (site.put edited).users :=
  put target.known same (target.own gadmin)

theorem targetTwice (target : Target site me user) (gadmin : me.has 'G' = true)
    (same : edited.uid = user.uid) (here : site.user uid = some me)
    (there : (site.put edited).user uid = some now) (unchanged : paid.uid = now.uid) :
    Keeps (Foreign me) site.users ((site.put edited).put paid).users := by
  apply (Keeps.target target gadmin same).andPut there unchanged
  intro other found
  cases here.symm.trans found
  exact not_foreign_self me

end Accounts.Keeps

/-- The deleted users below the maximum index are removed, and no others. -/
theorem getById_purgeDeleted (ids : List Nat) (rest : List (Option Nat)) :
    ∀ users : Accounts, (∀ id ∈ ids, id ≠ invalidUser) → ∀ uid,
      (purgeDeleted users (ids.map some ++ some invalidUser :: rest)).getById uid =
        if uid ∈ ids ∧ (users.getById uid).any (fun user => user.has 'D') then none
        else users.getById uid := by
  induction ids with
  | nil =>
    intro users valid uid
    rw [map_nil, nil_append, purgeDeleted, if_pos rfl]
    rw [if_neg fun inside => not_mem_nil inside.1]
  | cons id ids ih =>
    intro users valid uid
    have later := (forall_mem_cons.mp valid).2
    rw [map_cons, cons_append, purgeDeleted, if_neg (valid id mem_cons_self)]
    by_cases marked : (users.getById id).any fun user => user.has 'D'
    · rw [if_pos marked, ih _ later, Table.getById_remove]
      by_cases own : uid = id
      · rw [own, Function.update_self, ite_self, if_pos ⟨mem_cons_self, marked⟩]
      · simp [own]
    · rw [if_neg marked, ih users later]
      by_cases own : uid = id
      · rw [own, if_neg (fun both => marked both.2), if_neg (fun both => marked both.2)]
      · simp [own]

/-- What the job of SITE PURGE removes. -/
theorem user_kickAndPurge (site : Site) (uid : Nat) :
    (kickAndPurge site).user uid =
      if uid < site.users.registry.max ∧ (site.user uid).any (fun user => user.has 'D') then none
      else site.user uid := by
  obtain ⟨rest, list, _⟩ := site.users.sound.getList_eq
  have valid : ∀ id ∈ site.users.registry.ids, id ≠ invalidUser := by
    intro id member
    have below := ((Registry.mem_ids _ id).mp member).1
    have small := site.users.sound.max_lt_invalid
    omega
  have table := getById_purgeDeleted site.users.registry.ids rest site.users valid uid
  change (purgeDeleted site.users (site.users.registry.getList.getD [])).getById uid = _
  rw [list, getD_some, table]
  refine if_congr ?_ rfl rfl
  rw [Registry.mem_ids, ← Table.getById_eq]
  constructor
  · exact fun both => ⟨both.1.1, both.2⟩
  · exact fun both => ⟨⟨both.1, isSome_of_any both.2⟩, both.2⟩

/-- The commands that administer users, without those on credits. -/
def SiteCommand.administers : SiteCommand → Bool
  | .give _ | .take _ => false
  | _ => true

/-- The cases in which nothing tests for the group of the admin: `later` is the site when the
job of the command runs. -/
def WithinGroup (w : SiteWorld) (site later : Site) (me : UserRecord) : SiteCommand → Prop
  | .adduser line => ∀ record newuser created old, adduserRecord site line me = .ok record →
      backendCreate w site record = some (some (newuser, created)) →
      site.user newuser.id = some old → ¬Foreign me old
  | .deluser line => ∀ user creator, deluserTarget site line me = .ok user →
      w.commits user.marked = true →
      refundTo (site.put user.marked) user.marked = some creator → ¬Foreign me creator
  | .purge line => (strtok blanks line).1 = none → ∀ uid < later.users.registry.max, ∀ user,
      later.user uid = some user → user.has 'D' = true → ¬Foreign me user
  -- no group is toggled, or some group more than once and all is as before
  | .changegrp line => ∀ user groups, changegrpTarget site line = .ok (user, groups) →
      Foreign me user → GroupArray.reached (groups.map site.groupIdNamed) = [] ∨
        ¬(GroupArray.reached (groups.map site.groupIdNamed)).Nodup ∧
          user.groups.toggleAll (groups.map site.groupIdNamed) = some user.groups
  | _ => True

/-- A new account differs from the one whose slot it takes. -/
theorem newuser_ne {w : SiteWorld} {site created : Site} {line : Text}
    {me record newuser edited old : UserRecord} {uid : Nat}
    (passed : adduserRecord site line me = .ok record)
    (stored : backendCreate w site record = some (some (newuser, created)))
    (found : site.user uid = some old) (same : edited.username = newuser.username) :
    edited ≠ old := by
  rintro rfl
  have fresh := adduserRecord_ok passed
  obtain ⟨⟨_, _, rfl⟩, _⟩ := backendCreate_ok stored
  apply Table.getByName_eq_none fresh.unused fresh.nonempty found
  rw [UserRecord.name, same, if_pos fresh.short]

section

variable {w : SiteWorld} {caller : Caller} {site later : Site} {me : UserRecord}
  {command : SiteCommand} {users : Accounts} {job : Option Job}

/-- Within the group, a command alone leaves the other groups alone. -/
theorem SiteEffect.keeps (effect : SiteEffect w caller site command users job)
    (here : site.user caller.userid = some me) (gadmin : me.has 'G' = true)
    (noSiteop : me.has 'O' = false) (administers : command.administers = true)
    (within : WithinGroup w site later me command) : site.users.Keeps (Foreign me) users := by
  cases effect with
  | nothing => exact .refl site.users
  | added own passed stored free =>
    cases here.symm.trans own
    cases gadmin.symm.trans free
  | @addedPaid line me' now record newuser created own passed stored _ apart there =>
    cases here.symm.trans own
    obtain ⟨_, _, _, lookup, _⟩ := backendCreate_ok stored
    have known := backendCreate_user stored
    have slot : ∀ old, site.user newuser.id = some old → ¬Foreign me old :=
      fun old found => within record newuser created old passed stored found
    have first : site.users.Keeps (Foreign me) created.users :=
      (Accounts.Keeps.refl site.users).andUpdate lookup slot
    apply (first.andPut known (newuser.uid_ownedBy _) slot).andPut there now.uid_payUserSlot
    intro other found
    cases here.symm.trans found
    exact not_foreign_self me
  | deleted own passed =>
    cases here.symm.trans own
    exact .target (deluserTarget_ok passed).1 gadmin rfl
  | @deletedRefund line me' user creator now own passed taken refund there =>
    cases here.symm.trans own
    obtain ⟨target, _⟩ := deluserTarget_ok passed
    have users : ∀ other, site.user user.id = some other → ¬Foreign me other := by
      intro other found
      cases target.known.symm.trans found
      exact target.own gadmin
    have creators : ∀ other, site.user creator.id = some other → ¬Foreign me other := by
      by_cases oneself : creator.id = user.id
      · rw [oneself]
        exact users
      · intro other found
        have there := (refundTo_ok refund).1
        rw [user_put_of_ne target.known user.uid_marked oneself, found] at there
        cases there
        exact within user creator passed taken refund
    have first := Accounts.Keeps.target target gadmin user.uid_marked
    have marked := user_put_self target.known user.uid_marked
    exact (first.andPut marked (user.marked.uid_ownedBy _) users).andPut there
      now.uid_gainUserSlot creators
  | readded own passed =>
    cases here.symm.trans own
    exact .target (readduserTarget_ok passed).1 gadmin rfl
  | readdedPaid own passed gadmin taken there =>
    cases here.symm.trans own
    exact .targetTwice (readduserTarget_ok passed).1 gadmin rfl here there rfl
  | purged own first passed =>
    cases here.symm.trans own
    have target := purgeTarget_ok passed
    apply (Accounts.Keeps.refl site.users).andUpdate (Table.getById_remove _)
    intro other found
    cases target.known.symm.trans found
    exact target.own gadmin
  | purgeLater => exact .refl site.users
  | ipsAdded own passed =>
    cases here.symm.trans own
    exact .target (addipTarget_ok passed) gadmin rfl
  | ipsRemoved own passed =>
    cases here.symm.trans own
    exact .target (delipTarget_ok passed) gadmin rfl
  | @changed line me' user changed edit own passed applied free =>
    cases here.symm.trans own
    obtain ⟨_, stored⟩ := FieldEdit.commit_eq w changed edit
    have uid := (FieldEdit.edited_of_apply applied).uid
    rw [stored]
    exact .target (changePlan_ok passed).1 gadmin uid
  | changedPaid own passed gadmin taken there =>
    cases here.symm.trans own
    exact .targetTwice (changePlan_ok passed).1 gadmin rfl here there rfl
  | @regrouped line user groups after passed toggled =>
    have known := changegrpTarget_ok passed
    by_cases foreign : Foreign me user
    · have same : user.regrouped user.groups = user := rfl
      have unchanged : user.groups.toggleAll (groups.map site.groupIdNamed) = some user.groups :=
        (within user groups passed foreign).elim GroupArray.toggleAll_of_reached And.right
      cases toggled.symm.trans unchanged
      rw [same, put_eq_self known]
      exact .refl site.users
    · exact .put known rfl foreign
  | rated own passed =>
    cases here.symm.trans own
    exact .target (chratioPlan_ok passed) gadmin rfl
  | ratedPaid own passed gadmin slots taken there =>
    cases here.symm.trans own
    exact .targetTwice (chratioPlan_ok passed) gadmin rfl here there rfl
  | flagged own named siteop =>
    cases here.symm.trans own
    cases siteop.symm.trans noSiteop
  | gave => cases administers
  | gavePaid => cases administers
  | took => cases administers

theorem SiteEffect.job_cases (effect : SiteEffect w caller site command users job) :
    job = none ∨ (∃ line, command = .purge line ∧ (strtok blanks line).1 = none) ∧
      job = some .purgeAll ∧ users = site.users := by
  cases effect with
  | @purgeLater line empty => exact .inr ⟨⟨line, rfl, empty⟩, rfl, rfl⟩
  | _ => exact .inl rfl

theorem SiteCommand.Idle.within (idle : command.Idle w caller site)
    (here : site.user caller.userid = some me) : WithinGroup w site later me command := by
  cases command with
  | adduser line =>
    intro record newuser created old passed stored
    cases (idle me record here passed).symm.trans stored
  | deluser line => exact fun user creator passed => absurd ⟨me, user, here, passed⟩ idle
  | purge line => exact fun empty => absurd empty idle
  | changegrp line => exact fun user groups passed => absurd passed (idle (user, groups))
  | _ => trivial

/-- A command that leaves the other groups alone has stayed within the group. -/
theorem SiteEffect.within (effect : SiteEffect w caller site command users none)
    (here : site.user caller.userid = some me) (gadmin : me.has 'G' = true)
    (kept : site.users.Keeps (Foreign me) users) : WithinGroup w site later me command := by
  cases effect with
  | nothing idle => exact idle.within here
  | added own passed stored free =>
    cases here.symm.trans own
    cases gadmin.symm.trans free
  | @addedPaid line me' now record newuser created own passed stored _ apart there =>
    cases here.symm.trans own
    intro record' newuser' created' old passed' stored' found foreign
    cases passed.symm.trans passed'
    cases stored.symm.trans stored'
    have known := backendCreate_user stored
    have other : newuser.id ≠ now.id := (id_of_user there).symm ▸ apart
    have after := user_put_of_ne (user_of_user there) now.uid_payUserSlot other
    rw [user_put_self known (newuser.uid_ownedBy me.uid)] at after
    have stays := after.symm.trans (kept newuser.id old found foreign)
    exact newuser_ne passed stored found (newuser.username_ownedBy me.uid) (some.inj stays)
  | deleted own passed alone =>
    cases here.symm.trans own
    intro user creator passed' taken refund
    cases passed.symm.trans passed'
    cases (alone taken).symm.trans refund
  | @deletedRefund line me' user creator now own passed taken refund there =>
    cases here.symm.trans own
    intro user' creator' passed' _ refund' foreign
    cases passed.symm.trans passed'
    cases refund.symm.trans refund'
    obtain ⟨target, _⟩ := deluserTarget_ok passed
    have marked := user_put_self target.known user.uid_marked
    obtain ⟨found, _⟩ := refundTo_ok refund
    have other : creator.id ≠ user.id := by
      intro oneself
      rw [oneself, marked] at found
      cases found
      exact target.own gadmin foreign
    -- the creator's record is the old one up to the last step, which changes it
    have before := user_put_of_ne target.known user.uid_marked other
    have between := user_put_of_ne marked (user.marked.uid_ownedBy 0xffffffff) other
    rw [found] at between
    cases between.symm.trans there
    have after := user_put_self there creator.uid_gainUserSlot
    have stays := kept creator.id creator (before.symm.trans found) foreign
    exact creator.gainUserSlot_ne (some.inj (after.symm.trans stays))
  | purged own first passed =>
    intro empty
    rw [first] at empty
    cases empty
  | @regrouped line user groups after passed toggled =>
    intro user' groups' passed' foreign
    cases passed.symm.trans passed'
    have known := changegrpTarget_ok passed
    have now := user_put_self known (user.uid_regrouped after)
    have stays := now.symm.trans (kept user.id user known foreign)
    have same : after = user.groups := congrArg UserRecord.groups (some.inj stays)
    rw [or_iff_not_imp_left]
    intro toggles
    rw [← same] at toggled ⊢
    exact ⟨fun distinct => GroupArray.toggleAll_ne toggled toggles distinct rfl, toggled⟩
  | _ => trivial

end

/-- Group admins leave the accounts of other groups alone, at once and when the job of the
command runs, except for the commands that do not test for the group. -/
theorem gadmin_frame_iff (w : SiteWorld) (caller : Caller) (site later : Site) (me : UserRecord)
    (command : SiteCommand) (done : Done) (here : site.user caller.userid = some me)
    (gadmin : me.has 'G' = true) (noSiteop : me.has 'O' = false)
    (administers : command.administers = true) (ran : command.run w caller site = some done) :
    (site.users.Keeps (Foreign me) done.site.users ∧
      ∀ job ∈ done.job, later.users.Keeps (Foreign me) (job.run later).users) ↔
    WithinGroup w site later me command := by
  have effect := SiteCommand.effect ran
  have alone (within : WithinGroup w site later me command) :=
    effect.keeps here gadmin noSiteop administers within
  rcases effect.job_cases with none | ⟨⟨line, rfl, empty⟩, job, _⟩
  · rw [none] at effect ⊢
    refine ⟨fun both => effect.within here gadmin both.1, fun within => ⟨alone within, ?_⟩⟩
    exact fun _ member => absurd member (not_mem_none _)
  rw [job]
  constructor
  · rintro ⟨_, kept⟩ _ uid below user found marked foreign
    have stays := kept _ rfl uid user found foreign
    change (kickAndPurge later).user uid = some user at stays
    rw [user_kickAndPurge, found, if_pos ⟨below, marked⟩] at stays
    cases stays
  · refine fun within => ⟨alone within, fun _ same uid user found foreign => ?_⟩
    cases same
    change (kickAndPurge later).user uid = some user
    rw [user_kickAndPurge, if_neg]
    · exact found
    · rintro ⟨below, marked⟩
      rw [Site.user, found] at marked
      exact within empty uid below user found marked foreign

def frameAdmin : UserRecord :=
  { uid := 1, username := "ann".toList, flags := ['G'], groups := .single 1 }

def frameUser : UserRecord := { uid := 2, username := "bob".toList, groups := .single 1 }

def frameStranger : UserRecord :=
  { uid := 3, username := "eve".toList, flags := ['D'], groups := .single 2 }

def frameSite : Site :=
  .holding [frameAdmin, frameUser, frameStranger] [{ gid := 1, groupname := "one".toList }]

theorem gadmin_frame_addip : ∃ done,
    SiteCommand.run plainWorld ⟨1, 1⟩ frameSite (.addip "bob 10.0.0.1".toList) = some done ∧
      frameSite.users.Keeps (Foreign frameAdmin) done.site.users := by
  have returned : ∃ done, SiteCommand.run plainWorld ⟨1, 1⟩ frameSite
      (.addip "bob 10.0.0.1".toList) = some done := isSome_iff_exists.mp (by decide)
  obtain ⟨done, ran⟩ := returned
  refine ⟨done, ran, ((gadmin_frame_iff plainWorld ⟨1, 1⟩ frameSite frameSite frameAdmin _ done
    ?_ ?_ ?_ ?_ ran).mpr trivial).1⟩
  · decide
  · decide
  · decide
  · rfl

/-- The admin puts the user of the other group into the own one, and the job of SITE PURGE
removes this user. -/
theorem gadmin_frame_broken : Foreign frameAdmin frameStranger ∧
    frameSite.user 3 = some frameStranger ∧
    ((SiteCommand.run plainWorld ⟨1, 1⟩ frameSite (.changegrp "eve one".toList)).map fun done =>
      (done.site.user 3).map fun user => user.groups.members) = some (some [2, 1]) ∧
    ((SiteCommand.run plainWorld ⟨1, 1⟩ frameSite (.purge [])).map fun done =>
      done.job.map fun job => (job.run done.site).user 3) = some (some none) := by
  refine ⟨?_, ?_, ?_, ?_⟩
  · decide
  · decide
  · decide
  · decide +kernel

end Wzdftpd
