import Wzdftpd.SiteBooks

/- The leech slots of a group admin under SITE CHRATIO and SITE CHANGE ratio. -/
namespace Wzdftpd

open Function Option Site

/-- A line of SITE CHANGE about the ratio. -/
def RatioLine (line : Text) : Prop :=
  ∃ username rest behind, strtok blanks line = (some username, rest) ∧
    strtok blanks rest = (some "ratio".toList, behind)

def SiteCommand.SetsRatio : SiteCommand → Prop
  | .chratio _ => True
  | .change line => RatioLine line
  | _ => False

/-- The user and the ratio of a command that passes its checks. -/
def RatioPlan (w : SiteWorld) (site : Site) (me : UserRecord) (command : SiteCommand)
    (user : UserRecord) (ratio : UInt32) : Prop :=
  match command with
  | .chratio line => chratioPlan site line me = .ok (user, ratio)
  | .change line => ∃ n, changePlan w site line me = .ok (user, .ratio n) ∧ ratio = UInt32.ofNat n
  | _ => False

/-- A slot is there to be taken, or to be given back. -/
def LeechExact (oldratio ratio : UInt32) (slots : UInt16) : Prop :=
  (ratio = 0 → oldratio ≠ 0 ∧ slots ≠ 0) ∧ (ratio ≠ 0 → oldratio = 0 → slots ≠ 0xffff)

def leechStep (w : SiteWorld) (caller : Caller) (s : Option Site) (command : SiteCommand) :
    Option Site :=
  commandStep w s (caller, command)

def LeechSafe (w : SiteWorld) (caller : Caller) (s : Option Site) (command : SiteCommand) : Prop :=
  ∀ site ∈ s, ∀ me user ratio, site.user caller.userid = some me →
    RatioPlan w site me command user ratio → LeechExact user.ratio ratio me.leechSlots

def UserRecord.leechOf (admin user : UserRecord) : Bool :=
  admin.sameGroup user && decide (user.ratio = 0)

/-- The slots of the admin and the number of users in the group without a ratio. -/
def Site.leechSum (admin : UserRecord) (site : Site) : Nat :=
  site.book (fun user => user.leechSlots.toNat) admin.leechOf admin.id

/-- The admin's slots are exact for one change under the condition, and only then. -/
theorem adjustLeech_exact_iff (oldratio ratio : UInt32) (slots : UInt16) :
    (decide (oldratio = 0)).toNat + slots.toNat =
        (decide (ratio = 0)).toNat + (adjustLeech oldratio ratio slots).toNat ↔
      LeechExact oldratio ratio slots := by
  have small := slots.toNat_lt
  have zero : slots = 0 ↔ slots.toNat = 0 := UInt16.toNat_inj.symm
  have full : slots = 0xffff ↔ slots.toNat = 2 ^ 16 - 1 := UInt16.toNat_inj.symm
  have less : (slots - 1).toNat = (2 ^ 16 - 1 + slots.toNat) % 2 ^ 16 := UInt16.toNat_sub slots 1
  have more : (slots + 1).toNat = (slots.toNat + 1) % 2 ^ 16 := UInt16.toNat_add slots 1
  by_cases new : ratio = 0
  · have paid : adjustLeech oldratio ratio slots = slots - 1 := by simp [adjustLeech, new]
    rw [paid, less, decide_eq_true new, Bool.toNat_true]
    by_cases old : oldratio = 0
    · rw [decide_eq_true old, Bool.toNat_true]
      exact iff_of_false (by omega) fun exact_ => (exact_.1 new).1 old
    rw [decide_eq_false old, Bool.toNat_false]
    constructor
    · intro sum
      exact ⟨fun _ => ⟨old, mt zero.mp (by omega)⟩, fun other => absurd new other⟩
    · intro exact_
      have some := mt zero.mpr (exact_.1 new).2
      omega
  · rw [decide_eq_false new, Bool.toNat_false]
    by_cases old : oldratio = 0
    · have back : adjustLeech oldratio ratio slots = slots + 1 := by simp [adjustLeech, new, old]
      rw [back, more, decide_eq_true old, Bool.toNat_true]
      constructor
      · intro sum
        exact ⟨fun zero => absurd zero new, fun _ _ => mt full.mp (by omega)⟩
      · intro exact_
        have room := mt full.mpr (exact_.2 new old)
        omega
    · have same : adjustLeech oldratio ratio slots = slots := by simp [adjustLeech, new, old]
      rw [same, decide_eq_false old]
      exact iff_of_true rfl ⟨fun zero => absurd zero new, fun _ zero => absurd zero old⟩

/-- What a command does that passes its checks with a user and a ratio, or fails. -/
def RatioOutcome (w : SiteWorld) (caller : Caller) (site : Site) (me : UserRecord)
    (command : SiteCommand) : Prop :=
  (∃ done, command.run w caller site = some done ∧ done.site.users = site.users ∧
    ∀ user ratio, ¬RatioPlan w site me command user ratio) ∨
  ∃ user ratio, RatioPlan w site me command user ratio ∧ Target site me user ∧
    (∀ user' ratio', RatioPlan w site me command user' ratio' → user' = user ∧ ratio' = ratio) ∧
    (command.run w caller site = none ∧ ratio = 0 ∧ me.leechSlots = 0 ∨
      ∃ done now, command.run w caller site = some done ∧
        (site.put (user.rated ratio)).user caller.userid = some now ∧
        done.site.users =
          ((site.put (user.rated ratio)).put (now.charged user.ratio ratio)).users)

section

variable {w : SiteWorld} {caller : Caller} {site : Site} {me : UserRecord} {line : Text}

theorem payLeech_rated {user : UserRecord} (here : site.user caller.userid = some me)
    (known : site.user user.id = some user) (ratio : UInt32) :
    ∃ now, (site.put (user.rated ratio)).user caller.userid = some now ∧
      (site.put (user.rated ratio)).payLeech caller user.ratio ratio =
        some ((site.put (user.rated ratio)).put (now.charged user.ratio ratio)) := by
  obtain ⟨now, there, _⟩ := user_put_caller known (user.uid_rated ratio) here
  exact ⟨now, there, map_eq_some_iff.mpr ⟨now, there, rfl⟩⟩

theorem chratio_outcome (here : site.user caller.userid = some me) (gadmin : me.has 'G' = true)
    (commits : ∀ user, w.commits user = true) :
    RatioOutcome w caller site me (.chratio line) := by
  cases passed : chratioPlan site line me with
  | error reply =>
    refine .inl ⟨⟨[reply], site, none⟩, ?_, rfl, fun user ratio plan => ?_⟩
    · simp [SiteCommand.run, doSiteChratio, serve, here, passed]
    · cases passed.symm.trans plan
  | ok plan =>
    obtain ⟨user, ratio⟩ := plan
    have target := chratioPlan_ok passed
    refine .inr ⟨user, ratio, passed, target, fun user' ratio' again => ?_, ?_⟩
    · cases passed.symm.trans again
      exact ⟨rfl, rfl⟩
    rw [SiteCommand.run, doSiteChratio, serve_of_ok here passed]
    simp only [gadmin, true_and, commits, not_true_eq_false, if_false, if_true]
    split_ifs with empty
    · exact .inl ⟨rfl, empty⟩
    · obtain ⟨now, there, paid⟩ := payLeech_rated here target.known ratio
      exact .inr ⟨_, now, map_eq_some_iff.mpr ⟨_, paid, rfl⟩, there, rfl⟩

theorem fieldEdit_ratio {user : UserRecord} (value : Text) :
    fieldEdit w site me user "ratio".toList value = (do
      refuseIf ((CNumber.strtoul value).2 = [] ∧ me.has 'G' ∧ (CNumber.strtoul value).1 = 0 ∧
        me.leechSlots = 0) (refuse "No more leech slots available")
      return numberEdit value .ratio) := by
  unfold fieldEdit
  iterate 14 rw [if_neg (by decide)]
  rw [if_pos rfl]

theorem changePlan_ratio {user : UserRecord} {edit : FieldEdit} (ratio : RatioLine line)
    (passed : changePlan w site line me = .ok (user, edit)) :
    edit = .nothing ∨ ∃ n, edit = .ratio n := by
  obtain ⟨_, _, _, first, second⟩ := ratio
  simp only [changePlan, Check.bind_eq_ok, word_eq_ok, found_eq_ok, refuseIf_eq_ok,
    Check.pure_eq_ok, Prod.exists] at passed
  obtain ⟨_, _, first', _, _, _, _, second', _, _, _, _, _, chosen, same⟩ := passed
  cases same
  cases first.symm.trans first'
  cases second.symm.trans second'
  rw [fieldEdit_ratio] at chosen
  simp only [Check.bind_eq_ok, Check.pure_eq_ok] at chosen
  obtain ⟨_, _, rfl⟩ := chosen
  unfold numberEdit
  split_ifs
  · exact .inr ⟨_, rfl⟩
  · exact .inl rfl

theorem change_outcome (here : site.user caller.userid = some me) (gadmin : me.has 'G' = true)
    (commits : ∀ user, w.commits user = true) (line_ : RatioLine line) :
    RatioOutcome w caller site me (.change line) := by
  cases passed : changePlan w site line me with
  | error reply =>
    refine .inl ⟨⟨[reply], site, none⟩, ?_, rfl, fun user ratio plan => ?_⟩
    · simp [SiteCommand.run, doSiteChange, serve, here, passed]
    · obtain ⟨n, again, _⟩ := plan
      cases passed.symm.trans again
  | ok plan =>
    obtain ⟨user, _⟩ := plan
    obtain ⟨target, _⟩ := changePlan_ok passed
    rcases changePlan_ratio line_ passed with rfl | ⟨n, rfl⟩
    · refine .inl ⟨⟨[changeReply user], site.put user, none⟩, ?_, ?_, fun user' ratio again => ?_⟩
      · rw [SiteCommand.run, doSiteChange, serve_of_ok here passed]
        rfl
      · rw [put_eq_self target.known]
      · obtain ⟨n, again, _⟩ := again
        cases passed.symm.trans again
    · refine .inr ⟨user, UInt32.ofNat n, ⟨n, passed, rfl⟩, target, fun user' ratio' again => ?_,
        .inr ?_⟩
      · obtain ⟨_, again, rfl⟩ := again
        cases passed.symm.trans again
        exact ⟨rfl, rfl⟩
      · obtain ⟨now, there, paid⟩ := payLeech_rated here target.known (UInt32.ofNat n)
        rw [SiteCommand.run, doSiteChange, serve_of_ok here passed]
        simp only [gadmin, FieldEdit.apply, FieldEdit.commit, commits, bind_some, true_and,
          if_true]
        exact ⟨_, now, map_eq_some_iff.mpr ⟨_, paid, rfl⟩, there, rfl⟩

theorem ratio_outcome {command : SiteCommand} (sets : command.SetsRatio)
    (here : site.user caller.userid = some me) (gadmin : me.has 'G' = true)
    (commits : ∀ user, w.commits user = true) : RatioOutcome w caller site me command := by
  cases command with
  | chratio line => exact chratio_outcome here gadmin commits
  | change line => exact change_outcome here gadmin commits sets
  | _ => cases sets

variable {user now admin : UserRecord} {ratio : UInt32}

theorem rated_caller (here : site.user caller.userid = some me)
    (known : site.user user.id = some user)
    (there : (site.put (user.rated ratio)).user caller.userid = some now) :
    now.flags = me.flags ∧ now.groups = me.groups ∧ now.leechSlots = me.leechSlots := by
  obtain ⟨_, found, either⟩ := user_put_caller known (user.uid_rated ratio) here
  cases found.symm.trans there
  rcases either with ⟨rfl, rfl⟩ | rfl
  · exact ⟨rfl, rfl, rfl⟩
  · exact ⟨rfl, rfl, rfl⟩

def UserRecord.leechEntry (user admin : UserRecord) : Nat :=
  user.entry (fun user => user.leechSlots.toNat) admin.leechOf admin.id

theorem UserRecord.leechEntry_rated (user : UserRecord) (group : admin.sameGroup user = true)
    (ratio : UInt32) :
    (user.rated ratio).leechEntry admin + (decide (user.ratio = 0)).toNat =
      user.leechEntry admin + (decide (ratio = 0)).toNat := by
  have still : admin.sameGroup (user.rated ratio) = true := group
  have before : admin.leechOf user = decide (user.ratio = 0) := by
    simp [leechOf, group]
  have after : admin.leechOf (user.rated ratio) = decide (ratio = 0) := by
    rw [leechOf, still]
    rfl
  have slots : (user.rated ratio).leechSlots = user.leechSlots := rfl
  rw [leechEntry, leechEntry, entry, entry, before, after, id_eq (user.uid_rated ratio), slots]
  omega

theorem UserRecord.leechEntry_charged (user : UserRecord) (own : user.id = admin.id)
    (oldratio ratio : UInt32) :
    (user.charged oldratio ratio).leechEntry admin + user.leechSlots.toNat =
      user.leechEntry admin + (adjustLeech oldratio ratio user.leechSlots).toNat := by
  have same : admin.leechOf (user.charged oldratio ratio) = admin.leechOf user := rfl
  have slots : (user.charged oldratio ratio).leechSlots =
      adjustLeech oldratio ratio user.leechSlots := rfl
  rw [leechEntry, leechEntry, entry, entry, same, id_eq (user.uid_charged oldratio ratio),
    if_pos own, if_pos own, slots]
  omega

theorem leechSum_charged (here : site.user caller.userid = some me)
    (known : site.user user.id = some user) (group : admin.sameGroup user = true)
    (id : admin.id = caller.userid)
    (there : (site.put (user.rated ratio)).user caller.userid = some now) :
    ((site.put (user.rated ratio)).put (now.charged user.ratio ratio)).leechSum admin +
        ((decide (user.ratio = 0)).toNat + me.leechSlots.toNat) =
      site.leechSum admin +
        ((decide (ratio = 0)).toNat + (adjustLeech user.ratio ratio me.leechSlots).toNat) := by
  obtain ⟨_, _, slots⟩ := rated_caller here known there
  have own : now.id = admin.id := (id_of_user there).trans id.symm
  have first : (site.put (user.rated ratio)).leechSum admin + user.leechEntry admin =
      site.leechSum admin + (user.rated ratio).leechEntry admin :=
    book_put known (user.uid_rated ratio)
  have second : ((site.put (user.rated ratio)).put (now.charged user.ratio ratio)).leechSum admin +
      now.leechEntry admin = (site.put (user.rated ratio)).leechSum admin +
        (now.charged user.ratio ratio).leechEntry admin :=
    book_put (user_of_user there) (now.uid_charged user.ratio ratio)
  have rated := UserRecord.leechEntry_rated user group ratio
  have charged := UserRecord.leechEntry_charged now own user.ratio ratio
  rw [slots] at charged
  omega

end

/-- The admin in a run: found, still admin of the group, and with the sum of the start. -/
def LeechGood (admin : UserRecord) (start : Site) (caller : Caller) (s : Option Site) : Prop :=
  ∃ site me, s = some site ∧ site.user caller.userid = some me ∧ me.has 'G' = true ∧
    me.groups = admin.groups ∧ site.leechSum admin = start.leechSum admin

def LeechKept (admin : UserRecord) (start : Site) (s : Option Site) : Prop :=
  ∃ site, s = some site ∧ site.leechSum admin = start.leechSum admin

/-- A good state stays good after a safe command, and the sum is lost after another one. -/
theorem leech_step {w : SiteWorld} {caller : Caller} {admin : UserRecord} {start : Site}
    {s : Option Site} {command : SiteCommand} (commits : ∀ user, w.commits user = true)
    (id : admin.id = caller.userid) (good : LeechGood admin start caller s)
    (sets : command.SetsRatio) :
    (LeechSafe w caller s command → LeechGood admin start caller (leechStep w caller s command)) ∧
      (LeechKept admin start (leechStep w caller s command) → LeechSafe w caller s command) := by
  obtain ⟨site, me, rfl, here, gadmin, groups, sum⟩ := good
  have outcome : RatioOutcome w caller site me command := ratio_outcome sets here gadmin commits
  rcases outcome with ⟨done, ran, same, refused⟩ | ⟨user, ratio, plan, target, only, outcome⟩
  · have after : leechStep w caller (some site) command = some done.site := commandStep_some ran
    rw [after]
    constructor
    · intro _
      refine ⟨done.site, me, rfl, ?_, gadmin, groups, ?_⟩
      · rw [user, same]
        exact here
      · rw [leechSum, book, user, same]
        exact sum
    · intro _ site' found me' user ratio here' plan
      cases found
      cases here.symm.trans here'
      exact absurd plan (refused user ratio)
  · have safe : LeechSafe w caller (some site) command ↔
        LeechExact user.ratio ratio me.leechSlots := by
      constructor
      · exact fun safe => safe site rfl me user ratio here plan
      · intro exact_ site' found me' user' ratio' here' plan'
        cases found
        cases here.symm.trans here'
        obtain ⟨rfl, rfl⟩ := only user' ratio' plan'
        exact exact_
    rw [safe]
    rcases outcome with ⟨failed, zero, empty⟩ | ⟨done, now, ran, there, same⟩
    · have after : leechStep w caller (some site) command = none := by
        simp [leechStep, commandStep, siteStep, failed]
      rw [after]
      constructor
      · exact fun exact_ => absurd empty (exact_.1 zero).2
      · rintro ⟨_, none, _⟩
        cases none
    · have after : leechStep w caller (some site) command = some done.site := commandStep_some ran
      have group : admin.sameGroup user = true := by
        rw [UserRecord.sameGroup, ← groups]
        exact target.allowed gadmin
      have charged := leechSum_charged here target.known group id there
      have total : done.site.leechSum admin =
          ((site.put (user.rated ratio)).put (now.charged user.ratio ratio)).leechSum admin := by
        rw [Site.leechSum, Site.book, Site.user, same]
        rfl
      obtain ⟨flags, nowGroups, _⟩ := rated_caller here target.known there
      rw [← adjustLeech_exact_iff, after]
      constructor
      · intro exact_
        refine ⟨done.site, now.charged user.ratio ratio, rfl, ?_, ?_, ?_, ?_⟩
        · have found := user_put_self (user_of_user there) (now.uid_charged user.ratio ratio)
          rw [id_of_user there] at found
          rw [Site.user, same]
          exact found
        · have flag : (now.charged user.ratio ratio).has 'G' = me.has 'G' :=
            UserRecord.has_eq flags 'G'
          rw [flag, gadmin]
        · exact nowGroups.trans groups
        · omega
      · rintro ⟨site', found, _⟩
        cases found
        omega

/-- The slots of the admin and the users without a ratio add up to the same number along
a run exactly when every command takes or returns a slot that is there. -/
theorem leech_slots_kept_iff (w : SiteWorld) (start : Site) (admin : UserRecord) (pid : Nat)
    (commands : List SiteCommand) (commits : ∀ user, w.commits user = true)
    (here : start.user admin.id = some admin) (gadmin : admin.has 'G' = true)
    (ratios : ∀ command ∈ commands, command.SetsRatio) :
    Runs.Throughout (leechStep w ⟨admin.id, pid⟩) (LeechKept admin start) (some start) commands ↔
      Runs.Always (leechStep w ⟨admin.id, pid⟩) (LeechSafe w ⟨admin.id, pid⟩) (some start)
        commands := by
  apply Runs.throughout_iff_always_of_side _ (LeechGood admin start ⟨admin.id, pid⟩) _
    (fun _ command => command.SetsRatio)
  · exact fun s ⟨site, _, same, _, _, _, sum⟩ => ⟨site, same, sum⟩
  · exact fun s command good sets safe => (leech_step commits rfl good sets).1 safe
  · exact fun s command good sets beyond kept => beyond ((leech_step commits rfl good sets).2 kept)
  · exact ⟨start, admin, rfl, here, gadmin, rfl, rfl⟩
  · exact Runs.always_of_forall_mem commands (fun command member _ => ratios command member) _

def leechAdmin (slots : UInt16) : UserRecord :=
  { uid := 1, username := "ann".toList, flags := ['G'], groups := .single 1, ratio := 3,
    leechSlots := slots }

def leechUser (ratio : UInt32) : UserRecord :=
  { uid := 2, username := "bob".toList, groups := .single 1, ratio := ratio }

def leechSite (slots : UInt16) (ratio : UInt32) : Site :=
  .holding [leechAdmin slots, leechUser ratio] []

/-- A user who had a ratio loses it for a slot. -/
theorem leech_slots_kept_once :
    Runs.Throughout (leechStep plainWorld ⟨1, 1⟩) (LeechKept (leechAdmin 1) (leechSite 1 3))
      (some (leechSite 1 3)) [.chratio "bob 0".toList] := by
  have admin : (leechSite 1 3).user 1 = some (leechAdmin 1) := by decide
  have plan : chratioPlan (leechSite 1 3) "bob 0".toList (leechAdmin 1) = .ok (leechUser 3, 0) := by
    decide
  refine (leech_slots_kept_iff plainWorld (leechSite 1 3) (leechAdmin 1) 1
    [.chratio "bob 0".toList] (fun _ => rfl) admin (by decide) ?_).mpr ⟨?_, trivial⟩
  · intro command member
    rw [List.mem_singleton.mp member]
    trivial
  · intro site found me user ratio here passed
    cases found
    cases admin.symm.trans here
    cases plan.symm.trans passed
    exact ⟨fun _ => ⟨by decide, by decide⟩, fun other => absurd rfl other⟩

/-- A slot is taken from a user who had no ratio before, and a ratio of 2 ^ 32 is stored
as 0 without a slot. -/
theorem leech_slots_not_kept :
    ((leechSite 1 0).leechSum (leechAdmin 1) = 2 ∧
      (doSiteChratio plainWorld ⟨1, 1⟩ "bob 0".toList (leechSite 1 0)).map
        (fun done => done.site.leechSum (leechAdmin 1)) = some 1) ∧
    (leechSite 0 3).leechSum (leechAdmin 0) = 0 ∧
      (doSiteChange plainWorld ⟨1, 1⟩ "bob ratio 4294967296".toList (leechSite 0 3)).map
        (fun done => done.site.leechSum (leechAdmin 0)) = some 65536 := by
  refine ⟨⟨?_, ?_⟩, ?_, ?_⟩
  · decide +kernel
  · decide +kernel
  · decide +kernel
  · decide +kernel

end Wzdftpd
