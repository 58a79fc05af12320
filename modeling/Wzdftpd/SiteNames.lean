import Wzdftpd.SiteEffects

/- The names of the accounts under SITE ADDUSER and SITE CHANGE. A new account is looked up by
its name before it is made; SITE CHANGE name does not look, and copies up to the length of the
field. -/
namespace Wzdftpd

open Site Option

/-- Names are not empty, end inside of their field, and differ. -/
structure NamesOk (site : Site) : Prop where
  nonempty : ∀ uid user, site.user uid = some user → user.username ≠ []
  short : ∀ uid user, site.user uid = some user → user.username.length < hardUsernameLength
  distinct : ∀ uid user uid' user', site.user uid = some user → site.user uid' = some user' →
    user.name = user'.name → uid = uid'

/-- The lookup by name finds the one account that has it. -/
def NamesDesignate (site : Site) : Prop :=
  NamesOk site ∧ ∀ uid user, site.user uid = some user → site.userNamed user.name = some user

/-- A new name fits into its field, and nobody else has it. -/
def NameSafe (w : SiteWorld) (s : Option Site) (call : Caller × SiteCommand) : Prop :=
  ∀ site ∈ s, ∀ line, call.2 = .change line → ∀ me user value,
    site.user call.1.userid = some me → changePlan w site line me = .ok (user, .name value) →
      value.length < hardUsernameLength ∧
        ∀ uid other, site.user uid = some other → uid ≠ user.id → other.name ≠ value

def SiteCommand.namesUsers : SiteCommand → Bool
  | .adduser _ | .change _ => true
  | _ => false

def UserRecord.renamed (user : UserRecord) (value : Text) : UserRecord :=
  { user with username := value.take hardUsernameLength }

theorem UserRecord.uid_renamed (user : UserRecord) (value : Text) :
    (user.renamed value).uid = user.uid := rfl

theorem UserRecord.username_renamed (user : UserRecord) {value : Text}
    (fits : value.length ≤ hardUsernameLength) : (user.renamed value).username = value :=
  List.take_of_length_le fits

theorem UserRecord.name_of_short {user : UserRecord}
    (short : user.username.length < hardUsernameLength) : user.name = user.username :=
  if_pos short

theorem UserRecord.name_renamed (user : UserRecord) {value : Text}
    (short : value.length < hardUsernameLength) : (user.renamed value).name = value := by
  have renamed := user.username_renamed (Nat.le_of_lt short)
  rw [name_of_short (renamed.symm ▸ short), renamed]

variable {w : SiteWorld} {site : Site}

theorem NamesOk.designate (names : NamesOk site) : NamesDesignate site := by
  refine ⟨names, fun uid user found => ?_⟩
  have own := UserRecord.name_of_short (names.short uid user found)
  cases named : site.userNamed user.name with
  | none =>
    have some : user.name ≠ [] := by
      rw [own]
      exact names.nonempty uid user found
    exact absurd rfl (Table.getByName_eq_none named some found)
  | some other =>
    obtain ⟨known, same, _⟩ := user_of_userNamed named
    have id := names.distinct _ other _ user known found same
    rw [id, found] at known
    rw [known]

theorem NamesOk.update {site after : Site} {id : Nat} {edited : UserRecord} (names : NamesOk site)
    (lookup : after.user = Function.update site.user id (some edited))
    (nonempty : edited.username ≠ []) (short : edited.username.length < hardUsernameLength)
    (unused : ∀ uid other, site.user uid = some other → uid ≠ id → other.name ≠ edited.name) :
    NamesOk after := by
  refine ⟨fun uid user found => ?_, fun uid user found => ?_, ?_⟩
  · rcases user_of_update lookup found with ⟨_, rfl⟩ | ⟨_, before⟩
    · exact nonempty
    · exact names.nonempty uid user before
  · rcases user_of_update lookup found with ⟨_, rfl⟩ | ⟨_, before⟩
    · exact short
    · exact names.short uid user before
  intro uid user uid' user' found found' same
  rcases user_of_update lookup found with ⟨rfl, rfl⟩ | ⟨other, before⟩
  · rcases user_of_update lookup found' with ⟨rfl, _⟩ | ⟨other', before'⟩
    · rfl
    · exact absurd same.symm (unused uid' user' before' other')
  · rcases user_of_update lookup found' with ⟨rfl, rfl⟩ | ⟨_, before'⟩
    · exact absurd same (unused uid user before other)
    · exact names.distinct uid user uid' user' before before' same

theorem NamesOk.put {user edited : UserRecord} (names : NamesOk site)
    (known : site.user user.id = some user) (uid : edited.uid = user.uid)
    (username : edited.username = user.username) : NamesOk (site.put edited) := by
  have short := names.short _ user known
  apply names.update (user_put known uid)
  · rw [username]
    exact names.nonempty _ user known
  · rw [username]
    exact short
  · intro uid' other found apart same
    have own : edited.name = user.name := by
      rw [UserRecord.name_of_short (username ▸ short), username, UserRecord.name_of_short short]
    exact apart (names.distinct uid' other _ user found known (same.trans own))

theorem NamesOk.of_users {site after : Site} (names : NamesOk site)
    (same : after.users = site.users) : NamesOk after := by
  obtain ⟨nonempty, short, distinct⟩ := names
  unfold user at *
  rw [← same] at nonempty short distinct
  exact ⟨nonempty, short, distinct⟩

theorem NamesOk.created {site created : Site} {me record newuser : UserRecord}
    (names : NamesOk site) (fresh : FreshRecord site me record)
    (stored : backendCreate w site record = some (some (newuser, created))) : NamesOk created := by
  obtain ⟨⟨_, _, made⟩, _, _, lookup, _⟩ := backendCreate_ok stored
  have username : newuser.username = record.username := by rw [made]
  have short : newuser.username.length < hardUsernameLength := username ▸ fresh.short
  apply names.update lookup (username ▸ fresh.nonempty) short
  intro uid' other found _
  rw [UserRecord.name_of_short short, username]
  exact Table.getByName_eq_none fresh.unused fresh.nonempty found

theorem NamesOk.step {call : Caller × SiteCommand} {done : Done}
    (names : NamesOk site) (edits : call.2.namesUsers = true)
    (ran : call.2.run w call.1 site = some done) (safe : NameSafe w (some site) call) :
    NamesOk done.site := by
  have effect := SiteCommand.effect ran
  generalize same : done.site.users = users at effect
  generalize done.job = job at effect
  obtain ⟨_, _⟩ := call
  cases effect with
  | nothing => exact names.of_users same
  | added here passed stored =>
    exact (names.created (adduserRecord_ok passed) stored).of_users same
  | @addedPaid line me now record newuser created here passed stored gadmin apart there =>
    have first := names.created (adduserRecord_ok passed) stored
    have known := backendCreate_user stored
    have second := first.put known (newuser.uid_ownedBy me.uid) rfl
    exact (second.put (user_of_user there) now.uid_payUserSlot rfl).of_users same
  | @changed line me user changed edit here passed applied free =>
    obtain ⟨target, value, some, granted⟩ := changePlan_ok passed
    have uid := (FieldEdit.edited_of_apply applied).uid
    rcases (FieldEdit.edited_of_apply applied).username with username | ⟨value', rfl, rfl⟩
    · obtain ⟨_, stored⟩ := FieldEdit.commit_eq w changed edit
      rw [stored] at same
      refine NamesOk.of_users ?_ same
      exact names.put target.known uid username
    · have read : value' = value := granted
      obtain ⟨short, unused⟩ := safe site rfl line rfl me user value' here passed
      have renamed := user.username_renamed (Nat.le_of_lt short)
      refine NamesOk.of_users (names.update (user_put target.known
        (user.uid_renamed value')) ?_ ?_ ?_) same
      · rw [renamed, read]
        exact some
      · rw [renamed]
        exact short
      · have name := user.name_renamed short
        exact fun uid' other found apart same => unused uid' other found apart (same.trans name)
  | @changedPaid line me user now n here passed gadmin taken there =>
    obtain ⟨target, _⟩ := changePlan_ok passed
    have first := names.put target.known (user.uid_rated (UInt32.ofNat n)) rfl
    exact (first.put (user_of_user there) (now.uid_charged _ _) rfl).of_users same
  | _ => cases edits

/-- An unsafe name is stored all the same. -/
theorem rename_breaks {call : Caller × SiteCommand} (unsafe_ : ¬NameSafe w (some site) call) :
    ∃ after, commandStep w (some site) call = some after ∧ ¬NamesOk after := by
  unfold NameSafe at unsafe_
  push Not at unsafe_
  obtain ⟨_, same, line, change, _, user, value, here, passed, bad⟩ := unsafe_
  obtain ⟨caller, _⟩ := call
  cases same
  cases change
  obtain ⟨target, _⟩ := changePlan_ok passed
  have ran : doSiteChange w caller line site =
      some ⟨[changeReply (user.renamed value)], site.put (user.renamed value), none⟩ := by
    rw [doSiteChange, serve_of_ok here passed]
    rfl
  refine ⟨_, commandStep_some ran, fun names => ?_⟩
  have found := user_put_self target.known (user.uid_renamed value)
  by_cases short : value.length < hardUsernameLength
  · obtain ⟨uid, other, there, apart, taken⟩ := bad short
    have still := user_put_of_ne target.known (user.uid_renamed value) apart
    refine apart (names.distinct uid other _ _ (still.trans there) found ?_)
    rw [user.name_renamed short, taken]
  · have filled := names.short _ _ found
    change (value.take hardUsernameLength).length < hardUsernameLength at filled
    rw [List.length_take] at filled
    omega

/-- Along a run of SITE ADDUSER and SITE CHANGE every name designates one account exactly
if the names of the start end inside of their fields, and every new name fits and is not
in use. -/
theorem names_designate_iff (w : SiteWorld) (start : Site) (calls : List (Caller × SiteCommand))
    (edits : ∀ call ∈ calls, call.2.namesUsers = true)
    (nonempty : ∀ uid user, start.user uid = some user → user.username ≠ [])
    (distinct : ∀ uid user uid' user', start.user uid = some user → start.user uid' = some user' →
      user.name = user'.name → uid = uid') :
    Runs.Throughout (commandStep w) (fun s => ∀ site ∈ s, NamesDesignate site) (some start) calls ↔
      (∀ uid user, start.user uid = some user → user.username.length < hardUsernameLength) ∧
        Runs.Always (commandStep w) (NameSafe w) (some start) calls := by
  by_cases short : ∀ uid user, start.user uid = some user →
      user.username.length < hardUsernameLength
  · rw [and_iff_right short]
    apply Runs.throughout_iff_always_of_side _ (fun s => ∀ site ∈ s, NamesOk site) _
      (fun _ call => call.2.namesUsers = true)
    · exact fun s names site found => (names site found).designate
    · intro s call names edits safe after reached
      obtain ⟨site, rfl, ran⟩ := bind_eq_some_iff.mp reached
      obtain ⟨_, returned, rfl⟩ := map_eq_some_iff.mp ran
      exact (names site rfl).step edits returned safe
    · intro s call names edits beyond kept
      cases s with
      | none => exact beyond fun site impossible => absurd impossible (not_mem_none site)
      | some site =>
        obtain ⟨after, step, broken⟩ := rename_breaks beyond
        exact broken (kept after step).1
    · exact fun site same => some.inj same ▸ ⟨nonempty, short, distinct⟩
    · exact Runs.always_of_forall_mem calls (fun call member _ => edits call member) _
  · constructor
    · intro holds
      exact absurd (holds [] List.nil_prefix start rfl).1.short short
    · exact fun both => absurd both.1 short

def nameSiteop : UserRecord := { uid := 1, username := "ann".toList, flags := ['O'] }

def nameUser : UserRecord := { uid := 2, username := "bob".toList }

def nameSite : Site := .holding [nameSiteop, nameUser] []

theorem nameSite_cases {uid : Nat} {user : UserRecord} (found : nameSite.user uid = some user) :
    user = nameSiteop ∨ user = nameUser := by
  have all : nameSite.users.All fun user => user = nameSiteop ∨ user = nameUser :=
    .of_array (by decide +kernel)
  exact all uid user found

/-- A name that is not in use is fine. -/
theorem names_designate_renamed :
    Runs.Throughout (commandStep plainWorld) (fun s => ∀ site ∈ s, NamesDesignate site)
      (some nameSite) [(⟨1, 1⟩, .change "bob name eve".toList)] := by
  have siteop : nameSite.user 1 = some nameSiteop := by decide
  have plan : changePlan plainWorld nameSite "bob name eve".toList nameSiteop =
      .ok (nameUser, .name "eve".toList) := by decide
  refine (names_designate_iff plainWorld nameSite _ ?_ ?_ ?_).mpr ⟨?_, ?_, trivial⟩
  · decide
  · intro uid user found
    rcases nameSite_cases found with rfl | rfl <;> decide
  · intro uid user uid' user' found found' same
    rw [← id_of_user found, ← id_of_user found']
    rcases nameSite_cases found with rfl | rfl <;> rcases nameSite_cases found' with rfl | rfl
    · rfl
    · exact absurd same (by decide)
    · exact absurd same (by decide)
    · rfl
  · intro uid user found
    rcases nameSite_cases found with rfl | rfl <;> decide
  · intro site same line change me user value here passed
    cases same
    cases change
    cases siteop.symm.trans here
    cases plan.symm.trans passed
    refine ⟨by decide, fun uid other found _ => ?_⟩
    rcases nameSite_cases found with rfl | rfl <;> decide

/-- A user gets the name of the site operator. -/
theorem names_not_distinct :
    ((doSiteChange plainWorld ⟨1, 1⟩ "bob name ann".toList nameSite).map fun done =>
      ((done.site.user 1).map UserRecord.name, (done.site.user 2).map UserRecord.name)) =
    some (some "ann".toList, some "ann".toList) := by
  decide

end Wzdftpd
