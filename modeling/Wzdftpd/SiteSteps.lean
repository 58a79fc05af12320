import Wzdftpd.SiteUser

/- What the SITE commands have in common: how a handler ends, and how the records are
found again after a change. -/
namespace Wzdftpd

open Option Table

namespace Check

variable {α β : Type}

theorem bind_eq_ok {x : Check α} {f : α → Check β} {b : β} :
    (x >>= f) = .ok b ↔ ∃ a, x = .ok a ∧ f a = .ok b := by
  cases x with
  | error reply =>
    refine iff_of_false (fun same => by cases same) ?_
    rintro ⟨a, same, _⟩
    cases same
  | ok a =>
    constructor
    · exact fun done => ⟨a, rfl, done⟩
    · rintro ⟨b, same, done⟩
      cases same
      exact done

theorem pure_eq_ok {a b : α} : (pure a : Check α) = .ok b ↔ a = b := by
  constructor
  · exact Except.ok.inj
  · exact congrArg Except.ok

end Check

open Check

theorem refuseIf_eq_ok {wrong : Bool} {reply : Reply} {u : Unit} :
    refuseIf wrong reply = .ok u ↔ wrong = false := by
  cases wrong <;> simp [refuseIf]

variable {α : Type} {site : Site} {caller : Caller} {check : UserRecord → Check α}
  {perform : UserRecord → α → Option Done}

theorem found_eq_ok {x : Option α} {reply : Reply} {a : α} :
    found x reply = .ok a ↔ x = some a := by
  cases x <;> simp [found]

theorem word_eq_ok {line : Text} {usage : Reply} {read : Text × Text} :
    word line usage = .ok read ↔ strtok blanks line = (some read.1, read.2) := by
  unfold word
  split
  · rename_i token rest same
    rw [same, Except.ok.injEq]
    constructor
    · rintro rfl
      rfl
    · intro equal
      obtain ⟨first, second⟩ := Prod.mk.inj equal
      exact Prod.ext (some.inj first) second
  · rename_i rest same
    rw [same]
    exact iff_of_false (fun impossible => by cases impossible) (fun equal => by cases equal)

/-- A handler that returns has refused and changed nothing, or its checks have passed. -/
theorem serve_cases
    {done : Done}
    (served : serve site caller check perform = some done) :
    ∃ me, site.user caller.userid = some me ∧
      ((∃ reply, check me = .error reply ∧ done = ⟨[reply], site, none⟩) ∨
        ∃ plan, check me = .ok plan ∧ perform me plan = some done) := by
  obtain ⟨me, here, rest⟩ := bind_eq_some_iff.mp served
  refine ⟨me, here, ?_⟩
  split at rest
  · rename_i reply refused
    exact .inl ⟨reply, refused, (some.inj rest).symm⟩
  · rename_i plan passed
    exact .inr ⟨plan, passed, rest⟩

theorem serve_of_ok
    {me : UserRecord} {plan : α}
    (here : site.user caller.userid = some me) (passed : check me = .ok plan) :
    serve site caller check perform = perform me plan := by
  simp [serve, here, passed]

namespace Site

variable {site : Site} {user old : UserRecord}

variable {uid : Nat}

theorem id_of_user (known : site.user uid = some user) : user.id = uid :=
  Table.id_of_getById known

theorem user_of_user (known : site.user uid = some user) : site.user user.id = some user := by
  rw [id_of_user known]
  exact known

variable {edited : UserRecord}

theorem user_put (known : site.user user.id = some old) (same : edited.uid = user.uid) :
    (site.put edited).user = Function.update site.user user.id (some edited) := by
  rw [← UserRecord.id_eq same] at known ⊢
  exact getById_put known

theorem user_put_self (known : site.user user.id = some old) (same : edited.uid = user.uid) :
    (site.put edited).user user.id = some edited := by
  simp [user_put known same]

theorem user_put_of_ne (known : site.user user.id = some old) (same : edited.uid = user.uid)
    (other : uid ≠ user.id) : (site.put edited).user uid = site.user uid := by
  rw [user_put known same, Function.update_of_ne other]

/-- An account behind a change is the changed one or one that was there. -/
theorem user_of_update {after : Site} {id : Nat} {now : UserRecord}
    (lookup : after.user = Function.update site.user id (some edited))
    (found : after.user uid = some now) :
    uid = id ∧ now = edited ∨ uid ≠ id ∧ site.user uid = some now := by
  rw [lookup, Function.update_apply] at found
  split at found
  · rename_i own
    exact .inl ⟨own, (some.inj found).symm⟩
  · rename_i other
    exact .inr ⟨other, found⟩

theorem user_put_caller {me : UserRecord} (known : site.user user.id = some user)
    (same : edited.uid = user.uid) (here : site.user uid = some me) :
    ∃ now, (site.put edited).user uid = some now ∧ (now = edited ∧ me = user ∨ now = me) := by
  rw [user_put known same, Function.update_apply]
  split
  · rename_i own
    rw [own] at here
    exact ⟨edited, rfl, .inl ⟨rfl, some.inj (here.symm.trans known)⟩⟩
  · exact ⟨me, here, .inr rfl⟩

theorem total_put (weight : UserRecord → Nat) (known : site.user user.id = some old)
    (same : edited.uid = user.uid) :
    (site.put edited).users.total weight + weight old =
      site.users.total weight + weight edited := by
  rw [← UserRecord.id_eq same] at known
  exact Table.total_put weight known

theorem put_eq_self (known : site.user user.id = some user) : site.put user = site := by
  rw [put, Table.put_eq_self known]

theorem put_put {again : UserRecord} (same : again.uid = user.uid) :
    (site.put user).put again = site.put again := by
  rw [put, put, put, Table.put_put (UserRecord.id_eq same)]

theorem id_lt_invalid (known : site.user uid = some user) : uid < invalidUser :=
  Table.lt_invalid_of_getById known

theorem user_of_userNamed {name : Text} (named : site.userNamed name = some user) :
    site.user user.id = some user ∧ user.name = name ∧ name ≠ [] :=
  Table.getByName_eq_some named

theorem userNamed_put {name : Text} (named : site.userNamed name = some user)
    (uid : edited.uid = user.uid) (username : edited.username = user.username)
    (userpass : edited.userpass = user.userpass) :
    (site.put edited).userNamed name = some edited := by
  apply Table.getByName_put named (UserRecord.id_eq uid)
  rw [UserRecord.name_eq username userpass]
  exact (user_of_userNamed named).2.1

end Site

def Site.holding (users : List UserRecord) (groups : List GroupEntry) : Site where
  users := users.foldl Table.put Table.allocated
  groups := groups.foldl Table.put Table.allocated

def plainWorld : SiteWorld where
  changepass _ pass := some pass
  isDir _ := true
  ipCompare _ _ := false

/-- The account that a command has found, and that a group admin may act on. -/
structure Target (site : Site) (me user : UserRecord) : Prop where
  known : site.user user.id = some user
  allowed : me.has 'G' = true → me.sameGroup user = true

theorem Target.of_named {site : Site} {me user : UserRecord} {name : Text}
    (named : site.userNamed name = some user)
    (checked : decide (me.has 'G' = true ∧ ¬me.sameGroup user = true) = false) :
    Target site me user := by
  refine ⟨(Site.user_of_userNamed named).1, fun gadmin => ?_⟩
  by_contra other
  exact of_decide_eq_false checked ⟨gadmin, other⟩

section

variable {w : SiteWorld} {caller : Caller} {site : Site} {line : Text} {me user : UserRecord}

variable {record : UserRecord}

theorem userCreate_ok {username pass groupname : Text}
    (passed : userCreate site username pass groupname = .ok record) :
    site.userNamed username = none ∧ username ≠ [] ∧ username.length < hardUsernameLength ∧
      record.username = username ∧ record.creator = 0xffffffff ∧ record.flags = [] ∧
      ∃ group, site.groupNamed groupname = some group ∧ record.groups.num ≠ 0 ∧
        record.groups.first = group.gid := by
  simp only [userCreate, bind_eq_ok, found_eq_ok, refuseIf_eq_ok, pure_eq_ok] at passed
  obtain ⟨_, valid, _, unused, group, named, rfl⟩ := passed
  obtain ⟨some, short⟩ := not_or.mp (of_decide_eq_false valid)
  have registered : group.gid ≠ 0xffffffff := by
    intro invalid
    have below := lt_invalid_of_getById (getByName_eq_some named).1
    rw [GroupEntry.id, invalid] at below
    exact absurd below (by decide)
  refine ⟨isNone_iff_eq_none.mp (isSome_eq_false_iff.mp unused), some,
    Nat.not_le.mp short, ?_, rfl, rfl, group, named, ?_, rfl⟩
  · apply List.take_of_length_le
    omega
  · simp only [if_pos registered]
    exact Nat.one_ne_zero

structure FreshRecord (site : Site) (me record : UserRecord) : Prop where
  unused : site.userNamed record.username = none
  nonempty : record.username ≠ []
  short : record.username.length < hardUsernameLength
  creator : record.creator = 0xffffffff
  flags : record.flags = []
  slots : me.has 'G' = true → me.userSlots ≠ 0
  group : me.has 'G' = true → me.sameGroup record = true

theorem adduserRecord_ok (passed : adduserRecord site line me = .ok record) :
    FreshRecord site me record := by
  simp only [adduserRecord, bind_eq_ok, word_eq_ok, found_eq_ok, refuseIf_eq_ok,
    pure_eq_ok, Prod.exists] at passed
  obtain ⟨username, _, _, password, _, _, groupname, _, _, group, named, _, own, _, slots, newuser,
    made, rfl⟩ := passed
  obtain ⟨unused, nonempty, short, rfl, creator, flags, _, again, num, first⟩ :=
    userCreate_ok made
  refine ⟨unused, nonempty, short, creator, flags, fun gadmin none => ?_, fun gadmin => ?_⟩
  · exact of_decide_eq_false slots ⟨gadmin, none⟩
  have name := (getByName_eq_some named).2.1
  rw [name] at again
  cases named.symm.trans again
  have same : ¬(me.groups.num = 0 ∨ me.groups.first ≠ group.gid) :=
    fun other => of_decide_eq_false own ⟨gadmin, other⟩
  rw [not_or, not_not] at same
  rw [UserRecord.sameGroup, decide_eq_true_eq]
  exact ⟨same.1, num, same.2.trans first.symm⟩

theorem deluserTarget_ok (passed : deluserTarget site line me = .ok user) :
    Target site me user ∧ user.has 'D' = false := by
  simp only [deluserTarget, bind_eq_ok, word_eq_ok, found_eq_ok, refuseIf_eq_ok,
    pure_eq_ok, Prod.exists] at passed
  obtain ⟨_, _, _, _, named, _, group, _, fresh, _, _, rfl⟩ := passed
  exact ⟨.of_named named group, fresh⟩

theorem refundTo_ok {creator : UserRecord} (refund : refundTo site user = some creator) :
    site.user creator.id = some creator ∧ creator.id = user.creator.toNat ∧
      creator.groups.first = user.groups.first := by
  obtain ⟨found, same⟩ := filter_eq_some_iff.mp refund
  exact ⟨Site.user_of_user found, Site.id_of_user found, of_decide_eq_true same⟩

theorem readduserTarget_ok (passed : readduserTarget site line me = .ok user) :
    Target site me user ∧ user.has 'D' = true ∧ (me.has 'G' = true → me.userSlots ≠ 0) := by
  simp only [readduserTarget, bind_eq_ok, word_eq_ok, found_eq_ok, refuseIf_eq_ok,
    pure_eq_ok, Prod.exists] at passed
  obtain ⟨_, _, _, _, named, _, group, _, slots, _, marked, rfl⟩ := passed
  refine ⟨.of_named named group, not_not.mp (of_decide_eq_false marked), fun gadmin none => ?_⟩
  exact of_decide_eq_false slots ⟨gadmin, none⟩

theorem purgeTarget_ok {username : Text} (passed : purgeTarget site caller username me = .ok user) :
    Target site me user := by
  simp only [purgeTarget, bind_eq_ok, found_eq_ok, refuseIf_eq_ok, pure_eq_ok] at passed
  obtain ⟨_, named, _, _, _, _, _, group, rfl⟩ := passed
  exact .of_named named group

theorem addipTarget_ok {ips : List Text} (passed : addipTarget site line me = .ok (user, ips)) :
    Target site me user := by
  simp only [addipTarget, bind_eq_ok, word_eq_ok, found_eq_ok, refuseIf_eq_ok,
    pure_eq_ok, Prod.exists] at passed
  obtain ⟨_, _, _, _, named, _, _, _, _, group, same⟩ := passed
  cases same
  exact .of_named named group

theorem delipTarget_ok {ips : List Text} (passed : delipTarget site line me = .ok (user, ips)) :
    Target site me user := by
  simp only [delipTarget, bind_eq_ok, word_eq_ok, found_eq_ok, refuseIf_eq_ok,
    pure_eq_ok, Prod.exists] at passed
  obtain ⟨_, _, _, _, named, _, group, _, _, _, same⟩ := passed
  cases same
  exact .of_named named group

namespace FieldEdit

variable {edit : FieldEdit} {changed : UserRecord}

theorem commit_eq (w : SiteWorld) (user : UserRecord) (edit : FieldEdit) :
    ∃ pass, (edit.commit w user).2 = { user with userpass := pass } := by
  unfold commit
  split
  · split
    · exact ⟨_, rfl⟩
    · exact ⟨user.userpass, rfl⟩
  · exact ⟨user.userpass, rfl⟩

/-- What an edit changes of a user. -/
structure Edited (edit : FieldEdit) (user changed : UserRecord) : Prop where
  uid : changed.uid = user.uid
  flags : changed.flags = user.flags ∨ edit = .flags changed.flags
  username : changed.username = user.username ∨ ∃ value, edit = .name value ∧
    changed = { user with username := value.take hardUsernameLength }
  userpass : (∀ pass, edit ≠ .pass pass) → ∀ w, (edit.commit w changed).2.userpass = user.userpass

theorem edited_of_apply (applied : edit.apply user = some changed) : Edited edit user changed := by
  cases edit with
  | group gid =>
    cases gid with
    | none =>
      cases applied
      exact ⟨rfl, .inl rfl, .inl rfl, fun _ _ => rfl⟩
    | some gid =>
      obtain ⟨_, _, same⟩ := map_eq_some_iff.mp applied
      cases same
      exact ⟨rfl, .inl rfl, .inl rfl, fun _ _ => rfl⟩
  | flags after =>
    cases applied
    exact ⟨rfl, .inr rfl, .inl rfl, fun _ _ => rfl⟩
  | name value =>
    cases applied
    exact ⟨rfl, .inl rfl, .inr ⟨value, rfl, rfl⟩, fun _ _ => rfl⟩
  | pass value =>
    cases applied
    exact ⟨rfl, .inl rfl, .inl rfl, fun other => absurd rfl (other value)⟩
  | _ =>
    cases applied
    exact ⟨rfl, .inl rfl, .inl rfl, fun _ _ => rfl⟩

end FieldEdit

/-- What is known of an edit that was chosen: a name is the value, flags are only set to
what `user_flags_change` makes of them, and a group admin without slots sets no ratio
of 0. -/
def FieldEdit.Granted (me user : UserRecord) (value : Text) : FieldEdit → Prop
  | .name after => after = value
  | .flags after => after = (userFlagsChange user.flags value).2
  | .ratio n => me.has 'G' = true → n = 0 → me.leechSlots ≠ 0
  | _ => True

variable {value : Text}

theorem numberEdit_granted {edit : Nat → FieldEdit}
    (granted : ∀ n, (edit n).Granted me user value) :
    (numberEdit value edit).Granted me user value := by
  unfold numberEdit
  split
  · exact granted _
  · trivial

variable {edit : FieldEdit}

theorem limitEdit_granted {current : UInt16} {make : Nat → FieldEdit}
    (chosen : limitEdit me current value make = .ok edit)
    (granted : ∀ n, (make n).Granted me user value) : edit.Granted me user value := by
  simp only [limitEdit, bind_eq_ok, pure_eq_ok] at chosen
  obtain ⟨_, _, rfl⟩ := chosen
  exact numberEdit_granted granted

theorem slotsEdit_granted {make : Nat → FieldEdit}
    (chosen : slotsEdit me user value make = .ok edit)
    (granted : ∀ n, (make n).Granted me user value) : edit.Granted me user value := by
  simp only [slotsEdit, bind_eq_ok, pure_eq_ok] at chosen
  obtain ⟨_, _, _, _, rfl⟩ := chosen
  exact numberEdit_granted granted

theorem ratioEdit_granted {edit : FieldEdit}
    (chosen : (do
      refuseIf ((CNumber.strtoul value).2 = [] ∧ me.has 'G' ∧ (CNumber.strtoul value).1 = 0 ∧
        me.leechSlots = 0) (refuse "No more leech slots available")
      return numberEdit value .ratio : Check FieldEdit) = .ok edit) :
    edit.Granted me user value := by
  simp only [bind_eq_ok, pure_eq_ok, refuseIf_eq_ok] at chosen
  obtain ⟨_, slots, rfl⟩ := chosen
  unfold numberEdit
  split
  · rename_i whole
    exact fun gadmin leech none => of_decide_eq_false slots ⟨whole, gadmin, leech, none⟩
  · trivial

theorem ite_eq_ok {α : Type} {c : Prop} [Decidable c] {first second : Check α} {a : α}
    (chosen : (if c then first else second) = .ok a) : first = .ok a ∨ second = .ok a := by
  by_cases holds : c
  · rw [if_pos holds] at chosen
    exact .inl chosen
  · rw [if_neg holds] at chosen
    exact .inr chosen

theorem fieldEdit_granted {field : Text}
    (chosen : fieldEdit w site me user field value = .ok edit) : edit.Granted me user value := by
  rcases ite_eq_ok chosen with name | chosen
  · cases name
    exact rfl
  rcases ite_eq_ok chosen with pass | chosen
  · cases pass
    trivial
  rcases ite_eq_ok chosen with homedir | chosen
  · simp only [bind_eq_ok, pure_eq_ok] at homedir
    obtain ⟨_, _, rfl⟩ := homedir
    trivial
  rcases ite_eq_ok chosen with creator | chosen
  · simp only [bind_eq_ok, pure_eq_ok] at creator
    obtain ⟨_, _, _, _, rfl⟩ := creator
    trivial
  rcases ite_eq_ok chosen with tagline | chosen
  · cases tagline
    trivial
  rcases ite_eq_ok chosen with group | chosen
  · simp only [bind_eq_ok, pure_eq_ok] at group
    obtain ⟨_, _, rfl⟩ := group
    trivial
  rcases ite_eq_ok chosen with maxIdle | chosen
  · cases maxIdle
    exact numberEdit_granted fun _ => trivial
  rcases ite_eq_ok chosen with perms | chosen
  · cases perms
    exact numberEdit_granted fun _ => trivial
  rcases ite_eq_ok chosen with flags | chosen
  · simp only [bind_eq_ok, pure_eq_ok] at flags
    obtain ⟨_, _, _, _, rfl⟩ := flags
    exact rfl
  rcases ite_eq_ok chosen with maxUl | chosen
  · cases maxUl
    exact numberEdit_granted fun _ => trivial
  rcases ite_eq_ok chosen with maxDl | chosen
  · cases maxDl
    exact numberEdit_granted fun _ => trivial
  rcases ite_eq_ok chosen with credits | chosen
  · simp only [bind_eq_ok, pure_eq_ok] at credits
    obtain ⟨_, _, rfl⟩ := credits
    trivial
  rcases ite_eq_ok chosen with numLogins | chosen
  · exact limitEdit_granted numLogins fun _ => trivial
  rcases ite_eq_ok chosen with loginsPerIp | chosen
  · exact limitEdit_granted loginsPerIp fun _ => trivial
  rcases ite_eq_ok chosen with ratio | chosen
  · exact ratioEdit_granted ratio
  rcases ite_eq_ok chosen with userSlots | chosen
  · exact slotsEdit_granted userSlots fun _ => trivial
  rcases ite_eq_ok chosen with leechSlots | chosen
  · exact slotsEdit_granted leechSlots fun _ => trivial
  · cases chosen

theorem changePlan_ok (passed : changePlan w site line me = .ok (user, edit)) :
    Target site me user ∧ ∃ value, value ≠ [] ∧ edit.Granted me user value := by
  simp only [changePlan, bind_eq_ok, word_eq_ok, found_eq_ok, refuseIf_eq_ok,
    pure_eq_ok, Prod.exists] at passed
  obtain ⟨_, _, _, _, named, _, _, _, value, read, _, group, edit, chosen, same⟩ := passed
  cases same
  exact ⟨.of_named named group, value, strtok_ne_nil read, fieldEdit_granted chosen⟩

theorem changegrpTarget_ok {groups : List Text}
    (passed : changegrpTarget site line = .ok (user, groups)) : site.user user.id = some user := by
  simp only [changegrpTarget, bind_eq_ok, found_eq_ok, Prod.exists] at passed
  obtain ⟨_, _, _, _, named, _, _, _, same⟩ := passed
  cases same
  exact (Site.user_of_userNamed named).1

theorem chratioPlan_ok {ratio : UInt32} (passed : chratioPlan site line me = .ok (user, ratio)) :
    Target site me user := by
  simp only [chratioPlan, bind_eq_ok, word_eq_ok, found_eq_ok, refuseIf_eq_ok,
    pure_eq_ok, Prod.exists] at passed
  obtain ⟨_, _, _, _, _, _, _, named, _, _, _, group, same⟩ := passed
  cases same
  exact .of_named named group

theorem givePlan_ok {gift : Gift} (passed : givePlan site line me = .ok gift) :
    site.user gift.user.id = some gift.user := by
  simp only [givePlan, bind_eq_ok, word_eq_ok, found_eq_ok, refuseIf_eq_ok, pure_eq_ok,
    Prod.exists] at passed
  obtain ⟨_, _, _, _, _, _, _, named, _, _, _, _, _, _, _, _, rfl⟩ := passed
  exact (Site.user_of_userNamed named).1

theorem takePlan_ok {bytes : UInt64} (passed : takePlan site line me = .ok (user, bytes)) :
    Target site me user := by
  simp only [takePlan, bind_eq_ok, word_eq_ok, found_eq_ok, refuseIf_eq_ok, pure_eq_ok,
    Prod.exists] at passed
  obtain ⟨_, _, _, _, _, _, _, _, _, named, _, _, _, group, _, _, same⟩ := passed
  cases same
  exact .of_named named group

/-- The account that the backend has stored: the record with its id and its password,
in a slot that was empty unless all ids below the maximum are in use. -/
theorem backendCreate_ok {newuser : UserRecord} {created : Site}
    (stored : backendCreate w site record = some (some (newuser, created))) :
    (∃ hash uid, newuser = { record with userpass := hash, uid := uid }) ∧
      site.userNamed record.name = none ∧
      (site.user newuser.id ≠ none → newuser.id = site.users.registry.max) ∧
      created.user = Function.update site.user newuser.id (some newuser) ∧
      ∀ weight : UserRecord → Nat,
        created.users.total weight + Tally.cell weight (site.user newuser.id) =
          site.users.total weight + weight newuser := by
  unfold backendCreate at stored
  split at stored
  · cases stored
  rename_i room
  split at stored
  · cases stored
  rename_i hash _
  obtain ⟨_, made, same⟩ := map_eq_some_iff.mp stored
  cases same
  have own : ∀ id < 2 ^ 32, UserRecord.id
      { record with userpass := hash, uid := UInt32.ofNat id } = id :=
    fun id small => UInt32.toNat_ofNat_of_lt' small
  obtain ⟨id, record_eq, same, free, lookup, total⟩ := create_spec own made
  have unused := not_isSome_iff_eq_none.mp (not_or.mp room).1
  refine ⟨⟨hash, UInt32.ofNat id, record_eq⟩, unused, ?_⟩
  rw [same]
  exact ⟨free, lookup, total⟩

theorem backendCreate_user {newuser : UserRecord} {created : Site}
    (stored : backendCreate w site record = some (some (newuser, created))) :
    created.user newuser.id = some newuser := by
  obtain ⟨_, _, _, lookup, _⟩ := backendCreate_ok stored
  simp [lookup]

end

end Wzdftpd
