import Wzdftpd.SiteSteps

/- The modification of a registered user by the plaintext backend: FCN_MOD_USER
(libplaintext_main.c) copies the fields that a mask names out of another structure. -/
namespace Wzdftpd

open List Option SlotArray

/-- The fields that a mask of wzd_backend.h can name. -/
inductive UserField where
  | username | userpass | rootpath | tagline | uid | groupNum | group | idle | perms | flags
  | maxUls | maxDls | ip | bytesUl | bytesDl | credits | numLogins | userSlots | leechSlots
  | ratio | creator | loginsPerIp
  deriving DecidableEq

namespace UserField

/-- The number of the bit: _USER_USERNAME to _USER_LOGINSPERIP. -/
def bit : UserField → UInt64
  | username => 0
  | userpass => 1
  | rootpath => 2
  | tagline => 3
  | uid => 4
  | groupNum => 5
  | group => 6
  | idle => 7
  | perms => 8
  | flags => 9
  | maxUls => 10
  | maxDls => 11
  | ip => 12
  | bytesUl => 13
  | bytesDl => 14
  | credits => 15
  | numLogins => 16
  | userSlots => 17
  | leechSlots => 18
  | ratio => 19
  | creator => 20
  | loginsPerIp => 21

/-- `mod_type & _USER_…` -/
def Named (modType : UInt64) (f : UserField) : Prop := modType &&& (1 <<< f.bit) ≠ 0

instance (modType : UInt64) (f : UserField) : Decidable (f.Named modType) :=
  inferInstanceAs (Decidable (_ ≠ _))

def Value : UserField → Type
  | username | userpass | rootpath | tagline | flags => Text
  | uid | creator | idle | maxUls | maxDls | ratio => UInt32
  | perms | bytesUl | bytesDl | credits => UInt64
  | numLogins | loginsPerIp | userSlots | leechSlots => UInt16
  | groupNum => Nat
  | group => Cells UInt32 maxGroupsPerUser
  | ip => List IpEntry

def get : (f : UserField) → UserRecord → f.Value
  | username, user => user.username
  | userpass, user => user.userpass
  | rootpath, user => user.rootpath
  | tagline, user => user.tagline
  | uid, user => user.uid
  | groupNum, user => user.groups.num
  | group, user => user.groups.cells
  | idle, user => user.maxIdleTime
  | perms, user => user.userperms
  | flags, user => user.flags
  | maxUls, user => user.maxUlSpeed
  | maxDls, user => user.maxDlSpeed
  | ip, user => user.ipList
  | bytesUl, user => user.stats.bytesUlTotal
  | bytesDl, user => user.stats.bytesDlTotal
  | credits, user => user.credits
  | numLogins, user => user.numLogins
  | userSlots, user => user.userSlots
  | leechSlots, user => user.leechSlots
  | ratio, user => user.ratio
  | creator, user => user.creator
  | loginsPerIp, user => user.loginsPerIp

def put : (f : UserField) → f.Value → UserRecord → UserRecord
  | username, v, user => { user with username := v }
  | userpass, v, user => { user with userpass := v }
  | rootpath, v, user => { user with rootpath := v }
  | tagline, v, user => { user with tagline := v }
  | uid, v, user => { user with uid := v }
  | groupNum, v, user => { user with groups := ⟨v, user.groups.cells⟩ }
  | group, v, user => { user with groups := ⟨user.groups.num, v⟩ }
  | idle, v, user => { user with maxIdleTime := v }
  | perms, v, user => { user with userperms := v }
  | flags, v, user => { user with flags := v }
  | maxUls, v, user => { user with maxUlSpeed := v }
  | maxDls, v, user => { user with maxDlSpeed := v }
  | ip, v, user => { user with ipList := v }
  | bytesUl, v, user => { user with stats := { user.stats with bytesUlTotal := v } }
  | bytesDl, v, user => { user with stats := { user.stats with bytesDlTotal := v } }
  | credits, v, user => { user with credits := v }
  | numLogins, v, user => { user with numLogins := v }
  | userSlots, v, user => { user with userSlots := v }
  | leechSlots, v, user => { user with leechSlots := v }
  | ratio, v, user => { user with ratio := v }
  | creator, v, user => { user with creator := v }
  | loginsPerIp, v, user => { user with loginsPerIp := v }

theorem get_put_same (f : UserField) (v : f.Value) (user : UserRecord) :
    f.get (f.put v user) = v := by
  cases f <;> rfl

theorem get_put_other {f g : UserField} (differ : g ≠ f) (v : f.Value) (user : UserRecord) :
    g.get (f.put v user) = g.get user := by
  cases f <;> cases g <;> first | rfl | exact absurd rfl differ

def unnamed (user : UserRecord) : UInt64 × UInt64 × Int64 :=
  (user.stats.filesUlTotal, user.stats.filesDlTotal, user.lastLogin)

theorem unnamed_put (f : UserField) (v : f.Value) (user : UserRecord) :
    unnamed (f.put v user) = unnamed user := by
  cases f <;> rfl

end UserField

open UserField (unnamed)

/-- The text of a field as a string function reads it, which runs out of a field without a
terminator. -/
def fieldText (size : Nat) (text : Text) : Option Text :=
  if text.length < size then some text else none

/-- The ids in the MAX_GROUPS_PER_USER bytes that `memcpy` copies: an id has four. -/
def copiedGroups : Nat := maxGroupsPerUser / 4

/-- `memcpy(loop_user->groups,user->groups,MAX_GROUPS_PER_USER)` -/
def copyGroups (new old : Cells UInt32 maxGroupsPerUser) :
    Cells UInt32 maxGroupsPerUser :=
  ⟨new.val.take copiedGroups ++ old.val.drop copiedGroups, by
    rw [length_append, length_take, length_drop, new.property, old.property]
    decide⟩

/-- What FCN_MOD_USER stores; `some none` where `changepass` fails. The password is encrypted
for the name that `loop_user` has by then. -/
def UserField.copied (w : SiteWorld) (user loopUser : UserRecord) :
    (f : UserField) → Option (Option f.Value)
  | username => (fieldText hardUsernameLength user.username).map some
  | userpass => (fieldText maxPassLength user.userpass).map (storedPass w loopUser.name)
  | rootpath => (fieldText maxPath user.rootpath).map some
  | tagline => (fieldText maxTaglineLength user.tagline).map some
  | group => some (some (copyGroups user.groups.cells loopUser.groups.cells))
  | f => some (some (f.get user))

/-- The fields in the order in which FCN_MOD_USER looks at them. -/
def laterFields : List UserField :=
  [.rootpath, .tagline, .uid, .creator, .groupNum, .idle, .group, .perms, .flags, .maxUls,
    .maxDls, .numLogins, .loginsPerIp, .ip, .bytesUl, .bytesDl, .credits, .userSlots,
    .leechSlots, .ratio]

def userFields : List UserField := .username :: .userpass :: laterFields

/-- The assignments of FCN_MOD_USER, one after the other. -/
def modFields (w : SiteWorld) (modType : UInt64) (user : UserRecord) :
    List UserField → UserRecord → Option (Int × UserRecord)
  | [], loopUser => some (0, loopUser)
  | f :: fields, loopUser =>
    if f.Named modType then
      match f.copied w user loopUser with
      | none => none
      | some none => some (-1, loopUser)
      | some (some v) => modFields w modType user fields (f.put v loopUser)
    else modFields w modType user fields loopUser

/-- The users of the backend, and its count of them. -/
structure BackendUsers where
  users : Registry UserRecord.id
  userCount : Nat := 0

/-- `user_get_by_name` -/
def BackendUsers.named (s : BackendUsers) (name : Text) : Option UserRecord :=
  if name = [] ∨ s.users.max = 0 then none
  else s.users.array.findSome? fun slot => slot.filter fun record => record.name = name

/-- The structure that FCN_MOD_USER is called with. -/
inductive GivenUser where
  | null
  | registered
  | separate (user : UserRecord)

/-- _USER_CREATE -/
def userCreateBit : UInt64 := 0x01000000

/-- The first branch of FCN_MOD_USER. That nothing is registered is only logged. -/
def createUser (w : SiteWorld) (user : UserRecord) (s : BackendUsers) :
    Option (Int × BackendUsers) :=
  if (s.named user.name).isSome then some (-2, s)
  else if s.userCount ≥ userCountMax then some (-1, s)
  else
    (fieldText maxPassLength user.userpass).bind fun pass =>
      match storedPass w user.name pass with
      | none => some (-1, s)
      | some hash =>
        (s.users.findFree 1).bind fun uid =>
          (s.users.register { user with userpass := hash, uid := UInt32.ofNat uid }).map
            fun (_, users) => (0, ⟨users, s.userCount + 1⟩)

/-- The commit of a record on itself: all but a password is there already. -/
def commitSelf (w : SiteWorld) (modType : UInt64) (user : UserRecord) :
    Option (Int × UserRecord) :=
  if UserField.userpass.Named modType then
    (fieldText maxPassLength user.userpass).map fun pass =>
      match storedPass w user.name pass with
      | none => (-1, user)
      | some hash => (0, { user with userpass := hash })
  else some (0, user)

/-- FCN_MOD_USER -/
def fcnModUser (w : SiteWorld) (uid : Nat) (given : GivenUser) (modType : UInt64)
    (s : BackendUsers) : Option (Int × BackendUsers) :=
  if modType = userCreateBit then
    match given, s.users.getById uid with
    | .null, _ => some (-1, s)
    | .separate user, _ => createUser w user s
    | .registered, some (some user) => createUser w user s
    | .registered, _ => none
  else
    match s.users.getById uid, given with
    | none, _ => none
    | some none, _ => some (-1, s)
    | some (some _), .null =>
      (s.users.unregister uid).map fun (_, users) => (0, { s with users := users })
    | some (some loopUser), .registered =>
      (commitSelf w modType loopUser).map fun (code, loopUser) =>
        (code, { s with users := s.users.store uid (some loopUser) })
    | some (some loopUser), .separate user =>
      (modFields w modType user userFields loopUser).map fun (code, loopUser) =>
        (code, { s with users := s.users.store uid (some loopUser) })

variable {after : UserRecord}

section Fields

variable {w : SiteWorld} {modType : UInt64} {user : UserRecord}

variable (g : UserField) {f : UserField} {fields : List UserField}

theorem modFields_unnamed {loopUser : UserRecord} (unnamed : ¬f.Named modType) :
    modFields w modType user (f :: fields) loopUser = modFields w modType user fields loopUser :=
  if_neg unnamed

theorem modFields_named {loopUser : UserRecord} (named : f.Named modType)
    (done : modFields w modType user (f :: fields) loopUser = some (0, after)) :
    ∃ v, f.copied w user loopUser = some (some v) ∧
      modFields w modType user fields (f.put v loopUser) = some (0, after) := by
  rw [modFields, if_pos named] at done
  generalize f.copied w user loopUser = value at done
  match value with
  | none => cases done
  | some none => cases done
  | some (some v) => exact ⟨v, rfl, done⟩

theorem unnamed_of_modFields (fields : List UserField) : ∀ {loopUser after : UserRecord},
    modFields w modType user fields loopUser = some (0, after) →
    unnamed after = unnamed loopUser := by
  induction fields with
  | nil =>
    intro loopUser after done
    rw [modFields, some.injEq, Prod.mk.injEq] at done
    rw [done.2]
  | cons f fields ih =>
    intro loopUser after done
    by_cases named : f.Named modType
    · obtain ⟨_, _, rest⟩ := modFields_named named done
      rw [ih rest, UserField.unnamed_put]
    · rw [modFields_unnamed named] at done
      exact ih done

theorem get_of_modFields (fields : List UserField) : ∀ {loopUser after : UserRecord},
      modFields w modType user fields loopUser = some (0, after) →
      (g.Named modType → g ∉ fields) → g.get after = g.get loopUser := by
  induction fields with
  | nil =>
    intro loopUser after done _
    rw [modFields, some.injEq, Prod.mk.injEq] at done
    rw [done.2]
  | cons f fields ih =>
    intro loopUser after done apart
    have later : g.Named modType → g ∉ fields :=
      fun named member => apart named (mem_cons_of_mem f member)
    by_cases named : f.Named modType
    · obtain ⟨_, _, rest⟩ := modFields_named named done
      have differ : g ≠ f := by
        rintro rfl
        exact apart named mem_cons_self
      rw [ih rest later, UserField.get_put_other differ]
    · rw [modFields_unnamed named] at done
      exact ih done later

theorem copied_of_modFields (fields : List UserField) :
    ∀ {loopUser after : UserRecord}, fields.Nodup → g ∈ fields → g.Named modType →
      modFields w modType user fields loopUser = some (0, after) →
      ∃ before : UserRecord, g.get before = g.get loopUser ∧
        g.copied w user before = some (some (g.get after)) := by
  induction fields with
  | nil =>
    intro loopUser after _ member
    cases member
  | cons f fields ih =>
    intro loopUser after once member wanted done
    have rest_once := (nodup_cons.mp once).2
    by_cases same : g = f
    · subst same
      obtain ⟨v, value, rest⟩ := modFields_named wanted done
      have kept := get_of_modFields g fields rest fun _ => (nodup_cons.mp once).1
      rw [UserField.get_put_same] at kept
      exact ⟨loopUser, rfl, by rw [kept, value]⟩
    · have later : g ∈ fields := (mem_cons.mp member).resolve_left same
      by_cases named : f.Named modType
      · obtain ⟨v, _, rest⟩ := modFields_named named done
        obtain ⟨before, kept, value⟩ := ih rest_once later wanted rest
        rw [UserField.get_put_other same] at kept
        exact ⟨before, kept, value⟩
      · rw [modFields_unnamed named] at done
        exact ih rest_once later wanted done

end Fields

theorem fieldText_eq_some {size : Nat} {text read : Text} (done : fieldText size text = some read) :
    read = text := by
  unfold fieldText at done
  split at done
  · exact (some.inj done).symm
  · cases done

theorem value_of_fieldText {size : Nat} {text read : Text}
    (done : (fieldText size text).map some = some (some read)) : read = text := by
  rw [map_eq_some_iff] at done
  obtain ⟨_, value, same⟩ := done
  rw [← some.inj same]
  exact fieldText_eq_some value

variable {w : SiteWorld}

variable {user : UserRecord}

theorem UserField.value_of_copied {loopUser : UserRecord} {f : UserField} {v : f.Value}
    (pass : f ≠ .userpass) (groups : f ≠ .group)
    (value : f.copied w user loopUser = some (some v)) : v = f.get user := by
  cases f
  case userpass => exact absurd rfl pass
  case group => exact absurd rfl groups
  case username => exact value_of_fieldText value
  case rootpath => exact value_of_fieldText value
  case tagline => exact value_of_fieldText value
  all_goals exact (some.inj (some.inj value)).symm

/-- The fields that the mask names are those of `user`, all others are as they were. -/
structure Selected (w : SiteWorld) (modType : UInt64) (user before after : UserRecord) :
    Prop where
  named : ∀ f : UserField, f.Named modType → f ≠ .userpass → f ≠ .group →
    f.get after = f.get user
  pass : UserField.userpass.Named modType →
    storedPass w (if UserField.username.Named modType then user.username else before.name)
      user.userpass = some after.userpass
  groups : UserField.group.Named modType → ∀ i < user.groups.num,
    after.groups.cells.val[i]? = user.groups.cells.val[i]?
  kept : ∀ f : UserField, ¬f.Named modType → f.get after = f.get before
  rest : unnamed after = unnamed before

theorem name_of_short (short : user.username.length < hardUsernameLength) :
    user.name = user.username :=
  if_pos short

variable {modType : UInt64}

variable {before : UserRecord}

/-- The password is encrypted for the name the record has after the modification. -/
theorem pass_of_modFields (named : UserField.userpass.Named modType)
    (done : modFields w modType user userFields before = some (0, after)) :
    storedPass w (if UserField.username.Named modType then user.username else before.name)
      user.userpass = some after.userpass := by
  have stored : ∀ {loopUser : UserRecord},
      modFields w modType user (.userpass :: laterFields) loopUser = some (0, after) →
      storedPass w loopUser.name user.userpass = some after.userpass := by
    intro loopUser rest
    obtain ⟨hash, value, rest⟩ := modFields_named named rest
    have kept := get_of_modFields .userpass laterFields rest fun _ => by decide
    have same : after.userpass = hash := kept
    obtain ⟨_, read, encrypted⟩ := map_eq_some_iff.mp value
    rw [same, ← fieldText_eq_some read]
    exact encrypted
  by_cases renamed : UserField.username.Named modType
  · obtain ⟨name, value, rest⟩ := modFields_named renamed done
    have same : name = user.username := value_of_fieldText value
    have short : name.length < hardUsernameLength := by
      obtain ⟨read, found, _⟩ := map_eq_some_iff.mp value
      unfold fieldText at found
      split at found
      · rw [same]
        assumption
      · cases found
    have renamed_name : (UserField.put .username name before).name = name := name_of_short short
    rw [if_pos renamed, ← same, ← renamed_name]
    exact stored rest
  · rw [userFields, modFields_unnamed renamed] at done
    rw [if_neg renamed]
    exact stored done

theorem getElem?_copyGroups (new old : Cells UInt32 maxGroupsPerUser) (i : Nat) :
    (copyGroups new old).val[i]? = if i < copiedGroups then new.val[i]? else old.val[i]? := by
  have length : (new.val.take copiedGroups).length = copiedGroups := by
    rw [length_take, new.property]
    decide
  rw [copyGroups]
  by_cases inside : i < copiedGroups
  · rw [if_pos inside, getElem?_append_left (by omega), getElem?_take, if_pos inside]
  · rw [if_neg inside, getElem?_append_right (by omega), getElem?_drop]
    congr 1
    omega

theorem groups_of_modFields (named : UserField.group.Named modType)
    (done : modFields w modType user userFields before = some (0, after)) :
    after.groups.cells = copyGroups user.groups.cells before.groups.cells := by
  obtain ⟨loopUser, kept, value⟩ :=
    copied_of_modFields .group userFields (by decide) (by decide) named done
  have same : loopUser.groups.cells = before.groups.cells := kept
  have copy := some.inj (some.inj value)
  rw [← same]
  exact copy.symm

theorem mem_userFields (f : UserField) : f ∈ userFields := by
  cases f <;> decide

/-- The ids behind the copied ones are those that the record had. -/
theorem selected_iff (done : modFields w modType user userFields before = some (0, after)) :
    Selected w modType user before after ↔
      (UserField.group.Named modType → ∀ i, copiedGroups ≤ i → i < user.groups.num →
        before.groups.cells.val[i]? = user.groups.cells.val[i]?) := by
  constructor
  · intro selected named i above below
    have same := selected.groups named i below
    rw [groups_of_modFields named done, getElem?_copyGroups, if_neg (by omega)] at same
    exact same
  · intro same
    refine ⟨?_, fun named => pass_of_modFields named done, ?_, ?_,
      unnamed_of_modFields userFields done⟩
    · intro f named pass groups
      obtain ⟨_, _, value⟩ :=
        copied_of_modFields f userFields (by decide) (mem_userFields f) named done
      exact UserField.value_of_copied pass groups value
    · intro named i below
      rw [groups_of_modFields named done, getElem?_copyGroups]
      split
      · rfl
      · exact same named i (by omega) below
    · exact fun f named => get_of_modFields f userFields done fun wanted => absurd wanted named

theorem getById_store {users : Registry UserRecord.id} {uid : Nat}
    (registered : users.getById uid = some (some before)) (after : UserRecord) :
    (users.store uid (some after)).getById uid = some (some after) := by
  unfold Registry.getById at registered ⊢
  split at registered
  · cases registered
  · rename_i inside
    have small := (List.getElem?_eq_some_iff.mp registered).1
    rw [Registry.store, if_neg inside, getElem?_set_self small]

theorem stored_of_fcnModUser {s changed : BackendUsers} {uid : Nat} {r u : UserRecord}
    (other : modType ≠ userCreateBit) (registered : s.users.getById uid = some (some r))
    (done : fcnModUser w uid (.separate u) modType s = some (0, changed)) :
    ∃ after, modFields w modType u userFields r = some (0, after) ∧
      changed.users = s.users.store uid (some after) := by
  unfold fcnModUser at done
  rw [if_neg other, registered] at done
  obtain ⟨⟨_, after⟩, modified, same⟩ := map_eq_some_iff.mp done
  obtain ⟨rfl, rfl⟩ := Prod.mk.inj same
  exact ⟨after, modified, rfl⟩

/-- A modification that succeeds takes over what the mask names and nothing else exactly
if the ids of the groups from the ninth on need no change. -/
theorem mod_user_selects_iff (w : SiteWorld) (s changed : BackendUsers) (uid : Nat)
    (r u : UserRecord) (modType : UInt64) (mask : modType &&& userCreateBit = 0)
    (registered : s.users.getById uid = some (some r))
    (done : fcnModUser w uid (.separate u) modType s = some (0, changed)) :
    (∃ after, changed.users.getById uid = some (some after) ∧ Selected w modType u r after) ↔
      (UserField.group.Named modType → ∀ i, copiedGroups ≤ i → i < u.groups.num →
        r.groups.cells.val[i]? = u.groups.cells.val[i]?) := by
  have other : modType ≠ userCreateBit := by
    rintro rfl
    exact absurd mask (by decide)
  obtain ⟨after, modified, stored⟩ := stored_of_fcnModUser other registered done
  rw [stored, getById_store registered]
  constructor
  · rintro ⟨_, here, selected⟩
    rw [some.inj (some.inj here)] at modified
    exact (selected_iff modified).mp selected
  · intro kept
    exact ⟨after, rfl, (selected_iff modified).mpr kept⟩

theorem length_idsFrom (gid : UInt32) :
    ((range maxGroupsPerUser).map fun i => gid + UInt32.ofNat i).length = maxGroupsPerUser := by
  simp

/-- A member of nine groups whose ids count from `gid` on. -/
def ofNine (gid : UInt32) : UserRecord :=
  { uid := 1, username := "ann".toList, groups := ⟨9, _, length_idsFrom gid⟩ }

def backendOf (user : UserRecord) : BackendUsers := ⟨⟨1, [none, some user]⟩, 1⟩

def ofEight (gid other : UInt32) : UserRecord :=
  { ofNine gid with
    groups := ⟨9, copyGroups (ofNine other).groups.cells (ofNine gid).groups.cells⟩ }

/-- _USER_GROUP: no id needs a change here. -/
theorem mod_user_selects_iff_same :
    fcnModUser plainWorld 1 (.separate (ofNine 20)) 0x40 (backendOf (ofNine 20)) =
      some (0, backendOf (ofEight 20 20)) ∧
    ∃ after, (backendOf (ofEight 20 20)).users.getById 1 = some (some after) ∧
      Selected plainWorld 0x40 (ofNine 20) (ofNine 20) after :=
  ⟨rfl, (mod_user_selects_iff plainWorld (backendOf (ofNine 20)) (backendOf (ofEight 20 20)) 1
    (ofNine 20) (ofNine 20) 0x40 (by decide) rfl rfl).mpr fun _ _ _ _ => rfl⟩

/-- The ninth group of the user stays although all groups are named and 0 is returned. -/
theorem mod_user_keeps_ninth_group :
    fcnModUser plainWorld 1 (.separate (ofNine 50)) 0x40 (backendOf (ofNine 20)) =
      some (0, backendOf (ofEight 20 50)) ∧
    (ofEight 20 50).groups.cells.val[8]? = some 28 ∧
    (ofNine 50).groups.cells.val[8]? = some 58 ∧
    ¬Selected plainWorld 0x40 (ofNine 50) (ofNine 20) (ofEight 20 50) := by
  refine ⟨rfl, by decide, by decide, fun selected => ?_⟩
  have ninth := selected.groups (by decide) 8 (by decide)
  exact absurd ninth (by decide)

end Wzdftpd
