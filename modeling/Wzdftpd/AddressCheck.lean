import Wzdftpd.IpRules
import Wzdftpd.UsersFileReload

/- The check of an address before anybody has logged in (wzd_ServerThread.c). -/
namespace Wzdftpd

open List

/-- What `ip_list_check_ident` returns: -1 where no rule matches. -/
def checkCode (cfg : LoginConfig) (list : List IpEntry) (ctx : Context) : Int :=
  match ipListCheckIdent cfg list ctx with
  | some true => 1
  | some false => 0
  | none => -1

/-- A loop over the ids of a registry that ends at the first record that passes. -/
def Table.anyListed {α : Type} {idOf : α → Nat} (t : Table idOf) (test : α → Bool) :
    Option Bool :=
  (t.registry.getList.bind idsListed).map fun ids => ids.any fun id => (t.getById id).any test

/-- `check_ip_before_login` -/
def checkIpBeforeLogin (cfg : LoginConfig) (users : Accounts) (groups : GroupTable)
    (ctx : Context) : Option Int := do
  let grouped ← groups.anyListed fun group => checkCode cfg group.ipList ctx > 1
  if grouped then
    return 0
  let known ← users.anyListed fun user => checkCode cfg user.ipList ctx ≠ 0
  if known then
    return 0
  return 1

/-- Some list of a user or of a group has a first matching rule, and it allows. -/
def SomeListAllows (cfg : LoginConfig) (users : Accounts) (groups : GroupTable) (ctx : Context) :
    Prop :=
  (∃ uid user, users.getById uid = some user ∧ FirstRule cfg ctx user.ipList true) ∨
    ∃ gid group, groups.getById gid = some group ∧ FirstRule cfg ctx group.ipList true

/-- Some list allows wherever one of a user says nothing, and some user is not denied wherever
one allows. The loop misses the user at the maximum index. -/
structure AddressDecided (cfg : LoginConfig) (users : Accounts) (groups : GroupTable)
    (ctx : Context) : Prop where
  silent : ∀ uid < users.registry.max, ∀ user, users.getById uid = some user →
    (∀ entry ∈ user.ipList, ipEntryMatches cfg ctx entry = false) →
      SomeListAllows cfg users groups ctx
  shown : SomeListAllows cfg users groups ctx → ∃ uid < users.registry.max, ∃ user,
    users.getById uid = some user ∧ ¬FirstRule cfg ctx user.ipList false

section

variable {cfg : LoginConfig} {ctx : Context}

theorem checkCode_le_one (list : List IpEntry) : ¬checkCode cfg list ctx > 1 := by
  unfold checkCode
  split
  · decide
  · decide
  · decide

theorem checkCode_ne_zero (list : List IpEntry) :
    checkCode cfg list ctx ≠ 0 ↔ ¬FirstRule cfg ctx list false := by
  rw [← ipListCheckIdent_eq_some]
  unfold checkCode
  split
  · rename_i allowed
    simp [allowed]
  · rename_i denied
    simp [denied]
  · rename_i silent
    simp [silent]

theorem allows_or_silent {list : List IpEntry} (notDenied : ¬FirstRule cfg ctx list false) :
    FirstRule cfg ctx list true ∨ ∀ entry ∈ list, ipEntryMatches cfg ctx entry = false := by
  cases found : list.find? (ipEntryMatches cfg ctx) with
  | none =>
    right
    intro entry member
    exact Bool.eq_false_iff.mpr (find?_eq_none.mp found entry member)
  | some entry =>
    cases said : entry.isAllowed with
    | true => exact .inl ⟨entry, found, said⟩
    | false => exact absurd ⟨entry, found, said⟩ notDenied

theorem not_firstRule_of_silent {list : List IpEntry} {isAllowed : Bool}
    (silent : ∀ entry ∈ list, ipEntryMatches cfg ctx entry = false) :
    ¬FirstRule cfg ctx list isAllowed := by
  rintro ⟨entry, found, _⟩
  have no_match := silent entry (mem_of_find?_eq_some found)
  rw [find?_some found] at no_match
  cases no_match

end

namespace Table

variable {α : Type} {idOf : α → Nat} {t : Table idOf}

theorem anyListed_eq (test : α → Bool) : ∃ passed, t.anyListed test = some passed ∧
    (passed = true ↔
      ∃ id < t.registry.max, ∃ record, t.getById id = some record ∧ test record = true) := by
  refine ⟨_, by rw [anyListed, idsListed_getList, Option.map_some], ?_⟩
  simp only [any_eq_true, Option.any_eq_true]
  constructor
  · rintro ⟨id, member, record, found, passes⟩
    exact ⟨id, ((t.registry.mem_ids id).mp member).1, record, found, passes⟩
  · rintro ⟨id, below, record, found, passes⟩
    refine ⟨id, (t.registry.mem_ids id).mpr ⟨below, ?_⟩, record, found, passes⟩
    rw [← getById_eq, found]
    rfl

end Table

variable (cfg : LoginConfig) (users : Accounts) (groups : GroupTable) (ctx : Context)

theorem checkIpBeforeLogin_eq :
    ∃ known, checkIpBeforeLogin cfg users groups ctx = some (if known then 0 else 1) ∧
      (known = true ↔ ∃ uid < users.registry.max, ∃ user, users.getById uid = some user ∧
        ¬FirstRule cfg ctx user.ipList false) := by
  obtain ⟨grouped, looked, groupIff⟩ :=
    groups.anyListed_eq fun group => checkCode cfg group.ipList ctx > 1
  obtain ⟨known, seen, userIff⟩ :=
    users.anyListed_eq fun user => checkCode cfg user.ipList ctx ≠ 0
  have noGroup : grouped = false := by
    apply Bool.eq_false_iff.mpr
    intro passed
    obtain ⟨_, _, group, _, more⟩ := groupIff.mp passed
    exact checkCode_le_one group.ipList (of_decide_eq_true more)
  simp only [decide_eq_true_eq, checkCode_ne_zero] at userIff
  refine ⟨known, ?_, userIff⟩
  rw [checkIpBeforeLogin, looked, seen, noGroup]
  cases known <;> rfl

theorem checkIpBeforeLogin_eq_zero :
    checkIpBeforeLogin cfg users groups ctx = some 0 ↔
      ∃ uid < users.registry.max, ∃ user, users.getById uid = some user ∧
        ¬FirstRule cfg ctx user.ipList false := by
  obtain ⟨known, result, iff⟩ := checkIpBeforeLogin_eq cfg users groups ctx
  rw [result, ← iff]
  cases known <;> decide

theorem checkIpBeforeLogin_eq_one {cfg : LoginConfig} {users : Accounts} (groups : GroupTable)
    {ctx : Context}
    (denied : ∀ uid user, users.getById uid = some user → FirstRule cfg ctx user.ipList false) :
    checkIpBeforeLogin cfg users groups ctx = some 1 := by
  obtain ⟨known, result, iff⟩ := checkIpBeforeLogin_eq cfg users groups ctx
  have nobody : known = false := by
    apply Bool.eq_false_iff.mpr
    intro passed
    obtain ⟨uid, _, user, found, allowed⟩ := iff.mp passed
    exact allowed (denied uid user found)
  rw [result, nobody]
  rfl

/-- The check lets in exactly the connections that some list allows, if and only if no
user without a matching rule lets in more and some user lets in the rest. -/
theorem checkIpBeforeLogin_right_iff (cfg : LoginConfig) (users : Accounts) (groups : GroupTable)
    (ctx : Context) :
    (checkIpBeforeLogin cfg users groups ctx = some 0 ↔ SomeListAllows cfg users groups ctx) ↔
      AddressDecided cfg users groups ctx := by
  rw [checkIpBeforeLogin_eq_zero]
  constructor
  · intro right
    refine ⟨fun uid below user found silent => ?_, right.mpr⟩
    exact right.mp ⟨uid, below, user, found, not_firstRule_of_silent silent⟩
  intro decided
  refine ⟨?_, decided.shown⟩
  rintro ⟨uid, below, user, found, notDenied⟩
  rcases allows_or_silent notDenied with allows | silent
  · exact .inl ⟨uid, user, found, allows⟩
  · exact decided.silent uid below user found silent

def unlistedUser : UserRecord := { uid := 1, username := "ann".toList }

def deniedUser : UserRecord :=
  { uid := 1, username := "ann".toList, ipList := [⟨"10.0.0.1".toList, false⟩] }

def allowingGroup : GroupEntry :=
  { gid := 1, groupname := "staff".toList, ipList := [⟨['*'], true⟩] }

/-- A table with one record, whose id is below 256. -/
def Table.only {α : Type} {idOf : α → Nat} (record : α) : Table idOf := Table.allocated.put record

theorem Table.eq_of_getById_only {α : Type} {idOf : α → Nat} {record found : α} {id : Nat}
    (read : (Table.only record : Table idOf).getById id = some found) : found = record := by
  have member := mem_of_getElem? (read_of_getById read)
  rcases mem_or_eq_of_mem_set member with unset | same
  · cases eq_of_mem_replicate unset
  · exact Option.some.inj same

/-- An address that no list mentions is let in, and one that only a group allows is not. -/
theorem checkIpBeforeLogin_wrong :
    (checkIpBeforeLogin shutOutConfig (.only unlistedUser) (.only { gid := 1 }) guardedContext =
        some 0 ∧
      ¬SomeListAllows shutOutConfig (.only unlistedUser) (.only { gid := 1 }) guardedContext) ∧
    checkIpBeforeLogin shutOutConfig (.only deniedUser) (.only allowingGroup) guardedContext =
        some 1 ∧
      SomeListAllows shutOutConfig (.only deniedUser) (.only allowingGroup) guardedContext := by
  refine ⟨⟨?_, ?_⟩, ?_, .inr ⟨1, allowingGroup, ?_, ⟨['*'], true⟩, ?_, rfl⟩⟩
  · rw [checkIpBeforeLogin_eq_zero]
    refine ⟨1, by decide, unlistedUser, by decide, ?_⟩
    rintro ⟨entry, first, _⟩
    cases first
  · rintro (⟨uid, user, found, entry, first, _⟩ | ⟨gid, _, found, entry, first, _⟩)
    · rw [Table.eq_of_getById_only found] at first
      cases first
    · rw [Table.eq_of_getById_only found] at first
      cases first
  · apply checkIpBeforeLogin_eq_one
    intro uid user found
    rw [Table.eq_of_getById_only found]
    refine ⟨⟨"10.0.0.1".toList, false⟩, ?_, rfl⟩
    decide
  · decide
  · decide

end Wzdftpd
