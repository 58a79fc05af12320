import Wzdftpd.DataTarget
import Wzdftpd.Login

/- The address rules of a user and of its groups. -/
namespace Wzdftpd

open List

/-- All rules that concern a user: its own, then those of its groups in order. -/
def ipRules (cfg : LoginConfig) (user : User) : List IpEntry :=
  user.ipList ++ (user.groups.filterMap cfg.getGroupByID).flatMap (·.ipList)

/-- The first rule of a list that matches the connection is there and says this. -/
def FirstRule (cfg : LoginConfig) (ctx : Context) (rules : List IpEntry) (isAllowed : Bool) :
    Prop :=
  ∃ entry, rules.find? (ipEntryMatches cfg ctx) = some entry ∧ entry.isAllowed = isAllowed

/-- The checks stop at the first match. -/
structure StopsAtFirstMatch (cfg : LoginConfig) (ctx : Context) (user : User) : Prop where
  denied : FirstRule cfg ctx user.ipList false → doUserIp cfg ctx = .userNoIp
  allowed : FirstRule cfg ctx (ipRules cfg user) true → doUserIp cfg ctx = .ok

/-- Some group of the user lets the connection in. -/
def GroupAllows (cfg : LoginConfig) (ctx : Context) (user : User) : Prop :=
  ∃ group ∈ user.groups.filterMap cfg.getGroupByID, FirstRule cfg ctx group.ipList true

section

variable {cfg : LoginConfig} {ctx : Context} {user : User}

theorem ipListCheckIdent_eq_some {rules : List IpEntry} {isAllowed : Bool} :
    ipListCheckIdent cfg rules ctx = some isAllowed ↔ FirstRule cfg ctx rules isAllowed :=
  Option.map_eq_some_iff

theorem doUserIp_eq_ok (known : cfg.users.getById ctx.userid = some user) :
    doUserIp cfg ctx = .ok ↔ FirstRule cfg ctx user.ipList true ∨ GroupAllows cfg ctx user := by
  have groups : ((user.groups.filterMap cfg.getGroupByID).any fun group =>
      ipListCheckIdent cfg group.ipList ctx = some true) = true ↔ GroupAllows cfg ctx user := by
    rw [any_eq_true, GroupAllows]
    simp [ipListCheckIdent_eq_some]
  simp only [doUserIp, known]
  split
  · rename_i own
    exact ⟨fun _ => .inl (ipListCheckIdent_eq_some.mp own), fun _ => rfl⟩
  rename_i notOwn
  rw [ipListCheckIdent_eq_some] at notOwn
  split
  · rename_i grouped
    exact ⟨fun _ => .inr (groups.mp grouped), fun _ => rfl⟩
  · rename_i ungrouped
    rw [groups] at ungrouped
    exact ⟨nofun, fun either => absurd either (not_or.mpr ⟨notOwn, ungrouped⟩)⟩

theorem doUserIp_eq_noIp (known : cfg.users.getById ctx.userid = some user) :
    doUserIp cfg ctx = .userNoIp ↔ doUserIp cfg ctx ≠ .ok := by
  simp only [doUserIp, known]
  split
  · simp
  · split <;> simp

theorem FirstRule.unique {rules : List IpEntry} {first second : Bool}
    (one : FirstRule cfg ctx rules first) (other : FirstRule cfg ctx rules second) :
    first = second := by
  obtain ⟨_, found, same⟩ := one
  obtain ⟨_, found', same'⟩ := other
  rw [found, Option.some.injEq] at found'
  rw [← same, ← same', found']

theorem firstRule_ipRules (first : FirstRule cfg ctx (ipRules cfg user) true) :
    FirstRule cfg ctx user.ipList true ∨ GroupAllows cfg ctx user := by
  obtain ⟨entry, found, same⟩ := first
  rw [ipRules, find?_append, Option.or_eq_some_iff] at found
  rcases found with own | ⟨_, grouped⟩
  · exact .inl ⟨entry, own, same⟩
  · rw [find?_flatMap] at grouped
    obtain ⟨group, member, here⟩ := exists_of_findSome?_eq_some grouped
    exact .inr ⟨group, member, entry, here, same⟩

end

/-- The login stops at the first match exactly unless the own list denies the
connection and the list of a group allows it. -/
theorem stopsAtFirstMatch_iff (cfg : LoginConfig) (ctx : Context) (user : User)
    (known : cfg.users.getById ctx.userid = some user) :
    StopsAtFirstMatch cfg ctx user ↔
      ¬(FirstRule cfg ctx user.ipList false ∧ GroupAllows cfg ctx user) := by
  constructor
  · rintro ⟨denied, _⟩ ⟨own, grouped⟩
    have refused := (doUserIp_eq_noIp known).mp (denied own)
    exact refused ((doUserIp_eq_ok known).mpr (.inr grouped))
  intro apart
  refine ⟨fun own => (doUserIp_eq_noIp known).mpr fun accepted => ?_, fun first => ?_⟩
  · rcases (doUserIp_eq_ok known).mp accepted with allowed | grouped
    · exact Bool.false_ne_true (own.unique allowed)
    · exact apart ⟨own, grouped⟩
  · exact (doUserIp_eq_ok known).mpr (firstRule_ipRules first)

theorem stopsAtFirstMatch_iff_ann :
    doUserIp loginConfig srvContext = .ok ∧
      StopsAtFirstMatch loginConfig srvContext loginUserRecord := by
  refine ⟨by decide, (stopsAtFirstMatch_iff loginConfig srvContext loginUserRecord rfl).mpr ?_⟩
  rintro ⟨_, _, member, _⟩
  exact absurd member not_mem_nil

def UserTable.single (user : User) (first : user.uid = 1)
    (short : user.username.length < hardUsernameLength) : UserTable where
  array := [none, some user]
  indexed := by
    intro uid stored found
    match uid, found with
    | 1, found =>
      cases found
      exact first
  short := by
    intro stored member
    simp only [mem_cons, reduceCtorEq, Option.some.injEq, not_mem_nil, or_false,
      false_or] at member
    rw [member]
    exact short

/-- The address `10.0.0.1` is denied to the user itself and allowed to its group. -/
def shutOutUser : User :=
  { srvUser with groups := [7], ipList := [⟨"10.0.0.1".toList, false⟩] }

def shutOutConfig : LoginConfig :=
  { users := .single shutOutUser rfl (by decide)
    getGroupByID := fun gid =>
      if gid = 7 then some { groupname := "staff".toList, ipList := [⟨['*'], true⟩] } else none
    checkAuth := fun _ _ _ => false
    ipCompare := fun _ _ pattern => pattern = "10.0.0.1".toList ∨ pattern = ['*'] }

theorem denied_address_logs_in :
    doUserIp shutOutConfig guardedContext = .ok ∧
      ¬StopsAtFirstMatch shutOutConfig guardedContext shutOutUser := by
  have accepted : doUserIp shutOutConfig guardedContext = .ok := by decide
  refine ⟨accepted, fun stops => ?_⟩
  have refused := stops.denied ⟨⟨"10.0.0.1".toList, false⟩, rfl, rfl⟩
  cases refused

end Wzdftpd
