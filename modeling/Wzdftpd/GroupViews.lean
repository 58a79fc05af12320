import Wzdftpd.AddressCheck

/- Who is in a group: `group_list_users` (wzd_user.c) looks at all cells of the groups of a
user, `is_user_in_group` (wzd_misc.c) at those in use. -/
namespace Wzdftpd

open List Table

/-- The loop of `group_list_users` over the ids below a bound: the ids it stores. -/
def Registry.listWhere {α : Type} {idOf : α → Nat} (t : Registry idOf) (wanted : α → Bool) :
    Nat → Option (List Nat)
  | 0 => some []
  | bound + 1 =>
    (t.listWhere wanted bound).bind fun ids =>
      t.array[bound]?.map fun slot =>
        match slot with
        | some record =>
          if idOf record ≠ invalidUser ∧ wanted record then ids ++ [idOf record] else ids
        | none => ids

/-- The flag that is asked for, where 0 asks for none. -/
def UserRecord.flagged (user : UserRecord) (flag : Char) : Bool := flag = '\x00' ∨ user.has flag

/-- The inner loop of `group_list_users`: one of the cells holds the group, and the user has
the flag. -/
def UserRecord.scanned (gid : UInt32) (flag : Char) (user : UserRecord) : Bool :=
  user.groups.cells.val.any fun cell => cell = gid ∧ user.flagged flag

/-- `group_list_users`: the cells of the list, `none` where one is not written, or a null
pointer. -/
def groupListUsers (users : Accounts) (groups : GroupTable) (gid : UInt32) (flag : Char) :
    Option (Option (List (Option Nat))) :=
  if groups.getById gid.toNat = none then some none
  else
    (users.registry.listWhere (UserRecord.scanned gid flag) users.registry.max).map fun ids =>
      some ((ids.map some ++ some invalidUser ::
        replicate (users.registry.max - ids.length) none).set users.registry.max
          (some invalidUser))

/-- `is_user_in_group` -/
def isUserInGroup (user : UserRecord) (gid : UInt32) : Int :=
  if user.groups.num = 0 then -1 else if gid ∈ user.groups.members then 1 else 0

def GroupArray.unused (a : GroupArray) : List UInt32 := a.cells.val.drop a.num

/-- The list has each member of the group with the flag once, up to the first -1. -/
def ViewsAgree (users : Accounts) (groups : GroupTable) (gid : UInt32) (flag : Char) : Prop :=
  ∃ list ids, groupListUsers users groups gid flag = some (some list) ∧
    idsListed list = some ids ∧ ids.Nodup ∧
    ∀ uid, uid ∈ ids ↔ ∃ user, users.getById uid = some user ∧ isUserInGroup user gid = 1 ∧
      user.flagged flag = true

section Views

variable {groups : GroupTable} {gid : UInt32} {flag : Char}

theorem Registry.Sound.listWhere_eq {α : Type} {idOf : α → Nat} {t : Registry idOf}
    (sound : t.Sound) (wanted : α → Bool) (bound : Nat) : bound ≤ t.max →
    t.listWhere wanted bound = some ((range bound).filter fun id => (t.lookup id).any wanted) := by
  induction bound with
  | zero => exact fun _ => rfl
  | succ bound ih =>
    intro inside
    have read := sound.read_below inside
    have valid := sound.max_lt_invalid
    rw [listWhere, ih (Nat.le_of_lt inside), range_succ, read]
    cases found : t.lookup bound with
    | none => simp [found]
    | some record =>
      rw [found] at read
      have own := sound.indexed bound record read
      have notInvalid : bound ≠ invalidUser := by omega
      by_cases here : wanted record = true <;> simp [found, own, notInvalid, here]

theorem isUserInGroup_eq_one (user : UserRecord) :
    isUserInGroup user gid = 1 ↔ gid ∈ user.groups.members := by
  unfold isUserInGroup
  split
  · rename_i none'
    rw [GroupArray.members, none']
    exact iff_of_false (by decide) not_mem_nil
  · split
    · rename_i member
      exact iff_of_true rfl member
    · rename_i other
      exact iff_of_false (by decide) other

theorem scanned_iff (user : UserRecord) :
    user.scanned gid flag = true ↔
      (gid ∈ user.groups.members ∨ gid ∈ user.groups.unused) ∧ user.flagged flag = true := by
  rw [GroupArray.members, GroupArray.unused, ← mem_append, UserRecord.scanned]
  simp

theorem listed_of_registered (users : Accounts) (registered : groups.getById gid.toNat ≠ none)
    (flag : Char) :
    ∃ list ids, groupListUsers users groups gid flag = some (some list) ∧
      idsListed list = some ids ∧ ids.Nodup ∧
      ∀ uid, uid ∈ ids ↔ uid < users.registry.max ∧
        (users.getById uid).any (UserRecord.scanned gid flag) = true := by
  have sound := users.sound
  let ids := (range users.registry.max).filter fun id =>
    (users.registry.lookup id).any (UserRecord.scanned gid flag)
  have few : ids.length ≤ users.registry.max :=
    (length_filter_le _ _).trans_eq length_range
  have members : ∀ uid, uid ∈ ids ↔ uid < users.registry.max ∧
      (users.getById uid).any (UserRecord.scanned gid flag) = true := by
    intro uid
    rw [mem_filter, mem_range, getById_eq]
  obtain ⟨rest, cells, _⟩ := Registry.listed_cells few
  refine ⟨_, ids, ?_, idsListed_append ?_ rest, nodup_range.filter _, members⟩
  · rw [groupListUsers, if_neg registered, sound.listWhere_eq _ _ (Nat.le_refl _), ← cells]
    rfl
  · intro id member
    have below := ((members id).mp member).1
    have small := sound.max_lt_invalid
    omega

end Views

/-- The two views of a group agree for a flag exactly if no user with the flag has the group
in an unused cell only, and none at the maximum index is in the group. -/
theorem group_views_agree_iff (users : Accounts) (groups : GroupTable) (gid : UInt32)
    (flag : Char) (registered : groups.getById gid.toNat ≠ none) :
    ViewsAgree users groups gid flag ↔
      ∀ uid user, users.getById uid = some user → user.flagged flag = true →
        (uid < users.registry.max → gid ∈ user.groups.unused → gid ∈ user.groups.members) ∧
        (uid = users.registry.max → gid ∉ user.groups.members) := by
  obtain ⟨list, ids, done, read, distinct, listed⟩ :=
    listed_of_registered users registered flag
  constructor
  · rintro ⟨_, _, done', read', _, all⟩ uid user found has
    cases done.symm.trans done'
    cases read.symm.trans read'
    refine ⟨fun below unused => ?_, fun last member => ?_⟩
    · have scanned := (scanned_iff user).mpr ⟨.inr unused, has⟩
      obtain ⟨_, found', one, _⟩ := (all uid).mp ((listed uid).mpr ⟨below, by
        rw [found]
        exact scanned⟩)
      cases found.symm.trans found'
      exact (isUserInGroup_eq_one user).mp one
    · have inside := (all uid).mpr ⟨user, found, (isUserInGroup_eq_one user).mpr member, has⟩
      exact Nat.ne_of_lt ((listed uid).mp inside).1 last
  · intro clean
    refine ⟨list, ids, done, read, distinct, fun uid => ?_⟩
    rw [listed]
    constructor
    · rintro ⟨below, scanned⟩
      cases found : users.getById uid with
      | none =>
        rw [found] at scanned
        cases scanned
      | some user =>
        rw [found] at scanned
        obtain ⟨held, has⟩ := (scanned_iff user).mp scanned
        refine ⟨user, rfl, (isUserInGroup_eq_one user).mpr ?_, has⟩
        exact held.elim id ((clean uid user found has).1 below)
    · rintro ⟨user, found, one, has⟩
      have member := (isUserInGroup_eq_one user).mp one
      have under : uid ≤ users.registry.max := by
        by_contra beyond
        rw [getById_eq, users.sound.lookup_of_max_lt (Nat.not_le.mp beyond)] at found
        cases found
      refine ⟨Nat.lt_of_le_of_ne under fun last => (clean uid user found has).2 last member, ?_⟩
      rw [found]
      exact (scanned_iff user).mpr ⟨.inl member, has⟩

theorem group_views_agree_iff_single :
    ViewsAgree (.only { uid := 1, groups := .single 1 }) (.only { gid := 1 }) 1 '\x00' := by
  refine (group_views_agree_iff _ _ 1 '\x00' (by decide)).mpr fun uid user found _ => ?_
  rw [eq_of_getById_only found]
  refine ⟨fun _ unused => absurd unused (by decide), fun last => ?_⟩
  rw [← id_of_getById found, eq_of_getById_only found] at last
  exact absurd last (by decide)

/-- The groups of a user who was in group 1, joined 2 and 3, and left 1 and 3. -/
def leftGroups : GroupArray := ⟨1, 2 :: 0 :: 3 :: replicate 29 0, by decide⟩

/-- A group that the user has left is still in a cell. -/
theorem group_views_disagree :
    [GroupOp.changegrp [some 2, some 3], .change (some 1), .change (some 3)].foldlM GroupOp.run
        (.single 1) = some leftGroups ∧
      isUserInGroup { uid := 1, groups := leftGroups } 3 = 0 ∧
      ¬ViewsAgree (.only { uid := 1, groups := leftGroups }) (.only { gid := 3 }) 3 '\x00' := by
  refine ⟨by decide, by decide, ?_⟩
  rintro ⟨_, _, done, read, _, all⟩
  have registered : (only { gid := 3 } : GroupTable).getById (3 : UInt32).toNat ≠ none := by
    decide
  obtain ⟨_, _, done', read', _, listed⟩ :=
    listed_of_registered (.only { uid := 1, groups := leftGroups }) registered '\x00'
  cases done'.symm.trans done
  cases read'.symm.trans read
  obtain ⟨_, found, one, _⟩ := (all 1).mp ((listed 1).mpr ⟨by decide, by decide⟩)
  rw [eq_of_getById_only found] at one
  exact absurd one (by decide)

end Wzdftpd
