import Wzdftpd.GroupViews

/- SITE GRPDEL (wzd_site_group.c): the group is taken out of the records of all users that the
backend lists, and is then deleted. -/
namespace Wzdftpd

open Function List Option UserRecord

def grpdelUsage : Reply := refuse "site grpdel <group> [<backend>]"

def grpdelTarget (site : Site) (line : Text) (me : UserRecord) : Check UInt32 := do
  let (groupname, _) ← word line grpdelUsage
  let gid ← found (site.groupIdNamed groupname) (refuse "Group does not exist")
  refuseIf (me.has 'G') (refuse "Gadmin can't delete groups")
  return gid

def mainGroupWarning (user : UserRecord) : String :=
  printedTo 256 ["200-WARNING ".toList, user.username, " main group is changed !\r\n".toList]

def noGroupWarning (user : UserRecord) : String :=
  printedTo 256 ["200-WARNING ".toList, user.username, " has no group now !\r\n".toList]

/-- The loop of SITE GRPDEL on the ids of the users: what it sends and the users it leaves.
Users without groups are taken for members. -/
def grpdelLoop (gid : UInt32) : List Nat → Accounts → Option (List String × Accounts)
  | [], users => some ([], users)
  | uid :: uids, users =>
    match users.getById uid with
    | none => grpdelLoop gid uids users
    | some user =>
      if user.username = [] ∨ isUserInGroup user gid = 0 then grpdelLoop gid uids users
      else
        (user.groups.groupRemoveUser gid).bind fun removed =>
          (grpdelLoop gid uids (users.put { user with groups := removed.2 })).map fun rest =>
            ((if user.groups.first = gid then [mainGroupWarning user] else []) ++
              (if removed.2.num = 0 then [noGroupWarning user] else []) ++ rest.1, rest.2)

/-- `do_site_grpdel` -/
def doSiteGrpdel (caller : Caller) (line : Text) (site : Site) : Option Done :=
  serve site caller (grpdelTarget site line) fun _ gid =>
    ((site.users.registry.getList.bind idsListed).bind fun uids =>
      grpdelLoop gid uids site.users).map fun done =>
        ⟨[⟨200, "200-\r\n" :: done.1 ++ ["200 Group deleted\r\n"]⟩],
          { site with users := done.2, groups := site.groups.remove gid.toNat }, none⟩

/-- The user without the group. -/
def UserRecord.without (gid : UInt32) (user : UserRecord) : UserRecord :=
  { user with groups := ((user.groups.groupRemoveUser gid).map Prod.snd).getD user.groups }

/-- The user has a name, and its groups are distinct and leave a cell free. -/
structure UserRecord.Grouped (user : UserRecord) : Prop where
  named : user.username ≠ []
  distinct : user.groups.members.Nodup
  room : user.groups.num < maxGroupsPerUser

section

variable {gid : UInt32} {user : UserRecord}

theorem UserRecord.Grouped.holds (grouped : user.Grouped) :
    user.groups.Holds user.groups.members :=
  ⟨Nat.le_of_lt grouped.room, rfl, grouped.distinct⟩

theorem UserRecord.Grouped.without_absent (grouped : user.Grouped)
    (absent : gid ∉ user.groups.members) : user.without gid = user := by
  rw [without, grouped.holds.groupRemoveUser_absent absent]
  rfl

theorem UserRecord.Grouped.removed (grouped : user.Grouped) (gid : UInt32) :
    (∃ ret, user.groups.groupRemoveUser gid = some (ret, (user.without gid).groups)) ∧
      (user.without gid).groups.members = user.groups.members.erase gid ∧
      (user.without gid).Grouped := by
  have holds := grouped.holds
  by_cases present : gid ∈ user.groups.members
  · obtain ⟨after, removed, rest⟩ := holds.groupRemoveUser_present present
      (holds.length ▸ grouped.room)
    have left : user.without gid = { user with groups := after } := by
      rw [without, removed]
      rfl
    have fewer : after.num ≤ user.groups.num := by
      rw [← rest.length, ← holds.length]
      exact length_erase_le
    rw [left]
    exact ⟨⟨0, removed⟩, rest.members, grouped.named, rest.members ▸ rest.distinct,
      fewer.trans_lt grouped.room⟩
  · rw [grouped.without_absent present, erase_of_not_mem present]
    exact ⟨⟨-1, holds.groupRemoveUser_absent present⟩, rfl, grouped⟩

theorem UserRecord.Grouped.without_without (grouped : user.Grouped) :
    (user.without gid).without gid = user.without gid := by
  obtain ⟨_, members, after⟩ := grouped.removed gid
  refine after.without_absent ?_
  rw [members]
  exact grouped.distinct.not_mem_erase

/-- The loop removes the group from each user it is given. -/
theorem grpdelLoop_spec (gid : UInt32) (uids : List Nat) : ∀ (users : Accounts),
    (∀ uid user, users.getById uid = some user → user.Grouped) →
    ∃ texts after, grpdelLoop gid uids users = some (texts, after) ∧ ∀ uid,
      (uid ∈ uids → after.getById uid = (users.getById uid).map (without gid)) ∧
      (uid ∉ uids → after.getById uid = users.getById uid) := by
  induction uids with
  | nil =>
    intro users grouped
    exact ⟨[], users, rfl, fun uid => ⟨fun member => (by cases member), fun _ => rfl⟩⟩
  | cons first uids ih =>
    intro users grouped
    have go : ∀ next : Accounts, next.getById = update users.getById first
          ((users.getById first).map (without gid)) →
        ∃ texts after, grpdelLoop gid uids next = some (texts, after) ∧ ∀ uid,
          (uid ∈ first :: uids → after.getById uid = (users.getById uid).map (without gid)) ∧
          (uid ∉ first :: uids → after.getById uid = users.getById uid) := by
      intro next removed
      obtain ⟨texts, after, done, left⟩ := ih next fun uid user read => by
        rw [removed, update_apply] at read
        split at read
        · obtain ⟨old, found, rfl⟩ := map_eq_some_iff.mp read
          exact ((grouped first old found).removed gid).2.2
        · exact grouped uid user read
      refine ⟨texts, after, done, fun uid => ⟨fun member => ?_, fun absent => ?_⟩⟩
      · by_cases own : uid = first
        · by_cases again : uid ∈ uids
          · rw [(left uid).1 again, removed, own, update_self]
            cases found : users.getById first with
            | none => rfl
            | some user => exact congrArg some (grouped first user found).without_without
          · rw [(left uid).2 again, removed, own, update_self]
        · rw [(left uid).1 (mem_of_ne_of_mem own member), removed, update_of_ne own]
      · obtain ⟨other, outside⟩ := not_or.mp (mt mem_cons.mpr absent)
        rw [(left uid).2 outside, removed, update_of_ne other]
    rw [grpdelLoop]
    cases found : users.getById first with
    | none => exact go _ (by rw [found, map_none, ← found, update_eq_self])
    | some user =>
      have fine := grouped first user found
      dsimp only
      by_cases outside : user.username = [] ∨ isUserInGroup user gid = 0
      · have absent : gid ∉ user.groups.members := by
          intro member
          have one := (isUserInGroup_eq_one user).mpr member
          rw [outside.resolve_left fine.named] at one
          cases one
        rw [if_pos outside]
        refine go _ ?_
        rw [found, map_some, fine.without_absent absent, ← found, update_eq_self]
      · obtain ⟨⟨_, removed⟩, _⟩ := fine.removed gid
        have own : (user.without gid).id = first := by
          rw [← Table.id_of_getById found]
          rfl
        obtain ⟨texts, after, done, left⟩ := go (users.put (user.without gid)) (by
          rw [Table.getById_put (own ▸ found), own, found, map_some])
        have same : { user with groups := (user.without gid).groups } = user.without gid := rfl
        simp only [if_neg outside, removed, bind_some, same, done]
        exact ⟨_, after, rfl, left⟩

end

/-- SITE GRPDEL of a group takes it out of every user and leaves everything else. -/
theorem site_grpdel_removes (site : Site) (caller : Caller) (line : Text) (me : UserRecord)
    (gid : UInt32) (uids : List Nat) (known : site.user caller.userid = some me)
    (target : grpdelTarget site line me = .ok gid)
    (grouped : ∀ uid user, site.user uid = some user → user.Grouped)
    (listed : site.users.registry.getList.bind idsListed = some uids)
    (all : ∀ uid, site.user uid ≠ none → uid ∈ uids) :
    ∃ done, doSiteGrpdel caller line site = some done ∧
      done.site.groups = site.groups.remove gid.toNat ∧
      (∀ uid, site.user uid = none → done.site.user uid = none) ∧
      ∀ uid user, site.user uid = some user → ∃ after, done.site.user uid = some after ∧
        after = { user with groups := after.groups } ∧ gid ∉ after.groups.members ∧
        after.groups.members = user.groups.members.erase gid ∧
        (gid ∉ user.groups.members → after = user) := by
  obtain ⟨texts, users, done, left⟩ := grpdelLoop_spec gid uids site.users grouped
  have served : doSiteGrpdel caller line site = some
      ⟨[⟨200, "200-\r\n" :: texts ++ ["200 Group deleted\r\n"]⟩],
        { site with users := users, groups := site.groups.remove gid.toNat }, none⟩ := by
    simp [doSiteGrpdel, serve, known, target, listed, done]
  refine ⟨_, served, rfl, fun uid absent => ?_, fun uid user found => ?_⟩
  · by_cases member : uid ∈ uids
    · exact ((left uid).1 member).trans (congrArg _ absent)
    · exact ((left uid).2 member).trans absent
  have fine := grouped uid user found
  obtain ⟨_, members, _⟩ := fine.removed gid
  refine ⟨user.without gid, ?_, rfl, ?_, members, fine.without_absent⟩
  · refine ((left uid).1 (all uid ?_)).trans (congrArg _ found)
    rw [found]
    exact some_ne_none _
  · rw [members]
    exact fine.distinct.not_mem_erase

def annInStaff : UserRecord := { uid := 1, username := "ann".toList, groups := .single 1 }

def staffSite : Site where
  users := .only annInStaff
  groups := .only { gid := 1, groupname := "staff".toList }

theorem site_grpdel_removes_staff : ∃ done,
    doSiteGrpdel ⟨1, 0⟩ "staff".toList staffSite = some done ∧
      ∃ after, done.site.user 1 = some after ∧ after.groups.members = [] := by
  obtain ⟨done, served, _, _, each⟩ := site_grpdel_removes staffSite ⟨1, 0⟩ "staff".toList
    annInStaff 1 [1] (by decide) rfl
    (fun uid user found => by
      rw [Table.eq_of_getById_only found]
      exact ⟨by decide, by decide, by decide⟩) (by decide +kernel)
    (fun uid some => by
      obtain ⟨user, found⟩ := ne_none_iff_exists'.mp some
      have own := Table.id_of_getById found
      rw [Table.eq_of_getById_only found] at own
      exact mem_singleton.mpr own.symm)
  obtain ⟨after, here, _, _, members, _⟩ := each 1 annInStaff (by decide)
  exact ⟨done, served, after, here, members.trans (by decide)⟩

end Wzdftpd
