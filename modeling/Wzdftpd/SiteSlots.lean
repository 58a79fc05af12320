import Wzdftpd.SiteBooks

/- The user slots of group admins under SITE ADDUSER, DELUSER and READDUSER. A live account
that an admin has created stands for a slot. -/
namespace Wzdftpd

open Function List Option Site UserRecord

def UserRecord.livesFor (uid : Nat) (user : UserRecord) : Bool :=
  user.creator.toNat = uid ∧ user.has 'D' = false

/-- The slots of an admin and the number of live accounts that the admin has created. -/
def Site.userSlotSum (site : Site) (uid : Nat) : Nat :=
  site.book (fun user => user.userSlots.toNat) (livesFor uid) uid

def Site.gadmin (site : Site) (uid : Nat) : Bool := (site.user uid).any fun user => user.has 'G'

/-- What an admin's own accounts look like. -/
def OwnFits (g user : UserRecord) : Prop :=
  g.has 'G' = true → user.creator = g.uid → g.sameGroup user = true ∧ user.has 'D' = false

/-- The accounts of an admin are live and in the admin's group. -/
def Site.Owned (site : Site) : Prop :=
  ∀ uid g, site.user uid = some g → ∀ uid' user, site.user uid' = some user → OwnFits g user

/-- The accounts after a command: nobody is gone, the admins are the same ones, and their
sums are. -/
structure SlotsKept (before after : Site) : Prop where
  owned : after.Owned
  stays : ∀ uid, (before.user uid).isSome → (after.user uid).isSome
  gadmins : after.gadmin = before.gadmin
  sums : ∀ uid, before.gadmin uid = true → after.userSlotSum uid = before.userSlotSum uid

/-- A command that moves user slots. -/
def SiteCommand.movesUserSlots : SiteCommand → Bool
  | .adduser _ | .deluser _ | .readduser _ => true
  | _ => false

/-- The new account gets a slot of the table that is free, and a user that is undeleted
was marked once. -/
def SlotSafe (w : SiteWorld) (site : Site) (caller : Caller) : SiteCommand → Prop
  | .adduser line => ∀ me record, site.user caller.userid = some me →
      adduserRecord site line me = .ok record →
        ∃ answer, backendCreate w site record = some answer ∧
        ∀ newuser created, answer = some (newuser, created) → site.user newuser.id = none
  | .readduser line => ∀ me user, site.user caller.userid = some me →
      readduserTarget site line me = .ok user → user.flags.count 'D' = 1
  | _ => True

/-- A start at which the accounts of an admin are in the admin's group, a deleted one is
nobody's, and the sums fit the counters. -/
structure Site.SlotStart (start : Site) : Prop where
  shared : ∀ uid g, start.user uid = some g → g.has 'G' = true → ∀ uid' user,
    start.user uid' = some user → user.creator = g.uid → g.sameGroup user = true
  deleted : ∀ uid user, start.user uid = some user → user.has 'D' = true →
    user.creator = 0xffffffff
  small : ∀ uid, start.gadmin uid = true → start.userSlotSum uid < 2 ^ 16

section

variable {site : Site} {user edited g other : UserRecord} {uid : Nat}

theorem OwnFits.of_eq (fits : OwnFits g user) (uid : other.uid = g.uid)
    (groups : other.groups = g.groups) (gadmin : other.has 'G' = g.has 'G') :
    OwnFits other user := by
  intro admin creator
  rw [UserRecord.sameGroup, groups]
  exact fits (gadmin.symm.trans admin) (creator.trans uid)

theorem Site.Owned.put (owned : site.Owned) (known : site.user user.id = some user)
    (uid : edited.uid = user.uid) (groups : edited.groups = user.groups)
    (gadmin : edited.has 'G' = user.has 'G')
    (fits : ∀ uid g, site.user uid = some g → OwnFits g edited) : (site.put edited).Owned := by
  intro idG g here idU other there
  -- an admin who was edited is the same admin
  have admin : ∃ old, site.user idG = some old ∧ g.uid = old.uid ∧ g.groups = old.groups ∧
      g.has 'G' = old.has 'G' := by
    rcases user_of_update (user_put known uid) here with ⟨rfl, rfl⟩ | ⟨_, before⟩
    · exact ⟨user, known, uid, groups, gadmin⟩
    · exact ⟨g, before, rfl, rfl, rfl⟩
  obtain ⟨old, before, sameUid, sameGroups, sameFlag⟩ := admin
  apply OwnFits.of_eq _ sameUid sameGroups sameFlag
  rcases user_of_update (user_put known uid) there with ⟨_, rfl⟩ | ⟨_, unchanged⟩
  · exact fits idG old before
  · exact owned idG old before idU other unchanged

theorem Site.Owned.put_same (owned : site.Owned) (known : site.user user.id = some user)
    (uid : edited.uid = user.uid) (groups : edited.groups = user.groups)
    (flags : edited.flags = user.flags) (creator : edited.creator = user.creator) :
    (site.put edited).Owned := by
  apply owned.put known uid groups (has_eq flags 'G')
  intro id g here admin own
  rw [sameGroup_eq groups, has_eq flags]
  exact owned id g here user.id user known admin (creator.symm.trans own)

theorem Site.gadmin_put (known : site.user user.id = some user) (uid : edited.uid = user.uid)
    (gadmin : edited.has 'G' = user.has 'G') : (site.put edited).gadmin = site.gadmin := by
  funext id
  unfold Site.gadmin
  rw [user_put known uid]
  by_cases own : id = user.id
  · simp [own, known, gadmin]
  · rw [update_of_ne own]

theorem Site.stays_put (known : site.user user.id = some user) (uid : edited.uid = user.uid)
    {id : Nat} (here : (site.user id).isSome) : ((site.put edited).user id).isSome := by
  obtain ⟨_, here⟩ := isSome_iff_exists.mp here
  obtain ⟨_, there, _⟩ := user_put_caller known uid here
  exact isSome_of_eq_some there

def UserRecord.slotsAt (user : UserRecord) (uid : Nat) : Nat :=
  if user.id = uid then user.userSlots.toNat else 0

def UserRecord.slotEntry (user : UserRecord) (uid : Nat) : Nat :=
  user.slotsAt uid + (user.livesFor uid).toNat

theorem UserRecord.slotsAt_eq (same : other.uid = user.uid)
    (slots : other.userSlots = user.userSlots) : other.slotsAt = user.slotsAt := by
  funext uid
  rw [slotsAt, id_eq same, slots, slotsAt]

theorem UserRecord.livesFor_of_ne (user : UserRecord) {uid : Nat}
    (other : user.creator.toNat ≠ uid) : user.livesFor uid = false :=
  decide_eq_false fun both => other both.1

theorem UserRecord.livesFor_of_deleted (deleted : user.has 'D' = true) (uid : Nat) :
    user.livesFor uid = false := by
  apply decide_eq_false
  rintro ⟨_, live⟩
  cases deleted.symm.trans live

theorem UserRecord.livesFor_of_live (live : user.has 'D' = false) (uid : Nat) :
    (user.livesFor uid).toNat = if user.creator.toNat = uid then 1 else 0 := by
  unfold livesFor
  split_ifs with own
  · rw [decide_eq_true ⟨own, live⟩, Bool.toNat_true]
  · rw [decide_eq_false fun both => own both.1, Bool.toNat_false]

theorem UserRecord.slotEntry_gain (room : user.id = uid → user.userSlots.toNat + 1 < 2 ^ 16) :
    user.gainUserSlot.slotEntry uid = user.slotEntry uid + if user.id = uid then 1 else 0 := by
  change (if user.id = uid then (user.userSlots + 1).toNat else 0) + (user.livesFor uid).toNat =
    (if user.id = uid then user.userSlots.toNat else 0) + (user.livesFor uid).toNat + _
  split_ifs with own
  · have more := UInt16.toNat_add user.userSlots 1
    change _ = (_ + 1) % 2 ^ 16 at more
    omega
  · omega

theorem UserRecord.slotEntry_pay (some : user.userSlots ≠ 0) (uid : Nat) :
    user.payUserSlot.slotEntry uid + (if user.id = uid then 1 else 0) = user.slotEntry uid := by
  change (if user.id = uid then (user.userSlots - 1).toNat else 0) + (user.livesFor uid).toNat + _ =
    (if user.id = uid then user.userSlots.toNat else 0) + (user.livesFor uid).toNat
  have positive : 1 ≤ user.userSlots.toNat := by
    rw [Nat.one_le_iff_ne_zero]
    exact fun zero => some (UInt16.toNat_inj.mp zero)
  split_ifs with own
  · have less := UInt16.toNat_sub_of_le user.userSlots 1 (UInt16.le_iff_toNat_le.mpr positive)
    change _ = _ - 1 at less
    omega
  · omega

theorem SlotsKept.putTwice {now paid : UserRecord} {id : Nat}
    (known : site.user user.id = some user) (uid : edited.uid = user.uid)
    (gadmin : edited.has 'G' = user.has 'G') (there : (site.put edited).user id = some now)
    (paidUid : paid.uid = now.uid) (paidFlags : paid.flags = now.flags)
    (paidGroups : paid.groups = now.groups) (paidCreator : paid.creator = now.creator)
    (owned : (site.put edited).Owned)
    (entries : ∀ g, site.gadmin g = true →
      edited.slotEntry g + paid.slotEntry g = user.slotEntry g + now.slotEntry g) :
    SlotsKept site ((site.put edited).put paid) := by
  have found := user_of_user there
  refine ⟨owned.put_same found paidUid paidGroups paidFlags paidCreator, fun id here => ?_, ?_,
    fun g admin => ?_⟩
  · exact stays_put found paidUid (stays_put known uid here)
  · rw [gadmin_put found paidUid (has_eq paidFlags 'G'), gadmin_put known uid gadmin]
  have first : (site.put edited).userSlotSum g + user.slotEntry g =
      site.userSlotSum g + edited.slotEntry g := book_put known uid
  have second : ((site.put edited).put paid).userSlotSum g + now.slotEntry g =
      (site.put edited).userSlotSum g + paid.slotEntry g := book_put found paidUid
  have moved := entries g admin
  omega

theorem SlotsKept.put (known : site.user user.id = some user) (uid : edited.uid = user.uid)
    (gadmin : edited.has 'G' = user.has 'G') (owned : (site.put edited).Owned)
    (entries : ∀ g, site.gadmin g = true → edited.slotEntry g = user.slotEntry g) :
    SlotsKept site (site.put edited) := by
  refine ⟨owned, fun id here => stays_put known uid here, gadmin_put known uid gadmin,
    fun g admin => ?_⟩
  have sum : (site.put edited).userSlotSum g + user.slotEntry g =
      site.userSlotSum g + edited.slotEntry g := book_put known uid
  rw [entries g admin] at sum
  omega

theorem Site.gadmin_iff : site.gadmin uid = true ↔
    ∃ g, site.user uid = some g ∧ g.has 'G' = true := by
  unfold gadmin
  cases site.user uid with
  | none => simp
  | some g => simp

theorem Site.Owned.fits_creator (owned : site.Owned) (known : site.user user.id = some user)
    (admin : site.gadmin user.creator.toNat = true) :
    ∃ g, site.user user.creator.toNat = some g ∧ g.sameGroup user = true ∧
      user.has 'D' = false := by
  obtain ⟨g, here, gadmin⟩ := gadmin_iff.mp admin
  have uid : user.creator = g.uid := UInt32.toNat_inj.mp (id_of_user here).symm
  exact ⟨g, here, owned _ g here _ user known gadmin uid⟩

theorem UserRecord.has_marked (user : UserRecord) : user.marked.has 'D' = true :=
  decide_eq_true (mem_append_right user.flags mem_cons_self)

theorem UserRecord.has_marked_of_ne (user : UserRecord) {flag : Char} (other : flag ≠ 'D') :
    user.marked.has flag = user.has flag := by
  unfold has marked
  simp [other]

theorem UserRecord.has_unmarked_of_ne (user : UserRecord) {flag : Char} (other : flag ≠ 'D') :
    user.unmarked.has flag = user.has flag := by
  unfold has unmarked
  simp only [mem_erase_of_ne other]

theorem UserRecord.has_unmarked (once : user.flags.count 'D' = 1) :
    user.unmarked.has 'D' = false := by
  apply decide_eq_false
  intro member
  have left := count_pos_iff.mpr member
  change 0 < (user.flags.erase 'D').count 'D' at left
  rw [count_erase_self, once] at left
  omega

theorem Site.Owned.not_gadmin_of_alone (owned : site.Owned) (known : site.user user.id = some user)
    (alone : refundTo (site.put user.marked) user.marked = none) :
    site.gadmin user.creator.toNat = false := by
  rw [← Bool.not_eq_true]
  intro admin
  obtain ⟨g, here, group, _⟩ := owned.fits_creator known admin
  rw [UserRecord.sameGroup, decide_eq_true_eq] at group
  have none := filter_eq_none_iff.mp alone
  by_cases oneself : user.creator.toNat = user.id
  · have itself := user_put_self known user.uid_marked
    rw [← oneself] at itself
    exact none user.marked itself (decide_eq_true rfl)
  · have creator := user_put_of_ne known user.uid_marked oneself
    exact none g (creator.trans here) (decide_eq_true group.2.2)

theorem Site.gadmin_of_creator (here : site.user uid = some g)
    (gadmin : g.has 'G' = true) (own : user.creator = g.uid) :
    site.gadmin user.creator.toNat = true := by
  refine gadmin_iff.mpr ⟨g, ?_, gadmin⟩
  rw [own]
  exact user_of_user here

theorem fits_of_not_gadmin (creator : site.gadmin user.creator.toNat = false)
    (here : site.user uid = some g) : OwnFits g user := by
  intro gadmin own
  rw [gadmin_of_creator here gadmin own] at creator
  cases creator

theorem Site.ne_of_gadmin {id uid : Nat} (ordinary : site.gadmin id = false)
    (admin : site.gadmin uid = true) : id ≠ uid := by
  rintro rfl
  cases ordinary.symm.trans admin

/-- A change of an account that is no admin's. -/
theorem Site.Owned.putUnowned (owned : site.Owned) (known : site.user user.id = some user)
    (unowned : site.gadmin user.creator.toNat = false) (uid : edited.uid = user.uid)
    (groups : edited.groups = user.groups) (gadmin : edited.has 'G' = user.has 'G')
    (slots : edited.userSlots = user.userSlots) (creator : edited.creator = user.creator) :
    SlotsKept site (site.put edited) := by
  rw [← creator] at unowned
  refine SlotsKept.put known uid gadmin (owned.put known uid groups gadmin ?_) fun g admin => ?_
  · exact fun _ _ here => fits_of_not_gadmin unowned here
  · have other := ne_of_gadmin unowned admin
    rw [slotEntry, slotEntry, edited.livesFor_of_ne other,
      user.livesFor_of_ne (creator ▸ other), slotsAt_eq uid slots]

theorem Site.userSlots_le (known : site.user user.id = some user) :
    user.userSlots.toNat ≤ site.userSlotSum user.id := by
  unfold userSlotSum book
  rw [known]
  exact Nat.le_add_right _ _

theorem Site.invalid_not_gadmin : site.gadmin (0xffffffff : UInt32).toNat = false := by
  rw [← Bool.not_eq_true]
  intro admin
  obtain ⟨_, here, _⟩ := gadmin_iff.mp admin
  exact absurd (id_lt_invalid here) (by decide)

theorem Site.Owned.deletedRefund {creator now : UserRecord} (owned : site.Owned)
    (known : site.user user.id = some user) (live : user.has 'D' = false)
    (small : ∀ uid, site.gadmin uid = true → site.userSlotSum uid < 2 ^ 16)
    (refund : refundTo (site.put user.marked) user.marked = some creator)
    (there : ((site.put user.marked).put (user.marked.ownedBy 0xffffffff)).user creator.id =
      some now) :
    SlotsKept site (((site.put user.marked).put (user.marked.ownedBy 0xffffffff)).put
      now.gainUserSlot) := by
  rw [put_put (user.marked.uid_ownedBy _)] at there ⊢
  have uid : (user.marked.ownedBy 0xffffffff).uid = user.uid := rfl
  have deleted : (user.marked.ownedBy 0xffffffff).has 'D' = true := user.has_marked
  have flag : (user.marked.ownedBy 0xffffffff).has 'G' = user.has 'G' :=
    user.has_marked_of_ne (by decide)
  have slots : (user.marked.ownedBy 0xffffffff).slotsAt = user.slotsAt :=
    slotsAt_eq uid rfl
  have cleared : (site.put (user.marked.ownedBy 0xffffffff)).Owned := by
    apply owned.put known uid rfl flag
    exact fun _ _ here => fits_of_not_gadmin invalid_not_gadmin here
  obtain ⟨_, creatorId, _⟩ := refundTo_ok refund
  have nowId : now.id = user.creator.toNat := (id_of_user there).trans creatorId
  refine SlotsKept.putTwice known uid flag there now.uid_gainUserSlot rfl rfl rfl cleared ?_
  intro g admin
  have paid : (user.marked.ownedBy 0xffffffff).slotEntry g +
      (if now.id = g then 1 else 0) = user.slotEntry g := by
    rw [slotEntry, slots, livesFor_of_deleted deleted, slotEntry,
      livesFor_of_live live, nowId, Bool.toNat_false, Nat.add_zero]
  have room : now.id = g → now.userSlots.toNat + 1 < 2 ^ 16 := by
    rintro rfl
    have sum : (site.put (user.marked.ownedBy 0xffffffff)).userSlotSum now.id +
        user.slotEntry now.id = site.userSlotSum now.id +
          (user.marked.ownedBy 0xffffffff).slotEntry now.id := book_put known uid
    have most := userSlots_le (user_of_user there)
    have bound := small now.id admin
    rw [if_pos rfl] at paid
    omega
  rw [slotEntry_gain room]
  omega

/-- The account that an admin gets, by SITE ADDUSER or by SITE READDUSER. -/
theorem fits_of_paid {me : UserRecord} {caller : Caller} (here : site.user caller.userid = some me)
    (creator : user.creator = me.uid) (group : me.sameGroup user = true)
    (live : user.has 'D' = false) {uid : Nat} (found : site.user uid = some g) :
    OwnFits g user := by
  intro _ own
  have same : g.uid = me.uid := own.symm.trans creator
  have id : uid = caller.userid := by
    rw [← id_of_user found, ← id_of_user here, UserRecord.id_eq same]
  rw [id] at found
  cases here.symm.trans found
  exact ⟨group, live⟩

theorem Site.Owned.not_gadmin_of_deleted (owned : site.Owned)
    (known : site.user user.id = some user) (deleted : user.has 'D' = true) :
    site.gadmin user.creator.toNat = false := by
  rw [← Bool.not_eq_true]
  intro admin
  obtain ⟨_, _, _, live⟩ := owned.fits_creator known admin
  cases deleted.symm.trans live

/-- An account of another admin, or a deleted one, is paid for with a slot. -/
theorem Site.Owned.paid {caller : Caller} {me now : UserRecord} (owned : site.Owned)
    (here : site.user caller.userid = some me) (known : site.user user.id = some user)
    (uid : edited.uid = user.uid) (groups : edited.groups = user.groups)
    (gadmin : edited.has 'G' = user.has 'G') (same : edited.userSlots = user.userSlots)
    (creator : edited.creator = me.uid) (live : edited.has 'D' = false)
    (group : me.sameGroup user = true)
    (free : ∀ g, site.gadmin g = true → user.livesFor g = false)
    (there : (site.put edited).user caller.userid = some now) (slots : me.userSlots ≠ 0) :
    SlotsKept site ((site.put edited).put now.payUserSlot) := by
  have nowId : now.id = edited.creator.toNat := by
    rw [id_of_user there, creator]
    exact (id_of_user here).symm
  have nowSlots : now.userSlots ≠ 0 := by
    obtain ⟨_, found, either⟩ := user_put_caller known uid here
    cases found.symm.trans there
    rcases either with ⟨rfl, rfl⟩ | rfl
    · rwa [same]
    · exact slots
  have kept : (site.put edited).Owned := by
    apply owned.put known uid groups gadmin
    intro id g found
    exact fits_of_paid here creator ((sameGroup_eq groups).trans group) live found
  refine SlotsKept.putTwice known uid gadmin there now.uid_payUserSlot rfl rfl rfl kept ?_
  intro g admin
  have gained : edited.slotEntry g = user.slotEntry g + if now.id = g then 1 else 0 := by
    rw [slotEntry, slotsAt_eq uid same, livesFor_of_live live,
      slotEntry, free g admin, Bool.toNat_false, nowId, Nat.add_zero]
  have lost := slotEntry_pay nowSlots g
  omega

theorem SlotsKept.trans {first second third : Site} (one : SlotsKept first second)
    (two : SlotsKept second third) : SlotsKept first third := by
  refine ⟨two.owned, fun uid here => two.stays uid (one.stays uid here),
    two.gadmins.trans one.gadmins, fun uid admin => ?_⟩
  rw [two.sums uid (one.gadmins ▸ admin), one.sums uid admin]

theorem SlotsKept.of_users {before between after : Site} (kept : SlotsKept before between)
    (same : after.users = between.users) : SlotsKept before after := by
  obtain ⟨owned, stays, gadmins, sums⟩ := kept
  unfold Owned gadmin userSlotSum book user at *
  rw [← same] at owned stays gadmins sums
  exact ⟨owned, stays, gadmins, sums⟩

theorem SlotsKept.refl (owned : site.Owned) : SlotsKept site site :=
  ⟨owned, fun _ here => here, rfl, fun _ _ => rfl⟩

theorem Site.Owned.created {created : Site} {newuser : UserRecord} (owned : site.Owned)
    (free : site.user newuser.id = none) (flags : newuser.flags = [])
    (creator : newuser.creator = 0xffffffff)
    (lookup : created.user = update site.user newuser.id (some newuser))
    (total : ∀ weight : UserRecord → Nat,
      created.users.total weight + Tally.cell weight (site.user newuser.id) =
        site.users.total weight + weight newuser) : SlotsKept site created := by
  have plain : newuser.has 'G' = false := by
    rw [has, flags]
    rfl
  have other : ∀ uid, (site.user uid).isSome → uid ≠ newuser.id := by
    rintro uid here rfl
    rw [free] at here
    cases here
  refine ⟨?_, fun uid here => ?_, ?_, fun uid admin => ?_⟩
  · intro idG g here idU user there gadmin own
    have valid := id_lt_invalid here
    rcases user_of_update lookup here with ⟨_, rfl⟩ | ⟨_, here⟩
    · cases plain.symm.trans gadmin
    rcases user_of_update lookup there with ⟨_, rfl⟩ | ⟨_, there⟩
    · rw [← id_of_user here, UserRecord.id, ← own, creator] at valid
      exact absurd valid (by decide)
    · exact owned idG g here idU user there gadmin own
  · rw [lookup, update_of_ne (other uid here)]
    exact here
  · funext uid
    unfold gadmin
    rw [lookup]
    by_cases own : uid = newuser.id
    · simp [own, free, plain]
    · rw [update_of_ne own]
  · have sum : created.userSlotSum uid = site.userSlotSum uid + newuser.slotEntry uid :=
      book_created free lookup total
    obtain ⟨g, here, _⟩ := gadmin_iff.mp admin
    have apart : newuser.id ≠ uid := (other uid (here ▸ rfl)).symm
    have unowned : newuser.creator.toNat ≠ uid := by
      rw [creator]
      exact ne_of_gadmin invalid_not_gadmin admin
    rw [sum, slotEntry, slotsAt, if_neg apart,
      newuser.livesFor_of_ne unowned]
    rfl

variable {w : SiteWorld} {caller : Caller} {me : UserRecord} {line : Text}

/-- The three commands return if the new account does not take the caller's slot. -/
theorem adduser_returns (here : site.user caller.userid = some me)
    (safe : SlotSafe w site caller (.adduser line)) :
    ∃ done, doSiteAdduser w caller line site = some done := by
  cases passed : adduserRecord site line me with
  | error reply => exact ⟨_, by rw [doSiteAdduser, serve, here, bind_some, passed]⟩
  | ok record =>
    obtain ⟨answer, stored, free⟩ := safe me record here passed
    rw [doSiteAdduser, serve_of_ok here passed, stored, bind_some]
    cases answer with
    | none => exact ⟨_, rfl⟩
    | some made =>
      obtain ⟨newuser, created⟩ := made
      obtain ⟨_, _, _, lookup, _⟩ := backendCreate_ok stored
      have apart : newuser.id ≠ caller.userid := by
        intro taken
        have empty := free newuser created rfl
        rw [taken, here] at empty
        cases empty
      have known := backendCreate_user stored
      have own : created.user caller.userid = some me := by
        rw [lookup, update_of_ne apart.symm, here]
      simp only [apart, if_false]
      split_ifs
      · obtain ⟨now, there, _⟩ := user_put_caller known (newuser.uid_ownedBy _) own
        exact ⟨_, map_eq_some_iff.mpr ⟨now, there, rfl⟩⟩
      · exact ⟨_, rfl⟩

theorem deluser_returns (here : site.user caller.userid = some me) :
    ∃ done, doSiteDeluser w caller line site = some done := by
  cases passed : deluserTarget site line me with
  | error reply => exact ⟨_, by rw [doSiteDeluser, serve, here, bind_some, passed]⟩
  | ok user =>
    have known := (deluserTarget_ok passed).1.known
    have marked := user_put_self known user.uid_marked
    rw [doSiteDeluser, serve_of_ok here passed]
    simp only
    split
    · exact ⟨_, rfl⟩
    split
    · exact ⟨_, rfl⟩
    rename_i creator refund
    obtain ⟨now, there, _⟩ :=
      user_put_caller marked (user.marked.uid_ownedBy _) (refundTo_ok refund).1
    exact ⟨_, map_eq_some_iff.mpr ⟨now, there, rfl⟩⟩

theorem readduser_returns (here : site.user caller.userid = some me) :
    ∃ done, doSiteReadduser w caller line site = some done := by
  cases passed : readduserTarget site line me with
  | error reply => exact ⟨_, by rw [doSiteReadduser, serve, here, bind_some, passed]⟩
  | ok user =>
    have known := (readduserTarget_ok passed).1.known
    rw [doSiteReadduser, serve_of_ok here passed]
    simp only
    split_ifs
    · have uid : (user.unmarked.ownedBy me.uid).uid = user.uid := rfl
      obtain ⟨now, there, _⟩ := user_put_caller known uid here
      exact ⟨_, map_eq_some_iff.mpr ⟨now, there, rfl⟩⟩
    · exact ⟨_, rfl⟩
    · exact ⟨_, rfl⟩

theorem Site.Owned.added {record newuser : UserRecord} {created : Site} (owned : site.Owned)
    (safe : SlotSafe w site caller (.adduser line)) (here : site.user caller.userid = some me)
    (passed : adduserRecord site line me = .ok record)
    (stored : backendCreate w site record = some (some (newuser, created))) :
    newuser.flags = [] ∧ newuser.creator = 0xffffffff ∧ SlotsKept site created := by
  have fresh := adduserRecord_ok passed
  obtain ⟨⟨hash, uid, made⟩, _, _, lookup, total⟩ := backendCreate_ok stored
  obtain ⟨answer, again, empty⟩ := safe me record here passed
  cases stored.symm.trans again
  have flags : newuser.flags = [] := by rw [made, fresh.flags]
  have creator : newuser.creator = 0xffffffff := by rw [made, fresh.creator]
  exact ⟨flags, creator, owned.created (empty newuser created rfl) flags creator lookup total⟩

/-- One command keeps the sums. -/
theorem slot_step {command : SiteCommand} (moves : command.movesUserSlots = true)
    (commits : ∀ user, w.commits user = true) (owned : site.Owned)
    (small : ∀ uid, site.gadmin uid = true → site.userSlotSum uid < 2 ^ 16)
    (here : site.user caller.userid = some me) (safe : SlotSafe w site caller command) :
    ∃ done, command.run w caller site = some done ∧ SlotsKept site done.site := by
  have returned : ∃ done, command.run w caller site = some done := by
    cases command with
    | adduser line => exact adduser_returns here safe
    | deluser line => exact deluser_returns here
    | readduser line => exact readduser_returns here
    | _ => cases moves
  obtain ⟨done, ran⟩ := returned
  refine ⟨done, ran, ?_⟩
  have effect := SiteCommand.effect ran
  generalize same : done.site.users = users at effect
  generalize done.job = job at effect
  cases effect with
  | nothing => exact (SlotsKept.refl owned).of_users same
  | added own passed stored =>
    obtain ⟨_, _, kept⟩ := owned.added safe own passed stored
    exact kept.of_users same
  | @addedPaid line me' now record newuser created own passed stored gadmin apart there =>
    have fresh := adduserRecord_ok passed
    obtain ⟨⟨hash, uid, made⟩, _, _, lookup, _⟩ := backendCreate_ok stored
    obtain ⟨flags, creator, first⟩ := owned.added safe own passed stored
    have group : me'.sameGroup newuser = true := by
      rw [made]
      exact fresh.group gadmin
    have known := backendCreate_user stored
    have caller' : created.user caller.userid = some me' := by
      rw [lookup, update_of_ne apart.symm, own]
    have live : newuser.has 'D' = false := by
      rw [has, flags]
      rfl
    have second : SlotsKept created
        ((created.put (newuser.ownedBy me'.uid)).put now.payUserSlot) := by
      refine first.owned.paid caller' known (newuser.uid_ownedBy _) rfl rfl rfl rfl live group
        (fun g admin => newuser.livesFor_of_ne ?_) there (fresh.slots gadmin)
      rw [creator]
      exact ne_of_gadmin invalid_not_gadmin admin
    exact (first.trans second).of_users same
  | deleted own passed alone =>
    have known := (deluserTarget_ok passed).1.known
    have unowned := owned.not_gadmin_of_alone known (alone (commits _))
    exact (owned.putUnowned known unowned (uid_marked _) rfl
      (has_marked_of_ne _ (by decide)) rfl rfl).of_users same
  | deletedRefund own passed taken refund there =>
    obtain ⟨target, live⟩ := deluserTarget_ok passed
    exact (owned.deletedRefund target.known live small refund there).of_users same
  | readded own passed free =>
    obtain ⟨target, deleted, _⟩ := readduserTarget_ok passed
    have unowned := owned.not_gadmin_of_deleted target.known deleted
    exact (owned.putUnowned target.known unowned (uid_unmarked _) rfl
      (has_unmarked_of_ne _ (by decide)) rfl rfl).of_users same
  | @readdedPaid line me' user now own passed gadmin taken there =>
    obtain ⟨target, deleted, slots⟩ := readduserTarget_ok passed
    have once := safe me' user own passed
    have uid : (user.unmarked.ownedBy me'.uid).uid = user.uid := rfl
    have flag : (user.unmarked.ownedBy me'.uid).has 'G' = user.has 'G' :=
      user.has_unmarked_of_ne (by decide)
    have live : (user.unmarked.ownedBy me'.uid).has 'D' = false := has_unmarked once
    exact (owned.paid own target.known uid rfl flag rfl rfl live (target.allowed gadmin)
      (fun g _ => livesFor_of_deleted deleted g) there (slots gadmin)).of_users same
  | _ => cases moves

end

/-- The sums of all group admins are constant, and so no slot counter wraps, along every
run of commands that add users in free slots of the table and undelete users that were
marked once. -/
theorem user_slots_kept (w : SiteWorld) (start : Site) (calls : List (Caller × SiteCommand))
    (commits : ∀ user, w.commits user = true)
    (moves : ∀ call ∈ calls, call.2.movesUserSlots = true)
    (callers : ∀ call ∈ calls, ∃ me, start.user call.1.userid = some me ∧
      (me.has 'G' = true ∨ me.has 'O' = true))
    (ready : start.SlotStart)
    (safe : Runs.Always (commandStep w)
      (fun s call => ∀ site ∈ s, SlotSafe w site call.1 call.2) (some start) calls) :
    Runs.Throughout (commandStep w)
      (fun s => ∃ site, s = some site ∧ site.gadmin = start.gadmin ∧
        ∀ uid, start.gadmin uid = true → site.userSlotSum uid = start.userSlotSum uid)
      (some start) calls := by
  have owned : start.Owned := by
    intro uid g here uid' user there gadmin own
    refine ⟨ready.shared uid g here gadmin uid' user there own, ?_⟩
    rw [← Bool.not_eq_true]
    intro marked
    have admin := gadmin_of_creator here gadmin own
    rw [ready.deleted uid' user there marked] at admin
    cases admin
  have books : Runs.Throughout (commandStep w)
      (fun s => ∃ site, s = some site ∧ SlotsKept start site) (some start) calls := by
    refine Runs.throughout_of_always_mem _ _ _ calls ?_ _ ⟨start, rfl, .refl owned⟩ safe
    rintro _ call member ⟨site, rfl, kept⟩ now
    obtain ⟨_, first, _⟩ := callers call member
    have still := kept.stays call.1.userid (isSome_of_eq_some first)
    obtain ⟨me, here⟩ := isSome_iff_exists.mp still
    have bound : ∀ uid, site.gadmin uid = true → site.userSlotSum uid < 2 ^ 16 := by
      intro uid admin
      rw [kept.gadmins] at admin
      rw [kept.sums uid admin]
      exact ready.small uid admin
    obtain ⟨done, ran, step⟩ := slot_step (moves call member) commits kept.owned bound here
      (now site rfl)
    exact ⟨done.site, commandStep_some ran, kept.trans step⟩
  exact books.imp fun s ⟨site, same, kept⟩ => ⟨site, same, kept.gadmins, kept.sums⟩

def slotAdmin : UserRecord :=
  { uid := 1, username := "ann".toList, flags := ['G'], groups := .single 1, userSlots := 5 }

def slotUser : UserRecord :=
  { uid := 2, username := "bob".toList, groups := .single 1, creator := 1 }

def slotDeleted : UserRecord :=
  { uid := 3, username := "eve".toList, flags := ['D'], groups := .single 1 }

def slotSite : Site := .holding [slotAdmin, slotUser, slotDeleted] []

def slotTwiceSite : Site :=
  .holding [slotAdmin, { slotDeleted with flags := ['D', 'D'] }] []

/-- A table in which the first free uid is the one of an account at its last index. -/
def slotCrowd (id : Nat) : UserRecord :=
  { uid := UInt32.ofNat id, username := 'u' :: Nat.toDigits 10 id, groups := .single 1,
    flags := if id = 1 then ['G'] else [], userSlots := if id = 1 then 5 else 0,
    creator := if id = 255 then 1 else 0xffffffff }

def slotFullSite : Site where
  users := .full slotCrowd 255 (by decide)
    fun id small => UInt32.toNat_ofNat_of_lt' (Nat.lt_of_le_of_lt small (by decide))
  groups := Table.allocated.put { gid := 1, groupname := "one".toList }

/-- One admin for all accounts. -/
theorem slotStart_of_admin {site : Site} (admin : UserRecord)
    (each : ∀ slot ∈ site.users.registry.array, ∀ user ∈ slot,
      (user.has 'G' = true → user = admin) ∧
      (user.creator = admin.uid → admin.sameGroup user = true) ∧
      (user.has 'D' = true → user.creator = 0xffffffff))
    (small : site.userSlotSum admin.id < 2 ^ 16) : site.SlotStart := by
  have all := Accounts.All.of_array each
  refine ⟨fun uid g found gadmin uid' user there own => ?_, fun uid user found =>
    (all uid user found).2.2, fun uid isGadmin => ?_⟩
  · cases (all uid g found).1 gadmin
    exact (all uid' user there).2.1 own
  · obtain ⟨g, found, gadmin⟩ := gadmin_iff.mp isGadmin
    cases (all uid g found).1 gadmin
    rwa [← id_of_user found]

/-- The admin undeletes one user and deletes another. -/
theorem user_slots_kept_twice :
    Runs.Throughout (commandStep plainWorld)
      (fun s => ∃ site, s = some site ∧ site.gadmin = slotSite.gadmin ∧
        ∀ uid, slotSite.gadmin uid = true → site.userSlotSum uid = slotSite.userSlotSum uid)
      (some slotSite)
      [(⟨1, 1⟩, .readduser "eve".toList), (⟨1, 1⟩, .deluser "bob".toList)] := by
  have admin : slotSite.user 1 = some slotAdmin := by decide
  have target : readduserTarget slotSite "eve".toList slotAdmin = .ok slotDeleted := by
    decide
  apply user_slots_kept
  · exact fun _ => rfl
  · decide
  · intro call member
    have sender : call.1.userid = 1 := by
      rcases mem_cons.mp member with rfl | later
      · rfl
      · rw [mem_singleton.mp later]
    exact ⟨slotAdmin, by rw [sender, admin], .inl (by decide)⟩
  · exact slotStart_of_admin slotAdmin (by decide +kernel) (by decide +kernel)
  · refine ⟨fun site same me user here passed => ?_, fun _ _ => trivial, trivial⟩
    cases same
    cases admin.symm.trans here
    cases target.symm.trans passed
    decide

/-- A slot is lost with the second mark of a user, and with an account whose place in
the table goes to the new one. -/
theorem user_slots_lost :
    (slotTwiceSite.SlotStart ∧ slotTwiceSite.gadmin 1 = true ∧ slotTwiceSite.userSlotSum 1 = 5 ∧
      (doSiteReadduser plainWorld ⟨1, 1⟩ "eve".toList slotTwiceSite).map
        (fun done => done.site.userSlotSum 1) = some 4) ∧
    slotFullSite.SlotStart ∧ slotFullSite.gadmin 1 = true ∧ slotFullSite.userSlotSum 1 = 6 ∧
      (doSiteAdduser plainWorld ⟨1, 1⟩ "new pass one".toList slotFullSite).map
        (fun done => done.site.userSlotSum 1) = some 5 := by
  refine ⟨⟨?_, by decide +kernel⟩, ?_, by decide +kernel⟩
  · exact slotStart_of_admin slotAdmin (by decide +kernel) (by decide +kernel)
  · exact slotStart_of_admin (slotCrowd 1) (by decide +kernel) (by decide +kernel)

end Wzdftpd
