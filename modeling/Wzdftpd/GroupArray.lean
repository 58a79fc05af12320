import Wzdftpd.Runs
import Wzdftpd.SlotArray
import Mathlib.Data.UInt

/- The groups of a user (wzd_user.h): an array of MAX_GROUPS_PER_USER ids, of which the first
`group_num` are in use. -/
namespace Wzdftpd

open SlotArray List Option

/-- MAX_GROUPS_PER_USER -/
def maxGroupsPerUser : Nat := 32

/-- `group_num` and `groups`. -/
structure GroupArray where
  num : Nat
  cells : Cells UInt32 maxGroupsPerUser
  deriving DecidableEq

namespace GroupArray

def empty : GroupArray := ⟨0, replicate maxGroupsPerUser 0, length_replicate⟩

def single (gid : UInt32) : GroupArray :=
  ⟨1, (replicate maxGroupsPerUser 0).set 0 gid, by simp⟩

def members (a : GroupArray) : List UInt32 := a.cells.val.take a.num

/-- `groups[0]`, whether it is in use or not. -/
def first (a : GroupArray) : UInt32 := a.cells.val.headD 0

def primary (a : GroupArray) : Option UInt32 := if a.num = 0 then none else some a.first

/-- The body of SITE CHANGE group and of the loop of SITE CHANGEGRP. -/
def toggle (gid : UInt32) (a : GroupArray) : Option GroupArray :=
  match search a.cells.val gid a.num 0 with
  | none => none
  | some (some i) =>
    ((write a.cells i 0).bind (shift (a.num - 1 - i) i)).map
      fun cells => ⟨a.num - 1, cells⟩
  | some none => (write a.cells a.num gid).map fun cells => ⟨a.num + 1, cells⟩

/-- The loop of SITE CHANGEGRP, which ends at the first name that is no group. -/
def toggleAll : List (Option UInt32) → GroupArray → Option GroupArray
  | [], a => some a
  | none :: _, a => some a
  | some gid :: gids, a => (a.toggle gid).bind (toggleAll gids)

/-- `group_remove_user`. The loop moves one cell more than the others do. -/
def groupRemoveUser (gid : UInt32) (a : GroupArray) : Option (Int × GroupArray) :=
  if a.num = 0 then some (-1, a)
  else
    match searchLast a.cells.val gid a.num 0 none with
    | none => none
    | some none => some (-1, a)
    | some (some idx) =>
      (shift (a.num - idx) idx a.cells).map fun cells => (0, ⟨a.num - 1, cells⟩)

end GroupArray

/-- The calls that change the groups of a user. A group that does not exist is `none`. -/
inductive GroupOp where
  | change (gid : Option UInt32)
  | changegrp (gids : List (Option UInt32))
  | groupRemoveUser (gid : UInt32)
  deriving DecidableEq

def GroupOp.run (a : GroupArray) : GroupOp → Option GroupArray
  | .change none => some a
  | .change (some gid) => a.toggle gid
  | .changegrp gids => a.toggleAll gids
  | .groupRemoveUser gid => (a.groupRemoveUser gid).map Prod.snd

/-- What a toggle is for: a new group goes to the end, and the others keep their order. -/
def toggled (gid : UInt32) (groups : List UInt32) : List UInt32 :=
  if gid ∈ groups then groups.erase gid else groups ++ [gid]

def toggledAll : List (Option UInt32) → List UInt32 → List UInt32
  | [], groups => groups
  | none :: _, groups => groups
  | some gid :: gids, groups => toggledAll gids (toggled gid groups)

def GroupOp.meant (groups : List UInt32) : GroupOp → List UInt32
  | .change none => groups
  | .change (some gid) => toggled gid groups
  | .changegrp gids => toggledAll gids groups
  | .groupRemoveUser gid => groups.erase gid

/-- There is a cell for the group that a toggle adds. -/
def ToggleFits (gid : UInt32) (groups : List UInt32) : Prop :=
  gid ∈ groups ∨ groups.length < maxGroupsPerUser

def TogglesFit : List (Option UInt32) → List UInt32 → Prop
  | [], _ => True
  | none :: _, _ => True
  | some gid :: gids, groups => ToggleFits gid groups ∧ TogglesFit gids (toggled gid groups)

/-- Nothing is added to a full array, and `group_remove_user` takes nothing out of one. -/
def GroupOp.Fits (groups : List UInt32) : GroupOp → Prop
  | .change none => True
  | .change (some gid) => ToggleFits gid groups
  | .changegrp gids => TogglesFit gids groups
  | .groupRemoveUser gid => gid ∈ groups → groups.length < maxGroupsPerUser

namespace GroupArray

variable {a : GroupArray}

/-- The array holds these groups, once each and in this order. -/
structure Holds (groups : List UInt32) (a : GroupArray) : Prop where
  bounded : a.num ≤ maxGroupsPerUser
  members : a.members = groups
  distinct : groups.Nodup

variable {groups : List UInt32}

theorem Holds.length (holds : a.Holds groups) : groups.length = a.num := by
  rw [← holds.members, GroupArray.members, length_take, a.cells.property]
  exact Nat.min_eq_left holds.bounded

theorem Holds.search (holds : a.Holds groups) (gid : UInt32) :
    search a.cells.val gid a.num 0 = some (groups.idxOf? gid) := by
  rw [search_take gid (a.cells.property.symm ▸ holds.bounded), ← holds.members,
    GroupArray.members]

theorem Holds.searchLast (holds : a.Holds groups) (gid : UInt32) :
    searchLast a.cells.val gid a.num 0 none = some (groups.idxOf? gid) := by
  have distinct := holds.distinct
  rw [← holds.members] at distinct ⊢
  exact searchLast_take gid (a.cells.property.symm ▸ holds.bounded) distinct

variable {gid : UInt32}

theorem idxOf?_of_mem (present : gid ∈ groups) :
    ∃ i < groups.length, groups.idxOf? gid = some i ∧ groups.eraseIdx i = groups.erase gid := by
  have found : groups.idxOf? gid ≠ none := fun absent =>
    idxOf?_eq_none_iff.mp absent present
  obtain ⟨i, same⟩ := ne_none_iff_exists'.mp found
  have below : i < groups.length := (idxOf?_eq_some_iff.mp same).1
  refine ⟨i, below, same, ?_⟩
  rw [erase_eq_eraseIdx, same]

theorem Holds.toggle_present (holds : a.Holds groups) (present : gid ∈ groups) :
    ∃ b, a.toggle gid = some b ∧ b.Holds (groups.erase gid) := by
  obtain ⟨i, _, found, erased⟩ := idxOf?_of_mem present
  have bounded := holds.bounded
  have length := holds.length
  have written : write a.cells i 0 =
      some ⟨a.cells.val.set i 0, by rw [length_set, a.cells.property]⟩ :=
    if_pos (by omega)
  obtain ⟨cells, done, members⟩ := shift_erases
    ⟨a.cells.val.set i 0, by rw [length_set, a.cells.property]⟩
    (show i < a.num by omega) (show a.num ≤ i + (a.num - 1 - i) + 1 by omega) (by omega)
  refine ⟨⟨a.num - 1, cells⟩, ?_, ?_, ?_, holds.distinct.erase gid⟩
  · rw [toggle, holds.search, found]
    simp only [written, bind_some, done, map_some]
  · change a.num - 1 ≤ _
    omega
  · change cells.val.take (a.num - 1) = _
    rw [members, take_set, eraseIdx_set_eq, ← erased, ← holds.members, GroupArray.members]

theorem Holds.toggle_absent (holds : a.Holds groups) (absent : gid ∉ groups)
    (room : groups.length < maxGroupsPerUser) :
    ∃ b, a.toggle gid = some b ∧ b.Holds (groups ++ [gid]) := by
  have length := holds.length
  have missing : groups.idxOf? gid = none := idxOf?_eq_none_iff.mpr absent
  have inside : a.num < maxGroupsPerUser := by omega
  obtain ⟨cells, written⟩ : ∃ cells, write a.cells a.num gid = some cells :=
    ⟨_, if_pos inside⟩
  refine ⟨⟨a.num + 1, cells⟩, ?_, inside, ?_, ?_⟩
  · rw [toggle, holds.search, missing]
    simp only [written, map_some]
  · rw [← holds.members]
    exact take_write written
  · rw [nodup_append]
    refine ⟨holds.distinct, nodup_singleton gid, fun x member y same => ?_⟩
    rw [mem_singleton.mp same]
    exact fun equal => absent (equal ▸ member)

theorem Holds.toggle_full (holds : a.Holds groups) (absent : gid ∉ groups)
    (full : maxGroupsPerUser ≤ groups.length) : a.toggle gid = none := by
  have length := holds.length
  have missing : groups.idxOf? gid = none := idxOf?_eq_none_iff.mpr absent
  rw [toggle, holds.search, missing]
  simp only [write]
  rw [if_neg (by omega), map_none]

theorem Holds.toggle (holds : a.Holds groups) (fits : ToggleFits gid groups) :
    ∃ b, a.toggle gid = some b ∧ b.Holds (toggled gid groups) := by
  unfold toggled
  by_cases present : gid ∈ groups
  · rw [if_pos present]
    exact holds.toggle_present present
  · rw [if_neg present]
    exact holds.toggle_absent present (fits.resolve_left present)

theorem Holds.toggle_eq_none (holds : a.Holds groups) (beyond : ¬ToggleFits gid groups) :
    a.toggle gid = none := by
  obtain ⟨absent, full⟩ := not_or.mp beyond
  exact holds.toggle_full absent (Nat.le_of_not_lt full)

theorem num_le_of_toggle {b : GroupArray} (done : a.toggle gid = some b) :
    a.num ≤ maxGroupsPerUser := by
  unfold toggle at done
  split at done
  · cases done
  · rename_i i _
    obtain ⟨_, done, _⟩ := map_eq_some_iff.mp done
    obtain ⟨_, written, shifted⟩ := bind_eq_some_iff.mp done
    by_contra beyond
    have inside : i < maxGroupsPerUser := by
      by_contra outside
      rw [write, if_neg outside] at written
      cases written
    rw [shift_eq_none (by omega) (by omega)] at shifted
    cases shifted
  · obtain ⟨_, written, _⟩ := map_eq_some_iff.mp done
    by_contra beyond
    rw [write, if_neg (by omega)] at written
    cases written

/-- A toggle takes a group out once or adds it once. -/
theorem toggle_perm {b : GroupArray} (done : a.toggle gid = some b) :
    (gid :: b.members).Perm a.members ∨ b.members.Perm (gid :: a.members) := by
  have bounded := num_le_of_toggle done
  have read : search a.cells.val gid a.num 0 = some (a.members.idxOf? gid) :=
    search_take gid (a.cells.property.symm ▸ bounded)
  cases found : a.members.idxOf? gid with
  | none =>
    rw [toggle, read, found] at done
    obtain ⟨_, written, rfl⟩ := map_eq_some_iff.mp done
    refine .inr ?_
    change (take (a.num + 1) _).Perm _
    rw [take_write written]
    exact perm_append_singleton gid _
  | some i =>
    rw [toggle, read, found] at done
    obtain ⟨_, moved, rfl⟩ := map_eq_some_iff.mp done
    obtain ⟨cells, written, shifted⟩ := bind_eq_some_iff.mp moved
    obtain ⟨below, here, _⟩ := idxOf?_eq_some_iff.mp found
    have used : i < a.num := Nat.lt_of_lt_of_le below (length_take_le _ _)
    obtain ⟨_, same, members⟩ := shift_erases cells used
      (show a.num ≤ i + (a.num - 1 - i) + 1 by omega)
      (show i + (a.num - 1 - i) < maxGroupsPerUser by omega)
    cases same.symm.trans shifted
    have zeroed : cells.val = a.cells.val.set i 0 := by
      unfold write at written
      split at written
      · cases written
        rfl
      · cases written
    refine .inl ?_
    change (gid :: take (a.num - 1) _).Perm _
    rw [members, zeroed, take_set, eraseIdx_set_eq, ← here]
    exact getElem_cons_eraseIdx_perm below

/-- The groups that the loop of SITE CHANGEGRP comes to. -/
def reached : List (Option UInt32) → List UInt32
  | some gid :: gids => gid :: reached gids
  | _ => []

theorem toggleAll_of_reached {gids : List (Option UInt32)} (nothing : reached gids = []) :
    a.toggleAll gids = some a := by
  cases gids with
  | nil => rfl
  | cons name gids =>
    cases name with
    | none => rfl
    | some gid => cases nothing

theorem count_toggleAll {h : UInt32} (gids : List (Option UInt32)) : ∀ {a b : GroupArray},
    a.toggleAll gids = some b → h ∉ reached gids → b.members.count h = a.members.count h := by
  induction gids with
  | nil =>
    rintro a b ⟨⟩ _
    rfl
  | cons name gids ih =>
    intro a b done other
    cases name with
    | none =>
      cases done
      rfl
    | some gid =>
      obtain ⟨between, first, rest⟩ := bind_eq_some_iff.mp done
      obtain ⟨apart, later⟩ := not_or.mp (mt mem_cons.mpr other)
      rw [ih rest later]
      rcases toggle_perm first with out | added
      · rw [← out.count_eq, count_cons_of_ne (Ne.symm apart)]
      · rw [added.count_eq, count_cons_of_ne (Ne.symm apart)]

/-- SITE CHANGEGRP with groups that are named once each changes the array. -/
theorem toggleAll_ne {gids : List (Option UInt32)} {b : GroupArray}
    (done : a.toggleAll gids = some b) (some : reached gids ≠ [])
    (distinct : (reached gids).Nodup) : b ≠ a := by
  rintro rfl
  cases gids with
  | nil => exact some rfl
  | cons name gids =>
    cases name with
    | none => exact some rfl
    | some gid =>
      obtain ⟨between, first, rest⟩ := bind_eq_some_iff.mp done
      have later := count_toggleAll gids rest (nodup_cons.mp distinct).1
      rcases toggle_perm first with out | added
      · have once := out.count_eq gid
        rw [count_cons_self] at once
        omega
      · have once := added.count_eq gid
        rw [count_cons_self] at once
        omega

/-- The loop of SITE CHANGEGRP leaves the array, or holds the groups that are meant. -/
theorem Holds.toggleAll (gids : List (Option UInt32)) : ∀ {a : GroupArray} {groups : List UInt32},
    a.Holds groups →
    (TogglesFit gids groups ∧ ∃ b, a.toggleAll gids = some b ∧ b.Holds (toggledAll gids groups)) ∨
      ¬TogglesFit gids groups ∧ a.toggleAll gids = none := by
  induction gids with
  | nil => exact fun holds => .inl ⟨trivial, _, rfl, holds⟩
  | cons name gids ih =>
    intro a groups holds
    cases name with
    | none => exact .inl ⟨trivial, a, rfl, holds⟩
    | some gid =>
      by_cases fits : ToggleFits gid groups
      · obtain ⟨b, done, next⟩ := holds.toggle fits
        simp only [GroupArray.toggleAll, done, TogglesFit, fits, true_and]
        exact ih next
      · refine .inr ⟨fun all => fits all.1, ?_⟩
        simp [GroupArray.toggleAll, holds.toggle_eq_none fits]

theorem Holds.groupRemoveUser_absent (holds : a.Holds groups) (absent : gid ∉ groups) :
    a.groupRemoveUser gid = some (-1, a) := by
  have missing : groups.idxOf? gid = none := idxOf?_eq_none_iff.mpr absent
  unfold groupRemoveUser
  split
  · rfl
  · rw [holds.searchLast, missing]

theorem Holds.groupRemoveUser_present (holds : a.Holds groups) (present : gid ∈ groups)
    (room : groups.length < maxGroupsPerUser) :
    ∃ b, a.groupRemoveUser gid = some (0, b) ∧ b.Holds (groups.erase gid) := by
  obtain ⟨i, _, found, erased⟩ := idxOf?_of_mem present
  have length := holds.length
  obtain ⟨cells, done, members⟩ := shift_erases a.cells (show i < a.num by omega)
    (show a.num ≤ i + (a.num - i) + 1 by omega) (by omega)
  refine ⟨⟨a.num - 1, cells⟩, ?_, ?_, ?_, holds.distinct.erase gid⟩
  · rw [groupRemoveUser, if_neg (by omega), holds.searchLast, found]
    simp [done]
  · change a.num - 1 ≤ _
    omega
  · change cells.val.take (a.num - 1) = _
    rw [members, ← erased, ← holds.members, GroupArray.members]

theorem Holds.groupRemoveUser_full (holds : a.Holds groups) (present : gid ∈ groups)
    (full : maxGroupsPerUser ≤ groups.length) : a.groupRemoveUser gid = none := by
  obtain ⟨_, _, found, _⟩ := idxOf?_of_mem present
  have length := holds.length
  rw [groupRemoveUser, if_neg (by omega), holds.searchLast, found]
  simp only
  rw [shift_eq_none (by omega) (by omega), map_none]

end GroupArray

/-- The groups of a user, and the list of the groups in the order of joining. -/
structure GroupRun where
  array : Option GroupArray
  joined : List UInt32

namespace GroupRun

def step (s : GroupRun) (op : GroupOp) : GroupRun :=
  ⟨s.array.bind fun a => op.run a, op.meant s.joined⟩

/-- No access was outside of the array, and it holds the groups that were joined. -/
def Ordered (s : GroupRun) : Prop := ∃ a, s.array = some a ∧ a.Holds s.joined

def StepFits (s : GroupRun) (op : GroupOp) : Prop := op.Fits s.joined

theorem ordered_step_iff {s : GroupRun} (op : GroupOp) (ordered : s.Ordered) :
    (s.step op).Ordered ↔ s.StepFits op := by
  obtain ⟨a, here, holds⟩ := ordered
  have lost : ∀ {groups : List UInt32}, ¬Ordered ⟨none, groups⟩ := by
    rintro groups ⟨b, impossible, _⟩
    cases impossible
  unfold step StepFits
  rw [here, bind_some]
  cases op with
  | change name =>
    cases name with
    | none => exact iff_of_true ⟨a, rfl, holds⟩ trivial
    | some gid =>
      by_cases fits : ToggleFits gid s.joined
      · exact iff_of_true (holds.toggle fits) fits
      · rw [GroupOp.run, holds.toggle_eq_none fits]
        exact iff_of_false lost fits
  | changegrp gids =>
    rcases holds.toggleAll gids with ⟨fits, done⟩ | ⟨beyond, failed⟩
    · exact iff_of_true done fits
    · rw [GroupOp.run, failed]
      exact iff_of_false lost beyond
  | groupRemoveUser gid =>
    simp only [GroupOp.run, GroupOp.meant]
    by_cases present : gid ∈ s.joined
    · by_cases room : s.joined.length < maxGroupsPerUser
      · obtain ⟨b, done, next⟩ := holds.groupRemoveUser_present present room
        rw [done]
        exact iff_of_true ⟨b, rfl, next⟩ fun _ => room
      · rw [holds.groupRemoveUser_full present (Nat.le_of_not_lt room)]
        exact iff_of_false lost fun all => room (all present)
    · rw [holds.groupRemoveUser_absent present, erase_of_not_mem present]
      exact iff_of_true ⟨a, rfl, holds⟩ fun inside => absurd inside present

end GroupRun

/-- From a user without groups, the array holds the groups in the order of joining and
no index is outside of it exactly if every call finds a cell to spare. -/
theorem group_array_ordered_iff (cells : Cells UInt32 maxGroupsPerUser)
    (ops : List GroupOp) :
    Runs.Throughout GroupRun.step GroupRun.Ordered ⟨some ⟨0, cells⟩, []⟩ ops ↔
      Runs.Always GroupRun.step GroupRun.StepFits ⟨some ⟨0, cells⟩, []⟩ ops := by
  apply Runs.throughout_iff_always GroupRun.step GroupRun.Ordered GroupRun.StepFits
  · exact fun s op ordered => GroupRun.ordered_step_iff op ordered
  · exact ⟨⟨0, cells⟩, rfl, Nat.zero_le _, rfl, nodup_nil⟩

/-- A user can join as many new groups as there are cells left. -/
theorem togglesFit_new_iff (gids : List UInt32) : ∀ groups : List UInt32,
    (groups ++ gids).Nodup →
    (TogglesFit (gids.map some) groups ↔
      gids = [] ∨ (groups ++ gids).length ≤ maxGroupsPerUser) := by
  induction gids with
  | nil => exact fun groups _ => iff_of_true trivial (.inl rfl)
  | cons gid gids ih =>
    intro groups distinct
    have absent : gid ∉ groups := by
      have apart := (nodup_append.mp distinct).2.2
      exact fun inside => apart gid inside gid mem_cons_self rfl
    have later := ih (groups ++ [gid]) (by simpa using distinct)
    rw [map_cons, TogglesFit, toggled, if_neg absent, later, ToggleFits]
    simp only [absent, false_or, reduceCtorEq, length_append, length_cons, length_nil]
    cases gids with
    | nil =>
      simp only [length_nil]
      omega
    | cons next rest =>
      simp only [reduceCtorEq, false_or]
      omega

def manyGroups (count : Nat) : List UInt32 := (range count).map fun i => UInt32.ofNat (i + 1)

theorem GroupArray.empty_holds : GroupArray.empty.Holds [] :=
  ⟨Nat.zero_le _, rfl, nodup_nil⟩

/-- The thirty-third group is stored behind the array, and taking one of thirty-two
out reads from there. -/
theorem group_array_overrun :
    GroupArray.empty.toggleAll ((manyGroups 33).map some) = none ∧
      (∃ full, GroupArray.empty.toggleAll ((manyGroups 32).map some) = some full ∧
        full.groupRemoveUser 1 = none) ∧
      ¬Runs.Throughout GroupRun.step GroupRun.Ordered ⟨some .empty, []⟩
        [.changegrp ((manyGroups 33).map some)] := by
  have distinct : (manyGroups 33).Nodup ∧ (manyGroups 32).Nodup := by decide +kernel
  have overrun : GroupArray.empty.toggleAll ((manyGroups 33).map some) = none := by
    rcases GroupArray.empty_holds.toggleAll ((manyGroups 33).map some) with ⟨fits, _⟩ | ⟨_, failed⟩
    · rw [togglesFit_new_iff _ _ distinct.1] at fits
      exact absurd fits (by decide)
    · exact failed
  refine ⟨overrun, ?_, fun ordered => ?_⟩
  · rcases GroupArray.empty_holds.toggleAll ((manyGroups 32).map some) with
      ⟨_, full, done, holds⟩ | ⟨beyond, _⟩
    · exact ⟨full, done, holds.groupRemoveUser_full (by decide +kernel) (by decide)⟩
    · rw [togglesFit_new_iff _ _ distinct.2] at beyond
      exact absurd (.inr (by decide)) beyond
  · obtain ⟨_, here, _⟩ := ordered _ (prefix_refl _)
    cases here

end Wzdftpd
