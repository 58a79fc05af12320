import Wzdftpd.UserRoundTrip

/- A user who is read while only some of the groups are registered: those groups are left out
of the list, and everything else is the same. -/
namespace Wzdftpd

open DirectiveText List Option Table

namespace GroupArray

def restrict (p : UInt32 → Bool) (a : GroupArray) : GroupArray :=
  ((a.members.filter p).foldlM push empty).getD empty

/-- The array that reading a list of groups gives. -/
def Filled (a : GroupArray) (gids : List UInt32) : Prop := gids.foldlM push empty = some a

variable {a b : GroupArray} {gids more : List UInt32}

theorem Filled.members (filled : a.Filled gids) : a.members = gids := foldlM_push gids filled

theorem Filled.length_le (filled : a.Filled gids) : gids.length ≤ maxGroupsPerUser := by
  have length : a.members.length ≤ maxGroupsPerUser :=
    (length_take_le' a.num a.cells.val).trans_eq a.cells.property
  rwa [filled.members] at length

theorem Filled.restrict (filled : a.Filled gids) (p : UInt32 → Bool) :
    (a.restrict p).Filled (gids.filter p) := by
  have few := (length_filter_le p gids).trans filled.length_le
  obtain ⟨_, done, _⟩ := foldlM_push_of_length_le (gids.filter p) few
  rw [Filled, GroupArray.restrict, filled.members, done]
  rfl

theorem Filled.push (filled : a.Filled gids) (done : more.foldlM GroupArray.push a = some b) :
    b.Filled (gids ++ more) := by
  rw [Filled, foldlM_append, filled]
  exact done

theorem Filled.restrict_push (filled : a.Filled gids)
    (done : more.foldlM GroupArray.push a = some b)
    (p : UInt32 → Bool) : (more.filter p).foldlM GroupArray.push (a.restrict p) =
      some (b.restrict p) := by
  have both := (filled.push done).restrict p
  rw [Filled, filter_append, foldlM_append, filled.restrict p] at both
  exact both

theorem Filled.restrict_eq_iff (filled : a.Filled gids) (p : UInt32 → Bool) :
    a.restrict p = a ↔ ∀ gid ∈ gids, p gid = true := by
  constructor
  · intro same
    have fewer := (filled.restrict p).members
    rw [same, filled.members] at fewer
    exact filter_eq_self.mp fewer.symm
  · intro all
    have same := filled.restrict p
    rw [Filled, filter_eq_self.mpr all, filled] at same
    exact (some.inj same).symm

end GroupArray

def GroupTable.has (groups : GroupTable) (gid : UInt32) : Bool :=
  (groups.getById gid.toNat).isSome

/-- The user with the groups of a table only. -/
def UserRecord.within (groups : GroupTable) (user : UserRecord) : UserRecord :=
  { user with groups := user.groups.restrict groups.has }

section

variable {groups part : GroupTable}

/-- A table that has some of the groups of another one, whose names differ. -/
structure PartOf (part groups : GroupTable) : Prop where
  sub : ∀ id group, part.getById id = some group → groups.getById id = some group
  names : ∀ id other group same, groups.getById id = some group →
    groups.getById other = some same → group.groupname = same.groupname → id = other

theorem PartOf.named_eq (partOf : PartOf part groups) (name : Text) :
    part.named name = (groups.named name).filter fun group => part.has group.gid := by
  have unique : ∀ first second : GroupEntry, groups.getById first.id = some first →
      groups.getById second.id = some second → first.groupname = second.groupname →
      first = second := by
    intro first second one two same
    have ids := partOf.names _ _ _ _ one two same
    rw [ids, two] at one
    exact (some.inj one).symm
  cases found : groups.named name with
  | none =>
    cases there : part.named name with
    | none => rfl
    | some group =>
      obtain ⟨known, own, some⟩ := getByName_eq_some there
      exact absurd own (getByName_eq_none found some (partOf.sub _ _ known))
  | some group =>
    obtain ⟨known, own, nonempty⟩ := getByName_eq_some found
    cases here : part.getById group.id with
    | some same =>
      have equal := partOf.sub _ _ here
      rw [known] at equal
      cases equal
      have has : part.has group.gid = true := isSome_iff_exists.mpr ⟨_, here⟩
      rw [filter_some, if_pos has]
      cases there : part.named name with
      | none => exact absurd own (getByName_eq_none there nonempty here)
      | some other =>
        obtain ⟨inside, also, _⟩ := getByName_eq_some there
        rw [unique group other known (partOf.sub _ _ inside) (own.trans also.symm)]
    | none =>
      have lacks : ¬part.has group.gid = true := by
        rw [GroupTable.has, isSome_iff_ne_none]
        exact fun other => other here
      rw [filter_some, if_neg lacks]
      cases there : part.named name with
      | none => rfl
      | some other =>
        obtain ⟨inside, also, _⟩ := getByName_eq_some there
        rw [unique group other known (partOf.sub _ _ inside) (own.trans also.symm),
          inside] at here
        cases here

theorem PartOf.gidsNamed_eq (partOf : PartOf part groups) (names : List Text) :
    gidsNamed part names = (gidsNamed groups names).filter part.has := by
  induction names with
  | nil => rfl
  | cons name names ih =>
    have here := partOf.named_eq name
    cases found : groups.named name with
    | none =>
      rw [found] at here
      rw [gidsNamed, filterMap_cons_none (by rw [here]; rfl), ← gidsNamed, ih, gidsNamed,
        gidsNamed, filterMap_cons_none (by rw [found]; rfl)]
    | some group =>
      rw [found] at here
      have cons : gidsNamed groups (name :: names) = group.gid :: gidsNamed groups names := by
        rw [gidsNamed, filterMap_cons_some (by rw [found]; rfl), ← gidsNamed]
      rw [cons]
      cases inside : part.has group.gid with
      | true =>
        have kept : part.named name = some group := here.trans (filter_some_pos inside)
        rw [filter_cons_of_pos inside, gidsNamed,
          filterMap_cons_some (by rw [kept]; rfl), ← gidsNamed, ih]
      | false =>
        have lost : part.named name = none := here.trans (filter_some_neg inside)
        rw [filter_cons_of_neg (Bool.eq_false_iff.mp inside), gidsNamed,
          filterMap_cons_none (by rw [lost]; rfl), ← gidsNamed, ih]

theorem userEdit_withGroups {key : UserKey} (other : key ≠ .groups) (value : Text)
    (user : UserRecord) (array : GroupArray) :
    userEdit key value { user with groups := array } =
      { userEdit key value user with groups := array } := by
  cases key <;> simp only [userEdit] <;>
    first
    | exact absurd rfl other
    | rfl
    | cases longArg value <;> rfl
    | cases ulongArg value <;> rfl
    | cases numberArg value <;> rfl
    | cases flagsArg value <;> rfl

/-- A user who is read with some of the groups only. -/
theorem PartOf.readSingleUser (partOf : PartOf part groups) {free : Nat} {name file rest : Text}
    {user : UserRecord} (read : readSingleUser groups free name file = some (user, rest)) :
    readSingleUser part free name file = some (user.within part, rest) ∧
      ∃ gids, user.groups.Filled gids := by
  have keeps : ∀ key value (first second next : UserRecord),
      (∃ gids, first.groups.Filled gids ∧ second = first.within part) →
      userDirective groups key value first = some next →
      ∃ also, userDirective part key value second = some also ∧
        ∃ gids, next.groups.Filled gids ∧ also = next.within part := by
    rintro key value first second next ⟨gids, filled, rfl⟩ done
    unfold userDirective at done ⊢
    split at done
    · cases done
      exact ⟨_, rfl, gids, filled, rfl⟩
    split at done
    · rename_i isGroups
      obtain ⟨_, pushed, rfl⟩ := map_eq_some_iff.mp done
      refine ⟨_, ?_, _, filled.push pushed, rfl⟩
      rw [if_pos isGroups, addGroups, partOf.gidsNamed_eq]
      exact congrArg _ (filled.restrict_push pushed _)
    · rename_i notGroups
      cases done
      refine ⟨_, if_neg notGroups, gids, ?_, ?_⟩
      · rw [userEdit_groups]
        exact filled
      · rw [UserRecord.within, userEdit_withGroups notGroups, UserRecord.within, userEdit_groups]
  rw [Wzdftpd.readSingleUser] at read ⊢
  obtain ⟨also, same, gids, filled, rfl⟩ :=
    readRecord_rel (by decide) _ keeps file (by exact ⟨[], rfl, rfl⟩) read
  exact ⟨same, gids, filled⟩

end

end Wzdftpd
