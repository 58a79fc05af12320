import Wzdftpd.UserRecordText

/- The groups of a user in the users file (libplaintext_file.c): the names are joined by
commas, and each of them is looked up again. -/
namespace Wzdftpd

open DirectiveText Pieces List Option

/-- A loop of `strtok_r` finds the pieces between the delimiters. -/
theorem tokensOf_eq (delims : Text) (fuel : Nat) : ∀ text : Text, text.length ≤ fuel →
    tokensOf delims fuel text = pieces (· ∈ delims) text := by
  induction fuel with
  | zero =>
    intro text short
    rw [length_eq_zero_iff.mp (Nat.le_zero.mp short)]
    rfl
  | succ fuel ih =>
    intro text short
    have front : ∀ c ∈ text.takeWhile (· ∈ delims), decide (c ∈ delims) = true :=
      all_eq_true.mp all_takeWhile
    have parts := takeWhile_append_dropWhile (p := (· ∈ delims)) (l := text)
    have skipped : pieces (· ∈ delims) text =
        pieces (· ∈ delims) (text.dropWhile (· ∈ delims)) := by
      nth_rewrite 1 [← parts]
      exact pieces_seps_append front _
    have less := congrArg length parts
    rw [length_append] at less
    rw [skipped, tokensOf, strtok]
    by_cases empty : text.dropWhile (· ∈ delims) = []
    · rw [empty]
      rfl
    obtain ⟨c, rest, shape⟩ := exists_cons_of_ne_nil empty
    have starts : decide (c ∈ delims) = false := by
      have first := head?_dropWhile_not (· ∈ delims) text
      rw [shape] at first
      simpa using first
    simp only [if_neg empty, decide_not]
    rw [shape, length_cons] at less
    rw [shape, pieces_eq, ih]
    · rw [takeWhile_cons_of_pos (by simp [starts])]
      rfl
    · have shorter :=
        (dropWhile_suffix (fun x => !decide (x ∈ delims)) (l := c :: rest)).length_le
      rw [length_cons] at shorter
      rw [length_drop]
      omega

theorem allTokens_eq (delims text : Text) : allTokens delims text = pieces (· ∈ delims) text :=
  tokensOf_eq delims text.length text (Nat.le_refl _)

theorem value_parts (text : Text) :
    ∃ front, text = front ++ value text ∧ ∀ c ∈ front, isBlank c = true := by
  unfold value
  split
  · rename_i blank
    refine ⟨text.take (text.length - 1), (take_append_drop _ _).symm, ?_⟩
    exact fun c member => dropWhile_eq_nil_iff.mp blank c (mem_of_mem_take member)
  · exact ⟨text.takeWhile isBlank, takeWhile_append_dropWhile.symm, all_eq_true.mp all_takeWhile⟩

theorem readBack_parts {text : Text} (terminated : '\x00' ∉ text) :
    ∃ front behind, text = front ++ readBack text ++ behind ∧
      (∀ c ∈ front, isBlank c = true) ∧ ∀ c ∈ behind, isLineEnd c = true := by
  have whole : ∀ c ∈ text, decide (c ≠ '\x00') = true :=
    fun c member => decide_eq_true fun same => terminated (same ▸ member)
  have kept : chomp text = text.rdropWhile isLineEnd := by
    rw [chomp, takeWhile_eq_self_iff.mpr whole]
  obtain ⟨front, parts, blank⟩ := value_parts (chomp text)
  refine ⟨front, text.rtakeWhile isLineEnd, ?_, blank, ?_⟩
  · rw [readBack, ← parts, kept, rdropWhile_append_rtakeWhile]
  · exact fun c member => mem_rtakeWhile_imp member

theorem length_readBack_le {text : Text} (terminated : '\x00' ∉ text) :
    (readBack text).length ≤ text.length := by
  obtain ⟨_, _, parts, _⟩ := readBack_parts terminated
  have sum := congrArg length parts
  rw [length_append, length_append] at sum
  omega

/-- The texts that are read back as they are. -/
theorem readBack_eq_self_iff {text : Text} (terminated : '\x00' ∉ text) (single : '\n' ∉ text) :
    readBack text = text ↔ text.getLast? ≠ some '\r' ∧
      ((∀ c, text.head? = some c → isBlank c = false) ∨ text.length = 1) := by
  have ends : text.getLast? ≠ some '\r' → ∀ c, text.getLast? = some c → isLineEnd c = false := by
    intro other c last
    have notReturn : c ≠ '\r' := fun same => other (same ▸ last)
    have notEnd : c ≠ '\n' := fun same => single (same ▸ mem_of_getLast? last)
    exact decide_eq_false (not_or.mpr ⟨notReturn, notEnd⟩)
  constructor
  · intro same
    obtain ⟨front, parts, _⟩ := value_parts (chomp text)
    rw [← readBack, same] at parts
    have whole : chomp text = text := by
      have short : (chomp text).length ≤ text.length :=
        ((List.rdropWhile_prefix isLineEnd _).trans (List.takeWhile_prefix _)).length_le
      have sum := congrArg length parts
      rw [length_append] at sum
      rw [length_eq_zero_iff.mp (by omega : front.length = 0)] at parts
      exact parts
    constructor
    · intro last
      have some : chomp text ≠ [] := by
        intro empty
        rw [← whole, empty] at last
        cases last
      have final : ¬isLineEnd ((chomp text).getLast some) = true :=
        rdropWhile_last_not isLineEnd _ some
      rw [← whole, getLast?_eq_some_getLast some, Option.some.injEq] at last
      rw [last] at final
      exact final rfl
    · rw [readBack, whole] at same
      unfold value at same
      split at same
      · have less := congrArg length same
        rw [length_drop] at less
        rcases Nat.eq_zero_or_pos text.length with zero | positive
        · left
          rw [length_eq_zero_iff.mp zero]
          intro c impossible
          cases impossible
        · right
          omega
      · left
        intro c first
        obtain ⟨_, rfl⟩ := head?_eq_some_iff.mp first
        rw [← Bool.not_eq_true]
        exact dropWhile_eq_self_iff.mp same (by simp)
  · rintro ⟨last, starts⟩
    rw [readBack, chomp_of_getLast? terminated (ends last)]
    rcases starts with starts | one
    · exact value_of_head? starts
    obtain ⟨c, rfl⟩ := length_eq_one_iff.mp one
    unfold value
    split
    · rfl
    · rename_i other
      exact dropWhile_cons_of_neg fun blank => other (dropWhile_cons_of_pos blank)

namespace GroupArray

theorem length_packed (a : GroupArray) :
    (a.members ++ replicate (maxGroupsPerUser - a.num) 0).length = maxGroupsPerUser := by
  rw [members, length_append, length_take, length_replicate, a.cells.property]
  omega

/-- The array with its unused cells cleared. -/
def packed (a : GroupArray) : GroupArray :=
  ⟨a.num, a.members ++ replicate (maxGroupsPerUser - a.num) 0, a.length_packed⟩

theorem length_members (a : GroupArray) (few : a.num ≤ maxGroupsPerUser) :
    a.members.length = a.num := by
  rw [members, length_take, a.cells.property]
  omega

variable (gids : List UInt32) {a : GroupArray}

theorem members_push {b : GroupArray} {gid : UInt32} (done : a.push gid = some b) :
    b.members = a.members ++ [gid] := by
  obtain ⟨_, written, rfl⟩ := map_eq_some_iff.mp done
  exact SlotArray.take_write written

theorem foldlM_push : ∀ {a b : GroupArray},
    gids.foldlM push a = some b → b.members = a.members ++ gids := by
  induction gids with
  | nil =>
    intro a b done
    cases done
    rw [append_nil]
  | cons gid gids ih =>
    intro a b done
    obtain ⟨_, pushed, later⟩ := bind_eq_some_iff.mp done
    simp [ih later, members_push pushed]

theorem push_of_room (room : a.num < maxGroupsPerUser) (gid : UInt32) :
    ∃ b, a.push gid = some b ∧ b.num = a.num + 1 ∧ b.cells.val = a.cells.val.set a.num gid := by
  refine ⟨⟨a.num + 1, a.cells.val.set a.num gid, by simp [a.cells.property]⟩, ?_, rfl, rfl⟩
  simp [push, SlotArray.write, room]

theorem foldlM_push_of_length_le (few : gids.length ≤ maxGroupsPerUser) :
    ∃ b, gids.foldlM push empty = some b ∧ b.num = gids.length ∧
      b.cells.val = gids ++ replicate (maxGroupsPerUser - gids.length) 0 := by
  induction gids using reverseRecOn with
  | nil => exact ⟨empty, rfl, rfl, rfl⟩
  | append_singleton gids gid ih =>
    rw [length_append, length_singleton] at few
    obtain ⟨b, done, num, cells⟩ := ih (by omega)
    obtain ⟨after, pushed, count, set⟩ := push_of_room (a := b) (by omega) gid
    refine ⟨after, ?_, ?_, ?_⟩
    · rw [foldlM_append, done]
      simp only [bind_eq_bind, bind_some, foldlM_cons, pushed]
      rfl
    · simp [count, num]
    obtain ⟨left, room⟩ : ∃ left, maxGroupsPerUser - gids.length = left + 1 :=
      ⟨maxGroupsPerUser - gids.length - 1, by omega⟩
    rw [set, cells, num, room, replicate_succ, set_append_right _ _ (Nat.le_refl _),
      Nat.sub_self, set_cons_zero, length_append, length_singleton,
      show maxGroupsPerUser - (gids.length + 1) = left by omega, append_assoc,
      singleton_append]

theorem foldlM_push_empty (few : a.num ≤ maxGroupsPerUser) :
    a.members.foldlM push empty = some a.packed := by
  have length : a.members.length = a.num := a.length_members few
  obtain ⟨_, done, num, cells⟩ := foldlM_push_of_length_le a.members (by omega)
  rw [length] at num cells
  rw [done]
  exact congrArg some (GroupArray.mk.injEq .. ▸ ⟨num, Subtype.ext cells⟩)

theorem members_packed (few : a.num ≤ maxGroupsPerUser) : a.packed.members = a.members := by
  have length := a.length_members few
  rw [members, packed]
  simp only
  rw [take_append_of_le_length (by omega), take_of_length_le (by omega)]

theorem first_mem_members (some : a.num ≠ 0) : a.first ∈ a.members := by
  have length := a.cells.property
  obtain ⟨_, _, shape⟩ := exists_cons_of_length_pos
    (by rw [length]; decide : 0 < a.cells.val.length)
  obtain ⟨less, num⟩ : ∃ less, a.num = less + 1 := ⟨a.num - 1, by omega⟩
  rw [first, members, shape, num]
  exact mem_cons_self

end GroupArray

/-- The gids that are read back for a line with the names of groups. -/
def rereadGids (groups : GroupTable) (joined : Text) : List UInt32 :=
  gidsNamed groups (allTokens [','] (readBack joined))

section

variable {groups : GroupTable} {a : GroupArray}

theorem mem_of_mem_tokensOf {delims : Text} (fuel : Nat) : ∀ {text token : Text} {c : Char},
    token ∈ tokensOf delims fuel text → c ∈ token → c ∈ text := by
  induction fuel with
  | zero =>
    intro text token c impossible
    cases impossible
  | succ fuel ih =>
    intro text token c member inside
    rw [tokensOf, strtok] at member
    by_cases empty : text.dropWhile (· ∈ delims) = []
    · simp only [if_pos empty, not_mem_nil] at member
    · simp only [if_neg empty, mem_cons] at member
      apply (dropWhile_suffix (· ∈ delims)).subset
      rcases member with rfl | later
      · exact takeWhile_subset _ inside
      · exact (dropWhile_suffix _).subset (mem_of_mem_drop (ih later inside))

theorem getById_gid {name : Text} {group : GroupEntry} (found : groups.named name = some group) :
    groups.getById group.gid.toNat = some group ∧ group.groupname = name :=
  ⟨(Table.getByName_eq_some found).1, (Table.getByName_eq_some found).2.1⟩

theorem groupNames_gidsNamed (names : List Text) :
    groupNames groups (gidsNamed groups names) =
      names.filter fun name => (groups.named name).isSome := by
  induction names with
  | nil => rfl
  | cons name names ih =>
    cases found : groups.named name with
    | none =>
      rw [gidsNamed, filterMap_cons_none (by rw [found]; rfl), ← gidsNamed, ih,
        filter_cons_of_neg (by simp [found])]
    | some group =>
      obtain ⟨known, same⟩ := getById_gid found
      rw [gidsNamed, filterMap_cons_some (by rw [found]; rfl), ← gidsNamed,
        filter_cons_of_pos (by simp [found]), ← ih, groupNames, map_cons,
        ← groupNames, known, elim_some, same]

theorem gidsNamed_groupNames {gids : List UInt32}
    (found : ∀ gid ∈ gids, ∃ group, groups.getById gid.toNat = some group ∧
      groups.named group.groupname = some group) :
    gidsNamed groups (groupNames groups gids) = gids := by
  induction gids with
  | nil => rfl
  | cons gid gids ih =>
    obtain ⟨group, known, named⟩ := found gid mem_cons_self
    have id : group.id = gid.toNat := Table.id_of_getById known
    have own : group.gid = gid := UInt32.toNat_inj.mp id
    rw [groupNames, map_cons, ← groupNames, known, elim_some, gidsNamed,
      filterMap_cons_some (by rw [named]; rfl), ← gidsNamed,
      ih (forall_mem_cons.mp found).2, own]

theorem sum_length_filter_le (p : Text → Bool) (texts : List Text) :
    ((texts.filter p).map length).sum ≤ (texts.map length).sum :=
  (Sublist.map _ filter_sublist).sum_le_sum fun _ _ => Nat.zero_le _

/-- Nothing is read back that is not a name, so that all groups are only if nothing of the
line is lost. -/
theorem readBack_joined (plain : ∀ name ∈ groupNames groups a.members, ',' ∉ name)
    (terminated : '\x00' ∉ joinedNames groups a)
    (same : rereadGids groups (joinedNames groups a) = a.members) :
    readBack (joinedNames groups a) = joinedNames groups a := by
  obtain ⟨front, behind, parts, blank, ends⟩ := readBack_parts terminated
  have names : groupNames groups a.members =
      (allTokens [','] (readBack (joinedNames groups a))).filter
        fun name => (groups.named name).isSome := by
    conv_lhs => rw [← same]
    exact groupNames_gidsNamed _
  have written : load (· ∈ [',']) (joinedNames groups a) =
      ((groupNames groups a.members).map length).sum := by
    apply load_intercalate (by decide)
    intro name member c inside
    rw [decide_eq_false_iff_not, mem_singleton]
    exact fun comma => plain name member (comma ▸ inside)
  have read := sum_length_filter_le (fun name => (groups.named name).isSome)
    (allTokens [','] (readBack (joinedNames groups a)))
  rw [← names, allTokens_eq, sum_length_pieces] at read
  have lostFront : load (· ∈ [',']) front = front.length := by
    apply load_free
    intro c member
    rw [decide_eq_false_iff_not, mem_singleton]
    rintro rfl
    exact absurd (blank _ member) (by decide)
  have lostBehind : load (· ∈ [',']) behind = behind.length := by
    apply load_free
    intro c member
    rw [decide_eq_false_iff_not, mem_singleton]
    rintro rfl
    exact absurd (ends _ member) (by decide)
  have sum := congrArg (load (· ∈ [','])) parts
  rw [load_append, load_append] at sum
  have noFront : front = [] := length_eq_zero_iff.mp (by omega)
  have noBehind : behind = [] := length_eq_zero_iff.mp (by omega)
  rw [noFront, noBehind, append_nil] at parts
  exact parts.symm

/-- The groups that are read back as they are. -/
theorem rereadGids_eq_iff (plain : ∀ name ∈ groupNames groups a.members, ',' ∉ name)
    (terminated : '\x00' ∉ joinedNames groups a) :
    rereadGids groups (joinedNames groups a) = a.members ↔
      readBack (joinedNames groups a) = joinedNames groups a ∧
      ∀ gid ∈ a.members, ∃ group, groups.getById gid.toNat = some group ∧
        group.groupname ≠ [] ∧ groups.named group.groupname = some group := by
  constructor
  · intro same
    refine ⟨readBack_joined plain terminated same, fun gid member => ?_⟩
    rw [← same] at member
    obtain ⟨name, _, mapped⟩ := mem_filterMap.mp member
    obtain ⟨group, found, rfl⟩ := map_eq_some_iff.mp mapped
    obtain ⟨known, named, some⟩ := Table.getByName_eq_some found
    exact ⟨group, known, named ▸ some, named ▸ found⟩
  · rintro ⟨kept, names⟩
    have words : ∀ name ∈ groupNames groups a.members,
        name ≠ [] ∧ ∀ c ∈ name, decide (c ∈ [',']) = false := by
      intro name member
      refine ⟨?_, fun c inside => ?_⟩
      · obtain ⟨gid, inArray, rfl⟩ := mem_map.mp member
        obtain ⟨group, known, some, _⟩ := names gid inArray
        rw [known]
        exact some
      · rw [decide_eq_false_iff_not, mem_singleton]
        exact fun comma => plain name member (comma ▸ inside)
    rw [rereadGids, kept, allTokens_eq, joinedNames, pieces_intercalate (by decide) words]
    apply gidsNamed_groupNames
    intro gid member
    obtain ⟨group, known, _, found⟩ := names gid member
    exact ⟨group, known, found⟩

end

end Wzdftpd
