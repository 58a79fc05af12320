import Wzdftpd.RegistryTable

/- A registry that is filled again by records in the order of their ids. -/
namespace Wzdftpd

open List

namespace Table

variable {α : Type} {idOf : α → Nat}

def empty : Table idOf := ⟨Registry.empty, Registry.sound_empty⟩

/-- `user_register`, `group_register`, which a sound table always answers. -/
def register (t : Table idOf) (record : α) : Table idOf :=
  match done : t.registry.register record with
  | some (_, registry) => ⟨registry, t.sound.register done⟩
  | none => t

def registerAll (t : Table idOf) (records : List α) : Table idOf := records.foldl register t

def refill (idOf : α → Nat) (records : List α) : Table idOf := registerAll empty records

def grownMax (max id : Nat) : Nat :=
  if id < max then max else if id < max + 255 then max + 256 else id

/-- No id except the last one is so far beyond the maximum that it becomes the maximum. -/
def Gapless : Nat → List Nat → Prop
  | max, id :: next :: ids => id < max + 255 ∧ Gapless (grownMax max id) (next :: ids)
  | _, _ => True

/-- The records that the list of the ids leads to and a test keeps, by increasing id. -/
def saved (kept : α → Bool) (t : Table idOf) : List α :=
  (t.registry.ids.filterMap t.getById).filter kept

/-- The states of a table that a file of at most so many records restores. -/
structure Reloadable (kept : α → Bool) (most : Nat) (t : Table idOf) : Prop where
  last : ∀ record, t.getById t.registry.max = some record → kept record = false
  gapless : Gapless 0 ((t.saved kept).map idOf)
  few : (t.saved kept).length < most

instance decidableGapless : (max : Nat) → (ids : List Nat) → Decidable (Gapless max ids)
  | _, [] => .isTrue trivial
  | _, [_] => .isTrue trivial
  | max, id :: next :: ids =>
    have := decidableGapless (grownMax max id) (next :: ids)
    inferInstanceAs (Decidable (id < max + 255 ∧ Gapless (grownMax max id) (next :: ids)))

theorem registry_register (t : Table idOf) (record : α) : ∃ out,
    t.registry.register record = some (out, (t.register record).registry) := by
  have answered : t.registry.register record ≠ none := by
    by_cases small : idOf record < intMax
    · rw [t.sound.register_eq small]
      split
      · exact Option.some_ne_none _
      · exact Option.some_ne_none _
    · rw [Registry.register, if_pos (.inr (Nat.not_lt.mp small))]
      exact Option.some_ne_none _
  unfold register
  split
  · rename_i out registry done
    exact ⟨out, done⟩
  · rename_i failed
    exact absurd failed answered

variable {t : Table idOf} {record : α}

theorem max_grow (max id : Nat) (array : List (Option α)) :
    ((⟨max, array⟩ : Registry idOf).grow id).max = grownMax max id := by
  unfold Registry.grow grownMax
  by_cases below : id < max
  · rw [if_pos below, if_neg (Nat.not_le.mpr below)]
  rw [if_neg below, if_pos (Nat.not_lt.mp below)]
  by_cases near : id < max + 255
  · rw [if_pos near]
    simp only [if_neg (Nat.not_le.mpr near)]
  · rw [if_neg near]
    simp only [if_pos (Nat.not_lt.mp near)]
    omega

theorem getById_register (small : idOf record < intMax)
    (fresh : t.getById (idOf record) = none) (j : Nat) :
    (t.register record).getById j =
      if j = idOf record then some record
      else if t.registry.max ≤ idOf record ∧ j = t.registry.max then none else t.getById j := by
  obtain ⟨_, done⟩ := registry_register t record
  rw [getById_eq] at fresh
  have inside := t.sound.lt_length_grow (idOf record)
  have grown : (t.registry.grow (idOf record)).lookup j =
      if t.registry.max ≤ idOf record ∧ j = t.registry.max then none else t.registry.lookup j := by
    by_cases above : t.registry.max ≤ idOf record
    · rw [t.sound.lookup_grow above]
      by_cases top : j = t.registry.max
      · rw [if_neg (by omega), if_pos ⟨above, top⟩]
      have unchanged : ¬(t.registry.max ≤ idOf record ∧ j = t.registry.max) :=
        fun both => top both.2
      split
      · rfl
      · exact (t.sound.lookup_of_max_lt (by omega)).symm
    · rw [Registry.grow, if_neg above, if_neg fun both => above both.1]
  have free : (t.registry.grow (idOf record)).lookup (idOf record) = none := by
    by_cases above : t.registry.max ≤ idOf record
    · rw [t.sound.lookup_grow above, if_neg (by omega)]
    · rw [Registry.grow, if_neg above, fresh]
  rw [t.sound.register_eq small, if_pos free] at done
  rw [getById_eq, getById_eq, ← (Prod.mk.inj (Option.some.inj done)).2,
    Registry.lookup_store inside, Function.update_apply, grown]

theorem max_register (small : idOf record < intMax) :
    (t.register record).registry.max = grownMax t.registry.max (idOf record) := by
  obtain ⟨_, done⟩ := registry_register t record
  rw [t.sound.register_eq small] at done
  have same : (t.register record).registry.max = (t.registry.grow (idOf record)).max := by
    split at done
    · rw [← (Prod.mk.inj (Option.some.inj done)).2]
      rfl
    · rw [← (Prod.mk.inj (Option.some.inj done)).2]
  rw [same]
  exact max_grow _ _ _

theorem getById_of_register {j : Nat} {other : α}
    (found : (t.register record).getById j = some other) :
    other = record ∨ t.getById j = some other := by
  obtain ⟨_, done⟩ := registry_register t record
  have kept : ∀ {k : Nat}, (t.registry.grow (idOf record)).lookup k = some other →
      t.registry.lookup k = some other := by
    intro k there
    by_cases above : t.registry.max ≤ idOf record
    · rw [t.sound.lookup_grow above] at there
      split at there
      · exact there
      · cases there
    · rwa [Registry.grow, if_neg above] at there
  rw [getById_eq] at found
  by_cases small : idOf record < intMax
  · rw [t.sound.register_eq small] at done
    split at done
    · rw [← (Prod.mk.inj (Option.some.inj done)).2,
        Registry.lookup_store (t.sound.lt_length_grow _), Function.update_apply] at found
      split at found
      · exact .inl (Option.some.inj found).symm
      · right
        rw [getById_eq]
        exact kept found
    · right
      rw [← (Prod.mk.inj (Option.some.inj done)).2] at found
      rw [getById_eq]
      exact kept found
  · rw [Registry.register, if_pos (.inr (Nat.not_lt.mp small))] at done
    right
    rw [getById_eq, (Prod.mk.inj (Option.some.inj done)).2]
    exact found

theorem getById_of_registerAll (records : List α) : ∀ {t : Table idOf} {j : Nat} {other : α},
    (t.registerAll records).getById j = some other →
      other ∈ records ∨ t.getById j = some other := by
  induction records with
  | nil => exact fun found => .inr found
  | cons record records ih =>
    intro t j other found
    rcases ih found with later | before
    · exact .inl (mem_cons_of_mem record later)
    · rcases getById_of_register before with rfl | old
      · exact .inl mem_cons_self
      · exact .inr old

/-- What is in use lies below all that is still to be registered. -/
structure Behind (t : Table idOf) (records : List α) : Prop where
  free : t.getById t.registry.max = none
  small : ∀ record ∈ records, idOf record < intMax
  above : ∀ record ∈ records, ∀ id, idOf record ≤ id → t.getById id = none
  ordered : records.Pairwise fun first second => idOf first < idOf second

theorem behind_empty {records : List α} (small : ∀ record ∈ records, idOf record < intMax)
    (ordered : records.Pairwise fun first second => idOf first < idOf second) :
    Behind (empty : Table idOf) records :=
  ⟨rfl, small, fun _ _ _ _ => by rw [getById_eq]; rfl, ordered⟩

variable {records : List α}

theorem Behind.getById_register (behind : Behind t (record :: records)) (j : Nat) :
    (t.register record).getById j = if j = idOf record then some record else t.getById j := by
  have fresh := behind.above record mem_cons_self (idOf record) (Nat.le_refl _)
  rw [Table.getById_register (behind.small record mem_cons_self) fresh]
  by_cases same : j = idOf record
  · rw [if_pos same, if_pos same]
  · rw [if_neg same]
    split
    · rename_i cleared
      rw [cleared.2, behind.free]
    · rfl

theorem Behind.max_register (behind : Behind t (record :: records)) :
    (t.register record).registry.max = grownMax t.registry.max (idOf record) :=
  Table.max_register (behind.small record mem_cons_self)

theorem Behind.register (behind : Behind t (record :: records))
    (near : idOf record < t.registry.max + 255) : Behind (t.register record) records := by
  have later : ∀ other ∈ records, idOf record < idOf other :=
    (pairwise_cons.mp behind.ordered).1
  refine ⟨?_, fun other member => behind.small other (mem_cons_of_mem record member),
    fun other member id above => ?_, (pairwise_cons.mp behind.ordered).2⟩
  · rw [behind.getById_register, behind.max_register, grownMax]
    by_cases below : idOf record < t.registry.max
    · rw [if_pos below, if_neg (by omega), behind.free]
    · rw [if_neg below, if_pos near, if_neg (by omega)]
      exact behind.above record mem_cons_self _ (by omega)
  · have beyond := later other member
    rw [behind.getById_register, if_neg (by omega)]
    exact behind.above record mem_cons_self id (by omega)

/-- A record that is the maximum is lost with the next one. -/
theorem Behind.lost {next : α} (behind : Behind t (record :: next :: records))
    (far : t.registry.max + 255 ≤ idOf record) :
    (t.registerAll (record :: next :: records)).getById (idOf record) = none := by
  have ordered := pairwise_cons.mp behind.ordered
  have beyond : idOf record < idOf next := ordered.1 next mem_cons_self
  have top : (t.register record).registry.max = idOf record := by
    rw [behind.max_register, grownMax, if_neg (by omega), if_neg (by omega)]
  have fresh : (t.register record).getById (idOf next) = none := by
    rw [behind.getById_register, if_neg (by omega)]
    exact behind.above record mem_cons_self _ (Nat.le_of_lt beyond)
  have small := behind.small next (mem_cons_of_mem record mem_cons_self)
  cases found : (t.registerAll (record :: next :: records)).getById (idOf record) with
  | none => rfl
  | some other =>
    have own := id_of_getById found
    rcases getById_of_registerAll records found with later | before
    · have past := ordered.1 other (mem_cons_of_mem next later)
      omega
    · rw [Table.getById_register small fresh, if_neg (by omega), if_pos ⟨by omega, top.symm⟩]
        at before
      cases before

/-- Everything is found again exactly if no record but the last one becomes the maximum. -/
theorem registerAll_finds_iff (records : List α) : ∀ {t : Table idOf}, Behind t records →
    ((∀ record ∈ records, (t.registerAll records).getById (idOf record) = some record) ↔
      Gapless t.registry.max (records.map idOf)) ∧
    (Gapless t.registry.max (records.map idOf) → ∀ id record, t.getById id = some record →
      (t.registerAll records).getById id = some record) := by
  induction records with
  | nil => exact fun _ => ⟨⟨fun _ => trivial, fun _ _ impossible => by cases impossible⟩,
      fun _ _ _ found => found⟩
  | cons record records ih =>
    intro t behind
    have old : ∀ id other, t.getById id = some other →
        (t.register record).getById id = some other := by
      intro id other found
      have below : id ≠ idOf record := by
        rintro rfl
        rw [behind.above record mem_cons_self _ (Nat.le_refl _)] at found
        cases found
      rw [behind.getById_register, if_neg below, found]
    have own : (t.register record).getById (idOf record) = some record := by
      simp [behind.getById_register]
    cases records with
    | nil =>
      refine ⟨⟨fun _ => trivial, fun _ other member => ?_⟩, fun _ => old⟩
      rw [mem_singleton.mp member]
      exact own
    | cons next records =>
      by_cases near : idOf record < t.registry.max + 255
      · obtain ⟨found, kept⟩ := ih (behind.register near)
        rw [behind.max_register] at found kept
        constructor
        · constructor
          · intro all
            refine ⟨near, found.mp fun other member => ?_⟩
            exact all other (mem_cons_of_mem record member)
          · rintro ⟨_, gapless⟩ other member
            rcases mem_cons.mp member with rfl | later
            · exact kept gapless _ _ own
            · exact found.mpr gapless other later
        · rintro ⟨_, gapless⟩ id other there
          exact kept gapless id other (old id other there)
      · have lost := behind.lost (Nat.not_lt.mp near)
        constructor
        · constructor
          · intro all
            rw [all record mem_cons_self] at lost
            cases lost
          · exact fun gapless => absurd gapless.1 near
        · exact fun gapless => absurd gapless.1 near

variable {kept : α → Bool}

theorem mem_saved (record : α) : record ∈ t.saved kept ↔ idOf record < t.registry.max ∧
      t.getById (idOf record) = some record ∧ kept record = true := by
  rw [saved, mem_filter, mem_filterMap, ← and_assoc]
  apply and_congr_left
  intro _
  constructor
  · rintro ⟨id, member, found⟩
    rw [id_of_getById found]
    exact ⟨((t.registry.mem_ids id).mp member).1, found⟩
  · rintro ⟨below, found⟩
    refine ⟨idOf record, (t.registry.mem_ids _).mpr ⟨below, ?_⟩, found⟩
    rw [← getById_eq, found]
    rfl

theorem mem_saved_of_last
    (last : ∀ record, t.getById t.registry.max = some record → kept record = false) {id : Nat}
    (found : t.getById id = some record) (keep : kept record = true) : record ∈ t.saved kept := by
  have below : id < t.registry.max := by
    rcases Nat.lt_trichotomy id t.registry.max with below | top | beyond
    · exact below
    · rw [last record (top ▸ found)] at keep
      cases keep
    · rw [getById_eq, t.sound.lookup_of_max_lt beyond] at found
      cases found
  rw [mem_saved, id_of_getById found]
  exact ⟨below, found, keep⟩

theorem saved_ordered (t : Table idOf) (kept : α → Bool) :
    (t.saved kept).Pairwise fun first second => idOf first < idOf second := by
  apply List.Pairwise.filter
  rw [pairwise_filterMap]
  apply List.Pairwise.imp _ (pairwise_lt_range.filter _)
  intro first second less one found other also
  rw [id_of_getById found, id_of_getById also]
  exact less

theorem behind_saved (kept : α → Bool)
    (small : ∀ id record, t.getById id = some record → id < intMax)
    (read : α → α) (ownRead : ∀ record, idOf (read record) = idOf record) :
    Behind (empty : Table idOf) ((t.saved kept).map read) := by
  apply behind_empty
  · intro record member
    obtain ⟨old, inside, rfl⟩ := mem_map.mp member
    rw [ownRead]
    exact small _ _ ((mem_saved old).mp inside).2.1
  · rw [pairwise_map]
    simp only [ownRead]
    exact t.saved_ordered kept

theorem getById_of_refill_saved {read : α → α}
    (ownRead : ∀ record, idOf (read record) = idOf record) {id : Nat} {record : α}
    (found : (refill idOf ((t.saved kept).map read)).getById id = some record) :
    ∃ old ∈ t.saved kept, record = read old ∧ idOf old = id := by
  rcases getById_of_registerAll _ found with member | impossible
  · obtain ⟨old, inside, rfl⟩ := mem_map.mp member
    exact ⟨old, inside, rfl, (ownRead old).symm.trans (id_of_getById found)⟩
  · rw [getById_eq] at impossible
    cases impossible

/-- A table that is filled with the records of another one, as they are read, is the
wanted one. -/
theorem registerAll_saved_iff (kept : α → Bool)
    (small : ∀ id record, t.getById id = some record → id < intMax)
    (read wanted : α → α) (ownRead : ∀ record, idOf (read record) = idOf record) :
    (∀ id, (refill idOf ((t.saved kept).map read)).getById id =
        ((t.getById id).filter kept).map wanted) ↔
      (∀ record, t.getById t.registry.max = some record → kept record = false) ∧
      Gapless 0 ((t.saved kept).map idOf) ∧
        ∀ record ∈ t.saved kept, read record = wanted record := by
  have ids : ((t.saved kept).map read).map idOf = (t.saved kept).map idOf := by
    rw [map_map]
    exact map_congr_left fun record _ => ownRead record
  have finds := (registerAll_finds_iff _ (behind_saved kept small read ownRead)).1
  rw [ids, forall_mem_map] at finds
  constructor
  · intro same
    have there : ∀ record ∈ t.saved kept,
        (refill idOf ((t.saved kept).map read)).getById (idOf record) = some (wanted record) := by
      intro record member
      obtain ⟨_, found, keep⟩ := (mem_saved record).mp member
      rw [same, found, Option.filter_some_pos keep, Option.map_some]
    have alike : ∀ record ∈ t.saved kept, read record = wanted record := by
      intro record member
      obtain ⟨old, inside, equal, own⟩ := getById_of_refill_saved ownRead (there record member)
      have found := ((mem_saved old).mp inside).2.1
      rw [own, ((mem_saved record).mp member).2.1] at found
      rw [equal, Option.some.inj found]
    refine ⟨fun record found => ?_, finds.mp fun record member => ?_, alike⟩
    · by_contra keep
      have all := same t.registry.max
      rw [found, Option.filter_some_pos (Bool.eq_true_of_not_eq_false keep)] at all
      obtain ⟨old, inside, _, own⟩ := getById_of_refill_saved ownRead all
      have below := ((mem_saved old).mp inside).1
      omega
    · rw [ownRead, alike record member]
      exact there record member
  · rintro ⟨last, gapless, alike⟩ id
    cases found : (t.getById id).filter kept with
    | none =>
      cases there : (refill idOf ((t.saved kept).map read)).getById id with
      | none => rfl
      | some record =>
        obtain ⟨old, inside, _, rfl⟩ := getById_of_refill_saved ownRead there
        obtain ⟨_, here, keep⟩ := (mem_saved old).mp inside
        rw [here, Option.filter_some_pos keep] at found
        cases found
    | some record =>
      obtain ⟨here, keep⟩ := Option.filter_eq_some_iff.mp found
      have own := id_of_getById here
      have member := mem_saved_of_last last here keep
      have read_ := finds.mpr gapless record member
      rw [ownRead, own, alike record member] at read_
      exact read_

/-- A table with few ids has no more records than these. -/
theorem length_saved_le {other : Table idOf} {wanted : α → α} {ids : List Nat}
    (covers : ∀ id, other.getById id ≠ none → id ∈ ids)
    (same : ∀ id, other.getById id = ((t.getById id).filter kept).map wanted) :
    (t.saved kept).length ≤ ids.length := by
  have distinct : ((t.saved kept).map idOf).Nodup := by
    rw [List.Nodup, pairwise_map]
    exact (t.saved_ordered kept).imp fun less => Nat.ne_of_lt less
  have inside : (t.saved kept).map idOf ⊆ ids := by
    intro id member
    obtain ⟨record, there, rfl⟩ := mem_map.mp member
    obtain ⟨_, found, keep⟩ := (mem_saved record).mp there
    apply covers
    rw [same, found, Option.filter_some_pos keep]
    exact Option.some_ne_none _
  have shorter := (subperm_of_subset distinct inside).length_le
  rwa [length_map] at shorter

end Table

end Wzdftpd
