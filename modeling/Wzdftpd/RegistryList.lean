import Mathlib.Data.List.Range
import Wzdftpd.RegistryMap

/- The list of the ids of a registry and the search for a free id. -/
namespace Wzdftpd

open List Option

namespace Registry

variable {α : Type} {idOf : α → Nat} {t : Registry idOf}

/-- The states of a registry that is filled by registering and unregistering. -/
inductive Reached : Registry idOf → Prop
  | empty : Reached .empty
  | register {t : Registry idOf} {record : α} {out : Option Nat × Registry idOf}
      (before : Reached t) (done : t.register record = some out) : Reached out.2
  | unregister {t : Registry idOf} {id : Nat} {out : Option α × Registry idOf}
      (before : Reached t) (done : t.unregister id = some out) : Reached out.2

theorem Reached.sound (reached : t.Reached) : t.Sound := by
  induction reached with
  | empty => exact sound_empty
  | register _ done ih => exact ih.register done
  | unregister _ done ih => exact ih.unregister done

/-- The list has each registered id once, in increasing order, up to the first -1. -/
def Enumerates (t : Registry idOf) : Prop :=
  ∃ (ids : List Nat) (rest : List (Option Nat)),
    t.getList = some (ids.map some ++ some invalidUser :: rest) ∧
    ids.Pairwise (· < ·) ∧ ∀ id, id ∈ ids ↔ t.getById id ≠ some none

/-- The smallest id from `start` on that is not registered. -/
def LeastFree (t : Registry idOf) (start id : Nat) : Prop :=
  start ≤ id ∧ t.getById id = some none ∧
    ∀ j, start ≤ j → j < id → t.getById j ≠ some none

/-- The search finds the smallest free id; from -1 it starts at 0. -/
def FindsFree (t : Registry idOf) : Prop :=
  ∀ start ≤ invalidUser, ∃ id, t.findFree start = some id ∧
    t.LeastFree (if start = invalidUser then 0 else start) id

theorem Sound.getById_ne_none (sound : t.Sound) (id : Nat) :
    t.getById id ≠ some none ↔ (t.lookup id).isSome := by
  rw [sound.getById_eq, ne_eq, some.injEq, ← ne_eq, ne_none_iff_isSome]

theorem Sound.read_below (sound : t.Sound) {id : Nat} (below : id < t.max) :
    t.array[id]? = some (t.lookup id) := by
  apply sound.getElem? (Nat.le_of_lt below)
  intro unallocated
  rcases sound.sized with ⟨_, zero⟩ | ⟨length, _⟩
  · omega
  · rw [unallocated, length_nil] at length
    omega

theorem Sound.listBelow_eq (sound : t.Sound) (bound : Nat) : bound ≤ t.max →
    t.listBelow bound = some ((range bound).filter fun id => (t.lookup id).isSome) := by
  induction bound with
  | zero => exact fun _ => rfl
  | succ bound ih =>
    intro inside
    have read := sound.read_below inside
    have valid := sound.max_lt_invalid
    rw [listBelow, ih (Nat.le_of_lt inside), range_succ]
    cases found : t.lookup bound with
    | none =>
      simp [read, found]
    | some record =>
      rw [found] at read
      have own := sound.indexed bound record read
      have notInvalid : bound ≠ invalidUser := by omega
      simp [read, found, own, notInvalid]

def ids (t : Registry idOf) : List Nat :=
  (range t.max).filter fun id => (t.lookup id).isSome

theorem mem_ids (t : Registry idOf) (id : Nat) :
    id ∈ t.ids ↔ id < t.max ∧ (t.lookup id).isSome := by
  simp [ids]

theorem ids_length_le (t : Registry idOf) : t.ids.length ≤ t.max :=
  (length_filter_le _ _).trans_eq length_range

theorem listed_cells {ids : List Nat} {max : Nat} (fits : ids.length ≤ max) : ∃ rest,
    (ids.map some ++ some invalidUser :: replicate (max - ids.length) none).set max
        (some invalidUser) = ids.map some ++ some invalidUser :: rest ∧
      ∀ id, some id ∈ rest → id = invalidUser := by
  have behind : (ids.map some).length ≤ max := by
    rw [length_map]
    exact fits
  rw [set_append_right _ _ behind, length_map]
  cases free : max - ids.length with
  | zero => exact ⟨[], rfl, nofun⟩
  | succ last =>
    refine ⟨(replicate (last + 1) none).set last (some invalidUser), rfl, ?_⟩
    intro id member
    rcases mem_or_eq_of_mem_set member with unset | same
    · cases eq_of_mem_replicate unset
    · exact some.inj same

theorem Sound.getList_eq (sound : t.Sound) : ∃ rest,
    t.getList = some (t.ids.map some ++ some invalidUser :: rest) ∧
      ∀ id, some id ∈ rest → id = invalidUser := by
  obtain ⟨rest, cells, marks⟩ := listed_cells t.ids_length_le
  refine ⟨rest, ?_, marks⟩
  rw [getList, sound.listBelow_eq t.max (Nat.le_refl _), ← cells]
  rfl

theorem Sound.findFreeLoop_spec (sound : t.Sound) (turns : Nat) : ∀ start,
    turns = 0 ∨ start + turns ≤ t.max → ∃ id, t.findFreeLoop turns start = some id ∧
      start ≤ id ∧ id ≤ start + turns ∧
      (∀ j, start ≤ j → j < id → (t.lookup j).isSome) ∧
      (id < start + turns → t.lookup id = none) := by
  induction turns with
  | zero => exact fun start _ => ⟨start, rfl, by omega, by omega, by omega, by omega⟩
  | succ turns ih =>
    intro start inside
    have valid := sound.max_lt_invalid
    have below : start < t.max := by omega
    have read := sound.read_below below
    have counts : start ≠ invalidUser := by omega
    rw [findFreeLoop, if_neg counts, read]
    cases found : t.lookup start with
    | none => exact ⟨start, rfl, by omega, by omega, by omega, fun _ => found⟩
    | some record =>
      obtain ⟨id, same, _, _, used, free⟩ := ih (start + 1) (by omega)
      refine ⟨id, same, by omega, by omega, fun j from_ to_ => ?_, fun early => ?_⟩
      · by_cases first : j = start
        · rw [first, found]
          rfl
        · exact used j (by omega) to_
      · exact free (by omega)

theorem Sound.findsFree (sound : t.Sound) (free : t.lookup t.max = none) : t.FindsFree := by
  intro start _
  have most : ∀ first, ∃ id, t.findFreeLoop (t.max - first) first = some id ∧
      t.LeastFree first id := by
    intro first
    obtain ⟨id, same, above, _, used, stopped⟩ :=
      sound.findFreeLoop_spec (t.max - first) first (by omega)
    refine ⟨id, same, above, ?_, fun j from_ to_ => ?_⟩
    · rw [sound.getById_eq]
      by_cases early : id < first + (t.max - first)
      · rw [stopped early]
      · by_cases top : id = t.max
        · rw [top, free]
        · rw [sound.lookup_of_max_lt (by omega)]
    · exact (sound.getById_ne_none j).mpr (used j from_ to_)
  exact most _

theorem Sound.enumerates_iff (sound : t.Sound) : t.Enumerates ↔ t.lookup t.max = none := by
  obtain ⟨rest, cells, marks⟩ := sound.getList_eq
  have valid := sound.max_lt_invalid
  constructor
  · rintro ⟨ids, tail, listed, _, all⟩
    by_contra used
    have registered := (sound.getById_ne_none t.max).mpr (ne_none_iff_isSome.mp used)
    have member : some t.max ∈ ids.map some ++ some invalidUser :: tail := by
      rw [mem_append]
      exact .inl (mem_map_of_mem ((all t.max).mpr registered))
    -- the slot at the maximum is in none of the three parts of the list
    rw [← some.inj (cells.symm.trans listed), mem_append, mem_cons] at member
    rcases member with below | mark | beyond
    · obtain ⟨id, mem, same⟩ := mem_map.mp below
      have lower := ((t.mem_ids id).mp mem).1
      rw [some.inj same] at lower
      exact Nat.lt_irrefl _ lower
    · have same := some.inj mark
      omega
    · have same := marks _ beyond
      omega
  · intro free
    refine ⟨t.ids, rest, cells, ?_, fun id => ?_⟩
    · exact pairwise_lt_range.filter _
    rw [t.mem_ids, sound.getById_ne_none]
    constructor
    · exact fun both => both.2
    intro used
    refine ⟨?_, used⟩
    by_contra above
    have missing : t.lookup id = none := by
      by_cases top : id = t.max
      · rw [top]
        exact free
      · exact sound.lookup_of_max_lt (by omega)
    rw [missing] at used
    cases used

theorem Sound.enumerates_and_findsFree_iff (sound : t.Sound) :
    t.Enumerates ∧ t.FindsFree ↔ t.getById t.max = some none := by
  rw [sound.getById_eq, some.injEq]
  constructor
  · exact fun both => sound.enumerates_iff.mp both.1
  · exact fun free => ⟨sound.enumerates_iff.mpr free, sound.findsFree free⟩

end Registry

/-- A registry that has been reached lists its ids and finds free ones exactly if the
last place of its table is empty. -/
theorem registries_list_and_find_iff {users : UserRegistry} {groups : GroupRegistry}
    (usersReached : users.Reached) (groupsReached : groups.Reached) :
    (users.Enumerates ∧ users.FindsFree ↔ userGetById users.max users = some none) ∧
    (groups.Enumerates ∧ groups.FindsFree ↔ groupGetById groups.max groups = some none) :=
  ⟨usersReached.sound.enumerates_and_findsFree_iff,
    groupsReached.sound.enumerates_and_findsFree_iff⟩

def registryOfRoot : UserRegistry :=
  (Registry.empty.grow 0).store 0 (some (userNumbered 0))

theorem registries_list_and_find_iff_root :
    registryOfRoot.Reached ∧ registryOfRoot.Enumerates ∧ registryOfRoot.FindsFree := by
  have done : userRegister (userNumbered 0) .empty = some (some 0, registryOfRoot) := rfl
  have reached : registryOfRoot.Reached := Registry.Reached.empty.register done
  have noGroups : (Registry.empty : GroupRegistry).Reached := Registry.Reached.empty
  exact ⟨reached, (registries_list_and_find_iff reached noGroups).1.mpr rfl⟩

def registryOfLast : UserRegistry :=
  (Registry.empty.grow 255).store 255 (some (userNumbered 255))

theorem last_user_not_listed :
    registryOfLast.Reached ∧
      userGetById 255 registryOfLast = some (some (userNumbered 255)) ∧
      (userGetList registryOfLast).map (·.head?) = some (some (some invalidUser)) ∧
      userFindFreeUid 255 registryOfLast = some 255 ∧
      ¬(registryOfLast.Enumerates ∧ registryOfLast.FindsFree) := by
  have done : userRegister (userNumbered 255) .empty = some (some 255, registryOfLast) := rfl
  have reached : registryOfLast.Reached := Registry.Reached.empty.register done
  have registered : userGetById 255 registryOfLast = some (some (userNumbered 255)) := rfl
  have next : userFindFreeUid 255 registryOfLast = some 255 := rfl
  refine ⟨reached, registered, by decide +kernel, next, fun both => ?_⟩
  obtain ⟨id, found, _, free, _⟩ := both.2 255 (by decide)
  rw [show id = 255 from some.inj (found.symm.trans next)] at free
  cases free.symm.trans registered

end Wzdftpd
