import Wzdftpd.RegistryList
import Wzdftpd.Tally

/- A registry with the proof that it is sound, as the commands of the server use it:
records are found by id and by name, changed in place, created and removed. -/
namespace Wzdftpd

open Function List Option Registry Tally

structure Table {α : Type} (idOf : α → Nat) where
  registry : Registry idOf
  sound : registry.Sound

namespace Table

variable {α : Type} {idOf : α → Nat} (t : Table idOf)

def allocated : Table idOf := ⟨empty.grow 0, sound_empty.grow (by decide)⟩

def full (make : Nat → α) (max : Nat) (bounds : 0 < max ∧ max < intMax)
    (own : ∀ id ≤ max, idOf (make id) = id) : Table idOf where
  registry := ⟨max, none :: (range max).map fun i => some (make (i + 1))⟩
  sound := by
    refine ⟨.inr ⟨by simp, bounds.1⟩, fun id record read => ?_, by simp only; omega⟩
    cases id with
    | zero => cases read
    | succ i =>
      rw [getElem?_cons_succ, getElem?_map] at read
      obtain ⟨j, inside, same⟩ := map_eq_some_iff.mp read
      obtain ⟨below, rfl⟩ := List.getElem?_eq_some_iff.mp inside
      rw [length_range] at below
      rw [getElem_range] at same
      rw [← some.inj same]
      exact own (i + 1) below

/-- `user_get_by_id`, `group_get_by_id` -/
def getById (id : Nat) : Option α := (t.registry.getById id).join

/-- `user_get_by_name`, `group_get_by_name` -/
def getByName (nameOf : α → Text) (name : Text) : Option α :=
  if name = [] ∨ t.registry.max = 0 then none
  else t.registry.array.findSome? fun slot => slot.filter fun record => nameOf record = name

/-- A change of a record in place, which keeps its id. -/
def put (record : α) : Table idOf where
  registry := t.registry.store (idOf record) (some record)
  sound := by
    by_cases inside : idOf record < t.registry.array.length
    · exact t.sound.store inside fun stored same => by rw [← some.inj same]
    · have unchanged : t.registry.store (idOf record) (some record) = t.registry := by
        rw [store, set_eq_of_length_le (Nat.le_of_not_lt inside)]
      rw [unchanged]
      exact t.sound

/-- A new record under the first free id from 1 on: `user_find_free_uid` and
`user_register`. -/
def create (make : Nat → α) : Option (α × Table idOf) :=
  (t.registry.findFree 1).bind fun id =>
    match done : t.registry.register (make id) with
    | some (some _, registry) => some (make id, ⟨registry, t.sound.register done⟩)
    | _ => none

/-- `user_unregister` of a record that exists. -/
def remove (id : Nat) : Table idOf :=
  match done : t.registry.unregister id with
  | some (_, registry) => ⟨registry, t.sound.unregister done⟩
  | none => t

def total (weight : α → Nat) : Nat := Tally.total weight t.registry.array

variable {t}

theorem getById_eq (id : Nat) : t.getById id = t.registry.lookup id := by
  simp [getById, t.sound.getById_eq]

variable {id : Nat} {record : α}

theorem read_of_getById (found : t.getById id = some record) :
    t.registry.array[id]? = some (some record) := by
  rw [getById_eq] at found
  exact join_eq_some_iff.mp found

theorem id_of_getById (found : t.getById id = some record) : idOf record = id :=
  t.sound.indexed id record (read_of_getById found)

theorem lt_invalid_of_getById (found : t.getById id = some record) : id < invalidUser := by
  have small := t.sound.max_lt_invalid
  by_contra large
  rw [getById_eq, t.sound.lookup_of_max_lt (by omega)] at found
  cases found

theorem mem_array_iff (record : α) :
    some record ∈ t.registry.array ↔ t.getById (idOf record) = some record := by
  constructor
  · intro member
    obtain ⟨id, read⟩ := mem_iff_getElem?.mp member
    have own := t.sound.indexed id record read
    simp [getById_eq, Registry.lookup, own, read]
  · exact fun found => mem_of_getElem? (read_of_getById found)

variable {old : α}

theorem getById_put (found : t.getById (idOf record) = some old) :
    (t.put record).getById = Function.update t.getById (idOf record) (some record) := by
  have inside := (List.getElem?_eq_some_iff.mp (read_of_getById found)).1
  funext id
  rw [getById_eq, put, lookup_store inside]
  by_cases same : id = idOf record
  · simp [same]
  · rw [update_of_ne same, update_of_ne same, getById_eq]

theorem put_eq_self (found : t.getById (idOf record) = some record) : t.put record = t := by
  have same : t.registry.store (idOf record) (some record) = t.registry := by
    obtain ⟨_, value⟩ := List.getElem?_eq_some_iff.mp (read_of_getById found)
    simp [store, ← value]
  cases t
  simp only [put, mk.injEq]
  exact same

theorem put_put {again : α} (same : idOf again = idOf record) :
    (t.put record).put again = t.put again := by
  have cells : ((t.registry.store (idOf record) (some record)).store (idOf again) (some again)) =
      t.registry.store (idOf again) (some again) := by
    rw [store, store, store, same, set_set]
  simp only [put, mk.injEq]
  exact cells

theorem total_put (weight : α → Nat) (found : t.getById (idOf record) = some old) :
    (t.put record).total weight + weight old = t.total weight + weight record :=
  total_set weight (some record) (read_of_getById found)

variable {nameOf : α → Text}

variable {name : Text}

theorem getByName_eq_some (found : t.getByName nameOf name = some record) :
    t.getById (idOf record) = some record ∧ nameOf record = name ∧ name ≠ [] := by
  unfold getByName at found
  split at found
  · cases found
  · rename_i valid
    obtain ⟨_, member, here⟩ := exists_of_findSome?_eq_some found
    obtain ⟨rfl, same⟩ := filter_eq_some_iff.mp here
    refine ⟨(mem_array_iff record).mp member, of_decide_eq_true same, ?_⟩
    exact fun empty => valid (.inl empty)

/-- A record that keeps its name is found in its old place. -/
theorem getByName_put (named : t.getByName nameOf name = some old)
    (sameId : idOf record = idOf old) (sameName : nameOf record = name) :
    (t.put record).getByName nameOf name = some record := by
  have max : (t.put record).registry.max = t.registry.max := rfl
  unfold getByName at named ⊢
  split at named
  · cases named
  rename_i valid
  rw [max, if_neg valid]
  obtain ⟨before, _, behind, cells, here, none⟩ := findSome?_eq_some_iff.mp named
  obtain ⟨rfl, _⟩ := filter_eq_some_iff.mp here
  have place : idOf old = before.length := by
    apply t.sound.indexed
    simp [cells]
  have set : (t.put record).registry.array = before ++ some record :: behind := by
    change t.registry.array.set (idOf record) (some record) = _
    simp [cells, sameId, place]
  simp [set, findSome?_eq_none_iff.mpr none, decide_eq_true sameName]

theorem getByName_eq_none (absent : t.getByName nameOf name = none)
    (some : name ≠ []) (found : t.getById id = .some record) :
    nameOf record ≠ name := by
  unfold getByName at absent
  split at absent
  · rename_i impossible
    have empty := impossible.resolve_left some
    have read := read_of_getById found
    rcases t.sound.sized with ⟨none, _⟩ | ⟨_, positive⟩
    · rw [none] at read
      cases read
    · omega
  · intro same
    have here :=
      findSome?_eq_none_iff.mp absent _ (mem_of_getElem? (read_of_getById found))
    rw [filter_some, if_pos (decide_eq_true same)] at here
    cases here

variable {registry : Registry idOf}

theorem lookup_unregister (sound : registry.Sound)
    {out : Option α × Registry idOf} (done : registry.unregister id = some out) :
    out.2.lookup = Function.update registry.lookup id none := by
  have small := sound.max_lt_invalid
  unfold unregister at done
  split at done
  · have absent : registry.lookup id = none := sound.lookup_of_max_lt (by omega)
    cases done
    simp [← absent]
  · split at done
    · cases done
    · rename_i slot read
      cases done
      exact lookup_store (List.getElem?_eq_some_iff.mp read).1 none

theorem getById_remove (id : Nat) : (t.remove id).getById = Function.update t.getById id none := by
  have same : t.getById = t.registry.lookup := funext fun j => getById_eq j
  unfold remove
  split
  · rename_i slot registry done
    rw [same, ← lookup_unregister t.sound done]
    exact funext fun j => getById_eq j
  rename_i failed
  -- only a table that was never allocated has no slot for an id up to its maximum
  have absent : t.registry.lookup id = none := by
    unfold unregister at failed
    split at failed
    · cases failed
    · split at failed
      · rename_i read
        simp [Registry.lookup, read]
      · cases failed
  simp [same, ← absent]

theorem findFree_one (registry : Registry idOf) (sound : registry.Sound) :
    ∃ id, registry.findFree 1 = some id ∧ 0 < id ∧ id < 2 ^ 32 ∧
      (id < registry.max ∧ registry.lookup id = none ∨ id = registry.max ∨ registry.max = 0) := by
  have small := sound.max_lt_invalid
  obtain ⟨id, same, above, _, _, free⟩ :=
    sound.findFreeLoop_spec (registry.max - 1) 1 (by omega)
  refine ⟨id, ?_, above, ?_, ?_⟩
  · exact same
  · simp only [invalidUser] at small
    omega
  · by_cases inside : id < registry.max
    · exact .inl ⟨inside, free (by omega)⟩
    · omega

theorem total_split (sound : registry.Sound) (weight : α → Nat) :
    Tally.total weight registry.array =
      Tally.total weight (registry.array.take registry.max) +
        cell weight (registry.lookup registry.max) := by
  rcases sound.sized with ⟨none, _⟩ | ⟨length, _⟩
  · simp [lookup_of_nil none, none]
  have inside : registry.max < registry.array.length := by omega
  have last : registry.array = registry.array.take registry.max ++
      [registry.lookup registry.max] := by
    rw [Registry.lookup, getElem?_eq_getElem inside, join_some,
      take_concat_get', take_of_length_le (by omega)]
  nth_rewrite 1 [last]
  rw [total_append]
  rfl

/-- Growing the array for a free id loses only the record at the maximum index. -/
theorem lookup_store_grow (sound : registry.Sound)
    (above : registry.max ≤ idOf record) (free : idOf record = registry.max ∨ registry.max = 0) :
    ((registry.grow (idOf record)).store (idOf record) (some record)).lookup =
      Function.update registry.lookup (idOf record) (some record) := by
  rw [lookup_store (sound.lt_length_grow (idOf record))]
  funext j
  by_cases same : j = idOf record
  · simp [same]
  rw [update_of_ne same, update_of_ne same, sound.lookup_grow above]
  split
  · rfl
  -- an id behind the maximum that is not the new one is at most the 0 of an
  -- empty table
  rcases sound.sized with ⟨none, _⟩ | ⟨_, _⟩
  · rw [lookup_of_nil none]
  · rw [sound.lookup_of_max_lt (by omega)]

theorem total_store_grow (sound : registry.Sound)
    (above : registry.max ≤ idOf record) (free : idOf record = registry.max ∨ registry.max = 0)
    (weight : α → Nat) :
    Tally.total weight ((registry.grow (idOf record)).store (idOf record) (some record)).array +
        cell weight (registry.lookup (idOf record)) =
      Tally.total weight registry.array + weight record := by
  have inside := sound.lt_length_grow (idOf record)
  have empty := sound.lookup_grow_self above
  have read : (registry.grow (idOf record)).array[idOf record]? = some none := by
    rw [Registry.lookup, getElem?_eq_getElem inside, join_some] at empty
    rw [getElem?_eq_getElem inside, empty]
  have set := total_set weight (some record) read
  obtain ⟨_, _, _, _, cells⟩ := registry.grow_spec above
  have kept : Tally.total weight (registry.grow (idOf record)).array =
      Tally.total weight (registry.array.take registry.max) := by
    simp [cells, total_append, total_replicate_none]
  have old : registry.lookup (idOf record) = registry.lookup registry.max := by
    rcases free with top | zero
    · rw [top]
    · rcases sound.sized with ⟨none, _⟩ | ⟨_, _⟩
      · rw [lookup_of_nil none, lookup_of_nil none]
      · omega
  have split := total_split sound weight
  rw [old]
  rw [cell_none, cell_some, kept] at set
  simp only [store]
  omega

theorem register_free (sound : registry.Sound)
    (free : idOf record < registry.max ∧ registry.lookup (idOf record) = none ∨
      idOf record = registry.max ∨ registry.max = 0)
    {after : Registry idOf} (done : registry.register record = some (some id, after)) :
    after.lookup = Function.update registry.lookup (idOf record) (some record) ∧ ∀ weight : α → Nat,
        Tally.total weight after.array + cell weight (registry.lookup (idOf record)) =
          Tally.total weight registry.array + weight record := by
  have small : idOf record < intMax := by
    by_contra large
    rw [register, if_pos (.inr (Nat.le_of_not_lt large))] at done
    cases done
  have inside := sound.lt_length_grow (idOf record)
  rw [sound.register_eq small] at done
  rcases Nat.lt_or_ge (idOf record) registry.max with below | above
  · have unused : registry.lookup (idOf record) = none := by
      rcases free with ⟨_, unused⟩ | top | zero
      · exact unused
      · omega
      · omega
    have unchanged : registry.grow (idOf record) = registry := if_neg (Nat.not_le.mpr below)
    rw [unchanged, if_pos unused] at done
    rw [unchanged] at inside
    cases done
    refine ⟨lookup_store inside _, fun weight => ?_⟩
    have read := sound.read_below below
    exact total_set weight (some record) read
  · have atMax : idOf record = registry.max ∨ registry.max = 0 :=
      free.resolve_left fun inside => Nat.not_lt.mpr above inside.1
    rw [if_pos (sound.lookup_grow_self above)] at done
    cases done
    exact ⟨lookup_store_grow sound above atMax, total_store_grow sound above atMax⟩

/-- What `create` does: the record is found under its id, where nothing was registered
unless the id is the maximum index; everything else is as before. -/
theorem create_spec {make : Nat → α} (own : ∀ id < 2 ^ 32, idOf (make id) = id)
    {after : Table idOf} (done : t.create make = some (record, after)) :
    ∃ id, record = make id ∧ idOf record = id ∧ (t.getById id ≠ none → id = t.registry.max) ∧
      after.getById = Function.update t.getById id (some record) ∧
      ∀ weight : α → Nat, after.total weight + cell weight (t.getById id) =
        t.total weight + weight record := by
  obtain ⟨id, found, _, small, free⟩ := findFree_one t.registry t.sound
  rw [create, found, bind_some] at done
  split at done
  · rename_i given registry registered
    obtain ⟨rfl, rfl⟩ := Prod.mk.inj (some.inj done)
    have same := own id small
    obtain ⟨lookup, sum⟩ := register_free t.sound (same.symm ▸ free) registered
    have before : t.getById = t.registry.lookup := funext fun j => getById_eq j
    refine ⟨id, rfl, same, fun used => ?_, ?_, ?_⟩
    · rw [before] at used
      rcases free with ⟨_, unused⟩ | top | zero
      · exact absurd unused used
      · exact top
      · exact absurd (t.sound.lookup_of_max_lt (by omega)) used
    · rw [same] at lookup
      rw [before, ← lookup]
      exact funext fun j => getById_eq j
    · rw [before]
      rw [same] at sum
      exact sum
  · cases done

end Table

end Wzdftpd
