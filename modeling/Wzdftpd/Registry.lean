import Wzdftpd.Login
import Wzdftpd.Runs

/- The registries of users and groups (wzd_user.c, wzd_group.c): a table of
pointers indexed by id that only grows. Both files have the same functions, so
they are written once over the type of the records and the field that holds the
id. An access outside of the table makes a function return `none`. -/
namespace Wzdftpd

/-- The largest `int`. -/
def intMax : Nat := 2 ^ 31 - 1

/-- `_max_uid` and `_user_array`, or `_max_gid` and `_group_array`. The array is
empty as long as nothing has been allocated. -/
structure Registry {α : Type} (idOf : α → Nat) where
  max : Nat
  array : List (Option α)

namespace Registry

variable {α : Type} {idOf : α → Nat}

def empty : Registry idOf := ⟨0, []⟩

/-- The extent of the table in `user_register`: the cells from the old maximum on are cleared. -/
def grow (t : Registry idOf) (id : Nat) : Registry idOf :=
  if id ≥ t.max then
    let size := if id ≥ t.max + 255 then id - t.max else 256
    ⟨t.max + size, t.array.take t.max ++ List.replicate (size + 1) none⟩
  else t

/-- `user_register`, `group_register`: the id, or `none` for -1. -/
def register (record : α) (t : Registry idOf) : Option (Option Nat × Registry idOf) :=
  let id := idOf record
  if id = invalidUser ∨ id ≥ intMax then some (none, t)
  else
    let t := t.grow id
    match t.array[id]? with
    | none => none
    | some (some _) => some (none, t)
    | some none => some (some id, { t with array := t.array.set id (some record) })

/-- `user_update`, `group_update`. The new id is not compared with the maximum. -/
def update (id : Nat) (record : α) (t : Registry idOf) : Option (Int × Registry idOf) :=
  if id = invalidUser ∨ id > t.max then some (-1, t)
  else
    match t.array[id]? with
    | none => none
    | some none => some (-2, t)
    | some (some _) =>
      if id ≠ idOf record then
        match t.array[idOf record]? with
        | none => none
        | some (some _) => some (-3, t)
        | some none =>
          some (0, { t with array := (t.array.set (idOf record) (some record)).set id none })
      else some (0, { t with array := t.array.set id (some record) })

/-- `user_unregister`, `group_unregister` -/
def unregister (id : Nat) (t : Registry idOf) : Option (Option α × Registry idOf) :=
  if id = invalidUser ∨ id > t.max then some (none, t)
  else
    match t.array[id]? with
    | none => none
    | some slot => some (slot, { t with array := t.array.set id none })

/-- `user_get_by_id`, `group_get_by_id` -/
def getById (id : Nat) (t : Registry idOf) : Option (Option α) :=
  if id = invalidUser ∨ id > t.max ∨ t.max = 0 then some none else t.array[id]?

/-- The loop of `user_get_list` over the ids below a bound: the ids it stores. -/
def listBelow (t : Registry idOf) : Nat → Option (List Nat)
  | 0 => some []
  | bound + 1 =>
    match t.listBelow bound, t.array[bound]? with
    | some ids, some (some record) =>
      some (if idOf record ≠ invalidUser then ids ++ [idOf record] else ids)
    | some ids, some none => some ids
    | _, _ => none

/-- `user_get_list`, `group_get_list`: the cells, `none` where one is not written. The maximum
is not looked at. -/
def getList (t : Registry idOf) : Option (List (Option Nat)) :=
  (t.listBelow t.max).map fun ids =>
    (ids.map some ++ some invalidUser :: List.replicate (t.max - ids.length) none).set t.max
      (some invalidUser)

/-- The loop of `user_find_free_uid`, with the number of turns it has left. -/
def findFreeLoop (t : Registry idOf) : Nat → Nat → Option Nat
  | 0, id => some id
  | turns + 1, id =>
    if id = invalidUser then some id
    else
      match t.array[id]? with
      | none => none
      | some none => some id
      | some (some _) => t.findFreeLoop turns (id + 1)

/-- `user_find_free_uid`, `group_find_free_gid` -/
def findFree (start : Nat) (t : Registry idOf) : Option Nat :=
  let start := if start = invalidUser then 0 else start
  t.findFreeLoop (t.max - start) start

end Registry

abbrev UserRegistry := Registry User.uid

structure GroupRecord where
  gid : Nat
  group : Group

abbrev GroupRegistry := Registry GroupRecord.gid

def userRegister : User → UserRegistry → Option (Option Nat × UserRegistry) := Registry.register
def userUpdate : Nat → User → UserRegistry → Option (Int × UserRegistry) := Registry.update
def userUnregister : Nat → UserRegistry → Option (Option User × UserRegistry) :=
  Registry.unregister
def userGetById : Nat → UserRegistry → Option (Option User) := Registry.getById
def userGetList : UserRegistry → Option (List (Option Nat)) := Registry.getList
def userFindFreeUid : Nat → UserRegistry → Option Nat := Registry.findFree

def groupRegister : GroupRecord → GroupRegistry → Option (Option Nat × GroupRegistry) :=
  Registry.register
def groupUpdate : Nat → GroupRecord → GroupRegistry → Option (Int × GroupRegistry) :=
  Registry.update
def groupUnregister : Nat → GroupRegistry → Option (Option GroupRecord × GroupRegistry) :=
  Registry.unregister
def groupGetById : Nat → GroupRegistry → Option (Option GroupRecord) := Registry.getById
def groupGetList : GroupRegistry → Option (List (Option Nat)) := Registry.getList
def groupFindFreeGid : Nat → GroupRegistry → Option Nat := Registry.findFree

end Wzdftpd
