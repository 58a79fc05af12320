import Wzdftpd.Registry

/- A registry against a finite map. -/
namespace Wzdftpd

open Function List Option Runs

namespace Registry

variable {α : Type} {idOf : α → Nat} {t : Registry idOf}

/-- Nothing is allocated, or one cell more than the maximum; every record stands at its id. -/
structure Sound (t : Registry idOf) : Prop where
  sized : t.array = [] ∧ t.max = 0 ∨ t.array.length = t.max + 1 ∧ 0 < t.max
  indexed : ∀ (id : Nat) (record : α), t.array[id]? = some (some record) → idOf record = id
  bounded : t.max < intMax + 256

/-- The record in a slot; there is none outside of the table. -/
def lookup (t : Registry idOf) (id : Nat) : Option α := t.array[id]?.join

def store (t : Registry idOf) (id : Nat) (slot : Option α) : Registry idOf :=
  { t with array := t.array.set id slot }

theorem sound_empty : (empty : Registry idOf).Sound :=
  ⟨.inl ⟨rfl, rfl⟩, fun _ _ found => absurd found (by simp [empty]), by simp [empty, intMax]⟩

variable {id : Nat}

theorem Sound.getElem? (sound : t.Sound) (inside : id ≤ t.max)
    (allocated : t.array ≠ []) : t.array[id]? = some (t.lookup id) := by
  rcases sound.sized with ⟨none, _⟩ | ⟨length, _⟩
  · exact absurd none allocated
  · have below : id < t.array.length := by omega
    rw [lookup, getElem?_eq_getElem below, join_some]

theorem Sound.lookup_of_max_lt (sound : t.Sound) (outside : t.max < id) : t.lookup id = none := by
  have beyond : t.array.length ≤ id := by
    rcases sound.sized with ⟨none, _⟩ | ⟨length, _⟩
    · rw [none, length_nil]
      omega
    · omega
  rw [lookup, getElem?_eq_none beyond, join_none]

theorem lookup_of_nil (unallocated : t.array = []) (id : Nat) : t.lookup id = none := by
  simp [lookup, unallocated]

theorem Sound.max_lt_invalid (sound : t.Sound) : t.max < invalidUser := by
  have bounded := sound.bounded
  simp only [intMax, invalidUser] at *
  omega

theorem Sound.getById_eq (sound : t.Sound) (id : Nat) : t.getById id = some (t.lookup id) := by
  have small := sound.max_lt_invalid
  unfold getById
  split
  · rename_i outside
    rcases outside with invalid | above | unused
    · rw [sound.lookup_of_max_lt (by omega)]
    · rw [sound.lookup_of_max_lt above]
    · rcases sound.sized with ⟨none, _⟩ | ⟨_, positive⟩
      · rw [lookup_of_nil none]
      · omega
  · apply sound.getElem? (by omega)
    rcases sound.sized with ⟨_, zero⟩ | ⟨length, _⟩
    · omega
    · intro none
      rw [none, length_nil] at length
      omega

theorem lookup_store (inside : id < t.array.length) (slot : Option α) :
    (t.store id slot).lookup = Function.update t.lookup id slot := by
  funext j
  unfold lookup store
  by_cases same : j = id
  · rw [same, update_self, getElem?_set_self inside, join_some]
  · rw [update_of_ne same, getElem?_set_ne (Ne.symm same)]

theorem Sound.store (sound : t.Sound) {id : Nat} {slot : Option α} (inside : id < t.array.length)
    (own : ∀ record, slot = some record → idOf record = id) : (t.store id slot).Sound := by
  refine ⟨?_, fun j record found => ?_, sound.bounded⟩
  · rcases sound.sized with ⟨none, _⟩ | ⟨length, positive⟩
    · rw [none, length_nil] at inside
      omega
    · refine .inr ⟨?_, positive⟩
      rw [Registry.store, length_set]
      exact length
  · by_cases same : j = id
    · rw [same] at found ⊢
      rw [Registry.store, getElem?_set_self inside, some.injEq] at found
      exact own record found
    · rw [Registry.store, getElem?_set_ne (Ne.symm same)] at found
      exact sound.indexed j record found

theorem Sound.length_take (sound : t.Sound) : (t.array.take t.max).length = t.max := by
  rw [List.length_take]
  rcases sound.sized with ⟨none, zero⟩ | ⟨length, _⟩
  · rw [none, zero]
    rfl
  · omega

theorem grow_spec (t : Registry idOf) (above : t.max ≤ id) :
    ∃ size, 0 < size ∧ id ≤ t.max + size ∧ t.max + size ≤ id + 256 ∧
      t.grow id = ⟨t.max + size, t.array.take t.max ++ replicate (size + 1) none⟩ := by
  refine ⟨if id ≥ t.max + 255 then id - t.max else 256, ?_, ?_, ?_, if_pos above⟩
  · split <;> omega
  · split <;> omega
  · split <;> omega

theorem Sound.lookup_grow (sound : t.Sound) (above : t.max ≤ id) (j : Nat) :
    (t.grow id).lookup j = if j < t.max then t.lookup j else none := by
  have length := sound.length_take
  obtain ⟨_, _, _, _, same⟩ := t.grow_spec above
  rw [same]
  unfold lookup
  by_cases below : j < t.max
  · rw [if_pos below, getElem?_append_left (by omega), getElem?_take_of_lt below]
  · rw [getElem?_append_right (by omega), getElem?_replicate]
    split <;> rfl

theorem Sound.grow (sound : t.Sound) (small : id < intMax) : (t.grow id).Sound := by
  by_cases above : t.max ≤ id
  · have length := sound.length_take
    have kept := sound.lookup_grow above
    obtain ⟨size, _, _, _, same⟩ := t.grow_spec above
    rw [same] at kept ⊢
    refine ⟨.inr ?_, fun j record found => ?_, ?_⟩
    · simp only [length_append, length_replicate]
      omega
    · have looked := kept j
      rw [lookup, found] at looked
      split at looked
      · apply sound.indexed
        exact join_eq_some_iff.mp looked.symm
      · cases looked
    · change t.max + size < _
      omega
  · rw [Registry.grow, if_neg above]
    exact sound

theorem Sound.lookup_grow_self (sound : t.Sound) (above : t.max ≤ id) :
    (t.grow id).lookup id = none := by
  rw [sound.lookup_grow above, if_neg (Nat.not_lt.mpr above)]

theorem Sound.lt_length_grow (sound : t.Sound) (id : Nat) : id < (t.grow id).array.length := by
  by_cases above : t.max ≤ id
  · have length := sound.length_take
    obtain ⟨_, _, _, _, same⟩ := t.grow_spec above
    rw [same]
    simp only [length_append, length_replicate]
    omega
  · rw [Registry.grow, if_neg above]
    rcases sound.sized with ⟨_, zero⟩ | ⟨length, _⟩
    · omega
    · omega

theorem Sound.lookup_grow_of_free (sound : t.Sound) (id : Nat)
    (free : t.max ≤ id → t.lookup t.max = none) : (t.grow id).lookup = t.lookup := by
  funext j
  by_cases above : t.max ≤ id
  · rw [sound.lookup_grow above]
    split
    · rfl
    · rename_i beyond
      rcases Nat.eq_or_lt_of_le (Nat.not_lt.mp beyond) with same | outside
      · rw [← same, free above]
      · rw [sound.lookup_of_max_lt outside]
  · rw [Registry.grow, if_neg above]

end Registry

inductive RegistryOp (α : Type) where
  | register (record : α)
  | update (id : Nat) (record : α)
  | unregister (id : Nat)
  | getById (id : Nat)

inductive RegistryReply (α : Type) where
  | id (id : Option Nat)
  | code (code : Int)
  | record (record : Option α)

/-- Replies are the same up to which error `user_update` reports. -/
def RegistryReply.Same {α : Type} : RegistryReply α → RegistryReply α → Prop
  | .code one, .code other => one = 0 ↔ other = 0
  | one, other => one = other

namespace Registry

variable {α : Type} {idOf : α → Nat} {t : Registry idOf}

def step (t : Registry idOf) : RegistryOp α → Option (RegistryReply α × Registry idOf)
  | .register record => (t.register record).map fun out => (.id out.1, out.2)
  | .update id record => (t.update id record).map fun out => (.code out.1, out.2)
  | .unregister id => (t.unregister id).map fun out => (.record out.1, out.2)
  | .getById id => (t.getById id).map fun out => (.record out, t)

end Registry

/-- A finite map from ids to records. An id in use is not registered again or moved to. -/
def mapStep {α : Type} (idOf : α → Nat) (m : Nat → Option α) :
    RegistryOp α → RegistryReply α × (Nat → Option α)
  | .register record =>
    if idOf record < intMax ∧ m (idOf record) = none then
      (.id (some (idOf record)), Function.update m (idOf record) (some record))
    else (.id none, m)
  | .update id record =>
    if m id ≠ none ∧ (id = idOf record ∨ m (idOf record) = none) then
      (.code 0, Function.update (Function.update m (idOf record) (some record)) id
        (if id = idOf record then some record else none))
    else (.code (-1), m)
  | .unregister id => (.record (m id), Function.update m id none)
  | .getById id => (.record (m id), m)

namespace Registry

variable {α : Type} {idOf : α → Nat} {t : Registry idOf}

/-- The table does not grow over a slot in use at its maximum, it is allocated when slot 0 is
changed, and a record is moved only inside of it. -/
def Safe (t : Registry idOf) : RegistryOp α → Prop
  | .register record => idOf record < intMax → t.max ≤ idOf record → t.lookup t.max = none
  | .update id record =>
    (id ≤ t.max → t.array ≠ []) ∧ (t.lookup id ≠ none → idOf record ≤ t.max)
  | .unregister id => id ≤ t.max → t.array ≠ []
  | .getById _ => True

def Refines (t : Registry idOf) (op : RegistryOp α) : Prop :=
  ∃ reply next, t.step op = some (reply, next) ∧
    reply.Same (mapStep idOf t.lookup op).1 ∧ next.lookup = (mapStep idOf t.lookup op).2

variable {record : α}

theorem Sound.register_eq (sound : t.Sound) (small : idOf record < intMax) :
    t.register record =
      if (t.grow (idOf record)).lookup (idOf record) = none then
        some (some (idOf record), (t.grow (idOf record)).store (idOf record) (some record))
      else some (none, t.grow (idOf record)) := by
  have valid : ¬(idOf record = invalidUser ∨ idOf record ≥ intMax) := by
    simp only [intMax, invalidUser] at *
    omega
  have inside := sound.lt_length_grow (idOf record)
  have read : (t.grow (idOf record)).array[idOf record]? =
      some ((t.grow (idOf record)).lookup (idOf record)) := by
    rw [lookup, getElem?_eq_getElem inside, join_some]
  simp only [register, if_neg valid, read]
  cases (t.grow (idOf record)).lookup (idOf record) with
  | none => rfl
  | some other => rfl

variable {m : Nat → Option α}

theorem mapStep_register (small : idOf record < intMax)
    (free : m (idOf record) = none) : mapStep idOf m (.register record) =
      (.id (some (idOf record)), Function.update m (idOf record) (some record)) :=
  if_pos ⟨small, free⟩

theorem mapStep_register_refused (refused : ¬(idOf record < intMax ∧ m (idOf record) = none)) :
    mapStep idOf m (.register record) = (.id none, m) :=
  if_neg refused

/-- Where the table grows, the slot at its maximum has to be free. -/
theorem Sound.register_refines_of_max_le (sound : t.Sound)
    (small : idOf record < intMax) (above : t.max ≤ idOf record) :
    t.Refines (.register record) ↔ t.lookup t.max = none := by
  have inside := sound.lt_length_grow (idOf record)
  have cleared : (t.grow (idOf record)).lookup (idOf record) = none := by
    rw [sound.lookup_grow above, if_neg (by omega)]
  have out : t.step (.register record) = some (.id (some (idOf record)),
      (t.grow (idOf record)).store (idOf record) (some record)) := by
    simp only [step, sound.register_eq small, if_pos cleared, map_some]
  constructor
  · rintro ⟨_, _, stepped, same, agrees⟩
    rw [out, some.injEq, Prod.mk.injEq] at stepped
    obtain ⟨rfl, rfl⟩ := stepped
    rw [lookup_store inside] at agrees
    by_cases free : t.lookup (idOf record) = none
    · by_cases top : t.max = idOf record
      · rw [top]
        exact free
      -- the map keeps what stands at the maximum, the table has cleared it
      rw [mapStep_register small free] at agrees
      have kept : (t.grow (idOf record)).lookup t.max = t.lookup t.max := by
        have atMax := congrFun agrees t.max
        simp only [update_of_ne top] at atMax
        exact atMax
      rw [← kept, sound.lookup_grow above, if_neg (Nat.lt_irrefl _)]
    · rw [mapStep_register_refused fun both => free both.2] at same
      cases same
  · intro free
    have kept := sound.lookup_grow_of_free (idOf record) fun _ => free
    have unused : t.lookup (idOf record) = none := by
      rw [← kept]
      exact cleared
    refine ⟨_, _, out, ?_, ?_⟩
    · rw [mapStep_register small unused]
      rfl
    · rw [mapStep_register small unused, lookup_store inside, kept]

theorem Sound.register_refines_of_lt_max (sound : t.Sound)
    (small : idOf record < intMax) (below : idOf record < t.max) :
    t.Refines (.register record) := by
  have same : t.grow (idOf record) = t := if_neg (Nat.not_le.mpr below)
  have inside := sound.lt_length_grow (idOf record)
  have out := sound.register_eq small
  rw [same] at out inside
  by_cases free : t.lookup (idOf record) = none
  · rw [if_pos free] at out
    refine ⟨_, _, by rw [step, out]; rfl, ?_, ?_⟩
    · rw [mapStep_register small free]
      rfl
    · rw [mapStep_register small free, lookup_store inside]
  · rw [if_neg free] at out
    have refused : ¬(idOf record < intMax ∧ t.lookup (idOf record) = none) :=
      fun both => free both.2
    refine ⟨_, _, by rw [step, out]; rfl, ?_, ?_⟩
    · rw [mapStep_register_refused refused]
      rfl
    · rw [mapStep_register_refused refused]

theorem Sound.register_refines_iff (sound : t.Sound) (record : α) :
    t.Refines (.register record) ↔ t.Safe (.register record) := by
  by_cases small : idOf record < intMax
  · by_cases above : t.max ≤ idOf record
    · rw [sound.register_refines_of_max_le small above]
      exact ⟨fun free _ _ => free, fun safe => safe small above⟩
    · refine iff_of_true ?_ fun _ atMax => absurd atMax above
      exact sound.register_refines_of_lt_max small (Nat.not_le.mp above)
  · refine iff_of_true ?_ fun below => absurd below small
    have out : t.register record = some (none, t) := if_pos (.inr (Nat.not_lt.mp small))
    have refused : ¬(idOf record < intMax ∧ t.lookup (idOf record) = none) :=
      fun both => small both.1
    refine ⟨_, _, by rw [step, out]; rfl, ?_, ?_⟩
    · rw [mapStep_register_refused refused]
      rfl
    · rw [mapStep_register_refused refused]

variable {id : Nat}

theorem Sound.lt_length (sound : t.Sound) (inside : id ≤ t.max)
    (allocated : t.array ≠ []) : id < t.array.length := by
  rcases sound.sized with ⟨none, _⟩ | ⟨length, _⟩
  · exact absurd none allocated
  · omega

theorem Sound.unregister_refines_iff (sound : t.Sound) (id : Nat) :
    t.Refines (.unregister id) ↔ t.Safe (.unregister id) := by
  by_cases inside : id ≤ t.max
  · have valid : ¬(id = invalidUser ∨ id > t.max) := by
      have small := sound.max_lt_invalid
      omega
    constructor
    · rintro ⟨_, _, stepped, _⟩ _ unallocated
      simp only [step, unregister, if_neg valid, unallocated, getElem?_nil,
        map_none] at stepped
      cases stepped
    · intro safe
      have read := sound.getElem? inside (safe inside)
      refine ⟨.record (t.lookup id), t.store id none, ?_, rfl, ?_⟩
      · simp only [step, unregister, if_neg valid, read, map_some]
        rfl
      · exact lookup_store (sound.lt_length inside (safe inside)) none
  · refine iff_of_true ?_ fun below => absurd below inside
    have outside : t.lookup id = none := sound.lookup_of_max_lt (Nat.not_le.mp inside)
    refine ⟨.record none, t, ?_, ?_, ?_⟩
    · simp only [step, unregister, if_pos (Or.inr (Nat.not_le.mp inside)), map_some]
    · rw [mapStep, outside]
      rfl
    · rw [mapStep, ← outside, update_eq_self]

theorem Sound.getById_refines (sound : t.Sound) (id : Nat) : t.Refines (.getById id) := by
  refine ⟨.record (t.lookup id), t, ?_, rfl, rfl⟩
  simp only [step, sound.getById_eq, map_some]

theorem mapStep_update (used : m id ≠ none)
    (free : id = idOf record ∨ m (idOf record) = none) : mapStep idOf m (.update id record) =
      (.code 0, Function.update (Function.update m (idOf record) (some record)) id
        (if id = idOf record then some record else none)) :=
  if_pos ⟨used, free⟩

theorem mapStep_update_refused (refused : m id = none ∨ id ≠ idOf record ∧ m (idOf record) ≠ none) :
    mapStep idOf m (.update id record) = (.code (-1), m) := by
  refine if_neg fun both => ?_
  rcases refused with unused | ⟨apart, occupied⟩
  · exact both.1 unused
  · rcases both.2 with same | free
    · exact apart same
    · exact occupied free

theorem refines_of_update_refused {code : Int} (failed : code ≠ 0)
    (out : t.update id record = some (code, t))
    (refused : t.lookup id = none ∨ id ≠ idOf record ∧ t.lookup (idOf record) ≠ none) :
    t.Refines (.update id record) := by
  refine ⟨.code code, t, by rw [step, out]; rfl, ?_, ?_⟩
  · rw [mapStep_update_refused refused]
    exact iff_of_false failed (by decide)
  · rw [mapStep_update_refused refused]

theorem Sound.update_refines_of_used (sound : t.Sound) (record : α)
    (inside : id ≤ t.max) (allocated : t.array ≠ []) (used : t.lookup id ≠ none) :
    t.Refines (.update id record) ↔ idOf record ≤ t.max := by
  have valid : ¬(id = invalidUser ∨ id > t.max) := by
    have small := sound.max_lt_invalid
    omega
  obtain ⟨_, found⟩ := ne_none_iff_exists'.mp used
  have read := sound.getElem? inside allocated
  rw [found] at read
  have bound := sound.lt_length inside allocated
  by_cases same : id = idOf record
  · refine iff_of_true ?_ (same ▸ inside)
    refine ⟨.code 0, t.store id (some record), ?_, ?_, ?_⟩
    · simp only [step, update, if_neg valid, read, if_neg (not_not.mpr same), map_some]
      rfl
    · rw [mapStep_update used (.inl same)]
      exact Iff.rfl
    · rw [mapStep_update used (.inl same), lookup_store bound, if_pos same, ← same, update_idem]
  · by_cases target : idOf record ≤ t.max
    · refine iff_of_true ?_ target
      have there := sound.getElem? target allocated
      cases occupant : t.lookup (idOf record) with
      | none =>
        rw [occupant] at there
        refine ⟨.code 0, (t.store (idOf record) (some record)).store id none, ?_, ?_, ?_⟩
        · simp only [step, update, if_neg valid, read, ne_eq, same, not_false_eq_true, if_true,
            there, map_some]
          rfl
        · rw [mapStep_update used (.inr occupant)]
          exact Iff.rfl
        · have stillInside : id < (t.store (idOf record) (some record)).array.length := by
            rw [Registry.store, length_set]
            exact bound
          rw [mapStep_update used (.inr occupant), lookup_store stillInside,
            lookup_store (sound.lt_length target allocated), if_neg same]
      | some other =>
        rw [occupant] at there
        have occupied : t.lookup (idOf record) ≠ none := by
          rw [occupant]
          exact some_ne_none other
        refine refines_of_update_refused (by decide : (-3 : Int) ≠ 0) ?_ (.inr ⟨same, occupied⟩)
        simp only [update, if_neg valid, read, ne_eq, same, not_false_eq_true, if_true, there]
    · refine iff_of_false ?_ target
      rintro ⟨_, _, stepped, _⟩
      have outside : t.array[idOf record]? = none := by
        apply getElem?_eq_none
        rcases sound.sized with ⟨none, _⟩ | ⟨length, _⟩
        · exact absurd none allocated
        · omega
      simp only [step, update, if_neg valid, read, ne_eq, same, not_false_eq_true, if_true,
        outside, map_none] at stepped
      cases stepped

theorem Sound.update_refines_iff (sound : t.Sound) (id : Nat) (record : α) :
    t.Refines (.update id record) ↔ t.Safe (.update id record) := by
  by_cases inside : id ≤ t.max
  · have valid : ¬(id = invalidUser ∨ id > t.max) := by
      have small := sound.max_lt_invalid
      omega
    by_cases allocated : t.array = []
    · refine iff_of_false ?_ fun safe => safe.1 inside allocated
      rintro ⟨_, _, stepped, _⟩
      simp only [step, update, if_neg valid, allocated, getElem?_nil,
        map_none] at stepped
      cases stepped
    · by_cases used : t.lookup id = none
      · refine iff_of_true ?_ ⟨fun _ => allocated, fun occupied => absurd used occupied⟩
        have read := sound.getElem? inside allocated
        rw [used] at read
        refine refines_of_update_refused (by decide : (-2 : Int) ≠ 0) ?_ (.inl used)
        simp only [update, if_neg valid, read]
      · rw [sound.update_refines_of_used record inside allocated used]
        exact ⟨fun target => ⟨fun _ => allocated, fun _ => target⟩, fun safe => safe.2 used⟩
  · have outside : t.lookup id = none := sound.lookup_of_max_lt (Nat.not_le.mp inside)
    refine iff_of_true ?_ ⟨fun below => absurd below inside, fun used => absurd outside used⟩
    refine refines_of_update_refused (by decide : (-1 : Int) ≠ 0) ?_ (.inl outside)
    exact if_pos (.inr (Nat.not_le.mp inside))

theorem Sound.refines_iff_safe (sound : t.Sound) (op : RegistryOp α) :
    t.Refines op ↔ t.Safe op := by
  cases op with
  | register record => exact sound.register_refines_iff record
  | update id record => exact sound.update_refines_iff id record
  | unregister id => exact sound.unregister_refines_iff id
  | getById id => exact iff_of_true (sound.getById_refines id) trivial

theorem lt_length_of_getElem? {slot : Option α} (read : t.array[id]? = some slot) :
    id < t.array.length :=
  (List.getElem?_eq_some_iff.mp read).1

theorem Sound.register (sound : t.Sound) {out : Option Nat × Registry idOf}
    (done : t.register record = some out) : out.2.Sound := by
  by_cases small : idOf record < intMax
  · have grown := sound.grow small
    rw [sound.register_eq small] at done
    split at done
    · cases done
      apply grown.store (sound.lt_length_grow _)
      intro stored same
      rw [← some.inj same]
    · cases done
      exact grown
  · rw [Registry.register, if_pos (.inr (Nat.not_lt.mp small))] at done
    cases done
    exact sound

theorem Sound.update (sound : t.Sound) {id : Nat} {record : α} {out : Int × Registry idOf}
    (done : t.update id record = some out) : out.2.Sound := by
  have own : ∀ stored, some record = some stored → idOf stored = idOf record :=
    fun stored same => by rw [some.inj same]
  unfold Registry.update at done
  split at done
  · cases done
    exact sound
  split at done
  · cases done
  · cases done
    exact sound
  rename_i read
  have inside := lt_length_of_getElem? read
  split at done
  · split at done
    · cases done
    · cases done
      exact sound
    rename_i there
    cases done
    have moved := sound.store (lt_length_of_getElem? there) own
    refine moved.store ?_ nofun
    rw [Registry.store, length_set]
    exact inside
  · rename_i same
    cases done
    rw [not_not] at same
    exact sound.store inside (same ▸ own)

theorem Sound.unregister (sound : t.Sound) {id : Nat} {out : Option α × Registry idOf}
    (done : t.unregister id = some out) : out.2.Sound := by
  unfold Registry.unregister at done
  split at done
  · cases done
    exact sound
  · split at done
    · cases done
    · rename_i read
      cases done
      exact sound.store (lt_length_of_getElem? read) nofun

theorem Sound.step (sound : t.Sound) {op : RegistryOp α} {out : RegistryReply α × Registry idOf}
    (done : t.step op = some out) : out.2.Sound := by
  cases op with
  | register record =>
    obtain ⟨inner, ran, rfl⟩ := map_eq_some_iff.mp done
    exact sound.register ran
  | update id record =>
    obtain ⟨inner, ran, rfl⟩ := map_eq_some_iff.mp done
    exact sound.update ran
  | unregister id =>
    obtain ⟨inner, ran, rfl⟩ := map_eq_some_iff.mp done
    exact sound.unregister ran
  | getById id =>
    obtain ⟨inner, ran, rfl⟩ := map_eq_some_iff.mp done
    exact sound

end Registry

/-- A registry and a map with the same calls, and the last replies. The registry is gone once a
call has left its table. -/
structure Paired {α : Type} (idOf : α → Nat) where
  registry : Option (RegistryReply α × Registry idOf)
  map : RegistryReply α × (Nat → Option α)

namespace Paired

variable {α : Type} {idOf : α → Nat}

def start (idOf : α → Nat) : Paired idOf := ⟨some (.code 0, .empty), (.code 0, fun _ => none)⟩

def step (s : Paired idOf) (op : RegistryOp α) : Paired idOf :=
  ⟨s.registry.bind fun last => last.2.step op, mapStep idOf s.map.2 op⟩

/-- The registry is there, has answered like the map and holds the same records. -/
def Faithful (s : Paired idOf) : Prop :=
  ∃ reply t, s.registry = some (reply, t) ∧ reply.Same s.map.1 ∧
    ∀ id, t.getById id = some (s.map.2 id)

def SafeCall (s : Paired idOf) (op : RegistryOp α) : Prop :=
  ∀ last, s.registry = some last → last.2.Safe op

def SoundRegistry (s : Paired idOf) : Prop := ∀ last, s.registry = some last → last.2.Sound

theorem soundRegistry_step (s : Paired idOf) (op : RegistryOp α) (sound : s.SoundRegistry) :
    (s.step op).SoundRegistry := by
  intro last done
  obtain ⟨before, here, ran⟩ := bind_eq_some_iff.mp done
  exact (sound before here).step ran

theorem faithful_step_iff {s : Paired idOf} (op : RegistryOp α) (faithful : s.Faithful)
    (sound : s.SoundRegistry) : (s.step op).Faithful ↔ s.SafeCall op := by
  obtain ⟨_, t, here, _, agrees⟩ := faithful
  have soundHere : t.Sound := sound _ here
  have sameMap : s.map.2 = t.lookup := by
    funext id
    have known := agrees id
    rw [soundHere.getById_eq, some.injEq] at known
    exact known.symm
  have safe : s.SafeCall op ↔ t.Safe op := by
    constructor
    · exact fun call => call _ here
    · intro call last found
      rw [here, some.injEq] at found
      rw [← found]
      exact call
  have next : (s.step op).registry = t.step op := by
    rw [step, here]
    rfl
  rw [safe, ← soundHere.refines_iff_safe]
  constructor
  · rintro ⟨answer, after, done, same, holds⟩
    rw [next] at done
    have soundAfter : after.Sound := soundHere.step done
    rw [step, sameMap] at same holds
    refine ⟨answer, after, done, same, funext fun id => ?_⟩
    have known := holds id
    rw [soundAfter.getById_eq, some.injEq] at known
    exact known
  · rintro ⟨answer, after, done, same, holds⟩
    have soundAfter : after.Sound := soundHere.step done
    refine ⟨answer, after, next.trans done, ?_, fun id => ?_⟩
    · rw [step, sameMap]
      exact same
    · rw [soundAfter.getById_eq, holds, step, sameMap]

theorem faithful_start : (start idOf).Faithful :=
  ⟨.code 0, .empty, rfl, Iff.rfl, fun _ => if_pos (.inr (.inr rfl))⟩

theorem soundRegistry_start : (start idOf).SoundRegistry := by
  intro last found
  rw [start, some.injEq] at found
  rw [← found]
  exact Registry.sound_empty

theorem faithful_throughout_iff (ops : List (RegistryOp α)) :
    Throughout step Faithful (start idOf) ops ↔ Always step SafeCall (start idOf) ops := by
  have both := throughout_iff_always step
    (fun s : Paired idOf => s.Faithful ∧ s.SoundRegistry) SafeCall
    (fun s op good => by
      rw [← faithful_step_iff op good.1 good.2]
      exact and_iff_left (soundRegistry_step s op good.2)) ops (start idOf)
    ⟨faithful_start, soundRegistry_start⟩
  rw [← both]
  constructor
  · intro faithful passed before
    refine ⟨faithful passed before, ?_⟩
    exact throughout_of_step soundRegistry_step ops soundRegistry_start passed before
  · exact fun throughout => throughout.imp fun _ good => good.1

end Paired

/-- The registries of users and of groups are finite maps along a run of calls
exactly if every call of the run is safe. -/
theorem registries_faithful_iff (userCalls : List (RegistryOp User))
    (groupCalls : List (RegistryOp GroupRecord)) :
    (Throughout Paired.step Paired.Faithful (Paired.start User.uid) userCalls ↔
      Always Paired.step Paired.SafeCall (Paired.start User.uid) userCalls) ∧
    (Throughout Paired.step Paired.Faithful (Paired.start GroupRecord.gid) groupCalls ↔
      Always Paired.step Paired.SafeCall (Paired.start GroupRecord.gid) groupCalls) :=
  ⟨Paired.faithful_throughout_iff userCalls, Paired.faithful_throughout_iff groupCalls⟩

def userNumbered (uid : Nat) : User := { srvUser with uid := uid }

def registerTwo : List (RegistryOp User) :=
  [.register (userNumbered 255), .register (userNumbered 256)]

/-- The second user takes the table beyond its maximum, and the first one is lost. -/
theorem register_loses_user :
    ((userRegister (userNumbered 255) .empty).bind fun first => userGetById 255 first.2) =
        some (some (userNumbered 255)) ∧
      ((userRegister (userNumbered 255) .empty).bind fun first =>
        (userRegister (userNumbered 256) first.2).bind fun second =>
          userGetById 255 second.2) = some none ∧
      ¬Throughout Paired.step Paired.Faithful (Paired.start User.uid) registerTwo := by
  refine ⟨rfl, rfl, fun faithful => ?_⟩
  obtain ⟨_, _, here, _, agrees⟩ := faithful registerTwo (prefix_refl _)
  have lost : (registerTwo.foldl Paired.step (Paired.start User.uid)).registry.bind
      (fun last => last.2.getById 255) = some none := rfl
  rw [here, bind_some, agrees] at lost
  cases lost

end Wzdftpd
