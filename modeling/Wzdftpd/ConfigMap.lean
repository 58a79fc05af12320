import Wzdftpd.ConfigFile
import Wzdftpd.Runs

/- A configuration object as a map from groups to maps from keys to values. -/
namespace Wzdftpd

open ConfigGroup List Option Function

/-- What a configuration is for: groups of keys with values. -/
abbrev ConfigMap := Text → Option (Text → Option Text)

inductive ConfigOp where
  | setValue (groupname key value : Text)
  | removeKey (groupname key : Text)
  | removeGroup (groupname : Text)
  deriving Repr, DecidableEq

namespace ConfigMap

def apply (map : ConfigMap) : ConfigOp → ConfigMap
  | .setValue groupname key value =>
    Function.update map groupname
      (some (Function.update ((map groupname).getD fun _ => none) key (some value)))
  | .removeKey groupname key =>
    Function.update map groupname
      ((map groupname).map fun keys => Function.update keys key none)
  | .removeGroup groupname => Function.update map groupname none

def get (map : ConfigMap) (groupname key : Text) : Option Text :=
  (map groupname).bind fun keys => keys key

end ConfigMap

namespace ConfigOp

/-- What a call says about the value of a key: a value, that there is none, or nothing. -/
def settles (groupname key : Text) : ConfigOp → Option (Option Text)
  | .setValue g k value => if g = groupname ∧ k = key then some (some value) else none
  | .removeKey g k => if g = groupname ∧ k = key then some none else none
  | .removeGroup g => if g = groupname then some none else none

/-- What a call says about there being a group. -/
def settlesGroup (groupname : Text) : ConfigOp → Option Bool
  | .setValue g _ _ => if g = groupname then some true else none
  | .removeKey _ _ => none
  | .removeGroup g => if g = groupname then some false else none

end ConfigOp

/-- The value last set for a key and not removed since. -/
def lastValue (ops : List ConfigOp) (groupname key : Text) : Option Text :=
  (ops.reverse.findSome? (ConfigOp.settles groupname key)).getD none

/-- A group has been set and not removed since. -/
def lastGroup (ops : List ConfigOp) (groupname : Text) : Bool :=
  (ops.reverse.findSome? (ConfigOp.settlesGroup groupname)).getD false

namespace ConfigMap

variable (map : ConfigMap) (op : ConfigOp) (ops : List ConfigOp)

theorem get_apply (groupname key : Text) :
    (map.apply op).get groupname key = (op.settles groupname key).getD (map.get groupname key) := by
  cases op with
  | setValue g k value =>
    simp only [apply, get, ConfigOp.settles]
    rcases eq_or_ne groupname g with rfl | other
    · rw [update_self, bind_some]
      rcases eq_or_ne key k with rfl | otherKey
      · rw [update_self, if_pos ⟨rfl, rfl⟩, getD_some]
      · rw [update_of_ne otherKey, if_neg fun same => otherKey same.2.symm]
        cases map groupname <;> rfl
    · rw [update_of_ne other, if_neg fun same => other same.1.symm, getD_none]
  | removeKey g k =>
    simp only [apply, get, ConfigOp.settles]
    rcases eq_or_ne groupname g with rfl | other
    · rw [update_self]
      rcases eq_or_ne key k with rfl | otherKey
      · rw [if_pos ⟨rfl, rfl⟩]
        cases map groupname with
        | none => rfl
        | some keys => exact update_self key none keys
      · rw [if_neg fun same => otherKey same.2.symm]
        cases map groupname with
        | none => rfl
        | some keys => exact update_of_ne otherKey none keys
    · rw [update_of_ne other, if_neg fun same => other same.1.symm, getD_none]
  | removeGroup g =>
    simp only [apply, get, ConfigOp.settles]
    rcases eq_or_ne groupname g with rfl | other
    · simp
    · rw [update_of_ne other, if_neg other.symm, getD_none]

theorem isSome_apply (groupname : Text) :
    (map.apply op groupname).isSome = (op.settlesGroup groupname).getD (map groupname).isSome := by
  cases op with
  | setValue g k value =>
    simp only [apply, ConfigOp.settlesGroup]
    rcases eq_or_ne groupname g with rfl | other
    · simp
    · rw [update_of_ne other, if_neg other.symm, getD_none]
  | removeKey g k =>
    simp only [apply, ConfigOp.settlesGroup]
    rcases eq_or_ne groupname g with rfl | other
    · simp
    · rw [update_of_ne other, getD_none]
  | removeGroup g =>
    simp only [apply, ConfigOp.settlesGroup]
    rcases eq_or_ne groupname g with rfl | other
    · simp
    · rw [update_of_ne other, if_neg other.symm, getD_none]

theorem get_run (groupname key : Text) :
    (ops.foldl apply (fun _ => none)).get groupname key = lastValue ops groupname key :=
  Runs.observe_foldl (fun map => get map groupname key) (ConfigOp.settles groupname key)
    (fun map op => get_apply map op groupname key) ops fun _ => none

theorem isSome_run (groupname : Text) :
    (ops.foldl apply (fun _ => none) groupname).isSome = lastGroup ops groupname :=
  Runs.observe_foldl (fun map => (map groupname).isSome) (ConfigOp.settlesGroup groupname)
    (fun map op => isSome_apply map op groupname) ops fun _ => none

end ConfigMap

/-- The entries of a group that was filled by calls: one per key, and no comments. -/
structure KeyValues.Distinct (values : List KeyValue) : Prop where
  keyed : ∀ kv ∈ values, kv.key ≠ none
  distinct : (values.map KeyValue.key).Nodup

/-- An empty group without a name, and one group per name. -/
structure ConfigTree.Plain (config : ConfigTree) : Prop where
  first : ∃ rest, config.groups = init none :: rest
  distinct : (config.groups.map name).Nodup
  uncommented : ∀ group ∈ config.groups, group.comment = none
  values : ∀ group ∈ config.groups, KeyValues.Distinct group.values

/-- The map that a list of entries stands for. -/
def keysOf (values : List KeyValue) (key : Text) : Option Text :=
  (lookupKeyvalue values key).map KeyValue.value

def ConfigTree.toMap (config : ConfigTree) : ConfigMap := fun groupname =>
  (config.lookupGroup groupname).map fun group => keysOf group.values

theorem lookupKeyvalue_replaceValue (values : List KeyValue) (key : Text) (f : Text → Text)
    (other : Text) :
    lookupKeyvalue (replaceValue values key f) other =
      if other = key then
        (lookupKeyvalue values key).map fun kv => { kv with value := f kv.value }
      else lookupKeyvalue values other := by
  have kept : ∀ kv : KeyValue, KeyValue.key { kv with value := f kv.value } = kv.key :=
    fun _ => rfl
  unfold lookupKeyvalue replaceValue
  rw [NamedList.lookup_modify kept]
  simp

theorem map_key_replaceValue (values : List KeyValue) (key : Text) (f : Text → Text) :
    (replaceValue values key f).map KeyValue.key = values.map KeyValue.key :=
  NamedList.map_key_modify (f := fun kv => { kv with value := f kv.value }) (fun _ => rfl) values _

theorem keysOf_append (values : List KeyValue) (key value : Text)
    (absent : lookupKeyvalue values key = none) :
    keysOf (values ++ [⟨some key, value⟩]) = Function.update (keysOf values) key (some value) := by
  funext k
  unfold keysOf lookupKeyvalue at *
  rw [NamedList.lookup_append, NamedList.lookup_cons]
  rcases eq_or_ne k key with rfl | other
  · simp [absent]
  · rw [update_of_ne other, if_neg fun same => other (some.inj same).symm,
      NamedList.lookup_nil, or_none]

theorem keysOf_replaceValue (values : List KeyValue) (key value : Text)
    (present : lookupKeyvalue values key ≠ none) :
    keysOf (replaceValue values key fun _ => value) =
      Function.update (keysOf values) key (some value) := by
  funext k
  unfold keysOf
  rw [lookupKeyvalue_replaceValue]
  rcases eq_or_ne k key with rfl | other
  · obtain ⟨_, found⟩ := ne_none_iff_exists'.mp present
    simp [found]
  · simp [other]

variable {values : List KeyValue}

theorem keysOf_remove (plain : KeyValues.Distinct values) (key : Text) :
    keysOf (NamedList.remove KeyValue.key (some key) values) =
      Function.update (keysOf values) key none := by
  funext k
  unfold keysOf lookupKeyvalue
  rw [NamedList.lookup_remove plain.distinct]
  rcases eq_or_ne k key with rfl | other
  · simp
  · rw [update_of_ne other, if_neg fun same => other (some.inj same)]

namespace KeyValues.Distinct

theorem nil : KeyValues.Distinct [] where
  keyed := fun _ member => absurd member not_mem_nil
  distinct := nodup_nil

theorem append (plain : KeyValues.Distinct values) {key : Text} (value : Text)
    (absent : lookupKeyvalue values key = none) :
    KeyValues.Distinct (values ++ [⟨some key, value⟩]) := by
  constructor
  · exact forall_mem_append.mpr ⟨plain.keyed, forall_mem_singleton.mpr (some_ne_none key)⟩
  · exact NamedList.nodup_append plain.distinct ((NamedList.lookup_eq_none_iff _ _).mp absent)

theorem replaceValue (plain : KeyValues.Distinct values) (key : Text) (f : Text → Text) :
    KeyValues.Distinct (replaceValue values key f) := by
  constructor
  · intro kv member
    rcases NamedList.mem_modify member with old | ⟨before, old, same, rfl⟩
    · exact plain.keyed kv old
    · exact plain.keyed before old
  · rw [map_key_replaceValue]
    exact plain.distinct

theorem remove (plain : KeyValues.Distinct values) (key : Text) :
    KeyValues.Distinct (NamedList.remove KeyValue.key (some key) values) :=
  ⟨fun kv member => plain.keyed kv (mem_of_mem_eraseP member),
    NamedList.nodup_remove plain.distinct (some key)⟩

end KeyValues.Distinct

namespace ConfigTree

theorem getValue_eq (config : ConfigTree) (groupname key : Text) :
    config.getValue groupname key = config.toMap.get groupname key := by
  unfold getValue ConfigMap.get toMap keysOf
  cases config.lookupGroup groupname with
  | none => rfl
  | some group =>
    exact map_eq_bind.symm

theorem hasKey_eq (config : ConfigTree) (groupname key : Text) :
    config.hasKey groupname key = (config.toMap.get groupname key).isSome := by
  unfold hasKey ConfigMap.get toMap keysOf
  cases config.lookupGroup groupname with
  | none => rfl
  | some group => rw [map_some, bind_some, bind_some, isSome_map]

theorem hasGroup_eq (config : ConfigTree) (groupname : Text) :
    config.hasGroup groupname = (config.toMap groupname).isSome := by
  unfold hasGroup toMap
  rw [isSome_map]

theorem name_withValues (values : List KeyValue) (group : ConfigGroup) :
    name { group with values := values } = group.name := rfl

theorem lookupGroup_putValues (config : ConfigTree) (groupname other : Text)
    (values : List KeyValue) :
    (config.putValues groupname values).lookupGroup other =
      if other = groupname then
        (config.lookupGroup groupname).map fun group => { group with values := values }
      else config.lookupGroup other := by
  unfold lookupGroup putValues
  rw [NamedList.lookup_modify (name_withValues values)]
  simp

theorem names_putValues (config : ConfigTree) (groupname : Text) (values : List KeyValue) :
    (config.putValues groupname values).groups.map name = config.groups.map name :=
  NamedList.map_key_modify (name_withValues values) config.groups _

variable {config : ConfigTree} {groupname : Text}

theorem toMap_putValues {group : ConfigGroup} (found : config.lookupGroup groupname = some group)
    (values : List KeyValue) :
    (config.putValues groupname values).toMap =
      Function.update config.toMap groupname (some (keysOf values)) := by
  funext g
  unfold toMap
  rw [lookupGroup_putValues]
  rcases eq_or_ne g groupname with rfl | other
  · simp [found]
  · simp [other]

theorem toMap_of_found {group : ConfigGroup} (found : config.lookupGroup groupname = some group) :
    config.toMap groupname = some (keysOf group.values) := by
  unfold toMap
  simp [found]

theorem lookupGroup_addGroup (absent : config.lookupGroup groupname = none) (other : Text) :
    (config.addGroup groupname).lookupGroup other =
      if other = groupname then some (init (some groupname))
      else config.lookupGroup other := by
  unfold lookupGroup addGroup at *
  rw [NamedList.lookup_append, NamedList.lookup_cons, NamedList.lookup_nil]
  rcases eq_or_ne other groupname with rfl | different
  · rw [absent, if_pos rfl]
    exact if_pos rfl
  · have apart : (init (some groupname)).name ≠ some other :=
      fun same => different (some.inj same).symm
    simp [apart, different]

namespace Plain

theorem new : ConfigTree.new.Plain where
  first := ⟨[], rfl⟩
  distinct := nodup_singleton _
  uncommented := fun group member => by
    rw [mem_singleton.mp member]
    rfl
  values := fun group member => by
    rw [mem_singleton.mp member]
    exact KeyValues.Distinct.nil

variable {config : ConfigTree}

theorem found (plain : config.Plain) {group : ConfigGroup}
    (found : config.lookupGroup groupname = some group) : KeyValues.Distinct group.values :=
  plain.values group (NamedList.mem_of_lookup found)

theorem putValues (plain : config.Plain) (groupname : Text) (distinct : KeyValues.Distinct values) :
    (config.putValues groupname values).Plain := by
  obtain ⟨rest, start⟩ := plain.first
  refine ⟨⟨NamedList.modify name (some groupname) (fun group =>
    { group with values := values }) rest, ?_⟩, ?_, ?_, ?_⟩
  · unfold ConfigTree.putValues
    rw [start]
    rfl
  · rw [names_putValues]
    exact plain.distinct
  · intro group member
    rcases NamedList.mem_modify member with old | ⟨before, old, same, rfl⟩
    · exact plain.uncommented group old
    · exact plain.uncommented before old
  · intro group member
    rcases NamedList.mem_modify member with old | ⟨before, old, same, rfl⟩
    · exact plain.values group old
    · exact distinct

theorem addGroup (plain : config.Plain) (absent : config.lookupGroup groupname = none) :
    (config.addGroup groupname).Plain := by
  obtain ⟨rest, start⟩ := plain.first
  refine ⟨⟨rest ++ [init (some groupname)], ?_⟩, ?_, ?_, ?_⟩
  · unfold ConfigTree.addGroup
    simp [start]
  · exact NamedList.nodup_append plain.distinct ((NamedList.lookup_eq_none_iff _ _).mp absent)
  · exact forall_mem_append.mpr ⟨plain.uncommented, forall_mem_singleton.mpr rfl⟩
  · exact forall_mem_append.mpr ⟨plain.values, forall_mem_singleton.mpr KeyValues.Distinct.nil⟩

end Plain

theorem withGroup_spec (plain : config.Plain) (groupname : Text) :
    ∃ group, (config.withGroup groupname).lookupGroup groupname = some group ∧
      (config.withGroup groupname).Plain ∧
      keysOf group.values = (config.toMap groupname).getD (fun _ => none) ∧
      ∀ g, g ≠ groupname → (config.withGroup groupname).toMap g = config.toMap g := by
  unfold withGroup
  cases lookup : config.lookupGroup groupname with
  | none =>
    rw [if_pos rfl]
    refine ⟨init (some groupname), ?_, plain.addGroup lookup, ?_, ?_⟩
    · simp [lookupGroup_addGroup lookup]
    · unfold toMap
      rw [lookup]
      rfl
    · intro g other
      unfold toMap
      rw [lookupGroup_addGroup lookup, if_neg other]
  | some group =>
    refine ⟨group, lookup, plain, ?_, fun g other => rfl⟩
    simp [toMap_of_found lookup]

theorem update_of_apart {map other : ConfigMap} (apart : ∀ g, g ≠ groupname → map g = other g)
    (keys : Option (Text → Option Text)) :
    Function.update map groupname keys = Function.update other groupname keys := by
  funext g
  rcases eq_or_ne g groupname with rfl | different
  · simp
  · rw [update_of_ne different, update_of_ne different, apart g different]

/-- `config_set_value` always succeeds, and sets the value of the map. -/
theorem setValue_refines (plain : config.Plain) (groupname key value : Text) :
    (config.setValue groupname key value).1 = .ok ∧ (config.setValue groupname key value).2.Plain ∧
      (config.setValue groupname key value).2.toMap =
        config.toMap.apply (.setValue groupname key value) := by
  obtain ⟨_, lookup, kept, keys, apart⟩ := withGroup_spec plain groupname
  unfold setValue
  simp only
  rw [lookup]
  simp only
  split
  · rename_i absent
    unfold addKey
    rw [if_pos absent]
    refine ⟨rfl, kept.putValues groupname ((kept.found lookup).append value absent), ?_⟩
    rw [toMap_putValues lookup, keysOf_append _ _ _ absent, keys, update_of_apart apart]
    rfl
  · rename_i present
    refine ⟨rfl, kept.putValues groupname ((kept.found lookup).replaceValue key _), ?_⟩
    rw [toMap_putValues lookup, keysOf_replaceValue _ _ _ present, keys, update_of_apart apart]
    rfl

theorem removeKey_refines (plain : config.Plain) (groupname key : Text) :
    (config.removeKey groupname key).2.Plain ∧
      (config.removeKey groupname key).2.toMap = config.toMap.apply (.removeKey groupname key) := by
  simp only [removeKey, ConfigMap.apply]
  cases lookup : config.lookupGroup groupname with
  | none =>
    have absent : config.toMap groupname = none := by
      unfold toMap
      simp [lookup]
    refine ⟨plain, ?_⟩
    rw [absent, map_none, ← absent, update_eq_self]
  | some group =>
    rw [toMap_of_found lookup, map_some]
    simp only
    split
    · rename_i absent
      have same : Function.update (keysOf group.values) key none = keysOf group.values := by
        have none_there : keysOf group.values key = none := by
          unfold keysOf
          simp [absent]
        simp [← none_there]
      refine ⟨plain, ?_⟩
      simp [same, ← toMap_of_found lookup]
    · refine ⟨plain.putValues groupname ((plain.found lookup).remove key), ?_⟩
      rw [toMap_putValues lookup, keysOf_remove (plain.found lookup)]

theorem removeGroup_refines (plain : config.Plain) (groupname : Text) :
    (config.removeGroup groupname).2.Plain ∧
      (config.removeGroup groupname).2.toMap = config.toMap.apply (.removeGroup groupname) := by
  simp only [removeGroup, ConfigMap.apply]
  cases position : config.groups.findIdx? fun group => group.name = some groupname with
  | none =>
    have absent : config.toMap groupname = none := by
      unfold toMap lookupGroup NamedList.lookup
      rw [findIdx?_eq_none_iff] at position
      rw [find?_eq_none.mpr fun group member => by
        rw [position group member]
        exact Bool.false_ne_true, map_none]
    refine ⟨plain, ?_⟩
    simp [← absent]
  | some removed =>
    obtain ⟨rest, start⟩ := plain.first
    refine ⟨⟨⟨NamedList.remove name (some groupname) rest, ?_⟩, ?_, ?_, ?_⟩, ?_⟩
    · simp only
      rw [start]
      exact eraseP_cons_of_neg (by simp [init])
    · exact NamedList.nodup_remove plain.distinct _
    · exact fun group member => plain.uncommented group (mem_of_mem_eraseP member)
    · exact fun group member => plain.values group (mem_of_mem_eraseP member)
    · funext g
      unfold toMap lookupGroup
      rw [NamedList.lookup_remove plain.distinct]
      rcases eq_or_ne g groupname with rfl | other
      · simp
      · rw [update_of_ne other, if_neg fun same => other (some.inj same)]

def apply (config : ConfigTree) : ConfigOp → CfCode × ConfigTree
  | .setValue groupname key value => config.setValue groupname key value
  | .removeKey groupname key => config.removeKey groupname key
  | .removeGroup groupname => config.removeGroup groupname

def run (ops : List ConfigOp) : ConfigTree := ops.foldl (fun config op => (config.apply op).2) new

theorem apply_refines (plain : config.Plain) (op : ConfigOp) :
    (config.apply op).2.Plain ∧ (config.apply op).2.toMap = config.toMap.apply op := by
  cases op with
  | setValue groupname key value => exact (setValue_refines plain groupname key value).2
  | removeKey groupname key => exact removeKey_refines plain groupname key
  | removeGroup groupname => exact removeGroup_refines plain groupname

variable (ops : List ConfigOp)

theorem foldl_refines : ∀ {config : ConfigTree}, config.Plain →
    (ops.foldl (fun config op => (config.apply op).2) config).Plain ∧
      (ops.foldl (fun config op => (config.apply op).2) config).toMap =
        ops.foldl ConfigMap.apply config.toMap := by
  induction ops with
  | nil => exact fun plain => ⟨plain, rfl⟩
  | cons op ops ih =>
    intro config plain
    obtain ⟨kept, same⟩ := apply_refines plain op
    rw [foldl_cons, foldl_cons, ← same]
    exact ih kept

theorem plain_run : (run ops).Plain := (foldl_refines ops Plain.new).1

theorem toMap_run : (run ops).toMap = ops.foldl ConfigMap.apply fun _ => none :=
  (foldl_refines ops Plain.new).2

theorem Plain.named (plain : config.Plain) {rest : List ConfigGroup}
    (start : config.groups = init none :: rest) :
    ∀ group ∈ rest, group.name ≠ none := by
  intro group member unnamed
  have distinct := plain.distinct
  rw [start, map_cons, nodup_cons] at distinct
  refine distinct.1 ?_
  rw [show (init none).name = group.name from unnamed.symm]
  exact mem_map_of_mem member

theorem Plain.getGroups (plain : config.Plain) :
    ∃ names : List Text, config.getGroups = none :: names.map some ∧ names.Nodup ∧
      ∀ groupname, groupname ∈ names ↔ config.hasGroup groupname = true := by
  obtain ⟨rest, start⟩ := plain.first
  have distinct := plain.distinct
  rw [start, map_cons, nodup_cons] at distinct
  have names : (rest.filterMap name).map some = rest.map name := by
    rw [map_filterMap]
    refine filterMap_eq_map_iff_forall_eq_some.mpr fun group member => ?_
    obtain ⟨name, is⟩ := ne_none_iff_exists'.mp (plain.named start group member)
    simp [is]
  refine ⟨rest.filterMap name, ?_, ?_, ?_⟩
  · unfold ConfigTree.getGroups
    rw [start, names]
    rfl
  · exact Nodup.of_map some (names ▸ distinct.2)
  intro groupname
  rw [← List.mem_map_of_injective (some_injective Text), names]
  unfold hasGroup lookupGroup
  rw [isSome_iff_ne_none, Ne, NamedList.lookup_eq_none_iff, not_not, start, map_cons, mem_cons]
  constructor
  · exact .inr
  · rintro (unnamed | member)
    · cases unnamed
    · exact member

end ConfigTree

/-- Over every sequence of calls on a new object, a lookup returns the value last set and
not removed since, the tests and the list of groups agree with that, and no call changes
the value of a key that it does not name. -/
theorem config_behaves_as_map (ops : List ConfigOp) :
    (∀ groupname key,
      (ConfigTree.run ops).getValue groupname key = lastValue ops groupname key) ∧
    (∀ groupname, (ConfigTree.run ops).hasGroup groupname = lastGroup ops groupname) ∧
    (∀ groupname key,
      (ConfigTree.run ops).hasKey groupname key = (lastValue ops groupname key).isSome) ∧
    (∃ names : List Text, (ConfigTree.run ops).getGroups = none :: names.map some ∧
      names.Nodup ∧ ∀ groupname, groupname ∈ names ↔ lastGroup ops groupname = true) ∧
    ∀ op groupname key, op.settles groupname key = none →
      ((ConfigTree.run ops).apply op).2.getValue groupname key =
        (ConfigTree.run ops).getValue groupname key := by
  have groups : ∀ groupname, (ConfigTree.run ops).hasGroup groupname = lastGroup ops groupname := by
    intro groupname
    rw [ConfigTree.hasGroup_eq, ConfigTree.toMap_run]
    exact ConfigMap.isSome_run ops groupname
  refine ⟨fun groupname key => ?_, groups, fun groupname key => ?_, ?_, ?_⟩
  · rw [ConfigTree.getValue_eq, ConfigTree.toMap_run, ConfigMap.get_run]
  · rw [ConfigTree.hasKey_eq, ConfigTree.toMap_run, ConfigMap.get_run]
  · obtain ⟨names, listed, distinct, members⟩ := (ConfigTree.plain_run ops).getGroups
    refine ⟨names, listed, distinct, fun groupname => ?_⟩
    rw [members, groups]
  · intro op groupname key silent
    rw [ConfigTree.getValue_eq, (ConfigTree.apply_refines (ConfigTree.plain_run ops) op).2,
      ConfigMap.get_apply, silent, getD_none, ConfigTree.getValue_eq]

end Wzdftpd
