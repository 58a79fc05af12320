import Wzdftpd.ConfigLines
import Wzdftpd.ConfigMap

/- The text of a configuration object that was filled by calls, read into a new object. -/
namespace Wzdftpd

open CfOutcome ConfigFile ConfigGroup KeyValue List Option

structure PlainValue (value : Text) : Prop where
  start : ∀ c ∈ value.head?, CNumber.isSpace c = false
  stop : ∀ c ∈ value.getLast?, CNumber.isSpace c = false ∧ c ≠ '\\'
  whole : '\n' ∉ value

structure PrintableEntry (key value : Text) : Prop where
  plain : PlainKey key
  bracket : key.head? ≠ some '['
  whole : '\n' ∉ key
  value : PlainValue value

/-- The groups that calls make and lines can carry. -/
structure ConfigGroup.Printable (group : ConfigGroup) : Prop where
  named : group.name ≠ none
  whole : ∀ name, group.name = some name → '\n' ∉ name
  uncommented : group.comment = none
  distinct : KeyValues.Distinct group.values
  entries : ∀ kv ∈ group.values, ∀ key, kv.key = some key → PrintableEntry key kv.value

def ConfigOp.Printable : ConfigOp → Prop
  | .setValue groupname key value => '\n' ∉ groupname ∧ PrintableEntry key value
  | .removeKey _ _ => True
  | .removeGroup _ => True

theorem plainValue_iff (value : Text) : PlainValue value ↔
    value.head?.all (fun c => CNumber.isSpace c = false) = true ∧
      value.getLast?.all (fun c => CNumber.isSpace c = false ∧ c ≠ '\\') = true ∧
      '\n' ∉ value := by
  simp only [Option.all_eq_true, decide_eq_true_eq]
  exact ⟨fun plain => ⟨plain.start, plain.stop, plain.whole⟩,
    fun checked => ⟨checked.1, checked.2.1, checked.2.2⟩⟩

instance (value : Text) : Decidable (PlainValue value) :=
  decidable_of_iff' _ (plainValue_iff value)

theorem printableEntry_iff (key value : Text) : PrintableEntry key value ↔
    PlainKey key ∧ key.head? ≠ some '[' ∧ '\n' ∉ key ∧ PlainValue value :=
  ⟨fun entry => ⟨entry.plain, entry.bracket, entry.whole, entry.value⟩,
    fun checked => ⟨checked.1, checked.2.1, checked.2.2.1, checked.2.2.2⟩⟩

instance (key value : Text) : Decidable (PrintableEntry key value) :=
  decidable_of_iff' _ (printableEntry_iff key value)

instance : DecidablePred ConfigOp.Printable
  | .setValue _ _ _ => inferInstanceAs (Decidable (_ ∧ _))
  | .removeKey _ _ => .isTrue trivial
  | .removeGroup _ => .isTrue trivial

/-- A condition on the names of the groups, and one on the entries. -/
structure ConfigTree.All (named : Text → Prop) (entry : Text → Text → Prop)
    (config : ConfigTree) : Prop where
  names : ∀ group ∈ config.groups, ∀ name, group.name = some name → named name
  entries : ∀ group ∈ config.groups, ∀ kv ∈ group.values, ∀ key, kv.key = some key →
    entry key kv.value

namespace ConfigTree.All

variable {named : Text → Prop} {entry : Text → Text → Prop} {config : ConfigTree}

theorem new : ConfigTree.new.All named entry where
  names := fun group member name is => by
    rw [mem_singleton.mp member] at is
    cases is
  entries := fun group member kv inside => by
    rw [mem_singleton.mp member] at inside
    cases inside

theorem withGroup (all : config.All named entry) {groupname : Text} (good : named groupname) :
    (config.withGroup groupname).All named entry := by
  unfold ConfigTree.withGroup
  split
  · constructor
    · intro group member name is
      rcases mem_append.mp member with old | last
      · exact all.names group old name is
      · rw [mem_singleton.mp last] at is
        cases is
        exact good
    · intro group member kv inside
      rcases mem_append.mp member with old | last
      · exact all.entries group old kv inside
      · rw [mem_singleton.mp last] at inside
        cases inside
  · exact all

theorem putValues (all : config.All named entry) (groupname : Text) {values : List KeyValue}
    (good : ∀ kv ∈ values, ∀ key, kv.key = some key → entry key kv.value) :
    (config.putValues groupname values).All named entry := by
  constructor
  · intro group member
    rcases NamedList.mem_modify member with old | ⟨before, old, same, rfl⟩
    · exact all.names group old
    · exact all.names before old
  · intro group member
    rcases NamedList.mem_modify member with old | ⟨before, old, same, rfl⟩
    · exact all.entries group old
    · exact good

theorem setValue (all : config.All named entry) {groupname key value : Text}
    (goodName : named groupname) (good : entry key value) :
    (config.setValue groupname key value).2.All named entry := by
  have kept := all.withGroup goodName
  unfold ConfigTree.setValue
  simp only
  cases lookup : (config.withGroup groupname).lookupGroup groupname with
  | none => exact kept
  | some group =>
    have old := kept.entries group (NamedList.mem_of_lookup lookup)
    simp only
    split
    · rename_i absent
      unfold addKey
      rw [if_pos absent]
      refine kept.putValues groupname fun kv member k is => ?_
      rcases mem_append.mp member with before | last
      · exact old kv before k is
      · rw [mem_singleton.mp last] at is ⊢
        cases is
        exact good
    · refine kept.putValues groupname fun kv member k is => ?_
      rcases NamedList.mem_modify member with before | ⟨other, before, same, rfl⟩
      · exact old kv before k is
      · cases same.symm.trans is
        exact good

theorem removeKey (all : config.All named entry) (groupname key : Text) :
    (config.removeKey groupname key).2.All named entry := by
  unfold ConfigTree.removeKey
  cases lookup : config.lookupGroup groupname with
  | none => exact all
  | some group =>
    simp only
    split
    · exact all
    · exact all.putValues groupname fun kv member =>
        all.entries group (NamedList.mem_of_lookup lookup) kv (mem_of_mem_eraseP member)

theorem removeGroup (all : config.All named entry) (groupname : Text) :
    (config.removeGroup groupname).2.All named entry := by
  unfold ConfigTree.removeGroup
  split
  · exact all
  · exact ⟨fun group member => all.names group (mem_of_mem_eraseP member),
      fun group member => all.entries group (mem_of_mem_eraseP member)⟩

end ConfigTree.All

theorem ConfigTree.all_run {ops : List ConfigOp} (printable : ∀ op ∈ ops, op.Printable) :
    (run ops).All ('\n' ∉ ·) PrintableEntry := by
  refine foldlRecOn ops _ All.new fun config all op member => ?_
  have good := printable op member
  cases op with
  | setValue groupname key value => exact all.setValue good.1 good.2
  | removeKey groupname key => exact all.removeKey groupname key
  | removeGroup groupname => exact all.removeGroup groupname

namespace ConfigTree

theorem parseLine_name (config : ConfigTree) (name : Text) :
    config.parseLine (withoutLast '\r' ('[' :: name ++ [']'])) =
      some (.ok, config.withLast (init (some name))) :=
  config.parseLine_header_cr name not_mem_nil

theorem trimmed_blank_value {value : Text} (plain : PlainValue value) :
    trimmed (' ' :: value) = value := by
  have left : trimmedLeft (' ' :: value) = value := by
    cases value with
    | nil => rfl
    | cons c rest => exact trimmedLeft_cons (plain.start c rfl) rest
  unfold trimmed
  rw [left]
  exact trimmedRight_of_last fun c last => (plain.stop c last).1

theorem parseLine_print (config : ConfigTree) {key value : Text}
    (printable : PrintableEntry key value) :
    config.parseLine (withoutLast '\r' (print ⟨some key, value⟩)) =
      some (config.addEntry key value) := by
  have blank : OnlyBlanks [' '] := forall_mem_singleton.mpr rfl
  have line : print ⟨some key, value⟩ = key ++ [' '] ++ '=' :: ' ' :: value := by
    rw [append_assoc]
    rfl
  have apart : lineIsGroup (key ++ [' '] ++ '=' :: ' ' :: value) = false := by
    rw [lineIsGroup_eq_false_iff, append_assoc, head?_append_of_ne_nil key printable.plain.some_key]
    exact fun bracket => absurd bracket printable.bracket
  rw [line, config.parseLine_entry_cr printable.plain blank apart,
    trimmed_blank_value printable.value]

theorem parseLines_values (values : List KeyValue) : ∀ (config : ConfigTree) {group : ConfigGroup},
    group.name ≠ none → KeyValues.Distinct (group.values ++ values) →
    (∀ kv ∈ values, ∀ key, kv.key = some key → PrintableEntry key kv.value) →
    (config.withLast group).parseLines (values.map print) =
      some (.ok, config.withLast { group with values := group.values ++ values }) := by
  induction values with
  | nil =>
    intro config group named distinct printable
    rw [append_nil]
    rfl
  | cons kv values ih =>
    intro config group named distinct printable
    obtain ⟨key, keyed⟩ := ne_none_iff_exists'.mp
      (distinct.keyed kv (mem_append_right _ mem_cons_self))
    obtain ⟨_, value⟩ := kv
    cases keyed
    have absent : lookupKeyvalue group.values key = none := by
      refine (NamedList.lookup_eq_none_iff _ _).mpr fun member => ?_
      have once := distinct.distinct
      rw [map_append] at once
      exact (nodup_append.mp once).2.2 _ member _ mem_cons_self rfl
    have added : (config.withLast group).addEntry key value =
        (.ok, config.withLast { group with values := group.values ++ [⟨some key, value⟩] }) := by
      rw [addEntry_withLast config named]
      unfold addKey
      rw [if_pos absent]
    rw [map_cons, parseLines, parseLine_print _ (printable _ mem_cons_self key rfl), added]
    rw [append_cons group.values _ values] at distinct ⊢
    have later : ∀ other ∈ values, ∀ key, other.key = some key → PrintableEntry key other.value :=
      (forall_mem_cons.mp printable).2
    have named' : name
        { group with values := group.values ++ [⟨some key, value⟩] } ≠ none := named
    exact ih config named' distinct later

theorem parseLines_group (config : ConfigTree) {group : ConfigGroup} (printable : group.Printable) :
    config.parseLines group.lines = some (.ok, config.withLast group) := by
  obtain ⟨name, is⟩ := ne_none_iff_exists'.mp printable.named
  obtain ⟨_, _, values⟩ := group
  cases is
  cases printable.uncommented
  have lines : lines ⟨some name, none, values⟩ =
      ('[' :: name ++ [']']) :: values.map print := rfl
  have named : (init (some name)).name ≠ none := some_ne_none name
  rw [lines, parseLines, parseLine_name]
  exact parseLines_values values config named printable.distinct printable.entries

theorem parseLines_append (lines more : List Text) : ∀ config : ConfigTree,
    config.parseLines (lines ++ more) =
      andThen (config.parseLines lines) fun config => config.parseLines more := by
  induction lines with
  | nil => exact fun config => rfl
  | cons line lines ih =>
    intro config
    rw [cons_append, parseLines, parseLines, andThen_assoc]
    congr 1
    funext after
    exact ih after

theorem parseLines_groups (groups : List ConfigGroup) : ∀ config : ConfigTree,
    (∀ group ∈ groups, group.Printable) →
    ∃ after, config.parseLines (groups.flatMap lines) = some (.ok, after) ∧
      after.groups = config.groups ++ groups := by
  induction groups with
  | nil =>
    intro config printable
    exact ⟨config, rfl, (append_nil _).symm⟩
  | cons group groups ih =>
    intro config printable
    obtain ⟨after, read, same⟩ := ih (config.withLast group) (forall_mem_cons.mp printable).2
    refine ⟨after, ?_, ?_⟩
    · rw [flatMap_cons, parseLines_append,
        config.parseLines_group (printable group mem_cons_self), andThen_ok, read]
    · rw [same, append_cons]
      rfl

end ConfigTree

theorem unbroken_header {name : Text} (whole : '\n' ∉ name) : Unbroken ('[' :: name ++ [']']) := by
  constructor
  · intro member
    rcases mem_append.mp member with front | back
    · rcases mem_cons.mp front with first | inName
      · exact absurd first (by decide)
      · exact whole inName
    · exact absurd back (by decide)
  · have same : withoutLast '\r' ('[' :: name ++ [']']) = '[' :: name ++ [']'] := by
      rw [withoutLast_append '\r' ('[' :: name) (cons_ne_nil ']' [])]
      rfl
    rw [same, getLast?_concat]
    decide

theorem unbroken_print {key value : Text} (printable : PrintableEntry key value) :
    Unbroken (print ⟨some key, value⟩) := by
  have blank : (' ' :: value).getLast? ≠ some '\r' ∧ (' ' :: value).getLast? ≠ some '\\' := by
    rw [getLast?_cons]
    cases last : value.getLast? with
    | none => decide
    | some c =>
      obtain ⟨solid, other⟩ := printable.value.stop c last
      rw [getD_some]
      refine ⟨?_, fun same => other (some.inj same)⟩
      rintro same
      rw [some.inj same] at solid
      exact absurd solid (by decide)
  have line : print ⟨some key, value⟩ = (key ++ [' ', '=']) ++ ' ' :: value := by
    rw [append_assoc]
    rfl
  constructor
  · rw [line]
    intro member
    simp only [mem_append, mem_cons] at member
    rcases member with (inKey | pad) | blank | inValue
    · exact printable.whole inKey
    · exact absurd pad (by decide)
    · exact absurd blank (by decide)
    · exact printable.value.whole inValue
  · rw [line, withoutLast_append '\r' _ (cons_ne_nil ' ' value)]
    unfold withoutLast
    rw [if_neg blank.1, getLast?_append_of_ne_nil _ (cons_ne_nil ' ' value)]
    exact blank.2

theorem ConfigGroup.Printable.unbroken {group : ConfigGroup} (printable : group.Printable) :
    ∀ line ∈ group.lines, Unbroken line := by
  intro line member
  obtain ⟨name, is⟩ := ne_none_iff_exists'.mp printable.named
  unfold lines at member
  rw [printable.uncommented, is] at member
  rcases mem_cons.mp member with rfl | inValues
  · exact unbroken_header (printable.whole name is)
  · obtain ⟨⟨_, _⟩, inside, rfl⟩ := mem_map.mp inValues
    obtain ⟨text, keyed⟩ := ne_none_iff_exists'.mp (printable.distinct.keyed _ inside)
    cases keyed
    exact unbroken_print (printable.entries _ inside text rfl)

theorem ConfigGroup.Printable.lines_eq {group : ConfigGroup} (printable : group.Printable) :
    ∃ line lines, group.lines = line :: lines ∧ line ≠ [] := by
  obtain ⟨name, is⟩ := ne_none_iff_exists'.mp printable.named
  refine ⟨'[' :: name ++ [']'], group.values.map print, ?_, cons_ne_nil _ _⟩
  unfold lines
  rw [printable.uncommented, is]
  rfl

namespace ConfigTree

theorem printable_run {ops : List ConfigOp} (printable : ∀ op ∈ ops, op.Printable)
    {rest : List ConfigGroup} (start : (run ops).groups = init none :: rest) :
    ∀ group ∈ rest, group.Printable := by
  intro group member
  have plain := plain_run ops
  have all := all_run printable
  have inside : group ∈ (run ops).groups := by
    rw [start]
    exact mem_cons_of_mem _ member
  exact ⟨plain.named start group member, all.names group inside, plain.uncommented group inside,
    plain.values group inside, all.entries group inside⟩

theorem toData_eq {config : ConfigTree} {rest : List ConfigGroup}
    (start : config.groups = init none :: rest) :
    config.toData = textOfLines (rest.flatMap lines) := by
  unfold toData
  rw [start]
  rfl

end ConfigTree

/-- The text of an object that was filled by calls is read without an error, and gives the
same groups with the same entries. -/
theorem config_round_trip (ops : List ConfigOp) (merge : Bool)
    (printable : ∀ op ∈ ops, op.Printable)
    (some_group : ∃ groupname, (ConfigTree.run ops).hasGroup groupname = true) :
    ∃ loaded, ConfigFile.new.loadFromData (ConfigTree.run ops).toData merge = some (.ok, loaded) ∧
      loaded.tree.groups = (ConfigTree.run ops).groups := by
  obtain ⟨rest, start⟩ := (ConfigTree.plain_run ops).first
  have readable := ConfigTree.printable_run printable start
  obtain ⟨after, read, same⟩ := ConfigTree.parseLines_groups rest (fresh merge) readable
  have unbroken : ∀ line ∈ rest.flatMap lines, Unbroken line := by
    intro line member
    obtain ⟨group, inRest, inLines⟩ := mem_flatMap.mp member
    exact (readable group inRest).unbroken line inLines
  cases rest with
  | nil =>
    obtain ⟨groupname, found⟩ := some_group
    unfold ConfigTree.hasGroup ConfigTree.lookupGroup at found
    rw [start] at found
    cases found
  | cons group rest =>
    obtain ⟨line, lines, first, some_line⟩ := (readable group mem_cons_self).lines_eq
    rw [flatMap_cons, first, cons_append] at read unbroken
    refine ⟨⟨after, some []⟩, ?_, ?_⟩
    · rw [ConfigTree.toData_eq start, flatMap_cons, first, cons_append,
        loadFromData_lines some_line unbroken, read]
      rfl
    · rw [start]
      exact same

/-- A group whose name has a bracket, a value that was set twice, and one without text. -/
theorem config_round_trip_example :
    ∃ loaded, ConfigFile.new.loadFromData (ConfigTree.run
        [.setValue ['a', ']'] ['k'] ['v'], .setValue ['b'] ['x'] [],
          .setValue ['a', ']'] ['k'] ['w', '=']]).toData false = some (.ok, loaded) ∧
      loaded.tree.groups = (ConfigTree.run
        [.setValue ['a', ']'] ['k'] ['v'], .setValue ['b'] ['x'] [],
          .setValue ['a', ']'] ['k'] ['w', '=']]).groups :=
  config_round_trip _ false (by decide) ⟨['b'], by decide⟩

end Wzdftpd
