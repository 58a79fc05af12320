import Wzdftpd.ConfigLines
import Wzdftpd.ConfigMap

/- What a lookup finds of the settings of a text. -/
namespace Wzdftpd

open CfOutcome ConfigFile List Option

/-- The lines that configuration files are made of. The value of an entry is trimmed. -/
inductive ConfigLine where
  | header (name : Text) (cr : Bool)
  | entry (key pad raw : Text)
  | blank (text : Text)
  | comment (text : Text)
  deriving Repr, DecidableEq

namespace ConfigLine

def text : ConfigLine → Text
  | .header name cr => '[' :: name ++ ']' :: (if cr then ['\r'] else [])
  | .entry key pad raw => key ++ pad ++ '=' :: raw
  | .blank text => text
  | .comment text => '#' :: text

/-- A key has no blanks around it and does not look like a comment or a header; a blank line
has only blanks. -/
def WellFormed : ConfigLine → Prop
  | .header _ _ => True
  | .entry key pad raw => PlainKey key ∧ (∀ c ∈ pad, CNumber.isSpace c = true) ∧
      lineIsGroup (key ++ pad ++ '=' :: raw) = false
  | .blank text => ∀ c ∈ text, CNumber.isSpace c = true
  | .comment _ => True

theorem wellFormed_entry_iff (key pad raw : Text) :
    WellFormed (.entry key pad raw) ↔ PlainKey key ∧ pad.all CNumber.isSpace = true ∧
      lineIsGroup (key ++ pad ++ '=' :: raw) = false := by
  simp [WellFormed]

theorem wellFormed_blank_iff (text : Text) :
    WellFormed (.blank text) ↔ text.all CNumber.isSpace = true :=
  all_eq_true.symm

instance : DecidablePred WellFormed
  | .header _ _ => .isTrue trivial
  | .entry key pad raw => decidable_of_iff' _ (wellFormed_entry_iff key pad raw)
  | .blank text => decidable_of_iff' _ (wellFormed_blank_iff text)
  | .comment _ => .isTrue trivial

def isHeader : ConfigLine → Bool
  | .header _ _ => true
  | _ => false

def isHeaderOf (groupname : Text) : ConfigLine → Bool
  | .header name _ => name = groupname
  | _ => false

def valueFor (key : Text) : ConfigLine → Option Text
  | .entry k _ raw => if k = key then some (trimmed raw) else none
  | _ => none

/-- What a line does to the groups, if a comment is stored with the given text. -/
def effect (stored : Text) (config : ConfigTree) : ConfigLine → CfCode × ConfigTree
  | .header name _ => (.ok, config.addGroup name)
  | .entry key _ raw => config.addEntry key (trimmed raw)
  | .blank _ => config.parseComment stored
  | .comment _ => config.parseComment stored

/-- Lines one after the other, whatever codes they return. -/
inductive Run : ConfigTree → List ConfigLine → ConfigTree → Prop where
  | nil (config : ConfigTree) : Run config [] config
  | cons {config after : ConfigTree} {line : ConfigLine} {lines : List ConfigLine} (stored : Text)
      (later : Run (line.effect stored config).2 lines after) : Run config (line :: lines) after

end ConfigLine

/-- A key line, with the name of the nearest header before it. -/
structure Setting where
  group : Text
  key : Text
  value : Text
  deriving Repr, DecidableEq

def settingsFrom : Option Text → List ConfigLine → List Setting
  | _, [] => []
  | _, .header name _ :: lines => settingsFrom (some name) lines
  | some group, .entry key _ raw :: lines =>
    ⟨group, key, trimmed raw⟩ :: settingsFrom (some group) lines
  | current, _ :: lines => settingsFrom current lines

def settings (lines : List ConfigLine) : List Setting := settingsFrom none lines

/-- The first value of a key before the next header. -/
def leadingValue (lines : List ConfigLine) (key : Text) : Option Text :=
  (lines.takeWhile (!·.isHeader)).findSome? (·.valueFor key)

/-- The first value of a key between the first header of a group and the next one. -/
def firstValue (lines : List ConfigLine) (groupname key : Text) : Option Text :=
  leadingValue ((lines.dropWhile (!·.isHeaderOf groupname)).drop 1) key

/-- A text that begins with a line that is not empty, and of which no line is continued. The
last line may lack its newline, if it is not empty. -/
structure ConfigText where
  lines : List ConfigLine
  terminated : Bool
  wellFormed : ∀ line ∈ lines, line.WellFormed
  unbroken : ∀ line ∈ lines, Unbroken line.text
  start : ∀ line ∈ lines.head?, line.text ≠ []
  stop : terminated = false → ∀ line ∈ lines.getLast?, line.text ≠ []

def ConfigText.text (source : ConfigText) : Text :=
  if source.terminated then textOfLines (source.lines.map ConfigLine.text)
  else (textOfLines (source.lines.map ConfigLine.text)).dropLast

variable {line : ConfigLine}

namespace ConfigLine

theorem parseLine_text (config : ConfigTree) (wellFormed : line.WellFormed) :
    config.parseLine line.text = some (line.effect line.text config) ∧
      config.parseLine (withoutLast '\r' line.text) =
        some (line.effect (withoutLast '\r' line.text) config) := by
  cases line with
  | header name cr =>
    have last : ']' ∉ (if cr then ['\r'] else []) := by
      cases cr <;> decide
    exact ⟨config.parseLine_header name last, config.parseLine_header_cr name last⟩
  | entry key pad raw =>
    obtain ⟨plain, blank, apart⟩ := wellFormed
    exact ⟨config.parseLine_entry plain blank apart, config.parseLine_entry_cr plain blank apart⟩
  | blank text =>
    have shorter : ∀ c ∈ withoutLast '\r' text, CNumber.isSpace c = true :=
      fun c member => wellFormed c (mem_of_mem_withoutLast member)
    exact ⟨config.parseLine_comment (lineIsComment_blank wellFormed),
      config.parseLine_comment (lineIsComment_blank shorter)⟩
  | comment text =>
    have other : '#' ≠ '\r' := by decide
    refine ⟨config.parseLine_comment rfl, ?_⟩
    rw [ConfigLine.text, withoutLast_cons other]
    exact config.parseLine_comment rfl

theorem Run.of_parseLines {lines : List ConfigLine} : ∀ {config after : ConfigTree},
    (∀ line ∈ lines, line.WellFormed) →
      config.parseLines (lines.map text) = some (.ok, after) → Run config lines after := by
  induction lines with
  | nil =>
    intro config after _ read
    cases read
    exact Run.nil config
  | cons line lines ih =>
    intro config after wellFormed read
    rw [map_cons, ConfigTree.parseLines,
      (parseLine_text config (wellFormed line mem_cons_self)).2] at read
    obtain ⟨_, first, later⟩ := andThen_eq_ok read
    refine Run.cons (withoutLast '\r' line.text) ?_
    rw [some.inj first]
    exact ih (forall_mem_cons.mp wellFormed).2 later

theorem Run.concat {config between after : ConfigTree} {lines : List ConfigLine}
    (run : Run config lines between) {stored : Text}
    (last : (line.effect stored between).2 = after) : Run config (lines ++ [line]) after := by
  induction run with
  | nil config => exact Run.cons stored (last ▸ Run.nil _)
  | cons text later ih => exact Run.cons text (ih last)

end ConfigLine

section Lookup

variable (lines : List ConfigLine) (groupname key : Text)

theorem leadingValue_cons (inside : line.isHeader = false) :
    leadingValue (line :: lines) key = (line.valueFor key).or (leadingValue lines key) := by
  unfold leadingValue
  rw [takeWhile_cons, inside, Bool.not_false, if_pos rfl, findSome?_cons]
  cases line.valueFor key <;> rfl

theorem firstValue_header (name : Text) (cr : Bool) :
    firstValue (.header name cr :: lines) groupname key =
      if name = groupname then leadingValue lines key else firstValue lines groupname key := by
  unfold firstValue
  by_cases same : name = groupname
  · simp [ConfigLine.isHeaderOf, same]
  · simp [ConfigLine.isHeaderOf, same]

theorem firstValue_cons (inside : line.isHeader = false) :
    firstValue (line :: lines) groupname key = firstValue lines groupname key := by
  have other : line.isHeaderOf groupname = false := by
    cases line with
    | header name cr => cases inside
    | _ => rfl
  unfold firstValue
  simp [other]

end Lookup

theorem keysOf_comment (values : List KeyValue) (line : Text) :
    keysOf (values ++ [⟨none, line⟩]) = keysOf values := by
  funext key
  have other : KeyValue.key ⟨none, line⟩ ≠ some key := (some_ne_none key).symm
  unfold keysOf lookupKeyvalue
  simp [NamedList.lookup_append, NamedList.lookup_cons, other, NamedList.lookup_nil]

/-- A key that is there already keeps its value. -/
theorem keysOf_addKey (values : List KeyValue) (key value other : Text) :
    keysOf (addKey false values key value).2 other =
      (keysOf values other).or (if key = other then some value else none) := by
  unfold addKey
  by_cases absent : lookupKeyvalue values key = none
  · rw [if_pos absent, keysOf_append values key value absent]
    by_cases same : key = other
    · have before : keysOf values other = none := by
        unfold keysOf
        simp [← same, absent]
      simp [before, same]
    · rw [if_neg same, Function.update_of_ne (Ne.symm same), or_none]
  · rw [if_neg absent, if_neg Bool.false_ne_true]
    by_cases same : key = other
    · obtain ⟨kv, found⟩ := ne_none_iff_exists'.mp absent
      have before : keysOf values other = some kv.value := by
        unfold keysOf
        simp [← same, found]
      rw [before, some_or]
    · simp [same]

namespace ConfigTree

variable (config : ConfigTree)

theorem lookupGroup_withLast (group : ConfigGroup) (groupname : Text) :
    (config.withLast group).lookupGroup groupname =
      (config.lookupGroup groupname).or
        (if group.name = some groupname then some group else none) := by
  unfold lookupGroup withLast
  rw [NamedList.lookup_append, NamedList.lookup_cons, NamedList.lookup_nil]

/-- What a lookup finds in the end: a group that is not current is not changed any more, the
current one gets the entries before the next header, and others are made by their first header. -/
def foundAfter (config : ConfigTree) (current : ConfigGroup) (lines : List ConfigLine)
    (groupname key : Text) : Option Text :=
  match config.lookupGroup groupname with
  | some group => keysOf group.values key
  | none =>
    if current.name = some groupname then (keysOf current.values key).or (leadingValue lines key)
    else firstValue lines groupname key

theorem getValue_eq_keysOf (groupname key : Text) :
    config.getValue groupname key =
      (config.lookupGroup groupname).bind fun group => keysOf group.values key := by
  rw [getValue_eq]
  unfold ConfigMap.get toMap
  rw [bind_map]
  rfl

theorem getValue_withLast (current : ConfigGroup) (groupname key : Text) :
    (config.withLast current).getValue groupname key =
      config.foundAfter current [] groupname key := by
  rw [getValue_eq_keysOf, lookupGroup_withLast]
  unfold foundAfter
  cases config.lookupGroup groupname with
  | some group => rfl
  | none =>
    by_cases named : current.name = some groupname
    · rw [if_pos named]
      rw [if_pos named]
      exact (or_none).symm
    · rw [if_neg named]
      rw [if_neg named]
      rfl

section Step

variable (config : ConfigTree) (current : ConfigGroup) (lines : List ConfigLine)
  (groupname key : Text)

theorem foundAfter_header (name : Text) (cr : Bool) :
    config.foundAfter current (.header name cr :: lines) groupname key =
      (config.withLast current).foundAfter (ConfigGroup.init (some name)) lines groupname key := by
  unfold foundAfter
  rw [lookupGroup_withLast]
  cases config.lookupGroup groupname with
  | some group => rfl
  | none =>
    by_cases named : current.name = some groupname
    · simp [named, leadingValue, ConfigLine.isHeader]
    rw [if_neg named, if_neg named, firstValue_header]
    by_cases same : name = groupname
    · rw [if_pos same]
      exact (if_pos (congrArg some same)).symm
    · rw [if_neg same]
      exact (if_neg fun is => same (some.inj is)).symm

/-- A line that is not a header adds what it says to the current group. -/
theorem foundAfter_inside (inside : line.isHeader = false) {values : List KeyValue}
    (added : ∀ key, keysOf values key = (keysOf current.values key).or (line.valueFor key)) :
    config.foundAfter current (line :: lines) groupname key =
      config.foundAfter { current with values := values } lines groupname key := by
  unfold foundAfter
  rw [firstValue_cons lines groupname key inside, leadingValue_cons lines key inside, added,
    Option.or_assoc]

theorem foundAfter_unnamed (inside : line.isHeader = false) (unnamed : current.name = none) :
    config.foundAfter current (line :: lines) groupname key =
      config.foundAfter current lines groupname key := by
  have other : current.name ≠ some groupname := by
    rw [unnamed]
    exact (some_ne_none groupname).symm
  unfold foundAfter
  rw [if_neg other, if_neg other, firstValue_cons lines groupname key inside]

end Step

theorem effect_withLast (config : ConfigTree) (current : ConfigGroup) (plain : config.merge = false)
    (line : ConfigLine) (stored : Text) :
    ∃ (before : ConfigTree) (last : ConfigGroup), before.merge = false ∧
      (line.effect stored (config.withLast current)).2 = before.withLast last ∧
      ∀ lines groupname key, config.foundAfter current (line :: lines) groupname key =
        before.foundAfter last lines groupname key := by
  have comment : ∀ key, keysOf (current.values ++ [⟨none, stored⟩]) key =
      (keysOf current.values key).or none := by
    intro key
    rw [keysOf_comment, or_none]
  cases line with
  | header name cr =>
    exact ⟨config.withLast current, ConfigGroup.init (some name), plain, rfl,
      fun lines groupname key => config.foundAfter_header current lines groupname key name cr⟩
  | entry k pad raw =>
    by_cases unnamed : current.name = none
    · refine ⟨config, current, plain, ?_, fun lines groupname key =>
        config.foundAfter_unnamed current lines groupname key rfl unnamed⟩
      simp only [ConfigLine.effect, addEntry, current_withLast]
      rw [if_pos unnamed]
    · refine ⟨config, { current with values := (addKey false current.values k (trimmed raw)).2 },
        plain, ?_, fun lines groupname key =>
          config.foundAfter_inside current lines groupname key rfl fun key => ?_⟩
      · simp only [ConfigLine.effect]
        rw [addEntry_withLast config unnamed, plain]
      · exact keysOf_addKey current.values k (trimmed raw) key
  | blank text | comment text =>
    refine ⟨config, { current with values := current.values ++ [⟨none, stored⟩] }, plain, ?_,
      fun lines groupname key =>
        config.foundAfter_inside current lines groupname key rfl comment⟩
    simp only [ConfigLine.effect, parseComment_withLast]

theorem getValue_run {lines : List ConfigLine} : ∀ {config : ConfigTree} {current : ConfigGroup}
    {after : ConfigTree}, config.merge = false →
      ConfigLine.Run (config.withLast current) lines after → ∀ groupname key,
        after.getValue groupname key = config.foundAfter current lines groupname key := by
  induction lines with
  | nil =>
    intro config current after plain run groupname key
    cases run
    exact getValue_withLast config current groupname key
  | cons line lines ih =>
    intro config current after plain run groupname key
    rcases run with _ | ⟨stored, later⟩
    obtain ⟨_, _, still, is, same⟩ := effect_withLast config current plain line stored
    rw [is] at later
    rw [same, ih still later]

theorem foundAfter_fresh (lines : List ConfigLine) (groupname key : Text) :
    foundAfter ⟨[], none, false⟩ (ConfigGroup.init none) lines groupname key =
      firstValue lines groupname key := by
  rfl

end ConfigTree

namespace ConfigText

theorem text_of_nil (source : ConfigText) (nothing : source.lines = []) : source.text = [] := by
  unfold text
  rw [nothing]
  cases source.terminated <;> rfl

variable {source : ConfigText} {loaded : ConfigFile}

theorem ne_nil_of_accepted (accepted : new.loadFromData source.text false = some (.ok, loaded)) :
    source.lines ≠ [] := by
  intro nothing
  rw [source.text_of_nil nothing] at accepted
  cases accepted

theorem run_terminated (accepted : new.loadFromData source.text false = some (.ok, loaded))
    (ended : source.terminated = true) :
    ConfigLine.Run (fresh false) source.lines loaded.tree := by
  obtain ⟨line, lines, are⟩ := exists_cons_of_ne_nil (ne_nil_of_accepted accepted)
  have some_line : line.text ≠ [] := source.start line (by rw [are]; rfl)
  have unbroken : ∀ other ∈ line.text :: lines.map ConfigLine.text, Unbroken other := by
    rw [← map_cons, ← are]
    exact forall_mem_map.mpr source.unbroken
  have is_text : source.text = textOfLines (line.text :: lines.map ConfigLine.text) := by
    unfold text
    simp [ended, are]
  rw [is_text, loadFromData_lines some_line unbroken] at accepted
  obtain ⟨_, read, is⟩ := map_eq_some_iff.mp accepted
  rw [← map_cons, ← are] at read
  refine ConfigLine.Run.of_parseLines source.wellFormed ?_
  rw [read, ← (Prod.mk.inj is).1, ← (Prod.mk.inj is).2]

theorem textOfLines_concat (lines : List Text) (last : Text) :
    (textOfLines (lines ++ [last])).dropLast = textOfLines lines ++ last := by
  unfold textOfLines
  simp [← append_assoc]

theorem head?_text (source : ConfigText) : source.text.head? ≠ some '\n' := by
  cases are : source.lines with
  | nil =>
    rw [source.text_of_nil are]
    exact (some_ne_none '\n').symm
  | cons line lines =>
    have some_line : line.text ≠ [] := source.start line (by rw [are]; rfl)
    have whole : line.text.head? ≠ some '\n' := fun first =>
      (source.unbroken line (by rw [are]; exact mem_cons_self)).whole (mem_of_mem_head? first)
    unfold text
    rw [are, map_cons, textOfLines_cons]
    split
    · rw [head?_append_of_ne_nil _ some_line]
      exact whole
    · rw [dropLast_append_of_ne_nil (cons_ne_nil _ _), head?_append_of_ne_nil _ some_line]
      exact whole

theorem run_unended (accepted : new.loadFromData source.text false = some (.ok, loaded))
    (unended : source.terminated = false) :
    ConfigLine.Run (fresh false) source.lines loaded.tree := by
  obtain ⟨front, last, are⟩ :=
    (eq_nil_or_concat' source.lines).resolve_left (ne_nil_of_accepted accepted)
  have some_last : last.text ≠ [] :=
    source.stop unended last (by rw [are, getLast?_concat]; rfl)
  have wellFormed := source.wellFormed
  have unbroken := source.unbroken
  rw [are, forall_mem_append, forall_mem_singleton] at wellFormed unbroken
  have is_text : source.text = textOfLines (front.map ConfigLine.text) ++ last.text := by
    unfold text
    rw [if_neg (by rw [unended]; exact Bool.false_ne_true), are, map_append,
      map_singleton, textOfLines_concat]
  have some_data : source.text ≠ [] := by
    rw [is_text]
    exact append_ne_nil_of_right_ne_nil _ some_last
  rw [is_text, loadFromData_unended (forall_mem_map.mpr unbroken.1)
    unbroken.2.whole (is_text ▸ some_data) (is_text ▸ source.head?_text)] at accepted
  obtain ⟨_, read, finished⟩ := andThen_eq_ok accepted
  obtain ⟨done, parsed, is⟩ := map_eq_some_iff.mp read
  obtain ⟨code, rfl⟩ := Prod.mk.inj is
  rw [finish_eq _ some_last, (ConfigLine.parseLine_text _ wellFormed.2).1] at finished
  have run : ConfigLine.Run (fresh false) front done.2 := by
    refine ConfigLine.Run.of_parseLines wellFormed.1 ?_
    rw [parsed, ← code]
  rw [are]
  exact run.concat (congrArg (fun out => out.2.tree) (some.inj finished))

theorem getValue_of_accepted (accepted : new.loadFromData source.text false = some (.ok, loaded))
    (groupname key : Text) :
    loaded.tree.getValue groupname key = firstValue source.lines groupname key := by
  have run : ConfigLine.Run (fresh false) source.lines loaded.tree := by
    cases ended : source.terminated with
    | true => exact run_terminated accepted ended
    | false => exact run_unended accepted ended
  have start : fresh false =
      ConfigTree.withLast ⟨[], none, false⟩ (ConfigGroup.init none) := rfl
  rw [start] at run
  rw [ConfigTree.getValue_run rfl run, ConfigTree.foundAfter_fresh]

end ConfigText

/-- The settings of an accepted text are found exactly where each of them is also the first
setting of its key under the first header of its group. -/
theorem config_settings_found_iff (source : ConfigText) (loaded : ConfigFile)
    (accepted : ConfigFile.new.loadFromData source.text false = some (.ok, loaded)) :
    (∀ setting ∈ settings source.lines,
      loaded.tree.getValue setting.group setting.key = some setting.value) ↔
    ∀ setting ∈ settings source.lines,
      firstValue source.lines setting.group setting.key = some setting.value := by
  constructor
  · intro found setting member
    rw [← ConfigText.getValue_of_accepted accepted]
    exact found setting member
  · intro first setting member
    rw [ConfigText.getValue_of_accepted accepted]
    exact first setting member

def twoGroups : ConfigText where
  lines := [.header ['g'] false, .entry ['k'] [' '] [' ', 'v'], .blank [],
    .header ['h'] true, .entry ['k'] [] ['w', ' ']]
  terminated := false
  wellFormed := by decide
  unbroken := by decide
  start := fun line is => by
    cases is
    decide
  stop := fun _ line is => by
    cases is
    decide

theorem config_settings_found_twoGroups : ∃ loaded,
    ConfigFile.new.loadFromData twoGroups.text false = some (.ok, loaded) ∧
    ∀ setting ∈ settings twoGroups.lines,
      loaded.tree.getValue setting.group setting.key = some setting.value := by
  have accepted : ∃ loaded,
      ConfigFile.new.loadFromData twoGroups.text false = some (.ok, loaded) := ⟨_, rfl⟩
  obtain ⟨loaded, is⟩ := accepted
  exact ⟨loaded, is, (config_settings_found_iff twoGroups loaded is).mpr (by decide)⟩

/-- A second header of a group makes a group that is never looked at. -/
theorem config_setting_lost :
    (ConfigFile.new.loadFromData "[g]\na = 1\n[h]\n[g]\nb = 2\n".toList false).map
      (fun done => (done.1, done.2.tree.getValue ['g'] ['a'], done.2.tree.getValue ['g'] ['b'])) =
      some (.ok, some ['1'], none) := by
  decide +kernel

end Wzdftpd
