import Wzdftpd.ConfigFile
import Wzdftpd.Tokens

/- The data of a configuration file, line by line: what the reader of characters makes of
a line that ends, and what the kinds of lines do to the groups. -/
namespace Wzdftpd

open ConfigFile CNumber List Option

namespace CfOutcome

variable {σ : Type}

@[simp] theorem andThen_ok (state : σ) (next : σ → CfOutcome σ) :
    andThen (some (.ok, state)) next = next state := rfl

theorem andThen_of_ne {code : CfCode} (failed : code ≠ .ok) (state : σ) (next : σ → CfOutcome σ) :
    andThen (some (code, state)) next = some (code, state) := by
  cases code with
  | ok => exact absurd rfl failed
  | _ => rfl

theorem andThen_assoc (outcome : CfOutcome σ) (second third : σ → CfOutcome σ) :
    andThen (andThen outcome second) third =
      andThen outcome fun state => andThen (second state) third := by
  rcases outcome with _ | ⟨code, state⟩
  · rfl
  · by_cases good : code = .ok
    · rw [good, andThen_ok, andThen_ok]
    · rw [andThen_of_ne good, andThen_of_ne good, andThen_of_ne good]

theorem andThen_congr {outcome : CfOutcome σ} {second third : σ → CfOutcome σ}
    (same : ∀ state, outcome = some (.ok, state) → second state = third state) :
    andThen outcome second = andThen outcome third := by
  rcases outcome with _ | ⟨code, state⟩
  · rfl
  · by_cases good : code = .ok
    · rw [good]
      exact same state (by rw [good])
    · rw [andThen_of_ne good, andThen_of_ne good]

theorem andThen_eq_ok {outcome : CfOutcome σ} {next : σ → CfOutcome σ} {state : σ}
    (accepted : andThen outcome next = some (.ok, state)) :
    ∃ between, outcome = some (.ok, between) ∧ next between = some (.ok, state) := by
  rcases outcome with _ | ⟨code, between⟩
  · cases accepted
  · by_cases good : code = .ok
    · rw [good] at accepted
      exact ⟨between, by rw [good], accepted⟩
    · rw [andThen_of_ne good, some.injEq, Prod.mk.injEq] at accepted
      exact absurd accepted.1 good

end CfOutcome

open CfOutcome

def lineDone (done : CfCode × ConfigTree) : CfCode × ConfigFile := (done.1, ⟨done.2, some []⟩)

/-- A line of the data that the next one does not continue. -/
structure Unbroken (line : Text) : Prop where
  whole : '\n' ∉ line
  ended : (withoutLast '\r' line).getLast? ≠ some '\\'

instance (line : Text) : Decidable (Unbroken line) :=
  decidable_of_iff ('\n' ∉ line ∧ (withoutLast '\r' line).getLast? ≠ some '\\')
    ⟨fun checked => ⟨checked.1, checked.2⟩, fun unbroken => ⟨unbroken.whole, unbroken.ended⟩⟩

/-- The lines of a file, one after the other, up to the first that is refused. -/
def ConfigTree.parseLines : ConfigTree → List Text → CfOutcome ConfigTree
  | config, [] => some (.ok, config)
  | config, line :: lines =>
    andThen (config.parseLine (withoutLast '\r' line)) fun config =>
      parseLines config lines

def textOfLines (lines : List Text) : Text := lines.flatMap fun line => line ++ ['\n']

theorem textOfLines_cons (line : Text) (lines : List Text) :
    textOfLines (line :: lines) = line ++ '\n' :: textOfLines lines := by
  unfold textOfLines
  simp

variable {line : Text}

variable {c : Char}

namespace ConfigFile

theorem parseFrom_cons (inside : Bool) (config : ConfigFile) (c : Char) (rest : Text) :
    parseFrom inside config (c :: rest) =
      andThen (if c = '\n' then config.newline inside else some (.ok, config.appendC c))
        fun config => parseFrom true config rest := rfl

variable (more : Text) (tree : ConfigTree)

theorem parseFrom_append : ∀ {text : Text} (inside : Bool) (config : ConfigFile),
    text ≠ [] → parseFrom inside config (text ++ more) =
      andThen (parseFrom inside config text) fun config => parseFrom true config more := by
  intro text
  induction text with
  | nil => exact fun inside config some => absurd rfl some
  | cons c text ih =>
    intro inside config _
    rw [cons_append, parseFrom_cons, parseFrom_cons, andThen_assoc]
    congr 1
    funext after
    by_cases last : text = []
    · rw [last]
      rfl
    · exact ih true after last

theorem parseFrom_whole {text : Text} (whole : '\n' ∉ text) (tree : ConfigTree) :
    ∀ buffer, parseFrom true ⟨tree, some buffer⟩ (text ++ more) =
      parseFrom true ⟨tree, some (buffer ++ text)⟩ more := by
  induction text with
  | nil =>
    intro buffer
    simp
  | cons c text ih =>
    intro buffer
    rw [mem_cons, not_or] at whole
    rw [cons_append, parseFrom_cons, if_neg (Ne.symm whole.1), append_cons buffer c text]
    exact ih whole.2 (buffer ++ [c])

theorem parseFrom_first (inside : Bool) (tree : ConfigTree) (other : c ≠ '\n') (rest : Text) :
    parseFrom inside ⟨tree, none⟩ (c :: rest) = parseFrom true ⟨tree, some []⟩ (c :: rest) := by
  rw [parseFrom_cons, parseFrom_cons, if_neg other, if_neg other]
  rfl

theorem endLine_eq (line : Text) :
    endLine ⟨tree, some line⟩ = (tree.parseLine line).map lineDone := by
  cases line with
  | nil => rfl
  | cons c line => rfl

theorem flushBuffer_eq (some_line : line ≠ []) :
    flushBuffer ⟨tree, some line⟩ = (tree.parseLine line).map lineDone := by
  cases line with
  | nil => exact absurd rfl some_line
  | cons c line => rfl

theorem newline_true (line : Text) :
    newline true ⟨tree, some line⟩ =
      if (withoutLast '\r' line).getLast? = some '\\' then
        some (.ok, ⟨tree, some (withoutLast '\r' line).dropLast⟩)
      else (tree.parseLine (withoutLast '\r' line)).map lineDone := by
  rw [← endLine_eq]
  rfl

theorem newline_false (line : Text) :
    newline false ⟨tree, some line⟩ = (tree.parseLine line).map lineDone := endLine_eq tree line

theorem parseFrom_newline (unbroken : Unbroken line) (rest : Text) :
    parseFrom true ⟨tree, some []⟩ (line ++ '\n' :: rest) =
      andThen ((tree.parseLine (withoutLast '\r' line)).map lineDone) fun config =>
        parseFrom true config rest := by
  simp [parseFrom_whole _ unbroken.whole, parseFrom_cons, newline_true, unbroken.ended]

theorem parseFrom_textOfLines (lines : List Text) :
    ∀ (tree : ConfigTree), (∀ line ∈ lines, Unbroken line) → ∀ rest,
      parseFrom true ⟨tree, some []⟩ (textOfLines lines ++ rest) =
        andThen ((tree.parseLines lines).map lineDone) fun config =>
          parseFrom true config rest := by
  induction lines with
  | nil => exact fun tree unbroken rest => rfl
  | cons line lines ih =>
    intro tree unbroken rest
    have later : ∀ line ∈ lines, Unbroken line :=
      (forall_mem_cons.mp unbroken).2
    rw [textOfLines_cons, append_assoc, cons_append,
      parseFrom_newline tree (unbroken line mem_cons_self)]
    rcases first : tree.parseLine (withoutLast '\r' line) with _ | ⟨code, next⟩
    · rw [ConfigTree.parseLines, first]
      rfl
    rw [ConfigTree.parseLines, first]
    by_cases good : code = .ok
    · rw [good]
      exact ih next later rest
    · rw [andThen_of_ne good]
      exact (andThen_of_ne good _ _).trans (andThen_of_ne good _ _).symm

def fresh (merge : Bool) : ConfigTree := { ConfigTree.new with merge := merge }

theorem loadFromData_eq {data : Text} (some_data : data ≠ []) (start : data.head? ≠ some '\n')
    (merge : Bool) :
    loadFromData new data merge = andThen (parseFrom true ⟨fresh merge, some []⟩ data) finish := by
  unfold loadFromData
  cases data with
  | nil => exact absurd rfl some_data
  | cons c rest =>
    have other : c ≠ '\n' := fun same => start (congrArg some same)
    rw [parseData, withMerge, new, parseFrom_first false _ other]
    rfl

theorem finish_eq (some_line : line ≠ []) :
    finish ⟨tree, some line⟩ = (tree.parseLine line).map fun done => (.ok, ⟨done.2, some []⟩) := by
  unfold finish
  rw [flushBuffer_eq tree some_line, Option.map_map]
  rfl

theorem head?_textOfLines (lines : List Text) (some_line : line ≠ []) (more : Text) :
    (textOfLines (line :: lines) ++ more).head? = line.head? := by
  cases line with
  | nil => exact absurd rfl some_line
  | cons c line =>
    rfl

theorem loadFromData_lines {lines : List Text} (some_line : line ≠ [])
    (unbroken : ∀ other ∈ line :: lines, Unbroken other) (merge : Bool) :
    loadFromData new (textOfLines (line :: lines)) merge =
      ((fresh merge).parseLines (line :: lines)).map lineDone := by
  have start : (textOfLines (line :: lines)).head? ≠ some '\n' := by
    rw [← append_nil (textOfLines (line :: lines)), head?_textOfLines lines some_line []]
    exact fun same => (unbroken line mem_cons_self).whole (mem_of_mem_head? same)
  have some_data : textOfLines (line :: lines) ≠ [] := by
    rw [textOfLines_cons]
    exact append_ne_nil_of_left_ne_nil some_line _
  rw [loadFromData_eq some_data start, ← append_nil (textOfLines (line :: lines)),
    parseFrom_textOfLines (line :: lines) (fresh merge) unbroken []]
  rcases (fresh merge).parseLines (line :: lines) with _ | ⟨code, tree⟩
  · rfl
  · by_cases good : code = .ok
    · rw [good]
      rfl
    · simp [lineDone, andThen_of_ne good]

theorem loadFromData_unended {lines : List Text} {last : Text}
    (unbroken : ∀ line ∈ lines, Unbroken line) (whole : '\n' ∉ last)
    (some_data : textOfLines lines ++ last ≠ [])
    (start : (textOfLines lines ++ last).head? ≠ some '\n') (merge : Bool) :
    loadFromData new (textOfLines lines ++ last) merge =
      andThen (((fresh merge).parseLines lines).map lineDone) fun config =>
        finish ⟨config.tree, some last⟩ := by
  rw [loadFromData_eq some_data start, parseFrom_textOfLines lines (fresh merge) unbroken last,
    andThen_assoc]
  refine andThen_congr fun config read => ?_
  obtain ⟨done, _, is⟩ := map_eq_some_iff.mp read
  have read_last := parseFrom_whole [] whole done.2 []
  rw [append_nil] at read_last
  rw [← (Prod.mk.inj is).2, read_last]
  rfl

end ConfigFile

def OnlyBlanks (text : Text) : Prop := ∀ c ∈ text, CNumber.isSpace c = true

theorem trimmedLeft_cons (solid : CNumber.isSpace c = false) (rest : Text) :
    trimmedLeft (c :: rest) = c :: rest := by
  unfold trimmedLeft
  simp [Bool.eq_false_iff.mp solid]

variable {blanks : Text}

theorem lineIsComment_blank {text : Text} (blank : OnlyBlanks text) :
    lineIsComment (trimmedLeft text) = true := by
  unfold trimmedLeft
  rw [dropWhile_eq_nil_iff.mpr blank]
  rfl

theorem trimmedRight_append_blanks (blank : OnlyBlanks blanks) (text : Text) :
    trimmedRight (text ++ blanks) = trimmedRight text := by
  unfold trimmedRight rdropWhile
  rw [reverse_append, dropWhile_append_of_pos fun c member =>
    blank c (mem_reverse.mp member)]

theorem trimmedRight_of_last {text : Text}
    (solid : ∀ c ∈ text.getLast?, CNumber.isSpace c = false) : trimmedRight text = text := by
  refine rdropWhile_eq_self_iff.mpr fun some_text => ?_
  rw [solid _ (getLast?_eq_some_getLast some_text)]
  exact Bool.false_ne_true

def trimmed (text : Text) : Text := trimmedRight (trimmedLeft text)

theorem trimmed_append_blanks (blank : OnlyBlanks blanks)
    (text : Text) : trimmed (text ++ blanks) = trimmed text := by
  unfold trimmed trimmedLeft
  rw [dropWhile_append]
  split
  · rename_i none_left
    rw [isEmpty_iff.mp none_left, dropWhile_eq_nil_iff.mpr blank]
  · exact trimmedRight_append_blanks blank _

theorem withoutLast_eq_or (c : Char) (line : Text) :
    withoutLast c line = line ∨ line = withoutLast c line ++ [c] := by
  unfold withoutLast
  split
  · rename_i last
    exact .inr (dropLast_append_getLast? c last).symm
  · exact .inl rfl

theorem withoutLast_append (c : Char) (front : Text) {back : Text} (some_back : back ≠ []) :
    withoutLast c (front ++ back) = front ++ withoutLast c back := by
  unfold withoutLast
  rw [getLast?_append_of_ne_nil front some_back, dropLast_append_of_ne_nil some_back]
  split <;> rfl

theorem withoutLast_cons {d : Char} (other : d ≠ c) (line : Text) :
    withoutLast c (d :: line) = d :: withoutLast c line := by
  by_cases last : line = []
  · unfold withoutLast
    rw [last, getLast?_singleton, if_neg fun same => other (some.inj same)]
    rfl
  · exact withoutLast_append c [d] last

theorem mem_of_mem_withoutLast {d : Char} (member : d ∈ withoutLast c line) : d ∈ line := by
  rcases withoutLast_eq_or c line with same | longer
  · exact same ▸ member
  · rw [longer]
    exact mem_append_left _ member

theorem trimmed_withoutLast (raw : Text) : trimmed (withoutLast '\r' raw) = trimmed raw := by
  rcases withoutLast_eq_or '\r' raw with same | longer
  · rw [same]
  · have blank : OnlyBlanks ['\r'] := forall_mem_singleton.mpr rfl
    conv_rhs => rw [longer]
    exact (trimmed_append_blanks blank _).symm

theorem lineIsGroup_eq_false_iff (line : Text) :
    lineIsGroup line = false ↔ (line.head? = some '[' → ']' ∉ line) := by
  unfold lineIsGroup
  simp

theorem equal_not_blank (blank : OnlyBlanks blanks) :
    '=' ∉ blanks := fun member => absurd (blank '=' member) (by decide)

/-- What a key has to be for its line to be read as it was meant. -/
structure PlainKey (key : Text) : Prop where
  some_key : key ≠ []
  start : ∀ c ∈ key.head?, CNumber.isSpace c = false ∧ c ≠ '#'
  stop : ∀ c ∈ key.getLast?, CNumber.isSpace c = false
  unequal : '=' ∉ key

theorem plainKey_iff (key : Text) : PlainKey key ↔
    key ≠ [] ∧ key.head?.all (fun c => CNumber.isSpace c = false ∧ c ≠ '#') = true ∧
      key.getLast?.all (fun c => CNumber.isSpace c = false) = true ∧ '=' ∉ key := by
  simp only [Option.all_eq_true, decide_eq_true_eq]
  exact ⟨fun plain => ⟨plain.some_key, plain.start, plain.stop, plain.unequal⟩,
    fun checked => ⟨checked.1, checked.2.1, checked.2.2.1, checked.2.2.2⟩⟩

instance (key : Text) : Decidable (PlainKey key) := decidable_of_iff' _ (plainKey_iff key)

/-- A line that starts with such a key is not indented, and no comment. -/
theorem PlainKey.line_kind {key : Text} (plain : PlainKey key) (pad raw : Text) :
    trimmedLeft (key ++ pad ++ '=' :: raw) = key ++ pad ++ '=' :: raw ∧
      lineIsComment (key ++ pad ++ '=' :: raw) = false ∧
      lineIsKeyvalue (key ++ pad ++ '=' :: raw) = true := by
  obtain ⟨c, _, rfl⟩ := exists_cons_of_ne_nil plain.some_key
  obtain ⟨solid, uncommented⟩ := plain.start c rfl
  have newline : c ≠ '\n' := by
    rintro rfl
    exact absurd solid (by decide)
  have unequal : c ≠ '=' := fun same => plain.unequal (same ▸ mem_cons_self)
  refine ⟨trimmedLeft_cons solid _, ?_, ?_⟩
  · unfold lineIsComment
    simp [uncommented, newline]
  · unfold lineIsKeyvalue
    simp [unequal]

theorem PlainKey.lineIsGroup_withoutLast {key : Text} (plain : PlainKey key) {pad raw : Text}
    (apart : lineIsGroup (key ++ pad ++ '=' :: raw) = false) :
    lineIsGroup (key ++ pad ++ '=' :: withoutLast '\r' raw) = false := by
  obtain ⟨_, _, rfl⟩ := exists_cons_of_ne_nil plain.some_key
  rw [lineIsGroup_eq_false_iff] at apart ⊢
  intro bracket member
  refine apart bracket ?_
  rcases mem_append.mp member with front | back
  · exact mem_append_left _ front
  · refine mem_append_right _ ?_
    rcases mem_cons.mp back with sign | inRaw
    · exact absurd sign (by decide)
    · exact mem_cons_of_mem '=' (mem_of_mem_withoutLast inRaw)

namespace ConfigTree

/-- A key and its value are added to the current group, which must have a name. -/
def addEntry (config : ConfigTree) (key value : Text) : CfCode × ConfigTree :=
  match config.current with
  | none => (.noCurrentGroup, config)
  | some group =>
    if group.name = none then (.noCurrentGroup, config)
    else
      let added := addKey config.merge group.values key value
      (added.1, config.putCurrent added.2)

/-- A group behind those of an object, as the current one. -/
def withLast (config : ConfigTree) (group : ConfigGroup) : ConfigTree :=
  { config with groups := config.groups ++ [group], currentGroup := some config.groups.length }

variable (config : ConfigTree) (group : ConfigGroup)

theorem current_withLast : (config.withLast group).current = some group := by
  unfold current withLast
  simp

theorem putCurrent_withLast (values : List KeyValue) :
    (config.withLast group).putCurrent values =
      config.withLast { group with values := values } := by
  unfold putCurrent withLast
  simp only
  rw [modify_eq_take_cons_drop (by rw [length_append, length_singleton]; omega)]
  simp

theorem addEntry_withLast {group : ConfigGroup} (named : group.name ≠ none) (key value : Text) :
    (config.withLast group).addEntry key value =
      ((addKey config.merge group.values key value).1, config.withLast
        { group with values := (addKey config.merge group.values key value).2 }) := by
  unfold addEntry
  rw [current_withLast]
  simp only
  rw [if_neg named, putCurrent_withLast]
  rfl

theorem parseComment_withLast (line : Text) :
    (config.withLast group).parseComment line =
      (.ok, config.withLast { group with values := group.values ++ [⟨none, line⟩] }) := by
  unfold parseComment
  rw [current_withLast]
  simp only
  rw [putCurrent_withLast]

theorem parseLine_comment (comment : lineIsComment (trimmedLeft line) = true) :
    config.parseLine line = some (config.parseComment line) := by
  unfold parseLine
  rw [if_pos comment]

theorem parseLine_header (name : Text) {tail : Text} (last : ']' ∉ tail) :
    config.parseLine ('[' :: name ++ ']' :: tail) = some (.ok, config.addGroup name) := by
  have solid : CNumber.isSpace '[' = false := by decide
  have comment : lineIsComment ('[' :: (name ++ ']' :: tail)) = false := rfl
  have header : lineIsGroup ('[' :: (name ++ ']' :: tail)) = true := by
    unfold lineIsGroup
    simp
  have found : (('[' :: (name ++ ']' :: tail)).reverse.dropWhile (· ≠ ']')) =
      ']' :: ('[' :: name).reverse := by
    rw [← cons_append, reverse_append, reverse_cons, append_assoc, dropWhile_append_of_pos]
    · rfl
    · intro c member
      have other : c ≠ ']' := fun same => last (same ▸ mem_reverse.mp member)
      exact decide_eq_true other
  unfold parseLine
  simp only [cons_append, trimmedLeft_cons solid]
  rw [comment, if_pos header, parseGroup, take_length, found]
  simp

theorem valueOf_length (line : Text) :
    valueOf line line.length = trimmed ((line.dropWhile (· ≠ '=')).drop 1) := by
  have short : (trimmedLeft ((line.dropWhile (· ≠ '=')).drop 1)).length ≤ line.length := by
    refine le_trans (length_dropWhile_le _ _) ?_
    rw [length_drop]
    have := length_dropWhile_le (· ≠ '=') line
    omega
  unfold valueOf trimmed
  rw [if_neg (by omega), Nat.sub_sub_self short, take_length]

variable {key pad : Text}

/-- A line that is not indented is split at its first sign. -/
theorem parseKeyvalue_sign {front : Text} (unequal : '=' ∉ front) (raw : Text) :
    config.parseKeyvalue (front ++ '=' :: raw) (front ++ '=' :: raw).length =
      config.addEntry (trimmedRight front) (trimmed raw) := by
  have free : ∀ c ∈ front, decide (c ≠ '=') = true :=
    fun c member => decide_eq_true fun same => unequal (same ▸ member)
  have stopped : decide ('=' ≠ '=') = false := by decide
  have rest : ((front ++ '=' :: raw).dropWhile (· ≠ '=')).drop 1 = raw := by
    rw [dropWhile_word raw free stopped]
    rfl
  have shorter := (List.rdropWhile_prefix CNumber.isSpace front).length_le
  have long : ¬ (front ++ '=' :: raw).length < (trimmedRight front).length + 1 := by
    unfold trimmedRight
    rw [length_append, length_cons]
    omega
  unfold parseKeyvalue addEntry
  rw [takeWhile_word raw free stopped, valueOf_length, rest]
  cases config.current with
  | none => rfl
  | some group => simp only [if_neg long]

theorem parseKeyvalue_plain (plain : PlainKey key) (blank : OnlyBlanks pad) (raw : Text) :
    config.parseKeyvalue (key ++ pad ++ '=' :: raw) (key ++ pad ++ '=' :: raw).length =
      config.addEntry key (trimmed raw) := by
  have unequal : '=' ∉ key ++ pad := fun member =>
    (mem_append.mp member).elim plain.unequal (equal_not_blank blank)
  rw [config.parseKeyvalue_sign unequal, trimmedRight_append_blanks blank,
    trimmedRight_of_last plain.stop]

theorem parseLine_entry {raw : Text} (plain : PlainKey key) (blank : OnlyBlanks pad)
    (apart : lineIsGroup (key ++ pad ++ '=' :: raw) = false) :
    config.parseLine (key ++ pad ++ '=' :: raw) = some (config.addEntry key (trimmed raw)) := by
  obtain ⟨first, comment, keyvalue⟩ := plain.line_kind pad raw
  unfold parseLine
  simp only
  rw [first, comment, apart, keyvalue, if_neg Bool.false_ne_true, if_neg Bool.false_ne_true,
    if_pos rfl, parseKeyvalue_plain config plain blank]

theorem parseLine_header_cr (name : Text) {tail : Text} (last : ']' ∉ tail) :
    config.parseLine (withoutLast '\r' ('[' :: name ++ ']' :: tail)) =
      some (.ok, config.addGroup name) := by
  have other : ']' ≠ '\r' := by decide
  rw [withoutLast_append '\r' ('[' :: name) (cons_ne_nil ']' tail), withoutLast_cons other]
  exact config.parseLine_header name fun member => last (mem_of_mem_withoutLast member)

/-- A carriage return behind a value is one of the blanks that are taken off. -/
theorem parseLine_entry_cr {raw : Text} (plain : PlainKey key) (blank : OnlyBlanks pad)
    (apart : lineIsGroup (key ++ pad ++ '=' :: raw) = false) :
    config.parseLine (withoutLast '\r' (key ++ pad ++ '=' :: raw)) =
      some (config.addEntry key (trimmed raw)) := by
  have other : '=' ≠ '\r' := by decide
  rw [withoutLast_append '\r' (key ++ pad) (cons_ne_nil '=' raw), withoutLast_cons other,
    config.parseLine_entry plain blank (plain.lineIsGroup_withoutLast apart), trimmed_withoutLast]

end ConfigTree

end Wzdftpd
