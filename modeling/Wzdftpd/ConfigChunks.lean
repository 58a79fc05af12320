import Wzdftpd.ConfigLines

/- Configuration data that is read in pieces. -/
namespace Wzdftpd

open CfOutcome ConfigFile List Option

/-- The line that is in the buffer after a text, by the line that was there before it. -/
def lineLeft : Text → Text → Text
  | line, [] => line
  | line, c :: rest =>
    if c = '\n' then
      let ended := withoutLast '\r' line
      lineLeft (if ended.getLast? = some '\\' then ended.dropLast else []) rest
    else lineLeft (line ++ [c]) rest

/-- A line that a newline ends in the same way at the start of a piece. A carriage return in
front of it stays there, which matters to comments and where the line is indented. -/
structure EndsAnywhere (line : Text) : Prop where
  ended : (withoutLast '\r' line).getLast? ≠ some '\\'
  returned : line.getLast? = some '\r' →
    ∃ c ∈ line.head?, CNumber.isSpace c = false ∧ c ≠ '#'

/-- Where a piece begins with a newline, the text before it leaves such a line. -/
def CutsWhole : Text → List Text → Prop
  | _, [] => True
  | line, chunk :: chunks =>
    (chunk.head? = some '\n' → EndsAnywhere line) ∧ CutsWhole (lineLeft line chunk) chunks

namespace ConfigTree

variable (config : ConfigTree)

theorem parseGroup_return (line : Text) :
    config.parseGroup (line ++ ['\r']) (line ++ ['\r']).length =
      config.parseGroup line line.length := by
  unfold parseGroup
  rw [take_length, take_length, reverse_append, reverse_singleton, singleton_append,
    dropWhile_cons_of_pos (by decide)]

/-- A carriage return behind a header or a value is skipped. -/
theorem parseLine_return {c : Char} {line : Text} (solid : CNumber.isSpace c = false)
    (other : c ≠ '#') : config.parseLine (c :: line ++ ['\r']) = config.parseLine (c :: line) := by
  have newline : c ≠ '\n' := by
    rintro rfl
    cases solid
  have comment : ∀ rest, lineIsComment (c :: rest) = false := by
    intro rest
    simp [lineIsComment, other, newline]
  have group : lineIsGroup (c :: line ++ ['\r']) = lineIsGroup (c :: line) := by
    simp [lineIsGroup]
  have keyvalue : lineIsKeyvalue (c :: line ++ ['\r']) = lineIsKeyvalue (c :: line) := by
    simp [lineIsKeyvalue]
  unfold parseLine
  simp only
  rw [cons_append, trimmedLeft_cons solid, trimmedLeft_cons solid, comment, comment,
    ← cons_append, group, keyvalue, parseGroup_return, if_neg Bool.false_ne_true,
    if_neg Bool.false_ne_true]
  split
  · rfl
  split
  · rename_i sign
    have member : '=' ∈ c :: line := by
      unfold lineIsKeyvalue at sign
      exact (of_decide_eq_true sign).1
    obtain ⟨front, raw, is, unequal⟩ := eq_append_cons_of_mem member
    have blank : OnlyBlanks ['\r'] := forall_mem_singleton.mpr rfl
    rw [is, append_assoc, cons_append, config.parseKeyvalue_sign unequal,
      config.parseKeyvalue_sign unequal, trimmed_append_blanks blank]
  · rfl

theorem parseLine_of_endsAnywhere {line : Text} (anywhere : EndsAnywhere line) :
    config.parseLine line = config.parseLine (withoutLast '\r' line) := by
  rcases withoutLast_eq_or '\r' line with same | longer
  · rw [same]
  · have last : line.getLast? = some '\r' := by rw [longer, getLast?_concat]
    obtain ⟨c, first, solid, other⟩ := anywhere.returned last
    have inside : withoutLast '\r' line ≠ [] := by
      intro nothing
      rw [longer, nothing] at first
      cases first
      cases solid
    obtain ⟨d, rest, is⟩ := exists_cons_of_ne_nil inside
    rw [longer, is] at first
    cases first
    rw [is] at longer
    rw [is, longer]
    exact config.parseLine_return solid other

theorem withLast_comment_injective (group : ConfigGroup) : Function.Injective fun line =>
    config.withLast { group with values := group.values ++ [⟨none, line⟩] } := by
  intro line other same
  have groups := congrArg ConfigTree.groups same
  simpa [withLast] using groups

end ConfigTree

namespace ConfigFile

theorem lineDone_injective : Function.Injective lineDone := by
  rintro ⟨_, _⟩ ⟨_, _⟩ same
  cases same
  rfl

theorem parseLine_backslash (tree : ConfigTree) {line : Text}
    (alone : withoutLast '\r' line = ['\\']) : tree.parseLine line = some (.parse, tree) := by
  rcases withoutLast_eq_or '\r' line with same | longer
  · rw [← same, alone]
    rfl
  · rw [longer, alone]
    rfl

theorem newline_of_endsAnywhere (tree : ConfigTree) {line : Text} (anywhere : EndsAnywhere line) :
    newline false ⟨tree, some line⟩ = newline true ⟨tree, some line⟩ := by
  rw [newline_false, newline_true, if_neg anywhere.ended, tree.parseLine_of_endsAnywhere anywhere]

/-- The newline of a line that is not indented does the same at the start of a piece and
inside of it exactly where the line ends anywhere. -/
theorem newline_same_iff (config : ConfigTree) (group : ConfigGroup) {line : Text}
    (flush : ∀ c ∈ line.head?, CNumber.isSpace c = false) :
    newline false ⟨config.withLast group, some line⟩ =
      newline true ⟨config.withLast group, some line⟩ ↔ EndsAnywhere line := by
  refine ⟨fun same => ?_, newline_of_endsAnywhere _⟩
  rw [newline_false, newline_true] at same
  by_cases continued : (withoutLast '\r' line).getLast? = some '\\'
  · rw [if_pos continued] at same
    obtain ⟨_, parsed, is⟩ := map_eq_some_iff.mp same
    obtain ⟨good, left⟩ := Prod.mk.inj is
    have nothing : (withoutLast '\r' line).dropLast = [] :=
      some.inj (congrArg parseBuffer left).symm
    have alone : withoutLast '\r' line = ['\\'] := by
      rw [← dropLast_append_getLast? '\\' continued, nothing]
      rfl
    rw [parseLine_backslash _ alone] at parsed
    cases parsed
    cases good
  · rw [if_neg continued] at same
    refine ⟨continued, fun last => ?_⟩
    have shorter : withoutLast '\r' line = line.dropLast := if_pos last
    cases line with
    | nil => cases last
    | cons c rest =>
      refine ⟨c, rfl, flush c rfl, ?_⟩
      rintro rfl
      -- Both lines are comments, so they are stored as they are.
      have some_rest : rest ≠ [] := by
        rintro rfl
        cases last
      have start : ∀ text, lineIsComment (trimmedLeft ('#' :: text)) = true := fun _ => rfl
      rw [shorter, dropLast_cons_of_ne_nil some_rest] at same
      have stored := map_injective lineDone_injective same
      rw [ConfigTree.parseLine_comment _ (start _), ConfigTree.parseLine_comment _ (start _),
        ConfigTree.parseComment_withLast, ConfigTree.parseComment_withLast] at stored
      have equal := config.withLast_comment_injective group (Prod.mk.inj (some.inj stored)).2
      have lengths := congrArg length (cons.inj equal).2
      rw [length_dropLast] at lengths
      have := length_pos_of_ne_nil some_rest
      omega

theorem parseFrom_same {tree : ConfigTree} {line text : Text}
    (anywhere : text.head? = some '\n' → EndsAnywhere line) :
    parseFrom false ⟨tree, some line⟩ text = parseFrom true ⟨tree, some line⟩ text := by
  cases text with
  | nil => rfl
  | cons c rest =>
    rw [parseFrom_cons, parseFrom_cons]
    by_cases newline : c = '\n'
    · rw [if_pos newline, if_pos newline,
        newline_of_endsAnywhere tree (anywhere (congrArg some newline))]
    · rw [if_neg newline, if_neg newline]

theorem parseBuffer_lineLeft (text : Text) : ∀ {tree : ConfigTree} {line : Text}
    {after : ConfigFile}, parseFrom true ⟨tree, some line⟩ text = some (.ok, after) →
      after.parseBuffer = some (lineLeft line text) := by
  induction text with
  | nil =>
    intro tree line after read
    cases read
    rfl
  | cons c rest ih =>
    intro tree line after read
    obtain ⟨⟨mid, buffer⟩, first, later⟩ := andThen_eq_ok read
    unfold lineLeft
    by_cases newline : c = '\n'
    · rw [if_pos newline, newline_true] at first
      rw [if_pos newline]
      split at first
      · rename_i continued
        cases first
        simp only [if_pos continued]
        exact ih later
      · rename_i ended
        obtain ⟨_, _, is⟩ := map_eq_some_iff.mp first
        cases (Prod.mk.inj is).2
        simp only [if_neg ended]
        exact ih later
    · rw [if_neg newline] at first ⊢
      cases first
      exact ih later

theorem parseChunks_eq (chunks : List Text) : ∀ {tree : ConfigTree} {line : Text},
    CutsWhole line chunks →
      parseChunks ⟨tree, some line⟩ chunks = parseFrom true ⟨tree, some line⟩ chunks.flatten := by
  induction chunks with
  | nil => exact fun _ => rfl
  | cons chunk chunks ih =>
    intro tree line whole
    by_cases empty : chunk = []
    · rw [empty] at whole ⊢
      exact ih whole.2
    rw [parseChunks, parseData, parseFrom_same whole.1, flatten_cons,
      parseFrom_append _ true _ empty]
    refine andThen_congr fun after read => ?_
    have buffered := parseBuffer_lineLeft chunk read
    obtain ⟨mid, _⟩ := after
    cases buffered
    exact ih whole.2

theorem parseChunks_new {chunk : Text} {chunks : List Text} (merge : Bool) (filled : chunk ≠ [])
    (whole : CutsWhole [] (chunk :: chunks)) :
    (new.withMerge merge).parseChunks (chunk :: chunks) =
      (new.withMerge merge).parseData (chunk :: chunks).flatten := by
  obtain ⟨c, rest, rfl⟩ := exists_cons_of_ne_nil filled
  by_cases newline : c = '\n'
  · rw [newline]
    rfl
  have start : ∀ text, parseFrom false (new.withMerge merge) (c :: text) =
      parseFrom true ⟨fresh merge, some []⟩ (c :: text) := parseFrom_first false _ newline
  have pieces := @parseChunks_eq ((c :: rest) :: chunks) (fresh merge) [] whole
  rw [parseChunks, parseData, parseFrom_same whole.1, ← start] at pieces
  rw [parseChunks, parseData, parseData, pieces, flatten_cons, cons_append, start]

end ConfigFile

/-- Data that is read in pieces gives what it gives in one piece, if there is any and every
piece that begins with a newline comes behind a line that ends anywhere. For lines that are
not indented the newline itself does the same under no other condition. Without any data the two
functions return different codes. -/
theorem config_load_in_pieces (chunks : List Text) (merge : Bool)
    (some_chunks : ∀ chunk ∈ chunks, chunk ≠ []) :
    (chunks ≠ [] ∧ CutsWhole [] chunks →
      ConfigFile.new.loadFromFd chunks merge =
        ConfigFile.new.loadFromData chunks.flatten merge) ∧
    (∀ (config : ConfigTree) group line, (∀ c ∈ line.head?, CNumber.isSpace c = false) →
      (newline false ⟨config.withLast group, some line⟩ =
        newline true ⟨config.withLast group, some line⟩ ↔ EndsAnywhere line)) ∧
    ConfigFile.new.loadFromFd [] merge = some (.parse, ConfigFile.new) ∧
    ConfigFile.new.loadFromData [] merge = some (.invalidArgs, ConfigFile.new) := by
  refine ⟨?_, fun config group line flush => newline_same_iff config group flush, rfl, rfl⟩
  rintro ⟨some_data, whole⟩
  obtain ⟨chunk, later, rfl⟩ := exists_cons_of_ne_nil some_data
  have filled : chunk ≠ [] := some_chunks chunk mem_cons_self
  have some_flat : (chunk :: later).flatten ≠ [] := append_ne_nil_of_left_ne_nil filled _
  unfold loadFromFd loadFromData
  rw [if_neg some_flat, if_neg some_flat, parseChunks_new merge filled whole]

/-- A cut between the carriage return and the newline of a header does no harm. -/
theorem config_load_in_pieces_header :
    ConfigFile.new.loadFromFd ["[g]\r".toList, "\nk = v\r\n".toList] false =
      ConfigFile.new.loadFromData "[g]\r\nk = v\r\n".toList false := by
  refine (config_load_in_pieces ["[g]\r".toList, "\nk = v\r\n".toList] false (by decide)).1
    ⟨cons_ne_nil _ _, fun start => (by cases start), fun _ => ?_, trivial⟩
  exact ⟨by decide, fun _ => ⟨'[', rfl, by decide, by decide⟩⟩

/-- A cut behind a backslash takes the continuation from the line, and one behind a carriage
return leaves it in a comment. -/
theorem config_load_cut_differs :
    ((ConfigFile.new.loadFromFd ["[g]\nk = a\\".toList, "\nb\n".toList] false).map Prod.fst =
      some .parse ∧
    (ConfigFile.new.loadFromData "[g]\nk = a\\\nb\n".toList false).map
      (fun done => (done.1, done.2.tree.getValue ['g'] ['k'])) = some (.ok, some ['a', 'b'])) ∧
    ConfigFile.new.loadFromFd ["# a\r".toList, "\n".toList] false ≠
      ConfigFile.new.loadFromData "# a\r\n".toList false := by
  decide +kernel

end Wzdftpd
