import Mathlib.Data.List.DropRight

/- Files of directives: lines `key=value`, in records that an empty line ends. Lines
are read by `fgets` into a buffer, so that a longer line is read in pieces. What a
directive does to the record that is read is a parameter. -/
namespace DirectiveText

open List Option

/-- `fgets` with room for so many characters: what it reads, and what is left. -/
def fgets : Nat → List Char → List Char × List Char
  | 0, file => ([], file)
  | _ + 1, [] => ([], [])
  | room + 1, c :: file =>
    if c = '\n' then (['\n'], file)
    else
      let (line, rest) := fgets room file
      (c :: line, rest)

def isLineEnd (c : Char) : Bool := c = '\r' ∨ c = '\n'

/-- The text in a buffer, without the characters that end the line. -/
def chomp (buffer : List Char) : List Char :=
  (buffer.takeWhile (· ≠ '\x00')).rdropWhile isLineEnd

def isWord (c : Char) : Bool := c.isAlphanum ∨ c = '_'

def isBlank (c : Char) : Bool := c = ' ' ∨ c = '\t'

/-- What `[ \t]*(.+)` takes of a text: blanks in front go, as far as one character remains. -/
def value (text : List Char) : List Char :=
  if text.dropWhile isBlank = [] then text.drop (text.length - 1) else text.dropWhile isBlank

/-- The parts of a line of the form `^([a-zA-Z0-9_]+)[ \t]*=[ \t]*(.+)`. -/
def split (line : List Char) : Option (List Char × List Char) :=
  match (line.dropWhile isWord).dropWhile isBlank with
  | '=' :: text =>
    if line.takeWhile isWord = [] ∨ text = [] then none
    else some (line.takeWhile isWord, value text)
  | _ => none

def directive (line : List Char × List Char) : List Char := line.1 ++ '=' :: line.2 ++ ['\n']

section

variable {σ : Type} (room : Nat) (apply : List Char → List Char → σ → Option σ)

/-- What a line does to the record. A line of another form is skipped. -/
def turn (line : List Char) (record : σ) : Option σ :=
  match split line with
  | none => some record
  | some (key, text) => apply key text record

/-- The lines up to an empty one, with a bound for their number. -/
def readLoop : Nat → σ → List Char → Option (σ × List Char)
  | 0, record, file => some (record, file)
  | fuel + 1, record, file =>
    if file = [] then some (record, [])
    else
      let (buffer, rest) := fgets room file
      if chomp buffer = [] then some (record, rest)
      else (turn apply (chomp buffer) record).bind fun record => readLoop fuel record rest

/-- The record at a place of the file, and the rest; every line takes something of the file. -/
def readRecord (record : σ) (file : List Char) : Option (σ × List Char) :=
  readLoop room apply file.length record file

/-- The lines of a section up to the next `[`, with a bound. Nothing is known of a line without
text or of a last character without a line: the reader looks in front of its buffer, or at what
an earlier line left in it. -/
def sectionLoop (entry : List Char → List Char → σ → Option (σ × List Char)) :
    Nat → σ → List Char → Option (σ × List Char)
  | 0, state, file => some (state, file)
  | _ + 1, state, [] => some (state, [])
  | fuel + 1, state, c :: file =>
    if c = '\xff' then some (state, file)
    else if c = '\n' then sectionLoop entry fuel state file
    else if c = '#' then sectionLoop entry fuel state (fgets (room - 1) file).2
    else if c = '[' then some (state, '[' :: file)
    else
      let (buffer, rest) := fgets (room - 1) file
      if file = [] ∨ chomp (c :: buffer) = [] then none
      else (entry (chomp (c :: buffer)) rest state).bind fun (state, rest) =>
        sectionLoop entry fuel state rest

/-- Every line of a section takes something of the file. -/
def readSection (entry : List Char → List Char → σ → Option (σ × List Char)) (state : σ)
    (file : List Char) : Option (σ × List Char) :=
  sectionLoop room entry file.length state file

/-- What a directive that is read back does to the record. -/
def assign (record : σ) (line : List Char × List Char) : Option σ :=
  if chomp line.2 = [] then some record else apply line.1 (value (chomp line.2)) record

end

structure Writable (line : List Char × List Char) : Prop where
  named : line.1 ≠ []
  word : ∀ c ∈ line.1, isWord c = true
  single : '\n' ∉ line.2
  terminated : '\x00' ∉ line.2

theorem fgets_line (body rest : List Char) (single : '\n' ∉ body) (room : Nat)
    (fits : body.length < room) :
    fgets room (body ++ '\n' :: rest) = (body ++ ['\n'], rest) := by
  induction body generalizing room with
  | nil =>
    obtain ⟨more, rfl⟩ : ∃ more, room = more + 1 := ⟨room - 1, by simp at fits; omega⟩
    simp [fgets]
  | cons c body ih =>
    rw [length_cons] at fits
    obtain ⟨more, rfl⟩ : ∃ more, room = more + 1 := ⟨room - 1, by omega⟩
    have other : ¬c = '\n' := fun same => single (same ▸ mem_cons_self)
    have later := ih (fun member => single (mem_cons_of_mem c member)) more (by omega)
    simp [fgets, if_neg other, later]

theorem fgets_piece (body rest : List Char) (single : '\n' ∉ body) :
    fgets body.length (body ++ rest) = (body, rest) := by
  induction body with
  | nil => rw [length_nil, nil_append, fgets]
  | cons c body ih =>
    have other : ¬c = '\n' := fun same => single (same ▸ mem_cons_self)
    have later := ih fun member => single (mem_cons_of_mem c member)
    simp [fgets, if_neg other, later]

theorem fgets_append (room : Nat) (file : List Char) :
    (fgets room file).1 ++ (fgets room file).2 = file := by
  induction room generalizing file with
  | zero => rfl
  | succ room ih =>
    cases file with
    | nil => rfl
    | cons c file =>
      unfold fgets
      split
      · rename_i same
        rw [same]
        rfl
      · exact congrArg (c :: ·) (ih file)

theorem fgets_ne_nil {room : Nat} (some : 0 < room) {file : List Char} (more : file ≠ []) :
    (fgets room file).1 ≠ [] := by
  obtain ⟨less, rfl⟩ : ∃ less, room = less + 1 := ⟨room - 1, by omega⟩
  obtain ⟨_, _, rfl⟩ := exists_cons_of_ne_nil more
  unfold fgets
  split
  · exact cons_ne_nil _ _
  · exact cons_ne_nil _ _

theorem length_fgets {room : Nat} (some : 0 < room) {file : List Char} (more : file ≠ []) :
    (fgets room file).2.length < file.length := by
  have parts := congrArg length (fgets_append room file)
  have taken := length_pos_of_ne_nil (fgets_ne_nil some more)
  rw [length_append] at parts
  omega

/-- Only the last character that is read can end the line. -/
theorem fgets_shape (room : Nat) (file : List Char) :
    ∃ body, '\n' ∉ body ∧ ((fgets room file).1 = body ∨ (fgets room file).1 = body ++ ['\n']) := by
  induction room generalizing file with
  | zero => exact ⟨[], not_mem_nil, .inl rfl⟩
  | succ room ih =>
    cases file with
    | nil => exact ⟨[], not_mem_nil, .inl rfl⟩
    | cons c file =>
      by_cases same : c = '\n'
      · refine ⟨[], not_mem_nil, .inr ?_⟩
        rw [fgets, if_pos same]
        rfl
      obtain ⟨body, single, shape⟩ := ih file
      have read : (fgets (room + 1) (c :: file)).1 = c :: (fgets room file).1 := by
        rw [fgets, if_neg same]
      refine ⟨c :: body, ?_, ?_⟩
      · intro member
        rcases mem_cons.mp member with first | later
        · exact same first.symm
        · exact single later
      · rw [read]
        exact shape.imp (congrArg (c :: ·)) (congrArg (c :: ·))

theorem fgets_stops (room : Nat) : ∀ file : List Char, (fgets room file).1.length ≤ room ∧
    ((fgets room file).2 = [] ∨ (fgets room file).1.getLast? = some '\n' ∨
      (fgets room file).1.length = room) := by
  induction room with
  | zero => exact fun file => ⟨Nat.le_refl 0, .inr (.inr rfl)⟩
  | succ room ih =>
    intro file
    cases file with
    | nil => exact ⟨Nat.zero_le _, .inl rfl⟩
    | cons c file =>
      obtain ⟨short, ends⟩ := ih file
      rw [fgets]
      split
      · exact ⟨Nat.succ_le_succ (Nat.zero_le _), .inr (.inl rfl)⟩
      · refine ⟨Nat.succ_le_succ short, ends.imp_right (.imp (fun last => ?_) (congrArg (· + 1)))⟩
        rw [getLast?_cons, last]
        rfl

theorem newline_not_mem_dropLast_fgets (room : Nat) (file : List Char) :
    '\n' ∉ (fgets room file).1.dropLast := by
  obtain ⟨_, single, shape | shape⟩ := fgets_shape room file
  · rw [shape]
    exact fun member => single (dropLast_subset _ member)
  · rw [shape, dropLast_concat]
    exact single

variable {c : Char}

theorem mem_of_mem_chomp {buffer : List Char} (member : c ∈ chomp buffer) : c ∈ buffer :=
  takeWhile_subset _ ((List.rdropWhile_prefix isLineEnd _).subset member)

theorem chomp_concat (body : List Char) : chomp (body ++ ['\n']) = chomp body := by
  unfold chomp
  by_cases terminated : '\x00' ∈ body
  · have stops : ¬∀ c ∈ body, (c ≠ '\x00' : Bool) = true := by
      intro all
      have impossible := all _ terminated
      revert impossible
      decide
    rw [takeWhile_append, if_neg]
    intro whole
    apply stops
    exact takeWhile_eq_self_iff.mp (IsPrefix.eq_of_length (List.takeWhile_prefix _) whole)
  · have whole : ∀ c ∈ body, decide (c ≠ '\x00') = true := by
      intro c member
      exact decide_eq_true fun same => terminated (same ▸ member)
    rw [takeWhile_append_of_pos whole, takeWhile_eq_self_iff.mpr whole]
    exact rdropWhile_concat_pos isLineEnd body '\n' rfl

theorem chomp_fgets_single (room : Nat) (file : List Char) : '\n' ∉ chomp (fgets room file).1 := by
  obtain ⟨_, single, shape⟩ := fgets_shape room file
  intro member
  rcases shape with read | read
  · rw [read] at member
    exact single (mem_of_mem_chomp member)
  · rw [read, chomp_concat] at member
    exact single (mem_of_mem_chomp member)

theorem rdropWhile_append_cons {p : Char → Bool} (first : List Char)
    (stays : p c = false) (text : List Char) :
    (first ++ c :: text).rdropWhile p = first ++ c :: text.rdropWhile p := by
  induction text using reverseRecOn with
  | nil => exact rdropWhile_concat_neg p first c (Bool.eq_false_iff.mp stays)
  | append_singleton text last ih =>
    rw [← cons_append, ← append_assoc]
    cases drops : p last with
    | true =>
      rw [rdropWhile_concat_pos p _ _ drops, rdropWhile_concat_pos p _ _ drops, ih]
    | false =>
      rw [rdropWhile_concat_neg p _ _ (Bool.eq_false_iff.mp drops),
        rdropWhile_concat_neg p _ _ (Bool.eq_false_iff.mp drops), append_assoc,
        cons_append]

theorem chomp_append_cons {first : List Char} (terminated : '\x00' ∉ first) (text : List Char) :
    chomp (first ++ '=' :: text) = first ++ '=' :: chomp text := by
  have whole : ∀ c ∈ first, decide (c ≠ '\x00') = true := by
    intro c member
    exact decide_eq_true fun same => terminated (same ▸ member)
  rw [chomp, takeWhile_append_of_pos whole, takeWhile_cons_of_pos (by decide),
    rdropWhile_append_cons first (by decide), chomp]

theorem chomp_cons (other : c ≠ '\x00') (stays : isLineEnd c = false)
    (text : List Char) : chomp (c :: text) = c :: chomp text := by
  have kept : (c :: text).takeWhile (· ≠ '\x00') = c :: text.takeWhile (· ≠ '\x00') :=
    takeWhile_cons_of_pos (by simp [other])
  rw [chomp, kept]
  exact rdropWhile_append_cons [] stays _

variable {text : List Char}

theorem chomp_of_getLast? (terminated : '\x00' ∉ text)
    (ends : ∀ c, text.getLast? = some c → isLineEnd c = false) : chomp text = text := by
  have whole : ∀ c ∈ text, decide (c ≠ '\x00') = true := by
    intro c member
    exact decide_eq_true fun same => terminated (same ▸ member)
  rw [chomp, takeWhile_eq_self_iff.mpr whole, rdropWhile_eq_self_iff]
  intro some last
  rw [ends _ (getLast?_eq_some_getLast some)] at last
  cases last

theorem mem_of_mem_value (member : c ∈ value text) : c ∈ text := by
  unfold value at member
  split at member
  · exact mem_of_mem_drop member
  · exact (dropWhile_suffix isBlank).subset member

theorem mem_of_split {line key : List Char} (read : split line = some (key, text))
    (member : c ∈ text) : c ∈ line := by
  unfold split at read
  split at read
  · rename_i rest behind
    split at read
    · cases read
    · cases read
      have inside : c ∈ (line.dropWhile isWord).dropWhile isBlank := by
        rw [behind]
        exact mem_cons_of_mem _ (mem_of_mem_value member)
      exact (dropWhile_suffix _).subset ((dropWhile_suffix _).subset inside)
  · cases read

theorem value_of_head? (starts : ∀ c, text.head? = some c → isBlank c = false) :
    value text = text := by
  cases text with
  | nil => rfl
  | cons c text =>
    have kept : (c :: text).dropWhile isBlank = c :: text :=
      dropWhile_cons_of_neg (by rw [starts c rfl]; exact Bool.false_ne_true)
    rw [value, kept, if_neg (cons_ne_nil c text)]

theorem split_directive {key : List Char} (named : key ≠ []) (word : ∀ c ∈ key, isWord c = true) :
    split (key ++ '=' :: text) = if text = [] then none else some (key, value text) := by
  have equals : ¬isWord '=' = true := by decide
  have taken : (key ++ '=' :: text).takeWhile isWord = key := by
    rw [takeWhile_append_of_pos word, takeWhile_cons_of_neg equals, append_nil]
  have behind : ((key ++ '=' :: text).dropWhile isWord).dropWhile isBlank = '=' :: text := by
    rw [dropWhile_append_of_pos word, dropWhile_cons_of_neg equals,
      dropWhile_cons_of_neg (by decide)]
  rw [split, taken, behind]
  simp [named]

section

variable {σ : Type} {room : Nat} {apply : List Char → List Char → σ → Option σ}

theorem readLoop_fuel (some : 0 < room) (fuel : Nat) : ∀ (record : σ) (file : List Char),
    file.length ≤ fuel → readLoop room apply fuel record file =
      readRecord room apply record file := by
  induction fuel using Nat.strong_induction_on with
  | _ fuel ih =>
    intro record file enough
    cases fuel with
    | zero =>
      rw [length_eq_zero_iff.mp (Nat.le_zero.mp enough)]
      rfl
    | succ fuel =>
      cases file with
      | nil => rfl
      | cons c file =>
        have shorter := length_fgets some (cons_ne_nil c file)
        rw [length_cons] at enough shorter
        rw [readRecord, length_cons, readLoop, readLoop, if_neg (cons_ne_nil c file)]
        simp only
        split
        · rfl
        · congr 1
          funext next
          rw [ih fuel (by omega) next _ (by omega), ih file.length (by omega) next _ (by omega)]

theorem readRecord_eq (some : 0 < room) (record : σ) {file : List Char} (more : file ≠ []) :
    readRecord room apply record file =
      if chomp (fgets room file).1 = [] then .some (record, (fgets room file).2)
      else (turn apply (chomp (fgets room file).1) record).bind fun next =>
        readRecord room apply next (fgets room file).2 := by
  have shorter := length_fgets some more
  obtain ⟨_, rest, rfl⟩ := exists_cons_of_ne_nil more
  rw [readRecord, length_cons, readLoop, if_neg more]
  simp only [readLoop_fuel some rest.length _ _ (Nat.le_of_lt_succ shorter)]

theorem readRecord_end (some : 0 < room) (record : σ) (rest : List Char) :
    readRecord room apply record ('\n' :: rest) = .some (record, rest) := by
  have read : fgets room ('\n' :: rest) = (['\n'], rest) :=
    fgets_line [] rest not_mem_nil room some
  rw [readRecord_eq some record (cons_ne_nil _ _), read]
  exact if_pos rfl

variable {line : List Char × List Char}

theorem turn_directive (apply : List Char → List Char → σ → Option σ) (writable : Writable line)
    (record : σ) :
    chomp (line.1 ++ '=' :: line.2) ≠ [] ∧
      turn apply (chomp (line.1 ++ '=' :: line.2)) record = assign apply record line := by
  have terminated : '\x00' ∉ line.1 := by
    intro member
    have impossible := writable.word _ member
    revert impossible
    decide
  rw [chomp_append_cons terminated, turn, split_directive writable.named writable.word, assign]
  refine ⟨by simp, ?_⟩
  by_cases empty : chomp line.2 = []
  · rw [if_pos empty, if_pos empty]
  · rw [if_neg empty, if_neg empty]

theorem Writable.single_body (writable : Writable line) : '\n' ∉ line.1 ++ '=' :: line.2 := by
  rw [mem_append, mem_cons]
  rintro (inside | impossible | inside)
  · have impossible := writable.word _ inside
    revert impossible
    decide
  · revert impossible
    decide
  · exact writable.single inside

theorem directive_append (line : List Char × List Char) (rest : List Char) :
    directive line ++ rest = (line.1 ++ '=' :: line.2) ++ '\n' :: rest := by
  simp [directive]

theorem length_directive (line : List Char × List Char) :
    (directive line).length = (line.1 ++ '=' :: line.2).length + 1 := by
  rw [directive, length_append, length_singleton]

theorem directive_append_ne_nil (line : List Char × List Char) (rest : List Char) :
    directive line ++ rest ≠ [] := by
  rw [directive_append]
  exact append_ne_nil_of_right_ne_nil _ (cons_ne_nil _ _)

/-- A directive for which there is room, and what follows it. -/
theorem readRecord_directive (writable : Writable line) (fits : (directive line).length ≤ room)
    (record : σ) (rest : List Char) :
    readRecord room apply record (directive line ++ rest) =
      (assign apply record line).bind fun next => readRecord room apply next rest := by
  obtain ⟨some, same⟩ := turn_directive apply writable record
  rw [length_directive] at fits
  have read := fgets_line _ rest writable.single_body room (by omega)
  rw [readRecord_eq (by omega) record (directive_append_ne_nil line rest), directive_append, read,
    chomp_concat, if_neg some, same]

theorem readRecord_cut (writable : Writable line) (long : (directive line).length = room + 1)
    (record : σ) (rest : List Char) :
    readRecord room apply record (directive line ++ rest) =
      (assign apply record line).map fun next => (next, rest) := by
  obtain ⟨some, same⟩ := turn_directive apply writable record
  have length : (line.1 ++ '=' :: line.2).length = room := by
    rw [length_directive] at long
    omega
  have positive : 0 < room := by
    rw [length_append, length_cons] at length
    omega
  have read := fgets_piece _ ('\n' :: rest) writable.single_body
  rw [length] at read
  rw [readRecord_eq positive record (directive_append_ne_nil line rest), directive_append, read,
    if_neg some, same]
  simp only [readRecord_end positive]
  exact map_eq_bind.symm

theorem readRecord_directives {lines : List (List Char × List Char)}
    (writable : ∀ line ∈ lines, Writable line ∧ (directive line).length ≤ room) (record : σ)
    (rest : List Char) :
    readRecord room apply record (lines.flatMap directive ++ rest) =
      (lines.foldlM (assign apply) record).bind fun next => readRecord room apply next rest := by
  induction lines generalizing record with
  | nil => rfl
  | cons line lines ih =>
    obtain ⟨fit, fits⟩ := writable line mem_cons_self
    have later := ih (forall_mem_cons.mp writable).2
    rw [flatMap_cons, append_assoc, readRecord_directive fit fits]
    simp only [later]
    exact (bind_assoc _ _ _).symm

/-- What every directive keeps holds of the record that is read. -/
theorem readRecord_keeps (some : 0 < room) (holds : σ → Prop)
    (keeps : ∀ key text record next, '\n' ∉ text → holds record →
      apply key text record = .some next → holds next) (file : List Char) :
    ∀ {record next : σ} {rest : List Char}, holds record →
      readRecord room apply record file = .some (next, rest) → holds next := by
  induction length : file.length using Nat.strong_induction_on generalizing file with
  | _ n ih =>
    intro record next rest now read
    by_cases empty : file = []
    · rw [empty] at read
      cases read
      exact now
    have shorter := length_fgets some empty
    rw [readRecord_eq some record empty] at read
    split at read
    · cases read
      exact now
    obtain ⟨between, turned, later⟩ := bind_eq_some_iff.mp read
    apply ih _ (length ▸ shorter) _ rfl ?_ later
    unfold turn at turned
    split at turned
    · cases turned
      exact now
    · rename_i key text parts
      apply keeps key text record between ?_ now turned
      intro member
      exact chomp_fgets_single room file (mem_of_split parts member)

/-- A record that is read by two meanings of the directives, which keep a relation. -/
theorem readRecord_rel {τ : Type} {other : List Char → List Char → τ → Option τ}
    (some : 0 < room) (rel : σ → τ → Prop)
    (keeps : ∀ key text first second next, rel first second →
      apply key text first = .some next →
        ∃ also, other key text second = .some also ∧ rel next also)
    (file : List Char) : ∀ {first next : σ} {second : τ} {rest : List Char}, rel first second →
      readRecord room apply first file = .some (next, rest) →
      ∃ also, readRecord room other second file = .some (also, rest) ∧ rel next also := by
  induction length : file.length using Nat.strong_induction_on generalizing file with
  | _ n ih =>
    intro first next second rest now read
    by_cases empty : file = []
    · rw [empty] at read ⊢
      cases read
      exact ⟨second, rfl, now⟩
    have shorter := length_fgets some empty
    rw [readRecord_eq some first empty] at read
    rw [readRecord_eq some second empty]
    split at read
    · rename_i ended
      cases read
      rw [if_pos ended]
      exact ⟨second, rfl, now⟩
    · rename_i goes
      obtain ⟨between, turned, later⟩ := bind_eq_some_iff.mp read
      obtain ⟨step, same, related⟩ :
          ∃ step, turn other (chomp (fgets room file).1) second = .some step ∧
            rel between step := by
        unfold turn at turned ⊢
        split at turned
        · cases turned
          exact ⟨second, rfl, now⟩
        · exact keeps _ _ _ _ _ now turned
      rw [if_neg goes, same]
      exact ih _ (length ▸ shorter) _ rfl related later

end

section

variable {σ : Type} {room : Nat} {entry : List Char → List Char → σ → Option (σ × List Char)}

theorem sectionLoop_keeps (holds : σ → Prop)
    (keeps : ∀ line rest state out, holds state → entry line rest state = some out → holds out.1)
    (fuel : Nat) : ∀ {state : σ} {file : List Char} {out : σ × List Char}, holds state →
      sectionLoop room entry fuel state file = some out → holds out.1 := by
  induction fuel with
  | zero =>
    intro state file out now read
    cases read
    exact now
  | succ fuel ih =>
    intro state file out now read
    cases file with
    | nil =>
      cases read
      exact now
    | cons c file =>
      unfold sectionLoop at read
      split_ifs at read
      · cases read
        exact now
      · exact ih now read
      · exact ih now read
      · cases read
        exact now
      · simp only at read
        split at read
        · cases read
        · obtain ⟨⟨_, rest⟩, entered, later⟩ := bind_eq_some_iff.mp read
          exact ih (keeps _ _ _ _ now entered) later

/-- The reader of a section gets over a text, with what it needs for the rest. -/
def Crosses (room : Nat) (entry : List Char → List Char → σ → Option (σ × List Char)) (state : σ)
    (text : List Char) (next : σ) : Prop :=
  ∀ (fuel : Nat) (rest : List Char), (text ++ rest).length ≤ fuel →
    ∃ less, rest.length ≤ less ∧
      sectionLoop room entry fuel state (text ++ rest) = sectionLoop room entry less next rest

namespace Crosses

variable {state next last : σ} {text more : List Char}

theorem nil : Crosses room entry state [] state := fun fuel _ enough => ⟨fuel, enough, rfl⟩

theorem append (first : Crosses room entry state text next)
    (second : Crosses room entry next more last) :
    Crosses room entry state (text ++ more) last := by
  intro fuel rest enough
  rw [append_assoc] at enough ⊢
  obtain ⟨between, left, same⟩ := first fuel (more ++ rest) enough
  obtain ⟨less, remains, later⟩ := second between rest left
  exact ⟨less, remains, same.trans later⟩

theorem comment {body : List Char} (single : '\n' ∉ body) (fits : body.length < room - 1) :
    Crosses room entry state ('#' :: (body ++ ['\n'])) state := by
  intro fuel rest enough
  simp only [cons_append, append_assoc, nil_append, length_cons,
    length_append] at enough ⊢
  obtain ⟨less, rfl⟩ : ∃ less, fuel = less + 1 := ⟨fuel - 1, by omega⟩
  refine ⟨less, by omega, ?_⟩
  have read := fgets_line body rest single (room - 1) fits
  rw [sectionLoop, if_neg (by decide), if_neg (by decide), if_pos rfl, read]

/-- A record whose first line is taken by the entry, which reads the others. -/
theorem record {c : Char} (plain : c ≠ '\xff' ∧ c ≠ '\n' ∧ c ≠ '#' ∧ c ≠ '[') (more : text ≠ [])
    (some : 0 < room)
    (entered : ∀ rest, chomp (fgets room (c :: text ++ rest)).1 ≠ [] ∧
      entry (chomp (fgets room (c :: text ++ rest)).1) (fgets room (c :: text ++ rest)).2 state =
        .some (next, rest)) :
    Crosses room entry state (c :: text) next := by
  intro fuel rest enough
  obtain ⟨line, read⟩ := entered rest
  obtain ⟨other, notEnd, notComment, notSection⟩ := plain
  obtain ⟨space, rfl⟩ : ∃ space, room = space + 1 := ⟨room - 1, by omega⟩
  simp only [length_cons, length_append] at enough
  obtain ⟨less, rfl⟩ : ∃ less, fuel = less + 1 := ⟨fuel - 1, by omega⟩
  simp only [cons_append, fgets, if_neg notEnd] at line read
  have goes : ¬(text ++ rest = [] ∨ chomp (c :: (fgets space (text ++ rest)).1) = []) := by
    rintro (empty | empty)
    · exact more (append_eq_nil_iff.mp empty).1
    · exact line empty
  refine ⟨less, by omega, ?_⟩
  rw [cons_append, sectionLoop, if_neg other, if_neg notEnd, if_neg notComment,
    if_neg notSection]
  simp only [Nat.add_sub_cancel]
  rw [if_neg goes, read, bind_some]

/-- Texts one behind the other. What the entries rely on is said of those still to come. -/
theorem flatMap {α : Type} (textOf : α → List Char) (step : σ → α → σ) (holds : List α → σ → Prop)
    (passes : ∀ record records state, holds (record :: records) state →
      Crosses room entry state (textOf record) (step state record) ∧
        holds records (step state record))
    (records : List α) : ∀ {state : σ}, holds records state →
      Crosses room entry state (records.flatMap textOf) (records.foldl step state) := by
  induction records with
  | nil => exact fun _ => nil
  | cons record records ih =>
    intro state now
    obtain ⟨first, later⟩ := passes record records state now
    exact first.append (ih later)

theorem readSection_bracket (passes : Crosses room entry state text next) (rest : List Char) :
    readSection room entry state (text ++ '[' :: rest) = some (next, '[' :: rest) := by
  obtain ⟨less, enough, same⟩ := passes _ ('[' :: rest) (Nat.le_refl _)
  rw [length_cons] at enough
  obtain ⟨fuel, rfl⟩ : ∃ fuel, less = fuel + 1 := ⟨less - 1, by omega⟩
  rw [readSection, same, sectionLoop, if_neg (by decide), if_neg (by decide), if_neg (by decide),
    if_pos rfl]

theorem readSection_end (passes : Crosses room entry state text next) :
    readSection room entry state text = some (next, []) := by
  obtain ⟨less, _, same⟩ := passes text.length [] (by simp)
  rw [append_nil] at same
  rw [readSection, same]
  cases less with
  | zero => rfl
  | succ fuel => rfl

end Crosses

end

end DirectiveText
