import Mathlib.Data.Bool.AllAny
import Wzdftpd.DirectiveText
import Wzdftpd.PermFile

/- A permission file that is read back after it has been written. -/
namespace Wzdftpd

open AclLine CNumber List Option PermEntry

/-- A text without the characters that separate lines and fields. Spaces are allowed. -/
structure Printable (text : Text) : Prop where
  nonempty : text ≠ []
  plain : ∀ c ∈ text, c ≠ '\t' ∧ c ≠ '\r' ∧ c ≠ '\n' ∧ c ≠ '\x00' ∧ isQuote c = false

/-- White space in front of a text is read back only if the text is written in quotes. -/
def StartsReadable (text : Text) : Prop :=
  ' ' ∈ text ∨ ∀ c, text.head? = some c → CNumber.isSpace c = false

/-- A text that is read back as one token after it has been written by `quoted`. -/
structure Label (text : Text) : Prop extends Printable text where
  starts : StartsReadable text

/-- A name without white space and quotes that fits into its field. -/
structure Word (text : Text) : Prop where
  nonempty : text ≠ []
  fits : text.length < 256
  plain : ∀ c ∈ text, CNumber.isSpace c = false ∧ isQuote c = false ∧ c ≠ '\x00'

instance (text : Text) : Decidable (Printable text) :=
  decidable_of_iff (text ≠ [] ∧ (text.all fun c =>
      c ≠ '\t' ∧ c ≠ '\r' ∧ c ≠ '\n' ∧ c ≠ '\x00' ∧ isQuote c = false) = true)
    ⟨fun ⟨nonempty, all⟩ => ⟨nonempty, all_iff_forall_prop.mp all⟩,
      fun printable => ⟨printable.nonempty, all_iff_forall_prop.mpr printable.plain⟩⟩

instance (text : Text) : Decidable (Word text) :=
  decidable_of_iff (text ≠ [] ∧ text.length < 256 ∧ (text.all fun c =>
      CNumber.isSpace c = false ∧ isQuote c = false ∧ c ≠ '\x00') = true)
    ⟨fun ⟨nonempty, fits, all⟩ => ⟨nonempty, fits, all_iff_forall_prop.mp all⟩,
      fun word => ⟨word.nonempty, word.fits, all_iff_forall_prop.mpr word.plain⟩⟩

variable {text : Text}

theorem Word.unquoted (word : Word text) : Unquoted text where
  nonempty := word.nonempty
  starts := fun c first => (word.plain c (mem_of_head? first)).1
  plain := fun c member => by
    refine ⟨fun blank => ?_, (word.plain c member).2.1⟩
    have space := isSpace_of_mem_blanks blank
    rw [(word.plain c member).1] at space
    cases space

theorem Word.notBlank (word : Word text) : ∀ c ∈ text, c ∉ blanks :=
  fun c member => (word.unquoted.plain c member).1

theorem Word.noSpace (word : Word text) : ' ' ∉ text := by
  intro member
  have space := (word.plain ' ' member).1
  revert space
  decide

theorem Word.quoted_eq (word : Word text) : quoted text = text :=
  if_neg word.noSpace

theorem Word.label (word : Word text) : Label text where
  nonempty := word.nonempty
  plain := fun c member => by
    obtain ⟨notSpace, notQuote, notZero⟩ := word.plain c member
    refine ⟨?_, ?_, ?_, notZero, notQuote⟩
    all_goals
      rintro rfl
      revert notSpace
      decide
  starts := .inr fun c first => (word.plain c (mem_of_head? first)).1

theorem word_owner : Word "owner".toList := by decide

theorem word_perm : Word "perm".toList := by decide

theorem word_link : Word "link".toList := by decide

theorem field_eq (fits : text.length < 256) : field text = some text := if_pos fits

/-- After a label, the reader goes on behind the separator. -/
theorem readToken_label (label : Label text) (rest : Text) : ∃ next,
    readToken (some (quoted text ++ '\t' :: rest)) = (some text, some next) ∧
      readToken (some next) = readToken (some rest) ∧ strtok blanks next = strtok blanks rest := by
  have tab : '\t' ∈ blanks := by decide
  by_cases spaced : ' ' ∈ text
  · refine ⟨'\t' :: rest, ?_, readToken_cons_space (by decide) rest, strtok_cons_delim tab rest⟩
    have notQuote : ∀ c ∈ text, c ≠ '\'' := by
      rintro c member rfl
      have quote := (label.plain '\'' member).2.2.2.2
      revert quote
      decide
    have token := readToken_quoted label.nonempty notQuote ('\t' :: rest)
    simp only [quoted, if_pos spaced, append_assoc] at token ⊢
    exact token
  · refine ⟨rest, ?_, rfl, rfl⟩
    have unquoted : Unquoted text :=
      { nonempty := label.nonempty
        starts := label.starts.resolve_left spaced
        plain := fun c member => by
          obtain ⟨notTab, notCr, notLf, _, notQuote⟩ := label.plain c member
          refine ⟨fun blank => ?_, notQuote⟩
          rcases (mem_blanks c).mp blank with rfl | rfl | rfl | rfl
          · exact spaced member
          · exact notTab rfl
          · exact notCr rfl
          · exact notLf rfl }
    rw [quoted, if_neg spaced]
    exact readToken_unquoted unquoted tab rest

variable {name : Text}

/-- The four tokens that the lines of the writer have in common. -/
theorem readPermLine_eq (umask : Nat) (files : List PermEntry) {word third fourth : Text}
    {d : Char} (rest : Text) (keyword : Word word) (named : Label name)
    (thirdLabel : Label third) (isFourth : fourth ≠ []) (fourthPlain : ∀ c ∈ fourth, c ∉ blanks)
    (blank : d ∈ blanks) :
    readPermLine umask files
        (word ++ '\t' :: (quoted name ++ '\t' :: (quoted third ++ '\t' :: (fourth ++ d :: rest)))) =
      (findOrAddFile umask name files).bind (decodeLine umask word name third fourth rest) := by
  have first := strtok_word (quoted name ++ '\t' :: (quoted third ++ '\t' :: (fourth ++ d :: rest)))
    keyword.nonempty keyword.notBlank (by decide : '\t' ∈ blanks)
  obtain ⟨_, second, goOn, _⟩ := readToken_label named
    (quoted third ++ '\t' :: (fourth ++ d :: rest))
  obtain ⟨_, isThird, _, goOnWord⟩ := readToken_label thirdLabel (fourth ++ d :: rest)
  have last := strtok_word rest isFourth fourthPlain blank
  simp only [readPermLine, first, second, goOn, isThird, goOnWord, last]

/-- A line that `snprintf` does not cut and that is read whole. -/
structure PrintableLine (line : Text) : Prop where
  ends : ∃ body, line = body ++ ['\n'] ∧ (∀ c ∈ body, c ≠ '\n' ∧ c ≠ '\x00')
  short : line.length ≤ bufferLen - 2

theorem PrintableLine.bufferText_eq {line : Text} (whole : PrintableLine line) :
    bufferText line = line := by
  obtain ⟨_, rfl, clean⟩ := whole.ends
  rw [bufferText, takeWhile_eq_self_iff]
  intro c member
  rw [mem_append, mem_singleton] at member
  rcases member with inside | rfl
  · exact decide_eq_true (clean c inside).2
  · decide

theorem PrintableLine.printed_eq {line : Text} (whole : PrintableLine line) :
    printed line = line := by
  have short : line.length ≤ bufferLen - 1 := by
    have bound := whole.short
    omega
  rw [printed, take_of_length_le short, whole.bufferText_eq]

theorem cacheGets_eq_fgets : ∀ room text, cacheGets room text = DirectiveText.fgets room text
  | 0, _ => rfl
  | _ + 1, [] => rfl
  | room + 1, c :: text => by
    rw [cacheGets, DirectiveText.fgets, cacheGets_eq_fgets room text]

theorem permLines_flatten {lines : List Text} (whole : ∀ line ∈ lines, PrintableLine line) :
    ∀ fuel, lines.length ≤ fuel → permLines fuel lines.flatten = lines := by
  induction lines with
  | nil =>
    intro fuel _
    cases fuel with
    | zero => rfl
    | succ fuel => exact if_pos rfl
  | cons line lines ih =>
    intro fuel enough
    rw [length_cons] at enough
    obtain ⟨less, rfl⟩ : ∃ less, fuel = less + 1 := ⟨fuel - 1, by omega⟩
    have wholeHere := whole line mem_cons_self
    have short := wholeHere.short
    have same := wholeHere.bufferText_eq
    obtain ⟨body, rfl, clean⟩ := wholeHere.ends
    rw [length_append, length_singleton] at short
    have read := DirectiveText.fgets_line body lines.flatten (fun member => (clean _ member).1 rfl)
      (bufferLen - 2) (by omega)
    have later := ih (forall_mem_cons.mp whole).2 less (by omega)
    rw [flatten_cons, append_assoc, singleton_append, permLines,
      if_neg (by simp), cacheGets_eq_fgets, read]
    simp only [same, later]

theorem length_le_length_flatten {lines : List Text} (whole : ∀ line ∈ lines, PrintableLine line) :
    lines.length ≤ lines.flatten.length := by
  induction lines with
  | nil => exact Nat.le_refl _
  | cons line lines ih =>
    have rest := ih (forall_mem_cons.mp whole).2
    obtain ⟨_, same, _⟩ := (whole line mem_cons_self).ends
    rw [length_cons, flatten_cons, length_append, same, length_append, length_singleton]
    omega

structure AclLine.Storable (line : AclLine) : Prop where
  user : Word line.user
  rights : ∀ c ∈ [line.read, line.write, line.enter], c ∉ blanks ∧ c ≠ '\x00'

/-- The lines are printed as they are meant. There is an owner and a group, or neither. -/
structure PermEntry.Printable (file : PermEntry) : Prop where
  name : Wzdftpd.Printable file.filename
  fits : file.filename.length < 256
  bits : file.permissions < 2 ^ 64
  owned : (Word file.owner ∧ Word file.group) ∨
    (file.kind ≠ .lnk ∧ file.owner = [] ∧ file.group = [])
  lines : ∀ line ∈ file.acl, line.Storable
  users : (file.acl.map user).Nodup
  link : file.kind = .lnk →
    ' ' ∉ file.filename ∧ Wzdftpd.Printable file.data ∧ file.data.length ≤ maxPath

structure PermEntry.Storable (file : PermEntry) : Prop extends file.Printable where
  nameStarts : StartsReadable file.filename
  dataStarts : file.kind = .lnk → StartsReadable file.data

variable {file : PermEntry}

theorem PermEntry.Storable.label (storable : file.Storable) : Label file.filename :=
  ⟨storable.name, storable.nameStarts⟩

/-- What is read back: a link loses its lines, and without an owner the permissions are those
of a new entry. -/
def PermEntry.restored (umask : Nat) (file : PermEntry) : Option PermEntry :=
  if file.kind = .lnk then some { file with acl := [] }
  else if file.owner = [] ∧ file.group = [] then
    if file.acl = [] then none
    else some { file with
      permissions := umask, acl := file.acl.reverse, kind := .notSet, data := [] }
  else some { file with acl := file.acl.reverse, kind := .notSet, data := [] }

theorem Printable.clean (printable : Printable text) : ∀ c ∈ text, c ≠ '\n' ∧ c ≠ '\x00' :=
  fun c member => ⟨(printable.plain c member).2.2.1, (printable.plain c member).2.2.2.1⟩

theorem Printable.clean_quoted (printable : Printable text) :
    ∀ c ∈ quoted text, c ≠ '\n' ∧ c ≠ '\x00' := by
  unfold quoted
  split
  · simp only [forall_mem_append, forall_mem_singleton, and_assoc]
    exact ⟨by decide, by decide, printable.clean, by decide, by decide⟩
  · exact printable.clean

theorem length_quoted_le (text : Text) : (quoted text).length ≤ text.length + 2 := by
  unfold quoted
  split
  · simp only [length_append, length_singleton]
    omega
  · omega

theorem clean_octal (n : Nat) : ∀ c ∈ octal n, c ≠ '\n' ∧ c ≠ '\x00' := by
  intro c member
  have digit := isDigit_of_mem_octal member
  constructor
  · rintro rfl
    cases digit
  · rintro rfl
    cases digit

theorem octal_plain (n : Nat) : ∀ c ∈ octal n, c ∉ blanks := by
  intro c member blank
  have digit := isDigit_of_mem_octal member
  have space := isSpace_of_mem_blanks blank
  rw [isSpace_of_isDigit digit] at space
  cases space

theorem PrintableLine.of_body {body : Text} (clean : ∀ c ∈ body, c ≠ '\n' ∧ c ≠ '\x00')
    (short : body.length < bufferLen - 2) : PrintableLine (body ++ ['\n']) where
  ends := ⟨body, rfl, clean⟩
  short := by
    rw [length_append, length_singleton]
    omega

namespace PermEntry.Printable

variable {file : PermEntry}

theorem whole_ownerLine (printable : file.Printable) (owner : Word file.owner)
    (group : Word file.group) : PrintableLine (ownerLine file) := by
  apply PrintableLine.of_body
  · simp only [forall_mem_append, forall_mem_singleton, and_assoc]
    exact ⟨word_owner.label.clean, by decide, by decide, printable.name.clean_quoted, by decide,
      by decide, owner.label.clean, by decide, by decide, group.label.clean, by decide,
      by decide, clean_octal _⟩
  · have name := length_quoted_le file.filename
    have nameFits := printable.fits
    have ownerFits := owner.fits
    have groupFits := group.fits
    have bits := octal_length_le printable.bits
    have word : "owner".toList.length = 5 := rfl
    simp only [length_append, length_singleton, word, bufferLen]
    omega

theorem whole_permLine (printable : file.Printable) {line : AclLine} (member : line ∈ file.acl) :
    PrintableLine (permLine file line) := by
  have user := (printable.lines line member).user
  have rights := (printable.lines line member).rights
  apply PrintableLine.of_body
  · simp only [forall_mem_append, forall_mem_singleton, and_assoc]
    refine ⟨word_perm.label.clean, by decide, by decide, printable.name.clean_quoted, by decide,
      by decide, user.label.clean, by decide, by decide, fun c right => ⟨?_, (rights c right).2⟩⟩
    rintro rfl
    exact (rights _ right).1 (by decide)
  · have name := length_quoted_le file.filename
    have nameFits := printable.fits
    have userFits := user.fits
    have word : "perm".toList.length = 4 := rfl
    simp only [length_append, length_cons, length_nil, word, bufferLen]
    omega

theorem whole_linkLine (printable : file.Printable) (isLink : file.kind = .lnk)
    (owner : Word file.owner) (group : Word file.group) : PrintableLine (linkLine file) := by
  have label := (printable.link isLink).2.1
  apply PrintableLine.of_body
  · simp only [forall_mem_append, forall_mem_singleton, and_assoc]
    exact ⟨word_link.label.clean, by decide, by decide, printable.name.clean, by decide, by decide,
      label.clean_quoted, by decide, by decide, owner.label.clean, by decide, by decide,
      group.label.clean, by decide, by decide, clean_octal _⟩
  · have data := length_quoted_le file.data
    have nameFits := printable.fits
    have ownerFits := owner.fits
    have groupFits := group.fits
    have bits := octal_length_le printable.bits
    have word : "link".toList.length = 4 := rfl
    have dataFits : file.data.length ≤ 1024 := (printable.link isLink).2.2
    simp only [length_append, length_singleton, word, bufferLen]
    omega

theorem whole_entryLines (printable : file.Printable) :
    ∀ line ∈ entryLines file, PrintableLine line := by
  intro line member
  unfold entryLines at member
  split at member
  · rename_i isLink
    rw [mem_singleton.mp member]
    rcases printable.owned with ⟨owner, group⟩ | ⟨noLink, _⟩
    · exact printable.whole_linkLine isLink owner group
    · exact absurd isLink noLink
  · rcases mem_append.mp member with first | perm
    · split at first
      · rename_i someOwner
        rw [mem_singleton.mp first]
        rcases printable.owned with ⟨owner, group⟩ | ⟨_, noOwner, noGroup⟩
        · exact printable.whole_ownerLine owner group
        · rw [noOwner, noGroup] at someOwner
          simp at someOwner
      · cases first
    · obtain ⟨_, inside, rfl⟩ := mem_map.mp perm
      exact printable.whole_permLine inside

end PermEntry.Printable

variable {files : List PermEntry}

theorem findOrAddFile_absent (umask : Nat) (fits : name.length < 256)
    (absent : name ∉ files.map filename) :
    findOrAddFile umask name files =
      some (files ++ [{ filename := name, permissions := umask }]) := by
  have missing : findFile name files = none := (NamedList.lookup_eq_none_iff files name).mpr absent
  simp [findOrAddFile, missing, addNewFile, field_eq fits]

theorem findOrAddFile_present (umask : Nat) (present : name ∈ files.map filename) :
    findOrAddFile umask name files = some files := by
  unfold findOrAddFile
  cases found : findFile name files with
  | some file => rfl
  | none => exact absurd present ((NamedList.lookup_eq_none_iff files name).mp found)

theorem changeFile_last (change : PermEntry → PermEntry)
    (named : file.filename = name) (absent : name ∉ files.map filename) :
    changeFile name change (files ++ [file]) = files ++ [change file] := by
  rw [changeFile, NamedList.modify_append change _ absent, NamedList.modify, if_pos named]

theorem readPermissions_octal (umask current : Nat) {bits : Nat} (small : bits < 2 ^ 64) :
    readPermissions umask current (strtok blanks (octal bits ++ ['\n'])).1 = bits := by
  have token := strtok_word [] (octal_ne_nil bits) (octal_plain bits) (by decide : '\n' ∈ blanks)
  rw [token]
  simp [readPermissions, readOctal_octal small]

theorem addAcl_new {line : AclLine} {acl : List AclLine} (absent : line.user ∉ acl.map user) :
    addAcl line.user [line.read, line.write, line.enter] acl = line :: acl := by
  have missing := (NamedList.lookup_eq_none_iff acl line.user).mpr absent
  simp only [addAcl, missing]
  rfl

theorem ownerLine_eq (owner : Word file.owner) :
    ownerLine file = "owner".toList ++ '\t' :: (quoted file.filename ++
      '\t' :: (quoted file.owner ++ '\t' :: (file.group ++
        '\t' :: (octal file.permissions ++ ['\n'])))) := by
  unfold ownerLine
  generalize "owner".toList = word
  simp [owner.quoted_eq]

theorem permLine_eq {line : AclLine} (user : Word line.user) :
    permLine file line = "perm".toList ++ '\t' :: (quoted file.filename ++
      '\t' :: (quoted line.user ++
        '\t' :: ([line.read, line.write, line.enter] ++ '\n' :: []))) := by
  unfold permLine
  generalize "perm".toList = word
  simp [user.quoted_eq]

namespace PermEntry.Storable

variable {file : PermEntry} {files : List PermEntry}

theorem read_ownerLine (storable : file.Storable) (owner : Word file.owner)
    (group : Word file.group) (umask : Nat)
    (absent : file.filename ∉ files.map filename) :
    readPermLine umask files (ownerLine file) =
      some (files ++ [{ file with acl := [], kind := .notSet, data := [] }]) := by
  rw [ownerLine_eq owner, readPermLine_eq umask files _ word_owner storable.label owner.label
    group.nonempty group.notBlank (by decide), findOrAddFile_absent umask storable.fits absent,
    bind_some, decodeLine, if_pos rfl, field_eq owner.fits, field_eq group.fits]
  simp only [readPermissions_octal umask _ storable.bits]
  exact congrArg some (changeFile_last _ rfl absent)

theorem read_linkLine (storable : file.Storable) (isLink : file.kind = .lnk)
    (owner : Word file.owner) (group : Word file.group) (umask : Nat)
    (absent : file.filename ∉ files.map filename) :
    readPermLine umask files (linkLine file) = some (files ++ [{ file with acl := [] }]) := by
  obtain ⟨noSpace, label, _⟩ := storable.link isLink
  have line : linkLine file = "link".toList ++ '\t' :: (quoted file.filename ++
      '\t' :: (quoted file.data ++ '\t' :: (file.owner ++
        '\t' :: (file.group ++ '\t' :: (octal file.permissions ++ ['\n']))))) := by
    have bare : quoted file.filename = file.filename := if_neg noSpace
    unfold linkLine
    generalize "link".toList = word
    simp [bare]
  have fifth := strtok_word (octal file.permissions ++ ['\n']) group.nonempty
    group.notBlank (by decide : '\t' ∈ blanks)
  have data : Label file.data := ⟨label, storable.dataStarts isLink⟩
  rw [line, readPermLine_eq umask files _ word_link storable.label data owner.nonempty
    owner.notBlank (by decide), findOrAddFile_absent umask storable.fits absent, bind_some,
    decodeLine, if_neg (by decide), if_neg (by decide), if_pos rfl]
  simp only [fifth, field_eq owner.fits, field_eq group.fits, bind_some, map_some,
    readPermissions_octal umask _ storable.bits]
  rw [← isLink]
  exact congrArg some (changeFile_last _ rfl absent)

/-- A line of an access control list goes to the entry of its file, which it makes
where there is none yet. -/
theorem read_permLine (storable : file.Storable) {line : AclLine} (member : line ∈ file.acl)
    (umask : Nat) : readPermLine umask files (permLine file line) =
      (findOrAddFile umask file.filename files).map
        (changeFile file.filename fun known => { known with
          acl := addAcl line.user [line.read, line.write, line.enter] known.acl }) := by
  have user := (storable.lines line member).user
  have rights := (storable.lines line member).rights
  rw [permLine_eq user, readPermLine_eq umask files [] word_perm storable.label user.label
    (cons_ne_nil _ _) (fun c inside => (rights c inside).1) (by decide)]
  cases findOrAddFile umask file.filename files with
  | none => rfl
  | some known =>
    simp [decodeLine, field_eq user.fits]

/-- The lines that follow build up the list from its head. -/
theorem read_permLines (storable : file.Storable) (umask : Nat)
    (absent : file.filename ∉ files.map filename) (lines : List AclLine) :
    ∀ known : PermEntry, known.filename = file.filename → (∀ line ∈ lines, line ∈ file.acl) →
      ((lines.reverse ++ known.acl).map user).Nodup →
      (lines.map (permLine file)).foldlM (readPermLine umask) (files ++ [known]) =
        some (files ++ [{ known with acl := lines.reverse ++ known.acl }]) := by
  induction lines with
  | nil => exact fun _ _ _ _ => rfl
  | cons line lines ih =>
    intro known named inside distinct
    have present : file.filename ∈ (files ++ [known]).map filename := by
      rw [map_append, mem_append, ← named]
      exact .inr (mem_singleton.mpr rfl)
    rw [reverse_cons, append_assoc, singleton_append] at distinct
    have absentUser : line.user ∉ known.acl.map user := by
      have tail := (nodup_append.mp (map_append ▸ distinct)).2.1
      rw [map_cons, nodup_cons] at tail
      exact tail.1
    have first : readPermLine umask (files ++ [known]) (permLine file line) =
        some (files ++ [{ known with acl := line :: known.acl }]) := by
      rw [storable.read_permLine (inside line mem_cons_self),
        findOrAddFile_present umask present, map_some,
        changeFile_last _ named absent, addAcl_new absentUser]
    have later := ih { known with acl := line :: known.acl } named
      (forall_mem_cons.mp inside).2 distinct
    rw [map_cons, foldlM_cons, first]
    simp only [reverse_cons, append_assoc]
    exact later

theorem read_entryLines (storable : file.Storable) (umask : Nat)
    (absent : file.filename ∉ files.map filename) :
    (entryLines file).foldlM (readPermLine umask) files =
      some (files ++ (file.restored umask).toList) := by
  have every : ∀ line ∈ file.acl, line ∈ file.acl := fun _ member => member
  have users := storable.users
  unfold entryLines restored
  by_cases isLink : file.kind = .lnk
  · rw [if_pos isLink, if_pos isLink]
    rcases storable.owned with ⟨owner, group⟩ | ⟨noLink, _⟩
    · simp [storable.read_linkLine isLink owner group umask absent]
    · exact absurd isLink noLink
  · rw [if_neg isLink, if_neg isLink]
    rcases storable.owned with ⟨owner, group⟩ | ⟨_, noOwner, noGroup⟩
    · have distinct : ((file.acl.reverse ++ []).map user).Nodup := by
        rw [append_nil, map_reverse, nodup_reverse]
        exact users
      have more := storable.read_permLines umask absent file.acl
        { file with acl := [], kind := .notSet, data := [] } rfl every distinct
      rw [if_pos (.inl owner.nonempty), if_neg (fun both => owner.nonempty both.1),
        singleton_append, foldlM_cons,
        storable.read_ownerLine owner group umask absent]
      rw [append_nil] at more
      exact more
    · rw [if_neg (by simp [noOwner, noGroup]), if_pos ⟨noOwner, noGroup⟩, nil_append]
      cases acl : file.acl with
      | nil =>
        simp
      | cons line lines =>
        rw [acl] at every users
        -- the first line makes the entry, with the permissions of a new one
        have first : readPermLine umask files (permLine file line) = some (files ++
            [{ filename := file.filename, permissions := umask, acl := [line] }]) := by
          have new : ({ filename := file.filename, permissions := umask } : PermEntry).filename =
              file.filename := rfl
          have single : addAcl line.user [line.read, line.write, line.enter] [] = [line] :=
            addAcl_new not_mem_nil
          rw [storable.read_permLine (acl ▸ mem_cons_self),
            findOrAddFile_absent umask storable.fits absent, map_some,
            changeFile_last _ new absent]
          simp only [single]
        have distinct : ((lines.reverse ++ [line]).map user).Nodup := by
          rw [← reverse_cons, map_reverse, nodup_reverse]
          exact users
        have more := storable.read_permLines umask absent lines
          { filename := file.filename, permissions := umask, acl := [line] } rfl
          (fun other member => acl ▸ mem_cons_of_mem line member) distinct
        rw [map_cons, foldlM_cons, first, noOwner, noGroup, reverse_cons]
        exact more

end PermEntry.Storable

theorem PermEntry.restored_filename {umask : Nat} {after : PermEntry}
    (same : file.restored umask = some after) : after.filename = file.filename := by
  unfold restored at same
  split at same
  · cases same
    rfl
  split at same
  · split at same
    · cases same
    · cases same
      rfl
  · cases same
    rfl

theorem read_entries (umask : Nat) (files : List PermEntry) : ∀ done : List PermEntry,
    (∀ file ∈ files, file.Storable) → ((done ++ files).map filename).Nodup →
    (files.flatMap entryLines).foldlM (readPermLine umask) done =
      some (done ++ files.filterMap (restored umask)) := by
  induction files with
  | nil =>
    intro done _ _
    simp
  | cons file files ih =>
    intro done storable distinct
    have here := storable file mem_cons_self
    have absent : file.filename ∉ done.map filename := by
      intro member
      rw [map_append, nodup_append] at distinct
      exact distinct.2.2 _ member _ (mem_map_of_mem mem_cons_self) rfl
    have keys : ((done ++ (file.restored umask).toList ++ files).map filename).Nodup := by
      refine distinct.sublist ?_
      rw [append_assoc, map_append, map_append, map_append]
      apply Sublist.append_left
      cases kept : file.restored umask with
      | none => exact Sublist.cons _ (Sublist.refl _)
      | some after =>
        rw [toList_some, map_singleton, restored_filename kept]
        exact Sublist.refl _
    have later := ih (done ++ (file.restored umask).toList)
      (forall_mem_cons.mp storable).2 keys
    rw [flatMap_cons, foldlM_append, here.read_entryLines umask absent]
    rw [filterMap_cons]
    refine later.trans ?_
    cases file.restored umask with
    | none => rw [toList_none, append_nil]
    | some after => rw [toList_some, append_assoc, singleton_append]

theorem readPermText_lines (umask : Nat) (printable : ∀ file ∈ files, file.Printable) :
    readPermText umask (writePermText files) =
      (files.flatMap entryLines).foldlM (readPermLine umask) [] := by
  have whole : ∀ line ∈ files.flatMap entryLines, PrintableLine line := by
    intro line member
    obtain ⟨file, inside, isLine⟩ := mem_flatMap.mp member
    exact (printable file inside).whole_entryLines line isLine
  have text : writePermText files = (files.flatMap entryLines).flatten := by
    rw [writePermText, ← map_flatMap]
    congr 1
    conv_rhs => rw [← map_id (files.flatMap entryLines)]
    exact map_congr_left fun line member => (whole line member).printed_eq
  have lines := permLines_flatten whole _ (length_le_length_flatten whole)
  rw [readPermText, text, lines]

theorem readPermText_writePermText (umask : Nat) (storable : ∀ file ∈ files, file.Storable)
    (distinct : (files.map filename).Nodup) :
    readPermText umask (writePermText files) = some (files.filterMap (restored umask)) := by
  rw [readPermText_lines umask fun file member => (storable file member).toPrintable,
    read_entries umask files [] storable distinct, nil_append]

end Wzdftpd
