import Wzdftpd.PermEntries

/- What `_setPerm` leaves in the permission file. The permissions are lost with an
entry that has no owner. -/
namespace Wzdftpd

open List NamedList Option

structure PermArgs.Storable (args : PermArgs) : Prop where
  owner : ∀ owner, args.owner = some owner → Word owner
  group : ∀ group, args.group = some group → Word group
  acl : ∀ user rights, args.acl = some (user, rights) →
    Word user ∧ rights.length = 3 ∧ ∀ c ∈ rights, c ∉ blanks ∧ c ≠ '\x00'
  perms : ∀ perms, args.perms = some perms → perms < 2 ^ 64 - 1

variable {args : PermArgs}

theorem PermArgs.Storable.fit (storable : args.Storable) : args.fit = true := by
  apply decide_eq_true
  refine ⟨?_, ?_, ?_⟩
  · cases given : args.owner with
    | none => rfl
    | some owner => exact decide_eq_true (storable.owner owner given).fits
  · cases given : args.group with
    | none => rfl
    | some group => exact decide_eq_true (storable.group group given).fits
  · cases given : args.acl with
    | none => rfl
    | some acl => exact decide_eq_true (storable.acl acl.1 acl.2 given).1.fits

theorem lookup_addAcl (user : Text) (a b c : Char) (acl : List AclLine) :
    NamedList.lookup AclLine.user user (addAcl user [a, b, c] acl) = some ⟨user, a, b, c⟩ := by
  unfold addAcl
  cases found : NamedList.lookup AclLine.user user acl with
  | none => exact (NamedList.lookup_cons _ _ _).trans (if_pos rfl)
  | some line =>
    rw [lookup_modify (by exact fun _ => rfl), if_pos rfl, found, map_some, key_of_lookup found]
    rfl

theorem addAcl_ne_nil (user rights : Text) (acl : List AclLine) : addAcl user rights acl ≠ [] := by
  unfold addAcl
  cases acl with
  | nil => exact cons_ne_nil _ _
  | cons line acl =>
    split
    · exact cons_ne_nil _ _
    · simp only [NamedList.modify]
      split
      · exact cons_ne_nil _ _
      · exact cons_ne_nil _ _

theorem addAcl_storable {user : Text} {a b c : Char} {acl : List AclLine} (isWord : Word user)
    (rights : ∀ x ∈ [a, b, c], x ∉ blanks ∧ x ≠ '\x00')
    (lines : ∀ line ∈ acl, line.Storable) (users : (acl.map AclLine.user).Nodup) :
    (∀ line ∈ addAcl user [a, b, c] acl, line.Storable) ∧
      ((addAcl user [a, b, c] acl).map AclLine.user).Nodup := by
  unfold addAcl
  cases found : NamedList.lookup AclLine.user user acl with
  | none =>
    have absent := (NamedList.lookup_eq_none_iff acl user).mp found
    refine ⟨fun line member => ?_, nodup_cons.mpr ⟨absent, users⟩⟩
    rcases mem_cons.mp member with rfl | old
    · exact ⟨isWord, rights⟩
    · exact lines line old
  | some known =>
    constructor
    · intro line member
      rcases mem_modify member with old | ⟨source, inside, _, rfl⟩
      · exact lines line old
      · exact ⟨(lines source inside).user, rights⟩
    · rw [map_key_modify (by exact fun _ => rfl)]
      exact users

section

variable (args : PermArgs) (file : PermEntry)

theorem applyPerm_filename : (applyPerm args file).filename = file.filename := by
  unfold applyPerm setOwner
  cases args.acl with
  | none =>
    split <;> rfl
  | some acl =>
    split <;> rfl

theorem applyPerm_kind : (applyPerm args file).kind = file.kind ∧
    (applyPerm args file).data = file.data := by
  unfold applyPerm setOwner
  cases args.acl with
  | none =>
    split <;> exact ⟨rfl, rfl⟩
  | some acl =>
    split <;> exact ⟨rfl, rfl⟩

theorem applyPerm_owner :
    (applyPerm args file).owner = (setOwner args.owner args.group file).owner ∧
      (applyPerm args file).group = (setOwner args.owner args.group file).group := by
  unfold applyPerm
  cases args.acl with
  | none => exact ⟨rfl, rfl⟩
  | some acl => exact ⟨rfl, rfl⟩

theorem applyPerm_permissions :
    (applyPerm args file).permissions = args.perms.getD file.permissions := by
  unfold applyPerm setOwner
  cases args.acl with
  | none =>
    split <;> rfl
  | some acl =>
    split <;> rfl

theorem setOwner_acl (owner group : Option Text) : (setOwner owner group file).acl = file.acl := by
  unfold setOwner
  split <;> rfl

theorem applyPerm_acl_none (none : args.acl = none) : (applyPerm args file).acl = file.acl := by
  unfold applyPerm
  rw [none]
  exact setOwner_acl file _ _

theorem applyPerm_acl_some {user rights : Text} (given : args.acl = some (user, rights)) :
    (applyPerm args file).acl = addAcl user rights file.acl := by
  unfold applyPerm
  rw [given]
  simp only [setOwner_acl]

end

theorem setOwner_owner_ne_nil {owner group : Option Text} (file : PermEntry)
    (given : owner.isSome ∨ group.isSome) : (setOwner owner group file).owner ≠ [] := by
  rw [setOwner, if_pos given]
  simp only
  split
  · decide
  · rename_i some
    exact some

theorem applyPerm_owner_ne_nil_iff (args : PermArgs) (file : PermEntry) :
    (applyPerm args file).owner ≠ [] ↔ args.owner.isSome ∨ args.group.isSome ∨ file.owner ≠ [] := by
  rw [(applyPerm_owner args file).1]
  by_cases given : args.owner.isSome ∨ args.group.isSome
  · constructor
    · exact fun _ => given.elim .inl fun group => .inr (.inl group)
    · exact fun _ => setOwner_owner_ne_nil file given
  rw [setOwner, if_neg given]
  constructor
  · exact fun some => .inr (.inr some)
  · rintro (owner | group | some)
    · exact absurd (.inl owner) given
    · exact absurd (.inr group) given
    · exact some

theorem applyPerm_acl_ne_nil_iff (args : PermArgs) (file : PermEntry) :
    (applyPerm args file).acl ≠ [] ↔ args.acl.isSome ∨ file.acl ≠ [] := by
  cases given : args.acl with
  | none =>
    rw [applyPerm_acl_none args file given]
    simp
  | some acl =>
    rw [applyPerm_acl_some args file given]
    simp [addAcl_ne_nil]

theorem applyPerm_given (storable : args.Storable) (file : PermEntry) :
    (∀ owner, args.owner = some owner → (applyPerm args file).owner = owner) ∧
      ∀ group, args.group = some group → (applyPerm args file).group = group := by
  rw [(applyPerm_owner args file).1, (applyPerm_owner args file).2]
  constructor
  · intro owner given
    have some := (storable.owner owner given).nonempty
    rw [given]
    exact if_neg some
  · intro group given
    have some := (storable.group group given).nonempty
    rw [given, setOwner, if_pos (.inr rfl)]
    exact if_neg some

theorem word_nobody : Word "nobody".toList := by decide

theorem word_nogroup : Word "nogroup".toList := by decide

variable {file : PermEntry}

theorem setOwner_words (storable : args.Storable) (known : file.Storable)
    (given : args.owner.isSome ∨ args.group.isSome) :
    Word (setOwner args.owner args.group file).owner ∧
      Word (setOwner args.owner args.group file).group := by
  have words : (file.owner = [] ∨ Word file.owner) ∧ (file.group = [] ∨ Word file.group) := by
    rcases known.owned with ⟨owner, group⟩ | ⟨_, noOwner, noGroup⟩
    · exact ⟨.inr owner, .inr group⟩
    · exact ⟨.inl noOwner, .inl noGroup⟩
  rw [setOwner, if_pos given]
  constructor
  · simp only
    split
    · exact word_nobody
    rename_i some
    cases owner : args.owner with
    | some name => exact storable.owner name owner
    | none =>
      rw [owner] at some
      exact words.1.resolve_left some
  · simp only
    split
    · exact word_nogroup
    rename_i some
    cases group : args.group with
    | some name => exact storable.group name group
    | none =>
      rw [group] at some
      exact words.2.resolve_left some

theorem applyPerm_acl_storable (storable : args.Storable) (known : file.Storable) :
    (∀ line ∈ (applyPerm args file).acl, line.Storable) ∧
      ((applyPerm args file).acl.map AclLine.user).Nodup := by
  cases given : args.acl with
  | none =>
    rw [applyPerm_acl_none args file given]
    exact ⟨known.lines, known.users⟩
  | some acl =>
    obtain ⟨isWord, three, plain⟩ := storable.acl acl.1 acl.2 given
    obtain ⟨_, _, _, rights⟩ := length_eq_three.mp three
    rw [applyPerm_acl_some args file given]
    exact addAcl_storable isWord (rights ▸ plain) known.lines known.users

theorem applyPerm_storable (storable : args.Storable) (known : file.Storable) :
    (applyPerm args file).Storable := by
  obtain ⟨lines, users⟩ := applyPerm_acl_storable storable known
  obtain ⟨sameKind, sameData⟩ := applyPerm_kind args file
  refine
    { name := ?_, fits := ?_, bits := ?_, owned := ?_, lines := lines, users := users, link := ?_
      nameStarts := ?_, dataStarts := ?_ }
  · rw [applyPerm_filename]
    exact known.name
  · rw [applyPerm_filename]
    exact known.fits
  · rw [applyPerm_permissions]
    cases given : args.perms with
    | none => exact known.bits
    | some perms =>
      have small := storable.perms perms given
      rw [getD_some]
      omega
  · rw [(applyPerm_owner args file).1, (applyPerm_owner args file).2, sameKind]
    by_cases given : args.owner.isSome ∨ args.group.isSome
    · exact .inl (setOwner_words storable known given)
    · rw [setOwner, if_neg given]
      exact known.owned
  · rw [applyPerm_filename, sameKind, sameData]
    exact known.link
  · rw [applyPerm_filename]
    exact known.nameStarts
  · rw [sameKind, sameData]
    exact known.dataStarts

/-- The entry that `add_new_file` makes. -/
def newEntry (umask : Nat) (name : Text) : PermEntry := { filename := name, permissions := umask }

variable {umask : Nat}

theorem newEntry_storable (small : umask < 2 ^ 32) {name : Text} (label : Label name)
    (fits : name.length < 256) : (newEntry umask name).Storable where
  name := label.toPrintable
  fits := fits
  bits := by
    change umask < 2 ^ 64
    omega
  owned := .inr ⟨nofun, rfl, rfl⟩
  lines := nofun
  users := nodup_nil
  link := nofun
  nameStarts := label.starts
  dataStarts := nofun

theorem findOrAddFile_spec (small : umask < 2 ^ 32) {name : Text} (label : Label name)
    (fits : name.length < 256) {files : List PermEntry} (storable : StorableFiles files) :
    ∃ after, findOrAddFile umask name files = some after ∧ StorableFiles after ∧
      ∀ other, findFile other after =
        if other = name then some ((findFile name files).getD (newEntry umask name))
        else findFile other files := by
  cases found : findFile name files with
  | none =>
    have absent := (NamedList.lookup_eq_none_iff files name).mp found
    have new := newEntry_storable small label fits
    refine ⟨_, findOrAddFile_absent umask fits absent, storable.append new found, fun other => ?_⟩
    exact findFile_append files (newEntry umask name) other found
  | some file =>
    refine ⟨files, by rw [findOrAddFile, found], storable, fun other => ?_⟩
    split
    · rename_i same
      simp [same, found]
    · rfl

/-- The entry that `_setPerm` changes. -/
def Disk.baseEntry (umask : Nat) (disk : Disk) (file : Nat × Text) : PermEntry :=
  (disk.entry umask file).getD (newEntry umask file.2)

variable {disk : Disk}

theorem baseEntry_storable (small : umask < 2 ^ 32) (written : disk.Written)
    {file : Nat × Text} (label : Label file.2) (fits : file.2.length < 256) :
    (disk.baseEntry umask file).Storable := by
  unfold Disk.baseEntry
  cases found : disk.entry umask file with
  | none => exact newEntry_storable small label fits
  | some known =>
    exact (written.storableFiles small file.1).storable known (mem_of_lookup found)

variable {env : PermEnv} {after : Disk}

theorem setPermIn_entry {path : Text} {file : Nat × Text}
    (written : disk.Written) (place : disk.place path = (file.1, permFile))
    (granted : disk.refuses (file.1, permFile) = false) (storable : args.Storable)
    (label : Label file.2) (fits : file.2.length < 256)
    (done : setPermIn env path file.2 args disk = some (0, after)) :
    after.entry env.umask file =
        (applyPerm args (disk.baseEntry env.umask file)).restored env.umask ∧
      ∀ other, other ≠ file →
        SameEntry (disk.entry env.umask other) (after.entry env.umask other) := by
  have small := env.small
  obtain ⟨_, read, _⟩ := written.read env.umask place
  have files := written.storableFiles small file.1
  obtain ⟨known, added, knownStorable, found⟩ := findOrAddFile_spec small label fits files
  have named := applyPerm_filename args
  have changed : StorableFiles (changeFile file.2 (applyPerm args) known) := by
    apply knownStorable.change named
    exact fun entry member _ => applyPerm_storable storable (knownStorable.storable entry member)
  rw [setPermIn, read, bind_some, added, bind_some, if_pos storable.fit,
    some.injEq, Prod.mk.injEq] at done
  rw [← done.2]
  have here (name : Text) : findFile name (changeFile file.2 (applyPerm args) known) =
      if name = file.2 then some (applyPerm args (disk.baseEntry env.umask file))
      else findFile name (disk.entries env.umask file.1) := by
    rw [findFile_changeFile named, found, found, if_pos rfl]
    split <;> rfl
  obtain ⟨made, rest⟩ := written.replace small place granted changed here
  exact ⟨made, fun other different => (rest other different).sameEntry⟩

/-- `_setPerm` has returned 0, so it has come to the permission file of the directory. -/
theorem setPerm_setPermIn {fs : FileSystem} {filename : Text}
    (regular : ∃ s, fs.stat filename = some s ∧ s.kind ≠ .dir) (inBounds : env.InBounds filename)
    (done : setPerm env fs filename args disk = some (0, after)) :
    ∃ path, disk.place path = ((disk.place filename).1, permFile) ∧
      setPermIn env path (disk.place filename).2 args disk = some (0, after) := by
  obtain ⟨s, stat, notDir⟩ := regular
  unfold setPerm at done
  split at done
  · cases done
  split at done
  · cases done
  simp only [stat, if_neg notDir] at done
  cases split_ : splitSlash filename with
  | none =>
    rw [split_] at done
    cases done
  | some parts =>
    obtain ⟨sameDir, sameName⟩ := place_permPath disk split_ inBounds
    simp only [split_] at done
    split at done
    · cases done
    · refine ⟨_, sameDir, ?_⟩
      rw [sameName]
      exact done

structure PermArgs.In (args : PermArgs) (entry : PermEntry) : Prop where
  owner : ∀ owner, args.owner = some owner → entry.owner = owner
  group : ∀ group, args.group = some group → entry.group = group
  acl : ∀ user rights, args.acl = some (user, rights) →
    ∃ line, NamedList.lookup AclLine.user user entry.acl = some line ∧
      [line.read, line.write, line.enter] = rights
  perms : ∀ perms, args.perms = some perms → entry.permissions = perms

/-- The arguments are in the entry of the file, and no other entry has changed. -/
structure TakesEffect (umask : Nat) (args : PermArgs) (file : Nat × Text) (disk after : Disk) :
    Prop where
  entry : ∃ entry, after.entry umask file = some entry ∧ args.In entry
  others : ∀ other, other ≠ file → SameEntry (disk.entry umask other) (after.entry umask other)

/-- The entry is written with all that is given: it has an owner, or there is something
to write and the permissions are those of a new entry. A link keeps no access control
line. -/
def Lasts (umask : Nat) (args : PermArgs) (known : Option PermEntry) : Prop :=
  (args.owner.isSome ∨ args.group.isSome ∨ (∃ file, known = some file ∧ file.owner ≠ []) ∨
    ((args.acl.isSome ∨ known.isSome) ∧ ∀ perms, args.perms = some perms → perms = umask)) ∧
  ∀ file, known = some file → file.kind = .lnk → args.acl = none

theorem applyPerm_perms (file : PermEntry) {perms : Nat} (given : args.perms = some perms) :
    (applyPerm args file).permissions = perms := by
  simp [applyPerm_permissions, given]

/-- The access control line that is given is found after reading back, too. -/
theorem applyPerm_line (storable : args.Storable) (known : file.Storable) {user rights : Text}
    (given : args.acl = some (user, rights)) :
    ∃ line, NamedList.lookup AclLine.user user (applyPerm args file).acl.reverse = some line ∧
      [line.read, line.write, line.enter] = rights := by
  obtain ⟨_, three, _⟩ := storable.acl user rights given
  obtain ⟨_, _, _, rfl⟩ := length_eq_three.mp three
  have users := (applyPerm_acl_storable storable known).2
  rw [← lookup_perm (reverse_perm _).symm users, applyPerm_acl_some args file given, lookup_addAcl]
  exact ⟨_, rfl, rfl⟩

/-- With an owner all that is given is read back. -/
theorem in_restored_of_owner (storable : args.Storable) (known : file.Storable)
    (owner : (applyPerm args file).owner ≠ []) (link : file.kind = .lnk → args.acl = none) :
    ∃ entry, (applyPerm args file).restored umask = some entry ∧ args.In entry := by
  obtain ⟨givenOwner, givenGroup⟩ := applyPerm_given storable file
  unfold PermEntry.restored
  rw [(applyPerm_kind args file).1]
  by_cases isLink : file.kind = .lnk
  · rw [if_pos isLink]
    refine ⟨_, rfl, givenOwner, givenGroup, fun user rights given => ?_, fun perms given => ?_⟩
    · rw [link isLink] at given
      cases given
    · exact applyPerm_perms file given
  · rw [if_neg isLink, if_neg fun both => owner both.1]
    refine ⟨_, rfl, givenOwner, givenGroup, fun user rights given => ?_, fun perms given => ?_⟩
    · exact applyPerm_line storable known given
    · exact applyPerm_perms file given

theorem restored_of_no_owner (storable : file.Storable) (noOwner : file.owner = []) :
    file.restored umask =
      if file.acl = [] then none
      else some { file with
        permissions := umask, acl := file.acl.reverse, kind := .notSet, data := [] } := by
  have noLink : file.kind ≠ .lnk := by
    rcases storable.owned with ⟨owner, _⟩ | ⟨noLink, _⟩
    · exact absurd noOwner owner.nonempty
    · exact noLink
  rw [PermEntry.restored, if_neg noLink, if_pos ⟨noOwner, storable.group_of_owner noOwner⟩]

section

variable {umask : Nat} {args : PermArgs} {known : Option PermEntry} {name : Text}

theorem owner_getD_newEntry : (known.getD (newEntry umask name)).owner ≠ [] ↔
    ∃ file, known = some file ∧ file.owner ≠ [] := by
  cases known with
  | none => simp [newEntry]
  | some file => simp

theorem lasts_of_in_restored (storable : args.Storable)
    (base : (known.getD (newEntry umask name)).Storable) {entry : PermEntry}
    (read : (applyPerm args (known.getD (newEntry umask name))).restored umask = some entry)
    (holds : args.In entry) : Lasts umask args known := by
  have changed := applyPerm_storable storable base
  refine ⟨?_, fun file found isLink => ?_⟩
  · by_cases owner : (applyPerm args (known.getD (newEntry umask name))).owner = []
    · -- the permissions that are read back are those of a new entry
      rw [restored_of_no_owner changed owner] at read
      split at read
      · cases read
      rename_i some_
      cases read
      refine .inr (.inr (.inr ⟨?_, fun perms given => (holds.perms perms given).symm⟩))
      rcases (applyPerm_acl_ne_nil_iff args _).mp some_ with given | some_
      · exact .inl given
      · cases known with
        | none => exact absurd rfl some_
        | some file => exact .inr rfl
    · rcases (applyPerm_owner_ne_nil_iff args _).mp owner with given | given | some_
      · exact .inl given
      · exact .inr (.inl given)
      · exact .inr (.inr (.inl (owner_getD_newEntry.mp some_)))
  · subst found
    have sameKind := (applyPerm_kind args file).1
    rw [getD_some, PermEntry.restored, sameKind, if_pos isLink] at read
    cases read
    cases given : args.acl with
    | none => rfl
    | some acl =>
      obtain ⟨_, found, _⟩ := holds.acl acl.1 acl.2 given
      cases found

theorem in_restored_of_lasts (storable : args.Storable)
    (base : (known.getD (newEntry umask name)).Storable)
    (settled : ∀ file, known = some file → file.Settled umask) (lasts : Lasts umask args known) :
    ∃ entry, (applyPerm args (known.getD (newEntry umask name))).restored umask = some entry ∧
      args.In entry := by
  obtain ⟨kept, link⟩ := lasts
  by_cases owner : (applyPerm args (known.getD (newEntry umask name))).owner = []
  · have noOwner := mt (applyPerm_owner_ne_nil_iff args _).mpr (not_not.mpr owner)
    rw [not_or, not_or, owner_getD_newEntry] at noOwner
    obtain ⟨something, bits⟩ := ((kept.resolve_left noOwner.1).resolve_left
      noOwner.2.1).resolve_left noOwner.2.2
    have lines : (applyPerm args (known.getD (newEntry umask name))).acl ≠ [] := by
      apply (applyPerm_acl_ne_nil_iff args _).mpr
      rcases something with given | there
      · exact .inl given
      · obtain ⟨file, rfl⟩ := isSome_iff_exists.mp there
        refine .inr ((settled file rfl).unowned ?_).1
        by_contra some_
        exact noOwner.2.2 ⟨file, rfl, some_⟩
    rw [restored_of_no_owner (applyPerm_storable storable base) owner, if_neg lines]
    obtain ⟨givenOwner, givenGroup⟩ := applyPerm_given storable (known.getD (newEntry umask name))
    refine ⟨_, rfl, givenOwner, givenGroup, fun user rights given => ?_, fun perms given => ?_⟩
    · exact applyPerm_line storable base given
    · exact (bits perms given).symm
  · apply in_restored_of_owner storable base owner
    intro isLink
    cases known with
    | none => cases isLink
    | some file => exact link file rfl isLink

end

/-- Setting permissions takes effect exactly if they are written: the entry has an
owner, or the permissions are those that a new entry has anyway. -/
theorem setPerm_takes_effect_iff {env : PermEnv} {fs : FileSystem} {filename : Text}
    {args : PermArgs} {disk after : Disk}
    (regular : ∃ s, fs.stat filename = some s ∧ s.kind = .reg)
    (name : Word (disk.place filename).2) (inBounds : env.InBounds filename)
    (written : disk.Written) (granted : disk.refuses ((disk.place filename).1, permFile) = false)
    (storable : args.Storable) (done : setPerm env fs filename args disk = some (0, after)) :
    TakesEffect env.umask args (disk.place filename) disk after ↔
      Lasts env.umask args (disk.entry env.umask (disk.place filename)) := by
  obtain ⟨s, stat, isReg⟩ := regular
  have notDir : s.kind ≠ .dir := by
    rw [isReg]
    decide
  obtain ⟨_, place, ran⟩ := setPerm_setPermIn ⟨s, stat, notDir⟩ inBounds done
  obtain ⟨here, others⟩ := setPermIn_entry written place granted storable name.label name.fits ran
  have base := baseEntry_storable env.small written name.label name.fits
  constructor
  · rintro ⟨⟨entry, read, holds⟩, _⟩
    rw [here] at read
    exact lasts_of_in_restored storable base read holds
  · intro lasts
    obtain ⟨entry, read, holds⟩ := in_restored_of_lasts storable base
      (fun _ found => written.entry_settled env.small found) lasts
    exact ⟨⟨entry, here.trans read, holds⟩, others⟩

theorem written_emptyDisk : emptyDisk.Written := nofun

def usualEnv : PermEnv := { umask := 0o644, small := by decide, before := '-' }

def regularFiles : FileSystem :=
  { lstat := fun _ => some { kind := .reg }, stat := fun _ => some { kind := .reg } }

def somePath : Text := "/pub/file".toList

theorem inBounds_usualEnv (path : Text) : usualEnv.InBounds path :=
  fun slash => absurd slash (by decide)

def chownArgs : PermArgs := { owner := some "ann".toList, perms := some 0o600 }

theorem storable_chownArgs : chownArgs.Storable where
  owner := fun owner given => by
    cases given
    decide
  group := fun _ given => by cases given
  acl := fun _ _ given => by cases given
  perms := fun perms given => by
    cases given
    decide

theorem setPerm_takes_effect_iff_chown : ∃ after,
    setPerm usualEnv regularFiles somePath chownArgs emptyDisk = some (0, after) ∧
    TakesEffect usualEnv.umask chownArgs (emptyDisk.place somePath) emptyDisk after := by
  have returned : ∃ after,
      setPerm usualEnv regularFiles somePath chownArgs emptyDisk = some (0, after) := ⟨_, rfl⟩
  obtain ⟨after, done⟩ := returned
  have regular : ∃ s, regularFiles.stat somePath = some s ∧ s.kind = .reg := ⟨_, rfl, rfl⟩
  have name : Word (emptyDisk.place somePath).2 := by decide
  refine ⟨after, done, (setPerm_takes_effect_iff regular name (inBounds_usualEnv somePath)
    written_emptyDisk rfl storable_chownArgs done).mpr ?_⟩
  exact ⟨.inl rfl, fun _ found => by cases found⟩

/-- Permissions alone are not written, and the entry is gone when the file is read. -/
theorem chmod_without_owner_lost : ∃ after,
    setPerm usualEnv regularFiles somePath { perms := some 0o600 } emptyDisk = some (0, after) ∧
    after.files (emptyDisk.place (("/pub/").toList ++ permFile)) = some [] ∧
    after.entry usualEnv.umask (emptyDisk.place somePath) = none ∧
    ¬TakesEffect usualEnv.umask { perms := some 0o600 } (emptyDisk.place somePath) emptyDisk
      after := by
  refine ⟨_, rfl, rfl, rfl, ?_⟩
  rintro ⟨⟨_, found, _⟩, _⟩
  cases found

end Wzdftpd
