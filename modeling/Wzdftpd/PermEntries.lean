import Wzdftpd.PermRoundTrip
import Wzdftpd.PermStore

/- The permission files of a disk as a map from files to their entries. -/
namespace Wzdftpd

open List NamedList Option PermEntry

theorem PermEntry.SameRights.refl (file : PermEntry) : file.SameRights file :=
  ⟨rfl, rfl, rfl, List.Perm.refl _⟩

theorem PermEntry.SameRights.trans {one two three : PermEntry} (first : one.SameRights two)
    (second : two.SameRights three) : one.SameRights three :=
  ⟨second.owner.trans first.owner, second.group.trans first.group,
    second.permissions.trans first.permissions, second.acl.trans first.acl⟩

def SameEntry (one two : Option PermEntry) : Prop := Option.Rel SameRights one two

theorem SameEntry.refl (entry : Option PermEntry) : SameEntry entry entry := by
  cases entry with
  | none => exact .none
  | some file => exact .some (.refl file)

variable {one two : Option PermEntry}

theorem SameEntry.trans {three : Option PermEntry} (first : SameEntry one two)
    (second : SameEntry two three) : SameEntry one three := by
  cases first with
  | none => exact second
  | some same =>
    cases second with
    | some again => exact .some (same.trans again)

theorem sameEntry_none {entry : Option PermEntry} : SameEntry none entry ↔ entry = none := by
  constructor
  · rintro ⟨⟩
    rfl
  · rintro rfl
    exact .none

/-- An entry of a permission file, which goes through one unchanged but for the order of its
lines. -/
structure PermEntry.Settled (umask : Nat) (file : PermEntry) : Prop extends file.Storable where
  linkAcl : file.kind = .lnk → file.acl = []
  fileKind : file.kind ≠ .lnk → file.kind = .notSet ∧ file.data = []
  unowned : file.owner = [] → file.acl ≠ [] ∧ file.permissions = umask

variable {file : PermEntry}

theorem PermEntry.Storable.acl_reverse (storable : file.Storable) :
    (∀ line ∈ file.acl.reverse, line.Storable) ∧ ((file.acl.reverse).map AclLine.user).Nodup := by
  constructor
  · intro line member
    exact storable.lines line (mem_reverse.mp member)
  · rw [map_reverse, nodup_reverse]
    exact storable.users

theorem PermEntry.Storable.group_of_owner (storable : file.Storable) (noOwner : file.owner = []) :
    file.group = [] := by
  rcases storable.owned with ⟨owner, _⟩ | ⟨_, _, noGroup⟩
  · exact absurd noOwner owner.nonempty
  · exact noGroup

variable {umask : Nat}

theorem PermEntry.Storable.settled {after : PermEntry} (storable : file.Storable)
    (small : umask < 2 ^ 32) (read : file.restored umask = some after) : after.Settled umask := by
  obtain ⟨lines, users⟩ := storable.acl_reverse
  unfold restored at read
  split at read
  · rename_i isLink
    cases read
    exact
      { storable with
        lines := nofun
        users := nodup_nil
        linkAcl := fun _ => rfl
        fileKind := fun noLink => absurd isLink noLink
        unowned := fun noOwner => by
          rcases storable.owned with ⟨owner, _⟩ | ⟨noLink, _⟩
          · exact absurd noOwner owner.nonempty
          · exact absurd isLink noLink }
  · split at read
    · rename_i unowned
      split at read
      · cases read
      rename_i some
      cases read
      exact
        { name := storable.name
          fits := storable.fits
          bits := by
            change umask < 2 ^ 64
            omega
          owned := .inr ⟨nofun, unowned⟩
          lines := lines
          users := users
          link := nofun
          nameStarts := storable.nameStarts
          dataStarts := nofun
          linkAcl := nofun
          fileKind := fun _ => ⟨rfl, rfl⟩
          unowned := fun _ => ⟨by simpa using some, rfl⟩ }
    · rename_i owned
      cases read
      exact
        { name := storable.name
          fits := storable.fits
          bits := storable.bits
          owned := by
            rcases storable.owned with words | ⟨_, none⟩
            · exact .inl words
            · exact absurd none owned
          lines := lines
          users := users
          link := nofun
          nameStarts := storable.nameStarts
          dataStarts := nofun
          linkAcl := nofun
          fileKind := fun _ => ⟨rfl, rfl⟩
          unowned := fun noOwner => absurd ⟨noOwner, storable.group_of_owner noOwner⟩ owned }

theorem PermEntry.Settled.restored_eq (settled : file.Settled umask) :
    file.restored umask = some { file with acl := file.acl.reverse } := by
  unfold restored
  by_cases isLink : file.kind = .lnk
  · simp [isLink, settled.linkAcl isLink]
  obtain ⟨kind, data⟩ := settled.fileKind isLink
  rw [if_neg isLink]
  split
  · rename_i unowned
    obtain ⟨some, bits⟩ := settled.unowned unowned.1
    rw [if_neg some, ← kind, ← data, ← bits]
  · rw [← kind, ← data]

structure StorableFiles (files : List PermEntry) : Prop where
  storable : ∀ file ∈ files, file.Storable
  distinct : (files.map filename).Nodup

/-- An entry that has been left alone, or written back with its lines in reverse. -/
def Rewritten (one two : Option PermEntry) : Prop :=
  two = one ∨ two = one.map fun file => { file with acl := file.acl.reverse }

theorem Rewritten.sameEntry (same : Rewritten one two) : SameEntry one two := by
  rcases same with rfl | rfl
  · exact .refl _
  · cases one with
    | none => exact .none
    | some file => exact .some ⟨rfl, rfl, rfl, reverse_perm file.acl⟩

theorem Rewritten.none_iff (same : Rewritten one two) : two = none ↔ one = none := by
  rcases same with rfl | rfl
  · exact Iff.rfl
  · exact map_eq_none_iff

theorem Rewritten.kind {one two : PermEntry} (same : Rewritten (some one) (some two)) :
    two.kind = one.kind := by
  rcases same with same | same
  · cases same
    rfl
  · cases same
    rfl

variable {path : Text} {files : List PermEntry}

namespace Disk

def entries (umask : Nat) (disk : Disk) (dir : Nat) : List PermEntry :=
  ((disk.files (dir, permFile)).bind (readPermText umask)).getD []

def entry (umask : Nat) (disk : Disk) (file : Nat × Text) : Option PermEntry :=
  findFile file.2 (disk.entries umask file.1)

/-- Every permission file has been written by the server, for entries it can hold. -/
def Written (disk : Disk) : Prop :=
  ∀ dir content, disk.files (dir, permFile) = some content →
    ∃ files, StorableFiles files ∧ content = writePermText files

variable {disk : Disk}

theorem Written.read (written : disk.Written) (umask : Nat) {dir : Nat}
    (place : disk.place path = (dir, permFile)) :
    ∃ ret, readPermFile umask path disk = some (ret, disk.entries umask dir) ∧
      (ret ≠ .ok → disk.entries umask dir = []) := by
  unfold readPermFile
  rw [place]
  cases here : disk.files (dir, permFile) with
  | none =>
    have none_ : disk.entries umask dir = [] := by
      rw [entries, here]
      rfl
    rw [none_]
    exact ⟨.fileNoExist, rfl, fun _ => rfl⟩
  | some content =>
    obtain ⟨files, storable, rfl⟩ := written dir content here
    have read := readPermText_writePermText umask storable.storable storable.distinct
    have same : disk.entries umask dir = files.filterMap (restored umask) := by
      simp [entries, here, read]
    simp only [read, same]
    exact ⟨.ok, rfl, fun failed => absurd rfl failed⟩

theorem Written.settled (written : disk.Written) (small : umask < 2 ^ 32) (dir : Nat) :
    ∀ file ∈ disk.entries umask dir, file.Settled umask := by
  intro file member
  unfold entries at member
  cases here : disk.files (dir, permFile) with
  | none =>
    rw [here] at member
    cases member
  | some content =>
    obtain ⟨_, storable, rfl⟩ := written dir content here
    rw [here, bind_some, readPermText_writePermText umask storable.storable
      storable.distinct, getD_some] at member
    obtain ⟨source, inside, read⟩ := mem_filterMap.mp member
    exact (storable.storable source inside).settled small read

theorem Written.distinct (written : disk.Written) (umask : Nat) (dir : Nat) :
    ((disk.entries umask dir).map filename).Nodup := by
  unfold entries
  cases here : disk.files (dir, permFile) with
  | none => exact nodup_nil
  | some content =>
    obtain ⟨_, storable, rfl⟩ := written dir content here
    rw [bind_some, readPermText_writePermText umask storable.storable storable.distinct]
    refine storable.distinct.sublist ?_
    apply map_key_filterMap_sublist
    exact fun _ _ read => restored_filename read

theorem Written.storableFiles (written : disk.Written) (small : umask < 2 ^ 32) (dir : Nat) :
    StorableFiles (disk.entries umask dir) :=
  ⟨fun file member => (written.settled small dir file member).toStorable,
    written.distinct umask dir⟩

theorem put_files_of_ne (disk : Disk) {place other : Nat × Text} (different : other ≠ place)
    (content : Option Text) : (disk.put place content).files other = disk.files other :=
  if_neg different

/-- Where the server may write, a written list is on the disk, and no list is no file. -/
theorem writePermFile_files (granted : disk.refuses (disk.place path) = false)
    (other : Nat × Text) :
    (writePermFile path files disk).2.files other =
      if other = disk.place path then
        (if files = [] then none else some (writePermText files))
      else disk.files other := by
  unfold writePermFile
  by_cases empty : files = []
  · simp only [if_pos empty, granted, Bool.false_eq_true, or_false]
    by_cases missing : disk.files (disk.place path) = none
    · simp only [if_pos missing]
      split
      · rename_i same
        rw [same, missing]
      · rfl
    · simp only [if_neg missing]
      rfl
  · simp only [if_neg empty, granted]
    rfl

theorem writePermFile_dirOf (path : Text) (files : List PermEntry) (disk : Disk) :
    (writePermFile path files disk).2.dirOf = disk.dirOf := by
  unfold writePermFile
  simp only
  split
  · split <;> rfl
  · split <;> rfl

theorem writePermFile_refuses (path : Text) (files : List PermEntry) (disk : Disk) :
    (writePermFile path files disk).2.refuses = disk.refuses := by
  unfold writePermFile
  simp only
  split
  · split <;> rfl
  · split <;> rfl

theorem writePermFile_place (path : Text) (files : List PermEntry) (disk : Disk) (other : Text) :
    (writePermFile path files disk).2.place other = disk.place other := by
  unfold place
  rw [writePermFile_dirOf]

theorem Written.write (written : disk.Written) (granted : disk.refuses (disk.place path) = false)
    (storable : StorableFiles files) : (writePermFile path files disk).2.Written := by
  intro dir content here
  rw [writePermFile_files granted] at here
  split at here
  · split at here
    · cases here
    · cases here
      exact ⟨files, storable, rfl⟩
  · exact written dir content here

theorem entries_write (umask : Nat) {dir : Nat} (place : disk.place path = (dir, permFile))
    (granted : disk.refuses (dir, permFile) = false) (storable : StorableFiles files)
    (other : Nat) :
    (writePermFile path files disk).2.entries umask other =
      if other = dir then files.filterMap (restored umask)
      else disk.entries umask other := by
  unfold entries
  rw [writePermFile_files (place ▸ granted), place]
  by_cases same : other = dir
  · rw [if_pos (by rw [same])]
    split
    · rename_i empty
      rw [empty]
      rfl
    · simp [readPermText_writePermText umask storable.storable storable.distinct]
  · rw [if_neg (fun both => same (Prod.mk.inj both).1), if_neg same]

theorem entry_write (umask : Nat) {dir : Nat} (place : disk.place path = (dir, permFile))
    (granted : disk.refuses (dir, permFile) = false) (storable : StorableFiles files)
    (file : Nat × Text) :
    (writePermFile path files disk).2.entry umask file =
      if file.1 = dir then (findFile file.2 files).bind (restored umask)
      else disk.entry umask file := by
  unfold entry
  rw [entries_write umask place granted storable]
  split
  · apply lookup_filterMap _ storable.distinct
    exact fun _ _ read => restored_filename read
  · rfl

end Disk

theorem StorableFiles.remove (storable : StorableFiles files) (name : Text) :
    StorableFiles (removeFile name files) where
  storable := fun file member => storable.storable file (mem_of_mem_eraseP member)
  distinct := nodup_remove storable.distinct name

theorem StorableFiles.change (storable : StorableFiles files) {name : Text}
    {change : PermEntry → PermEntry} (named : ∀ file, (change file).filename = file.filename)
    (kept : ∀ file ∈ files, file.filename = name → (change file).Storable) :
    StorableFiles (changeFile name change files) where
  storable := fun file member => by
    rcases mem_modify member with here | ⟨source, inside, same, rfl⟩
    · exact storable.storable file here
    · exact kept source inside same
  distinct := by
    rw [changeFile, map_key_modify named]
    exact storable.distinct

theorem StorableFiles.append (storable : StorableFiles files) (ok : file.Storable)
    (absent : findFile file.filename files = none) :
    StorableFiles (files ++ [file]) where
  storable := fun other member => by
    rcases mem_append.mp member with here | last
    · exact storable.storable other here
    · rw [mem_singleton.mp last]
      exact ok
  distinct := by
    apply nodup_append storable.distinct
    exact (lookup_eq_none_iff files file.filename).mp absent

theorem findFile_removeFile (storable : StorableFiles files) (name other : Text) :
    findFile other (removeFile name files) =
      if other = name then none else findFile other files :=
  lookup_remove storable.distinct other name

theorem findFile_changeFile {change : PermEntry → PermEntry}
    (named : ∀ file, (change file).filename = file.filename) (files : List PermEntry)
    (name other : Text) : findFile other (changeFile name change files) =
      if other = name then (findFile name files).map change else findFile other files :=
  lookup_modify named files other name

theorem findFile_append (files : List PermEntry) (file : PermEntry) (other : Text)
    (absent : findFile file.filename files = none) : findFile other (files ++ [file]) =
      if other = file.filename then some file else findFile other files := by
  unfold findFile at absent ⊢
  rw [NamedList.lookup_append, NamedList.lookup_cons, NamedList.lookup_nil]
  by_cases same : other = file.filename
  · rw [if_pos same, if_pos same.symm, same, absent, none_or]
  · simp [same, Ne.symm same]

variable {dir name : Text}

theorem lastName_append (ends : dir = [] ∨ dir.getLast? = some '/') (noSlash : '/' ∉ name) :
    ((dir ++ name).reverse.takeWhile (· ≠ '/')).reverse = name := by
  have inside : ∀ c ∈ name.reverse, decide (c ≠ '/') = true := by
    intro c member
    apply decide_eq_true
    rintro rfl
    exact noSlash (mem_reverse.mp member)
  have stops : dir.reverse.takeWhile (· ≠ '/') = [] := by
    rcases ends with rfl | last
    · rfl
    · obtain ⟨_, rfl⟩ := getLast?_eq_some_iff.mp last
      simp
  rw [reverse_append, takeWhile_append_of_pos inside, stops, append_nil,
    reverse_reverse]

theorem place_append (disk : Disk) (ends : dir = [] ∨ dir.getLast? = some '/')
    (noSlash : '/' ∉ name) : disk.place (dir ++ name) = (disk.dirOf dir, name) := by
  have length : (dir ++ name).length - name.length = dir.length := by
    rw [length_append]
    omega
  simp only [Disk.place, lastName_append ends noSlash, length, take_left]

theorem splitSlash_spec (split : splitSlash path = some (dir, name)) :
    path = dir ++ ['/'] ++ name ∧ '/' ∉ name := by
  unfold splitSlash at split
  split at split
  · rename_i slash
    -- the name is what the reversed path starts with, and a separator follows it
    have parts :=
      takeWhile_append_dropWhile (p := fun c => decide (c ≠ '/')) (l := path.reverse)
    have some : path.reverse.dropWhile (· ≠ '/') ≠ [] := by
      intro empty
      rw [dropWhile_eq_nil_iff] at empty
      have other := empty '/' (mem_reverse.mpr slash)
      revert other
      decide
    obtain ⟨c, front, shape⟩ := exists_cons_of_ne_nil some
    have isSlash : c = '/' := by
      have stopped := head?_dropWhile_not (fun c => decide (c ≠ '/')) path.reverse
      rw [shape] at stopped
      simpa using stopped
    subst isSlash
    rw [shape] at parts
    have whole : path = front.reverse ++ ['/'] ++ (path.reverse.takeWhile (· ≠ '/')).reverse := by
      have back := congrArg List.reverse parts
      rw [reverse_reverse, reverse_append, reverse_cons] at back
      exact back.symm
    simp only [Option.some.injEq, Prod.mk.injEq] at split
    obtain ⟨isDir, isName⟩ := split
    rw [isName] at whole isDir
    have front_ : dir = front.reverse := by
      rw [← isDir, whole]
      have length : (front.reverse ++ ['/'] ++ name).length - name.length - 1 =
          front.reverse.length := by
        simp only [length_append, length_singleton]
        omega
      rw [length, append_assoc, take_left]
    refine ⟨front_ ▸ whole, fun member => ?_⟩
    rw [← isName, mem_reverse] at member
    have other := mem_takeWhile_imp member
    revert other
    decide
  · cases split

/-- The byte in front of the buffer is not taken for a separator. -/
def PermEnv.InBounds (env : PermEnv) (path : Text) : Prop :=
  env.before = '/' → ∀ name, splitSlash path ≠ some ([], name)

theorem withSlash_ends (before : Char) (dir : Text) :
    withSlash before dir = [] ∨ (withSlash before dir).getLast? = some '/' := by
  unfold withSlash
  split
  · exact .inr getLast?_concat
  rename_i last
  rw [not_not] at last
  rcases eq_nil_or_concat' dir with rfl | ⟨front, c, rfl⟩
  · exact .inl rfl
  · rw [getLastD_concat] at last
    rw [last]
    exact .inr getLast?_concat

theorem place_permPath (disk : Disk) {env : PermEnv}
    (split : splitSlash path = some (dir, name)) (inBounds : env.InBounds path) :
    disk.place (withSlash env.before dir ++ permFile) = ((disk.place path).1, permFile) ∧
      (disk.place path).2 = name := by
  obtain ⟨whole, noSlash⟩ := splitSlash_spec split
  have here := place_append disk (.inr (getLast?_concat (l := dir))) noSlash
  rw [← whole] at here
  have directory : disk.dirOf (withSlash env.before dir) = disk.dirOf (dir ++ ['/']) := by
    unfold withSlash
    split
    · rfl
    rename_i last
    rw [not_not] at last
    rcases eq_nil_or_concat' dir with rfl | ⟨front, c, rfl⟩
    · exact absurd split (inBounds last name)
    · rw [getLastD_concat] at last
      rw [last, append_assoc]
      exact (disk.doubled front).symm
  rw [place_append disk (withSlash_ends env.before dir) (by decide), here, directory]
  exact ⟨rfl, rfl⟩

namespace Disk

variable {disk : Disk} {umask : Nat}

variable {file : Nat × Text}

theorem Written.entry_settled (written : disk.Written) (small : umask < 2 ^ 32)
    {known : PermEntry} (found : disk.entry umask file = some known) :
    known.Settled umask :=
  written.settled small file.1 known (mem_of_lookup found)

theorem Written.rewritten (written : disk.Written) (small : umask < 2 ^ 32) (file : Nat × Text) :
    Rewritten (disk.entry umask file) ((disk.entry umask file).bind (restored umask)) := by
  cases found : disk.entry umask file with
  | none => exact .inl rfl
  | some known => exact .inr (written.entry_settled small found).restored_eq

theorem Written.replace (written : disk.Written) (small : umask < 2 ^ 32)
    (place : disk.place path = (file.1, permFile))
    (granted : disk.refuses (file.1, permFile) = false) {now : Option PermEntry}
    (storable : StorableFiles files)
    (found : ∀ name, findFile name files = if name = file.2 then now else findFile name
      (disk.entries umask file.1)) :
    (writePermFile path files disk).2.entry umask file = now.bind (restored umask) ∧
      ∀ other, other ≠ file → Rewritten (disk.entry umask other)
        ((writePermFile path files disk).2.entry umask other) := by
  constructor
  · simp [entry_write umask place granted storable, found]
  intro other different
  rw [entry_write umask place granted storable]
  split
  · rename_i sameDir
    have otherName : other.2 ≠ file.2 := fun same => different (Prod.ext sameDir same)
    rw [found, if_neg otherName, ← sameDir]
    exact written.rewritten small other
  · exact .inl rfl

theorem Written.remove (written : disk.Written) (small : umask < 2 ^ 32)
    (place : disk.place path = (file.1, permFile))
    (granted : disk.refuses (file.1, permFile) = false) :
    (writePermFile path (removeFile file.2 (disk.entries umask file.1)) disk).2.Written ∧
      (writePermFile path (removeFile file.2 (disk.entries umask file.1)) disk).2.entry umask file =
        none ∧
      ∀ other, other ≠ file → Rewritten (disk.entry umask other)
        ((writePermFile path (removeFile file.2 (disk.entries umask file.1)) disk).2.entry umask
          other) := by
  have files := written.storableFiles small file.1
  have rest := files.remove file.2
  exact ⟨written.write (place ▸ granted) rest,
    written.replace small place granted rest (findFile_removeFile files file.2)⟩

end Disk

end Wzdftpd
