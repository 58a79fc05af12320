import Wzdftpd.TransferLoops

/- `safe_rename` (wzd_misc.c), which copies a tree and removes it where the kernel
refuses to rename across devices. Trees hold directories and regular files. -/
namespace Wzdftpd

open List Option Function

inductive FileTree where
  | absent
  | file (content : List UInt8)
  | dir (child : Text → FileTree)

namespace FileTree

def isDir : FileTree → Bool
  | .dir _ => true
  | _ => false

def child : FileTree → Text → FileTree
  | .dir child, name => child name
  | _, _ => .absent

def withChild : FileTree → Text → FileTree → FileTree
  | .dir child, name, tree => .dir (Function.update child name tree)
  | other, _, _ => other

/-- `mkdir`, where `ok` says whether a directory can be made. -/
def mkdir (ok : Bool) : FileTree → FileTree
  | .absent => if ok then .dir fun _ => .absent else .absent
  | other => other

/-- `open` with O_CREAT and O_WRONLY, but not O_TRUNC: what the file holds. -/
def openTo (ok : Bool) : FileTree → Option (List UInt8)
  | .absent => if ok then some [] else none
  | .file old => if ok then some old else none
  | .dir _ => none

def isAbsent : FileTree → Bool
  | .absent => true
  | _ => false

end FileTree

/-- One round of the loop that copies a file. -/
inductive CopyRound where
  | reads (more : Nat) (write : WriteCall)
  | fails

/-- How the calls at one path end. `rounds` goes on for ever, `listing` is what reading
the directory delivers. -/
structure MoveCalls where
  lstat : Bool := true
  openFrom : Bool := true
  openTo : Bool := true
  rounds : Nat → CopyRound := fun _ => .reads 32767 (.takes 32768)
  unlink : Bool := true
  mkdir : Bool := true
  openDir : Bool := true
  listing : List Text := []
  rmdir : Bool := true

namespace MoveCalls

/-- `open` of both files: what the target holds, if neither fails. -/
def opened (calls : MoveCalls) (parent : Bool) (dst : FileTree) : Option (List UInt8) :=
  if calls.lstat && calls.openFrom then dst.openTo (parent && calls.openTo) else none

/-- The target after `mkdir`, whose result is not looked at. -/
def made (calls : MoveCalls) (parent : Bool) (dst : FileTree) : FileTree :=
  if calls.lstat then dst.mkdir (parent && calls.mkdir) else dst

def entered (calls : MoveCalls) : Bool := calls.lstat && calls.openDir

end MoveCalls

/-- The loop on `sz > 0`, as far as the rounds go. The `size_t` is positive after an
error as well; a write of so many bytes is refused. -/
def copyLoop : List CopyRound → ByteFile → ByteFile → Option ByteFile
  | [], _, _ => none
  | .fails :: rounds, source, target => copyLoop rounds source target
  | .reads more write :: rounds, source, target =>
    if source.rest = [] then some target
    else
      let count := min (more + 1) 32768
      copyLoop rounds (source.read count) (fileWrite target (source.next count) write).file

/-- What `_int_rename` returns and leaves at both paths. -/
structure Moved where
  ret : Int
  src : FileTree
  dst : FileTree

/-- `_int_rename` of a regular file, as far as `fuel` rounds go; `parent` says that the
target is in a directory. -/
def renameFile (fuel : Nat) (content : List UInt8) (calls : MoveCalls) (parent : Bool)
    (dst : FileTree) : Option Moved :=
  match calls.opened parent dst with
  | none => some ⟨-1, .file content, dst⟩
  | some old =>
    (copyLoop ((range fuel).map calls.rounds) ⟨content, 0⟩ ⟨old, 0⟩).map fun target =>
      ⟨0, if calls.unlink then .absent else .file content, .file target.content⟩

/-- The two directories while the entries are moved. -/
structure MovingDirs where
  src : FileTree
  dst : FileTree

namespace MovingDirs

/-- An entry has been moved, whatever was returned for it. -/
def moved (s : MovingDirs) (name : Text) (moved : Moved) : MovingDirs :=
  ⟨s.src.withChild name moved.src, s.dst.withChild name moved.dst⟩

/-- The entries are through: `rmdir` fails if something is left. -/
def finish (s : MovingDirs) (calls : MoveCalls) : Moved :=
  let empty := calls.listing.all fun name => (s.src.child name).isAbsent
  ⟨0, if empty && calls.rmdir then .absent else s.src, s.dst⟩

end MovingDirs

/-- `_int_rename`. The calls are given by the path from here on. -/
def intRename (fuel : Nat) : FileTree → (List Text → MoveCalls) → Bool → FileTree → Option Moved
  | .absent, _, _, dst => some ⟨-1, .absent, dst⟩
  | .file content, calls, parent, dst => renameFile fuel content (calls []) parent dst
  | .dir child, calls, parent, dst =>
    let dst := (calls []).made parent dst
    if (calls []).entered then
      ((calls []).listing.foldlM (fun (s : MovingDirs) name =>
        (intRename fuel (child name) (fun path => calls (name :: path)) s.dst.isDir
          (s.dst.child name)).map (s.moved name)) ⟨.dir child, dst⟩).map
        fun s => s.finish (calls [])
    else some ⟨-1, .dir child, dst⟩

def moveInside (fuel : Nat) (child : Text → FileTree) (calls : List Text → MoveCalls)
    (s : MovingDirs) (name : Text) : Option MovingDirs :=
  (intRename fuel (child name) (fun path => calls (name :: path)) s.dst.isDir
    (s.dst.child name)).map (s.moved name)

theorem intRename_dir (fuel : Nat) (child : Text → FileTree) (calls : List Text → MoveCalls)
    (parent : Bool) (dst : FileTree) :
    intRename fuel (.dir child) calls parent dst =
      if (calls []).entered then
        ((calls []).listing.foldlM (moveInside fuel child calls)
          ⟨.dir child, (calls []).made parent dst⟩).map fun s => s.finish (calls [])
      else some ⟨-1, .dir child, (calls []).made parent dst⟩ := rfl

/-- How `rename` ends. -/
inductive RenameCall where
  | done | crossDevice | fails

/-- `safe_rename` -/
def safeRename (fuel : Nat) (rename : RenameCall) (src : FileTree) (calls : List Text → MoveCalls)
    (parent : Bool) (dst : FileTree) : Option Moved :=
  match rename with
  | .done => some ⟨0, .absent, src⟩
  | .fails => some ⟨-1, src, dst⟩
  | .crossDevice => intRename fuel src calls parent dst

def FileTree.fileAt : FileTree → List Text → Option (List UInt8)
  | .file content, [] => some content
  | .dir child, name :: path => (child name).fileAt path
  | _, _ => none

/-- Reading a directory delivers every entry once, and its name fits with a separator into the
room that the path leaves in the buffers. -/
def Listed : Nat → FileTree → (List Text → MoveCalls) → Prop
  | room, .dir child, calls =>
    (calls []).listing.Nodup ∧ (∀ name, name ∈ (calls []).listing ↔ child name ≠ .absent) ∧
      (∀ name ∈ (calls []).listing, name.length + 1 < room) ∧
      ∀ name, Listed (room - (name.length + 1)) (child name) fun path => calls (name :: path)
  | _, _, _ => True

/-- The room that two paths leave in `buf_src` and `buf_dst`. -/
def renameRoom (source target : Text) : Nat := 2048 - max source.length target.length

/-- A move that ends, keeps every file at one of the two paths, and only reports success
if the target is what the source was. -/
structure MoveIsSafe (src : FileTree) (calls : List Text → MoveCalls) (parent : Bool)
    (dst : FileTree) : Prop where
  terminates : ∃ fuel moved, safeRename fuel .crossDevice src calls parent dst = some moved
  kept : ∀ fuel moved, safeRename fuel .crossDevice src calls parent dst = some moved →
    ∀ path content, src.fileAt path = some content →
      moved.src.fileAt path = some content ∨ moved.dst.fileAt path = some content
  exact : ∀ fuel moved, safeRename fuel .crossDevice src calls parent dst = some moved →
    moved.ret = 0 → moved.dst = src

/-- What the writes of a copy take, if the reads come to the end. -/
def taken : List CopyRound → ByteFile → Option (List UInt8)
  | [], _ => none
  | .fails :: rounds, source => taken rounds source
  | .reads more write :: rounds, source =>
    if source.rest = [] then some []
    else
      let count := min (more + 1) 32768
      (taken rounds (source.read count)).map (write.bytes (source.next count) ++ ·)

/-- The reads of a copy come to the end, and what its writes take, with what the old file
has behind it, is the content. -/
def CopyLands (rounds : Nat → CopyRound) (old content : List UInt8) : Prop :=
  ∃ fuel bytes, taken ((range fuel).map rounds) ⟨content, 0⟩ = some bytes ∧
    bytes ++ old.drop bytes.length = content

/-- The move gets nowhere: the source stays as it is. -/
def MoveStops (calls : MoveCalls) (parent : Bool) (dst : FileTree) : FileTree → Prop
  | .absent => True
  | .file _ => calls.opened parent dst = none
  | .dir _ => calls.entered = false

/-- The target becomes the source: files that can be opened are copied, directories that
can be entered exist at the target and hold what they should, and everything else was
there before. -/
def MoveLands : FileTree → (List Text → MoveCalls) → Bool → FileTree → Prop
  | .absent, _, _, dst => dst = .absent
  | .file content, calls, parent, dst =>
    ((calls []).opened parent dst = none → dst = .file content) ∧
      ∀ old, (calls []).opened parent dst = some old → CopyLands (calls []).rounds old content
  | .dir child, calls, parent, dst =>
    ((calls []).entered = false → (calls []).made parent dst = .dir child) ∧
      ((calls []).entered = true → ((calls []).made parent dst).isDir = true ∧
        ∀ name, MoveLands (child name) (fun path => calls (name :: path)) true
          (((calls []).made parent dst).child name))

theorem copyLoop_eq_taken (rounds : List CopyRound) : ∀ (source target : ByteFile),
    copyLoop rounds source target = (taken rounds source).map (target.write 0) := by
  induction rounds with
  | nil => exact fun _ _ => rfl
  | cons round rounds ih =>
    intro source target
    cases round with
    | fails => exact ih source target
    | reads more write =>
      by_cases ended : source.rest = []
      · rw [copyLoop, if_pos ended, taken, if_pos ended]
        rfl
      · rw [copyLoop, if_neg ended, taken, if_neg ended, ih, Option.map_map]
        congr 1
        funext bytes
        exact FileCursor.write_write 0 target _ bytes

theorem taken_append (rounds more : List CopyRound) : ∀ {source : ByteFile} {bytes : List UInt8},
    taken rounds source = some bytes → taken (rounds ++ more) source = some bytes := by
  induction rounds with
  | nil => exact fun ended => by cases ended
  | cons round rounds ih =>
    intro source bytes ended
    cases round with
    | fails => exact ih ended
    | reads size write =>
      rw [cons_append]
      unfold taken at ended ⊢
      by_cases nothing : source.rest = []
      · rwa [if_pos nothing] at ended ⊢
      · rw [if_neg nothing] at ended ⊢
        obtain ⟨_, rest, whole⟩ := map_eq_some_iff.mp ended
        simp only [ih rest]
        exact congrArg some whole

variable {fuel : Nat}

theorem taken_mono {rounds : Nat → CopyRound} {source : ByteFile} {bytes : List UInt8} {more : Nat}
    (le : fuel ≤ more) (ended : taken ((range fuel).map rounds) source = some bytes) :
    taken ((range more).map rounds) source = some bytes := by
  obtain ⟨_, sum⟩ := Nat.exists_eq_add_of_le le
  rw [sum, range_add, map_append]
  exact taken_append _ _ ended

variable {parent : Bool} {dst : FileTree}

theorem renameFile_eq {calls : MoveCalls} {old : List UInt8}
    (opens : calls.opened parent dst = some old) (fuel : Nat) (content : List UInt8) :
    renameFile fuel content calls parent dst =
      (taken ((range fuel).map calls.rounds) ⟨content, 0⟩).map fun bytes =>
        ⟨0, if calls.unlink then .absent else .file content,
          .file (bytes ++ old.drop bytes.length)⟩ := by
  simp only [renameFile, opens, copyLoop_eq_taken, Option.map_map]
  congr 1
  funext bytes
  simp [FileCursor.write_at_start]

theorem intRename_mono {more : Nat} (le : fuel ≤ more) (src : FileTree) :
    ∀ {calls : List Text → MoveCalls} {parent : Bool} {dst : FileTree} {moved : Moved},
      intRename fuel src calls parent dst = some moved →
      intRename more src calls parent dst = some moved := by
  induction src with
  | absent => exact fun ended => ended
  | file content =>
    intro calls parent dst moved ended
    unfold intRename at ended ⊢
    cases opens : (calls []).opened parent dst with
    | none =>
      simp only [renameFile, opens] at ended ⊢
      exact ended
    | some old =>
      rw [renameFile_eq opens] at ended ⊢
      obtain ⟨_, copied, same⟩ := map_eq_some_iff.mp ended
      rw [taken_mono le copied]
      exact congrArg some same
  | dir child ih =>
    intro calls parent dst moved ended
    rw [intRename_dir] at ended ⊢
    by_cases enters : (calls []).entered = true
    · rw [if_pos enters] at ended ⊢
      obtain ⟨s, through, same⟩ := map_eq_some_iff.mp ended
      have entries : ∀ s name after, moveInside fuel child calls s name = some after →
          moveInside more child calls s name = some after := by
        intro s name after first
        obtain ⟨_, ended, next⟩ := map_eq_some_iff.mp first
        rw [moveInside, ih name ended]
        exact congrArg some next
      rw [Runs.foldlM_imp entries _ through]
      exact congrArg some same
    · rwa [if_neg enters] at ended ⊢

variable {calls : List Text → MoveCalls} {tree src : FileTree}

theorem intRename_unique {other : Nat} {moved again : Moved}
    (first : intRename fuel src calls parent dst = some moved)
    (second : intRename other src calls parent dst = some again) : moved = again := by
  rcases Nat.le_total fuel other with le | le
  · exact some.inj ((intRename_mono le src first).symm.trans second)
  · exact some.inj (first.symm.trans (intRename_mono le src second))

theorem FileTree.eq_dir_of_isDir (isDir : tree.isDir = true) : ∃ child, tree = .dir child := by
  cases tree with
  | dir child => exact ⟨child, rfl⟩
  | absent => cases isDir
  | file content => cases isDir

theorem FileTree.withChild_of_not_dir (other : tree.isDir = false) (name : Text)
    (inner : FileTree) : tree.withChild name inner = tree := by
  cases tree with
  | dir child => cases other
  | absent => rfl
  | file content => rfl

variable {child : Text → FileTree} {s : MovingDirs}

theorem moveInside_not_dir (names : List Text) {after : MovingDirs} (other : s.dst.isDir = false)
    (through : names.foldlM (moveInside fuel child calls) s = some after) : after.dst = s.dst := by
  refine Runs.foldlM_keeps (fun now => now.dst = s.dst) names (fun now name _ same next moved => ?_)
    rfl through
  obtain ⟨inner, _, done⟩ := map_eq_some_iff.mp moved
  rw [← done]
  change now.dst.withChild name inner.dst = s.dst
  rw [same, FileTree.withChild_of_not_dir other]

variable {old : Text → FileTree}

theorem MovingDirs.moved_dst (target : s.dst = .dir old) (name : Text) (inner : Moved) :
    (s.moved name inner).dst = .dir (Function.update old name inner.dst) := by
  change s.dst.withChild name inner.dst = _
  rw [target]
  rfl

/-- What an entry becomes in the target directory. -/
def Arrives (fuel : Nat) (child : Text → FileTree) (calls : List Text → MoveCalls)
    (old new : Text → FileTree) (name : Text) : Prop :=
  ∃ moved, intRename fuel (child name) (fun path => calls (name :: path)) true (old name) =
    some moved ∧ new name = moved.dst

/-- The entries are moved one by one, each to its own place. -/
theorem moveInside_dir (names : List Text) (distinct : names.Nodup) :
    ∀ {s after : MovingDirs}
      {old : Text → FileTree}, s.dst = .dir old →
      names.foldlM (moveInside fuel child calls) s = some after →
      ∃ new, after.dst = .dir new ∧ (∀ name ∈ names, Arrives fuel child calls old new name) ∧
        ∀ name ∉ names, new name = old name := by
  induction names with
  | nil =>
    intro s after old target through
    cases through
    exact ⟨old, target, fun name member => absurd member not_mem_nil, fun _ _ => rfl⟩
  | cons name names ih =>
    intro s after old target through
    obtain ⟨fresh, others⟩ := nodup_cons.mp distinct
    obtain ⟨next, first, later⟩ := bind_eq_some_iff.mp through
    obtain ⟨inner, ended, done⟩ := map_eq_some_iff.mp first
    rw [target] at ended
    have place : next.dst = .dir (Function.update old name inner.dst) := by
      rw [← done]
      exact MovingDirs.moved_dst target name inner
    obtain ⟨new, last, moved, kept⟩ := ih others place later
    refine ⟨new, last, fun other member => ?_, fun other outside => ?_⟩
    · rcases mem_cons.mp member with same | member
      · rw [same]
        refine ⟨inner, ended, ?_⟩
        simp [kept name fresh]
      · have different : other ≠ name := fun same => fresh (same ▸ member)
        obtain ⟨inner, ended, place⟩ := moved other member
        rw [update_of_ne different] at ended
        exact ⟨inner, ended, place⟩
    · obtain ⟨different, outside⟩ := not_or.mp (mt mem_cons.mpr outside)
      rw [kept other outside, update_of_ne different]

theorem moveInside_ends (names : List Text) (distinct : names.Nodup) :
    ∀ {s : MovingDirs} {old : Text → FileTree},
      s.dst = .dir old →
      (∀ name ∈ names, ∃ moved, intRename fuel (child name) (fun path => calls (name :: path)) true
        (old name) = some moved) →
      ∃ after, names.foldlM (moveInside fuel child calls) s = some after := by
  induction names with
  | nil => exact fun _ _ => ⟨_, rfl⟩
  | cons name names ih =>
    intro s old target each
    obtain ⟨fresh, others⟩ := nodup_cons.mp distinct
    obtain ⟨inner, ended⟩ := each name mem_cons_self
    have first : moveInside fuel child calls s name = some (s.moved name inner) := by
      rw [moveInside, target]
      change Option.map _ (intRename fuel (child name) _ true (old name)) = _
      rw [ended]
      rfl
    rw [foldlM_cons, first]
    refine ih others (MovingDirs.moved_dst target name inner) fun other member => ?_
    have different : other ≠ name := fun same => fresh (same ▸ member)
    rw [update_of_ne different]
    exact each other (mem_cons_of_mem name member)

theorem exists_fuel (names : List Text)
    (each : ∀ name ∈ names, ∃ fuel moved, intRename fuel (child name) (fun path => calls (name ::
      path)) true (old name) = some moved) :
    ∃ fuel, ∀ name ∈ names, ∃ moved, intRename fuel (child name)
      (fun path => calls (name :: path)) true (old name) = some moved := by
  obtain ⟨fuel, ends⟩ := Runs.enough_for_all (P := fun fuel name => ∃ moved, intRename fuel
      (child name) (fun path => calls (name :: path)) true (old name) = some moved) names (by
    intro name member
    obtain ⟨fuel, moved, ended⟩ := each name member
    exact ⟨fuel, fun _ more => ⟨moved, intRename_mono more _ ended⟩⟩)
  exact ⟨fuel, ends fuel (Nat.le_refl fuel)⟩

/-- The move ends with the source at the target. -/
def MovesOver (src : FileTree) (calls : List Text → MoveCalls) (parent : Bool) (dst : FileTree) :
    Prop :=
  ∃ fuel moved, intRename fuel src calls parent dst = some moved ∧ moved.dst = src

theorem movesOver_file_iff (content : List UInt8) (calls : List Text → MoveCalls) (parent : Bool)
    (dst : FileTree) :
    MovesOver (.file content) calls parent dst ↔ MoveLands (.file content) calls parent dst := by
  unfold MovesOver MoveLands intRename
  cases opens : (calls []).opened parent dst with
  | none =>
    simp [renameFile, opens]
  | some old =>
    simp only [renameFile_eq opens, map_eq_some_iff, reduceCtorEq, false_implies,
      true_and, some.injEq, forall_eq', CopyLands]
    constructor
    · rintro ⟨fuel, _, ⟨bytes, copied, same⟩, lands⟩
      rw [← same] at lands
      exact ⟨fuel, bytes, copied, FileTree.file.inj lands⟩
    · rintro ⟨fuel, bytes, copied, lands⟩
      exact ⟨fuel, _, ⟨bytes, copied, rfl⟩, congrArg FileTree.file lands⟩

/-- The loop makes a copy of the directory exactly when every entry gets over, and what is
listed nowhere is not there. -/
theorem moveInside_copies_iff {names : List Text}
    (distinct : names.Nodup) (place : s.dst = .dir old)
    (absent : ∀ name ∉ names, child name = .absent) :
    (∃ fuel after, names.foldlM (moveInside fuel child calls) s = some after ∧
        after.dst = .dir child) ↔
      ∀ name, MovesOver (child name) (fun path => calls (name :: path)) true (old name) := by
  constructor
  · rintro ⟨fuel, after, through, target⟩ name
    obtain ⟨new, last, moves, kept⟩ := moveInside_dir names distinct place through
    have same : new = child := FileTree.dir.inj (last.symm.trans target)
    by_cases member : name ∈ names
    · obtain ⟨inner, ended, arrived⟩ := moves name member
      exact ⟨fuel, inner, ended, arrived.symm.trans (congrFun same name)⟩
    · have nothing : old name = .absent := by
        rw [← kept name member, same, absent name member]
      rw [absent name member]
      exact ⟨0, _, rfl, nothing⟩
  · intro each
    obtain ⟨fuel, ends⟩ := exists_fuel names fun name _ => by
      obtain ⟨fuel, moved, ended, _⟩ := each name
      exact ⟨fuel, moved, ended⟩
    obtain ⟨after, through⟩ := moveInside_ends names distinct place ends
    obtain ⟨new, last, moves, kept⟩ := moveInside_dir names distinct place through
    refine ⟨fuel, after, through, ?_⟩
    rw [last]
    congr 1
    funext name
    obtain ⟨_, moved, ended, lands⟩ := each name
    by_cases member : name ∈ names
    · obtain ⟨inner, again, arrived⟩ := moves name member
      rw [arrived, intRename_unique again ended, lands]
    · rw [absent name member] at ended lands ⊢
      cases ended
      rw [kept name member]
      exact lands

theorem movesOver_dir_iff (enters : (calls []).entered = true) :
    MovesOver (.dir child) calls parent dst ↔
      ∃ fuel after, (calls []).listing.foldlM (moveInside fuel child calls)
        ⟨.dir child, (calls []).made parent dst⟩ = some after ∧ after.dst = .dir child := by
  unfold MovesOver
  simp only [intRename_dir, if_pos enters, map_eq_some_iff]
  constructor
  · rintro ⟨fuel, _, ⟨after, through, done⟩, lands⟩
    refine ⟨fuel, after, through, ?_⟩
    rw [← lands, ← done]
    rfl
  · rintro ⟨fuel, after, through, target⟩
    exact ⟨fuel, _, ⟨after, through, rfl⟩, target⟩

/-- A directory that can be entered: the target has to be one, and every entry has to get
over. -/
theorem movesOver_entries_iff {room : Nat} (enters : (calls []).entered = true)
    (listed : Listed room (.dir child) calls) :
    MovesOver (.dir child) calls parent dst ↔ ((calls []).made parent dst).isDir = true ∧
      ∀ name, MovesOver (child name) (fun path => calls (name :: path)) true
        (((calls []).made parent dst).child name) := by
  obtain ⟨distinct, complete, _⟩ := listed
  have absent : ∀ name ∉ (calls []).listing, child name = .absent := fun name outside =>
    not_not.mp (mt (complete name).mpr outside)
  rw [movesOver_dir_iff enters]
  cases isDir : ((calls []).made parent dst).isDir with
  | false =>
    refine iff_of_false ?_ fun both => Bool.noConfusion both.1
    rintro ⟨_, after, through, target⟩
    have same : after.dst = (calls []).made parent dst := moveInside_not_dir _ isDir through
    rw [← same, target] at isDir
    cases isDir
  | true =>
    obtain ⟨_, place⟩ := FileTree.eq_dir_of_isDir isDir
    rw [moveInside_copies_iff distinct place absent, place]
    exact (and_iff_right rfl).symm

/-- The target becomes the source exactly when every part of it gets over. -/
theorem movesOver_iff (src : FileTree) : ∀ {room : Nat} {calls : List Text → MoveCalls}
    (parent : Bool) (dst : FileTree), Listed room src calls →
      (MovesOver src calls parent dst ↔ MoveLands src calls parent dst) := by
  induction src with
  | absent =>
    intro room calls parent dst _
    simp [MovesOver, intRename, MoveLands]
  | file content => exact fun parent dst _ => movesOver_file_iff content _ parent dst
  | dir child ih =>
    intro room calls parent dst listed
    by_cases enters : (calls []).entered = true
    · rw [movesOver_entries_iff enters listed]
      simp only [MoveLands, enters, Bool.true_eq_false, false_implies, true_implies, true_and]
      refine and_congr_right fun _ => forall_congr' fun name => ?_
      exact ih name true _ (listed.2.2.2 name)
    · simp [MovesOver, intRename_dir, enters, MoveLands]

theorem intRename_of_stops (stops : MoveStops (calls []) parent dst src)
    (fuel : Nat) : ∃ target, intRename fuel src calls parent dst = some ⟨-1, src, target⟩ := by
  cases src with
  | absent => exact ⟨dst, rfl⟩
  | file content =>
    refine ⟨dst, ?_⟩
    unfold intRename renameFile
    rw [show (calls []).opened parent dst = none from stops]
  | dir child =>
    refine ⟨(calls []).made parent dst, ?_⟩
    rw [intRename_dir, show (calls []).entered = false from stops]
    rfl

theorem ret_of_not_stops (goes : ¬MoveStops (calls []) parent dst src)
    {moved : Moved} (ended : intRename fuel src calls parent dst = some moved) : moved.ret = 0 := by
  cases src with
  | absent => exact absurd trivial goes
  | file content =>
    cases opens : (calls []).opened parent dst with
    | none => exact absurd opens goes
    | some old =>
      unfold intRename at ended
      rw [renameFile_eq opens] at ended
      obtain ⟨_, _, same⟩ := map_eq_some_iff.mp ended
      rw [← same]
  | dir child =>
    have enters : (calls []).entered = true := Bool.not_eq_false _ ▸ goes
    rw [intRename_dir, if_pos enters] at ended
    obtain ⟨_, _, same⟩ := map_eq_some_iff.mp ended
    rw [← same]
    rfl

theorem copyLoop_fails (source target : ByteFile) (n : Nat) :
    copyLoop (replicate n .fails) source target = none := by
  induction n with
  | zero => rfl
  | succ n ih => exact ih

end Wzdftpd
