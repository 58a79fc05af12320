import Wzdftpd.DirListing
import Wzdftpd.Runs

/- The listing that a directory should have, and when `dir_open` delivers it: the shown files,
the virtual directories right below the directory, and the links that no file stands for, each
once. -/
namespace Wzdftpd

open LexicalPath List Option TextBuffer

/-- The name of a virtual directory right below a directory, for a user who may see it. -/
def virtualName (w : DirWorld) (name : Text) (vfs : VfsEntry) : Option Text :=
  (w.server.vfsReplaceCookies vfs.virtualDir w.user).bind fun path =>
    let tail := path.drop (slashed name).length
    if slashed name <+: path ∧ tail ≠ [] ∧ '/' ∉ tail ∧ w.server.vfsMatchPerm vfs.target w.user then
      some tail
    else none

def virtuals (w : DirWorld) (name : Text) (vfs : List VfsEntry) : List Virtual :=
  vfs.filterMap fun vfs => (virtualName w name vfs).map (⟨vfs, ·⟩)

structure Virtual.Below (w : DirWorld) (name : Text) (virtual : Virtual) : Prop where
  path : w.server.vfsReplaceCookies virtual.vfs.virtualDir w.user =
    some (slashed name ++ virtual.name)
  named : virtual.name ≠ []

/-- The buffer of the second loop after the copy of a path: the path, its end if that has
room, and what was there before. -/
def overlaid (buffer : List Char) (path : Text) : List Char :=
  (path ++ ['\x00']).take maxPath ++ buffer.drop (min (path.length + 1) maxPath)

def overlay (w : DirWorld) (buffer : List Char) (vfs : VfsEntry) : List Char :=
  (w.server.vfsReplaceCookies vfs.virtualDir w.user).elim buffer (overlaid buffer)

/-- A path that starts with the directory, and behind which no separator is read, is the one
of a name right below the directory. The character behind the directory is not looked at, and
for the path of the directory itself the loop reads what an earlier path left there. -/
def NamedRight (w : DirWorld) (name : Text) (buffer : List Char) (vfs : VfsEntry) : Prop :=
  ∀ path, w.server.vfsReplaceCookies vfs.virtualDir w.user = some path →
    w.server.vfsMatchPerm vfs.target w.user = true → name <+: path →
    '/' ∉ text ((overlaid buffer path).drop (slashed name).length) →
    slashed name <+: path ∧ path.drop (slashed name).length ≠ [] ∧
      '/' ∉ path.drop (slashed name).length

/-- The path has its end in the buffer, if only by chance at its last character. -/
def EndsInside (buffer : List Char) (length : Nat) : Prop :=
  length < maxPath ∨ length = maxPath ∧ buffer[maxPath]? = some '\x00'

section Candidate

variable {w : DirWorld} {name tail path : Text} {vfs : VfsEntry} {buffer after : List Char}

theorem virtualName_eq_some :
    virtualName w name vfs = some tail ↔ Virtual.Below w name ⟨vfs, tail⟩ ∧ '/' ∉ tail ∧
        w.server.vfsMatchPerm vfs.target w.user = true := by
  constructor
  · intro found
    obtain ⟨_, replaced, found⟩ := bind_eq_some_iff.mp found
    dsimp only at found
    split at found
    · rename_i below
      cases found
      refine ⟨⟨?_, below.2.1⟩, below.2.2.1, below.2.2.2⟩
      rw [replaced, ← prefix_append_drop below.1]
    · cases found
  · rintro ⟨⟨replaced, named⟩, single, allowed⟩
    rw [virtualName, replaced, bind_some]
    rw [drop_left, if_pos ⟨prefix_append _ _, named, single, allowed⟩]

theorem copyText_overlaid (sized : buffer.length = maxPath + 1) (clean : '\x00' ∉ path) :
    copyText buffer (path ++ ['\x00']) maxPath = some (overlaid buffer path) := by
  have length : ((path ++ ['\x00']).take maxPath).length = min (path.length + 1) maxPath := by
    rw [length_take, length_append, length_singleton, Nat.min_comm]
  rw [copyText, text_append clean, length_append, length_singleton, if_pos (Nat.lt_succ_self _)]
  by_cases short : path.length < maxPath
  · have whole : (path ++ ['\x00']).take maxPath = path ++ ['\x00'] :=
      take_of_length_le (by rw [length_append, length_singleton]; exact short)
    rw [whole] at length
    rw [if_pos short, place, if_pos (by omega), overlaid, whole, length, Nat.zero_add, take_zero,
      nil_append]
  · rw [if_neg short, place, if_pos (by omega), overlaid, length, Nat.zero_add, take_zero,
      nil_append]

theorem overlaid_of_endsInside (fits : EndsInside buffer path.length) :
    ∃ rest, overlaid buffer path = path ++ '\x00' :: rest := by
  rcases fits with short | ⟨whole, ends⟩
  · rw [overlaid, take_of_length_le (by rw [length_append, length_singleton]; exact short),
      append_assoc]
    exact ⟨_, rfl⟩
  · obtain ⟨last, ends⟩ := List.getElem?_eq_some_iff.mp ends
    rw [overlaid, whole, Nat.min_eq_right (Nat.le_succ _), drop_eq_getElem_cons last, ends, ← whole,
      take_left]
    exact ⟨_, rfl⟩

/-- The name of a directory as `dir_open` takes it. -/
structure ShortName (name : Text) : Prop where
  plain : '\x00' ∉ name
  short : name.length < maxPath

theorem prefix_overlaid_iff (named : ShortName name) :
    name <+: overlaid buffer path ↔ name <+: path := by
  constructor
  · intro starts
    rcases prefix_or_prefix_of_prefix starts (prefix_append _ _) with inside | beyond
    · rcases prefix_concat_iff.mp (inside.trans (List.take_prefix _ _)) with rfl | front
      · exact absurd (mem_append_right _ (mem_singleton_self _)) named.plain
      · exact front
    · -- the end of the path would be a character of the directory's name
      have length := Nat.lt_of_le_of_lt beyond.length_le named.short
      rw [length_take] at length
      rw [take_of_length_le (by omega)] at beyond
      exact absurd (beyond.subset (mem_append_right _ (mem_singleton_self _))) named.plain
  · intro starts
    refine IsPrefix.trans ?_ (prefix_append _ _)
    exact prefix_take_iff.mpr ⟨starts.trans (prefix_append _ _), Nat.le_of_lt named.short⟩

/-- One turn of the second loop, by the path and not by the buffer. -/
theorem vfsCandidate_path (sized : buffer.length = maxPath + 1) (named : ShortName name)
    (replaced : w.server.vfsReplaceCookies vfs.virtualDir w.user = some path)
    (clean : '\x00' ∉ path) :
    vfsCandidate w name vfs buffer =
      if name <+: path ∧ w.server.vfsMatchPerm vfs.target w.user then
        if '/' ∈ text ((overlaid buffer path).drop (slashed name).length) then
          some (overlay w buffer vfs, none)
        else (terminated ((overlaid buffer path).drop (slashed name).length)).map fun tail =>
          (overlay w buffer vfs, some tail)
      else some (overlay w buffer vfs, none) := by
  have after : overlay w buffer vfs = overlaid buffer path := by
    rw [overlay, replaced]
    rfl
  rw [vfsCandidate, replaced]
  dsimp only
  rw [copyText_overlaid sized clean, bind_some, after]
  simp only [prefix_overlaid_iff named]

/-- What one turn of the second loop does to its buffer, and what it can read there. -/
theorem vfsCandidate_spec {found : Option Text} (sized : buffer.length = maxPath + 1)
    (turn : vfsCandidate w name vfs buffer = some (after, found)) :
    after.length = maxPath + 1 ∧ after[maxPath]? = buffer[maxPath]? ∧
      ∀ tail ∈ found, w.server.vfsMatchPerm vfs.target w.user = true ∧ '/' ∉ tail ∧
        EndsInside buffer (slashed name ++ tail).length := by
  unfold vfsCandidate at turn
  split at turn
  · cases turn
    exact ⟨sized, rfl, fun _ member => absurd member (not_mem_none _)⟩
  obtain ⟨_, copied, turn⟩ := bind_eq_some_iff.mp turn
  obtain ⟨block, short, placed⟩ := place_of_copyText copied
  have length := (place_length placed).trans sized
  have last := place_getElem? placed (Nat.zero_add block.length ▸ short)
  split at turn
  · rename_i candidate
    dsimp only at turn
    split at turn
    · cases turn
      exact ⟨length, last, fun _ member => absurd member (not_mem_none _)⟩
    rename_i single
    obtain ⟨tail, ends, same⟩ := map_eq_some_iff.mp turn
    cases same
    refine ⟨length, last, fun _ member => ?_⟩
    cases member
    obtain ⟨same, _, shape⟩ := terminated_eq_some ends
    rw [same] at single
    refine ⟨candidate.2, single, ?_⟩
    have size := congrArg List.length shape
    rw [length_drop, length_append, length_cons] at size
    have here : after[(slashed name).length + tail.length]? = some '\x00' := by
      simp [← getElem?_drop, shape]
    rw [length_append]
    rcases Nat.lt_or_ge ((slashed name).length + tail.length) maxPath with less | more
    · exact Or.inl less
    · have whole : (slashed name).length + tail.length = maxPath := by omega
      exact Or.inr ⟨whole, by rw [← last, ← whole, here]⟩
  · cases turn
    exact ⟨length, last, fun _ member => absurd member (not_mem_none _)⟩

/-- A path that starts with the directory is read behind one more character, if the
directory has no separator at its end. -/
theorem vfsCandidate_tail {front : Text} (sized : buffer.length = maxPath + 1)
    (named : ShortName name)
    (replaced : w.server.vfsReplaceCookies vfs.virtualDir w.user = some (front ++ tail))
    (clean : '\x00' ∉ front ++ tail) (allowed : w.server.vfsMatchPerm vfs.target w.user = true)
    (starts : name <+: front) (length : front.length = (slashed name).length)
    (single : '/' ∉ tail) (fits : EndsInside buffer (front ++ tail).length) :
    vfsCandidate w name vfs buffer = some (overlay w buffer vfs, some tail) := by
  obtain ⟨rest, whole⟩ := overlaid_of_endsInside fits
  have behind : (overlaid buffer (front ++ tail)).drop (slashed name).length =
      tail ++ '\x00' :: rest := by
    rw [whole, append_assoc, ← length, drop_left]
  have clean' : '\x00' ∉ tail := fun null => clean (mem_append_right _ null)
  rw [vfsCandidate_path sized named replaced clean,
    if_pos ⟨starts.trans (prefix_append _ _), allowed⟩, behind, text_append clean', if_neg single,
    terminated_append clean']
  rfl

/-- A virtual directory right below the directory is found, if its path fits. -/
theorem vfsCandidate_below (sized : buffer.length = maxPath + 1) (named : ShortName name)
    (clean : '\x00' ∉ slashed name ++ tail) (found : virtualName w name vfs = some tail)
    (fits : EndsInside buffer (slashed name ++ tail).length) :
    vfsCandidate w name vfs buffer = some (overlay w buffer vfs, some tail) := by
  obtain ⟨below, single, allowed⟩ := virtualName_eq_some.mp found
  exact vfsCandidate_tail sized named below.path clean allowed (prefix_slashed name) rfl single fits

/-- One turn lists a virtual directory if that is right below the directory, and nothing
else. -/
theorem vfsCandidate_named (sized : buffer.length = maxPath + 1) (named : ShortName name)
    (clean : ∀ path, w.server.vfsReplaceCookies vfs.virtualDir w.user = some path → '\x00' ∉ path)
    (fits : ∀ tail, virtualName w name vfs = some tail →
      EndsInside buffer (slashed name ++ tail).length)
    (right : NamedRight w name buffer vfs) :
    vfsCandidate w name vfs buffer = some (overlay w buffer vfs, virtualName w name vfs) := by
  cases found : virtualName w name vfs with
  | some tail =>
    have path := clean _ (virtualName_eq_some.mp found).1.path
    exact vfsCandidate_below sized named path found (fits tail found)
  | none =>
    cases replaced : w.server.vfsReplaceCookies vfs.virtualDir w.user with
    | none =>
      rw [vfsCandidate, overlay, replaced]
      rfl
    | some path =>
      rw [vfsCandidate_path sized named replaced (clean path replaced)]
      split
      · rename_i candidate
        split
        · rfl
        · rename_i single
          obtain ⟨starts, more, last⟩ := right path replaced candidate.2 candidate.1 single
          rw [virtualName, replaced, bind_some,
            if_pos ⟨starts, more, last, candidate.2⟩] at found
          cases found
      · rfl

/-- A turn that lists nothing but what is right below the directory. -/
theorem namedRight_of_vfsCandidate {found : Option Text} (sized : buffer.length = maxPath + 1)
    (named : ShortName name)
    (clean : ∀ path, w.server.vfsReplaceCookies vfs.virtualDir w.user = some path → '\x00' ∉ path)
    (turn : vfsCandidate w name vfs buffer = some (after, found))
    (below : ∀ tail ∈ found, Virtual.Below w name ⟨vfs, tail⟩) :
    NamedRight w name buffer vfs ∧ after = overlay w buffer vfs := by
  cases replaced : w.server.vfsReplaceCookies vfs.virtualDir w.user with
  | none =>
    rw [vfsCandidate, replaced] at turn
    cases turn
    rw [overlay, replaced]
    refine ⟨fun path some' => ?_, rfl⟩
    rw [replaced] at some'
    cases some'
  | some path =>
    have read := (vfsCandidate_spec sized turn).2.2
    rw [vfsCandidate_path sized named replaced (clean path replaced)] at turn
    refine ⟨fun path' replaced' allowed starts single => ?_, ?_⟩
    · rw [replaced] at replaced'
      cases replaced'
      rw [if_pos ⟨starts, allowed⟩, if_neg single] at turn
      obtain ⟨tail, _, same⟩ := map_eq_some_iff.mp turn
      cases same
      have here := below tail rfl
      have whole := here.path
      rw [replaced] at whole
      cases whole
      rw [drop_left]
      exact ⟨prefix_append _ _, here.named, (read tail rfl).2.1⟩
    · split at turn
      · split at turn
        · cases turn
          rfl
        · obtain ⟨_, _, same⟩ := map_eq_some_iff.mp turn
          cases same
          rfl
      · cases turn
        rfl

end Candidate

def CleanPaths (w : DirWorld) (vfs : List VfsEntry) : Prop :=
  ∀ entry ∈ vfs, ∀ path, w.server.vfsReplaceCookies entry.virtualDir w.user = some path →
    '\x00' ∉ path

section Listed

variable {w : DirWorld} {name : Text} {vfs : List VfsEntry} {buffer : List Char}
  {listed : List Virtual}

theorem virtuals_cons (vfs : VfsEntry) (rest : List VfsEntry) :
    virtuals w name (vfs :: rest) =
      (virtualName w name vfs).toList.map (⟨vfs, ·⟩) ++ virtuals w name rest := by
  rw [virtuals, filterMap_cons]
  cases virtualName w name vfs <;> rfl

theorem mem_virtuals {virtual : Virtual} (member : virtual ∈ virtuals w name vfs) :
    virtual.Below w name := by
  obtain ⟨_, _, found⟩ := mem_filterMap.mp member
  obtain ⟨_, named, rfl⟩ := map_eq_some_iff.mp found
  exact (virtualName_eq_some.mp named).1

theorem fits_of_listed (sized : buffer.length = maxPath + 1)
    (done : vfsListed w name vfs buffer = some listed) :
    ∀ virtual ∈ listed, EndsInside buffer (slashed name ++ virtual.name).length := by
  induction vfs generalizing buffer listed with
  | nil =>
    cases done
    exact fun _ member => absurd member not_mem_nil
  | cons vfs rest ih =>
    obtain ⟨_, turn, done⟩ := bind_eq_some_iff.mp done
    obtain ⟨_, passed, rfl⟩ := map_eq_some_iff.mp done
    obtain ⟨length, last, read⟩ := vfsCandidate_spec sized turn
    intro virtual member
    rcases mem_append.mp member with first | later
    · obtain ⟨tail, found', rfl⟩ := mem_map.mp first
      exact (read tail (mem_toList.mp found')).2.2
    · have fits := ih length passed virtual later
      rw [EndsInside, last] at fits
      exact fits

/-- The second loop lists the virtual directories right below the directory, if their
paths fit. -/
theorem virtuals_sublist (sized : buffer.length = maxPath + 1) (clean : CleanPaths w vfs)
    (fits : ∀ virtual ∈ virtuals w name vfs,
      EndsInside buffer (slashed name ++ virtual.name).length)
    (named : ShortName name)
    (done : vfsListed w name vfs buffer = some listed) : (virtuals w name vfs).Sublist listed := by
  induction vfs generalizing buffer listed with
  | nil =>
    cases done
    exact Sublist.refl _
  | cons vfs rest ih =>
    obtain ⟨_, turn, done⟩ := bind_eq_some_iff.mp done
    obtain ⟨more, passed, rfl⟩ := map_eq_some_iff.mp done
    obtain ⟨length, last, _⟩ := vfsCandidate_spec sized turn
    rw [virtuals_cons, forall_mem_append] at fits
    have later : (virtuals w name rest).Sublist more := by
      refine ih length (forall_mem_cons.mp clean).2 ?_ passed
      intro virtual member
      rw [EndsInside, last]
      exact fits.2 virtual member
    rw [virtuals_cons]
    refine Sublist.append ?_ later
    cases found : virtualName w name vfs with
    | none => exact nil_sublist _
    | some tail =>
      have below := (virtualName_eq_some.mp found).1
      have room := fits.1 ⟨vfs, tail⟩ (by rw [found]; exact mem_singleton_self _)
      have same := vfsCandidate_below sized named (clean vfs mem_cons_self _ below.path) found room
      rw [turn] at same
      cases same
      exact Sublist.refl _

/-- If all that the second loop lists is right below the directory, it has read every path
right. -/
theorem namedRight_of_listed (sized : buffer.length = maxPath + 1) (clean : CleanPaths w vfs)
    (named : ShortName name)
    (below : ∀ virtual ∈ listed, virtual.Below w name)
    (done : vfsListed w name vfs buffer = some listed) :
    Runs.Always (overlay w) (NamedRight w name) buffer vfs := by
  induction vfs generalizing buffer listed with
  | nil => trivial
  | cons vfs rest ih =>
    obtain ⟨⟨after, found⟩, turn, done⟩ := bind_eq_some_iff.mp done
    obtain ⟨_, passed, rfl⟩ := map_eq_some_iff.mp done
    rw [forall_mem_append] at below
    obtain ⟨right, rfl⟩ := namedRight_of_vfsCandidate sized named (clean vfs mem_cons_self)
      turn fun tail listed =>
        below.1 ⟨vfs, tail⟩ (mem_map_of_mem (mem_toList.mpr listed))
    have length := (vfsCandidate_spec sized turn).1
    exact ⟨right, ih length (forall_mem_cons.mp clean).2 below.2 passed⟩

theorem listed_of_namedRight (sized : buffer.length = maxPath + 1) (clean : CleanPaths w vfs)
    (named : ShortName name)
    (fits : ∀ virtual ∈ virtuals w name vfs,
      EndsInside buffer (slashed name ++ virtual.name).length)
    (right : Runs.Always (overlay w) (NamedRight w name) buffer vfs) :
    vfsListed w name vfs buffer = some (virtuals w name vfs) := by
  induction vfs generalizing buffer with
  | nil => rfl
  | cons vfs rest ih =>
    rw [virtuals_cons, forall_mem_append] at fits
    have turn := vfsCandidate_named sized named (clean vfs mem_cons_self) (fun tail found =>
      fits.1 ⟨vfs, tail⟩ (by rw [found]; exact mem_singleton_self _)) right.1
    obtain ⟨length, last, _⟩ := vfsCandidate_spec sized turn
    have later := ih length (forall_mem_cons.mp clean).2 (fun virtual member => by
      rw [EndsInside, last]
      exact fits.2 virtual member) right.2
    rw [vfsListed, turn, bind_some, later, virtuals_cons]
    rfl

end Listed

/-- A file that is not listed can be looked at: path and name have room, and a directory does
not lead to itself. -/
structure Found (w : DirWorld) (base name : Text) : Prop where
  path : base.length + name.length < maxPath
  short : name.length < 256
  stat : ∃ s, w.lstat (base ++ name) = some s ∧
    (s.kind = .dir → ∃ depth, fileStat w depth (base ++ name) ≠ none)

section Unlisted

variable {w : DirWorld} {base name : Text} {depth : Nat} {entry : PermEntry}

theorem unlistedEntry_found (room : base.length < maxPath)
    (done : unlistedEntry w depth base name = some (some entry)) :
    Found w base name ∧ entry.filename = name ∧ entry.kind ≠ .vfs := by
  obtain ⟨_, built, done⟩ := bind_eq_some_iff.mp done
  rw [entryPath, if_neg (Nat.ne_of_lt room)] at built
  split at built
  · rename_i fits
    cases built
    split at done
    · cases done
    rename_i s stat
    split at done
    · obtain ⟨found, returned, done⟩ := bind_eq_some_iff.mp done
      obtain ⟨stored, short, same⟩ := map_eq_some_iff.mp done
      cases same
      obtain ⟨rfl, short⟩ := field_eq_some short
      refine ⟨⟨fits, short, s, stat, fun _ => ⟨depth, ?_⟩⟩, rfl, ?_⟩
      · rw [returned]
        exact some_ne_none _
      · cases found with
        | none => exact EntryKind.noConfusion
        | some entry =>
          have kind := fileStat_kind returned
          exact kind
    · rename_i other
      obtain ⟨stored, short, same⟩ := map_eq_some_iff.mp done
      cases same
      obtain ⟨rfl, short⟩ := field_eq_some short
      exact ⟨⟨fits, short, s, stat, fun dir => absurd dir other⟩, rfl, EntryKind.noConfusion⟩
  · cases built

theorem Found.unlistedEntry (found : Found w base name) :
    ∃ enough, ∀ depth ≥ enough, ∃ entry, Wzdftpd.unlistedEntry w depth base name =
      some (some entry) := by
  obtain ⟨s, stat, returns⟩ := found.stat
  have path : entryPath base name = some (base ++ name) := by
    rw [entryPath, if_neg (by have := found.path; omega), if_pos found.path]
  have stored : field name = some name := if_pos found.short
  by_cases dir : s.kind = .dir
  · obtain ⟨enough, returned⟩ := returns dir
    obtain ⟨_, returned⟩ := ne_none_iff_exists'.mp returned
    refine ⟨enough, fun depth deep => ?_⟩
    rw [Wzdftpd.unlistedEntry, path, bind_some, stat]
    dsimp only
    rw [if_pos dir, fileStat_mono returned deep, stored]
    exact ⟨_, rfl⟩
  · refine ⟨0, fun depth _ => ?_⟩
    rw [Wzdftpd.unlistedEntry, path, bind_some, stat]
    dsimp only
    rw [if_neg dir, stored]
    exact ⟨_, rfl⟩

end Unlisted

inductive Item where
  | physical (name : Text)
  | virtual (virtual : Virtual)
  | link (file : PermEntry)

/-- An entry of a listing stands for an item. -/
def Shows (perm : List PermEntry) (entry : PermEntry) : Item → Prop
  | .physical name => entry.filename = name ∧ entry.kind ≠ .vfs ∧
      ∀ file, findFile name perm = some file → entry.owner = file.owner ∧
        entry.group = file.group ∧ entry.permissions = file.permissions ∧ entry.acl = file.acl
  | .virtual virtual => entry.filename = virtual.name ∧ entry.kind = .vfs ∧
      entry.data = virtual.vfs.physicalDir
  | .link file => entry = file

/-- The items of a directory that holds `names`. -/
def items (w : DirWorld) (name : Text) (names : List Text) (perm : List PermEntry) : List Item :=
  (visibleNames w names).map .physical ++ (virtuals w name w.server.vfs).map .virtual ++
    (perm.filter fun file => file.kind = .lnk ∧ ∀ other ∈ names, other ≠ file.filename).map .link

/-- Each item has one entry, and each entry is for one item. -/
def Exact (w : DirWorld) (name : Text) (names : List Text) (perm entries : List PermEntry) : Prop :=
  ∃ order, order.Perm entries ∧ Forall₂ (Shows perm) order (items w name names perm)

theorem dirRead_length {dir rest : List PermEntry} {entry : PermEntry}
    (read : dirRead dir = some (entry, rest)) : rest.length < dir.length := by
  cases dir with
  | nil => cases read
  | cons first more =>
    cases read
    exact Nat.lt_succ_self _

/-- What `dir_read` gives until it gives a null pointer. -/
def readAll (dir : List PermEntry) : List PermEntry :=
  match _read : dirRead dir with
  | none => []
  | some (entry, rest) => entry :: readAll rest
termination_by dir.length
decreasing_by exact dirRead_length _read

theorem readAll_eq (dir : List PermEntry) : readAll dir = dir := by
  induction dir with
  | nil =>
    rw [readAll]
    rfl
  | cons entry rest ih =>
    rw [readAll]
    change entry :: readAll rest = entry :: rest
    rw [ih]

/-- When the listing of a directory is exact. -/
structure Listable (w : DirWorld) (name : Text) (names : List Text) (buffer : List Char)
    (perm : List PermEntry) : Prop where
  turns : names.length + w.server.vfs.length + linkTurns 0 (leftOver w names perm) ≤
    maxDirectoryEntries + 1
  found : ∀ file ∈ visibleNames w names, findFile file perm = none →
    Found w (entryBase name) file
  links : ∀ file ∈ perm, file.kind = .lnk → file.filename ∈ names →
    file.filename ∈ visibleNames w names
  below : Runs.Always (overlay w) (NamedRight w name) buffer w.server.vfs
  fits : ∀ virtual ∈ virtuals w name w.server.vfs,
    EndsInside buffer (slashed name ++ virtual.name).length ∧ virtual.name.length < 256 ∧
      ∃ depth, fileStat w depth virtual.vfs.physicalDir ≠ none

/-- The name of an entry, and whether it is a virtual directory. -/
def PermEntry.key (entry : PermEntry) : Text × Bool := (entry.filename, entry.kind = .vfs)

def Item.key : Item → Text × Bool
  | .physical name => (name, false)
  | .virtual directory => (directory.name, true)
  | .link file => file.key

theorem Shows.key {perm : List PermEntry} {entry : PermEntry} {item : Item}
    (shown : Shows perm entry item) : entry.key = item.key := by
  cases item with
  | physical name => exact Prod.ext shown.1 (decide_eq_false shown.2.1)
  | virtual virtual => exact Prod.ext shown.1 (decide_eq_true shown.2.1)
  | link file => exact congrArg PermEntry.key shown

section Exact

variable {w : DirWorld} {depth : Nat} {name : Text} {names : List Text} {buffer : List Char}
  {perm entries : List PermEntry} {listed : List Virtual}

theorem Exact.keys (exact' : Exact w name names perm entries) :
    (entries.map PermEntry.key).Perm ((items w name names perm).map Item.key) := by
  obtain ⟨order, same, shown⟩ := exact'
  have keys : order.map PermEntry.key = (items w name names perm).map Item.key := by
    rw [← forall₂_eq_eq_eq, forall₂_map_left_iff, forall₂_map_right_iff]
    exact shown.imp fun _ _ => Shows.key
  rw [← keys]
  exact (same.map _).symm

def shownEntries (w : DirWorld) (depth : Nat) (name : Text) (names : List Text)
    (perm : List PermEntry) : List PermEntry :=
  (visibleNames w names).filterMap fun file =>
    (entryFor w depth (entryBase name) perm file).join

theorem entryFor_cases {base file : Text} {entry : PermEntry} (decoded : Decoded perm)
    (room : base.length < maxPath)
    (found : entryFor w depth base perm file = some (some entry)) :
    entry.filename = file ∧ entry.kind ≠ .vfs ∧ (findFile file perm = none → Found w base file) ∧
      ∀ other, findFile file perm = some other → entry = other := by
  unfold entryFor at found
  split at found
  · rename_i listed
    cases found
    refine ⟨NamedList.key_of_lookup listed, ?_, ?_, ?_⟩
    · rcases decoded.kinds entry (NamedList.mem_of_lookup listed) with kind | kind <;> rw [kind] <;>
        exact EntryKind.noConfusion
    · intro absent
      rw [listed] at absent
      cases absent
    · intro other listed'
      rw [listed] at listed'
      exact Option.some.inj listed'
  · rename_i absent
    obtain ⟨stat, named, kind⟩ := unlistedEntry_found room found
    refine ⟨named, kind, fun _ => stat, fun other listed => ?_⟩
    rw [absent] at listed
    cases listed

theorem mem_shownEntries {entry : PermEntry} (decoded : Decoded perm)
    (room : (entryBase name).length < maxPath)
    (member : entry ∈ shownEntries w depth name names perm) :
    entry.filename ∈ visibleNames w names ∧ entry.kind ≠ .vfs ∧
      (findFile entry.filename perm = none → Found w (entryBase name) entry.filename) := by
  obtain ⟨_, visible, joined⟩ := mem_filterMap.mp member
  obtain ⟨rfl, kind, stat, _⟩ := entryFor_cases decoded room (join_eq_some_iff.mp joined)
  exact ⟨visible, kind, stat⟩

theorem mem_links {entry : PermEntry}
    (member : entry ∈ (leftOver w names perm).filter fun entry => entry.kind = .lnk) :
    entry.filename ∉ visibleNames w names ∧ entry.kind = .lnk := by
  obtain ⟨left, link⟩ := mem_filter.mp member
  exact ⟨of_decide_eq_true (mem_filter.mp left).2, of_decide_eq_true link⟩

/-- The second loop lists as many virtual directories as there are, if the names agree. -/
theorem length_of_keys (decoded : Decoded perm) (room : (entryBase name).length < maxPath)
    (keys : ((shownEntries w depth name names perm ++ listed.map (Virtual.entry w depth) ++
      (leftOver w names perm).filter fun entry => entry.kind = .lnk).map PermEntry.key).Perm
        ((items w name names perm).map Item.key)) :
    (virtuals w name w.server.vfs).length = listed.length := by
  have count := keys.countP_eq Prod.snd
  have plain : ∀ files : List PermEntry, (∀ file ∈ files, file.kind ≠ .vfs) →
      files.countP (Prod.snd ∘ PermEntry.key) = 0 := by
    intro files other
    rw [countP_eq_zero]
    exact fun file member => Bool.eq_false_iff.mp (decide_eq_false (other file member))
  have link : ∀ {file : PermEntry}, file.kind = .lnk → file.kind ≠ .vfs := by
    intro file same
    rw [same]
    exact EntryKind.noConfusion
  simp only [items, countP_append, countP_map] at count
  rw [plain _ fun _ member => (mem_shownEntries decoded room member).2.1,
    plain _ fun _ member => link (mem_links member).2] at count
  change 0 + listed.countP (fun _ => true) + 0 = (visibleNames w names).countP (fun _ => false) +
    (virtuals w name w.server.vfs).countP (fun _ => true) +
      countP (Prod.snd ∘ PermEntry.key) _ at count
  rw [plain _ fun _ member => link (of_decide_eq_true (mem_filter.mp member).2).1, countP_true,
    countP_false, Function.const_apply] at count
  omega

theorem listable_of_exact (decoded : Decoded perm) (short : (entryBase name).length < maxPath)
    (named : ShortName name) (sized : buffer.length = maxPath + 1)
    (clean : CleanPaths w w.server.vfs)
    (turns : names.length + w.server.vfs.length + linkTurns 0 (leftOver w names perm) ≤
      maxDirectoryEntries + 1)
    (done : vfsListed w name w.server.vfs buffer = some listed)
    (entered : ∀ virtual ∈ listed, virtual.Entered w depth)
    (exact' : Exact w name names perm (shownEntries w depth name names perm ++
      listed.map (Virtual.entry w depth) ++
      (leftOver w names perm).filter fun entry => entry.kind = .lnk)) :
    Listable w name names buffer perm := by
  have keys := exact'.keys
  have shows : ∀ item ∈ items w name names perm, ∃ entry ∈ _, PermEntry.key entry = item.key :=
    fun item member => mem_map.mp (keys.mem_iff.mpr (mem_map_of_mem member))
  have fits : ∀ virtual ∈ virtuals w name w.server.vfs,
      EndsInside buffer (slashed name ++ virtual.name).length := by
    intro virtual member
    obtain ⟨entry, listed', key⟩ := shows (.virtual virtual)
      (mem_append_left _ (mem_append_right _ (mem_map_of_mem member)))
    obtain ⟨same, kind⟩ := Prod.mk.inj key
    have kind := of_decide_eq_true kind
    rw [mem_append, mem_append] at listed'
    rcases listed' with (shown | virtual') | link
    · exact absurd kind (mem_shownEntries decoded short shown).2.1
    · obtain ⟨other, member', rfl⟩ := mem_map.mp virtual'
      have room := fits_of_listed sized done other member'
      rw [← same]
      exact room
    · rw [(mem_links link).2] at kind
      cases kind
  have same := (virtuals_sublist sized clean fits named done).eq_of_length
    (length_of_keys decoded short keys)
  refine ⟨turns, ?_, ?_, namedRight_of_listed sized clean named ?_ done, ?_⟩
  · intro file visible absent
    obtain ⟨entry, member, key⟩ := shows (.physical file)
      (mem_append_left _ (mem_append_left _ (mem_map_of_mem visible)))
    obtain ⟨rfl, kind⟩ := Prod.mk.inj key
    rw [mem_append, mem_append] at member
    rcases member with (shown | virtual) | link
    · exact (mem_shownEntries decoded short shown).2.2 absent
    · obtain ⟨_, _, rfl⟩ := mem_map.mp virtual
      exact absurd rfl (of_decide_eq_false kind)
    · exact absurd visible (mem_links link).1
  · intro file member link present
    by_contra hidden
    have left : file ∈ (leftOver w names perm).filter fun entry => entry.kind = .lnk :=
      mem_filter.mpr ⟨mem_filter.mpr ⟨member, decide_eq_true hidden⟩, decide_eq_true link⟩
    have entry := mem_map_of_mem (f := PermEntry.key) (mem_append_right
      (shownEntries w depth name names perm ++ listed.map (Virtual.entry w depth)) left)
    obtain ⟨item, member', key⟩ := mem_map.mp (keys.mem_iff.mp entry)
    rw [items, mem_append, mem_append] at member'
    rcases member' with (physical | virtual) | link'
    · obtain ⟨other, visible, rfl⟩ := mem_map.mp physical
      exact hidden ((Prod.mk.inj key).1 ▸ visible)
    · obtain ⟨other, _, rfl⟩ := mem_map.mp virtual
      have kind := of_decide_eq_true (Prod.mk.inj key).2.symm
      rw [link] at kind
      cases kind
    · obtain ⟨other, missing, rfl⟩ := mem_map.mp link'
      have absent := (of_decide_eq_true (mem_filter.mp missing).2).2
      exact absent _ ((Prod.mk.inj key).1 ▸ present) rfl
  · rw [← same]
    exact fun virtual member => mem_virtuals member
  · intro virtual member
    have here := entered virtual (same ▸ member)
    exact ⟨fits virtual member, here.short, depth, here.stat⟩

theorem forall₂_filterMap_left {α β : Type} {R : β → α → Prop} {f : α → Option β} (l : List α)
    (each : ∀ a ∈ l, ∃ b, f a = some b ∧ R b a) : Forall₂ R (l.filterMap f) l := by
  induction l with
  | nil => exact Forall₂.nil
  | cons a l ih =>
    rw [forall_mem_cons] at each
    obtain ⟨b, found, related⟩ := each.1
    rw [filterMap_cons_some found]
    exact Forall₂.cons related (ih each.2)

theorem exact_of_listable (decoded : Decoded perm) (short : (entryBase name).length < maxPath)
    (named : ShortName name) (sized : buffer.length = maxPath + 1)
    (clean : CleanPaths w w.server.vfs)
    (listable : Listable w name names buffer perm) :
    ∃ depth, vfsListed w name w.server.vfs buffer = some (virtuals w name w.server.vfs) ∧
      (∀ file ∈ visibleNames w names, entryFor w depth (entryBase name) perm file ≠ none) ∧
      (∀ virtual ∈ virtuals w name w.server.vfs, virtual.Entered w depth) ∧
      Exact w name names perm (shownEntries w depth name names perm ++
        (virtuals w name w.server.vfs).map (Virtual.entry w depth) ++
        (leftOver w names perm).filter fun entry => entry.kind = .lnk) := by
  have done := listed_of_namedRight sized clean named
    (fun virtual member => (listable.fits virtual member).1) listable.below
  obtain ⟨one, files⟩ := Runs.enough_for_all (visibleNames w names)
    (P := fun depth file => ∃ entry, entryFor w depth (entryBase name) perm file =
      some (some entry)) (by
    intro file visible
    cases listed : findFile file perm with
    | some entry => exact ⟨0, fun depth _ => ⟨entry, by rw [entryFor, listed]⟩⟩
    | none =>
      obtain ⟨enough, returns⟩ := (listable.found file visible listed).unlistedEntry
      refine ⟨enough, fun depth deep => ?_⟩
      rw [entryFor, listed]
      exact returns depth deep)
  obtain ⟨other, stats⟩ := Runs.enough_for_all (virtuals w name w.server.vfs)
    (P := fun depth virtual => fileStat w depth virtual.vfs.physicalDir ≠ none) (by
    intro virtual member
    obtain ⟨enough, returned⟩ := (listable.fits virtual member).2.2
    obtain ⟨found, returned⟩ := ne_none_iff_exists'.mp returned
    refine ⟨enough, fun depth deep => ?_⟩
    rw [fileStat_mono returned deep]
    exact some_ne_none _)
  have files := files (max one other) (Nat.le_max_left _ _)
  have stats := stats (max one other) (Nat.le_max_right _ _)
  refine ⟨max one other, done, ?_, ?_, _, Perm.refl _, ?_⟩
  · intro file visible
    obtain ⟨entry, found⟩ := files file visible
    rw [found]
    exact some_ne_none _
  · exact fun virtual member => ⟨stats virtual member, (listable.fits virtual member).2.1⟩
  · have links : (leftOver w names perm).filter (fun entry => entry.kind = .lnk) =
        perm.filter fun file => file.kind = .lnk ∧ ∀ other ∈ names, other ≠ file.filename := by
      rw [leftOver, List.filter_filter]
      refine filter_congr fun file member => ?_
      rw [← Bool.decide_and, decide_eq_decide]
      refine and_congr_right fun link => ⟨?_, fun absent visible => ?_⟩
      · rintro hidden _ present rfl
        exact hidden (listable.links file member link present)
      · exact absent _ (mem_filter.mp visible).1 rfl
    rw [links]
    refine rel_append (rel_append ?_ ?_) ?_
    · rw [forall₂_map_right_iff]
      refine forall₂_filterMap_left _ fun file visible => ?_
      obtain ⟨entry, found⟩ := files file visible
      obtain ⟨named, kind, _, listed⟩ := entryFor_cases decoded short found
      refine ⟨entry, by rw [found]; rfl, named, kind, fun other found' => ?_⟩
      rw [listed other found']
      exact ⟨rfl, rfl, rfl, rfl⟩
    · rw [forall₂_map_left_iff, forall₂_map_right_iff, forall₂_same]
      exact fun virtual _ => ⟨rfl, rfl, rfl⟩
    · rw [forall₂_map_right_iff, forall₂_same]
      exact fun file _ => rfl

end Exact

/-- `dir_open` and `dir_read` deliver the listing of a directory, each item once, exactly if
the loops have turns enough for it, each file can be looked at, no link has the name of a
file that is passed over, and no path of a virtual directory starts with the directory
without being right below it, unless a separator is read further behind. -/
theorem dirOpen_exact_iff {w : DirWorld} {name : Text} {names : List Text} {buffer : List Char}
    (plain : '\x00' ∉ name) (short : name.length + 1 < maxPath) (distinct : names.Nodup)
    (sized : buffer.length = maxPath + 1)
    (clean : ∀ entry ∈ w.server.vfs, ∀ path,
      w.server.vfsReplaceCookies entry.virtualDir w.user = some path → '\x00' ∉ path) :
    (∃ perm depth entries, listedFiles w name = some perm ∧
      dirOpen w depth name names buffer = some (some entries) ∧
      Exact w name names perm (readAll entries)) ↔
    ∃ perm, listedFiles w name = some perm ∧ Listable w name names buffer perm := by
  have base : (entryBase name).length < maxPath := by
    unfold entryBase
    split
    · rw [length_append]
      exact short
    · omega
  constructor
  · rintro ⟨perm, depth, entries, read, opened, exact'⟩
    obtain ⟨_, _, read', done, turns, _, entered, rfl⟩ :=
      (dirOpen_eq distinct (by omega)).mp opened
    rw [read] at read'
    cases read'
    rw [readAll_eq] at exact'
    exact ⟨perm, read, listable_of_exact (decoded_of_listedFiles read) base ⟨plain, by omega⟩ sized
      clean turns done entered exact'⟩
  · rintro ⟨perm, read, listable⟩
    obtain ⟨depth, done, each, entered, exact'⟩ :=
      exact_of_listable (decoded_of_listedFiles read) base ⟨plain, by omega⟩ sized clean listable
    rw [← readAll_eq (_ ++ _ ++ _)] at exact'
    exact ⟨perm, depth, _, read, (dirOpen_eq distinct (by omega)).mpr
      ⟨perm, _, read, done, listable.turns, each, entered, rfl⟩, exact'⟩

def oneVirtual (path : Text) : DirWorld where
  umask := 420
  server := { Server.single srvUser with vfs := [⟨path, "/data".toList, none⟩] }
  user := srvUser
  disk := emptyDisk
  lstat path := if path = "/srv/ftp/a".toList then some { kind := .reg } else none

def zeroBuffer : List Char := replicate (maxPath + 1) '\x00'

theorem oneVirtual_stat {path : Text} (apart : path ≠ "/data".toList) :
    fileStat (oneVirtual path) 1 "/data".toList = some none := by
  have nothing : virtualAt (oneVirtual path) "/data".toList = none := by
    have other : ¬some path = some "/data".toList := fun same => apart (Option.some.inj same)
    change Option.map VfsEntry.physicalDir (find? _ [_]) = none
    rw [find?_singleton, if_neg]
    · rfl
    · rw [decide_eq_true_eq]
      exact other
  rw [fileStat, nothing]
  rfl

theorem dirOpen_exact_iff_virtual :
    ∃ perm depth entries, listedFiles (oneVirtual "/srv/ftp/v".toList) "/srv/ftp".toList =
        some perm ∧
      dirOpen (oneVirtual "/srv/ftp/v".toList) depth "/srv/ftp".toList [['.'], ['a']] zeroBuffer =
        some (some entries) ∧
      Exact (oneVirtual "/srv/ftp/v".toList) "/srv/ftp".toList [['.'], ['a']] perm
        (readAll entries) := by
  refine (dirOpen_exact_iff (by decide) (by decide) (by decide) length_replicate ?_).mpr
    ⟨[], rfl, ?_⟩
  · intro entry member path replaced
    cases mem_singleton.mp member
    cases replaced
    decide
  · refine ⟨by decide, ?_, ?_, ⟨?_, trivial⟩, ?_⟩
    · intro file visible _
      cases mem_singleton.mp (show file ∈ [['a']] from visible)
      exact ⟨by decide, by decide, ⟨.reg, 0⟩, rfl, FileKind.noConfusion⟩
    · exact fun _ member => absurd member not_mem_nil
    · intro path replaced _ _ _
      cases replaced
      exact ⟨by decide, by decide, by decide⟩
    · intro virtual member
      cases mem_singleton.mp (show virtual ∈ [_] from member)
      refine ⟨Or.inl (by decide), by decide, 1, ?_⟩
      have stat : fileStat (oneVirtual "/srv/ftp/v".toList) 1 "/data".toList = some none :=
        oneVirtual_stat (by decide)
      exact stat ▸ some_ne_none none

/-- The end of the path of a virtual directory beside a directory is listed in the
directory. -/
theorem dirOpen_lists_stranger :
    ∃ entries, dirOpen (oneVirtual "/srv/ftp2new".toList) 1 "/srv/ftp".toList [] zeroBuffer =
        some (some entries) ∧
      listedFiles (oneVirtual "/srv/ftp2new".toList) "/srv/ftp".toList = some [] ∧
      (readAll entries).map PermEntry.filename = ["new".toList] ∧
      items (oneVirtual "/srv/ftp2new".toList) "/srv/ftp".toList [] [] = [] ∧
      ¬Exact (oneVirtual "/srv/ftp2new".toList) "/srv/ftp".toList [] [] (readAll entries) := by
  have listed : vfsListed (oneVirtual "/srv/ftp2new".toList) "/srv/ftp".toList
      [⟨"/srv/ftp2new".toList, "/data".toList, none⟩] zeroBuffer =
        some [⟨⟨"/srv/ftp2new".toList, "/data".toList, none⟩, "new".toList⟩] := by
    have turn := @vfsCandidate_tail (oneVirtual "/srv/ftp2new".toList) "/srv/ftp".toList
      "new".toList ⟨"/srv/ftp2new".toList, "/data".toList, none⟩ zeroBuffer "/srv/ftp2".toList
      length_replicate ⟨by decide, by decide⟩ rfl (by decide) rfl (by decide) rfl (by decide)
      (Or.inl (by decide))
    rw [vfsListed, turn]
    rfl
  have stat : fileStat (oneVirtual "/srv/ftp2new".toList) 1 "/data".toList = some none :=
    oneVirtual_stat (by decide)
  refine ⟨_, (dirOpen_eq nodup_nil (by decide)).mpr ⟨[], _, rfl, listed, by decide, ?_, ?_,
    rfl⟩, rfl, ?_, rfl, ?_⟩
  · exact fun _ member => absurd member not_mem_nil
  · intro virtual member
    cases mem_singleton.mp member
    exact ⟨stat ▸ some_ne_none none, by decide⟩
  · rw [readAll_eq]
    rfl
  · intro exact'
    have keys := exact'.keys.length_eq
    rw [readAll_eq] at keys
    exact absurd keys (by decide)

end Wzdftpd
