import Wzdftpd.DirOpen

/- Which entries `dir_open` delivers. -/
namespace Wzdftpd

open LexicalPath TextBuffer List Option

/-- What `readPermFile` makes of a file: one entry per name, of no kind but a link. -/
structure Decoded (files : List PermEntry) : Prop where
  distinct : (files.map PermEntry.filename).Nodup
  kinds : ∀ file ∈ files, file.kind = .notSet ∨ file.kind = .lnk

variable {path : Text}

section Decoded

variable {umask : Nat} {files after : List PermEntry} {name : Text}

theorem Decoded.change (decoded : Decoded files) {change : PermEntry → PermEntry}
    (kept : ∀ file, (change file).filename = file.filename)
    (kind : ∀ file, (change file).kind = file.kind ∨ (change file).kind = .lnk) :
    Decoded (changeFile name change files) := by
  refine ⟨?_, ?_⟩
  · rw [changeFile, NamedList.map_key_modify kept]
    exact decoded.distinct
  intro file member
  rcases NamedList.mem_modify member with inside | ⟨before, inside, _, rfl⟩
  · exact decoded.kinds file inside
  · rcases kind before with same | link
    · rw [same]
      exact decoded.kinds before inside
    · exact Or.inr link

theorem Decoded.findOrAdd (decoded : Decoded files)
    (added : findOrAddFile umask name files = some after) : Decoded after := by
  unfold findOrAddFile at added
  split at added
  · cases added
    exact decoded
  rename_i absent
  obtain ⟨_, short, rfl⟩ := map_eq_some_iff.mp added
  refine ⟨NamedList.nodup_append decoded.distinct ?_, ?_⟩
  · rw [(field_eq_some short).1]
    exact (NamedList.lookup_eq_none_iff files name).mp absent
  · exact forall_mem_append.mpr ⟨decoded.kinds, forall_mem_singleton.mpr (Or.inl rfl)⟩

theorem Decoded.decodeLine (decoded : Decoded files) {word third fourth rest : Text}
    (done : Wzdftpd.decodeLine umask word name third fourth rest files = some after) :
    Decoded after := by
  unfold Wzdftpd.decodeLine at done
  split_ifs at done
  · obtain ⟨owner, _, done⟩ := bind_eq_some_iff.mp done
    obtain ⟨group, _, rfl⟩ := map_eq_some_iff.mp done
    exact decoded.change (fun _ => rfl) fun _ => Or.inl rfl
  · obtain ⟨_, _, rfl⟩ := map_eq_some_iff.mp done
    exact decoded.change (fun _ => rfl) fun _ => Or.inl rfl
  · split at done
    · cases done
      exact decoded
    · obtain ⟨owner, _, done⟩ := bind_eq_some_iff.mp done
      obtain ⟨group, _, rfl⟩ := map_eq_some_iff.mp done
      exact decoded.change (fun _ => rfl) fun _ => Or.inr rfl
  · cases done
    exact decoded

theorem Decoded.readLine (decoded : Decoded files) {line : Text}
    (read : readPermLine umask files line = some after) : Decoded after := by
  unfold readPermLine at read
  repeat' split at read
  all_goals first
    | (cases read; exact decoded)
    | cases read
    | (obtain ⟨more, added, done⟩ := bind_eq_some_iff.mp read
       exact (decoded.findOrAdd added).decodeLine done)

/-- A permission file is decoded to such a list, whatever it holds. -/
theorem decoded_of_readPermFile {disk : Disk} {ret : Errno}
    (read : readPermFile umask path disk = some (ret, files)) : Decoded files := by
  have none' : Decoded [] := ⟨nodup_nil, fun _ member => absurd member not_mem_nil⟩
  have fold : ∀ (lines : List Text) {start : List PermEntry}, Decoded start →
      lines.foldlM (readPermLine umask) start = some files → Decoded files := by
    intro lines
    induction lines with
    | nil =>
      intro start decoded done
      cases done
      exact decoded
    | cons line lines ih =>
      intro start decoded done
      obtain ⟨_, first, rest⟩ := bind_eq_some_iff.mp done
      exact ih (decoded.readLine first) rest
  unfold readPermFile at read
  split at read
  · cases read
    exact none'
  · obtain ⟨decoded, whole, same⟩ := map_eq_some_iff.mp read
    cases same
    exact fold _ none' whole

end Decoded

def visibleNames (w : DirWorld) (names : List Text) : List Text :=
  names.filter fun name => !passedOver w name

/-- The entry of a file: from the permission file, or a new one; none if `lstat` fails. -/
def entryFor (w : DirWorld) (depth : Nat) (base : Text) (perm : List PermEntry) (name : Text) :
    Option (Option PermEntry) :=
  match findFile name perm with
  | some entry => some (some entry)
  | none => unlistedEntry w depth base name

section Physical

variable {w : DirWorld} {depth : Nat} {base name : Text} {names : List Text} {o after : Opening}

theorem physicalEntries_visible (low : o.watchdog ≤ maxDirectoryEntries)
    (shown : passedOver w name = false) :
    physicalEntries w depth base (name :: names) o =
      (entryFor w depth base o.perm name).bind fun entry =>
        physicalEntries w depth base names
          ⟨removeFile name o.perm, o.entries ++ entry.toList, o.watchdog + 1⟩ := by
  rw [physicalEntries, if_neg (Nat.not_lt.mpr low), if_neg (by simp [shown]), entryFor]
  cases found : findFile name o.perm with
  | some entry => rfl
  | none =>
    have unchanged : removeFile name o.perm = o.perm := by
      refine eraseP_of_forall_not fun entry member same => ?_
      rw [decide_eq_true_eq] at same
      exact (NamedList.lookup_eq_none_iff o.perm name).mp found (same ▸ mem_map_of_mem member)
    rw [unchanged]

section Remove

variable {perm : List PermEntry} {other : Text}

theorem entryFor_removeFile (distinct : (perm.map PermEntry.filename).Nodup)
    (apart : other ≠ name) :
    entryFor w depth base (removeFile name perm) other = entryFor w depth base perm other := by
  have found : findFile other (removeFile name perm) = findFile other perm := by
    rw [findFile, removeFile, NamedList.lookup_remove distinct, if_neg apart, findFile]
  rw [entryFor, entryFor, found]

theorem filter_removeFile (distinct : (perm.map PermEntry.filename).Nodup) (names : List Text) :
    (removeFile name perm).filter (fun entry => entry.filename ∉ names) =
      perm.filter fun entry => entry.filename ∉ name :: names := by
  rw [removeFile, NamedList.remove_eq_filter distinct, List.filter_filter]
  refine filter_congr fun entry _ => ?_
  simp [Bool.and_comm]

end Remove

theorem physicalEntries_eq (names : List Text) : ∀ (o : Opening), names.Nodup →
    (o.perm.map PermEntry.filename).Nodup → o.watchdog ≤ maxDirectoryEntries + 1 →
    (physicalEntries w depth base names o = some (some after) ↔
      o.watchdog + names.length ≤ maxDirectoryEntries + 1 ∧
      (∀ name ∈ visibleNames w names, entryFor w depth base o.perm name ≠ none) ∧
      after = ⟨o.perm.filter fun entry => entry.filename ∉ visibleNames w names,
        o.entries ++ (visibleNames w names).filterMap fun name =>
          (entryFor w depth base o.perm name).join,
        o.watchdog + names.length⟩) := by
  induction names with
  | nil =>
    intro o _ _ low
    simp [physicalEntries, visibleNames, low, eq_comm]
  | cons name names ih =>
    intro o distinct permDistinct low
    obtain ⟨fresh, distinct⟩ := nodup_cons.mp distinct
    by_cases full : o.watchdog > maxDirectoryEntries
    · rw [physicalEntries, if_pos full]
      refine ⟨fun impossible => ?_, fun all => ?_⟩
      · cases impossible
      · have bound := all.1
        rw [length_cons] at bound
        omega
    · by_cases hidden : passedOver w name = true
      · have same : visibleNames w (name :: names) = visibleNames w names := by
          rw [visibleNames, filter_cons_of_neg (by simp [hidden]), visibleNames]
        have inner := ih ⟨o.perm, o.entries, o.watchdog + 1⟩ distinct permDistinct
          (Nat.succ_le_succ (Nat.not_lt.mp full))
        simp only [Nat.add_assoc, Nat.add_comm 1] at inner
        rw [physicalEntries, if_neg full, if_pos hidden, same]
        exact inner
      · have shown : passedOver w name = false := Bool.eq_false_iff.mpr hidden
        have split : visibleNames w (name :: names) = name :: visibleNames w names := by
          rw [visibleNames, filter_cons_of_pos (by simp [shown]), visibleNames]
        rw [physicalEntries_visible (Nat.not_lt.mp full) shown, split]
        cases outcome : entryFor w depth base o.perm name with
        | none =>
          refine ⟨fun impossible => ?_, fun all => ?_⟩
          · cases impossible
          · exact absurd outcome (all.2.1 name mem_cons_self)
        | some entry =>
          have inner := ih ⟨removeFile name o.perm, o.entries ++ entry.toList,
            o.watchdog + 1⟩ distinct (NamedList.nodup_remove permDistinct name)
            (Nat.succ_le_succ (Nat.not_lt.mp full))
          have others : ∀ other ∈ visibleNames w names,
              entryFor w depth base (removeFile name o.perm) other =
                entryFor w depth base o.perm other := fun other member =>
            entryFor_removeFile permDistinct fun same =>
              fresh (same ▸ (mem_filter.mp member).1)
          have added : (name :: visibleNames w names).filterMap
                (fun other => (entryFor w depth base o.perm other).join) =
              entry.toList ++ (visibleNames w names).filterMap fun other =>
                (entryFor w depth base (removeFile name o.perm) other).join := by
            have rest := filterMap_congr fun other member =>
              congrArg join (others other member)
            rw [filterMap_cons, outcome, rest]
            cases entry <;> rfl
          simp only [filter_removeFile permDistinct, append_assoc, ← added, Nat.add_assoc,
            Nat.add_comm 1] at inner
          rw [bind_some, forall_mem_cons, outcome, inner]
          simp only [ne_eq, reduceCtorEq, not_false_eq_true, true_and]
          exact and_congr_right fun _ => and_congr_left fun _ =>
            forall₂_congr fun other member => by rw [others other member]

end Physical

/-- A virtual directory that is listed, and the name it is listed under. -/
structure Virtual where
  vfs : VfsEntry
  name : Text

def vfsListed (w : DirWorld) (name : Text) : List VfsEntry → List Char → Option (List Virtual)
  | [], _ => some []
  | vfs :: rest, buffer =>
    (vfsCandidate w name vfs buffer).bind fun turn =>
      (vfsListed w name rest turn.1).map (turn.2.toList.map (⟨vfs, ·⟩) ++ ·)

def Virtual.entry (w : DirWorld) (depth : Nat) (virtual : Virtual) : PermEntry :=
  vfsEntry w virtual.vfs virtual.name (fileStat w depth virtual.vfs.physicalDir).join

/-- The second loop makes an entry of a virtual directory. -/
structure Virtual.Entered (w : DirWorld) (depth : Nat) (virtual : Virtual) : Prop where
  stat : fileStat w depth virtual.vfs.physicalDir ≠ none
  short : virtual.name.length < 256

theorem exists_map_cons {α : Type} {tail : Option (List α)} {head : α} {P : List α → Prop} :
    (∃ whole, tail.map (head :: ·) = some whole ∧ P whole) ↔
      ∃ rest, tail = some rest ∧ P (head :: rest) := by
  cases tail <;> simp

section Vfs

variable {w : DirWorld} {depth : Nat} {name : Text} {after : Opening}

theorem vfsEntries_eq (vfs : List VfsEntry) : ∀ (buffer : List Char) (o : Opening),
    o.watchdog ≤ maxDirectoryEntries + 1 →
    (vfsEntries w depth name vfs buffer o = some (some after) ↔
      o.watchdog + vfs.length ≤ maxDirectoryEntries + 1 ∧
      ∃ listed, vfsListed w name vfs buffer = some listed ∧
        (∀ virtual ∈ listed, virtual.Entered w depth) ∧
        after = ⟨o.perm, o.entries ++ listed.map (Virtual.entry w depth),
          o.watchdog + vfs.length⟩) := by
  induction vfs with
  | nil =>
    intro buffer o low
    simp [vfsEntries, vfsListed, low, eq_comm]
  | cons vfs rest ih =>
    intro buffer o low
    by_cases full : o.watchdog > maxDirectoryEntries
    · rw [vfsEntries, if_pos full]
      refine ⟨fun impossible => ?_, fun all => ?_⟩
      · cases impossible
      · have bound := all.1
        rw [length_cons] at bound
        omega
    have low' : o.watchdog + 1 ≤ maxDirectoryEntries + 1 := Nat.succ_le_succ (Nat.not_lt.mp full)
    rw [vfsEntries, if_neg full, vfsListed]
    cases candidate : vfsCandidate w name vfs buffer with
    | none => simp
    | some turn =>
      obtain ⟨buffer, found⟩ := turn
      simp only [bind_some]
      cases found with
      | none =>
        have inner := ih buffer ⟨o.perm, o.entries, o.watchdog + 1⟩ low'
        simp only [Nat.add_assoc, Nat.add_comm 1] at inner
        have same : (vfsListed w name rest buffer).map
            ((none : Option Text).toList.map (Virtual.mk vfs) ++ ·) =
              vfsListed w name rest buffer := by simp
        rw [same]
        exact inner
      | some tail =>
        have inner := ih buffer ⟨o.perm,
          o.entries ++ [Virtual.entry w depth ⟨vfs, tail⟩], o.watchdog + 1⟩ low'
        simp only [Nat.add_assoc, Nat.add_comm 1] at inner
        have more : (vfsListed w name rest buffer).map
            ((some tail).toList.map (Virtual.mk vfs) ++ ·) =
              (vfsListed w name rest buffer).map (⟨vfs, tail⟩ :: ·) := rfl
        rw [more, exists_map_cons]
        by_cases entered : Virtual.Entered w depth ⟨vfs, tail⟩
        · obtain ⟨stat, returned⟩ := ne_none_iff_exists'.mp entered.stat
          have same : vfsEntry w vfs tail stat = Virtual.entry w depth ⟨vfs, tail⟩ := by
            rw [Virtual.entry, returned]
            rfl
          dsimp only
          rw [returned, bind_some, field, if_pos entered.short, bind_some, same, inner]
          simp [entered]
        · refine ⟨fun done => absurd ?_ entered, fun all => ?_⟩
          · obtain ⟨stat, returned, done⟩ := bind_eq_some_iff.mp done
            obtain ⟨_, short, _⟩ := bind_eq_some_iff.mp done
            exact ⟨by rw [returned]; exact some_ne_none _, (field_eq_some short).2⟩
          · obtain ⟨_, listed, _, each, _⟩ := all
            exact absurd (each _ mem_cons_self) entered

end Vfs

/-- The turns of the third loop behind `front` entries that are no links. -/
def linkTurns : Nat → List PermEntry → Nat
  | _, [] => 0
  | front, entry :: rest =>
    if entry.kind = .lnk then (if front = 1 then 2 else 1) + linkTurns front rest
    else 1 + linkTurns (front + 1) rest

theorem linkEntries_plain {it : PermEntry} (plain : it.kind ≠ .lnk) (turns : Nat)
    (front rest entries : List PermEntry) :
    linkEntries (turns + 1) front (it :: rest) entries =
      linkEntries turns (front ++ [it]) rest entries := by
  rw [linkEntries, if_neg plain]

theorem linkEntries_eq (rest : List PermEntry) : ∀ (turns : Nat) (front entries : List PermEntry),
    (∀ entry ∈ front, entry.kind ≠ .lnk) →
    linkEntries turns front rest entries =
      if linkTurns front.length rest ≤ turns then
        some (entries ++ rest.filter fun entry => entry.kind = .lnk)
      else none := by
  induction rest with
  | nil =>
    intro turns front entries _
    cases turns <;> simp [linkEntries, linkTurns]
  | cons it rest ih =>
    intro turns front entries plain
    cases turns with
    | zero =>
      have some' : ¬linkTurns front.length (it :: rest) ≤ 0 := by
        rw [linkTurns]
        split <;> [split; skip] <;> omega
      rw [linkEntries, if_neg some']
    | succ turns =>
      by_cases link : it.kind = .lnk
      · rw [linkEntries, linkTurns, if_pos link, if_pos link, filter_cons_of_pos (by simp [link])]
        -- a single entry in front is looked at once more
        obtain ⟨first, rfl⟩ | other : (∃ first, front = [first]) ∨ front.length ≠ 1 := by
          rw [← length_eq_one_iff]
          exact Classical.em _
        · rw [behindLink, length_singleton, if_pos rfl]
          cases turns with
          | zero => rw [linkEntries, if_neg (by omega)]
          | succ turns =>
            rw [linkEntries_plain (plain first mem_cons_self), nil_append,
              ih turns [first] _ plain, length_singleton, append_assoc,
              singleton_append]
            congr 1
            exact propext (by omega)
        · have onward : behindLink front rest = (front, rest) := by
            unfold behindLink
            split
            · exact absurd rfl other
            · rfl
          rw [onward, if_neg other, ih turns front _ plain, append_assoc]
          congr 1
          exact propext (by omega)
      · have plain' : ∀ entry ∈ front ++ [it], entry.kind ≠ .lnk := by
          exact forall_mem_append.mpr ⟨plain, forall_mem_singleton.mpr link⟩
        rw [linkEntries_plain link, linkTurns, if_neg link,
          filter_cons_of_neg (by simp [link]), ih turns _ _ plain', length_append,
          length_singleton]
        congr 1
        exact propext (by omega)

def listedFiles (w : DirWorld) (name : Text) : Option (List PermEntry) :=
  (readPermFile w.umask (slashed name ++ permFile) w.disk).map Prod.snd

/-- What the first loop leaves of the permission file. -/
def leftOver (w : DirWorld) (names : List Text) (perm : List PermEntry) : List PermEntry :=
  perm.filter fun entry => entry.filename ∉ visibleNames w names

section Open

variable {w : DirWorld} {depth : Nat} {name : Text} {names : List Text} {buffer : List Char}
  {entries perm : List PermEntry}

theorem decoded_of_listedFiles (read : listedFiles w name = some perm) : Decoded perm := by
  obtain ⟨_, decoded, rfl⟩ := map_eq_some_iff.mp read
  exact decoded_of_readPermFile decoded

theorem dirOpen_eq (distinct : names.Nodup) (short : name.length < maxPath) :
    dirOpen w depth name names buffer = some (some entries) ↔
      ∃ perm listed, listedFiles w name = some perm ∧
        vfsListed w name w.server.vfs buffer = some listed ∧
        names.length + w.server.vfs.length + linkTurns 0 (leftOver w names perm) ≤
          maxDirectoryEntries + 1 ∧
        (∀ file ∈ visibleNames w names, entryFor w depth (entryBase name) perm file ≠ none) ∧
        (∀ virtual ∈ listed, virtual.Entered w depth) ∧
        entries = (visibleNames w names).filterMap (fun file =>
            (entryFor w depth (entryBase name) perm file).join) ++
          listed.map (Virtual.entry w depth) ++
          (leftOver w names perm).filter fun entry => entry.kind = .lnk := by
  unfold dirOpen listedFiles
  cases read : readPermFile w.umask (slashed name ++ permFile) w.disk with
  | none => simp
  | some result =>
    obtain ⟨ret, perm⟩ := result
    have proper : ¬(ret ≠ .ok ∧ ret ≠ .fileNoExist) := by
      unfold readPermFile at read
      split at read
      · cases read
        exact fun both => both.2 rfl
      · obtain ⟨_, _, same⟩ := map_eq_some_iff.mp read
        cases same
        exact fun both => both.1 rfl
    have decoded := decoded_of_readPermFile read
    rw [bind_some, if_neg proper, if_neg (Nat.not_le.mpr short)]
    have linked (o : Opening) (turns : Nat) : linkEntries turns [] o.perm o.entries = some entries ↔
        linkTurns 0 o.perm ≤ turns ∧
          o.entries ++ o.perm.filter (fun entry => entry.kind = .lnk) = entries := by
      rw [linkEntries_eq _ _ _ _ fun _ member => absurd member not_mem_nil, length_nil]
      split <;> simp [*]
    constructor
    · intro done
      obtain ⟨_ | o, ran, done⟩ := bind_eq_some_iff.mp done
      · cases done
      obtain ⟨_, passed, done⟩ := map_eq_some_iff.mp done
      obtain ⟨_, rfl, done⟩ := bind_eq_some_iff.mp done
      obtain ⟨bound, each, rfl⟩ :=
        (physicalEntries_eq names _ distinct decoded.distinct (Nat.zero_le _)).mp ran
      obtain ⟨bound', listed, same, entered, rfl⟩ := (vfsEntries_eq _ _ _ bound).mp passed
      obtain ⟨enough, rfl⟩ := (linked _ _).mp done
      refine ⟨perm, listed, rfl, same, ?_, each, entered, rfl⟩
      dsimp only [leftOver] at enough bound' ⊢
      omega
    · rintro ⟨_, listed, same', same, bound, each, entered, rfl⟩
      cases same'
      have low : 0 + names.length ≤ maxDirectoryEntries + 1 := by omega
      refine bind_eq_some_iff.mpr ⟨_, (physicalEntries_eq names _ distinct decoded.distinct
        (Nat.zero_le _)).mpr ⟨low, each, rfl⟩, map_eq_some_iff.mpr ⟨_,
          (vfsEntries_eq _ _ _ low).mpr ⟨?_, listed, same, entered, rfl⟩,
          (linked _ _).mpr ⟨?_, rfl⟩⟩⟩
      · dsimp only
        omega
      · dsimp only [leftOver] at bound ⊢
        omega

end Open

variable {w : DirWorld}

theorem fileStat_mono {found : Option PermEntry} {depth more : Nat}
    (returned : fileStat w depth path = some found) (deeper : depth ≤ more) :
    fileStat w more path = some found := by
  induction depth generalizing path more with
  | zero => cases returned
  | succ depth ih =>
    cases more with
    | zero => exact absurd deeper (Nat.not_succ_le_zero depth)
    | succ more =>
      rw [fileStat] at returned ⊢
      split at returned
      · exact ih returned (Nat.le_of_succ_le_succ deeper)
      · exact returned

theorem statEntry_kind {entry : PermEntry}
    (found : statEntry w path = some (some entry)) : entry.kind ≠ .vfs := by
  have ofStat : ∀ {kind : EntryKind} (found : FileKind), kind = .notSet ∨ kind = .lnk →
      kind.ofStat found ≠ .vfs := by
    intro kind found decoded
    rcases decoded with rfl | rfl <;> cases found <;> decide
  unfold statEntry at found
  split at found
  · cases found
  split at found
  · cases found
  split at found
  · cases found
  split at found
  · cases found
  obtain ⟨_, read, found⟩ := bind_eq_some_iff.mp found
  split at found
  · rename_i file listed
    cases found
    split at listed
    · exact ofStat _ ((decoded_of_readPermFile read).kinds file (NamedList.mem_of_lookup listed))
    · cases listed
  · split at found
    · cases found
    · obtain ⟨_, _, same⟩ := map_eq_some_iff.mp found
      cases same
      exact ofStat _ (Or.inl rfl)

theorem fileStat_kind {entry : PermEntry} {depth : Nat}
    (found : fileStat w depth path = some (some entry)) : entry.kind ≠ .vfs := by
  induction depth generalizing path with
  | zero => cases found
  | succ depth ih =>
    rw [fileStat] at found
    split at found
    · exact ih found
    · exact statEntry_kind found

end Wzdftpd
