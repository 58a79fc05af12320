import Wzdftpd.TextBuffer
import Wzdftpd.UserRecord

/- The flags of a user as an array of MAX_FLAGS_NUM characters: `user_flags_add` and the
functions around it (wzd_user.c), and SITE COLOR (wzd_site_user.c), which builds the array
anew on the stack. An access outside of an array gives `none`. -/
namespace Wzdftpd

open List Option SlotArray TextBuffer

/-- `strchr` on an array -/
def strchrIn (cells : List Char) (c : Char) : Option Bool :=
  if c ∈ text cells then some true else (terminated cells).map fun _ => false

/-- The loop of `user_flags_add`. -/
def addFlagsIn : Text → List Char → Nat → Option (List Char)
  | [], cells, _ => some cells
  | flag :: new, cells, next =>
    if flag.isAlphanum then
      (strchrIn cells flag).bind fun found =>
        if found then addFlagsIn new cells next
        else (store cells next flag).bind fun cells => addFlagsIn new cells (next + 1)
    else addFlagsIn new cells next

/-- `user_flags_add`: the code it returns, and the array. -/
def userFlagsAddIn (cells : List Char) (new : Text) : Option (Int × List Char) :=
  if new = [] then some (-1, cells)
  else
    (terminated cells).bind fun flags =>
      if 'O' ∈ flags ∧ 'G' ∈ new ∨ 'G' ∈ flags ∧ 'O' ∈ new ∨ 'O' ∈ new ∧ 'G' ∈ new then
        some (-2, cells)
      else if flags.length + new.length ≥ maxFlagsNum then some (-3, cells)
      else
        (addFlagsIn new cells flags.length).bind fun cells =>
          (store cells (flags.length + new.length) '\x00').map fun cells => (0, cells)

/-- Flags in an array, with zeros behind them. -/
def padded (flags : Text) : List Char :=
  flags ++ List.replicate (maxFlagsNum - flags.length) '\x00'

/-- `user_flags_delete`. `strncpy` fills the array with zeros. -/
def userFlagsDeleteIn (cells : List Char) (old : Text) : Option (Int × List Char) :=
  if old = [] ∨ old.length ≥ maxFlagsNum then some (-1, cells)
  else (terminated cells).map fun flags => (0, padded (flags.filter (· ∉ old)))

/-- `user_flags_clear` -/
def userFlagsClear : List Char := List.replicate maxFlagsNum '\x00'

/-- `user_flags_change` -/
def userFlagsChangeIn (cells : List Char) (newflags : Text) : Option (Int × List Char) :=
  match newflags with
  | '+' :: new =>
    (userFlagsAddIn cells new).map fun added =>
      (if added.1 = -2 then -5 else if added.1 < 0 then -2 else 0, added.2)
  | '-' :: old =>
    (userFlagsDeleteIn cells old).map fun deleted =>
      (if deleted.1 ≠ 0 then -3 else 0, deleted.2)
  | [] => some (-1, cells)
  | flag :: rest =>
    if flag.isAlphanum then
      if (flag :: rest).length ≥ maxFlagsNum then some (-1, cells)
      else if 'O' ∈ flag :: rest ∧ 'G' ∈ flag :: rest then some (-5, cells)
      else
        (userFlagsAddIn userFlagsClear (flag :: rest)).map fun added =>
          (if added.1 ≠ 0 then -4 else 0, added.2)
    else some (-1, cells)

/-- The flags that SITE COLOR writes: without the color flag `5`, or with it. -/
def toggledColor (flags : Text) : Text :=
  if '5' ∈ flags then flags.filter (· ≠ '5') else flags ++ ['5']

/-- `do_site_color`. All of the array on the stack is copied, with what was there before. -/
def siteColor (junk cells : List Char) : Option (List Char) :=
  (terminated cells).bind fun flags => place junk 0 (toggledColor flags ++ ['\x00'])

section Padded

variable {flags : Text}

theorem padded_eq (short : flags.length < maxFlagsNum) :
    padded flags = flags ++ '\x00' :: List.replicate (maxFlagsNum - (flags.length + 1)) '\x00' := by
  rw [padded, ← replicate_succ]
  congr 2
  omega

theorem text_padded (plain : '\x00' ∉ flags) (short : flags.length < maxFlagsNum) :
    text (padded flags) = flags := by
  rw [padded_eq short, text_append plain]

theorem terminated_padded (plain : '\x00' ∉ flags) (short : flags.length < maxFlagsNum) :
    terminated (padded flags) = some flags := by
  rw [padded_eq short, terminated_append plain]

theorem length_padded (short : flags.length < maxFlagsNum) :
    (padded flags).length = maxFlagsNum := by
  rw [padded, length_append, length_replicate]
  omega

theorem store_padded (short : flags.length < maxFlagsNum) (flag : Char) :
    store (padded flags) flags.length flag = some (padded (flags ++ [flag])) := by
  have front : (padded flags).take flags.length = flags := take_left' rfl
  rw [store_of_take (by rw [length_padded short]; exact short) front, padded_eq short,
    drop_append, drop_of_length_le (Nat.le_succ _), nil_append,
    Nat.add_sub_cancel_left, drop_one, tail_cons, padded, length_append,
    length_singleton, append_assoc, singleton_append]

theorem store_null_padded {i : Nat} (behind : flags.length ≤ i) (inside : i < maxFlagsNum) :
    store (padded flags) i '\x00' = some (padded flags) := by
  have short : flags.length < maxFlagsNum := by omega
  rw [store_of_lt (by rw [length_padded short]; exact inside), padded,
    set_append_right _ _ behind, set_replicate_self]

theorem plain_addFlag (plain : '\x00' ∉ flags) (flag : Char) : '\x00' ∉ addFlag flags flag := by
  unfold addFlag
  split
  · rename_i added
    intro null
    rcases mem_append.mp null with old | new
    · exact plain old
    · rw [← mem_singleton.mp new] at added
      exact absurd added.1 (by decide)
  · exact plain

theorem length_addFlag (flags : Text) (flag : Char) :
    (addFlag flags flag).length ≤ flags.length + 1 := by
  unfold addFlag
  split <;> simp

theorem addFlagsIn_padded (new : Text) : ∀ {flags : Text}, '\x00' ∉ flags →
    flags.length + new.length < maxFlagsNum →
    addFlagsIn new (padded flags) flags.length = some (padded (new.foldl addFlag flags)) ∧
      '\x00' ∉ new.foldl addFlag flags ∧
      (new.foldl addFlag flags).length ≤ flags.length + new.length := by
  induction new with
  | nil => exact fun plain _ => ⟨rfl, plain, Nat.le_refl _⟩
  | cons flag new ih =>
    intro flags plain room
    rw [length_cons] at room
    have short : flags.length < maxFlagsNum := by omega
    have longer := length_addFlag flags flag
    obtain ⟨same, plain', _⟩ := ih (plain_addFlag plain flag) (by omega)
    refine ⟨?_, plain', by rw [foldl_cons, length_cons]; omega⟩
    rw [foldl_cons, ← same, addFlagsIn, strchrIn, text_padded plain short,
      terminated_padded plain short]
    unfold addFlag
    by_cases letter : flag.isAlphanum = true
    · rw [if_pos letter]
      by_cases present : flag ∈ flags
      · rw [if_pos present, if_neg fun both => both.2 present]
        rfl
      · rw [if_neg present, if_pos ⟨letter, present⟩]
        simp [store_padded short]
    · rw [if_neg letter, if_neg fun both => letter both.1]

theorem userFlagsAddIn_padded (plain : '\x00' ∉ flags) (short : flags.length < maxFlagsNum)
    (new : Text) :
    (∃ after, userFlagsAdd flags new = .ok after ∧
        userFlagsAddIn (padded flags) new = some (0, padded after) ∧ '\x00' ∉ after ∧
        after.length < maxFlagsNum) ∨
      ∃ code < 0, userFlagsAdd flags new = .error code ∧
        userFlagsAddIn (padded flags) new = some (code, padded flags) := by
  unfold userFlagsAdd userFlagsAddIn
  rw [terminated_padded plain short]
  simp only [bind_some]
  split_ifs with _ _ room
  · exact .inr ⟨-1, by decide, rfl, rfl⟩
  · exact .inr ⟨-2, by decide, rfl, rfl⟩
  · exact .inr ⟨-3, by decide, rfl, rfl⟩
  · obtain ⟨same, plain', bound⟩ := addFlagsIn_padded new plain (Nat.not_le.mp room)
    refine .inl ⟨_, rfl, ?_, plain', by omega⟩
    simp [same, store_null_padded bound (Nat.not_le.mp room)]

theorem userFlagsChangeIn_padded (plain : '\x00' ∉ flags) (short : flags.length < maxFlagsNum)
    (newflags : Text) :
    userFlagsChangeIn (padded flags) newflags = some ((userFlagsChange flags newflags).1,
        padded (userFlagsChange flags newflags).2) ∧
      '\x00' ∉ (userFlagsChange flags newflags).2 ∧
      (userFlagsChange flags newflags).2.length < maxFlagsNum := by
  unfold userFlagsChange
  split
  · rename_i new
    rw [userFlagsChangeIn]
    rcases userFlagsAddIn_padded plain short new with
      ⟨after, added, same, plain', short'⟩ | ⟨code, negative, failed, same⟩
    · rw [added, same]
      exact ⟨rfl, plain', short'⟩
    rw [failed, same]
    refine ⟨?_, plain, short⟩
    by_cases both : code = -2
    · rw [both]
      rfl
    · simp [if_pos negative]
  · rw [userFlagsChangeIn, userFlagsDeleteIn, userFlagsDelete, terminated_padded plain short]
    split
    · exact ⟨rfl, plain, short⟩
    · refine ⟨rfl, fun null => plain (mem_of_mem_filter null), ?_⟩
      exact Nat.lt_of_le_of_lt (length_filter_le _ _) short
  · exact ⟨rfl, plain, short⟩
  · rename_i flag rest plus minus
    have clear : userFlagsClear = padded [] := rfl
    rw [userFlagsChangeIn, clear]
    · dsimp only
      split
      · split_ifs
        · exact ⟨rfl, plain, short⟩
        · exact ⟨rfl, plain, short⟩
        rcases userFlagsAddIn_padded not_mem_nil (by decide) (flag :: rest) with
          ⟨after, added, same, plain', short'⟩ | ⟨code, negative, failed, same⟩
        · rw [added, same]
          exact ⟨rfl, plain', short'⟩
        · rw [failed, same, map_some, if_pos (Int.ne_of_lt negative)]
          exact ⟨rfl, not_mem_nil, Nat.zero_lt_of_lt short⟩
      · exact ⟨rfl, plain, short⟩
    · exact plus
    · exact minus

end Padded

/-- What a change should leave: new flags go to the end, in their order. -/
def wantedFlags (flags : Text) : Text → Text
  | '+' :: new => flags ++ ((new.filter Char.isAlphanum).filter (· ∉ flags)).eraseDups
  | '-' :: old => flags.filter (· ∉ old)
  | new => (new.filter Char.isAlphanum).eraseDups

/-- Letters and digits, each once, and not those of a site operator and of a group admin. -/
structure FlagsSound (flags : Text) : Prop where
  short : flags.length < maxFlagsNum
  letters : ∀ flag ∈ flags, flag.isAlphanum = true
  distinct : flags.Nodup
  exclusive : Exclusive flags

section Sound

variable {flags : Text}

theorem foldl_addFlag (new : Text) : ∀ flags : Text, new.foldl addFlag flags =
    flags ++ ((new.filter Char.isAlphanum).filter (· ∉ flags)).eraseDups := by
  induction new with
  | nil => exact fun flags => (append_nil flags).symm
  | cons flag new ih =>
    intro flags
    rw [foldl_cons, ih, addFlag]
    by_cases letter : flag.isAlphanum = true
    · rw [filter_cons_of_pos letter]
      by_cases present : flag ∈ flags
      · rw [if_neg fun both => both.2 present, filter_cons_of_neg (by simp [present])]
      rw [if_pos ⟨letter, present⟩, filter_cons_of_pos (by simp [present]),
        eraseDups_cons, append_assoc, singleton_append]
      simp only [List.filter_filter]
      congr 3
      refine filter_congr fun c _ => ?_
      simp [not_or, Bool.and_assoc, Bool.and_left_comm, Bool.beq_eq_decide_eq]
    · rw [filter_cons_of_neg letter, if_neg fun both => letter both.1]

theorem foldl_addFlag_sound (new : Text) : ∀ {flags : Text},
    (∀ flag ∈ flags, flag.isAlphanum = true) → flags.Nodup →
    (∀ flag ∈ new.foldl addFlag flags, flag.isAlphanum = true) ∧
      (new.foldl addFlag flags).Nodup := by
  induction new with
  | nil => exact fun letters distinct => ⟨letters, distinct⟩
  | cons flag new ih =>
    intro flags letters distinct
    rw [foldl_cons, addFlag]
    split
    · rename_i added
      apply ih
      · rw [forall_mem_append, forall_mem_singleton]
        exact ⟨letters, added.1⟩
      · exact nodup_append_comm.mp (nodup_cons.mpr ⟨added.2, distinct⟩)
    · exact ih letters distinct

theorem userFlagsAdd_ok {new after : Text} (added : userFlagsAdd flags new = .ok after) :
    after = new.foldl addFlag flags := by
  unfold userFlagsAdd at added
  split at added
  · cases added
  · split at added
    · cases added
    · split at added
      · cases added
      · exact (Except.ok.inj added).symm

theorem userFlagsChange_cases (flags change : Text) :
    (∃ new start : Text, (start = flags ∨ start = []) ∧
      userFlagsChange flags change = (0, new.foldl addFlag start) ∧
        wantedFlags flags change = new.foldl addFlag start) ∨
    (∃ old : Text, userFlagsChange flags change = (0, flags.filter (· ∉ old)) ∧
      wantedFlags flags change = flags.filter (· ∉ old)) ∨
    ∃ code ≠ 0, userFlagsChange flags change = (code, flags) := by
  unfold userFlagsChange
  split
  · rename_i new
    split
    · rename_i after added
      exact .inl ⟨new, flags, .inl rfl, by rw [userFlagsAdd_ok added],
        (foldl_addFlag new flags).symm⟩
    · exact .inr (.inr ⟨_, by split <;> decide, rfl⟩)
  · rename_i old
    unfold userFlagsDelete
    split
    · rename_i after deleted
      split at deleted
      · cases deleted
      · cases deleted
        exact .inr (.inl ⟨old, rfl, rfl⟩)
    · exact .inr (.inr ⟨-3, by decide, rfl⟩)
  · exact .inr (.inr ⟨-1, by decide, rfl⟩)
  · rename_i flag rest plus minus
    have wanted : wantedFlags flags (flag :: rest) = (flag :: rest).foldl addFlag [] := by
      rw [foldl_addFlag, wantedFlags]
      · simp
      · exact fun _ same => plus (List.cons.inj same).1
      · exact fun _ same => minus (List.cons.inj same).1
    dsimp only
    split
    · split_ifs with fits apart
      · exact .inr (.inr ⟨-1, by decide, rfl⟩)
      · exact .inr (.inr ⟨-5, by decide, rfl⟩)
      have added : userFlagsAdd [] (flag :: rest) = .ok ((flag :: rest).foldl addFlag []) := by
        have apart' : ¬('O' ∈ ([] : Text) ∧ 'G' ∈ flag :: rest ∨
            'G' ∈ ([] : Text) ∧ 'O' ∈ flag :: rest ∨
            'O' ∈ flag :: rest ∧ 'G' ∈ flag :: rest) := by
          simpa only [not_mem_nil, false_and, false_or] using apart
        rw [userFlagsAdd, if_neg (cons_ne_nil _ _), if_neg apart',
          if_neg (by rw [length_nil, Nat.zero_add]; exact fits)]
      rw [added]
      exact .inl ⟨_, [], .inr rfl, rfl, wanted⟩
    · exact .inr (.inr ⟨-1, by decide, rfl⟩)

theorem FlagsSound.plain (sound : FlagsSound flags) : '\x00' ∉ flags :=
  fun null => absurd (sound.letters _ null) (by decide)

theorem FlagsSound.change (sound : FlagsSound flags) (change : Text) :
    FlagsSound (userFlagsChange flags change).2 ∧
      ((userFlagsChange flags change).1 = 0 →
        (userFlagsChange flags change).2 = wantedFlags flags change) ∧
      ((userFlagsChange flags change).1 ≠ 0 → (userFlagsChange flags change).2 = flags) := by
  have exclusive := sound.exclusive.change change
  have short := (userFlagsChangeIn_padded sound.plain sound.short change).2.2
  rcases userFlagsChange_cases flags change with
    ⟨new, start, first, same, wanted⟩ | ⟨old, same, wanted⟩ | ⟨code, failed, same⟩
  · have before : (∀ flag ∈ start, flag.isAlphanum = true) ∧ start.Nodup := by
      rcases first with rfl | rfl
      · exact ⟨sound.letters, sound.distinct⟩
      · exact ⟨fun _ member => absurd member not_mem_nil, nodup_nil⟩
    obtain ⟨letters, distinct⟩ := foldl_addFlag_sound new before.1 before.2
    rw [same] at exclusive short ⊢
    exact ⟨⟨short, letters, distinct, exclusive⟩, fun _ => wanted.symm, absurd rfl⟩
  · rw [same] at exclusive short ⊢
    exact ⟨⟨short, fun flag member => sound.letters flag (mem_of_mem_filter member),
      sound.distinct.filter _, exclusive⟩, fun _ => wanted.symm, absurd rfl⟩
  · rw [same]
    exact ⟨sound, fun done => absurd done failed, fun _ => rfl⟩

end Sound

/-- Edits of sound flags are operations on sets, and leave them sound, over every sequence. -/
theorem user_flags_edits (flags : Text) (sound : FlagsSound flags) (changes : List Text) :
    ∃ before, FlagsSound before ∧
      changes.foldlM (fun cells change => (userFlagsChangeIn cells change).map Prod.snd)
        (padded flags) = some (padded before) ∧
      ∀ change, ∃ code after, userFlagsChangeIn (padded before) change =
          some (code, padded after) ∧ FlagsSound after ∧
        (code = 0 → after = wantedFlags before change) ∧ (code ≠ 0 → after = before) := by
  induction changes generalizing flags with
  | nil =>
    refine ⟨flags, sound, rfl, fun change => ⟨_, _, ?_, sound.change change⟩⟩
    exact (userFlagsChangeIn_padded sound.plain sound.short change).1
  | cons change changes ih =>
    obtain ⟨before, sound', done, next⟩ := ih _ (sound.change change).1
    refine ⟨before, sound', ?_, next⟩
    rw [foldlM_cons, (userFlagsChangeIn_padded sound.plain sound.short change).1]
    exact done

theorem user_flags_edits_two : ∃ before, FlagsSound before ∧
    ["+GG".toList, "-1".toList].foldlM
        (fun cells change => (userFlagsChangeIn cells change).map Prod.snd)
        (padded "123".toList) = some (padded before) := by
  obtain ⟨before, sound, done, _⟩ := user_flags_edits "123".toList
    ⟨by decide, all_eq_true.mp rfl, by decide, by decide⟩ ["+GG".toList, "-1".toList]
  exact ⟨before, sound, done⟩

/-- The commands that edit flags. SITE COLOR finds something on the stack. -/
inductive FlagCommand where
  | color (junk : Cells Char maxFlagsNum)
  | change (newflags : Text)

namespace FlagCommand

def run (s : Option (List Char)) : FlagCommand → Option (List Char)
  | .color junk => s.bind (siteColor junk.val)
  | .change newflags => s.bind fun cells => (userFlagsChangeIn cells newflags).map Prod.snd

/-- No index is outside of the array, which has its end and zeros behind it. -/
def Kept (s : Option (List Char)) : Prop :=
  ∃ flags, s = some (padded flags) ∧ '\x00' ∉ flags ∧ flags.length < maxFlagsNum

/-- SITE COLOR has a cell to spare if it adds the flag, and zeros behind what it writes. -/
def Fits (s : Option (List Char)) : FlagCommand → Prop
  | .color junk => ∀ cells ∈ s, ('5' ∈ text cells ∨ (text cells).length + 1 < maxFlagsNum) ∧
      ∀ c ∈ junk.val.drop ((toggledColor (text cells)).length + 1), c = '\x00'
  | .change _ => True

/-- Two SITE COLOR in a row leave the set of flags as it was. -/
def Restores (s : Option (List Char)) (commands : List FlagCommand) : Prop :=
  ∀ passed first second, passed ++ [.color first, .color second] <+: commands →
    ∃ cells after, passed.foldl run s = some cells ∧
      (passed ++ [.color first, .color second]).foldl run s = some after ∧
      ∀ flag, flag ∈ text after ↔ flag ∈ text cells

section Color

variable {flags : Text}

theorem length_toggledColor (fits : '5' ∈ flags ∨ flags.length + 1 < maxFlagsNum)
    (short : flags.length < maxFlagsNum) : (toggledColor flags).length < maxFlagsNum := by
  unfold toggledColor
  split
  · exact Nat.lt_of_le_of_lt (length_filter_le _ _) short
  · rename_i absent
    rw [length_append]
    exact fits.resolve_left absent

theorem plain_toggledColor (plain : '\x00' ∉ flags) : '\x00' ∉ toggledColor flags := by
  unfold toggledColor
  split
  · exact fun null => plain (mem_of_mem_filter null)
  · simpa using plain

theorem mem_toggledColor_twice (flag : Char) :
    flag ∈ toggledColor (toggledColor flags) ↔ flag ∈ flags := by
  unfold toggledColor
  by_cases here : '5' ∈ flags <;> by_cases same : flag = '5' <;> simp [here, same]

theorem siteColor_padded (plain : '\x00' ∉ flags) (short : flags.length < maxFlagsNum)
    (junk : Cells Char maxFlagsNum) :
    siteColor junk.val (padded flags) =
      if (toggledColor flags).length < maxFlagsNum then
        some (toggledColor flags ++ '\x00' :: junk.val.drop ((toggledColor flags).length + 1))
      else none := by
  rw [siteColor, terminated_padded plain short, bind_some, place, junk.property,
    length_append, length_singleton, Nat.zero_add]
  simp only [take_zero, nil_append, append_assoc, cons_append,
    Nat.lt_iff_add_one_le]

/-- A SITE COLOR that keeps the array sound leaves the toggled flags in it. -/
theorem run_color_of_kept (plain : '\x00' ∉ flags) (short : flags.length < maxFlagsNum)
    {junk : Cells Char maxFlagsNum}
    (kept : Kept (run (some (padded flags)) (.color junk))) :
    run (some (padded flags)) (.color junk) = some (padded (toggledColor flags)) ∧
      (toggledColor flags).length < maxFlagsNum := by
  obtain ⟨_, done, plain', short'⟩ := kept
  have left := done
  rw [run, bind_some, siteColor_padded plain short] at left
  split at left
  · have same := congrArg text (some.inj left)
    rw [text_append (plain_toggledColor plain), text_padded plain' short'] at same
    rw [same]
    exact ⟨done, short'⟩
  · cases left

theorem kept_run_iff {s : Option (List Char)} (command : FlagCommand) (kept : Kept s) :
    Kept (run s command) ↔ Fits s command := by
  obtain ⟨flags, rfl, plain, short⟩ := kept
  cases command with
  | change newflags =>
    obtain ⟨same, plain', short'⟩ := userFlagsChangeIn_padded plain short newflags
    refine iff_of_true ⟨_, ?_, plain', short'⟩ trivial
    simp [run, same]
  | color junk =>
    have cells : Fits (some (padded flags)) (.color junk) ↔
        ('5' ∈ flags ∨ flags.length + 1 < maxFlagsNum) ∧
          ∀ c ∈ junk.val.drop ((toggledColor flags).length + 1), c = '\x00' := by
      simp [Fits, text_padded plain short]
    rw [cells]
    constructor
    · intro kept
      obtain ⟨done, inside⟩ := run_color_of_kept plain short kept
      rw [run, bind_some, siteColor_padded plain short, if_pos inside,
        padded_eq inside] at done
      have zeros := (List.cons.inj (append_cancel_left (some.inj done))).2
      refine ⟨?_, fun c member => eq_of_mem_replicate (zeros ▸ member)⟩
      by_contra full
      obtain ⟨absent, most⟩ := not_or.mp full
      rw [toggledColor, if_neg absent, length_append] at inside
      exact most inside
    · rintro ⟨room, zeros⟩
      have inside := length_toggledColor room short
      refine ⟨_, ?_, plain_toggledColor plain, inside⟩
      rw [run, bind_some, siteColor_padded plain short, if_pos inside, padded_eq inside,
        eq_replicate_iff.mpr ⟨?_, zeros⟩]
      simp [junk.property]

/-- Where the array is kept sound, SITE COLOR undoes itself. -/
theorem restores_of_kept {s : Option (List Char)} {commands : List FlagCommand}
    (kept : Runs.Throughout run Kept s commands) : Restores s commands := by
  intro passed first second part
  have before := kept passed ((List.prefix_append _ _).trans part)
  have front : passed ++ [color first] <+: passed ++ [color first, color second] :=
    ⟨[color second], by simp⟩
  have between := kept _ (front.trans part)
  have after := kept _ part
  obtain ⟨flags, here, plain, short⟩ := before
  rw [foldl_append, here] at between after
  obtain ⟨once, short'⟩ := run_color_of_kept plain short between
  rw [foldl_cons, once] at after
  obtain ⟨twice, short''⟩ := run_color_of_kept (plain_toggledColor plain) short' after
  refine ⟨_, padded (toggledColor (toggledColor flags)), here, ?_, fun flag => ?_⟩
  · rw [foldl_append, here, foldl_cons, once]
    exact twice
  · rw [text_padded (plain_toggledColor (plain_toggledColor plain)) short'',
      text_padded plain short]
    exact mem_toggledColor_twice flag

end Color

end FlagCommand

/-- SITE COLOR and `user_flags_change` keep the array sound, and SITE COLOR undoes itself,
exactly if each SITE COLOR has a cell to spare and finds zeros on the stack. -/
theorem site_color_sound_iff (flags : Text) (plain : '\x00' ∉ flags)
    (short : flags.length < maxFlagsNum) (commands : List FlagCommand) :
    (Runs.Throughout FlagCommand.run FlagCommand.Kept (some (padded flags)) commands ∧
        FlagCommand.Restores (some (padded flags)) commands) ↔
      Runs.Always FlagCommand.run FlagCommand.Fits (some (padded flags)) commands := by
  have start : FlagCommand.Kept (some (padded flags)) := ⟨flags, rfl, plain, short⟩
  rw [← Runs.throughout_iff_always FlagCommand.run FlagCommand.Kept FlagCommand.Fits
    (fun s command => FlagCommand.kept_run_iff command) commands _ start]
  exact ⟨And.left, fun kept => ⟨kept, FlagCommand.restores_of_kept kept⟩⟩

def stackOf (c : Char) : Cells Char maxFlagsNum :=
  ⟨List.replicate maxFlagsNum c, length_replicate⟩

theorem site_color_sound_iff_zeros :
    Runs.Throughout FlagCommand.run FlagCommand.Kept (some (padded "1G".toList))
      [.color (stackOf '\x00'), .change "+2".toList, .color (stackOf '\x00')] := by
  refine And.left ((site_color_sound_iff "1G".toList (by decide) (by decide) _).mpr ?_)
  refine ⟨fun cells here => ?_, trivial, fun cells here => ?_, trivial⟩
  · cases here
    exact ⟨.inr (by decide), fun c => eq_of_mem_replicate ∘ mem_of_mem_drop⟩
  · cases here
    exact ⟨.inr (by decide), fun c => eq_of_mem_replicate ∘ mem_of_mem_drop⟩

/-- With 31 flags SITE COLOR writes behind its array. With fewer, what it finds on the stack
can become a flag when one flag is added twice. -/
theorem site_color_unsound :
    (∀ junk : Cells Char maxFlagsNum,
      siteColor junk.val (padded "1234678ABCDEFGHIJKLMNPQRSTUVWXY".toList) = none) ∧
    ([.color (stackOf 'O'), .change "+BB".toList].foldl FlagCommand.run
      (some (padded "A".toList))).map text = some "A5BO".toList := by
  refine ⟨fun junk => ?_, by decide⟩
  rw [FlagCommand.siteColor_padded (by decide) (by decide), if_neg (by decide)]

end Wzdftpd
