import Wzdftpd.ListMatch
import Wzdftpd.SessionCommands

/- What `do_list` passes to `list` (wzd_ClientThread.c): a directory and a mask, taken from
one argument. -/
namespace Wzdftpd

open TextBuffer List

/-- The directory and the mask that `do_list` passes on, or its outcome without a listing. -/
def listCall (w : World) (user : User) (arg : Text) (ctx : Context) :
    Except Outcome (Text × Text) :=
  if ¬user.may .list then .error (answer ctx .noPerm 550 ["LIST", "No access"])
  else if arg.length > maxPath - 10 then
    .error (answer ctx .paramBig 501 ["Argument or parameter too big."])
  else if ctx.pasvSocket = none ∧ ctx.dataport = 0 then
    .error (answer ctx .noDataCtx 501 ["No data connection available."])
  else if ctx.state = .xfer then .error (answer ctx .xferProgress 491 [])
  else
    let ctx := { ctx with resume := 0 }
    match listArgument arg with
    | .error (ret, text) => .error ⟨ret, ctx, [.message 501 text]⟩
    | .ok (cmd, mask) =>
      match checkpathNew w.fs w.server ctx (some cmd) with
      | ⟨.ok, some path⟩ =>
        if ['.', '.'] <+: mask then .error ⟨.paramInvalid, ctx, [resolveError "LIST" .ok]⟩
        else if checkPermFull w.fs w user .list (removeTrailingSlash path) ≠ 0 then
          .error (answer ctx .noPerm 550 ["LIST", "No access"])
        else .ok (removeTrailingSlash path, if mask = [] then ['*'] else mask)
      | ⟨ret, _⟩ => .error ⟨.paramInvalid, ctx, [resolveError "LIST" ret]⟩

/-- What `do_list` does with them. -/
def runList (w : World) (user : User) (ctx : Context) : Except Outcome (Text × Text) → Outcome
  | .ok _ => sendListing w user { ctx with resume := 0 }
  | .error out => out

/-- A directory is listed exactly where there is one to pass on. -/
theorem doList_eq (w : World) (user : User) (arg : Text) (ctx : Context) :
    doList w user arg ctx = runList w user ctx (listCall w user arg ctx) := by
  unfold doList listCall
  split
  · rfl
  split
  · rfl
  split
  · rfl
  split
  · rfl
  dsimp only
  cases listArgument arg with
  | error refusal => rfl
  | ok parts =>
    dsimp only
    generalize checkpathNew w.fs w.server { ctx with resume := 0 } (some parts.1) = checked
    obtain ⟨ret, path⟩ := checked
    cases ret with
    | ok =>
      cases path with
      | none => rfl
      | some path =>
        dsimp only
        split
        · rfl
        · split <;> rfl
    | _ => rfl

section Argument

variable {options : List Text} {dir place mask : Text}

def optionText (options : List Text) : Text := options.flatMap fun option => '-' :: option ++ [' ']

theorem skipOptions_eq (blank : ∀ option ∈ options, ' ' ∉ option) {rest : Text}
    (other : rest.head? ≠ some '-') : ∀ turns, options.length ≤ turns →
    skipOptions turns (optionText options ++ rest) = rest := by
  induction options with
  | nil =>
    intro turns _
    rw [optionText, flatMap_nil, nil_append]
    unfold skipOptions
    split
    · exact absurd rfl other
    · rfl
  | cons option options ih =>
    intro turns enough
    obtain ⟨turns, rfl⟩ : ∃ n, turns = n + 1 := ⟨turns - 1, by simp at enough; omega⟩
    have all : ∀ c ∈ option, decide (c ≠ ' ') = true := by
      intro c member
      rw [decide_eq_true_eq]
      exact fun same => blank option mem_cons_self (same ▸ member)
    have shape : optionText (option :: options) ++ rest =
        '-' :: (option ++ ' ' :: (optionText options ++ rest)) := by
      simp [optionText]
    rw [shape, skipOptions, dropWhile_append_of_pos all]
    exact ih (forall_mem_cons.mp blank).2 turns (by simpa using enough)

theorem options_length_le (options : List Text) (rest : Text) :
    options.length ≤ (optionText options ++ rest).length := by
  induction options with
  | nil => exact Nat.zero_le _
  | cons option options ih =>
    simp only [optionText, flatMap_cons, length_append, length_cons] at ih ⊢
    omega

theorem dropSlash_mask (some' : mask ≠ []) (noSlash : '/' ∉ mask) (front : Text) :
    dropSlash (front ++ mask) = front ++ mask := by
  rw [dropSlash, if_neg]
  obtain ⟨start, c, rfl⟩ : ∃ start c, mask = start ++ [c] :=
    ⟨_, _, (dropLast_append_getLast some').symm⟩
  rw [← append_assoc, getLast?_concat]
  intro slash
  exact noSlash (by simp [Option.some.inj slash])

theorem listArgument_mask (blank : ∀ option ∈ options, ' ' ∉ option) (noSlash : '/' ∉ mask)
    (wild : hasWildcard mask) (other : mask.head? ≠ some '-') :
    listArgument (optionText options ++ mask) = .ok ([], mask) := by
  have some' : mask ≠ [] := by
    rintro rfl
    cases wild
  have skipped := skipOptions_eq blank other _ (options_length_le options mask)
  have kept := dropSlash_mask some' noSlash []
  rw [nil_append] at kept
  have single : ¬['/', '/'] <+: mask := fun front => noSlash (front.subset (by simp))
  simp only [listArgument, skipped, kept]
  have bare : ¬hasWildcard ([] : Text) := by decide
  rw [if_neg fun both => noSlash both.2.1, if_neg (not_not_intro wild), if_neg noSlash,
    if_neg bare, if_neg single]

/-- Of a directory and a mask only the start of the mask is left, as a path. -/
theorem listArgument_dir (blank : ∀ option ∈ options, ' ' ∉ option) (noSlash : '/' ∉ mask)
    (wild : hasWildcard mask) (other : (dir ++ '/' :: mask).head? ≠ some '-') {parts : Text × Text}
    (taken : listArgument (optionText options ++ (dir ++ '/' :: mask)) = .ok parts) :
    parts = (mask.take dir.length, []) ∧ hasWildcard (mask.take dir.length) = false := by
  have some' : mask ≠ [] := by
    rintro rfl
    cases wild
  have skipped := skipOptions_eq blank other _ (options_length_le options (dir ++ '/' :: mask))
  have kept := dropSlash_mask some' noSlash (dir ++ ['/'])
  rw [append_assoc, singleton_append] at kept
  have wild' : hasWildcard (dir ++ '/' :: mask) := by
    simp only [hasWildcard, decide_eq_true_eq] at wild ⊢
    rcases wild with star | one
    · exact Or.inl (by simp [star])
    · exact Or.inr (by simp [one])
  have last : ((dir ++ '/' :: mask).reverse.takeWhile (· ≠ '/')).reverse = mask := by
    have all : ∀ c ∈ mask.reverse, decide (c ≠ '/') = true := by
      intro c member
      rw [decide_eq_true_eq]
      exact fun slash => noSlash (slash ▸ mem_reverse.mp member)
    rw [reverse_append, reverse_cons, append_assoc, takeWhile_append_of_pos all,
      singleton_append, takeWhile_cons_of_neg (by simp), append_nil,
      reverse_reverse]
  have before : (dir ++ '/' :: mask).length - mask.length - 1 = dir.length := by
    rw [length_append, length_cons]
    omega
  have slash : '/' ∈ dir ++ '/' :: mask := by simp
  simp only [listArgument, skipped, kept, last, before] at taken
  split at taken
  · cases taken
  split at taken
  · cases taken
  · rename_i plain
    split at taken
    · cases taken
    · cases taken
      exact ⟨rfl, Bool.eq_false_iff.mpr plain⟩

theorem star_differs (some' : mask ≠ []) {n : Nat} (positive : 0 < n)
    (plain : hasWildcard (mask.take n) = false) :
    ∃ name, name ≠ [] ∧ listMatch name ['*'] ≠ listMatch name mask := by
  obtain ⟨c, _, rfl⟩ := exists_cons_of_ne_nil some'
  obtain ⟨n, rfl⟩ : ∃ k, n = k + 1 := ⟨n - 1, by omega⟩
  simp only [hasWildcard, take_succ_cons, decide_eq_false_iff_not, not_or, mem_cons]
    at plain
  obtain ⟨⟨noStar, _⟩, noOne, _⟩ := plain
  have every : ∀ name, listMatch name ['*'] = true :=
    fun name => listMatch_star.mpr (Or.inl rfl)
  obtain ⟨x, other⟩ : ∃ x, c ≠ x := by
    by_cases same : c = 'a'
    · exact ⟨'b', by rw [same]; decide⟩
    · exact ⟨'a', same⟩
  refine ⟨[x], by simp, ?_⟩
  rw [every, listMatch_first (Ne.symm noStar) (not_or.mpr ⟨Ne.symm noOne, other⟩)]
  decide

end Argument

/-- LIST is given options, a place and a mask. The place is empty or a directory and a
separator. The directory is listed with a filter that lets the names of the mask pass exactly
when no place is given. -/
theorem doList_asked_iff (w : World) (user : User) (ctx : Context) (options : List Text)
    (dir place mask path : Text) (may : user.may .list)
    (connected : ctx.pasvSocket ≠ none ∨ ctx.dataport ≠ 0) (idle : ctx.state ≠ .xfer)
    (fits : (optionText options ++ (place ++ mask)).length ≤ maxPath - 10)
    (blank : ∀ option ∈ options, ' ' ∉ option)
    (form : place = [] ∧ dir = [] ∨
      place = dir ++ ['/'] ∧ dir ≠ [] ∧ hasWildcard dir = false)
    (other : (place ++ mask).head? ≠ some '-') (noSlash : '/' ∉ mask) (wild : hasWildcard mask)
    (dots : ¬['.', '.'] <+: mask)
    (checked : checkpathNew w.fs w.server { ctx with resume := 0 } (some dir) =
      ⟨.ok, some path⟩)
    (allowed : checkPermFull w.fs w user .list (removeTrailingSlash path) = 0) :
    (∃ filter, listCall w user (optionText options ++ (place ++ mask)) ctx =
        .ok (removeTrailingSlash path, filter) ∧
      ∀ name, name ≠ [] → listMatch name filter = listMatch name mask) ↔ place = [] := by
  have some' : mask ≠ [] := by
    rintro rfl
    cases wild
  have available : ¬(ctx.pasvSocket = none ∧ ctx.dataport = 0) :=
    fun both => connected.elim (absurd both.1) (absurd both.2)
  simp only [listCall]
  rw [if_neg (not_not_intro may), if_neg (Nat.not_lt.mpr fits), if_neg available, if_neg idle]
  constructor
  · rintro ⟨filter, called, same⟩
    rcases form with ⟨none', _⟩ | ⟨rfl, named, _⟩
    · exact none'
    rw [append_assoc, singleton_append] at called other
    cases taken : listArgument (optionText options ++ (dir ++ '/' :: mask)) with
    | error refusal =>
      rw [taken] at called
      cases called
    | ok parts =>
      obtain ⟨rfl, plain⟩ := listArgument_dir blank noSlash wild other taken
      obtain ⟨name, full, differs⟩ :=
        star_differs some' (length_pos_iff.mpr named) plain
      rw [taken] at called
      dsimp only at called
      split at called
      · split at called
        · cases called
        · split at called
          · cases called
          · rw [if_pos rfl, Except.ok.injEq, Prod.mk.injEq] at called
            exact absurd (called.2 ▸ same name full) differs
      · cases called
  · rintro rfl
    obtain ⟨_, rfl⟩ : [] = [] ∧ dir = [] := form.elim id fun impossible => by
      simp at impossible
    refine ⟨mask, ?_, fun _ _ => rfl⟩
    rw [nil_append] at other ⊢
    simp only [listArgument_mask blank noSlash wild other, checked]
    rw [if_neg dots, if_neg (not_not_intro allowed), if_neg some']

/-- The directories `/srv/d` and `/srv/f`. -/
def listWorld : World :=
  let fs := FileSystem.ofList [("/srv".toList, .dir), ("/srv/d".toList, .dir),
    ("/srv/f".toList, .dir)]
  { server := .single srvUser, fs := fs, fsAfter := fs }

def listContext : Context := { srvContext with dataport := 4000 }

theorem doList_asked_iff_mask : ∃ filter,
    listCall listWorld srvUser "-a *.c".toList listContext = .ok ("/srv".toList, filter) ∧
      ∀ name, name ≠ [] → listMatch name filter = listMatch name "*.c".toList :=
  (doList_asked_iff listWorld srvUser listContext ["a".toList] [] [] "*.c".toList "/srv/".toList
    (by decide) (Or.inr (by decide)) (by decide) (by decide) (by decide) (Or.inl ⟨rfl, rfl⟩)
    (by decide) (by decide) (by decide) (by decide) (by decide) (by decide)).mpr rfl

/-- The masks of a directory: one is refused, and another lists a different directory. -/
theorem doList_loses_dir :
    checkpathNew listWorld.fs listWorld.server listContext (some "d".toList) =
        ⟨.ok, some "/srv/d/".toList⟩ ∧
      (doList listWorld srvUser "d/*".toList listContext).ret = .paramInvalid ∧
      listCall listWorld srvUser "d/f*".toList listContext = .ok ("/srv/f".toList, ['*']) :=
  ⟨by decide, by decide, rfl⟩

end Wzdftpd
