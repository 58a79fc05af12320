import Wzdftpd.PermLineCheck
import Wzdftpd.VfsCookies

/- The restriction of a virtual directory (wzd_vfs.c): a line of the same tokens as a
permission, which is not stored but read again for every user. The copy that is tokenized
is written into while it is read; a read behind the copy makes the check return `none`. -/
namespace Wzdftpd

open PermToken List

def isMark (c : Char) : Bool := c = '=' ∨ c = '-' ∨ c = '+' ∨ c = '*'

/-- The start of the loop in `vfs_match_perm`: whether the token is negated, its type and
where the rest of it starts. At a character without a meaning the loop goes on with the
next one, which need not belong to the token. -/
def vfsMark (buffer : Text) : Nat → Nat → Option (Bool × Char × Nat)
  | 0, _ => none
  | fuel + 1, token =>
    match buffer.drop token with
    | [] => none
    | c :: rest =>
      if c = '!' then
        match rest with
        | [] => none
        | c :: _ =>
          if isMark c then some (true, c, token + 2) else vfsMark buffer fuel (token + 2)
      else if isMark c then some (false, c, token + 1)
      else vfsMark buffer fuel (token + 1)

section

variable (getGroupByID : Nat → Option Group) (user : User)

/-- The cases of the `switch`. -/
def vfsTest (buffer : Text) (c : Char) (token : Nat) : Option Bool :=
  if c = '=' then some (sameLetters (bufferText (buffer.drop token)) user.username)
  else if c = '-' then
    some (user.groups.any (isNamed getGroupByID (bufferText (buffer.drop token))))
  else if c = '+' then
    -- `strchr` finds the end of the string too
    (buffer.drop token).head?.map fun c => c = '\x00' ∨ user.has c
  else some true

/-- The loop in `vfs_match_perm`, from a saved position of the tokenizer. -/
def vfsTokens : Nat → Text → Nat → Option Int
  | 0, _, _ => none
  | fuel + 1, buffer, saved =>
    match strtokAt blanks buffer saved with
    | none => none
    | some (none, _, _) => some 0
    | some (some token, buffer, saved) =>
      match vfsMark buffer buffer.length token with
      | none => none
      | some (negate, c, token) =>
        match vfsTest getGroupByID user buffer c token with
        | none => none
        | some true => some (if negate then 0 else 1)
        | some false =>
          vfsTokens fuel (if negate then buffer.set (token - 1) '!' else buffer) saved

/-- `vfs_match_perm`. Every token takes a character of the line, so that the fuel is
enough. -/
def vfsMatchPerm (perms : Option Text) : Option Int :=
  match perms with
  | none => some 1
  | some line => vfsTokens getGroupByID user (line.length + 1) (line ++ ['\x00']) 0

variable {token : PermToken}

theorem isMark_mark (who : PermTarget) : isMark who.mark = true := by
  cases who <;> rfl

/-- Where the name of a token stands. -/
def PermToken.nameAt (token : PermToken) (front : Text) : Nat :=
  front.length + token.sign.length + 1

theorem vfsMark_text (token : PermToken) (front rest : Text) (fuel : Nat) :
    vfsMark (front ++ token.text ++ rest) (fuel + 1) front.length =
      some (token.negated, token.who.mark, token.nameAt front) := by
  have mark := isMark_mark token.who
  have unsigned : token.who.mark ≠ '!' := by
    cases token.who <;> simp [PermTarget.mark]
  rw [vfsMark]
  cases negated : token.negated with
  | false => simp [text, sign, nameAt, negated, mark, unsigned]
  | true => simp [text, sign, nameAt, negated, mark]

theorem drop_nameAt (token : PermToken) (front rest : Text) :
    (front ++ token.text ++ rest).drop (token.nameAt front) = token.who.name ++ rest := by
  have shape : front ++ token.text ++ rest =
      front ++ token.sign ++ [token.who.mark] ++ (token.who.name ++ rest) := by
    simp [text]
  have place : token.nameAt front = (front ++ token.sign ++ [token.who.mark]).length := by
    simp [nameAt]
    omega
  simp [shape, place]

/-- The test of a token looks at the token alone. -/
theorem vfsTest_text (plain : ∀ c ∈ token.who.name, c ∉ blanks ∧ c ≠ '\x00') (front rest : Text) :
    vfsTest getGroupByID user (front ++ token.text ++ '\x00' :: rest) token.who.mark
        (token.nameAt front) = some (token.who.covers getGroupByID user) := by
  have read : bufferText (token.who.name ++ '\x00' :: rest) = token.who.name :=
    bufferText_word (fun c member => (plain c member).2) rest
  unfold vfsTest
  rw [drop_nameAt, read]
  cases who : token.who with
  | any => rfl
  | user name => rfl
  | group name => rfl
  | flag letter =>
    have notNul : letter ≠ '\x00' := (plain letter (by rw [who]; exact mem_cons_self)).2
    simp [PermTarget.mark, PermTarget.name, PermTarget.covers, notNul]

theorem set_nameAt (token : PermToken) (front rest : Text) : ∃ marked : Text,
    (front ++ token.text ++ rest).set (token.nameAt front - 1) '!' = front ++ marked ++ rest ∧
      marked.length = token.text.length := by
  refine ⟨token.sign ++ '!' :: token.who.name, ?_, ?_⟩
  · have shape : front ++ token.text ++ rest =
        (front ++ token.sign) ++ token.who.mark :: (token.who.name ++ rest) := by
      simp [text]
    have place : token.nameAt front - 1 = (front ++ token.sign).length := by
      simp [nameAt]
    rw [shape, place]
    simp
  · simp [text]

theorem vfsTokens_token {d : Char} (plain : ∀ c ∈ token.who.name, c ∉ blanks ∧ c ≠ '\x00')
    (ends : d = '\x00' ∨ d ∈ blanks) (before rest : Text) (fuel : Nat) :
    ∃ marked : Text,
      vfsTokens getGroupByID user (fuel + 1) (before ++ token.text ++ d :: rest) before.length =
        if token.who.covers getGroupByID user then some (if token.negated then 0 else 1)
        else vfsTokens getGroupByID user fuel (before ++ marked ++ '\x00' :: rest)
          ((before ++ marked).length + if d = '\x00' then 0 else 1) := by
  have nonempty : token.text ≠ [] := by simp [text]
  have word := strtokAt_word nonempty (token.text_plain plain) ends before rest
  obtain ⟨more, size⟩ : ∃ more, (before ++ token.text ++ '\x00' :: rest).length = more + 1 :=
    ⟨_, length_append.trans rfl⟩
  have mark := vfsMark_text token before ('\x00' :: rest) more
  have test := vfsTest_text getGroupByID user plain before rest
  simp only [vfsTokens, word, size, mark, test]
  cases covered : token.who.covers getGroupByID user with
  | true => exact ⟨[], rfl⟩
  | false =>
    cases negated : token.negated with
    | false => exact ⟨token.text, rfl⟩
    | true =>
      obtain ⟨marked, written, length⟩ := set_nameAt token before ('\x00' :: rest)
      refine ⟨marked, ?_⟩
      simp [length, ← written]

theorem firstGrants_cons (token : PermToken) (tokens : List PermToken) :
    firstGrants getGroupByID user (token :: tokens) =
      if token.who.covers getGroupByID user then !token.negated
      else firstGrants getGroupByID user tokens := by
  unfold firstGrants
  rw [find?_cons]
  cases token.who.covers getGroupByID user <;> rfl

theorem vfsTokens_laid {tokens : List PermToken} {line : Text} (laid : Laid tokens line)
    (plain : ∀ token ∈ tokens, ∀ c ∈ token.who.name, c ∉ blanks ∧ c ≠ '\x00') :
    vfsTokens getGroupByID user (line.length + 1) (line ++ ['\x00']) 0 =
      some (if firstGrants getGroupByID user tokens then 1 else 0) := by
  refine loop_laid (fun fuel buffer saved () => vfsTokens getGroupByID user fuel buffer saved)
    (fun tokens () => some (if firstGrants getGroupByID user tokens then 1 else 0)) ?_ ?_ ?_ laid
    plain [] () (Nat.lt_succ_self _)
  · intro fuel before rest _
    simp only [vfsTokens, strtokAt_nul]
    rfl
  · intro fuel buffer saved buffer' saved' _ same
    rw [vfsTokens, vfsTokens, same]
  intro token plain d ends before rest fuel _
  obtain ⟨marked, tested⟩ := vfsTokens_token getGroupByID user plain ends before rest fuel
  refine ⟨marked, (), fun tokens later => ?_⟩
  rw [tested, later, firstGrants_cons]
  cases token.who.covers getGroupByID user with
  | false => rfl
  | true => cases token.negated <;> rfl

/-- A restriction line lets a user in exactly when the first token that matches the user is
there and is not negated. -/
theorem vfs_restriction_means_first_match (tokens : List PermToken) (line : Text)
    (laid : Laid tokens line)
    (plain : ∀ token ∈ tokens, ∀ c ∈ token.who.name, c ∉ blanks ∧ c ≠ '\x00') :
    vfsMatchPerm getGroupByID user (some line) =
      some (if firstGrants getGroupByID user tokens then 1 else 0) :=
  vfsTokens_laid getGroupByID user laid plain

end

/-- The line of `allButBob` for a user with another name. -/
theorem vfs_restriction_all_but_bob :
    vfsMatchPerm (fun _ => none) flaggedUser (some "!=bob *".toList) = some 1 := by
  have laid : Laid allButBob "!=bob *".toList :=
    .token ⟨true, .user "bob".toList⟩ (by decide : ' ' ∈ blanks) (.last ⟨false, .any⟩)
  refine (vfs_restriction_means_first_match (fun _ => none) flaggedUser allButBob _ laid
    ?_).trans ?_
  · intro token member
    simp only [allButBob, mem_cons, not_mem_nil, or_false] at member
    rcases member with rfl | rfl
    · exact all_iff_forall_prop.mp (by decide)
    · intro c none
      cases none
  · decide

/-- A server with the functions of wzd_vfs.c themselves, where `stack` is what the buffer of the
cookies holds before. -/
def Server.withVfs (server : Server) (stack : Text) : Server :=
  { server with
    vfsReplaceCookies := fun path user =>
      (Wzdftpd.vfsReplaceCookies server user.uid path stack).join
    vfsMatchPerm := fun perms user =>
      Wzdftpd.vfsMatchPerm server.getGroupByID user perms = some 1 }

/-- The paths that they make end before a null character, as `dir_open` needs them. -/
theorem Server.null_notMem_withVfs {server : Server} {stack path out : Text} {user : User}
    (replaced : (server.withVfs stack).vfsReplaceCookies path user = some out) :
    '\x00' ∉ out := by
  have made := Option.join_eq_some_iff.mp replaced
  unfold Wzdftpd.vfsReplaceCookies at made
  split at made
  · cases made
  · obtain ⟨left, _, ended⟩ := Option.bind_eq_some_iff.mp made
    split at ended
    · cases ended
    · obtain ⟨_, _, same⟩ := Option.map_eq_some_iff.mp ended
      cases same
      exact TextBuffer.null_notMem_text

end Wzdftpd
