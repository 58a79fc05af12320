import Mathlib.Data.Bool.AllAny
import Wzdftpd.CommandPerm

/- What `perm_add_perm` stores for a line of well-formed tokens: the entries of the tokens,
without the ones that repeat an earlier entry up to the case of letters. -/
namespace Wzdftpd

open FirstMatch List Option

/-- Whom a token of a permission line is about. -/
inductive PermTarget where
  | any
  | user (name : Text)
  | group (name : Text)
  | flag (letter : Char)
  deriving DecidableEq, Repr

namespace PermTarget

def mark : PermTarget → Char
  | any => '*'
  | user _ => '='
  | group _ => '-'
  | flag _ => '+'

def kind : PermTarget → CpKind
  | any => .user
  | user _ => .user
  | group _ => .group
  | flag _ => .flag

def name : PermTarget → Text
  | any => []
  | user name => name
  | group name => name
  | flag letter => [letter]

def stored : PermTarget → Text
  | any => ['*']
  | who => who.name

end PermTarget

structure PermToken where
  negated : Bool
  who : PermTarget
  deriving DecidableEq, Repr

namespace PermToken

def sign (token : PermToken) : Text := if token.negated then ['!'] else []

def text (token : PermToken) : Text := token.sign ++ token.who.mark :: token.who.name

def entry (token : PermToken) : CommandEntry := ⟨token.sign ++ token.who.stored, token.who.kind⟩

/-- The name is one word, and the entry has room for it. -/
structure WellFormed (token : PermToken) : Prop where
  plain : ∀ c ∈ token.who.name, c ∉ blanks ∧ c ≠ '\x00'
  fits : token.entry.target.length < 256

instance (token : PermToken) : Decidable token.WellFormed :=
  decidable_of_iff ((token.who.name.all fun c => c ∉ blanks ∧ c ≠ '\x00') = true ∧
      token.entry.target.length < 256)
    ⟨fun ⟨all, fits⟩ => ⟨all_iff_forall_prop.mp all, fits⟩,
      fun wellFormed => ⟨all_iff_forall_prop.mpr wellFormed.plain, wellFormed.fits⟩⟩

end PermToken

/-- The tokens of a line, separated by blanks. -/
inductive Laid : List PermToken → Text → Prop
  | nil : Laid [] []
  | blank {c : Char} {tokens : List PermToken} {line : Text} (blank : c ∈ blanks)
      (rest : Laid tokens line) : Laid tokens (c :: line)
  | last (token : PermToken) : Laid [token] token.text
  | token {c : Char} (token : PermToken) {tokens : List PermToken} {line : Text}
      (blank : c ∈ blanks) (rest : Laid tokens line) :
      Laid (token :: tokens) (token.text ++ c :: line)

section Parsing

theorem set_length_append (front back : Text) (c d : Char) :
    (front ++ c :: back).set front.length d = front ++ d :: back := by
  simp

theorem nul_not_blank : '\x00' ∉ blanks := by decide

theorem strtokAt_nul (before rest : Text) :
    strtokAt blanks (before ++ '\x00' :: rest) before.length =
      some (none, before ++ '\x00' :: rest, before.length) := by
  have skipped : ('\x00' :: rest).takeWhile (· ∈ blanks) = [] :=
    takeWhile_cons_of_neg (by decide)
  simp [strtokAt, skipped]

theorem strtokAt_blank {c : Char} (blank : c ∈ blanks) (before rest : Text) :
    strtokAt blanks (before ++ c :: rest) before.length =
      strtokAt blanks (before ++ [c] ++ rest) (before ++ [c]).length := by
  have skipped : (c :: rest).takeWhile (· ∈ blanks) = c :: rest.takeWhile (· ∈ blanks) :=
    takeWhile_cons_of_pos (by simp [blank])
  have place (n : Nat) : before.length + (n + 1) = (before ++ [c]).length + n := by
    rw [length_append, length_singleton]
    omega
  have buffer : before ++ c :: rest = before ++ [c] ++ rest := by
    simp
  unfold strtokAt
  rw [drop_left, drop_left, skipped, length_cons, place, buffer]

/-- A word is the token, and its end is marked in the buffer. -/
theorem strtokAt_word {word : Text} {d : Char} (nonempty : word ≠ [])
    (plain : ∀ c ∈ word, c ∉ blanks ∧ c ≠ '\x00') (ends : d = '\x00' ∨ d ∈ blanks)
    (before rest : Text) :
    strtokAt blanks (before ++ word ++ d :: rest) before.length =
      some (some before.length, before ++ word ++ '\x00' :: rest,
        (before ++ word).length + if d = '\x00' then 0 else 1) := by
  obtain ⟨c, more, rfl⟩ := exists_cons_of_ne_nil nonempty
  have head := plain c mem_cons_self
  have skipped : (c :: more ++ d :: rest).takeWhile (· ∈ blanks) = [] := by
    exact takeWhile_cons_of_neg (by simp [head.1])
  have word : (c :: more ++ d :: rest).takeWhile (fun c => c ∉ blanks ∧ c ≠ '\x00') =
      c :: more := by
    apply takeWhile_word
    · intro x member
      exact decide_eq_true (plain x member)
    · apply decide_eq_false
      rintro ⟨notBlank, notNul⟩
      exact ends.elim notNul notBlank
  have dropped : (before ++ (c :: more ++ d :: rest)).drop (before.length + (c :: more).length) =
      d :: rest := by
    simp
  rw [append_assoc, strtokAt, drop_left, skipped]
  simp only [length_nil, Nat.add_zero, drop_left]
  rw [word, dropped]
  simp only [cons_append, if_neg head.2]
  split
  · rename_i nul
    simp [nul]
  · rw [← cons_append, ← append_assoc, ← length_append, set_length_append]

theorem scanToken_mark {m : Char} {cp : CpKind} (type : entryType m = some cp) (front rest : Text)
    (fuel : Nat) :
    scanToken (front ++ m :: rest) (fuel + 1) front.length =
      some (front ++ m :: rest, cp, if m = '*' then front.length else front.length + 1) := by
  have unsigned : m ≠ '!' := by
    rintro rfl
    exact absurd type nofun
  simp [scanToken, if_neg unsigned, type]

theorem scanToken_signed {m : Char} {cp : CpKind} (type : entryType m = some cp)
    (front rest : Text) (fuel : Nat) :
    scanToken (front ++ '!' :: m :: rest) (fuel + 1) front.length =
      some ((front ++ '!' :: m :: rest).set (if m = '*' then front.length else front.length + 1)
        '!', cp, if m = '*' then front.length else front.length + 1) := by
  simp [scanToken, type]

theorem entryType_mark (who : PermTarget) : entryType who.mark = some who.kind := by
  cases who <;> rfl

theorem bufferText_word {word : Text} (plain : ∀ c ∈ word, c ≠ '\x00') (rest : Text) :
    bufferText (word ++ '\x00' :: rest) = word := by
  apply takeWhile_word
  · intro c member
    exact decide_eq_true (plain c member)
  · rfl

variable {token : PermToken}

theorem PermToken.text_plain (plain : ∀ c ∈ token.who.name, c ∉ blanks ∧ c ≠ '\x00') :
    ∀ c ∈ token.text, c ∉ blanks ∧ c ≠ '\x00' := by
  intro c member
  rw [text, mem_append, mem_cons] at member
  rcases member with signed | rfl | named
  · have sign : c = '!' := by
      unfold sign at signed
      split at signed
      · exact mem_singleton.mp signed
      · exact absurd signed not_mem_nil
    subst sign
    decide
  · cases token.who <;> simp [PermTarget.mark, mem_blanks]
  · exact plain c named

theorem PermToken.WellFormed.text_plain (wellFormed : token.WellFormed) :
    ∀ c ∈ token.text, c ∉ blanks ∧ c ≠ '\x00' :=
  PermToken.text_plain wellFormed.plain

theorem PermToken.WellFormed.target_plain (wellFormed : token.WellFormed) :
    ∀ c ∈ token.entry.target, c ∉ blanks ∧ c ≠ '\x00' := by
  intro c member
  rw [entry, mem_append] at member
  rcases member with signed | named
  · exact wellFormed.text_plain c (mem_append_left _ signed)
  cases who : token.who with
  | any =>
    rw [who, PermTarget.stored, mem_singleton] at named
    subst named
    decide
  | user name | group name | flag letter =>
    exact wellFormed.plain c (who ▸ named)

theorem PermTarget.stored_eq (who : PermTarget) :
    who.stored = if who.mark = '*' then who.mark :: who.name else who.name := by
  cases who <;> rfl

/-- The scan of a token finds the entry that the token is stored as. In front of a name
the sign is written over the mark. -/
theorem scanToken_text (wellFormed : token.WellFormed) (front rest : Text) (fuel : Nat) :
    ∃ marked target,
      scanToken (front ++ token.text ++ '\x00' :: rest) (fuel + 1) front.length =
        some (front ++ marked ++ '\x00' :: rest, token.entry.cp, target) ∧
      marked.length = token.text.length ∧
      bufferText ((front ++ marked ++ '\x00' :: rest).drop target) = token.entry.target := by
  have type := entryType_mark token.who
  have read := bufferText_word (fun c member => (wellFormed.target_plain c member).2) rest
  have shape := token.who.stored_eq
  have plain := scanToken_mark type front (token.who.name ++ '\x00' :: rest) fuel
  have signed := scanToken_signed type front (token.who.name ++ '\x00' :: rest) fuel
  have next (c : Char) (text : Text) : (front ++ c :: text).drop (front.length + 1) = text := by
    simp
  simp only [PermToken.text, PermToken.entry, PermToken.sign, shape] at read ⊢
  by_cases star : token.who.mark = '*'
  · rw [if_pos star] at plain signed read ⊢
    cases negated : token.negated with
    | false =>
      rw [negated] at read
      refine ⟨token.who.mark :: token.who.name, front.length, ?_, rfl, ?_⟩
      · simpa using plain
      · simpa using read
    | true =>
      rw [negated] at read
      refine ⟨'!' :: token.who.mark :: token.who.name, front.length, ?_, rfl, ?_⟩
      · simpa using signed
      · simpa using read
  · rw [if_neg star] at plain signed read ⊢
    cases negated : token.negated with
    | false =>
      rw [negated] at read
      refine ⟨token.who.mark :: token.who.name, front.length + 1, ?_, rfl, ?_⟩
      · simpa using plain
      · simpa [next] using read
    | true =>
      rw [negated] at read
      refine ⟨'!' :: '!' :: token.who.name, front.length + 1, ?_, rfl, ?_⟩
      · simpa using signed
      · simpa [next] using read

theorem permFindCreateEntry_fits {target : Text} (fits : target.length < 256) (cp : CpKind)
    (entries : List CommandEntry) :
    permFindCreateEntry target cp entries = some (keep sameEntry entries ⟨target, cp⟩) := by
  unfold permFindCreateEntry keep
  split
  · rfl
  · simp [field, fits]

/-- One round of the loop stores the entry of a token. -/
theorem addTokens_token {d : Char} (wellFormed : token.WellFormed) (ends : d = '\x00' ∨ d ∈ blanks)
    (before rest : Text) (entries : List CommandEntry) (fuel : Nat) :
    ∃ marked : Text,
      addTokens (fuel + 1) (before ++ token.text ++ d :: rest) before.length entries =
      addTokens fuel (before ++ marked ++ '\x00' :: rest)
        ((before ++ marked).length + if d = '\x00' then 0 else 1)
        (keep sameEntry entries token.entry) := by
  have nonempty : token.text ≠ [] := by simp [PermToken.text]
  have word := strtokAt_word nonempty wellFormed.text_plain ends before rest
  obtain ⟨more, size⟩ : ∃ more, (before ++ token.text ++ '\x00' :: rest).length = more + 1 :=
    ⟨_, length_append.trans rfl⟩
  obtain ⟨marked, _, scanned, length, read⟩ := scanToken_text wellFormed before rest more
  refine ⟨marked, ?_⟩
  simp only [addTokens, word, size, scanned, read]
  simp [permFindCreateEntry_fits wellFormed.fits, length]

variable {tokens : List PermToken} {line : Text}

/-- A loop that reads the tokens of a buffer and writes into those it has read. What it does
with one token decides what it answers for a line. -/
theorem loop_laid {σ ρ : Type} (loop : Nat → Text → Nat → σ → ρ)
    (answer : List PermToken → σ → ρ) {good : PermToken → Prop}
    (ended : ∀ fuel before rest s,
      loop (fuel + 1) (before ++ '\x00' :: rest) before.length s = answer [] s)
    (skips : ∀ fuel buffer saved buffer' saved' s,
      strtokAt blanks buffer saved = strtokAt blanks buffer' saved' →
      loop (fuel + 1) buffer saved s = loop (fuel + 1) buffer' saved' s)
    (takes : ∀ token, good token → ∀ d, d = '\x00' ∨ d ∈ blanks → ∀ before rest fuel s,
      ∃ (marked : Text) (s' : σ), ∀ tokens, loop fuel (before ++ marked ++ '\x00' :: rest)
          ((before ++ marked).length + if d = '\x00' then 0 else 1) s' = answer tokens s' →
        loop (fuel + 1) (before ++ token.text ++ d :: rest) before.length s =
          answer (token :: tokens) s)
    (laid : Laid tokens line)
    (all : ∀ token ∈ tokens, good token) (before : Text) (s : σ) {fuel : Nat}
    (enough : line.length < fuel) :
    loop fuel (before ++ line ++ ['\x00']) before.length s = answer tokens s := by
  induction laid generalizing before s fuel with
  | nil =>
    obtain ⟨fuel, rfl⟩ := Nat.exists_eq_add_one_of_ne_zero (by omega : fuel ≠ 0)
    rw [append_nil]
    exact ended fuel before [] s
  | blank blank rest ih =>
    rename_i c tokens line
    rw [length_cons] at enough
    obtain ⟨fuel, rfl⟩ := Nat.exists_eq_add_one_of_ne_zero (by omega : fuel ≠ 0)
    have next := ih all (before ++ [c]) s (by omega : line.length < fuel + 1)
    rw [append_assoc] at next
    rw [append_assoc, ← next]
    exact skips _ _ _ _ _ _ (strtokAt_blank blank before _)
  | last token =>
    have positive : 0 < token.text.length := by simp [PermToken.text]
    obtain ⟨fuel, rfl⟩ : ∃ more, fuel = more + 2 := ⟨fuel - 2, by omega⟩
    obtain ⟨marked, s', taken⟩ :=
      takes token (all token mem_cons_self) '\x00' (.inl rfl) before [] (fuel + 1) s
    exact taken [] (ended fuel (before ++ marked) [] s')
  | token token blank rest ih =>
    rename_i c tokens line
    rw [length_append, length_cons] at enough
    obtain ⟨fuel, rfl⟩ := Nat.exists_eq_add_one_of_ne_zero (by omega : fuel ≠ 0)
    have notNul : c ≠ '\x00' := fun nul => nul_not_blank (nul ▸ blank)
    obtain ⟨marked, s', taken⟩ := takes token (all token mem_cons_self) c (.inr blank) before
      (line ++ ['\x00']) fuel s
    have next := ih (forall_mem_cons.mp all).2
      (before ++ marked ++ ['\x00']) s' (by omega : line.length < fuel)
    have shape : before ++ (token.text ++ c :: line) ++ ['\x00'] =
        before ++ token.text ++ c :: (line ++ ['\x00']) := by simp
    have buffer : before ++ marked ++ ['\x00'] ++ line ++ ['\x00'] =
        before ++ marked ++ '\x00' :: (line ++ ['\x00']) := by simp
    have place : (before ++ marked ++ ['\x00']).length = (before ++ marked).length + 1 :=
      length_append
    rw [buffer, place] at next
    rw [if_neg notNul] at taken
    rw [shape]
    exact taken tokens next

theorem addTokens_laid (laid : Laid tokens line)
    (wellFormed : ∀ token ∈ tokens, token.WellFormed) (entries : List CommandEntry) :
    addTokens (line.length + 1) (line ++ ['\x00']) 0 entries =
      some ((tokens.map PermToken.entry).foldl (keep sameEntry) entries) := by
  refine loop_laid addTokens
    (fun tokens entries => some ((tokens.map PermToken.entry).foldl (keep sameEntry) entries))
    ?_ ?_ ?_ laid wellFormed [] entries (Nat.lt_succ_self _)
  · intro fuel before rest entries
    simp only [addTokens, strtokAt_nul]
    rfl
  · intro fuel buffer saved buffer' saved' entries same
    rw [addTokens, addTokens, same]
  · intro token wf d ends before rest fuel entries
    obtain ⟨marked, stored⟩ := addTokens_token wf ends before rest entries fuel
    exact ⟨marked, _, fun tokens later => stored.trans later⟩

theorem permAddPerm_nil {permname : Text} (named : permname ≠ [])
    (fits : permname.length < 256) (some : line ≠ []) (short : line.length < bufferLen) :
    permAddPerm permname line [] =
      (addTokens (line.length + 1) (line ++ ['\x00']) 0 []).map fun entries =>
        (0, [⟨permname, entries⟩]) := by
  have refused : ¬(permname = [] ∨ line = [] ∨ bufferLen ≤ line.length) := by
    rw [not_or, not_or]
    exact ⟨named, some, by omega⟩
  have created : permFindCreate permname [] = .some [⟨permname, []⟩] := by
    simp [permFindCreate, field, fits]
  have found : NamedList.lookup CommandPerm.commandName permname [⟨permname, []⟩] =
      .some ⟨permname, []⟩ := by simp [NamedList.lookup]
  simp only [permAddPerm, if_neg refused, created]
  rw [found]
  simp [NamedList.modify]

theorem permAddPerm_laid {permname : Text}
    (named : permname ≠ []) (fits : permname.length < 256) (laid : Laid tokens line)
    (wellFormed : ∀ token ∈ tokens, token.WellFormed) (some : line ≠ [])
    (short : line.length < bufferLen) :
    permAddPerm permname line [] = .some (0, [⟨permname,
      (keepFirst (fun s t => sameEntry s.entry t.entry) tokens).map PermToken.entry⟩]) := by
  have kept : (tokens.map PermToken.entry).foldl (keep sameEntry) [] =
      (tokens.foldl (keep fun s t => sameEntry s.entry t.entry) []).map PermToken.entry :=
    foldl_keep_map PermToken.entry tokens []
  rw [permAddPerm_nil named fits some short, addTokens_laid laid wellFormed, kept]
  rfl

end Parsing

end Wzdftpd
