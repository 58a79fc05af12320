import Wzdftpd.CNumber
import Wzdftpd.Session
import Mathlib.Data.List.TakeWhile

/- The tokenizers that the server uses on lines: `strtok_r` of the C library, and
`read_token` (wzd_misc.c), which knows quotes. -/
namespace Wzdftpd

open List

/-- `strtok_r`: the token, and what the saved pointer is left at. -/
def strtok (delims text : Text) : Option Text × Text :=
  let skipped := text.dropWhile (· ∈ delims)
  if skipped = [] then (none, [])
  else (some (skipped.takeWhile (· ∉ delims)), (skipped.dropWhile (· ∉ delims)).drop 1)

def blanks : Text := [' ', '\t', '\r', '\n']

def isQuote (c : Char) : Bool := c = '"' ∨ c = '\''

/-- `read_token`, continuing from the saved pointer: the token, and the pointer it
leaves, where `none` is a null pointer. A quote inside of a word starts the token
there. -/
def readToken : Option Text → Option Text × Option Text
  | none => (none, none)
  | some text =>
    let s := text.dropWhile CNumber.isSpace
    if s = [] then (none, none)
    else
      match s.dropWhile fun c => c ∉ blanks ∧ ¬isQuote c with
      | [] => (some s, none)
      | c :: rest =>
        if isQuote c then
          if c ∈ rest then
            let (token, next) := strtok [c] (c :: rest)
            (token, some next)
          else (none, none)
        else
          let (token, next) := strtok blanks s
          (token, some next)

theorem mem_blanks (c : Char) : c ∈ blanks ↔ c = ' ' ∨ c = '\t' ∨ c = '\r' ∨ c = '\n' := by
  simp [blanks]

theorem isSpace_of_mem_blanks {c : Char} (blank : c ∈ blanks) : CNumber.isSpace c = true := by
  rcases (mem_blanks c).mp blank with rfl | rfl | rfl | rfl <;> rfl

variable {delims : Text} {d : Char}

theorem strtok_cons_delim (delim : d ∈ delims) (text : Text) :
    strtok delims (d :: text) = strtok delims text := by
  have skipped : (d :: text).dropWhile (· ∈ delims) = text.dropWhile (· ∈ delims) :=
    dropWhile_cons_of_pos (by simp [delim])
  rw [strtok, skipped, strtok]

theorem strtok_ne_nil {text token : Text} (found : (strtok delims text).1 = some token) :
    token ≠ [] := by
  simp only [strtok] at found
  split at found
  · cases found
  rename_i filled
  obtain ⟨c, _, skipped⟩ := exists_cons_of_ne_nil filled
  have head := head_dropWhile_not (· ∈ delims) filled
  simp only [skipped, head_cons] at head
  rw [skipped, takeWhile_cons_of_pos (by simpa using head)] at found
  cases found
  exact cons_ne_nil c _

variable {word : Text}

theorem takeWhile_word {p : Char → Bool} (rest : Text)
    (inside : ∀ c ∈ word, p c = true) (outside : p d = false) :
    (word ++ d :: rest).takeWhile p = word := by
  rw [takeWhile_append_of_pos inside,
    takeWhile_cons_of_neg (Bool.eq_false_iff.mp outside), append_nil]

theorem dropWhile_word {p : Char → Bool} (rest : Text)
    (inside : ∀ c ∈ word, p c = true) (outside : p d = false) :
    (word ++ d :: rest).dropWhile p = d :: rest := by
  rw [dropWhile_append_of_pos inside, dropWhile_cons_of_neg (Bool.eq_false_iff.mp outside)]

theorem strtok_word (rest : Text) (nonempty : word ≠ [])
    (plain : ∀ c ∈ word, c ∉ delims) (delim : d ∈ delims) :
    strtok delims (word ++ d :: rest) = (some word, rest) := by
  obtain ⟨c, more, rfl⟩ := exists_cons_of_ne_nil nonempty
  have head : c ∉ delims := plain c mem_cons_self
  have skipped : (c :: more ++ d :: rest).dropWhile (· ∈ delims) = c :: more ++ d :: rest := by
    rw [cons_append, dropWhile_cons_of_neg (by simp [head])]
  have inside : ∀ x ∈ c :: more, decide (x ∉ delims) = true :=
    fun x member => decide_eq_true (plain x member)
  have outside : decide (d ∉ delims) = false := decide_eq_false (not_not.mpr delim)
  simp only [strtok, skipped]
  rw [takeWhile_word rest inside outside, dropWhile_word rest inside outside]
  rfl

theorem strtok_last (nonempty : word ≠ []) (plain : ∀ c ∈ word, c ∉ delims) :
    strtok delims word = (some word, []) := by
  obtain ⟨c, more, rfl⟩ := exists_cons_of_ne_nil nonempty
  have head : c ∉ delims := plain c mem_cons_self
  have skipped : (c :: more).dropWhile (· ∈ delims) = c :: more :=
    dropWhile_cons_of_neg (by simp [head])
  have inside : ∀ x ∈ c :: more, decide (x ∉ delims) = true :=
    fun x member => decide_eq_true (plain x member)
  have whole := takeWhile_eq_self_iff.mpr inside
  have none_left := dropWhile_eq_nil_iff.mpr inside
  simp only [strtok, skipped]
  rw [if_neg (cons_ne_nil c more), whole, none_left, drop_nil]

theorem readToken_cons_space {c : Char} (space : CNumber.isSpace c = true) (text : Text) :
    readToken (some (c :: text)) = readToken (some text) := by
  unfold readToken
  simp only
  rw [dropWhile_cons_of_pos space]

/-- A text that `read_token` reads up to the next blank: it has no blank and no quote
in it, and it does not start with white space. -/
structure Unquoted (word : Text) : Prop where
  nonempty : word ≠ []
  starts : ∀ c, word.head? = some c → CNumber.isSpace c = false
  plain : ∀ c ∈ word, c ∉ blanks ∧ isQuote c = false

theorem readToken_unquoted (unquoted : Unquoted word) (blank : d ∈ blanks)
    (rest : Text) : readToken (some (word ++ d :: rest)) = (some word, some rest) := by
  obtain ⟨c, more, rfl⟩ := exists_cons_of_ne_nil unquoted.nonempty
  have head : CNumber.isSpace c = false := unquoted.starts c rfl
  have skipped : (c :: more ++ d :: rest).dropWhile CNumber.isSpace = c :: more ++ d :: rest := by
    rw [cons_append, dropWhile_cons_of_neg (Bool.eq_false_iff.mp head)]
  have notQuote : isQuote d = false := by
    rcases (mem_blanks d).mp blank with rfl | rfl | rfl | rfl <;> rfl
  have special : (c :: more ++ d :: rest).dropWhile (fun c => c ∉ blanks ∧ ¬isQuote c) =
      d :: rest := by
    apply dropWhile_word
    · intro x member
      have plain := unquoted.plain x member
      simp [plain.1, plain.2]
    · simp [blank]
  have token := strtok_word rest unquoted.nonempty (fun x member => (unquoted.plain x member).1)
    blank
  simp only [readToken, skipped, special, notQuote, token]
  rw [if_neg (by simp), if_neg (by simp)]

theorem readToken_quoted (nonempty : word ≠ []) (plain : ∀ c ∈ word, c ≠ '\'') (rest : Text) :
    readToken (some ('\'' :: word ++ '\'' :: rest)) = (some word, some rest) := by
  have token : strtok ['\''] ('\'' :: (word ++ '\'' :: rest)) = (some word, rest) := by
    apply strtok_word rest nonempty
    · intro c member
      rw [mem_singleton]
      exact plain c member
    · exact mem_singleton.mpr rfl
  have closing : '\'' ∈ word ++ '\'' :: rest := by simp
  unfold readToken
  simp only [cons_append]
  rw [dropWhile_cons_of_neg (by decide), if_neg (by simp), dropWhile_cons_of_neg (by decide)]
  simp only
  rw [if_pos (by decide), if_pos closing, token]

end Wzdftpd
