import Wzdftpd.Pieces
import Wzdftpd.Tokens

/- `str_tok` of wzd_string.c, and the loops that call it until it returns a null pointer. A
string without a buffer is `none`. -/
namespace Wzdftpd

open List Pieces

/-- `str_tok`: what is returned, and the string that is left. `STR` makes a string without
a buffer of a null pointer. -/
def strTok (delims text : Text) : Option (Option Text) × Text :=
  if text = [] then (none, text)
  else
    match strtok delims text with
    | (none, _) => (some none, text)
    | (some token, rest) => (some (some token), rest)

/-- Calls until a null pointer is returned; `none` if `calls` calls have not returned one. -/
def untilNull (next : Text → Option (Option Text) × Text) :
    Nat → Text → Option (List (Option Text))
  | 0, _ => none
  | calls + 1, text =>
    match next text with
    | (none, _) => some []
    | (some token, rest) => (untilNull next calls rest).map (token :: ·)

/-- One of the last two characters is not a delimiter. -/
def EndsInToken (delims text : Text) : Prop := ∃ c ∈ text.reverse.take 2, c ∉ delims

variable {delims text token rest : Text}

/-- What stands around the token that is found. -/
theorem strtok_some (found : strtok delims text = (some token, rest)) :
    ∃ front tail, text = front ++ token ++ tail ∧ (∀ c ∈ front, c ∈ delims) ∧ token ≠ [] ∧
      (∀ c ∈ token, c ∉ delims) ∧
      ((tail = [] ∧ rest = []) ∨ ∃ d ∈ delims, tail = d :: rest) := by
  have nonempty := strtok_ne_nil (congrArg Prod.fst found)
  simp only [strtok] at found
  split at found
  · cases found
  simp only [Prod.mk.injEq, Option.some.injEq] at found
  refine ⟨text.takeWhile (· ∈ delims), (text.dropWhile (· ∈ delims)).dropWhile (· ∉ delims),
    ?_, ?_, nonempty, ?_, ?_⟩
  · simp [← found.1]
  · exact fun c member => by simpa using mem_takeWhile_imp member
  · rw [← found.1]
    exact fun c member => by simpa using mem_takeWhile_imp member
  · rw [← found.2]
    cases behind : (text.dropWhile (· ∈ delims)).dropWhile (· ∉ delims) with
    | nil => exact .inl ⟨rfl, rfl⟩
    | cons d rest =>
      have first := head?_dropWhile_not (· ∉ delims) (text.dropWhile (· ∈ delims))
      rw [behind] at first
      exact .inr ⟨d, by simpa using first, rfl⟩

theorem pieces_strtok (found : strtok delims text = (some token, rest)) :
    pieces (· ∈ delims) text = token :: pieces (· ∈ delims) rest := by
  obtain ⟨_, _, rfl, seps, nonempty, plain, behind⟩ := strtok_some found
  have whole : pieces (· ∈ delims) token = [token] := by
    rw [pieces_free (by simpa using plain)]
    simp [nonempty]
  rw [append_assoc, pieces_seps_append (by simpa using seps)]
  rcases behind with ⟨rfl, rfl⟩ | ⟨d, delim, rfl⟩
  · rw [append_nil, whole]
    simp [pieces]
  · rw [pieces_append_sep (by simpa using delim), whole, singleton_append]

theorem endsInToken_strtok (found : strtok delims text = (some token, rest)) :
    EndsInToken delims text ↔ (rest ≠ [] → EndsInToken delims rest) := by
  obtain ⟨_, _, rfl, -, nonempty, plain, behind⟩ := strtok_some found
  obtain ⟨_, last, rfl⟩ := (eq_nil_or_concat' token).resolve_left nonempty
  have outside := plain last (by simp)
  rcases behind with ⟨rfl, rfl⟩ | ⟨d, delim, rfl⟩
  · simp [EndsInToken, outside]
  · rcases eq_nil_or_concat' rest with rfl | ⟨more, x, rfl⟩
    · simp [EndsInToken, outside]
    · rcases eq_nil_or_concat' more with rfl | ⟨more, y, rfl⟩
      · simp [EndsInToken, delim]
      · simp [EndsInToken]

section

variable {next : Text → Option (Option Text) × Text} {token : Option Text}

theorem untilNull_stuck (same : next text = (some token, text)) (calls : Nat) :
    untilNull next calls text = none := by
  induction calls with
  | zero => rfl
  | succ calls ih => simp [untilNull, same, ih]

theorem untilNull_cons (step : next text = (some token, rest)) (tokens : List (Option Text)) :
    (∃ calls, untilNull next calls text = some (token :: tokens)) ↔
      ∃ calls, untilNull next calls rest = some tokens := by
  constructor
  · rintro ⟨calls, done⟩
    cases calls with
    | zero => cases done
    | succ calls => exact ⟨calls, by simpa [untilNull, step] using done⟩
  · rintro ⟨calls, done⟩
    exact ⟨calls + 1, by simp [untilNull, step, done]⟩

end

/-- The loop over the tokens ends, and gives the pieces, exactly if one of the last two
characters is not a delimiter. -/
theorem strTok_loop_iff (delims text : Text) :
    (∃ calls, untilNull (strTok delims) calls text =
        some ((pieces (· ∈ delims) text).map some)) ↔
      (text ≠ [] → EndsInToken delims text) := by
  induction length : text.length using Nat.strong_induction_on generalizing text with
  | _ n ih =>
    by_cases empty : text = []
    · have ended : untilNull (strTok delims) 1 [] = some [] := rfl
      simp only [empty, ne_eq, not_true_eq_false, false_implies, iff_true]
      exact ⟨1, ended⟩
    cases found : strtok delims text with
    | mk token rest =>
      cases token with
      | none =>
        have stuck : strTok delims text = (some none, text) := by simp [strTok, empty, found]
        have blank : ∀ c ∈ text, c ∈ delims := by
          simp only [strtok] at found
          split at found
          · rename_i skipped
            simpa using dropWhile_eq_nil_iff.mp skipped
          · cases found
        simp only [untilNull_stuck stuck, reduceCtorEq, exists_false, false_iff]
        intro ends
        obtain ⟨c, member, outside⟩ := ends empty
        exact outside (blank c (mem_reverse.mp (mem_of_mem_take member)))
      | some token =>
        have step : strTok delims text = (some (some token), rest) := by
          simp [strTok, empty, found]
        have shorter : rest.length < n := by
          obtain ⟨_, _, rfl, -, nonempty, -, behind⟩ := strtok_some found
          have := length_pos_of_ne_nil nonempty
          rcases behind with ⟨rfl, rfl⟩ | ⟨d, -, rfl⟩ <;> simp at length ⊢ <;> omega
        rw [pieces_strtok found, endsInToken_strtok found, ← ih _ shorter rest rfl, map_cons,
          untilNull_cons step]
        simp [empty]

/-- With two blanks behind the last token, every further call returns a string without text. -/
theorem strTok_loop_endless :
    ¬∃ calls tokens, untilNull (strTok blanks) calls "a  ".toList = some tokens := by
  rintro ⟨calls, tokens, done⟩
  cases calls with
  | zero => cases done
  | succ calls =>
    have first : strTok blanks "a  ".toList = (some (some ['a']), [' ']) := rfl
    have stuck : strTok blanks [' '] = (some none, [' ']) := rfl
    rw [untilNull, first] at done
    simp [untilNull_stuck stuck calls] at done

end Wzdftpd
