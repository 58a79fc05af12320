import Wzdftpd.Replies

/- The numbered messages: `v_format_message` (wzd_misc.c) replaces the cookies of a message
(wzd_cookie_lex.l), formats it, cuts it into lines and puts the code in front of the first and
the last of them. -/
namespace Wzdftpd

open CNumber List Option Nat

/-- What the lexer of the cookies finds: the end of a line, a character, or a cookie, given by
the text that stands for it. It passes over `\r`. -/
inductive CookieToken where
  | eol
  | piece (text : Text)

/-- MAX_SEND_BUFFERSIZE, MIN_SEND_BUFFERSIZE and WORK_BUF_LEN -/
def maxSendBuffer : Nat := 4096

def minSendBuffer : Nat := 500

def workBufLen : Nat := 8192

/-- `send_buffer`, and what was written to `out_buffer`, with its `out_buffer_len` left. -/
structure CookieBuffer where
  send : Text := []
  out : Text := []
  len : Nat := workBufLen

namespace CookieBuffer

/-- The buffer is flushed, and cut where the other one ends. -/
def flush (b : CookieBuffer) : CookieBuffer :=
  let l := if b.len ≤ b.send.length then b.len - 1 else b.send.length
  ⟨[], b.out ++ b.send.take l, b.len - l⟩

/-- A copy behind what the array holds; `none` is one that leaves the array. -/
def push (text : Text) (b : CookieBuffer) : Option CookieBuffer :=
  if b.send.length + text.length ≤ maxSendBuffer then some { b with send := b.send ++ text }
  else none

def step (b : CookieBuffer) : CookieToken → Option CookieBuffer
  | .eol => (b.push crlf).map fun b => if minSendBuffer ≤ b.send.length then b.flush else b
  | .piece text => (if maxSendBuffer ≤ b.send.length + text.length then b.flush else b).push text

/-- The end of the message: a line end is added unless there is one. -/
def finish (b : CookieBuffer) : Option Text :=
  if b.send = [] then some b.out
  else
    (if 2 < b.send.length ∧ crlf <:+ b.send then some b else b.push crlf).bind fun b =>
      if b.send.length < maxSendBuffer then some b.flush.out else none

end CookieBuffer

/-- `cookie_parse_buffer` -/
def cookieParseBuffer (message : List CookieToken) : Option Text :=
  (message.foldlM CookieBuffer.step {}).bind CookieBuffer.finish

/-- `"%d %s\r\n"`, `"%d-%s\r\n"` -/
def messageLine (code : Nat) (mark : Char) (line : Text) : Text :=
  decimal code ++ mark :: line ++ crlf

/-- The loop over the lines behind the first. The last line is known by what the tokenizer
leaves behind it. -/
def laterLines (code : Nat) (mark : Char) : Nat → Text → Text
  | 0, _ => []
  | turns + 1, ptr =>
    match strtok crlf ptr with
    | (none, _) => []
    | (some token, ptr) =>
      if ptr = ['\n'] then messageLine code mark token
      else token ++ crlf ++ laterLines code mark turns ptr

/-- The lines of a formatted text. In the easy case the buffer is printed up to the end of the
token. -/
def numberLines (code : Int) (workBuf : Text) : Text :=
  let mark := if code < 0 then '-' else ' '
  match strtok crlf workBuf with
  | (none, _) => messageLine code.natAbs mark workBuf
  | (some token, ptr) =>
    if ptr = ['\n'] then
      messageLine code.natAbs mark (workBuf.takeWhile (· ∈ crlf) ++ token)
    else
      messageLine code.natAbs '-' token ++ laterLines code.natAbs mark ptr.length ptr

/-- `v_format_message`, with what `safe_vsnprintf` makes of the message and its arguments. -/
def vFormatMessage (code : Int) (print : Text → Text) (message : List CookieToken) :
    Option Text :=
  (cookieParseBuffer message).map fun cookies => numberLines code (print cookies)

/-- A text of lines with CRLF between them, and some of it behind the last line. -/
def textOf (ending : Nat) : List Text → Text
  | [] => []
  | [line] => line ++ crlf.take ending
  | line :: rest => line ++ crlf ++ textOf ending rest

/-- The lines in their order, with the code in front of the first and the last. -/
structure CompleteReply (code : Nat) (lines : List Text) (reply : Text) : Prop where
  contains : Forall₂ (fun line shown => line <:+: shown) lines (crlfLines [] reply)
  closed : crlf <:+ reply
  single : ∀ line, lines = [line] → reply = decimal code ++ ' ' :: line ++ crlf
  first : 2 ≤ lines.length →
    ∃ shown ∈ (crlfLines [] reply).head?, decimal code ++ ['-'] <+: shown
  last : 2 ≤ lines.length →
    ∃ shown ∈ (crlfLines [] reply).getLast?, decimal code ++ [' '] <+: shown

structure MessageLine (line : Text) : Prop where
  nonempty : line ≠ []
  plain : ∀ c ∈ line, c ∉ crlf

section Tokens

variable {line : Text} {rest : List Text} (ending : Nat)

theorem textOf_cons (line : Text) (more : rest ≠ []) :
    textOf ending (line :: rest) = line ++ crlf ++ textOf ending rest := by
  cases rest with
  | nil => exact absurd rfl more
  | cons next rest => rfl

theorem length_le_textOf (lines : ∀ line ∈ rest, MessageLine line) :
    rest.length ≤ (textOf ending rest).length := by
  induction rest with
  | nil => exact Nat.le_refl _
  | cons line rest ih =>
    have filled := length_pos_of_ne_nil (lines line mem_cons_self).nonempty
    have shorter := ih (forall_mem_cons.mp lines).2
    cases rest with
    | nil =>
      rw [textOf, length_append]
      exact le_add_right_of_le filled
    | cons next rest =>
      rw [textOf_cons ending line (cons_ne_nil next rest), length_append,
        length_append, length_cons]
      omega

/-- What the tokenizer leaves behind a line. -/
def leftBehind (ending : Nat) (rest : List Text) : Text :=
  if rest = [] then (crlf.take ending).drop 1 else '\n' :: textOf ending rest

theorem strtok_textOf (rest : List Text) (line_ok : MessageLine line) :
    strtok crlf (textOf ending (line :: rest)) = (some line, leftBehind ending rest) := by
  have broken : ∀ text, strtok crlf (line ++ '\r' :: text) = (some line, text) :=
    fun text => strtok_word text line_ok.nonempty line_ok.plain (by decide)
  cases rest with
  | nil =>
    cases ending with
    | zero =>
      rw [textOf, take_zero, append_nil]
      exact strtok_last line_ok.nonempty line_ok.plain
    | succ ending => exact broken _
  | cons next rest =>
    rw [textOf_cons ending line (cons_ne_nil next rest), append_assoc]
    exact broken ('\n' :: textOf ending (next :: rest))

theorem leftBehind_eq_iff (lines : ∀ line ∈ rest, MessageLine line) :
    leftBehind ending rest = ['\n'] ↔ rest = [] ∧ 2 ≤ ending := by
  unfold leftBehind
  by_cases last : rest = []
  · rw [if_pos last, and_iff_right last]
    match ending with
    | 0 => decide
    | 1 => decide
    | ending + 2 => exact iff_of_true (by simp [crlf]) (Nat.le_add_left _ _)
  · have longer := length_le_textOf ending lines
    rw [if_neg last, cons.injEq]
    refine iff_of_false (fun same => last ?_) fun both => last both.1
    rw [same.2] at longer
    exact length_eq_zero_iff.mp (Nat.le_zero.mp longer)

theorem strtok_leftBehind_nil : strtok crlf (leftBehind ending []) = (none, []) := by
  match ending with
  | 0 => rfl
  | 1 => rfl
  | ending + 2 =>
    simp only [leftBehind, if_true, crlf, take_succ_cons, take_nil]
    rfl

theorem strtok_leftBehind_cons (rest : List Text) (line_ok : MessageLine line) :
    strtok crlf (leftBehind ending (line :: rest)) = (some line, leftBehind ending rest) := by
  rw [leftBehind, if_neg (cons_ne_nil line rest), strtok_cons_delim (by decide),
    strtok_textOf ending rest line_ok]

theorem length_le_leftBehind (lines : ∀ line ∈ rest, MessageLine line) :
    rest.length ≤ (leftBehind ending rest).length := by
  unfold leftBehind
  split
  · rename_i last
    rw [last]
    exact Nat.zero_le _
  · exact le_succ_of_le (length_le_textOf ending lines)

end Tokens

def shownLater (code : Nat) (closed : Bool) : List Text → List Text
  | [] => []
  | [line] => if closed then [decimal code ++ ' ' :: line] else [line]
  | line :: rest => line :: shownLater code closed rest

def shown (code : Nat) (closed : Bool) : List Text → List Text
  | [] => []
  | [line] => [decimal code ++ (if closed then ' ' else '-') :: line]
  | line :: rest => (decimal code ++ '-' :: line) :: shownLater code closed rest

def ended (lines : List Text) : Text := (lines.map (· ++ crlf)).flatten

theorem laterLines_eq (code ending : Nat) (rest : List Text) : ∀ {turns : Nat},
    (∀ line ∈ rest, MessageLine line) → rest.length ≤ turns →
    laterLines code ' ' turns (leftBehind ending rest) =
      ended (shownLater code (2 ≤ ending) rest) := by
  induction rest with
  | nil =>
    intro turns _ _
    cases turns with
    | zero => rfl
    | succ turns =>
      rw [laterLines, strtok_leftBehind_nil]
      rfl
  | cons line rest ih =>
    intro turns lines enough
    obtain ⟨line_ok, rest_ok⟩ := forall_mem_cons.mp lines
    cases turns with
    | zero => exact absurd enough (not_succ_le_zero _)
    | succ turns =>
      have later := ih rest_ok (le_of_succ_le_succ enough)
      have last := leftBehind_eq_iff ending rest_ok
      rw [laterLines, strtok_leftBehind_cons ending rest line_ok]
      simp only [last, later]
      cases rest with
      | nil =>
        by_cases closed : 2 ≤ ending
        · simp [closed, shownLater, ended, messageLine]
        · simp [closed, shownLater, ended]
      | cons next rest =>
        rw [if_neg fun both => cons_ne_nil next rest both.1]
        rfl

variable {code : Nat}

theorem numberLines_eq (ending : Nat) {lines : List Text} (nonempty : lines ≠ [])
    (lines_ok : ∀ line ∈ lines, MessageLine line) :
    numberLines code (textOf ending lines) = ended (shown code (2 ≤ ending) lines) := by
  obtain ⟨line, rest, rfl⟩ := exists_cons_of_ne_nil nonempty
  obtain ⟨line_ok, rest_ok⟩ := forall_mem_cons.mp lines_ok
  have positive : ¬(code : Int) < 0 := by omega
  have later := laterLines_eq code ending rest rest_ok (length_le_leftBehind ending rest_ok)
  have last := leftBehind_eq_iff ending rest_ok
  simp only [numberLines, strtok_textOf ending rest line_ok, if_neg positive, Int.natAbs_natCast,
    last, later]
  cases rest with
  | nil =>
    by_cases closed : 2 ≤ ending
    · obtain ⟨c, more, rfl⟩ := exists_cons_of_ne_nil line_ok.nonempty
      have skipped : (textOf ending [c :: more]).takeWhile (· ∈ crlf) = [] :=
        takeWhile_cons_of_neg (by simpa using line_ok.plain c mem_cons_self)
      simp [closed, skipped, shown, ended, messageLine]
    · simp [closed, shown, shownLater, ended, messageLine]
  | cons next rest =>
    rw [if_neg fun both => cons_ne_nil next rest both.1]
    rfl

variable {line : Text}

theorem crlfLines_line (plain : ∀ c ∈ line, c ∉ crlf) (rest : Text) : ∀ before,
    crlfLines before (line ++ crlf ++ rest) = (before ++ line) :: crlfLines [] rest := by
  induction line with
  | nil =>
    intro before
    rw [append_nil]
    rfl
  | cons c line ih =>
    intro before
    have inside : Inside c (line ++ crlf ++ rest) := by
      intro _ same
      exact absurd (same ▸ plain c mem_cons_self) (by decide)
    rw [cons_append, cons_append, crlfLines.eq_3 _ c _ inside,
      ih (forall_mem_cons.mp plain).2, append_assoc,
      singleton_append]

theorem crlfLines_ended (lines : List Text) (plain : ∀ line ∈ lines, ∀ c ∈ line, c ∉ crlf) :
    crlfLines [] (ended lines) = lines := by
  induction lines with
  | nil => rfl
  | cons line lines ih =>
    have split : ended (line :: lines) = line ++ crlf ++ ended lines := rfl
    rw [split, crlfLines_line (plain line mem_cons_self), nil_append,
      ih (forall_mem_cons.mp plain).2]

theorem decimal_plain : ∀ c ∈ decimal code, c ∉ crlf := by
  intro c member
  have letter := isAlphanum_of_mem_toDigits (by decide) (by decide) member
  intro ending
  rcases mem_cons.mp ending with rfl | last
  · exact absurd letter (by decide)
  · rw [mem_singleton.mp last] at letter
    exact absurd letter (by decide)

theorem marked_plain {mark : Char} (apart : mark ∉ crlf)
    (plain : ∀ c ∈ line, c ∉ crlf) : ∀ c ∈ decimal code ++ mark :: line, c ∉ crlf := by
  rw [forall_mem_append, forall_mem_cons]
  exact ⟨decimal_plain, apart, plain⟩

section Shown

variable {code : Nat} {closed : Bool}

theorem shownLater_plain {rest : List Text} (plain : ∀ line ∈ rest, ∀ c ∈ line, c ∉ crlf) :
    ∀ line ∈ shownLater code closed rest, ∀ c ∈ line, c ∉ crlf := by
  fun_induction shownLater code closed rest with
  | case1 => exact forall_mem_nil _
  | case2 line _ =>
    exact forall_mem_singleton.mpr (marked_plain (by decide) (plain line mem_cons_self))
  | case3 line _ => exact plain
  | case4 line rest _ ih =>
    obtain ⟨first, later⟩ := forall_mem_cons.mp plain
    exact forall_mem_cons.mpr ⟨first, ih later⟩

theorem shown_plain {lines : List Text} (plain : ∀ line ∈ lines, ∀ c ∈ line, c ∉ crlf) :
    ∀ line ∈ shown code closed lines, ∀ c ∈ line, c ∉ crlf := by
  fun_cases shown code closed lines with
  | case1 => exact forall_mem_nil _
  | case2 line =>
    exact forall_mem_singleton.mpr (marked_plain (by split <;> decide) (plain line mem_cons_self))
  | case3 line rest _ =>
    obtain ⟨first, later⟩ := forall_mem_cons.mp plain
    exact forall_mem_cons.mpr ⟨marked_plain (by decide) first, shownLater_plain later⟩

theorem infix_marked (mark : Char) (line : Text) : line <:+: decimal code ++ mark :: line :=
  ⟨decimal code ++ [mark], [], by simp⟩

theorem shownLater_contains (rest : List Text) :
    Forall₂ (fun line shown => line <:+: shown) rest (shownLater code closed rest) := by
  fun_induction shownLater code closed rest with
  | case1 => exact .nil
  | case2 line _ => exact .cons (infix_marked ' ' line) .nil
  | case3 line _ => exact .cons (infix_refl line) .nil
  | case4 line rest _ ih => exact .cons (infix_refl line) ih

theorem shown_contains (lines : List Text) :
    Forall₂ (fun line shown => line <:+: shown) lines (shown code closed lines) := by
  fun_cases shown code closed lines with
  | case1 => exact .nil
  | case2 line => exact .cons (infix_marked _ line) .nil
  | case3 line rest _ => exact .cons (infix_marked '-' line) (shownLater_contains rest)

/-- How the last line of several is shown. -/
def shownLast (code : Nat) (closed : Bool) (line : Text) : Text :=
  if closed then decimal code ++ ' ' :: line else line

theorem prefix_shownLast (code : Nat) (line : Text) :
    decimal code ++ [' '] <+: shownLast code true line :=
  ⟨line, by rw [shownLast, if_pos rfl, append_assoc, singleton_append]⟩

theorem getLast?_shownLater (rest : List Text) :
    (shownLater code closed rest).getLast? = rest.getLast?.map (shownLast code closed) := by
  fun_induction shownLater code closed rest with
  | case1 => rfl
  | case2 line closing =>
    simp [shownLast, closing]
  | case3 line opened =>
    simp [shownLast, opened]
  | case4 line rest more ih =>
    have nonempty : rest ≠ [] := more
    rw [getLast?_cons, getLast?_cons, ih, getLast?_eq_some_getLast nonempty]
    rfl

theorem getLast?_shown {next : Text} {rest : List Text} :
    (shown code closed (line :: next :: rest)).getLast? =
      (next :: rest).getLast?.map (shownLast code closed) := by
  have split : shown code closed (line :: next :: rest) =
      (decimal code ++ '-' :: line) :: shownLater code closed (next :: rest) := rfl
  rw [split, getLast?_cons, getLast?_shownLater]
  rfl

end Shown

theorem crlf_suffix_ended {lines : List Text} (nonempty : lines ≠ []) :
    crlf <:+ ended lines := by
  induction lines with
  | nil => exact absurd rfl nonempty
  | cons line lines ih =>
    have split : ended (line :: lines) = line ++ crlf ++ ended lines := rfl
    rw [split]
    cases lines with
    | nil =>
      rw [append_assoc]
      exact suffix_append line crlf
    | cons next lines =>
      exact (ih (cons_ne_nil next lines)).trans (suffix_append _ _)

section Complete

variable {code : Nat} {closed : Bool}

theorem complete_single_iff (plain : ∀ c ∈ line, c ∉ crlf) :
    CompleteReply code [line] (ended (shown code closed [line])) ↔ closed = true := by
  have one : ¬2 ≤ [line].length := not_succ_le_self 1
  constructor
  · intro complete
    have whole : decimal code ++ (if closed then ' ' else '-') :: line ++ crlf ++ [] =
        decimal code ++ ' ' :: line ++ crlf := complete.single line rfl
    rw [append_nil, append_left_inj, append_right_inj] at whole
    by_contra opened
    rw [if_neg opened] at whole
    exact absurd (cons.inj whole).1 (by decide)
  · intro closing
    subst closing
    have read := crlfLines_ended (shown code true [line])
      (shown_plain fun other member => mem_singleton.mp member ▸ plain)
    refine ⟨?_, crlf_suffix_ended (cons_ne_nil _ _), ?_, fun two => absurd two one,
      fun two => absurd two one⟩
    · rw [read]
      exact shown_contains [line]
    · intro other same
      rw [← (cons.inj same).1]
      exact append_nil _

theorem complete_several_iff {next : Text} {rest : List Text}
    (plain : ∀ other ∈ line :: next :: rest, ∀ c ∈ other, c ∉ crlf) :
    CompleteReply code (line :: next :: rest) (ended (shown code closed (line :: next :: rest))) ↔
      ∃ last ∈ (next :: rest).getLast?, decimal code ++ [' '] <+: shownLast code closed last := by
  have read := crlfLines_ended (shown code closed (line :: next :: rest)) (shown_plain plain)
  have two : 2 ≤ (line :: next :: rest).length := by simp
  constructor
  · intro complete
    obtain ⟨shown, found, marked⟩ := complete.last two
    rw [read, getLast?_shown] at found
    obtain ⟨last, member, rfl⟩ := map_eq_some_iff.mp found
    exact ⟨last, member, marked⟩
  · rintro ⟨last, member, marked⟩
    refine ⟨?_, crlf_suffix_ended (cons_ne_nil _ _), ?_, ?_, ?_⟩
    · rw [read]
      exact shown_contains _
    · intro other same
      cases same
    · intro _
      rw [read]
      exact ⟨_, rfl, line, by simp⟩
    · intro _
      rw [read, getLast?_shown]
      exact ⟨_, map_eq_some_iff.mpr ⟨last, member, rfl⟩, marked⟩

end Complete

/-- A text that is numbered is a complete reply exactly if it ends with CRLF, or its last line
already has the code and the blank of a last line. -/
theorem numberLines_complete_iff {lines : List Text} (nonempty : lines ≠ [])
    (lines_ok : ∀ line ∈ lines, MessageLine line) (ending : Nat) :
    CompleteReply code lines (numberLines code (textOf ending lines)) ↔
      2 ≤ ending ∨
        2 ≤ lines.length ∧ ∃ last ∈ lines.getLast?, decimal code ++ [' '] <+: last := by
  have plain : ∀ line ∈ lines, ∀ c ∈ line, c ∉ crlf :=
    fun line member => (lines_ok line member).plain
  rw [numberLines_eq ending nonempty lines_ok]
  match lines with
  | [] => exact absurd rfl nonempty
  | [line] =>
    rw [complete_single_iff (plain line mem_cons_self), decide_eq_true_eq]
    exact (or_iff_left fun two => not_succ_le_self 1 two.1).symm
  | line :: next :: rest =>
    have two : 2 ≤ (line :: next :: rest).length := by simp
    rw [complete_several_iff plain, and_iff_right two]
    by_cases closed : 2 ≤ ending
    · refine iff_of_true ?_ (.inl closed)
      rw [decide_eq_true closed]
      exact ⟨_, getLast?_eq_some_getLast (cons_ne_nil next rest), prefix_shownLast code _⟩
    · rw [decide_eq_false closed]
      exact (or_iff_right closed).symm

section Cut

variable {lines : List Text}

theorem textOf_append (nonempty : lines ≠ []) (ending : Nat) :
    textOf ending lines = textOf 0 lines ++ crlf.take ending := by
  induction lines with
  | nil => exact absurd rfl nonempty
  | cons line rest ih =>
    cases rest with
    | nil => simp [textOf]
    | cons next rest =>
      have more := cons_ne_nil next rest
      rw [textOf_cons ending line more, textOf_cons 0 line more, ih more,
        append_assoc _ (textOf 0 _)]

/-- A text that is cut in front of its last line end or earlier has lost a line, or the end of
its last line. -/
theorem take_textOf (lines_ok : ∀ line ∈ lines, MessageLine line) : ∀ {n : Nat}, 0 < n →
    n + 2 < (textOf 2 lines).length → ∃ ending cut, (textOf 2 lines).take n = textOf ending cut ∧
      cut ≠ [] ∧ (∀ line ∈ cut, MessageLine line) ∧ (cut.length < lines.length ∨
        ending < 2 ∧ cut.length = lines.length ∧ ∃ line ∈ lines.getLast?, ∃ short ∈ cut.getLast?,
          short.length < line.length) := by
  have piece : ∀ {line : Text} {n : Nat}, MessageLine line → 0 < n → MessageLine (line.take n) := by
    intro line n line_ok positive
    have filled := length_pos_of_ne_nil line_ok.nonempty
    refine ⟨ne_nil_of_length_pos ?_, fun c member => line_ok.plain c (mem_of_mem_take member)⟩
    rw [length_take]
    omega
  induction lines with
  | nil =>
    intro n _ beyond
    exact absurd beyond (Nat.not_lt_zero _)
  | cons line rest ih =>
    intro n positive before
    obtain ⟨line_ok, rest_ok⟩ := forall_mem_cons.mp lines_ok
    cases rest with
    | nil =>
      have two : crlf.length = 2 := rfl
      rw [textOf, length_append, length_take, two] at before
      refine ⟨0, [line.take n], ?_, cons_ne_nil _ _,
        forall_mem_singleton.mpr (piece line_ok positive), .inr ⟨by decide, rfl, line, rfl,
          line.take n, rfl, ?_⟩⟩
      · rw [textOf, take_append_of_le_length (by omega), textOf, take_zero, append_nil]
      · rw [length_take]
        omega
    | cons next rest =>
      have more := cons_ne_nil next rest
      rw [textOf_cons 2 line more] at before ⊢
      have length : (line ++ crlf).length = line.length + 2 := length_append
      rw [length_append, length] at before
      by_cases inside : n ≤ line.length
      · refine ⟨0, [line.take n], ?_, cons_ne_nil _ _,
          forall_mem_singleton.mpr (piece line_ok positive), .inl (by simp)⟩
        rw [append_assoc, take_append_of_le_length inside, textOf, take_zero, append_nil]
      by_cases first : n ≤ line.length + 2
      · refine ⟨n - line.length, [line], ?_, cons_ne_nil _ _, forall_mem_singleton.mpr line_ok,
          .inl (by simp)⟩
        rw [take_append_of_le_length (by omega), take_append, take_of_length_le (by omega), textOf]
      · obtain ⟨m, rfl⟩ : ∃ m, n = (line ++ crlf).length + m := ⟨n - (line.length + 2), by omega⟩
        obtain ⟨ending, cut, same, some', cut_ok, lost⟩ := ih rest_ok (n := m) (by omega) (by omega)
        refine ⟨ending, line :: cut, ?_, cons_ne_nil _ _, forall_mem_cons.mpr ⟨line_ok, cut_ok⟩, ?_⟩
        · rw [take_length_add_append, same, textOf_cons ending line some']
        · rcases lost with fewer | ⟨opened, equal, last⟩
          · exact .inl (Nat.succ_lt_succ fewer)
          · refine .inr ⟨opened, congrArg succ equal, ?_⟩
            obtain ⟨next', rest', rfl⟩ := exists_cons_of_ne_nil some'
            simpa only [getLast?_cons_cons] using last

theorem forall₂_getLast {α β : Type} {R : α → β → Prop} {as : List α} {bs : List β}
    (all : Forall₂ R as bs) : ∀ a ∈ as.getLast?, ∀ b ∈ bs.getLast?, R a b := by
  rw [← head?_reverse, ← head?_reverse]
  have reversed := forall₂_reverse_iff.mpr all
  generalize as.reverse = as at reversed
  generalize bs.reverse = bs at reversed
  cases reversed with
  | nil => exact fun _ member => absurd member (not_mem_none _)
  | cons first _ =>
    rintro _ ⟨⟩ _ ⟨⟩
    exact first

theorem length_shown (closed : Bool) (lines : List Text) :
    (shown code closed lines).length = lines.length :=
  (shown_contains lines).length_eq.symm

theorem not_complete_of_cut {cut : List Text} {ending : Nat} (nonempty : cut ≠ [])
    (cut_ok : ∀ line ∈ cut, MessageLine line) (lost : cut.length < lines.length ∨
      ending < 2 ∧ cut.length = lines.length ∧ ∃ line ∈ lines.getLast?, ∃ short ∈ cut.getLast?,
        short.length < line.length) :
    ¬CompleteReply code lines (numberLines code (textOf ending cut)) := by
  intro complete
  have contains := complete.contains
  rw [numberLines_eq ending nonempty cut_ok, crlfLines_ended _
    (shown_plain fun line member => (cut_ok line member).plain)] at contains
  have count := contains.length_eq
  rw [length_shown] at count
  rcases lost with fewer | ⟨opened, -, line, last, short, shortLast, less⟩
  · omega
  rw [decide_eq_false (Nat.not_le.mpr opened)] at contains
  obtain ⟨first, rest, rfl⟩ := exists_cons_of_ne_nil nonempty
  cases rest with
  | nil =>
    obtain ⟨only, rfl⟩ := length_eq_one_iff.mp count
    obtain rfl : only = line := Option.some.inj last
    obtain rfl : first = short := Option.some.inj shortLast
    have whole := complete.single _ rfl
    rw [numberLines_eq ending nonempty cut_ok] at whole
    have lengths := congrArg length whole
    simp [ended, shown] at lengths
    omega
  | cons next rest =>
    have shownShort : short ∈ (shown code false (first :: next :: rest)).getLast? := by
      rw [getLast?_shown]
      exact map_eq_some_iff.mpr ⟨short, getLast?_cons_cons ▸ shortLast, rfl⟩
    have within := (forall₂_getLast contains line last short shownShort).length_le
    omega

end Cut

namespace CookieBuffer

/-- The buffers hold a text: what was flushed, up to the end of the output, and what is still to
be sent. -/
structure Holds (text : Text) (b : CookieBuffer) : Prop where
  whole : ∃ flushed, text = flushed ++ b.send ∧ b.out = flushed.take (workBufLen - 1)
  len : b.len + b.out.length = workBufLen

variable {text : Text} {b : CookieBuffer}

theorem Holds.out_eq (holds : b.Holds text) (sent : b.send = []) :
    b.out = text.take (workBufLen - 1) := by
  obtain ⟨flushed, rfl, out⟩ := holds.whole
  rw [sent, append_nil, out]

theorem Holds.flush (holds : b.Holds text) : b.flush.Holds text := by
  obtain ⟨flushed, rfl, out⟩ := holds.whole
  have len := holds.len
  have inside : b.out.length = min (workBufLen - 1) flushed.length := by rw [out, length_take]
  have positive : 0 < workBufLen := by decide
  refine ⟨⟨flushed ++ b.send, (append_nil _).symm, ?_⟩, ?_⟩
  · change b.out ++ take _ b.send = _
    rw [take_append, out, append_right_inj, take_eq_take_iff]
    split <;> omega
  · change b.len - _ + (b.out ++ take _ b.send).length = _
    rw [length_append, length_take]
    split <;> omega

theorem Holds.append (holds : b.Holds text) (more : Text) :
    Holds (text ++ more) { b with send := b.send ++ more } := by
  obtain ⟨flushed, rfl, out⟩ := holds.whole
  exact ⟨⟨flushed, append_assoc _ _ _, out⟩, holds.len⟩

theorem push_of_le {more : Text} (room : b.send.length + more.length ≤ maxSendBuffer) :
    b.push more = some { b with send := b.send ++ more } := if_pos room

/-- A line of pieces that has room in the array. -/
theorem foldlM_pieces (pieces : List Text) : ∀ {b : CookieBuffer},
    b.send.length + pieces.flatten.length < maxSendBuffer →
      (pieces.map CookieToken.piece).foldlM step b =
        some { b with send := b.send ++ pieces.flatten } := by
  induction pieces with
  | nil =>
    intro b _
    simp
  | cons piece pieces ih =>
    intro b room
    rw [flatten_cons, length_append] at room
    have pushed : step b (.piece piece) = some { b with send := b.send ++ piece } := by
      rw [step, if_neg (by omega), push_of_le (by omega)]
    rw [map_cons, foldlM_cons, pushed]
    have later := ih (b := { b with send := b.send ++ piece }) (by
      rw [length_append]
      omega)
    rw [append_assoc] at later
    exact later

/-- A line that has room, together with less than what makes a line end flush the buffer. -/
def Short (line : Text) : Prop := minSendBuffer + line.length + 2 < maxSendBuffer

theorem Holds.foldlM_line {line : List Text} (holds : b.Holds text)
    (low : b.send.length < minSendBuffer) (short : Short line.flatten) :
    ∃ after, (line.map CookieToken.piece ++ [CookieToken.eol]).foldlM step b = some after ∧
      after.Holds (text ++ line.flatten ++ crlf) ∧ after.send.length < minSendBuffer ∧
      (after.send = [] ∨ after.send = b.send ++ line.flatten ++ crlf) := by
  unfold Short at short
  have two : crlf.length = 2 := rfl
  have next := (holds.append line.flatten).append crlf
  have ended : [CookieToken.eol].foldlM step { b with send := b.send ++ line.flatten } =
      some (if minSendBuffer ≤ (b.send ++ line.flatten ++ crlf).length
        then CookieBuffer.flush { b with send := b.send ++ line.flatten ++ crlf }
        else { b with send := b.send ++ line.flatten ++ crlf }) := by
    rw [foldlM_cons, step, push_of_le (by rw [length_append]; omega)]
    rfl
  rw [foldlM_append, foldlM_pieces line (by omega)]
  refine ⟨_, (bind_some _ _).trans ended, ?_⟩
  split
  · exact ⟨next.flush, Nat.zero_lt_succ _, .inl rfl⟩
  · rename_i less
    exact ⟨next, Nat.lt_of_not_le less, .inr rfl⟩

theorem Holds.finish (holds : b.Holds text)
    (done : b.send = [] ∨ 2 < b.send.length ∧ crlf <:+ b.send ∧ b.send.length < maxSendBuffer) :
    b.finish = some (text.take (workBufLen - 1)) := by
  unfold CookieBuffer.finish
  rcases done with sent | ⟨long, closed, room⟩
  · rw [if_pos sent, holds.out_eq sent]
  · rw [if_neg (ne_nil_of_length_pos (by omega)), if_pos ⟨long, closed⟩]
    change (if _ then some b.flush.out else none) = _
    rw [if_pos room, holds.flush.out_eq rfl]

theorem Holds.finish_open {line : Text} (holds : b.Holds (text ++ line))
    (line_ok : MessageLine line) (behind : line <:+ b.send)
    (room : b.send.length + 2 < maxSendBuffer) :
    b.finish = some ((text ++ line ++ crlf).take (workBufLen - 1)) := by
  have filled := length_pos_of_ne_nil line_ok.nonempty
  have sized := behind.length_le
  have opened : ¬crlf <:+ b.send := by
    intro closed
    rcases suffix_or_suffix_of_suffix closed behind with inside | outside
    · exact line_ok.plain '\n' (inside.subset (by decide)) (by decide)
    · obtain ⟨c, member⟩ := exists_mem_of_ne_nil line line_ok.nonempty
      exact line_ok.plain c member (outside.subset member)
  have next := (holds.append crlf).flush
  unfold CookieBuffer.finish
  rw [if_neg (ne_nil_of_length_pos (by omega)), if_neg fun both => opened both.2,
    push_of_le (Nat.le_of_lt room)]
  change (if (b.send ++ crlf).length < maxSendBuffer then _ else _) = _
  rw [if_pos (by rw [length_append]; exact room), next.out_eq rfl]

end CookieBuffer

/-- The tokens of a message: its lines, with a line end behind the last one or not. -/
def messageTokens (closed : Bool) : List (List Text) → List CookieToken
  | [] => []
  | [line] => line.map .piece ++ if closed then [.eol] else []
  | line :: rest => line.map .piece ++ [.eol] ++ messageTokens closed rest

theorem messageTokens_cons (closed : Bool) (line : List Text) {rest : List (List Text)}
    (more : rest ≠ []) : messageTokens closed (line :: rest) =
      line.map .piece ++ [.eol] ++ messageTokens closed rest := by
  cases rest with
  | nil => exact absurd rfl more
  | cons next rest => rfl

section Message

variable {message : List (List Text)} (nonempty : message ≠ [])
  (lines_ok : ∀ line ∈ message, MessageLine line.flatten)
  (short : ∀ line ∈ message, CookieBuffer.Short line.flatten)

include nonempty lines_ok short in
/-- The rest of a message, from any state of the buffers. -/
theorem parse_from (closed : Bool) : ∀ {b : CookieBuffer} {text : Text}, b.Holds text →
    b.send.length < minSendBuffer →
    ((messageTokens closed message).foldlM CookieBuffer.step b).bind CookieBuffer.finish =
      some ((text ++ textOf 2 (message.map flatten)).take (workBufLen - 1)) := by
  induction message with
  | nil => exact absurd rfl nonempty
  | cons line rest ih =>
    intro b text holds low
    obtain ⟨line_ok, rest_ok⟩ := forall_mem_cons.mp lines_ok
    obtain ⟨line_short, rest_short⟩ := forall_mem_cons.mp short
    obtain ⟨after, ran, next, low', either⟩ := holds.foldlM_line low line_short
    have filled := length_pos_of_ne_nil line_ok.nonempty
    unfold CookieBuffer.Short at line_short
    cases rest with
    | nil =>
      have whole : text ++ textOf 2 (map flatten [line]) = text ++ line.flatten ++ crlf :=
        (append_assoc text line.flatten crlf).symm
      rw [whole]
      cases closed with
      | true =>
        rw [messageTokens, if_pos rfl, ran, bind_some]
        refine next.finish (either.imp_right fun same => ?_)
        rw [same]
        refine ⟨?_, suffix_append _ _, ?_⟩
        · rw [length_append, length_append]
          change 2 < _ + _ + 2
          omega
        · rw [length_append, length_append]
          change _ + _ + 2 < _
          omega
      | false =>
        rw [messageTokens, if_neg Bool.false_ne_true, append_nil,
          CookieBuffer.foldlM_pieces line (by omega), bind_some]
        refine (holds.append line.flatten).finish_open line_ok (suffix_append _ _) ?_
        rw [length_append]
        omega
    | cons more rest =>
      have many := cons_ne_nil more rest
      rw [messageTokens_cons closed line many, foldlM_append, ran]
      have later := ih many rest_ok rest_short next low'
      rw [map_cons, textOf_cons 2 line.flatten (by simp), ← append_assoc, ← append_assoc]
      exact later

include nonempty lines_ok short in
theorem cookieParseBuffer_eq (closed : Bool) :
    cookieParseBuffer (messageTokens closed message) =
      some ((textOf 2 (message.map flatten)).take (workBufLen - 1)) :=
  parse_from nonempty lines_ok short closed ⟨⟨[], rfl, rfl⟩, rfl⟩ (by decide)

include nonempty lines_ok short in
/-- A message without conversions is a complete reply exactly if its lines have room in the
buffer of the cookies. -/
theorem complete_iff_fits (closed : Bool) :
    (∃ reply, vFormatMessage code id (messageTokens closed message) = some reply ∧
      CompleteReply code (message.map flatten) reply) ↔
      (textOf 0 (message.map flatten)).length + 2 < workBufLen ∨
        (textOf 0 (message.map flatten)).length < workBufLen ∧ 2 ≤ message.length ∧
          ∃ last ∈ (message.map flatten).getLast?, decimal code ++ [' '] <+: last := by
  have some' : message.map flatten ≠ [] := mt map_eq_nil_iff.mp nonempty
  have texts_ok : ∀ line ∈ message.map flatten, MessageLine line := forall_mem_map.mpr lines_ok
  have read := cookieParseBuffer_eq nonempty lines_ok short closed
  rw [vFormatMessage, read, map_some]
  simp only [Option.some.injEq, id, exists_eq_left']
  have whole := textOf_append some' 2
  have two : (crlf.take 2).length = 2 := rfl
  have positive : 0 < workBufLen - 1 := by decide
  by_cases fits : (textOf 0 (message.map flatten)).length < workBufLen
  · have cut : (textOf 2 (message.map flatten)).take (workBufLen - 1) =
        textOf (workBufLen - 1 - (textOf 0 (message.map flatten)).length)
          (message.map flatten) := by
      rw [whole, take_append, take_of_length_le (by omega), textOf_append some' (_ - _)]
      rfl
    rw [cut, numberLines_complete_iff some' texts_ok, length_map, and_iff_right fits]
    exact or_congr_left (by omega)
  · refine iff_of_false (fun complete => ?_) fun either => fits (either.elim (by omega) And.left)
    obtain ⟨_, _, cut, cutNonempty, cut_ok, lost⟩ := take_textOf texts_ok positive (by
      rw [whole, length_append, two]
      omega)
    rw [cut] at complete
    exact not_complete_of_cut cutNonempty cut_ok lost complete

end Message

def greeting : List (List Text) := [["Hello ".toList, "ann".toList], ["Bye".toList]]

theorem messageLine_of_all {line : Text} (nonempty : line ≠ [])
    (plain : line.all (· ∉ crlf) = true) : MessageLine line :=
  ⟨nonempty, fun c member => of_decide_eq_true (all_eq_true.mp plain c member)⟩

theorem left_open_of_long {line : Text} (line_ok : MessageLine line) (long : line.length = 3000) :
    ¬∃ reply, vFormatMessage (220 : Nat) id (messageTokens true [[line], [line], [line]]) =
        some reply ∧ CompleteReply 220 [line, line, line] reply := by
  have length : (textOf 0 [line, line, line]).length = 9004 := by
    simp [textOf, crlf, long]
  have lines : [[line], [line], [line]].map flatten = [line, line, line] := by simp
  have fits := @complete_iff_fits 220 [[line], [line], [line]] (cons_ne_nil _ _)
    (by simpa using line_ok) (by simp [CookieBuffer.Short, long]; decide) true
  rw [lines, length] at fits
  rw [fits]
  rintro (fits | ⟨fits, _⟩)
  · exact absurd fits (by decide)
  · exact absurd fits (by decide)

end Wzdftpd
