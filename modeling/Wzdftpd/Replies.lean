import Wzdftpd.Tokens

/- The stored reply of a session, which is sent line by line: `reply_push`, `reply_send` and
`send_message_formatted` (wzd_messages.c), with `str_split` (wzd_string.c). -/
namespace Wzdftpd

open CNumber List

def crlf : Text := ['\r', '\n']

/-- `strstr`: the text in front of the first occurrence, and the text behind it. -/
def strstr (sep : Text) : Text → Option (Text × Text)
  | [] => none
  | c :: text =>
    if sep.isPrefixOf (c :: text) then some ([], (c :: text).drop sep.length)
    else (strstr sep text).map fun (front, back) => (c :: front, back)

/-- The loop of `str_split`, with the number of tokens it may still split off, an `int` that counts
down (texts are shorter than 2^31). An empty remainder is no token. -/
def strSplitLoop (sep : Text) : Nat → Text → List Text
  | 0, remainder => if remainder = [] then [] else [remainder]
  | turns + 1, remainder =>
    match strstr sep remainder with
    | none => if remainder = [] then [] else [remainder]
    | some (token, rest) => token :: strSplitLoop sep turns rest

/-- `str_split`. Without a maximum there are at most as many tokens as characters. -/
def strSplit (str sep : Text) (maxTokens : Nat) : List Text :=
  strSplitLoop sep (if maxTokens < 1 then str.length else maxTokens - 1) str

/-- `vsnprintf` of a format without arguments; `none` where a conversion asks for one. -/
def vsnprintf : Text → Option Text
  | [] => some []
  | '%' :: '%' :: format => (vsnprintf format).map ('%' :: ·)
  | '%' :: _ => none
  | c :: format => (vsnprintf format).map (c :: ·)

/-- `%.3d` -/
def threeDigits (code : Nat) : Text :=
  replicate (3 - (decimal code).length) '0' ++ decimal code

def numbered (code : Nat) (mark : Char) (line : Text) : Text :=
  threeDigits code ++ mark :: line ++ crlf

/-- The loop of `send_message_formatted` over several lines. -/
def sendLines (code : Nat) : List Text → List Text
  | [] => []
  | [line] => [numbered code ' ' line]
  | line :: rest => numbered code '-' line :: sendLines code rest

/-- `send_message_formatted` without arguments: the texts that are written. The loop
starts at the second line. -/
def sendMessageFormatted (code : Nat) (format : Text) : Option (List Text) :=
  (vsnprintf format).bind fun str =>
    match strSplit str crlf 0 with
    | [] => none
    | [line] => some [numbered code ' ' line]
    | _ :: rest => some (sendLines code rest)

/-- `struct wzd_reply_t` -/
structure StoredReply where
  code : Nat := 0
  text : Option Text := none
  sent : Nat := 0

/-- `reply_clear` -/
def replyClear (_ : StoredReply) : StoredReply := ⟨0, some [], 0⟩

/-- `reply_set_code` -/
def replySetCode (code : Nat) (reply : StoredReply) : StoredReply := { reply with code }

/-- `reply_push` -/
def replyPush (reply : StoredReply) (s : Text) : StoredReply :=
  { reply with text := some (reply.text.getD [] ++ s) }

/-- `reply_send`: its result, the texts that are written, and the reply it leaves. -/
def replySend (reply : StoredReply) : Option (Int × List Text × StoredReply) :=
  if reply.code = 0 ∨ reply.sent ≠ 0 then some (-1, [], reply)
  else
    match reply.text with
    | none => some (0, [], { reply with sent := reply.sent + 1 })
    | some format =>
      (sendMessageFormatted reply.code format).map fun written =>
        (0, written, { reply with sent := reply.sent + 1 })

/-- The lines of a text: what stands between two CRLF, and behind the last one unless
that is empty. -/
def crlfLines : Text → Text → List Text
  | line, [] => if line = [] then [] else [line]
  | line, '\r' :: '\n' :: text => line :: crlfLines [] text
  | line, c :: text => crlfLines (line ++ [c]) text

/-- What is to be sent for a reply: all lines in order, the last one marked by a blank. -/
def replyOf (code : Nat) (lines : List Text) : List Text :=
  lines.dropLast.map (fun line => decimal code ++ '-' :: line ++ crlf) ++
    lines.getLast?.toList.map fun line => decimal code ++ ' ' :: line ++ crlf

/-- A character at which no CRLF starts. -/
def Inside (c : Char) (text : Text) : Prop := ∀ rest, c = '\r' → text = '\n' :: rest → False

theorem inside_or_crlf (c : Char) (text : Text) :
    Inside c text ∨ ∃ rest, c = '\r' ∧ text = '\n' :: rest := by
  by_cases found : ∃ rest, c = '\r' ∧ text = '\n' :: rest
  · exact .inr found
  · exact .inl fun rest first second => found ⟨rest, first, second⟩

theorem strstr_cons {c : Char} {text : Text} (inside : Inside c text) :
    strstr crlf (c :: text) = (strstr crlf text).map fun found => (c :: found.1, found.2) := by
  apply if_neg
  intro found
  obtain ⟨rest, same⟩ := isPrefixOf_iff_prefix.mp found
  obtain ⟨first, second⟩ := cons.inj same
  exact inside rest first.symm second.symm

theorem crlfLines_eq (text : Text) : ∀ line,
    crlfLines line text =
      ((strstr crlf text).map fun found => (line ++ found.1) :: crlfLines [] found.2).getD
        (if line ++ text = [] then [] else [line ++ text]) := by
  induction text with
  | nil =>
    intro line
    rw [append_nil]
    rfl
  | cons c text ih =>
    intro line
    rcases inside_or_crlf c text with inside | ⟨rest, rfl, rfl⟩
    · have again : line ++ [c] ++ text = line ++ c :: text := by simp
      rw [crlfLines.eq_3 line c text inside, strstr_cons inside, ih, again, Option.map_map]
      congr 2
      funext found
      simp
    · simp [crlfLines, strstr, crlf]

theorem length_of_strstr {sep : Text} (text : Text) : ∀ {front back : Text},
    strstr sep text = some (front, back) → back.length ≤ text.length - sep.length := by
  induction text with
  | nil =>
    intro front back found
    cases found
  | cons c text ih =>
    intro front back found
    rw [strstr] at found
    split at found
    · simp [← (Prod.mk.inj (Option.some.inj found)).2]
    · obtain ⟨_, later, same⟩ := Option.map_eq_some_iff.mp found
      have shorter := ih later
      rw [← (Prod.mk.inj same).2, length_cons]
      omega

theorem strSplitLoop_eq (turns : Nat) : ∀ {text : Text}, text.length ≤ turns →
    strSplitLoop crlf turns text = crlfLines [] text := by
  induction turns with
  | zero =>
    intro text short
    have empty : text = [] := length_eq_zero_iff.mp (Nat.le_zero.mp short)
    rw [empty]
    rfl
  | succ turns ih =>
    intro text short
    rw [crlfLines_eq, strSplitLoop]
    cases found : strstr crlf text with
    | none => rfl
    | some pair =>
      obtain ⟨front, back⟩ := pair
      have shorter := length_of_strstr text found
      have two : crlf.length = 2 := rfl
      have enough : back.length ≤ turns := by omega
      exact congrArg (front :: ·) (ih enough)

theorem strSplit_crlf (text : Text) : strSplit text crlf 0 = crlfLines [] text :=
  strSplitLoop_eq _ (Nat.le_refl _)

theorem vsnprintf_cons {c : Char} (other : c ≠ '%') (format : Text) :
    vsnprintf (c :: format) = (vsnprintf format).map (c :: ·) := by
  rw [vsnprintf]
  · exact fun _ same => absurd same other
  · exact other

theorem vsnprintf_of_plain {format : Text} (plain : '%' ∉ format) :
    vsnprintf format = some format := by
  induction format with
  | nil => rfl
  | cons c format ih =>
    have other : c ≠ '%' := fun same => plain (same ▸ mem_cons_self)
    simp [vsnprintf_cons other, ih fun member => plain (mem_cons_of_mem c member)]

theorem count_vsnprintf (format : Text) : ∀ {str : Text}, vsnprintf format = some str →
    2 * str.count '%' = format.count '%' := by
  fun_induction vsnprintf format with
  | case1 =>
    intro str done
    rw [← Option.some.inj done]
    rfl
  | case2 format ih =>
    intro str done
    obtain ⟨rest, read, rfl⟩ := Option.map_eq_some_iff.mp done
    have both := ih read
    rw [count_cons_self, count_cons_self, count_cons_self]
    omega
  | case3 format other =>
    intro str done
    cases done
  | case4 c format _ other ih =>
    intro str done
    obtain ⟨rest, read, rfl⟩ := Option.map_eq_some_iff.mp done
    rw [count_cons_of_ne other, count_cons_of_ne other]
    exact ih read

section Written

variable {code : Nat}

theorem threeDigits_eq (least : 100 ≤ code) : threeDigits code = decimal code := by
  have long : ¬(decimal code).length ≤ 2 := by
    rw [decimal, Nat.length_toDigits_le_iff (by decide) (by decide)]
    omega
  have none_missing : 3 - (decimal code).length = 0 := by omega
  rw [threeDigits, none_missing, replicate_zero, nil_append]

theorem sendLines_eq (least : 100 ≤ code) (lines : List Text) :
    sendLines code lines = replyOf code lines := by
  induction lines with
  | nil => rfl
  | cons line rest ih =>
    cases rest with
    | nil =>
      rw [sendLines, numbered, threeDigits_eq least]
      rfl
    | cons next rest =>
      rw [sendLines, numbered, threeDigits_eq least, ih, replyOf, replyOf]
      · simp
      · exact cons_ne_nil next rest

theorem length_sendLines (line : Text) {rest : List Text} (more : rest ≠ []) :
    (sendLines code rest).flatten.length < (sendLines code (line :: rest)).flatten.length := by
  rw [sendLines, flatten_cons, length_append]
  · have long : 0 < (numbered code '-' line).length := by
      rw [numbered, length_append]
      exact Nat.add_pos_right _ (by decide)
    omega
  · exact more

theorem not_mem_threeDigits : '%' ∉ threeDigits code := by
  intro member
  rcases mem_append.mp member with zero | digit
  · exact absurd (eq_of_mem_replicate zero) (by decide)
  · exact absurd (isAlphanum_of_mem_toDigits (by decide) (by decide) digit) (by decide)

theorem count_numbered {mark : Char} (other : mark ≠ '%') (line : Text) :
    (numbered code mark line).count '%' = line.count '%' := by
  have none_last : crlf.count '%' = 0 := rfl
  rw [numbered, count_append, count_append, count_cons_of_ne other, none_last,
    count_eq_zero_of_not_mem not_mem_threeDigits, Nat.zero_add, Nat.add_zero]

theorem count_sendLines (lines : List Text) :
    (sendLines code lines).flatten.count '%' = lines.flatten.count '%' := by
  induction lines with
  | nil => rfl
  | cons line rest ih =>
    cases rest with
    | nil =>
      rw [sendLines, flatten_cons, flatten_cons, count_append,
        count_append, count_numbered (by decide)]
    | cons next rest =>
      rw [sendLines, flatten_cons, flatten_cons, count_append,
        count_append, count_numbered (by decide), ih]
      exact cons_ne_nil next rest

theorem count_crlfLines (line text : Text) :
    (crlfLines line text).flatten.count '%' = line.count '%' + text.count '%' := by
  fun_induction crlfLines line text with
  | case1 => rfl
  | case2 line some =>
    simp
  | case3 line text ih =>
    simp [ih]
  | case4 line c text other ih =>
    rw [ih, count_append, count_cons, count_cons, count_nil]
    omega

theorem count_sendMessageFormatted {format : Text} {written : List Text}
    (sent : sendMessageFormatted code format = some written) :
    2 * written.flatten.count '%' ≤ format.count '%' := by
  obtain ⟨str, read, rest⟩ := Option.bind_eq_some_iff.mp sent
  rw [← count_vsnprintf format read]
  have all := count_crlfLines [] str
  rw [count_nil, Nat.zero_add] at all
  rw [strSplit_crlf] at rest
  generalize crlfLines [] str = lines at rest all
  match lines with
  | [] => cases rest
  | [line] =>
    have same : written = sendLines code [line] := (Option.some.inj rest).symm
    rw [same, count_sendLines, all]
  | first :: next :: more =>
    have same : written = sendLines code (next :: more) := (Option.some.inj rest).symm
    rw [flatten_cons, count_append] at all
    rw [same, count_sendLines]
    omega

theorem sendMessageFormatted_plain {format : Text} (plain : '%' ∉ format) {first : Text}
    {rest : List Text} (lines : crlfLines [] format = first :: rest) :
    sendMessageFormatted code format =
      some (if rest = [] then sendLines code [first] else sendLines code rest) := by
  rw [sendMessageFormatted, vsnprintf_of_plain plain, Option.bind_some, strSplit_crlf, lines]
  cases rest <;> rfl

theorem crlfLines_ne_nil (line text : Text) : line ++ text ≠ [] → crlfLines line text ≠ [] := by
  fun_induction crlfLines line text with
  | case1 => exact fun filled => absurd rfl filled
  | case2 line filled => exact fun _ => cons_ne_nil _ _
  | case3 line text ih => exact fun _ => cons_ne_nil _ _
  | case4 line c text other ih =>
    intro _
    apply ih
    simp

end Written

theorem foldl_replyPush (texts : List Text) : ∀ (reply : StoredReply) (text : Text),
    reply.text = some text →
    texts.foldl replyPush reply = { reply with text := some (text ++ texts.flatten) } := by
  induction texts with
  | nil =>
    intro reply text stored
    simp [← stored]
  | cons first texts ih =>
    intro reply text stored
    have pushed : (replyPush reply first).text = some (text ++ first) := by
      simp [replyPush, stored]
    rw [foldl_cons, ih _ _ pushed, append_assoc]
    rfl

/-- The texts that `reply_send` writes for a code and the texts that were pushed. -/
def sentReply (old : StoredReply) (code : Nat) (texts : List Text) : Option (List Text) :=
  (replySend (texts.foldl replyPush (replySetCode code (replyClear old)))).map fun sent => sent.2.1

theorem sentReply_eq (old : StoredReply) {code : Nat} (positive : code ≠ 0) (texts : List Text) :
    sentReply old code texts = sendMessageFormatted code texts.flatten := by
  have stored : texts.foldl replyPush (replySetCode code (replyClear old)) =
      ⟨code, some texts.flatten, 0⟩ :=
    foldl_replyPush texts _ [] rfl
  have fresh : ¬(code = 0 ∨ (0 : Nat) ≠ 0) := by
    rintro (zero | zero)
    · exact positive zero
    · exact zero rfl
  rw [sentReply, stored, replySend, if_neg fresh, Option.map_map]
  exact Option.map_id'

/-- A stored reply is sent verbatim exactly if it is one line without a `%`. -/
theorem reply_sent_verbatim_iff (old : StoredReply) (code : Nat) (least : 100 ≤ code)
    (texts : List Text) (filled : texts.flatten ≠ []) :
    (∃ written, sentReply old code texts = some written ∧
      written.flatten = (replyOf code (crlfLines [] texts.flatten)).flatten) ↔
      (crlfLines [] texts.flatten).length = 1 ∧ '%' ∉ texts.flatten := by
  rw [sentReply_eq old (by omega), ← sendLines_eq least]
  obtain ⟨first, rest, lines⟩ :=
    exists_cons_of_ne_nil (crlfLines_ne_nil [] texts.flatten filled)
  constructor
  · rintro ⟨written, sent, same⟩
    have plain : '%' ∉ texts.flatten := by
      intro member
      have fewer := count_sendMessageFormatted sent
      rw [same, count_sendLines, count_crlfLines] at fewer
      have := count_pos_iff.mpr member
      omega
    refine ⟨?_, plain⟩
    rw [sendMessageFormatted_plain plain lines, Option.some.injEq] at sent
    rw [← sent, lines] at same
    by_cases single : rest = []
    · rw [lines, single]
      rfl
    · rw [if_neg single] at same
      have shorter : (sendLines code rest).flatten.length <
          (sendLines code (first :: rest)).flatten.length := length_sendLines first single
      rw [same] at shorter
      exact absurd shorter (Nat.lt_irrefl _)
  · rintro ⟨single, plain⟩
    rw [lines, length_cons] at single
    have none_left : rest = [] := length_eq_zero_iff.mp (by omega)
    rw [sendMessageFormatted_plain plain lines, lines, none_left]
    exact ⟨_, rfl, rfl⟩

theorem reply_sent_verbatim_one_line :
    ∃ written, sentReply {} 200 ["Command ".toList, "okay\r\n".toList] = some written ∧
      written.flatten = "200 Command okay\r\n".toList :=
  (reply_sent_verbatim_iff {} 200 (by decide) ["Command ".toList, "okay\r\n".toList]
    (by decide)).mpr (by decide)

/-- The first of several lines is never sent, and `%%` is sent as `%`. -/
theorem reply_sent_not_verbatim :
    sentReply {} 211 ["Features\r\n".toList, "End\r\n".toList] = some ["211 End\r\n".toList] ∧
    sentReply {} 200 ["100%%".toList] = some ["200 100%\r\n".toList] ∧
    sentReply {} 200 ["%s".toList] = none := by
  decide

end Wzdftpd
