import Mathlib.Data.List.TakeWhile
import Wzdftpd.Pieces

/- The control connection of `clientThreadProc`: every `recv` is cleaned up by
`cleanup_ftp_command` (wzd_protocol.c), trimmed and taken for one command. -/
namespace Wzdftpd

open Pieces List

abbrev Bytes := List UInt8

/-- `strpbrk(buffer,"\r\n")` looks for these. -/
def isBreak (b : UInt8) : Bool := b = 13 ∨ b = 10

/-- The `0xff`, `TELNET_IP` and `TELNET_SYNCH` bytes skipped at the start. -/
def isTelnet (b : UInt8) : Bool := b = 255 ∨ b = 244 ∨ b = 242

/-- `isspace` -/
def isSpace (b : UInt8) : Bool := b = 32 ∨ (9 ≤ b ∧ b ≤ 13)

def cString (buffer : Bytes) : Bytes := buffer.takeWhile (· ≠ 0)

/-- `cleanup_ftp_command`: `buffer[length-1]` is the last byte received, not the terminator. -/
def cleanupFtpCommand (chunk : Bytes) : Bytes :=
  let buffer := cString chunk.dropLast
  let buffer := if buffer.head? = some 255 then buffer.dropWhile isTelnet else buffer
  buffer.takeWhile fun b => !isBreak b

/-- `str_trim_right`, which never looks at the first byte. -/
def strTrimRight : Bytes → Bytes
  | [] => []
  | b :: rest => b :: (rest.reverse.dropWhile isSpace).reverse

/-- The text that one `recv` hands to `parse_ftp_command`. -/
def receive (chunk : Bytes) : Option Bytes :=
  if cleanupFtpCommand chunk = [] then none else some (strTrimRight (cleanupFtpCommand chunk))

/-- The texts that a session's receives hand to `parse_ftp_command`. -/
def received (chunks : List Bytes) : List Bytes := chunks.filterMap receive

/-- A line that reaches the parser unchanged. -/
structure CleanLine (line : Bytes) : Prop where
  free : ∀ b ∈ line, isBreak b = false
  noNul : ∀ b ∈ line, b ≠ 0
  plain : line.head? ≠ some 255
  trimmed : strTrimRight line = line

/-- One whole line with at least one byte of its end, or nothing but ends of lines. -/
structure WholeLine (chunk : Bytes) : Prop where
  split : ∃ line close, chunk = line ++ close ∧ close ≠ [] ∧ (∀ b ∈ close, isBreak b) ∧
    CleanLine line

variable {chunk : Bytes} {b : UInt8}

theorem isBreak_ne_zero (hit : isBreak b = true) : b ≠ 0 := by
  rintro rfl
  cases hit

theorem isBreak_ne_telnet (hit : isBreak b = true) : b ≠ 255 := by
  rintro rfl
  cases hit

theorem isTelnet_not_break (hit : isTelnet b = true) : isBreak b = false := by
  simp only [isTelnet, decide_eq_true_eq] at hit
  rcases hit with rfl | rfl | rfl <;> rfl

theorem receive_whole {line close : Bytes} (closed : close ≠ []) (breaks : ∀ b ∈ close, isBreak b)
    (clean : CleanLine line) :
    receive (line ++ close) = if line = [] then none else some line := by
  have short : (line ++ close).dropLast = line ++ close.dropLast :=
    dropLast_append_of_ne_nil closed
  have inner : ∀ b ∈ close.dropLast, isBreak b := fun b member =>
    breaks b (dropLast_subset close member)
  have whole : cString (line ++ close.dropLast) = line ++ close.dropLast := by
    rw [cString, takeWhile_eq_self_iff]
    intro b member
    rcases mem_append.mp member with member | member
    · simpa using clean.noNul b member
    · simpa using isBreak_ne_zero (inner b member)
  have head : (line ++ close.dropLast).head? ≠ some 255 := by
    cases line with
    | cons b line => exact clean.plain
    | nil =>
      cases rest : close.dropLast with
      | nil => simp
      | cons b rest' =>
        have first := isBreak_ne_telnet (inner b (by rw [rest]; simp))
        simpa using first
  have cut : (line ++ close.dropLast).takeWhile (fun b => !isBreak b) = line := by
    rw [takeWhile_append_of_pos (by intro b member; simp [clean.free b member])]
    cases rest : close.dropLast with
    | nil => simp
    | cons b rest' => simp [inner b (by rw [rest]; simp)]
  have cleaned : cleanupFtpCommand (line ++ close) = line := by
    simp only [cleanupFtpCommand, short, whole, if_neg head, cut]
  rw [receive, cleaned, clean.trimmed]

theorem strTrimRight_isFront (text : Bytes) : strTrimRight text <+: text := by
  cases text with
  | nil => exact prefix_rfl
  | cons b rest =>
    have kept := reverse_prefix.mpr (dropWhile_suffix (l := rest.reverse) isSpace)
    rw [reverse_reverse] at kept
    exact (prefix_cons_inj b).mpr kept

/-- What the cleaning drops around the text it keeps: telnet bytes before it,
an end of line and what follows it, and everything from a zero byte on. -/
theorem cleanup_split (some' : chunk ≠ []) : ∃ skipped rest zeroed last,
      chunk = skipped ++ (cleanupFtpCommand chunk ++ rest) ++ zeroed ++ [last] ∧
      (∀ b ∈ skipped, isBreak b = false) ∧
      (skipped = [] → (cleanupFtpCommand chunk ++ rest).head? ≠ some 255) ∧
      (∀ b ∈ cleanupFtpCommand chunk, isBreak b = false ∧ b ≠ 0) ∧
      zeroed.head?.all (· = 0) := by
  let buffer := cString chunk.dropLast
  let kept := if buffer.head? = some 255 then buffer.dropWhile isTelnet else buffer
  have cleaned : cleanupFtpCommand chunk = kept.takeWhile fun b => !isBreak b := rfl
  obtain ⟨skipped, bufferEq, telnet, plain⟩ : ∃ skipped, buffer = skipped ++ kept ∧
      (∀ b ∈ skipped, isBreak b = false) ∧ (skipped = [] → kept.head? ≠ some 255) := by
    by_cases escape : buffer.head? = some 255
    · refine ⟨buffer.takeWhile isTelnet, ?_, ?_, ?_⟩
      · simp [kept, if_pos escape]
      · exact fun b member => isTelnet_not_break (mem_takeWhile_imp member)
      · obtain ⟨rest, same⟩ := head?_eq_some_iff.mp escape
        simp [same, isTelnet]
    · exact ⟨[], by simp only [kept, if_neg escape, nil_append], by simp,
        fun _ => by simpa only [kept, if_neg escape] using escape⟩
  have keptEq : kept = cleanupFtpCommand chunk ++ kept.dropWhile (fun b => !isBreak b) := by
    simp [cleaned]
  refine ⟨skipped, kept.dropWhile fun b => !isBreak b, chunk.dropLast.dropWhile (· ≠ 0),
    chunk.getLast some', ?_, telnet, ?_, ?_, ?_⟩
  · rw [← keptEq, ← bufferEq]
    simp [buffer, cString, dropLast_append_getLast]
  · rw [← keptEq]
    exact plain
  · intro b member
    have free := mem_takeWhile_imp (p := fun b => !isBreak b) (cleaned ▸ member)
    refine ⟨by simpa using free, ?_⟩
    have inside : b ∈ buffer := by
      rw [bufferEq, keptEq]
      simp [member]
    simpa using mem_takeWhile_imp inside
  · have stops := head?_dropWhile_not (fun b : UInt8 => decide (b ≠ 0)) chunk.dropLast
    cases zeroed : chunk.dropLast.dropWhile (· ≠ 0) with
    | nil => rfl
    | cons b rest =>
      rw [zeroed] at stops
      simpa using stops

def yield (chunk : Bytes) : Nat := ((receive chunk).getD []).length

theorem yield_le_cleanup (chunk : Bytes) : yield chunk ≤ (cleanupFtpCommand chunk).length := by
  unfold yield receive
  split
  · simp
  · exact (strTrimRight_isFront _).length_le

theorem yield_le_load (chunk : Bytes) : yield chunk ≤ load isBreak chunk := by
  by_cases empty : chunk = []
  · subst empty
    decide
  obtain ⟨_, _, _, _, same, _, _, text, _⟩ := cleanup_split empty
  have kept := load_free fun b member => (text b member).1
  have bound := yield_le_cleanup chunk
  have total := congrArg (load isBreak) same
  simp only [load_append, kept] at total
  omega

/-- A receive of which nothing is lost but ends of lines is one whole line. -/
theorem wholeLine_of_yield (some' : chunk ≠ [])
    (full : yield chunk = load isBreak chunk) : WholeLine chunk := by
  obtain ⟨skipped, rest, zeroed, last, same, telnet, plain, text, zero⟩ := cleanup_split some'
  have kept := load_free fun b member => (text b member).1
  have bound := yield_le_cleanup chunk
  have total := congrArg (load isBreak) same
  simp only [load_append, kept, load_free telnet] at total
  have noSkip : skipped = [] := length_eq_zero_iff.mp (by omega)
  have restBreaks := load_eq_zero.mp (show load isBreak rest = 0 by omega)
  have zeroBreaks := load_eq_zero.mp (show load isBreak zeroed = 0 by omega)
  have lastBreak := load_eq_zero.mp (show load isBreak [last] = 0 by omega)
  have noZero : zeroed = [] := by
    cases zeroed with
    | nil => rfl
    | cons b zeroed =>
      have hit := isBreak_ne_zero (zeroBreaks b mem_cons_self)
      exact absurd (by simpa using zero) hit
  have head := plain noSkip
  rw [noSkip, noZero, nil_append, append_nil, append_assoc] at same
  refine ⟨cleanupFtpCommand chunk, rest ++ [last], same, by simp, ?_, ?_⟩
  · exact forall_mem_append.mpr ⟨restBreaks, lastBreak⟩
  refine ⟨fun b member => (text b member).1, fun b member => (text b member).2, ?_, ?_⟩
  · cases line : cleanupFtpCommand chunk with
    | nil => simp
    | cons b line' =>
      rw [line] at head
      exact head
  · have long : (strTrimRight (cleanupFtpCommand chunk)).length =
        (cleanupFtpCommand chunk).length := by
      apply Nat.le_antisymm (strTrimRight_isFront _).length_le
      unfold yield receive at full bound
      split at full
      · rename_i none'
        simp [none']
      · simp only [Option.getD_some] at full
        omega
    exact (strTrimRight_isFront _).eq_of_length long

theorem yield_sum (chunks : List Bytes) :
    ((received chunks).map length).sum = (chunks.map yield).sum := by
  induction chunks with
  | nil => rfl
  | cons chunk chunks ih =>
    rw [received, filterMap_cons, map_cons, sum_cons, ← ih, yield]
    cases receive chunk <;> simp [received]

def crlfStream (lines : List Bytes) : Bytes := lines.flatMap (· ++ [13, 10])

theorem crlfStream_frames {lines : List Bytes}
    (free : ∀ line ∈ lines, ∀ b ∈ line, isBreak b = false) :
    ∃ frames : List (Frame isBreak), frames.map Frame.body = lines ∧
      frames.flatMap Frame.text = crlfStream lines := by
  induction lines with
  | nil => exact ⟨[], rfl, rfl⟩
  | cons line lines ih =>
    obtain ⟨frames, bodies, texts⟩ :=
      ih (forall_mem_cons.mp free).2
    have lineFree := free line mem_cons_self
    refine ⟨⟨line, [13, 10], lineFree, by simp, by simp [isBreak]⟩ :: frames, ?_, ?_⟩
    · simp [bodies]
    · rw [flatMap_cons, texts]
      rfl

theorem received_frames {chunks : List Bytes} (whole : ∀ chunk ∈ chunks, WholeLine chunk) :
    ∃ frames : List (Frame isBreak), frames.flatMap Frame.text = chunks.flatten ∧
      received chunks = (frames.map Frame.body).filter fun line => !line.isEmpty := by
  induction chunks with
  | nil => exact ⟨[], rfl, rfl⟩
  | cons chunk chunks ih =>
    obtain ⟨frames, texts, bodies⟩ :=
      ih (forall_mem_cons.mp whole).2
    obtain ⟨line, close, rfl, closed, breaks, clean⟩ := (whole chunk mem_cons_self).split
    refine ⟨⟨line, close, clean.free, closed, breaks⟩ :: frames, ?_, ?_⟩
    · rw [flatMap_cons, texts]
      rfl
    · rw [received, filterMap_cons, receive_whole closed breaks clean]
      rw [received] at bodies
      cases line <;> simp [bodies]

/-- However the network cuts a stream of CRLF lines into receives, the loop
hands exactly the non-empty lines to the parser, in order and unchanged, if and
only if every receive is one whole line or only ends of lines. -/
theorem received_iff_wholeLine (lines chunks : List Bytes)
    (free : ∀ line ∈ lines, ∀ b ∈ line, isBreak b = false) (some' : ∀ chunk ∈ chunks, chunk ≠ [])
    (stream : chunks.flatten = crlfStream lines) :
    received chunks = (lines.filter fun line => !line.isEmpty) ↔
      ∀ chunk ∈ chunks, WholeLine chunk := by
  obtain ⟨_, lineBodies, lineTexts⟩ := crlfStream_frames free
  constructor
  · intro same chunk member
    have total : (chunks.map yield).sum = load isBreak chunks.flatten := by
      rw [← yield_sum, same, sum_length_filter, stream, ← lineTexts, load_frames, lineBodies]
    exact wholeLine_of_yield (some' chunk member)
      (yield_eq_load yield yield_le_load chunks total chunk member)
  · intro whole
    obtain ⟨_, texts, bodies⟩ := received_frames whole
    rw [bodies, ← pieces_frames, texts, stream, ← lineTexts, pieces_frames, lineBodies]

/-- `NOOP` -/
def noopLine : Bytes := [78, 79, 79, 80]

/-- `PWD` -/
def pwdLine : Bytes := [80, 87, 68]

theorem received_iff_wholeLine_two :
    WholeLine (noopLine ++ [13, 10]) ∧ WholeLine (pwdLine ++ [13, 10]) := by
  have whole := (received_iff_wholeLine [noopLine, pwdLine]
    [noopLine ++ [13, 10], pwdLine ++ [13, 10]] (by simp [noopLine, pwdLine, isBreak]) (by decide)
    (by decide)).mp (by decide)
  exact ⟨whole _ mem_cons_self, whole _ (mem_cons_of_mem _ mem_cons_self)⟩

/-- Two lines in one receive: the second is lost. One line in two receives: two
commands, and the last byte of the first receive is lost. -/
theorem received_loses_bytes :
    received [crlfStream [noopLine, pwdLine]] = [noopLine] ∧
      [[78, 79], [79, 80, 13, 10]].flatten = crlfStream [noopLine] ∧
      received [[78, 79], [79, 80, 13, 10]] = [[78], [79, 80]] := by
  decide

end Wzdftpd
