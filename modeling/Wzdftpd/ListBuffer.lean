import Wzdftpd.Session
import Wzdftpd.TextBuffer

/- `list_call_wrapper` of wzd_list.c, which collects the lines of a listing in a buffer, and
the calls that `list` makes of it: one for each line, and one to flush. -/
namespace Wzdftpd

open TextBuffer List

/-- HARD_LS_BUFFERSIZE -/
def hardLsBuffersize : Nat := 4096

/-- The buffer, the length that is kept beside it, and the texts the callback was given. -/
structure SendBuffer where
  buffer : List Char
  len : Nat
  sent : List Text

/-- `memset(send_buffer, 0, HARD_LS_BUFFERSIZE); send_buffer_len = 0;` -/
def SendBuffer.empty : SendBuffer := ⟨replicate hardLsBuffersize '\x00', 0, []⟩

/-- `list_call_wrapper`, with the value it returns as a truth value. -/
def listCallWrapper (callback : Text → Bool) (line : Option Text) (s : SendBuffer) :
    Option (Bool × SendBuffer) :=
  match line with
  | none =>
    s.buffer.head?.map fun first =>
      if first = '\x00' then (false, s)
      else (!callback (text s.buffer), { s with sent := s.sent ++ [text s.buffer] })
  | some line =>
    if s.len + line.length ≥ hardLsBuffersize - 1 then
      if !callback (text s.buffer) then some (true, ⟨s.buffer, 0, s.sent ++ [text s.buffer]⟩)
      else
        (place s.buffer 0 (line ++ ['\x00'])).map fun buffer =>
          (false, ⟨buffer, line.length, s.sent ++ [text s.buffer]⟩)
    else
      (place s.buffer s.len (line ++ ['\x00'])).map fun buffer =>
        (false, ⟨buffer, s.len + line.length, s.sent⟩)

/-- The loop of `list` that passes its lines on, which ends where a call fails. -/
def passLines (callback : Text → Bool) : List Text → SendBuffer → Option SendBuffer
  | [], s => some s
  | line :: lines, s =>
    (listCallWrapper callback (some line) s).bind fun next =>
      if next.1 then some next.2 else passLines callback lines next.2

def listOutput (callback : Text → Bool) (lines : List Text) : Option (List Text) :=
  (passLines callback lines .empty).bind fun s =>
    (listCallWrapper callback none s).map fun next => next.2.sent

/-- What was sent and what is in the buffer are the lines passed so far. -/
structure Collected (s : SendBuffer) (lines : List Text) : Prop where
  size : s.buffer.length = hardLsBuffersize
  terminated : ∃ rest, s.buffer = text s.buffer ++ '\x00' :: rest
  length : (text s.buffer).length = s.len
  room : s.len + 1 < hardLsBuffersize
  whole : s.sent.flatten ++ text s.buffer = lines.flatten

section Step

variable {callback : Text → Bool} {s : SendBuffer} {lines : List Text}

theorem Collected.empty : Collected .empty [] := by
  refine ⟨length_replicate, ⟨replicate 4095 '\x00', rfl⟩, ?_, by decide, ?_⟩
  · rfl
  · rfl

theorem place_line (word rest line : List Char) (plain : '\x00' ∉ word ++ line)
    (room : line.length < rest.length) :
    ∃ after, place (word ++ rest) word.length (line ++ ['\x00']) = some after ∧
      text after = word ++ line ∧ ∃ behind, after = word ++ line ++ '\x00' :: behind := by
  have fits : (line ++ ['\x00']).length ≤ rest.length := by
    rw [length_append, length_singleton]
    omega
  have shape : word ++ (line ++ ['\x00']) ++ rest.drop (line ++ ['\x00']).length =
      word ++ line ++ '\x00' :: rest.drop (line ++ ['\x00']).length := by simp
  exact ⟨_, place_append fits, by rw [shape, text_append plain], _, shape⟩

theorem Collected.next (succeeds : ∀ word, callback word = true) (collected : Collected s lines)
    {line : Text} (clean : '\x00' ∉ line) (short : line.length < hardLsBuffersize - 1) :
    ∃ after, listCallWrapper callback (some line) s = some (false, after) ∧
      Collected after (lines ++ [line]) := by
  obtain ⟨size, ⟨rest, shape⟩, length, _, whole⟩ := collected
  have count : s.buffer.length = s.len + 1 + rest.length := by
    rw [shape, length_append, length_cons]
    omega
  rw [listCallWrapper]
  by_cases full : s.len + line.length ≥ hardLsBuffersize - 1
  · obtain ⟨after, placed, written, behind, shape'⟩ := place_line [] s.buffer
      line clean (by omega)
    have placed' : place s.buffer 0 (line ++ ['\x00']) = some after := placed
    refine ⟨⟨after, line.length, s.sent ++ [text s.buffer]⟩, ?_, ?_⟩
    · rw [if_pos full, succeeds, placed']
      rfl
    refine ⟨(place_length placed').trans size, ⟨behind, ?_⟩, ?_, ?_, ?_⟩
    · rw [written, shape']
    · rw [written]
      rfl
    · change line.length + 1 < _
      omega
    · rw [written, flatten_append, flatten_append, ← whole]
      simp
  · obtain ⟨after, placed, written, behind, shape'⟩ := place_line (text s.buffer)
      ('\x00' :: rest) line
      (fun null => (mem_append.mp null).elim null_notMem_text clean)
      (by rw [length_cons]; omega)
    rw [← shape, length] at placed
    refine ⟨⟨after, s.len + line.length, s.sent⟩, ?_, ?_⟩
    · rw [if_neg full, placed]
      rfl
    refine ⟨(place_length placed).trans size, ⟨behind, ?_⟩, ?_, ?_, ?_⟩
    · rw [written, shape']
    · simp [written, length]
    · change s.len + line.length + 1 < _
      omega
    · rw [written, ← append_assoc, whole]
      simp

theorem Collected.run (succeeds : ∀ word, callback word = true) (more : List Text) :
    ∀ {s : SendBuffer} {lines : List Text}, Collected s lines →
    (∀ line ∈ more, '\x00' ∉ line ∧ line.length < hardLsBuffersize - 1) →
    ∃ after, passLines callback more s = some after ∧ Collected after (lines ++ more) := by
  induction more with
  | nil =>
    intro s lines collected _
    exact ⟨s, rfl, by rwa [append_nil]⟩
  | cons line more ih =>
    intro s lines collected all
    obtain ⟨clean, short⟩ := all line mem_cons_self
    obtain ⟨_, called, kept⟩ := collected.next succeeds clean short
    obtain ⟨after, sent, last⟩ := ih kept (forall_mem_cons.mp all).2
    refine ⟨after, ?_, by rwa [append_assoc] at last⟩
    rw [passLines, called]
    exact sent

theorem Collected.flush (succeeds : ∀ word, callback word = true) (collected : Collected s lines) :
    ∃ after, listCallWrapper callback none s = some (false, after) ∧
      after.sent.flatten = lines.flatten := by
  obtain ⟨_, ⟨_, shape⟩, _, _, whole⟩ := collected
  obtain ⟨first, tail, start⟩ : ∃ first tail, s.buffer = first :: tail := by
    rw [shape]
    exact exists_cons_of_ne_nil (by simp)
  rw [listCallWrapper, start, head?_cons, Option.map_some, ← start]
  by_cases none' : first = '\x00'
  · have blank : text s.buffer = [] := by
      rw [start, none']
      rfl
    rw [blank, append_nil] at whole
    exact ⟨s, by rw [if_pos none'], whole⟩
  · refine ⟨{ s with sent := s.sent ++ [text s.buffer] }, ?_, ?_⟩
    · rw [if_neg none', succeeds]
      rfl
    · rw [← whole]
      simp

end Step

/-- Lines that are short enough come out in order, and no more of the buffer is ever used
than there is. -/
theorem listing_output_exact (callback : Text → Bool) (lines : List Text)
    (succeeds : ∀ word, callback word = true)
    (all : ∀ line ∈ lines, '\x00' ∉ line ∧ line.length < hardLsBuffersize - 1) :
    (∀ done, done <+: lines → ∃ s, passLines callback done .empty = some s ∧
      (text s.buffer).length = s.len ∧ s.len + 1 ≤ hardLsBuffersize ∧
      s.sent.flatten ++ text s.buffer = done.flatten) ∧
    ∃ sent, listOutput callback lines = some sent ∧ sent.flatten = lines.flatten := by
  constructor
  · intro done part
    obtain ⟨s, sent, collected⟩ := Collected.empty.run succeeds done
      fun line member => all line (part.subset member)
    exact ⟨s, sent, collected.length, Nat.le_of_lt collected.room, collected.whole⟩
  · obtain ⟨s, sent, collected⟩ := Collected.empty.run succeeds lines all
    obtain ⟨after, flushed, whole⟩ := collected.flush succeeds
    exact ⟨after.sent, by rw [listOutput, sent, Option.bind_some, flushed]; rfl, whole⟩

theorem listing_output_exact_two : ∃ sent,
    listOutput (fun _ => true) ["a\r\n".toList, "b\r\n".toList] = some sent ∧
      sent.flatten = "a\r\nb\r\n".toList :=
  (listing_output_exact (fun _ => true) ["a\r\n".toList, "b\r\n".toList] (fun _ => rfl)
    (by decide)).2

end Wzdftpd
