import Wzdftpd.TransferLoops

/- What the reply 226 says about a transfer. -/
namespace Wzdftpd

open List Runs

namespace Download

/-- 226 is only sent when all of `body` has been read and handed to the socket. -/
def Honest (body : List UInt8) (s : Download) : Prop :=
  s.status = .ended 226 → s.file.rest = [] ∧ body.Sublist s.handed

/-- `read` does not fail while there is something left. -/
def ReadsOn (loop : TransferLoop) (length : Nat) (s : Download) (turn : RetrTurn) : Prop :=
  s.status = .running → loop.reads turn → turn.read = .error ∨ length = 0 → s.file.rest = []

/-- What is not left has been handed over. -/
structure Sound (body : List UInt8) (s : Download) : Prop where
  honest : s.Honest body
  moved : s.status = .running → ∃ sent, sent ++ s.file.rest = body ∧ sent.Sublist s.handed

variable {loop : TransferLoop} {length timeout : Nat} {before : Nat → UInt8} {body : List UInt8}
  {s : Download} {turn : RetrTurn}

theorem sound_start (file : ByteFile) (user : UserRecord) : (start file user).Sound file.rest := by
  constructor
  · intro ended
    cases ended
  · exact fun _ => ⟨[], rfl, Sublist.refl []⟩

theorem sound_of_other (stopped : s.status ≠ .running) (other : s.status ≠ .ended 226) :
    s.Sound body :=
  ⟨fun ended => absurd ended other, fun running => absurd running stopped⟩

/-- A block that has been sent is one that has been handed over. -/
theorem Sound.block_of_data (sound : s.Sound body) (running : s.status = .running)
    (something : ¬s.ReadsNothing length turn) :
    (s.block timeout length before turn).Sound body := by
  cases read : turn.read with
  | error => exact absurd (.inl read) something
  | takes more =>
    rw [Download.block_of_data read something]
    cases returned : (s.sending timeout length before more turn.tries).ret with
    | none => exact sound_of_other (by simp [afterSend]) (by simp [afterSend])
    | some ret =>
      by_cases failed : ret ≤ 0
      · rw [afterSend, if_pos failed]
        exact sound_of_other (by simp) (by simp)
      rw [afterSend, if_neg failed]
      obtain ⟨sent, all, covered⟩ := sound.moved running
      have block := clearWrite_covers (Int.not_le.mp failed) turn.tries
        (Sending.covers_start (s.data length more)) returned
      refine ⟨fun ended => ?_, fun _ => ⟨sent ++ s.data length more, ?_, ?_⟩⟩
      · cases running.symm.trans ended
      · rw [append_assoc, data, FileCursor.next_append_rest]
        exact all
      · exact covered.append block

theorem Sound.ended (sound : s.Sound body) (running : s.status = .running)
    (nothing : s.file.rest = []) : ({ s with status := .ended 226 } : Download).Sound body := by
  refine ⟨fun _ => ⟨nothing, ?_⟩, fun other => ?_⟩
  · obtain ⟨_, all, _⟩ := sound.moved running
    rw [nothing, append_nil] at all
    rwa [← all]
  · cases other

theorem Sound.step (sound : s.Sound body) (readsOn : s.ReadsOn loop length turn) :
    (s.step loop length before turn).Sound body := by
  by_cases running : s.status = .running
  · by_cases reads : loop.reads turn
    · obtain ⟨_, same⟩ := step_of_reads length before running reads
      rw [same]
      by_cases nothing : s.ReadsNothing length turn
      · rw [block_of_nothing nothing]
        refine sound.ended running ?_
        rcases nothing with failed | empty | finished
        · exact readsOn running reads (.inl failed)
        · exact readsOn running reads (.inr empty)
        · exact finished
      · exact sound.block_of_data running nothing
    · rw [step_of_not_reads running reads]
      exact sound_of_other (by simp) (by simp)
  · rw [step_of_not_running running]
    exact sound

theorem not_honest_step (fails : ¬s.ReadsOn loop length turn) :
    ¬(s.step loop length before turn).Honest body := by
  unfold ReadsOn at fails
  push Not at fails
  obtain ⟨running, reads, failed, left⟩ := fails
  obtain ⟨_, same⟩ := step_of_reads length before running reads
  have nothing : s.ReadsNothing length turn := failed.imp_right .inl
  rw [same, block_of_nothing nothing]
  exact fun honest => left (honest rfl).1

theorem honest_iff_readsOn (loop : TransferLoop) (length : Nat) (before : Nat → UInt8)
    (file : ByteFile) (user : UserRecord) (turns : List RetrTurn) :
    Throughout (step loop length before) (Honest file.rest) (start file user) turns ↔
      Always (step loop length before) (ReadsOn loop length) (start file user) turns :=
  throughout_iff_always_of_side (step loop length before) (Sound file.rest)
    (Honest file.rest) (fun _ _ => True) (ReadsOn loop length) (fun _ sound => sound.honest)
    (fun _ _ sound _ readsOn => sound.step readsOn) (fun _ _ _ _ fails => not_honest_step fails)
    turns (start file user) (sound_start file user)
    (always_of_forall (fun _ _ => trivial) turns _)

end Download

namespace Storing

/-- 226 is only sent when the peer has closed the connection and all that it sent has
been written. -/
def Honest (s : Storing) : Prop :=
  s.status = .ended 226 → s.peerClosed = true ∧ s.written = s.received

end Storing

/-- The upload that ends with 226 is ended by the peer, and every block in front of the
end was written in full. -/
def EndsClean (loop : TransferLoop) (length : Nat) (turns : List StorTurn) : Prop :=
  ∀ last, turns.find? (fun turn => !loop.receivesOn length turn) = some last →
    loop.finishes length last = true →
    last.closes = true ∧
      ∀ turn ∈ turns.takeWhile (loop.receivesOn length), turn.writesAll length = true

namespace Storing

variable {loop : TransferLoop} {length : Nat} {s : Storing} {turn : StorTurn}

theorem fileWrite_written_eq_iff (file : ByteFile) (receives : turn.recv.bytes length ≠ []) :
    (fileWrite file (turn.recv.bytes length) turn.write).written = turn.recv.bytes length ↔
      turn.writesAll length = true := by
  unfold StorTurn.writesAll
  cases turn.write with
  | takes count =>
    simp [fileWrite, WriteCall.bytes]
  | error => simp only [fileWrite, WriteCall.bytes, receives.symm, Bool.false_eq_true]

theorem fileWrite_written_length_le (file : ByteFile) (data : List UInt8) (call : WriteCall) :
    (fileWrite file data call).written.length ≤ data.length := by
  cases call with
  | takes count => exact length_take_le' count data
  | error => exact Nat.zero_le _

theorem put_length_le (bounded : s.written.length ≤ s.received.length) (data : List UInt8)
    (call : WriteCall) :
    (s.put data call).written.length ≤ (s.put data call).received.length := by
  have block := fileWrite_written_length_le s.file data call
  simp only [put, length_append]
  omega

/-- What was lost once is not made up for. -/
theorem put_eq_iff (bounded : s.written.length ≤ s.received.length)
    (receives : turn.recv.bytes length ≠ []) :
    (s.put (turn.recv.bytes length) turn.write).written =
        (s.put (turn.recv.bytes length) turn.write).received ↔
      s.written = s.received ∧ turn.writesAll length = true := by
  have block := fileWrite_written_length_le s.file (turn.recv.bytes length) turn.write
  rw [← fileWrite_written_eq_iff s.file receives]
  constructor
  · intro same
    have sizes := congrArg List.length same
    simp only [put, length_append] at sizes
    exact append_inj same (by omega)
  · rintro ⟨old, new⟩
    simp only [put, old, new]

theorem finish_honest_iff : (s.finish turn).Honest ↔ turn.closes = true ∧ s.written = s.received :=
  ⟨fun honest => honest rfl, fun clean _ => clean⟩

/-- From a state on, in which something may have been lost already. -/
theorem honest_iff_from (turns : List StorTurn) : ∀ {s : Storing}, s.status = .running →
    s.written.length ≤ s.received.length →
    (Throughout (step loop length) Honest s turns ↔
      ∀ last, turns.find? (fun turn => !loop.receivesOn length turn) = some last →
        loop.finishes length last = true →
        last.closes = true ∧ s.written = s.received ∧
          ∀ turn ∈ turns.takeWhile (loop.receivesOn length), turn.writesAll length = true) := by
  induction turns with
  | nil =>
    intro s running bounded
    rw [throughout_nil]
    refine ⟨fun _ last found => ?_, fun _ ended => ?_⟩
    · cases found
    · cases running.symm.trans ended
  | cons turn turns ih =>
    intro s running bounded
    have silent : s.Honest := by
      intro ended
      cases running.symm.trans ended
    rw [throughout_cons, and_iff_right silent]
    by_cases goes : loop.receivesOn length turn = true
    · have receives := receives_of_receivesOn goes
      have next : ((s.put (turn.recv.bytes length) turn.write).count loop
          (turn.recv.bytes length).length).status = .running := running
      rw [step_of_receivesOn running goes, ih next (put_length_le bounded _ _)]
      simp only [find?_cons, goes, takeWhile_cons, if_true, forall_mem_cons]
      have blocks := put_eq_iff bounded receives
      constructor
      · intro clean last found ends
        obtain ⟨closes, same, rest⟩ := clean last found ends
        obtain ⟨old, new⟩ := blocks.mp same
        exact ⟨closes, old, new, rest⟩
      · intro clean last found ends
        obtain ⟨closes, old, new, rest⟩ := clean last found ends
        exact ⟨closes, blocks.mpr ⟨old, new⟩, rest⟩
    · have stops := Bool.eq_false_iff.mpr goes
      simp only [find?_cons, stops, takeWhile_cons]
      by_cases ends : loop.finishes length turn = true
      · have ended : ∀ event, (s.finish turn).step loop length event = s.finish turn :=
          fun event => step_of_not_running (by simp [finish])
        rw [step_of_finishes running ends, throughout_fixed ended, finish_honest_iff]
        simp [ends]
      · have fails := step_of_fails running stops (Bool.eq_false_iff.mpr ends)
        have ended : ∀ event, (s.step loop length turn).step loop length event =
            s.step loop length turn := fun event => step_of_not_running (by simp [fails])
        rw [throughout_fixed ended]
        simp [Honest, fails, ends]

theorem honest_iff_endsClean (loop : TransferLoop) (length : Nat) (file : ByteFile)
    (user : UserRecord) (turns : List StorTurn) :
    Throughout (step loop length) Honest (start file user) turns ↔ EndsClean loop length turns := by
  rw [honest_iff_from turns (s := start file user) rfl (Nat.le_refl 0)]
  simp [EndsClean, start]

end Storing

/-- A 226 ends complete transfers only, exactly when `read` does not fail in front of the
end of the file that is sent, and when the upload is ended by the peer and its blocks are
all written. -/
theorem reply_226_complete_iff (loop : TransferLoop) (length : Nat) (before : Nat → UInt8)
    (file : ByteFile) (user : UserRecord) (retrTurns : List RetrTurn) (target : ByteFile)
    (storTurns : List StorTurn) :
    (Throughout (Download.step loop length before) (Download.Honest file.rest)
        (.start file user) retrTurns ↔
      Always (Download.step loop length before) (Download.ReadsOn loop length)
        (.start file user) retrTurns) ∧
    (Throughout (Storing.step loop length) Storing.Honest (.start target user) storTurns ↔
      EndsClean loop length storTurns) :=
  ⟨Download.honest_iff_readsOn loop length before file user retrTurns,
    Storing.honest_iff_endsClean loop length target user storTurns⟩

/-- A `read` that fails is answered with 226 by both loops, and so is a `recv` that fails.
`data_execute` also sends it for a block that was not written and after a timeout. -/
theorem reply_226_of_failures :
    let file : ByteFile := ⟨[1, 2, 3], 0⟩
    let empty : ByteFile := ⟨[], 0⟩
    let failedRead : RetrTurn := ⟨.ready, .error, []⟩
    let failedRecv : StorTurn := ⟨.ready, .error, .takes 1, true⟩
    let failedWrite : StorTurn := ⟨.ready, .data 7 [], .error, true⟩
    let close : StorTurn := ⟨.ready, .closed, .takes 1, true⟩
    let late : StorTurn := ⟨.timeout, .closed, .takes 1, true⟩
    (∀ loop, ¬(Download.step loop 16 (fun _ => 0) (.start file {}) failedRead).Honest file.rest) ∧
    (∀ loop, ¬(Storing.step loop 16 (.start empty {}) failedRecv).Honest) ∧
    ¬([failedWrite, close].foldl (Storing.step .dataExecute 16) (.start empty {})).Honest ∧
    ¬(Storing.step .dataExecute 16 (.start empty {}) late).Honest := by
  refine ⟨fun loop honest => ?_, fun loop honest => ?_, fun honest => ?_, fun honest => ?_⟩
  · cases loop <;> exact absurd (honest rfl).1 (by decide)
  · cases loop <;> exact absurd (honest rfl).1 (by decide)
  · exact absurd (honest rfl).2 (by decide)
  · exact absurd (honest rfl).1 (by decide)

end Wzdftpd
