import Wzdftpd.TransferLoops

/- Transfers in which no call fails: what RETR sends and what STOR and APPE leave in the
file, however the reads, sends and receives are cut. -/
namespace Wzdftpd

open List

/-- The calls of a turn of RETR succeed, with as many sends as a block may need. -/
structure RetrTurn.Smooth (length : Nat) (turn : RetrTurn) : Prop where
  ready : turn.wait = .ready
  reads : turn.read ≠ .error
  sends : ∀ t ∈ turn.tries, t.succeeds
  enough : length ≤ turn.tries.length

structure StorTurn.Smooth (length : Nat) (turn : StorTurn) : Prop where
  receives : turn.receives length = true
  writes : turn.writesAll length = true

theorem StorTurn.Smooth.receivesOn {length : Nat} {turn : StorTurn} (smooth : turn.Smooth length)
    (loop : TransferLoop) : loop.receivesOn length turn = true := by
  cases loop with
  | dataExecute => exact smooth.receives
  | localThread => exact decide_eq_true ⟨smooth.receives, smooth.writes⟩

theorem StorTurn.finishes_of_closes {turn : StorTurn} (closes : turn.closes = true)
    (loop : TransferLoop) (length : Nat) : loop.finishes length turn = true := by
  obtain ⟨ready, closed⟩ := of_decide_eq_true closes
  cases loop with
  | dataExecute => simp [TransferLoop.finishes, StorTurn.receives, closed, RecvCall.bytes]
  | localThread => simp [TransferLoop.finishes, ready, closed, RecvCall.bytes]

namespace Download

/-- What was handed over and what is left make up the body; 226 is only sent if nothing is
left. -/
structure Exact (body : List UInt8) (s : Download) : Prop where
  split : s.handed ++ s.file.rest = body
  status : s.status = .running ∨ s.status = .ended 226 ∧ s.file.rest = []

/-- 226 is sent after the body, and after nothing else. -/
def EndsAfter (body : List UInt8) (s : Download) : Prop :=
  s.status = .ended 226 → s.handed = body

variable {loop : TransferLoop} {length timeout : Nat} {before : Nat → UInt8} {body : List UInt8}
  {s : Download} {turn : RetrTurn}

theorem exact_start (file : ByteFile) (user : UserRecord) : (start file user).Exact file.rest :=
  ⟨rfl, .inl rfl⟩

theorem block_of_smooth (smooth : turn.Smooth length) {more : Nat}
    (read : turn.read = .takes more) (something : ¬s.ReadsNothing length turn) :
    s.block timeout length before turn =
      ⟨s.file.read (min (more + 1) length), s.handed ++ s.data length more,
        s.user.countSent (s.data length more).length, s.status⟩ := by
  have nonempty := mt (readsNothing_of_takes read).mp something
  have small : (s.data length more).length ≤ length := by
    have size := length_take_le (min (more + 1) length) s.file.rest
    rw [data, FileCursor.next]
    omega
  have sent : s.sending timeout length before more turn.tries =
      ⟨some (s.data length more).length, s.data length more⟩ := by
    refine clearWrite_exact timeout before (s.data length more) turn.tries smooth.sends
      (Nat.zero_le _) ?_
    exact Nat.le_trans small smooth.enough
  rw [block_of_data read something, sent, afterSend, if_neg]
  exact Int.not_le.mpr (Int.natCast_pos.mpr (length_pos_iff.mpr nonempty))

theorem step_at_end (running : s.status = .running) (smooth : turn.Smooth length)
    (nothing : s.file.rest = []) :
    s.step loop length before turn = { s with status := .ended 226 } := by
  obtain ⟨_, same⟩ := step_of_reads length before running (.inr smooth.ready)
  rw [same, block_of_nothing (.inr (.inr nothing))]

theorem Exact.step_before_end (loop : TransferLoop) (before : Nat → UInt8) (exact : s.Exact body)
    (running : s.status = .running) (room : 0 < length) (smooth : turn.Smooth length)
    (left : s.file.rest ≠ []) :
    (s.step loop length before turn).Exact body ∧
      (s.step loop length before turn).status = .running ∧
      (s.step loop length before turn).file.rest.length < s.file.rest.length := by
  obtain ⟨_, same⟩ := step_of_reads length before running (.inr smooth.ready)
  have something : ¬s.ReadsNothing length turn := by
    rintro (failed | empty | nothing)
    · exact smooth.reads failed
    · omega
    · exact left nothing
  cases read : turn.read with
  | error => exact absurd read smooth.reads
  | takes more =>
    have nonempty := length_pos_iff.mpr (mt (readsNothing_of_takes read).mp something)
    have parts := s.file.next_append_rest (min (more + 1) length)
    have sizes := congrArg List.length parts
    rw [length_append] at sizes
    rw [same, block_of_smooth smooth read something]
    refine ⟨⟨?_, .inl running⟩, running, ?_⟩
    · rw [append_assoc, data, parts]
      exact exact.split
    · change (s.file.read (min (more + 1) length)).rest.length < _
      omega

theorem Exact.step (exact : s.Exact body) (room : 0 < length) (smooth : turn.Smooth length) :
    (s.step loop length before turn).Exact body := by
  rcases exact.status with running | ⟨ended, nothing⟩
  · by_cases left : s.file.rest = []
    · rw [step_at_end running smooth left]
      exact ⟨exact.split, .inr ⟨rfl, left⟩⟩
    · exact (exact.step_before_end loop before running room smooth left).1
  · rw [step_of_not_running (by simp [ended])]
    exact exact

theorem Exact.endsAfter (exact : s.Exact body) : s.EndsAfter body := by
  intro ended
  rcases exact.status with running | ⟨_, nothing⟩
  · cases running.symm.trans ended
  · have split := exact.split
    rwa [nothing, append_nil] at split

/-- As many turns as there are bytes, and one more, reach the end. -/
theorem Exact.run_ends (room : 0 < length) (turns : List RetrTurn)
    (smooth : ∀ turn ∈ turns, turn.Smooth length) : ∀ {s : Download}, s.Exact body →
      s.status = .running → s.file.rest.length < turns.length →
      (turns.foldl (Download.step loop length before) s).status = .ended 226 := by
  induction turns with
  | nil => exact fun _ _ few => absurd few (Nat.not_lt_zero _)
  | cons turn turns ih =>
    intro s exact running enough
    obtain ⟨first, later⟩ := forall_mem_cons.mp smooth
    rw [foldl_cons]
    by_cases left : s.file.rest = []
    · rw [step_at_end running first left, foldl_fixed']
      exact fun _ => step_of_not_running (by simp)
    · obtain ⟨next, still, _⟩ := exact.step_before_end loop before running room first left
      refine ih later next still ?_
      rw [length_cons] at enough
      omega

end Download

namespace Storing

variable {length : Nat}

/-- The upload has been reported as complete, and this is what the file holds. -/
def Leaves (result : List UInt8) (s : Storing) : Prop :=
  s.status = .ended 226 ∧ s.file.content = result

theorem run_blocks (loop : TransferLoop) (turns : List StorTurn)
    (smooth : ∀ turn ∈ turns, turn.Smooth length) :
    ∀ {s : Storing}, s.status = .running → (turns.foldl (step loop length) s).status = .running ∧
        (turns.foldl (step loop length) s).file.front 0 =
          s.file.front 0 ++ turns.flatMap (·.recv.bytes length) := by
  induction turns with
  | nil =>
    intro s running
    exact ⟨running, (append_nil _).symm⟩
  | cons turn turns ih =>
    intro s running
    obtain ⟨first, later⟩ := forall_mem_cons.mp smooth
    rw [foldl_cons, step_of_receivesOn running (first.receivesOn loop)]
    have next : ((s.put (turn.recv.bytes length) turn.write).count loop
        (turn.recv.bytes length).length).status = .running := running
    obtain ⟨still, front⟩ := ih later next
    refine ⟨still, ?_⟩
    have written : (s.put (turn.recv.bytes length) turn.write).file.front 0 =
        s.file.front 0 ++ turn.recv.bytes length := by
      rw [put_file_of_writesAll s first.writes, FileCursor.write_front]
    rw [front, flatMap_cons, ← append_assoc, ← written]
    rfl

theorem run_upload (loop : TransferLoop) (turns : List StorTurn)
    (smooth : ∀ turn ∈ turns, turn.Smooth length)
    {last : StorTurn} (closes : last.closes = true) (truncates : last.truncates = true)
    (file : ByteFile) (user : UserRecord) :
    ((turns ++ [last]).foldl (step loop length) (start file user)).Leaves
      (file.front 0 ++ turns.flatMap (·.recv.bytes length)) := by
  obtain ⟨running, front⟩ := run_blocks loop turns smooth (s := start file user) rfl
  rw [foldl_append, foldl_cons, foldl_nil,
    step_of_finishes running (last.finishes_of_closes closes loop length)]
  refine ⟨rfl, ?_⟩
  rw [finish, if_pos truncates]
  exact front

end Storing

theorem retrFile_rest {content : List UInt8} {resume : Nat} (small : resume < 2 ^ 63) :
    (retrFile content resume).rest = content.drop resume := by
  rw [retrFile, fileSeek, if_pos small]
  rfl

theorem storFile_front {name : Text} (stor : name.map Char.toLower ≠ "appe".toList)
    {content : List UInt8} {resume : Nat} (small : resume < 2 ^ 63)
    (inside : resume ≤ content.length) :
    (storFile name content resume).front 0 = content.take resume := by
  have marker : resume ≠ 2 ^ 64 - 1 := by omega
  rw [storFile, if_neg stor, if_neg marker, fileSeek, if_pos small]
  exact FileCursor.front_of_le 0 _ inside

theorem storFile_front_appe {name : Text} (appe : name.map Char.toLower = "appe".toList)
    (content : List UInt8) (resume : Nat) : (storFile name content resume).front 0 = content := by
  rw [storFile, if_pos appe, FileCursor.front_of_le]
  · exact take_length
  · exact Nat.le_refl _

/-- Transfers without failures are exact: RETR sends the file from the offset on before
its 226, STOR replaces everything behind the offset, and APPE adds to the end. -/
theorem transfers_exact (loop : TransferLoop) (length : Nat) (room : 0 < length)
    (before : Nat → UInt8) (user : UserRecord) (content : List UInt8)
    (size : content.length < 2 ^ 63) (resume : Nat) (inside : resume ≤ content.length)
    (retrTurns : List RetrTurn) (smooth : ∀ turn ∈ retrTurns, turn.Smooth length)
    (enough : content.length - resume < retrTurns.length)
    (storTurns : List StorTurn) (blocks : ∀ turn ∈ storTurns, turn.Smooth length)
    (last : StorTurn) (closes : last.closes = true) (truncates : last.truncates = true) :
    (Runs.Throughout (Download.step loop length before)
        (Download.EndsAfter (content.drop resume))
        (.start (retrFile content resume) user) retrTurns ∧
      (retrTurns.foldl (Download.step loop length before)
        (.start (retrFile content resume) user)).status = .ended 226) ∧
    (∀ name : Text, name.map Char.toLower ≠ "appe".toList →
      ((storTurns ++ [last]).foldl (Storing.step loop length)
        (.start (storFile name content resume) user)).Leaves
          (content.take resume ++ storTurns.flatMap (·.recv.bytes length))) ∧
    ∀ name : Text, name.map Char.toLower = "appe".toList →
      ((storTurns ++ [last]).foldl (Storing.step loop length)
        (.start (storFile name content resume) user)).Leaves
          (content ++ storTurns.flatMap (·.recv.bytes length)) := by
  have small : resume < 2 ^ 63 := by omega
  have start := Download.exact_start (retrFile content resume) user
  refine ⟨⟨?_, ?_⟩, fun name stor => ?_, fun name appe => ?_⟩
  · rw [retrFile_rest small] at start
    refine Runs.Throughout.imp ?_ fun _ exact => Download.Exact.endsAfter exact
    refine Runs.throughout_of_always_mem _ (Download.Exact (content.drop resume)) (fun _ _ => True)
      retrTurns (fun _ turn member exact _ => exact.step room (smooth turn member)) _ start ?_
    exact Runs.always_of_forall (fun _ _ => trivial) retrTurns _
  · refine Download.Exact.run_ends room retrTurns smooth start rfl ?_
    change (retrFile content resume).rest.length < _
    rwa [retrFile_rest small, length_drop]
  · have left := Storing.run_upload loop storTurns blocks closes truncates
      (storFile name content resume) user
    rwa [storFile_front stor small inside] at left
  · have left := Storing.run_upload loop storTurns blocks closes truncates
      (storFile name content resume) user
    rwa [storFile_front_appe appe] at left

/-- Three bytes, with one in front of the offset: two reads of a byte and one at the end,
and a block of two bytes. -/
theorem transfers_exact_three_bytes :
    let turn : RetrTurn := ⟨.ready, .takes 0, replicate 4 ⟨.ready, .takes 0⟩⟩
    let block : StorTurn := ⟨.ready, .data 7 [8], .takes 2, false⟩
    let last : StorTurn := ⟨.ready, .closed, .takes 0, true⟩
    Runs.Throughout (Download.step .dataExecute 4 fun _ => 0) (Download.EndsAfter [2, 3])
      (.start (retrFile [1, 2, 3] 1) {}) (replicate 3 turn) ∧
    ([block, last].foldl (Storing.step .dataExecute 4)
      (.start (storFile "STOR".toList [1, 2, 3] 1) {})).Leaves [1, 7, 8] ∧
    ([block, last].foldl (Storing.step .dataExecute 4)
      (.start (storFile "APPE".toList [1, 2, 3] 1) {})).Leaves [1, 2, 3, 7, 8] := by
  intro turn block last
  have smooth : turn.Smooth 4 :=
    ⟨rfl, by decide, fun t member => (eq_of_mem_replicate member) ▸ ⟨rfl, by decide⟩,
      Nat.le_refl 4⟩
  have exact := transfers_exact .dataExecute 4 (by decide) (fun _ => 0) {} [1, 2, 3] (by decide)
    1 (by decide) (replicate 3 turn)
    (fun other member => eq_of_mem_replicate member ▸ smooth) (by decide) [block]
    (forall_mem_singleton.mpr ⟨rfl, rfl⟩) last rfl rfl
  exact ⟨exact.1.1, exact.2.1 "STOR".toList (by decide), exact.2.2 "APPE".toList (by decide)⟩

/-- A download after REST to what the client has. It may be cut after any turn, and `kept`
of the bytes that were handed over arrive. -/
structure DownloadPart where
  loop : TransferLoop
  turns : List RetrTurn
  kept : Nat

def DownloadPart.fetch (length : Nat) (before : Nat → UInt8) (user : UserRecord)
    (content got : List UInt8) (part : DownloadPart) : List UInt8 :=
  got ++ (part.turns.foldl (Download.step part.loop length before)
    (.start (retrFile content got.length) user)).handed.take part.kept

theorem fetch_grows {length : Nat} {content got : List UInt8} {part : DownloadPart}
    {before : Nat → UInt8} {user : UserRecord} (room : 0 < length)
    (smooth : ∀ turn ∈ part.turns, turn.Smooth length) (size : content.length < 2 ^ 63)
    (sofar : got <+: content) :
    part.fetch length before user content got <+: content ∧
      (content.length < part.turns.length → content.length ≤ part.kept →
        part.fetch length before user content got = content) := by
  have small := Nat.lt_of_le_of_lt sofar.length_le size
  obtain ⟨rest, rfl⟩ := sofar
  have start := Download.exact_start (retrFile (got ++ rest) got.length) user
  rw [retrFile_rest small, drop_left] at start
  have exact := foldlRecOn part.turns (Download.step part.loop length before) start
    fun _ exact turn member => exact.step room (smooth turn member)
  constructor
  · refine (prefix_append_right_inj got).mpr ((List.take_prefix _ _).trans ?_)
    exact ⟨_, exact.split⟩
  · intro enough kept
    rw [length_append] at enough kept
    have few : (retrFile (got ++ rest) got.length).rest.length < part.turns.length := by
      rw [retrFile_rest small, drop_left]
      omega
    have whole := exact.endsAfter (start.run_ends room part.turns smooth rfl few)
    rw [DownloadPart.fetch, whole, take_of_length_le (by omega)]

/-- A file that is fetched in parts, each from where the one before has stopped: what the
client has is always its beginning, and a last part with enough turns fetches the rest. -/
theorem resumed_download_whole (length : Nat) (room : 0 < length) (before : Nat → UInt8)
    (user : UserRecord) (content : List UInt8) (size : content.length < 2 ^ 63)
    (parts : List DownloadPart)
    (smooth : ∀ part ∈ parts, ∀ turn ∈ part.turns, turn.Smooth length) :
    parts.foldl (DownloadPart.fetch length before user content) [] <+: content ∧
      ∀ last : DownloadPart, (∀ turn ∈ last.turns, turn.Smooth length) →
        content.length < last.turns.length → content.length ≤ last.kept →
        (parts ++ [last]).foldl (DownloadPart.fetch length before user content) [] = content := by
  have sofar := foldlRecOn (motive := (· <+: content)) parts
    (DownloadPart.fetch length before user content) nil_prefix fun _ now part member =>
      (fetch_grows room (smooth part member) size now).1
  refine ⟨sofar, fun last turns => ?_⟩
  rw [foldl_append, foldl_cons, foldl_nil]
  exact (fetch_grows room turns size sofar).2

/-- One byte of two arrives, and the next session fetches the other one. -/
theorem resumed_download_two_bytes :
    let turns : List RetrTurn := replicate 3 ⟨.ready, .takes 0, replicate 4 ⟨.ready, .takes 0⟩⟩
    [⟨.dataExecute, turns, 1⟩, ⟨.localThread, turns, 2⟩].foldl
      (DownloadPart.fetch 4 (fun _ => 0) {} [5, 6]) [] = [5, 6] := by
  intro turns
  have smooth : ∀ turn ∈ turns, turn.Smooth 4 := fun turn member =>
    eq_of_mem_replicate member ▸ ⟨rfl, nofun,
      fun _ member => eq_of_mem_replicate member ▸ ⟨rfl, by decide⟩, Nat.le_refl 4⟩
  exact (resumed_download_whole 4 (by decide) _ {} [5, 6] (by decide) [⟨_, turns, 1⟩]
    (forall_mem_singleton.mpr smooth)).2 ⟨_, turns, 2⟩ smooth (by decide) (by decide)

end Wzdftpd
