import Wzdftpd.ClearSocket
import Wzdftpd.Credits
import Wzdftpd.FileCursor
import Wzdftpd.SiteUser

/- The two pairs of loops that move a file: `data_execute`, called by the client loop,
and the threads `do_local_retr` and `do_local_stor` (wzd_data.c). A turn lists how its
system calls end; what is moved is followed byte by byte. -/
namespace Wzdftpd

open FileCursor List

abbrev ByteFile := FileCursor UInt8

/-- `read` delivers one byte and at most `more` others as long as there are any, or
fails. -/
inductive ReadCall where
  | takes (more : Nat)
  | error
  deriving DecidableEq

/-- What `file_read` returns and leaves. -/
structure FileRead where
  ret : Int
  data : List UInt8
  file : ByteFile

def fileRead (length : Nat) (file : ByteFile) : ReadCall → FileRead
  | .takes more =>
    let count := min (more + 1) length
    ⟨(file.next count).length, file.next count, file.read count⟩
  | .error => ⟨-1, [], file⟩

/-- `write` takes at most `count` bytes, or fails. -/
inductive WriteCall where
  | takes (count : Nat)
  | error
  deriving DecidableEq

def WriteCall.bytes (data : List UInt8) : WriteCall → List UInt8
  | .takes count => data.take count
  | .error => []

/-- What `file_write` returns, which bytes it took and what it leaves. -/
structure FileWrite where
  ret : Int
  written : List UInt8
  file : ByteFile

def fileWrite (file : ByteFile) (data : List UInt8) (call : WriteCall) : FileWrite :=
  ⟨if call = .error then -1 else (call.bytes data).length, call.bytes data,
    file.write 0 (call.bytes data)⟩

namespace UserRecord

def countSent (user : UserRecord) (n : Nat) : UserRecord :=
  { user with
    stats := { user.stats with bytesDlTotal := user.stats.bytesDlTotal + UInt64.ofNat n }
    credits :=
      if user.ratio = 0 then user.credits
      else if user.credits ≥ UInt64.ofNat n then user.credits - UInt64.ofNat n else 0 }

/-- A block has been received, where `product` is the value of `user->ratio * n`. -/
def countReceived (user : UserRecord) (n : Nat) (product : UInt64) : UserRecord :=
  { user with
    stats := { user.stats with bytesUlTotal := user.stats.bytesUlTotal + UInt64.ofNat n }
    credits := if user.ratio = 0 then user.credits else toppedUp user.credits product }

def countFile (user : UserRecord) : UserRecord :=
  { user with stats := { user.stats with filesUlTotal := user.stats.filesUlTotal + 1 } }

end UserRecord

/-- `file_seek` from the start. The offset is a signed number of 64 bits, and `lseek`
refuses a negative one. -/
def fileSeek (file : ByteFile) (offset : Nat) : ByteFile :=
  if offset < 2 ^ 63 then file.seek offset else file

/-- The file as `do_retr` hands it to the loop: after a look at its length it is
positioned by REST. -/
def retrFile (content : List UInt8) (resume : Nat) : ByteFile :=
  fileSeek (seekEnd ⟨content, 0⟩) resume

/-- The file as `do_stor` hands it to the loop. APPE is an offset of -1. -/
def storFile (name : Text) (content : List UInt8) (resume : Nat) : ByteFile :=
  let resume := if name.map Char.toLower = "appe".toList then 2 ^ 64 - 1 else resume
  if resume = 2 ^ 64 - 1 then seekEnd ⟨content, 0⟩ else fileSeek ⟨content, 0⟩ resume

/-- A transfer is under way, its loop waits in `clear_write`, or a reply has ended it. -/
inductive TransferStatus where
  | running
  | waiting
  | ended (code : Nat)
  deriving DecidableEq

inductive TransferLoop where
  | dataExecute | localThread
  deriving DecidableEq

/-- `user->ratio * n`. In `data_execute` both are of 32 bits. -/
def TransferLoop.product (loop : TransferLoop) (ratio : UInt32) (n : Nat) : UInt64 :=
  match loop with
  | .dataExecute => (ratio * UInt32.ofNat n).toUInt64
  | .localThread => ratio.toUInt64 * UInt64.ofNat n

/-- A download: `handed` is what the socket has taken. -/
structure Download where
  file : ByteFile
  handed : List UInt8
  user : UserRecord
  status : TransferStatus

/-- How the calls of one turn end. -/
structure RetrTurn where
  wait : Wait
  read : ReadCall
  tries : List SendTry
  deriving DecidableEq

namespace Download

def start (file : ByteFile) (user : UserRecord) : Download := ⟨file, [], user, .running⟩

/-- What follows on a block of `n` bytes, where `clear_write` has returned `ret`. -/
def afterSend (s : Download) (n : Nat) : Option Int → Download
  | none => { s with status := .waiting }
  | some ret =>
    if ret ≤ 0 then { s with status := .ended 426 } else { s with user := s.user.countSent n }

def block (timeout length : Nat) (before : Nat → UInt8) (s : Download) (turn : RetrTurn) :
    Download :=
  let read := fileRead length s.file turn.read
  if read.ret > 0 then
    let sent :=
      clearWrite timeout (bufferBytes before read.data) (.start read.data.length) turn.tries
    { s with file := read.file, handed := s.handed ++ sent.handed }.afterSend
      read.data.length sent.ret
  else { s with file := read.file, status := .ended 226 }

/-- A turn of `data_execute` for TOK_RETR. -/
def dataExecuteRetr (length : Nat) (before : Nat → UInt8) (s : Download) (turn : RetrTurn) :
    Download := s.block hardXferTimeout length before turn

/-- A turn of `do_local_retr`. -/
def doLocalRetr (length : Nat) (before : Nat → UInt8) (s : Download) (turn : RetrTurn) :
    Download :=
  if turn.wait = .ready then s.block 0 length before turn else { s with status := .ended 426 }

def step (loop : TransferLoop) (length : Nat) (before : Nat → UInt8) (s : Download)
    (turn : RetrTurn) : Download :=
  if s.status = .running then
    match loop with
    | .dataExecute => s.dataExecuteRetr length before turn
    | .localThread => s.doLocalRetr length before turn
  else s

end Download

/-- An upload: `received` is what the socket has delivered, `written` what the file has
taken, and `peerClosed` that the end of the stream has been seen. -/
structure Storing where
  file : ByteFile
  received : List UInt8
  written : List UInt8
  peerClosed : Bool
  user : UserRecord
  status : TransferStatus

/-- How the calls of one turn end. `lseek` and `ftruncate` are the last ones. -/
structure StorTurn where
  wait : Wait
  recv : RecvCall
  write : WriteCall
  truncates : Bool
  deriving DecidableEq

namespace Storing

def start (file : ByteFile) (user : UserRecord) : Storing := ⟨file, [], [], false, user, .running⟩

def put (s : Storing) (data : List UInt8) (call : WriteCall) : Storing :=
  let write := fileWrite s.file data call
  { s with
    file := write.file
    received := s.received ++ data
    written := s.written ++ write.written }

def count (loop : TransferLoop) (n : Nat) (s : Storing) : Storing :=
  { s with user := s.user.countReceived n (loop.product s.user.ratio n) }

def finish (s : Storing) (turn : StorTurn) : Storing :=
  { s with
    file := if turn.truncates then s.file.truncate 0 else s.file
    peerClosed := turn.wait = .ready ∧ turn.recv = .closed
    user := s.user.countFile
    status := .ended 226 }

/-- A turn of `data_execute` for TOK_STOR. A failed write is logged. -/
def dataExecuteStor (length : Nat) (s : Storing) (turn : StorTurn) : Storing :=
  if clearRead hardXferTimeout length turn.wait turn.recv > 0 then
    let data := turn.recv.bytes length
    (s.put data turn.write).count .dataExecute data.length
  else s.finish turn

/-- A turn of `do_local_stor`. -/
def doLocalStor (length : Nat) (s : Storing) (turn : StorTurn) : Storing :=
  if turn.wait = .ready then
    if clearRead 0 length turn.wait turn.recv > 0 then
      let data := turn.recv.bytes length
      let ret := (fileWrite s.file data turn.write).ret
      let s := s.put data turn.write
      if ret ≤ 0 then { s with status := .ended 426 }
      else if ret ≠ data.length then { s with status := .ended 426 }
      else s.count .localThread data.length
    else s.finish turn
  else { s with status := .ended 426 }

def step (loop : TransferLoop) (length : Nat) (s : Storing) (turn : StorTurn) : Storing :=
  if s.status = .running then
    match loop with
    | .dataExecute => s.dataExecuteStor length turn
    | .localThread => s.doLocalStor length turn
  else s

end Storing

/-- The loop gets as far as `read`: `do_local_retr` waits for the socket first. -/
def TransferLoop.reads (loop : TransferLoop) (turn : RetrTurn) : Prop :=
  loop = .dataExecute ∨ turn.wait = .ready

namespace Download

/-- `read` returns no bytes. -/
def ReadsNothing (length : Nat) (s : Download) (turn : RetrTurn) : Prop :=
  turn.read = .error ∨ length = 0 ∨ s.file.rest = []

variable {loop : TransferLoop} {timeout length : Nat} {before : Nat → UInt8} {s : Download}
  {turn : RetrTurn}

theorem readsNothing_of_takes {more : Nat} (read : turn.read = .takes more) :
    s.file.next (min (more + 1) length) = [] ↔ s.ReadsNothing length turn := by
  simp only [next_eq_nil_iff, ReadsNothing, read, reduceCtorEq, false_or]
  have zero : min (more + 1) length = 0 ↔ length = 0 := by omega
  rw [zero]

theorem block_of_nothing (nothing : s.ReadsNothing length turn) :
    s.block timeout length before turn = { s with status := .ended 226 } := by
  cases read : turn.read with
  | error => simp only [block, fileRead, read, Int.reduceNeg, gt_iff_lt, Int.reduceLT, if_false]
  | takes more =>
    have empty := (readsNothing_of_takes read).mpr nothing
    simp [block, fileRead, read, read_of_next_nil empty, empty]

def data (s : Download) (length more : Nat) : List UInt8 := s.file.next (min (more + 1) length)

def sending (timeout length : Nat) (before : Nat → UInt8) (s : Download) (more : Nat)
    (tries : List SendTry) : Sent :=
  clearWrite timeout (bufferBytes before (s.data length more))
    (.start (s.data length more).length) tries

theorem block_of_data {more : Nat} (read : turn.read = .takes more)
    (something : ¬s.ReadsNothing length turn) :
    s.block timeout length before turn =
      { s with
        file := s.file.read (min (more + 1) length)
        handed := s.handed ++ (s.sending timeout length before more turn.tries).handed }.afterSend
        (s.data length more).length (s.sending timeout length before more turn.tries).ret := by
  have nonempty := mt (readsNothing_of_takes read).mp something
  have size := length_pos_iff.mpr nonempty
  simp [block, fileRead, read, size, sending, data]

theorem step_of_not_running (stopped : s.status ≠ .running) :
    s.step loop length before turn = s := if_neg stopped

theorem step_of_not_reads (running : s.status = .running) (waits : ¬loop.reads turn) :
    s.step loop length before turn = { s with status := .ended 426 } := by
  unfold step
  rw [if_pos running]
  cases loop with
  | dataExecute => exact absurd (.inl rfl) waits
  | localThread => exact if_neg fun ready => waits (.inr ready)

theorem step_of_reads (length : Nat) (before : Nat → UInt8) (running : s.status = .running)
    (reads : loop.reads turn) :
    ∃ timeout, s.step loop length before turn = s.block timeout length before turn := by
  unfold step
  rw [if_pos running]
  cases loop with
  | dataExecute => exact ⟨hardXferTimeout, rfl⟩
  | localThread =>
    rcases reads with other | ready
    · cases other
    · exact ⟨0, if_pos ready⟩

end Download

namespace StorTurn

def receives (length : Nat) (turn : StorTurn) : Bool :=
  turn.wait = .ready ∧ turn.recv.bytes length ≠ []

/-- `write` takes the whole block. -/
def writesAll (length : Nat) (turn : StorTurn) : Bool :=
  match turn.write with
  | .takes count => (turn.recv.bytes length).length ≤ count
  | .error => false

def closes (turn : StorTurn) : Bool := turn.wait = .ready ∧ turn.recv = .closed

end StorTurn

namespace TransferLoop

/-- The loop takes another turn. Only `do_local_stor` stops at a failed write. -/
def receivesOn (loop : TransferLoop) (length : Nat) (turn : StorTurn) : Bool :=
  match loop with
  | .dataExecute => turn.receives length
  | .localThread => turn.receives length ∧ turn.writesAll length

/-- The loop ends the upload with 226. Only `do_local_stor` tells a timeout from the
end of the stream. -/
def finishes (loop : TransferLoop) (length : Nat) (turn : StorTurn) : Bool :=
  match loop with
  | .dataExecute => ¬turn.receives length
  | .localThread => turn.wait = .ready ∧ turn.recv.bytes length = []

end TransferLoop

theorem clearRead_pos_iff (length : Nat) (turn : StorTurn) :
    clearRead hardXferTimeout length turn.wait turn.recv > 0 ↔ turn.receives length = true := by
  rw [StorTurn.receives, decide_eq_true_iff, ← RecvCall.ret_pos_iff]
  cases turn.wait <;> simp [clearRead, hardXferTimeout]

theorem fileWrite_ret_iff (length : Nat) (file : ByteFile) (turn : StorTurn)
    (receives : turn.recv.bytes length ≠ []) :
    (¬(fileWrite file (turn.recv.bytes length) turn.write).ret ≤ 0 ∧
      (fileWrite file (turn.recv.bytes length) turn.write).ret =
        (turn.recv.bytes length).length) ↔ turn.writesAll length = true := by
  have size := length_pos_iff.mpr receives
  unfold StorTurn.writesAll
  cases turn.write with
  | takes count =>
    simp only [fileWrite, WriteCall.bytes, reduceCtorEq, if_false, length_take,
      decide_eq_true_iff]
    omega
  | error =>
    simp [fileWrite]

namespace Storing

variable {loop : TransferLoop} {length : Nat} {s : Storing} {turn : StorTurn}

theorem step_of_receivesOn (running : s.status = .running)
    (goes : loop.receivesOn length turn = true) :
    s.step loop length turn =
      (s.put (turn.recv.bytes length) turn.write).count loop (turn.recv.bytes length).length := by
  unfold step
  rw [if_pos running]
  cases loop with
  | dataExecute => exact if_pos ((clearRead_pos_iff length turn).mpr goes)
  | localThread =>
    obtain ⟨receives, all⟩ := of_decide_eq_true goes
    obtain ⟨ready, some⟩ := of_decide_eq_true receives
    obtain ⟨positive, whole⟩ := (fileWrite_ret_iff length s.file turn some).mpr all
    have pos : clearRead 0 length turn.wait turn.recv > 0 := (RecvCall.ret_pos_iff _ _).mpr some
    simp only [doLocalStor, if_pos ready, if_pos pos, if_neg positive]
    exact if_neg (not_not.mpr whole)

theorem step_of_finishes (running : s.status = .running)
    (ends : loop.finishes length turn = true) : s.step loop length turn = s.finish turn := by
  unfold step
  rw [if_pos running]
  cases loop with
  | dataExecute =>
    have none := of_decide_eq_true ends
    exact if_neg (mt (clearRead_pos_iff length turn).mp none)
  | localThread =>
    obtain ⟨ready, empty⟩ := of_decide_eq_true ends
    have none : ¬clearRead 0 length turn.wait turn.recv > 0 := by
      intro pos
      exact (RecvCall.ret_pos_iff _ _).mp pos empty
    rw [doLocalStor, if_pos ready, if_neg none]

/-- The other turns end the upload with 426. -/
theorem step_of_fails (running : s.status = .running)
    (stops : loop.receivesOn length turn = false) (fails : loop.finishes length turn = false) :
    (s.step loop length turn).status = .ended 426 := by
  unfold step
  rw [if_pos running]
  cases loop with
  | dataExecute =>
    have receives : turn.receives length = true := not_not.mp (of_decide_eq_false fails)
    exact absurd receives (Bool.eq_false_iff.mp stops)
  | localThread =>
    by_cases ready : turn.wait = .ready
    · have some : turn.recv.bytes length ≠ [] := fun empty =>
        of_decide_eq_false fails ⟨ready, empty⟩
      have short : ¬turn.writesAll length = true := fun all =>
        of_decide_eq_false stops ⟨decide_eq_true ⟨ready, some⟩, all⟩
      have pos : clearRead 0 length turn.wait turn.recv > 0 := (RecvCall.ret_pos_iff _ _).mpr some
      have ret := mt (fileWrite_ret_iff length s.file turn some).mp short
      rw [not_and] at ret
      simp only [doLocalStor, if_pos ready, if_pos pos]
      split
      · rfl
      · rename_i positive
        rw [if_pos (ret positive)]
    · simp only [doLocalStor, if_neg ready]

theorem put_file_of_writesAll (s : Storing) (all : turn.writesAll length = true) :
    (s.put (turn.recv.bytes length) turn.write).file = s.file.write 0 (turn.recv.bytes length) := by
  unfold StorTurn.writesAll at all
  cases call : turn.write with
  | takes count =>
    rw [call] at all
    change s.file.write 0 ((turn.recv.bytes length).take count) = _
    rw [take_of_length_le (of_decide_eq_true all)]
  | error =>
    rw [call] at all
    cases all

theorem receives_of_receivesOn (goes : loop.receivesOn length turn = true) :
    turn.recv.bytes length ≠ [] := by
  have receives : turn.receives length = true := by
    cases loop with
    | dataExecute => exact goes
    | localThread => exact (of_decide_eq_true goes).1
  exact (of_decide_eq_true receives).2

theorem step_of_not_running (stopped : s.status ≠ .running) : s.step loop length turn = s :=
  if_neg stopped

end Storing

def Effect.code : Effect → Option Nat
  | .message code _ => some code
  | _ => none

def Outcome.codes (out : Outcome) : List Nat := out.effects.filterMap Effect.code

def TransferStatus.codes : TransferStatus → List Nat
  | .ended code => [code]
  | _ => []

theorem finishTransfer_codes (w : World) (user : User) (isUpload : Bool) (code : Nat)
    (ctx : Context) : (finishTransfer w user isUpload code ctx).codes = [code] := by
  have file : (closeFile ctx.currentAction.currentFile).filterMap Effect.code = [] := by
    cases ctx.currentAction.currentFile <;> rfl
  have socket : (closeSocket ctx.dataSocket).filterMap Effect.code = [] := by
    cases ctx.dataSocket <;> rfl
  simp only [Outcome.codes, finishTransfer, dataEndTransfer, Outcome.after_effects, answer,
    filterMap_append, file, socket]
  split <;> split <;> rfl

theorem Download.fileRead_pos_iff (length : Nat) (s : Download) (turn : RetrTurn) :
    (fileRead length s.file turn.read).ret > 0 ↔ ¬s.ReadsNothing length turn := by
  cases read : turn.read with
  | takes more =>
    rw [← readsNothing_of_takes read]
    simp [fileRead, length_pos_iff]
  | error => simp [fileRead, ReadsNothing, read]

/-- The reply that ends a download is the one `data_execute` sends in the session. -/
theorem dataExecuteRetr_codes (w : World) (user : User) (ctx : Context)
    (token : ctx.currentAction.token = .retr) (length : Nat) (before : Nat → UInt8) (s : Download)
    (running : s.status = .running) (turn : RetrTurn) (ret : Int)
    (returned : ∀ more, turn.read = .takes more →
      (s.sending hardXferTimeout length before more turn.tries).ret = some ret) :
    (dataExecute w user (fileRead length s.file turn.read).ret ret ctx).codes =
      (s.dataExecuteRetr length before turn).status.codes := by
  unfold dataExecute Download.dataExecuteRetr
  simp only [token]
  by_cases nothing : s.ReadsNothing length turn
  · rw [if_neg (mt (s.fileRead_pos_iff length turn).mp (not_not.mpr nothing)),
      Download.block_of_nothing nothing, finishTransfer_codes]
    rfl
  rw [if_pos ((s.fileRead_pos_iff length turn).mpr nothing)]
  cases read : turn.read with
  | error => exact absurd (.inl read) nothing
  | takes more =>
    rw [Download.block_of_data read nothing, returned more read, Download.afterSend]
    by_cases failed : ret ≤ 0
    · rw [if_pos failed, if_pos failed, finishTransfer_codes]
      rfl
    · rw [if_neg failed, if_neg failed]
      rw [running]
      rfl

theorem dataExecuteStor_codes (w : World) (user : User) (ctx : Context)
    (token : ctx.currentAction.token = .stor) (length : Nat) (s : Storing)
    (running : s.status = .running) (turn : StorTurn) (ret : Int) :
    (dataExecute w user (clearRead hardXferTimeout length turn.wait turn.recv) ret ctx).codes =
      (s.dataExecuteStor length turn).status.codes := by
  unfold dataExecute Storing.dataExecuteStor
  simp only [token]
  split
  · change [] = s.status.codes
    rw [running]
    rfl
  · rw [finishTransfer_codes]
    rfl

end Wzdftpd
