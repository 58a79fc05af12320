import Mathlib.Data.List.Basic

/- `clear_read` and `clear_write` (wzd_ClientThread.c): the data connection without TLS,
with the outcomes of `select`, `send` and `recv` given. -/
namespace Wzdftpd

open List Option

/-- What `select` reports of a socket. An interrupted call is made again. -/
inductive Wait where
  | ready | timeout | error
  deriving DecidableEq

/-- `send` takes one byte and at most `more` others, or fails. -/
inductive SendCall where
  | takes (more : Nat)
  | error
  deriving DecidableEq

/-- One round of `clear_write`. -/
structure SendTry where
  wait : Wait
  call : SendCall
  deriving DecidableEq

/-- The variables of `clear_write`, and the bytes that `send` has taken. The data has less than
2^31 bytes, so that `int done` does not wrap. -/
structure Sending where
  done : Int
  length : Nat
  handed : List UInt8

/-- What `clear_write` returns, or `none` while it has not returned. -/
structure Sent where
  ret : Option Int
  handed : List UInt8

namespace Sending

def start (length : Nat) : Sending := ⟨0, length, []⟩

/-- The bytes at `msg + done`. -/
def bytes (msg : Int → UInt8) (s : Sending) (count : Nat) : List UInt8 :=
  (range count).map fun i : Nat => msg (s.done + i)

def advance (msg : Int → UInt8) (s : Sending) (more : Nat) : Sending :=
  let ret := min (more + 1) s.length
  ⟨s.done + ret, s.length - ret, s.handed ++ s.bytes msg ret⟩

/-- `done += ret; length -= ret;` for a `ret` of -1. -/
def back (s : Sending) : Sending := ⟨s.done - 1, s.length + 1, s.handed⟩

/-- One round: the result of `send` is only looked at where there is a timeout. -/
def round (timeout : Nat) (msg : Int → UInt8) (s : Sending) (t : SendTry) : Except Int Sending :=
  if timeout = 0 then
    match t.call with
    | .takes more => .ok (s.advance msg more)
    | .error => .ok s.back
  else
    match t.wait, t.call with
    | .ready, .takes more => .ok (s.advance msg more)
    | .ready, .error => .error (-1)
    | .error, _ => .error (-1)
    | .timeout, _ => .error 0

end Sending

/-- `clear_write` from a state of its loop on. -/
def clearWrite (timeout : Nat) (msg : Int → UInt8) : Sending → List SendTry → Sent
  | s, [] => ⟨if s.length = 0 then some s.done else none, s.handed⟩
  | s, t :: tries =>
    if s.length = 0 then ⟨some s.done, s.handed⟩
    else
      match s.round timeout msg t with
      | .ok next => clearWrite timeout msg next tries
      | .error ret => ⟨some ret, s.handed⟩

/-- The memory around the data buffer: its bytes, and what stands in front of it. -/
def bufferBytes (before : Nat → UInt8) (data : List UInt8) : Int → UInt8
  | .ofNat i => data.getD i 0
  | .negSucc i => before i

/-- `recv` delivers at least one byte, sees the end of the stream, or fails. -/
inductive RecvCall where
  | data (first : UInt8) (more : List UInt8)
  | closed
  | error
  deriving DecidableEq

namespace RecvCall

def bytes (length : Nat) : RecvCall → List UInt8
  | .data first more => (first :: more).take length
  | _ => []

def ret (length : Nat) : RecvCall → Int
  | .error => -1
  | call => (call.bytes length).length

end RecvCall

/-- `clear_read` -/
def clearRead (timeout length : Nat) (wait : Wait) (recv : RecvCall) : Int :=
  if timeout = 0 then recv.ret length
  else
    match wait with
    | .ready => recv.ret length
    | .error => -1
    | .timeout => 0

theorem bufferBytes_range (before : Nat → UInt8) (data : List UInt8) (offset count : Nat)
    (fits : offset + count ≤ data.length) :
    ((range count).map fun i : Nat => bufferBytes before data (offset + i)) =
      (data.drop offset).take count := by
  apply ext_getElem
  · simp only [length_map, length_range, length_take, length_drop]
    omega
  intro i left right
  have inside : offset + i < data.length := by
    simp only [length_map, length_range] at left
    omega
  simp only [getElem_map, getElem_range, getElem_take, getElem_drop]
  change data.getD (offset + i) 0 = _
  rw [getD_eq_getElem?_getD, getElem?_eq_getElem inside, getD_some]

namespace Sending

/-- Every byte in front of `done` has been handed over. -/
structure Covers (data : List UInt8) (s : Sending) : Prop where
  balance : s.done + s.length = data.length
  covered : (data.take s.done.toNat).Sublist s.handed

variable {data : List UInt8} {s : Sending}

theorem take_sublist_bytes (before : Nat → UInt8) (count : Nat)
    (fits : s.done + count ≤ data.length) :
    (data.take (s.done + count).toNat).Sublist
      (data.take s.done.toNat ++ s.bytes (bufferBytes before data) count) := by
  rcases Int.lt_or_le s.done 0 with negative | positive
  · -- the first bytes are those in front of the buffer
    rcases Nat.le_total (-s.done).toNat count with long | short
    · have shifted : ((range count).drop (-s.done).toNat).map
          (fun i : Nat => bufferBytes before data (s.done + i)) =
          data.take (s.done + count).toNat := by
        have range := bufferBytes_range before data 0 (s.done + count).toNat (by omega)
        rw [drop_zero] at range
        rw [← range]
        apply ext_getElem
        · simp only [length_map, length_drop, length_range]
          omega
        · intro i left right
          simp only [getElem_map, getElem_drop, getElem_range]
          congr 1
          omega
      rw [← shifted]
      refine Sublist.trans ?_ (sublist_append_right _ _)
      exact (drop_sublist _ _).map _
    · rw [Int.toNat_of_nonpos (by omega)]
      exact nil_sublist _
  · obtain ⟨offset, same⟩ := Int.eq_ofNat_of_zero_le positive
    rw [bytes, same, bufferBytes_range before data offset count (by omega)]
    have sum : ((offset : Int) + (count : Int)).toNat = offset + count := by omega
    rw [sum, Int.toNat_natCast, take_add]

theorem Covers.advance {before : Nat → UInt8} (covers : s.Covers data) (more : Nat) :
    (s.advance (bufferBytes before data) more).Covers data := by
  have balance := covers.balance
  constructor
  · simp only [Sending.advance]
    omega
  · refine (take_sublist_bytes before (min (more + 1) s.length) (by omega)).trans ?_
    exact covers.covered.append (Sublist.refl _)

theorem Covers.back (covers : s.Covers data) : s.back.Covers data := by
  have balance := covers.balance
  constructor
  · simp only [Sending.back]
    omega
  · refine Sublist.trans ?_ covers.covered
    simp only [Sending.back]
    exact (take_prefix_take_left (by omega)).sublist

theorem round_cases (timeout : Nat) (msg : Int → UInt8) (s : Sending) (t : SendTry) :
    (∃ more, s.round timeout msg t = .ok (s.advance msg more)) ∨
      s.round timeout msg t = .ok s.back ∨ ∃ ret ≤ 0, s.round timeout msg t = .error ret := by
  unfold Sending.round
  split
  · cases t.call with
    | takes more => exact .inl ⟨more, rfl⟩
    | error => exact .inr (.inl rfl)
  cases t.wait with
  | ready =>
    cases t.call with
    | takes more => exact .inl ⟨more, rfl⟩
    | error => exact .inr (.inr ⟨-1, by omega, rfl⟩)
  | timeout => exact .inr (.inr ⟨0, by omega, rfl⟩)
  | error => exact .inr (.inr ⟨-1, by omega, rfl⟩)

theorem covers_start (data : List UInt8) : (start data.length).Covers data := by
  refine ⟨Int.zero_add _, ?_⟩
  exact nil_sublist []

theorem Covers.all (covers : s.Covers data) (done : s.length = 0) : data.Sublist s.handed := by
  have balance := covers.balance
  have covered := covers.covered
  rwa [show s.done.toNat = data.length by omega, take_length] at covered

end Sending

variable {timeout : Nat} {data : List UInt8}

/-- When `clear_write` reports a success, everything has been handed over. -/
theorem clearWrite_covers {before : Nat → UInt8} {ret : Int}
    (positive : 0 < ret) (tries : List SendTry) : ∀ {s : Sending}, s.Covers data →
      (clearWrite timeout (bufferBytes before data) s tries).ret = some ret →
      data.Sublist (clearWrite timeout (bufferBytes before data) s tries).handed := by
  induction tries with
  | nil =>
    intro s covers returned
    by_cases done : s.length = 0
    · exact covers.all done
    · simp only [clearWrite, if_neg done, reduceCtorEq] at returned
  | cons t tries ih =>
    intro s covers returned
    by_cases done : s.length = 0
    · rw [clearWrite, if_pos done]
      exact covers.all done
    rw [clearWrite, if_neg done] at returned ⊢
    rcases Sending.round_cases timeout (bufferBytes before data) s t with
      ⟨more, round⟩ | round | ⟨code, failed, round⟩
    · rw [round] at returned ⊢
      exact ih (covers.advance more) returned
    · rw [round] at returned ⊢
      exact ih covers.back returned
    · rw [round] at returned
      have same : code = ret := some.inj returned
      omega

namespace Sending

/-- Exactly the first `count` bytes have been handed over. -/
def upTo (data : List UInt8) (count : Nat) : Sending :=
  ⟨count, data.length - count, data.take count⟩

theorem advance_upTo (before : Nat → UInt8) {count : Nat}
    (inside : count ≤ data.length) (more : Nat) :
    (upTo data count).advance (bufferBytes before data) more =
      upTo data (count + min (more + 1) (data.length - count)) := by
  have fits : count + min (more + 1) (data.length - count) ≤ data.length := by omega
  simp only [advance, upTo, bytes, bufferBytes_range before data count _ fits, ← take_add,
    Sending.mk.injEq, and_true]
  omega

end Sending

def SendTry.succeeds (t : SendTry) : Prop := t.wait = .ready ∧ t.call ≠ .error

/-- The call fails, or it is not made because `select` reports no room. -/
def SendTry.Fails (timeout : Nat) (t : SendTry) : Prop :=
  t.call = .error ∨ timeout ≠ 0 ∧ t.wait ≠ .ready

/-- A round that looks at a failure returns; the others go on behind what has been sent. -/
theorem Sending.round_upTo (before : Nat → UInt8) {count : Nat}
    (inside : count < data.length) {t : SendTry} (seen : timeout ≠ 0 ∨ t.call ≠ .error) :
    (t.Fails timeout ∧ ∃ ret ≤ 0,
      (upTo data count).round timeout (bufferBytes before data) t = .error ret) ∨
    (¬t.Fails timeout ∧ ∃ next, count < next ∧ next ≤ data.length ∧
      (upTo data count).round timeout (bufferBytes before data) t = .ok (upTo data next)) := by
  obtain ⟨wait, call⟩ := t
  have goes := advance_upTo before (Nat.le_of_lt inside)
  cases call with
  | takes more =>
    by_cases ready : timeout ≠ 0 ∧ wait ≠ .ready
    · refine .inl ⟨.inr ready, ?_⟩
      rw [round, if_neg ready.1]
      cases wait with
      | ready => exact absurd rfl ready.2
      | timeout => exact ⟨0, by omega, rfl⟩
      | error => exact ⟨-1, by omega, rfl⟩
    · refine .inr ⟨?_, count + min (more + 1) (data.length - count), by omega, by omega, ?_⟩
      · rintro (error | waits)
        · cases error
        · exact ready waits
      rw [← goes, round]
      split
      · rfl
      · rename_i some
        cases not_not.mp fun waits => ready ⟨some, waits⟩
        rfl
  | error =>
    have some : timeout ≠ 0 := seen.resolve_right fun other => other rfl
    refine .inl ⟨.inl rfl, ?_⟩
    rw [round, if_neg some]
    cases wait with
    | ready => exact ⟨-1, by omega, rfl⟩
    | timeout => exact ⟨0, by omega, rfl⟩
    | error => exact ⟨-1, by omega, rfl⟩

/-- The bytes go out once each, in order, however the sends are cut. -/
theorem clearWrite_exact (timeout : Nat) (before : Nat → UInt8) (data : List UInt8)
    (tries : List SendTry) (smooth : ∀ t ∈ tries, t.succeeds) : ∀ {count : Nat},
      count ≤ data.length → data.length - count ≤ tries.length →
      clearWrite timeout (bufferBytes before data) (.upTo data count) tries =
        ⟨some data.length, data⟩ := by
  induction tries with
  | nil =>
    intro count inside enough
    have all : count = data.length := by
      rw [length_nil] at enough
      omega
    simp [clearWrite, Sending.upTo, all]
  | cons t tries ih =>
    intro count inside enough
    by_cases done : data.length - count = 0
    · have all : count = data.length := by omega
      simp [clearWrite, Sending.upTo, all]
    obtain ⟨ready, takes⟩ := smooth t mem_cons_self
    rcases Sending.round_upTo before (by omega : count < data.length) (.inr takes) with
      ⟨error | waits, _⟩ | ⟨_, next, more, fits, round⟩
    · exact absurd error takes
    · exact absurd ready waits.2
    · rw [clearWrite, round, if_neg (show ¬(Sending.upTo data count).length = 0 from done)]
      refine ih (forall_mem_cons.mp smooth).2 fits ?_
      rw [length_cons] at enough
      omega

/-- The offsets and the lengths of the calls of `send`. -/
def sendCalls (timeout : Nat) (msg : Int → UInt8) : Sending → List SendTry → List (Int × Nat)
  | _, [] => []
  | s, t :: tries =>
    if s.length = 0 then []
    else
      (if timeout = 0 ∨ t.wait = .ready then [(s.done, s.length)] else []) ++
        match s.round timeout msg t with
        | .ok next => sendCalls timeout msg next tries
        | .error _ => []

/-- What the calls and the result say of a message: it is sent as far as no call fails. -/
structure SendsPrefix (timeout : Nat) (data : List UInt8) (tries : List SendTry)
    (calls : List (Int × Nat)) (sent : Sent) : Prop where
  stops : ∀ t ∈ tries, t.Fails timeout → sent.ret ≠ none
  inside : ∀ call ∈ calls, 0 ≤ call.1 ∧ call.1 < data.length ∧ call.1 + call.2 ≤ data.length
  handed : sent.handed <+: data
  whole : sent.ret = some data.length → sent.handed = data

theorem sendsPrefix_upTo (before : Nat → UInt8)
    (tries : List SendTry) (seen : ∀ t ∈ tries, timeout ≠ 0 ∨ data = [] ∨ t.call ≠ .error) :
    ∀ {count : Nat}, count ≤ data.length → SendsPrefix timeout data tries
      (sendCalls timeout (bufferBytes before data) (.upTo data count) tries)
      (clearWrite timeout (bufferBytes before data) (.upTo data count) tries) := by
  have finished : ∀ {count : Nat} (tries : List SendTry), data.length - count = 0 →
      SendsPrefix timeout data tries [] ⟨some (count : Int), data.take count⟩ := by
    intro count tries done
    exact ⟨fun _ _ _ => some_ne_none _, forall_mem_nil _, take_prefix _ _,
      fun _ => take_of_length_le (Nat.le_of_sub_eq_zero done)⟩
  induction tries with
  | nil =>
    intro count inside
    rw [clearWrite]
    split
    · exact finished [] (by assumption)
    · exact ⟨forall_mem_nil _, forall_mem_nil _, take_prefix _ _, fun same => by cases same⟩
  | cons t tries ih =>
    intro count inside
    by_cases done : (Sending.upTo data count).length = 0
    · rw [clearWrite, sendCalls, if_pos done, if_pos done]
      exact finished _ done
    have below : count < data.length := Nat.lt_of_sub_ne_zero done
    have some : data ≠ [] := ne_nil_of_length_pos (by omega)
    have here : ∀ call ∈ if timeout = 0 ∨ t.wait = .ready then
        [((Sending.upTo data count).done, (Sending.upTo data count).length)] else [],
        0 ≤ call.1 ∧ call.1 < data.length ∧ call.1 + call.2 ≤ data.length := by
      intro call member
      split at member
      · rw [mem_singleton.mp member]
        simp only [Sending.upTo]
        omega
      · cases member
    rw [clearWrite, sendCalls, if_neg done, if_neg done]
    rcases Sending.round_upTo before below
        ((seen t mem_cons_self).imp_right fun either => either.resolve_left some) with
      ⟨_, ret, negative, round⟩ | ⟨fine, next, _, fits, round⟩
    · rw [round]
      refine ⟨fun _ _ _ => some_ne_none _, ?_, take_prefix _ _, fun same => ?_⟩
      · rw [append_nil]
        exact here
      · have impossible : ret = data.length := Option.some.inj same
        omega
    · have rest := ih (forall_mem_cons.mp seen).2 fits
      rw [round]
      refine ⟨fun other member fails => ?_, forall_mem_append.mpr ⟨here, rest.inside⟩,
        rest.handed, rest.whole⟩
      rcases mem_cons.mp member with rfl | later
      · exact absurd fails fine
      · exact rest.stops other later fails

/-- `clear_write` sends a prefix of the message whatever the calls report exactly if there is a
timeout or nothing to send. Without a timeout it does so as long as no call of `send` fails. -/
theorem clearWrite_prefix_iff (timeout : Nat) (before : Nat → UInt8) (data : List UInt8) :
    ((∀ tries, SendsPrefix timeout data tries
        (sendCalls timeout (bufferBytes before data) (.start data.length) tries)
        (clearWrite timeout (bufferBytes before data) (.start data.length) tries)) ↔
      timeout ≠ 0 ∨ data = []) ∧
    ∀ tries : List SendTry, (∀ t ∈ tries, t.call ≠ .error) → SendsPrefix timeout data tries
      (sendCalls timeout (bufferBytes before data) (.start data.length) tries)
      (clearWrite timeout (bufferBytes before data) (.start data.length) tries) := by
  have start : Sending.start data.length = .upTo data 0 := by
    rfl
  rw [start]
  refine ⟨⟨fun all => ?_, fun safe tries => ?_⟩, fun tries fine => ?_⟩
  · by_contra bad
    obtain ⟨blocking, some⟩ := not_or.mp bad
    have returned := (all [⟨.ready, .error⟩]).stops _ mem_cons_self (.inl rfl)
    have goes : ¬(Sending.upTo data 0).length = 0 := fun none => some (length_eq_zero_iff.mp none)
    rw [clearWrite, if_neg goes, Sending.round, if_pos (not_not.mp blocking)] at returned
    exact returned rfl
  · refine sendsPrefix_upTo before tries (fun t _ => ?_) (Nat.zero_le _)
    exact safe.imp_right .inl
  · exact sendsPrefix_upTo before tries (fun t member => .inr (.inr (fine t member)))
      (Nat.zero_le _)

/-- The first call fails, and the second one starts in front of the message. -/
theorem clearWrite_in_front :
    sendCalls 0 (bufferBytes (fun _ => 7) [65]) (.start 1)
        [⟨.ready, .error⟩, ⟨.ready, .takes 1⟩] = [(0, 1), (-1, 2)] ∧
    clearWrite 0 (bufferBytes (fun _ => 7) [65]) (.start 1)
        [⟨.ready, .error⟩, ⟨.ready, .takes 1⟩] = ⟨some 1, [7, 65]⟩ :=
  ⟨rfl, rfl⟩

theorem RecvCall.ret_pos_iff (length : Nat) (recv : RecvCall) :
    recv.ret length > 0 ↔ recv.bytes length ≠ [] := by
  cases recv with
  | data first more =>
    change ((bytes length (.data first more)).length : Int) > 0 ↔ _
    rw [gt_iff_lt, Int.natCast_pos, length_pos_iff]
  | closed => simp [ret, bytes]
  | error => simp [ret, bytes]

end Wzdftpd
