import Mathlib.Tactic.IntervalCases
import Wzdftpd.Session

/- `radix_encode` of wzd_base64.c, in its two modes. -/
namespace Wzdftpd

open List

def radixN : Text := "ABCDEFGHIJKLMNOPQRSTUVWXYZabcdefghijklmnopqrstuvwxyz0123456789+/".toList

/-- The character at an index of `radixN`, which ends in a null character. -/
def radixChar (index : BitVec 8) : Char := radixN.getD index.toNat '\x00'

/-- The loop of the encoder at index `i`, an `int` (there are less than 2^31 bytes), with the bits
that are left of the byte before. -/
def radixEncodeFrom (i : Nat) (c : BitVec 8) : List (BitVec 8) → Text
  | [] =>
    match i % 3 with
    | 0 => []
    | 1 => [radixChar c, '=', '=']
    | _ => [radixChar c, '=']
  | byte :: inbuf =>
    match i % 3 with
    | 0 => radixChar (byte >>> 2) :: radixEncodeFrom (i + 1) ((byte &&& 3#8) <<< 4) inbuf
    | 1 => radixChar (c ||| byte >>> 4) :: radixEncodeFrom (i + 1) ((byte &&& 15#8) <<< 2) inbuf
    | _ => radixChar (c ||| byte >>> 6) :: radixChar (byte &&& 63#8) ::
        radixEncodeFrom (i + 1) 0#8 inbuf

def storeByte (outbuf : List (BitVec 8)) (j : Nat) (f : BitVec 8 → BitVec 8) :
    Option (List (BitVec 8)) :=
  outbuf[j]?.map fun old => outbuf.set j (f old)

/-- The loop of the decoder at the indices `i` and `j`: the result, the length and the
output; `none` if it writes outside of the output. -/
def radixDecodeFrom (i j : Nat) (outbuf : List (BitVec 8)) :
    Text → Option (Nat × Nat × List (BitVec 8))
  | [] => some (0, j, outbuf)
  | char :: inbuf =>
    if char = '=' then some (0, j, outbuf)
    else
      match radixN.idxOf? char with
      | none => some (1, j, outbuf)
      | some index =>
        let d := BitVec.ofNat 8 index
        match i % 4 with
        | 0 => do
          let outbuf ← storeByte outbuf j fun _ => d <<< 2
          radixDecodeFrom (i + 1) j outbuf inbuf
        | 1 => do
          let outbuf ← storeByte outbuf j fun old => old ||| d >>> 4
          let outbuf ← storeByte outbuf (j + 1) fun _ => (d &&& 15#8) <<< 4
          radixDecodeFrom (i + 1) (j + 1) outbuf inbuf
        | 2 => do
          let outbuf ← storeByte outbuf j fun old => old ||| d >>> 2
          let outbuf ← storeByte outbuf (j + 1) fun _ => (d &&& 3#8) <<< 6
          radixDecodeFrom (i + 1) (j + 1) outbuf inbuf
        | _ => do
          let outbuf ← storeByte outbuf j fun old => old ||| d
          radixDecodeFrom (i + 1) (j + 1) outbuf inbuf

section

variable {i j : Nat} {front cells : List (BitVec 8)} {x d a b : BitVec 8} (c : BitVec 8)

theorem radixChar_facts : ∀ d : BitVec 8, d.toNat < 64 → radixChar d ≠ '=' ∧
    radixChar d ∈ radixN ∧ radixN.idxOf? (radixChar d) = some d.toNat := by
  decide

theorem or_small {x y : BitVec 8} (one : x.toNat < 64) (two : y.toNat < 64) :
    (x ||| y).toNat < 64 := by
  exact Nat.or_lt_two_pow (n := 6) one two

theorem low_small : ∀ a : BitVec 8, (a >>> 2).toNat < 64 ∧ ((a &&& 3#8) <<< 4).toNat < 64 ∧
    (a >>> 4).toNat < 64 ∧ ((a &&& 15#8) <<< 2).toNat < 64 ∧ (a >>> 6).toNat < 64 ∧
    (a &&& 63#8).toNat < 64 := by
  decide

@[simp]
theorem storeByte_here (f : BitVec 8 → BitVec 8) :
    storeByte (front ++ x :: cells) front.length f = some (front ++ f x :: cells) := by
  simp [storeByte]

@[simp]
theorem storeByte_next (y : BitVec 8) (f : BitVec 8 → BitVec 8) :
    storeByte (front ++ x :: y :: cells) (front.length + 1) f =
      some (front ++ x :: f y :: cells) := by
  simpa using @storeByte_here (front ++ [x]) cells y f

theorem bits_first : (a >>> 2) <<< 2 ||| (((a &&& 3#8) <<< 4 ||| b >>> 4) >>> 4) = a := by
  apply BitVec.eq_of_getElem_eq
  intro i inside
  interval_cases i <;> simp

theorem bits_second :
    (((a &&& 3#8) <<< 4 ||| b >>> 4) &&& 15#8) <<< 4 ||| (((b &&& 15#8) <<< 2 ||| c >>> 6) >>> 2) =
      b := by
  apply BitVec.eq_of_getElem_eq
  intro i inside
  interval_cases i <;> simp

theorem bits_third : (((b &&& 15#8) <<< 2 ||| c >>> 6) &&& 3#8) <<< 6 ||| (c &&& 63#8) = c := by
  apply BitVec.eq_of_getElem_eq
  intro i inside
  interval_cases i <;> simp

variable {inbuf : Text} (small : d.toNat < 64)
include small

/-- A character of the alphabet in each of the four phases of the decoder. -/
theorem decode_first (phase : i % 4 = 0) :
    radixDecodeFrom i front.length (front ++ x :: cells) (radixChar d :: inbuf) =
      radixDecodeFrom (i + 1) front.length (front ++ d <<< 2 :: cells) inbuf := by
  simp [radixDecodeFrom, radixChar_facts d small, phase]

theorem decode_second (phase : i % 4 = 1) (y : BitVec 8) :
    radixDecodeFrom i front.length (front ++ x :: y :: cells) (radixChar d :: inbuf) =
      radixDecodeFrom (i + 1) (front ++ [x]).length
        (front ++ [x ||| d >>> 4] ++ (d &&& 15#8) <<< 4 :: cells) inbuf := by
  simp [radixDecodeFrom, radixChar_facts d small, phase]

theorem decode_third (phase : i % 4 = 2) (y : BitVec 8) :
    radixDecodeFrom i front.length (front ++ x :: y :: cells) (radixChar d :: inbuf) =
      radixDecodeFrom (i + 1) (front ++ [x]).length
        (front ++ [x ||| d >>> 2] ++ (d &&& 3#8) <<< 6 :: cells) inbuf := by
  simp [radixDecodeFrom, radixChar_facts d small, phase]

theorem decode_fourth (phase : i % 4 = 3) :
    radixDecodeFrom i front.length (front ++ x :: cells) (radixChar d :: inbuf) =
      radixDecodeFrom (i + 1) (front ++ [x]).length (front ++ [x ||| d] ++ cells) inbuf := by
  simp [radixDecodeFrom, radixChar_facts d small, phase]

end

section

variable {k : Nat} (front cells : List (BitVec 8)) (inbuf : Text) (a b c x y z : BitVec 8)

theorem decode_two (phase : k % 4 = 0) : radixDecodeFrom k front.length (front ++ x :: y :: cells)
        (radixChar (a >>> 2) :: radixChar ((a &&& 3#8) <<< 4 ||| b >>> 4) :: inbuf) =
      radixDecodeFrom (k + 2) (front ++ [a]).length
        (front ++ [a] ++ (((a &&& 3#8) <<< 4 ||| b >>> 4) &&& 15#8) <<< 4 :: cells) inbuf := by
  rw [decode_first (low_small a).1 phase,
    decode_second (or_small (low_small a).2.1 (low_small b).2.2.1) (by omega), bits_first]
  simp

theorem decode_three (phase : k % 4 = 0) :
    radixDecodeFrom k front.length (front ++ x :: y :: z :: cells)
        (radixChar (a >>> 2) :: radixChar ((a &&& 3#8) <<< 4 ||| b >>> 4) ::
          radixChar ((b &&& 15#8) <<< 2 ||| c >>> 6) :: inbuf) =
      radixDecodeFrom (k + 3) (front ++ [a] ++ [b]).length
        (front ++ [a] ++ [b] ++ (((b &&& 15#8) <<< 2 ||| c >>> 6) &&& 3#8) <<< 6 :: cells)
        inbuf := by
  rw [decode_two _ _ _ _ _ _ _ phase,
    decode_third (or_small (low_small b).2.2.2.1 (low_small c).2.2.2.2.1) (by omega), bits_second]
  simp

end

/-- The decoder gives back what the encoder was given, and changes one more byte at most. -/
theorem decode_encode : ∀ (bytes : List (BitVec 8)) (i k : Nat) (front cells : List (BitVec 8)),
    i % 3 = 0 → k % 4 = 0 → bytes.length < cells.length →
    ∃ last, radixDecodeFrom k front.length (front ++ cells) (radixEncodeFrom i 0#8 bytes) =
      some (0, front.length + bytes.length,
        front ++ (bytes ++ last :: cells.drop (bytes.length + 1)))
  | [], i, k, front, last :: cells, encoder, decoder, room => by
    exact ⟨last, by simp [radixEncodeFrom, radixDecodeFrom, encoder]⟩
  | [a], i, k, front, x :: y :: cells, encoder, decoder, room => by
    have step := decode_two front cells ['=', '='] a 0#8 x y decoder
    have second : (i + 1) % 3 = 1 := by omega
    exact ⟨_, by simpa [radixEncodeFrom, encoder, second, radixDecodeFrom] using step⟩
  | [a, b], i, k, front, x :: y :: z :: cells, encoder, decoder, room => by
    have step := decode_three front cells ['='] a b 0#8 x y z decoder
    have second : (i + 1) % 3 = 1 := by omega
    have third : (i + 2) % 3 = 2 := by omega
    exact ⟨_, by simpa [radixEncodeFrom, encoder, second, third, radixDecodeFrom] using step⟩
  | a :: b :: c :: bytes, i, k, front, x :: y :: z :: cells, encoder, decoder, room => by
    have step := decode_three front cells
      (radixChar (c &&& 63#8) :: radixEncodeFrom (i + 3) 0#8 bytes) a b c x y z decoder
    rw [decode_fourth (low_small c).2.2.2.2.2 (by omega), bits_third] at step
    have second : (i + 1) % 3 = 1 := by omega
    have third : (i + 2) % 3 = 2 := by omega
    obtain ⟨last, done⟩ := decode_encode bytes (i + 3) (k + 4) (front ++ [a] ++ [b] ++ [c]) cells
      (by omega) (by omega) (by simpa using room)
    refine ⟨last, ?_⟩
    have total : front.length + (a :: b :: c :: bytes).length =
        (front ++ [a] ++ [b] ++ [c]).length + bytes.length := by
      simp
      omega
    simp only [radixEncodeFrom, encoder, second, third]
    rw [step, total]
    simpa using done

theorem encode_shape (bytes : List (BitVec 8)) : ∀ (i : Nat) {c : BitVec 8}, c.toNat < 64 →
    (radixEncodeFrom i c bytes).length + i % 3 = 4 * ((bytes.length + i % 3 + 2) / 3) ∧
      ∀ char ∈ radixEncodeFrom i c bytes, char ∈ radixN ∨ char = '=' := by
  have letter := fun d small => (radixChar_facts d small).2.1
  induction bytes with
  | nil =>
    intro i c small
    have phase : i % 3 = 0 ∨ i % 3 = 1 ∨ i % 3 = 2 := by omega
    rcases phase with phase | phase | phase <;> simp [radixEncodeFrom, phase, letter c small]
  | cons byte bytes ih =>
    intro i c small
    obtain ⟨high, low, four, two, six, rest⟩ := low_small byte
    have phase : i % 3 = 0 ∨ i % 3 = 1 ∨ i % 3 = 2 := by omega
    rcases phase with phase | phase | phase
    · have next : (i + 1) % 3 = 1 := by omega
      obtain ⟨length, inside⟩ := ih (i + 1) low
      simp only [radixEncodeFrom, phase, next, forall_mem_cons] at length ⊢
      exact ⟨by omega, .inl (letter _ high), inside⟩
    · have next : (i + 1) % 3 = 2 := by omega
      obtain ⟨length, inside⟩ := ih (i + 1) two
      simp only [radixEncodeFrom, phase, next, forall_mem_cons] at length ⊢
      exact ⟨by omega, .inl (letter _ (or_small small four)), inside⟩
    · have next : (i + 1) % 3 = 0 := by omega
      obtain ⟨length, inside⟩ := ih (i + 1) (c := 0#8) (by decide)
      simp only [radixEncodeFrom, phase, next, length_cons, forall_mem_cons] at length ⊢
      exact ⟨by omega, .inl (letter _ (or_small small six)), .inl (letter _ rest), inside⟩

/-- `radix_encode` in its two modes. -/
def radixEncode (inbuf : List (BitVec 8)) : Text := radixEncodeFrom 0 0#8 inbuf

def radixDecode (inbuf : Text) (outbuf : List (BitVec 8)) :
    Option (Nat × Nat × List (BitVec 8)) :=
  radixDecodeFrom 0 0 outbuf inbuf

/-- Decoding gives back what was encoded, and writes into one byte behind it at most. -/
theorem radix_round_trip (bytes outbuf : List (BitVec 8)) (room : bytes.length < outbuf.length) :
    (radixEncode bytes).length = 4 * ((bytes.length + 2) / 3) ∧
      (∀ c ∈ radixEncode bytes, c ∈ radixN ∨ c = '=') ∧
      ∃ last, radixDecode (radixEncode bytes) outbuf =
        some (0, bytes.length, bytes ++ last :: outbuf.drop (bytes.length + 1)) := by
  obtain ⟨length, inside⟩ := encode_shape bytes 0 (c := 0#8) (by decide)
  refine ⟨length, inside, ?_⟩
  simpa [radixDecode, radixEncode] using decode_encode bytes 0 0 [] outbuf rfl rfl room

theorem radix_round_trip_one : ∃ last,
    radixDecode (radixEncode [0x66#8]) [0#8, 0#8] = some (0, 1, [0x66#8, last]) :=
  (radix_round_trip [0x66#8] [0#8, 0#8] (by decide)).2.2

end Wzdftpd
