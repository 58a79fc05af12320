import Mathlib.Logic.Function.Iterate
import Mathlib.Tactic.Common

/- Reflected cyclic redundancy checks of any width and polynomial, bit by bit, and the
table of 256 entries that takes a byte at a time. -/
namespace ReflectedCrc

open BitVec

variable {w : Nat}

/-- One bit: the remainder moves down, and a bit that falls out takes the polynomial. -/
def shift (poly c : BitVec w) : BitVec w :=
  if c.getLsbD 0 then (c >>> 1) ^^^ poly else c >>> 1

/-- A byte is added to the low end of the remainder, and its eight bits are shifted out. -/
def feed (poly c : BitVec w) (byte : BitVec 8) : BitVec w :=
  (shift poly)^[8] (c ^^^ byte.setWidth w)

/-- The remainder of some bytes, which continues the one before; complemented at both ends. -/
def crc (poly start : BitVec w) (bytes : List (BitVec 8)) : BitVec w :=
  ~~~bytes.foldl (feed poly) (~~~start)

theorem crc_append (poly start : BitVec w) (first second : List (BitVec 8)) :
    crc poly start (first ++ second) = crc poly (crc poly start first) second := by
  simp [crc, crc, crc]

/-- What the table has for a byte. -/
def entry (poly : BitVec w) (index : BitVec 8) : BitVec w := (shift poly)^[8] (index.setWidth w)

theorem shift_xor (poly a b : BitVec w) : shift poly (a ^^^ b) = shift poly a ^^^ shift poly b := by
  have cancel : a >>> 1 ^^^ b >>> 1 = a >>> 1 ^^^ poly ^^^ (b >>> 1 ^^^ poly) := by
    rw [BitVec.xor_assoc, BitVec.xor_comm (b >>> 1) poly, ← BitVec.xor_assoc poly poly,
      BitVec.xor_self, BitVec.zero_xor]
  unfold shift
  rw [getLsbD_xor, ushiftRight_xor_distrib]
  cases a.getLsbD 0 with
  | false =>
    cases b.getLsbD 0 with
    | false => rfl
    | true => exact BitVec.xor_assoc _ _ _
  | true =>
    cases b.getLsbD 0 with
    | false =>
      change a >>> 1 ^^^ b >>> 1 ^^^ poly = a >>> 1 ^^^ poly ^^^ b >>> 1
      rw [BitVec.xor_assoc, BitVec.xor_comm (b >>> 1), BitVec.xor_assoc]
    | true => exact cancel

theorem iterate_shift_xor (poly a b : BitVec w) (n : Nat) :
    (shift poly)^[n] (a ^^^ b) = (shift poly)^[n] a ^^^ (shift poly)^[n] b := by
  induction n with
  | zero => rfl
  | succ n ih => simp only [Function.iterate_succ_apply', ih, shift_xor]

theorem iterate_shift_of_low (poly c : BitVec w) (n : Nat)
    (low : ∀ i < n, c.getLsbD i = false) : (shift poly)^[n] c = c >>> n := by
  induction n with
  | zero => rw [Function.iterate_zero_apply, ushiftRight_zero]
  | succ n ih =>
    have bit : (c >>> n).getLsbD 0 = false := by
      exact low n (Nat.lt_succ_self n)
    rw [Function.iterate_succ_apply', ih fun i below => low i (Nat.lt_succ_of_lt below), shift,
      bit, if_neg Bool.false_ne_true, shiftRight_add]

theorem xor_byte (c : BitVec w) (byte : BitVec 8) :
    c ^^^ byte.setWidth w = (c >>> 8) <<< 8 ^^^ (c.setWidth 8 ^^^ byte).setWidth w := by
  apply eq_of_getLsbD_eq
  intro i inside
  simp only [getLsbD_xor, getLsbD_setWidth, getLsbD_shiftLeft, inside]
  by_cases low : i < 8
  · simp [low]
  · have place : 8 + (i - 8) = i := by omega
    simp [low, place]

theorem high_shiftRight (c : BitVec w) : ((c >>> 8) <<< 8) >>> 8 = c >>> 8 := by
  apply eq_of_getLsbD_eq
  intro i _
  by_cases inside : 8 + i < w
  · simp [inside]
  · simp [getLsbD_of_ge c (8 + i) (by omega)]

theorem feed_eq_entry (poly c : BitVec w) (byte : BitVec 8) :
    feed poly c byte = c >>> 8 ^^^ entry poly (c.setWidth 8 ^^^ byte) := by
  have low : ∀ i < 8, ((c >>> 8) <<< 8).getLsbD i = false := by
    intro i below
    simp [below]
  rw [feed, xor_byte, iterate_shift_xor, iterate_shift_of_low poly _ 8 low, high_shiftRight, entry]

end ReflectedCrc
