import Mathlib.Data.Nat.Digits.Defs
import Mathlib.Data.UInt

/- How the C library reads integers from a text: `strtol` and `strtoul` with base 0,
`strtoul` with base 8, and the conversions of `sscanf`, on a 64-bit system; and how
it prints them. -/
namespace CNumber

open List Nat

/-- `isspace` in the C locale. -/
def isSpace (c : Char) : Bool := c ∈ [' ', '\t', '\n', '\x0b', '\x0c', '\r']

def digitValue (c : Char) : Option Nat :=
  if '0' ≤ c ∧ c ≤ '9' then some (c.toNat - '0'.toNat)
  else if 'a' ≤ c ∧ c ≤ 'z' then some (c.toNat - 'a'.toNat + 10)
  else if 'A' ≤ c ∧ c ≤ 'Z' then some (c.toNat - 'A'.toNat + 10)
  else none

/-- The longest run of digits of a base, and what follows it. -/
def digits (base : Nat) : List Char → List Nat × List Char
  | [] => ([], [])
  | c :: rest =>
    match digitValue c with
    | some d =>
      if d < base then
        let (ds, after) := digits base rest
        (d :: ds, after)
      else ([], c :: rest)
    | none => ([], c :: rest)

def value (base : Nat) (ds : List Nat) : Nat := ds.foldl (fun acc d => acc * base + d) 0

/-- A number as it is written, before it is fitted into a machine type. -/
structure Reading where
  negative : Bool
  magnitude : Nat
  rest : List Char

def readSign : List Char → Bool × List Char
  | '-' :: rest => (true, rest)
  | '+' :: rest => (false, rest)
  | text => (false, text)

/-- Base 0: `0x` before a hexadecimal digit, a leading `0`, or decimal. -/
def readBase : List Char → Nat × List Char
  | '0' :: x :: c :: rest =>
    if (x = 'x' ∨ x = 'X') ∧ (digitValue c).any (· < 16) then (16, c :: rest)
    else (8, '0' :: x :: c :: rest)
  | '0' :: rest => (8, '0' :: rest)
  | text => (10, text)

def readIn (base : Nat) (negative : Bool) (text : List Char) : Option Reading :=
  match digits base text with
  | ([], _) => none
  | (ds, rest) => some ⟨negative, value base ds, rest⟩

/-- A decimal number after optional blanks and sign. -/
def readDecimal (text : List Char) : Option Reading :=
  let (negative, body) := readSign (text.dropWhile isSpace)
  readIn 10 negative body

/-- As `unsigned long`: saturating, and a sign negates modulo the word size. -/
def Reading.toULong (number : Reading) : Nat :=
  if number.magnitude ≥ 2 ^ 64 then 2 ^ 64 - 1
  else if number.negative then (2 ^ 64 - number.magnitude) % 2 ^ 64
  else number.magnitude

/-- As `long`: saturating at both ends. -/
def Reading.toLong (number : Reading) : Int :=
  if number.negative then max (-(number.magnitude : Int)) (-(2 ^ 63))
  else min (number.magnitude : Int) (2 ^ 63 - 1)

/-- `strtoul(text, &end, 0)`: the value, and the text at `end`. -/
def strtoul (text : List Char) : Nat × List Char :=
  let (negative, body) := readSign (text.dropWhile isSpace)
  let (base, body) := readBase body
  match readIn base negative body with
  | none => (0, text)
  | some number => (number.toULong, number.rest)

/-- What `strtoul(text, &end, 8)` reads; `none` where `end` is left at the start. -/
def readOctal (text : List Char) : Option Reading :=
  let (negative, body) := readSign (text.dropWhile isSpace)
  readIn 8 negative body

/-- `strtol(text, &end, 0)` -/
def strtol (text : List Char) : Int × List Char :=
  let (negative, body) := readSign (text.dropWhile isSpace)
  let (base, body) := readBase body
  match readIn base negative body with
  | none => (0, text)
  | some number => (number.toLong, number.rest)

/-- What `%lo` prints. -/
def octal (n : Nat) : List Char := toDigits 8 n

/-- What `%u` and `%lu` print. -/
def decimal (n : Nat) : List Char := toDigits 10 n

/-- What `%lx` prints. -/
def hex (n : Nat) : List Char := toDigits 16 n

/-- What `%hd` and `%ld` print. -/
def signedDecimal (i : Int) : List Char :=
  if i < 0 then '-' :: decimal i.natAbs else decimal i.natAbs

variable {base : Nat}

variable {text : List Char}

theorem digits_append {ds : List Nat} (more : List Char) (all : digits base text = (ds, [])) :
    digits base (text ++ more) = (ds ++ (digits base more).1, (digits base more).2) := by
  induction text generalizing ds with
  | nil =>
    cases all
    rfl
  | cons c text ih =>
    rw [cons_append, digits]
    rw [digits] at all
    cases read : digitValue c with
    | none =>
      rw [read] at all
      cases all
    | some d =>
      rw [read] at all
      simp only at all ⊢
      split at all
      · rename_i small
        obtain ⟨first, after⟩ := Prod.mk.inj all
        simp [small, ih (Prod.ext rfl after), ← first]
      · cases all

theorem value_append (base : Nat) (ds : List Nat) (d : Nat) :
    value base (ds ++ [d]) = value base ds * base + d := by
  simp [value]

theorem digits_digitChar {d : Nat} (known : base ≤ 16) (small : d < base) :
    digits base [d.digitChar] = ([d], []) := by
  have all : ∀ e : Fin 16, digitValue e.val.digitChar = some e.val := by decide
  have read : digitValue d.digitChar = some d := all ⟨d, by omega⟩
  rw [digits, read]
  simp only [if_pos small, digits]

theorem digits_toDigits (two : 2 ≤ base) (known : base ≤ 16) (n : Nat) :
    ∃ ds, digits base (toDigits base n) = (ds, []) ∧ ds ≠ [] ∧ value base ds = n := by
  induction n using Nat.strong_induction_on with
  | _ n ih =>
    by_cases small : n < base
    · rw [toDigits_of_lt_base small, digits_digitChar known small]
      refine ⟨[n], rfl, cons_ne_nil _ _, ?_⟩
      rw [value, foldl_cons, foldl_nil]
      omega
    · have less : n / base < n := Nat.div_lt_self (by omega) (by omega)
      obtain ⟨ds, read, _, same⟩ := ih (n / base) less
      have last := digits_digitChar known (mod_lt n (by omega : base > 0))
      rw [toDigits_of_base_le (by omega) (by omega), digits_append _ read, last]
      refine ⟨ds ++ [n % base], rfl, by simp, ?_⟩
      rw [value_append, same, Nat.mul_comm]
      exact div_add_mod n base

theorem digits_octal (n : Nat) : ∃ ds, digits 8 (octal n) = (ds, []) ∧ ds ≠ [] ∧ value 8 ds = n :=
  digits_toDigits (by decide) (by decide) n

theorem octal_ne_nil (n : Nat) : octal n ≠ [] := by
  intro empty
  obtain ⟨_, read, some, _⟩ := digits_octal n
  rw [empty] at read
  exact some (Prod.mk.inj read).1.symm

variable {n : Nat}

variable {i : Int} {c : Char}

theorem isDigit_of_mem_octal (member : c ∈ octal n) : c.isDigit = true :=
  isDigit_of_mem_toDigits (by decide) (by decide) member

theorem isAlphanum_of_mem_toDigits (two : 2 ≤ base) (known : base ≤ 16) {c : Char}
    (member : c ∈ toDigits base n) : c.isAlphanum = true := by
  have all : ∀ d : Fin 16, d.val.digitChar.isAlphanum = true := by decide
  induction n using Nat.strong_induction_on with
  | _ n ih =>
    by_cases small : n < base
    · rw [toDigits_of_lt_base small, mem_singleton] at member
      rw [member]
      exact all ⟨n, by omega⟩
    rw [toDigits_of_base_le (by omega) (by omega), mem_append,
      mem_singleton] at member
    rcases member with front | last
    · exact ih (n / base) (Nat.div_lt_self (by omega) (by omega)) front
    · have less := mod_lt n (by omega : base > 0)
      rw [last]
      exact all ⟨n % base, by omega⟩

theorem octal_length_le (small : n < 2 ^ 64) : (octal n).length ≤ 22 := by
  apply toDigits_length 8 n 22 (by decide)
  omega

theorem readSign_of_isDigit (digit : c.isDigit = true) (rest : List Char) :
    readSign (c :: rest) = (false, c :: rest) := by
  unfold readSign
  split
  · rename_i same
    rw [(cons.inj same).1] at digit
    cases digit
  · rename_i same
    rw [(cons.inj same).1] at digit
    cases digit
  · rfl

theorem isSpace_of_isDigit (digit : c.isDigit = true) : isSpace c = false := by
  by_contra blank
  rw [Bool.not_eq_false] at blank
  simp only [isSpace, mem_cons, not_mem_nil, or_false, decide_eq_true_eq] at blank
  rcases blank with rfl | rfl | rfl | rfl | rfl | rfl <;> cases digit

theorem readOctal_octal (small : n < 2 ^ 64) :
    (readOctal (octal n)).map Reading.toULong = some n := by
  obtain ⟨_, read, some, same⟩ := digits_octal n
  obtain ⟨c, _, shape⟩ := exists_cons_of_ne_nil (octal_ne_nil n)
  have digit : c.isDigit = true := isDigit_of_mem_octal (shape ▸ mem_cons_self)
  have body : readSign ((octal n).dropWhile isSpace) = (false, octal n) := by
    rw [shape, dropWhile_cons_of_neg (by simp [isSpace_of_isDigit digit]),
      readSign_of_isDigit digit]
  simp only [readOctal, body, readIn, read, Option.map_some, Reading.toULong, same]
  rw [if_neg (by omega), if_neg (by simp)]

/-- A printed number as base 0 takes it apart: the base, and the digits. -/
structure Numeral (n : Nat) (text : List Char) : Prop where
  digit : ∃ c rest, text = c :: rest ∧ c.isDigit = true
  reads : ∃ base body, readBase text = (base, body) ∧ ∃ ds, digits base body = (ds, []) ∧
    ds ≠ [] ∧ value base ds = n

theorem readIn_of_digits {body : List Char} {ds : List Nat} (negative : Bool)
    (read : digits base body = (ds, [])) (some : ds ≠ []) (same : value base ds = n) :
    readIn base negative body = .some ⟨negative, n, []⟩ := by
  rw [readIn, read]
  simp only [same]

theorem Numeral.readSign (numeral : Numeral n text) :
    readSign (text.dropWhile isSpace) = (false, text) := by
  obtain ⟨_, _, rfl, digit⟩ := numeral.digit
  rw [dropWhile_cons_of_neg (by simp [isSpace_of_isDigit digit]), readSign_of_isDigit digit]

theorem Numeral.strtoul (numeral : Numeral n text) (small : n < 2 ^ 64) :
    strtoul text = (n, []) := by
  obtain ⟨_, _, split, _, read, some, same⟩ := numeral.reads
  simp only [CNumber.strtoul, numeral.readSign, split, readIn_of_digits false read some same,
    Reading.toULong]
  rw [if_neg (by omega), if_neg (by simp)]

theorem Numeral.strtol {text : List Char} (numeral : Numeral n text) (small : n < 2 ^ 63) :
    strtol text = ((n : Int), []) := by
  obtain ⟨_, _, split, _, read, some, same⟩ := numeral.reads
  simp only [CNumber.strtol, numeral.readSign, split, readIn_of_digits false read some same,
    Reading.toLong]
  rw [if_neg (by simp), min_eq_left (by omega)]

theorem Numeral.strtoul_neg (numeral : Numeral n text) (small : n < 2 ^ 64) :
    CNumber.strtoul ('-' :: text) = ((2 ^ 64 - n) % 2 ^ 64, []) := by
  obtain ⟨_, _, split, _, read, some, same⟩ := numeral.reads
  have sign : CNumber.readSign (('-' :: text).dropWhile isSpace) = (true, text) := rfl
  simp only [CNumber.strtoul, sign, split, readIn_of_digits true read some same, Reading.toULong]
  rw [if_neg (by omega), if_pos trivial]

theorem Numeral.strtol_neg (numeral : Numeral n text) (small : n ≤ 2 ^ 63) :
    CNumber.strtol ('-' :: text) = (-(n : Int), []) := by
  obtain ⟨_, _, split, _, read, some, same⟩ := numeral.reads
  have sign : CNumber.readSign (('-' :: text).dropWhile isSpace) = (true, text) := rfl
  simp only [CNumber.strtol, sign, split, readIn_of_digits true read some same, Reading.toLong]
  rw [if_pos trivial, max_eq_left (by omega)]

theorem decimal_head (positive : 0 < n) :
    ∃ c rest, decimal n = c :: rest ∧ c.isDigit = true ∧ c ≠ '0' := by
  induction n using Nat.strong_induction_on with
  | _ n ih =>
    by_cases small : n < 10
    · have all : ∀ d : Fin 10, 0 < d.val →
          d.val.digitChar.isDigit = true ∧ d.val.digitChar ≠ '0' := by decide
      rw [decimal, toDigits_of_lt_base small]
      exact ⟨n.digitChar, [], rfl, all ⟨n, small⟩ positive⟩
    · obtain ⟨c, rest, shape, digit, other⟩ := ih (n / 10) (by omega) (by omega)
      rw [decimal] at shape
      rw [decimal, toDigits_of_base_le (by decide) (by omega), shape]
      exact ⟨c, rest ++ [(n % 10).digitChar], rfl, digit, other⟩

theorem readBase_of_ne_zero (other : c ≠ '0') (rest : List Char) :
    readBase (c :: rest) = (10, c :: rest) := by
  unfold readBase
  split
  · rename_i same
    exact absurd (cons.inj same).1 other
  · rename_i same
    exact absurd (cons.inj same).1 other
  · rfl

theorem numeral_decimal (n : Nat) : Numeral n (decimal n) := by
  rcases Nat.eq_zero_or_pos n with rfl | positive
  · exact ⟨⟨'0', [], rfl, rfl⟩, 8, ['0'], rfl, [0], rfl, cons_ne_nil _ _, rfl⟩
  · obtain ⟨c, rest, shape, digit, other⟩ := decimal_head positive
    refine ⟨⟨c, rest, shape, digit⟩, 10, decimal n, ?_, ?_⟩
    · rw [shape]
      exact readBase_of_ne_zero other rest
    · exact digits_toDigits (by decide) (by decide) n

theorem numeral_hex (n : Nat) : Numeral n ('0' :: 'x' :: hex n) := by
  obtain ⟨ds, read, some, same⟩ := digits_toDigits (by decide : 2 ≤ 16) (by decide) n
  refine ⟨⟨'0', _, rfl, rfl⟩, 16, hex n, ?_, ds, read, some, same⟩
  rw [← hex] at read
  cases shape : hex n with
  | nil =>
    rw [shape] at read
    exact absurd (Prod.mk.inj read).1.symm some
  | cons c rest =>
    -- the first character of the number is a digit of the base
    have first : (digitValue c).any (· < 16) = true := by
      rw [shape, digits] at read
      cases digit : digitValue c with
      | none =>
        rw [digit] at read
        exact absurd (Prod.mk.inj read).1.symm some
      | some d =>
        rw [digit] at read
        by_cases small : d < 16
        · exact decide_eq_true small
        · simp only [if_neg small] at read
          exact absurd (Prod.mk.inj read).1.symm some
    rw [readBase, if_pos ⟨.inl rfl, first⟩]

theorem strtol_signedDecimal (least : -2 ^ 63 ≤ i) (most : i < 2 ^ 63) :
    strtol (signedDecimal i) = (i, []) := by
  have numeral := numeral_decimal i.natAbs
  unfold signedDecimal
  split
  · rw [numeral.strtol_neg (by omega), Int.ofNat_natAbs_of_nonpos (by omega), Int.neg_neg]
  · rw [numeral.strtol (by omega), Int.natAbs_of_nonneg (by omega)]

theorem strtoul_signedDecimal (least : -2 ^ 63 ≤ i) (most : i < 2 ^ 63) :
    ((strtoul (signedDecimal i)).1 : Int) = i % 2 ^ 64 ∧ (strtoul (signedDecimal i)).2 = [] := by
  have numeral := numeral_decimal i.natAbs
  unfold signedDecimal
  split
  · rw [numeral.strtoul_neg (by omega)]
    refine ⟨?_, rfl⟩
    omega
  · rw [numeral.strtoul (by omega)]
    refine ⟨?_, rfl⟩
    omega

example : strtoul "0x10000".toList = (65536, []) := by decide
example : strtoul "080".toList = (0, "80".toList) := by decide

end CNumber
