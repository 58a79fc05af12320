import Mathlib.Tactic.IntervalCases

/- `utf8_valid` of wzd_utf8.c against the encoding of RFC 2279. -/
namespace Wzdftpd

open List

/-- The loop of `utf8_valid`, with the number of bytes that have to follow, and the bits of
which the next one must have one. -/
def utf8ValidFrom (trailing : Nat) (byte2mask : BitVec 8) : List (BitVec 8) → Bool
  | [] => trailing = 0
  | c :: buf =>
    if trailing ≠ 0 then
      if c &&& 0xc0#8 = 0x80#8 then
        if byte2mask ≠ 0#8 then
          if c &&& byte2mask ≠ 0#8 then utf8ValidFrom (trailing - 1) 0#8 buf else false
        else utf8ValidFrom (trailing - 1) byte2mask buf
      else false
    else if c &&& 0x80#8 = 0#8 then utf8ValidFrom trailing byte2mask buf
    else if c &&& 0xe0#8 = 0xc0#8 then
      if c &&& 0x1e#8 ≠ 0#8 then utf8ValidFrom 1 byte2mask buf else false
    else if c &&& 0xf0#8 = 0xe0#8 then
      utf8ValidFrom 2 (if c &&& 0x0f#8 = 0#8 then 0x20#8 else byte2mask) buf
    else if c &&& 0xf8#8 = 0xf0#8 then
      utf8ValidFrom 3 (if c &&& 0x07#8 = 0#8 then 0x30#8 else byte2mask) buf
    else if c &&& 0xfc#8 = 0xf8#8 then
      utf8ValidFrom 4 (if c &&& 0x03#8 = 0#8 then 0x38#8 else byte2mask) buf
    else if c &&& 0xfe#8 = 0xfc#8 then
      utf8ValidFrom 5 (if c &&& 0x01#8 = 0#8 then 0x3c#8 else byte2mask) buf
    else false

/-- `utf8_valid` -/
def utf8Valid (buf : List (BitVec 8)) : Bool := utf8ValidFrom 0 0#8 buf

/-- Bytes `10xxxxxx` with six bits of a value each. -/
def continuation : Nat → Nat → List (BitVec 8)
  | 0, _ => []
  | n + 1, value => BitVec.ofNat 8 (0x80 + value / 64 ^ n) :: continuation n (value % 64 ^ n)

/-- A first byte with a mark of its own, and `n` bytes behind it. -/
def encodeWith (mark n value : Nat) : List (BitVec 8) :=
  BitVec.ofNat 8 (mark + value / 64 ^ n) :: continuation n (value % 64 ^ n)

/-- The encoding of a value by the table of RFC 2279. -/
def encode (value : Nat) : List (BitVec 8) :=
  if value < 0x80 then encodeWith 0x00 0 value
  else if value < 0x800 then encodeWith 0xc0 1 value
  else if value < 0x10000 then encodeWith 0xe0 2 value
  else if value < 0x200000 then encodeWith 0xf0 3 value
  else if value < 0x4000000 then encodeWith 0xf8 4 value
  else encodeWith 0xfc 5 value

section

variable {n d : Nat} {mask : BitVec 8} {buf : List (BitVec 8)}

theorem join_digits {low : Nat} (small : low < 64 ^ n) :
    (64 ^ n * d + low) / 64 ^ n = d ∧ (64 ^ n * d + low) % 64 ^ n = low := by
  have positive : 0 < 64 ^ n := Nat.pow_pos (by decide)
  simp [Nat.mul_add_div positive, Nat.div_eq_of_lt small, Nat.mod_eq_of_lt small]

theorem utf8ValidFrom_succ : utf8ValidFrom (n + 1) mask buf = true ↔ ∃ d < 64, ∃ behind,
      buf = BitVec.ofNat 8 (0x80 + d) :: behind ∧
      (mask = 0#8 ∨ BitVec.ofNat 8 (0x80 + d) &&& mask ≠ 0#8) ∧
        utf8ValidFrom n 0#8 behind = true := by
  have follows : ∀ c : BitVec 8,
      c &&& 0xc0#8 = 0x80#8 ↔ 0x80 ≤ c.toNat ∧ c.toNat < 0xc0 := by decide
  constructor
  · cases buf with
    | nil => simp [utf8ValidFrom]
    | cons c behind =>
      intro valid
      have range : 0x80 ≤ c.toNat ∧ c.toNat < 0xc0 := by
        by_contra outside
        simp [utf8ValidFrom, follows, outside] at valid
      refine ⟨c.toNat - 0x80, by omega, behind, ?_⟩
      by_cases none : mask = 0#8 <;> simp_all [utf8ValidFrom]
  · rintro ⟨d, _, behind, rfl, passes, valid⟩
    have range : BitVec.ofNat 8 (0x80 + d) &&& 0xc0#8 = 0x80#8 := by
      simp only [follows, BitVec.toNat_ofNat]
      omega
    rcases passes with rfl | passes
    · simp [utf8ValidFrom, range, valid]
    · by_cases none : mask = 0#8 <;> simp_all [utf8ValidFrom]

/-- The bytes that follow a lead, where the mask lets pass the digits from `least` on. -/
theorem masked_iff (least : Nat)
    (passes : ∀ d < 64, mask = 0#8 ∨ BitVec.ofNat 8 (0x80 + d) &&& mask ≠ 0#8 ↔ least ≤ d)
    (plain : ∀ {buf}, utf8ValidFrom n 0#8 buf = true ↔ ∃ low < 64 ^ n, ∃ rest,
      buf = continuation n low ++ rest ∧ utf8Valid rest = true) :
    utf8ValidFrom (n + 1) mask buf = true ↔ ∃ low < 64 ^ (n + 1), ∃ rest,
      buf = continuation (n + 1) low ++ rest ∧ utf8Valid rest = true ∧ 64 ^ n * least ≤ low := by
  have positive : 0 < 64 ^ n := Nat.pow_pos (by decide)
  rw [utf8ValidFrom_succ]
  constructor
  · rintro ⟨d, small, _, rfl, allowed, behind⟩
    obtain ⟨low, less, rest, rfl, valid⟩ := plain.mp behind
    have parts := join_digits (d := d) less
    have most := Nat.mul_le_mul_left (64 ^ n) (Nat.succ_le_of_lt small)
    have bound := Nat.mul_le_mul_left (64 ^ n) ((passes d small).mp allowed)
    rw [Nat.mul_succ] at most
    refine ⟨64 ^ n * d + low, by rw [Nat.pow_succ]; omega, rest, ?_, valid, by omega⟩
    simp [continuation, parts]
  · rintro ⟨value, less, rest, rfl, valid, bound⟩
    have digit : value / 64 ^ n < 64 := Nat.div_lt_of_lt_mul less
    refine ⟨value / 64 ^ n, digit, _, rfl, (passes _ digit).mpr ?_, plain.mpr ?_⟩
    · exact (Nat.le_div_iff_mul_le positive).mpr (by rwa [Nat.mul_comm])
    · exact ⟨value % 64 ^ n, Nat.mod_lt _ positive, rest, rfl, valid⟩

theorem utf8ValidFrom_iff (n : Nat) : ∀ {buf : List (BitVec 8)},
    utf8ValidFrom n 0#8 buf = true ↔ ∃ low < 64 ^ n, ∃ rest,
      buf = continuation n low ++ rest ∧ utf8Valid rest = true := by
  induction n with
  | zero => simp [continuation, utf8Valid]
  | succ n ih =>
    intro buf
    simpa using masked_iff 0 (by simp) ih

end

/-- A lead with a mark of its own and `n + 1` bytes behind it: the first of these is
masked if the lead has no bits of the value. -/
structure Lead (n mark payloads lowest : Nat) (mask : BitVec 8) : Prop where
  step : ∀ p < payloads, ∀ buf, utf8Valid (BitVec.ofNat 8 (mark + p) :: buf) =
    utf8ValidFrom (n + 1) (if p = 0 then mask else 0#8) buf
  passes : ∀ d < 64, mask = 0#8 ∨ BitVec.ofNat 8 (0x80 + d) &&& mask ≠ 0#8 ↔ lowest ≤ d
  least : lowest ≤ 64
  encodes : ∀ value, 64 ^ n * lowest ≤ value → value < 64 ^ (n + 1) * payloads →
    encode value = encodeWith mark (n + 1) value

section

variable {n mark payloads lowest p : Nat} {mask : BitVec 8} {buf : List (BitVec 8)}

theorem Lead.follow_iff (lead : Lead n mark payloads lowest mask) (inside : p < payloads) :
    utf8Valid (BitVec.ofNat 8 (mark + p) :: buf) = true ↔ ∃ low < 64 ^ (n + 1), ∃ rest,
      buf = continuation (n + 1) low ++ rest ∧ utf8Valid rest = true ∧
        64 ^ n * lowest ≤ 64 ^ (n + 1) * p + low := by
  rw [lead.step p inside]
  by_cases none : p = 0
  · simpa [none] using masked_iff lowest lead.passes (utf8ValidFrom_iff n)
  have bound : 64 ^ n * lowest ≤ 64 ^ (n + 1) * p := by
    rw [Nat.pow_succ, Nat.mul_assoc]
    apply Nat.mul_le_mul_left
    have := lead.least
    omega
  simp [none, utf8ValidFrom_iff, Nat.le_add_right_of_le bound]

theorem Lead.valid (lead : Lead n mark payloads lowest mask) {value : Nat}
    (least : 64 ^ n * lowest ≤ value) (most : value < 64 ^ (n + 1) * payloads)
    {rest : List (BitVec 8)} (valid : utf8Valid rest = true) :
    utf8Valid (encode value ++ rest) = true := by
  have positive : 0 < 64 ^ (n + 1) := Nat.pow_pos (by decide)
  rw [lead.encodes value least most]
  refine (lead.follow_iff (Nat.div_lt_of_lt_mul most)).mpr
    ⟨value % 64 ^ (n + 1), Nat.mod_lt _ positive, rest, rfl, valid, ?_⟩
  rwa [Nat.div_add_mod]

theorem Lead.decode (lead : Lead n mark payloads lowest mask) (inside : p < payloads)
    (small : 64 ^ (n + 1) * payloads ≤ 2 ^ 31)
    (valid : utf8Valid (BitVec.ofNat 8 (mark + p) :: buf) = true) :
    ∃ value < 2 ^ 31, ∃ rest, BitVec.ofNat 8 (mark + p) :: buf = encode value ++ rest ∧
      utf8Valid rest = true := by
  obtain ⟨low, less, rest, rfl, valid, bound⟩ := (lead.follow_iff inside).mp valid
  have most : 64 ^ (n + 1) * p + low < 64 ^ (n + 1) * payloads := by
    have := Nat.mul_le_mul_left (64 ^ (n + 1)) (Nat.succ_le_of_lt inside)
    rw [Nat.mul_succ] at this
    omega
  have parts := join_digits (d := p) less
  refine ⟨_, most.trans_le small, rest, ?_, valid⟩
  simp [lead.encodes _ bound most, encodeWith, parts.1, parts.2]

end

theorem leads : Lead 1 0xe0 16 32 0x20#8 ∧ Lead 2 0xf0 8 16 0x30#8 ∧ Lead 3 0xf8 4 8 0x38#8 ∧
    Lead 4 0xfc 2 4 0x3c#8 := by
  refine ⟨⟨?_, by decide, by decide, ?_⟩, ⟨?_, by decide, by decide, ?_⟩,
    ⟨?_, by decide, by decide, ?_⟩, ⟨?_, by decide, by decide, ?_⟩⟩
  case refine_1 | refine_3 | refine_5 | refine_7 =>
    intro p small buf
    interval_cases p <;> rfl
  all_goals
    intro value least most
    simp only [encode]
    split_ifs <;> first | rfl | omega

theorem lead_two (buf : List (BitVec 8)) {p : Nat} (least : 2 ≤ p) (most : p < 32) :
    utf8Valid (BitVec.ofNat 8 (0xc0 + p) :: buf) = utf8ValidFrom 1 0#8 buf := by
  interval_cases p <;> rfl

theorem lead_one (buf : List (BitVec 8)) {p : Nat} (most : p < 128) :
    utf8Valid (BitVec.ofNat 8 p :: buf) = utf8Valid buf := by
  interval_cases p <;> rfl

/-- A valid sequence starts with the encoding of a value. -/
theorem utf8Valid_cons (c : BitVec 8) (buf : List (BitVec 8))
    (valid : utf8Valid (c :: buf) = true) :
    ∃ value < 2 ^ 31, ∃ rest, c :: buf = encode value ++ rest ∧ utf8Valid rest = true := by
  obtain ⟨three, four, five, six⟩ := leads
  have refused : ∀ c : BitVec 8, 0x80 ≤ c.toNat ∧ c.toNat < 0xc2 ∨ 0xfe ≤ c.toNat →
      ¬c &&& 0x80#8 = 0#8 ∧ (c &&& 0xe0#8 = 0xc0#8 → c &&& 0x1e#8 = 0#8) ∧
        ¬c &&& 0xf0#8 = 0xe0#8 ∧ ¬c &&& 0xf8#8 = 0xf0#8 ∧ ¬c &&& 0xfc#8 = 0xf8#8 ∧
        ¬c &&& 0xfe#8 = 0xfc#8 := by decide
  have split : ∀ mark ≤ c.toNat, ∃ p, c = BitVec.ofNat 8 (mark + p) ∧ c.toNat = mark + p :=
    fun mark least => ⟨c.toNat - mark, by simp [Nat.add_sub_cancel' least], by omega⟩
  rcases Nat.lt_or_ge c.toNat 0x80 with ascii | large
  · refine ⟨c.toNat, by omega, buf, ?_, ?_⟩
    · simp [encode, ascii, encodeWith, continuation]
    · rwa [← lead_one buf ascii, BitVec.ofNat_toNat, BitVec.setWidth_eq]
  by_cases outside : c.toNat < 0xc2 ∨ 0xfe ≤ c.toNat
  · by_cases two : c &&& 0xe0#8 = 0xc0#8 <;> simp_all [utf8Valid, utf8ValidFrom]
  rcases Nat.lt_or_ge c.toNat 0xe0 with second | _
  · obtain ⟨p, rfl, same⟩ := split 0xc0 (by omega)
    rw [lead_two buf (by omega) (by omega), utf8ValidFrom_iff] at valid
    obtain ⟨low, less, rest, rfl, valid⟩ := valid
    have parts := join_digits (d := p) less
    refine ⟨64 ^ 1 * p + low, by omega, rest, ?_, valid⟩
    rw [encode, if_neg (by omega), if_pos (by omega), encodeWith, parts.1, parts.2, cons_append]
  rcases Nat.lt_or_ge c.toNat 0xf0 with third | _
  · obtain ⟨p, rfl, same⟩ := split 0xe0 (by omega)
    exact three.decode (by omega) (by decide) valid
  rcases Nat.lt_or_ge c.toNat 0xf8 with fourth | _
  · obtain ⟨p, rfl, same⟩ := split 0xf0 (by omega)
    exact four.decode (by omega) (by decide) valid
  rcases Nat.lt_or_ge c.toNat 0xfc with fifth | _
  · obtain ⟨p, rfl, same⟩ := split 0xf8 (by omega)
    exact five.decode (by omega) (by decide) valid
  · obtain ⟨p, rfl, same⟩ := split 0xfc (by omega)
    exact six.decode (by omega) (by decide) valid

theorem utf8Valid_encode {value : Nat} (small : value < 2 ^ 31) {rest : List (BitVec 8)}
    (valid : utf8Valid rest = true) : utf8Valid (encode value ++ rest) = true := by
  obtain ⟨three, four, five, six⟩ := leads
  by_cases ascii : value < 0x80
  · rw [encode, if_pos ascii]
    simpa [encodeWith, continuation, lead_one rest ascii] using valid
  by_cases second : value < 0x800
  · rw [encode, if_neg ascii, if_pos second, encodeWith, cons_append,
      lead_two _ (by omega) (by omega), utf8ValidFrom_iff]
    exact ⟨value % 64 ^ 1, Nat.mod_lt _ (by decide), rest, rfl, valid⟩
  by_cases third : value < 0x10000
  · exact three.valid (by omega) third valid
  by_cases fourth : value < 0x200000
  · exact four.valid (by omega) fourth valid
  by_cases fifth : value < 0x4000000
  · exact five.valid (by omega) fifth valid
  · exact six.valid (by omega) small valid

/-- Induction over the values that a valid sequence encodes. -/
@[elab_as_elim]
theorem utf8Valid_induction {motive : List (BitVec 8) → Prop} (empty : motive [])
    (encoded : ∀ value < 2 ^ 31, ∀ rest, motive rest → motive (encode value ++ rest))
    {buf : List (BitVec 8)} (valid : utf8Valid buf = true) : motive buf := by
  induction length : buf.length using Nat.strong_induction_on generalizing buf with
  | _ n ih =>
    cases buf with
    | nil => exact empty
    | cons c buf =>
      obtain ⟨value, small, rest, parts, valid⟩ := utf8Valid_cons c buf valid
      have shorter : rest.length < n := by
        have positive : 0 < (encode value).length := by
          simp only [encode]
          split_ifs <;> exact Nat.succ_pos _
        rw [← length, parts, length_append]
        omega
      rw [parts]
      exact encoded value small rest (ih rest.length shorter valid rfl)

theorem utf8Valid_append {front behind : List (BitVec 8)} (first : utf8Valid front = true)
    (second : utf8Valid behind = true) : utf8Valid (front ++ behind) = true := by
  refine utf8Valid_induction second (fun value small rest valid => ?_) first
  rw [append_assoc]
  exact utf8Valid_encode small valid

/-- `utf8_valid` accepts the concatenations of encodings of values below 2^31, and nothing
else. -/
theorem utf8Valid_iff (buf : List (BitVec 8)) :
    utf8Valid buf = true ↔
      ∃ values : List Nat, (∀ value ∈ values, value < 2 ^ 31) ∧ buf = values.flatMap encode := by
  constructor
  · intro valid
    refine utf8Valid_induction ⟨[], by simp⟩ (fun value small rest coded => ?_) valid
    obtain ⟨values, below, same⟩ := coded
    exact ⟨value :: values, forall_mem_cons.mpr ⟨small, below⟩, by rw [same, flatMap_cons]⟩
  · rintro ⟨values, below, rfl⟩
    induction values with
    | nil => rfl
    | cons value values ih =>
      obtain ⟨small, below⟩ := forall_mem_cons.mp below
      exact utf8Valid_encode small (ih below)

end Wzdftpd
