import Wzdftpd.Pieces
import Wzdftpd.SiteSteps
import Wzdftpd.UsersFile

/- What `read_single_user` makes of the lines that `write_single_user` has written, if they fit
into its buffer. -/
namespace Wzdftpd

open DirectiveText CNumber List

/-- A text without the characters that the reader removes at the ends of a line. -/
def Solid (text : Text) : Prop :=
  ∀ c ∈ text, isLineEnd c = false ∧ isBlank c = false ∧ c ≠ '\x00'

variable {text : Text}

theorem solid_of_alphanum (all : ∀ c ∈ text, c.isAlphanum = true) : Solid text := by
  intro c member
  have letter := all c member
  refine ⟨?_, ?_, ?_⟩
  · rw [← Bool.not_eq_true]
    intro ends
    rcases of_decide_eq_true ends with rfl | rfl <;> revert letter <;> decide
  · rw [← Bool.not_eq_true]
    intro blank
    rcases of_decide_eq_true blank with rfl | rfl <;> revert letter <;> decide
  · rintro rfl
    revert letter
    decide

theorem solid_decimal (n : Nat) : Solid (decimal n) :=
  solid_of_alphanum fun _ => isAlphanum_of_mem_toDigits (by decide) (by decide)

theorem solid_hex (n : Nat) : Solid ('0' :: 'x' :: hex n) := by
  apply solid_of_alphanum
  intro c member
  rcases mem_cons.mp member with rfl | member
  · rfl
  · rcases mem_cons.mp member with rfl | member
    · rfl
    · exact isAlphanum_of_mem_toDigits (by decide) (by decide) member

variable (i : Int) {n : Nat} (groups : GroupTable)

theorem solid_signedDecimal : Solid (signedDecimal i) := by
  have digits := solid_decimal i.natAbs
  unfold signedDecimal
  split
  · exact forall_mem_cons.mpr ⟨by decide, digits⟩
  · exact digits

def readBack (text : Text) : Text := value (chomp text)

theorem Solid.readBack (solid : Solid text) : readBack text = text := by
  have kept : chomp text = text := by
    apply chomp_of_getLast?
    · exact fun member => (solid _ member).2.2 rfl
    · exact fun c last => (solid c (mem_of_getLast? last)).1
  rw [Wzdftpd.readBack, kept]
  apply value_of_head?
  exact fun c first => (solid c (mem_of_head? first)).2.1

theorem longArg_decimal (small : n < 2 ^ 63) : longArg (decimal n) = some n := by
  obtain ⟨_, _, shape, _⟩ := (numeral_decimal n).digit
  have read := (numeral_decimal n).strtol small
  rw [longArg, read]
  rw [shape]
  simp

theorem ulongArg_decimal (small : n < 2 ^ 64) : ulongArg (decimal n) = some n := by
  obtain ⟨_, _, shape, _⟩ := (numeral_decimal n).digit
  have read := (numeral_decimal n).strtoul small
  rw [ulongArg, read]
  rw [shape]
  simp

theorem numberArg_decimal (small : n < 2 ^ 64) : numberArg (decimal n) = some n := by
  obtain ⟨c, _, shape, digit⟩ := (numeral_decimal n).digit
  have read := (numeral_decimal n).strtoul small
  have range : '0' ≤ c ∧ c ≤ '9' := by
    rw [Char.isDigit, Bool.and_eq_true, decide_eq_true_eq, decide_eq_true_eq] at digit
    exact digit
  rw [shape] at read ⊢
  rw [numberArg, read, if_pos ⟨range.1, range.2, rfl⟩]

theorem signedDecimal_ne_nil : signedDecimal i ≠ [] := by
  obtain ⟨_, _, shape, _⟩ := (numeral_decimal i.natAbs).digit
  unfold signedDecimal
  split
  · exact cons_ne_nil _ _
  · rw [shape]
    exact cons_ne_nil _ _

theorem longArg_signedDecimal (i : Int64) :
    longArg (signedDecimal i.toInt) = if i.toInt < 0 then none else some i.toInt.toNat := by
  have some := signedDecimal_ne_nil i.toInt
  rw [longArg, strtol_signedDecimal i.le_toInt i.toInt_lt]
  simp [some.symm]

theorem ulongArg_signedDecimal (slots : UInt16) :
    (ulongArg (signedDecimal slots.toInt16.toInt)).map UInt16.ofNat = some slots := by
  have some := signedDecimal_ne_nil slots.toInt16.toInt
  have signed : slots.toInt16.toInt =
      if 2 * slots.toNat < 2 ^ 16 then (slots.toNat : Int)
      else (slots.toNat : Int) - (2 ^ 16 : Nat) :=
    BitVec.toInt_eq_toNat_cond slots.toBitVec
  have small := slots.toNat_lt
  obtain ⟨_, whole⟩ := strtoul_signedDecimal (i := slots.toInt16.toInt)
    (by split at signed <;> omega) (by split at signed <;> omega)
  rw [ulongArg]
  simp only [whole, some.symm, ne_eq, not_true_eq_false, or_self, if_false, Option.map_some]
  congr 1
  apply UInt16.toNat_inj.mp
  rw [UInt16.toNat_ofNat']
  split at signed <;> omega

theorem UserKey.ofText_text (key : UserKey) : UserKey.ofText key.text = some key := by
  cases key <;> rfl

/-- A line as the functions for directives take it. -/
def UserKey.named (line : UserKey × Text) : Text × Text := (line.1.text, line.2)

/-- What a line other than the groups does to the record. -/
def rereadLine (user : UserRecord) (line : UserKey × Text) : UserRecord :=
  if chomp line.2 = [] then user else userEdit line.1 (readBack line.2) user

theorem assign_userDirective (user : UserRecord) {line : UserKey × Text}
    (other : line.1 ≠ .groups) :
    assign (userDirective groups) user (UserKey.named line) = some (rereadLine user line) := by
  rw [assign, UserKey.named, rereadLine, userDirective, UserKey.ofText_text]
  simp only [if_neg other]
  split
  · rfl
  · rfl

theorem foldlM_assign {lines : List (UserKey × Text)}
    (others : ∀ line ∈ lines, line.1 ≠ .groups) (user : UserRecord) :
    (lines.map UserKey.named).foldlM (assign (userDirective groups)) user =
      some (lines.foldl rereadLine user) := by
  induction lines generalizing user with
  | nil => rfl
  | cons line lines ih =>
    have later := ih (forall_mem_cons.mp others).2
    rw [map_cons, foldlM_cons, assign_userDirective groups user (others line mem_cons_self)]
    exact later _

theorem readBack_nil (empty : chomp text = []) : readBack text = [] := by
  rw [readBack, empty]
  rfl

theorem assign_groups (user : UserRecord) (text : Text) :
    assign (userDirective groups) user (UserKey.named (.groups, text)) =
      addGroups groups (readBack text) user := by
  rw [assign, UserKey.named]
  split
  · rename_i empty
    rw [readBack_nil empty]
    rfl
  · rfl

section

variable (user : UserRecord)

variable {key : UserKey}

theorem rereadLine_solid (solid : Solid text) (some : text ≠ []) :
    rereadLine user (key, text) = userEdit key text user := by
  have kept := solid.readBack
  have clean : chomp text ≠ [] := by
    intro empty
    rw [readBack_nil empty] at kept
    exact some kept.symm
  rw [rereadLine, if_neg clean, kept]

theorem rereadLine_text {user after : UserRecord} (edit : userEdit key (readBack text) user = after)
    (empty : readBack text = [] → user = after) : rereadLine user (key, text) = after := by
  rw [rereadLine]
  by_cases clean : chomp text = []
  · rw [if_pos clean]
    exact empty (readBack_nil clean)
  · rw [if_neg clean]
    exact edit

theorem foldl_text {user after : UserRecord} (edit : userEdit key (readBack text) user = after)
    (empty : readBack text = [] → user = after) :
    (textDirective key text).foldl rereadLine user = after := by
  rw [textDirective]
  by_cases none : text = []
  · rw [if_pos none]
    apply empty
    rw [none]
    rfl
  · rw [if_neg none]
    exact rereadLine_text edit empty

theorem decimal_ne_nil (n : Nat) : decimal n ≠ [] := by
  obtain ⟨c, rest, shape, _⟩ := (numeral_decimal n).digit
  rw [shape]
  exact cons_ne_nil c rest

theorem rereadLine_decimal (key : UserKey) (n : Nat) :
    rereadLine user (key, decimal n) = userEdit key (decimal n) user :=
  rereadLine_solid user (solid_decimal n) (decimal_ne_nil n)

theorem foldl_number {n : Nat} {user after : UserRecord}
    (edit : userEdit key (decimal n) user = after) (zero : n = 0 → user = after) :
    (numberDirective key n).foldl rereadLine user = after := by
  rw [numberDirective]
  by_cases none : n = 0
  · rw [if_pos none]
    exact zero none
  · rw [if_neg none, foldl_cons, rereadLine_decimal]
    exact edit

theorem u32_eq_zero {x : UInt32} (zero : x.toNat = 0) : x = 0 := UInt32.toNat_inj.mp zero

theorem u16_eq_zero {x : UInt16} (zero : x.toNat = 0) : x = 0 := UInt16.toNat_inj.mp zero

theorem u64_eq_zero {x : UInt64} (zero : x.toNat = 0) : x = 0 := UInt64.toNat_inj.mp zero

theorem longArg_u32 (x : UInt32) : longArg (decimal x.toNat) = some x.toNat :=
  longArg_decimal (by have := x.toNat_lt; omega)

theorem longArg_u16 (x : UInt16) : longArg (decimal x.toNat) = some x.toNat :=
  longArg_decimal (by have := x.toNat_lt; omega)

theorem foldl_maxUlSpeed (blank : user.maxUlSpeed = 0) (n : UInt32) :
    (numberDirective .maxUlSpeed n.toNat).foldl rereadLine user =
      { user with maxUlSpeed := n } := by
  apply foldl_number
  -- `eq_def` is one equation; those of the keys are slow to generate
  · simp [userEdit.eq_def, longArg_u32]
  · intro zero
    rw [u32_eq_zero zero, ← blank]

theorem foldl_maxDlSpeed (blank : user.maxDlSpeed = 0) (n : UInt32) :
    (numberDirective .maxDlSpeed n.toNat).foldl rereadLine user =
      { user with maxDlSpeed := n } := by
  apply foldl_number
  · simp [userEdit.eq_def, longArg_u32]
  · intro zero
    rw [u32_eq_zero zero, ← blank]

theorem foldl_ratio (blank : user.ratio = 0) (n : UInt32) :
    (numberDirective .ratio n.toNat).foldl rereadLine user = { user with ratio := n } := by
  apply foldl_number
  · simp [userEdit.eq_def, longArg_u32]
  · intro zero
    rw [u32_eq_zero zero, ← blank]

theorem foldl_maxIdleTime (blank : user.maxIdleTime = 0) (n : UInt32) :
    (numberDirective .maxIdleTime n.toNat).foldl rereadLine user =
      { user with maxIdleTime := n } := by
  apply foldl_number
  · simp [userEdit.eq_def, longArg_u32]
  · intro zero
    rw [u32_eq_zero zero, ← blank]

theorem foldl_numLogins (blank : user.numLogins = 0) (n : UInt16) :
    (numberDirective .numLogins n.toNat).foldl rereadLine user = { user with numLogins := n } := by
  apply foldl_number
  · simp [userEdit.eq_def, longArg_u16]
  · intro zero
    rw [u16_eq_zero zero, ← blank]

theorem foldl_loginsPerIp (blank : user.loginsPerIp = 0) (n : UInt16) :
    (numberDirective .loginsPerIp n.toNat).foldl rereadLine user =
      { user with loginsPerIp := n } := by
  apply foldl_number
  · simp [userEdit.eq_def, longArg_u16]
  · intro zero
    rw [u16_eq_zero zero, ← blank]

theorem foldl_filesUlTotal (blank : user.stats.filesUlTotal = 0) (n : UInt64) :
    (numberDirective .filesUlTotal n.toNat).foldl rereadLine user =
      { user with stats := { user.stats with filesUlTotal := n } } := by
  apply foldl_number
  · simp [userEdit.eq_def, ulongArg_decimal n.toNat_lt]
  · intro zero
    rw [u64_eq_zero zero, ← blank]

theorem foldl_filesDlTotal (blank : user.stats.filesDlTotal = 0) (n : UInt64) :
    (numberDirective .filesDlTotal n.toNat).foldl rereadLine user =
      { user with stats := { user.stats with filesDlTotal := n } } := by
  apply foldl_number
  · simp [userEdit.eq_def, ulongArg_decimal n.toNat_lt]
  · intro zero
    rw [u64_eq_zero zero, ← blank]

theorem foldl_tagline (blank : user.tagline = []) (text : Text) :
    (textDirective .tagline text).foldl rereadLine user =
      { user with tagline := (readBack text).take maxTaglineLength } := by
  apply foldl_text
  · rfl
  · intro empty
    rw [empty, take_nil, ← blank]

theorem foldl_flags (blank : user.flags = []) (text : Text) :
    (textDirective .flags text).foldl rereadLine user =
      { user with flags := (flagsArg (readBack text)).getD [] } := by
  have edit : userEdit .flags (readBack text) user =
      { user with flags := (flagsArg (readBack text)).getD [] } := by
    change (flagsArg _).elim user _ = _
    cases flagsArg (readBack text) with
    | none => rw [Option.elim_none, Option.getD_none, ← blank]
    | some flags => rw [Option.elim_some, Option.getD_some]
  apply foldl_text edit
  intro empty
  rw [empty]
  change user = { user with flags := [] }
  rw [← blank]

theorem foldl_ips (list : List IpEntry) :
    (ipDirectives .ipAllowed list).foldl rereadLine user = { user with
      ipList := list.foldl (fun ips ip => ipAddCheck ips (readBack ip.regexp)) user.ipList } := by
  induction list generalizing user with
  | nil => rfl
  | cons ip list ih =>
    have first : rereadLine user (.ipAllowed, ip.regexp) =
        { user with ipList := ipAddCheck user.ipList (readBack ip.regexp) } := by
      apply rereadLine_text
      · rfl
      · intro empty
        rw [empty]
        rfl
    rw [ipDirectives, map_cons, ← ipDirectives, foldl_cons, first, ih, foldl_cons]

theorem foldl_slots {slots : UInt16} {user after : UserRecord}
    (edit : ∀ n, UInt16.ofNat n = slots →
      ulongArg (signedDecimal slots.toInt16.toInt) = some n →
      userEdit key (signedDecimal slots.toInt16.toInt) user = after)
    (zero : slots = 0 → user = after) :
    (slotsDirective key slots).foldl rereadLine user = after := by
  obtain ⟨n, read, same⟩ := Option.map_eq_some_iff.mp (ulongArg_signedDecimal slots)
  rw [slotsDirective]
  by_cases none : slots = 0
  · rw [if_pos none]
    exact zero none
  · rw [if_neg none, foldl_cons, foldl_nil,
      rereadLine_solid user (solid_signedDecimal _) (signedDecimal_ne_nil _)]
    exact edit n same read

theorem foldl_userSlots (blank : user.userSlots = 0) (slots : UInt16) :
    (slotsDirective .userSlots slots).foldl rereadLine user = { user with userSlots := slots } := by
  apply foldl_slots
  · intro n same read
    simp [userEdit.eq_def, read, same]
  · intro zero
    rw [zero, ← blank]

theorem foldl_leechSlots (blank : user.leechSlots = 0) (slots : UInt16) :
    (slotsDirective .leechSlots slots).foldl rereadLine user =
      { user with leechSlots := slots } := by
  apply foldl_slots
  · intro n same read
    simp [userEdit.eq_def, read, same]
  · intro zero
    rw [zero, ← blank]

def rereadTime (time : Int64) : Int64 := if time.toInt < 0 then 0 else time

theorem foldl_lastLogin (blank : user.lastLogin = 0) (time : Int64) :
    (if time = 0 then [] else [(UserKey.lastLogin, signedDecimal time.toInt)]).foldl
      rereadLine user = { user with lastLogin := rereadTime time } := by
  by_cases none : time = 0
  · rw [none]
    change user = { user with lastLogin := 0 }
    rw [← blank]
  rw [if_neg none, foldl_cons, foldl_nil,
    rereadLine_solid user (solid_signedDecimal _) (signedDecimal_ne_nil _)]
  change (longArg _).elim user _ = _
  rw [longArg_signedDecimal, rereadTime]
  by_cases negative : time.toInt < 0
  · simp [negative, ← blank]
  · have back : Int64.ofNat time.toInt.toNat = time := by
      rw [← Int64.ofInt_eq_ofNat, Int.toNat_of_nonneg (by omega), Int64.ofInt_toInt]
    rw [if_neg negative, if_neg negative, Option.elim_some, back]

theorem rereadLine_rights (rights : UInt64) :
    rereadLine user (.rights, '0' :: 'x' :: hex rights.toNat) =
      { user with userperms := rights ||| rightCwd } := by
  have read := (numeral_hex rights.toNat).strtoul rights.toNat_lt
  simp [rereadLine_solid user (solid_hex _) (cons_ne_nil _ _), userEdit.eq_def, read]

theorem rereadLine_credits (n : UInt64) :
    rereadLine user (.credits, decimal n.toNat) = { user with credits := n } := by
  simp [rereadLine_decimal, userEdit.eq_def, numberArg_decimal n.toNat_lt]

theorem rereadLine_bytesUlTotal (n : UInt64) :
    rereadLine user (.bytesUlTotal, decimal n.toNat) =
      { user with stats := { user.stats with bytesUlTotal := n } } := by
  simp [rereadLine_decimal, userEdit.eq_def, numberArg_decimal n.toNat_lt]

theorem rereadLine_bytesDlTotal (n : UInt64) :
    rereadLine user (.bytesDlTotal, decimal n.toNat) =
      { user with stats := { user.stats with bytesDlTotal := n } } := by
  simp [rereadLine_decimal, userEdit.eq_def, numberArg_decimal n.toNat_lt]

theorem rereadLine_uid (n : UInt32) :
    rereadLine user (.uid, decimal n.toNat) = { user with uid := n } := by
  simp [rereadLine_decimal, userEdit.eq_def, longArg_u32]

theorem rereadLine_creator (n : UInt32) :
    rereadLine user (.creator, decimal n.toNat) = { user with creator := n } := by
  simp [rereadLine_decimal, userEdit.eq_def, longArg_u32]

theorem rereadLine_pass (blank : user.userpass = []) (text : Text) :
    rereadLine user (.pass, text) =
      { user with userpass := (readBack text).take (maxPassLength - 1) } := by
  apply rereadLine_text
  · rfl
  · intro empty
    rw [empty, take_nil, ← blank]

theorem rereadLine_home (blank : user.rootpath = []) (text : Text) :
    rereadLine user (.home, text) = { user with rootpath := homeArg (readBack text) } := by
  apply rereadLine_text
  · rfl
  · intro empty
    rw [empty]
    change user = { user with rootpath := [] }
    rw [← blank]

end

def UserRecord.reread (user : UserRecord) (groups : GroupArray) : UserRecord where
  uid := user.uid
  username := user.username.take (hardUsernameLength - 1)
  userpass := (readBack (user.userpass.take maxPassLength)).take (maxPassLength - 1)
  rootpath := homeArg (readBack (user.rootpath.take maxPath))
  creator := user.creator
  tagline := (readBack (user.tagline.take maxTaglineLength)).take maxTaglineLength
  groups := groups
  maxIdleTime := user.maxIdleTime
  userperms := user.userperms ||| rightCwd
  flags := (flagsArg (readBack (user.flags.take maxFlagsNum))).getD []
  maxUlSpeed := user.maxUlSpeed
  maxDlSpeed := user.maxDlSpeed
  numLogins := user.numLogins
  loginsPerIp := user.loginsPerIp
  ipList := user.ipList.foldl (fun ips ip => ipAddCheck ips (readBack ip.regexp)) []
  stats := user.stats
  credits := user.credits
  ratio := user.ratio
  userSlots := user.userSlots
  leechSlots := user.leechSlots
  lastLogin := rereadTime user.lastLogin

def UserRecord.begun (user : UserRecord) : UserRecord where
  uid := user.uid
  username := user.username.take (hardUsernameLength - 1)
  userpass := (readBack (user.userpass.take maxPassLength)).take (maxPassLength - 1)
  rootpath := homeArg (readBack (user.rootpath.take maxPath))
  creator := user.creator

theorem foldl_before (user : UserRecord) (free : UInt32) :
    (directivesBefore user).foldl rereadLine
      { uid := free, username := user.username.take (hardUsernameLength - 1) } = user.begun := by
  simp only [directivesBefore, foldl_cons, foldl_nil, rereadLine_pass, rereadLine_home,
    rereadLine_uid, rereadLine_creator]
  rfl

theorem foldl_after (user : UserRecord) (groups : GroupArray) :
    (directivesAfter user).foldl rereadLine { user.begun with groups := groups } =
      user.reread groups := by
  simp only [directivesAfter, UserRecord.begun, foldl_append, foldl_cons, foldl_nil,
    rereadLine_rights, foldl_tagline, foldl_ips, foldl_maxUlSpeed, foldl_maxDlSpeed,
    rereadLine_credits, rereadLine_bytesUlTotal, rereadLine_bytesDlTotal, foldl_filesUlTotal,
    foldl_filesDlTotal, foldl_ratio, foldl_numLogins, foldl_loginsPerIp, foldl_maxIdleTime,
    foldl_flags, foldl_userSlots, foldl_leechSlots, foldl_lastLogin]
  rfl

end Wzdftpd
