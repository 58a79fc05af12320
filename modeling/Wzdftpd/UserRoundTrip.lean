import Wzdftpd.UserGroupsText

/- A user record that is written and read back (libplaintext_file.c): which fields are
restored, and what a line does that fills the buffer of the reader. -/
namespace Wzdftpd

open DirectiveText GroupArray List Nat Option

section

variable {text : Text}

theorem take_readBack_iff (terminated : '\x00' ∉ text) (n : Nat) :
    (readBack text).take n = text ↔ readBack text = text ∧ text.length ≤ n := by
  have short := length_readBack_le terminated
  constructor
  · intro same
    have less := congrArg length same
    rw [length_take] at less
    rw [take_of_length_le (by omega)] at same
    exact ⟨same, by omega⟩
  · rintro ⟨same, fits⟩
    rw [same, take_of_length_le fits]

theorem homeArg_readBack_iff (terminated : '\x00' ∉ text)
    (home : text.getLast? = some '/' → text = ['/']) :
    homeArg (readBack text) = text ↔ readBack text = text ∧ text.length ≤ maxPath - 1 := by
  rw [homeArg]
  constructor
  · intro same
    have short := length_readBack_le terminated
    split at same
    · rename_i slash
      have less := congrArg length same
      rw [length_take, length_dropLast] at less
      have positive := length_pos_of_mem (mem_of_getLast? slash.1)
      omega
    · exact (take_readBack_iff terminated _).mp same
  · rintro ⟨same, fits⟩
    rw [same, if_neg fun slash => slash.2 (home slash.1), take_of_length_le fits]

theorem flagsArg_readBack_iff (text : Text) : (flagsArg (readBack text)).getD [] = text ↔
    readBack text = text ∧ text.length < maxFlagsNum := by
  rw [flagsArg]
  constructor
  · intro same
    split at same
    · rw [← same]
      decide
    · rename_i fits
      rw [getD_some] at same
      rw [same] at fits
      exact ⟨same, by omega⟩
  · rintro ⟨same, fits⟩
    rw [same]
    split
    · rename_i bad
      simp [length_eq_zero_iff.mp (bad.resolve_right (by omega))]
    · rw [getD_some]

end

/-- The addresses that `ip_add_check` takes. -/
def ipFits (ip : Text) : Bool := ip ≠ [] ∧ ip.length < maxIpLength

theorem ipAddCheck_eq (ips : List IpEntry) (ip : Text) :
    ipAddCheck ips ip = ips ++ ([ip].filter ipFits).map fun ip => ⟨ip, true⟩ := by
  have same : ipFits ip = true ↔ ¬(ip.length < 1 ∨ ip.length ≥ maxIpLength) := by
    simp [ipFits, ← length_pos_iff]
  rw [ipAddCheck]
  by_cases fits : ipFits ip = true
  · rw [if_neg (same.mp fits), filter_cons_of_pos fits]
    rfl
  · rw [if_pos (not_not.mp fun ok => fits (same.mpr ok)), filter_cons_of_neg fits]
    exact (append_nil ips).symm

theorem foldl_ipAddCheck (list : List IpEntry) (ips : List IpEntry) :
    list.foldl (fun ips ip => ipAddCheck ips (readBack ip.regexp)) ips =
      ips ++ ((list.map fun ip => readBack ip.regexp).filter ipFits).map fun ip => ⟨ip, true⟩ := by
  induction list generalizing ips with
  | nil => exact (append_nil ips).symm
  | cons ip list ih =>
    rw [foldl_cons, ih, map_cons, ipAddCheck_eq, append_assoc, ← map_append,
      ← filter_append, singleton_append]

theorem rereadIps_iff {list : List IpEntry} (allowed : ∀ ip ∈ list, ip.isAllowed = true) :
    list.foldl (fun ips ip => ipAddCheck ips (readBack ip.regexp)) [] = list ↔
      ∀ ip ∈ list, readBack ip.regexp = ip.regexp ∧ ipFits ip.regexp = true := by
  rw [foldl_ipAddCheck, nil_append]
  constructor
  · intro same
    have all : ∀ ip ∈ list.map fun ip => readBack ip.regexp, ipFits ip = true := by
      apply length_filter_eq_length_iff.mp
      have length := congrArg length same
      rw [length_map] at length
      simp [length]
    rw [filter_eq_self.mpr all, List.map_map] at same
    intro ip member
    have back : ⟨readBack ip.regexp, true⟩ = ip :=
      map_inj_left.mp (same.trans (map_id list).symm) ip member
    have regexp : readBack ip.regexp = ip.regexp := congrArg IpEntry.regexp back
    have ok := all _ (mem_map_of_mem member)
    rw [regexp] at ok
    exact ⟨regexp, ok⟩
  · intro plain
    have all : ∀ ip ∈ list.map fun ip => readBack ip.regexp, ipFits ip = true := by
      refine forall_mem_map.mpr fun ip inside => ?_
      rw [(plain ip inside).1, (plain ip inside).2]
    rw [filter_eq_self.mpr all, List.map_map]
    refine Eq.trans (map_inj_left.mpr fun ip member => ?_) (map_id list)
    obtain ⟨regexp, isAllowed⟩ := ip
    have yes : isAllowed = true := allowed _ member
    have same : readBack regexp = regexp := (plain _ member).1
    simp [same, yes, id]

theorem rereadTime_iff (time : Int64) : rereadTime time = time ↔ 0 ≤ time.toInt := by
  rw [rereadTime]
  constructor
  · intro same
    split at same
    · rename_i negative
      rw [← same] at negative
      exact absurd negative (by decide)
    · omega
  · exact fun positive => if_neg (by omega)

theorem or_rightCwd {rights : UInt64} (included : rights &&& rightCwd = rightCwd) :
    rights ||| rightCwd = rights := by
  rw [← included]
  apply UInt64.toBitVec_inj.mp
  rw [UInt64.toBitVec_or, UInt64.toBitVec_and]
  ext i
  rw [BitVec.getElem_or, BitVec.getElem_and]
  cases rights.toBitVec[i] <;> rfl

namespace UserRecord

def packed (user : UserRecord) : UserRecord := { user with groups := user.groups.packed }

def texts (user : UserRecord) : List Text :=
  [user.userpass, user.rootpath, user.tagline, user.flags] ++
    user.ipList.map fun ip => ip.regexp

/-- The texts are those of a record in memory. -/
structure InFields (user : UserRecord) : Prop where
  username : user.username.length ≤ hardUsernameLength
  userpass : user.userpass.length ≤ maxPassLength
  rootpath : user.rootpath.length ≤ maxPath
  tagline : user.tagline.length ≤ maxTaglineLength
  flags : user.flags.length ≤ maxFlagsNum
  terminated : ∀ text ∈ user.texts, '\x00' ∉ text

theorem mem_texts (user : UserRecord) : user.userpass ∈ user.texts ∧ user.rootpath ∈ user.texts ∧
    user.tagline ∈ user.texts ∧ user.flags ∈ user.texts ∧
    ∀ ip ∈ user.ipList, ip.regexp ∈ user.texts := by
  simp only [texts, cons_append, nil_append, mem_cons, List.mem_map, true_or, or_true, true_and]
  exact fun ip member => .inr (.inr (.inr (.inr ⟨ip, member, rfl⟩)))

end UserRecord

/-- The groups of a user are in the table. -/
def Registered (groups : GroupTable) (a : GroupArray) : Prop :=
  ∀ gid ∈ a.members, ∃ group, groups.getById gid.toNat = some group

/-- The groups of a user are in the table, under names without a character. -/
def Without (c : Char) (groups : GroupTable) (a : GroupArray) : Prop :=
  ∀ gid ∈ a.members, ∃ group, groups.getById gid.toNat = some group ∧ c ∉ group.groupname

theorem UserKey.text_word (key : UserKey) :
    key.text ≠ [] ∧ (∀ c ∈ key.text, isWord c = true) ∧ key.text.length ≤ 14 := by
  cases key <;> exact ⟨cons_ne_nil _ _, all_eq_true.mp rfl, by decide⟩

/-- The lines of a user that are not the groups. -/
structure UserRecord.Line (user : UserRecord) (line : UserKey × Text) : Prop where
  other : line.1 ≠ .groups
  text : Solid line.2 ∨ line.2 ∈ user.texts

/-- The lines behind the groups, of which only the addresses can fill a buffer. -/
structure UserRecord.ShortLine (user : UserRecord) (line : UserKey × Text) : Prop
    extends user.Line line where
  short : (∃ ip ∈ user.ipList, line.2 = ip.regexp) ∨ line.2.length ≤ 256

theorem UserRecord.Line.writable {user : UserRecord} {line : UserKey × Text}
    (known : user.Line line)
    (texts : ∀ text ∈ user.texts, '\n' ∉ text ∧ '\x00' ∉ text) :
    Writable (UserKey.named line) := by
  obtain ⟨named, word, _⟩ := line.1.text_word
  rcases known.text with solid | field
  · exact ⟨named, word, fun member => absurd (solid _ member).1 (by decide),
      fun member => (solid _ member).2.2 rfl⟩
  · exact ⟨named, word, (texts _ field).1, (texts _ field).2⟩

namespace UserRecord.ShortLine

variable {user : UserRecord} {key : UserKey}

theorem decimal (other : key ≠ .groups) {n : Nat} (small : n < 2 ^ 64) :
    user.ShortLine (key, CNumber.decimal n) := by
  have length : (CNumber.decimal n).length ≤ 20 :=
    toDigits_length 10 n 20 (by decide) (by omega)
  exact ⟨⟨other, .inl (solid_decimal n)⟩, .inr (length.trans (by decide))⟩

theorem signed (other : key ≠ .groups) {i : Int} (small : i.natAbs < 2 ^ 64) :
    user.ShortLine (key, CNumber.signedDecimal i) := by
  have length : (CNumber.decimal i.natAbs).length ≤ 20 :=
    toDigits_length 10 _ 20 (by decide) (by omega)
  refine ⟨⟨other, .inl (solid_signedDecimal i)⟩, .inr ?_⟩
  simp only [CNumber.signedDecimal]
  split
  · rw [length_cons]
    omega
  · omega

theorem optional {p : Prop} [Decidable p] {line : UserKey × Text} (short : user.ShortLine line) :
    ∀ other ∈ (if p then [] else [line]), user.ShortLine other := by
  split
  · exact forall_mem_nil _
  · exact forall_mem_singleton.mpr short

theorem number (other : key ≠ .groups) {n : Nat} (small : n < 2 ^ 64) :
    ∀ line ∈ numberDirective key n, user.ShortLine line :=
  optional (decimal other small)

theorem slots (other : key ≠ .groups) (n : UInt16) :
    ∀ line ∈ slotsDirective key n, user.ShortLine line := by
  have least := n.toInt16.le_toInt
  have most := n.toInt16.toInt_lt
  exact optional (signed other (by omega))

theorem field (other : key ≠ .groups) {text : Text} (inside : text ∈ user.texts) {n : Nat}
    (fits : text.length ≤ n) (short : n ≤ 256) :
    ∀ line ∈ textDirective key (text.take n), user.ShortLine line := by
  rw [take_of_length_le fits]
  exact optional ⟨⟨other, .inr inside⟩, .inr (fits.trans short)⟩

end UserRecord.ShortLine

section

variable {user : UserRecord}

theorem before_lines (fields : user.InFields) :
    ∀ line ∈ directivesBefore user, user.Line line ∧ line.1 ≠ .rights := by
  obtain ⟨pass, home, _⟩ := user.mem_texts
  rw [directivesBefore, take_of_length_le fields.userpass, take_of_length_le fields.rootpath]
  refine forall_mem_cons.mpr ⟨⟨⟨?_, .inr pass⟩, ?_⟩, forall_mem_cons.mpr ⟨⟨⟨?_, .inr home⟩, ?_⟩,
    forall_mem_cons.mpr ⟨⟨⟨?_, .inl (solid_decimal _)⟩, ?_⟩,
    forall_mem_cons.mpr ⟨⟨⟨?_, .inl (solid_decimal _)⟩, ?_⟩, forall_mem_nil _⟩⟩⟩⟩
  all_goals exact fun same => by cases same

theorem after_lines (fields : user.InFields) :
    ∀ line ∈ directivesAfter user, user.ShortLine line := by
  obtain ⟨_, _, tagline, flags, inTexts⟩ := user.mem_texts
  have rights : user.ShortLine (.rights, '0' :: 'x' :: CNumber.hex user.userperms.toNat) := by
    have length : (CNumber.hex user.userperms.toNat).length ≤ 16 :=
      toDigits_length 16 _ 16 (by decide) user.userperms.toNat_lt
    refine ⟨⟨fun same => (by cases same), .inl (solid_hex _)⟩, .inr ?_⟩
    simp only [length_cons]
    omega
  have ips : ∀ line ∈ ipDirectives UserKey.ipAllowed user.ipList, user.ShortLine line := by
    intro line member
    obtain ⟨ip, inside, rfl⟩ := mem_map.mp member
    exact ⟨⟨fun same => (by cases same), .inr (inTexts ip inside)⟩, .inl ⟨ip, inside, rfl⟩⟩
  have u32 : ∀ x : UInt32, x.toNat < 2 ^ 64 := fun x => x.toNat_lt.trans (by decide)
  have u16 : ∀ x : UInt16, x.toNat < 2 ^ 64 := fun x => x.toNat_lt.trans (by decide)
  have time : ∀ line ∈ (if user.lastLogin = 0 then []
      else [(UserKey.lastLogin, CNumber.signedDecimal user.lastLogin.toInt)]),
      user.ShortLine line := by
    have least := user.lastLogin.le_toInt
    have most := user.lastLogin.toInt_lt
    exact .optional (.signed (fun same => by cases same) (by omega))
  have total : ∀ line ∈ [(UserKey.credits, CNumber.decimal user.credits.toNat),
      (.bytesUlTotal, CNumber.decimal user.stats.bytesUlTotal.toNat),
      (.bytesDlTotal, CNumber.decimal user.stats.bytesDlTotal.toNat)], user.ShortLine line := by
    refine forall_mem_cons.mpr ⟨.decimal ?_ user.credits.toNat_lt,
      forall_mem_cons.mpr ⟨.decimal ?_ user.stats.bytesUlTotal.toNat_lt,
      forall_mem_cons.mpr ⟨.decimal ?_ user.stats.bytesDlTotal.toNat_lt,
      forall_mem_nil _⟩⟩⟩
    all_goals exact fun same => by cases same
  simp only [directivesAfter, forall_mem_append, and_assoc]
  refine ⟨forall_mem_singleton.mpr rights, .field ?_ tagline fields.tagline (by decide), ips,
    .number ?_ (u32 _), .number ?_ (u32 _), total, .number ?_ (UInt64.toNat_lt _),
    .number ?_ (UInt64.toNat_lt _), .number ?_ (u32 _), .number ?_ (u16 _), .number ?_ (u16 _),
    .number ?_ (u32 _), .field ?_ flags fields.flags (by decide), .slots ?_ _, .slots ?_ _, time⟩
  all_goals exact fun same => by cases same

theorem after_short (fields : user.InFields)
    (ips : ∀ ip ∈ user.ipList, ip.regexp.length < maxIpLength) {line : UserKey × Text}
    (member : line ∈ directivesAfter user) :
    (directive (UserKey.named line)).length < maxLine - 1 := by
  have key := line.1.text_word.2.2
  have text : line.2.length ≤ 256 := by
    rcases (after_lines fields line member).short with ⟨ip, inside, same⟩ | short
    · rw [same]
      exact (Nat.le_of_lt (ips ip inside)).trans (by decide)
    · exact short
  rw [length_directive, length_append, length_cons]
  simp only [UserKey.named, maxLine]
  omega

theorem elim_keeps {α β γ : Type} (get : β → γ) {o : Option α} {x : β} {f : α → β}
    (same : ∀ a, get (f a) = get x) : get (o.elim x f) = get x := by
  cases o with
  | none => rfl
  | some a => exact same a

theorem userEdit_groups (key : UserKey) (value : Text) :
    (userEdit key value user).groups = user.groups := by
  cases key <;> first | rfl | exact elim_keeps UserRecord.groups fun _ => rfl

theorem userEdit_userperms {key : UserKey} (other : key ≠ .rights) (value : Text) :
    (userEdit key value user).userperms = user.userperms := by
  cases key <;>
    first | rfl | exact absurd rfl other | exact elim_keeps UserRecord.userperms fun _ => rfl

theorem userEdit_ipList {key : UserKey} (other : key ≠ .ipAllowed) (value : Text) :
    (userEdit key value user).ipList = user.ipList := by
  cases key <;>
    first | rfl | exact absurd rfl other | exact elim_keeps UserRecord.ipList fun _ => rfl

variable {groups : GroupTable} {lines : List (UserKey × Text)}

variable {free : Nat} {a : GroupArray} {c : Char} {line : List (UserKey × Text)}

theorem userDirective_cases {varname value : Text} {record next : UserRecord}
    (done : userDirective groups varname value record = some next) :
    next = record ∨ (∃ after, next = { record with groups := after } ∧ after.members =
      record.groups.members ++ gidsNamed groups (allTokens [','] value)) ∨
      ∃ key, next = userEdit key value record := by
  unfold userDirective at done
  split at done
  · cases done
    exact .inl rfl
  · split at done
    · obtain ⟨after, pushed, rfl⟩ := map_eq_some_iff.mp done
      exact .inr (.inl ⟨after, rfl, foldlM_push _ pushed⟩)
    · cases done
      exact .inr (.inr ⟨_, rfl⟩)

variable {username file rest : Text} {back : UserRecord}

/-- The groups of a user who is read are those that were found, by names of one line. -/
theorem readSingleUser_names (read : readSingleUser groups free username file = some (back, rest)) :
    Without '\n' groups back.groups := by
  apply readRecord_keeps (by decide) (fun user : UserRecord => Without '\n' groups user.groups)
    ?_ file ?_ read
  · intro varname value record next single now done
    rcases userDirective_cases done with rfl | ⟨after, rfl, members⟩ | ⟨key, rfl⟩
    · exact now
    · intro gid member
      rw [members, mem_append] at member
      rcases member with old | new
      · exact now gid old
      obtain ⟨_, token, mapped⟩ := mem_filterMap.mp new
      obtain ⟨group, found, rfl⟩ := map_eq_some_iff.mp mapped
      obtain ⟨known, named⟩ := getById_gid found
      refine ⟨group, known, fun inside => single ?_⟩
      rw [named] at inside
      exact mem_of_mem_tokensOf _ token inside
    · rw [userEdit_groups]
      exact now
  · exact forall_mem_nil _

theorem readSingleUser_ips (read : readSingleUser groups free username file = some (back, rest)) :
    ∀ ip ∈ back.ipList, ip.regexp.length < maxIpLength := by
  apply readRecord_keeps (by decide) (fun user : UserRecord => ∀ ip ∈ user.ipList,
    ip.regexp.length < maxIpLength) ?_ file ?_ read
  · intro varname value record next _ now done
    rcases userDirective_cases done with rfl | ⟨after, rfl, _⟩ | ⟨key, rfl⟩
    · exact now
    · exact now
    by_cases same : key = .ipAllowed
    · rw [same, userEdit, ipAddCheck]
      split
      · exact now
      · rename_i fits
        have small := Nat.not_le.mp fun large => fits (.inr large)
        exact forall_mem_append.mpr ⟨now, forall_mem_singleton.mpr small⟩
    · rw [userEdit_ipList same]
      exact now
  · exact forall_mem_nil _

theorem recordText_eq (lines : List (UserKey × Text)) :
    recordText UserKey.text lines = (lines.map UserKey.named).flatMap directive ++ ['\n'] := by
  rw [flatMap_map]
  rfl

theorem groupsDirective_eq (registered : Registered groups a)
    (written : groupsDirective groups a = some line) :
    line = if a.num = 0 then [] else [(.groups, joinedNames groups a)] := by
  unfold groupsDirective at written
  split at written
  · rename_i without
    cases written
    rw [if_pos]
    by_contra some
    obtain ⟨_, known⟩ := registered _ (first_mem_members some)
    rw [known] at without
    rcases without with none | none
    · exact some none
    · cases none
  · rename_i with_
    split at written
    · cases written
    · cases written
      rw [if_neg fun none => with_ (.inl none)]

theorem mem_groupsLine (registered : Registered groups a)
    (written : groupsDirective groups a = some line) {named : UserKey × Text}
    (member : named ∈ line) : named = (.groups, joinedNames groups a) := by
  rw [groupsDirective_eq registered written] at member
  split at member
  · cases member
  · exact mem_singleton.mp member

theorem foldlM_groupsLine (registered : Registered groups a)
    (written : groupsDirective groups a = some line) (user : UserRecord) :
    (line.map UserKey.named).foldlM (assign (userDirective groups)) user =
      ((rereadGids groups (joinedNames groups a)).foldlM push user.groups).map
        fun after => { user with groups := after } := by
  rw [groupsDirective_eq registered written]
  split
  · rename_i none
    have members : a.members = [] := by simp [members, none]
    rw [joinedNames, members]
    rfl
  · simp only [map_cons, map_nil, foldlM_cons, assign_groups, foldlM_nil, bind_pure]
    rfl

theorem readSingleUser_fits (fields : user.InFields) (registered : Registered groups user.groups)
    (written : userDirectives groups user = some lines)
    (writable : ∀ line ∈ lines, Writable (UserKey.named line))
    (room : ∀ line ∈ lines, (directive (UserKey.named line)).length < maxLine - 1) (free : Nat)
    (file : Text) :
    readSingleUser groups free user.username (recordText UserKey.text lines ++ file) =
      ((rereadGids groups (joinedNames groups user.groups)).foldlM push .empty).map
        fun after => (user.reread after, file) := by
  obtain ⟨line, groupsLine, rfl⟩ := map_eq_some_iff.mp written
  have fits : ∀ named ∈ (directivesBefore user ++ line ++ directivesAfter user).map UserKey.named,
      Writable named ∧ (directive named).length ≤ maxLine - 2 := by
    intro named member
    obtain ⟨line, inside, rfl⟩ := mem_map.mp member
    exact ⟨writable line inside, le_sub_one_of_lt (room line inside)⟩
  rw [readSingleUser, recordText_eq, append_assoc, readRecord_directives fits, map_append,
    map_append, foldlM_append, foldlM_append,
    foldlM_assign groups fun line member => (before_lines fields line member).1.other]
  simp only [bind_eq_bind, bind_some, foldl_before,
    foldlM_groupsLine registered groupsLine,
    foldlM_assign groups fun line member => (after_lines fields line member).other]
  have begun : user.begun.groups = .empty := rfl
  rw [begun]
  cases (rereadGids groups (joinedNames groups user.groups)).foldlM push .empty with
  | none => rfl
  | some after =>
    simp [foldl_after, readRecord_end (by decide : 0 < maxLine - 2)]

theorem assign_userperms {line : UserKey × Text} (other : line.1 ≠ .rights) {after : UserRecord}
    (done : assign (userDirective groups) user (UserKey.named line) = some after) :
    after.userperms = user.userperms := by
  obtain ⟨key, _⟩ := line
  by_cases same : key = .groups
  · rw [same, assign_groups] at done
    obtain ⟨_, _, rfl⟩ := map_eq_some_iff.mp done
    rfl
  rw [assign_userDirective groups user same] at done
  cases done
  rw [rereadLine]
  split
  · rfl
  · exact userEdit_userperms other _

/-- A line that leaves no room for its end in front of the rights: they are not read. -/
theorem readSingleUser_cut {front behind : List (UserKey × Text)}
    (writable : ∀ line ∈ front, Writable (UserKey.named line))
    (short : ∀ line ∈ front, (directive (UserKey.named line)).length < maxLine)
    (noRights : ∀ line ∈ front, line.1 ≠ .rights)
    (long : ∃ line ∈ front, ¬(directive (UserKey.named line)).length < maxLine - 1) {free : Nat}
    (read : readSingleUser groups free username
      (recordText UserKey.text (front ++ behind) ++ file) = some (back, rest)) :
    back.userperms = 0 := by
  obtain ⟨line, found⟩ := isSome_iff_exists.mp
    (find?_isSome.mpr (long.imp fun line ⟨member, above⟩ => ⟨member, decide_eq_true above⟩))
  obtain ⟨above, before, after, rfl, fit⟩ := find?_eq_some_iff_append.mp found
  have inFront : line ∈ before ++ line :: after := mem_append_right _ mem_cons_self
  have fits : ∀ named ∈ before.map UserKey.named,
      Writable named ∧ (directive named).length ≤ maxLine - 2 := by
    intro named member
    obtain ⟨other, inside, rfl⟩ := mem_map.mp member
    have small := fit other inside
    simp only [decide_not, Bool.not_not, decide_eq_true_eq] at small
    exact ⟨writable other (mem_append_left _ inside), le_sub_one_of_lt small⟩
  have length : (directive (UserKey.named line)).length = maxLine - 2 + 1 := by
    have most := short line inFront
    have least := of_decide_eq_true above
    unfold maxLine at most least ⊢
    omega
  rw [readSingleUser, recordText_eq, map_append, map_append, map_cons,
    flatMap_append, flatMap_append, flatMap_cons, append_assoc,
    append_assoc, append_assoc, append_assoc, readRecord_directives fits] at read
  obtain ⟨between, folded, cut⟩ := bind_eq_some_iff.mp read
  rw [readRecord_cut (writable line inFront) length] at cut
  obtain ⟨_, assigned, same⟩ := map_eq_some_iff.mp cut
  have kept : between.userperms = 0 := by
    apply Runs.foldlM_keeps (fun user : UserRecord => user.userperms = 0) _ ?_ rfl folded
    intro now named member zero after done
    obtain ⟨other, inside, rfl⟩ := mem_map.mp member
    rw [assign_userperms (noRights other (mem_append_left _ inside)) done]
    exact zero
  rw [← (Prod.mk.inj same).1, assign_userperms (noRights line inFront) assigned]
  exact kept

/-- The users whose records are read back: the texts end inside of their fields and not
in `\r`, the addresses are such that `ip_add_check` takes them, the last login is not
in front of 1970, every line leaves room for its end, and the groups are found by their
names in the joined line. -/
structure UserRecord.Restorable (user : UserRecord) (groups : GroupTable)
    (lines : List (UserKey × Text)) : Prop where
  terminated : user.username.length < hardUsernameLength ∧
    user.userpass.length < maxPassLength ∧ user.flags.length < maxFlagsNum
  ends : ∀ text ∈ user.texts, text.getLast? ≠ some '\r'
  ips : ∀ ip ∈ user.ipList, ip.regexp ≠ [] ∧ ip.regexp.length < maxIpLength
  time : 0 ≤ user.lastLogin.toInt
  room : ∀ line ∈ lines, (directive (UserKey.named line)).length < maxLine - 1
  names : ∀ gid ∈ user.groups.members, ∃ group, groups.getById gid.toNat = some group ∧
    group.groupname ≠ [] ∧ '\n' ∉ group.groupname ∧ groups.named group.groupname = some group
  joined : (joinedNames groups user.groups).getLast? ≠ some '\r' ∧
    ((∀ c, (joinedNames groups user.groups).head? = some c → isBlank c = false) ∨
      (joinedNames groups user.groups).length = 1)

section

variable (fields : user.InFields)
  (plain : ∀ text ∈ user.texts, '\n' ∉ text ∧ ∀ c, text.head? = some c → isBlank c = false)
  (home : user.rootpath.getLast? = some '/' → user.rootpath = ['/'])
  (rights : user.userperms &&& rightCwd = rightCwd)
  (allowed : ∀ ip ∈ user.ipList, ip.isAllowed = true)

include fields plain home rights allowed in
/-- The fields that are read back, one by one. -/
theorem reread_eq_packed_iff (after : GroupArray) : user.reread after = user.packed ↔
      (user.username.length < hardUsernameLength ∧ user.userpass.length < maxPassLength ∧
        user.flags.length < maxFlagsNum) ∧
      (∀ text ∈ user.texts, text.getLast? ≠ some '\r') ∧
      (∀ ip ∈ user.ipList, ip.regexp ≠ [] ∧ ip.regexp.length < maxIpLength) ∧
      0 ≤ user.lastLogin.toInt ∧ user.rootpath.length ≤ maxPath - 1 ∧
      after = user.groups.packed := by
  obtain ⟨pass, root, tagline, flags, inTexts⟩ := user.mem_texts
  have kept : ∀ text ∈ user.texts, readBack text = text ↔ text.getLast? ≠ some '\r' := by
    intro text member
    rw [readBack_eq_self_iff (fields.terminated text member) (plain text member).1]
    exact and_iff_left (.inl (plain text member).2)
  have passIff := take_readBack_iff (fields.terminated _ pass) (maxPassLength - 1)
  have homeIff := homeArg_readBack_iff (fields.terminated _ root) home
  have taglineIff := take_readBack_iff (fields.terminated _ tagline) maxTaglineLength
  have flagsIff := flagsArg_readBack_iff user.flags
  have ipsIff := rereadIps_iff allowed
  have nameIff : user.username.take (hardUsernameLength - 1) = user.username ↔
      user.username.length < hardUsernameLength := by
    rw [take_eq_self_iff]
    exact Nat.le_sub_one_iff_lt (by decide)
  simp only [UserRecord.reread, UserRecord.packed, UserRecord.mk.injEq, true_and,
    take_of_length_le fields.userpass, take_of_length_le fields.rootpath,
    take_of_length_le fields.tagline, take_of_length_le fields.flags, nameIff, passIff,
    homeIff, taglineIff, flagsIff, ipsIff, rereadTime_iff, or_rightCwd rights, kept _ pass,
    kept _ root, kept _ tagline, kept _ flags, ipFits, decide_eq_true_eq]
  have textsIff : (∀ text ∈ user.texts, text.getLast? ≠ some '\r') ↔
      user.userpass.getLast? ≠ some '\r' ∧ user.rootpath.getLast? ≠ some '\r' ∧
      user.tagline.getLast? ≠ some '\r' ∧ user.flags.getLast? ≠ some '\r' ∧
      ∀ ip ∈ user.ipList, ip.regexp.getLast? ≠ some '\r' := by
    simp [UserRecord.texts]
  rw [textsIff]
  constructor
  · rintro ⟨name, ⟨p, passFits⟩, ⟨h, homeFits⟩, ⟨t, _⟩, same, ⟨f, flagsFits⟩, ips, time⟩
    refine ⟨⟨name, lt_of_le_sub_one (by decide) passFits, flagsFits⟩, ⟨p, h, t, f, ?_⟩, ?_,
      time, homeFits, same⟩
    · exact fun ip member => (kept _ (inTexts ip member)).mp (ips ip member).1
    · exact fun ip member => (ips ip member).2
  · rintro ⟨⟨name, passFits, flagsFits⟩, ⟨p, h, t, f, ends⟩, ips, time, homeFits, same⟩
    refine ⟨name, ⟨p, le_sub_one_of_lt passFits⟩, ⟨h, homeFits⟩, ⟨t, fields.tagline⟩, same,
      ⟨f, flagsFits⟩, fun ip member => ⟨?_, ips ip member⟩, time⟩
    exact (kept _ (inTexts ip member)).mpr (ends ip member)

theorem mem_intercalate {d : Char} {words : List Text} (member : c ∈ [d].intercalate words) :
    c = d ∨ ∃ word ∈ words, c ∈ word := by
  induction words with
  | nil => cases member
  | cons word words ih =>
    cases words with
    | nil =>
      rw [intercalate_singleton] at member
      exact .inr ⟨word, mem_cons_self, member⟩
    | cons next words =>
      rw [intercalate_cons_cons, mem_append, mem_append,
        mem_singleton] at member
      rcases member with (here | same) | later
      · exact .inr ⟨word, mem_cons_self, here⟩
      · exact .inl same
      · rcases ih later with same | ⟨other, inside, char⟩
        · exact .inl same
        · exact .inr ⟨other, mem_cons_of_mem word inside, char⟩

theorem Without.groupNames (names : Without c groups a) :
    ∀ name ∈ groupNames groups a.members, c ∉ name := by
  intro name member
  obtain ⟨gid, inside, rfl⟩ := mem_map.mp member
  obtain ⟨_, found, absent⟩ := names gid inside
  rw [found]
  exact absent

theorem Without.joinedNames (names : Without c groups a) (other : c ≠ ',') :
    c ∉ joinedNames groups a := by
  intro member
  rcases mem_intercalate member with same | ⟨name, inside, char⟩
  · exact other same
  · exact names.groupNames name inside char

theorem lines_writable (fields : user.InFields) (texts : ∀ text ∈ user.texts, '\n' ∉ text)
    (registered : Registered groups user.groups)
    (single : '\n' ∉ joinedNames groups user.groups)
    (terminated : '\x00' ∉ joinedNames groups user.groups)
    (written : userDirectives groups user = some lines) :
    ∀ line ∈ lines, Writable (UserKey.named line) := by
  have clean : ∀ text ∈ user.texts, '\n' ∉ text ∧ '\x00' ∉ text :=
    fun text member => ⟨texts text member, fields.terminated text member⟩
  obtain ⟨_, made, rfl⟩ := map_eq_some_iff.mp written
  intro line member
  rw [mem_append, mem_append] at member
  rcases member with (before | inside) | after
  · exact (before_lines fields line before).1.writable clean
  · rw [mem_groupsLine registered made inside]
    obtain ⟨named, word, _⟩ := UserKey.groups.text_word
    exact ⟨named, word, single, terminated⟩
  · exact (after_lines fields line after).writable clean

/-- A user who is read back with every field has lines that leave room for their end. -/
theorem room_of_read (fields : user.InFields) (rights : user.userperms &&& rightCwd = rightCwd)
    (registered : Registered groups user.groups)
    (written : userDirectives groups user = some lines)
    (writable : ∀ line ∈ lines, Writable (UserKey.named line))
    (short : ∀ line ∈ lines, (directive (UserKey.named line)).length < maxLine) {free : Nat}
    (read : readSingleUser groups free user.username (recordText UserKey.text lines ++ file) =
      some (user.packed, rest)) :
    ∀ line ∈ lines, (directive (UserKey.named line)).length < maxLine - 1 := by
  obtain ⟨groupsLine, made, rfl⟩ := map_eq_some_iff.mp written
  have ips := readSingleUser_ips read
  have front : ∀ line ∈ directivesBefore user ++ groupsLine, line.1 ≠ .rights := by
    intro line member
    rcases mem_append.mp member with before | inside
    · exact (before_lines fields line before).2
    · rw [mem_groupsLine registered made inside]
      exact fun same => by cases same
  intro line member
  rcases mem_append.mp member with inFront | after
  · by_contra long
    have zero := readSingleUser_cut (fun other inside => writable other (mem_append_left _ inside))
      (fun other inside => short other (mem_append_left _ inside)) front
      ⟨line, inFront, long⟩ read
    have perms : user.userperms = 0 := zero
    rw [perms] at rights
    revert rights
    decide
  · exact after_short fields ips after

include fields plain home rights allowed in
/-- The reader stops behind a record that is restorable. -/
theorem readSingleUser_restorable (few : user.groups.num ≤ maxGroupsPerUser)
    (known : Registered groups user.groups)
    (terminated : '\x00' ∉ joinedNames groups user.groups)
    (commas : ∀ name ∈ groupNames groups user.groups.members, ',' ∉ name)
    (written : userDirectives groups user = some lines)
    (restorable : user.Restorable groups lines) (free : Nat) (file : Text) :
    readSingleUser groups free user.username (recordText UserKey.text lines ++ file) =
      some (user.packed, file) := by
  have texts : ∀ text ∈ user.texts, '\n' ∉ text := fun text member => (plain text member).1
  have names : Without '\n' groups user.groups := fun gid member =>
    (restorable.names gid member).imp fun group facts => ⟨facts.1, facts.2.2.1⟩
  have single := names.joinedNames (by decide)
  have gids : rereadGids groups (joinedNames groups user.groups) = user.groups.members := by
    apply (rereadGids_eq_iff commas terminated).mpr
    refine ⟨(readBack_eq_self_iff terminated single).mpr restorable.joined, fun gid member => ?_⟩
    exact (restorable.names gid member).imp fun group facts => ⟨facts.1, facts.2.1, facts.2.2.2⟩
  have homeFits : user.rootpath.length ≤ maxPath - 1 := by
    obtain ⟨_, _, rfl⟩ := map_eq_some_iff.mp written
    have line := restorable.room (.home, user.rootpath.take maxPath) (by simp [directivesBefore])
    rw [take_of_length_le fields.rootpath, length_directive, length_append,
      length_cons] at line
    simp only [UserKey.named, maxLine, maxPath] at line ⊢
    omega
  rw [readSingleUser_fits fields known written
    (lines_writable fields texts known single terminated written) restorable.room, gids,
    foldlM_push_empty few, map_some,
    (reread_eq_packed_iff fields plain home rights allowed _).mpr
      ⟨restorable.terminated, restorable.ends, restorable.ips, restorable.time, homeFits, rfl⟩]

end

/-- A user is read back with every field exactly if the record is restorable; the reader
then stops behind it. -/
theorem user_round_trip_iff (groups : GroupTable) (user : UserRecord)
    (lines : List (UserKey × Text)) (free : Nat) (file : Text) (fields : user.InFields)
    (plain : ∀ text ∈ user.texts, '\n' ∉ text ∧ ∀ c, text.head? = some c → isBlank c = false)
    (home : user.rootpath.getLast? = some '/' → user.rootpath = ['/'])
    (rights : user.userperms &&& rightCwd = rightCwd)
    (few : user.groups.num ≤ maxGroupsPerUser)
    (registered : ∀ gid ∈ user.groups.members, ∃ group, groups.getById gid.toNat = some group ∧
      ',' ∉ group.groupname ∧ '\x00' ∉ group.groupname)
    (allowed : ∀ ip ∈ user.ipList, ip.isAllowed = true)
    (written : userDirectives groups user = some lines)
    (short : ∀ line ∈ lines, (directive (UserKey.named line)).length < maxLine) :
    writeSingleUser groups user = some
        (directive ("name".toList, user.username) ++ recordText UserKey.text lines) ∧
      ((∃ rest, readSingleUser groups free user.username
          (recordText UserKey.text lines ++ file) = some (user.packed, rest)) ↔
        user.Restorable groups lines) ∧
      (user.Restorable groups lines → readSingleUser groups free user.username
          (recordText UserKey.text lines ++ file) = some (user.packed, file)) := by
  have known : Registered groups user.groups :=
    fun gid member => (registered gid member).imp fun group facts => facts.1
  have texts : ∀ text ∈ user.texts, '\n' ∉ text := fun text member => (plain text member).1
  have nulls : Without '\x00' groups user.groups := fun gid member =>
    (registered gid member).imp fun group facts => ⟨facts.1, facts.2.2⟩
  have commas : Without ',' groups user.groups := fun gid member =>
    (registered gid member).imp fun group facts => ⟨facts.1, facts.2.1⟩
  have terminated := nulls.joinedNames (by decide)
  have fieldsIff := reread_eq_packed_iff fields plain home rights allowed
  have sufficient : user.Restorable groups lines → readSingleUser groups free user.username
      (recordText UserKey.text lines ++ file) = some (user.packed, file) := fun restorable =>
    readSingleUser_restorable fields plain home rights allowed few known terminated
      commas.groupNames written restorable free file
  refine ⟨?_, ⟨?_, fun restorable => ⟨file, sufficient restorable⟩⟩, sufficient⟩
  · rw [writeSingleUser, written, map_some, take_of_length_le fields.username]
  rintro ⟨rest, read⟩
  have names : Without '\n' groups user.groups := by
    have all := readSingleUser_names read
    rw [UserRecord.packed, Without, members_packed few] at all
    exact all
  have single := names.joinedNames (by decide)
  have writable := lines_writable fields texts known single terminated written
  have room := room_of_read fields rights known written writable short read
  rw [readSingleUser_fits fields known written writable room] at read
  obtain ⟨after, pushed, same⟩ := map_eq_some_iff.mp read
  obtain ⟨ends, noReturn, ips, time, _, packed⟩ := (fieldsIff after).mp (Prod.mk.inj same).1
  have gids : rereadGids groups (joinedNames groups user.groups) = user.groups.members := by
    have members := foldlM_push _ pushed
    have none : empty.members = [] := rfl
    rw [packed, members_packed few, none] at members
    exact members.symm
  obtain ⟨kept, found⟩ := (rereadGids_eq_iff commas.groupNames terminated).mp gids
  refine ⟨ends, noReturn, ips, time, room, fun gid member => ?_,
    (readBack_eq_self_iff terminated single).mp kept⟩
  obtain ⟨group, here, some, named⟩ := found gid member
  obtain ⟨_, there, line⟩ := names gid member
  rw [here] at there
  cases there
  exact ⟨group, here, some, line, named⟩

end

def staffTable : GroupTable :=
  Table.allocated.put { gid := 1, groupname := "staff".toList }

def staffUser : UserRecord :=
  { uid := 5, username := "ann".toList, userpass := "xyz".toList, rootpath := "/home".toList,
    creator := 0, tagline := "hello world".toList, groups := .single 1, userperms := 0x10007,
    flags := ['G'], ipList := [⟨"ann@10.*".toList, true⟩, ⟨"*@*".toList, true⟩],
    stats := { bytesUlTotal := 0xffffffffffffffff, filesUlTotal := 3 }, credits := 7, ratio := 3,
    userSlots := 40000, lastLogin := 1200000000 }

def staffLines : List (UserKey × Text) := (userDirectives staffTable staffUser).getD []

theorem staffUser_restorable : staffUser.Restorable staffTable staffLines where
  terminated := by decide
  ends := by decide
  ips := by decide
  time := by decide
  room := by decide
  names := by
    intro gid member
    rw [mem_singleton.mp (member : gid ∈ [1])]
    exact ⟨{ gid := 1, groupname := "staff".toList }, by decide, by decide, by decide, by decide⟩
  joined := by
    refine ⟨by decide, .inl fun c first => ?_⟩
    cases first
    decide

theorem staffUser_inFields : staffUser.InFields :=
  ⟨by decide, by decide, by decide, by decide, by decide, by decide⟩

theorem staffUser_plain : ∀ text ∈ staffUser.texts,
    '\n' ∉ text ∧ ∀ c, text.head? = some c → isBlank c = false := by
  have heads : ∀ text ∈ staffUser.texts, text.head?.all (fun c => isBlank c = false) = true := by
    decide
  have single : ∀ text ∈ staffUser.texts, '\n' ∉ text := by decide
  intro text member
  refine ⟨single text member, fun c first => ?_⟩
  exact of_decide_eq_true ((all_eq_true _ _).mp (heads text member) c first)

theorem staffUser_registered : ∀ gid ∈ staffUser.groups.members,
    ∃ group, staffTable.getById gid.toNat = some group ∧
      ',' ∉ group.groupname ∧ '\x00' ∉ group.groupname := by
  intro gid member
  rw [mem_singleton.mp (member : gid ∈ [1])]
  exact ⟨{ gid := 1, groupname := "staff".toList }, by decide, by decide, by decide⟩

theorem staffLines_written : userDirectives staffTable staffUser = some staffLines := by
  decide

theorem user_round_trip_staff :
    readSingleUser staffTable 0 "ann".toList
        (recordText UserKey.text staffLines ++ "name=bob".toList) =
      some (staffUser.packed, "name=bob".toList) :=
  (user_round_trip_iff staffTable staffUser staffLines 0 "name=bob".toList staffUser_inFields
    staffUser_plain (by decide) (by decide) (by decide)
    staffUser_registered (by decide) staffLines_written
    (by decide)).2.2 staffUser_restorable

def earlyUser : UserRecord :=
  { uid := 5, username := "ann".toList, rootpath := "/".toList, userperms := 0x10000,
    lastLogin := -1 }

def longHomeUser : UserRecord :=
  { uid := 5, username := "ann".toList, rootpath := '/' :: replicate 1016 'a',
    userperms := 0x10000 }

/-- The last login is lost, and so is everything behind a line of 1023 characters, which
fits into the buffer. -/
theorem user_round_trip_broken :
    ((userDirectives staffTable earlyUser).bind fun lines =>
      (readSingleUser staffTable 0 "ann".toList (recordText UserKey.text lines)).map
        fun back => back.1.lastLogin) = some 0 ∧ earlyUser.lastLogin = -1 ∧
    ((userDirectives staffTable longHomeUser).bind fun lines =>
      (readSingleUser staffTable 0 "ann".toList (recordText UserKey.text lines)).map
        fun back => (lines.all fun line => (directive (UserKey.named line)).length < maxLine,
          back.1.uid, back.1.userperms)) = some (true, 0, 0) := by
  refine ⟨?_, ?_, ?_⟩
  · decide +kernel
  · decide +kernel
  · decide +kernel

end Wzdftpd
