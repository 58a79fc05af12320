import Wzdftpd.PermLine

/- What a permission line means for a user. -/
namespace Wzdftpd

open CommandEntry List PermTarget

section Checking

variable (getGroupByID : Nat → Option Group) (user : User)

def isNamed (name : Text) (gid : Nat) : Bool :=
  (getGroupByID gid).any fun group => sameLetters name group.groupname

def PermTarget.covers : PermTarget → Bool
  | any => true
  | .user name => sameLetters name user.username
  | group name => user.groups.any (isNamed getGroupByID name)
  | flag letter => user.has letter

/-- The first token that matches the user is there and is not negated. -/
def firstGrants (tokens : List PermToken) : Bool :=
  (tokens.find? fun token => token.who.covers getGroupByID user).any fun token => !token.negated

/-- The search for a group of this name meets no group number without a group. -/
def PermTarget.resolved : PermTarget → Bool
  | group name => (user.groups.takeWhile fun gid => !isNamed getGroupByID name gid).all
      fun gid => (getGroupByID gid).isSome
  | _ => true

/-- All tokens up to the first match can be tested. -/
def testable : List PermToken → Bool
  | [] => true
  | token :: tokens => token.who.resolved getGroupByID user &&
      (token.who.covers getGroupByID user || testable tokens)

def CommandEntry.token (entry : CommandEntry) : PermToken :=
  let (negated, target) := splitSign entry.target
  if target.head? = some '*' then ⟨negated, .any⟩
  else
    match entry.cp with
    | .user => ⟨negated, .user target⟩
    | .group => ⟨negated, .group target⟩
    | .flag => ⟨negated, (target.head?.map flag).getD .any⟩

theorem groupHit_eq (name : Text) (gids : List Nat) :
    groupHit getGroupByID name gids =
      if (gids.takeWhile fun gid => !isNamed getGroupByID name gid).all
          (fun gid => (getGroupByID gid).isSome)
      then some (gids.any (isNamed getGroupByID name)) else none := by
  induction gids with
  | nil => rfl
  | cons gid gids ih =>
    rw [groupHit]
    cases known : getGroupByID gid with
    | none =>
      have unnamed : isNamed getGroupByID name gid = false := by simp [isNamed, known]
      simp [unnamed, known]
    | some group =>
      have named : isNamed getGroupByID name gid = sameLetters name group.groupname := by
        simp [isNamed, known]
      cases hit : sameLetters name group.groupname with
      | true => simp [named, hit]
      | false => simp [named, hit, known, ih]

theorem entryHit_eq (entry : CommandEntry) :
    entryHit getGroupByID (some user) entry.cp (splitSign entry.target).2 =
      if entry.token.who.resolved getGroupByID user
      then some (entry.token.who.covers getGroupByID user) else none := by
  unfold entryHit token
  by_cases star : (splitSign entry.target).2.head? = some '*'
  · simp [star, resolved, covers]
  · simp only [star]
    cases entry.cp with
    | user => rfl
    | group => exact groupHit_eq getGroupByID _ _
    | flag => cases (splitSign entry.target).2.head? <;> rfl

theorem negated_token (entry : CommandEntry) :
    entry.token.negated = (splitSign entry.target).1 := by
  unfold token
  simp only
  split
  · rfl
  · cases entry.cp <;> rfl

theorem checkEntries_eq (entries : List CommandEntry) :
    checkEntries getGroupByID (some user) entries =
      if testable getGroupByID user (entries.map token)
      then some (if firstGrants getGroupByID user (entries.map token) then 0 else 1)
      else none := by
  induction entries with
  | nil => rfl
  | cons entry entries ih =>
    simp only [checkEntries, entryHit_eq, map_cons, testable, firstGrants]
    rw [← negated_token]
    cases entry.token.who.resolved getGroupByID user with
    | false => simp
    | true =>
      cases covered : entry.token.who.covers getGroupByID user with
      | true =>
        rw [find?_cons, covered]
        cases negated : entry.token.negated <;> simp [negated]
      | false =>
        rw [find?_cons, covered]
        exact ih

/-- The tokens of a line as the server tests them, after it has stored them. -/
def testedTokens (tokens : List PermToken) : List PermToken :=
  (FirstMatch.keepFirst (fun s t => sameEntry s.entry t.entry) tokens).map (·.entry.token)

/-- Stored in an empty list, the line is checked by its first token that matches the user. -/
def MeansFirstMatch (permname line : Text) (tokens : List PermToken) : Prop :=
  ∃ perm, permAddPerm permname line [] = some (0, [perm]) ∧
    permCheckPerm getGroupByID (some perm) (some user) =
      some (if firstGrants getGroupByID user tokens then 0 else 1)

/-- The line means first match if the tokens that are tested have no unknown group in front
of their first match and give the answer of the line. -/
theorem meansFirstMatch_iff {permname line : Text} {tokens : List PermToken}
    (named : permname ≠ []) (fits : permname.length < 256) (laid : Laid tokens line)
    (wellFormed : ∀ token ∈ tokens, token.WellFormed) (nonempty : line ≠ [])
    (short : line.length < bufferLen) :
    MeansFirstMatch getGroupByID user permname line tokens ↔
      testable getGroupByID user (testedTokens tokens) = true ∧
      firstGrants getGroupByID user (testedTokens tokens) =
        firstGrants getGroupByID user tokens := by
  have added := permAddPerm_laid named fits laid wellFormed nonempty short
  have tested : ∀ kept : List PermToken,
      (kept.map PermToken.entry).map token = kept.map (·.entry.token) := by
    intro kept
    rw [map_map]
    rfl
  simp only [MeansFirstMatch, added, permCheckPerm, Option.some.injEq, Prod.mk.injEq, true_and,
    cons.injEq, and_true, exists_eq_left', checkEntries_eq, tested]
  rw [← testedTokens]
  cases testable getGroupByID user (testedTokens tokens) with
  | false => simp
  | true =>
    cases firstGrants getGroupByID user (testedTokens tokens) <;>
      cases firstGrants getGroupByID user tokens <;> simp

end Checking

section Plain

/-- The name does not start like a sign or a star. -/
def PermToken.Plain (token : PermToken) : Prop :=
  ∀ c, token.who.name.head? = some c → c ≠ '!' ∧ c ≠ '*'

/-- Flags of the same sign that differ only in the case of the letter. -/
def otherCase (s t : PermToken) : Bool :=
  match s.who, t.who with
  | .flag a, .flag b => s.negated = t.negated ∧ a.toLower = b.toLower ∧ a ≠ b
  | _, _ => false

theorem eq_of_toLower_eq {c d : Char} (small : d.toNat < 97) (lower : c.toLower = d) : c = d := by
  unfold Char.toLower at lower
  split at lower
  · rename_i upper
    subst lower
    have least : (65 : UInt32) ≤ c.val := upper.1
    have most : c.val ≤ (90 : UInt32) := upper.2
    have value : (c.val + 32).toNat < 97 := small
    rw [UInt32.le_iff_toNat_le] at least most
    simp at least most value
    omega
  · exact lower

theorem head?_lower_eq_some {text : Text} {d : Char} (small : d.toNat < 97)
    (fixed : d.toLower = d) :
    (text.map Char.toLower).head? = some d ↔ text.head? = some d := by
  rw [head?_map, Option.map_eq_some_iff]
  constructor
  · rintro ⟨_, head, lower⟩
    rw [head, eq_of_toLower_eq small lower]
  · intro head
    exact ⟨d, head, fixed⟩

theorem splitSign_lower (target : Text) :
    splitSign (target.map Char.toLower) =
      ((splitSign target).1, (splitSign target).2.map Char.toLower) := by
  unfold splitSign
  by_cases signed : target.head? = some '!'
  · simp [signed, (head?_lower_eq_some (by decide) rfl).mpr signed]
  · rw [if_neg signed, if_neg (mt (head?_lower_eq_some (by decide) rfl).mp signed)]

variable {token s t : PermToken}

theorem PermToken.Plain.splitSign (plain : token.Plain) :
    splitSign token.entry.target = (token.negated, token.who.stored) := by
  have unsigned : token.who.stored.head? ≠ some '!' := by
    intro signed
    cases who : token.who with
    | any => exact absurd (who ▸ signed) (by decide)
    | user name | group name | flag letter =>
      rw [who] at signed
      exact (plain '!' (who ▸ signed)).1 rfl
  unfold Wzdftpd.splitSign
  cases negated : token.negated with
  | true => simp [entry, sign, negated]
  | false => simp [entry, sign, negated, unsigned]

theorem PermToken.Plain.stored_star (plain : token.Plain) :
    token.who.stored.head? = some '*' ↔ token.who = .any := by
  cases who : token.who with
  | any => simp [stored]
  | user name | group name | flag letter =>
    constructor
    · intro star
      exact absurd rfl (plain '*' (who ▸ star)).2
    · intro any
      cases any

theorem PermToken.Plain.entry_token (plain : token.Plain) : token.entry.token = token := by
  unfold CommandEntry.token
  rw [plain.splitSign]
  simp only [plain.stored_star]
  obtain ⟨_, who⟩ := token
  cases who <;> simp [entry, kind, stored, name]

theorem same_of_sameEntry (plainS : s.Plain) (plainT : t.Plain)
    (same : sameEntry s.entry t.entry = true) :
    s.negated = t.negated ∧ sameLetters s.who.stored t.who.stored = true ∧
      s.who.kind = t.who.kind := by
  have both : sameLetters s.entry.target t.entry.target = true ∧ s.entry.cp = t.entry.cp :=
    of_decide_eq_true same
  have signs := congrArg splitSign (of_decide_eq_true both.1)
  rw [splitSign_lower, splitSign_lower, plainS.splitSign, plainT.splitSign, Prod.mk.injEq] at signs
  exact ⟨signs.1, decide_eq_true signs.2, both.2⟩

theorem sameLetters_congr {first second : Text} (same : sameLetters first second = true)
    (other : Text) : sameLetters first other = sameLetters second other := by
  unfold sameLetters
  rw [of_decide_eq_true same]

variable (getGroupByID : Nat → Option Group) (user : User)

/-- Entries that are taken for the same are about the same users, apart from flags. -/
theorem covers_congr (plainS : s.Plain) (plainT : t.Plain) (same : sameEntry s.entry t.entry = true)
    (apart : otherCase s t = false) :
    s.who.covers getGroupByID user = t.who.covers getGroupByID user := by
  obtain ⟨sign, letters, kind⟩ := same_of_sameEntry plainS plainT same
  have star : s.who = .any ↔ t.who = .any := by
    rw [← plainS.stored_star, ← plainT.stored_star,
      ← head?_lower_eq_some (by decide) (by decide : '*'.toLower = '*'),
      of_decide_eq_true letters, head?_lower_eq_some (by decide) (by decide)]
  cases whoS : s.who with
  | any => rw [star.mp whoS]
  | user name =>
    cases whoT : t.who with
    | any => rw [star.mpr whoT] at whoS; exact nomatch whoS
    | user other =>
      rw [whoS, whoT] at letters
      exact sameLetters_congr letters user.username
    | group _ | flag _ => rw [whoS, whoT] at kind; exact nomatch kind
  | group name =>
    cases whoT : t.who with
    | group other =>
      rw [whoS, whoT] at letters
      have names : sameLetters name other = true := letters
      have alike : isNamed getGroupByID name = isNamed getGroupByID other := by
        funext gid
        unfold isNamed
        simp only [sameLetters_congr names]
      simp only [covers, alike]
    | any | user _ | flag _ => rw [whoS, whoT] at kind; exact nomatch kind
  | flag letter =>
    cases whoT : t.who with
    | flag other =>
      rw [whoS, whoT] at letters
      have lower : letter.toLower = other.toLower :=
        (cons.inj (of_decide_eq_true letters)).1
      have equal : letter = other := by
        by_contra differ
        simp [otherCase, whoS, whoT, sign, lower, differ] at apart
      rw [equal]
    | any | user _ | group _ => rw [whoS, whoT] at kind; exact nomatch kind

theorem sameEntry_of_otherCase (other : otherCase s t = true) :
    sameEntry s.entry t.entry = true := by
  obtain ⟨signS, whoS⟩ := s
  obtain ⟨signT, whoT⟩ := t
  cases whoS with
  | flag a =>
    cases whoT with
    | flag b =>
      obtain ⟨rfl, lower, _⟩ := of_decide_eq_true other
      cases signS <;>
        simp [sameEntry, PermToken.entry, PermToken.sign, sameLetters, stored, name, kind, lower]
    | any | user _ | group _ => cases other
  | any | user _ | group _ => cases other

theorem sameEntry_trans (a b c : CommandEntry) (first : sameEntry a b = true)
    (second : sameEntry b c = true) : sameEntry a c = true := by
  simp only [sameEntry, sameLetters, decide_eq_true_eq] at first second ⊢
  exact ⟨first.1.trans second.1, first.2.trans second.2⟩

/-- If the first token that matches the user is a flag that the line has before in the other
case, then the next match that is no such flag decides alike. -/
def OtherCaseAlike (tokens : List PermToken) : Prop :=
  ∀ t rest, tokens.dropWhile (fun s => !s.who.covers getGroupByID user) = t :: rest →
    (tokens.takeWhile fun s => !s.who.covers getGroupByID user).any (otherCase · t) = true →
    ((FirstMatch.firstKept (fun s => s.who.covers getGroupByID user) otherCase
      (tokens.takeWhile (fun s => !s.who.covers getGroupByID user) ++ [t]) rest).any
        fun token => !token.negated) = !t.negated

theorem find?_testedTokens {tokens : List PermToken} (plain : ∀ token ∈ tokens, token.Plain) :
    (testedTokens tokens).find? (fun s => s.who.covers getGroupByID user) =
      FirstMatch.firstKept (fun s => s.who.covers getGroupByID user) otherCase [] tokens := by
  have unchanged : testedTokens tokens =
      FirstMatch.keepFirst (fun s t => sameEntry s.entry t.entry) tokens := by
    refine (map_congr_left ?_).trans (map_id' _)
    intro token member
    exact (plain token (FirstMatch.mem_keepFirst member)).entry_token
  rw [unchanged]
  refine FirstMatch.find?_foldl_keep tokens (fun a b c => sameEntry_trans _ _ _)
    (fun a b => sameEntry_of_otherCase) ?_ (forall_mem_nil _) (forall_mem_nil _)
    (fun a => by simp [sameEntry, sameLetters]) (forall_mem_nil _)
  intro a inA b inB same missed matched
  by_contra apart
  rw [Bool.not_eq_true] at apart
  rw [covers_congr getGroupByID user (plain a inA) (plain b inB) same apart, matched] at missed
  cases missed

theorem firstGrants_testedTokens_iff {tokens : List PermToken}
    (plain : ∀ token ∈ tokens, token.Plain) :
    firstGrants getGroupByID user (testedTokens tokens) = firstGrants getGroupByID user tokens ↔
      OtherCaseAlike getGroupByID user tokens := by
  unfold firstGrants OtherCaseAlike
  rw [find?_testedTokens getGroupByID user plain, FirstMatch.firstKept_dropWhile,
    find?_eq_head?_dropWhile_not, nil_append]
  have found := dropWhile_get_zero_not (fun s : PermToken => !s.who.covers getGroupByID user) tokens
  cases split : tokens.dropWhile fun s => !s.who.covers getGroupByID user with
  | nil => simp [FirstMatch.firstKept]
  | cons t rest =>
    have matched : t.who.covers getGroupByID user = true := by
      simpa [split] using found
    rw [FirstMatch.firstKept, matched]
    cases hidden : (tokens.takeWhile fun s => !s.who.covers getGroupByID user).any
      (otherCase · t) with
    | true =>
      refine ⟨fun alike t' rest' same _ => ?_, fun alike => alike t rest rfl hidden⟩
      cases same
      exact alike
    | false =>
      refine iff_of_true rfl fun t' rest' same other => ?_
      cases same
      cases hidden.symm.trans other

theorem testable_of_known (known : ∀ gid ∈ user.groups, (getGroupByID gid).isSome = true)
    (tokens : List PermToken) : testable getGroupByID user tokens = true := by
  induction tokens with
  | nil => rfl
  | cons token tokens ih =>
    have resolved : token.who.resolved getGroupByID user = true := by
      unfold resolved
      split
      · apply all_eq_true.mpr
        intro gid member
        exact known gid ((takeWhile_sublist _).subset member)
      · rfl
    simp [testable, resolved, ih]

end Plain

def flaggedUser : User :=
  { uid := 7, username := "ann".toList, rootpath := "/home".toList, flags := ['A'], userperms := 0 }

def allButBob : List PermToken := [⟨true, .user "bob".toList⟩, ⟨false, .any⟩]

end Wzdftpd
