import Mathlib.Data.Bool.AllAny
import Wzdftpd.UserRecord

/- How a password is stored and checked (wzd_auth.c, wzd_md5crypt.c, wzd_sha1_hash.c). The
digests themselves come from outside; the texts that are made of them, and every write and
every index on the way, are those of the source. -/
namespace Wzdftpd

open List

/-- AUTH_SIG_MD5 -/
def sigMd5 : Text := "$1$".toList
/-- AUTH_SIG_SHA -/
def sigSha : Text := "\x7bSHA\x7d".toList
/-- AUTH_SIG_PAM -/
def sigPam : Text := "\x7bpam\x7d".toList
/-- AUTH_SIG_CERT -/
def sigCert : Text := "\x7bcert\x7d".toList
/-- AUTH_SIG_KRB -/
def sigKrb : Text := "\x7bkerberos\x7d".toList

/-- A block of characters that is written at an offset of the buffer. -/
structure Write where
  offset : Nat
  block : Text
  deriving DecidableEq, Repr

/-- The code, the writes into the buffer, and the indices into the alphabet of the salt. -/
structure PassChange where
  code : Int
  writes : List Write := []
  indices : List Nat := []
  deriving DecidableEq, Repr

/-- The digests, the random numbers, the memory behind the alphabet and on the stack, and the
other methods. -/
structure AuthWorld where
  crypt : Text → Text → Text
  md5Final : Text → Text → Fin 16 → UInt8
  sha1Digest : Text → Fin 20 → UInt8
  timeDigest : Fin 16 → UInt8
  rand : Nat → BitVec 32
  behind : Nat → Char
  stack : Text
  changepassPam : Text → Text → Nat → PassChange
  changepassCert : Text → Nat → PassChange
  checkpassPam : Text → Text → Bool
  checkCertificate : Text → Text → Bool
  checkKrb5 : Text → Text → Bool

/-- `itoa64`: the alphabet of 64 characters. -/
def itoa64 : Text := "./0123456789ABCDEFGHIJKLMNOPQRSTUVWXYZabcdefghijklmnopqrstuvwxyz".toList

/-- `itoa64[i]`, which lies behind the alphabet from 64 on. -/
def itoa64At (w : AuthWorld) (i : Nat) : Char := itoa64[i]?.getD (w.behind i)

/-- `to64` -/
def to64 (w : AuthWorld) : Nat → Nat → Text
  | _, 0 => []
  | v, n + 1 => itoa64At w (v % 64) :: to64 w (v / 64) n

/-- The last part of `md5_crypt`. -/
def md5Body (w : AuthWorld) (final : Fin 16 → UInt8) : Text :=
  let word (a b c : Fin 16) : Nat :=
    ((final a).toNat <<< 16) ||| ((final b).toNat <<< 8) ||| (final c).toNat
  to64 w (word 0 6 12) 4 ++ to64 w (word 1 7 13) 4 ++ to64 w (word 2 8 14) 4 ++
    to64 w (word 3 9 15) 4 ++ to64 w (word 4 10 5) 4 ++ to64 w (final 11).toNat 2

/-- The salt of `md5_crypt`: behind the magic string, up to the first `$`, at most 8
characters. -/
def refineSalt (salt : Text) : Text :=
  let sp := if sigMd5 <+: salt then salt.drop 3 else salt
  (sp.takeWhile fun c => c ≠ '\x00' ∧ c ≠ '$').take 8

/-- `md5_crypt` -/
def md5Crypt (w : AuthWorld) (pw salt : Text) : Text :=
  sigMd5 ++ refineSalt salt ++ ['$'] ++ md5Body w (w.md5Final pw (refineSalt salt))

def base64tab : Text := "ABCDEFGHIJKLMNOPQRSTUVWXYZabcdefghijklmnopqrstuvwxyz0123456789+/".toList

/-- A turn of the loop in `sha1_hash`, for three bytes of the digest; `none` is behind its
end. -/
def base64Group (a : UInt8) (b c : Option UInt8) : Text :=
  let digit (i : Nat) : Char := base64tab[i]?.getD '='
  let b' := (b.getD 0).toNat
  let c' := (c.getD 0).toNat
  [digit (a.toNat >>> 2), digit (((a.toNat &&& 3) <<< 4) ||| (b' >>> 4)),
    if b.isNone then '=' else digit (((b' &&& 15) <<< 2) ||| (c' >>> 6)),
    if c.isNone then '=' else digit (c' &&& 63)]

/-- `sha1_hash` -/
def sha1Hash (w : AuthWorld) (pass : Text) : Text :=
  let d := w.sha1Digest pass
  base64Group (d 0) (d 1) (d 2) ++ base64Group (d 3) (d 4) (d 5) ++
    base64Group (d 6) (d 7) (d 8) ++ base64Group (d 9) (d 10) (d 11) ++
    base64Group (d 12) (d 13) (d 14) ++ base64Group (d 15) (d 16) (d 17) ++
    base64Group (d 18) (d 19) none

/-- `strncpy` writes all of its length. -/
def strncpy (offset : Nat) (text : Text) (n : Nat) : Write :=
  ⟨offset, text.take n ++ replicate (n - text.length) '\x00'⟩

/-- The salt of `changepass_crypt`. The second product may wrap, with a negative remainder; the
third character is not set. -/
def cryptSalt (w : AuthWorld) : Text :=
  let first := (w.rand 0).toNat % 26
  let second := (w.rand 1 * 72 + 3).toInt.tmod 26
  Char.ofNat (97 + first) :: Char.ofNat (97 + second).toNat :: w.stack

/-- `changepass_crypt` -/
def changepassCrypt (w : AuthWorld) (pass : Text) (len : Nat) : PassChange :=
  if len ≤ 0 then { code := -1 }
  else { code := 0, writes := [strncpy 0 (w.crypt pass (cryptSalt w)) len] }

/-- The indices of `_pass_get_random`: eight bytes of a digest of the time. -/
def randomIndices (w : AuthWorld) : List Nat :=
  [w.timeDigest 0, w.timeDigest 1, w.timeDigest 2, w.timeDigest 3, w.timeDigest 4,
    w.timeDigest 5, w.timeDigest 6, w.timeDigest 7].map UInt8.toNat

/-- `changepass_md5`. Half of the salt's buffer is not set. -/
def changepassMd5 (w : AuthWorld) (pass : Text) (len : Nat) : PassChange :=
  if len ≤ 0 then { code := -1 }
  else
    let randbuffer := (randomIndices w).map (itoa64At w) ++ w.stack
    { code := 0
      writes := [strncpy 0 (md5Crypt w pass randbuffer) len]
      indices := randomIndices w }

/-- `changepass_sha` -/
def changepassSha (w : AuthWorld) (pass : Text) (len : Nat) : PassChange :=
  if len ≤ 0 ∨ len < sigSha.length + 20 then { code := -1 }
  else
    { code := 0
      writes := [strncpy 0 sigSha len, strncpy sigSha.length (sha1Hash w pass) len] }

/-- `changepass` -/
def changepass (w : AuthWorld) (user pass : Text) (len : Nat) : PassChange :=
  if sigMd5 <+: pass then changepassMd5 w (pass.drop sigMd5.length) len
  else if sigSha <+: pass then changepassSha w (pass.drop sigSha.length) len
  else if sigPam <+: pass then w.changepassPam user (pass.drop sigPam.length) len
  else if sigCert <+: pass then w.changepassCert (pass.drop sigCert.length) len
  else changepassCrypt w pass len

/-- `check_auth` -/
def checkAuth (w : AuthWorld) (user data challenge : Text) : Bool :=
  if sigMd5 <+: challenge then
    (md5Crypt w data (challenge.drop sigMd5.length)).drop 3 = challenge.drop sigMd5.length
  else if sigSha <+: challenge then sha1Hash w data = challenge.drop sigSha.length
  else if sigPam <+: challenge then w.checkpassPam user data
  else if sigCert <+: challenge then w.checkCertificate user (challenge.drop sigCert.length)
  else if sigKrb <+: challenge then w.checkKrb5 user (challenge.drop sigKrb.length)
  else w.crypt data challenge = challenge

def Write.apply (memory : Text) (write : Write) : Text :=
  memory.take write.offset ++ write.block ++ memory.drop (write.offset + write.block.length)

/-- The text in a field of a size. -/
def textIn (size : Nat) (memory : Text) : Text := (memory.take size).takeWhile (· ≠ '\x00')

def storedText (len : Nat) (memory : Text) (change : PassChange) : Text :=
  textIn (len + 1) (change.writes.foldl Write.apply memory)

def withoutMethod (pass : Text) : Text :=
  if sigMd5 <+: pass then pass.drop sigMd5.length
  else if sigSha <+: pass then pass.drop sigSha.length
  else pass

/-- The writes stay in the buffer, the indices in the alphabet, and what is stored is one line
that the password passes. -/
structure ChangeThenLogin (w : AuthWorld) (len : Nat) (memory user pass : Text) : Prop where
  changed : (changepass w user pass len).code = 0
  inside : ∀ write ∈ (changepass w user pass len).writes,
    write.offset + write.block.length ≤ len + 1
  indices : ∀ i ∈ (changepass w user pass len).indices, i < 64
  oneLine : '\n' ∉ storedText len memory (changepass w user pass len)
  accepted : checkAuth w user (withoutMethod pass)
    (storedText len memory (changepass w user pass len)) = true

/-- `crypt` gives 13 characters of the alphabet, and gives them again when they are its salt. -/
structure CryptWorks (crypt : Text → Text → Text) : Prop where
  again : ∀ pass salt, crypt pass (crypt pass salt) = crypt pass salt
  alphabet : ∀ pass salt, ∀ c ∈ crypt pass salt, c ∈ itoa64
  length : ∀ pass salt, (crypt pass salt).length = 13

section

variable {w : AuthWorld} {text : Text}

theorem strncpy_block_length (offset : Nat) (text : Text) (n : Nat) :
    (strncpy offset text n).block.length = n := by
  rw [strncpy, length_append, length_take, length_replicate]
  omega

variable {len : Nat}

theorem storedText_strncpy {code : Int} {indices : List Nat}
    (short : text.length < len) (plain : ∀ c ∈ text, c ≠ '\x00') (memory : Text) :
    storedText len memory ⟨code, [strncpy 0 text len], indices⟩ = text := by
  have block : text.take len ++ replicate (len - text.length) '\x00' =
      text ++ '\x00' :: replicate (len - text.length - 1) '\x00' := by
    rw [take_of_length_le (Nat.le_of_lt short), ← replicate_succ]
    congr 2
    omega
  have room : text.length < len + 1 := by omega
  change textIn (len + 1) ([] ++ (strncpy 0 text len).block ++ _) = text
  rw [strncpy, block, nil_append, append_assoc, cons_append, textIn,
    take_append, take_of_length_le (Nat.le_of_lt room)]
  obtain ⟨more, left⟩ : ∃ more, len + 1 - text.length = more + 1 := ⟨len - text.length, by omega⟩
  rw [left]
  exact takeWhile_word _ (fun c member => decide_eq_true (plain c member)) rfl

variable {c : Char}

theorem itoa64_plain (member : c ∈ itoa64) : c ≠ '\x00' ∧ c ≠ '\n' ∧ c ≠ '$' ∧ c ≠ '\x7b' := by
  refine ⟨?_, ?_, ?_, ?_⟩
  · rintro rfl
    exact absurd member (by decide)
  · rintro rfl
    exact absurd member (by decide)
  · rintro rfl
    exact absurd member (by decide)
  · rintro rfl
    exact absurd member (by decide)

theorem not_sign_of_alphabet {sign : Text} (head : sign.head? = some c)
    (special : c ∉ itoa64) (alphabet : ∀ c ∈ text, c ∈ itoa64) : ¬sign <+: text := by
  rintro ⟨rest, rfl⟩
  exact special (alphabet c (mem_append_left rest (mem_of_head? head)))

theorem itoa64At_mem {i : Nat} (below : i < 64) : itoa64At w i ∈ itoa64 := by
  have inside : i < itoa64.length := below
  rw [itoa64At, getElem?_eq_getElem inside]
  exact getElem_mem inside

theorem to64_mem (n : Nat) : ∀ {v : Nat}, c ∈ to64 w v n → c ∈ itoa64 := by
  induction n with
  | zero => exact fun none => absurd none not_mem_nil
  | succ n ih =>
    intro v member
    rcases mem_cons.mp member with rfl | later
    · exact itoa64At_mem (Nat.mod_lt v (by decide))
    · exact ih later

theorem md5Body_mem {final : Fin 16 → UInt8} (member : c ∈ md5Body w final) : c ∈ itoa64 := by
  simp only [md5Body, mem_append] at member
  rcases member with ((((one | two) | three) | four) | five) | six
  · exact to64_mem 4 one
  · exact to64_mem 4 two
  · exact to64_mem 4 three
  · exact to64_mem 4 four
  · exact to64_mem 4 five
  · exact to64_mem 2 six

variable {salt : Text}

theorem refineSalt_word (eight : salt.length = 8)
    (alphabet : ∀ c ∈ salt, c ∈ itoa64) (rest : Text) : refineSalt (salt ++ rest) = salt := by
  have unsigned : ¬sigMd5 <+: salt ++ rest := by
    intro magic
    have first : sigMd5.take 1 <+: salt := by
      apply prefix_of_prefix_length_le ((List.take_prefix 1 sigMd5).trans magic)
        (prefix_append salt rest)
      rw [eight]
      decide
    exact not_sign_of_alphabet rfl (by decide) alphabet first
  have kept : ∀ c ∈ salt, decide (c ≠ '\x00' ∧ c ≠ '$') = true := by
    intro c member
    have plain := itoa64_plain (alphabet c member)
    exact decide_eq_true ⟨plain.1, plain.2.2.1⟩
  rw [refineSalt, if_neg unsigned, takeWhile_append_of_pos kept, take_append, eight,
    Nat.sub_self, take_zero, append_nil, take_of_length_le (Nat.le_of_eq eight)]

theorem md5Crypt_word (eight : salt.length = 8)
    (alphabet : ∀ c ∈ salt, c ∈ itoa64) (pw rest : Text) :
    md5Crypt w pw (salt ++ rest) = sigMd5 ++ salt ++ ['$'] ++ md5Body w (w.md5Final pw salt) := by
  rw [md5Crypt, refineSalt_word eight alphabet]

variable {memory user pass : Text}

theorem changeThenLogin_of_hash {hash : Text} {indices : List Nat}
    (change : changepass w user pass len = ⟨0, [strncpy 0 hash len], indices⟩)
    (below : ∀ i ∈ indices, i < 64) (short : hash.length < len)
    (letters : ∀ c ∈ hash, c ≠ '\x00' ∧ c ≠ '\n')
    (accepted : checkAuth w user (withoutMethod pass) hash = true) :
    ChangeThenLogin w len memory user pass := by
  have stored : storedText len memory (changepass w user pass len) = hash := by
    rw [change]
    exact storedText_strncpy short (fun c member => (letters c member).1) memory
  refine ⟨?_, ?_, ?_, ?_, ?_⟩
  · rw [change]
  · rw [change, forall_mem_singleton, strncpy_block_length]
    change 0 + len ≤ len + 1
    omega
  · rw [change]
    exact below
  · rw [stored]
    exact fun member => (letters _ member).2 rfl
  · rw [stored]
    exact accepted

theorem checkAuth_of_alphabet {data : Text} (alphabet : ∀ c ∈ text, c ∈ itoa64) :
    checkAuth w user data text = decide (w.crypt data text = text) := by
  unfold checkAuth
  rw [if_neg (not_sign_of_alphabet rfl (by decide) alphabet),
    if_neg (not_sign_of_alphabet rfl (by decide) alphabet),
    if_neg (not_sign_of_alphabet rfl (by decide) alphabet),
    if_neg (not_sign_of_alphabet rfl (by decide) alphabet),
    if_neg (not_sign_of_alphabet rfl (by decide) alphabet)]

/-- A password without a sign is always stored and accepted. -/
theorem changeThenLogin_crypt (room : 13 < len)
    (works : CryptWorks w.crypt) (noMd5 : ¬sigMd5 <+: pass) (noSha : ¬sigSha <+: pass)
    (noPam : ¬sigPam <+: pass) (noCert : ¬sigCert <+: pass) :
    ChangeThenLogin w len memory user pass := by
  have change : changepass w user pass len =
      ⟨0, [strncpy 0 (w.crypt pass (cryptSalt w)) len], []⟩ := by
    rw [changepass, if_neg noMd5, if_neg noSha, if_neg noPam, if_neg noCert, changepassCrypt,
      if_neg (by omega)]
  have alphabet := works.alphabet pass (cryptSalt w)
  have data : withoutMethod pass = pass := by rw [withoutMethod, if_neg noMd5, if_neg noSha]
  apply changeThenLogin_of_hash change
  · exact fun _ none => absurd none not_mem_nil
  · rw [works.length]
    exact room
  · intro c member
    have plain := itoa64_plain (alphabet c member)
    exact ⟨plain.1, plain.2.1⟩
  · rw [data, checkAuth_of_alphabet alphabet]
    exact decide_eq_true (works.again pass (cryptSalt w))

theorem checkAuth_md5 {data : Text} (eight : salt.length = 8) (alphabet : ∀ c ∈ salt, c ∈ itoa64) :
    checkAuth w user data (sigMd5 ++ salt ++ ['$'] ++ md5Body w (w.md5Final data salt)) = true := by
  have shape : sigMd5 ++ salt ++ ['$'] ++ md5Body w (w.md5Final data salt) =
      sigMd5 ++ (salt ++ (['$'] ++ md5Body w (w.md5Final data salt))) := by
    simp
  have cut : ∀ rest : Text, (sigMd5 ++ rest).drop 3 = rest := fun rest => rfl
  unfold checkAuth
  rw [shape, drop_left, md5Crypt_word eight alphabet, shape, cut]
  exact decide_eq_true rfl

/-- A password with the sign of MD5 is stored and accepted if its salt is of the
alphabet. -/
theorem changeThenLogin_md5 (room : 34 < len)
    (method : sigMd5 <+: pass) (below : ∀ i ∈ randomIndices w, i < 64) :
    ChangeThenLogin w len memory user pass := by
  have change : changepass w user pass len = ⟨0, [strncpy 0 (md5Crypt w (pass.drop sigMd5.length)
      ((randomIndices w).map (itoa64At w) ++ w.stack)) len], randomIndices w⟩ := by
    rw [changepass, if_pos method, changepassMd5, if_neg (by omega)]
  have eight : ((randomIndices w).map (itoa64At w)).length = 8 := rfl
  have alphabet : ∀ c ∈ (randomIndices w).map (itoa64At w), c ∈ itoa64 := by
    intro c member
    obtain ⟨i, inside, rfl⟩ := mem_map.mp member
    exact itoa64At_mem (below i inside)
  have data : withoutMethod pass = pass.drop sigMd5.length := by rw [withoutMethod, if_pos method]
  rw [md5Crypt_word eight alphabet] at change
  apply changeThenLogin_of_hash change below
  · exact room
  · intro c member
    simp only [mem_append, mem_singleton] at member
    rcases member with ((sign | salt) | rfl) | body
    · have plain : ∀ c ∈ sigMd5, c ≠ '\x00' ∧ c ≠ '\n' := all_iff_forall_prop.mp (by decide)
      exact plain c sign
    · have plain := itoa64_plain (alphabet c salt)
      exact ⟨plain.1, plain.2.1⟩
    · decide
    · have plain := itoa64_plain (md5Body_mem body)
      exact ⟨plain.1, plain.2.1⟩
  · rw [data]
    exact checkAuth_md5 eight alphabet

theorem not_changeThenLogin_sha (room : 25 ≤ len)
    (noMd5 : ¬sigMd5 <+: pass) (method : sigSha <+: pass) :
    ¬ChangeThenLogin w len memory user pass := by
  intro right
  have change : changepass w user pass len = ⟨0, [strncpy 0 sigSha len,
      strncpy sigSha.length (sha1Hash w (pass.drop sigSha.length)) len], []⟩ := by
    have enough : ¬(len ≤ 0 ∨ len < sigSha.length + 20) := by
      change ¬(len ≤ 0 ∨ len < 25)
      omega
    rw [changepass, if_neg noMd5, if_pos method, changepassSha, if_neg enough]
  have inside := right.inside (strncpy sigSha.length (sha1Hash w (pass.drop sigSha.length)) len)
    (by rw [change]; exact mem_cons_of_mem _ mem_cons_self)
  rw [strncpy_block_length] at inside
  change 5 + len ≤ len + 1 at inside
  omega

end

/-- A new password is stored inside of its field and accepted exactly when it is not one for
SHA and, if it is one for MD5, the digest of the time indexes the alphabet. -/
theorem change_then_login_iff (w : AuthWorld) (memory user pass : Text)
    (works : CryptWorks w.crypt) (noPam : ¬sigPam <+: pass) (noCert : ¬sigCert <+: pass) :
    ChangeThenLogin w (maxPassLength - 1) memory user pass ↔
      ¬sigSha <+: pass ∧ (sigMd5 <+: pass → ∀ i ∈ randomIndices w, i < 64) := by
  by_cases md5 : sigMd5 <+: pass
  · have noSha : ¬sigSha <+: pass := by
      intro sha
      have both := prefix_of_prefix_length_le md5 sha (by decide)
      exact absurd both (by decide)
    constructor
    · intro right
      refine ⟨noSha, fun _ i member => right.indices i ?_⟩
      rw [changepass, if_pos md5]
      exact member
    · exact fun safe => changeThenLogin_md5 (by decide) md5 (safe.2 md5)
  · by_cases sha : sigSha <+: pass
    · exact iff_of_false (not_changeThenLogin_sha (by decide) md5 sha) fun safe => safe.1 sha
    · refine iff_of_true ?_ ⟨sha, fun method => absurd method md5⟩
      exact changeThenLogin_crypt (by decide) works md5 sha noPam noCert

/-- A world whose `crypt` knows one hash, with a digest of the time. -/
def authWorld (timeDigest : Fin 16 → UInt8) : AuthWorld where
  crypt _ _ := "abJnggxhB/yWI".toList
  md5Final _ _ _ := 0
  sha1Digest _ _ := 0
  timeDigest := timeDigest
  rand _ := 0
  behind _ := '\x00'
  stack := []
  changepassPam _ _ _ := { code := -1 }
  changepassCert _ _ := { code := -1 }
  checkpassPam _ _ := false
  checkCertificate _ _ := false
  checkKrb5 _ _ := false

theorem authWorld_works (timeDigest : Fin 16 → UInt8) :
    CryptWorks (authWorld timeDigest).crypt := by
  have alphabet : ∀ c ∈ "abJnggxhB/yWI".toList, c ∈ itoa64 :=
    all_iff_forall_prop.mp (by decide)
  exact ⟨fun _ _ => rfl, fun _ _ => alphabet, fun _ _ => rfl⟩

theorem change_then_login_small_digest :
    ChangeThenLogin (authWorld fun _ => 5) 47 [] "ann".toList "$1$secret".toList := by
  refine (change_then_login_iff (authWorld fun _ => 5) [] _ _ (authWorld_works _) ?_ ?_).mpr
    ⟨?_, fun _ => ?_⟩
  · decide
  · decide
  · decide
  · exact all_iff_forall_prop.mp (by decide)

/-- With 47 for the length, the second copy of a password for SHA ends 4 bytes behind the
field of 48; and a byte of a digest is no index of the alphabet. -/
theorem change_writes_outside :
    ((changepass (authWorld fun _ => 5) "ann".toList "\x7bSHA\x7dsecret".toList 47).writes.map
      fun write => (write.offset, write.block.length)) = [(0, 47), (5, 47)] ∧
    (changepass (authWorld fun _ => 200) "ann".toList "$1$secret".toList 47).indices =
      replicate 8 200 := by
  constructor
  · decide +kernel
  · decide +kernel

end Wzdftpd
