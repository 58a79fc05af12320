import Wzdftpd.GroupArray
import Wzdftpd.RegistryTable

/- The whole records of users and groups (wzd_user.h, wzd_group.h), with the machine
types of their fields, and the functions that edit the flags of a user (wzd_user.c). -/
namespace Wzdftpd

open List

deriving instance DecidableEq for IpEntry

/-- MAX_FLAGS_NUM -/
def maxFlagsNum : Nat := 32

/-- MAX_PASS_LENGTH -/
def maxPassLength : Nat := 48

/-- MAX_TAGLINE_LENGTH -/
def maxTaglineLength : Nat := 256

/-- MAX_IP_LENGTH -/
def maxIpLength : Nat := 128

/-- HARD_GROUPNAME_LENGTH -/
def hardGroupnameLength : Nat := 128

/-- `wzd_stats_t` -/
structure Stats where
  bytesUlTotal : UInt64 := 0
  bytesDlTotal : UInt64 := 0
  filesUlTotal : UInt64 := 0
  filesDlTotal : UInt64 := 0
  deriving DecidableEq

/-- `wzd_user_t`. The defaults are those of `user_init_struct`. A text is what its
field holds in front of the terminator, or all of the field if there is none. -/
structure UserRecord where
  uid : UInt32 := 0xffffffff
  username : Text := []
  userpass : Text := []
  rootpath : Text := []
  creator : UInt32 := 0xffffffff
  tagline : Text := []
  groups : GroupArray := .empty
  maxIdleTime : UInt32 := 0
  userperms : UInt64 := 0
  flags : Text := []
  maxUlSpeed : UInt32 := 0
  maxDlSpeed : UInt32 := 0
  numLogins : UInt16 := 0
  loginsPerIp : UInt16 := 0
  ipList : List IpEntry := []
  stats : Stats := {}
  credits : UInt64 := 0
  ratio : UInt32 := 0
  userSlots : UInt16 := 0
  leechSlots : UInt16 := 0
  lastLogin : Int64 := 0
  deriving DecidableEq

namespace UserRecord

def id (user : UserRecord) : Nat := user.uid.toNat

variable {user other : UserRecord}

theorem id_eq (same : user.uid = other.uid) : user.id = other.id :=
  congrArg UInt32.toNat same

/-- The name as `strcmp` reads it: one that fills its field runs on into the
password. -/
def name (user : UserRecord) : Text :=
  if user.username.length < hardUsernameLength then user.username
  else user.username ++ user.userpass

theorem name_eq (name : user.username = other.username)
    (pass : user.userpass = other.userpass) : user.name = other.name := by
  rw [UserRecord.name, name, pass, UserRecord.name]

/-- `strchr(user->flags, flag)` -/
def has (user : UserRecord) (flag : Char) : Bool := flag ∈ user.flags

theorem has_eq (same : user.flags = other.flags) (flag : Char) :
    user.has flag = other.has flag := by
  rw [has, same, has]

/-- The test that lets a group admin act on a user. -/
def sameGroup (me user : UserRecord) : Bool :=
  me.groups.num ≠ 0 ∧ user.groups.num ≠ 0 ∧ me.groups.first = user.groups.first

theorem sameGroup_eq {me : UserRecord} (same : user.groups = other.groups) :
    me.sameGroup user = me.sameGroup other := by
  rw [sameGroup, same, sameGroup]

end UserRecord

/-- `wzd_group_t` -/
structure GroupEntry where
  gid : UInt32 := 0xffffffff
  groupname : Text := []
  tagline : Text := []
  groupperms : UInt64 := 0
  flags : Text := []
  maxIdleTime : UInt32 := 0
  numLogins : UInt16 := 0
  maxUlSpeed : UInt32 := 0
  maxDlSpeed : UInt32 := 0
  ratio : UInt32 := 0
  ipList : List IpEntry := []
  defaultpath : Text := []
  deriving DecidableEq

def GroupEntry.id (group : GroupEntry) : Nat := group.gid.toNat

abbrev Accounts := Table UserRecord.id
abbrev GroupTable := Table GroupEntry.id

/-- `user_get_by_name` -/
def Accounts.named (users : Accounts) (name : Text) : Option UserRecord :=
  users.getByName UserRecord.name name

/-- `group_get_by_name` -/
def GroupTable.named (groups : GroupTable) (name : Text) : Option GroupEntry :=
  groups.getByName GroupEntry.groupname name

/-- The loop of `user_flags_add`: letters and digits that the user does not have. -/
def addFlag (flags : Text) (flag : Char) : Text :=
  if flag.isAlphanum ∧ flag ∉ flags then flags ++ [flag] else flags

/-- `user_flags_add`: the flags, or the code of the error. -/
def userFlagsAdd (flags new : Text) : Except Int Text :=
  if new = [] then .error (-1)
  else if 'O' ∈ flags ∧ 'G' ∈ new ∨ 'G' ∈ flags ∧ 'O' ∈ new ∨ 'O' ∈ new ∧ 'G' ∈ new then
    .error (-2)
  else if flags.length + new.length ≥ maxFlagsNum then .error (-3)
  else .ok (new.foldl addFlag flags)

/-- `user_flags_delete` -/
def userFlagsDelete (flags old : Text) : Except Int Text :=
  if old = [] ∨ old.length ≥ maxFlagsNum then .error (-1)
  else .ok (flags.filter (· ∉ old))

/-- `user_flags_change`: the code it returns and the flags it leaves. -/
def userFlagsChange (flags newflags : Text) : Int × Text :=
  match newflags with
  | '+' :: new =>
    match userFlagsAdd flags new with
    | .ok flags => (0, flags)
    | .error code => (if code = -2 then -5 else -2, flags)
  | '-' :: old =>
    match userFlagsDelete flags old with
    | .ok flags => (0, flags)
    | .error _ => (-3, flags)
  | [] => (-1, flags)
  | flag :: rest =>
    let new := flag :: rest
    if flag.isAlphanum then
      if new.length ≥ maxFlagsNum then (-1, flags)
      else if 'O' ∈ new ∧ 'G' ∈ new then (-5, flags)
      else
        match userFlagsAdd [] new with
        | .ok flags => (0, flags)
        | .error _ => (-4, [])
    else (-1, flags)

/-- No account is site operator and group admin at once. -/
def Exclusive (flags : Text) : Prop := ¬('O' ∈ flags ∧ 'G' ∈ flags)

instance (flags : Text) : Decidable (Exclusive flags) :=
  inferInstanceAs (Decidable ¬('O' ∈ flags ∧ 'G' ∈ flags))

variable {flags : Text}

theorem mem_addFlag {flag c : Char} : c ∈ addFlag flags flag → c ∈ flags ∨ c = flag := by
  unfold addFlag
  split
  · intro member
    rcases mem_append.mp member with old | new
    · exact .inl old
    · exact .inr (mem_singleton.mp new)
  · exact .inl

theorem mem_foldl_addFlag {c : Char} (new : Text) : ∀ {flags : Text},
    c ∈ new.foldl addFlag flags → c ∈ flags ∨ c ∈ new := by
  induction new with
  | nil => exact .inl
  | cons flag new ih =>
    intro flags member
    rcases ih member with old | later
    · rcases mem_addFlag old with before | same
      · exact .inl before
      · exact .inr (same ▸ mem_cons_self)
    · exact .inr (mem_cons_of_mem flag later)

theorem Exclusive.add {flags new after : Text} (exclusive : Exclusive flags)
    (done : userFlagsAdd flags new = .ok after) : Exclusive after := by
  unfold userFlagsAdd at done
  split at done
  · cases done
  split at done
  · cases done
  rename_i apart
  split at done
  · cases done
  obtain rfl := Except.ok.inj done
  rintro ⟨siteop, gadmin⟩
  -- each of the two flags is an old or a new one
  rcases mem_foldl_addFlag new siteop with oldO | newO <;>
    rcases mem_foldl_addFlag new gadmin with oldG | newG
  · exact exclusive ⟨oldO, oldG⟩
  · exact apart (.inl ⟨oldO, newG⟩)
  · exact apart (.inr (.inl ⟨oldG, newO⟩))
  · exact apart (.inr (.inr ⟨newO, newG⟩))

theorem exclusive_nil : Exclusive [] := fun both => absurd both.1 not_mem_nil

theorem Exclusive.of_subset {fewer : Text} (exclusive : Exclusive flags)
    (subset : fewer ⊆ flags) : Exclusive fewer :=
  fun both => exclusive ⟨subset both.1, subset both.2⟩

theorem Exclusive.mark (exclusive : Exclusive flags) : Exclusive (flags ++ ['D']) := by
  rintro ⟨siteop, gadmin⟩
  have other : ∀ c : Char, c ≠ 'D' → c ∈ flags ++ ['D'] → c ∈ flags := fun c other member =>
    (mem_append.mp member).resolve_right fun last => other (mem_singleton.mp last)
  exact exclusive ⟨other 'O' (by decide) siteop, other 'G' (by decide) gadmin⟩

theorem Exclusive.change (exclusive : Exclusive flags) (newflags : Text) :
    Exclusive (userFlagsChange flags newflags).2 := by
  unfold userFlagsChange
  split
  · split
    · rename_i done
      exact exclusive.add done
    · exact exclusive
  · split
    · rename_i old done
      unfold userFlagsDelete at done
      split at done
      · cases done
      · obtain rfl := Except.ok.inj done
        exact exclusive.of_subset (filter_subset_self flags)
    · exact exclusive
  · exact exclusive
  · simp only
    split
    · split
      · exact exclusive
      split
      · exact exclusive
      · split
        · rename_i done
          exact exclusive_nil.add done
        · exact exclusive_nil
    · exact exclusive

end Wzdftpd
