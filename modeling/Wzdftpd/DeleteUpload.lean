import Wzdftpd.ExactTransfers
import Wzdftpd.SiteCredits

/- An upload and its removal in the books of the uploader. The loops of wzd_data.c add
block by block; `do_dele` (wzd_ClientThread.c) takes the size of the file back at once. -/
namespace Wzdftpd

open List Nat

/-- What `do_dele` takes back for a file of this size. -/
def UserRecord.takeBack (owner : UserRecord) (size : UInt64) : UserRecord :=
  let product := owner.ratio.toUInt64 * size
  { owner with
    credits :=
      if owner.ratio = 0 then owner.credits
      else if owner.credits > product then owner.credits - product else 0
    stats := { owner.stats with
      bytesUlTotal :=
        if owner.stats.bytesUlTotal > size then owner.stats.bytesUlTotal - size else 0
      filesUlTotal :=
        if owner.stats.filesUlTotal = 0 then 0 else owner.stats.filesUlTotal - 1 } }

/-- `file_size` of `do_dele`. -/
def FileStat.deleSize (s : FileStat) : UInt64 := if s.kind = .reg then UInt64.ofNat s.size else 0

/-- The record of the owner after `do_dele`, where `file_getowner` finds `owner`. -/
def deleOwner (w : World) (user : Option User) (param : Text) (ctx : Context)
    (owner : UserRecord) : UserRecord :=
  match deleTarget w user param ctx with
  | .error _ => owner
  | .ok path =>
    let size := ((w.fs.lstat path).map FileStat.deleSize).getD 0
    if w.fileRemove path ∧ size ≠ 0 ∧ owner.username ≠ "nobody".toList then owner.takeBack size
    else owner

structure SameBooks (user other : UserRecord) : Prop where
  credits : other.credits = user.credits
  bytes : other.stats.bytesUlTotal = user.stats.bytesUlTotal
  files : other.stats.filesUlTotal = user.stats.filesUlTotal

def uploadSize (length : Nat) (turns : List StorTurn) : Nat :=
  (turns.flatMap (·.recv.bytes length)).length

structure UploadFits (loop : TransferLoop) (length : Nat) (user : UserRecord)
    (turns : List StorTurn) : Prop where
  products : loop = .dataExecute → ∀ turn ∈ turns,
    user.ratio.toNat * (turn.recv.bytes length).length < 2 ^ 32
  credits : user.credits.toNat + user.ratio.toNat * uploadSize length turns < 2 ^ 64
  bytes : user.stats.bytesUlTotal.toNat + uploadSize length turns < 2 ^ 64
  files : user.stats.filesUlTotal.toNat + 1 < 2 ^ 64

/-- A record in which `n` uploaded bytes have been added. -/
structure Counted (user : UserRecord) (n : Nat) (now : UserRecord) : Prop where
  username : now.username = user.username
  ratio : now.ratio = user.ratio
  credits : now.credits.toNat = user.credits.toNat + user.ratio.toNat * n
  bytes : now.stats.bytesUlTotal.toNat = user.stats.bytesUlTotal.toNat + n
  files : now.stats.filesUlTotal = user.stats.filesUlTotal

theorem counted_zero (user : UserRecord) : Counted user 0 user := ⟨rfl, rfl, rfl, rfl, rfl⟩

theorem TransferLoop.toNat_product {loop : TransferLoop} {ratio : UInt32} {n : Nat}
    (narrow : loop = .dataExecute → ratio.toNat * n < 2 ^ 32) (wide : ratio.toNat * n < 2 ^ 64) :
    (loop.product ratio n).toNat = ratio.toNat * n := by
  cases loop with
  | dataExecute =>
    simp only [product, UInt32.toNat_toUInt64, UInt32.toNat_mul, UInt32.toNat_ofNat', mul_mod_mod]
    exact mod_eq_of_lt (narrow rfl)
  | localThread =>
    simp only [product, UInt64.toNat_mul, UInt64.toNat_ofNat', mul_mod_mod]
    exact mod_eq_of_lt wide

theorem Counted.receive {user now : UserRecord} {n count : Nat} (counted : Counted user n now)
    {loop : TransferLoop} (narrow : loop = .dataExecute → user.ratio.toNat * count < 2 ^ 32)
    (credits : user.credits.toNat + user.ratio.toNat * (n + count) < 2 ^ 64)
    (bytes : user.stats.bytesUlTotal.toNat + (n + count) < 2 ^ 64) :
    Counted user (n + count) (now.countReceived count (loop.product now.ratio count)) := by
  have split := Nat.mul_add user.ratio.toNat n count
  have product : (loop.product now.ratio count).toNat = user.ratio.toNat * count := by
    rw [counted.ratio]
    exact loop.toNat_product narrow (by omega)
  refine ⟨counted.username, counted.ratio, ?_, ?_, counted.files⟩
  · have before := counted.credits
    unfold UserRecord.countReceived
    by_cases leech : now.ratio = 0
    · have zero : user.ratio.toNat = 0 := by
        rw [← counted.ratio, leech]
        rfl
      simp only [if_pos leech]
      simp [before, zero]
    · simp only [if_neg leech]
      rw [toNat_toppedUp_of_room] <;> omega
  · have before := counted.bytes
    simp only [UserRecord.countReceived, UInt64.toNat_add, UInt64.toNat_ofNat']
    rw [mod_eq_of_lt] <;> omega

theorem Counted.run (loop : TransferLoop) (length : Nat) {user : UserRecord}
    (turns : List StorTurn) (smooth : ∀ turn ∈ turns, turn.Smooth length)
    (narrow : loop = .dataExecute → ∀ turn ∈ turns,
      user.ratio.toNat * (turn.recv.bytes length).length < 2 ^ 32) :
    ∀ {s : Storing} {n : Nat}, s.status = .running → Counted user n s.user →
      user.credits.toNat + user.ratio.toNat * (n + uploadSize length turns) < 2 ^ 64 →
      user.stats.bytesUlTotal.toNat + (n + uploadSize length turns) < 2 ^ 64 →
      Counted user (n + uploadSize length turns)
        (turns.foldl (Storing.step loop length) s).user := by
  induction turns with
  | nil => exact fun _ counted _ _ => counted
  | cons turn turns ih =>
    intro s n running counted credits bytes
    obtain ⟨first, later⟩ := forall_mem_cons.mp smooth
    have size : uploadSize length (turn :: turns) =
        (turn.recv.bytes length).length + uploadSize length turns := by
      simp [uploadSize]
    rw [size, ← Nat.add_assoc n] at credits bytes ⊢
    have less := Nat.mul_le_mul_left user.ratio.toNat
      (Nat.le_add_right (n + (turn.recv.bytes length).length) (uploadSize length turns))
    have next := counted.receive (fun wide => narrow wide turn mem_cons_self) (by omega)
      (by omega)
    rw [foldl_cons, Storing.step_of_receivesOn running (first.receivesOn loop)]
    refine ih later (fun wide other member => ?_) running next credits bytes
    exact narrow wide other (mem_cons_of_mem turn member)

theorem Counted.takeBack {user now : UserRecord} {n : Nat} (counted : Counted user n now)
    (credits : user.credits.toNat + user.ratio.toNat * n < 2 ^ 64) (small : n < 2 ^ 64)
    (files : user.stats.filesUlTotal.toNat + 1 < 2 ^ 64) :
    SameBooks user (now.countFile.takeBack (UInt64.ofNat n)) := by
  have size : (UInt64.ofNat n).toNat = n := UInt64.toNat_ofNat_of_lt' small
  have creditsNow := counted.credits
  have bytesNow := counted.bytes
  refine ⟨?_, ?_, ?_⟩ <;> apply UInt64.toNat_inj.mp
  · have product : (user.ratio.toUInt64 * UInt64.ofNat n).toNat = user.ratio.toNat * n := by
      rw [UInt64.toNat_mul, UInt32.toNat_toUInt64, size, mod_eq_of_lt (by omega)]
    simp only [UserRecord.takeBack, UserRecord.countFile, counted.ratio]
    by_cases leech : user.ratio = 0
    · simp [leech, creditsNow]
    · rw [if_neg leech, toNat_sub_or_zero]
      omega
  · have left := toNat_sub_or_zero now.stats.bytesUlTotal (UInt64.ofNat n)
    rw [size, bytesNow, Nat.add_sub_cancel] at left
    exact left
  · have more : (user.stats.filesUlTotal + 1).toNat = user.stats.filesUlTotal.toNat + 1 := by
      exact mod_eq_of_lt files
    have some : user.stats.filesUlTotal + 1 ≠ 0 := by
      intro zero
      rw [zero] at more
      cases more
    simp only [UserRecord.takeBack, UserRecord.countFile, counted.files, if_neg some]
    rw [UInt64.add_sub_cancel]

theorem not_sameBooks_countFile {user now : UserRecord} {n : Nat} (counted : Counted user n now) :
    ¬SameBooks user now.countFile := by
  intro same
  have files : user.stats.filesUlTotal + 1 = user.stats.filesUlTotal := by
    rw [← counted.files]
    exact same.files.trans counted.files.symm
  exact absurd (UInt64.add_eq_left.mp files) (by decide)

theorem deleOwner_of_removed {w : World} {deleter : Option User} {param : Text} {ctx : Context}
    {path : Text} (authorised : deleTarget w deleter param ctx = .ok path)
    (removed : w.fileRemove path = true) {n : Nat} (small : n < 2 ^ 64)
    (stat : w.fs.lstat path = some ⟨.reg, n⟩) (owner : UserRecord) :
    deleOwner w deleter param ctx owner =
      if n ≠ 0 ∧ owner.username ≠ "nobody".toList then owner.takeBack (UInt64.ofNat n)
      else owner := by
  have zero : UInt64.ofNat n = 0 ↔ n = 0 := by
    rw [← UInt64.toNat_inj, UInt64.toNat_ofNat_of_lt' small]
    exact Iff.rfl
  simp only [deleOwner, authorised, removed, stat, true_and, ne_eq, ← zero]
  rfl

/-- The accounts of the uploader are restored exactly when the file is not empty and the
uploader is not called nobody. -/
theorem delete_undoes_upload_iff (loop : TransferLoop) (length : Nat) (user : UserRecord)
    (turns : List StorTurn) (smooth : ∀ turn ∈ turns, turn.Smooth length) (last : StorTurn)
    (closes : last.closes = true) (truncates : last.truncates = true)
    (fits : UploadFits loop length user turns) (uploaded : Storing)
    (upload : (turns ++ [last]).foldl (Storing.step loop length) (.start ⟨[], 0⟩ user) = uploaded)
    (w : World) (deleter : Option User) (param : Text) (ctx : Context) (path : Text)
    (authorised : deleTarget w deleter param ctx = .ok path) (removed : w.fileRemove path = true)
    (stat : w.fs.lstat path = some ⟨.reg, uploaded.file.content.length⟩) :
    SameBooks user (deleOwner w deleter param ctx uploaded.user) ↔
      uploadSize length turns ≠ 0 ∧ user.username ≠ "nobody".toList := by
  have small : uploadSize length turns < 2 ^ 64 := by
    have bytes := fits.bytes
    omega
  obtain ⟨running, _⟩ := Storing.run_blocks loop turns smooth (s := .start ⟨[], 0⟩ user) rfl
  have counted := Counted.run loop length turns smooth fits.products (s := .start ⟨[], 0⟩ user) rfl
    (counted_zero user) (by rw [Nat.zero_add]; exact fits.credits)
    (by rw [Nat.zero_add]; exact fits.bytes)
  rw [Nat.zero_add] at counted
  have content := (Storing.run_upload loop turns smooth closes truncates ⟨[], 0⟩ user).2
  have size : uploaded.file.content.length = uploadSize length turns := by
    rw [← upload, content]
    rfl
  rw [foldl_append, foldl_cons, foldl_nil,
    Storing.step_of_finishes running (last.finishes_of_closes closes loop length)] at upload
  generalize (turns.foldl (Storing.step loop length) (.start ⟨[], 0⟩ user)) = received
    at upload counted
  have owner : uploaded.user = received.user.countFile := by
    rw [← upload]
    rfl
  have name : received.user.countFile.username = user.username := counted.username
  rw [size] at stat
  rw [deleOwner_of_removed authorised removed small stat, owner, name]
  by_cases undone : uploadSize length turns ≠ 0 ∧ user.username ≠ "nobody".toList
  · rw [if_pos undone]
    exact iff_of_true (counted.takeBack fits.credits small fits.files) undone
  · rw [if_neg undone]
    exact iff_of_false (not_sameBooks_countFile counted) undone

def oneFile (size : Nat) : World :=
  let stat : Text → Option FileStat := fun path =>
    if path = "/srv/f".toList then some ⟨.reg, size⟩
    else if path = "/srv".toList then some ⟨.dir, 0⟩
    else none
  { server := Server.single srvUser, fs := ⟨stat, stat, fun _ => none⟩,
    fsAfter := ⟨stat, stat, fun _ => none⟩ }

/-- Two bytes at a ratio of three. -/
theorem delete_undoes_upload_two_bytes :
    let block : StorTurn := ⟨.ready, .data 7 [8], .takes 2, false⟩
    let last : StorTurn := ⟨.ready, .closed, .takes 0, true⟩
    let user : UserRecord := { username := "bob".toList, ratio := 3, credits := 10 }
    SameBooks user (deleOwner (oneFile 2) (some srvUser) "f".toList srvContext
      ([block, last].foldl (Storing.step .dataExecute 16) (.start ⟨[], 0⟩ user)).user) := by
  intro block last user
  refine (delete_undoes_upload_iff .dataExecute 16 user [block]
    (forall_mem_singleton.mpr ⟨rfl, rfl⟩) last rfl rfl ?_ _ rfl (oneFile 2) (some srvUser)
    "f".toList srvContext "/srv/f".toList rfl rfl rfl).mpr (by decide)
  exact ⟨fun _ => forall_mem_singleton.mpr (by decide), by decide, by decide, by decide⟩

/-- The removal of an empty file does not take its upload back, nor does that of a file
of the user nobody. -/
theorem delete_leaves_upload :
    let block : StorTurn := ⟨.ready, .data 7 [8], .takes 2, false⟩
    let last : StorTurn := ⟨.ready, .closed, .takes 0, true⟩
    let user : UserRecord := { username := "bob".toList, ratio := 3, credits := 10 }
    let nobody : UserRecord := { user with username := "nobody".toList }
    ¬SameBooks user (deleOwner (oneFile 0) (some srvUser) "f".toList srvContext
      ([last].foldl (Storing.step .dataExecute 16) (.start ⟨[], 0⟩ user)).user) ∧
    ¬SameBooks nobody (deleOwner (oneFile 2) (some srvUser) "f".toList srvContext
      ([block, last].foldl (Storing.step .dataExecute 16) (.start ⟨[], 0⟩ nobody)).user) := by
  refine ⟨fun same => ?_, fun same => ?_⟩
  · exact absurd same.files (by decide)
  · exact absurd same.files (by decide)

end Wzdftpd
