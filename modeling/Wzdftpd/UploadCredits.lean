import Wzdftpd.Credits

/- What an upload adds to the credits. -/
namespace Wzdftpd

open Nat Runs

inductive UploadLoop where
  | dataExecute | localStor
  deriving DecidableEq, Repr

/-- One turn of a loop: the bytes that were received, an `int`, and the result of
writing them, which is at most their number. -/
structure UploadBlock where
  size : Int
  ret : Int
  fits : size < 2 ^ 31
  within : ret ≤ max size 0

def UploadBlock.stored (block : UploadBlock) : Nat := block.ret.toNat

namespace UploadLoop

def charge (loop : UploadLoop) (ratio : Nat) (block : UploadBlock) : Charge :=
  match loop with
  | .dataExecute => dataExecuteCharge ratio .stor block.size block.ret
  | .localStor => threadCharge ratio true block.size block.ret

/-- The loop takes another turn. Only `do_local_stor` stops at a failed write. -/
def goesOn (loop : UploadLoop) (block : UploadBlock) : Bool :=
  match loop with
  | .dataExecute => block.size > 0
  | .localStor => block.size > 0 ∧ block.ret = block.size

/-- What a block adds to the credits of a user with this ratio, as long as they are
below the largest value. -/
def earned (loop : UploadLoop) (ratio : Nat) (block : UploadBlock) : Nat :=
  match loop.charge ratio block with
  | .up _ product => product
  | _ => 0

end UploadLoop

/-- The account of the user, the bytes that the file has received and whether the loop
still runs. -/
structure Upload where
  account : Account
  written : Nat
  running : Bool

namespace Upload

def start (user : User) : Upload := ⟨.opened user, 0, true⟩

def step (loop : UploadLoop) (s : Upload) (block : UploadBlock) : Upload :=
  if s.running then
    ⟨s.account.apply (loop.charge s.account.user.ratio block), s.written + block.stored,
      loop.goesOn block⟩
  else s

/-- The credits are the old ones and the ratio for every byte of the file, up to the
largest value. -/
structure Exact (user : User) (s : Upload) : Prop where
  ratio : s.account.user.ratio = user.ratio
  credits : s.account.user.credits = min ullongMax (user.credits + user.ratio * s.written)

/-- A block is credited by what it adds to the file, or the credits reach the largest
value either way. -/
def BlockExact (loop : UploadLoop) (s : Upload) (block : UploadBlock) : Prop :=
  s.running →
    loop.earned s.account.user.ratio block = s.account.user.ratio * block.stored ∨
    ullongMax ≤ s.account.user.credits + loop.earned s.account.user.ratio block ∧
      ullongMax ≤ s.account.user.credits + s.account.user.ratio * block.stored

end Upload

theorem earnedCredits_eq_min (credits product : Nat) :
    earnedCredits credits product = min ullongMax (credits + product) := by
  unfold earnedCredits
  split <;> omega

theorem UploadLoop.charge_cases (loop : UploadLoop) (ratio : Nat) (block : UploadBlock) :
    loop.charge ratio block = .nothing ∨
      ∃ n product, loop.charge ratio block = .up n product ∧ (ratio = 0 → product = 0) := by
  cases loop with
  | dataExecute =>
    simp only [charge, dataExecuteCharge]
    split
    · refine .inr ⟨_, _, rfl, fun zero => ?_⟩
      simp [zero]
    · exact .inl rfl
  | localStor =>
    simp only [charge, threadCharge, if_true]
    split
    · refine .inr ⟨_, _, rfl, fun zero => ?_⟩
      simp [zero]
    · exact .inl rfl

/-- One turn of either loop, on the record of the user. -/
theorem Account.apply_charge (account : Account) (loop : UploadLoop) (block : UploadBlock)
    (small : account.user.credits ≤ ullongMax) :
    (account.apply (loop.charge account.user.ratio block)).user.ratio = account.user.ratio ∧
      (account.apply (loop.charge account.user.ratio block)).user.credits =
        min ullongMax (account.user.credits + loop.earned account.user.ratio block) := by
  unfold UploadLoop.earned
  rcases loop.charge_cases account.user.ratio block with none | ⟨n, product, up, leech⟩
  · rw [none]
    refine ⟨rfl, ?_⟩
    change account.user.credits = min ullongMax (account.user.credits + 0)
    omega
  · rw [up]
    simp only [Account.apply, Account.withCredits]
    split
    · refine ⟨rfl, ?_⟩
      simp only
      omega
    · exact ⟨rfl, earnedCredits_eq_min _ _⟩

namespace Upload

variable {user : User} {s : Upload}

theorem start_exact (small : user.credits ≤ ullongMax) : Exact user (start user) := by
  refine ⟨rfl, ?_⟩
  simp only [start, Account.opened]
  omega

theorem exact_step_iff (loop : UploadLoop) (block : UploadBlock) (now : Exact user s) :
    Exact user (s.step loop block) ↔ BlockExact loop s block := by
  unfold step BlockExact
  cases running : s.running with
  | false =>
    simp only [Bool.false_eq_true, false_implies, iff_true]
    exact now
  | true =>
    have small : s.account.user.credits ≤ ullongMax := by
      rw [now.credits]
      exact Nat.min_le_left _ _
    obtain ⟨sameRatio, sum⟩ := s.account.apply_charge loop block small
    have books := now.credits
    have more : user.ratio * (s.written + block.stored) =
        user.ratio * s.written + user.ratio * block.stored := Nat.mul_add _ _ _
    rw [now.ratio] at sum sameRatio ⊢
    simp only [if_true, true_implies]
    constructor
    · intro after
      have credits := after.credits
      simp only [sum, more] at credits
      omega
    · intro fair
      refine ⟨?_, ?_⟩
      · simp only [sameRatio]
      · simp only [sum, more]
        omega

/-- A block that is written in full is credited exactly where the product of the loop
does not overflow. -/
theorem blockExact_of_whole (loop : UploadLoop) {block : UploadBlock}
    (ratio : s.account.user.ratio < 2 ^ 32) (whole : block.ret = block.size)
    (narrow : loop = .dataExecute → s.account.user.ratio * block.stored < 2 ^ 32) :
    BlockExact loop s block := by
  intro _
  left
  have size := block.fits
  have wide : s.account.user.ratio * block.size.toNat < 2 ^ 64 :=
    calc s.account.user.ratio * block.size.toNat
      _ < 2 ^ 32 * 2 ^ 32 := Nat.mul_lt_mul'' ratio (by omega)
      _ = 2 ^ 64 := rfl
  have stored : block.stored = block.size.toNat := congrArg Int.toNat whole
  rw [stored] at narrow ⊢
  unfold UploadLoop.earned
  by_cases received : block.size > 0
  · cases loop with
    | dataExecute =>
      simp only [UploadLoop.charge, dataExecuteCharge, if_pos received]
      exact mod_eq_of_lt (narrow rfl)
    | localStor =>
      simp only [UploadLoop.charge, threadCharge, whole, and_true, if_pos received]
      exact mod_eq_of_lt wide
  · have zero : block.size.toNat = 0 := by omega
    cases loop with
    | dataExecute =>
      simp [UploadLoop.charge, dataExecuteCharge, if_neg received, zero]
    | localStor =>
      simp [UploadLoop.charge, threadCharge, received, zero]

end Upload

/-- The credits are exact after every block of an upload if all blocks are written in full
and, for `data_execute`, no product needs more than 32 bits. In any run they are so exactly if
every block is credited by what it adds to the file. -/
theorem upload_credits_exact_iff (loop : UploadLoop) (user : User)
    (small : user.credits ≤ ullongMax) (blocks : List UploadBlock) :
    (user.ratio < 2 ^ 32 → (∀ block ∈ blocks, block.ret = block.size ∧
        (loop = .dataExecute → user.ratio * block.stored < 2 ^ 32)) →
      Throughout (Upload.step loop) (Upload.Exact user) (Upload.start user) blocks) ∧
    (Throughout (Upload.step loop) (Upload.Exact user) (Upload.start user) blocks ↔
      Always (Upload.step loop) (Upload.BlockExact loop) (Upload.start user) blocks) := by
  have now := Upload.start_exact small
  refine ⟨fun ratio plain => ?_, throughout_iff_always (Upload.step loop) (Upload.Exact user)
    (Upload.BlockExact loop) (fun _ block now => Upload.exact_step_iff loop block now) blocks _
    now⟩
  apply throughout_of_always (Upload.step loop) (Upload.Exact user)
    (fun _ block => block.ret = block.size ∧
      (loop = .dataExecute → user.ratio * block.stored < 2 ^ 32)) ?_ blocks _ now
  · exact always_of_forall_mem blocks (fun block member _ => plain block member) _
  rintro _ block now ⟨whole, narrow⟩
  rw [Upload.exact_step_iff loop block now]
  apply Upload.blockExact_of_whole loop
  · rw [now.ratio]
    exact ratio
  · exact whole
  · rw [now.ratio]
    exact narrow

def wholeBlock : UploadBlock := ⟨10, 10, by decide, by decide⟩

def failedBlock : UploadBlock := ⟨10, -1, by decide, by decide⟩

def shortBlock : UploadBlock := ⟨10, 4, by decide, by decide⟩

theorem upload_credits_exact_two_blocks :
    Throughout (Upload.step .dataExecute) (Upload.Exact debtor) (Upload.start debtor)
        [wholeBlock, wholeBlock] ∧
      Throughout (Upload.step .localStor) (Upload.Exact debtor) (Upload.start debtor)
        [wholeBlock, wholeBlock] := by
  refine ⟨(upload_credits_exact_iff .dataExecute debtor (by decide) _).1 (by decide) ?_,
    (upload_credits_exact_iff .localStor debtor (by decide) _).1 (by decide) ?_⟩ <;> decide

def richUser : User := { srvUser with ratio := 2 ^ 31 }

def twoBytes : UploadBlock := ⟨2, 2, by decide, by decide⟩

/-- `data_execute` credits a block that was not written, and credits nothing for two
bytes at a ratio of 2^31; `do_local_stor` credits nothing for the part of a block that
was written. -/
theorem upload_credits_not_exact :
    let failed := [failedBlock].foldl (Upload.step .dataExecute) (Upload.start debtor)
    let wide := [twoBytes].foldl (Upload.step .dataExecute) (Upload.start richUser)
    let short := [shortBlock].foldl (Upload.step .localStor) (Upload.start debtor)
    (failed.account.user.credits = 40 ∧ failed.written = 0 ∧ ¬failed.Exact debtor) ∧
      (wide.account.user.credits = 0 ∧ wide.written = 2 ∧ ¬wide.Exact richUser) ∧
      (short.account.user.credits = 10 ∧ short.written = 4 ∧ ¬short.Exact debtor) := by
  refine ⟨⟨by decide, by decide, fun same => ?_⟩, ⟨by decide, by decide, fun same => ?_⟩,
    ⟨by decide, by decide, fun same => ?_⟩⟩
  · exact absurd same.credits (by decide)
  · exact absurd same.credits (by decide)
  · exact absurd same.credits (by decide)

end Wzdftpd
