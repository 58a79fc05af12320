import Wzdftpd.SiteEffects

/- Slots are paid for accounts: what an admin has left, plus the number of accounts that
were paid for. -/
namespace Wzdftpd

open Function Option

/-- The slots of one account and the number of accounts that count. -/
def Site.book (slots : UserRecord → Nat) (counts : UserRecord → Bool) (uid : Nat) (site : Site) :
    Nat :=
  ((site.user uid).map slots).getD 0 + site.users.total fun user => (counts user).toNat

def UserRecord.entry (slots : UserRecord → Nat) (counts : UserRecord → Bool) (uid : Nat)
    (user : UserRecord) : Nat :=
  (if user.id = uid then slots user else 0) + (counts user).toNat

section

variable {slots : UserRecord → Nat} {counts : UserRecord → Bool} {uid : Nat} {site : Site}
  {user edited : UserRecord}

theorem Site.book_put (known : site.user user.id = some user) (same : edited.uid = user.uid) :
    (site.put edited).book slots counts uid + user.entry slots counts uid =
      site.book slots counts uid + edited.entry slots counts uid := by
  have total := Site.total_put (fun user => (counts user).toNat) known same
  have lookup := congrFun (Site.user_put known same) uid
  unfold book UserRecord.entry
  rw [UserRecord.id_eq same, lookup]
  by_cases own : user.id = uid
  · rw [if_pos own, if_pos own, ← own, update_self, known, map_some, map_some, getD_some, getD_some]
    omega
  · rw [if_neg own, if_neg own, update_of_ne (Ne.symm own)]
    omega

theorem Site.book_created {created : Site} {newuser : UserRecord}
    (free : site.user newuser.id = none)
    (lookup : created.user = Function.update site.user newuser.id (some newuser))
    (total : ∀ weight : UserRecord → Nat,
      created.users.total weight + Tally.cell weight (site.user newuser.id) =
        site.users.total weight + weight newuser) :
    created.book slots counts uid =
      site.book slots counts uid + newuser.entry slots counts uid := by
  have sum := total fun user => (counts user).toNat
  rw [free, Tally.cell_none] at sum
  unfold book UserRecord.entry
  rw [lookup]
  by_cases own : newuser.id = uid
  · rw [if_pos own, ← own, update_self, free, map_some, map_none, getD_some, getD_none]
    omega
  · rw [if_neg own, update_of_ne (Ne.symm own)]
    omega

end

end Wzdftpd
