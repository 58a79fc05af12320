import Wzdftpd.SiteSlots

/- What group admins cannot do with the SITE commands: nobody gets a flag from them. -/
namespace Wzdftpd

open Runs

/-- The account had its flags at the start, the mark of a deleted one apart. -/
def HadFlags (start : Site) (user : UserRecord) : Prop :=
  ∀ flag ≠ 'D', user.has flag = true → ∃ old, start.user user.id = some old ∧ old.has flag = true

/-- A command is sent by a group admin. -/
def ByGadmin (s : Option Site) : SiteEvent → Prop
  | .send caller _ => s.all fun site => site.gadmin caller.userid
  | .fire _ => True

variable {w : SiteWorld} {caller : Caller} {site start : Site} {me user edited : UserRecord}

theorem HadFlags.of_flags (had : HadFlags start user) (uid : edited.uid = user.uid)
    (flags : ∀ flag ≠ 'D', edited.has flag = user.has flag) : HadFlags start edited := by
  intro flag other has
  rw [UserRecord.id_eq uid]
  exact had flag other (flags flag other ▸ has)

theorem gadmin_sets_no_flags {line after : Text}
    (gadmin : me.has 'G' = true) : changePlan w site line me ≠ .ok (user, .flags after) := by
  intro passed
  simp only [changePlan, Check.bind_eq_ok, Check.pure_eq_ok] at passed
  obtain ⟨_, _, _, _, _, _, _, _, _, _, _, chosen, same⟩ := passed
  cases same
  unfold fieldEdit at chosen
  -- every field but `flags` has another edit, and that one is refused
  repeat
    rcases ite_eq_ok chosen with done | chosen
    · simp only [Check.bind_eq_ok, Check.pure_eq_ok, refuseIf_eq_ok, gadminField, gadmin, slotsEdit,
        limitEdit, numberEdit, ite_eq_iff, Except.ok.injEq, reduceCtorEq, and_false, false_and,
        or_false, exists_false] at done
  cases chosen

theorem SiteEffect.hadFlags {command : SiteCommand} {users : Accounts} {job : Option Job}
    (effect : SiteEffect w caller site command users job)
    (gadmin : site.gadmin caller.userid = true)
    (exclusive : start.users.All fun user => Exclusive user.flags)
    (all : site.users.All (HadFlags start)) : users.All (HadFlags start) := by
  obtain ⟨_, own, flag⟩ := Site.gadmin_iff.mp gadmin
  refine effect.all all (fun user none_set flag _ has => ?_) (fun {user edited} kept had => ?_)
    fun here allowed _ _ _ => ?_
  · rw [UserRecord.has, none_set] at has
    cases has
  · refine had.of_flags kept.uid fun c other => ?_
    rcases kept.flags with same | marked | unmarked
    · exact UserRecord.has_eq same c
    · exact (UserRecord.has_eq marked c).trans (user.has_marked_of_ne other)
    · exact (UserRecord.has_eq unmarked c).trans (user.has_unmarked_of_ne other)
  · cases own.symm.trans here
    rcases allowed with siteop | ⟨_, _, passed⟩
    · obtain ⟨_, found, gadmin⟩ := all _ _ own 'G' (by decide) flag
      obtain ⟨_, again, operator⟩ := all _ _ own 'O' (by decide) siteop
      cases found.symm.trans again
      exact absurd ⟨of_decide_eq_true operator, of_decide_eq_true gadmin⟩ (exclusive _ _ found)
    · exact absurd passed (gadmin_sets_no_flags flag)

end Wzdftpd
