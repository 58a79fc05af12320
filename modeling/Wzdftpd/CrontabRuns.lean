import Wzdftpd.Crontab
import Wzdftpd.Runs

/- Histories of the crontab: the list stays sorted, every job that was created is in it or
was freed, and a call of `cronjob_run` executes each job whose time has come once. -/
namespace Wzdftpd

open List

def NotLater (job other : CronJob) : Prop := job.nextRun ≤ other.nextRun

instance : DecidableRel NotLater := fun _ _ => inferInstanceAs (Decidable (_ ≤ _))

instance : Std.Total NotLater := ⟨fun job other => Int.le_total job.nextRun other.nextRun⟩

instance : IsTrans CronJob NotLater := ⟨fun _ _ _ => Int.le_trans⟩

abbrev InOrder (crontab : List CronJob) : Prop := crontab.Pairwise NotLater

theorem insertBehind_eq (job : CronJob) (jobs : List CronJob) :
    insertBehind job jobs = jobs.orderedInsert NotLater job := by
  induction jobs with
  | nil => rfl
  | cons next rest ih =>
    rw [insertBehind, orderedInsert_cons, ih]
    by_cases later : job.nextRun > next.nextRun
    · have order : ¬NotLater job next := Int.not_le.mpr later
      rw [if_pos later, if_neg order]
    · have order : NotLater job next := Int.not_lt.mp later
      rw [if_neg later, if_pos order]

theorem crontabInsertSorted_perm (job : CronJob) (jobs : List CronJob) :
    (crontabInsertSorted job jobs).Perm (job :: jobs) := by
  cases jobs with
  | nil => exact .refl _
  | cons current rest =>
    rw [crontabInsertSorted]
    split
    · exact .refl _
    · rw [insertBehind_eq]
      exact ((rest.perm_orderedInsert NotLater job).cons current).trans (.swap job current rest)

variable {jobs : List CronJob}

theorem InOrder.insertSorted (sorted : InOrder jobs) (job : CronJob) :
    InOrder (crontabInsertSorted job jobs) := by
  cases jobs with
  | nil => exact pairwise_singleton _ _
  | cons current rest =>
    obtain ⟨first, behind⟩ := pairwise_cons.mp sorted
    rw [crontabInsertSorted]
    split
    · rename_i earlier
      refine pairwise_cons.mpr ⟨fun other member => ?_, sorted⟩
      rcases mem_cons.mp member with rfl | later
      · exact Int.le_of_lt earlier
      · exact Int.le_trans (Int.le_of_lt earlier) (first other later)
    · rename_i later
      rw [insertBehind_eq]
      refine pairwise_cons.mpr ⟨fun other member => ?_, behind.orderedInsert job rest⟩
      rcases (mem_orderedInsert NotLater).mp member with rfl | old
      · exact Int.not_lt.mp later
      · exact first other old

def CronJob.Once (job : CronJob) : Prop := job.schedule.read.minutes = once

instance (job : CronJob) : Decidable job.Once := inferInstanceAs (Decidable (_ = _))

/-- The next dates of the jobs that are due are later than the time they are computed at. -/
def Calendar.Advances (cal : Calendar) (now : Nat) (jobs : List CronJob) : Prop :=
  ∀ job ∈ jobs, job.nextRun ≤ now → ¬job.Once → now < (job.rescheduled cal now).nextRun

instance (cal : Calendar) (now : Nat) (jobs : List CronJob) : Decidable (cal.Advances now jobs) :=
  inferInstanceAs (Decidable (∀ job ∈ jobs, _))

/-- The dates that a call computes. -/
def CronOp.Advances (cal : Calendar) (s : Cron) : CronOp → Prop
  | .run now => cal.Advances now s.crontab
  | _ => True

variable {job : CronJob}

section Run

variable {cal : Calendar} {now : Nat}

theorem nextRun_rescheduled_once (single : job.Once) : (job.rescheduled cal now).nextRun = 0 :=
  if_pos single

def due (now : Nat) (jobs : List CronJob) : List CronJob :=
  jobs.filter fun job => job.nextRun ≤ now

def notDue (now : Nat) (jobs : List CronJob) : List CronJob :=
  jobs.filter fun job => (now : Int) < job.nextRun

def CronJob.marked (job : CronJob) : CronJob := { job with nextRun := 0 }

def markedList (now : Nat) (jobs : List CronJob) : List CronJob :=
  (due now jobs).map CronJob.marked ++ notDue now jobs

theorem InOrder.not_due (sorted : InOrder (job :: jobs)) (early : (now : Int) < job.nextRun) :
    due now (job :: jobs) = [] ∧ notDue now (job :: jobs) = job :: jobs := by
  have all : ∀ other ∈ job :: jobs, (now : Int) < other.nextRun := by
    intro other member
    rcases mem_cons.mp member with rfl | later
    · exact early
    · exact Int.lt_of_lt_of_le early (rel_of_pairwise_cons sorted later)
  constructor
  · refine filter_eq_nil_iff.mpr fun other member => ?_
    exact decide_eq_false (Int.not_le.mpr (all other member)) ▸ Bool.false_ne_true
  · exact filter_eq_self.mpr fun other member => decide_eq_true (all other member)

theorem executeDue_eq (sorted : InOrder jobs) :
    executeDue now jobs = ((due now jobs).filterMap CronJob.call, markedList now jobs) := by
  induction jobs with
  | nil => rfl
  | cons job jobs ih =>
    by_cases ready : job.nextRun ≤ now
    · have here : due now (job :: jobs) = job :: due now jobs :=
        filter_cons_of_pos (decide_eq_true ready)
      have there : notDue now (job :: jobs) = notDue now jobs :=
        filter_cons_of_neg (by simpa using ready)
      rw [executeDue, if_pos ready, ih sorted.of_cons, markedList, markedList, here, there,
        filterMap_cons]
      cases job.call <;> rfl
    · have none_due := sorted.not_due (Int.not_le.mp ready)
      rw [executeDue, if_neg ready, markedList, none_due.1, none_due.2]
      rfl

/-- The jobs that carry the mark, and the others. -/
def executed (jobs : List CronJob) : List CronJob := jobs.filter fun job => job.nextRun = 0

def waiting (jobs : List CronJob) : List CronJob := jobs.filter fun job => job.nextRun ≠ 0

def periodic (jobs : List CronJob) : List CronJob := jobs.filter fun job => ¬job.Once

def single (jobs : List CronJob) : List CronJob := jobs.filter fun job => job.Once

theorem InOrder.waiting (sorted : InOrder (job :: jobs)) (positive : 0 < job.nextRun) :
    executed (job :: jobs) = [] ∧ Wzdftpd.waiting (job :: jobs) = job :: jobs := by
  have all : ∀ other ∈ job :: jobs, other.nextRun ≠ 0 := by
    intro other member
    rcases mem_cons.mp member with rfl | later
    · omega
    · have order : job.nextRun ≤ other.nextRun := rel_of_pairwise_cons sorted later
      omega
  constructor
  · exact filter_eq_nil_iff.mpr fun other member => by simpa using all other member
  · exact filter_eq_self.mpr fun other member => decide_eq_true (all other member)

theorem executed_insertSorted (date : job.nextRun ≠ 0) (jobs : List CronJob) :
    (executed (crontabInsertSorted job jobs)).Perm (executed jobs) := by
  have both := (crontabInsertSorted_perm job jobs).filter fun other => decide (other.nextRun = 0)
  rw [filter_cons_of_neg (by simpa using date)] at both
  exact both

theorem waiting_insertSorted (date : job.nextRun ≠ 0) (jobs : List CronJob) :
    (waiting (crontabInsertSorted job jobs)).Perm (job :: waiting jobs) := by
  have both := (crontabInsertSorted_perm job jobs).filter fun other => decide (other.nextRun ≠ 0)
  rw [filter_cons_of_pos (by simpa using date)] at both
  exact both

/-- The marked jobs are taken off the list; periodic ones are put back with their next date,
others are left to be freed. -/
structure PutBack (cal : Calendar) (now : Nat) (jobs toFree crontab freed : List CronJob) :
    Prop where
  sorted : InOrder crontab
  kept : crontab.Perm ((periodic (executed jobs)).map (·.rescheduled cal now) ++ waiting jobs)
  freed : freed.Perm ((single (executed jobs)).map (·.rescheduled cal now) ++ toFree)

section Turn

variable {job : CronJob} {jobs toFree crontab freed : List CronJob}

theorem executed_cons (mark : job.nextRun = 0) : executed (job :: jobs) = job :: executed jobs :=
  filter_cons_of_pos (decide_eq_true mark)

theorem waiting_cons (mark : job.nextRun = 0) : waiting (job :: jobs) = waiting jobs :=
  filter_cons_of_neg (by simpa using mark)

theorem PutBack.single (mark : job.nextRun = 0) (last : job.Once)
    (rest : PutBack cal now jobs (job.rescheduled cal now :: toFree) crontab freed) :
    PutBack cal now (job :: jobs) toFree crontab freed := by
  have skipped : periodic (job :: executed jobs) = periodic (executed jobs) :=
    filter_cons_of_neg (by simpa using last)
  have listed : Wzdftpd.single (job :: executed jobs) = job :: Wzdftpd.single (executed jobs) :=
    filter_cons_of_pos (decide_eq_true last)
  refine ⟨rest.sorted, ?_, ?_⟩
  · rw [executed_cons mark, waiting_cons mark, skipped]
    exact rest.kept
  · rw [executed_cons mark, listed]
    exact rest.freed.trans perm_middle

theorem PutBack.periodic (mark : job.nextRun = 0) (again : ¬job.Once)
    (later : (job.rescheduled cal now).nextRun ≠ 0)
    (rest : PutBack cal now (crontabInsertSorted (job.rescheduled cal now) jobs) toFree
      crontab freed) :
    PutBack cal now (job :: jobs) toFree crontab freed := by
  have same := executed_insertSorted later jobs
  have listed : Wzdftpd.periodic (job :: executed jobs) = job :: Wzdftpd.periodic (executed jobs) :=
    filter_cons_of_pos (by simpa using again)
  have skipped : Wzdftpd.single (job :: executed jobs) = Wzdftpd.single (executed jobs) :=
    filter_cons_of_neg (by simpa using again)
  refine ⟨rest.sorted, rest.kept.trans ?_, rest.freed.trans ?_⟩
  · rw [executed_cons mark, waiting_cons mark, listed]
    refine (((same.filter _).map _).append (waiting_insertSorted later jobs)).trans ?_
    exact perm_middle
  · rw [executed_cons mark, skipped]
    exact ((same.filter _).map _).append_right toFree

end Turn

theorem putBack_spec (turns : Nat) :
    ∀ {jobs toFree : List CronJob}, cal.Advances now jobs → InOrder jobs →
      (∀ job ∈ jobs, 0 ≤ job.nextRun) → (executed jobs).length < turns →
      ∃ crontab freed, putBack cal now turns jobs toFree = some (crontab, freed) ∧
        PutBack cal now jobs toFree crontab freed := by
  induction turns with
  | zero =>
    intro jobs toFree _ _ _ enough
    exact absurd enough (Nat.not_lt_zero _)
  | succ turns ih =>
    intro jobs toFree advances sorted positive enough
    cases jobs with
    | nil => exact ⟨[], toFree, rfl, sorted, .refl _, .refl _⟩
    | cons job jobs =>
      by_cases mark : job.nextRun = 0
      · have fewer : (executed jobs).length < turns := by
          rw [executed_cons mark, length_cons] at enough
          omega
        have rest_positive : ∀ other ∈ jobs, 0 ≤ other.nextRun :=
          (forall_mem_cons.mp positive).2
        rw [putBack, if_pos mark]
        by_cases last : job.Once
        · have ended : (job.rescheduled cal now).nextRun = 0 := nextRun_rescheduled_once last
          rw [if_neg (not_not.mpr ended)]
          obtain ⟨crontab, freed, done, rest⟩ :=
            ih (forall_mem_cons.mp advances).2 sorted.of_cons rest_positive fewer
          exact ⟨crontab, freed, done, rest.single mark last⟩
        · have date : now < (job.rescheduled cal now).nextRun :=
            advances job mem_cons_self (by omega) last
          have later : (job.rescheduled cal now).nextRun ≠ 0 := by omega
          have inserted := crontabInsertSorted_perm (job.rescheduled cal now) jobs
          rw [if_pos later]
          obtain ⟨crontab, freed, done, rest⟩ := ih
            (fun other member early => by
              rcases mem_cons.mp (inserted.mem_iff.mp member) with rfl | old
              · omega
              · exact advances other (mem_cons_of_mem job old) early)
            (InOrder.insertSorted sorted.of_cons (job.rescheduled cal now))
            (fun other member => by
              rcases mem_cons.mp (inserted.mem_iff.mp member) with rfl | old
              · omega
              · exact rest_positive other old)
            (by rw [(executed_insertSorted later jobs).length_eq]; exact fewer)
          exact ⟨crontab, freed, done, rest.periodic mark last later⟩
      · have after : 0 < job.nextRun := by
          have := positive job mem_cons_self
          omega
        rw [putBack, if_neg mark]
        refine ⟨job :: jobs, toFree, rfl, sorted, ?_, ?_⟩
        · rw [(sorted.waiting after).1, (sorted.waiting after).2]
          exact .refl _
        · rw [(sorted.waiting after).1]
          exact .refl _

/-- The jobs that are due are executed in order, the periodic ones put back and the others
freed. -/
structure RunsDue (cal : Calendar) (now : Nat) (jobs : List CronJob) (run : CronRun) : Prop where
  sorted : InOrder run.crontab
  calls : run.calls = (due now jobs).filterMap CronJob.call
  kept : run.crontab.Perm ((periodic (due now jobs)).map (·.rescheduled cal now) ++
    notDue now jobs)
  freed : run.freed.Perm ((single (due now jobs)).map (·.rescheduled cal now))

theorem due_append_notDue (jobs : List CronJob) : (due now jobs ++ notDue now jobs).Perm jobs := by
  have rest : notDue now jobs = jobs.filter fun job => !decide (job.nextRun ≤ (now : Int)) := by
    refine filter_congr fun job _ => ?_
    simp [← decide_not]
  rw [rest]
  exact filter_append_perm _ jobs

theorem single_append_periodic (jobs : List CronJob) :
    (single jobs ++ periodic jobs).Perm jobs := by
  have rest : periodic jobs = jobs.filter fun job => !decide job.Once :=
    filter_congr fun job _ => decide_not
  rw [rest]
  exact filter_append_perm _ jobs

theorem nextRun_of_mem_notDue (member : job ∈ notDue now jobs) : (now : Int) < job.nextRun :=
  of_decide_eq_true (mem_filter.mp member).2

theorem nextRun_of_mem_marked (member : job ∈ (due now jobs).map CronJob.marked) :
    job.nextRun = 0 := by
  obtain ⟨_, _, rfl⟩ := mem_map.mp member
  rfl

theorem inOrder_marked (sorted : InOrder jobs) : InOrder (markedList now jobs) := by
  refine pairwise_append.mpr ⟨?_, sorted.filter _, fun job mark other later => ?_⟩
  · rw [pairwise_map]
    exact (sorted.filter _).imp fun _ => Int.le_refl 0
  · have early := nextRun_of_mem_marked mark
    have late := nextRun_of_mem_notDue later
    unfold NotLater
    omega

theorem executed_marked (jobs : List CronJob) :
    executed (markedList now jobs) = (due now jobs).map CronJob.marked := by
  have front : executed ((due now jobs).map CronJob.marked) = (due now jobs).map CronJob.marked :=
    filter_eq_self.mpr fun job member => decide_eq_true (nextRun_of_mem_marked member)
  have back : executed (notDue now jobs) = [] :=
    filter_eq_nil_iff.mpr fun job member => by
      have late := nextRun_of_mem_notDue member
      rw [decide_eq_true_iff]
      omega
  unfold executed at front back ⊢
  simp [markedList, front, back]

theorem waiting_marked (jobs : List CronJob) : waiting (markedList now jobs) = notDue now jobs := by
  have front : waiting ((due now jobs).map CronJob.marked) = [] :=
    filter_eq_nil_iff.mpr fun job member => by simpa using nextRun_of_mem_marked member
  have back : waiting (notDue now jobs) = notDue now jobs :=
    filter_eq_self.mpr fun job member => by
      have late := nextRun_of_mem_notDue member
      rw [decide_eq_true_iff]
      omega
  unfold waiting at front back ⊢
  rw [markedList, filter_append, front, back, nil_append]

theorem periodic_marked (jobs : List CronJob) :
    (periodic (jobs.map CronJob.marked)).map (·.rescheduled cal now) =
      (periodic jobs).map (·.rescheduled cal now) := by
  rw [periodic, filter_map, map_map]
  rfl

theorem single_marked (jobs : List CronJob) :
    (single (jobs.map CronJob.marked)).map (·.rescheduled cal now) =
      (single jobs).map (·.rescheduled cal now) := by
  rw [single, filter_map, map_map]
  rfl

theorem nonneg_of_mem_markedList (member : job ∈ markedList now jobs) : 0 ≤ job.nextRun := by
  rcases mem_append.mp member with mark | later
  · rw [nextRun_of_mem_marked mark]
  · have late := nextRun_of_mem_notDue later
    omega

theorem advances_marked (advances : cal.Advances now jobs) :
    cal.Advances now (markedList now jobs) := by
  intro job member early again
  rcases mem_append.mp member with mark | later
  · obtain ⟨old, ready, rfl⟩ := mem_map.mp mark
    obtain ⟨listed, due⟩ := mem_filter.mp ready
    exact advances old listed (of_decide_eq_true due) again
  · have late := nextRun_of_mem_notDue later
    omega

theorem cronjobRun_spec (advances : cal.Advances now jobs) (sorted : InOrder jobs) :
    ∃ run, cronjobRun cal now jobs = some run ∧ RunsDue cal now jobs run := by
  unfold cronjobRun
  by_cases early : jobs.head?.all fun job => (now : Int) < job.nextRun
  · have nothing : due now jobs = [] ∧ notDue now jobs = jobs := by
      cases jobs with
      | nil => exact ⟨rfl, rfl⟩
      | cons job jobs => exact sorted.not_due (of_decide_eq_true early)
    refine ⟨_, if_pos early, sorted, ?_, ?_, ?_⟩
    · rw [nothing.1]
      rfl
    · rw [nothing.1, nothing.2]
      exact .refl _
    · rw [nothing.1]
      exact .refl _
  · obtain ⟨crontab, freed, done, spec⟩ :
        ∃ crontab freed, putBack cal now ((markedList now jobs).length + 1) (markedList now jobs) []
          = some (crontab, freed) ∧ PutBack cal now (markedList now jobs) [] crontab freed :=
      putBack_spec _ (advances_marked advances) (inOrder_marked sorted)
        (fun job => nonneg_of_mem_markedList) (Nat.lt_succ_of_le (length_filter_le _ _))
    refine ⟨⟨crontab, (due now jobs).filterMap CronJob.call, freed⟩, ?_, spec.sorted, rfl, ?_, ?_⟩
    · rw [if_neg early, executeDue_eq sorted]
      simp [done]
    · have kept := spec.kept
      rw [executed_marked, waiting_marked, periodic_marked] at kept
      exact kept
    · have gone := spec.freed
      rw [executed_marked, single_marked, append_nil] at gone
      exact gone

end Run

def calledIds (calls : List (Nat × HookCall)) : List Nat := calls.map Prod.fst

theorem calledIds_append (calls more : List (Nat × HookCall)) :
    calledIds (calls ++ more) = calledIds calls ++ calledIds more :=
  map_append

theorem fst_of_call {called : Nat × HookCall} (calls : job.call = some called) :
    called.1 = job.id := by
  unfold CronJob.call at calls
  split at calls
  · rw [← Option.some.inj calls]
  · rw [← Option.some.inj calls]
  · cases calls

theorem isSome_call (some : ¬(job.hook = none ∧ job.externalCommand = none)) : job.call.isSome := by
  unfold CronJob.call
  split
  · rfl
  · rfl
  · rename_i nothing command
    exact absurd ⟨nothing, command⟩ some

theorem calledIds_filterMap (hooked : ∀ job ∈ jobs, job.call.isSome) :
    calledIds (jobs.filterMap CronJob.call) = jobs.map CronJob.id := by
  induction jobs with
  | nil => rfl
  | cons job jobs ih =>
    obtain ⟨_, calls⟩ := Option.isSome_iff_exists.mp (hooked job mem_cons_self)
    have rest := ih (forall_mem_cons.mp hooked).2
    rw [filterMap_cons_some calls, map_cons, ← rest, calledIds, map_cons,
      fst_of_call calls, calledIds]

/-- The state of the crontab after a history. -/
structure Cron.Accounted (s : Cron) : Prop where
  sorted : InOrder s.crontab
  ids : ((s.crontab ++ s.freed).map CronJob.id).Perm (range s.created)
  hooked : ∀ job ∈ s.crontab, job.call.isSome
  fresh : ∀ id ∈ calledIds s.calls, id < s.created
  pending : ∀ job ∈ s.crontab, job.Once → job.id ∉ calledIds s.calls
  freed : ∀ job ∈ s.freed, job.Once ∧ (calledIds s.calls).count job.id = 1

theorem accounted_empty : ({} : Cron).Accounted :=
  ⟨.nil, .refl _, fun _ none => absurd none not_mem_nil,
    fun _ none => absurd none not_mem_nil, fun _ none => absurd none not_mem_nil,
    fun _ none => absurd none not_mem_nil⟩

namespace Cron.Accounted

variable {s : Cron}

theorem nodup (all : s.Accounted) : ((s.crontab ++ s.freed).map CronJob.id).Nodup :=
  all.ids.nodup_iff.mpr nodup_range

theorem lt_created (all : s.Accounted) (member : job ∈ s.crontab ++ s.freed) : job.id < s.created :=
  mem_range.mp (all.ids.mem_iff.mp (mem_map_of_mem member))

theorem insert (all : s.Accounted) (fn : Option Nat) (command : Option Text) (schedule : Schedule)
    (nextRun : Int) : (s.insert fn command schedule nextRun).2.Accounted := by
  unfold Cron.insert
  by_cases nothing : fn = none ∧ command = none
  · rw [if_pos nothing]
    exact all
  rw [if_neg nothing]
  have perm := crontabInsertSorted_perm ⟨s.created, fn, command, schedule, nextRun⟩ s.crontab
  refine ⟨all.sorted.insertSorted _, ?_, ?_, ?_, ?_, all.freed⟩
  · rw [range_succ]
    refine ((perm.append_right s.freed).map CronJob.id).trans ?_
    exact (all.ids.cons s.created).trans (perm_append_singleton _ _).symm
  · intro job member
    rcases mem_cons.mp (perm.mem_iff.mp member) with rfl | old
    · exact isSome_call nothing
    · exact all.hooked job old
  · exact fun id called => Nat.lt_succ_of_lt (all.fresh id called)
  · intro job member single called
    rcases mem_cons.mp (perm.mem_iff.mp member) with rfl | old
    · exact Nat.lt_irrefl _ (all.fresh _ called)
    · exact all.pending job old single called

theorem id_inj (all : s.Accounted) {other : CronJob} (here : job ∈ s.crontab)
    (there : other ∈ s.crontab) (same : job.id = other.id) : job = other :=
  inj_on_of_nodup_map all.nodup (mem_append_left _ here) (mem_append_left _ there)
    same

variable {cal : Calendar} {now : Nat} {run : CronRun}

theorem calledIds_run (all : s.Accounted) (spec : RunsDue cal now s.crontab run) :
    calledIds run.calls = (due now s.crontab).map CronJob.id := by
  rw [spec.calls]
  exact calledIds_filterMap fun job member => all.hooked job (mem_of_mem_filter member)

theorem count_due (all : s.Accounted) (spec : RunsDue cal now s.crontab run)
    (member : job ∈ due now s.crontab) : (calledIds run.calls).count job.id = 1 := by
  rw [all.calledIds_run spec]
  have distinct : ((due now s.crontab).map CronJob.id).Nodup :=
    all.nodup.sublist ((filter_sublist.trans (sublist_append_left _ _)).map CronJob.id)
  exact count_eq_one_of_mem distinct (mem_map_of_mem member)

theorem not_called_of_notDue (all : s.Accounted) (spec : RunsDue cal now s.crontab run)
    (member : job ∈ notDue now s.crontab) : job.id ∉ calledIds run.calls := by
  rw [all.calledIds_run spec]
  intro called
  obtain ⟨other, ready, same⟩ := mem_map.mp called
  have equal := all.id_inj (mem_of_mem_filter ready) (mem_of_mem_filter member) same
  have early : other.nextRun ≤ now := of_decide_eq_true (mem_filter.mp ready).2
  have late := nextRun_of_mem_notDue member
  rw [equal] at early
  omega

theorem not_called_of_freed (all : s.Accounted) (spec : RunsDue cal now s.crontab run)
    (member : job ∈ s.freed) : job.id ∉ calledIds run.calls := by
  rw [all.calledIds_run spec]
  intro called
  obtain ⟨_, ready, same⟩ := mem_map.mp called
  have apart := nodup_append.mp (map_append ▸ all.nodup)
  exact apart.2.2 _ (mem_map_of_mem (mem_of_mem_filter ready)) _
    (mem_map_of_mem member) same

theorem mem_run_crontab (spec : RunsDue cal now s.crontab run) :
    job ∈ run.crontab ↔
      (∃ old ∈ due now s.crontab, ¬old.Once ∧ job = old.rescheduled cal now) ∨
        job ∈ notDue now s.crontab := by
  rw [spec.kept.mem_iff, mem_append, mem_map]
  refine or_congr_left ⟨?_, ?_⟩
  · rintro ⟨old, member, rfl⟩
    obtain ⟨ready, again⟩ := mem_filter.mp member
    exact ⟨old, ready, of_decide_eq_true again, rfl⟩
  · rintro ⟨old, ready, again, rfl⟩
    exact ⟨old, mem_filter.mpr ⟨ready, decide_eq_true again⟩, rfl⟩

theorem mem_run_freed (spec : RunsDue cal now s.crontab run) :
    job ∈ run.freed ↔ ∃ old ∈ due now s.crontab, old.Once ∧ job = old.rescheduled cal now := by
  rw [spec.freed.mem_iff, mem_map]
  constructor
  · rintro ⟨old, member, rfl⟩
    obtain ⟨ready, last⟩ := mem_filter.mp member
    exact ⟨old, ready, of_decide_eq_true last, rfl⟩
  · rintro ⟨old, ready, last, rfl⟩
    exact ⟨old, mem_filter.mpr ⟨ready, decide_eq_true last⟩, rfl⟩

theorem ids_run (spec : RunsDue cal now s.crontab run) :
    ((run.crontab ++ run.freed).map CronJob.id).Perm (s.crontab.map CronJob.id) := by
  have ids : ∀ jobs : List CronJob,
      (jobs.map (·.rescheduled cal now)).map CronJob.id = jobs.map CronJob.id := by
    intro jobs
    rw [map_map]
    rfl
  refine ((spec.kept.append spec.freed).map CronJob.id).trans ?_
  rw [map_append, map_append, ids, ids, ← map_append, ← map_append]
  refine Perm.map CronJob.id (perm_append_comm.trans ?_)
  rw [← append_assoc]
  exact ((single_append_periodic _).append_right _).trans (due_append_notDue s.crontab)

theorem ran (all : s.Accounted) (spec : RunsDue cal now s.crontab run) :
    Cron.Accounted { s with
      crontab := run.crontab, calls := s.calls ++ run.calls, freed := run.freed ++ s.freed } := by
  have once_due : ∀ old ∈ due now s.crontab, old.Once →
      (calledIds (s.calls ++ run.calls)).count old.id = 1 := by
    intro old ready last
    have before := all.pending old (mem_of_mem_filter ready) last
    rw [calledIds_append, count_append, count_eq_zero_of_not_mem before, all.count_due spec ready]
  refine ⟨spec.sorted, ?_, ?_, ?_, ?_, ?_⟩
  · rw [← append_assoc, map_append]
    refine ((ids_run spec).append_right _).trans ?_
    rw [← map_append]
    exact all.ids
  · intro job member
    rcases (mem_run_crontab spec).mp member with ⟨old, ready, _, rfl⟩ | waits
    · exact all.hooked old (mem_of_mem_filter ready)
    · exact all.hooked job (mem_of_mem_filter waits)
  · intro id called
    rw [calledIds_append, mem_append] at called
    rcases called with before | now_called
    · exact all.fresh id before
    · rw [all.calledIds_run spec] at now_called
      obtain ⟨old, ready, rfl⟩ := mem_map.mp now_called
      exact all.lt_created (mem_append_left _ (mem_of_mem_filter ready))
  · intro job member last called
    rw [calledIds_append, mem_append] at called
    rcases (mem_run_crontab spec).mp member with ⟨old, _, again, rfl⟩ | waits
    · exact again last
    · rcases called with before | now_called
      · exact all.pending job (mem_of_mem_filter waits) last before
      · exact all.not_called_of_notDue spec waits now_called
  · intro job member
    rcases mem_append.mp member with new | old
    · obtain ⟨old, ready, last, rfl⟩ := (mem_run_freed spec).mp new
      exact ⟨last, once_due old ready last⟩
    · obtain ⟨last, counted⟩ := all.freed job old
      refine ⟨last, ?_⟩
      rw [calledIds_append, count_append, counted,
        count_eq_zero_of_not_mem (all.not_called_of_freed spec old)]

theorem step (all : s.Accounted) (op : CronOp) (advances : op.Advances cal s) :
    ∃ after, cronStep cal s op = some after ∧ after.Accounted := by
  cases op with
  | add now fn command schedule => exact ⟨_, rfl, all.insert _ _ _ _⟩
  | addOnce fn command date => exact ⟨_, rfl, all.insert _ _ _ _⟩
  | run now =>
    obtain ⟨run, done, spec⟩ := cronjobRun_spec advances all.sorted
    exact ⟨_, by rw [cronStep, done, Option.map_some], all.ran spec⟩

end Cron.Accounted

/-- What becomes of a job when `cronjob_run` is called. -/
structure JobRuns (cal : Calendar) (now : Nat) (job : CronJob) (run : CronRun) : Prop where
  called : (calledIds run.calls).count job.id = if job.nextRun ≤ now then 1 else 0
  hook : job.nextRun ≤ now → ∃ call ∈ run.calls, job.call = some call
  waits : now < job.nextRun → job ∈ run.crontab
  again : job.nextRun ≤ now → ¬job.Once →
    job.rescheduled cal now ∈ run.crontab ∧ now < (job.rescheduled cal now).nextRun
  gone : job.nextRun ≤ now → job.Once →
    job.id ∉ run.crontab.map CronJob.id ∧ job.rescheduled cal now ∈ run.freed

namespace Cron.Accounted

variable {s : Cron} {cal : Calendar} {now : Nat} {run : CronRun} {job : CronJob}

theorem id_notMem_run (all : s.Accounted) (spec : RunsDue cal now s.crontab run)
    (member : job ∈ s.crontab) (ready : job.nextRun ≤ now) (last : job.Once) :
    job.id ∉ run.crontab.map CronJob.id := by
  intro found
  obtain ⟨_, kept, same⟩ := mem_map.mp found
  rcases (mem_run_crontab spec).mp kept with ⟨old, due, again, rfl⟩ | waits
  · have equal := all.id_inj (mem_of_mem_filter due) member same
    rw [equal] at again
    exact again last
  · have equal := all.id_inj (mem_of_mem_filter waits) member same
    have late := nextRun_of_mem_notDue waits
    rw [equal] at late
    omega

theorem jobRuns (advances : cal.Advances now s.crontab) (all : s.Accounted)
    (spec : RunsDue cal now s.crontab run) (member : job ∈ s.crontab) :
    JobRuns cal now job run := by
  have isDue : job.nextRun ≤ now → job ∈ due now s.crontab :=
    fun ready => mem_filter.mpr ⟨member, decide_eq_true ready⟩
  have isWaiting : now < job.nextRun → job ∈ notDue now s.crontab :=
    fun late => mem_filter.mpr ⟨member, decide_eq_true late⟩
  refine ⟨?_, fun ready => ?_, fun late => ?_, fun ready again => ⟨?_, ?_⟩,
    fun ready last => ⟨?_, ?_⟩⟩
  · by_cases ready : job.nextRun ≤ now
    · rw [if_pos ready, all.count_due spec (isDue ready)]
    · have waits := all.not_called_of_notDue spec (isWaiting (Int.not_le.mp ready))
      rw [if_neg ready, count_eq_zero_of_not_mem waits]
  · obtain ⟨call, calls⟩ := Option.isSome_iff_exists.mp (all.hooked job member)
    rw [spec.calls]
    exact ⟨call, mem_filterMap.mpr ⟨job, isDue ready, calls⟩, calls⟩
  · exact (mem_run_crontab spec).mpr (.inr (isWaiting late))
  · exact (mem_run_crontab spec).mpr (.inl ⟨job, isDue ready, again, rfl⟩)
  · exact advances job member ready again
  · exact all.id_notMem_run spec member ready last
  · exact (mem_run_freed spec).mpr ⟨job, isDue ready, last, rfl⟩

end Cron.Accounted

/-- After calls of the crontab that compute later dates its list is sorted, every job that
was added is in the list or was freed, and no job is in them twice. A job of the list that is
to run once was not called, one that was freed was called once. A further call of `cronjob_run`
executes each job whose time has come once, puts it back for a later time or frees it. -/
theorem crontab_runs_every_job (cal : Calendar) (ops : List CronOp)
    (advances : Runs.AlwaysM (cronStep cal) (fun s op => op.Advances cal s) {} ops) :
    ∃ s, ops.foldlM (cronStep cal) {} = some s ∧ InOrder s.crontab ∧
      ((s.crontab ++ s.freed).map CronJob.id).Perm (range s.created) ∧
      (∀ job ∈ s.crontab, job.Once → (calledIds s.calls).count job.id = 0) ∧
      (∀ job ∈ s.freed, job.Once ∧ (calledIds s.calls).count job.id = 1) ∧
      ∀ now, cal.Advances now s.crontab → ∃ run, cronjobRun cal now s.crontab = some run ∧
        InOrder run.crontab ∧ ∀ job ∈ s.crontab, JobRuns cal now job run := by
  obtain ⟨s, done, all⟩ := Runs.foldlM_succeeds Cron.Accounted
    (fun s op all later => all.step op later) ops accounted_empty advances
  refine ⟨s, done, all.sorted, all.ids, fun job member last => ?_, all.freed, fun now later => ?_⟩
  · exact count_eq_zero_of_not_mem (all.pending job member last)
  · obtain ⟨run, ran, spec⟩ := cronjobRun_spec later all.sorted
    exact ⟨run, ran, spec.sorted, fun job member => all.jobRuns later spec member⟩

/-- The first day of a month, counted from the epoch. Years begin in March, so that a leap
day is the last of its year. -/
def daysBefore (year month : Int) : Int :=
  let y := if month < 2 then year - 1 else year
  365 * y + y / 4 - y / 100 + y / 400 + (153 * ((month + 10) % 12) + 2) / 5 - 719468

/-- The calendar of the zone UTC. Years count from 1900 and months from 0. -/
def utc : Calendar where
  mktime time :=
    (((daysBefore (time.year + 1900 + time.mon / 12) (time.mon % 12) + time.mday - 1) * 24 +
      time.hour) * 60 + time.min) * 60 + time.sec
  localtime time :=
    let day := time / 86400 + 719468
    let era := day / 146097
    let doe := day % 146097
    let yoe := (doe - doe / 1460 + doe / 36524 - doe / 146096) / 365
    let doy := doe - (365 * yoe + yoe / 4 - yoe / 100)
    let mp := (5 * doy + 2) / 153
    { sec := time % 60, min := time / 60 % 60, hour := time / 3600 % 24
      mday := doy - (153 * mp + 2) / 5 + 1, mon := (mp + 2) % 12
      year := yoe + era * 400 + (if mp < 10 then 0 else 1) - 1900 }

/-- On 31 January 2026 at 12:00 a job of every minute is added, one of 6 o'clock, and one that
runs once; they are due at midnight of the next day but one. -/
def winterOps : List CronOp :=
  [.add 1769860800 (some 1) none ⟨['*'], ['*'], ['*'], ['*'], ['*']⟩,
    .add 1769860800 (some 2) none ⟨['0'], ['6'], ['*'], ['*'], ['*']⟩,
    .addOnce none (some "purge".toList) 1769860803, .run 1769990400]

theorem crontab_runs_every_job_winter :
    ∃ s, winterOps.foldlM (cronStep utc) {} = some s ∧ InOrder s.crontab ∧
      s.calls = [(2, .external "purge".toList), (0, .function 1), (1, .function 2)] ∧
      s.crontab.map (fun job => (job.id, job.nextRun)) = [(0, 1769990460), (1, 1770012000)] ∧
      s.freed.map CronJob.id = [2] := by
  have advances : Runs.AlwaysM (cronStep utc) (fun s op => op.Advances utc s) {} winterOps := by
    refine ⟨trivial, fun s done => ?_⟩
    cases done
    refine ⟨trivial, fun s done => ?_⟩
    cases done
    refine ⟨trivial, fun s done => ?_⟩
    cases done
    refine ⟨?_, fun s done => trivial⟩
    change utc.Advances _ _
    decide +kernel
  obtain ⟨s, done, sorted, _⟩ := crontab_runs_every_job utc winterOps advances
  have seen : (winterOps.foldlM (cronStep utc) {}).map (fun s => (s.calls,
      s.crontab.map (fun job => (job.id, job.nextRun)), s.freed.map CronJob.id)) =
      some ([(2, .external "purge".toList), (0, .function 1), (1, .function 2)],
        [(0, 1769990460), (1, 1770012000)], [2]) := by decide +kernel
  rw [done, Option.map_some, Option.some.injEq, Prod.mk.injEq, Prod.mk.injEq] at seen
  exact ⟨s, done, sorted, seen⟩

end Wzdftpd
