import Wzdftpd.CNumber
import Wzdftpd.Session

/- The crontab (wzd_crontab.c): a list of jobs sorted by the time of their next run, which
`cronjob_run` executes and puts back into the list or frees. -/
namespace Wzdftpd

/-- `struct tm`, as far as the next date is computed from it. -/
structure BrokenTime where
  sec : Int := 0
  min : Int := 0
  hour : Int := 0
  mday : Int := 0
  mon : Int := 0
  year : Int := 0

/-- `localtime` and `mktime`. -/
structure Calendar where
  localtime : Int → BrokenTime
  mktime : BrokenTime → Int

structure Schedule where
  minutes : Text
  hours : Text := []
  dayOfMonth : Text := []
  month : Text := []
  dayOfWeek : Text := []
  deriving DecidableEq

/-- The special minutes of a job that is not scheduled again. -/
def once : Text := "ONCE".toList

/-- A field of a schedule as an `int`, -1 for `*`. -/
def cronNumber (field : Text) : Int :=
  if field.head? = some '*' then -1
  else (((CNumber.readDecimal field).map CNumber.Reading.toLong).getD 0).bmod (2 ^ 32)

/-- The date that `cronjob_find_next_exec_date` hands to `mktime`. -/
def nextExecTime (ltm : BrokenTime) (minutes hours dayOfMonth month : Int) : BrokenTime :=
  let positive (n : Int) : Int := if n > 0 then n else 0
  if month ≠ -1 then
    { sec := 0, min := positive minutes, hour := positive hours, mday := positive dayOfMonth
      year := if month ≤ ltm.mon then ltm.year + 1 else ltm.year, mon := month }
  else if dayOfMonth ≠ -1 then
    { ltm with
      sec := 0, min := positive minutes, hour := positive hours
      mon := if dayOfMonth ≤ ltm.mday then ltm.mon + 1 else ltm.mon, mday := dayOfMonth }
  else if hours ≠ -1 then
    { ltm with
      sec := 0, min := positive minutes
      mday := if hours ≤ ltm.hour then ltm.mday + 1 else ltm.mday, hour := hours }
  else if minutes ≠ -1 then
    { ltm with
      sec := 0, hour := if minutes ≤ ltm.min then ltm.hour + 1 else ltm.hour, min := minutes }
  else { ltm with min := ltm.min + 1 }

/-- `cronjob_find_next_exec_date`. The month counts from 0 in `struct tm`. -/
def cronjobFindNextExecDate (cal : Calendar) (start : Int) (s : Schedule) : Int :=
  if s.minutes = once then 0
  else
    let month := if s.month.head? = some '*' then -1 else cronNumber s.month - 1
    cal.mktime (nextExecTime (cal.localtime start) (cronNumber s.minutes) (cronNumber s.hours)
      (cronNumber s.dayOfMonth) month)

/-- What `strncpy` stores of a field. -/
def Schedule.stored (s : Schedule) : Schedule :=
  ⟨s.minutes.take 32, s.hours.take 32, s.dayOfMonth.take 32, s.month.take 32, s.dayOfWeek.take 32⟩

/-- A stored field as it is read: one without a terminator runs on into the next. -/
def runOn (field next : Text) : Text := if field.length < 32 then field else field ++ next

def Schedule.read (s : Schedule) : Schedule :=
  let month := runOn s.month s.dayOfWeek
  let dayOfMonth := runOn s.dayOfMonth month
  let hours := runOn s.hours dayOfMonth
  ⟨runOn s.minutes hours, hours, dayOfMonth, month, s.dayOfWeek⟩

/-- What the execution of a job calls. -/
inductive HookCall where
  | function (fn : Nat)
  | external (command : Text)
  deriving DecidableEq

/-- `wzd_cronjob_t` and its hook; the id stands for the address of the structure. -/
structure CronJob where
  id : Nat
  hook : Option Nat
  externalCommand : Option Text
  schedule : Schedule
  nextRun : Int
  deriving DecidableEq

/-- What `cronjob_run` calls for a job, with the id of the job. -/
def CronJob.call (job : CronJob) : Option (Nat × HookCall) :=
  match job.hook, job.externalCommand with
  | some fn, _ => some (job.id, .function fn)
  | none, some command => some (job.id, .external command)
  | none, none => none

/-- The loop of `_crontab_insert_sorted`, which looks at the successors of the head. -/
def insertBehind (job : CronJob) : List CronJob → List CronJob
  | [] => [job]
  | next :: rest =>
    if job.nextRun > next.nextRun then next :: insertBehind job rest else job :: next :: rest

/-- `_crontab_insert_sorted` -/
def crontabInsertSorted (job : CronJob) : List CronJob → List CronJob
  | [] => [job]
  | current :: rest =>
    if job.nextRun < current.nextRun then job :: current :: rest
    else current :: insertBehind job rest

/-- The first loop of `cronjob_run`: the calls, and the list with the executed jobs marked
by 0. -/
def executeDue (now : Int) : List CronJob → List (Nat × HookCall) × List CronJob
  | [] => ([], [])
  | job :: jobs =>
    if now ≥ job.nextRun then
      let (calls, rest) := executeDue now jobs
      (job.call.toList ++ calls, { job with nextRun := 0 } :: rest)
    else ([], job :: jobs)

def CronJob.rescheduled (cal : Calendar) (now : Int) (job : CronJob) : CronJob :=
  { job with nextRun := cronjobFindNextExecDate cal now job.schedule.read }

/-- The second loop of `cronjob_run`, with a bound on its turns: the list, and the jobs
to free. -/
def putBack (cal : Calendar) (now : Int) :
    Nat → List CronJob → List CronJob → Option (List CronJob × List CronJob)
  | 0, _, _ => none
  | _ + 1, [], toFree => some ([], toFree)
  | turns + 1, job :: jobs, toFree =>
    if job.nextRun = 0 then
      let job := job.rescheduled cal now
      if job.nextRun ≠ 0 then putBack cal now turns (crontabInsertSorted job jobs) toFree
      else putBack cal now turns jobs (job :: toFree)
    else some (job :: jobs, toFree)

/-- What a call of `cronjob_run` leaves and what it has done. -/
structure CronRun where
  crontab : List CronJob
  calls : List (Nat × HookCall) := []
  freed : List CronJob := []
  deriving DecidableEq

/-- `cronjob_run` at the time `now`. -/
def cronjobRun (cal : Calendar) (now : Nat) (crontab : List CronJob) : Option CronRun :=
  if crontab.head?.all fun job => (now : Int) < job.nextRun then some { crontab }
  else
    let (calls, marked) := executeDue now crontab
    (putBack cal now (marked.length + 1) marked []).map fun (crontab, freed) =>
      { crontab, calls, freed }

/-- The crontab with its history: how many jobs were created, the calls, and the jobs freed. -/
structure Cron where
  crontab : List CronJob := []
  created : Nat := 0
  calls : List (Nat × HookCall) := []
  freed : List CronJob := []

/-- A new job in the list, or the code 1 if there is nothing to call. -/
def Cron.insert (s : Cron) (fn : Option Nat) (command : Option Text) (schedule : Schedule)
    (nextRun : Int) : Int × Cron :=
  if fn = none ∧ command = none then (1, s)
  else
    (0, { s with
      crontab := crontabInsertSorted ⟨s.created, fn, command, schedule, nextRun⟩ s.crontab
      created := s.created + 1 })

/-- `cronjob_add` at the time `now`. -/
def cronjobAdd (cal : Calendar) (now : Nat) (fn : Option Nat) (command : Option Text)
    (schedule : Schedule) (s : Cron) : Int × Cron :=
  s.insert fn command schedule.stored (cronjobFindNextExecDate cal now schedule)

/-- `cronjob_add_once` -/
def cronjobAddOnce (fn : Option Nat) (command : Option Text) (date : Int) (s : Cron) :
    Int × Cron :=
  s.insert fn command ⟨once, [], [], [], []⟩ date

/-- The calls of the crontab, with the time at which they are made. -/
inductive CronOp where
  | add (now : Nat) (fn : Option Nat) (command : Option Text) (schedule : Schedule)
  | addOnce (fn : Option Nat) (command : Option Text) (date : Int)
  | run (now : Nat)

def cronStep (cal : Calendar) (s : Cron) : CronOp → Option Cron
  | .add now fn command schedule => some (cronjobAdd cal now fn command schedule s).2
  | .addOnce fn command date => some (cronjobAddOnce fn command date s).2
  | .run now =>
    (cronjobRun cal now s.crontab).map fun run =>
      { s with crontab := run.crontab, calls := s.calls ++ run.calls
               freed := run.freed ++ s.freed }

end Wzdftpd
