import Mathlib.Data.List.Basic

/- Runs of a machine that takes one event at a time, and how a property of its
states is kept along them. States and events have arbitrary types. -/
namespace Runs

open List Option

variable {σ ε : Type}

/-- Every event of a run meets a condition in the state it finds. -/
def Always (step : σ → ε → σ) (ok : σ → ε → Prop) : σ → List ε → Prop
  | _, [] => True
  | s, event :: events => ok s event ∧ Always step ok (step s event) events

/-- A property holds in every state a run passes through, its ends included. -/
def Throughout (step : σ → ε → σ) (inv : σ → Prop) (s : σ) (events : List ε) : Prop :=
  ∀ passed, passed <+: events → inv (passed.foldl step s)

theorem throughout_nil (step : σ → ε → σ) (inv : σ → Prop) (s : σ) :
    Throughout step inv s [] ↔ inv s := by
  constructor
  · exact fun holds => holds [] nil_prefix
  · intro now passed before
    rw [prefix_nil.mp before]
    exact now

theorem throughout_cons (step : σ → ε → σ) (inv : σ → Prop) (s : σ) (event : ε) (events : List ε) :
    Throughout step inv s (event :: events) ↔
      inv s ∧ Throughout step inv (step s event) events := by
  constructor
  · intro holds
    refine ⟨holds [] nil_prefix, fun passed before => ?_⟩
    exact holds (event :: passed) ((prefix_cons_inj event).mpr before)
  rintro ⟨now, later⟩ passed before
  cases passed with
  | nil => exact now
  | cons first passed =>
    obtain ⟨rfl, rest⟩ := cons_prefix_cons.mp before
    exact later passed rest

variable {step : σ → ε → σ} {inv : σ → Prop} {s : σ}

theorem throughout_fixed (fixed : ∀ event, step s event = s) (events : List ε) :
    Throughout step inv s events ↔ inv s := by
  constructor
  · exact fun holds => holds [] nil_prefix
  · intro now passed _
    rwa [foldl_fixed' fixed]

theorem Throughout.imp {strong weak : σ → Prop} {events : List ε}
    (holds : Throughout step strong s events) (weaken : ∀ state, strong state → weak state) :
    Throughout step weak s events :=
  fun passed before => weaken _ (holds passed before)

/-- The events of a run meet what holds in all of its states. -/
theorem Throughout.always {allowed : ε → Prop}
    (events : List ε) (all : ∀ event ∈ events, allowed event) : ∀ {s : σ},
      Throughout step inv s events →
        Always step (fun s event => inv s ∧ allowed event) s events := by
  induction events with
  | nil => exact fun _ => trivial
  | cons event events ih =>
    intro s holds
    obtain ⟨now, later⟩ := (throughout_cons step inv s event events).mp holds
    refine ⟨⟨now, all event mem_cons_self⟩, ih (fun other member => ?_) later⟩
    exact all other (mem_cons_of_mem event member)

theorem throughout_of_step (kept : ∀ s event, inv s → inv (step s event)) (events : List ε)
    (now : inv s) :
    Throughout step inv s events :=
  fun passed _ =>
    foldlRecOn passed step now fun state holds event _ => kept state event holds

/-- What every safe step of a run keeps holds along it. -/
theorem throughout_of_always_mem (step : σ → ε → σ) (inv : σ → Prop) (ok : σ → ε → Prop)
    (events : List ε) (kept : ∀ s, ∀ event ∈ events, inv s → ok s event → inv (step s event)) :
    ∀ s, inv s → Always step ok s events → Throughout step inv s events := by
  induction events with
  | nil =>
    intro s now _
    exact (throughout_nil step inv s).mpr now
  | cons event events ih =>
    rintro s now ⟨safe, later⟩
    rw [throughout_cons]
    refine ⟨now, ih (fun state other member => ?_) (step s event) ?_ later⟩
    · exact kept state other (mem_cons_of_mem event member)
    · exact kept s event mem_cons_self now safe

theorem throughout_of_always (step : σ → ε → σ) (inv : σ → Prop) (ok : σ → ε → Prop)
    (kept : ∀ s event, inv s → ok s event → inv (step s event)) (events : List ε) :
    ∀ s, inv s → Always step ok s events → Throughout step inv s events :=
  throughout_of_always_mem step inv ok events fun s event _ => kept s event

/-- On runs that meet a side condition: if a good state stays good after a safe step
and a property is lost after an unsafe one, then the property holds along the run
exactly when all of its steps are safe. -/
theorem throughout_iff_always_of_side (step : σ → ε → σ) (good prop : σ → Prop)
    (side ok : σ → ε → Prop) (weaken : ∀ s, good s → prop s)
    (kept : ∀ s event, good s → side s event → ok s event → good (step s event))
    (lost : ∀ s event, good s → side s event → ¬ok s event → ¬prop (step s event))
    (events : List ε) :
    ∀ s, good s → Always step side s events →
      (Throughout step prop s events ↔ Always step ok s events) := by
  induction events with
  | nil =>
    intro s now _
    rw [throughout_nil]
    exact ⟨fun _ => trivial, fun _ => weaken s now⟩
  | cons event events ih =>
    rintro s now ⟨here, later⟩
    rw [throughout_cons]
    by_cases safe : ok s event
    · have next := ih (step s event) (kept s event now here safe) later
      rw [next]
      exact ⟨fun holds => ⟨safe, holds.2⟩, fun all => ⟨weaken s now, all.2⟩⟩
    · have fails := lost s event now here safe
      exact ⟨fun holds => absurd (holds.2 [] nil_prefix) fails, fun all => absurd all.1 safe⟩

variable {ok : σ → ε → Prop}

theorem always_of_forall_mem (events : List ε)
    (all : ∀ event ∈ events, ∀ s, ok s event) : ∀ s, Always step ok s events := by
  induction events with
  | nil => exact fun _ => trivial
  | cons event events ih =>
    intro s
    refine ⟨all event mem_cons_self s, ih (fun other member => ?_) (step s event)⟩
    exact all other (mem_cons_of_mem event member)

theorem Always.imp {strong weak : σ → ε → Prop} (weaken : ∀ s event, strong s event → weak s event)
    (events : List ε) : ∀ {s : σ}, Always step strong s events → Always step weak s events := by
  induction events with
  | nil => exact fun _ => trivial
  | cons event events ih => exact fun holds => ⟨weaken _ _ holds.1, ih holds.2⟩

theorem always_of_forall (all : ∀ s event, ok s event)
    (events : List ε) : ∀ s, Always step ok s events :=
  always_of_forall_mem events fun event _ s => all s event

/-- If a step from a good state leads to a good state exactly when it is safe,
then a run stays good exactly when all of its steps are safe. -/
theorem throughout_iff_always (step : σ → ε → σ) (inv : σ → Prop) (ok : σ → ε → Prop)
    (exact_step : ∀ s event, inv s → (inv (step s event) ↔ ok s event)) (events : List ε) :
    ∀ s, inv s → (Throughout step inv s events ↔ Always step ok s events) := by
  intro s now
  apply throughout_iff_always_of_side step inv inv (fun _ _ => True) ok (fun _ holds => holds)
  · exact fun s event holds _ safe => (exact_step s event holds).mpr safe
  · exact fun s event holds _ beyond => mt (exact_step s event holds).mp beyond
  · exact now
  · exact always_of_forall (fun _ _ => trivial) events s

/-- What every step of a loop that may fail keeps holds in the end. -/
theorem foldlM_keeps {step : σ → ε → Option σ} (inv : σ → Prop) (events : List ε)
    (kept : ∀ s, ∀ event ∈ events, inv s → ∀ after, step s event = some after → inv after) :
    ∀ {s : σ}, inv s → ∀ {after : σ}, events.foldlM step s = some after → inv after := by
  induction events with
  | nil =>
    intro s now after done
    cases done
    exact now
  | cons event events ih =>
    intro s now after done
    obtain ⟨next, first, later⟩ := bind_eq_some_iff.mp done
    refine ih (fun state other member => ?_) ?_ later
    · exact kept state other (mem_cons_of_mem event member)
    · exact kept s event mem_cons_self now next first

/-- A loop whose steps succeed wherever those of another do, with the same result. -/
theorem foldlM_imp {less more : σ → ε → Option σ}
    (imp : ∀ s event after, less s event = some after → more s event = some after)
    (events : List ε) : ∀ {s after : σ},
      events.foldlM less s = some after → events.foldlM more s = some after := by
  induction events with
  | nil => exact fun done => done
  | cons event events ih =>
    intro s after done
    obtain ⟨next, first, later⟩ := bind_eq_some_iff.mp done
    rw [foldlM_cons, imp s event next first]
    exact ih later

/-- Every event meets a condition in the state it finds, as long as the steps succeed. -/
def AlwaysM (step : σ → ε → Option σ) (ok : σ → ε → Prop) : σ → List ε → Prop
  | _, [] => True
  | s, event :: events =>
    ok s event ∧ ∀ after, step s event = some after → AlwaysM step ok after events

/-- A loop whose safe steps all succeed, and keep what makes them succeed, succeeds. -/
theorem foldlM_succeeds {step : σ → ε → Option σ} {ok : σ → ε → Prop} (inv : σ → Prop)
    (kept : ∀ s event, inv s → ok s event → ∃ after, step s event = some after ∧ inv after)
    (events : List ε) : ∀ {s : σ}, inv s → AlwaysM step ok s events →
      ∃ after, events.foldlM step s = some after ∧ inv after := by
  induction events with
  | nil => exact fun now _ => ⟨_, rfl, now⟩
  | cons event events ih =>
    rintro s now ⟨safe, rest⟩
    obtain ⟨_, first, holds⟩ := kept s event now safe
    obtain ⟨after, later, last⟩ := ih holds (rest _ first)
    refine ⟨after, ?_, last⟩
    rw [foldlM_cons, first]
    exact later

/-- What is seen of the states of a run, where an event either says what is seen after
it or changes nothing of that: the last event that says something decides. -/
theorem observe_foldl {β : Type} (observe : σ → β) (tells : ε → Option β)
    (one : ∀ s event, observe (step s event) = (tells event).getD (observe s)) (events : List ε) :
    ∀ s, observe (events.foldl step s) = (events.reverse.findSome? tells).getD (observe s) := by
  induction events with
  | nil => exact fun s => rfl
  | cons event events ih =>
    intro s
    rw [foldl_cons, ih, reverse_cons, findSome?_append, findSome?_singleton, one]
    cases events.reverse.findSome? tells with
    | none => rw [getD_none, none_or]
    | some seen => rfl

/-- What holds of each thing from some depth on holds of all from some depth on. -/
theorem enough_for_all {α : Type} {P : Nat → α → Prop} (things : List α)
    (each : ∀ thing ∈ things, ∃ enough, ∀ depth ≥ enough, P depth thing) :
    ∃ enough, ∀ depth ≥ enough, ∀ thing ∈ things, P depth thing := by
  induction things with
  | nil => exact ⟨0, fun _ _ => forall_mem_nil _⟩
  | cons first rest ih =>
    rw [forall_mem_cons] at each
    obtain ⟨⟨one, first'⟩, later⟩ := each
    obtain ⟨others, rest'⟩ := ih later
    refine ⟨max one others, fun depth deep => forall_mem_cons.mpr ⟨?_, ?_⟩⟩
    · exact first' depth (Nat.le_trans (Nat.le_max_left _ _) deep)
    · exact rest' depth (Nat.le_trans (Nat.le_max_right _ _) deep)

end Runs
