import Mathlib

/-!
# Runs of a deterministic system

`run step s events` feeds a list of events to a step function.  An invariant of
single steps is an invariant of runs (`run_invariant`); `AllSteps P` says that
every step of a run meets the condition `P` in the state in which it is taken,
and `good_run_iff` turns "this step is good exactly when `P` holds before it"
into the same equivalence for whole runs.
-/

namespace Transition

variable {σ ε : Type*} (step : σ → ε → σ)

/-- The state after a list of events. -/
def run (s : σ) (events : List ε) : σ := events.foldl step s

/-- Every step of the run from `s` meets the condition `P`. -/
def AllSteps (P : σ → ε → Prop) : σ → List ε → Prop
  | _, [] => True
  | s, event :: rest => P s event ∧ AllSteps P (step s event) rest

instance AllSteps.instDecidable (P : σ → ε → Prop) [∀ s event, Decidable (P s event)] (s : σ) :
    (events : List ε) → Decidable (AllSteps step P s events)
  | [] => inferInstanceAs (Decidable True)
  | event :: rest =>
      have := AllSteps.instDecidable P (step s event) rest
      inferInstanceAs (Decidable (P s event ∧ AllSteps step P (step s event) rest))

variable {step}

@[simp] theorem run_nil (s : σ) : run step s [] = s := rfl

@[simp] theorem run_cons (s : σ) (event : ε) (rest : List ε) :
    run step s (event :: rest) = run step (step s event) rest := rfl

theorem run_append (s : σ) (first second : List ε) :
    run step s (first ++ second) = run step (run step s first) second := by
  simp [run]

theorem run_concat (s : σ) (events : List ε) (event : ε) :
    run step s (events ++ [event]) = step (run step s events) event := by
  simp [run]

/-- What every step preserves holds in every state of a run. -/
theorem run_invariant {Inv : σ → Prop} (hstep : ∀ s event, Inv s → Inv (step s event)) {s : σ}
    (h : Inv s) (events : List ε) : Inv (run step s events) := by
  induction events generalizing s with
  | nil => exact h
  | cons event rest ih => exact ih (hstep s event h)

/-- What every step of one kind preserves holds behind events of that kind. -/
theorem run_invariant_on {Inv : σ → Prop} {Kind : ε → Prop}
    (hstep : ∀ s event, Kind event → Inv s → Inv (step s event)) {s : σ} (h : Inv s)
    {events : List ε} (hevents : ∀ event ∈ events, Kind event) : Inv (run step s events) := by
  induction events generalizing s with
  | nil => exact h
  | cons event rest ih =>
      apply ih (hstep s event (hevents event List.mem_cons_self) h)
      intro later hlater
      exact hevents later (List.mem_cons_of_mem _ hlater)

/-- A condition that an invariant implies is met by all steps. -/
theorem allSteps_of_invariant {Inv : σ → Prop} {P : σ → ε → Prop}
    (hinv : ∀ s event, Inv s → Inv (step s event)) (hmeets : ∀ s event, Inv s → P s event) {s : σ}
    (h : Inv s) (events : List ε) : AllSteps step P s events := by
  induction events generalizing s with
  | nil => trivial
  | cons event rest ih => exact ⟨hmeets s event h, ih (hinv s event h)⟩

/-- A condition that events of one kind meet in every state is met by all steps. -/
theorem allSteps_of_kind {P : σ → ε → Prop} {Kind : ε → Prop}
    (hmeets : ∀ s event, Kind event → P s event) (s : σ) {events : List ε}
    (hevents : ∀ event ∈ events, Kind event) : AllSteps step P s events := by
  induction events generalizing s with
  | nil => trivial
  | cons event rest ih =>
      refine ⟨hmeets s event (hevents event List.mem_cons_self), ih _ fun later hlater => ?_⟩
      exact hevents later (List.mem_cons_of_mem _ hlater)

/-- A condition on all steps keeps an invariant, and with it implies another condition. -/
theorem allSteps_imp_on {Inv : σ → Prop} {P Q : σ → ε → Prop} {Kind : ε → Prop}
    (hinv : ∀ s event, Kind event → Inv s → P s event → Inv (step s event))
    (himp : ∀ s event, Kind event → Inv s → P s event → Q s event) {s : σ} (h : Inv s)
    {events : List ε} (hevents : ∀ event ∈ events, Kind event) (hall : AllSteps step P s events) :
    AllSteps step Q s events := by
  induction events generalizing s with
  | nil => trivial
  | cons event rest ih =>
      have hevent := hevents event List.mem_cons_self
      have hrest := fun later hlater => hevents later (List.mem_cons_of_mem _ hlater)
      exact ⟨himp s event hevent h hall.1, ih (hinv s event hevent h hall.1) hrest hall.2⟩

/-- What the steps that meet `P` preserve holds in all states of a run whose steps meet it. -/
theorem prefixes_of_allSteps_on {Inv : σ → Prop} {P : σ → ε → Prop} {Kind : ε → Prop}
    (hinv : ∀ s event, Kind event → Inv s → P s event → Inv (step s event)) {s : σ} (h : Inv s)
    {events : List ε} (hevents : ∀ event ∈ events, Kind event) (hall : AllSteps step P s events) :
    ∀ front, front <+: events → Inv (run step s front) := by
  induction events generalizing s with
  | nil =>
      intro front hfront
      rw [List.prefix_nil.mp hfront]
      exact h
  | cons event rest ih =>
      intro front hfront
      cases front with
      | nil => exact h
      | cons first front =>
          obtain ⟨rfl, hfront'⟩ := List.cons_prefix_cons.mp hfront
          have hnext := hinv s first (hevents first List.mem_cons_self) h hall.1
          exact ih hnext (fun later hlater => hevents later (List.mem_cons_of_mem _ hlater)) hall.2
            front hfront'

/-- Conditions that an invariant makes equivalent are met by the same runs. -/
theorem allSteps_congr_on {Inv : σ → Prop} {P Q : σ → ε → Prop} {Kind : ε → Prop}
    (hinv : ∀ s event, Kind event → Inv s → Inv (step s event))
    (hiff : ∀ s event, Kind event → Inv s → (P s event ↔ Q s event)) {s : σ} (h : Inv s)
    {events : List ε} (hevents : ∀ event ∈ events, Kind event) :
    AllSteps step P s events ↔ AllSteps step Q s events := by
  induction events generalizing s with
  | nil => exact Iff.rfl
  | cons event rest ih =>
      have hevent := hevents event List.mem_cons_self
      have hrest := fun later hlater => hevents later (List.mem_cons_of_mem _ hlater)
      exact and_congr (hiff s event hevent h) (ih (hinv s event hevent h) hrest)

/-- If a step keeps the history good exactly when it meets `P`, a run keeps it
good exactly when all its steps meet `P`. -/
theorem good_run_iff (Good : σ → Prop) {Inv : σ → Prop} {P : σ → ε → Prop}
    (hinv : ∀ s event, Inv s → Inv (step s event))
    (hgood : ∀ s event, Inv s → (Good (step s event) ↔ Good s ∧ P s event)) {s : σ} (h : Inv s)
    (events : List ε) : Good (run step s events) ↔ Good s ∧ AllSteps step P s events := by
  induction events generalizing s with
  | nil => simp [AllSteps]
  | cons event rest ih =>
      rw [run_cons, ih (hinv s event h), hgood s event h, and_assoc]
      rfl

/-- The same for events of one kind. -/
theorem good_run_iff_on (Good : σ → Prop) {Inv : σ → Prop} {P : σ → ε → Prop} {Kind : ε → Prop}
    (hinv : ∀ s event, Kind event → Inv s → Inv (step s event))
    (hgood : ∀ s event, Kind event → Inv s → (Good (step s event) ↔ Good s ∧ P s event)) {s : σ}
    (h : Inv s) {events : List ε} (hevents : ∀ event ∈ events, Kind event) :
    Good (run step s events) ↔ Good s ∧ AllSteps step P s events := by
  induction events generalizing s with
  | nil => simp [AllSteps]
  | cons event rest ih =>
      have hevent := hevents event List.mem_cons_self
      have hrest := fun later hlater => hevents later (List.mem_cons_of_mem _ hlater)
      rw [run_cons, ih (hinv s event hevent h) hrest, hgood s event hevent h, and_assoc]
      rfl

/-- If a good state is followed by a good one exactly when the step meets `P`, all states
of a run are good exactly when all its steps meet `P`. -/
theorem prefixes_good_iff (Good : σ → Prop) {Inv : σ → Prop} {P : σ → ε → Prop}
    (hinv : ∀ s event, Inv s → Inv (step s event))
    (hgood : ∀ s event, Inv s → Good s → (Good (step s event) ↔ P s event)) {s : σ}
    (h : Inv s) (hs : Good s) (events : List ε) :
    (∀ front, front <+: events → Good (run step s front)) ↔ AllSteps step P s events := by
  induction events generalizing s with
  | nil => simpa [AllSteps] using hs
  | cons event rest ih =>
      have hsplit : (∀ front, front <+: event :: rest → Good (run step s front)) ↔
          Good (step s event) ∧ ∀ front, front <+: rest → Good (run step (step s event) front) := by
        constructor
        · intro hall
          refine ⟨hall [event] (List.prefix_append _ _), fun front hfront => ?_⟩
          exact hall (event :: front) (List.cons_prefix_cons.mpr ⟨rfl, hfront⟩)
        · rintro ⟨-, hrest⟩ front hfront
          cases front with
          | nil => exact hs
          | cons first front =>
              obtain ⟨rfl, hfront'⟩ := List.cons_prefix_cons.mp hfront
              exact hrest front hfront'
      rw [hsplit, AllSteps, ← hgood s event h hs]
      exact and_congr_right fun hnext => ih (hinv s event h) hnext

/-! ## Partial steps -/

/-- A step function that may refuse: what is refused does nothing. -/
def attempt (step? : σ → ε → Option σ) (s : σ) (event : ε) : σ := (step? s event).getD s

/-- What the steps that are taken preserve, all preserve. -/
theorem attempt_invariant {step? : σ → ε → Option σ} {Inv : σ → Prop}
    (hstep : ∀ s event s', Inv s → step? s event = some s' → Inv s') (s : σ) (event : ε)
    (h : Inv s) : Inv (attempt step? s event) := by
  unfold attempt
  cases hnext : step? s event with
  | none => exact h
  | some s' => exact hstep s event s' h hnext

end Transition
