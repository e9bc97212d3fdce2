import WsServer.Lib.Transition
import WsServer.Model.TimerHeap

/-!
# The use of a timer heap

`TimerHeap` as its thread uses it: `add`, `cancel` and `expire` in any order, and `add` and
`cancel` again in the callbacks that `expire` runs.  A label of `step?` is one call, or one turn of
the loop of `expire`; between two turns a callback may run, which is any calls of `add` and
`cancel`.  A callback is a `std::function`, which may be empty (`none`).

What happens is written down in `trace`.
-/

namespace WsServer

/-- What can be seen of the use of a timer heap. -/
inductive TimerEvent (φ : Type*)
  | added (e : TimerHeap.Entry (Option φ))
  | cancelled (id : TimerId)
  /-- `expire` has read the clock. -/
  | began (t : TimePoint)
  /-- `expire` has popped an entry, and counts it or not. -/
  | popped (e : TimerHeap.Entry (Option φ)) (fires : Bool)
  /-- `expire` has returned the count. -/
  | returned (count : ℕ)
  deriving DecidableEq

/-- Where the thread stands. -/
inductive TimerPhase
  /-- Outside `expire`. -/
  | outside
  /-- At the head of the loop of `expire`, with `t` and `fired`. -/
  | looping (t : TimePoint) (fired : ℕ)
  /-- In a callback. -/
  | calling (t : TimePoint) (fired : ℕ)
  deriving DecidableEq

/-- Code that uses the heap runs. -/
def TimerPhase.mayCall : TimerPhase → Bool
  | .looping _ _ => false
  | _ => true

structure Timers (φ : Type*) where
  heap : TimerHeap (Option φ) := {}
  /-- The last reading of the clock. -/
  clock : TimePoint
  phase : TimerPhase := .outside
  trace : List (TimerEvent φ) := []

inductive TimersLabel (φ : Type*)
  /-- `add`, or `addAfter`, at a reading of the clock. -/
  | add (now when : TimePoint) (cb : Option φ)
  | cancel (id : TimerId)
  | expire (now : TimePoint)
  /-- `expire` pops the `k`-th entry. -/
  | pop (k : ℕ)
  /-- The callback returns. -/
  | leave
  /-- `expire` returns. -/
  | finish

namespace Timers

variable {φ : Type*}

def start (now : TimePoint) : Timers φ where
  clock := now

/-- A callback adds timers that are due at the time of the call or later. -/
def mayAdd (s : Timers φ) (now when : TimePoint) : Bool :=
  match s.phase with
  | .outside => s.clock ≤ now
  | .calling _ _ => s.clock ≤ now && now ≤ when
  | .looping _ _ => false

/-- One turn of the loop, after the pop. -/
def popped (s : Timers φ) (t : TimePoint) (fired : ℕ) (e : TimerHeap.Entry (Option φ))
    (h : TimerHeap (Option φ)) : Timers φ :=
  if e.id ∈ h.cancelled then
    { s with heap := h.forget e.id, trace := s.trace ++ [.popped e false] }
  else
    { s with
      heap := h
      phase := if e.cb.isSome then .calling t fired else .looping t (fired + 1)
      trace := s.trace ++ [.popped e true] }

def step? (s : Timers φ) : TimersLabel φ → Option (Timers φ)
  | .add now when cb =>
    if s.mayAdd now when then
      some { s with
        heap := s.heap.add when cb
        clock := now
        trace := s.trace ++ [.added ⟨when, cb, s.heap.nextId⟩] }
    else none
  | .cancel id =>
    if s.phase.mayCall then
      some { s with heap := s.heap.cancel id, trace := s.trace ++ [.cancelled id] }
    else none
  | .expire now =>
    if s.phase = .outside ∧ s.clock ≤ now then
      some { s with clock := now, phase := .looping now 0, trace := s.trace ++ [.began now] }
    else none
  | .pop k =>
    match s.phase with
    | .looping t fired => (s.heap.pop? t k).map fun r => s.popped t fired r.1 r.2
    | _ => none
  | .leave =>
    match s.phase with
    | .calling t fired => some { s with phase := .looping t (fired + 1) }
    | _ => none
  | .finish =>
    match s.phase with
    | .looping t fired =>
      if s.heap.isDue t then none
      else some { s with phase := .outside, trace := s.trace ++ [.returned fired] }
    | _ => none

def step : Timers φ → TimersLabel φ → Timers φ := Transition.attempt step?

/-! ## What a step can do -/

/-- What a step does to a state. -/
inductive Steps (s : Timers φ) : TimersLabel φ → Timers φ → Prop
  | add (now when : TimePoint) (cb : Option φ) (hlooping : s.phase.mayCall = true)
      (hclock : s.clock ≤ now) (hwhen : s.phase ≠ .outside → now ≤ when) :
      Steps s (.add now when cb) { s with
        heap := s.heap.add when cb
        clock := now
        trace := s.trace ++ [.added ⟨when, cb, s.heap.nextId⟩] }
  | cancel (id : TimerId) (hlooping : s.phase.mayCall = true) :
      Steps s (.cancel id)
        { s with heap := s.heap.cancel id, trace := s.trace ++ [.cancelled id] }
  | expire (now : TimePoint) (hphase : s.phase = .outside) (hclock : s.clock ≤ now) :
      Steps s (.expire now)
        { s with clock := now, phase := .looping now 0, trace := s.trace ++ [.began now] }
  | pop (t : TimePoint) (fired k : ℕ) (e : TimerHeap.Entry (Option φ)) (h : TimerHeap (Option φ))
      (hphase : s.phase = .looping t fired) (hpop : s.heap.pop? t k = some (e, h)) :
      Steps s (.pop k) (s.popped t fired e h)
  | leave (t : TimePoint) (fired : ℕ) (hphase : s.phase = .calling t fired) :
      Steps s .leave { s with phase := .looping t (fired + 1) }
  | finish (t : TimePoint) (fired : ℕ) (hphase : s.phase = .looping t fired)
      (hdone : ∀ e ∈ s.heap.heap, t < e.when) :
      Steps s .finish { s with phase := .outside, trace := s.trace ++ [.returned fired] }

theorem steps_of_step? {s s' : Timers φ} {label : TimersLabel φ} (hstep : s.step? label = some s') :
    Steps s label s' := by
  cases label with
  | add now when cb =>
      simp only [step?, Option.ite_none_right_eq_some, Option.some.injEq] at hstep
      obtain ⟨hmay, rfl⟩ := hstep
      unfold mayAdd at hmay
      split at hmay
      · rename_i hphase
        exact .add now when cb (by simp [hphase, TimerPhase.mayCall]) (by simpa using hmay)
          fun hne => absurd hphase hne
      · rename_i hphase
        simp only [Bool.and_eq_true, decide_eq_true_eq] at hmay
        exact .add now when cb (by simp [hphase, TimerPhase.mayCall]) hmay.1 fun _ => hmay.2
      · cases hmay
  | cancel id =>
      simp only [step?, Option.ite_none_right_eq_some, Option.some.injEq] at hstep
      obtain ⟨hmay, rfl⟩ := hstep
      exact .cancel id hmay
  | expire now =>
      simp only [step?, Option.ite_none_right_eq_some, Option.some.injEq] at hstep
      obtain ⟨⟨hphase, hclock⟩, rfl⟩ := hstep
      exact .expire now hphase hclock
  | pop k =>
      simp only [step?] at hstep
      split at hstep
      · rename_i t fired hphase
        obtain ⟨⟨e, h⟩, hpop, rfl⟩ := Option.map_eq_some_iff.mp hstep
        exact .pop t fired k e h hphase hpop
      · cases hstep
  | leave =>
      simp only [step?] at hstep
      split at hstep
      · rename_i t fired hphase
        cases hstep
        exact .leave t fired hphase
      · cases hstep
  | finish =>
      simp only [step?] at hstep
      split at hstep
      · rename_i t fired hphase
        simp only [Option.ite_none_left_eq_some, Option.some.injEq] at hstep
        obtain ⟨hdue, rfl⟩ := hstep
        refine .finish t fired hphase ?_
        simpa [TimerHeap.isDue] using hdue
      · cases hstep

/-- What every step preserves holds after every run. -/
theorem run_invariant {Inv : Timers φ → Prop}
    (hsteps : ∀ s label s', Inv s → Steps s label s' → Inv s')
    {s : Timers φ} (h : Inv s) (labels : List (TimersLabel φ)) :
    Inv (Transition.run step s labels) := by
  refine Transition.run_invariant (Transition.attempt_invariant ?_) h labels
  intro s label s' hs hstep
  exact hsteps s label s' hs (steps_of_step? hstep)

end Timers

end WsServer
