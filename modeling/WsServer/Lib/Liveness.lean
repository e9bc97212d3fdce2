import Mathlib
import WsServer.Lib.Transition

/-!
# Infinite runs

A sequence of events takes a system through the states `stateAt`; an event that is refused leaves
the state as it is.

`frequently_of_rank` is the rule for showing that something happens again and again.  The states
have a rank in a well-founded order, which falls with every step of one kind and rises with no step,
except for those that restart it.  So there are infinitely many restarts if there are infinitely
many steps of that kind.  A rank that is not restarted any more settles (`eventually_eq_of_le`).
-/

namespace Transition

open Filter

variable {σ ε : Type*}

/-- The state before event `n`. -/
def stateAt (step : σ → ε → σ) (s : σ) (events : ℕ → ε) (n : ℕ) : σ :=
  run step s ((List.range n).map events)

section Step

variable (step : σ → ε → σ) (s : σ) (events : ℕ → ε)

@[simp] theorem stateAt_zero : stateAt step s events 0 = s := rfl

theorem stateAt_succ (n : ℕ) :
    stateAt step s events (n + 1) = step (stateAt step s events n) (events n) := by
  rw [stateAt, List.range_succ, List.map_append, run_append]
  rfl

/-- A cycle of events that leads back to where it began. -/
theorem stateAt_cycle {period : ℕ} (hperiod : ∀ n, events (n + period) = events n)
    (hback : stateAt step s events period = s) (n : ℕ) :
    stateAt step s events (n + period) = stateAt step s events n := by
  induction n with
  | zero => rw [Nat.zero_add, hback, stateAt_zero]
  | succ n ih =>
      rw [Nat.add_right_comm, stateAt_succ step s events (n + period), stateAt_succ, ih, hperiod]

/-- The events of a list, and behind them those of a sequence. -/
def followedBy (front : List ε) (events : ℕ → ε) (n : ℕ) : ε :=
  front[n]?.getD (events (n - front.length))

variable (front : List ε)

theorem followedBy_add (n : ℕ) : followedBy front events (front.length + n) = events n := by
  simp [followedBy]

theorem range_map_followedBy :
    (List.range front.length).map (followedBy front events) = front := by
  refine List.ext_getElem (by simp) fun n hn hfront => ?_
  simp [followedBy, hfront]

theorem stateAt_followedBy (n : ℕ) :
    stateAt step s (followedBy front events) (front.length + n) =
      stateAt step (run step s front) events n := by
  induction n with
  | zero => rw [Nat.add_zero, stateAt, range_map_followedBy, stateAt_zero]
  | succ n ih => rw [← Nat.add_assoc, stateAt_succ, stateAt_succ, ih, followedBy_add]

end Step

/-! ## Steps that are taken -/

section Attempt

variable {step? : σ → ε → Option σ} {s : σ} {events : ℕ → ε} {n : ℕ}

/-- Event `n` is not refused. -/
def Takes (step? : σ → ε → Option σ) (s : σ) (events : ℕ → ε) (n : ℕ) : Prop :=
  (step? (stateAt (attempt step?) s events n) (events n)).isSome = true

theorem Takes.step (h : Takes step? s events n) :
    step? (stateAt (attempt step?) s events n) (events n) =
      some (stateAt (attempt step?) s events (n + 1)) := by
  obtain ⟨s', hs'⟩ := Option.isSome_iff_exists.mp h
  rw [stateAt_succ, attempt, hs', Option.getD_some]

theorem stateAt_of_not_takes (h : ¬Takes step? s events n) :
    stateAt (attempt step?) s events (n + 1) = stateAt (attempt step?) s events n := by
  rw [Takes, Option.not_isSome_iff_eq_none] at h
  rw [stateAt_succ, attempt, h, Option.getD_none]

/-! ## Again and again -/

/-- A rank that rises only finitely often settles. -/
theorem eventually_eq_of_le {α : Type*} [LinearOrder α] [WellFoundedLT α] (rank : ℕ → α)
    (h : ∀ᶠ n in atTop, rank (n + 1) ≤ rank n) : ∃ c, ∀ᶠ n in atTop, rank n = c := by
  obtain ⟨first, hfirst⟩ := eventually_atTop.mp h
  have hanti : Antitone fun k => rank (first + k) :=
    antitone_nat_of_succ_le fun k => hfirst _ (Nat.le_add_right first k)
  -- the least rank from there on
  obtain ⟨-, ⟨k, rfl⟩, hleast⟩ :=
    WellFounded.has_min (wellFounded_lt (α := α)) _ (Set.range_nonempty fun k => rank (first + k))
  refine ⟨rank (first + k), eventually_atTop.mpr ⟨first + k, fun n hn => ?_⟩⟩
  obtain ⟨j, rfl⟩ := Nat.exists_eq_add_of_le ((Nat.le_add_right first k).trans hn)
  have habove : rank (first + k) ≤ rank (first + j) := not_lt.mp (hleast _ (Set.mem_range_self j))
  exact (hanti (Nat.le_of_add_le_add_left hn)).antisymm habove

/-- A rank that falls infinitely often rises infinitely often. -/
theorem frequently_restart {α : Type*} [LinearOrder α] [WellFoundedLT α] (rank : ℕ → α)
    {Move Restart : ℕ → Prop} (hmove : ∀ n, Move n → ¬Restart n → rank (n + 1) < rank n)
    (hstay : ∀ n, ¬Restart n → rank (n + 1) ≤ rank n) (h : ∃ᶠ n in atTop, Move n) :
    ∃ᶠ n in atTop, Restart n := by
  by_contra hnot
  have hquiet : ∀ᶠ n in atTop, ¬Restart n := not_frequently.mp hnot
  obtain ⟨c, hc⟩ := eventually_eq_of_le rank (hquiet.mono hstay)
  have hnext : ∀ᶠ n in atTop, rank (n + 1) = c := (tendsto_add_atTop_nat 1).eventually hc
  obtain ⟨n, hn, hrestart, heq, heq'⟩ := (h.and_eventually (hquiet.and (hc.and hnext))).exists
  exact (hmove n hn hrestart).ne (heq'.trans heq.symm)

/-- The rule for a system whose steps may be refused. -/
theorem frequently_of_rank {α : Type*} [LinearOrder α] [WellFoundedLT α] (rank : σ → α)
    (Inv : σ → Prop) {Move Restart : ε → Prop}
    (hmove : ∀ s event s', Inv s → step? s event = some s' → Move event → ¬Restart event →
      rank s' < rank s)
    (hstay : ∀ s event s', Inv s → step? s event = some s' → ¬Restart event → rank s' ≤ rank s)
    (hinv : ∀ n, Inv (stateAt (attempt step?) s events n))
    (h : ∃ᶠ n in atTop, Takes step? s events n ∧ Move (events n)) :
    ∃ᶠ n in atTop, Takes step? s events n ∧ Restart (events n) := by
  refine frequently_restart (fun n => rank (stateAt (attempt step?) s events n)) ?_ ?_ h
  · rintro n ⟨htaken, hn⟩ hnot
    exact hmove _ _ _ (hinv n) htaken.step hn fun hrestart => hnot ⟨htaken, hrestart⟩
  · intro n hnot
    by_cases htaken : Takes step? s events n
    · exact hstay _ _ _ (hinv n) htaken.step fun hrestart => hnot ⟨htaken, hrestart⟩
    · rw [stateAt_of_not_takes htaken]

/-- What happens once in a cycle happens again and again. -/
theorem frequently_of_cycle {Move : ε → Prop} (period : ℕ) (hpos : 0 < period)
    (hperiod : ∀ n, events (n + period) = events n)
    (hback : stateAt (attempt step?) s events period = s) (htaken : Takes step? s events n)
    (hn : Move (events n)) : ∃ᶠ n in atTop, Takes step? s events n ∧ Move (events n) := by
  have hcycles (k : ℕ) :
      Takes step? s events (n + k * period) ∧ Move (events (n + k * period)) := by
    induction k with
    | zero =>
        rw [Nat.zero_mul, Nat.add_zero]
        exact ⟨htaken, hn⟩
    | succ k ih =>
        rw [Nat.succ_mul, ← Nat.add_assoc, Takes, hperiod,
          stateAt_cycle (attempt step?) s events hperiod hback]
        exact ih
  refine frequently_atTop.mpr fun first => ⟨n + first * period, ?_, hcycles first⟩
  exact (Nat.le_mul_of_pos_right first hpos).trans (Nat.le_add_left _ n)

/-- What happens again and again does so behind any beginning. -/
theorem frequently_followedBy {Move : ε → Prop} (front : List ε)
    (h : ∃ᶠ n in atTop, Takes step? (run (attempt step?) s front) events n ∧ Move (events n)) :
    ∃ᶠ n in atTop,
      Takes step? s (followedBy front events) n ∧ Move (followedBy front events n) := by
  refine frequently_atTop.mpr fun first => ?_
  obtain ⟨n, hle, htaken, hn⟩ := frequently_atTop.mp h first
  refine ⟨front.length + n, hle.trans (Nat.le_add_left _ _), ?_, ?_⟩
  · rwa [Takes, followedBy_add, stateAt_followedBy]
  · rwa [followedBy_add]

end Attempt

end Transition
