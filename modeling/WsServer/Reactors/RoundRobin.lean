import WsServer.Lib.RoundRobin
import WsServer.Reactors.Invariant

/-!
# The connections are spread evenly

`pickSubLoop` deals the connections to the sub loops in turn, by a counter of 64 bits.  A connection
that was given to a loop stays with it, as a queued task, as one that has been swapped out, or
attached; so the number of these shows how many turns the loop has had (`Dealt`).
-/

namespace WsServer

open Ledger RoundRobin

namespace LoopThread

/-- How many connections have been given to a loop. -/
def given (l : LoopThread) : ℕ :=
  l.pending.length + l.phase.tasks.length + l.reactor.sessions.length

variable {idleTimeoutS : ℤ} {l l' : LoopThread}

theorem given_of_phase (hreactor : l'.reactor = l.reactor)
    (htasks : l'.pending ++ l'.phase.tasks = l.pending ++ l.phase.tasks) :
    l'.given = l.given := by
  have hlength := congrArg List.length htasks
  rw [List.length_append, List.length_append] at hlength
  rw [given, given, hreactor, hlength]

theorem given_handler {phase : Phase} {now : TimePoint} {r : Reactor × List Action}
    (hsessions : r.1.sessions.length = l.reactor.sessions.length)
    (htasks : phase.tasks = l.phase.tasks) : (l.handler phase now r).given = l.given := by
  show l.pending.length + phase.tasks.length + r.1.sessions.length = l.given
  rw [hsessions, htasks, given]

theorem given_runs (hrun : Runs idleTimeoutS l l') : l'.given = l.given := by
  cases hrun with
  | ready batch hphase hreports => exact given_of_phase rfl (by rw [hphase]; rfl)
  | wakeup rest hphase => exact given_of_phase rfl (by rw [hphase]; rfl)
  | dispatch fd c hangup readable writable rest now r' todo hphase hle hrun =>
      refine given_handler ?_ (by rw [hphase]; rfl)
      cases hrun with
      | nothing => rfl
      | stays c s s' hs houtcome hsame => exact List.length_set
      | closes c s s' hfind hs houtcome hended => exact List.length_set
  | expire now hphase hle => exact given_of_phase rfl (by rw [hphase]; rfl)
  | drop t k now e timers hphase hle hpop hcancelled => exact given_handler rfl (by rw [hphase])
  | fire t k now e timers r' todo hphase hle hpop hlive hrun =>
      refine given_handler ?_ (by rw [hphase])
      cases hrun with
      | nothing hnone => rfl
      | reaps s s' hs hdue hlives hended => exact List.length_set
      | rearms s hs hopen htimeout hrecent => exact List.length_set
  | expired t hphase hdue => exact given_of_phase rfl (by rw [hphase]; rfl)
  | swap t hphase => exact given_of_phase rfl (by rw [hphase]; simp [Phase.tasks])
  | execute fd rest now hphase hle =>
      rw [Reactor.attachConnection_eq]
      have htasks : l.phase.tasks.length = rest.length + 1 := by
        rw [hphase]
        rfl
      show l.pending.length + rest.length + (l.reactor.sessions ++ [_]).length = l.given
      rw [List.length_append, List.length_singleton, given, htasks]
      omega
  | poll hphase => exact given_of_phase rfl (by rw [hphase]; rfl)

theorem given_perform (l : LoopThread) (a : Action) (todo : List Action) :
    given { l with reactor := l.reactor.perform a, todo := todo } = l.given := by
  rw [given, given, Reactor.sessions_perform]

end LoopThread

namespace Reactors

variable {opts : Options} {s s' : Reactors} {l l' : LoopThread} {i j : ℕ}

/-- How many connections have been given to sub loops. -/
def dealt (s : Reactors) : ℕ := total LoopThread.given s.loops.tail

/-- Every sub loop has been given what its turns were. -/
structure Dealt (opts : Options) (s : Reactors) : Prop where
  count : s.loops.length = opts.ioThreads + 1
  next : s.nextSub = s.dealt % 2 ^ 64
  each : ∀ j l, s.loops[j + 1]? = some l → l.given = turns (2 ^ 64) opts.ioThreads j s.dealt

theorem dealt_start (opts : Options) (inUse : Finset ℤ) (now : TimePoint) :
    Dealt opts (start opts inUse now) := by
  have hnone : (start opts inUse now).dealt = 0 := by
    refine total_eq_zero fun l hl => ?_
    rw [List.eq_of_mem_replicate (show l ∈ List.replicate opts.ioThreads _ from hl)]
    rfl
  refine ⟨by simp [start], by rw [hnone]; rfl, fun j l hl => ?_⟩
  rw [hnone, turns_zero]
  have hmem : l ∈ List.replicate opts.ioThreads _ := List.mem_of_getElem? hl
  rw [List.eq_of_mem_replicate hmem]
  rfl

theorem tail_set_succ (loops : List LoopThread) (i : ℕ) (l : LoopThread) :
    (loops.set (i + 1) l).tail = loops.tail.set i l := by
  cases loops with
  | nil => rfl
  | cons first rest => rfl

theorem tail_set_zero (loops : List LoopThread) (l : LoopThread) :
    (loops.set 0 l).tail = loops.tail := by
  cases loops with
  | nil => rfl
  | cons first rest => rfl

/-- The main loop changes. -/
theorem Dealt.set_main (h : Dealt opts s) (hloops : s'.loops = s.loops.set 0 l')
    (hnext : s'.nextSub = s.nextSub) : Dealt opts s' := by
  have hdealt : s'.dealt = s.dealt := by rw [dealt, hloops, tail_set_zero, dealt]
  refine ⟨by rw [hloops, List.length_set, h.count], by rw [hnext, hdealt, h.next], ?_⟩
  intro j l hl
  rw [hloops, List.getElem?_set_ne (Nat.succ_ne_zero j).symm] at hl
  rw [hdealt]
  exact h.each j l hl

/-- A loop changes and has been given as many connections as before. -/
theorem Dealt.set_same (h : Dealt opts s) (hi : s.loops[i]? = some l) (hgiven : l'.given = l.given)
    (hloops : s'.loops = s.loops.set i l') (hnext : s'.nextSub = s.nextSub) : Dealt opts s' := by
  cases i with
  | zero => exact h.set_main hloops hnext
  | succ i =>
      have htail : s.loops.tail[i]? = some l := by rw [List.getElem?_tail, hi]
      have hdealt : s'.dealt = s.dealt := by
        rw [dealt, hloops, tail_set_succ, total_set_of_eq htail hgiven, dealt]
      refine ⟨by rw [hloops, List.length_set, h.count], by rw [hnext, hdealt, h.next], ?_⟩
      intro j l₁ hl₁
      rw [hdealt]
      by_cases hj : i = j
      · subst hj
        rw [hloops, List.getElem?_set_self (List.getElem?_eq_some_iff.mp hi).1] at hl₁
        rw [← Option.some.inj hl₁, hgiven]
        exact h.each i l hi
      · rw [hloops, List.getElem?_set_ne (by omega)] at hl₁
        exact h.each j l₁ hl₁

theorem Dealt.handOver (h : Dealt opts s) {fd : ℤ} {sub : LoopThread}
    (hsub : s.loops[s.pickSubLoop]? = some sub) :
    Dealt opts { s with
      loops := s.loops.set s.pickSubLoop { sub with pending := sub.pending ++ [fd] }
      nextSub := (s.nextSub + 1) % 2 ^ 64
      acceptor := .accepting } := by
  -- the place of the sub loop among the sub loops
  have hplace : s.pickSubLoop = s.dealt % 2 ^ 64 % opts.ioThreads + 1 := by
    rw [pickSubLoop, h.count, ← h.next, Nat.add_sub_cancel, Nat.add_comm]
  generalize hm : s.dealt % 2 ^ 64 % opts.ioThreads = m at hplace
  rw [hplace] at hsub ⊢
  have htail : s.loops.tail[m]? = some sub := by rw [List.getElem?_tail, hsub]
  have hgiven : LoopThread.given { sub with pending := sub.pending ++ [fd] } = sub.given + 1 := by
    show (sub.pending ++ [fd]).length + sub.phase.tasks.length + sub.reactor.sessions.length = _
    rw [List.length_append, List.length_singleton, LoopThread.given]
    omega
  have hdealt : dealt { s with
      loops := s.loops.set (m + 1) { sub with pending := sub.pending ++ [fd] }
      nextSub := (s.nextSub + 1) % 2 ^ 64
      acceptor := .accepting } = s.dealt + 1 := by
    have hset := total_set htail LoopThread.given { sub with pending := sub.pending ++ [fd] }
    rw [hgiven] at hset
    show total LoopThread.given (s.loops.set (m + 1) _).tail = _
    rw [tail_set_succ, dealt]
    omega
  refine ⟨(List.length_set).trans h.count, ?_, ?_⟩
  · rw [hdealt]
    show (s.nextSub + 1) % 2 ^ 64 = _
    rw [h.next, Nat.mod_add_mod]
  · intro j l hl
    rw [hdealt, turns_succ, hm]
    by_cases hj : m = j
    · subst hj
      rw [List.getElem?_set_self (List.getElem?_eq_some_iff.mp hsub).1] at hl
      rw [← Option.some.inj hl, hgiven, if_pos rfl, h.each m sub hsub]
    · rw [List.getElem?_set_ne (by omega)] at hl
      rw [if_neg hj, Nat.add_zero]
      exact h.each j l hl

theorem dealt_steps (hinv : Inv opts s) (h : Dealt opts s) {label : ReactorsLabel}
    (hstep : Steps opts s label s') : Dealt opts s' := by
  cases hstep with
  | thread i l l' action hi htodo hidle hstep =>
      have htabled := (hinv.healthy l (List.mem_of_getElem? hi)).tabled
      rw [LoopThread.settled_of_todo_nil htodo] at htabled
      exact h.set_same hi (LoopThread.given_runs (LoopThread.step?_cases htabled hstep)) rfl rfl
  | perform i l a rest hi htodo =>
      refine h.set_same hi (LoopThread.given_perform l a rest) rfl ?_
      cases a with
      | _ => rfl
  | onAccept main rest hmain hphase hidle => exact ⟨h.count, h.next, h.each⟩
  | accept main fd hmain htodo hacceptor hfresh hpos => exact ⟨h.count, h.next, h.each⟩
  | acceptFailed main e rest hmain hphase hacceptor => exact h.set_main rfl rfl
  | load main fd opened closed opened' closed' hmain htodo hacceptor hopened hclosed =>
      exact ⟨h.count, h.next, h.each⟩
  | refuse fd opened closed hacceptor hfull => exact ⟨h.count, h.next, h.each⟩
  | attach main fd opened closed now hlabel hmain htodo hacceptor hroom hone hle =>
      exact h.set_main rfl rfl
  | handOver fd opened closed now sub hlabel hacceptor hroom hmany hsub => exact h.handOver hsub

/-- What a run keeps up for the sake of the turns. -/
structure Dealing (opts : Options) (s : Reactors) : Prop where
  inv : Inv opts s
  dealt : Dealt opts s

theorem dealing_run (opts : Options) (inUse : Finset ℤ) (now : TimePoint)
    (labels : List ReactorsLabel) :
    Dealing opts (Transition.run (step opts) (start opts inUse now) labels) := by
  refine Transition.run_invariant (fun s label h => ?_)
    ⟨inv_start opts inUse now, dealt_start opts inUse now⟩ labels
  refine Transition.attempt_invariant (fun s label s' h hstep => ?_) s label h
  exact ⟨inv_steps h.inv (step?_cases hstep), dealt_steps h.inv h.dealt (step?_cases hstep)⟩

/-- How far the numbers of connections given to two sub loops are apart. -/
structure Even (s : Reactors) : Prop where
  /-- By one at most, as long as fewer than 2 ^ 64 have been given to sub loops; and by one more for
  each time that the counter has begun again. -/
  apart : ∀ i j l l', s.loops[i + 1]? = some l → s.loops[j + 1]? = some l' →
    l.given ≤ l'.given + (s.dealt / 2 ^ 64 + 1)

/-- **The connections are spread evenly**, in every state of every run. -/
theorem dealt_run (opts : Options) (inUse : Finset ℤ) (now : TimePoint)
    (labels : List ReactorsLabel) :
    Even (Transition.run (step opts) (start opts inUse now) labels) := by
  have h := (dealing_run opts inUse now labels).dealt
  refine ⟨fun i j l l' hi hj => ?_⟩
  have hplace {j : ℕ} {l : LoopThread}
      (hl : (Transition.run (step opts) (start opts inUse now) labels).loops[j + 1]? = some l) :
      j < opts.ioThreads := by
    have hlt := (List.getElem?_eq_some_iff.mp hl).1
    rw [h.count] at hlt
    exact Nat.lt_of_succ_lt_succ hlt
  rw [h.each i l hi, h.each j l' hj]
  exact turns_le (by decide) (hplace hi) (hplace hj)

end Reactors

end WsServer
