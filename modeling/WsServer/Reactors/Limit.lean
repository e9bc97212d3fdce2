import WsServer.Reactors.Accounting
import WsServer.Reactors.RoundRobin

/-!
# The limit of connections

`onAccept` compares `opened - closed` with the limit.  With sub loops a connection that it lets
through is counted in `opened` only when the other thread has attached it, so the comparison
overlooks those that are waiting, and a burst of connections passes it.

How far a run goes beyond the limit is a matter of the schedule: by no more connections than were
let through and not yet counted at any load of `opened` (`excess_run`).  Connections that are closed
meanwhile only make room, since `closed` lags behind as well.  So the limit is kept if `opened` is
loaded only when all that has been let through has been counted.  Without sub loops this is always
so: the connection is attached and counted before the next one is accepted.
-/

namespace WsServer.Reactors

open Ledger Reactor

variable {opts : Options} {s s' : Reactors} {l l' : LoopThread} {label : ReactorsLabel} {k : ℕ}

/-- How many connections are queued for attachment. -/
def waiting (s : Reactors) : ℕ := total (fun l => (l.pending ++ l.phase.tasks).length) s.loops

/-- How many connections have been let through and not counted in `opened`: they are queued, or the
handler that attaches them has not come to the counter. -/
def uncounted (s : Reactors) : ℕ := s.waiting + total LoopThread.uncountedOpened s.loops

/-- When `opened` is loaded, at most `k` connections that have been let through are not in it. -/
def LagsAtMost (k : ℕ) (opts : Options) (s : Reactors) : ReactorsLabel → Prop
  | .loadOpened => (s.step? opts .loadOpened).isSome = true → s.uncounted ≤ k
  | _ => True

instance LagsAtMost.instDecidable (k : ℕ) (opts : Options) (s : Reactors) :
    (label : ReactorsLabel) → Decidable (LagsAtMost k opts s label)
  | .loadOpened =>
      inferInstanceAs (Decidable ((s.step? opts .loadOpened).isSome = true → s.uncounted ≤ k))
  | .thread _ _ | .perform _ | .onAccept | .accept _ | .acceptFailed | .loadClosed | .check _ =>
      inferInstanceAs (Decidable True)

/-- No more connections have been let through and not closed than the limit says. -/
def WithinLimit (opts : Options) (s : Reactors) : Prop := (s.load : ℤ) ≤ opts.maxConnections

/-! ## The accounts -/

/-- How many connections have been let through so far. -/
def passed (s : Reactors) : ℕ := total LoopThread.given s.loops

theorem Inv.passed_eq (h : Inv opts s) : s.passed = s.opened + s.uncounted := by
  have hsplit : s.passed = s.waiting + total (fun l => l.reactor.sessions.length) s.loops := by
    rw [passed, waiting, ← total_add]
    refine total_congr fun l _ => ?_
    rw [LoopThread.given, List.length_append]
  have hopened := h.opened
  rw [uncounted]
  omega

theorem Inv.openCount_add (h : Inv opts s) (hl : l ∈ s.loops) :
    l.reactor.openCount + l.reactor.closedCount = l.reactor.sessions.length := by
  have hsessions : l.settled.sessions = l.reactor.sessions := sessions_settle _ _
  have hcount := openCount_add_closedCount (h.healthy l hl).tabled
  rw [openCount, closedCount, hsessions] at hcount
  exact hcount

/-- `closed` does not run ahead. -/
theorem Inv.load_add_closed_le (h : Inv opts s) : s.load + s.closed ≤ s.passed := by
  have hsplit : s.load + total (fun l => l.reactor.closedCount) s.loops = s.passed := by
    rw [load, passed, ← total_add]
    refine total_congr fun l hl => ?_
    rw [LoopThread.load, LoopThread.given, ← h.openCount_add hl, add_assoc]
  have hclosed := h.closed
  omega

theorem load_thread (h : Inv opts s) {i : ℕ} (hi : s.loops[i]? = some l) (htodo : l.todo = [])
    {action : ThreadLabel} (hstep : l.step? opts.idleTimeoutS action = some l') :
    total LoopThread.load (s.loops.set i l') ≤ s.load := by
  have htabled := h.tabled (List.mem_of_getElem? hi) htodo
  have hkeeps := LoopThread.keeps_runs htabled htodo (LoopThread.step?_cases htabled hstep)
  have hset := total_set hi LoopThread.load l'
  have hload := hkeeps.load
  show _ ≤ total LoopThread.load s.loops
  omega

/-- Only a check that lets a connection through makes them more. -/
theorem load_steps (h : Inv opts s) (hstep : Steps opts s label s') : s'.load ≤ s.load ∨
    s'.load = s.load + 1 ∧ ∃ fd opened closed,
      s.acceptor = .checking fd (some opened) (some closed) ∧
        (opened : ℤ) - closed < opts.maxConnections := by
  cases hstep with
  | thread i l l' action hi htodo hidle hrun => exact .inl (load_thread h hi htodo hrun)
  | perform i l a rest hi htodo =>
      refine .inl (le_of_eq (total_set_of_eq hi ?_))
      rw [LoopThread.load, LoopThread.load, openCount, openCount, sessions_perform]
  | acceptFailed main e rest hmain hphase hacceptor =>
      refine .inl (le_of_eq (total_set_of_eq hmain ?_))
      rw [LoopThread.load, LoopThread.load, hphase]
      rfl
  | attach main fd opened closed now hlabel hmain htodo hacceptor hroom hone hle =>
      refine .inr ⟨?_, fd, opened, closed, hacceptor, hroom⟩
      obtain ⟨-, -, -, hload⟩ := LoopThread.account_attach opts.idleTimeoutS htodo main.phase fd now
      have hset := total_set hmain LoopThread.load (main.handler main.phase now
        (main.reactor.attachConnection opts.idleTimeoutS fd now))
      rw [hload, LoopThread.load] at hset
      show total LoopThread.load (s.loops.set 0 _) = total LoopThread.load s.loops + 1
      omega
  | handOver fd opened closed now sub hlabel hacceptor hroom hmany hsub =>
      refine .inr ⟨?_, fd, opened, closed, hacceptor, hroom⟩
      have hset := total_set hsub LoopThread.load { sub with pending := sub.pending ++ [fd] }
      have hload : LoopThread.load { sub with pending := sub.pending ++ [fd] } = sub.load + 1 := by
        simp only [LoopThread.load, List.length_append, List.length_singleton]
        omega
      show total LoopThread.load (s.loops.set s.pickSubLoop _) = total LoopThread.load s.loops + 1
      omega
  | _ => exact .inl le_rfl

/-- While a connection is checked no other one is let through. -/
theorem passed_of_checking (h : Inv opts s) (hstep : Steps opts s label s') {fd : ℤ}
    {opened closed : Option ℕ} (hchecking : s'.acceptor = .checking fd opened closed) :
    s'.passed = s.passed := by
  cases hstep with
  | thread i l l' action hi htodo hidle hrun =>
      have htabled := h.tabled (List.mem_of_getElem? hi) htodo
      exact total_set_of_eq hi (LoopThread.given_runs (LoopThread.step?_cases htabled hrun))
  | perform i l a rest hi htodo => exact total_set_of_eq hi (LoopThread.given_perform l a rest)
  | accept main fd' hmain htodo hacceptor hfresh hpos => rfl
  | load main fd' opened' closed' opened'' closed'' hmain htodo hacceptor hopened hclosed => rfl
  | onAccept main rest hmain hphase hidle => cases hchecking
  | acceptFailed main e rest hmain hphase hacceptor => cases hchecking
  | refuse fd' opened' closed' hacceptor hfull => cases hchecking
  | attach main fd' opened' closed' now hlabel hmain htodo hacceptor hroom hone hle =>
      cases hchecking
  | handOver fd' opened' closed' now sub hlabel hacceptor hroom hmany hsub => cases hchecking

/-! ## What has been loaded -/

theorem acceptor_letThrough {main : LoopThread} {fd : ℤ} {now : TimePoint}
    (h : s.letThrough opts main fd now = some s') : s'.acceptor = .accepting := by
  unfold letThrough at h
  split at h
  · simp only [Option.ite_none_right_eq_some, Option.some.injEq] at h
    exact h.2 ▸ rfl
  · obtain ⟨sub, -, rfl⟩ := Option.map_eq_some_iff.mp h
    rfl

/-- Where what has been loaded of `opened` comes from. -/
theorem opened_of_acceptorStep? {main : LoopThread} (h : s.acceptorStep? opts main label = some s')
    {fd : ℤ} {opened : ℕ} {closed : Option ℕ}
    (hchecking : s'.acceptor = .checking fd (some opened) closed) :
    (∃ before, s.acceptor = .checking fd (some opened) before) ∨
      label = .loadOpened ∧ opened = s.opened := by
  unfold acceptorStep? at h
  split at h
  · split at h
    · obtain rfl := Option.some.inj h
      cases hchecking
    · cases h
  · split at h
    · simp only [Option.ite_none_right_eq_some, Option.some.injEq] at h
      obtain ⟨-, rfl⟩ := h
      cases hchecking
    · cases h
  · split at h
    · obtain rfl := Option.some.inj h
      cases hchecking
    · cases h
  · split at h
    · obtain rfl := Option.some.inj h
      cases hchecking
      exact .inr ⟨rfl, rfl⟩
    · cases h
  · split at h
    · rename_i fd' opened' hacceptor
      obtain rfl := Option.some.inj h
      cases hchecking
      exact .inl ⟨none, hacceptor⟩
    · cases h
  · split at h
    · split at h
      · obtain rfl := Option.some.inj h
        cases hchecking
      · rw [acceptor_letThrough h] at hchecking
        cases hchecking
    · cases h
  · cases h

theorem opened_of_step? (h : s.step? opts label = some s') {fd : ℤ} {opened : ℕ}
    {closed : Option ℕ} (hchecking : s'.acceptor = .checking fd (some opened) closed) :
    (∃ before, s.acceptor = .checking fd (some opened) before) ∨
      label = .loadOpened ∧ opened = s.opened := by
  unfold step? at h
  split at h
  · split at h
    · simp only [Option.ite_none_right_eq_some, Option.map_eq_some_iff] at h
      obtain ⟨-, l', -, rfl⟩ := h
      exact .inl ⟨closed, hchecking⟩
    · cases h
  · split at h
    · split at h
      · cases h
      · rename_i a rest htodo
        obtain rfl := Option.some.inj h
        exact .inl ⟨closed, (share_fields s a).1 ▸ hchecking⟩
    · cases h
  · split at h
    · simp only [Option.ite_none_right_eq_some] at h
      exact opened_of_acceptorStep? h.2 hchecking
    · cases h

theorem closed_of_steps (hstep : Steps opts s label s') {fd : ℤ} {opened : Option ℕ} {closed : ℕ}
    (hchecking : s'.acceptor = .checking fd opened (some closed))
    (hloaded : ∀ fd opened closed, s.acceptor = .checking fd opened (some closed) →
      closed ≤ s.closed) : closed ≤ s'.closed := by
  cases hstep with
  | thread i l l' action hi htodo hidle hrun => exact hloaded fd opened closed hchecking
  | perform i l a rest hi htodo =>
      obtain ⟨hacceptor, -, -, hclosed⟩ := share_fields s a
      show closed ≤ (s.share a).closed
      rw [hclosed]
      exact (hloaded fd opened closed (hacceptor ▸ hchecking)).trans (Nat.le_add_right _ _)
  | load main fd' opened' closed' opened'' closed'' hmain htodo hacceptor hopened hclosed =>
      obtain ⟨-, -, rfl⟩ := Acceptor.checking.inj hchecking
      rcases hclosed with rfl | hnow
      · exact hloaded fd' opened' closed hacceptor
      · exact (Option.some.inj hnow).le
  | accept main fd' hmain htodo hacceptor hfresh hpos => cases hchecking
  | onAccept main rest hmain hphase hidle => cases hchecking
  | acceptFailed main e rest hmain hphase hacceptor => cases hchecking
  | refuse fd' opened' closed' hacceptor hfull => cases hchecking
  | attach main fd' opened' closed' now hlabel hmain htodo hacceptor hroom hone hle =>
      cases hchecking
  | handOver fd' opened' closed' now sub hlabel hacceptor hroom hmany hsub => cases hchecking

/-! ## How far beyond the limit -/

/-- What has been loaded lacks at most `k` connections, and so many are beyond the limit at most. -/
structure Exceeds (opts : Options) (k : ℕ) (s : Reactors) : Prop where
  inv : Inv opts s
  load : (s.load : ℤ) ≤ opts.maxConnections + k
  opened : ∀ fd opened closed, s.acceptor = .checking fd (some opened) closed →
    s.passed ≤ opened + k
  closed : ∀ fd opened closed, s.acceptor = .checking fd opened (some closed) → closed ≤ s.closed

theorem exceeds_start (hmax : 0 < opts.maxConnections) (inUse : Finset ℤ) (now : TimePoint) :
    Exceeds opts k (start opts inUse now) := by
  refine ⟨inv_start opts inUse now, ?_, fun _ _ _ hchecking => ?_, fun _ _ _ hchecking => ?_⟩
  rotate_left
  · cases hchecking
  · cases hchecking
  unfold Reactors.load
  rw [total_start _ opts inUse now fun _ => rfl]
  omega

theorem exceeds_step? (h : Exceeds opts k s) (hlags : LagsAtMost k opts s label)
    (hnext : s.step? opts label = some s') : Exceeds opts k s' := by
  have hsteps := step?_cases hnext
  refine ⟨inv_steps h.inv hsteps, ?_, fun fd opened closed hchecking => ?_, ?_⟩
  · rcases load_steps h.inv hsteps with hle | ⟨hload, fd, opened, closed, hacceptor, hroom⟩
    · have hbefore := h.load
      omega
    · -- the reading that was let through lacks `k` connections at most
      have hopened := h.opened fd opened _ hacceptor
      have hclosed := h.closed fd _ closed hacceptor
      have htotal := h.inv.load_add_closed_le
      omega
  · rw [passed_of_checking h.inv hsteps hchecking]
    rcases opened_of_step? hnext hchecking with ⟨before, hacceptor⟩ | ⟨rfl, rfl⟩
    · exact h.opened fd opened before hacceptor
    · rw [h.inv.passed_eq]
      exact Nat.add_le_add_left (hlags (by rw [hnext]; rfl)) _
  · exact fun fd opened closed hchecking => closed_of_steps hsteps hchecking h.closed

theorem exceeds_step (h : Exceeds opts k s) (hlags : LagsAtMost k opts s label) :
    Exceeds opts k (step opts s label) := by
  unfold step Transition.attempt
  cases hnext : s.step? opts label with
  | none => exact h
  | some s' => exact exceeds_step? h hlags hnext

/-- **Bursts.**  If `opened` never lacks more than `k` connections when it is loaded, no more than
`k` are ever beyond the limit. -/
theorem excess_run (k : ℕ) (hmax : 0 < opts.maxConnections) (inUse : Finset ℤ) (now : TimePoint)
    {labels : List ReactorsLabel}
    (hlags : Transition.AllSteps (step opts) (LagsAtMost k opts) (start opts inUse now) labels)
    {front : List ReactorsLabel} (hfront : front <+: labels) :
    ((Transition.run (step opts) (start opts inUse now) front).load : ℤ) ≤
      opts.maxConnections + k := by
  have hinv (s : Reactors) (label : ReactorsLabel) (_ : True) (h : Exceeds opts k s)
      (hlags : LagsAtMost k opts s label) : Exceeds opts k (step opts s label) :=
    exceeds_step h hlags
  have hall := Transition.prefixes_of_allSteps_on hinv (exceeds_start hmax inUse now)
    (fun _ _ => trivial) hlags
  exact (hall front hfront).load

/-! ## Without sub loops -/

/-- The main loop is the only one. -/
structure Alone (s : Reactors) (main : LoopThread) : Prop where
  loops : s.loops = [main]
  idle : main.pending ++ main.phase.tasks = []

/-- A loop to which no task is given gets none. -/
theorem tasks_runs {idleTimeoutS : ℤ} (h : LoopThread.Runs idleTimeoutS l l')
    (hidle : l.pending ++ l.phase.tasks = []) : l'.pending ++ l'.phase.tasks = [] := by
  cases h with
  | swap t hphase =>
      rw [hphase] at hidle
      simpa [Phase.tasks] using hidle
  | execute fd rest now hphase hle =>
      rw [hphase] at hidle
      simp [Phase.tasks] at hidle
  | ready batch hphase hreports =>
      rw [hphase] at hidle
      exact hidle
  | wakeup rest hphase =>
      rw [hphase] at hidle
      exact hidle
  | dispatch fd c hangup readable writable rest now r' todo hphase hle hrun =>
      rw [hphase] at hidle
      exact hidle
  | expire now hphase hle =>
      rw [hphase] at hidle
      exact hidle
  | drop t k now e timers hphase hle hpop hcancelled =>
      rw [hphase] at hidle
      exact hidle
  | fire t k now e timers r' todo hphase hle hpop hlive hrun =>
      rw [hphase] at hidle
      exact hidle
  | expired t hphase hdue =>
      rw [hphase] at hidle
      exact hidle
  | poll hphase =>
      rw [hphase] at hidle
      exact hidle

theorem Alone.eq_main {main : LoopThread} (h : s.Alone main) {i : ℕ}
    (hi : s.loops[i]? = some l) : i = 0 ∧ l = main := by
  rw [h.loops] at hi
  cases i with
  | zero => exact ⟨rfl, (Option.some.inj hi).symm⟩
  | succ i => simp at hi

theorem Alone.set {main : LoopThread} (h : s.Alone main) (l' : LoopThread) :
    s.loops.set 0 l' = [l'] := by
  rw [h.loops]
  rfl

theorem alone_steps (h : Inv opts s) {main : LoopThread} (halone : s.Alone main)
    (hstep : Steps opts s label s') : ∃ main', s'.Alone main' := by
  obtain ⟨hloops, hidle⟩ := id halone
  cases hstep with
  | thread i l l' action hi htodo haccepting hrun =>
      obtain ⟨rfl, rfl⟩ := halone.eq_main hi
      have htabled := h.tabled (List.mem_of_getElem? hi) htodo
      exact ⟨l', halone.set l', tasks_runs (LoopThread.step?_cases htabled hrun) hidle⟩
  | perform i l a rest hi htodo =>
      obtain ⟨rfl, rfl⟩ := halone.eq_main hi
      exact ⟨_, halone.set _, hidle⟩
  | acceptFailed main' e rest hmain hphase hacceptor =>
      obtain ⟨-, rfl⟩ := halone.eq_main hmain
      rw [hphase] at hidle
      exact ⟨_, halone.set _, hidle⟩
  | attach main' fd opened closed now hlabel hmain htodo hacceptor hroom hone hle =>
      obtain ⟨-, rfl⟩ := halone.eq_main hmain
      exact ⟨_, halone.set _, hidle⟩
  | handOver fd opened closed now sub hlabel hacceptor hroom hmany hsub =>
      rw [hloops] at hmany
      simp at hmany
  | _ => exact ⟨main, hloops, hidle⟩

/-- `onAccept` goes on when the connection has been attached and counted. -/
theorem Alone.lagsAtMost {main : LoopThread} (halone : s.Alone main) (label : ReactorsLabel) :
    LagsAtMost 0 opts s label := by
  cases label with
  | loadOpened =>
      intro hsome
      have hwaiting : s.waiting = 0 := by
        rw [waiting, halone.loops, total_cons, total_nil, halone.idle]
        rfl
      have htodo : main.todo = [] := by
        by_contra hbusy
        simp [step?, halone.loops, hbusy] at hsome
      rw [uncounted, hwaiting, halone.loops, total_cons, LoopThread.uncountedOpened, htodo]
      rfl
  | _ => trivial

/-- The only loop, in a state of a run. -/
def Single (opts : Options) (s : Reactors) : Prop := Inv opts s ∧ ∃ main, s.Alone main

theorem single_start (hnone : opts.ioThreads = 0) (inUse : Finset ℤ) (now : TimePoint) :
    Single opts (start opts inUse now) := by
  have hloops : (start opts inUse now).loops = [{ listens := true, clock := now }] := by
    rw [start, hnone]
    rfl
  exact ⟨inv_start opts inUse now, _, hloops, rfl⟩

theorem single_step (s : Reactors) (label : ReactorsLabel) (h : Single opts s) :
    Single opts (step opts s label) := by
  refine Transition.attempt_invariant (fun s label s' h hstep => ?_) s label h
  obtain ⟨hinv, main, halone⟩ := h
  have hsteps := step?_cases hstep
  exact ⟨inv_steps hinv hsteps, alone_steps hinv halone hsteps⟩

/-! ## Runs -/

/-- **The limit.**  It is kept in all states of a run in which `opened` is loaded only when all
connections that have been let through have been counted; and without sub loops this is always
so. -/
theorem limit_run (opts : Options) (hmax : 0 < opts.maxConnections) (inUse : Finset ℤ)
    (now : TimePoint) (labels : List ReactorsLabel) :
    (Transition.AllSteps (step opts) (LagsAtMost 0 opts) (start opts inUse now) labels →
      ∀ front, front <+: labels →
        WithinLimit opts (Transition.run (step opts) (start opts inUse now) front)) ∧
    (opts.ioThreads = 0 →
      Transition.AllSteps (step opts) (LagsAtMost 0 opts) (start opts inUse now) labels) := by
  constructor
  · intro hlags front hfront
    have hexcess := excess_run 0 hmax inUse now hlags hfront
    rwa [Nat.cast_zero, add_zero] at hexcess
  · intro hnone
    exact Transition.allSteps_of_invariant single_step
      (fun s label ⟨_, _, halone⟩ => halone.lagsAtMost label) (single_start hnone inUse now) labels

/-- A sub loop that attaches and counts a connection before the next one is accepted; that one finds
the limit reached. -/
def timely : List ReactorsLabel :=
  [.thread 0 (.ready [.acceptor]), .onAccept, .accept 5, .loadOpened, .loadClosed, .check 0,
    .thread 1 (.ready [.wakeup]), .thread 1 .wakeup, .thread 1 (.expire 0), .thread 1 .expired,
    .thread 1 .swap, .thread 1 (.execute 0), .perform 1, .perform 1, .perform 1, .perform 1,
    .accept 6, .loadOpened, .loadClosed, .check 0]

/-- The law on this run. -/
theorem limit_run_sample :
    let opts : Options := { ioThreads := 1, maxConnections := 1 }
    let s := Transition.run (step opts) (start opts ∅ 0) timely
    s.load = 1 ∧ s.acceptor = .accepting ∧ WithinLimit opts s := by
  intro opts s
  have hlags : Transition.AllSteps (step opts) (LagsAtMost 0 opts) (start opts ∅ 0) timely := by
    decide +kernel
  refine ⟨by decide +kernel, by decide +kernel, ?_⟩
  exact (limit_run opts (by decide) ∅ 0 timely).1 hlags timely List.prefix_rfl

/-- Two connections are accepted before the sub loop attaches the first one. -/
theorem not_withinLimit :
    ¬ ∀ labels, WithinLimit { ioThreads := 1, maxConnections := 1 }
      (Transition.run (step { ioThreads := 1, maxConnections := 1 })
        (start { ioThreads := 1, maxConnections := 1 } ∅ 0) labels) := by
  intro hall
  have hlimit := hall [.thread 0 (.ready [.acceptor]), .onAccept, .accept 5, .loadOpened,
    .loadClosed, .check 0, .accept 6, .loadOpened, .loadClosed, .check 0]
  revert hlimit
  unfold WithinLimit
  decide

end WsServer.Reactors
