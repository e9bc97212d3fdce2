import WsServer.Reactor.Accounts
import WsServer.Reactors.Loop

/-!
# The invariant of a server

Every loop is in order (`Healthy`), and what the loops share is accounted for: each descriptor in
use belongs to one connection, one queued task or `onAccept`, and the counters lag behind the loops
by the actions that are still to be performed (`Inv`).  It holds in every state of every run
(`inv_run`), and is what all results about a server are read off.
-/

namespace WsServer

open Ledger

/-- The tasks swapped out and not yet executed. -/
def Phase.tasks : Phase → List ℤ
  | .executing tasks => tasks
  | _ => []

/-- The descriptor that `onAccept` has accepted and not yet passed on. -/
def Acceptor.hand : Acceptor → Multiset ℤ
  | .checking fd _ _ => {fd}
  | _ => 0

namespace LoopThread

/-- The descriptors that a loop has to close some time. -/
def owned (l : LoopThread) : Multiset ℤ :=
  l.pending + l.phase.tasks + (l.reactor.openFds + total Action.closedFd l.todo)

/-- How many connections have been given to a loop and are not closed. -/
def load (l : LoopThread) : ℕ := l.pending.length + l.phase.tasks.length + l.reactor.openCount

/-- The connections attached and not yet counted. -/
def uncountedOpened (l : LoopThread) : ℕ := total Action.openedCount l.todo

/-- The connections closed and not yet counted. -/
def uncountedClosed (l : LoopThread) : ℕ := total Action.closedCount l.todo

/-! ## The accounts of a loop -/

open Reactor

variable {idleTimeoutS : ℤ} {l l' : LoopThread}

/-- The loop owns the same descriptors, counts later what it has not counted, and has no more
connections. -/
structure Keeps (l l' : LoopThread) : Prop where
  owned : l'.owned = l.owned
  opened : l'.reactor.sessions.length + l.uncountedOpened =
    l.reactor.sessions.length + l'.uncountedOpened
  closed : l'.reactor.closedCount + l.uncountedClosed = l.reactor.closedCount + l'.uncountedClosed
  load : l'.load ≤ l.load

theorem keeps_of_phase (htodo : l'.todo = l.todo) (hreactor : l'.reactor = l.reactor)
    (htasks : l'.pending ++ l'.phase.tasks = l.pending ++ l.phase.tasks) : Keeps l l' := by
  have hlength := congrArg List.length htasks
  rw [List.length_append, List.length_append] at hlength
  refine ⟨?_, ?_, ?_, ?_⟩
  · rw [owned, owned, htodo, hreactor, Multiset.coe_add, Multiset.coe_add, htasks]
  · rw [uncountedOpened, uncountedOpened, htodo, hreactor]
  · rw [uncountedClosed, uncountedClosed, htodo, hreactor]
  · rw [load, load, hreactor, hlength]

theorem keeps_handler (htodo : l.todo = []) {phase : Phase} (now : TimePoint) {r' : Reactor}
    {todo : List Action} (h : Balanced l.reactor r' todo) (htasks : phase.tasks = l.phase.tasks) :
    Keeps l (l.handler phase now (r', todo)) := by
  refine ⟨?_, ?_, ?_, ?_⟩
  · show ↑l.pending + ↑phase.tasks + (r'.openFds + total Action.closedFd todo) = l.owned
    rw [h.fds, htasks, owned, htodo, total_nil, add_zero]
  · show r'.sessions.length + l.uncountedOpened = l.reactor.sessions.length + _
    rw [h.opened, uncountedOpened, htodo, total_nil]
    rfl
  · show r'.closedCount + l.uncountedClosed = l.reactor.closedCount + _
    rw [h.closed, uncountedClosed, htodo, total_nil]
    rfl
  · show l.pending.length + phase.tasks.length + r'.openCount ≤ l.load
    rw [htasks, load]
    exact Nat.add_le_add_left h.openCount _

/-- `attachConnection` takes over its descriptor. -/
theorem account_attach (idleTimeoutS : ℤ) (htodo : l.todo = []) (phase : Phase) (fd : ℤ) (now : TimePoint) :
    let l' := l.handler phase now (l.reactor.attachConnection idleTimeoutS fd now)
    l'.owned = l.pending + phase.tasks + (l.reactor.openFds + {fd}) ∧
      l'.reactor.sessions.length + l.uncountedOpened =
        l.reactor.sessions.length + l'.uncountedOpened ∧
      l'.reactor.closedCount + l.uncountedClosed = l.reactor.closedCount + l'.uncountedClosed ∧
      l'.load = l.pending.length + phase.tasks.length + (l.reactor.openCount + 1) := by
  obtain ⟨hfds, hopened, hclosed, hcount⟩ :=
    account_attachConnection l.reactor idleTimeoutS fd now
  intro l'
  refine ⟨?_, ?_, ?_, ?_⟩
  · rw [← hfds]
    rfl
  · rw [uncountedOpened, htodo, total_nil]
    exact hopened
  · rw [uncountedClosed, htodo, total_nil]
    exact hclosed
  · rw [← hcount]
    rfl

theorem keeps_runs (htabled : Tabled idleTimeoutS l.reactor) (htodo : l.todo = [])
    (hrun : Runs idleTimeoutS l l') : Keeps l l' := by
  cases hrun with
  | ready batch hphase hreports => exact keeps_of_phase rfl rfl (by rw [hphase]; rfl)
  | wakeup rest hphase => exact keeps_of_phase rfl rfl (by rw [hphase]; rfl)
  | dispatch fd c hangup readable writable rest now r' todo hphase hle hrun =>
      exact keeps_handler htodo now (balanced_handles htabled hrun) (by rw [hphase]; rfl)
  | expire now hphase hle => exact keeps_of_phase rfl rfl (by rw [hphase]; rfl)
  | drop t k now e timers hphase hle hpop hcancelled =>
      refine keeps_handler htodo now ?_ (by rw [hphase])
      exact ⟨by simp [openFds], by simp, by simp [closedCount], le_rfl⟩
  | fire t k now e timers r' todo hphase hle hpop hlive hrun =>
      have htabled' : Tabled idleTimeoutS { l.reactor with timers := timers } :=
        htabled.congr rfl rfl rfl
      have hbalanced := balanced_fires htabled' hrun
      refine keeps_handler htodo now ?_ (by rw [hphase])
      exact ⟨hbalanced.fds, hbalanced.opened, hbalanced.closed, hbalanced.openCount⟩
  | expired t hphase hdue => exact keeps_of_phase rfl rfl (by rw [hphase]; rfl)
  | swap t hphase => exact keeps_of_phase rfl rfl (by rw [hphase]; simp [Phase.tasks])
  | execute fd rest now hphase hle =>
      obtain ⟨howned, hopened, hclosed, hload⟩ :=
        account_attach idleTimeoutS htodo (.executing rest) fd now
      refine ⟨?_, hopened, hclosed, ?_⟩
      · rw [howned, owned, hphase, htodo, total_nil, add_zero]
        show ↑l.pending + ↑rest + (l.reactor.openFds + {fd}) =
          ↑l.pending + ↑(fd :: rest) + l.reactor.openFds
        rw [← Multiset.cons_coe, ← Multiset.singleton_add]
        abel
      · rw [hload, load, hphase]
        show l.pending.length + rest.length + (l.reactor.openCount + 1) ≤
          l.pending.length + (fd :: rest).length + l.reactor.openCount
        rw [List.length_cons]
        omega
  | poll hphase => exact keeps_of_phase rfl rfl (by rw [hphase]; rfl)

end LoopThread

namespace Reactors

variable {opts : Options} {s s' : Reactors}

/-! ## Steps -/

/-- The actions of all threads. -/
inductive Steps (opts : Options) (s : Reactors) (label : ReactorsLabel) : Reactors → Prop
  | thread (i : ℕ) (l l' : LoopThread) (action : ThreadLabel) (hi : s.loops[i]? = some l)
      (htodo : l.todo = []) (hidle : i = 0 → s.acceptor = .idle)
      (hstep : l.step? opts.idleTimeoutS action = some l') :
      Steps opts s label { s with loops := s.loops.set i l' }
  | perform (i : ℕ) (l : LoopThread) (a : Action) (rest : List Action)
      (hi : s.loops[i]? = some l) (htodo : l.todo = a :: rest) :
      Steps opts s label { s.share a with
        loops := s.loops.set i { l with reactor := l.reactor.perform a, todo := rest } }
  | onAccept (main : LoopThread) (rest : List Reported) (hmain : s.loops[0]? = some main)
      (hphase : main.phase = .dispatching (.acceptor :: rest)) (hidle : s.acceptor = .idle) :
      Steps opts s label { s with acceptor := .accepting }
  | accept (main : LoopThread) (fd : ℤ) (hmain : s.loops[0]? = some main)
      (htodo : main.todo = []) (hacceptor : s.acceptor = .accepting) (hfresh : fd ∉ s.inUse)
      (hpos : 0 ≤ fd) :
      Steps opts s label { s with inUse := insert fd s.inUse, acceptor := .checking fd none none }
  | acceptFailed (main : LoopThread) (e : Reported) (rest : List Reported)
      (hmain : s.loops[0]? = some main) (hphase : main.phase = .dispatching (e :: rest))
      (hacceptor : s.acceptor = .accepting) :
      Steps opts s label { s with
        loops := s.loops.set 0 { main with phase := .dispatching rest }, acceptor := .idle }
  | load (main : LoopThread) (fd : ℤ) (opened closed opened' closed' : Option ℕ)
      (hmain : s.loops[0]? = some main) (htodo : main.todo = [])
      (hacceptor : s.acceptor = .checking fd opened closed)
      (hopened : opened' = opened ∨ opened' = some s.opened)
      (hclosed : closed' = closed ∨ closed' = some s.closed) :
      Steps opts s label { s with acceptor := .checking fd opened' closed' }
  | refuse (fd : ℤ) (opened closed : ℕ)
      (hacceptor : s.acceptor = .checking fd (some opened) (some closed))
      (hfull : opts.maxConnections ≤ (opened : ℤ) - closed) :
      Steps opts s label { s with inUse := s.inUse.erase fd, acceptor := .accepting }
  | attach (main : LoopThread) (fd : ℤ) (opened closed : ℕ) (now : TimePoint)
      (hlabel : label = .check now) (hmain : s.loops[0]? = some main) (htodo : main.todo = [])
      (hacceptor : s.acceptor = .checking fd (some opened) (some closed))
      (hroom : (opened : ℤ) - closed < opts.maxConnections) (hone : s.loops.length ≤ 1)
      (hle : main.clock ≤ now) :
      Steps opts s label { s with
        loops := s.loops.set 0 (main.handler main.phase now
          (main.reactor.attachConnection opts.idleTimeoutS fd now))
        acceptor := .accepting }
  | handOver (fd : ℤ) (opened closed : ℕ) (now : TimePoint) (sub : LoopThread)
      (hlabel : label = .check now)
      (hacceptor : s.acceptor = .checking fd (some opened) (some closed))
      (hroom : (opened : ℤ) - closed < opts.maxConnections) (hmany : 1 < s.loops.length)
      (hsub : s.loops[s.pickSubLoop]? = some sub) :
      Steps opts s label { s with
        loops := s.loops.set s.pickSubLoop { sub with pending := sub.pending ++ [fd] }
        nextSub := (s.nextSub + 1) % 2 ^ 64
        acceptor := .accepting }

theorem steps_letThrough {main : LoopThread} {fd : ℤ} {opened closed : ℕ} {now : TimePoint}
    (hmain : s.loops[0]? = some main) (htodo : main.todo = [])
    (hacceptor : s.acceptor = .checking fd (some opened) (some closed))
    (hroom : (opened : ℤ) - closed < opts.maxConnections)
    (h : s.letThrough opts main fd now = some s') : Steps opts s (.check now) s' := by
  unfold letThrough at h
  split at h
  · rename_i hone
    simp only [Option.ite_none_right_eq_some, Option.some.injEq] at h
    obtain ⟨hle, rfl⟩ := h
    exact .attach main fd opened closed now rfl hmain htodo hacceptor hroom hone hle
  · rename_i hmany
    obtain ⟨sub, hsub, rfl⟩ := Option.map_eq_some_iff.mp h
    exact .handOver fd opened closed now sub rfl hacceptor hroom (not_le.mp hmany) hsub

theorem steps_acceptorStep? {main : LoopThread} {label : ReactorsLabel}
    (hmain : s.loops[0]? = some main) (htodo : main.todo = [])
    (h : s.acceptorStep? opts main label = some s') : Steps opts s label s' := by
  unfold acceptorStep? at h
  split at h
  · split at h
    · rename_i rest hidle hphase
      obtain rfl := Option.some.inj h
      exact .onAccept main rest hmain hphase hidle
    · simp at h
  · rename_i fd
    split at h
    · rename_i hacceptor
      simp only [Option.ite_none_right_eq_some, Option.some.injEq] at h
      obtain ⟨⟨hfresh, hpos⟩, rfl⟩ := h
      exact .accept main fd hmain htodo hacceptor hfresh hpos
    · simp at h
  · split at h
    · rename_i e rest hacceptor hphase
      obtain rfl := Option.some.inj h
      exact .acceptFailed main e rest hmain hphase hacceptor
    · simp at h
  · split at h
    · rename_i fd closed hacceptor
      obtain rfl := Option.some.inj h
      exact .load main fd none closed _ closed hmain htodo hacceptor (.inr rfl) (.inl rfl)
    · simp at h
  · split at h
    · rename_i fd opened hacceptor
      obtain rfl := Option.some.inj h
      exact .load main fd opened none opened _ hmain htodo hacceptor (.inl rfl) (.inr rfl)
    · simp at h
  · rename_i now
    split at h
    · rename_i fd opened closed hacceptor
      split at h
      · rename_i hfull
        obtain rfl := Option.some.inj h
        exact .refuse fd opened closed hacceptor hfull
      · rename_i hroom
        exact steps_letThrough hmain htodo hacceptor (not_le.mp hroom) h
    · simp at h
  · simp at h

theorem step?_cases {label : ReactorsLabel} (h : s.step? opts label = some s') :
    Steps opts s label s' := by
  unfold step? at h
  split at h
  · rename_i i label
    split at h
    · rename_i l hi
      simp only [Option.ite_none_right_eq_some, Option.map_eq_some_iff] at h
      obtain ⟨⟨htodo, hidle⟩, l', hstep, rfl⟩ := h
      exact .thread i l l' label hi (List.isEmpty_iff.mp htodo) hidle hstep
    · simp at h
  · rename_i i
    split at h
    · rename_i l hi
      split at h
      · simp at h
      · rename_i a rest htodo
        obtain rfl := Option.some.inj h
        exact .perform i l a rest hi htodo
    · simp at h
  · split at h
    · rename_i main hmain
      simp only [Option.ite_none_right_eq_some] at h
      exact steps_acceptorStep? hmain (List.isEmpty_iff.mp h.1) h.2
    · simp at h

/-! ## The invariant -/

/-- All descriptors that somebody has to close. -/
def held (s : Reactors) : Multiset ℤ := s.acceptor.hand + total LoopThread.owned s.loops

/-- How many connections have been let through and are not closed. -/
def load (s : Reactors) : ℕ := total LoopThread.load s.loops

structure Inv (opts : Options) (s : Reactors) : Prop where
  healthy : ∀ l ∈ s.loops, l.Healthy opts.idleTimeoutS
  nodup : s.held.Nodup
  inUse : ∀ fd ∈ s.held, fd ∈ s.inUse ∧ 0 ≤ fd
  opened : total (fun l => l.reactor.sessions.length) s.loops =
    s.opened + total LoopThread.uncountedOpened s.loops
  closed : total (fun l => l.reactor.closedCount) s.loops =
    s.closed + total LoopThread.uncountedClosed s.loops
  accepting : s.acceptor ≠ .idle →
    ∃ main rest, s.loops[0]? = some main ∧ main.phase = .dispatching (.acceptor :: rest)

/-- At the start no loop has anything. -/
theorem total_start {M : Type*} [AddCommMonoid M] (f : LoopThread → M) (opts : Options)
    (inUse : Finset ℤ) (now : TimePoint)
    (hzero : ∀ listens, f { listens := listens, clock := now } = 0) :
    total f (start opts inUse now).loops = 0 := by
  refine total_eq_zero fun l hl => ?_
  rcases List.mem_cons.mp hl with rfl | hl
  · exact hzero true
  · rw [List.eq_of_mem_replicate hl]
    exact hzero false

theorem inv_start (opts : Options) (inUse : Finset ℤ) (now : TimePoint) :
    Inv opts (start opts inUse now) := by
  have hheld : (start opts inUse now).held = 0 :=
    (zero_add _).trans (total_start _ opts inUse now fun _ => rfl)
  refine ⟨?_, ?_, ?_, ?_, ?_, fun hnot => absurd rfl hnot⟩
  · intro l hl
    rcases List.mem_cons.mp hl with rfl | hl
    · exact LoopThread.healthy_start true now
    · rw [List.eq_of_mem_replicate hl]
      exact LoopThread.healthy_start false now
  · rw [hheld]
    exact Multiset.nodup_zero
  · rw [hheld]
    simp
  · rw [total_start _ opts inUse now fun _ => rfl, total_start _ opts inUse now fun _ => rfl]
    rfl
  · rw [total_start _ opts inUse now fun _ => rfl, total_start _ opts inUse now fun _ => rfl]
    rfl

variable {i : ℕ} {l l' : LoopThread}

theorem healthy_set (h : ∀ l ∈ s.loops, l.Healthy opts.idleTimeoutS)
    (hl' : l'.Healthy opts.idleTimeoutS) :
    ∀ l ∈ s.loops.set i l', l.Healthy opts.idleTimeoutS := by
  intro l hl
  rcases List.mem_or_eq_of_mem_set hl with hl | rfl
  · exact h l hl
  · exact hl'

/-- A counter stays behind by what the loops have not counted. -/
theorem total_lag_set (hi : s.loops[i]? = some l) (f g : LoopThread → ℕ) {n n' : ℕ}
    (h : total f s.loops = n + total g s.loops) (hstep : f l' + n + g l = f l + n' + g l') :
    total f (s.loops.set i l') = n' + total g (s.loops.set i l') := by
  have hf := total_set hi f l'
  have hg := total_set hi g l'
  omega

theorem owned_le_held (hi : s.loops[i]? = some l) : ∃ others, s.held = l.owned + others := by
  obtain ⟨others, hsplit⟩ := exists_total_eq (List.mem_of_getElem? hi) LoopThread.owned
  refine ⟨s.acceptor.hand + others, ?_⟩
  rw [held, hsplit]
  abel

/-- A queued task has a descriptor that no connection of its loop has. -/
theorem Inv.free (h : Inv opts s) (hi : s.loops[i]? = some l) (htodo : l.todo = []) {fd : ℤ}
    {rest : List ℤ} (hphase : l.phase = .executing (fd :: rest)) :
    0 ≤ fd ∧ l.reactor.connections.find? fd = none := by
  obtain ⟨others, hsplit⟩ := owned_le_held hi
  have howned : l.owned.Nodup := by
    have hnodup := h.nodup
    rw [hsplit] at hnodup
    exact (Multiset.nodup_add.mp hnodup).1
  have hmem : fd ∈ (l.pending : Multiset ℤ) + l.phase.tasks := by
    rw [hphase]
    exact Multiset.mem_add.mpr (.inr List.mem_cons_self)
  have htabled := (h.healthy l (List.mem_of_getElem? hi)).tabled
  rw [LoopThread.settled_of_todo_nil htodo] at htabled
  refine ⟨(h.inUse fd ?_).2, Reactor.find?_eq_none htabled fun hopen => ?_⟩
  · rw [hsplit]
    exact Multiset.mem_add.mpr (.inl (Multiset.mem_add.mpr (.inl hmem)))
  · have hdisjoint := (Multiset.nodup_add.mp howned).2.2
    exact Multiset.disjoint_left.mp hdisjoint hmem (Multiset.mem_add.mpr (.inl hopen))

theorem inv_thread (h : Inv opts s) (hi : s.loops[i]? = some l) (htodo : l.todo = [])
    (hidle : i = 0 → s.acceptor = .idle) {label : ThreadLabel}
    (hstep : l.step? opts.idleTimeoutS label = some l') :
    Inv opts { s with loops := s.loops.set i l' } := by
  have hhealthy := h.healthy l (List.mem_of_getElem? hi)
  have htabled := hhealthy.tabled
  rw [LoopThread.settled_of_todo_nil htodo] at htabled
  have hrun := LoopThread.step?_cases htabled hstep
  have hkeeps := LoopThread.keeps_runs htabled htodo hrun
  refine ⟨?_, ?_, ?_, ?_, ?_, ?_⟩
  · exact healthy_set h.healthy (LoopThread.healthy_runs hhealthy htodo
      (fun fd rest hphase => h.free hi htodo hphase) hrun)
  · show (s.acceptor.hand + total LoopThread.owned (s.loops.set i l')).Nodup
    rw [total_set_of_eq hi hkeeps.owned]
    exact h.nodup
  · show ∀ fd ∈ s.acceptor.hand + total LoopThread.owned (s.loops.set i l'), _
    rw [total_set_of_eq hi hkeeps.owned]
    exact h.inUse
  · refine total_lag_set hi _ _ h.opened ?_
    rw [add_right_comm, hkeeps.opened, add_right_comm]
  · refine total_lag_set hi _ _ h.closed ?_
    rw [add_right_comm, hkeeps.closed, add_right_comm]
  · intro haccepting
    obtain ⟨main, rest, hmain, hphase⟩ := h.accepting haccepting
    have hne : i ≠ 0 := fun hzero => haccepting (hidle hzero)
    exact ⟨main, rest, by rw [List.getElem?_set_ne hne]; exact hmain, hphase⟩

theorem share_fields (s : Reactors) (a : Action) :
    (s.share a).acceptor = s.acceptor ∧ (s.share a).loops = s.loops ∧
      (s.share a).opened = s.opened + a.openedCount ∧
      (s.share a).closed = s.closed + a.closedCount := by
  cases a with
  | _ => exact ⟨rfl, rfl, rfl, rfl⟩

/-- An action gives up the descriptor that it closes. -/
theorem held_perform (hi : s.loops[i]? = some l) {a : Action} {rest : List Action}
    (htodo : l.todo = a :: rest) :
    s.held = a.closedFd + held { s.share a with
      loops := s.loops.set i { l with reactor := l.reactor.perform a, todo := rest } } := by
  have howned : l.owned = a.closedFd +
      LoopThread.owned { l with reactor := l.reactor.perform a, todo := rest } := by
    rw [LoopThread.owned, htodo, total_cons, LoopThread.owned, Reactor.openFds, Reactor.openFds,
      Reactor.sessions_perform]
    abel
  have hset := total_set hi LoopThread.owned { l with reactor := l.reactor.perform a, todo := rest }
  rw [howned, ← add_assoc] at hset
  rw [held, held, (share_fields s a).1, ← add_right_cancel hset]
  abel

theorem inv_perform (h : Inv opts s) (hi : s.loops[i]? = some l) {a : Action}
    {rest : List Action} (htodo : l.todo = a :: rest) :
    Inv opts { s.share a with
      loops := s.loops.set i { l with reactor := l.reactor.perform a, todo := rest } } := by
  obtain ⟨hacceptor, hloops, hopened, hclosed⟩ := share_fields s a
  have hheld := held_perform hi htodo
  have hnodup := h.nodup
  rw [hheld] at hnodup
  refine ⟨?_, (Multiset.nodup_add.mp hnodup).2.1, ?_, ?_, ?_, ?_⟩
  · exact healthy_set h.healthy
      (LoopThread.healthy_perform (h.healthy l (List.mem_of_getElem? hi)) htodo)
  · intro fd hfd
    obtain ⟨huse, hpos⟩ := h.inUse fd (by rw [hheld]; exact Multiset.mem_add.mpr (.inr hfd))
    refine ⟨?_, hpos⟩
    have hother : fd ∉ a.closedFd := Multiset.disjoint_right.mp (Multiset.nodup_add.mp hnodup).2.2 hfd
    cases a with
    | closeFd fd' => exact Finset.mem_erase.mpr ⟨by simpa [Action.closedFd] using hother, huse⟩
    | _ => exact huse
  · refine total_lag_set hi _ _ h.opened ?_
    rw [hopened, Reactor.sessions_perform, LoopThread.uncountedOpened, htodo, total_cons]
    show _ = _ + _ + total Action.openedCount rest
    omega
  · refine total_lag_set hi _ _ h.closed ?_
    rw [hclosed, Reactor.closedCount, Reactor.sessions_perform, LoopThread.uncountedClosed, htodo,
      total_cons]
    show l.reactor.closedCount + _ + _ = _ + _ + total Action.closedCount rest
    omega
  · intro haccepting
    obtain ⟨main, rest', hmain, hphase⟩ := h.accepting (hacceptor ▸ haccepting)
    by_cases hzero : i = 0
    · subst hzero
      obtain rfl : l = main := Option.some.inj (hi.symm.trans hmain)
      refine ⟨_, rest', List.getElem?_set_self (List.getElem?_eq_some_iff.mp hi).1, hphase⟩
    · exact ⟨main, rest', by rw [List.getElem?_set_ne hzero]; exact hmain, hphase⟩

/-- Only the acceptor and the descriptors in use change. -/
theorem inv_acceptor (h : Inv opts s) {acceptor : Acceptor} {inUse : Finset ℤ}
    (hnodup : (acceptor.hand + total LoopThread.owned s.loops).Nodup)
    (hinUse : ∀ fd ∈ acceptor.hand + total LoopThread.owned s.loops, fd ∈ inUse ∧ 0 ≤ fd)
    (haccepting : ∃ main rest, s.loops[0]? = some main ∧
      main.phase = .dispatching (.acceptor :: rest)) :
    Inv opts { s with inUse := inUse, acceptor := acceptor } :=
  ⟨h.healthy, hnodup, hinUse, h.opened, h.closed, fun _ => haccepting⟩

theorem inv_accept (h : Inv opts s) {fd : ℤ} (hacceptor : s.acceptor = .accepting)
    (hfresh : fd ∉ s.inUse) (hpos : 0 ≤ fd) :
    Inv opts { s with inUse := insert fd s.inUse, acceptor := .checking fd none none } := by
  have hheld : s.held = total LoopThread.owned s.loops := by
    rw [held, hacceptor]
    exact zero_add _
  refine inv_acceptor h ?_ ?_ (h.accepting (by simp [hacceptor]))
  · rw [← hheld]
    show ({fd} + s.held).Nodup
    rw [Multiset.singleton_add, Multiset.nodup_cons]
    exact ⟨fun hmem => hfresh (h.inUse fd hmem).1, h.nodup⟩
  · rw [← hheld]
    intro fd' hmem
    rcases Multiset.mem_add.mp hmem with hmem | hmem
    · obtain rfl : fd' = fd := Multiset.mem_singleton.mp hmem
      exact ⟨Finset.mem_insert_self fd' _, hpos⟩
    · obtain ⟨huse, hpos'⟩ := h.inUse fd' hmem
      exact ⟨Finset.mem_insert_of_mem huse, hpos'⟩

theorem inv_acceptFailed (h : Inv opts s) {main : LoopThread} {e : Reported}
    {rest : List Reported} (hmain : s.loops[0]? = some main)
    (hphase : main.phase = .dispatching (e :: rest)) (hacceptor : s.acceptor = .accepting) :
    Inv opts { s with
      loops := s.loops.set 0 { main with phase := .dispatching rest }, acceptor := .idle } := by
  have hkeeps : LoopThread.Keeps main { main with phase := .dispatching rest } :=
    LoopThread.keeps_of_phase rfl rfl (by rw [hphase]; rfl)
  have hheld : s.held = total LoopThread.owned s.loops := by
    rw [held, hacceptor]
    exact zero_add _
  have hheld' : held { s with
      loops := s.loops.set 0 { main with phase := .dispatching rest }, acceptor := .idle } =
      s.held := by
    rw [hheld, ← total_set_of_eq hmain hkeeps.owned]
    exact zero_add _
  obtain ⟨htabled, htimed, hsound, hbatch, -⟩ := h.healthy main (List.mem_of_getElem? hmain)
  refine ⟨?_, hheld' ▸ h.nodup, hheld' ▸ h.inUse, ?_, ?_, fun hnot => absurd rfl hnot⟩
  · refine healthy_set h.healthy ⟨htabled, htimed, hsound, fun rest' hrest => ?_, nofun⟩
    obtain rfl : rest = rest' := Phase.dispatching.inj hrest
    exact (hbatch _ hphase).tail
  · exact total_lag_set hmain _ _ h.opened rfl
  · exact total_lag_set hmain _ _ h.closed rfl

theorem inv_load (h : Inv opts s) {fd : ℤ} {opened closed : Option ℕ}
    (hacceptor : s.acceptor = .checking fd opened closed) (opened' closed' : Option ℕ) :
    Inv opts { s with acceptor := .checking fd opened' closed' } := by
  have hheld : s.held = {fd} + total LoopThread.owned s.loops := by
    rw [held, hacceptor]
    rfl
  exact inv_acceptor h (hheld ▸ h.nodup) (hheld ▸ h.inUse) (h.accepting (by simp [hacceptor]))

theorem inv_refuse (h : Inv opts s) {fd : ℤ} {opened closed : Option ℕ}
    (hacceptor : s.acceptor = .checking fd opened closed) :
    Inv opts { s with inUse := s.inUse.erase fd, acceptor := .accepting } := by
  have hnodup := h.nodup
  have hinUse := h.inUse
  rw [held, hacceptor] at hnodup hinUse
  obtain ⟨-, hothers, hdisjoint⟩ := Multiset.nodup_add.mp hnodup
  refine inv_acceptor h ?_ ?_ (h.accepting (by simp [hacceptor]))
  · show (0 + total LoopThread.owned s.loops).Nodup
    rw [zero_add]
    exact hothers
  · intro fd' hmem
    rw [show Acceptor.accepting.hand = 0 from rfl, zero_add] at hmem
    obtain ⟨huse, hpos⟩ := hinUse fd' (Multiset.mem_add.mpr (.inr hmem))
    have hother : fd' ∉ ({fd} : Multiset ℤ) := Multiset.disjoint_right.mp hdisjoint hmem
    exact ⟨Finset.mem_erase.mpr ⟨by simpa using hother, huse⟩, hpos⟩

/-- `onAccept` passes its descriptor to a loop. -/
theorem held_pass (hi : s.loops[i]? = some l) {fd : ℤ} {opened closed : Option ℕ}
    (hacceptor : s.acceptor = .checking fd opened closed) (howned : l'.owned = l.owned + {fd})
    (hloops : s'.loops = s.loops.set i l') (hacceptor' : s'.acceptor = .accepting) :
    s'.held = s.held := by
  have hset := total_set hi LoopThread.owned l'
  rw [howned, add_comm l.owned, ← add_assoc] at hset
  rw [held, held, hacceptor, hacceptor', hloops, add_right_cancel hset]
  simp only [Acceptor.hand]
  abel

theorem Inv.hand_free (h : Inv opts s) (hi : s.loops[i]? = some l) (htodo : l.todo = []) {fd : ℤ}
    {opened closed : Option ℕ} (hacceptor : s.acceptor = .checking fd opened closed) :
    0 ≤ fd ∧ l.reactor.connections.find? fd = none := by
  have hnodup := h.nodup
  have hinUse := h.inUse
  rw [held, hacceptor] at hnodup hinUse
  have hhand : fd ∈ (Acceptor.checking fd opened closed).hand := Multiset.mem_singleton_self fd
  have htabled := (h.healthy l (List.mem_of_getElem? hi)).tabled
  rw [LoopThread.settled_of_todo_nil htodo] at htabled
  refine ⟨(hinUse fd (Multiset.mem_add.mpr (.inl hhand))).2,
    Reactor.find?_eq_none htabled fun hopen => ?_⟩
  have howned : fd ∈ l.owned :=
    Multiset.mem_add.mpr (.inr (Multiset.mem_add.mpr (.inl hopen)))
  have hall : fd ∈ total LoopThread.owned s.loops :=
    mem_total.mpr ⟨l, List.mem_of_getElem? hi, howned⟩
  exact Multiset.disjoint_left.mp (Multiset.nodup_add.mp hnodup).2.2 hhand hall

theorem inv_attach (h : Inv opts s) {main : LoopThread} (hmain : s.loops[0]? = some main)
    (htodo : main.todo = []) {fd : ℤ} {opened closed : Option ℕ}
    (hacceptor : s.acceptor = .checking fd opened closed) {now : TimePoint}
    (hle : main.clock ≤ now) :
    Inv opts { s with
      loops := s.loops.set 0 (main.handler main.phase now
        (main.reactor.attachConnection opts.idleTimeoutS fd now))
      acceptor := .accepting } := by
  obtain ⟨howned, hopened, hclosed, -⟩ :=
    LoopThread.account_attach opts.idleTimeoutS htodo main.phase fd now
  have howned' : (main.handler main.phase now
      (main.reactor.attachConnection opts.idleTimeoutS fd now)).owned = main.owned + {fd} := by
    rw [howned, LoopThread.owned, htodo, total_nil]
    abel
  obtain ⟨hpos, hfree⟩ := h.hand_free hmain htodo hacceptor
  obtain ⟨main', rest, hmain', hphase⟩ := h.accepting (by simp [hacceptor])
  obtain rfl : main = main' := Option.some.inj (hmain.symm.trans hmain')
  refine ⟨?_, ?_, ?_, ?_, ?_, fun _ => ?_⟩
  · refine healthy_set h.healthy (LoopThread.healthy_attach
      (h.healthy main (List.mem_of_getElem? hmain)) htodo hpos hfree hle ?_ fun _ => id)
    rw [hphase]
    nofun
  · rw [held_pass hmain hacceptor howned' rfl rfl]
    exact h.nodup
  · rw [held_pass hmain hacceptor howned' rfl rfl]
    exact h.inUse
  · refine total_lag_set hmain _ _ h.opened ?_
    rw [add_right_comm, hopened, add_right_comm]
  · refine total_lag_set hmain _ _ h.closed ?_
    rw [add_right_comm, hclosed, add_right_comm]
  · exact ⟨_, rest, List.getElem?_set_self (List.getElem?_eq_some_iff.mp hmain).1, hphase⟩

theorem inv_handOver (h : Inv opts s) {fd : ℤ} {opened closed : Option ℕ} {sub : LoopThread}
    (hacceptor : s.acceptor = .checking fd opened closed)
    (hsub : s.loops[s.pickSubLoop]? = some sub) (nextSub : ℕ) :
    Inv opts { s with
      loops := s.loops.set s.pickSubLoop { sub with pending := sub.pending ++ [fd] }
      nextSub := nextSub
      acceptor := .accepting } := by
  have howned : LoopThread.owned { sub with pending := sub.pending ++ [fd] } = sub.owned + {fd} := by
    rw [LoopThread.owned, LoopThread.owned, ← Multiset.coe_add, Multiset.coe_singleton]
    dsimp only
    abel
  obtain ⟨main, rest, hmain, hphase⟩ := h.accepting (by simp [hacceptor])
  have hne : s.pickSubLoop ≠ 0 := by
    rw [pickSubLoop]
    omega
  obtain ⟨htabled, htimed, hsound, hbatch, hcalled⟩ := h.healthy sub (List.mem_of_getElem? hsub)
  refine ⟨?_, ?_, ?_, ?_, ?_, fun _ => ?_⟩
  · exact healthy_set h.healthy ⟨htabled, htimed, hsound, hbatch, hcalled⟩
  · rw [held_pass hsub hacceptor howned rfl rfl]
    exact h.nodup
  · rw [held_pass hsub hacceptor howned rfl rfl]
    exact h.inUse
  · exact total_lag_set hsub _ _ h.opened rfl
  · exact total_lag_set hsub _ _ h.closed rfl
  · exact ⟨main, rest, by rw [List.getElem?_set_ne hne]; exact hmain, hphase⟩

/-- **One step.** -/
theorem inv_steps (h : Inv opts s) {label : ReactorsLabel} (hstep : Steps opts s label s') :
    Inv opts s' := by
  cases hstep with
  | thread i l l' action hi htodo hidle hstep => exact inv_thread h hi htodo hidle hstep
  | perform i l a rest hi htodo => exact inv_perform h hi htodo
  | onAccept main rest hmain hphase hidle =>
      have hheld : s.held = Acceptor.accepting.hand + total LoopThread.owned s.loops := by
        rw [held, hidle]
        rfl
      exact inv_acceptor h (hheld ▸ h.nodup) (hheld ▸ h.inUse) ⟨main, rest, hmain, hphase⟩
  | accept main fd hmain htodo hacceptor hfresh hpos => exact inv_accept h hacceptor hfresh hpos
  | acceptFailed main e rest hmain hphase hacceptor => exact inv_acceptFailed h hmain hphase hacceptor
  | load main fd opened closed opened' closed' hmain htodo hacceptor hopened hclosed =>
      exact inv_load h hacceptor opened' closed'
  | refuse fd opened closed hacceptor hfull => exact inv_refuse h hacceptor
  | attach main fd opened closed now hlabel hmain htodo hacceptor hroom hone hle =>
      exact inv_attach h hmain htodo hacceptor hle
  | handOver fd opened closed now sub hlabel hacceptor hroom hmany hsub =>
      exact inv_handOver h hacceptor hsub _

/-- **All runs.** -/
theorem inv_run (opts : Options) (inUse : Finset ℤ) (now : TimePoint)
    (labels : List ReactorsLabel) :
    Inv opts (Transition.run (step opts) (start opts inUse now) labels) := by
  refine Transition.run_invariant (fun s label h => ?_) (inv_start opts inUse now) labels
  exact Transition.attempt_invariant (fun _ _ _ h hstep => inv_steps h (step?_cases hstep)) s label h

end Reactors

end WsServer
