import WsServer.Reactor.IdleTimers

/-!
# The thread of a loop

What one loop keeps up by itself, whatever the other threads do (`Healthy`): its tables and timers
are in order once the running handler has performed its actions, and for each event of the batch
that is still to come, the connection that was registered when `epoll_wait` returned is the one in
the table.  A connection of the batch can only be closed by its own event, since the timers expire
behind the batch.
-/

namespace WsServer.LoopThread

open Reactor

variable {idleTimeoutS : ℤ} {l l' : LoopThread}

/-- The data of the loop when all actions have been performed. -/
def settled (l : LoopThread) : Reactor := l.reactor.settle l.todo

theorem settled_of_todo_nil (htodo : l.todo = []) : l.settled = l.reactor := by
  rw [settled, htodo, settle_nil]

/-! ## Steps -/

/-- What the thread of a loop does between two handlers, and a handler up to its actions. -/
inductive Runs (idleTimeoutS : ℤ) (l : LoopThread) : LoopThread → Prop
  | ready (batch : List Reported) (hphase : l.phase = .polling) (hreports : l.reports batch) :
      Runs idleTimeoutS l { l with phase := .dispatching batch }
  | wakeup (rest : List Reported) (hphase : l.phase = .dispatching (.wakeup :: rest)) :
      Runs idleTimeoutS l { l with phase := .dispatching rest }
  | dispatch (fd : ℤ) (c : ConnId) (hangup readable writable : Bool) (rest : List Reported)
      (now : TimePoint) (r' : Reactor) (todo : List Action)
      (hphase : l.phase = .dispatching (.connection fd c hangup readable writable :: rest))
      (hle : l.clock ≤ now) (hrun : Handles l.reactor fd now r' todo) :
      Runs idleTimeoutS l (l.handler (.dispatching rest) now (r', todo))
  | expire (now : TimePoint) (hphase : l.phase = .dispatching []) (hle : l.clock ≤ now) :
      Runs idleTimeoutS l { l with phase := .expiring now, clock := now }
  /-- A cancelled entry is popped. -/
  | drop (t : TimePoint) (k : ℕ) (now : TimePoint) (e : TimerHeap.Entry ConnId)
      (timers : TimerHeap ConnId) (hphase : l.phase = .expiring t) (hle : l.clock ≤ now)
      (hpop : l.reactor.timers.pop? t k = some (e, timers))
      (hcancelled : l.reactor.timers.isLive e = false) :
      Runs idleTimeoutS l (l.handler (.expiring t) now
        ({ l.reactor with timers := timers.forget e.id }, []))
  | fire (t : TimePoint) (k : ℕ) (now : TimePoint) (e : TimerHeap.Entry ConnId)
      (timers : TimerHeap ConnId) (r' : Reactor) (todo : List Action)
      (hphase : l.phase = .expiring t) (hle : l.clock ≤ now)
      (hpop : l.reactor.timers.pop? t k = some (e, timers))
      (hlive : l.reactor.timers.isLive e = true)
      (hrun : Fires { l.reactor with timers := timers } e.cb now r' todo) :
      Runs idleTimeoutS l (l.handler (.expiring t) now (r', todo))
  | expired (t : TimePoint) (hphase : l.phase = .expiring t)
      (hdue : l.reactor.timers.isDue t = false) :
      Runs idleTimeoutS l { l with phase := .calling t }
  | swap (t : TimePoint) (hphase : l.phase = .calling t) :
      Runs idleTimeoutS l { l with phase := .executing l.pending, pending := [] }
  | execute (fd : ℤ) (rest : List ℤ) (now : TimePoint) (hphase : l.phase = .executing (fd :: rest))
      (hle : l.clock ≤ now) :
      Runs idleTimeoutS l (l.handler (.executing rest) now
        (l.reactor.attachConnection idleTimeoutS fd now))
  | poll (hphase : l.phase = .executing []) : Runs idleTimeoutS l { l with phase := .polling }

theorem step?_cases (htabled : Tabled idleTimeoutS l.reactor) {label : ThreadLabel}
    (h : l.step? idleTimeoutS label = some l') : Runs idleTimeoutS l l' := by
  unfold step? at h
  split at h
  · rename_i batch hphase
    simp only [Option.ite_none_right_eq_some, Option.some.injEq] at h
    obtain ⟨hreports, rfl⟩ := h
    exact .ready batch hphase hreports
  · rename_i rest hphase
    obtain rfl := Option.some.inj h
    exact .wakeup rest hphase
  · rename_i fd c hangup readable writable rest env call hphase
    simp only [Option.ite_none_right_eq_some, Option.some.injEq] at h
    obtain ⟨hle, rfl⟩ := h
    exact .dispatch fd c hangup readable writable rest _ _ _ hphase hle
      (handles_dispatch l.reactor env fd hangup readable writable call l.clock)
  · rename_i now hphase
    simp only [Option.ite_none_right_eq_some, Option.some.injEq] at h
    obtain ⟨hle, rfl⟩ := h
    exact .expire now hphase hle
  · rename_i t k now hphase
    simp only [Option.ite_none_right_eq_some, Option.map_eq_some_iff] at h
    obtain ⟨hle, result, hone, rfl⟩ := h
    obtain ⟨e, timers, hpop, ⟨hcancelled, rfl⟩ | ⟨hlive, hrun⟩⟩ := expireOne_cases htabled hone
    · exact .drop t k now e timers hphase hle hpop hcancelled
    · exact .fire t k now e timers _ _ hphase hle hpop hlive hrun
  · rename_i t hphase
    split at h
    · simp at h
    · rename_i hdue
      obtain rfl := Option.some.inj h
      exact .expired t hphase (by simpa using hdue)
  · rename_i t hphase
    obtain rfl := Option.some.inj h
    exact .swap t hphase
  · rename_i fd rest now hphase
    simp only [Option.ite_none_right_eq_some, Option.some.injEq] at h
    obtain ⟨hle, rfl⟩ := h
    exact .execute fd rest now hphase hle
  · rename_i hphase
    obtain rfl := Option.some.inj h
    exact .poll hphase
  · simp at h

/-! ## The invariant -/

/-- The connections reported by a batch are the ones in the table. -/
structure Awaits (batch : List Reported) (connections : SortedMap ℤ ConnId) : Prop where
  nodup : (batch.filterMap Reported.fd?).Nodup
  find : ∀ fd c hangup readable writable,
    .connection fd c hangup readable writable ∈ batch → connections.find? fd = some c

structure Healthy (idleTimeoutS : ℤ) (l : LoopThread) : Prop where
  tabled : Tabled idleTimeoutS l.settled
  timed : 0 < idleTimeoutS → Timed idleTimeoutS l.clock l.settled
  sound : Sound l.reactor l.todo
  batch : ∀ rest, l.phase = .dispatching rest → Awaits rest l.settled.connections
  called : ∀ t, l.phase = .calling t → l.todo = [] ∧ l.reactor.timers.isDue t = false

theorem healthy_start (listens : Bool) (now : TimePoint) :
    Healthy idleTimeoutS { listens := listens, clock := now } :=
  ⟨tabled_empty, fun _ => timed_empty, trivial, nofun, nofun⟩

variable {batch rest : List Reported} {connections : SortedMap ℤ ConnId}

theorem Awaits.tail {e : Reported} (h : Awaits (e :: rest) connections) :
    Awaits rest connections := by
  refine ⟨?_, fun fd c hangup readable writable hmem => ?_⟩
  · exact h.nodup.sublist ((List.sublist_cons_self e rest).filterMap _)
  · exact h.find fd c hangup readable writable (List.mem_cons_of_mem e hmem)

/-- The descriptor of an event that has been handled is not among those to come. -/
theorem Awaits.erase {fd : ℤ} {c : ConnId} {hangup readable writable : Bool}
    (h : Awaits (.connection fd c hangup readable writable :: rest) connections) :
    Awaits rest (connections.erase fd) := by
  refine ⟨h.tail.nodup, fun fd' c' hangup' readable' writable' hmem => ?_⟩
  have hnot : fd ∉ rest.filterMap Reported.fd? := (List.nodup_cons.mp h.nodup).1
  have hne : fd' ≠ fd := by
    rintro rfl
    exact hnot (List.mem_filterMap.mpr ⟨_, hmem, rfl⟩)
  rw [SortedMap.find?_erase, if_neg hne]
  exact h.tail.find fd' c' hangup' readable' writable' hmem

/-- A new connection does not have a descriptor of the batch. -/
theorem Awaits.insert {fd : ℤ} (h : Awaits batch connections)
    (hfree : connections.find? fd = none) (c : ConnId) : Awaits batch (connections.insert fd c) := by
  refine ⟨h.nodup, fun fd' c' hangup readable writable hmem => ?_⟩
  have hfind := h.find fd' c' hangup readable writable hmem
  have hne : fd' ≠ fd := by
    rintro rfl
    rw [hfree] at hfind
    simp at hfind
  rw [SortedMap.find?_insert, if_neg hne]
  exact hfind

theorem healthy_perform (h : Healthy idleTimeoutS l) {a : Action} {rest : List Action}
    (htodo : l.todo = a :: rest) :
    Healthy idleTimeoutS { l with reactor := l.reactor.perform a, todo := rest } := by
  obtain ⟨htabled, htimed, hsound, hbatch, hcalled⟩ := h
  unfold settled at htabled htimed hbatch
  rw [htodo] at htabled htimed hsound hbatch
  refine ⟨htabled, htimed, hsound.2, hbatch, fun t hphase => ?_⟩
  have hnil := (hcalled t hphase).1
  rw [htodo] at hnil
  simp at hnil

/-- A handler has run: what is to be shown of it. -/
theorem healthy_handler {phase : Phase} {now : TimePoint} {r' : Reactor} {todo : List Action}
    (htabled : Tabled idleTimeoutS (r'.settle todo))
    (htimed : 0 < idleTimeoutS → Timed idleTimeoutS now (r'.settle todo))
    (hsound : Sound r' todo)
    (hbatch : ∀ rest, phase = .dispatching rest → Awaits rest (r'.settle todo).connections)
    (hphase : ∀ t, phase ≠ .calling t) :
    Healthy idleTimeoutS (l.handler phase now (r', todo)) :=
  ⟨htabled, htimed, hsound, hbatch, fun t hcalling => absurd hcalling (hphase t)⟩

theorem connections_handles {r r' : Reactor} {fd : ℤ} {now : TimePoint} {todo : List Action}
    (htabled : Tabled idleTimeoutS r) (hrun : Handles r fd now r' todo) :
    (r'.settle todo).connections = r.connections ∨
      (r'.settle todo).connections = r.connections.erase fd := by
  cases hrun with
  | nothing => exact .inl rfl
  | stays c s s' hs houtcome hsame => exact .inl rfl
  | closes c s s' hfind hs houtcome hended =>
      obtain ⟨s₁, hopen, rfl⟩ := (htabled.find fd c).mp hfind
      obtain rfl : s = s₁ := Option.some.inj (hs.symm.trans hopen.1)
      have hfd := ((htabled.whole s (List.mem_of_getElem? hs)).opened hopen.2).1
      rw [settle_closing _ c hfd]
      exact .inr rfl

theorem connections_attachConnection {r : Reactor} {fd : ℤ} (idleTimeoutS : ℤ)
    (hfree : r.registered.find? fd = none) (now : TimePoint) :
    ((r.attachConnection idleTimeoutS fd now).1.settle
      (r.attachConnection idleTimeoutS fd now).2).connections =
        r.connections.insert fd r.sessions.length := by
  rw [attachConnection_eq]
  dsimp only
  rw [settle_attaching]
  exact hfree

theorem healthy_attach (h : Healthy idleTimeoutS l) (htodo : l.todo = []) {fd : ℤ} (hfd : 0 ≤ fd)
    (hfree : l.reactor.connections.find? fd = none) {now : TimePoint} (hle : l.clock ≤ now)
    {phase : Phase} (hphase : ∀ t, phase ≠ .calling t)
    (hbatch : ∀ rest, phase = .dispatching rest → l.phase = .dispatching rest) :
    Healthy idleTimeoutS
      (l.handler phase now (l.reactor.attachConnection idleTimeoutS fd now)) := by
  have hsettled := settled_of_todo_nil htodo
  have htabled := hsettled ▸ h.tabled
  have hunregistered : l.reactor.registered.find? fd = none := by rw [htabled.registered, hfree]
  refine healthy_handler (tabled_attachConnection htabled hfd hfree now) (fun hpos => ?_)
    (sound_attachConnection hfree now) (fun rest hrest => ?_) hphase
  · exact timed_attachConnection hpos htabled ((hsettled ▸ h.timed hpos).mono hle) hfree
  · have hawaits := h.batch rest (hbatch rest hrest)
    rw [hsettled] at hawaits
    have hinsert := connections_attachConnection idleTimeoutS hunregistered now
    exact hinsert ▸ hawaits.insert hfree _

theorem healthy_runs (h : Healthy idleTimeoutS l) (htodo : l.todo = [])
    (hfree : ∀ fd rest, l.phase = .executing (fd :: rest) →
      0 ≤ fd ∧ l.reactor.connections.find? fd = none)
    (hrun : Runs idleTimeoutS l l') : Healthy idleTimeoutS l' := by
  have hsettled := settled_of_todo_nil htodo
  have htabled : Tabled idleTimeoutS l.reactor := hsettled ▸ h.tabled
  have htimed (hpos : 0 < idleTimeoutS) : Timed idleTimeoutS l.clock l.reactor :=
    hsettled ▸ h.timed hpos
  cases hrun with
  | ready batch hphase hreports =>
      refine ⟨h.tabled, h.timed, h.sound, fun rest hrest => ?_, by simp⟩
      obtain rfl : batch = rest := Phase.dispatching.inj hrest
      refine ⟨hreports.1, fun fd c hangup readable writable hmem => ?_⟩
      show l.settled.connections.find? fd = some c
      rw [hsettled, ← htabled.registered]
      exact hreports.2 _ hmem
  | wakeup rest hphase =>
      refine ⟨h.tabled, h.timed, h.sound, fun rest' hrest => ?_, by simp⟩
      obtain rfl : rest = rest' := Phase.dispatching.inj hrest
      exact (h.batch _ hphase).tail
  | dispatch fd c hangup readable writable rest now r' todo hphase hle hrun =>
      refine healthy_handler (tabled_handles htabled hrun)
        (fun hpos => timed_handles htabled ((htimed hpos).mono hle) hrun)
        (sound_handles htabled hrun) (fun rest' hrest => ?_) (by simp)
      obtain rfl : rest = rest' := Phase.dispatching.inj hrest
      have hawaits := h.batch _ hphase
      rw [hsettled] at hawaits
      rcases connections_handles htabled hrun with hsame | herased
      · rw [hsame]
        exact hawaits.tail
      · rw [herased]
        exact hawaits.erase
  | expire now hphase hle =>
      exact ⟨h.tabled, fun hpos => (h.timed hpos).mono hle, h.sound, by simp, by simp⟩
  | drop t k now e timers hphase hle hpop hcancelled =>
      refine healthy_handler (htabled.congr rfl rfl rfl) (fun hpos => ?_) trivial (by simp) (by simp)
      obtain ⟨-, -, -, rfl⟩ := TimerHeap.pop?_spec (htimed hpos).numbered hpop
      exact timed_forget ((htimed hpos).mono hle) (by simpa [TimerHeap.isLive] using hcancelled)
  | fire t k now e timers r' todo hphase hle hpop hlive hrun =>
      have htabled' : Tabled idleTimeoutS { l.reactor with timers := timers } :=
        htabled.congr rfl rfl rfl
      refine healthy_handler (tabled_fires htabled' hrun) (fun hpos => ?_)
        (sound_fires htabled' hrun) (by simp) (by simp)
      obtain ⟨hmem, -, -, rfl⟩ := TimerHeap.pop?_spec (htimed hpos).numbered hpop
      exact timed_fires hpos htabled ((htimed hpos).mono hle)
        (List.mem_filter.mpr ⟨hmem, hlive⟩) hrun
  | expired t hphase hdue =>
      refine ⟨h.tabled, h.timed, h.sound, by simp, fun t' hcalling => ⟨htodo, ?_⟩⟩
      obtain rfl : t = t' := Phase.calling.inj hcalling
      exact hdue
  | swap t hphase => exact ⟨h.tabled, h.timed, h.sound, by simp, by simp⟩
  | execute fd rest now hphase hle =>
      obtain ⟨hfd, hnone⟩ := hfree fd rest hphase
      exact healthy_attach h htodo hfd hnone hle (by simp) (by simp)
  | poll hphase => exact ⟨h.tabled, h.timed, h.sound, by simp, by simp⟩

end WsServer.LoopThread
