import WsServer.Connection.Counters
import WsServer.Model.Statistics
import WsServer.Reactors.Accounting
import WsServer.Reactors.Projection

/-!
# What the counters tell

The shared counters lose nothing and count nothing twice: in every state each of them, together with
what the running handlers have still to add, is what has been counted for the connections
(`Balanced`).  This needs that no handler takes back what was counted before (`CountsUp`).

What has been counted for a connection is what it has done, since it runs as if it were alone.  So
no reading is ahead of what the handlers do that have begun, and between handlers all readings are
exact.  While handlers run, two counters need not agree with each other: a request is counted before
it is answered, and a timeout before the connection is closed.
-/

namespace WsServer

open CString Ledger

/-! ## No counter goes down -/

namespace Session

/-- Nothing that was counted is taken back. -/
def CountsUp (s s' : Session) : Prop := ∀ c : SharedCounter, c.of s ≤ c.of s'

variable {s s' s'' : Session}

theorem CountsUp.refl (s : Session) : CountsUp s s := fun _ => le_rfl

theorem CountsUp.trans (h : CountsUp s s') (h' : CountsUp s' s'') : CountsUp s s'' :=
  fun c => (h c).trans (h' c)

theorem countsUp_close (s : Session) : CountsUp s s.close := by
  unfold close
  split
  · exact .refl s
  · intro c
    cases c with
    | _ => exact le_rfl

theorem countsUp_handleError (s : Session) : CountsUp s s.handleError := by
  have hcount : CountsUp s s.countError := by
    intro c
    cases c with
    | errors => exact Nat.le_succ _
    | _ => exact le_rfl
  exact hcount.trans (countsUp_close _)

theorem countsUp_armIdleTimer (s : Session) (fresh : TimerId) :
    CountsUp s (s.armIdleTimer fresh) := by
  unfold armIdleTimer
  split
  · exact .refl s
  · intro c
    cases c with
    | _ => exact le_rfl

theorem countsUp_onIdleTimer (s : Session) (now : TimePoint) (fresh : TimerId) :
    CountsUp s (s.onIdleTimer now fresh) := by
  unfold onIdleTimer
  split
  · refine CountsUp.trans (fun c => ?_) (countsUp_close _)
    cases c with
    | timeoutsClosed => exact Nat.le_succ _
    | _ => exact le_rfl
  · exact countsUp_armIdleTimer s fresh

theorem countsUp_enableWriting (s : Session) (on : Bool) : CountsUp s (s.enableWriting on) := by
  unfold enableWriting
  split
  · exact .refl s
  · intro c
    cases c with
    | _ => exact le_rfl

theorem countsUp_afterWrite (s : Session) : CountsUp s s.afterWrite := by
  have hoff : CountsUp s (if s.conn.writing then s.enableWriting false else s) := by
    split
    · exact countsUp_enableWriting s false
    · exact .refl s
  unfold afterWrite
  split
  · unfold outputSent
    split
    · exact hoff.trans (countsUp_close _)
    · exact hoff
  · split
    · exact countsUp_enableWriting s true
    · exact .refl s

theorem countsUp_noteWrite (s : Session) (result : WriteResult) :
    CountsUp s (s.noteWrite result) := by
  intro c
  cases c with
  | bytesWritten => exact Nat.le_add_right _ _
  | _ => exact le_rfl

theorem countsUp_handleWrite (env : Env) (s : Session) : CountsUp s (s.handleWrite env) := by
  apply handleWrite_elim env
  · exact .refl s
  · exact countsUp_afterWrite s
  · exact fun result => (countsUp_noteWrite s result).trans (countsUp_afterWrite _)
  · exact countsUp_noteWrite s .eintr
  · exact (countsUp_noteWrite s .failed).trans (countsUp_handleError _)

theorem countsUp_send (env : Env) (s : Session) (data : Bytes) : CountsUp s (s.send env data) := by
  unfold send
  split
  · exact .refl s
  · refine CountsUp.trans (fun c => ?_) (countsUp_handleWrite env _)
    cases c with
    | _ => exact le_rfl

theorem countsUp_answerRequest (env : Env) (s : Session) : CountsUp s (s.answerRequest env) := by
  have hcall : CountsUp s (s.afterCall env (s.callHandler env).1) := by
    unfold afterCall
    split
    all_goals
      intro c
      cases c with
      | requests => exact Nat.le_succ _
      | _ => exact le_rfl
  have hfinish (s : Session) : CountsUp s s.finishRequest := by
    intro c
    cases c with
    | responses => exact Nat.le_succ _
    | _ => exact le_rfl
  exact (hcall.trans (countsUp_send env _ _)).trans (hfinish _)

theorem countsUp_rejectRequest (env : Env) (s : Session) : CountsUp s (s.rejectRequest env) := by
  have hmark : CountsUp s s.countError.markClosing := by
    intro c
    cases c with
    | errors => exact Nat.le_succ _
    | _ => exact le_rfl
  exact hmark.trans (countsUp_send env _ _)

theorem countsUp_handleRequest (env : Env) (s : Session) : CountsUp s (s.handleRequest env) := by
  apply handleRequest_invariant (P := CountsUp s) env
  · intro s' h c
    refine (h c).trans ?_
    cases c with
    | _ => exact le_rfl
  · exact fun s' h => h.trans (countsUp_answerRequest env s')
  · exact fun s' h => h.trans (countsUp_rejectRequest env s')
  · exact .refl s

theorem countsUp_readSteps (s : Session) (steps : List ReadStep) :
    CountsUp s (steps.foldl readStep s) := by
  rintro c
  have hcounters := readSteps_counters s steps
  cases c with
  | accepted => exact le_rfl
  | bytesRead =>
      show _ ≤ (steps.foldl readStep s).counters.bytesRead
      rw [hcounters]
      exact Nat.le_add_right _ _
  | requests => exact (congrArg ServerCounters.requests hcounters).ge
  | responses => exact (congrArg ServerCounters.responses hcounters).ge
  | errors => exact (congrArg ServerCounters.errors hcounters).ge
  | timeoutsClosed => exact (congrArg ServerCounters.timeoutsClosed hcounters).ge
  | bytesWritten => exact (congrArg ServerCounters.bytesWritten hcounters).ge

theorem countsUp_handleRead (env : Env) (s : Session) (call : ReadCall) :
    CountsUp s (s.handleRead env call) := by
  unfold handleRead
  refine (countsUp_readSteps s call.steps).trans ?_
  cases call.last with
  | eagain now =>
      refine CountsUp.trans (fun c => ?_) (countsUp_handleRequest env _)
      cases c with
      | _ => exact le_rfl
  | eof => exact countsUp_close _
  | failed => exact countsUp_handleError _

theorem countsUp_dispatch (env : Env) (s : Session) (hangup : Bool) (read : Option ReadCall)
    (write : Bool) : CountsUp s (s.dispatch env hangup read write) := by
  unfold dispatch
  split
  · exact countsUp_handleError s
  · have hthen {s' : Session} (h : CountsUp s s') (writes : Bool) :
        CountsUp s (if writes then s'.handleWrite env else s') := by
      split
      · exact h.trans (countsUp_handleWrite env s')
      · exact h
    cases read with
    | none => exact hthen (.refl s) _
    | some call => exact hthen (countsUp_handleRead env s call) _

end Session

namespace Reactor

open Session

/-- Nothing that was counted for the connections of the loop is taken back. -/
def CountsUp (r r' : Reactor) : Prop :=
  ∀ c : SharedCounter, total c.of r.sessions ≤ total c.of r'.sessions

variable {r : Reactor}

theorem countsUp_handled {c : ConnId} {s s' : Session} (hs : r.sessions[c]? = some s)
    (h : Session.CountsUp s s') (now : TimePoint) : CountsUp r (r.handled c now s s').1 := by
  intro counter
  have hset := total_set hs counter.of s'
  have hup := h counter
  show _ ≤ total counter.of (r.sessions.set c s')
  omega

theorem countsUp_dispatch (r : Reactor) (env : Env) (fd : ℤ) (hangup readable writable : Bool)
    (call : ReadCall) (now : TimePoint) :
    CountsUp r (r.dispatch env fd hangup readable writable call now).1 := by
  unfold dispatch
  split
  · exact fun _ => le_rfl
  · split
    · exact fun _ => le_rfl
    · rename_i s hs
      exact countsUp_handled hs (Session.countsUp_dispatch env s hangup _ writable) now

theorem countsUp_onIdleTimer (r : Reactor) (c : ConnId) (now : TimePoint) :
    CountsUp r (r.onIdleTimer c now).1 := by
  unfold onIdleTimer
  split
  · exact fun _ => le_rfl
  · rename_i s hs
    split
    · exact countsUp_handled hs (Session.countsUp_onIdleTimer s now r.timers.nextId) now
    · exact fun _ => le_rfl

theorem countsUp_expireOne {t : TimePoint} {k : ℕ} {now : TimePoint}
    {result : Reactor × List Action} (hone : r.expireOne t k now = some result) :
    CountsUp r result.1 := by
  unfold expireOne at hone
  split at hone
  · cases hone
  · rename_i e timers hpop
    split at hone
    · obtain rfl := Option.some.inj hone
      exact countsUp_onIdleTimer { r with timers := timers } e.cb now
    · obtain rfl := Option.some.inj hone
      exact fun _ => le_rfl

theorem countsUp_attachConnection (r : Reactor) (idleTimeoutS fd : ℤ) (now : TimePoint) :
    CountsUp r (r.attachConnection idleTimeoutS fd now).1 := by
  intro counter
  show _ ≤ total counter.of (r.sessions ++ [_])
  rw [total_concat]
  exact Nat.le_add_right _ _

end Reactor

namespace LoopThread

open Reactor

theorem countsUp_step? {idleTimeoutS : ℤ} {l l' : LoopThread} {label : ThreadLabel}
    (hstep : l.step? idleTimeoutS label = some l') : CountsUp l.reactor l'.reactor := by
  unfold step? at hstep
  split at hstep
  · simp only [Option.ite_none_right_eq_some, Option.some.injEq] at hstep
    obtain ⟨-, rfl⟩ := hstep
    exact fun _ => le_rfl
  · obtain rfl := Option.some.inj hstep
    exact fun _ => le_rfl
  · simp only [Option.ite_none_right_eq_some, Option.some.injEq] at hstep
    obtain ⟨-, rfl⟩ := hstep
    exact countsUp_dispatch _ _ _ _ _ _ _ _
  · simp only [Option.ite_none_right_eq_some, Option.some.injEq] at hstep
    obtain ⟨-, rfl⟩ := hstep
    exact fun _ => le_rfl
  · simp only [Option.ite_none_right_eq_some, Option.map_eq_some_iff] at hstep
    obtain ⟨-, result, hone, rfl⟩ := hstep
    exact countsUp_expireOne hone
  · split at hstep
    · cases hstep
    · obtain rfl := Option.some.inj hstep
      exact fun _ => le_rfl
  · obtain rfl := Option.some.inj hstep
    exact fun _ => le_rfl
  · simp only [Option.ite_none_right_eq_some, Option.some.injEq] at hstep
    obtain ⟨-, rfl⟩ := hstep
    exact countsUp_attachConnection _ _ _ _
  · obtain rfl := Option.some.inj hstep
    exact fun _ => le_rfl
  · cases hstep

end LoopThread

namespace Reactors

open Reactor

variable {opts : Options} {s s' : Reactors} {l l' : LoopThread} {label : ReactorsLabel}

theorem counted_happens {i : ℕ} (h : Happens opts i label l l') (c : SharedCounter) :
    l.counted c ≤ l'.counted c := by
  cases h with
  | goesOn l' action hlabel hwork hstep => exact LoopThread.countsUp_step? hstep c
  | performs a rest hlabel htodo =>
      rw [LoopThread.counted, LoopThread.counted, sessions_perform]
  | attaches fd now rest hlabel hone hphase hwork hfd hfree hle =>
      exact countsUp_attachConnection l.reactor opts.idleTimeoutS fd now c
  | nothing hother => exact le_rfl
  | returns rest hother hphase => exact le_rfl
  | queues fd hother => exact le_rfl

theorem counted_step? (hinv : Inv opts s) (hcount : s.loops.length = opts.ioThreads + 1)
    (hstep : s.step? opts label = some s') (i : ℕ) (c : SharedCounter) :
    s.counted i c ≤ s'.counted i c := by
  unfold counted
  cases hi : s.loops[i]? with
  | none => exact Nat.zero_le _
  | some l =>
      obtain ⟨l', hi', hhappens⟩ := happens_of_step? hinv hcount hi hstep
      rw [hi']
      exact counted_happens hhappens c

/-- All connections that have been attached. -/
def attached (s : Reactors) : List Session := s.loops.flatMap fun l => l.reactor.sessions

theorem mem_attached {conn : Session} :
    conn ∈ s.attached ↔ ∃ l ∈ s.loops, conn ∈ l.reactor.sessions := List.mem_flatMap

/-- What has been counted for the connections of all loops. -/
theorem sum_counted (s : Reactors) (c : SharedCounter) :
    ∑ i ∈ Finset.range s.loops.length, s.counted i c = total c.of s.attached := by
  rw [attached, total_flatMap]
  exact (total_eq_sum_range (fun l => l.counted c) s.loops).symm

theorem accounted_attached (opts : Options) (inUse : Finset ℤ) (now : TimePoint)
    (labels : List ReactorsLabel) {conn : Session}
    (hconn : conn ∈ (Transition.run (step opts) (start opts inUse now) labels).attached) :
    ∃ env fd t events, conn = Session.run env (Session.start fd opts.idleTimeoutS t) events ∧
      Session.Accounted conn := by
  obtain ⟨l, hl, hmem⟩ := mem_attached.mp hconn
  obtain ⟨env, fd, t, events, -, -, rfl⟩ := allProjected_run opts inUse now labels l hl conn hmem
  exact ⟨env, fd, t, events, rfl, Session.accounted_run env fd opts.idleTimeoutS t events⟩

end Reactors

/-! ## The balance -/

namespace Statistics

open Session Reactors

variable {opts : Options} {inUse : Finset ℤ} {now : TimePoint} {s s' : Statistics}

/-- What the running handlers have still to add. -/
def outstanding (s : Statistics) (c : SharedCounter) : ℕ :=
  ∑ i ∈ Finset.range s.server.loops.length, s.due i c

/-- Each counter, with what has still to be added, is what has been counted. -/
structure Balanced (opts : Options) (inUse : Finset ℤ) (now : TimePoint) (s : Statistics) :
    Prop where
  reached : ∃ labels, s.server = Transition.run (Reactors.step opts)
    (Reactors.start opts inUse now) labels
  balance : ∀ c, s.shared c + s.outstanding c =
    total c.of s.server.attached + if c = .errors then s.refused else 0

theorem Balanced.inv (h : Balanced opts inUse now s) : Inv opts s.server := by
  obtain ⟨labels, hserver⟩ := h.reached
  rw [hserver]
  exact inv_run opts inUse now labels

theorem balanced_start (opts : Options) (inUse : Finset ℤ) (now : TimePoint) :
    Balanced opts inUse now (start opts inUse now) := by
  refine ⟨⟨[], rfl⟩, fun c => ?_⟩
  have hnone : total c.of (Reactors.start opts inUse now).attached = 0 := by
    rw [attached, total_flatMap]
    exact total_start _ opts inUse now fun _ => rfl
  show 0 + ∑ i ∈ _, 0 = total c.of (Reactors.start opts inUse now).attached + _
  rw [hnone, Finset.sum_const_zero]
  split <;> rfl

/-- What an action counts is owed from then on. -/
theorem sum_due_goesOn (h : Balanced opts inUse now s) {label : ReactorsLabel} {server : Reactors}
    (hstep : s.server.step? opts label = some server) (refused : ℕ) (c : SharedCounter) :
    (s.goesOn server refused).outstanding c + total c.of s.server.attached =
      s.outstanding c + total c.of server.attached + if c = .errors then refused else 0 := by
  obtain ⟨labels, hserver⟩ := h.reached
  have hcount : s.server.loops.length = opts.ioThreads + 1 := by
    rw [hserver]
    exact ((kept_projected opts).keeping inUse now labels).count
  have hrefused : ∑ i ∈ Finset.range s.server.loops.length,
      (if i = 0 ∧ c = .errors then refused else 0) = if c = .errors then refused else 0 := by
    rw [Finset.sum_eq_single_of_mem 0 (Finset.mem_range.mpr (by omega))
      fun i _ hi => if_neg fun hzero => hi hzero.1]
    simp
  rw [← sum_counted, ← sum_counted, ← hrefused, outstanding, outstanding]
  show ∑ i ∈ Finset.range server.loops.length, _ + _ = _
  rw [length_step? hstep, ← Finset.sum_add_distrib, ← Finset.sum_add_distrib,
    ← Finset.sum_add_distrib]
  refine Finset.sum_congr rfl fun i _ => ?_
  have hup := counted_step? h.inv hcount hstep i c
  show s.due i c + (server.counted i c - s.server.counted i c) + _ + _ = _
  omega

theorem balanced_act (h : Balanced opts inUse now s) {label : ReactorsLabel} {server : Reactors}
    (hstep : s.server.step? opts label = some server) (refused : ℕ) :
    Balanced opts inUse now (s.goesOn server refused) := by
  obtain ⟨labels, hserver⟩ := h.reached
  have hnext : server = Transition.run (Reactors.step opts) (Reactors.start opts inUse now)
      (labels ++ [label]) := by
    rw [Transition.run_concat, ← hserver, Reactors.step, Transition.attempt, hstep]
    rfl
  refine ⟨⟨_, hnext⟩, fun c => ?_⟩
  have hbefore := h.balance c
  have hdue := sum_due_goesOn h hstep refused c
  show s.shared c + _ = total c.of server.attached + if c = .errors then s.refused + refused else 0
  by_cases herrors : c = .errors
  · rw [if_pos herrors] at hbefore hdue ⊢
    omega
  · rw [if_neg herrors] at hbefore hdue ⊢
    omega

theorem due_fetchAdd (s : Statistics) (i j : ℕ) (c c' : SharedCounter) (n : ℕ) :
    (s.fetchAdd i c n).due j c' = if j = i ∧ c' = c then s.due i c - n else s.due j c' := by
  unfold fetchAdd
  by_cases hj : j = i
  · subst hj
    by_cases hc : c' = c
    · subst hc
      simp
    · simp [hc]
  · simp [hj]

/-- What is added is not owed any more. -/
theorem outstanding_fetchAdd {i : ℕ} {c : SharedCounter} {n : ℕ} (hi : i < s.server.loops.length)
    (hn : n ≤ s.due i c) : (s.fetchAdd i c n).outstanding c + n = s.outstanding c := by
  have hmem := Finset.mem_range.mpr hi
  have hothers : ∑ j ∈ (Finset.range s.server.loops.length).erase i, (s.fetchAdd i c n).due j c =
      ∑ j ∈ (Finset.range s.server.loops.length).erase i, s.due j c := by
    refine Finset.sum_congr rfl fun j hj => ?_
    rw [due_fetchAdd, if_neg fun hboth => Finset.ne_of_mem_erase hj hboth.1]
  unfold outstanding
  show ∑ j ∈ Finset.range s.server.loops.length, _ + n = _
  rw [← Finset.add_sum_erase _ _ hmem, ← Finset.add_sum_erase _ (s.due · c) hmem, hothers,
    due_fetchAdd, if_pos ⟨rfl, rfl⟩]
  omega

theorem outstanding_fetchAdd_of_ne {c c' : SharedCounter} (hc : c' ≠ c) (i n : ℕ) :
    (s.fetchAdd i c n).outstanding c' = s.outstanding c' := by
  refine Finset.sum_congr rfl fun j _ => ?_
  rw [due_fetchAdd, if_neg fun hboth => hc hboth.2]

theorem shared_fetchAdd (s : Statistics) (i : ℕ) (c c' : SharedCounter) (n : ℕ) :
    (s.fetchAdd i c n).shared c' = s.shared c' + if c' = c then n else 0 := by
  show Function.update s.shared c (s.shared c + n) c' = _
  by_cases hc : c' = c
  · rw [hc, Function.update_self, if_pos rfl]
  · rw [Function.update_of_ne hc, if_neg hc, Nat.add_zero]

theorem balanced_fetchAdd (h : Balanced opts inUse now s) {i : ℕ} {c : SharedCounter} {n : ℕ}
    (hi : i < s.server.loops.length) (hn : n ≤ s.due i c) :
    Balanced opts inUse now (s.fetchAdd i c n) := by
  refine ⟨h.reached, fun c' => ?_⟩
  have hbefore := h.balance c'
  show _ = total c'.of s.server.attached + if c' = .errors then s.refused else 0
  rw [shared_fetchAdd]
  by_cases hc : c' = c
  · subst hc
    have hdue := outstanding_fetchAdd hi hn
    rw [if_pos rfl]
    omega
  · rw [if_neg hc, outstanding_fetchAdd_of_ne hc, Nat.add_zero]
    exact hbefore

/-- What a step does. -/
theorem step?_cases {label : StatisticsLabel} (hstep : s.step? opts label = some s') :
    (∃ label server, s.server.step? opts label = some server ∧
      s' = s.goesOn server (s.server.refuses opts label)) ∨
    ∃ i c n, i < s.server.loops.length ∧ n ≤ s.due i c ∧ s' = s.fetchAdd i c n := by
  unfold step? at hstep
  split at hstep
  · rename_i label
    simp only [Option.ite_none_right_eq_some, Option.map_eq_some_iff] at hstep
    obtain ⟨-, server, hserver, rfl⟩ := hstep
    exact .inl ⟨label, server, hserver, rfl⟩
  · rename_i i c n
    simp only [Option.ite_none_right_eq_some, Option.some.injEq] at hstep
    obtain ⟨⟨hi, hn⟩, rfl⟩ := hstep
    exact .inr ⟨i, c, n, hi, hn, rfl⟩

theorem balanced_run (opts : Options) (inUse : Finset ℤ) (now : TimePoint)
    (labels : List StatisticsLabel) :
    Balanced opts inUse now (Transition.run (step opts) (start opts inUse now) labels) := by
  refine Transition.run_invariant (fun s label h => ?_) (balanced_start opts inUse now) labels
  refine Transition.attempt_invariant (fun s label s' h hstep => ?_) s label h
  rcases step?_cases hstep with ⟨label, server, hserver, rfl⟩ | ⟨i, c, n, hi, hn, rfl⟩
  · exact balanced_act h hserver _
  · exact balanced_fetchAdd h hi hn

theorem shared_step? {label : StatisticsLabel} (hstep : s.step? opts label = some s')
    (c : SharedCounter) : s.shared c ≤ s'.shared c := by
  rcases step?_cases hstep with ⟨label, server, hserver, rfl⟩ | ⟨i, c', n, hi, hn, rfl⟩
  · exact le_rfl
  · rw [shared_fetchAdd]
    exact Nat.le_add_right _ _

/-- A counter only goes up. -/
theorem shared_run (s : Statistics) (c : SharedCounter) (labels : List StatisticsLabel) :
    s.shared c ≤ (Transition.run (step opts) s labels).shared c := by
  have hinv (s₁ : Statistics) (label : StatisticsLabel) (h : s.shared c ≤ s₁.shared c) :
      s.shared c ≤ (step opts s₁ label).shared c := by
    unfold step Transition.attempt
    cases hnext : s₁.step? opts label with
    | none => exact h
    | some s₂ => exact h.trans (shared_step? hnext c)
  exact Transition.run_invariant hinv le_rfl labels

/-! ## What a reading tells -/

/-- No handler is running. -/
def Quiet (s : Statistics) : Prop :=
  s.server.Quiet ∧ ∀ i < s.server.loops.length, s.Settled i

theorem Quiet.outstanding (h : s.Quiet) (c : SharedCounter) : s.outstanding c = 0 :=
  Finset.sum_eq_zero fun i hi => h.2 i (Finset.mem_range.mp hi) c

/-- The shared counters, with what running handlers have still to add, are what the connections have
done. -/
structure Tells (s : Statistics) : Prop where
  accepted : s.shared .accepted + s.outstanding .accepted = s.server.attached.length
  requests : s.shared .requests + s.outstanding .requests =
    total (fun conn => (handled conn.trace).length) s.server.attached
  responses : s.shared .responses + s.outstanding .responses =
    total (fun conn => (handled conn.trace).length) s.server.attached
  errors : s.shared .errors + s.outstanding .errors =
    total (fun conn => conn.counters.errors) s.server.attached + s.refused
  timeoutsClosed : s.shared .timeoutsClosed + s.outstanding .timeoutsClosed ≤
    s.server.attached.countP fun conn => conn.conn.closed
  bytesRead : s.shared .bytesRead + s.outstanding .bytesRead =
    total (fun conn => conn.counters.bytesRead) s.server.attached
  bytesWritten : s.shared .bytesWritten + s.outstanding .bytesWritten =
    total (fun conn => (WsServer.accepted conn.trace).length) s.server.attached

theorem Balanced.tells (h : Balanced opts inUse now s) : Tells s := by
  obtain ⟨labels, hserver⟩ := h.reached
  have haccounted : ∀ conn ∈ s.server.attached, Accounted conn := by
    intro conn hconn
    rw [hserver] at hconn
    obtain ⟨env, fd, t, events, -, haccounted⟩ := accounted_attached opts inUse now labels hconn
    exact haccounted
  refine ⟨?_, ?_, ?_, h.balance .errors, ?_, h.balance .bytesRead, ?_⟩
  · exact (h.balance .accepted).trans (total_one _)
  · refine (h.balance .requests).trans (total_congr fun conn hconn => ?_)
    exact (haccounted conn hconn).requests
  · refine (h.balance .responses).trans (total_congr fun conn hconn => ?_)
    exact (haccounted conn hconn).responses.trans (haccounted conn hconn).requests
  · rw [h.balance .timeoutsClosed, ← total_ite_one]
    refine total_le fun conn hconn => ?_
    exact (haccounted conn hconn).timeoutsClosed.trans (haccounted conn hconn).closed.le
  · refine (h.balance .bytesWritten).trans (total_congr fun conn hconn => ?_)
    exact (haccounted conn hconn).bytesWritten

/-- Between handlers the readings agree with each other. -/
structure Agrees (s : Statistics) : Prop where
  responses : s.shared .responses = s.shared .requests
  closed : s.server.closed = s.server.attached.countP fun conn => conn.conn.closed
  timeoutsClosed : s.shared .timeoutsClosed ≤ s.server.closed

theorem Balanced.agrees (h : Balanced opts inUse now s) (hquiet : s.Quiet) : Agrees s := by
  obtain ⟨labels, hserver⟩ := h.reached
  obtain ⟨-, hrequests, hresponses, -, htimeouts, -, -⟩ := h.tells
  rw [hquiet.outstanding, Nat.add_zero] at hrequests hresponses htimeouts
  have hclosed : s.server.closed = s.server.attached.countP fun conn => conn.conn.closed := by
    rw [(h.inv.counters hquiet.1).2, ← total_ite_one, attached, total_flatMap]
    refine total_congr fun l hl => total_congr fun conn hconn => ?_
    have hmem : conn ∈ s.server.attached := mem_attached.mpr ⟨l, hl, hconn⟩
    rw [hserver] at hmem
    obtain ⟨env, fd, t, events, -, haccounted⟩ := accounted_attached opts inUse now labels hmem
    exact haccounted.closed
  exact ⟨hresponses.trans hrequests.symm, hclosed, hclosed ▸ htimeouts⟩

/-- **The counters of a server.**  In every state of every run, with each increment at a moment of
its own, they are what the connections have done, less what the running handlers have still to add;
each connection has read as many bytes as have been counted for it, from events that found it open;
no counter ever goes down; and when no handler is running they agree with each other. -/
theorem statistics_run (opts : Options) (inUse : Finset ℤ) (now : TimePoint)
    (labels : List StatisticsLabel) :
    let s := Transition.run (step opts) (start opts inUse now) labels
    Tells s ∧
    (∀ conn ∈ s.server.attached, ∃ env fd t events,
      conn = Session.run env (Session.start fd opts.idleTimeoutS t) events ∧
        conn.counters.bytesRead =
          (received (heeded env (Session.start fd opts.idleTimeoutS t) events)).length) ∧
    (∀ more c, s.shared c ≤ (Transition.run (step opts) s more).shared c) ∧
    (s.Quiet → Agrees s) := by
  intro s
  have h : Balanced opts inUse now s := balanced_run opts inUse now labels
  refine ⟨h.tells, fun conn hconn => ?_, fun more c => shared_run s c more, h.agrees⟩
  obtain ⟨labels', hserver⟩ := h.reached
  rw [hserver] at hconn
  obtain ⟨env, fd, t, events, rfl, -⟩ := accounted_attached opts inUse now labels' hconn
  refine ⟨env, fd, t, events, rfl, ?_⟩
  rw [bytesRead_run]
  exact Nat.zero_add _

/-- While a handler runs, a request has been counted and its response has not. -/
example :
    let attached : List StatisticsLabel := [.act (.thread 0 (.ready [.acceptor])), .act .onAccept,
      .act (.accept 5), .act .loadOpened, .act .loadClosed, .act (.check 0),
      .act (.perform 0), .act (.perform 0), .act (.perform 0), .fetchAdd 0 .accepted 1,
      .act (.perform 0), .act .acceptFailed, .act (.thread 0 (.expire 0)),
      .act (.thread 0 .expired), .act (.thread 0 .swap), .act (.thread 0 .poll)]
    let served : List StatisticsLabel := [
      .act (.thread 0 (.ready [.connection 5 0 false true false])),
      .act (.thread 0 (.dispatch ⟨fun _ _ => {}, fun _ => .wrote 1000⟩
        ⟨[.data (bytes "GET / HTTP/1.1\r\n\r\n") (by decide)], .eagain 1⟩)),
      .fetchAdd 0 .bytesRead 18, .fetchAdd 0 .requests 1]
    let s := Transition.run (step {}) (start {} ∅ 0) (attached ++ served)
    (s.shared .requests, s.shared .responses, s.outstanding .responses) = (1, 0, 1) := by
  decide +kernel

end Statistics

end WsServer
