import WsServer.Lib.Transition

/-!
# The event loop and its wake-up

`EventLoop` (`event_loop.h`, `event_loop.cpp`) as far as threads meet in it: the queue of
functors, the eventfd, and the flags.  Any number of threads `ι` call `queueInLoop`,
`runInLoop` and `quit`; one of them runs `loop`.  A label of `step?` is one atomic action of one
thread: an action under the mutex, an access to an atomic, or a system call.

Between two of its own actions the thread of the loop runs other code: the callbacks of the
events and timers, and the functors.  Such code may call the functions above like any other
thread, and so may a signal handler, at any point (`LoopLabel.quit`).
-/

namespace WsServer

/-- What `epoll_wait` reports: the eventfd, or a descriptor with a callback. -/
inductive Ready
  | wakeup
  | callback
  deriving DecidableEq, Repr

/-- Where the thread that runs `loop` stands. -/
inductive LoopPc (φ : Type*)
  /-- `loop` has not been called. -/
  | idle
  /-- At `while (!quit_.load())`. -/
  | testing
  /-- `quit_` was false; `epoll_wait` is about to be called, or called again. -/
  | entering
  /-- In `epoll_wait`. -/
  | blocked
  /-- Before these events of the batch; during the callback of the first one, if it has one. -/
  | dispatching (events : List Ready)
  /-- In `handleWakeup`, with these events of the batch to come. -/
  | draining (events : List Ready)
  /-- In `timers_.expire()`. -/
  | expiring
  /-- In `doPendingFunctors`, before the swap. -/
  | calling
  /-- Before these functors that have been swapped out; during the first one. -/
  | executing (functors : List φ)
  /-- `loop` has returned. -/
  | stopped
  deriving DecidableEq

/-- Code that is not the loop's own runs on its thread. -/
def LoopPc.runsCode {φ : Type*} : LoopPc φ → Bool
  | .dispatching (.callback :: _) => true
  | .expiring => true
  | .executing (_ :: _) => true
  | .stopped => true
  | _ => false

/-- The functors swapped out and not yet executed. -/
def LoopPc.taken {φ : Type*} : LoopPc φ → List φ
  | .executing functors => functors
  | _ => []

structure EventLoop (ι φ : Type*) where
  pc : LoopPc φ := .idle
  threadId : Option ι := none
  looping : Bool := false
  quit : Bool := false
  callingPending : Bool := false
  pending : List φ := []
  /-- The counter of the eventfd. -/
  eventfd : ℕ := 0
  /-- The thread stands in `queueInLoop`, behind the push. -/
  posting : ι → Bool := fun _ => false
  /-- How many calls of `quit` on the thread stand behind the store and are going to write: more
  than one when a signal handler interrupts another call. -/
  quitting : ι → ℕ := fun _ => 0
  /-- Some call of `quit` has returned. -/
  quitReturned : Bool := false
  /-- All functors pushed so far, and all executed, in order. -/
  pushed : List φ := []
  executed : List φ := []
  /-- The functors that `runInLoop` has run at once. -/
  inlined : List φ := []

inductive LoopLabel (ι φ : Type*)
  /-- The thread calls `loop`. -/
  | loop (t : ι)
  | test
  /-- `epoll_wait` is called. -/
  | enter
  /-- `epoll_wait` returns these events. -/
  | ready (events : List Ready)
  /-- `epoll_wait` fails with `EINTR`, and `Epoller::wait` calls it again. -/
  | interrupt
  /-- `epoll_wait` fails otherwise. -/
  | fail
  /-- The next event of the batch, or the timers when there is none. -/
  | next
  /-- A `read` of the eventfd in `handleWakeup`. -/
  | drain
  /-- The timers are done: `calling_pending_` is set. -/
  | expired
  | swap
  /-- The functor being executed is done, or `calling_pending_` is cleared behind the last. -/
  | execute
  /-- `queueInLoop` up to the push. -/
  | queueInLoop (t : ι) (f : φ)
  /-- The rest of `queueInLoop`. -/
  | queued (t : ι)
  | runInLoop (t : ι) (f : φ)
  /-- `quit` up to its store, and to its end on the thread of the loop. -/
  | quit (t : ι)
  /-- The `wakeup` of `quit`. -/
  | quitDone (t : ι)

namespace EventLoop

variable {ι φ : Type*} [DecidableEq ι]

def isInLoopThread (s : EventLoop ι φ) (t : ι) : Bool := s.threadId = some t

/-- `write` on the eventfd adds one, and fails when the counter is at its maximum. -/
def wakeup (s : EventLoop ι φ) : EventLoop ι φ :=
  { s with eventfd := min (s.eventfd + 1) (2 ^ 64 - 2) }

/-- Whether the thread can call a function of the loop: it is not in `queueInLoop` already, and
the thread of the loop is in code that is not the loop's. -/
def mayCall (s : EventLoop ι φ) (t : ι) : Bool :=
  !s.posting t && (!s.isInLoopThread t || s.pc.runsCode)

/-- Whether the thread of the loop is back in the loop's own code, so that it can go on. -/
def returned (s : EventLoop ι φ) : Bool :=
  match s.threadId with
  | some t => !s.posting t
  | none => true

/-- The locked part of `queueInLoop`. -/
def push (s : EventLoop ι φ) (t : ι) (f : φ) : EventLoop ι φ :=
  { s with
    pending := s.pending ++ [f]
    posting := Function.update s.posting t true
    pushed := s.pushed ++ [f] }

/-- An action of the thread that runs `loop`, where it stands. -/
def advance (s : EventLoop ι φ) (label : LoopLabel ι φ) : Option (EventLoop ι φ) :=
  match s.pc, label with
  | .testing, .test =>
    if s.quit then some { s with pc := .stopped, looping := false }
    else some { s with pc := .entering }
  | .entering, .enter => some { s with pc := .blocked }
  | .blocked, .ready events =>
    -- the eventfd is reported only when its counter is positive
    if Ready.wakeup ∈ events → 0 < s.eventfd then some { s with pc := .dispatching events }
    else none
  | .blocked, .interrupt => some { s with pc := .entering }
  | .blocked, .fail => some { s with pc := .testing }
  | .dispatching (.wakeup :: rest), .next => some { s with pc := .draining rest }
  | .dispatching (.callback :: rest), .next => some { s with pc := .dispatching rest }
  | .dispatching [], .next => some { s with pc := .expiring }
  | .draining rest, .drain =>
    if 0 < s.eventfd then some { s with eventfd := 0 }
    else some { s with pc := .dispatching rest }
  | .expiring, .expired => some { s with pc := .calling, callingPending := true }
  | .calling, .swap => some { s with pc := .executing s.pending, pending := [] }
  | .executing (f :: rest), .execute =>
    some { s with pc := .executing rest, executed := s.executed ++ [f] }
  | .executing [], .execute => some { s with pc := .testing, callingPending := false }
  | _, _ => none

/-- An action of any thread; `none` when it is not at the point where it could do that. -/
def step? (s : EventLoop ι φ) : LoopLabel ι φ → Option (EventLoop ι φ)
  | .loop t =>
    match s.pc with
    | .idle =>
      if !s.posting t ∧ s.quitting t = 0 then
        some { s with pc := .testing, threadId := some t, looping := true }
      else none
    | _ => none
  | .queueInLoop t f => if s.mayCall t then some (s.push t f) else none
  | .queued t =>
    if s.posting t then
      let s' := { s with posting := Function.update s.posting t false }
      some (if !s.isInLoopThread t || s.callingPending then s'.wakeup else s')
    else none
  | .runInLoop t f =>
    if s.mayCall t then
      if s.isInLoopThread t && s.looping then some { s with inlined := s.inlined ++ [f] }
      else some (s.push t f)
    else none
  | .quit t =>
    -- a signal handler may run at any point of its thread
    if s.isInLoopThread t then some { s with quit := true, quitReturned := true }
    else some { s with quit := true, quitting := Function.update s.quitting t (s.quitting t + 1) }
  | .quitDone t =>
    if 0 < s.quitting t then
      some { s.wakeup with
        quitting := Function.update s.quitting t (s.quitting t - 1)
        quitReturned := true }
    else none
  | label => if s.returned then s.advance label else none

def step : EventLoop ι φ → LoopLabel ι φ → EventLoop ι φ := Transition.attempt step?

/-! ## What the thread of the loop does -/

/-- The actions of the thread of the loop, with the state after them. -/
inductive Advance (s : EventLoop ι φ) : EventLoop ι φ → Prop
  | exit (hpc : s.pc = .testing) (hquit : s.quit = true) :
      Advance s { s with pc := .stopped, looping := false }
  | goOn (hpc : s.pc = .testing) (hquit : s.quit = false) : Advance s { s with pc := .entering }
  | enter (hpc : s.pc = .entering) : Advance s { s with pc := .blocked }
  | ready (events : List Ready) (hpc : s.pc = .blocked) :
      Advance s { s with pc := .dispatching events }
  | interrupt (hpc : s.pc = .blocked) : Advance s { s with pc := .entering }
  | fail (hpc : s.pc = .blocked) : Advance s { s with pc := .testing }
  | handleWakeup (rest : List Ready) (hpc : s.pc = .dispatching (.wakeup :: rest)) :
      Advance s { s with pc := .draining rest }
  | callback (rest : List Ready) (hpc : s.pc = .dispatching (.callback :: rest)) :
      Advance s { s with pc := .dispatching rest }
  | expire (hpc : s.pc = .dispatching []) : Advance s { s with pc := .expiring }
  | drain (rest : List Ready) (hpc : s.pc = .draining rest) : Advance s { s with eventfd := 0 }
  | drained (rest : List Ready) (hpc : s.pc = .draining rest) (hzero : s.eventfd = 0) :
      Advance s { s with pc := .dispatching rest }
  | expired (hpc : s.pc = .expiring) : Advance s { s with pc := .calling, callingPending := true }
  | swap (hpc : s.pc = .calling) :
      Advance s { s with pc := .executing s.pending, pending := [] }
  | execute (f : φ) (rest : List φ) (hpc : s.pc = .executing (f :: rest)) :
      Advance s { s with pc := .executing rest, executed := s.executed ++ [f] }
  | finish (hpc : s.pc = .executing []) :
      Advance s { s with pc := .testing, callingPending := false }

omit [DecidableEq ι] in
theorem advance_cases {s s' : EventLoop ι φ} {label : LoopLabel ι φ}
    (h : s.advance label = some s') : Advance s s' := by
  unfold advance at h
  split at h
  · rename_i hpc
    split at h
    · rename_i hquit
      exact Option.some.inj h ▸ .exit hpc hquit
    · rename_i hquit
      exact Option.some.inj h ▸ .goOn hpc (by simpa using hquit)
  · rename_i hpc
    exact Option.some.inj h ▸ .enter hpc
  · rename_i events hpc
    split at h
    · exact Option.some.inj h ▸ .ready events hpc
    · simp at h
  · rename_i hpc
    exact Option.some.inj h ▸ .interrupt hpc
  · rename_i hpc
    exact Option.some.inj h ▸ .fail hpc
  · rename_i rest hpc
    exact Option.some.inj h ▸ .handleWakeup rest hpc
  · rename_i rest hpc
    exact Option.some.inj h ▸ .callback rest hpc
  · rename_i hpc
    exact Option.some.inj h ▸ .expire hpc
  · rename_i rest hpc
    split at h
    · exact Option.some.inj h ▸ .drain rest hpc
    · rename_i hzero
      exact Option.some.inj h ▸ .drained rest hpc (by omega)
  · rename_i hpc
    exact Option.some.inj h ▸ .expired hpc
  · rename_i hpc
    exact Option.some.inj h ▸ .swap hpc
  · rename_i f rest hpc
    exact Option.some.inj h ▸ .execute f rest hpc
  · rename_i hpc
    exact Option.some.inj h ▸ .finish hpc
  · simp at h

/-- The actions of all threads. -/
inductive Acts (s : EventLoop ι φ) (label : LoopLabel ι φ) : EventLoop ι φ → Prop
  | loop (t : ι) (hpc : s.pc = .idle) (hidle : s.posting t = false) :
      Acts s label { s with pc := .testing, threadId := some t, looping := true }
  | push (t : ι) (f : φ) (hcall : s.mayCall t = true) : Acts s label (s.push t f)
  | inline (t : ι) (f : φ) : Acts s label { s with inlined := s.inlined ++ [f] }
  | queued (t : ι) (hposting : s.posting t = true) :
      Acts s label { s.wakeup with posting := Function.update s.posting t false }
  /-- `queueInLoop` leaves out the write. -/
  | unwoken (t : ι) (hposting : s.posting t = true) (hthread : s.isInLoopThread t = true)
      (hcalling : s.callingPending = false) :
      Acts s label { s with posting := Function.update s.posting t false }
  | quitInLoop (t : ι) (hlabel : label = .quit t) (hthread : s.isInLoopThread t = true) :
      Acts s label { s with quit := true, quitReturned := true }
  | quit (t : ι) :
      Acts s label { s with
        quit := true, quitting := Function.update s.quitting t (s.quitting t + 1) }
  | quitDone (t : ι) (hcall : 0 < s.quitting t) :
      Acts s label { s.wakeup with
        quitting := Function.update s.quitting t (s.quitting t - 1)
        quitReturned := true }
  | advance (s' : EventLoop ι φ) (hreturned : s.returned = true) (h : Advance s s') : Acts s label s'

theorem step?_cases {s s' : EventLoop ι φ} {label : LoopLabel ι φ}
    (h : s.step? label = some s') : Acts s label s' := by
  cases label with
  | loop t =>
      simp only [step?] at h
      split at h
      · rename_i hpc
        simp only [Option.ite_none_right_eq_some, Option.some.injEq] at h
        obtain ⟨⟨hidle, -⟩, rfl⟩ := h
        exact .loop t hpc (by simpa using hidle)
      · simp at h
  | queueInLoop t f =>
      simp only [step?, Option.ite_none_right_eq_some, Option.some.injEq] at h
      obtain ⟨hcall, rfl⟩ := h
      exact .push t f hcall
  | queued t =>
      simp only [step?, Option.ite_none_right_eq_some, Option.some.injEq] at h
      obtain ⟨hposting, rfl⟩ := h
      split
      · exact .queued t hposting
      · rename_i hskip
        rw [Bool.or_eq_true, not_or, Bool.not_eq_true', Bool.not_eq_false,
          Bool.not_eq_true] at hskip
        exact .unwoken t hposting hskip.1 hskip.2
  | runInLoop t f =>
      simp only [step?, Option.ite_none_right_eq_some] at h
      obtain ⟨hcall, h⟩ := h
      split at h
      · exact Option.some.inj h ▸ .inline t f
      · exact Option.some.inj h ▸ .push t f hcall
  | quit t =>
      simp only [step?] at h
      split at h
      · rename_i hthread
        exact Option.some.inj h ▸ .quitInLoop t rfl hthread
      · exact Option.some.inj h ▸ .quit t
  | quitDone t =>
      simp only [step?, Option.ite_none_right_eq_some, Option.some.injEq] at h
      obtain ⟨hcall, rfl⟩ := h
      exact .quitDone t hcall
  | _ =>
      simp only [step?, Option.ite_none_right_eq_some] at h
      exact .advance s' h.1 (advance_cases h.2)

end EventLoop

end WsServer
