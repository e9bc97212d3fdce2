import WsServer.Lib.Liveness
import WsServer.Reactors.EachLoop
import WsServer.Reactors.RoundRobin

/-!
# Every round comes to an end

A loop that goes on gets back to `epoll_wait` again and again, whatever the other threads do, and
attaches every connection that it has been given.

What is left of a round is measured by a rank (`LoopThread.rank`): the parts of the round that are
still to come, then the events, timers or tasks of the present part, then the actions of the running
handler.  The batch and the swapped tasks only get shorter, as what is queued meanwhile waits for
the next round.  The timers that are due when `expire()` begins only get fewer, as a callback that
arms its timer again does so for a time that is still to come (`Postpones`).

A handler is one step here, and its actions are the next ones.  So the reads of `handleRead` are
taken to come to an end; a sender that is always faster than the loop can keep them going.

`onAccept` goes on as long as there are connections to accept.  On the only loop of a server it also
gives itself new handlers to run; each call of it that returns takes an event of the batch
(`mainRound`).
-/

namespace WsServer

open Reactor

/-- How many parts of a round are left. -/
def Phase.stage : Phase → ℕ
  | .polling => 0
  | .executing _ => 1
  | .calling _ => 2
  | .expiring _ => 3
  | .dispatching _ => 4

namespace TimerHeap

variable {κ : Type*} {h h' : TimerHeap κ} {t : TimePoint}

/-- How many entries are due. -/
def dueCount (h : TimerHeap κ) (t : TimePoint) : ℕ := h.heap.countP fun e => e.when ≤ t

theorem dueCount_pop? {k : ℕ} {e : Entry κ} (hpop : h.pop? t k = some (e, h')) :
    h.dueCount t = h'.dueCount t + 1 := by
  unfold pop? at hpop
  split at hpop
  · rename_i e₁ hk
    simp only [Option.ite_none_right_eq_some, Bool.and_eq_true, Option.some.injEq, Prod.mk.injEq,
      decide_eq_true_eq] at hpop
    obtain ⟨⟨-, hdue⟩, rfl, rfl⟩ := hpop
    obtain ⟨hlt, rfl⟩ := List.getElem?_eq_some_iff.mp hk
    rw [dueCount, ← (List.getElem_cons_eraseIdx_perm hlt).countP_eq,
      List.countP_cons_of_pos (by simpa using hdue)]
    rfl
  · cases hpop

theorem dueCount_addAfter_of_lt {now : TimePoint} {ms : ℤ} (hlater : t < now + ms * 1000000)
    (cb : κ) : (h.addAfter now ms cb).dueCount t = h.dueCount t := by
  show (h.heap ++ [_]).countP _ = _
  rw [List.countP_append, List.countP_singleton, if_neg (by simpa using hlater), Nat.add_zero]
  rfl

theorem dueCount_cancel (id : TimerId) : (h.cancel id).dueCount t = h.dueCount t := by
  rw [dueCount, heap_cancel, dueCount]

end TimerHeap

namespace LoopThread

variable {idleTimeoutS : ℤ} {l l' : LoopThread}

/-! ## What callbacks add -/

/-- What a callback adds while `expire()` runs is not due in that call. -/
def Postpones (l : LoopThread) : Prop := ∀ t, l.phase = .expiring t →
  t ≤ l.clock ∧ ∀ now ms c, .addTimer now ms c ∈ l.todo → t < now + ms * 1000000

theorem addTimer_notMem_closing {now : TimePoint} {ms : ℤ} {c c' : ConnId} {fd : ℤ}
    {timer : TimerId} : Action.addTimer now ms c' ∉ closing c fd timer := by
  unfold closing
  split_ifs <;> simp

theorem postpones_runs (h : l.Postpones) (htodo : l.todo = []) (hrun : Runs idleTimeoutS l l') :
    l'.Postpones := by
  intro t ht
  cases hrun with
  | ready batch hphase hreports => cases ht
  | wakeup rest hphase => cases ht
  | dispatch fd c hangup readable writable rest now r' todo hphase hle hrun => cases ht
  | expire now hphase hle =>
      cases ht
      refine ⟨le_refl _, fun now' ms c hmem => ?_⟩
      rw [show _ = [] from htodo] at hmem
      cases hmem
  | drop t' k now e timers hphase hle hpop hcancelled =>
      cases ht
      refine ⟨(h t hphase).1.trans hle, fun now' ms c hmem => ?_⟩
      cases hmem
  | fire t' k now e timers r' todo hphase hle hpop hlive hrun =>
      cases ht
      have hbegun : t ≤ now := (h t hphase).1.trans hle
      refine ⟨hbegun, fun now' ms c hmem => ?_⟩
      cases hrun with
      | nothing hnone => cases hmem
      | reaps s s' hs hdue hlives hended => exact absurd hmem addTimer_notMem_closing
      | rearms s hs hopen htimeout hrecent =>
          obtain ⟨rfl, rfl, rfl⟩ := Action.addTimer.inj (List.mem_singleton.mp hmem)
          have hpos : 0 < s.conn.idleTimeoutS * 1000 * 1000000 := by omega
          exact hbegun.trans_lt (lt_add_of_pos_right _ hpos)
  | expired t' hphase hdue => cases ht
  | swap t' hphase => cases ht
  | execute fd rest now hphase hle => cases ht
  | poll hphase => cases ht

/-! ## The rank -/

/-- What is left of the present part of the round, apart from the handler that runs. -/
def left (l : LoopThread) : ℕ :=
  match l.phase with
  | .dispatching batch => batch.length
  | .expiring t => l.reactor.timers.dueCount t
  | .executing tasks => tasks.length
  | _ => 0

def round (l : LoopThread) : ℕ ×ₗ ℕ := toLex (l.phase.stage, l.left)

def rank (l : LoopThread) : (ℕ ×ₗ ℕ) ×ₗ ℕ := toLex (l.round, l.todo.length)

theorem round_lt_of_stage (h : l'.phase.stage < l.phase.stage) : l'.round < l.round :=
  Prod.Lex.toLex_lt_toLex.mpr (.inl h)

theorem round_lt_of_left (hstage : l'.phase.stage = l.phase.stage) (h : l'.left < l.left) :
    l'.round < l.round :=
  Prod.Lex.toLex_lt_toLex.mpr (.inr ⟨hstage, h⟩)

theorem rank_lt_of_round (h : l'.round < l.round) : l'.rank < l.rank :=
  Prod.Lex.toLex_lt_toLex.mpr (.inl h)

theorem rank_lt_of_todo (hround : l'.round = l.round) (h : l'.todo.length < l.todo.length) :
    l'.rank < l.rank :=
  Prod.Lex.toLex_lt_toLex.mpr (.inr ⟨hround, h⟩)

theorem round_lt_dispatching {e : Reported} {rest : List Reported}
    (hphase : l.phase = .dispatching (e :: rest)) (hphase' : l'.phase = .dispatching rest) :
    l'.round < l.round := by
  refine round_lt_of_left (by rw [hphase, hphase']; rfl) ?_
  rw [left, left, hphase, hphase']
  exact Nat.lt_succ_self _

theorem round_runs (hpolling : l.phase ≠ .polling) (hrun : Runs idleTimeoutS l l') :
    l'.round < l.round := by
  cases hrun with
  | ready batch hphase hreports => exact absurd hphase hpolling
  | wakeup rest hphase => exact round_lt_dispatching hphase rfl
  | dispatch fd c hangup readable writable rest now r' todo hphase hle hrun =>
      exact round_lt_dispatching hphase rfl
  | expire now hphase hle => exact round_lt_of_stage (by rw [hphase]; exact Nat.lt_succ_self 3)
  | drop t k now e timers hphase hle hpop hcancelled =>
      refine round_lt_of_left (by rw [hphase]; rfl) ?_
      have hdue := TimerHeap.dueCount_pop? hpop
      rw [left, left, hphase]
      show timers.dueCount t < l.reactor.timers.dueCount t
      omega
  | fire t k now e timers r' todo hphase hle hpop hlive hrun =>
      refine round_lt_of_left (by rw [hphase]; rfl) ?_
      have hdue := TimerHeap.dueCount_pop? hpop
      have htimers : r'.timers = timers := by
        cases hrun with
        | nothing hnone => rfl
        | reaps s s' hs hdue hlives hended => rfl
        | rearms s hs hopen htimeout hrecent => rfl
      rw [left, left, hphase]
      show r'.timers.dueCount t < l.reactor.timers.dueCount t
      rw [htimers]
      omega
  | expired t hphase hdue => exact round_lt_of_stage (by rw [hphase]; exact Nat.lt_succ_self 2)
  | swap t hphase => exact round_lt_of_stage (by rw [hphase]; exact Nat.lt_succ_self 1)
  | execute fd rest now hphase hle =>
      refine round_lt_of_left (by rw [hphase]; rfl) ?_
      rw [left, left, hphase]
      exact Nat.lt_succ_self _
  | poll hphase => exact round_lt_of_stage (by rw [hphase]; exact Nat.lt_succ_self 0)

theorem left_perform (h : l.Postpones) {a : Action} {rest : List Action}
    (htodo : l.todo = a :: rest) :
    left { l with reactor := l.reactor.perform a, todo := rest } = l.left := by
  unfold left
  dsimp only
  split
  · rfl
  · rename_i t hphase
    cases a with
    | addTimer now ms c =>
        refine TimerHeap.dueCount_addAfter_of_lt ?_ c
        exact (h t hphase).2 now ms c (by rw [htodo]; exact List.mem_cons_self)
    | cancelTimer id => exact TimerHeap.dueCount_cancel id
    | epollAdd fd c =>
        simp only [perform]
        split <;> rfl
    | _ => rfl
  · rfl
  · rfl

theorem round_perform (h : l.Postpones) {a : Action} {rest : List Action}
    (htodo : l.todo = a :: rest) :
    round { l with reactor := l.reactor.perform a, todo := rest } = l.round := by
  rw [round, left_perform h htodo, round]

theorem ready_of_polling (hphase : l.phase = .polling) {action : ThreadLabel}
    (h : l.step? idleTimeoutS action = some l') : ∃ batch, action = .ready batch := by
  cases action with
  | ready batch => exact ⟨batch, rfl⟩
  | _ => simp [step?, hphase] at h

/-- The thread goes on, and not from `epoll_wait`. -/
theorem round_step? (htabled : Tabled idleTimeoutS l.reactor) {action : ThreadLabel}
    (hstep : l.step? idleTimeoutS action = some l') (hnot : ∀ batch, action ≠ .ready batch) :
    l'.round < l.round := by
  refine round_runs (fun hphase => ?_) (step?_cases htabled hstep)
  obtain ⟨batch, hready⟩ := ready_of_polling hphase hstep
  exact hnot batch hready

theorem step?_ready {batch : List Reported} (h : l.step? idleTimeoutS (.ready batch) = some l') :
    l.phase = .polling ∧ l' = { l with phase := .dispatching batch } := by
  cases hphase : l.phase with
  | polling =>
      simp only [step?, hphase, Option.ite_none_right_eq_some, Option.some.injEq] at h
      exact ⟨rfl, h.2.symm⟩
  | _ => simp [step?, hphase] at h

end LoopThread

namespace Reactors

open LoopThread Filter Transition

variable {opts : Options} {s s' : Reactors} {l l' : LoopThread} {i : ℕ} {label : ReactorsLabel}

theorem kept_postpones (opts : Options) : Kept opts Postpones := by
  refine ⟨?_, ?_⟩
  · intro listens now t ht
    cases ht
  · intro i label l l' h hhappens
    cases hhappens with
    | nothing hother => exact h
    | goesOn l' action hlabel hwork hstep =>
        exact postpones_runs h hwork.todo (LoopThread.step?_cases hwork.tabled hstep)
    | performs a rest hlabel htodo =>
        intro t ht
        refine ⟨(h t ht).1, fun now ms c hmem => (h t ht).2 now ms c ?_⟩
        rw [htodo]
        exact List.mem_cons_of_mem a hmem
    | returns rest hother hphase =>
        intro t ht
        cases ht
    | attaches fd now rest hlabel hone hphase hwork hfd hfree hle =>
        intro t ht
        rw [show _ = _ from hphase] at ht
        cases ht
    | queues fd hother => exact h

/-! ## Rounds -/

theorem round_happens (hl : l.Postpones) (h : Happens opts i label l l')
    (hnot : ∀ batch, label ≠ .thread i (.ready batch)) : l'.round ≤ l.round := by
  cases h with
  | nothing hother => exact le_refl _
  | goesOn l' action hlabel hwork hstep =>
      refine (round_step? hwork.tabled hstep fun batch hready => ?_).le
      exact hnot batch (hready ▸ hlabel)
  | performs a rest hlabel htodo => exact (round_perform hl htodo).le
  | returns rest hother hphase => exact (round_lt_dispatching hphase rfl).le
  | attaches fd now rest hlabel hone hphase hwork hfd hfree hle =>
      have hleft : left (l.handler l.phase now
          (l.reactor.attachConnection opts.idleTimeoutS fd now)) = l.left := by
        rw [left, left, hphase]
        rfl
      show toLex (l.phase.stage, left (l.handler l.phase now _)) ≤ l.round
      rw [hleft]
      exact le_refl _
  | queues fd hother => exact le_refl _

/-- Loop `i` returns from `epoll_wait`, or a connection may be attached to the only loop. -/
def Restarts (opts : Options) (i : ℕ) (label : ReactorsLabel) : Prop :=
  (∃ batch, label = .thread i (.ready batch)) ∨
    i = 0 ∧ opts.ioThreads = 0 ∧ ∃ now, label = .check now

theorem rank_happens (hl : l.Postpones) (h : Happens opts i label l l')
    (hnot : ¬Restarts opts i label) : l'.rank ≤ l.rank ∧ (label.IsOf i → l'.rank < l.rank) := by
  cases h with
  | nothing hother => exact ⟨le_refl _, fun hown => absurd hown hother⟩
  | goesOn l' action hlabel hwork hstep =>
      have hround : l'.round < l.round :=
        round_step? hwork.tabled hstep fun batch hready => hnot (.inl ⟨batch, hready ▸ hlabel⟩)
      have hlt := rank_lt_of_round hround
      exact ⟨hlt.le, fun _ => hlt⟩
  | performs a rest hlabel htodo =>
      have hlt : rank { l with reactor := l.reactor.perform a, todo := rest } < l.rank := by
        refine rank_lt_of_todo (round_perform hl htodo) ?_
        rw [htodo]
        exact Nat.lt_succ_self _
      exact ⟨hlt.le, fun _ => hlt⟩
  | returns rest hother hphase =>
      have hlt : rank { l with phase := .dispatching rest } < l.rank :=
        rank_lt_of_round (round_lt_dispatching hphase rfl)
      exact ⟨hlt.le, fun hown => absurd hown hother⟩
  | attaches fd now rest hlabel hone hphase hwork hfd hfree hle =>
      exact absurd (.inr ⟨hone.1, hone.2, now, hlabel⟩) hnot
  | queues fd hother => exact ⟨le_refl _, fun hown => absurd hown hother⟩

/-- The rank of loop `i`, if there is such a loop. -/
def rankOf (i : ℕ) (s : Reactors) : (ℕ ×ₗ ℕ) ×ₗ ℕ :=
  match s.loops[i]? with
  | some l => l.rank
  | none => toLex (toLex (0, 0), 0)

theorem rankOf_step? (h : Keeping opts Postpones s) (hstep : s.step? opts label = some s')
    (hnot : ¬Restarts opts i label) :
    rankOf i s' ≤ rankOf i s ∧ (label.IsOf i → rankOf i s' < rankOf i s) := by
  cases hi : s.loops[i]? with
  | some l =>
      obtain ⟨l', hi', hhappens⟩ := happens_of_step? h.inv h.count hi hstep
      unfold rankOf
      rw [hi, hi']
      exact rank_happens (h.each l (List.mem_of_getElem? hi)) hhappens hnot
  | none =>
      have hi' : s'.loops[i]? = none := by
        rw [List.getElem?_eq_none_iff] at hi ⊢
        exact (length_step? hstep).le.trans hi
      unfold rankOf
      rw [hi, hi']
      refine ⟨le_refl _, fun hown => ?_⟩
      cases label with
      | thread j action =>
          obtain rfl : j = i := hown
          simp [step?, hi] at hstep
      | perform j =>
          obtain rfl : j = i := hown
          simp [step?, hi] at hstep
      | _ => cases hown

/-! ## `onAccept` on the only loop -/

/-- What is left of the round of the main loop, and whether `onAccept` may still begin. -/
def mainRound (s : Reactors) : (ℕ ×ₗ ℕ) ×ₗ ℕ :=
  match s.loops[0]? with
  | some main => toLex (main.round, if s.acceptor = .idle then 1 else 0)
  | none => toLex (toLex (0, 0), 0)

/-- `onAccept` returns only where it takes its event from the batch. -/
theorem idle_of_steps (hstep : Steps opts s label s') (hidle : s'.acceptor = .idle) :
    s.acceptor = .idle ∨ ∃ main e rest, s.loops[0]? = some main ∧
      main.phase = .dispatching (e :: rest) ∧
      s'.loops[0]? = some { main with phase := .dispatching rest } := by
  cases hstep with
  | thread i l l' action hi htodo hidle' hstep => exact .inl hidle
  | perform i l a rest hi htodo =>
      refine .inl ?_
      cases a with
      | _ => exact hidle
  | onAccept main rest hmain hphase hidle' => exact .inl hidle'
  | accept main fd hmain htodo hacceptor hfresh hpos => cases hidle
  | acceptFailed main e rest hmain hphase hacceptor =>
      refine .inr ⟨main, e, rest, hmain, hphase, ?_⟩
      exact List.getElem?_set_self (List.getElem?_eq_some_iff.mp hmain).1
  | load main fd opened closed opened' closed' hmain htodo hacceptor hopened hclosed => cases hidle
  | refuse fd opened closed hacceptor hfull => cases hidle
  | attach main fd opened closed now hlabel hmain htodo hacceptor hroom hone hle => cases hidle
  | handOver fd opened closed now sub hlabel hacceptor hroom hmany hsub => cases hidle

theorem exists_main (hcount : s.loops.length = opts.ioThreads + 1) :
    ∃ main, s.loops[0]? = some main := by
  have hlt : 0 < s.loops.length := by
    rw [hcount]
    exact Nat.succ_pos _
  exact ⟨_, List.getElem?_eq_getElem hlt⟩

theorem mainRound_step? (h : Keeping opts Postpones s) (hstep : s.step? opts label = some s')
    (hnot : ∀ batch, label ≠ .thread 0 (.ready batch)) : s'.mainRound ≤ s.mainRound := by
  obtain ⟨main, hmain⟩ := exists_main h.count
  obtain ⟨main', hmain', hhappens⟩ := happens_of_step? h.inv h.count hmain hstep
  have hround := round_happens (h.each main (List.mem_of_getElem? hmain)) hhappens hnot
  unfold mainRound
  rw [hmain, hmain']
  dsimp only
  by_cases hidle' : s'.acceptor = .idle
  · rcases idle_of_steps (step?_cases hstep) hidle' with hidle | ⟨l, e, rest, hl, hphase, hl'⟩
    · rw [if_pos hidle', if_pos hidle]
      exact Prod.Lex.toLex_mono ⟨hround, le_refl 1⟩
    · obtain rfl : main = l := Option.some.inj (hmain.symm.trans hl)
      obtain rfl : main' = _ := Option.some.inj (hmain'.symm.trans hl')
      exact (Prod.Lex.toLex_lt_toLex.mpr (.inl (round_lt_dispatching hphase rfl))).le
  · rw [if_neg hidle']
    exact Prod.Lex.toLex_mono ⟨hround, Nat.zero_le _⟩

/-- While nothing of this changes, `onAccept` does not begin either. -/
theorem idle_of_mainRound (h : s.mainRound = s'.mainRound)
    (hcount : s.loops.length = opts.ioThreads + 1) (hcount' : s'.loops.length = opts.ioThreads + 1)
    (hidle : s.acceptor = .idle) : s'.acceptor = .idle := by
  obtain ⟨main, hmain⟩ := exists_main hcount
  obtain ⟨main', hmain'⟩ := exists_main hcount'
  unfold mainRound at h
  rw [hmain, hmain'] at h
  have hflag := congrArg (fun r => (ofLex r).2) h
  dsimp only at hflag
  by_contra hbusy
  rw [if_pos hidle, if_neg hbusy] at hflag
  cases hflag

theorem step?_check_of_idle (hidle : s.acceptor = .idle) (t : TimePoint) :
    s.step? opts (.check t) = none := by
  unfold step?
  dsimp only
  split
  · simp [acceptorStep?, hidle]
  · rfl

/-! ## Connections that have been given to a loop -/

/-- The first `k` connections given to a loop are attached before its next round. -/
structure Attaching (k : ℕ) (l : LoopThread) : Prop where
  given : k ≤ l.given
  executing : ∀ tasks, l.phase = .executing tasks → k ≤ tasks.length + l.reactor.sessions.length
  polling : l.phase = .polling → k ≤ l.reactor.sessions.length

theorem attaching_of_stage {k : ℕ} (hgiven : k ≤ l.given) (hstage : 1 < l.phase.stage) :
    Attaching k l := by
  refine ⟨hgiven, fun tasks hphase => ?_, fun hphase => ?_⟩
  · rw [hphase] at hstage
    exact absurd hstage (lt_irrefl 1)
  · rw [hphase] at hstage
    exact absurd hstage (Nat.not_lt_zero 1)

theorem given_happens (h : Happens opts i label l l') : l.given ≤ l'.given := by
  cases h with
  | nothing hother => exact le_refl _
  | goesOn l' action hlabel hwork hstep =>
      exact (given_runs (LoopThread.step?_cases hwork.tabled hstep)).ge
  | performs a rest hlabel htodo => exact (given_perform l a rest).ge
  | returns rest hother hphase =>
      have hsame : LoopThread.given { l with phase := .dispatching rest } = l.given :=
        given_of_phase rfl (by rw [hphase]; rfl)
      exact hsame.ge
  | attaches fd now rest hlabel hone hphase hwork hfd hfree hle =>
      rw [attachConnection_eq]
      show l.given ≤ l.pending.length + l.phase.tasks.length + (l.reactor.sessions ++ [_]).length
      rw [List.length_append, LoopThread.given]
      omega
  | queues fd hother =>
      show l.given ≤ (l.pending ++ [fd]).length + l.phase.tasks.length + l.reactor.sessions.length
      rw [List.length_append, LoopThread.given]
      omega

theorem attaching_runs {k : ℕ} (h : Attaching k l) (hrun : Runs opts.idleTimeoutS l l') :
    Attaching k l' := by
  have hgiven : k ≤ l'.given := (given_runs hrun).symm ▸ h.given
  cases hrun with
  | ready batch hphase hreports => exact attaching_of_stage hgiven (show 1 < 4 by decide)
  | wakeup rest hphase => exact attaching_of_stage hgiven (show 1 < 4 by decide)
  | dispatch fd c hangup readable writable rest now r' todo hphase hle hrun =>
      exact attaching_of_stage hgiven (show 1 < 4 by decide)
  | expire now hphase hle => exact attaching_of_stage hgiven (show 1 < 3 by decide)
  | drop t k now e timers hphase hle hpop hcancelled =>
      exact attaching_of_stage hgiven (show 1 < 3 by decide)
  | fire t k now e timers r' todo hphase hle hpop hlive hrun =>
      exact attaching_of_stage hgiven (show 1 < 3 by decide)
  | expired t hphase hdue => exact attaching_of_stage hgiven (show 1 < 2 by decide)
  | swap t hphase =>
      refine ⟨hgiven, fun tasks htasks => ?_, fun hpolling => Phase.noConfusion hpolling⟩
      obtain rfl : l.pending = tasks := Phase.executing.inj htasks
      have hall := h.given
      rw [LoopThread.given, hphase] at hall
      exact hall
  | execute fd rest now hphase hle =>
      refine ⟨hgiven, fun tasks htasks => ?_, fun hpolling => Phase.noConfusion hpolling⟩
      obtain rfl : rest = tasks := Phase.executing.inj htasks
      have hall := h.executing _ hphase
      rw [attachConnection_eq]
      show k ≤ rest.length + (l.reactor.sessions ++ [_]).length
      rw [List.length_cons] at hall
      rw [List.length_append, List.length_singleton]
      omega
  | poll hphase =>
      refine ⟨hgiven, fun tasks htasks => Phase.noConfusion htasks, fun _ => ?_⟩
      simpa using h.executing [] hphase

theorem attaching_happens {k : ℕ} (h : Attaching k l) (hhappens : Happens opts i label l l') :
    Attaching k l' := by
  have hgiven : k ≤ l'.given := h.given.trans (given_happens hhappens)
  cases hhappens with
  | nothing hother => exact h
  | goesOn l' action hlabel hwork hstep =>
      exact attaching_runs h (LoopThread.step?_cases hwork.tabled hstep)
  | performs a rest hlabel htodo =>
      refine ⟨hgiven, fun tasks htasks => ?_, fun hphase => ?_⟩
      · rw [sessions_perform]
        exact h.executing tasks htasks
      · rw [sessions_perform]
        exact h.polling hphase
  | returns rest hother hphase => exact attaching_of_stage hgiven (show 1 < 4 by decide)
  | attaches fd now rest hlabel hone hphase hwork hfd hfree hle =>
      refine attaching_of_stage hgiven ?_
      show 1 < l.phase.stage
      rw [hphase]
      exact (show 1 < 4 by decide)
  | queues fd hother => exact ⟨hgiven, h.executing, h.polling⟩

/-- The loop returns from `epoll_wait`. -/
theorem happens_ready {batch : List Reported} (h : Happens opts i (.thread i (.ready batch)) l l') :
    l.phase = .polling ∧ l' = { l with phase := .dispatching batch } := by
  cases h with
  | nothing hother => exact absurd rfl hother
  | goesOn l' action hlabel hwork hstep =>
      obtain ⟨-, rfl⟩ := ReactorsLabel.thread.inj hlabel
      exact step?_ready hstep
  | performs a rest hlabel htodo => cases hlabel
  | returns rest hother hphase => exact absurd rfl hother
  | attaches fd now rest hlabel hone hphase hwork hfd hfree hle => cases hlabel
  | queues fd hother => exact absurd rfl hother

/-! ## Infinite runs -/

section Run

variable {inUse : Finset ℤ} {now : TimePoint} {labels : ℕ → ReactorsLabel} {n m : ℕ}

theorem keeping_stateAt (opts : Options) (inUse : Finset ℤ) (now : TimePoint)
    (labels : ℕ → ReactorsLabel) (n : ℕ) :
    Keeping opts Postpones (stateAt (step opts) (start opts inUse now) labels n) :=
  (kept_postpones opts).keeping inUse now _

/-- What loop `i` keeps up by itself. -/
theorem persists {P : LoopThread → Prop}
    (hP : ∀ label l l', P l → Happens opts i label l l' → P l') (hle : n ≤ m)
    (hi : (stateAt (step opts) (start opts inUse now) labels n).loops[i]? = some l) (h : P l) :
    ∃ l', (stateAt (step opts) (start opts inUse now) labels m).loops[i]? = some l' ∧ P l' := by
  induction m, hle using Nat.le_induction with
  | base => exact ⟨l, hi, h⟩
  | succ m hle ih =>
      obtain ⟨l₁, hi₁, h₁⟩ := ih
      by_cases htaken : Takes (step? opts) (start opts inUse now) labels m
      · have hkeeping := keeping_stateAt opts inUse now labels m
        obtain ⟨l', hi', hhappens⟩ :=
          happens_of_step? hkeeping.inv hkeeping.count hi₁ htaken.step
        exact ⟨l', hi', hP _ l₁ l' h₁ hhappens⟩
      · refine ⟨l₁, ?_, h₁⟩
        rw [step, stateAt_of_not_takes htaken]
        exact hi₁

/-- Event `n` is that loop `i` returns from `epoll_wait`. -/
theorem ready_at {batch : List Reported}
    (htaken : Takes (step? opts) (start opts inUse now) labels n)
    (hlabel : labels n = .thread i (.ready batch))
    (hi : (stateAt (step opts) (start opts inUse now) labels n).loops[i]? = some l) :
    l.phase = .polling ∧ (stateAt (step opts) (start opts inUse now) labels (n + 1)).loops[i]? =
      some { l with phase := .dispatching batch } := by
  have hkeeping := keeping_stateAt opts inUse now labels n
  have hstep := htaken.step
  rw [hlabel] at hstep
  obtain ⟨l', hi', hhappens⟩ := happens_of_step? hkeeping.inv hkeeping.count hi hstep
  obtain ⟨hphase, rfl⟩ := happens_ready hhappens
  exact ⟨hphase, hi'⟩

/-- The main loop does not return from `epoll_wait` any more, and `onAccept` does not run for ever:
then it does not run at all. -/
theorem eventually_not_check
    (hquiet : ∀ᶠ n in atTop, ¬(Takes (step? opts) (start opts inUse now) labels n ∧
      ∃ batch, labels n = .thread 0 (.ready batch)))
    (hreturns : ∃ᶠ n in atTop,
      (stateAt (step opts) (start opts inUse now) labels n).acceptor = .idle) :
    ∀ᶠ n in atTop, ¬(Takes (step? opts) (start opts inUse now) labels n ∧
      ∃ t, labels n = .check t) := by
  have hfalls : ∀ᶠ n in atTop,
      (stateAt (step opts) (start opts inUse now) labels (n + 1)).mainRound ≤
        (stateAt (step opts) (start opts inUse now) labels n).mainRound := by
    refine hquiet.mono fun n hn => ?_
    by_cases htaken : Takes (step? opts) (start opts inUse now) labels n
    · refine mainRound_step? (keeping_stateAt opts inUse now labels n) htaken.step ?_
      exact fun batch hlabel => hn ⟨htaken, batch, hlabel⟩
    · rw [step, stateAt_of_not_takes htaken]
  obtain ⟨c, hc⟩ := eventually_eq_of_le
    (fun n => (stateAt (step opts) (start opts inUse now) labels n).mainRound) hfalls
  obtain ⟨m, hm, hmc⟩ := (hreturns.and_eventually hc).exists
  refine hc.mono ?_
  rintro n hnc ⟨htaken, t, hlabel⟩
  have hcount := (keeping_stateAt opts inUse now labels m).count
  have hcount' := (keeping_stateAt opts inUse now labels n).count
  have hidle := idle_of_mainRound (hmc.trans hnc.symm) hcount hcount' hm
  have hstep := htaken.step
  rw [hlabel] at hstep
  exact Option.some_ne_none _ (hstep.symm.trans (step?_check_of_idle hidle t))

theorem frequently_restarts (hworks : ∃ᶠ n in atTop,
      Takes (step? opts) (start opts inUse now) labels n ∧ (labels n).IsOf i) :
    ∃ᶠ n in atTop,
      Takes (step? opts) (start opts inUse now) labels n ∧ Restarts opts i (labels n) := by
  refine frequently_of_rank (rankOf i) (Keeping opts Postpones) ?_ ?_
    (keeping_stateAt opts inUse now labels) hworks
  · intro s label s' h hstep hown hnot
    exact (rankOf_step? h hstep hnot).2 hown
  · intro s label s' h hstep hnot
    exact (rankOf_step? h hstep hnot).1

theorem frequently_ready (hworks : ∃ᶠ n in atTop,
      Takes (step? opts) (start opts inUse now) labels n ∧ (labels n).IsOf i)
    (hreturns : i = 0 → opts.ioThreads = 0 → ∃ᶠ n in atTop,
      (stateAt (step opts) (start opts inUse now) labels n).acceptor = .idle) :
    ∃ᶠ n in atTop, Takes (step? opts) (start opts inUse now) labels n ∧
      ∃ batch, labels n = .thread i (.ready batch) := by
  have hrestarts := frequently_restarts hworks
  by_cases honly : i = 0 ∧ opts.ioThreads = 0
  · obtain ⟨rfl, hnone⟩ := honly
    by_contra hnot
    have hquiet := eventually_not_check (not_frequently.mp hnot) (hreturns rfl hnone)
    refine hnot ((hrestarts.and_eventually hquiet).mono ?_)
    rintro n ⟨⟨htaken, hready | ⟨-, -, hcheck⟩⟩, hother⟩
    · exact ⟨htaken, hready⟩
    · exact absurd ⟨htaken, hcheck⟩ hother
  · refine hrestarts.mono ?_
    rintro n ⟨htaken, hready | ⟨hi, hnone, -⟩⟩
    · exact ⟨htaken, hready⟩
    · exact absurd ⟨hi, hnone⟩ honly

/-- From the next return of `epoll_wait` on, all that has been given until `n` is on its way, and it
is attached before the one after that. -/
theorem attached_later (hpolls : ∃ᶠ n in atTop, Takes (step? opts) (start opts inUse now) labels n ∧
      ∃ batch, labels n = .thread i (.ready batch))
    (hi : (stateAt (step opts) (start opts inUse now) labels n).loops[i]? = some l) :
    ∃ m l', n ≤ m ∧ (stateAt (step opts) (start opts inUse now) labels m).loops[i]? = some l' ∧
      l.given ≤ l'.reactor.sessions.length := by
  obtain ⟨first, hle, htaken, batch, hlabel⟩ := frequently_atTop.mp hpolls n
  obtain ⟨l₁, hi₁, hgiven⟩ := persists (P := fun l' => l.given ≤ l'.given)
    (fun label l₁ l₂ h hhappens => h.trans (given_happens hhappens)) hle hi (le_refl _)
  obtain ⟨hpolling, hready⟩ := ready_at htaken hlabel hi₁
  have hsame : LoopThread.given { l₁ with phase := .dispatching batch } = l₁.given :=
    given_of_phase rfl (by rw [hpolling]; rfl)
  have hattaching : Attaching l.given { l₁ with phase := .dispatching batch } :=
    attaching_of_stage (hgiven.trans hsame.ge) (show 1 < 4 by decide)
  obtain ⟨last, hlast, htaken', batch', hlabel'⟩ := frequently_atTop.mp hpolls (first + 1)
  obtain ⟨l₂, hi₂, h₂⟩ := persists (fun label l l' h hhappens => attaching_happens h hhappens)
    hlast hready hattaching
  obtain ⟨hpolling', -⟩ := ready_at htaken' hlabel' hi₂
  exact ⟨last, l₂, by omega, hi₂, h₂.polling hpolling'⟩

/-- Loop `i` is never stuck in a round. -/
structure Serves (opts : Options) (s : Reactors) (labels : ℕ → ReactorsLabel) (i : ℕ) : Prop where
  /-- It returns from `epoll_wait` again and again. -/
  polls : ∃ᶠ n in atTop,
    Takes (step? opts) s labels n ∧ ∃ batch, labels n = .thread i (.ready batch)
  /-- As many connections as it has been given until some time are attached later on. -/
  attaches : ∀ n l, (stateAt (step opts) s labels n).loops[i]? = some l →
    ∃ m l', n ≤ m ∧ (stateAt (step opts) s labels m).loops[i]? = some l' ∧
      l.given ≤ l'.reactor.sessions.length

/-- **Every round comes to an end**: a loop whose thread goes on from handler to handler serves its
descriptors, its timers and its tasks in turn, whatever the other threads do. -/
theorem rounds_run (opts : Options) (inUse : Finset ℤ) (now : TimePoint)
    (labels : ℕ → ReactorsLabel) (i : ℕ)
    (hworks : ∃ᶠ n in atTop,
      Takes (step? opts) (start opts inUse now) labels n ∧ (labels n).IsOf i)
    -- `onAccept` does not run for ever on the only loop
    (hreturns : i = 0 → opts.ioThreads = 0 → ∃ᶠ n in atTop,
      (stateAt (step opts) (start opts inUse now) labels n).acceptor = .idle) :
    Serves opts (start opts inUse now) labels i := by
  have hpolls := frequently_ready hworks hreturns
  exact ⟨hpolls, fun n l hi => attached_later hpolls hi⟩

end Run

/-! ## A run -/

/-- The rounds of a loop that has nothing to do, while the clock shows `t`. -/
def idleRounds (i : ℕ) (t : TimePoint) (n : ℕ) : ReactorsLabel :=
  match n % 5 with
  | 0 => .thread i (.ready [])
  | 1 => .thread i (.expire t)
  | 2 => .thread i .expired
  | 3 => .thread i .swap
  | _ => .thread i .poll

/-- A loop that waits at `t`, without tasks and timers that are due. -/
def Resting (t : TimePoint) (l : LoopThread) : Prop :=
  l.phase.stage = 0 ∧ l.todo = [] ∧ l.pending = [] ∧ l.clock = t ∧
    l.reactor.timers.isDue t = false

instance Resting.instDecidable (t : TimePoint) (l : LoopThread) : Decidable (Resting t l) :=
  inferInstanceAs (Decidable (l.phase.stage = 0 ∧ _))

/-- One loop goes on, and the others stay where they are. -/
theorem step_thread (hlt : i < s.loops.length) (hidle : i = 0 → s.acceptor = .idle)
    {l₁ l₂ : LoopThread} {action : ThreadLabel} (htodo : l₁.todo = [])
    (hstep : l₁.step? opts.idleTimeoutS action = some l₂) :
    step opts { s with loops := s.loops.set i l₁ } (.thread i action) =
      { s with loops := s.loops.set i l₂ } := by
  have hfree : l₁.todo.isEmpty = true ∧ (i = 0 → s.acceptor = .idle) :=
    ⟨List.isEmpty_iff.mpr htodo, hidle⟩
  simp only [step, attempt, step?, List.getElem?_set_self hlt, if_pos hfree, hstep,
    Option.map_some, Option.getD_some, List.set_set]

/-- After a round of such a loop nothing has changed. -/
theorem stateAt_idleRounds {t : TimePoint} (hi : s.loops[i]? = some l) (hrests : Resting t l)
    (hidle : i = 0 → s.acceptor = .idle) : stateAt (step opts) s (idleRounds i t) 5 = s := by
  obtain ⟨hstage, htodo, hpending, rfl, hdue⟩ := hrests
  have hphase : l.phase = .polling := by
    cases hphase : l.phase <;> simp_all [Phase.stage]
  obtain ⟨hlt, hget⟩ := List.getElem?_eq_some_iff.mp hi
  have hgoes (l₁ l₂ : LoopThread) (action : ThreadLabel) (htodo : l₁.todo = [])
      (hstep : l₁.step? opts.idleTimeoutS action = some l₂) := step_thread hlt hidle htodo hstep
  have hsame : s = { s with loops := s.loops.set i l } := by
    rw [← hget, List.set_getElem_self]
  have hready := hgoes l { l with phase := .dispatching [] } (.ready []) htodo
    (by simp [LoopThread.step?, hphase, LoopThread.reports])
  have hexpire := hgoes { l with phase := .dispatching [] } { l with phase := .expiring l.clock }
    (.expire l.clock) htodo (by simp [LoopThread.step?])
  have hexpired := hgoes { l with phase := .expiring l.clock } { l with phase := .calling l.clock }
    .expired htodo (by simp [LoopThread.step?, hdue])
  have hswap := hgoes { l with phase := .calling l.clock } { l with phase := .executing [] }
    .swap htodo (by simp [LoopThread.step?, hpending])
  have hpoll := hgoes { l with phase := .executing [] } l .poll htodo
    (by simp [LoopThread.step?, ← hphase])
  rw [stateAt_succ, stateAt_succ, stateAt_succ, stateAt_succ, stateAt_succ, stateAt_zero]
  show step opts (step opts (step opts (step opts (step opts s (.thread i (.ready [])))
    (.thread i (.expire l.clock))) (.thread i .expired)) (.thread i .swap)) (.thread i .poll) = s
  nth_rewrite 1 [hsame]
  rw [hready, hexpire, hexpired, hswap, hpoll, ← hsame]

/-- A sub loop that is given a connection (a task), then a request on it (an event), and then finds
its timer due and arms it again, as the connection has not been idle for so long. -/
def busyRounds : List ReactorsLabel :=
  let text := CString.bytes "GET / HTTP/1.1\r\n\r\n"
  [.thread 0 (.ready [.acceptor]), .onAccept, .accept 5, .loadOpened, .loadClosed, .check 0,
    .acceptFailed,
    .thread 1 (.ready [.wakeup]), .thread 1 .wakeup, .thread 1 (.expire 0), .thread 1 .expired,
    .thread 1 .swap, .thread 1 (.execute 0), .perform 1, .perform 1, .perform 1, .perform 1,
    .thread 1 .poll,
    .thread 1 (.ready [.connection 5 0 false true false]),
    .thread 1 (.dispatch ⟨fun _ _ => {}, fun _ => .wrote 1000⟩
      ⟨[.data text (by decide)], .eagain 30000000000⟩),
    .thread 1 (.expire 30000000000), .thread 1 .expired, .thread 1 .swap, .thread 1 .poll,
    .thread 1 (.ready []), .thread 1 (.expire 60000000000), .thread 1 (.fire 0 60000000000),
    .perform 1, .thread 1 .expired, .thread 1 .swap, .thread 1 .poll]

/-- The law on this run, which goes on with rounds in which nothing happens. -/
theorem rounds_run_sample :
    let opts : Options := { ioThreads := 1 }
    let s := Transition.run (step opts) (start opts ∅ 0) busyRounds
    s.loops.map (fun l => l.reactor.sessions.map fun c => (handled c.trace).length) = [[], [1]] ∧
      s.loops.map (fun l => l.reactor.timers.nextId) = [1, 3] ∧
      Serves opts (start opts ∅ 0) (followedBy busyRounds (idleRounds 1 60000000000)) 1 := by
  intro opts s
  refine ⟨by decide +kernel, by decide +kernel, ?_⟩
  refine rounds_run opts ∅ 0 _ 1 ?_ fun hmain => absurd hmain (by decide)
  have hrests : ∃ l ∈ s.loops[1]?, Resting 60000000000 l := by decide +kernel
  obtain ⟨l, hl, hrests⟩ := hrests
  have hback : stateAt (step opts) s (idleRounds 1 60000000000) 5 = s :=
    stateAt_idleRounds hl hrests fun hmain => absurd hmain (by decide)
  have htaken : Takes (step? opts) s (idleRounds 1 60000000000) 0 := by
    rw [Takes, stateAt_zero]
    decide +kernel
  refine frequently_followedBy busyRounds ?_
  refine frequently_of_cycle 5 (by decide) (fun n => ?_) hback htaken rfl
  simp [idleRounds]

end Reactors

end WsServer
