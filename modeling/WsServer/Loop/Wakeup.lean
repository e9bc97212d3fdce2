import WsServer.Model.EventLoop

/-!
# No lost wake-up

A functor that is pushed while the loop sleeps, or is about to, must be noticed: the counter of
the eventfd is positive, or the thread that pushed it is still going to write.  `queueInLoop`
skips the write in one case only, on the thread of the loop outside `doPendingFunctors`; then
the loop is in the middle of a round and comes to the swap before it sleeps again.

`Noticed` is therefore an invariant of those points from which the loop may sleep without
another swap (`LoopPc.maySleep`).  The end of `doPendingFunctors` is the delicate one: from the
swap on the functors of the loop's own thread count as well, since `calling_pending_` makes them
write (`wakeup_run`).
-/

namespace WsServer

/-- The loop may come to `epoll_wait` from here without a swap. -/
def LoopPc.maySleep {φ : Type*} : LoopPc φ → Bool
  | .idle => true
  | .testing => true
  | .entering => true
  | .blocked => true
  | .executing _ => true
  | _ => false

/-- Where `calling_pending_` is set. -/
def LoopPc.callsPending {φ : Type*} : LoopPc φ → Bool
  | .calling => true
  | .executing _ => true
  | _ => false

namespace EventLoop

variable {ι φ : Type*} [DecidableEq ι] {s s' : EventLoop ι φ}

/-- The thread stands between its push and its write. -/
def WillWake (s : EventLoop ι φ) (t : ι) : Prop :=
  s.posting t = true ∧ (s.isInLoopThread t = false ∨ s.callingPending = true)

/-- The loop cannot sleep, or will be woken. -/
def Noticed (s : EventLoop ι φ) : Prop := 0 < s.eventfd ∨ ∃ t, WillWake s t

/-- What holds at every point of every thread. -/
structure Attentive (s : EventLoop ι φ) : Prop where
  order : s.executed ++ s.pc.taken ++ s.pending = s.pushed
  calling : s.callingPending = s.pc.callsPending
  returned : s.returned = false → s.pc.runsCode = true
  noticed : s.pc.maySleep = true → s.pending ≠ [] → Noticed s

omit [DecidableEq ι] in
theorem wakeup_pos (s : EventLoop ι φ) : 0 < s.wakeup.eventfd := by
  show 0 < min (s.eventfd + 1) (2 ^ 64 - 2)
  omega

omit [DecidableEq ι] in
theorem returned_eq_false_iff :
    s.returned = false ↔ ∃ t, s.threadId = some t ∧ s.posting t = true := by
  unfold returned
  cases s.threadId with
  | none => simp
  | some t => simp

theorem isInLoopThread_iff {t : ι} : s.isInLoopThread t = true ↔ s.threadId = some t := by
  simp [isInLoopThread]

/-! ## Actions of the loop -/

/-- Moving on between two points with the same view of the threads. -/
theorem Attentive.move (h : Attentive s) (hreturned : s.returned = true) (pc : LoopPc φ)
    (htaken : pc.taken = s.pc.taken) (hcalls : pc.callsPending = s.pc.callsPending)
    (hsleep : pc.maySleep = true → s.pc.maySleep = true) : Attentive { s with pc := pc } := by
  refine ⟨?_, h.calling.trans hcalls.symm, fun hbusy => ?_, fun hpc => h.noticed (hsleep hpc)⟩
  · rw [htaken]
    exact h.order
  · have hsame : s.returned = false := hbusy
    rw [hreturned] at hsame
    simp at hsame

theorem attentive_advance (h : Attentive s) (hreturned : s.returned = true)
    (hstep : Advance s s') : Attentive s' := by
  have hmove := h.move hreturned
  obtain ⟨horder, hcalling, hcode, hnoticed⟩ := h
  have hbusy {s' : EventLoop ι φ} (hsame : s'.returned = s.returned) :
      s'.returned = false → s'.pc.runsCode = true := by
    rw [hsame, hreturned]
    nofun
  cases hstep with
  | exit hpc hquit =>
      rw [hpc] at horder hcalling
      exact ⟨horder, hcalling, hbusy rfl, nofun⟩
  | goOn hpc hquit => exact hmove _ (by rw [hpc]; rfl) (by rw [hpc]; rfl) (by rw [hpc]; exact id)
  | enter hpc => exact hmove _ (by rw [hpc]; rfl) (by rw [hpc]; rfl) (by rw [hpc]; exact id)
  | ready events hpc => exact hmove _ (by rw [hpc]; rfl) (by rw [hpc]; rfl) nofun
  | interrupt hpc => exact hmove _ (by rw [hpc]; rfl) (by rw [hpc]; rfl) (by rw [hpc]; exact id)
  | fail hpc => exact hmove _ (by rw [hpc]; rfl) (by rw [hpc]; rfl) (by rw [hpc]; exact id)
  | handleWakeup rest hpc => exact hmove _ (by rw [hpc]; rfl) (by rw [hpc]; rfl) nofun
  | callback rest hpc => exact hmove _ (by rw [hpc]; rfl) (by rw [hpc]; rfl) nofun
  | expire hpc => exact hmove _ (by rw [hpc]; rfl) (by rw [hpc]; rfl) nofun
  | drain rest hpc =>
      rw [hpc] at horder hcalling
      refine ⟨?_, ?_, hbusy rfl, ?_⟩
      · rw [hpc]
        exact horder
      · rw [hpc]
        exact hcalling
      · -- the queue is swapped out before the loop can sleep
        rw [hpc]
        nofun
  | drained rest hpc hzero => exact hmove _ (by rw [hpc]; rfl) (by rw [hpc]; rfl) nofun
  | expired hpc =>
      rw [hpc] at horder
      exact ⟨horder, rfl, hbusy rfl, nofun⟩
  | swap hpc =>
      rw [hpc] at horder hcalling
      refine ⟨?_, hcalling, hbusy rfl, fun _ hnone => absurd rfl hnone⟩
      simpa [LoopPc.taken] using horder
  | execute f rest hpc =>
      rw [hpc] at horder hcalling hnoticed
      refine ⟨?_, hcalling, hbusy rfl, hnoticed⟩
      simpa [LoopPc.taken] using horder
  | finish hpc =>
      rw [hpc] at horder hnoticed
      refine ⟨horder, rfl, hbusy rfl, fun _ hpending => ?_⟩
      -- no functor is running, so the thread that will wake the loop is another one
      rcases hnoticed rfl hpending with hcounter | ⟨t, hposting, -⟩
      · exact .inl hcounter
      · refine .inr ⟨t, hposting, .inl ?_⟩
        by_contra hthread
        rw [Bool.not_eq_false] at hthread
        have hfalse : s.returned = false :=
          returned_eq_false_iff.mpr ⟨t, isInLoopThread_iff.mp hthread, hposting⟩
        rw [hreturned] at hfalse
        simp at hfalse

/-! ## Actions of the threads -/

theorem WillWake.congr {t : ι} (h : WillWake s t) (hposting : s'.posting t = s.posting t)
    (hthread : s'.threadId = s.threadId) (hcalling : s'.callingPending = s.callingPending) :
    WillWake s' t := by
  unfold WillWake isInLoopThread at *
  rw [hposting, hthread, hcalling]
  exact h

theorem attentive_push (h : Attentive s) {t : ι} (hcall : s.mayCall t = true) (f : φ) :
    Attentive (s.push t f) := by
  simp only [mayCall, Bool.and_eq_true, Bool.not_eq_true', Bool.or_eq_true] at hcall
  obtain ⟨hidle, hwhere⟩ := hcall
  refine ⟨?_, h.calling, fun hbusy => ?_, fun hsleep _ => .inr ⟨t, ?_, ?_⟩⟩
  · show s.executed ++ s.pc.taken ++ (s.pending ++ [f]) = s.pushed ++ [f]
    rw [← List.append_assoc, h.order]
  · obtain ⟨t', hthread, hposting⟩ := returned_eq_false_iff.mp hbusy
    by_cases hsame : t' = t
    · subst hsame
      exact hwhere.resolve_left (ne_true_of_eq_false · (isInLoopThread_iff.mpr hthread))
    · have hbefore : s.posting t' = true := by
        simpa [push, Function.update_of_ne hsame] using hposting
      exact h.returned (returned_eq_false_iff.mpr ⟨t', hthread, hbefore⟩)
  · exact Function.update_self t true s.posting
  · -- on the thread of the loop, a functor is being executed
    rcases hwhere with hother | hcode
    · exact .inl hother
    · refine .inr (h.calling.trans ?_)
      have hsleep' : s.pc.maySleep = true := hsleep
      revert hcode hsleep'
      cases s.pc with
      | executing functors => exact fun _ _ => rfl
      | _ => simp [LoopPc.runsCode, LoopPc.maySleep]

theorem posting_of_update {t t' : ι}
    (h : Function.update s.posting t false t' = true) : t' ≠ t ∧ s.posting t' = true := by
  by_cases hsame : t' = t
  · subst hsame
    simp at h
  · rw [Function.update_of_ne hsame] at h
    exact ⟨hsame, h⟩

theorem attentive_queued (h : Attentive s) (t : ι) :
    Attentive { s.wakeup with posting := Function.update s.posting t false } := by
  refine ⟨h.order, h.calling, fun hbusy => ?_, fun _ _ => .inl (wakeup_pos s)⟩
  obtain ⟨t', hthread, hposting⟩ := returned_eq_false_iff.mp hbusy
  have hbefore := (posting_of_update hposting).2
  exact h.returned (returned_eq_false_iff.mpr ⟨t', hthread, hbefore⟩)

theorem attentive_unwoken (h : Attentive s) {t : ι} (hposting : s.posting t = true)
    (hthread : s.isInLoopThread t = true) (hquiet : s.callingPending = false) :
    Attentive { s with posting := Function.update s.posting t false } := by
  obtain ⟨horder, hcalling, hcode, -⟩ := h
  have hbusy : s.returned = false :=
    returned_eq_false_iff.mpr ⟨t, isInLoopThread_iff.mp hthread, hposting⟩
  have hruns := hcode hbusy
  -- other code runs on the thread, and outside `doPendingFunctors`
  have hawake : s.pc.maySleep = false := by
    rw [hquiet] at hcalling
    revert hruns hcalling
    cases s.pc with
    | executing functors => simp [LoopPc.callsPending]
    | _ => simp [LoopPc.runsCode, LoopPc.maySleep]
  exact ⟨horder, hcalling, fun _ => hruns, fun hsleep => absurd hsleep (by simp [hawake])⟩

/-- An action that leaves the queue and the place of the threads in it alone. -/
theorem Attentive.congr (h : Attentive s) (hpc : s'.pc = s.pc)
    (hthread : s'.threadId = s.threadId) (hcalling : s'.callingPending = s.callingPending)
    (hpending : s'.pending = s.pending) (hposting : s'.posting = s.posting)
    (hpushed : s'.pushed = s.pushed) (hexecuted : s'.executed = s.executed)
    (hcounter : 0 < s.eventfd → 0 < s'.eventfd) : Attentive s' := by
  obtain ⟨horder, hcalls, hcode, hnoticed⟩ := h
  refine ⟨?_, ?_, fun hbusy => ?_, fun hsleep hsome => ?_⟩
  · rw [hpc, hpending, hpushed, hexecuted]
    exact horder
  · rw [hpc, hcalling]
    exact hcalls
  · have hsame : s'.returned = s.returned := by
      unfold EventLoop.returned
      rw [hthread, hposting]
    rw [hpc]
    exact hcode (hsame.symm.trans hbusy)
  · rw [hpc] at hsleep
    rw [hpending] at hsome
    rcases hnoticed hsleep hsome with hpositive | ⟨t, ht⟩
    · exact .inl (hcounter hpositive)
    · exact .inr ⟨t, ht.congr (congrFun hposting t) hthread hcalling⟩

theorem attentive_loop (h : Attentive s) {t : ι} (hpc : s.pc = .idle)
    (hidle : s.posting t = false) :
    Attentive { s with pc := .testing, threadId := some t, looping := true } := by
  obtain ⟨horder, hcalling, -, hnoticed⟩ := h
  rw [hpc] at horder hcalling hnoticed
  refine ⟨horder, hcalling, fun hbusy => ?_, fun _ hpending => ?_⟩
  · obtain ⟨t', hthread, hposting⟩ := returned_eq_false_iff.mp hbusy
    obtain rfl : t = t' := Option.some.inj hthread
    exact absurd hposting (ne_true_of_eq_false hidle)
  · rcases hnoticed rfl hpending with hpositive | ⟨t', hposting, -⟩
    · exact .inl hpositive
    · -- a thread behind its push is not the one that becomes the loop's
      have hother : t ≠ t' := by
        intro hsame
        rw [← hsame, hidle] at hposting
        simp at hposting
      exact .inr ⟨t', hposting, .inl (by simpa [isInLoopThread] using hother)⟩

theorem attentive_acts (h : Attentive s) {label : LoopLabel ι φ} (hstep : Acts s label s') :
    Attentive s' := by
  cases hstep with
  | loop t hpc hidle => exact attentive_loop h hpc hidle
  | push t f hcall => exact attentive_push h hcall f
  | inline t f => exact h.congr rfl rfl rfl rfl rfl rfl rfl id
  | queued t hposting => exact attentive_queued h t
  | unwoken t hposting hthread hcalling => exact attentive_unwoken h hposting hthread hcalling
  | quitInLoop t hlabel hthread => exact h.congr rfl rfl rfl rfl rfl rfl rfl id
  | quit t => exact h.congr rfl rfl rfl rfl rfl rfl rfl id
  | quitDone t hcall => exact h.congr rfl rfl rfl rfl rfl rfl rfl fun _ => wakeup_pos s
  | advance s' hreturned hadvance => exact attentive_advance h hreturned hadvance

theorem attentive_run (labels : List (LoopLabel ι φ)) :
    Attentive (Transition.run step ({} : EventLoop ι φ) labels) := by
  refine Transition.run_invariant (fun s label h => ?_) ⟨rfl, rfl, nofun, fun _ => by simp⟩ labels
  exact Transition.attempt_invariant (fun _ _ _ h hstep => attentive_acts h (step?_cases hstep)) s label h

/-- Whatever the threads do: the functors executed, those swapped out and those queued are the
functors pushed, in this order; and while the loop is at `epoll_wait` with functors queued, the
eventfd is readable, or a thread that is not the loop's stands between its push and its write. -/
theorem wakeup_run (labels : List (LoopLabel ι φ)) :
    let s := Transition.run step ({} : EventLoop ι φ) labels
    s.executed ++ s.pc.taken ++ s.pending = s.pushed ∧
      (s.pc = .entering ∨ s.pc = .blocked → s.pending ≠ [] →
        0 < s.eventfd ∨ ∃ t, s.posting t = true ∧ s.isInLoopThread t = false) := by
  intro s
  have h : Attentive s := attentive_run labels
  refine ⟨h.order, fun hpc hpending => ?_⟩
  have hsleep : s.pc.maySleep = true := by
    rcases hpc with hpc | hpc
    all_goals rw [hpc]; rfl
  have hquiet : s.callingPending = false := by
    rcases hpc with hpc | hpc
    all_goals rw [h.calling, hpc]; rfl
  rcases h.noticed hsleep hpending with hpositive | ⟨t, hposting, hwake⟩
  · exact .inl hpositive
  · refine .inr ⟨t, hposting, hwake.resolve_right fun hcalling => ?_⟩
    rw [hquiet] at hcalling
    simp at hcalling

end EventLoop

end WsServer
