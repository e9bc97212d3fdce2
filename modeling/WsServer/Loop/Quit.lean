import WsServer.Loop.Wakeup

/-!
# When `quit` is slept through

`quit` stores `quit_` and writes to the eventfd, except on the thread of the loop.  There it
relies on the loop reading `quit_` before the next `epoll_wait`, which holds for the callbacks and
functors of the loop but not for a signal handler: it may run between that reading and
`epoll_wait`, or in `epoll_wait`, which `Epoller::wait` then calls again.

`Safe` excludes exactly that, and nothing else (`quit_run_iff`).
-/

namespace WsServer.EventLoop

variable {ι φ : Type*} [DecidableEq ι] {s s' : EventLoop ι φ}

/-- After a call of `quit` has returned, the loop does not block in `epoll_wait`. -/
def Awake (s : EventLoop ι φ) : Prop :=
  s.quitReturned = true → s.pc = .blocked → 0 < s.eventfd

/-- `quit` runs in a signal handler between the reading of `quit_` and the return of `epoll_wait`
only while the eventfd is readable. -/
def Safe (s : EventLoop ι φ) : LoopLabel ι φ → Prop
  | .quit t =>
    s.isInLoopThread t = true → s.pc = .entering ∨ s.pc = .blocked → 0 < s.eventfd
  | _ => True

/-- `Awake`, also when the loop goes on to `epoll_wait` at once. -/
def StaysAwake (s : EventLoop ι φ) : Prop :=
  s.quitReturned = true → s.pc = .entering ∨ s.pc = .blocked → 0 < s.eventfd

/-- Who has returned from `quit`, or is going to write, has stored `quit_`. -/
structure Quitting (s : EventLoop ι φ) : Prop where
  stored : s.quitReturned = true → s.quit = true
  writing : ∀ t, 0 < s.quitting t → s.quit = true

/-! ## `quit_` is never reset -/

omit [DecidableEq ι] in
theorem Quitting.congr (h : Quitting s) (hreturned : s'.quitReturned = s.quitReturned)
    (hwriting : s'.quitting = s.quitting) (hquit : s'.quit = s.quit) : Quitting s' := by
  refine ⟨fun hdone => ?_, fun t ht => ?_⟩
  · rw [hquit]
    exact h.stored (hreturned ▸ hdone)
  · rw [hquit]
    exact h.writing t (hwriting ▸ ht)

omit [DecidableEq ι] in
/-- The thread of the loop touches neither the flag nor the callers of `quit`. -/
theorem Advance.quit_eq (h : Advance s s') :
    s'.quitReturned = s.quitReturned ∧ s'.quitting = s.quitting ∧ s'.quit = s.quit := by
  cases h with
  | _ => exact ⟨rfl, rfl, rfl⟩

theorem quitting_acts (h : Quitting s) {label : LoopLabel ι φ} (hstep : Acts s label s') :
    Quitting s' := by
  cases hstep with
  | quitInLoop t hlabel hthread => exact ⟨fun _ => rfl, fun _ _ => rfl⟩
  | quit t => exact ⟨fun _ => rfl, fun _ _ => rfl⟩
  | quitDone t hcall =>
      have hquit : s.quit = true := h.writing t hcall
      exact ⟨fun _ => hquit, fun _ _ => hquit⟩
  | advance s' hreturned hadvance =>
      obtain ⟨hdone, hwriting, hquit⟩ := hadvance.quit_eq
      exact h.congr hdone hwriting hquit
  | _ => exact h.congr rfl rfl rfl

/-! ## Sleeping -/

/-- Before `epoll_wait` the thread of the loop runs no other code, so it can go on. -/
theorem step_enter (h : Attentive s) (hpc : s.pc = .entering) :
    s.step .enter = { s with pc := .blocked } := by
  have hreturned : s.returned = true := by
    by_contra hbusy
    have hcode := h.returned (Bool.not_eq_true _ ▸ hbusy)
    rw [hpc] at hcode
    simp [LoopPc.runsCode] at hcode
  simp [step, Transition.attempt, step?, hreturned, advance, hpc]

theorem step_enter_of_ne (hpc : s.pc ≠ .entering) : s.step .enter = s := by
  unfold step Transition.attempt step? advance
  cases hs : s.pc with
  | entering => exact absurd hs hpc
  | _ => simp

theorem staysAwake_iff (h : Attentive s) :
    StaysAwake s ↔ Awake s ∧ Awake (s.step .enter) := by
  by_cases hpc : s.pc = .entering
  · rw [step_enter h hpc]
    constructor
    · intro hstays
      exact ⟨fun hquit _ => hstays hquit (.inl hpc), fun hquit _ => hstays hquit (.inl hpc)⟩
    · rintro ⟨-, hnext⟩ hquit -
      exact hnext hquit rfl
  · rw [step_enter_of_ne hpc, and_self]
    constructor
    · intro hstays hquit hblocked
      exact hstays hquit (.inr hblocked)
    · intro hawake hquit hsleep
      exact hawake hquit (hsleep.resolve_left hpc)

omit [DecidableEq ι] in
theorem StaysAwake.congr (h : StaysAwake s) (hreturned : s'.quitReturned = s.quitReturned)
    (hpc : s'.pc = s.pc) (hcounter : 0 < s.eventfd → 0 < s'.eventfd) : StaysAwake s' := by
  intro hquit hsleep
  rw [hreturned] at hquit
  rw [hpc] at hsleep
  exact hcounter (h hquit hsleep)

omit [DecidableEq ι] in
theorem staysAwake_advance (h : StaysAwake s) (hquitting : Quitting s)
    (hstep : Advance s s') : StaysAwake s' := by
  intro hquit hsleep
  cases hstep with
  | goOn hpc hrunning =>
      -- `quit_` was read, so no call of `quit` has returned
      have hstored : s.quit = true := hquitting.stored hquit
      rw [hrunning] at hstored
      simp at hstored
  | enter hpc => exact h hquit (.inl hpc)
  | interrupt hpc => exact h hquit (.inr hpc)
  | drain rest hpc =>
      rw [hpc] at hsleep
      simp at hsleep
  | _ => simp at hsleep

/-- Only `quit` on the thread of the loop can end it. -/
theorem staysAwake_acts (h : StaysAwake s) (hquitting : Quitting s) {label : LoopLabel ι φ}
    (hstep : Acts s label s') (hsafe : Safe s label) : StaysAwake s' := by
  cases hstep with
  | loop t hpc hidle =>
      intro _ hsleep
      simp at hsleep
  | queued t hposting => exact fun _ _ => wakeup_pos s
  | quitInLoop t hlabel hthread =>
      subst hlabel
      exact fun _ hsleep => hsafe hthread hsleep
  | quitDone t hcall => exact fun _ _ => wakeup_pos s
  | advance s' hreturned hadvance => exact staysAwake_advance h hquitting hadvance
  | _ => exact h.congr rfl rfl id

theorem safe_of_staysAwake {label : LoopLabel ι φ} (h : StaysAwake (s.step label)) :
    Safe s label := by
  cases label with
  | quit t =>
      intro hthread hsleep
      have hstep : s.step (.quit t) = { s with quit := true, quitReturned := true } := by
        simp [step, Transition.attempt, step?, hthread]
      rw [hstep] at h
      exact h rfl hsleep
  | _ => trivial

/-! ## Runs -/

/-- The loop sleeps through `quit` neither in any state of a run nor by going on to `epoll_wait`
from there, exactly when no signal handler on its thread calls `quit` between the reading of
`quit_` and the return of `epoll_wait` while the eventfd is not readable. -/
theorem quit_run_iff (labels : List (LoopLabel ι φ)) :
    (∀ front, front <+: labels →
      let s := Transition.run step ({} : EventLoop ι φ) front
      Awake s ∧ Awake (s.step .enter)) ↔
    Transition.AllSteps step Safe ({} : EventLoop ι φ) labels := by
  have hstart : Quitting ({} : EventLoop ι φ) := ⟨nofun, nofun⟩
  have hkeep : ∀ (s : EventLoop ι φ) label, Quitting s → Quitting (s.step label) :=
    Transition.attempt_invariant fun _ _ _ h hstep => quitting_acts h (step?_cases hstep)
  rw [← Transition.prefixes_good_iff StaysAwake hkeep ?_ hstart nofun]
  · refine forall_congr' fun front => imp_congr_right fun _ => ?_
    exact (staysAwake_iff (attentive_run front)).symm
  · intro s label hquitting hawake
    refine ⟨safe_of_staysAwake, fun hsafe => ?_⟩
    unfold step Transition.attempt
    cases hnext : s.step? label with
    | none => exact hawake
    | some s' => exact staysAwake_acts hawake hquitting (step?_cases hnext) hsafe

/-- A signal arrives in `epoll_wait`: the handler calls `quit`, and `epoll_wait` is called
again. -/
theorem quit_slept_through :
    ¬Awake (Transition.run step ({} : EventLoop Unit Unit)
      [.loop (), .test, .enter, .quit (), .interrupt, .enter]) := by
  intro hawake
  have hcounter := hawake rfl rfl
  exact absurd hcounter (Nat.not_lt_zero 0)

end WsServer.EventLoop
