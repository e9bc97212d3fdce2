import WsServer.Reactors.Invariant

/-!
# One loop of a server

What an action is for one of the loops (`Happens`): a step of its own thread, the next action of its
handler, something that the acceptor does to it, or nothing.  The acceptor takes the event of the
listener from the batch, queues a task, or attaches a connection.

A property of a single loop that survives all of these holds of every loop in every state of a run
(`Kept.run`).
-/

namespace WsServer

/-- The action is of the thread of loop `i`, outside `onAccept`. -/
def ReactorsLabel.IsOf (i : ℕ) : ReactorsLabel → Prop
  | .thread j _ => j = i
  | .perform j => j = i
  | _ => False

namespace Reactors

open Reactor

/-- The data of a loop and what is known when its thread goes on. -/
structure AtWork (opts : Options) (l : LoopThread) : Prop where
  healthy : l.Healthy opts.idleTimeoutS
  todo : l.todo = []
  free : ∀ fd rest, l.phase = .executing (fd :: rest) →
    0 ≤ fd ∧ l.reactor.connections.find? fd = none

theorem AtWork.tabled {opts : Options} {l : LoopThread} (h : AtWork opts l) :
    Tabled opts.idleTimeoutS l.reactor :=
  LoopThread.settled_of_todo_nil h.todo ▸ h.healthy.tabled

/-- What an action is for loop `i`. -/
inductive Happens (opts : Options) (i : ℕ) (label : ReactorsLabel) (l : LoopThread) :
    LoopThread → Prop
  | nothing (hother : ¬label.IsOf i) : Happens opts i label l l
  | goesOn (l' : LoopThread) (action : ThreadLabel) (hlabel : label = .thread i action)
      (hwork : AtWork opts l) (hstep : l.step? opts.idleTimeoutS action = some l') :
      Happens opts i label l l'
  | performs (a : Action) (rest : List Action) (hlabel : label = .perform i)
      (htodo : l.todo = a :: rest) :
      Happens opts i label l { l with reactor := l.reactor.perform a, todo := rest }
  /-- `onAccept` returns. -/
  | returns (rest : List Reported) (hother : ¬label.IsOf i)
      (hphase : l.phase = .dispatching (.acceptor :: rest)) :
      Happens opts i label l { l with phase := .dispatching rest }
  /-- `onAccept` attaches a connection. -/
  | attaches (fd : ℤ) (now : TimePoint) (rest : List Reported) (hlabel : label = .check now)
      (hone : i = 0 ∧ opts.ioThreads = 0) (hphase : l.phase = .dispatching (.acceptor :: rest))
      (hwork : AtWork opts l) (hfd : 0 ≤ fd) (hfree : l.reactor.connections.find? fd = none)
      (hle : l.clock ≤ now) :
      Happens opts i label l (l.handler l.phase now
        (l.reactor.attachConnection opts.idleTimeoutS fd now))
  /-- `onAccept` queues a connection for the loop. -/
  | queues (fd : ℤ) (hother : ¬label.IsOf i) :
      Happens opts i label l { l with pending := l.pending ++ [fd] }

variable {opts : Options} {s s' : Reactors} {l l' : LoopThread} {i : ℕ} {label : ReactorsLabel}

theorem Inv.atWork (h : Inv opts s) (hi : s.loops[i]? = some l) (htodo : l.todo = []) :
    AtWork opts l :=
  ⟨h.healthy l (List.mem_of_getElem? hi), htodo, fun _ _ hphase => h.free hi htodo hphase⟩

/-- The loops of a server are those that it has been started with. -/
theorem length_step? (h : s.step? opts label = some s') : s'.loops.length = s.loops.length := by
  cases step?_cases h with
  | thread i l l' action hi htodo hidle hstep => exact List.length_set
  | perform i l a rest hi htodo => exact List.length_set
  | onAccept main rest hmain hphase hidle => rfl
  | accept main fd hmain htodo hacceptor hfresh hpos => rfl
  | acceptFailed main e rest hmain hphase hacceptor => exact List.length_set
  | load main fd opened closed opened' closed' hmain htodo hacceptor hopened hclosed => rfl
  | refuse fd opened closed hacceptor hfull => rfl
  | attach main fd opened closed now hlabel hmain htodo hacceptor hroom hone hle =>
      exact List.length_set
  | handOver fd opened closed now sub hlabel hacceptor hroom hmany hsub => exact List.length_set

/-- An action that changes loop `j`. -/
theorem happens_set {j : ℕ} {lj lj' : LoopThread} (hi : s.loops[i]? = some l)
    (hj : s.loops[j]? = some lj) (hown : j = i → Happens opts j label lj lj')
    (hother : j ≠ i → ¬label.IsOf i) :
    ∃ l', (s.loops.set j lj')[i]? = some l' ∧ Happens opts i label l l' := by
  by_cases hji : j = i
  · subst hji
    obtain rfl : l = lj := Option.some.inj (hi.symm.trans hj)
    exact ⟨lj', List.getElem?_set_self (List.getElem?_eq_some_iff.mp hi).1, hown rfl⟩
  · refine ⟨l, ?_, .nothing (hother hji)⟩
    rw [List.getElem?_set_ne hji, hi]

theorem Inv.hand_phase (h : Inv opts s) {main : LoopThread} (hmain : s.loops[0]? = some main)
    (hbusy : s.acceptor ≠ .idle) : ∃ rest, main.phase = .dispatching (.acceptor :: rest) := by
  obtain ⟨main', rest, hmain', hphase⟩ := h.accepting hbusy
  obtain rfl : main = main' := Option.some.inj (hmain.symm.trans hmain')
  exact ⟨rest, hphase⟩

theorem happens_letThrough (hinv : Inv opts s) (hcount : s.loops.length = opts.ioThreads + 1)
    {main : LoopThread} {fd : ℤ} {opened closed : ℕ} {now : TimePoint}
    (hmain : s.loops[0]? = some main) (htodo : main.todo = [])
    (hacceptor : s.acceptor = .checking fd (some opened) (some closed)) (hi : s.loops[i]? = some l)
    (h : s.letThrough opts main fd now = some s') :
    ∃ l', s'.loops[i]? = some l' ∧ Happens opts i (.check now) l l' := by
  have hother (j : ℕ) : ¬(ReactorsLabel.check now).IsOf j := id
  unfold letThrough at h
  split at h
  · rename_i hone
    simp only [Option.ite_none_right_eq_some, Option.some.injEq] at h
    obtain ⟨hle, rfl⟩ := h
    obtain ⟨rest, hphase⟩ := hinv.hand_phase hmain (by simp [hacceptor])
    obtain ⟨hfd, hfree⟩ := hinv.hand_free hmain htodo hacceptor
    refine happens_set hi hmain (fun _ => ?_) fun _ => hother i
    exact .attaches fd now rest rfl ⟨rfl, by omega⟩ hphase (hinv.atWork hmain htodo) hfd hfree hle
  · obtain ⟨sub, hsub, rfl⟩ := Option.map_eq_some_iff.mp h
    exact happens_set hi hsub (fun _ => .queues fd (hother _)) fun _ => hother i

/-- The acceptor at work. -/
theorem happens_acceptor (hinv : Inv opts s) (hcount : s.loops.length = opts.ioThreads + 1)
    {main : LoopThread} (hmain : s.loops[0]? = some main) (htodo : main.todo = [])
    (hi : s.loops[i]? = some l) (h : s.acceptorStep? opts main label = some s') :
    ∃ l', s'.loops[i]? = some l' ∧ Happens opts i label l l' := by
  unfold acceptorStep? at h
  split at h
  · split at h
    · obtain rfl := Option.some.inj h
      exact ⟨l, hi, .nothing id⟩
    · cases h
  · split at h
    · simp only [Option.ite_none_right_eq_some, Option.some.injEq] at h
      obtain ⟨-, rfl⟩ := h
      exact ⟨l, hi, .nothing id⟩
    · cases h
  · split at h
    · rename_i e rest hacceptor hphase
      obtain rfl := Option.some.inj h
      obtain ⟨rest', hphase'⟩ := hinv.hand_phase hmain (by simp [hacceptor])
      obtain ⟨rfl, rfl⟩ : e = .acceptor ∧ rest = rest' := by simpa [hphase] using hphase'
      exact happens_set hi hmain (fun _ => .returns rest id hphase) fun _ => id
    · cases h
  · split at h
    · obtain rfl := Option.some.inj h
      exact ⟨l, hi, .nothing id⟩
    · cases h
  · split at h
    · obtain rfl := Option.some.inj h
      exact ⟨l, hi, .nothing id⟩
    · cases h
  · split at h
    · rename_i fd opened closed hacceptor
      split at h
      · obtain rfl := Option.some.inj h
        exact ⟨l, hi, .nothing id⟩
      · exact happens_letThrough hinv hcount hmain htodo hacceptor hi h
    · cases h
  · cases h

theorem happens_of_step? (hinv : Inv opts s) (hcount : s.loops.length = opts.ioThreads + 1)
    (hi : s.loops[i]? = some l) (h : s.step? opts label = some s') :
    ∃ l', s'.loops[i]? = some l' ∧ Happens opts i label l l' := by
  unfold step? at h
  split at h
  · rename_i j action
    split at h
    · rename_i lj hj
      simp only [Option.ite_none_right_eq_some, Option.map_eq_some_iff] at h
      obtain ⟨⟨htodo, -⟩, lj', hstep, rfl⟩ := h
      have hwork := hinv.atWork hj (List.isEmpty_iff.mp htodo)
      exact happens_set hi hj (fun _ => .goesOn lj' action rfl hwork hstep) fun hne => hne
    · cases h
  · rename_i j
    split at h
    · rename_i lj hj
      split at h
      · cases h
      · rename_i a rest htodo
        obtain rfl := Option.some.inj h
        exact happens_set hi hj (fun _ => .performs a rest rfl htodo) fun hne => hne
    · cases h
  · split at h
    · rename_i main hmain
      simp only [Option.ite_none_right_eq_some] at h
      exact happens_acceptor hinv hcount hmain (List.isEmpty_iff.mp h.1) hi h.2
    · cases h

/-! ## Runs -/

/-- A property that is kept by all that happens to a loop. -/
structure Kept (opts : Options) (P : LoopThread → Prop) : Prop where
  start : ∀ listens now, P { listens := listens, clock := now }
  happens : ∀ i label l l', P l → Happens opts i label l l' → P l'

/-- What a run keeps up for the sake of `P`. -/
structure Keeping (opts : Options) (P : LoopThread → Prop) (s : Reactors) : Prop where
  inv : Inv opts s
  count : s.loops.length = opts.ioThreads + 1
  each : ∀ l ∈ s.loops, P l

variable {P : LoopThread → Prop}

theorem Kept.keeping_step? (hP : Kept opts P) (h : Keeping opts P s)
    (hstep : s.step? opts label = some s') : Keeping opts P s' := by
  have hlength := length_step? hstep
  refine ⟨inv_steps h.inv (step?_cases hstep), hlength.trans h.count, fun l' hl' => ?_⟩
  obtain ⟨i, hi'⟩ := List.mem_iff_getElem?.mp hl'
  obtain ⟨hlt, -⟩ := List.getElem?_eq_some_iff.mp hi'
  obtain ⟨l, hi⟩ : ∃ l, s.loops[i]? = some l :=
    ⟨_, List.getElem?_eq_some_iff.mpr ⟨hlength ▸ hlt, rfl⟩⟩
  obtain ⟨l₁, hi₁, hhappens⟩ := happens_of_step? h.inv h.count hi hstep
  obtain rfl : l' = l₁ := Option.some.inj (hi'.symm.trans hi₁)
  exact hP.happens i label l l' (h.each l (List.mem_of_getElem? hi)) hhappens

theorem Kept.keeping (hP : Kept opts P) (inUse : Finset ℤ) (now : TimePoint)
    (labels : List ReactorsLabel) :
    Keeping opts P (Transition.run (Reactors.step opts) (Reactors.start opts inUse now) labels) := by
  have hstart : ∀ l ∈ (Reactors.start opts inUse now).loops, P l := by
    intro l hl
    rcases List.mem_cons.mp hl with rfl | hl
    · exact hP.start true now
    · rw [List.eq_of_mem_replicate hl]
      exact hP.start false now
  refine Transition.run_invariant (fun s label h => ?_)
    ⟨inv_start opts inUse now, by simp [Reactors.start], hstart⟩ labels
  exact Transition.attempt_invariant (fun s label s' h hstep => hP.keeping_step? h hstep) s label h

/-- **All runs.** -/
theorem Kept.run (hP : Kept opts P) (inUse : Finset ℤ) (now : TimePoint)
    (labels : List ReactorsLabel) :
    ∀ l ∈ (Transition.run (Reactors.step opts) (Reactors.start opts inUse now) labels).loops,
      P l :=
  (hP.keeping inUse now labels).each

end Reactors

end WsServer
