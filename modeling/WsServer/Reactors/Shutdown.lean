import WsServer.Model.Shutdown
import WsServer.Reactors.Accounting
import WsServer.Reactors.Ownership

/-!
# What a server leaves behind

A connection that is still in a table when its loop is destroyed is closed by `~Connection`.  A
descriptor that is handed over to a sub loop is in a queue before it has a connection, and a queue
is not run any more when its loop has left; the task is destroyed with the loop, and its descriptor
is only a number in it.  So what a server leaves open are exactly the descriptors of the tasks that
were queued when their loops ended (`shutdown_run`).  Until then nothing is lost and nothing closed
twice, whatever the threads do and whenever `stop` is called.
-/

namespace WsServer

open Ledger

namespace Reactor

variable {idleTimeoutS : ℤ} {r : Reactor}

/-- `~Connection` closes what is open. -/
theorem mem_destroyedFds (h : Tabled idleTimeoutS r) {fd : ℤ} :
    fd ∈ r.destroyedFds ↔ fd ∈ r.openFds := by
  rw [mem_openFds h, destroyedFds, List.mem_filterMap, Option.isSome_iff_exists]
  constructor
  · rintro ⟨⟨key, c⟩, hentry, hfd⟩
    have hfind : r.connections.find? key = some c := r.connections.find?_eq_some_iff.mpr hentry
    obtain ⟨s, hopen, rfl⟩ := (h.find key c).mp hfind
    have hpos := ((h.whole s (List.mem_of_getElem? hopen.1)).opened hopen.2).1
    simp only [hopen.1, Option.bind_some, if_pos hpos, Option.some.injEq] at hfd
    exact ⟨c, hfd ▸ hfind⟩
  · rintro ⟨c, hfind⟩
    obtain ⟨s, hopen, rfl⟩ := (h.find fd c).mp hfind
    have hpos := ((h.whole s (List.mem_of_getElem? hopen.1)).opened hopen.2).1
    refine ⟨(s.conn.fd, c), r.connections.find?_eq_some_iff.mp hfind, ?_⟩
    simp only [hopen.1, Option.bind_some, if_pos hpos]

end Reactor

namespace Reactors

variable {opts : Options} {s s' : Reactors}

theorem handOver_others {i j : ℕ} {l : LoopThread} {sub : LoopThread} (fd : ℤ)
    (hsub : s.loops[i]? = some sub) (hl : s.loops[j]? = some l) :
    ∃ l', (s.loops.set i { sub with pending := sub.pending ++ [fd] })[j]? = some l' ∧
      l'.phase = l.phase ∧ l'.todo = l.todo := by
  by_cases hij : i = j
  · subst hij
    obtain rfl : sub = l := Option.some.inj (hsub.symm.trans hl)
    exact ⟨_, List.getElem?_set_self (List.getElem?_eq_some_iff.mp hl).1, rfl, rfl⟩
  · exact ⟨l, by rw [List.getElem?_set_ne hij]; exact hl, rfl, rfl⟩

/-- What `onAccept` does to the loops. -/
theorem acceptorStep?_loops {main : LoopThread} {label : ReactorsLabel}
    (h : s.acceptorStep? opts main label = some s') :
    s'.loops = s.loops ∨ (∃ l', s'.loops = s.loops.set 0 l') ∨
      ∃ i sub fd, s.loops[i]? = some sub ∧
        s'.loops = s.loops.set i { sub with pending := sub.pending ++ [fd] } := by
  unfold acceptorStep? at h
  split at h
  · split at h
    · exact .inl (Option.some.inj h ▸ rfl)
    · cases h
  · split at h
    · simp only [Option.ite_none_right_eq_some, Option.some.injEq] at h
      exact .inl (h.2 ▸ rfl)
    · cases h
  · split at h
    · obtain rfl := Option.some.inj h
      exact .inr (.inl ⟨_, rfl⟩)
    · cases h
  · split at h
    · exact .inl (Option.some.inj h ▸ rfl)
    · cases h
  · split at h
    · exact .inl (Option.some.inj h ▸ rfl)
    · cases h
  · split at h
    · split at h
      · exact .inl (Option.some.inj h ▸ rfl)
      · unfold letThrough at h
        split at h
        · simp only [Option.ite_none_right_eq_some, Option.some.injEq] at h
          obtain ⟨-, rfl⟩ := h
          exact .inr (.inl ⟨_, rfl⟩)
        · obtain ⟨sub, hsub, rfl⟩ := Option.map_eq_some_iff.mp h
          exact .inr (.inr ⟨_, sub, _, hsub, rfl⟩)
    · cases h
  · cases h

/-- An action leaves the other loops where they are; they may get a task. -/
theorem step?_others {label : ReactorsLabel} (h : s.step? opts label = some s') {j : ℕ}
    (hj : label.loop ≠ j) {l : LoopThread} (hl : s.loops[j]? = some l) :
    ∃ l', s'.loops[j]? = some l' ∧ l'.phase = l.phase ∧ l'.todo = l.todo := by
  have hset {i : ℕ} {other : LoopThread} (hi : i ≠ j) :
      ∃ l', (s.loops.set i other)[j]? = some l' ∧ l'.phase = l.phase ∧ l'.todo = l.todo :=
    ⟨l, by rw [List.getElem?_set_ne hi]; exact hl, rfl, rfl⟩
  unfold step? at h
  split at h
  · split at h
    · simp only [Option.ite_none_right_eq_some, Option.map_eq_some_iff] at h
      obtain ⟨-, l', -, rfl⟩ := h
      exact hset hj
    · cases h
  · split at h
    · split at h
      · cases h
      · rename_i a rest htodo
        obtain rfl := Option.some.inj h
        exact hset hj
    · cases h
  · rename_i hthread hperform
    have hzero : (0 : ℕ) ≠ j := by
      cases label with
      | thread i label => exact absurd rfl (hthread i label)
      | perform i => exact absurd rfl (hperform i)
      | _ => exact hj
    split at h
    · simp only [Option.ite_none_right_eq_some] at h
      rcases acceptorStep?_loops h.2 with hsame | ⟨main', hmain⟩ | ⟨i, sub, fd, hsub, hover⟩
      · exact ⟨l, hsame ▸ hl, rfl, rfl⟩
      · rw [hmain]
        exact hset hzero
      · rw [hover]
        exact handOver_others fd hsub hl
    · cases h

end Reactors

namespace ServerLife

open Reactors Reactor

variable {opts : Reactors.Options} {others : Finset ℤ} {own : OwnFds others} {s s' : ServerLife}

/-- What the process has besides connections, while the server is serving. -/
def besides (own : OwnFds others) : Finset ℤ := insert own.listenFd (own.loopFds ∪ others)

/-- All loops have returned. -/
def AllAtTest (s : Reactors) : Prop := ∀ l ∈ s.loops, l.phase = .polling ∧ l.todo = []

/-- What a destroyed server has left open. -/
structure Leaves (others : Finset ℤ) (s : Reactors) : Prop where
  inUse : ∀ fd, fd ∈ s.inUse ↔ fd ∈ others ∨ ∃ l ∈ s.loops, fd ∈ l.pending
  fresh : ∀ l ∈ s.loops, ∀ fd ∈ l.pending, fd ∉ others

/-- What holds in every state of the life of a server. -/
structure Inv (opts : Reactors.Options) (own : OwnFds others) (s : ServerLife) : Prop where
  serving : s.stage = .serving → Reactors.Inv opts s.reactors ∧
    Reactors.Owned (besides own) s.reactors
  left : ∀ i ∈ s.left, ∃ l, s.reactors.loops[i]? = some l ∧ l.phase = .polling ∧ l.todo = []
  stopped : s.stage = .stopped → Reactors.Inv opts s.reactors ∧
    Reactors.Owned (own.loopFds ∪ others) s.reactors ∧ AllAtTest s.reactors
  destroyed : s.stage = .destroyed → Leaves others s.reactors

theorem inv_start (opts : Reactors.Options) (own : OwnFds others) (now : TimePoint) :
    Inv opts own (start opts own now) :=
  ⟨fun _ => ⟨Reactors.inv_start opts _ now, owned_start opts _ now⟩, by simp [start], nofun, nofun⟩

/-- Behind the last round nothing is held but what is queued and what is open. -/
theorem held_of_atTest {s : Reactors} (h : Reactors.Inv opts s) (hrest : AllAtTest s) :
    s.held = total (fun l => (l.pending : Multiset ℤ)) s.loops +
      total (fun l => l.reactor.openFds) s.loops := by
  have hidle : s.acceptor = .idle := by
    by_contra hne
    obtain ⟨main, rest, hmain, hphase⟩ := h.accepting hne
    rw [(hrest main (List.mem_of_getElem? hmain)).1] at hphase
    cases hphase
  rw [held, hidle, ← total_add]
  refine (zero_add _).trans (total_congr fun l hl => ?_)
  obtain ⟨hphase, htodo⟩ := hrest l hl
  rw [LoopThread.owned, hphase, htodo]
  simp [Phase.tasks]

theorem inv_reactors (h : Inv opts own s) {label : ReactorsLabel} {reactors : Reactors}
    (hserving : s.stage = .serving) (hleft : label.loop ∉ s.left)
    (hstep : s.reactors.step? opts label = some reactors) :
    Inv opts own { s with reactors := reactors } := by
  obtain ⟨hinv, howned⟩ := h.serving hserving
  have hsteps := step?_cases hstep
  have hnot : ∀ stage, stage ≠ .serving → s.stage ≠ stage := fun stage hne heq =>
    hne (heq.symm.trans hserving)
  refine ⟨fun _ => ⟨inv_steps hinv hsteps, howned.moves hinv.nodup (moves_steps hinv hsteps)⟩, ?_,
    fun hstage => absurd hstage (hnot _ nofun), fun hstage => absurd hstage (hnot _ nofun)⟩
  intro i hi
  obtain ⟨l, hl, hphase, htodo⟩ := h.left i hi
  have hne : label.loop ≠ i := fun heq => hleft (heq ▸ hi)
  obtain ⟨l', hl', hphase', htodo'⟩ := step?_others hstep hne hl
  exact ⟨l', hl', hphase'.trans hphase, htodo'.trans htodo⟩

theorem inv_leave (h : Inv opts own s) {i : ℕ} {l : LoopThread}
    (hl : s.reactors.loops[i]? = some l) (hphase : l.phase = .polling) (htodo : l.todo = []) :
    Inv opts own { s with left := insert i s.left } := by
  refine ⟨h.serving, fun j hj => ?_, h.stopped, h.destroyed⟩
  rcases Finset.mem_insert.mp hj with rfl | hj
  · exact ⟨l, hl, hphase, htodo⟩
  · exact h.left j hj

theorem inv_finish (h : Inv opts own s) (hserving : s.stage = .serving)
    (hall : ∀ i < s.reactors.loops.length, i ∈ s.left) :
    Inv opts own { s with
      reactors := { s.reactors with inUse := s.reactors.inUse.erase own.listenFd }
      stage := .stopped } := by
  obtain ⟨hinv, howned⟩ := h.serving hserving
  have hrest : AllAtTest s.reactors := by
    intro l hl
    obtain ⟨i, hi⟩ := List.mem_iff_getElem?.mp hl
    obtain ⟨l', hl', hquiet⟩ := h.left i (hall i (List.getElem?_eq_some_iff.mp hi).1)
    obtain rfl : l = l' := Option.some.inj (hi.symm.trans hl')
    exact hquiet
  have hlisten : own.listenFd ∉ s.reactors.held := fun hmem =>
    howned.fresh _ hmem (Finset.mem_insert_self _ _)
  refine ⟨nofun, h.left, fun _ => ⟨?_, ⟨fun fd => ?_, fun fd hmem => ?_⟩, hrest⟩, nofun⟩
  · refine ⟨hinv.healthy, hinv.nodup, fun fd hmem => ?_, hinv.opened, hinv.closed, hinv.accepting⟩
    obtain ⟨huse, hpos⟩ := hinv.inUse fd hmem
    exact ⟨Finset.mem_erase.mpr ⟨fun heq => hlisten (heq ▸ hmem), huse⟩, hpos⟩
  · show fd ∈ s.reactors.inUse.erase own.listenFd ↔ _ ∨ fd ∈ s.reactors.held
    rw [Finset.mem_erase, howned.inUse, besides, Finset.mem_insert]
    constructor
    · tauto
    · intro hmem
      have hne : fd ≠ own.listenFd := by
        rintro rfl
        rcases hmem with hmem | hmem
        · exact (Finset.mem_union.mp hmem).elim own.listenFd_ne own.listenFd_fresh
        · exact hlisten hmem
      tauto
  · exact fun hbesides => howned.fresh fd hmem (Finset.mem_insert_of_mem hbesides)

theorem inv_destroy (h : Inv opts own s) (hstopped : s.stage = .stopped) :
    Inv opts own { s with
      reactors := { s.reactors with
        inUse := (s.reactors.inUse \ s.destroyedFds.toFinset) \ own.loopFds }
      stage := .destroyed } := by
  obtain ⟨hinv, howned, hrest⟩ := h.stopped hstopped
  have hopen {fd : ℤ} : fd ∈ s.destroyedFds ↔
      fd ∈ total (fun l => l.reactor.openFds) s.reactors.loops := by
    rw [destroyedFds, List.mem_flatMap, mem_total]
    refine exists_congr fun l => and_congr_right fun hl => ?_
    exact mem_destroyedFds (hinv.tabled hl (hrest l hl).2)
  have hqueued {fd : ℤ} : fd ∈ total (fun l => (l.pending : Multiset ℤ)) s.reactors.loops ↔
      ∃ l ∈ s.reactors.loops, fd ∈ l.pending := mem_total
  have hheld := held_of_atTest hinv hrest
  have hnodup := hinv.nodup
  rw [hheld] at hnodup
  have hdisjoint {fd : ℤ} : fd ∈ total (fun l => (l.pending : Multiset ℤ)) s.reactors.loops →
      fd ∉ total (fun l => l.reactor.openFds) s.reactors.loops :=
    Multiset.disjoint_left.mp (Multiset.nodup_add.mp hnodup).2.2
  have hfresh {fd : ℤ} (hmem : ∃ l ∈ s.reactors.loops, fd ∈ l.pending) :
      fd ∉ own.loopFds ∪ others :=
    howned.fresh fd (hheld ▸ Multiset.mem_add.mpr (.inl (hqueued.mpr hmem)))
  refine ⟨nofun, h.left, nofun, fun _ => ⟨fun fd => ?_, fun l hl fd hmem hothers => ?_⟩⟩
  · show fd ∈ (s.reactors.inUse \ s.destroyedFds.toFinset) \ own.loopFds ↔
      fd ∈ others ∨ ∃ l ∈ s.reactors.loops, fd ∈ l.pending
    rw [Finset.mem_sdiff, Finset.mem_sdiff, List.mem_toFinset, howned.inUse, hheld,
      Multiset.mem_add, hopen, Finset.mem_union, hqueued]
    constructor
    · tauto
    · rintro (hmem | hmem)
      · have hnot : fd ∉ own.loopFds := Finset.disjoint_right.mp own.loopFds_fresh hmem
        have hclosed : fd ∉ total (fun l => l.reactor.openFds) s.reactors.loops := fun hmine =>
          howned.fresh fd (hheld ▸ Multiset.mem_add.mpr (.inr hmine))
            (Finset.mem_union_right _ hmem)
        tauto
      · have hnot := hfresh hmem
        rw [Finset.mem_union] at hnot
        have hclosed := hdisjoint (hqueued.mpr hmem)
        exact ⟨⟨.inr (.inl hmem), hclosed⟩, fun hown => hnot (.inl hown)⟩
  · exact hfresh ⟨l, hl, hmem⟩ (Finset.mem_union_right _ hothers)

theorem inv_step? (h : Inv opts own s) {label : LifeLabel}
    (hstep : s.step? opts own label = some s') : Inv opts own s' := by
  cases label with
  | reactors label =>
      simp only [step?, Option.ite_none_right_eq_some, Option.map_eq_some_iff] at hstep
      obtain ⟨⟨hserving, hleft⟩, reactors, hreactors, rfl⟩ := hstep
      exact inv_reactors h hserving hleft hreactors
  | quit i =>
      simp only [step?, Option.ite_none_left_eq_some, Option.some.injEq] at hstep
      obtain ⟨-, rfl⟩ := hstep
      exact ⟨h.serving, h.left, h.stopped, h.destroyed⟩
  | leave i =>
      simp only [step?] at hstep
      split at hstep
      · rename_i l hl
        split at hstep
        · rename_i hphase
          simp only [Option.ite_none_right_eq_some, Option.some.injEq, List.isEmpty_iff] at hstep
          obtain ⟨⟨htodo, -⟩, rfl⟩ := hstep
          exact inv_leave h hl hphase htodo
        · cases hstep
      · cases hstep
  | finish =>
      simp only [step?, Option.ite_none_right_eq_some, Option.some.injEq] at hstep
      obtain ⟨⟨hserving, hall⟩, rfl⟩ := hstep
      exact inv_finish h hserving hall
  | destroy =>
      simp only [step?, Option.ite_none_right_eq_some, Option.some.injEq] at hstep
      obtain ⟨hstopped, rfl⟩ := hstep
      exact inv_destroy h hstopped

theorem inv_run (opts : Reactors.Options) (own : OwnFds others) (now : TimePoint)
    (labels : List LifeLabel) :
    Inv opts own (Transition.run (step opts own) (start opts own now) labels) := by
  refine Transition.run_invariant (fun s label h => ?_) (inv_start opts own now) labels
  exact Transition.attempt_invariant (fun _ _ _ h hstep => inv_step? h hstep) s label h

/-- **Descriptors, from the first to the last.**  While a server is serving, the process has what
it had, what the server has for itself, and the descriptors that somebody is going to close, each
of them once.  A destroyed server leaves open the descriptors of the connections whose
`attachConnection` was queued when their loops ended, and no others. -/
theorem shutdown_run (opts : Reactors.Options) (own : OwnFds others) (now : TimePoint)
    (labels : List LifeLabel) :
    let s := Transition.run (step opts own) (start opts own now) labels
    (s.stage = .serving → s.reactors.held.Nodup ∧
      (∀ fd, fd ∈ s.reactors.inUse ↔ fd ∈ besides own ∨ fd ∈ s.reactors.held) ∧
      ∀ fd ∈ s.reactors.held, fd ∉ besides own) ∧
    (s.stage = .destroyed →
      (∀ fd, fd ∈ s.reactors.inUse ↔ fd ∈ others ∨ ∃ l ∈ s.reactors.loops, fd ∈ l.pending) ∧
      (s.reactors.inUse = others ↔ ∀ l ∈ s.reactors.loops, l.pending = [])) := by
  intro s
  have h : Inv opts own s := inv_run opts own now labels
  refine ⟨fun hserving => ?_, fun hdestroyed => ?_⟩
  · obtain ⟨hinv, howned⟩ := h.serving hserving
    exact ⟨hinv.nodup, howned.inUse, howned.fresh⟩
  · obtain ⟨hinUse, hfresh⟩ := h.destroyed hdestroyed
    refine ⟨hinUse, fun heq l hl => ?_, fun hnone => ?_⟩
    · refine List.eq_nil_iff_forall_not_mem.mpr fun fd hmem => hfresh l hl fd hmem ?_
      rw [← heq]
      exact (hinUse fd).mpr (.inr ⟨l, hl, hmem⟩)
    · ext fd
      rw [hinUse]
      refine or_iff_left ?_
      rintro ⟨l, hl, hmem⟩
      rw [hnone l hl] at hmem
      cases hmem

/-- A server with two loops, in a process with the standard descriptors. -/
def sampleFds : OwnFds {0, 1, 2} := ⟨3, {4, 5, 6, 7}, by decide, by decide, by decide⟩

/-- The sub loop ends before it gets a task: descriptor 9 stays open. -/
example :
    let labels : List LifeLabel := [.reactors (.thread 0 (.ready [.acceptor])),
      .reactors .onAccept, .quit 1, .leave 1, .reactors (.accept 9), .reactors .loadOpened,
      .reactors .loadClosed, .reactors (.check 1), .reactors .acceptFailed, .quit 0,
      .reactors (.thread 0 (.expire 1)), .reactors (.thread 0 .expired),
      .reactors (.thread 0 .swap), .reactors (.thread 0 .poll), .leave 0, .finish, .destroy]
    let s := Transition.run (step { ioThreads := 1 } sampleFds)
      (start { ioThreads := 1 } sampleFds 0) labels
    s.stage = .destroyed ∧ s.reactors.inUse = {0, 1, 2, 9} := by
  decide

end ServerLife

end WsServer
