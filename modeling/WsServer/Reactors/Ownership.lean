import WsServer.Reactors.Invariant

/-!
# Every descriptor has an owner

Between `accept4` and `close` a descriptor is always in one hand: that of `onAccept`, of a queued
task, of a connection, or of a handler that is about to close it (`held`).  A step leaves the hands
as they are, takes in a descriptor that the process did not have, or gives one up and closes it
(`Moves`).  So the process has what it had at the beginning and what is in these hands, and nothing
else (`Owned`): no descriptor is lost, and none is closed that somebody still has.
-/

namespace WsServer.Reactors

open Ledger

variable {opts : Options} {s s' : Reactors}

/-- What a step does to the descriptors. -/
inductive Moves (s s' : Reactors) : Prop
  | keeps (hheld : s'.held = s.held) (hinUse : s'.inUse = s.inUse)
  | takes (fd : ℤ) (hfresh : fd ∉ s.inUse) (hheld : s'.held = {fd} + s.held)
      (hinUse : s'.inUse = insert fd s.inUse)
  | gives (fd : ℤ) (hheld : s.held = {fd} + s'.held) (hinUse : s'.inUse = s.inUse.erase fd)

theorem moves_perform {i : ℕ} {l : LoopThread} {a : Action} {rest : List Action}
    (hi : s.loops[i]? = some l) (htodo : l.todo = a :: rest) :
    Moves s { s.share a with
      loops := s.loops.set i { l with reactor := l.reactor.perform a, todo := rest } } := by
  have hheld := held_perform hi htodo
  cases a with
  | closeFd fd => exact .gives fd hheld rfl
  | _ => exact .keeps (hheld.trans (zero_add _)).symm rfl

theorem moves_steps (h : Inv opts s) {label : ReactorsLabel} (hstep : Steps opts s label s') :
    Moves s s' := by
  cases hstep with
  | thread i l l' action hi htodo hidle hstep =>
      have htabled := (h.healthy l (List.mem_of_getElem? hi)).tabled
      rw [LoopThread.settled_of_todo_nil htodo] at htabled
      have hkeeps := LoopThread.keeps_runs htabled htodo (LoopThread.step?_cases htabled hstep)
      refine .keeps ?_ rfl
      show s.acceptor.hand + total LoopThread.owned (s.loops.set i l') = s.held
      rw [total_set_of_eq hi hkeeps.owned, held]
  | perform i l a rest hi htodo => exact moves_perform hi htodo
  | onAccept main rest hmain hphase hidle =>
      refine .keeps ?_ rfl
      rw [held, held, hidle]
      rfl
  | accept main fd hmain htodo hacceptor hfresh hpos =>
      refine .takes fd hfresh ?_ rfl
      rw [held, held, hacceptor]
      show _ = {fd} + (0 + total LoopThread.owned s.loops)
      rw [zero_add]
      rfl
  | acceptFailed main e rest hmain hphase hacceptor =>
      have hkeeps : LoopThread.Keeps main { main with phase := .dispatching rest } :=
        LoopThread.keeps_of_phase rfl rfl (by rw [hphase]; rfl)
      refine .keeps ?_ rfl
      rw [held, held, hacceptor]
      exact congrArg (0 + ·) (total_set_of_eq hmain hkeeps.owned)
  | load main fd opened closed opened' closed' hmain htodo hacceptor hopened hclosed =>
      refine .keeps ?_ rfl
      rw [held, held, hacceptor]
      rfl
  | refuse fd opened closed hacceptor hfull =>
      refine .gives fd ?_ rfl
      rw [held, held, hacceptor]
      show _ = {fd} + (0 + total LoopThread.owned s.loops)
      rw [zero_add]
      rfl
  | attach main fd opened closed now hlabel hmain htodo hacceptor hroom hone hle =>
      obtain ⟨howned, -, -, -⟩ := LoopThread.account_attach opts.idleTimeoutS htodo main.phase fd now
      refine .keeps (held_pass hmain hacceptor ?_ rfl rfl) rfl
      rw [howned, LoopThread.owned, htodo, total_nil]
      abel
  | handOver fd opened closed now sub hlabel hacceptor hroom hmany hsub =>
      refine .keeps (held_pass hsub hacceptor ?_ rfl rfl) rfl
      rw [LoopThread.owned, LoopThread.owned, ← Multiset.coe_add, Multiset.coe_singleton]
      dsimp only
      abel

/-- The process has what it had, and what is held. -/
structure Owned (before : Finset ℤ) (s : Reactors) : Prop where
  inUse : ∀ fd, fd ∈ s.inUse ↔ fd ∈ before ∨ fd ∈ s.held
  fresh : ∀ fd ∈ s.held, fd ∉ before

theorem Owned.moves {before : Finset ℤ} (h : Owned before s) (hnodup : s.held.Nodup)
    (hmoves : Moves s s') : Owned before s' := by
  cases hmoves with
  | keeps hheld hinUse => exact ⟨by rw [hheld, hinUse]; exact h.inUse, by rw [hheld]; exact h.fresh⟩
  | takes fd hfresh hheld hinUse =>
      have hnew : fd ∉ before := fun hmem => hfresh ((h.inUse fd).mpr (.inl hmem))
      constructor
      · intro fd'
        rw [hinUse, hheld, Finset.mem_insert, h.inUse, Multiset.mem_add, Multiset.mem_singleton]
        tauto
      · intro fd' hmem
        rw [hheld, Multiset.mem_add, Multiset.mem_singleton] at hmem
        rcases hmem with rfl | hmem
        · exact hnew
        · exact h.fresh fd' hmem
  | gives fd hheld hinUse =>
      have hgone : fd ∉ s'.held := by
        rw [hheld, Multiset.singleton_add, Multiset.nodup_cons] at hnodup
        exact hnodup.1
      have hmine : fd ∉ before := h.fresh fd (by rw [hheld]; simp)
      constructor
      · intro fd'
        rw [hinUse, Finset.mem_erase, h.inUse, hheld, Multiset.mem_add, Multiset.mem_singleton]
        constructor
        · tauto
        · intro hmem
          have hne : fd' ≠ fd := by
            rintro rfl
            exact hmem.elim hmine hgone
          tauto
      · exact fun fd' hmem => h.fresh fd' (by rw [hheld]; exact Multiset.mem_add.mpr (.inr hmem))

theorem owned_start (opts : Options) (inUse : Finset ℤ) (now : TimePoint) :
    Owned inUse (start opts inUse now) := by
  have hheld : (start opts inUse now).held = 0 :=
    (zero_add _).trans (total_start _ opts inUse now fun _ => rfl)
  constructor
  · intro fd
    rw [hheld]
    simp [start]
  · rw [hheld]
    simp

end WsServer.Reactors
