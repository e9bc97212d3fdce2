import WsServer.Lib.Transition

/-!
# Losses

`Lossy n kept full` says that `kept` is what is left of `full` when at most `n` stretches of it are
lost; the rest is there in its order, and nothing else is (`Lossy.sublist`).

`exists_run` compares two systems of which the second may take several steps for one of the first,
while the cost of the steps is added up.
-/

/-- What is kept of a list of which at most `n` stretches are lost. -/
inductive Lossy {α : Type*} : ℕ → List α → List α → Prop
  | nil (n : ℕ) : Lossy n [] []
  | keep {n : ℕ} {kept full : List α} (h : Lossy n kept full) (rest : List α) :
      Lossy n (kept ++ rest) (full ++ rest)
  | lose {n : ℕ} {kept full : List α} (h : Lossy n kept full) (lost : List α) :
      Lossy (n + 1) kept (full ++ lost)

namespace Lossy

variable {α : Type*} {n m : ℕ} {kept full : List α}

theorem mono (h : Lossy n kept full) (hle : n ≤ m) : Lossy m kept full := by
  induction h generalizing m with
  | nil n => exact .nil m
  | keep h rest ih => exact (ih hle).keep rest
  | lose h lost ih =>
      cases m with
      | zero => exact absurd hle (Nat.not_succ_le_zero _)
      | succ m => exact (ih (Nat.le_of_succ_le_succ hle)).lose lost

/-- Nothing is added, and the order is kept. -/
theorem sublist (h : Lossy n kept full) : kept.Sublist full := by
  induction h with
  | nil n => exact List.Sublist.refl []
  | keep h rest ih => exact ih.append (List.Sublist.refl rest)
  | lose h lost ih => exact ih.trans (List.sublist_append_left _ lost)

end Lossy

namespace Transition

variable {σ τ ε ζ : Type*} {step : σ → ε → σ} {step' : τ → ζ → τ}

/-- If each step of one system is matched by some steps of another, so is each run. -/
theorem exists_run {R : ℕ → σ → τ → Prop} {Kind : ζ → Prop} (cost : ε → ℕ)
    (hstep : ∀ n s t event, R n s t → ∃ events, (∀ e ∈ events, Kind e) ∧
      R (n + cost event) (step s event) (run step' t events))
    {n : ℕ} {s : σ} {t : τ} (h : R n s t) (events : List ε) :
    ∃ events', (∀ e ∈ events', Kind e) ∧
      R (n + (events.map cost).sum) (run step s events) (run step' t events') := by
  induction events generalizing n s t with
  | nil => exact ⟨[], by simp, h⟩
  | cons event rest ih =>
      obtain ⟨first, hfirst, hnext⟩ := hstep n s t event h
      obtain ⟨later, hlater, hlast⟩ := ih hnext
      refine ⟨first ++ later, ?_, ?_⟩
      · intro e he
        rcases List.mem_append.mp he with he | he
        · exact hfirst e he
        · exact hlater e he
      · rw [run_append, List.map_cons, List.sum_cons, ← Nat.add_assoc]
        exact hlast

end Transition
