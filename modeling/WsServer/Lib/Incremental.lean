import Mathlib

/-!
# Incremental machines

A parser that is fed a stream piece by piece is a state machine that looks at
the unread part of the stream, consumes a prefix of it in one step, and waits
when it cannot decide yet.  `Machine` is that shape, with the one law that makes
feeding in pieces harmless: a step that is possible stays the same step when
more input is appended (`step_append`).

`run` takes steps until none is possible.  Appending before or after running
gives the same result (`run_append`).

Real parsers also give up when an unfinished item has grown too long.  Such a
check is not stable under appending: the item may be finished later.  `Guard`
describes it, and `Guard.parse` is a run followed by the check.  Feeding in
pieces then agrees with parsing at once on streams where the check never fires
on an item that the stream goes on to finish (`Guard.feed_eq_parse`); on every
other stream the only difference is that the parser has given up
(`Guard.feed_eq_or_fail`).
-/

namespace Incremental

variable {σ α : Type*}

/-- A machine that consumes its input by prefixes. -/
structure Machine (σ α : Type*) where
  /-- The next state and the number of elements consumed, or `none` to wait. -/
  step : σ → List α → Option (σ × ℕ)
  /-- Bounds the number of steps that consume nothing. -/
  rank : σ → ℕ
  step_le : ∀ {s s' : σ} {bs : List α} {n : ℕ}, step s bs = some (s', n) → n ≤ bs.length
  step_progress : ∀ {s s' : σ} {bs : List α} {n : ℕ}, step s bs = some (s', n) →
    0 < n ∨ rank s' < rank s
  step_append : ∀ {s s' : σ} {bs : List α} {n : ℕ}, step s bs = some (s', n) →
    ∀ more, step s (bs ++ more) = some (s', n)

namespace Machine

variable (M : Machine σ α)

/-- Take steps until none is possible; what is left is the unread input. -/
def run (s : σ) (bs : List α) : σ × List α :=
  match _hstep : M.step s bs with
  | none => (s, bs)
  | some (s', n) => run s' (bs.drop n)
termination_by (bs.length, M.rank s)
decreasing_by
  have hle := M.step_le _hstep
  rcases Nat.eq_zero_or_pos n with rfl | hpos
  · have hrank : M.rank s' < M.rank s := (M.step_progress _hstep).resolve_left (lt_irrefl 0)
    simpa [List.drop_zero] using Prod.Lex.right _ hrank
  · refine Prod.Lex.left _ _ ?_
    rw [List.length_drop]
    omega

/-- The configurations passed through by a run. -/
inductive Reaches : σ → List α → σ → List α → Prop
  | refl (s : σ) (bs : List α) : Reaches s bs s bs
  | step {s s' q : σ} {bs rest : List α} {n : ℕ} : M.step s bs = some (s', n) →
      Reaches s' (bs.drop n) q rest → Reaches s bs q rest

variable {M}

theorem run_of_stuck {s : σ} {bs : List α} (h : M.step s bs = none) : M.run s bs = (s, bs) := by
  unfold run
  split
  · rfl
  · rename_i heq
    rw [h] at heq
    simp at heq

theorem run_of_step {s s' : σ} {bs : List α} {n : ℕ} (h : M.step s bs = some (s', n)) :
    M.run s bs = M.run s' (bs.drop n) := by
  rw [run]
  split
  · rename_i heq
    rw [h] at heq
    simp at heq
  · rename_i heq
    rw [h] at heq
    cases heq
    rfl

theorem Reaches.trans {s q t : σ} {bs cs ds : List α} (h₁ : M.Reaches s bs q cs)
    (h₂ : M.Reaches q cs t ds) : M.Reaches s bs t ds := by
  induction h₁ with
  | refl => exact h₂
  | step hstep _ ih => exact .step hstep (ih h₂)

theorem Reaches.single {s s' : σ} {bs : List α} {n : ℕ} (h : M.step s bs = some (s', n)) :
    M.Reaches s bs s' (bs.drop n) :=
  .step h (.refl _ _)

/-- The same steps are taken when more input is appended. -/
theorem Reaches.append {s q : σ} {bs rest : List α} (h : M.Reaches s bs q rest) (more : List α) :
    M.Reaches s (bs ++ more) q (rest ++ more) := by
  induction h with
  | refl => exact .refl _ _
  | step hstep _ ih =>
      refine .step (M.step_append hstep more) ?_
      rwa [List.drop_append_of_le_length (M.step_le hstep)]

theorem Reaches.run_eq {s q : σ} {bs rest : List α} (h : M.Reaches s bs q rest) :
    M.run s bs = M.run q rest := by
  induction h with
  | refl => rfl
  | step hstep _ ih => rw [run_of_step hstep, ih]

theorem Reaches.length_le {s q : σ} {bs rest : List α} (h : M.Reaches s bs q rest) :
    rest.length ≤ bs.length := by
  induction h with
  | refl => exact le_refl _
  | step _ _ ih => exact ih.trans (by rw [List.length_drop]; omega)

/-- A configuration without a step reaches only itself. -/
theorem Reaches.eq_of_stuck {s q : σ} {bs rest : List α} (h : M.Reaches s bs q rest)
    (hstuck : M.step s bs = none) : q = s ∧ rest = bs := by
  cases h with
  | refl => exact ⟨rfl, rfl⟩
  | step hstep _ =>
      rw [hstuck] at hstep
      simp at hstep

/-- A run reaches its result, and stops there because no step is possible. -/
theorem run_spec (s : σ) (bs : List α) :
    M.Reaches s bs (M.run s bs).1 (M.run s bs).2 ∧
      M.step (M.run s bs).1 (M.run s bs).2 = none := by
  fun_induction M.run s bs with
  | case1 s bs h => exact ⟨.refl _ _, h⟩
  | case2 s bs s' n h ih => exact ⟨.step h ih.1, ih.2⟩

theorem reaches_run (s : σ) (bs : List α) : M.Reaches s bs (M.run s bs).1 (M.run s bs).2 :=
  (run_spec s bs).1

theorem step_run (s : σ) (bs : List α) : M.step (M.run s bs).1 (M.run s bs).2 = none :=
  (run_spec s bs).2

/-- A run stops where it reaches a configuration without a step. -/
theorem Reaches.run_eq_of_stuck {s q : σ} {bs rest : List α} (h : M.Reaches s bs q rest)
    (hstuck : M.step q rest = none) : M.run s bs = (q, rest) := by
  rw [h.run_eq, run_of_stuck hstuck]

/-- **Running on the first piece and then on the second is running on both.** -/
theorem run_append (s : σ) (bs more : List α) :
    M.run s (bs ++ more) = M.run (M.run s bs).1 ((M.run s bs).2 ++ more) :=
  ((reaches_run s bs).append more).run_eq

end Machine

/-! ## Giving up on an unfinished item -/

/-- A check on configurations where the machine waits, and the state it is
replaced by when the check fires. -/
structure Guard (M : Machine σ α) where
  overflow : σ → List α → Bool
  fail : σ → σ
  fail_stuck : ∀ s bs, M.step (fail s) bs = none
  fail_quiet : ∀ s bs, overflow (fail s) bs = false
  overflow_append : ∀ {s : σ} {bs : List α}, overflow s bs = true → ∀ more,
    M.step s (bs ++ more) = none → overflow s (bs ++ more) = true

namespace Guard

variable {M : Machine σ α} (G : Guard M)

/-- The check, applied where a run has stopped. -/
def finish (c : σ × List α) : σ × List α :=
  if G.overflow c.1 c.2 then (G.fail c.1, c.2) else c

/-- A run followed by the check. -/
def parse (s : σ) (bs : List α) : σ × List α := G.finish (M.run s bs)

/-- Append the pieces one after another and parse after each of them. -/
def feed (s : σ) (bs : List α) (pieces : List (List α)) : σ × List α :=
  pieces.foldl (fun c piece => G.parse c.1 (c.2 ++ piece)) (s, bs)

/-- No item of the stream on which the check would fire is finished by the rest
of the stream. -/
def Persistent (s : σ) (stream : List α) : Prop :=
  ∀ q rest more, M.Reaches s stream q (rest ++ more) → M.step q rest = none →
    G.overflow q rest = true → M.step q (rest ++ more) = none

variable {G}

theorem finish_of_quiet {c : σ × List α} (h : G.overflow c.1 c.2 = false) : G.finish c = c := by
  simp [finish, h]

theorem finish_of_overflow {c : σ × List α} (h : G.overflow c.1 c.2 = true) :
    G.finish c = (G.fail c.1, c.2) := by
  simp [finish, h]

/-- The check does not consume anything. -/
theorem parse_snd (s : σ) (bs : List α) : (G.parse s bs).2 = (M.run s bs).2 := by
  unfold parse finish
  split <;> rfl

/-- A machine that has given up ignores all further input. -/
theorem parse_fail (s : σ) (bs : List α) : G.parse (G.fail s) bs = (G.fail s, bs) := by
  rw [parse, Machine.run_of_stuck (G.fail_stuck s bs)]
  exact finish_of_quiet (G.fail_quiet s bs)

theorem parse_of_reaches {s q : σ} {bs rest : List α} (h : M.Reaches s bs q rest) :
    G.parse s bs = G.parse q rest := by
  rw [parse, parse, h.run_eq]

theorem Persistent.of_append {s : σ} {bs more : List α} (h : G.Persistent s (bs ++ more)) :
    G.Persistent s bs := by
  intro q rest other hreach hstuck hover
  have hlonger : M.Reaches s (bs ++ more) q (rest ++ (other ++ more)) := by
    rw [← List.append_assoc]
    exact hreach.append more
  have hwait := h q rest (other ++ more) hlonger hstuck hover
  cases hstep : M.step q (rest ++ other) with
  | none => rfl
  | some result =>
      obtain ⟨s', n⟩ := result
      have := M.step_append hstep more
      rw [List.append_assoc, hwait] at this
      simp at this

/-- Where the check has not fired, parsing goes on as if the pieces had come
together. -/
theorem parse_append_of_quiet {s : σ} {bs : List α}
    (h : G.overflow (M.run s bs).1 (M.run s bs).2 = false) (more : List α) :
    G.parse s (bs ++ more) = G.parse (G.parse s bs).1 ((G.parse s bs).2 ++ more) := by
  have hparse : G.parse s bs = M.run s bs := finish_of_quiet h
  rw [hparse, parse, parse, Machine.run_append]

/-- Where the check has fired, the machine has given up and ignores the rest. -/
theorem parse_append_of_overflow {s : σ} {bs : List α}
    (h : G.overflow (M.run s bs).1 (M.run s bs).2 = true) (more : List α) :
    G.parse (G.parse s bs).1 ((G.parse s bs).2 ++ more) =
      (G.fail (M.run s bs).1, (M.run s bs).2 ++ more) := by
  have hparse : G.parse s bs = (G.fail (M.run s bs).1, (M.run s bs).2) := finish_of_overflow h
  rw [hparse, parse_fail]

/-- **Two pieces.**  Parsing after each of two pieces is parsing them at once. -/
theorem parse_append {s : σ} {bs more : List α} (h : G.Persistent s (bs ++ more)) :
    G.parse s (bs ++ more) = G.parse (G.parse s bs).1 ((G.parse s bs).2 ++ more) := by
  cases hover : G.overflow (M.run s bs).1 (M.run s bs).2 with
  | false => exact parse_append_of_quiet hover more
  | true =>
      -- the machine still waits with the second piece, so the check fires again
      have hwait := h _ _ more ((Machine.reaches_run s bs).append more) (Machine.step_run s bs) hover
      have hrun : M.run s (bs ++ more) = ((M.run s bs).1, (M.run s bs).2 ++ more) := by
        rw [Machine.run_append, Machine.run_of_stuck hwait]
      calc G.parse s (bs ++ more) = G.finish ((M.run s bs).1, (M.run s bs).2 ++ more) := by
            rw [parse, hrun]
        _ = (G.fail (M.run s bs).1, (M.run s bs).2 ++ more) :=
            finish_of_overflow (G.overflow_append hover more hwait)
        _ = G.parse (G.parse s bs).1 ((G.parse s bs).2 ++ more) :=
            (parse_append_of_overflow hover more).symm

@[simp] theorem feed_nil (s : σ) (bs : List α) : G.feed s bs [] = (s, bs) := rfl

theorem feed_concat (s : σ) (bs : List α) (pieces : List (List α)) (last : List α) :
    G.feed s bs (pieces ++ [last]) =
      G.parse (G.feed s bs pieces).1 ((G.feed s bs pieces).2 ++ last) := by
  simp [feed]

/-- **Any number of pieces.**  Feeding a stream in pieces is parsing it at once. -/
theorem feed_eq_parse {s : σ} {bs : List α} {pieces : List (List α)} (hne : pieces ≠ [])
    (h : G.Persistent s (bs ++ pieces.flatten)) :
    G.feed s bs pieces = G.parse s (bs ++ pieces.flatten) := by
  induction pieces using List.reverseRecOn with
  | nil => exact absurd rfl hne
  | append_singleton pieces last ih =>
      have hflat : bs ++ (pieces ++ [last]).flatten = (bs ++ pieces.flatten) ++ last := by simp
      rw [hflat] at h ⊢
      rw [feed_concat]
      by_cases hpieces : pieces = []
      · simp [hpieces]
      · have hfirst := ih hpieces h.of_append
        calc G.parse (G.feed s bs pieces).1 ((G.feed s bs pieces).2 ++ last)
            = G.parse (G.parse s (bs ++ pieces.flatten)).1
                ((G.parse s (bs ++ pieces.flatten)).2 ++ last) := by rw [hfirst]
          _ = G.parse s ((bs ++ pieces.flatten) ++ last) := (parse_append h).symm

/-- **Any stream.**  Feeding in pieces is parsing at once, unless the machine
has given up on the way. -/
theorem feed_eq_or_fail (s : σ) (bs : List α) {pieces : List (List α)} (hne : pieces ≠ []) :
    G.feed s bs pieces = G.parse s (bs ++ pieces.flatten) ∨
      ∃ q, (G.feed s bs pieces).1 = G.fail q := by
  induction pieces using List.reverseRecOn with
  | nil => exact absurd rfl hne
  | append_singleton pieces last ih =>
      have hflat : bs ++ (pieces ++ [last]).flatten = (bs ++ pieces.flatten) ++ last := by simp
      rw [hflat, feed_concat]
      by_cases hpieces : pieces = []
      · exact .inl (by simp [hpieces])
      rcases ih hpieces with heq | ⟨q, hfail⟩
      · rw [heq]
        cases hover : G.overflow (M.run s (bs ++ pieces.flatten)).1
            (M.run s (bs ++ pieces.flatten)).2 with
        | false => exact .inl (parse_append_of_quiet hover last).symm
        | true => exact .inr ⟨_, congrArg Prod.fst (parse_append_of_overflow hover last)⟩
      · exact .inr ⟨q, by rw [hfail, parse_fail]⟩

end Guard

end Incremental
