import Mathlib

/-!
# Loops that return from their body

A `for (;;)` loop is given by its body: from a state it returns a result (`inl`), or goes on with
another state (`inr`).  `Returns body s turns r` says that the loop, begun in `s`, returns `r` after
finitely many turns, and `turns` are the states in which these begin.

A `Loop` is a body with a measure that decreases from turn to turn, so that it returns from every
state (`Loop.returns`).  What a turn costs is bounded by what it takes from a potential
(`Returns.sum_cost_le`); the number of turns, and the cost of loops inside the body, are bounded in
this way.
-/

/-- A body with a measure that decreases from turn to turn. -/
structure Loop (σ ρ : Type*) where
  body : σ → ρ ⊕ σ
  measure : σ → ℕ
  decreases : ∀ s s', body s = .inr s' → measure s' < measure s

namespace Loop

variable {σ ρ : Type*}

/-- The loop with this body, begun in a state, makes these turns and returns. -/
inductive Returns (body : σ → ρ ⊕ σ) : σ → List σ → ρ → Prop
  | last {s : σ} {r : ρ} (h : body s = .inl r) : Returns body s [s] r
  | next {s s' : σ} {turns : List σ} {r : ρ} (h : body s = .inr s')
      (rest : Returns body s' turns r) : Returns body s (s :: turns) r

namespace Returns

variable {body : σ → ρ ⊕ σ} {s : σ} {turns : List σ} {r r' : ρ}

/-- What each turn that goes on preserves holds at the beginning of all. -/
theorem forall_mem {Inv : σ → Prop} (hstep : ∀ s s', Inv s → body s = .inr s' → Inv s')
    (h : Returns body s turns r) (hs : Inv s) : ∀ t ∈ turns, Inv t := by
  induction h with
  | last _ => exact List.forall_mem_singleton.mpr hs
  | next hnext _ ih => exact List.forall_mem_cons.mpr ⟨hs, ih (hstep _ _ hs hnext)⟩

/-- The first turn begins in the first state. -/
theorem first_mem (h : Returns body s turns r) : s ∈ turns := by
  cases h with
  | last _ => exact List.mem_cons_self
  | next _ _ => exact List.mem_cons_self

theorem length_pos (h : Returns body s turns r) : 0 < turns.length :=
  List.length_pos_of_mem h.first_mem

/-- A turn that returns is the last one. -/
theorem eq_of_mem (h : Returns body s turns r) {t : σ} (ht : t ∈ turns) (hlast : body t = .inl r') :
    r' = r := by
  induction h with
  | last hreturns =>
      rw [List.mem_singleton.mp ht] at hlast
      exact Sum.inl.inj (hlast.symm.trans hreturns)
  | next hnext _ ih =>
      rcases List.mem_cons.mp ht with rfl | hlater
      · cases hlast.symm.trans hnext
      · exact ih hlater

/-- What the turns that go on preserve, and the last one turns into a property of the result. -/
theorem result_spec {Inv : σ → Prop} {P : ρ → Prop}
    (hstep : ∀ s s', Inv s → body s = .inr s' → Inv s')
    (hlast : ∀ s r, Inv s → body s = .inl r → P r) (h : Returns body s turns r) (hs : Inv s) :
    P r := by
  induction h with
  | last hreturns => exact hlast _ _ hs hreturns
  | next hnext _ ih => exact ih (hstep _ _ hs hnext)

/-- **Costs.**  If every turn pays for itself from a potential, the whole loop does. -/
theorem sum_cost_le (Inv : σ → Prop) (cost potential : σ → ℕ) (left : ρ → ℕ)
    (hstep : ∀ s s', Inv s → body s = .inr s' → Inv s' ∧ cost s + potential s' ≤ potential s)
    (hlast : ∀ s r, Inv s → body s = .inl r → cost s + left r ≤ potential s)
    (h : Returns body s turns r) (hs : Inv s) :
    (turns.map cost).sum + left r ≤ potential s := by
  induction h with
  | last hreturns =>
      rw [List.map_singleton, List.sum_singleton]
      exact hlast _ _ hs hreturns
  | next hnext _ ih =>
      obtain ⟨hs', hpaid⟩ := hstep _ _ hs hnext
      have hrest := ih hs'
      rw [List.map_cons, List.sum_cons]
      omega

/-- A measure that decreases bounds the number of turns. -/
theorem length_le {measure : σ → ℕ} (hstep : ∀ s s', body s = .inr s' → measure s' < measure s)
    (h : Returns body s turns r) : turns.length ≤ measure s + 1 := by
  induction h with
  | last _ => exact Nat.le_add_left _ _
  | next hnext _ ih =>
      have hless := hstep _ _ hnext
      rw [List.length_cons]
      omega

end Returns

variable (L : Loop σ ρ)

/-- The states in which the turns begin, and the result. -/
def run (s : σ) : List σ × ρ :=
  match _hbody : L.body s with
  | .inl r => ([s], r)
  | .inr s' => (s :: (run s').1, (run s').2)
termination_by L.measure s
decreasing_by
  all_goals exact L.decreases _ _ _hbody

def turns (s : σ) : List σ := (L.run s).1

def result (s : σ) : ρ := (L.run s).2

/-- **Termination.**  A loop with a measure returns. -/
theorem returns (s : σ) : Returns L.body s (L.turns s) (L.result s) := by
  unfold turns result
  fun_induction L.run s with
  | case1 s r hbody => exact .last hbody
  | case2 s s' hbody ih => exact .next hbody ih

variable {L}

/-- A function that is unfolded like the loop computes its result. -/
theorem eq_result_of_unfold {f : σ → ρ} (hunfold : ∀ s, f s = (L.body s).elim id f) (s : σ) :
    f s = L.result s := by
  have h := L.returns s
  generalize L.turns s = turns, L.result s = r at h
  induction h with
  | last hreturns => rw [hunfold, hreturns, Sum.elim_inl, id]
  | next hgoes _ ih => rw [hunfold, hgoes, Sum.elim_inr, ih]

theorem length_turns_le (s : σ) : (L.turns s).length ≤ L.measure s + 1 :=
  (L.returns s).length_le L.decreases

end Loop
