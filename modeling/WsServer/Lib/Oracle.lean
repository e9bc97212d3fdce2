import WsServer.Lib.Transition

/-!
# Answers by number

A program asks its surroundings questions of several kinds, and counts those of each kind.  What
answers them is an oracle: for each kind and number there is one answer.  A program that asks each
question once does not see the other answers, so a step depends on the oracle only where it asks
(`Local`), and steps that were each taken with an oracle of their own can be taken with a single
one (`exists_run_concat`): before a certain number of each kind it answers like the old one, and
from there on like the new one (`splice`).
-/

namespace Oracle

/-- How the oracles `ω` answer questions of the kinds `ι`. -/
structure Interface (ω ι : Type*) (α : ι → Type*) where
  answer : ω → (i : ι) → ℕ → α i
  build : ((i : ι) → ℕ → α i) → ω
  answer_build : ∀ f, answer (build f) = f

variable {ω ι σ ε : Type*} {α : ι → Type*} (O : Interface ω ι α) (asked : σ → ι → ℕ)

/-- The oracle that answers like `a` before the numbers `n`, and like `b` from there on. -/
def Interface.splice (a b : ω) (n : ι → ℕ) : ω :=
  O.build fun i k => if k < n i then O.answer a i k else O.answer b i k

/-- The answers to what is asked between `s` and `s'` are the same. -/
def Agree (a b : ω) (s s' : σ) : Prop :=
  ∀ i k, asked s i ≤ k → k < asked s' i → O.answer a i k = O.answer b i k

/-- A part of the program that depends on the oracle only where it asks. -/
structure Local (act : ω → σ → σ) : Prop where
  advances : ∀ a s, asked s ≤ asked (act a s)
  congr : ∀ a b s, Agree O asked a b s (act a s) → act b s = act a s

variable {O asked}

theorem Agree.left {a b : ω} {s s' s'' : σ} (h : Agree O asked a b s s'')
    (hle : asked s' ≤ asked s'') : Agree O asked a b s s' :=
  fun i k hfrom hto => h i k hfrom (hto.trans_le (hle i))

theorem Agree.right {a b : ω} {s s' s'' : σ} (h : Agree O asked a b s s'')
    (hle : asked s ≤ asked s') : Agree O asked a b s' s'' :=
  fun i k hfrom hto => h i k ((hle i).trans hfrom) hto

theorem agree_splice_left (a b : ω) (s s' : σ) :
    Agree O asked a (O.splice a b (asked s')) s s' := by
  intro i k _ hto
  rw [Interface.splice, O.answer_build, if_pos hto]

theorem agree_splice_right (a b : ω) (s s' : σ) :
    Agree O asked b (O.splice a b (asked s)) s s' := by
  intro i k hfrom _
  rw [Interface.splice, O.answer_build, if_neg (not_lt.mpr hfrom)]

namespace Local

/-- What does not look at the oracle. -/
theorem of_le {f : σ → σ} (h : ∀ s, asked s ≤ asked (f s)) : Local O asked fun _ s => f s :=
  ⟨fun _ s => h s, fun _ _ _ _ => rfl⟩

/-- A parameter may depend on the state. -/
theorem dep {τ : Type*} {g : τ → ω → σ → σ} (hg : ∀ x, Local O asked (g x)) (f : σ → τ) :
    Local O asked fun a s => g (f s) a s :=
  ⟨fun a s => (hg (f s)).advances a s, fun a b s => (hg (f s)).congr a b s⟩

/-- The next question of one kind is asked. -/
theorem ask {i : ι} {g : α i → ω → σ → σ} (hg : ∀ x, Local O asked (g x))
    (hasks : ∀ x a s, asked s i < asked (g x a s) i) :
    Local O asked fun a s => g (O.answer a i (asked s i)) a s := by
  constructor
  · exact fun a s => (hg _).advances a s
  · intro a b s h
    rw [← h i (asked s i) le_rfl (hasks _ a s)]
    exact (hg _).congr a b s h

/-- One part after the other. -/
theorem comp {f g : ω → σ → σ} (hf : Local O asked f) (hg : Local O asked g) :
    Local O asked fun a s => g a (f a s) := by
  constructor
  · exact fun a s => (hf.advances a s).trans (hg.advances a (f a s))
  · intro a b s h
    have hfirst := hf.congr a b s (h.left (hg.advances a (f a s)))
    have hsecond := hg.congr a b (f a s) (h.right (hf.advances a s))
    rw [hfirst, hsecond]

theorem ite {f g : ω → σ → σ} {p : σ → Prop} [DecidablePred p] (hf : Local O asked f)
    (hg : Local O asked g) : Local O asked fun a s => if p s then f a s else g a s := by
  constructor
  · intro a s
    split
    · exact hf.advances a s
    · exact hg.advances a s
  · intro a b s h
    split at h
    · rename_i hp
      rw [if_pos hp, if_pos hp]
      exact hf.congr a b s h
    · rename_i hp
      rw [if_neg hp, if_neg hp]
      exact hg.congr a b s h

/-- A loop over events. -/
theorem run {step : ω → σ → ε → σ} (h : ∀ event, Local O asked fun a s => step a s event)
    (events : List ε) : Local O asked fun a s => Transition.run (step a) s events := by
  induction events with
  | nil => exact .of_le fun _ => le_rfl
  | cons event rest ih => exact (h event).comp ih

end Local

/-- **One oracle.**  Events handled with one oracle, and then others with another one, could all
have been handled with a single one. -/
theorem exists_run_append {step : ω → σ → ε → σ}
    (h : ∀ event, Local O asked fun a s => step a s event) (a b : ω) (s : σ)
    (first second : List ε) :
    ∃ c, Transition.run (step c) s (first ++ second) =
      Transition.run (step b) (Transition.run (step a) s first) second := by
  let middle := Transition.run (step a) s first
  refine ⟨O.splice a b (asked middle), ?_⟩
  have hfirst := (Local.run h first).congr a _ s (agree_splice_left a b s middle)
  have hsecond := (Local.run h second).congr b (O.splice a b (asked middle)) middle
    (agree_splice_right a b middle _)
  rw [Transition.run_append]
  exact (congrArg (Transition.run _ · second) hfirst).trans hsecond

end Oracle
