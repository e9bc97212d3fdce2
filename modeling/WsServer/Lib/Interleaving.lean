import Mathlib

/-!
# A partner that is called

A thread makes requests of a partner that also moves on its own: a kernel, a device, another party.
A script is what happens to the partner in order, its own steps and the requests (`Happening`), and
`replay` the state that it comes to, unless it cannot answer a request as it was answered.
`Serves s requests s'` says that the partner can come from `s` to `s'` while exactly these requests
are made of it, whatever it does in between.

The requests of two program parts one after the other split the way of the partner in two
(`Serves.split`), so that an invariant about a thread and its partner is proved part by part.
-/

namespace Interleaving

variable {σ ε κ : Type*}

/-- What happens to the partner. -/
inductive Happening (ε κ : Type*)
  | own (step : ε)
  | request (call : κ)

def Happening.request? : Happening ε κ → Option κ
  | .own _ => none
  | .request call => some call

/-- The requests in a script. -/
def requests (script : List (Happening ε κ)) : List κ := script.filterMap Happening.request?

variable (own : σ → ε → σ) (serve : σ → κ → Option σ)

/-- The state of the partner after a script; `none` when it cannot answer a request. -/
def replay : σ → List (Happening ε κ) → Option σ
  | s, [] => some s
  | s, .own step :: rest => replay (own s step) rest
  | s, .request call :: rest => (serve s call).bind fun s' => replay s' rest

/-- The partner can come from `s` to `s'` while exactly these requests are made of it. -/
def Serves (s : σ) (calls : List κ) (s' : σ) : Prop :=
  ∃ script : List (Happening ε κ), requests script = calls ∧ replay own serve s script = some s'

variable {own serve} {s s' : σ} {calls : List κ}

theorem replay_append (s : σ) (first second : List (Happening ε κ)) :
    replay own serve s (first ++ second) =
      (replay own serve s first).bind fun middle => replay own serve middle second := by
  induction first generalizing s with
  | nil => rfl
  | cons happening rest ih =>
      cases happening with
      | own step => exact ih (own s step)
      | request call =>
          rw [List.cons_append, replay, replay, Option.bind_assoc]
          exact congrArg _ (funext ih)

/-- A script with these requests can be cut between any two of them. -/
theorem exists_cut {script : List (Happening ε κ)} {first second : List κ}
    (h : requests script = first ++ second) :
    ∃ front back, script = front ++ back ∧ requests front = first ∧ requests back = second := by
  induction script generalizing first with
  | nil =>
      obtain ⟨hfirst, hsecond⟩ := List.append_eq_nil_iff.mp h.symm
      exact ⟨[], [], rfl, hfirst.symm, hsecond.symm⟩
  | cons happening rest ih =>
      cases happening with
      | own step =>
          obtain ⟨front, back, hrest, hfront, hback⟩ := ih h
          exact ⟨.own step :: front, back, by rw [hrest]; rfl, hfront, hback⟩
      | request call =>
          cases first with
          | nil => exact ⟨[], .request call :: rest, rfl, rfl, h⟩
          | cons call' first =>
              obtain ⟨rfl, htail⟩ := List.cons.inj h
              obtain ⟨front, back, hrest, hfront, hback⟩ := ih htail
              exact ⟨.request call :: front, back, by rw [hrest]; rfl,
                congrArg (List.cons call) hfront, hback⟩

namespace Serves

/-- **Cutting.**  Between two parts of the requests the partner is in some state. -/
theorem split {first second : List κ} (h : Serves own serve s (first ++ second) s') :
    ∃ middle, Serves own serve s first middle ∧ Serves own serve middle second s' := by
  obtain ⟨script, hrequests, hreplay⟩ := h
  obtain ⟨front, back, rfl, hfront, hback⟩ := exists_cut hrequests
  rw [replay_append] at hreplay
  obtain ⟨middle, hfirst, hsecond⟩ := Option.bind_eq_some_iff.mp hreplay
  exact ⟨middle, ⟨front, hfront, hfirst⟩, ⟨back, hback, hsecond⟩⟩

/-- What the steps of the partner and its answers to these requests preserve. -/
theorem invariant {P : σ → Prop} (hown : ∀ s step, P s → P (own s step))
    (hserve : ∀ s call s', call ∈ calls → P s → serve s call = some s' → P s')
    (h : Serves own serve s calls s') (hs : P s) : P s' := by
  obtain ⟨script, rfl, hreplay⟩ := h
  induction script generalizing s with
  | nil => exact Option.some.inj hreplay ▸ hs
  | cons happening rest ih =>
      cases happening with
      | own step => exact ih (hown s step hs) hreplay hserve
      | request call =>
          obtain ⟨after, hafter, hrest⟩ := Option.bind_eq_some_iff.mp hreplay
          refine ih (hserve s call after List.mem_cons_self hs hafter) hrest ?_
          exact fun s call' s' hmem => hserve s call' s' (List.mem_cons_of_mem call hmem)

/-- Without requests only what the partner does on its own counts. -/
theorem idle {P : σ → Prop} (hown : ∀ s step, P s → P (own s step))
    (h : Serves own serve s [] s') (hs : P s) : P s' :=
  h.invariant hown (fun _ _ _ hmem => absurd hmem List.not_mem_nil) hs

/-- The first request is made in some state, and answered from it. -/
theorem cons {call : κ} (h : Serves own serve s (call :: calls) s') :
    ∃ before after, Serves own serve s [] before ∧ serve before call = some after ∧
      Serves own serve after calls s' := by
  obtain ⟨script, hrequests, hreplay⟩ := h
  induction script generalizing s with
  | nil => cases hrequests
  | cons happening rest ih =>
      cases happening with
      | own step =>
          obtain ⟨before, after, ⟨front, hfront, hbefore⟩, hafter, hrest⟩ := ih hrequests hreplay
          exact ⟨before, after, ⟨.own step :: front, hfront, hbefore⟩, hafter, hrest⟩
      | request call' =>
          obtain ⟨rfl, htail⟩ := List.cons.inj hrequests
          obtain ⟨after, hafter, hrest⟩ := Option.bind_eq_some_iff.mp hreplay
          exact ⟨s, after, ⟨[], rfl, rfl⟩, hafter, rest, htail, hrest⟩

/-- What the answer to a single request establishes and the partner then keeps up. -/
theorem single {P : σ → Prop} {call : κ} (hown : ∀ s step, P s → P (own s step))
    (h : Serves own serve s [call] s')
    (hserve : ∀ before after, Serves own serve s [] before → serve before call = some after →
      P after) : P s' := by
  obtain ⟨before, after, hbefore, hafter, hrest⟩ := h.cons
  exact hrest.idle hown (hserve before after hbefore hafter)

end Serves

end Interleaving
