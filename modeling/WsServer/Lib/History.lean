import Mathlib

/-!
# Laws about a history

A history is the list of what has happened, the latest event last.  `Each P history` says that
every event in it stands in the relation `P` to what happened before it.  Such a law is kept by
one more event exactly when it holds of that event (`each_concat`).
-/

namespace History

variable {ε : Type*} {P Q : List ε → ε → Prop} {history : List ε} {event : ε}

/-- Every event is right, seen from what happened before it. -/
def Each (P : List ε → ε → Prop) (history : List ε) : Prop :=
  ∀ before event after, history = before ++ event :: after → P before event

theorem each_nil : Each P [] := by
  intro before event after h
  simp at h

theorem each_concat : Each P (history ++ [event]) ↔ Each P history ∧ P history event := by
  constructor
  · intro h
    refine ⟨?_, h history event [] rfl⟩
    rintro before other after rfl
    exact h before other (after ++ [event]) (by simp)
  · rintro ⟨hhistory, hevent⟩ before other after heq
    -- the event in question is the last one or stands before it
    induction after using List.reverseRecOn with
    | nil =>
        obtain ⟨rfl, hother⟩ := List.append_inj' heq rfl
        cases hother
        exact hevent
    | append_singleton after last _ =>
        rw [← List.cons_append, ← List.append_assoc] at heq
        exact hhistory before other after (List.append_inj' heq rfl).1

end History
