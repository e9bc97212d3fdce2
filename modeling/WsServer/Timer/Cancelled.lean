import WsServer.Timer.Expiry

/-!
# The set of the cancelled ids

`cancel` ignores an id that has not been handed out, so that `cancelled_` does not grow for
nothing.  The id of an entry that is no longer in the heap passes that check, and nothing erases it
later: `expire` erases an id when it pops its entry.  So the set stays within the heap exactly
until such an id is cancelled (`cancelled_run_iff`).
-/

namespace WsServer.Timers

variable {φ : Type*} {s s' : Timers φ}

/-- Every id in `cancelled_` is the id of an entry in the heap, so that there are no more of
them. -/
def CancelledInHeap (h : TimerHeap (Option φ)) : Prop :=
  (∀ id ∈ h.cancelled, ∃ e ∈ h.heap, e.id = id) ∧ h.cancelled.card ≤ h.heap.length

/-- A `cancel` that is called is of an id that was not handed out, or that is in the heap. -/
def CancelsPending (s : Timers φ) : TimersLabel φ → Prop
  | .cancel id =>
    s.phase.mayCall = true → id = 0 ∨ s.heap.nextId ≤ id ∨ ∃ e ∈ s.heap.heap, e.id = id
  | _ => True

theorem cancelledInHeap_iff {h : TimerHeap (Option φ)} :
    CancelledInHeap h ↔ ∀ id ∈ h.cancelled, ∃ e ∈ h.heap, e.id = id := by
  refine ⟨And.left, fun hheap => ⟨hheap, ?_⟩⟩
  have hsubset : h.cancelled ⊆ (h.heap.map TimerHeap.Entry.id).toFinset := by
    intro id hid
    obtain ⟨e, he, rfl⟩ := hheap id hid
    exact List.mem_toFinset.mpr (List.mem_map_of_mem he)
  calc h.cancelled.card ≤ (h.heap.map TimerHeap.Entry.id).toFinset.card :=
        Finset.card_le_card hsubset
    _ ≤ (h.heap.map TimerHeap.Entry.id).length := List.toFinset_card_le _
    _ = h.heap.length := List.length_map _

/-- A `cancel` keeps the set within the heap exactly if it meets the condition. -/
theorem cancelledInHeap_cancel {h : TimerHeap (Option φ)} (hin : CancelledInHeap h)
    (id : TimerId) : CancelledInHeap (h.cancel id) ↔
      (id = 0 ∨ h.nextId ≤ id ∨ ∃ e ∈ h.heap, e.id = id) := by
  rw [cancelledInHeap_iff, h.heap_cancel, ← or_assoc]
  unfold TimerHeap.cancel
  split
  · rename_i hunknown
    exact iff_of_true hin.1 (.inl hunknown)
  · rename_i hknown
    rw [or_iff_right hknown]
    constructor
    · intro hall
      exact hall id (Finset.mem_insert_self _ _)
    · intro hid id' hid'
      rcases Finset.mem_insert.mp hid' with rfl | hid'
      · exact hid
      · exact hin.1 id' hid'

/-- What is popped leaves the heap and the set together. -/
theorem CancelledInHeap.popped (hn : s.heap.WellNumbered) (hin : CancelledInHeap s.heap)
    {t : TimePoint} {n k : ℕ} {e : TimerHeap.Entry (Option φ)} {heap : TimerHeap (Option φ)}
    (hpop : s.heap.pop? t k = some (e, heap)) : CancelledInHeap (s.popped t n e heap).heap := by
  obtain ⟨-, -, -, rfl⟩ := TimerHeap.pop?_spec hn hpop
  have hstays : ∀ id ∈ s.heap.cancelled, id ≠ e.id →
      ∃ e' ∈ s.heap.heap.filter fun e' => e'.id ≠ e.id, e'.id = id := by
    intro id hid hne
    obtain ⟨e', he', rfl⟩ := hin.1 id hid
    exact ⟨e', List.mem_filter.mpr ⟨he', by simpa using hne⟩, rfl⟩
  rw [cancelledInHeap_iff]
  unfold Timers.popped
  split
  · intro id hid
    obtain ⟨hne, hid⟩ := Finset.mem_erase.mp hid
    exact hstays id hid hne
  · rename_i huncancelled
    intro id hid
    exact hstays id hid (ne_of_mem_of_not_mem hid huncancelled)

theorem cancelledInHeap_step (h : Sound s) (hin : CancelledInHeap s.heap)
    (label : TimersLabel φ) :
    CancelledInHeap (step s label).heap ↔ CancelsPending s label := by
  unfold step Transition.attempt
  cases hstep : s.step? label with
  | none =>
      refine iff_of_true hin ?_
      cases label with
      | cancel id =>
          intro hmay
          simp [step?, hmay] at hstep
      | _ => trivial
  | some s' =>
      cases steps_of_step? hstep with
      | add now when cb hlooping hclock hwhen =>
          refine iff_of_true (cancelledInHeap_iff.mpr ?_) trivial
          intro id hid
          obtain ⟨e, he, heq⟩ := hin.1 id hid
          exact ⟨e, List.mem_append_left _ he, heq⟩
      | cancel id hlooping =>
          exact (cancelledInHeap_cancel hin id).trans (imp_iff_right hlooping).symm
      | expire now hphase hclock => exact iff_of_true hin trivial
      | pop t fired k e heap hphase hpop =>
          exact iff_of_true (hin.popped h.numbered hpop) trivial
      | leave t fired hphase => exact iff_of_true hin trivial
      | finish t fired hphase hdone => exact iff_of_true hin trivial

/-- **When `cancelled_` stays within the heap.**  Every id in `cancelled_` is in the heap after
every beginning of a run, exactly if no id is cancelled whose entry has left the heap. -/
theorem cancelled_run_iff (now : TimePoint) (labels : List (TimersLabel φ)) :
    (∀ front, front <+: labels →
      CancelledInHeap (Transition.run step (start now) front).heap) ↔
      Transition.AllSteps step CancelsPending (start now) labels := by
  have hsound : ∀ (s : Timers φ) label, Sound s → Sound (step s label) :=
    Transition.attempt_invariant fun s label s' h hstep => h.steps (steps_of_step? hstep)
  have hstart : CancelledInHeap (start now : Timers φ).heap :=
    cancelledInHeap_iff.mpr (by simp [start])
  exact Transition.prefixes_good_iff (fun s : Timers φ => CancelledInHeap s.heap) hsound
    (fun s label h hin => cancelledInHeap_step h hin label) (sound_start now) hstart labels

/-- A timer fires, and is cancelled. -/
theorem not_cancelledInHeap_after_fired :
    ¬CancelledInHeap (Transition.run step (start 0)
      [.add 0 5 (some ()), .expire 7, .pop 0, .leave, .finish, .cancel 1]).heap := by
  rintro ⟨hin, -⟩
  obtain ⟨e, he, -⟩ := hin 1 (by decide)
  cases he

end WsServer.Timers
