import Mathlib

/-!
# Totals over the parts of a state

A state with several parts, each of which holds an amount: `total f parts` is what they hold
together.  When one part changes, the total changes with it (`total_set`).  The amounts can be
numbers or multisets; then what two parts cannot share is in one part only.
-/

namespace Ledger

variable {α M : Type*} [AddCommMonoid M]

/-- What all parts hold. -/
def total (f : α → M) (parts : List α) : M := (parts.map f).sum

variable {f : α → M} {parts : List α} {a a' : α} {i : ℕ}

@[simp] theorem total_nil (f : α → M) : total f [] = 0 := rfl

@[simp] theorem total_cons (f : α → M) (a : α) (parts : List α) :
    total f (a :: parts) = f a + total f parts := by
  simp [total]

theorem total_concat (f : α → M) (parts : List α) (a : α) :
    total f (parts ++ [a]) = total f parts + f a := by
  simp [total]

theorem total_eq_zero (h : ∀ a ∈ parts, f a = 0) : total f parts = 0 := by
  refine List.sum_eq_zero fun x hx => ?_
  obtain ⟨a, ha, rfl⟩ := List.mem_map.mp hx
  exact h a ha

/-- One part is replaced. -/
theorem total_set (h : parts[i]? = some a) (f : α → M) (a' : α) :
    total f (parts.set i a') + f a = total f parts + f a' := by
  induction parts generalizing i with
  | nil => simp at h
  | cons first rest ih =>
      cases i with
      | zero =>
          obtain rfl : first = a := by simpa using h
          rw [List.set_cons_zero, total_cons, total_cons]
          abel
      | succ i =>
          rw [List.getElem?_cons_succ] at h
          rw [List.set_cons_succ, total_cons, total_cons, add_assoc, ih h, add_assoc]

/-- A part keeps its amount. -/
theorem total_set_of_eq [IsCancelAdd M] (h : parts[i]? = some a) (hsame : f a' = f a) :
    total f (parts.set i a') = total f parts := by
  have hset := total_set h f a'
  rw [hsame] at hset
  exact add_right_cancel hset

/-- One part and the others. -/
theorem exists_total_eq (h : a ∈ parts) (f : α → M) : ∃ others, total f parts = f a + others := by
  obtain ⟨front, back, rfl⟩ := List.append_of_mem h
  refine ⟨total f front + total f back, ?_⟩
  simp only [total, List.map_append, List.map_cons, List.sum_append, List.sum_cons]
  abel

theorem total_add (f g : α → M) (parts : List α) :
    total (fun a => f a + g a) parts = total f parts + total g parts := by
  induction parts with
  | nil => simp
  | cons a rest ih =>
      rw [total_cons, total_cons, total_cons, ih]
      abel

theorem total_congr {f g : α → M} (h : ∀ a ∈ parts, f a = g a) : total f parts = total g parts := by
  unfold total
  rw [List.map_congr_left h]

theorem total_one (parts : List α) : total (fun _ => 1) parts = parts.length := by
  simp [total]

/-- The parts by their places. -/
theorem total_eq_sum_range (f : α → M) (parts : List α) :
    total f parts = ∑ i ∈ Finset.range parts.length, (parts[i]?).elim 0 f := by
  induction parts using List.reverseRecOn with
  | nil => simp
  | append_singleton front a ih =>
      rw [total_concat, ih, List.length_append, List.length_singleton, Finset.sum_range_succ]
      congr 1
      · refine Finset.sum_congr rfl fun i hi => ?_
        rw [List.getElem?_append_left (Finset.mem_range.mp hi)]
      · rw [List.getElem?_concat_length]
        rfl

theorem total_le {f g : α → ℕ} (h : ∀ a ∈ parts, f a ≤ g a) : total f parts ≤ total g parts :=
  List.sum_le_sum h

/-- The parts of parts. -/
theorem total_flatMap {β : Type*} (f : β → M) (g : α → List β) (parts : List α) :
    total f (parts.flatMap g) = total (fun a => total f (g a)) parts := by
  induction parts with
  | nil => rfl
  | cons a rest ih =>
      rw [List.flatMap_cons, total_cons, ← ih]
      simp only [total, List.map_append, List.sum_append]

/-- Counting the parts of one kind. -/
theorem total_ite_one (p : α → Bool) (parts : List α) :
    total (fun a => if p a then 1 else 0) parts = parts.countP p := by
  induction parts with
  | nil => rfl
  | cons a rest ih => rw [total_cons, ih, List.countP_cons, add_comm]

/-! ## Multisets -/

variable {β : Type*} {g : α → Multiset β} {b : β}

theorem mem_total : b ∈ total g parts ↔ ∃ a ∈ parts, b ∈ g a := by
  induction parts with
  | nil => simp
  | cons a rest ih => simp [ih]

theorem card_total (g : α → Multiset β) (parts : List α) :
    Multiset.card (total g parts) = total (fun a => Multiset.card (g a)) parts := by
  induction parts with
  | nil => simp
  | cons a rest ih => simp [ih]

/-- What nobody shares is held by one part, once. -/
theorem nodup_of_total (h : (total g parts).Nodup) (ha : a ∈ parts) : (g a).Nodup := by
  obtain ⟨others, hsplit⟩ := exists_total_eq ha g
  rw [hsplit] at h
  exact (Multiset.nodup_add.mp h).1

end Ledger
