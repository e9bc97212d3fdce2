import Mathlib

/-!
# Searching a list for a two-element delimiter

`findPair a b xs` is the index of the first place in `xs` where `a` is followed
by `b`: the search for a two-byte line terminator in a stream.  What matters to
a reader that sees the stream in pieces is how the answer changes when more
elements are appended:

* a match stays where it is (`findPair_append`);
* a match that appears only after appending starts at the last element of the
  old list at the earliest, since its first half may already have been there
  (`length_le_of_findPair_append`).

For a line that does not contain the delimiter itself, the first match after it
is the terminator written there (`findPair_line`), also when the line ends with
the first half of the delimiter.
-/

namespace PairSearch

variable {α : Type*} [DecidableEq α] {a b : α}

/-- The index of the first occurrence of `a` immediately followed by `b`. -/
def findPair (a b : α) : List α → Option ℕ
  | x :: y :: rest =>
      if x = a ∧ y = b then some 0 else (findPair a b (y :: rest)).map (· + 1)
  | _ => none

@[simp] theorem findPair_nil : findPair a b [] = none := rfl

@[simp] theorem findPair_singleton (x : α) : findPair a b [x] = none := rfl

theorem findPair_cons_cons (x y : α) (rest : List α) :
    findPair a b (x :: y :: rest) =
      if x = a ∧ y = b then some 0 else (findPair a b (y :: rest)).map (· + 1) := rfl

/-- A match splits the list into what stands before it, the pair, and the rest. -/
theorem eq_of_findPair {xs : List α} {i : ℕ} (h : findPair a b xs = some i) :
    xs = xs.take i ++ a :: b :: xs.drop (i + 2) := by
  induction xs generalizing i with
  | nil => simp at h
  | cons x rest ih =>
      cases rest with
      | nil => simp at h
      | cons y rest =>
          rw [findPair_cons_cons] at h
          split at h
          · rename_i hpair
            obtain ⟨rfl, rfl⟩ := hpair
            cases h
            simp
          · obtain ⟨j, hj, rfl⟩ := Option.map_eq_some_iff.mp h
            have := ih hj
            simpa using this

/-- A match leaves room for both of its elements. -/
theorem add_two_le_of_findPair {xs : List α} {i : ℕ} (h : findPair a b xs = some i) :
    i + 2 ≤ xs.length := by
  have hlength := congrArg List.length (eq_of_findPair h)
  simp only [List.length_append, List.length_take, List.length_cons, List.length_drop] at hlength
  omega

/-- A match stays where it is when the list grows. -/
theorem findPair_append {xs : List α} {i : ℕ} (h : findPair a b xs = some i) (ys : List α) :
    findPair a b (xs ++ ys) = some i := by
  induction xs generalizing i with
  | nil => simp at h
  | cons x rest ih =>
      cases rest with
      | nil => simp at h
      | cons y rest =>
          rw [findPair_cons_cons] at h
          rw [List.cons_append, List.cons_append, findPair_cons_cons]
          split at h
          · rename_i hpair
            rw [if_pos hpair, h]
          · rename_i hpair
            obtain ⟨j, hj, rfl⟩ := Option.map_eq_some_iff.mp h
            rw [if_neg hpair, ← List.cons_append, ih hj]
            rfl

/-- The elements before the first match hold no match themselves. -/
theorem findPair_take {xs : List α} {i : ℕ} (h : findPair a b xs = some i) :
    findPair a b (xs.take i) = none := by
  cases hfind : findPair a b (xs.take i) with
  | none => rfl
  | some j =>
      have hroom := add_two_le_of_findPair hfind
      have hlater := findPair_append hfind (xs.drop i)
      rw [List.take_append_drop, h, Option.some_inj] at hlater
      rw [List.length_take] at hroom
      omega

/-- A match that appears by appending starts at the last old element or later. -/
theorem length_le_of_findPair_append {xs ys : List α} {i : ℕ}
    (hnone : findPair a b xs = none) (h : findPair a b (xs ++ ys) = some i) :
    xs.length ≤ i + 1 := by
  induction xs generalizing i with
  | nil => simp
  | cons x rest ih =>
      cases rest with
      | nil => simp
      | cons y rest =>
          rw [findPair_cons_cons] at hnone
          rw [List.cons_append, List.cons_append, findPair_cons_cons] at h
          split at hnone
          · simp at hnone
          · rename_i hpair
            rw [if_neg hpair, ← List.cons_append] at h
            obtain ⟨j, hj, rfl⟩ := Option.map_eq_some_iff.mp h
            have := ih (Option.map_eq_none_iff.mp hnone) hj
            simpa using this

/-- After a line without the delimiter, the first match is the terminator. -/
theorem findPair_line (hab : a ≠ b) {line : List α} (hline : findPair a b line = none)
    (rest : List α) : findPair a b (line ++ a :: b :: rest) = some line.length := by
  induction line with
  | nil => simp [findPair_cons_cons]
  | cons x line ih =>
      cases line with
      | nil =>
          -- a line that ends with `a` does not match early, since `a` is not `b`
          have hpair : ¬ (x = a ∧ a = b) := fun h => hab h.2
          simp [findPair_cons_cons, hpair]
      | cons y line =>
          rw [findPair_cons_cons] at hline
          split at hline
          · simp at hline
          · rename_i hpair
            have hinner := ih (Option.map_eq_none_iff.mp hline)
            simp only [List.cons_append] at hinner ⊢
            rw [findPair_cons_cons, if_neg hpair, hinner]
            rfl

/-- There is a match exactly when the pair is a contiguous part of the list. -/
theorem isSome_findPair_iff {xs : List α} : (findPair a b xs).isSome ↔ [a, b] <:+: xs := by
  induction xs with
  | nil => simp
  | cons x rest ih =>
      cases rest with
      | nil =>
          refine iff_of_false (by simp) fun h => ?_
          simpa using h.length_le
      | cons y rest =>
          rw [findPair_cons_cons, List.infix_cons_iff, ← ih]
          split
          · rename_i hpair
            obtain ⟨rfl, rfl⟩ := hpair
            simp
          · rename_i hpair
            have hhead : ¬ [a, b] <+: x :: y :: rest := by
              intro h
              simp only [List.cons_prefix_cons, List.nil_prefix, and_true] at h
              exact hpair ⟨h.1.symm, h.2.symm⟩
            simp [hhead]

/-- Without the first half of the delimiter there is no match. -/
theorem findPair_of_notMem {xs : List α} (h : a ∉ xs) : findPair a b xs = none := by
  rw [← Option.not_isSome_iff_eq_none, isSome_findPair_iff]
  intro hpair
  exact h (hpair.subset List.mem_cons_self)

end PairSearch
