import WsServer.Lib.Transition

/-!
# Reading the number of open connections

`ServerCounters::activeConnections` loads `opened` and `closed` one after the other, in an order
that the language leaves open, while other threads attach and close connections.  Each increment
and each load is one step.  The counters are only promised to be right in the end, and a reading
that overlaps with other steps is off by what happens between the two loads (`reading_run`):

* with `opened` first, the connections closed in between are missing, and the reading is a lower
  bound, possibly a negative one;
* with `closed` first, the connections opened in between are too many, and it is an upper bound.

The counters stay below 2⁶³, so they are natural numbers here.
-/

namespace WsServer

inductive Counter
  | opened
  | closed
  deriving DecidableEq

/-- Where the thread that reads stands. -/
inductive ReaderPc
  | idle
  /-- Called, and going to load the counter `first`. -/
  | called (first : Counter)
  /-- One counter has been loaded. -/
  | loaded (first : Counter) (value : ℕ)
  | returned (value : ℤ)
  deriving DecidableEq

/-- One step of one of the threads. -/
inductive GaugeLabel (ι : Type*)
  /-- `attachConnection` increments `opened` for a connection. -/
  | opened (c : ι)
  /-- `Connection::close` increments `closed`. -/
  | closed (c : ι)
  | call (first : Counter)
  | load

/-- The two counters, the connections that have been counted in them, and the reader. -/
structure Gauge (ι : Type*) where
  opened : ℕ := 0
  closed : ℕ := 0
  attached : Finset ι := ∅
  gone : Finset ι := ∅
  reader : ReaderPc := .idle

namespace Gauge

variable {ι : Type*} [DecidableEq ι] {s s' : Gauge ι}

def value (s : Gauge ι) : Counter → ℕ
  | .opened => s.opened
  | .closed => s.closed

/-- `opened - closed`, where one of the two was loaded before. -/
def difference (s : Gauge ι) (value : ℕ) : Counter → ℤ
  | .opened => value - s.closed
  | .closed => s.opened - value

def step? (s : Gauge ι) : GaugeLabel ι → Option (Gauge ι)
  | .opened c =>
    if c ∈ s.attached then none
    else some { s with opened := s.opened + 1, attached := insert c s.attached }
  | .closed c =>
    if c ∈ s.attached ∧ c ∉ s.gone then
      some { s with closed := s.closed + 1, gone := insert c s.gone }
    else none
  | .call first =>
    match s.reader with
    | .idle | .returned _ => some { s with reader := .called first }
    | _ => none
  | .load =>
    match s.reader with
    | .called first => some { s with reader := .loaded first (s.value first) }
    | .loaded first value => some { s with reader := .returned (s.difference value first) }
    | _ => none

def step : Gauge ι → GaugeLabel ι → Gauge ι := Transition.attempt step?

/-- The state after some steps of the threads. -/
def after (labels : List (GaugeLabel ι)) : Gauge ι := Transition.run step {} labels

/-- The number of connections that are open. -/
def active (s : Gauge ι) : ℕ := (s.attached \ s.gone).card

/-! ## The counters -/

/-- Each connection is counted once, and closed only when it has been opened. -/
structure Counted (s : Gauge ι) : Prop where
  opened : s.opened = s.attached.card
  closed : s.closed = s.gone.card
  subset : s.gone ⊆ s.attached

theorem Counted.active_eq (h : Counted s) : (s.active : ℤ) = s.opened - s.closed := by
  have hcard := Finset.card_sdiff_add_card_eq_card h.subset
  rw [h.opened, h.closed, active]
  omega

/-- What a step does to the counters, apart from the reader. -/
theorem counted_step? (h : Counted s) {label : GaugeLabel ι} (hstep : s.step? label = some s') :
    Counted s' ∧ s.opened ≤ s'.opened ∧ s.closed ≤ s'.closed := by
  cases label with
  | opened c =>
      simp only [step?, Option.ite_none_left_eq_some, Option.some.injEq] at hstep
      obtain ⟨hnew, rfl⟩ := hstep
      refine ⟨⟨?_, h.closed, h.subset.trans (Finset.subset_insert _ _)⟩, Nat.le_succ _, le_rfl⟩
      rw [Finset.card_insert_of_notMem hnew, h.opened]
  | closed c =>
      simp only [step?, Option.ite_none_right_eq_some, Option.some.injEq] at hstep
      obtain ⟨⟨hattached, hopen⟩, rfl⟩ := hstep
      refine ⟨⟨h.opened, ?_, Finset.insert_subset hattached h.subset⟩, le_rfl, Nat.le_succ _⟩
      rw [Finset.card_insert_of_notMem hopen, h.closed]
  | call first =>
      simp only [step?] at hstep
      split at hstep
      · cases hstep
        exact ⟨⟨h.opened, h.closed, h.subset⟩, le_rfl, le_rfl⟩
      · cases hstep
        exact ⟨⟨h.opened, h.closed, h.subset⟩, le_rfl, le_rfl⟩
      · cases hstep
  | load =>
      simp only [step?] at hstep
      split at hstep
      · cases hstep
        exact ⟨⟨h.opened, h.closed, h.subset⟩, le_rfl, le_rfl⟩
      · cases hstep
        exact ⟨⟨h.opened, h.closed, h.subset⟩, le_rfl, le_rfl⟩
      · cases hstep

theorem counted_step (h : Counted s) (label : GaugeLabel ι) :
    Counted (s.step label) ∧ s.opened ≤ (s.step label).opened ∧
      s.closed ≤ (s.step label).closed := by
  unfold step Transition.attempt
  cases hstep : s.step? label with
  | none => exact ⟨h, le_rfl, le_rfl⟩
  | some s' => exact counted_step? h hstep

theorem counted_run (h : Counted s) (labels : List (GaugeLabel ι)) :
    Counted (Transition.run step s labels) ∧ s.opened ≤ (Transition.run step s labels).opened ∧
      s.closed ≤ (Transition.run step s labels).closed := by
  induction labels generalizing s with
  | nil => exact ⟨h, le_rfl, le_rfl⟩
  | cons label rest ih =>
      obtain ⟨hnext, hopened, hclosed⟩ := counted_step h label
      obtain ⟨hlast, hopened', hclosed'⟩ := ih hnext
      exact ⟨hlast, hopened.trans hopened', hclosed.trans hclosed'⟩

theorem counted_after (labels : List (GaugeLabel ι)) : Counted (after labels) :=
  (counted_run ⟨rfl, rfl, Finset.Subset.refl _⟩ labels).1

/-- The counters never fall. -/
theorem after_mono (first second : List (GaugeLabel ι)) :
    (after first).opened ≤ (after (first ++ second)).opened ∧
      (after first).closed ≤ (after (first ++ second)).closed := by
  unfold after
  rw [Transition.run_append]
  exact (counted_run (counted_after first) second).2

/-! ## The reader -/

/-- The reader has loaded `first` after the steps `past`, and the steps `between` have been taken
since. -/
structure FirstLoad (labels past between : List (GaugeLabel ι)) (first : Counter) (value : ℕ) :
    Prop where
  labels_eq : labels = past ++ .load :: between
  called : (after past).reader = .called first
  value_eq : value = (after past).value first
  loaded : ∀ front, front <+: between →
    (after (past ++ .load :: front)).reader = .loaded first value

/-- What the reader has loaded and returned was there at the time. -/
structure Reads (labels : List (GaugeLabel ι)) : Prop where
  loaded : ∀ first value, (after labels).reader = .loaded first value →
    ∃ past between, FirstLoad labels past between first value
  returned : ∀ v, (after labels).reader = .returned v →
    ∃ front late past between first value, labels = front ++ .load :: late ∧
      FirstLoad front past between first value ∧ v = (after front).difference value first

theorem after_concat (labels : List (GaugeLabel ι)) (label : GaugeLabel ι) :
    after (labels ++ [label]) = (after labels).step label := Transition.run_concat _ _ _

/-- A step that is not one of the reader's. -/
theorem Reads.concat_of_same {labels : List (GaugeLabel ι)} (h : Reads labels)
    {label : GaugeLabel ι} (hsame : (after (labels ++ [label])).reader = (after labels).reader) :
    Reads (labels ++ [label]) := by
  constructor
  · intro first value hreader
    obtain ⟨past, between, hload⟩ := h.loaded first value (hsame ▸ hreader)
    refine ⟨past, between ++ [label], by rw [hload.labels_eq]; simp, hload.called,
      hload.value_eq, ?_⟩
    intro front hfront
    rcases List.prefix_concat_iff.mp hfront with rfl | hold
    · rw [← List.cons_append, ← List.append_assoc, ← hload.labels_eq]
      exact hreader
    · exact hload.loaded front hold
  · intro v hreader
    obtain ⟨front, late, past, between, first, value, rfl, hload, hv⟩ :=
      h.returned v (hsame ▸ hreader)
    exact ⟨front, late ++ [label], past, between, first, value, by simp, hload, hv⟩

/-- A call has begun: nothing has been loaded in it. -/
theorem Reads.of_called {labels : List (GaugeLabel ι)} {first : Counter}
    (hcalled : (after labels).reader = .called first) : Reads labels := by
  constructor
  · intro other value hreader
    rw [hcalled] at hreader
    cases hreader
  · intro v hreader
    rw [hcalled] at hreader
    cases hreader

/-- The first load. -/
theorem Reads.concat_first {labels : List (GaugeLabel ι)} {first : Counter}
    (hcalled : (after labels).reader = .called first)
    (hloaded : (after (labels ++ [.load])).reader = .loaded first ((after labels).value first)) :
    Reads (labels ++ [.load]) := by
  constructor
  · intro other value hreader
    rw [hloaded] at hreader
    cases hreader
    refine ⟨labels, [], rfl, hcalled, rfl, fun front hfront => ?_⟩
    rw [List.prefix_nil.mp hfront]
    exact hloaded
  · intro v hreader
    rw [hloaded] at hreader
    cases hreader

/-- The second load. -/
theorem Reads.concat_second {labels : List (GaugeLabel ι)} (h : Reads labels) {first : Counter}
    {value : ℕ} (hloaded : (after labels).reader = .loaded first value)
    (hreturned : (after (labels ++ [.load])).reader =
      .returned ((after labels).difference value first)) : Reads (labels ++ [.load]) := by
  obtain ⟨past, between, hload⟩ := h.loaded first value hloaded
  constructor
  · intro other value' hreader
    rw [hreturned] at hreader
    cases hreader
  · intro v hreader
    rw [hreturned] at hreader
    cases hreader
    exact ⟨labels, [], past, between, first, value, rfl, hload, rfl⟩

/-- **One step.** -/
theorem Reads.concat {labels : List (GaugeLabel ι)} (h : Reads labels) (label : GaugeLabel ι) :
    Reads (labels ++ [label]) := by
  have hafter := after_concat labels label
  unfold step Transition.attempt at hafter
  cases hstep : (after labels).step? label with
  | none =>
      rw [hstep] at hafter
      exact h.concat_of_same (congrArg Gauge.reader hafter)
  | some s' =>
      rw [hstep, Option.getD_some] at hafter
      cases label with
      | opened c =>
          simp only [step?, Option.ite_none_left_eq_some, Option.some.injEq] at hstep
          apply h.concat_of_same
          rw [hafter, ← hstep.2]
      | closed c =>
          simp only [step?, Option.ite_none_right_eq_some, Option.some.injEq] at hstep
          apply h.concat_of_same
          rw [hafter, ← hstep.2]
      | call first =>
          have hreader : s'.reader = .called first := by
            simp only [step?] at hstep
            split at hstep <;> cases hstep <;> rfl
          exact .of_called ((congrArg Gauge.reader hafter).trans hreader)
      | load =>
          simp only [step?] at hstep
          split at hstep
          · rename_i first hcalled
            cases hstep
            exact .concat_first hcalled (congrArg Gauge.reader hafter)
          · rename_i first value hloaded
            cases hstep
            exact h.concat_second hloaded (congrArg Gauge.reader hafter)
          · cases hstep

theorem reads_after (labels : List (GaugeLabel ι)) : Reads labels := by
  induction labels using List.reverseRecOn with
  | nil =>
      constructor
      · intro first value hreader
        cases hreader
      · intro v hreader
        cases hreader
  | append_singleton labels label ih => exact ih.concat label

/-! ## The reading -/

/-- A reading, made of two loads with the steps `between` them. -/
structure ReadingLaw (past between : List (GaugeLabel ι)) (first : Counter) (v : ℤ) : Prop where
  /-- With `opened` first, what is closed in between is missing. -/
  openedFirst : first = .opened → v = (after past).active -
    ((after (past ++ .load :: between)).closed - (after past).closed)
  /-- With `closed` first, what is opened in between is too much. -/
  closedFirst : first = .closed → v = (after past).active +
    ((after (past ++ .load :: between)).opened - (after past).opened)
  le_active : first = .opened → ∀ front, front <+: between →
    v ≤ (after (past ++ .load :: front)).active
  active_le : first = .closed → ∀ front, front <+: between →
    (after (past ++ .load :: front)).active ≤ v

theorem FirstLoad.readingLaw {labels past between : List (GaugeLabel ι)} {first : Counter}
    {value : ℕ} (h : FirstLoad labels past between first value) :
    ReadingLaw past between first ((after labels).difference value first) := by
  have hpast := (counted_after past).active_eq
  rw [h.labels_eq, h.value_eq]
  constructor
  · rintro rfl
    show ((after past).opened : ℤ) - _ = _
    omega
  · rintro rfl
    show ((after (past ++ .load :: between)).opened : ℤ) - (after past).closed = _
    omega
  · rintro rfl front ⟨rest, rfl⟩
    have hactive := (counted_after (past ++ .load :: front)).active_eq
    have hopened := (after_mono past (.load :: front)).1
    have hclosed := (after_mono (past ++ .load :: front) rest).2
    rw [List.append_assoc, List.cons_append] at hclosed
    show ((after past).opened : ℤ) - (after (past ++ .load :: (front ++ rest))).closed ≤ _
    omega
  · rintro rfl front ⟨rest, rfl⟩
    have hactive := (counted_after (past ++ .load :: front)).active_eq
    have hclosed := (after_mono past (.load :: front)).2
    have hopened := (after_mono (past ++ .load :: front) rest).1
    rw [List.append_assoc, List.cons_append] at hopened
    show _ ≤ ((after (past ++ .load :: (front ++ rest))).opened : ℤ) - (after past).closed
    omega

/-- **The reading of `activeConnections`.**  Whatever the other threads do, the value returned is
the number of connections open when the first counter was loaded, less those closed or plus those
opened before the second one was, according to which was the first. -/
theorem reading_run (labels : List (GaugeLabel ι)) (v : ℤ)
    (hreturned : (after labels).reader = .returned v) :
    ∃ past between late first, labels = past ++ .load :: (between ++ .load :: late) ∧
      (after past).reader = .called first ∧
      (∀ front, front <+: between →
        ∃ value, (after (past ++ .load :: front)).reader = .loaded first value) ∧
      ReadingLaw past between first v := by
  obtain ⟨front, late, past, between, first, value, hlabels, hload, rfl⟩ :=
    (reads_after labels).returned v hreturned
  refine ⟨past, between, late, first, ?_, hload.called, ?_, hload.readingLaw⟩
  · rw [hlabels, hload.labels_eq]
    simp
  · intro front hfront
    exact ⟨value, hload.loaded front hfront⟩

/-- A connection is opened and closed between the loads of `opened` and of `closed`. -/
def openedAndClosed : List (GaugeLabel ℕ) := [.call .opened, .load, .opened 5, .closed 5, .load]

theorem reading_run_sample : ∃ past between late first,
    openedAndClosed = past ++ .load :: (between ++ .load :: late) ∧
      ReadingLaw past between first (-1) := by
  obtain ⟨past, between, late, first, heq, -, -, hlaw⟩ :=
    reading_run openedAndClosed (-1) (by decide)
  exact ⟨past, between, late, first, heq, hlaw⟩

/-- The reading may be negative, when there is no such number of connections at any time. -/
theorem not_reading_active : ¬∀ (labels : List (GaugeLabel ℕ)) v,
    (after labels).reader = .returned v →
      0 ≤ v ∧ ∃ front, front <+: labels ∧ v = (after front).active := by
  intro hall
  have hreading := (hall openedAndClosed (-1) (by decide)).1
  exact absurd hreading (by decide)

end Gauge

end WsServer
