import WsServer.Model.TimerHeap

/-!
# The timeout for `epoll_wait`

`nextTimeoutMs` converts the remaining milliseconds to `int`.  From 2³¹ of them on, which is less
than 25 days, the conversion wraps, and the result may be negative or zero though the earliest
deadline lies in the future.  `nextTimeoutMs_iff` says when it does not.
-/

namespace WsServer

open SignedWord

/-- What puts a timer into the heap. -/
inductive TimerCall (κ : Type*)
  | add (when : TimePoint) (cb : κ)
  | addAfter (now : TimePoint) (ms : ℤ) (cb : κ)
  /-- `Connection::armIdleTimer` of an open connection. -/
  | armIdleTimer (now : TimePoint) (idleTimeoutS : ℤ) (cb : κ)

namespace TimerCall

variable {κ : Type*}

def perform? (h : TimerHeap κ) : TimerCall κ → Option (TimerHeap κ)
  | .add when cb => some (h.add when cb)
  | .addAfter now ms cb => h.addAfter? now ms cb
  | .armIdleTimer now idleTimeoutS cb =>
    if idleTimeoutS ≤ 0 then some h else h.addAfter? now (idleTimeoutS * 1000) cb

/-- The heap that a list of calls builds. -/
def build? (calls : List (TimerCall κ)) : Option (TimerHeap κ) := calls.foldlM perform? {}

/-- A call with exact times. -/
def perform (h : TimerHeap κ) : TimerCall κ → TimerHeap κ
  | .add when cb => h.add when cb
  | .addAfter now ms cb => h.addAfter now ms cb
  | .armIdleTimer now idleTimeoutS cb =>
    if idleTimeoutS ≤ 0 then h else h.addAfter now (idleTimeoutS * 1000) cb

/-- The deadline that a call puts into the heap. -/
def deadline? : TimerCall κ → Option TimePoint
  | .add when _ => some when
  | .addAfter now ms _ => some (now + ms * 1000000)
  | .armIdleTimer now idleTimeoutS _ =>
    if idleTimeoutS ≤ 0 then none else some (now + idleTimeoutS * 1000 * 1000000)

/-- The arithmetic of a call does not overflow. -/
def Fits : TimerCall κ → Prop
  | .add _ _ => True
  | .addAfter now ms _ => InInt64 (ms * 1000000) ∧ InInt64 (now + ms * 1000000)
  | .armIdleTimer now idleTimeoutS _ =>
    0 < idleTimeoutS →
      InInt64 (idleTimeoutS * 1000 * 1000000) ∧ InInt64 (now + idleTimeoutS * 1000 * 1000000)

end TimerCall

namespace TimerHeap

variable {κ : Type*} {h h' : TimerHeap κ} {now top : TimePoint} {r : ℤ} {calls : List (TimerCall κ)}

/-! ## The heap that the calls build -/

theorem addAfter?_eq_some {ms : ℤ} {cb : κ} : h.addAfter? now ms cb = some h' ↔
    (InInt64 (ms * 1000000) ∧ InInt64 (now + ms * 1000000)) ∧ h.addAfter now ms cb = h' := by
  unfold addAfter?
  simp only [Option.bind_eq_some_iff, Option.map_eq_some_iff, int64?_eq_some]
  constructor
  · rintro ⟨_, ⟨hdelay, rfl⟩, _, ⟨hwhen, rfl⟩, rfl⟩
    exact ⟨⟨hdelay, hwhen⟩, rfl⟩
  · rintro ⟨⟨hdelay, hwhen⟩, rfl⟩
    exact ⟨_, ⟨hdelay, rfl⟩, _, ⟨hwhen, rfl⟩, rfl⟩

theorem perform?_eq_some {call : TimerCall κ} :
    call.perform? h = some h' ↔ call.Fits ∧ call.perform h = h' := by
  cases call with
  | add when cb => simp [TimerCall.perform?, TimerCall.Fits, TimerCall.perform]
  | addAfter now ms cb => exact addAfter?_eq_some
  | armIdleTimer now idleTimeoutS cb =>
      simp only [TimerCall.perform?, TimerCall.Fits, TimerCall.perform]
      split
      · rename_i hdisabled
        simp [not_lt.mpr hdisabled]
      · rename_i henabled
        rw [addAfter?_eq_some, imp_iff_right (not_le.mp henabled)]

theorem foldlM_perform? : calls.foldlM TimerCall.perform? h = some h' ↔
    (∀ call ∈ calls, call.Fits) ∧ calls.foldl TimerCall.perform h = h' := by
  induction calls generalizing h with
  | nil => simp
  | cons call rest ih =>
      rw [List.foldlM_cons, Option.bind_eq_bind, Option.bind_eq_some_iff, List.forall_mem_cons,
        List.foldl_cons]
      constructor
      · rintro ⟨next, hcall, hrest⟩
        obtain ⟨hfits, rfl⟩ := perform?_eq_some.mp hcall
        obtain ⟨hall, heq⟩ := ih.mp hrest
        exact ⟨⟨hfits, hall⟩, heq⟩
      · rintro ⟨⟨hfits, hall⟩, heq⟩
        exact ⟨_, perform?_eq_some.mpr ⟨hfits, rfl⟩, ih.mpr ⟨hall, heq⟩⟩

theorem when_perform (h : TimerHeap κ) (call : TimerCall κ) :
    (call.perform h).heap.map Entry.when = h.heap.map Entry.when ++ call.deadline?.toList := by
  cases call with
  | add when cb => simp [TimerCall.perform, TimerCall.deadline?, TimerHeap.add]
  | addAfter now ms cb => simp [TimerCall.perform, TimerCall.deadline?, addAfter, TimerHeap.add]
  | armIdleTimer now idleTimeoutS cb =>
      simp only [TimerCall.perform, TimerCall.deadline?]
      split
      · simp
      · simp [addAfter, TimerHeap.add]

theorem when_foldl_perform (h : TimerHeap κ) (calls : List (TimerCall κ)) :
    (calls.foldl TimerCall.perform h).heap.map Entry.when =
      h.heap.map Entry.when ++ calls.filterMap TimerCall.deadline? := by
  induction calls generalizing h with
  | nil => simp
  | cons call rest ih =>
      rw [List.foldl_cons, ih, when_perform, List.append_assoc, List.filterMap_cons]
      cases call.deadline? <;> rfl

/-! ## The result -/

/-- What the result should be: `-1` for no timer, `0` for a deadline that has passed, and else no
more than the whole milliseconds that remain. -/
structure TimeoutLaw (h : TimerHeap κ) (now : TimePoint) (r : ℤ) : Prop where
  empty_iff : r = -1 ↔ h.heap = []
  int : -2 ^ 31 ≤ r ∧ r < 2 ^ 31
  passed : ∀ e ∈ h.heap, h.isTop e = true → e.when ≤ now → r = 0
  remaining : ∀ e ∈ h.heap, h.isTop e = true → now < e.when →
    0 ≤ r ∧ r ≤ (e.when - now) / 1000000

/-- The remaining time of a deadline can be computed, and its whole milliseconds modulo 2³² are
less than 2³¹. -/
def Convertible (now top : TimePoint) : Prop :=
  InInt64 (top - now) ∧ (now < top → (top - now) / 1000000 % 2 ^ 32 < 2 ^ 31)

/-- The result for the earliest deadline. -/
def timeoutOf (now top : TimePoint) : ℤ :=
  if (top - now).tdiv 1000000 ≤ 0 then 0 else toInt32 ((top - now).tdiv 1000000)

theorem nextTimeoutMs?_eq_some (htop : (h.heap.map Entry.when).min? = some top) :
    h.nextTimeoutMs? now = some r ↔ InInt64 (top - now) ∧ timeoutOf now top = r := by
  unfold nextTimeoutMs? timeoutOf
  rw [htop]
  simp only [Option.map_eq_some_iff, int64?_eq_some]
  constructor
  · rintro ⟨_, ⟨hfits, rfl⟩, hr⟩
    exact ⟨hfits, hr⟩
  · rintro ⟨hfits, hr⟩
    exact ⟨_, ⟨hfits, rfl⟩, hr⟩

theorem timeoutOf_of_le (hle : top ≤ now) : timeoutOf now top = 0 := by
  have hdelta : (top - now).tdiv 1000000 ≤ 0 := by
    rw [← neg_sub, Int.neg_tdiv]
    exact neg_nonpos.mpr (Int.tdiv_nonneg (sub_nonneg.mpr hle) (by norm_num))
  exact if_pos hdelta

theorem timeoutOf_of_lt (hlt : now < top) :
    timeoutOf now top = toInt32 ((top - now) / 1000000) := by
  have hdiv : (top - now).tdiv 1000000 = (top - now) / 1000000 :=
    Int.tdiv_eq_ediv_of_nonneg (sub_nonneg.mpr hlt.le)
  unfold timeoutOf
  rw [hdiv]
  split
  · rename_i hzero
    have hnonneg : 0 ≤ (top - now) / 1000000 :=
      Int.ediv_nonneg (sub_nonneg.mpr hlt.le) (by norm_num)
    rw [le_antisymm hzero hnonneg]
    rfl
  · rfl

/-- The result is right exactly if the remaining milliseconds can be converted. -/
theorem timeoutLaw_iff (htop : (h.heap.map Entry.when).min? = some top) :
    TimeoutLaw h now (timeoutOf now top) ↔
      (now < top → (top - now) / 1000000 % 2 ^ 32 < 2 ^ 31) := by
  obtain ⟨hmem, hle⟩ := List.min?_eq_some_iff.mp htop
  obtain ⟨e, he, rfl⟩ := List.mem_map.mp hmem
  have hnonempty : h.heap ≠ [] := List.ne_nil_of_mem he
  have heq : ∀ e' ∈ h.heap, h.isTop e' = true → e'.when = e.when := by
    intro e' he' htop'
    have hle' : e'.when ≤ e.when := by
      simpa using List.all_eq_true.mp htop' e he
    exact le_antisymm hle' (hle _ (List.mem_map_of_mem he'))
  have hisTop : h.isTop e = true := by
    simpa [isTop] using fun e' he' => hle _ (List.mem_map_of_mem he')
  constructor
  · intro hlaw hlt
    rw [← toInt32_nonneg_iff, ← timeoutOf_of_lt hlt]
    exact (hlaw.remaining e he hisTop hlt).1
  · intro hconvertible
    have hrange : 0 ≤ timeoutOf now e.when ∧ timeoutOf now e.when < 2 ^ 31 := by
      rcases lt_or_ge now e.when with hlt | hge
      · rw [timeoutOf_of_lt hlt]
        exact ⟨toInt32_nonneg_iff.mpr (hconvertible hlt), (toInt32_range _).2⟩
      · rw [timeoutOf_of_le hge]
        norm_num
    refine ⟨iff_of_false (by omega) hnonempty, ⟨by omega, hrange.2⟩, ?_, ?_⟩
    · intro e' he' htop' hpassed
      exact timeoutOf_of_le (heq e' he' htop' ▸ hpassed)
    · intro e' he' htop' hlt
      rw [heq e' he' htop'] at hlt ⊢
      refine ⟨hrange.1, ?_⟩
      rw [timeoutOf_of_lt hlt]
      exact toInt32_le (Int.ediv_nonneg (sub_nonneg.mpr hlt.le) (by norm_num))

/-- The calls fit, and so does the earliest of their deadlines. -/
structure InRange (calls : List (TimerCall κ)) (now : TimePoint) : Prop where
  fits : ∀ call ∈ calls, call.Fits
  convertible : ∀ top ∈ calls.filterMap TimerCall.deadline?,
    (∀ when ∈ calls.filterMap TimerCall.deadline?, top ≤ when) → Convertible now top

/-- **When `nextTimeoutMs` is right.**  The heap can be built, and the result is defined and right,
exactly if no arithmetic of `int64_t` overflows and the whole milliseconds that remain until the
earliest deadline, if it lies in the future, are less than 2³¹ modulo 2³². -/
theorem nextTimeoutMs_iff (calls : List (TimerCall κ)) (now : TimePoint) :
    (∃ h r, TimerCall.build? calls = some h ∧ h.nextTimeoutMs? now = some r ∧
      TimeoutLaw h now r) ↔ InRange calls now := by
  have hwhen := when_foldl_perform ({} : TimerHeap κ) calls
  rw [List.map_nil, List.nil_append] at hwhen
  generalize hheap : calls.foldl TimerCall.perform ({} : TimerHeap κ) = heap at hwhen
  have hbuild : ∀ h, TimerCall.build? calls = some h ↔
      (∀ call ∈ calls, call.Fits) ∧ heap = h := by
    intro h
    rw [TimerCall.build?, foldlM_perform?, hheap]
  cases htop : (heap.heap.map Entry.when).min? with
  | none =>
      have hempty : heap.heap = [] := by
        simpa using List.min?_eq_none_iff.mp htop
      have hnone : heap.nextTimeoutMs? now = some (-1) := by
        unfold nextTimeoutMs?
        rw [htop]
      have hdeadlines : calls.filterMap TimerCall.deadline? = [] := by
        rw [← hwhen, hempty]
        rfl
      constructor
      · rintro ⟨h, r, hh, -, -⟩
        exact ⟨((hbuild h).mp hh).1, by simp [hdeadlines]⟩
      · intro hrange
        refine ⟨heap, -1, (hbuild heap).mpr ⟨hrange.fits, rfl⟩, hnone, ?_⟩
        exact ⟨iff_of_true rfl hempty, by norm_num, by simp [hempty], by simp [hempty]⟩
  | some top =>
      have hmin := htop
      rw [hwhen, List.min?_eq_some_iff] at hmin
      constructor
      · rintro ⟨h, r, hh, hr, hlaw⟩
        obtain ⟨hfits, rfl⟩ := (hbuild h).mp hh
        obtain ⟨hdelta, rfl⟩ := (nextTimeoutMs?_eq_some htop).mp hr
        refine ⟨hfits, fun top' hmem hle => ?_⟩
        obtain rfl : top' = top := le_antisymm (hle top hmin.1) (hmin.2 top' hmem)
        exact ⟨hdelta, (timeoutLaw_iff htop).mp hlaw⟩
      · intro hrange
        obtain ⟨hdelta, hconvertible⟩ := hrange.convertible top hmin.1 hmin.2
        exact ⟨heap, _, (hbuild heap).mpr ⟨hrange.fits, rfl⟩,
          (nextTimeoutMs?_eq_some htop).mpr ⟨hdelta, rfl⟩, (timeoutLaw_iff htop).mpr hconvertible⟩

/-- The idle timer of `-i 2147484`, just armed. -/
theorem not_timeoutLaw_of_long_idle : ¬∃ h r,
    TimerCall.build? [.armIdleTimer 0 2147484 ()] = some h ∧ h.nextTimeoutMs? 0 = some r ∧
      TimeoutLaw h 0 r := by
  rintro ⟨h, r, hh, hr, hlaw⟩
  have hbuild : TimerCall.build? [.armIdleTimer 0 2147484 ()] =
      some ⟨[⟨2147484000000000, (), 1⟩], ∅, 2⟩ := rfl
  obtain rfl : _ = h := Option.some.inj (hbuild.symm.trans hh)
  have hresult : nextTimeoutMs? ⟨[⟨2147484000000000, (), 1⟩], ∅, 2⟩ 0 = some (-2147483296) := by
    decide
  obtain rfl : _ = r := Option.some.inj (hresult.symm.trans hr)
  have hpositive := (hlaw.remaining _ List.mem_cons_self (by decide) (by decide)).1
  exact absurd hpositive (by decide)

end TimerHeap

end WsServer
