import WsServer.Reactor.IdleTimers

/-!
# What is left in the heap

`close` does not take its entry out of the heap but marks it as cancelled, and only `expire` drops
it, once it is due.  Still a connection never has more than one entry, since its timer is armed
again only by the callback of the entry before (`Filed`); so a heap is no longer than its loop has
had connections, and `cancelled_` names nothing that is not there (`Tidy`).  An entry is set one
timeout ahead, which is how long a cancelled one can stay.

A handler changes the connection and the entries of one connection only; what this needs is stated
once (`Tidy.change`).
-/

namespace WsServer.Reactor

open Session TimerHeap

variable {idleTimeoutS : ℤ} {clock now : TimePoint} {r r' : Reactor} {timers timers' : TimerHeap ConnId}
  {todo : List Action} {c : ConnId} {s s' : Session}

/-- The entries of one connection. -/
structure Filed (idleTimeoutS : ℤ) (clock : TimePoint) (timers : TimerHeap ConnId) (c : ConnId)
    (s : Session) : Prop where
  once : ∀ e ∈ timers.heap, ∀ e' ∈ timers.heap, e.cb = c → e'.cb = c → e = e'
  cancelled : ∀ e ∈ timers.heap, e.cb = c → (e.id ∈ timers.cancelled ↔ s.conn.closed = true)
  known : ∀ e ∈ timers.heap, e.cb = c → s.conn.closed = false → s.conn.idleTimer = e.id
  horizon : ∀ e ∈ timers.heap, e.cb = c → e.when ≤ clock + idleTimeoutS * 1000000000
  armed : s.conn.closed = false → s.conn.idleTimer ≠ 0 →
    ∃ e ∈ timers.heap, e.cb = c ∧ e.id = s.conn.idleTimer

structure Tidy (idleTimeoutS : ℤ) (clock : TimePoint) (r : Reactor) : Prop where
  numbered : r.timers.WellNumbered
  filed : ∀ c s, r.sessions[c]? = some s → Filed idleTimeoutS clock r.timers c s
  attached : ∀ e ∈ r.timers.heap, e.cb < r.sessions.length
  marked : ∀ id ∈ r.timers.cancelled, ∃ e ∈ r.timers.heap, e.id = id
  off : idleTimeoutS ≤ 0 → r.timers.heap = []

theorem tidy_empty : Tidy idleTimeoutS clock {} :=
  ⟨wellNumbered_empty, by simp, by simp, by simp, fun _ => rfl⟩

theorem Filed.mono (h : Filed idleTimeoutS clock timers c s) (hle : clock ≤ now) :
    Filed idleTimeoutS now timers c s :=
  ⟨h.once, h.cancelled, h.known, fun e he hcb => (h.horizon e he hcb).trans (by linarith), h.armed⟩

theorem Tidy.mono (h : Tidy idleTimeoutS clock r) (hle : clock ≤ now) :
    Tidy idleTimeoutS now r :=
  ⟨h.numbered, fun c s hs => (h.filed c s hs).mono hle, h.attached, h.marked, h.off⟩

/-- Only the timers and the connections matter. -/
theorem Tidy.congr (h : Tidy idleTimeoutS clock r) (hsessions : r'.sessions = r.sessions)
    (htimers : r'.timers = r.timers) : Tidy idleTimeoutS clock r' := by
  refine ⟨?_, ?_, ?_, ?_, ?_⟩
  · exact htimers ▸ h.numbered
  · rw [hsessions, htimers]
    exact h.filed
  · rw [hsessions, htimers]
    exact h.attached
  · rw [htimers]
    exact h.marked
  · rw [htimers]
    exact h.off

/-- The entries of the connection are what they were. -/
theorem Filed.congr (h : Filed idleTimeoutS clock timers c s)
    (hheap : ∀ e, e.cb = c → (e ∈ timers'.heap ↔ e ∈ timers.heap))
    (hcancelled : ∀ e ∈ timers.heap, e.cb = c →
      (e.id ∈ timers'.cancelled ↔ e.id ∈ timers.cancelled))
    (hclosed : s'.conn.closed = s.conn.closed) (hidle : s'.conn.idleTimer = s.conn.idleTimer) :
    Filed idleTimeoutS clock timers' c s' := by
  refine ⟨?_, ?_, ?_, ?_, ?_⟩
  · intro e he e' he' hcb hcb'
    exact h.once e ((hheap e hcb).mp he) e' ((hheap e' hcb').mp he') hcb hcb'
  · intro e he hcb
    have he := (hheap e hcb).mp he
    rw [hcancelled e he hcb, hclosed]
    exact h.cancelled e he hcb
  · intro e he hcb
    rw [hclosed, hidle]
    exact h.known e ((hheap e hcb).mp he) hcb
  · intro e he hcb
    exact h.horizon e ((hheap e hcb).mp he) hcb
  · rw [hclosed, hidle]
    intro hopen harmed
    obtain ⟨e, he, hcb, hid⟩ := h.armed hopen harmed
    exact ⟨e, (hheap e hcb).mpr he, hcb, hid⟩

/-- A connection without an entry, which is closed. -/
theorem filed_of_none (hnone : ∀ e ∈ timers.heap, e.cb ≠ c) (hclosed : s.conn.closed = true) :
    Filed idleTimeoutS clock timers c s := by
  have habsurd {p : Prop} (e : Entry ConnId) (he : e ∈ timers.heap) (hcb : e.cb = c) : p :=
    absurd hcb (hnone e he)
  refine ⟨fun e he e' _ hcb _ => habsurd e he hcb, fun e he hcb => habsurd e he hcb,
    fun e he hcb => habsurd e he hcb, fun e he hcb => habsurd e he hcb, fun hopen => ?_⟩
  rw [hclosed] at hopen
  cases hopen

/-- An open connection with the entry that it knows. -/
theorem filed_of_one (e : Entry ConnId) (hone : ∀ e', e'.cb = c → (e' ∈ timers.heap ↔ e' = e))
    (hcb : e.cb = c) (hlive : e.id ∉ timers.cancelled) (hopen : s.conn.closed = false)
    (hidle : s.conn.idleTimer = e.id) (hwhen : e.when ≤ clock + idleTimeoutS * 1000000000) :
    Filed idleTimeoutS clock timers c s := by
  have hmine {e'} (he' : e' ∈ timers.heap) (hcb' : e'.cb = c) : e' = e := (hone e' hcb').mp he'
  refine ⟨?_, ?_, ?_, ?_, ?_⟩
  · intro e₁ he₁ e₂ he₂ hcb₁ hcb₂
    rw [hmine he₁ hcb₁, hmine he₂ hcb₂]
  · intro e' he' hcb'
    rw [hmine he' hcb', hopen]
    exact iff_of_false hlive (by simp)
  · intro e' he' hcb' _
    rw [hmine he' hcb', hidle]
  · intro e' he' hcb'
    rw [hmine he' hcb']
    exact hwhen
  · intro _ _
    exact ⟨e, (hone e hcb).mpr rfl, hcb, hidle.symm⟩

/-! ## One connection changes -/

/-- What a handler that changes one connection and its entries has to keep. -/
theorem Tidy.change (h : Tidy idleTimeoutS clock r) (c : ConnId) (s' : Session)
    (hself : r'.sessions[c]? = some s')
    (hsessions : ∀ c', c' ≠ c → r'.sessions[c']? = r.sessions[c']?)
    (hnumbered : r'.timers.WellNumbered)
    (hheap : ∀ e, e.cb ≠ c → (e ∈ r'.timers.heap ↔ e ∈ r.timers.heap))
    (hcancelled : ∀ e ∈ r.timers.heap, e.cb ≠ c →
      (e.id ∈ r'.timers.cancelled ↔ e.id ∈ r.timers.cancelled))
    (hfiled : Filed idleTimeoutS clock r'.timers c s')
    (hmarked : ∀ id ∈ r'.timers.cancelled, ∃ e ∈ r'.timers.heap, e.id = id)
    (hoff : idleTimeoutS ≤ 0 → r'.timers.heap = []) : Tidy idleTimeoutS clock r' := by
  refine ⟨hnumbered, ?_, ?_, hmarked, hoff⟩
  · intro c' s₁ hs₁
    by_cases hc : c' = c
    · subst hc
      obtain rfl := Option.some.inj (hself.symm.trans hs₁)
      exact hfiled
    · rw [hsessions c' hc] at hs₁
      refine (h.filed c' s₁ hs₁).congr (fun e hcb => hheap e (hcb ▸ hc)) (fun e he hcb => ?_) rfl rfl
      exact hcancelled e he (hcb ▸ hc)
  · intro e he
    by_cases hc : e.cb = c
    · rw [hc]
      exact (List.getElem?_eq_some_iff.mp hself).1
    · have hlt := h.attached e ((hheap e hc).mp he)
      have hsame := (hsessions e.cb hc).trans (List.getElem?_eq_getElem hlt)
      exact (List.getElem?_eq_some_iff.mp hsame).1

theorem getElem?_set_other {l : List Session} {c c' : ConnId} (hne : c' ≠ c) :
    (l.set c s')[c']? = l[c']? := List.getElem?_set_ne hne.symm

theorem Tidy.exists_session (h : Tidy idleTimeoutS clock r) {e : Entry ConnId}
    (he : e ∈ r.timers.heap) : ∃ s, r.sessions[e.cb]? = some s :=
  ⟨_, List.getElem?_eq_getElem (h.attached e he)⟩

/-- Two entries of one connection are the same. -/
theorem Tidy.eq_of_cb (h : Tidy idleTimeoutS clock r) {e e' : Entry ConnId}
    (he : e ∈ r.timers.heap) (he' : e' ∈ r.timers.heap) (hcb : e.cb = e'.cb) : e = e' := by
  obtain ⟨s, hs⟩ := h.exists_session he
  exact (h.filed e.cb s hs).once e he e' he' rfl hcb.symm

/-- Popping an entry leaves those of the other connections. -/
theorem Tidy.mem_pop (h : Tidy idleTimeoutS clock r) {e e' : Entry ConnId}
    (he : e ∈ r.timers.heap) :
    e' ∈ r.timers.heap.filter (fun e₁ => e₁.id ≠ e.id) ↔ e' ∈ r.timers.heap ∧ e'.cb ≠ e.cb := by
  rw [List.mem_filter, decide_eq_true_eq]
  refine and_congr_right fun he' => not_congr ⟨fun hid => ?_, fun hcb => ?_⟩
  · rw [h.numbered.eq_of_id he' he hid]
  · rw [h.eq_of_cb he' he hcb]

theorem Tidy.marked_pop (h : Tidy idleTimeoutS clock r) {e : Entry ConnId} {id : TimerId}
    (hid : id ∈ r.timers.cancelled) (hne : id ≠ e.id) :
    ∃ e' ∈ r.timers.heap.filter (fun e₁ => e₁.id ≠ e.id), e'.id = id := by
  obtain ⟨e', he', rfl⟩ := h.marked id hid
  exact ⟨e', List.mem_filter.mpr ⟨he', by simpa using hne⟩, rfl⟩

theorem Tidy.off_pop (h : Tidy idleTimeoutS clock r) (id : TimerId) (hoff : idleTimeoutS ≤ 0) :
    r.timers.heap.filter (fun e => e.id ≠ id) = [] := by
  rw [h.off hoff, List.filter_nil]

/-! ## Handlers -/

theorem tidy_stays (h : Tidy idleTimeoutS now r) (hs : r.sessions[c]? = some s)
    (hsame : Untouched s s') :
    Tidy idleTimeoutS now { r with sessions := r.sessions.set c s' } := by
  refine h.change c s' ?_ (fun c' => getElem?_set_other) h.numbered (fun _ _ => .rfl)
    (fun _ _ _ => .rfl) ?_ h.marked h.off
  · exact List.getElem?_set_self (List.getElem?_eq_some_iff.mp hs).1
  · exact (h.filed c s hs).congr (fun _ _ => .rfl) (fun _ _ _ => .rfl) hsame.closed hsame.idleTimer

/-- `close` cancels the entry, if there is one. -/
theorem tidy_closes (h : Tidy idleTimeoutS now r) (hs : r.IsOpen c s)
    (hclosed : s'.conn.closed = true) (hset : r'.sessions = r.sessions.set c s')
    (htimers : r'.timers = r.timers.cancel s.conn.idleTimer) : Tidy idleTimeoutS now r' := by
  have hfiled := h.filed c s hs.1
  have hmem {e : Entry ConnId} (he : e ∈ r.timers.heap) :
      e.id ∈ (r.timers.cancel s.conn.idleTimer).cancelled ↔
        e.id ∈ r.timers.cancelled ∨ e.id = s.conn.idleTimer :=
    h.numbered.mem_cancelled_cancel he
  have hmine {e : Entry ConnId} (he : e ∈ r.timers.heap) :
      e.id = s.conn.idleTimer ↔ e.cb = c := by
    constructor
    · intro hid
      have hne : s.conn.idleTimer ≠ 0 := hid ▸ (h.numbered.range e he).1.ne'
      obtain ⟨e', he', hcb, hid'⟩ := hfiled.armed hs.2 hne
      rw [h.numbered.eq_of_id he he' (hid.trans hid'.symm), hcb]
    · intro hcb
      exact (hfiled.known e he hcb hs.2).symm
  refine h.change c s' ?_ (fun c' hne => hset ▸ getElem?_set_other hne)
    (htimers ▸ h.numbered.cancel _) ?_ ?_ ?_ ?_ ?_
  · rw [hset]
    exact List.getElem?_set_self (List.getElem?_eq_some_iff.mp hs.1).1
  · intro e _
    rw [htimers, heap_cancel]
  · intro e he hcb
    rw [htimers, hmem he, or_iff_left (mt (hmine he).mp hcb)]
  · rw [htimers]
    refine ⟨?_, ?_, ?_, ?_, ?_⟩
    · rw [heap_cancel]
      exact hfiled.once
    · rw [heap_cancel]
      intro e he hcb
      rw [hmem he, hclosed]
      exact iff_of_true (.inr ((hmine he).mpr hcb)) rfl
    · intro e _ _ hopen
      rw [hclosed] at hopen
      cases hopen
    · rw [heap_cancel]
      exact hfiled.horizon
    · intro hopen
      rw [hclosed] at hopen
      cases hopen
  · rw [htimers, heap_cancel]
    intro id hid
    unfold TimerHeap.cancel at hid
    split at hid
    · exact h.marked id hid
    · rename_i hknown
      rcases Finset.mem_insert.mp hid with rfl | hid
      · obtain ⟨e, he, -, heq⟩ := hfiled.armed hs.2 (not_or.mp hknown).1
        exact ⟨e, he, heq⟩
      · exact h.marked id hid
  · rw [htimers, heap_cancel]
    exact h.off

theorem tidy_handles (htabled : Tabled idleTimeoutS r) (h : Tidy idleTimeoutS now r) {fd : ℤ}
    (hrun : Handles r fd now r' todo) : Tidy idleTimeoutS now (r'.settle todo) := by
  cases hrun with
  | nothing => exact h
  | stays c s s' hs houtcome hsame => exact tidy_stays h hs hsame
  | closes c s s' hfind hs houtcome hended =>
      have hopen : r.IsOpen c s := ⟨hs, hended.wasOpen⟩
      have hfd := ((htabled.whole s (List.mem_of_getElem? hs)).opened hended.wasOpen).1
      rw [settle_closing _ c hfd]
      exact tidy_closes h hopen hended.closed rfl rfl

/-- The callback of an entry that has just been popped. -/
theorem tidy_fires (htabled : Tabled idleTimeoutS r) (h : Tidy idleTimeoutS now r)
    {e : Entry ConnId} (he : e ∈ r.timers.live)
    (hrun : Fires
      { r with timers := { r.timers with heap := r.timers.heap.filter fun e' => e'.id ≠ e.id } }
      e.cb now r' todo) : Tidy idleTimeoutS now (r'.settle todo) := by
  obtain ⟨he, hlive⟩ := mem_live.mp he
  have hpos : 0 < idleTimeoutS := by
    by_contra hoff
    rw [h.off (not_lt.mp hoff)] at he
    cases he
  obtain ⟨s₀, hs₀⟩ := h.exists_session he
  have hwhole := htabled.whole s₀ (List.mem_of_getElem? hs₀)
  have hopen₀ : s₀.conn.closed = false := by
    simpa using mt ((h.filed e.cb s₀ hs₀).cancelled e he rfl).mpr hlive
  have hothers {e' : Entry ConnId} (hcb : e'.cb ≠ e.cb) :
      e' ∈ r.timers.heap.filter (fun e₁ => e₁.id ≠ e.id) ↔ e' ∈ r.timers.heap := by
    rw [h.mem_pop he, and_iff_left hcb]
  have hnone : ∀ e' ∈ r.timers.heap.filter (fun e₁ => e₁.id ≠ e.id), e'.cb ≠ e.cb :=
    fun e' he' => ((h.mem_pop he).mp he').2
  have hmarked : ∀ id ∈ r.timers.cancelled,
      ∃ e' ∈ r.timers.heap.filter (fun e₁ => e₁.id ≠ e.id), e'.id = id := by
    intro id hid
    exact h.marked_pop hid (ne_of_mem_of_not_mem hid hlive)
  cases hrun with
  | nothing hnone =>
      have hnot := hnone s₀ hs₀ hopen₀
      rw [hwhole.timeout] at hnot
      exact absurd hpos hnot
  | reaps s s' hs hdue hlives hended =>
      obtain rfl : s₀ = s := Option.some.inj (hs₀.symm.trans hs)
      rw [settle_closing _ e.cb (hwhole.opened hopen₀).1]
      refine h.change e.cb s' ?_ (fun c' => getElem?_set_other) ((h.numbered.pop e.id).cancel 0)
        (fun e' hcb => ?_) (fun _ _ _ => .rfl) ?_ hmarked (h.off_pop e.id)
      · exact List.getElem?_set_self (h.attached e he)
      · exact hothers hcb
      · exact filed_of_none hnone hended.closed
  | rearms s hs hopen htimeout hrecent =>
      obtain rfl : s₀ = s := Option.some.inj (hs₀.symm.trans hs)
      have hnumbered := (h.numbered.pop e.id).add
        (now + s₀.conn.idleTimeoutS * 1000 * 1000000) e.cb
      rw [hwhole.timeout] at htimeout hnumbered ⊢
      have hfresh : r.timers.nextId ∉ r.timers.cancelled :=
        fun hmem => (h.numbered.cancelled_lt _ hmem).ne rfl
      refine h.change e.cb (s₀.armIdleTimer r.timers.nextId) ?_ (fun c' => getElem?_set_other) hnumbered (fun e' hcb => ?_)
        (fun _ _ _ => .rfl) ?_ (fun id hid => ?_) (fun hoff => absurd hpos (not_lt.mpr hoff))
      · exact List.getElem?_set_self (h.attached e he)
      · refine List.mem_append.trans ((or_iff_left fun hnew => hcb ?_).trans (hothers hcb))
        rw [List.mem_singleton.mp hnew]
      · refine filed_of_one ⟨now + idleTimeoutS * 1000 * 1000000, e.cb, r.timers.nextId⟩
          (fun e' hcb => ?_) rfl hfresh ?_ ?_ ?_
        · refine List.mem_append.trans ((or_iff_right fun hold => ?_).trans List.mem_singleton)
          exact hnone e' hold hcb
        · rw [conn_armIdleTimer hopen]
          exact hopen
        · rw [conn_armIdleTimer hopen, hwhole.timeout, if_pos hpos]
        · show now + idleTimeoutS * 1000 * 1000000 ≤ now + idleTimeoutS * 1000000000
          linarith
      · obtain ⟨e', he', hid⟩ := hmarked id hid
        exact ⟨e', List.mem_append_left _ he', hid⟩

/-- A cancelled entry is dropped. -/
theorem tidy_forget (h : Tidy idleTimeoutS clock r) {e : Entry ConnId} (he : e ∈ r.timers.heap)
    (hcancelled : e.id ∈ r.timers.cancelled) :
    Tidy idleTimeoutS clock { r with
      timers := forget { r.timers with
        heap := r.timers.heap.filter fun e' => e'.id ≠ e.id } e.id } := by
  obtain ⟨s, hs⟩ := h.exists_session he
  have hclosed := ((h.filed e.cb s hs).cancelled e he rfl).mp hcancelled
  refine h.change e.cb s hs (fun _ _ => rfl) ((h.numbered.pop e.id).forget e.id) (fun e' hcb => ?_)
    (fun e' he' hcb => ?_) ?_ (fun id hid => ?_) (h.off_pop e.id)
  · exact (h.mem_pop he).trans (and_iff_left hcb)
  · have hne : e'.id ≠ e.id := fun hid => hcb (by rw [h.numbered.eq_of_id he' he hid])
    exact Finset.mem_erase.trans (and_iff_right hne)
  · exact filed_of_none (fun e' he' => ((h.mem_pop he).mp he').2) hclosed
  · obtain ⟨hne, hid⟩ := Finset.mem_erase.mp hid
    exact h.marked_pop hid hne

theorem tidy_attachConnection (h : Tidy idleTimeoutS now r) {fd : ℤ}
    (hfree : r.registered.find? fd = none) :
    Tidy idleTimeoutS now ((r.attachConnection idleTimeoutS fd now).1.settle
      (r.attachConnection idleTimeoutS fd now).2) := by
  have hnone : ∀ e ∈ r.timers.heap, e.cb ≠ r.sessions.length := fun e he => (h.attached e he).ne
  have hself (s₁ : Session) : (r.sessions ++ [s₁])[r.sessions.length]? = some s₁ := by simp
  have hothers (s₁ : Session) {c' : ConnId} (hne : c' ≠ r.sessions.length) :
      (r.sessions ++ [s₁])[c']? = r.sessions[c']? := by
    rw [List.getElem?_append]
    split
    · rfl
    · rename_i hle
      have hlt : r.sessions.length < c' := lt_of_le_of_ne (not_lt.mp hle) hne.symm
      have hbehind : [s₁].length ≤ c' - r.sessions.length := Nat.le_sub_of_add_le' hlt
      rw [List.getElem?_eq_none hbehind, List.getElem?_eq_none hlt.le]
  rw [attachConnection_eq]
  dsimp only
  rw [settle_attaching]
  swap
  · exact hfree
  by_cases hpos : 0 < idleTimeoutS
  · rw [if_pos hpos]
    have hfresh : r.timers.nextId ∉ r.timers.cancelled :=
      fun hmem => (h.numbered.cancelled_lt _ hmem).ne rfl
    refine h.change r.sessions.length _ (hself _) (fun c' => hothers _)
      (h.numbered.add (now + idleTimeoutS * 1000 * 1000000) r.sessions.length) (fun e hcb => ?_)
      (fun _ _ _ => .rfl) ?_ (fun id hid => ?_) (fun hoff => absurd hpos (not_lt.mpr hoff))
    · refine List.mem_append.trans (or_iff_left fun hnew => hcb ?_)
      rw [List.mem_singleton.mp hnew]
    · refine filed_of_one
        ⟨now + idleTimeoutS * 1000 * 1000000, r.sessions.length, r.timers.nextId⟩
        (fun e hcb => ?_) rfl hfresh ?_ ?_ ?_
      · refine List.mem_append.trans ((or_iff_right fun hold => ?_).trans List.mem_singleton)
        exact hnone e hold hcb
      · rw [conn_armIdleTimer rfl]
        rfl
      · rw [conn_armIdleTimer rfl]
        exact if_pos hpos
      · show now + idleTimeoutS * 1000 * 1000000 ≤ now + idleTimeoutS * 1000000000
        linarith
    · obtain ⟨e, he, hid⟩ := h.marked id hid
      exact ⟨e, List.mem_append_left _ he, hid⟩
  · rw [if_neg hpos]
    refine h.change r.sessions.length _ (hself _) (fun c' => hothers _) h.numbered (fun _ _ => .rfl)
      (fun _ _ _ => .rfl) ?_ h.marked h.off
    have hidle : ((start fd idleTimeoutS now).armIdleTimer r.timers.nextId).conn.idleTimer = 0 := by
      rw [armIdleTimer_of_not_pos (s := start fd idleTimeoutS now) hpos]
      rfl
    have hempty := h.off (not_lt.mp hpos)
    refine ⟨?_, ?_, ?_, ?_, fun _ harmed => absurd hidle harmed⟩
    all_goals
      intro e he
      rw [show r.timers.heap = [] from hempty] at he
      cases he

end WsServer.Reactor
