import WsServer.Reactor.Handlers

/-!
# The table of connections

Between two handlers the table of a loop, its registrations in epoll and its open connections say
the same (`Tabled`): under each descriptor stands the open connection that has it.  Every handler
keeps this once all its actions are performed, and on the way there it adds only what is not in the
table and removes only its own entry (`Sound`).
-/

namespace WsServer

open Session

namespace Session

variable {idleTimeoutS : ℤ} {now : TimePoint} {s s' : Session}

/-- What an open connection is, and what a closed one. -/
structure Whole (idleTimeoutS : ℤ) (s : Session) : Prop where
  timeout : s.conn.idleTimeoutS = idleTimeoutS
  opened : s.conn.closed = false → 0 ≤ s.conn.fd ∧ s.counters.closed = 0
  ended : s.conn.closed = true →
    s.conn.fd = -1 ∧ s.conn.idleTimer = 0 ∧ s.counters.closed = 1

theorem Outcome.whole (h : Outcome s s' now) (hwhole : Whole idleTimeoutS s) :
    Whole idleTimeoutS s' := by
  refine ⟨h.idleTimeoutS.trans hwhole.timeout, fun hopen => ?_, fun hclosed => ?_⟩
  · rcases h.course with hsame | hended
    · rw [hsame.fd, hsame.count]
      exact hwhole.opened (hsame.closed ▸ hopen)
    · rw [hended.closed] at hopen
      simp at hopen
  · rcases h.course with hsame | hended
    · rw [hsame.fd, hsame.count, hsame.idleTimer]
      exact hwhole.ended (hsame.closed ▸ hclosed)
    · refine ⟨hended.fd, hended.idleTimer, ?_⟩
      rw [hended.count, (hwhole.opened hended.wasOpen).2]

theorem Outcome.le_lastActivity (h : Outcome s s' now) (hle : s.conn.lastActivity ≤ now) :
    s.conn.lastActivity ≤ s'.conn.lastActivity ∧ s'.conn.lastActivity ≤ now := by
  rcases h.lastActivity with hsame | hnow
  · rw [hsame]
    exact ⟨le_rfl, hle⟩
  · rw [hnow]
    exact ⟨hle, le_rfl⟩

theorem whole_unarmed (h : Whole idleTimeoutS s) : Whole idleTimeoutS s.unarmed := by
  refine ⟨h.timeout, h.opened, fun hclosed => ?_⟩
  obtain ⟨hfd, -, hcount⟩ := h.ended hclosed
  exact ⟨hfd, rfl, hcount⟩

theorem whole_armIdleTimer (h : Whole idleTimeoutS s) (fresh : TimerId) :
    Whole idleTimeoutS (s.armIdleTimer fresh) := by
  unfold armIdleTimer
  split
  · exact h
  · rename_i hskip
    have hopen : s.conn.closed = false := by
      simp only [Bool.or_eq_true, not_or, Bool.not_eq_true] at hskip
      exact hskip.1
    refine ⟨h.timeout, h.opened, fun hclosed => ?_⟩
    rw [hopen] at hclosed
    simp at hclosed

theorem conn_armIdleTimer (hopen : s.conn.closed = false) (fresh : TimerId) :
    (s.armIdleTimer fresh).conn = { s.conn with
      idleTimer := if 0 < s.conn.idleTimeoutS then fresh else s.conn.idleTimer } := by
  by_cases htimeout : 0 < s.conn.idleTimeoutS
  · rw [armIdleTimer_of_pos hopen htimeout, if_pos htimeout]
  · rw [armIdleTimer_of_not_pos htimeout, if_neg htimeout]

theorem counters_armIdleTimer (s : Session) (fresh : TimerId) :
    (s.armIdleTimer fresh).counters = s.counters := by
  unfold armIdleTimer
  split <;> rfl

theorem whole_start {fd : ℤ} (hfd : 0 ≤ fd) (idleTimeoutS : ℤ) (now : TimePoint) :
    Whole idleTimeoutS (start fd idleTimeoutS now) :=
  ⟨rfl, fun _ => ⟨hfd, rfl⟩, nofun⟩

end Session

namespace Reactor

variable {idleTimeoutS : ℤ} {now : TimePoint} {r r' : Reactor} {todo : List Action}

/-- An open connection of the loop. -/
def IsOpen (r : Reactor) (c : ConnId) (s : Session) : Prop :=
  r.sessions[c]? = some s ∧ s.conn.closed = false

structure Tabled (idleTimeoutS : ℤ) (r : Reactor) : Prop where
  whole : ∀ s ∈ r.sessions, Whole idleTimeoutS s
  find : ∀ fd c, r.connections.find? fd = some c ↔ ∃ s, r.IsOpen c s ∧ s.conn.fd = fd
  registered : r.registered = r.connections

theorem tabled_empty : Tabled idleTimeoutS {} :=
  ⟨by simp, fun fd c => by simp [IsOpen], rfl⟩

theorem Tabled.congr (h : Tabled idleTimeoutS r) (hsessions : r'.sessions = r.sessions)
    (hconnections : r'.connections = r.connections) (hregistered : r'.registered = r.registered) :
    Tabled idleTimeoutS r' := by
  refine ⟨?_, ?_, ?_⟩
  · rw [hsessions]
    exact h.whole
  · intro fd c
    simp only [hconnections, IsOpen, hsessions]
    exact h.find fd c
  · rw [hregistered, hconnections]
    exact h.registered

theorem Tabled.isAlive_iff (h : Tabled idleTimeoutS r) (c : ConnId) :
    r.isAlive c = true ↔ ∃ s, r.IsOpen c s := by
  rw [isAlive, List.any_eq_true]
  constructor
  · rintro ⟨⟨fd, c'⟩, hmem, hsame⟩
    obtain rfl : c' = c := of_decide_eq_true hsame
    obtain ⟨s, hopen, -⟩ := (h.find fd c').mp (r.connections.find?_eq_some_iff.mpr hmem)
    exact ⟨s, hopen⟩
  · rintro ⟨s, hopen⟩
    have hfind := (h.find s.conn.fd c).mpr ⟨s, hopen, rfl⟩
    exact ⟨(s.conn.fd, c), r.connections.find?_eq_some_iff.mp hfind, decide_eq_true rfl⟩

/-- A descriptor has one open connection. -/
theorem Tabled.fd_inj (h : Tabled idleTimeoutS r) {c c' : ConnId} {s s' : Session}
    (hs : r.IsOpen c s) (hs' : r.IsOpen c' s') (hfd : s.conn.fd = s'.conn.fd) : c = c' := by
  have hfind := (h.find s.conn.fd c).mpr ⟨s, hs, rfl⟩
  have hfind' := (h.find s.conn.fd c').mpr ⟨s', hs', hfd.symm⟩
  exact Option.some.inj (hfind.symm.trans hfind')

/-! ## One connection changes -/

section Set

variable {c c' : ConnId} {s s' s₁ : Session}

theorem isOpen_iff (hs : r.sessions[c]? = some s) :
    r.IsOpen c s₁ ↔ s₁ = s ∧ s.conn.closed = false := by
  rw [IsOpen, hs, Option.some.injEq]
  constructor
  · rintro ⟨rfl, hopen⟩
    exact ⟨rfl, hopen⟩
  · rintro ⟨rfl, hopen⟩
    exact ⟨rfl, hopen⟩

theorem isOpen_set_self (hs : r.sessions[c]? = some s)
    (hset : r'.sessions = r.sessions.set c s') :
    r'.IsOpen c s₁ ↔ s₁ = s' ∧ s'.conn.closed = false := by
  refine isOpen_iff ?_
  rw [hset, List.getElem?_set_self (List.getElem?_eq_some_iff.mp hs).1]

theorem isOpen_set_ne (hc : c' ≠ c) (hset : r'.sessions = r.sessions.set c s') :
    r'.IsOpen c' s₁ ↔ r.IsOpen c' s₁ := by
  rw [IsOpen, IsOpen, hset, List.getElem?_set_ne (Ne.symm hc)]

theorem isOpen_concat (hopen : s'.conn.closed = false)
    (hset : r'.sessions = r.sessions ++ [s']) :
    r'.IsOpen c s₁ ↔ r.IsOpen c s₁ ∨ c = r.sessions.length ∧ s₁ = s' := by
  rw [IsOpen, IsOpen, hset]
  rcases lt_trichotomy c r.sessions.length with hlt | rfl | hgt
  · rw [List.getElem?_append_left hlt]
    simp [hlt.ne]
  · simp only [List.getElem?_concat_length, Option.some.injEq, List.getElem?_eq_none le_rfl]
    constructor
    · rintro ⟨rfl, -⟩
      exact .inr ⟨trivial, rfl⟩
    · rintro (⟨hnone, -⟩ | ⟨-, rfl⟩)
      · simp at hnone
      · exact ⟨rfl, hopen⟩
  · rw [List.getElem?_eq_none (by simpa using hgt), List.getElem?_eq_none hgt.le]
    simp [hgt.ne']

theorem whole_set (h : Tabled idleTimeoutS r) (hwhole : Whole idleTimeoutS s') :
    ∀ s₁ ∈ r.sessions.set c s', Whole idleTimeoutS s₁ := by
  intro s₁ hmem
  rcases List.mem_or_eq_of_mem_set hmem with hmem | rfl
  · exact h.whole s₁ hmem
  · exact hwhole

/-- A connection is left with its descriptor. -/
theorem tabled_set_same (h : Tabled idleTimeoutS r) (hs : r.sessions[c]? = some s)
    (hwhole : Whole idleTimeoutS s') (hclosed : s'.conn.closed = s.conn.closed)
    (hfd : s'.conn.fd = s.conn.fd) (hset : r'.sessions = r.sessions.set c s')
    (hconnections : r'.connections = r.connections) (hregistered : r'.registered = r.registered) :
    Tabled idleTimeoutS r' := by
  refine ⟨hset ▸ whole_set h hwhole, ?_, by rw [hregistered, hconnections, h.registered]⟩
  intro fd c'
  rw [hconnections, h.find fd c']
  by_cases hc : c' = c
  · subst hc
    simp only [isOpen_set_self hs hset, isOpen_iff hs]
    constructor
    · rintro ⟨s₁, ⟨rfl, hopen⟩, rfl⟩
      exact ⟨s', ⟨rfl, hclosed.trans hopen⟩, hfd⟩
    · rintro ⟨s₁, ⟨rfl, hopen⟩, rfl⟩
      exact ⟨s, ⟨rfl, hclosed.symm.trans hopen⟩, hfd.symm⟩
  · simp only [isOpen_set_ne hc hset]

/-- A connection is closed, and its descriptor dropped. -/
theorem tabled_set_ended (h : Tabled idleTimeoutS r) (hs : r.IsOpen c s)
    (hwhole : Whole idleTimeoutS s') (hclosed : s'.conn.closed = true)
    (hset : r'.sessions = r.sessions.set c s')
    (hconnections : r'.connections = r.connections.erase s.conn.fd)
    (hregistered : r'.registered = r.registered.erase s.conn.fd) : Tabled idleTimeoutS r' := by
  refine ⟨hset ▸ whole_set h hwhole, ?_, by rw [hregistered, hconnections, h.registered]⟩
  intro fd c'
  rw [hconnections, SortedMap.find?_erase]
  have hown : r.connections.find? s.conn.fd = some c := (h.find _ c).mpr ⟨s, hs, rfl⟩
  by_cases hc : c' = c
  · subst hc
    simp only [isOpen_set_self hs.1 hset, hclosed]
    refine iff_of_false ?_ (by simp)
    split
    · simp
    · rename_i hfd
      intro hfind
      obtain ⟨s₁, hs₁, rfl⟩ := (h.find fd c').mp hfind
      obtain rfl : s = s₁ := Option.some.inj (hs.1.symm.trans hs₁.1)
      exact hfd rfl
  · simp only [isOpen_set_ne hc hset]
    rw [← h.find fd c']
    split
    · rename_i hfd
      subst hfd
      rw [hown, Option.some.injEq]
      exact iff_of_false (by simp) (Ne.symm hc)
    · rfl

/-- A connection is made, with a descriptor that is not in the table. -/
theorem tabled_concat (h : Tabled idleTimeoutS r) (hwhole : Whole idleTimeoutS s')
    (hopen : s'.conn.closed = false) (hfree : r.connections.find? s'.conn.fd = none)
    (hset : r'.sessions = r.sessions ++ [s'])
    (hconnections : r'.connections = r.connections.insert s'.conn.fd r.sessions.length)
    (hregistered : r'.registered = r.registered.insert s'.conn.fd r.sessions.length) :
    Tabled idleTimeoutS r' := by
  refine ⟨?_, ?_, by rw [hregistered, hconnections, h.registered]⟩
  · rw [hset]
    intro s₁ hmem
    rcases List.mem_append.mp hmem with hmem | hmem
    · exact h.whole s₁ hmem
    · rw [List.mem_singleton.mp hmem]
      exact hwhole
  · intro fd c'
    rw [hconnections, SortedMap.find?_insert]
    simp only [isOpen_concat hopen hset]
    split
    · rename_i hfd
      rw [Option.some.injEq]
      constructor
      · rintro rfl
        exact ⟨s', .inr ⟨rfl, rfl⟩, hfd.symm⟩
      · rintro ⟨s₁, hs₁ | ⟨rfl, -⟩, hfd₁⟩
        · have hfind := (h.find fd c').mpr ⟨s₁, hs₁, hfd₁⟩
          rw [hfd, hfree] at hfind
          simp at hfind
        · rfl
    · rename_i hfd
      rw [h.find fd c']
      constructor
      · rintro ⟨s₁, hs₁, hfd₁⟩
        exact ⟨s₁, .inl hs₁, hfd₁⟩
      · rintro ⟨s₁, hs₁ | ⟨-, rfl⟩, hfd₁⟩
        · exact ⟨s₁, hs₁, hfd₁⟩
        · exact absurd hfd₁.symm hfd

end Set

/-! ## Handlers -/

theorem tabled_handles (h : Tabled idleTimeoutS r) {fd : ℤ}
    (hrun : Handles r fd now r' todo) : Tabled idleTimeoutS (r'.settle todo) := by
  cases hrun with
  | nothing => exact h
  | stays c s s' hs houtcome hsame =>
      have hwhole := houtcome.whole (h.whole s (List.mem_of_getElem? hs))
      exact tabled_set_same h hs hwhole hsame.closed hsame.fd rfl rfl rfl
  | closes c s s' hfind hs houtcome hended =>
      have hwhole := h.whole s (List.mem_of_getElem? hs)
      have hfd : 0 ≤ s.conn.fd := (hwhole.opened hended.wasOpen).1
      rw [settle_closing _ c hfd]
      exact tabled_set_ended h ⟨hs, hended.wasOpen⟩ (houtcome.whole hwhole) hended.closed rfl rfl rfl

theorem tabled_fires (h : Tabled idleTimeoutS r) {c : ConnId} (hrun : Fires r c now r' todo) :
    Tabled idleTimeoutS (r'.settle todo) := by
  cases hrun with
  | nothing hnone => exact h
  | reaps s s' hs hdue hlives hended =>
      have hwhole := h.whole s (List.mem_of_getElem? hs)
      have hopen : s.conn.closed = false := hended.wasOpen
      rw [settle_closing _ c (hwhole.opened hopen).1]
      exact tabled_set_ended h ⟨hs, hopen⟩ ((hlives.outcome now).whole (whole_unarmed hwhole))
        hended.closed rfl rfl rfl
  | rearms s hs hopen htimeout hrecent =>
      have hwhole := h.whole s (List.mem_of_getElem? hs)
      refine tabled_set_same h hs (whole_armIdleTimer hwhole _) ?_ ?_ rfl rfl rfl
      all_goals rw [armIdleTimer_of_pos hopen htimeout]

/-- The callback of an idle timer closes only a connection that has been idle for its timeout. -/
theorem due_of_fires {c c₁ : ConnId} {s s' : Session} (hrun : Fires r c now r' todo)
    (hopen : r.IsOpen c₁ s) (hs' : r'.sessions[c₁]? = some s') (hclosed : s'.conn.closed = true) :
    s.conn.idleTimeoutS * 1000000000 ≤ now - s.conn.lastActivity := by
  have hchanged : s ≠ s' := by
    rintro rfl
    rw [hopen.2] at hclosed
    simp at hclosed
  cases hrun with
  | nothing hnone => exact absurd (Option.some.inj (hopen.1.symm.trans hs')) hchanged
  | reaps s₀ s₀' hs hdue hlives hended =>
      by_cases hc : c₁ = c
      · subst hc
        obtain rfl : s = s₀ := Option.some.inj (hopen.1.symm.trans hs)
        exact hdue
      · have hsame : r.sessions[c₁]? = some s' := by
          rw [← hs', List.getElem?_set_ne (Ne.symm hc)]
        exact absurd (Option.some.inj (hopen.1.symm.trans hsame)) hchanged
  | rearms s₀ hs hopen₀ htimeout hrecent =>
      by_cases hc : c₁ = c
      · subst hc
        have hrearmed : s' = s₀.armIdleTimer r.timers.nextId := by
          rw [List.getElem?_set_self (List.getElem?_eq_some_iff.mp hs).1] at hs'
          exact (Option.some.inj hs').symm
        rw [hrearmed, conn_armIdleTimer hopen₀] at hclosed
        rw [hopen₀] at hclosed
        simp at hclosed
      · have hsame : r.sessions[c₁]? = some s' := by
          rw [← hs', List.getElem?_set_ne (Ne.symm hc)]
        exact absurd (Option.some.inj (hopen.1.symm.trans hsame)) hchanged

/-- One round of `expire()`: a cancelled entry is dropped, or a callback runs. -/
theorem expireOne_cases (h : Tabled idleTimeoutS r) {t : TimePoint} {k : ℕ}
    {result : Reactor × List Action} (hone : r.expireOne t k now = some result) :
    ∃ e timers, r.timers.pop? t k = some (e, timers) ∧
      (r.timers.isLive e = false ∧ result = ({ r with timers := timers.forget e.id }, []) ∨
        r.timers.isLive e = true ∧
          Fires { r with timers := timers } e.cb now result.1 result.2) := by
  unfold expireOne at hone
  split at hone
  · simp at hone
  · rename_i e timers hpop
    refine ⟨e, timers, hpop, ?_⟩
    split at hone
    · rename_i hlive
      obtain rfl := Option.some.inj hone
      have htabled : Tabled idleTimeoutS { r with timers := timers } := h.congr rfl rfl rfl
      exact .inr ⟨hlive, fires_onIdleTimer _ e.cb now (htabled.isAlive_iff e.cb)⟩
    · rename_i hcancelled
      exact .inl ⟨by simpa using hcancelled, (Option.some.inj hone).symm⟩

theorem tabled_attachConnection (h : Tabled idleTimeoutS r) {fd : ℤ} (hfd : 0 ≤ fd)
    (hfree : r.connections.find? fd = none) (now : TimePoint) :
    Tabled idleTimeoutS ((r.attachConnection idleTimeoutS fd now).1.settle
      (r.attachConnection idleTimeoutS fd now).2) := by
  have hwhole := whole_armIdleTimer (whole_start hfd idleTimeoutS now) r.timers.nextId
  have hunregistered : r.registered.find? fd = none := by rw [h.registered, hfree]
  rw [attachConnection_eq]
  dsimp only
  rw [settle_attaching]
  · exact tabled_concat h hwhole (by rw [conn_armIdleTimer rfl]; rfl)
      (by rw [conn_armIdleTimer rfl]; exact hfree) rfl
      (by rw [conn_armIdleTimer rfl]; rfl) (by rw [conn_armIdleTimer rfl]; rfl)
  · exact hunregistered

/-! ## Every action on its way -/

/-- Nothing in the table is overwritten, and only the own entry is removed. -/
def Allowed (r : Reactor) : Action → Prop
  | .addConnection fd _ => r.connections.find? fd = none
  | .removeConnection fd c => r.connections.find? fd = some c
  | _ => True

/-- Each of these actions is allowed when its turn comes. -/
def Sound (r : Reactor) : List Action → Prop
  | [] => True
  | a :: rest => Allowed r a ∧ Sound (r.perform a) rest

theorem sound_closing {c : ConnId} {fd : ℤ} (hown : r.connections.find? fd = some c)
    (timer : TimerId) : Sound r (closing c fd timer) := by
  unfold closing
  split <;> split <;> simpa [Sound, Allowed, perform] using hown

theorem sound_attaching {c : ConnId} {fd : ℤ} (hfree : r.connections.find? fd = none)
    (now : TimePoint) : Sound r (attaching c idleTimeoutS fd now) := by
  unfold attaching
  split <;> simpa [Sound, Allowed, perform] using hfree

theorem sound_handles (h : Tabled idleTimeoutS r) {fd : ℤ}
    (hrun : Handles r fd now r' todo) : Sound r' todo := by
  cases hrun with
  | nothing => trivial
  | stays c s s' hs houtcome hsame => trivial
  | closes c s s' hfind hs houtcome hended =>
      refine sound_closing ?_ _
      exact (h.find _ c).mpr ⟨s, ⟨hs, hended.wasOpen⟩, rfl⟩

theorem sound_fires (h : Tabled idleTimeoutS r) {c : ConnId} (hrun : Fires r c now r' todo) :
    Sound r' todo := by
  cases hrun with
  | nothing hnone => trivial
  | reaps s s' hs hdue hlives hended =>
      refine sound_closing ?_ _
      exact (h.find _ c).mpr ⟨s, ⟨hs, hended.wasOpen⟩, rfl⟩
  | rearms s hs hopen htimeout hrecent => exact ⟨trivial, trivial⟩

theorem sound_attachConnection {fd : ℤ} (hfree : r.connections.find? fd = none)
    (now : TimePoint) :
    Sound (r.attachConnection idleTimeoutS fd now).1
      (r.attachConnection idleTimeoutS fd now).2 := by
  rw [attachConnection_eq]
  refine sound_attaching ?_ now
  exact hfree

end Reactor

end WsServer
