import WsServer.Connection.Arming
import WsServer.Connection.Waiting
import WsServer.Model.Socket

/-!
# No event is lost under edge triggering

A condition that goes on holding is not reported again, so a handler that leaves one behind leaves
the connection stuck.  Three things keep this from happening: the read loop ends at `EAGAIN`, a
`write` that does not take everything has filled the socket, and `EPOLL_CTL_MOD` looks at the
conditions itself.

The kernel keeps up one fact about each condition by itself: when it holds, the socket is on the
ready list (`Noticed`).  Its own steps and all system calls preserve this; only `epoll_wait`, which
takes the socket off the list, breaks it, for the conditions that it reports.  So what is left to
show is that the handler for a reported condition restores it (`Watched`, `Leads`), and that is the
argument above.  The one exception is a `write` that a signal cuts short, where `handleWrite`
returns at once.
-/

namespace WsServer

open CString Interleaving

/-! ## The kernel -/

inductive Condition
  | hangup
  | readable
  | writable

def EventMask.holds (r : EventMask) : Condition → Bool
  | .hangup => r.hangup
  | .readable => r.readable
  | .writable => r.writable

theorem EventMask.any_of_holds {r : EventMask} {c : Condition} (h : r.holds c = true) :
    r.any = true := by
  cases c with
  | _ =>
      simp only [holds] at h
      simp [any, h]

namespace Socket

/-- The kernel can come from `k` to `k'` while these system calls are made. -/
abbrev Answers (k : Socket) (calls : List SysCall) (k' : Socket) : Prop :=
  Serves net serve k calls k'

/-- While the condition holds, the socket is on the ready list. -/
def Noticed (c : Condition) (k : Socket) : Prop := k.ready.holds c = true → k.pending = true

variable {c : Condition} {k k' : Socket} {calls : List SysCall}

theorem Noticed.of_not (h : k.ready.holds c = false) : Noticed c k := by
  intro hholds
  rw [h] at hholds
  cases hholds

/-- A condition that comes to hold is an edge. -/
theorem noticed_notice {new : Socket} (hpending : new.pending = k.pending) (h : Noticed c k) :
    Noticed c (k.notice new) := by
  intro hnew
  have hready : (k.notice new).ready = new.ready := rfl
  rw [hready] at hnew
  cases hold : k.ready.holds c with
  | true => simp [notice, hpending, h hold]
  | false =>
      cases c with
      | _ =>
          simp only [EventMask.holds] at hnew hold
          simp [notice, hnew, hold]

theorem noticed_net (step : NetStep) (h : Noticed c k) : Noticed c (k.net step) := by
  cases step with
  | arrive data =>
      rw [net]
      split
      · exact h
      · exact noticed_notice rfl h
  | finish => exact noticed_notice rfl h
  | reset => exact noticed_notice rfl h
  | drain n => exact noticed_notice rfl h
  | wake => exact fun _ => rfl

theorem noticed_register (k : Socket) (out : Bool) : Noticed c (k.register out) := by
  intro hholds
  have hready : (k.register out).ready = { k with out := out }.ready := rfl
  rw [hready] at hholds
  show (k.pending || { k with out := out }.ready.any) = true
  rw [EventMask.any_of_holds hholds, Bool.or_true]

/-- A system call other than `epoll_ctl` makes no condition come to hold. -/
theorem serve_cases {call : SysCall} (h : k.serve call = some k') :
    (∃ out, call = .epollMod out ∧ k' = k.register out) ∨
      (k'.out = k.out ∧ k'.pending = k.pending ∧
        ∀ c, k'.ready.holds c = true → k.ready.holds c = true) := by
  have hsame : k' = k → k'.out = k.out ∧ k'.pending = k.pending ∧
      ∀ c, k'.ready.holds c = true → k.ready.holds c = true := by
    rintro rfl
    exact ⟨rfl, rfl, fun _ => id⟩
  unfold serve at h
  split at h
  · simp only [Option.ite_none_right_eq_some, Option.some.injEq] at h
    obtain ⟨-, rfl⟩ := h
    refine .inr ⟨rfl, rfl, fun c hc => ?_⟩
    cases c with
    | hangup => exact hc
    | writable => exact hc
    | readable =>
        -- what is left was there before
        cases hreceived : k.received with
        | nil => simpa [EventMask.holds, ready, hreceived] using hc
        | cons first rest => simp [EventMask.holds, ready, hreceived]
  · simp only [Option.ite_none_left_eq_some, Option.some.injEq] at h
    exact .inr (hsame h.2.symm)
  · simp only [Option.ite_none_right_eq_some, Option.some.injEq] at h
    exact .inr (hsame h.2.symm)
  · simp only [Option.ite_none_right_eq_some, Option.some.injEq] at h
    exact .inr (hsame h.2.symm)
  · simp only [Option.ite_none_right_eq_some, Option.some.injEq] at h
    obtain ⟨⟨hspace, -⟩, rfl⟩ := h
    refine .inr ⟨rfl, rfl, fun c hc => ?_⟩
    cases c with
    | hangup => exact hc
    | readable => exact hc
    | writable =>
        simp only [EventMask.holds, ready, Bool.and_eq_true, decide_eq_true_eq] at hc ⊢
        exact ⟨hc.1, hspace⟩
  · simp only [Option.ite_none_right_eq_some, Option.some.injEq] at h
    exact .inr (hsame h.2.symm)
  · exact .inr (hsame (Option.some.inj h).symm)
  · simp only [Option.ite_none_right_eq_some, Option.some.injEq] at h
    exact .inr (hsame h.2.symm)
  · rename_i out
    exact .inl ⟨out, rfl, (Option.some.inj h).symm⟩

theorem noticed_serve {call : SysCall} (hk : Noticed c k) (h : k.serve call = some k') :
    Noticed c k' := by
  rcases serve_cases h with ⟨out, -, rfl⟩ | ⟨-, hpending, hready⟩
  · exact noticed_register k out
  · intro hholds
    rw [hpending]
    exact hk (hready c hholds)

/-- **The kernel.**  It keeps up by itself that a condition that holds has been noticed. -/
theorem Noticed.answers (hk : Noticed c k) (h : Answers k calls k') : Noticed c k' :=
  h.invariant (fun _ step hs => noticed_net step hs)
    (fun _ _ _ _ hs hserve => noticed_serve hs hserve) hk

@[simp] theorem out_net (k : Socket) (step : NetStep) : (k.net step).out = k.out := by
  cases step with
  | arrive data =>
      rw [net]
      split <;> rfl
  | _ => rfl

/-- Only `epoll_ctl` changes what is asked for. -/
theorem out_answers (h : Answers k calls k') (hcalls : ∀ out, .epollMod out ∉ calls) :
    k'.out = k.out := by
  refine h.invariant (P := fun k₁ => k₁.out = k.out) ?_ ?_ rfl
  · exact fun k₁ step hout => (out_net k₁ step).trans hout
  · intro k₁ call k₂ hmem hout hserve
    rcases serve_cases hserve with ⟨out, rfl, -⟩ | ⟨hkept, -, -⟩
    · exact absurd hmem (hcalls out)
    · exact hkept.trans hout

/-- After `EPOLL_CTL_MOD` every condition is noticed. -/
theorem answers_epollMod {out : Bool} (h : Answers k [.epollMod out] k') :
    k'.out = out ∧ Noticed .writable k' := by
  refine h.single (P := fun k => k.out = out ∧ Noticed .writable k) ?_ ?_
  · exact fun k step hk => ⟨(out_net k step).trans hk.1, noticed_net step hk.2⟩
  · intro before after _ hserve
    obtain rfl := Option.some.inj hserve
    exact ⟨rfl, noticed_register before out⟩

/-- A `write` that has not taken everything has filled the socket. -/
theorem answers_write {offered : Bytes} {result : WriteResult} (hresult : result ≠ .eintr)
    (hfailed : result ≠ .failed) (hrest : result.accepted offered.length < offered.length)
    (h : Answers k [.write offered result] k') : Noticed .writable k' := by
  refine h.single (fun k step hk => noticed_net step hk) fun before after _ hserve => ?_
  have hfull : after.space = 0 := by
    cases result with
    | wrote n =>
        simp only [serve, Option.ite_none_right_eq_some, Option.some.injEq] at hserve
        obtain ⟨⟨-, htaken⟩, rfl⟩ := hserve
        simp only [WriteResult.accepted] at hrest
        show before.space - min before.space offered.length = 0
        omega
    | eagain =>
        simp only [serve, Option.ite_none_right_eq_some, Option.some.injEq] at hserve
        obtain ⟨hspace, rfl⟩ := hserve
        exact hspace
    | eintr => exact absurd rfl hresult
    | failed => exact absurd rfl hfailed
  exact .of_not (by simp [EventMask.holds, ready, hfull])

end Socket

/-! ## The handlers -/

namespace Session

open Socket

variable {s s' s'' : Session} {k k' : Socket} {owed owed' : Bool} {effects : List Effect}

theorem callsTo_eq (h : s'.trace = s.trace ++ effects) : s.callsTo s' = sysCalls effects := by
  rw [callsTo, h, List.drop_left]

theorem callsTo_trans (h : s.trace <+: s'.trace) (h' : s'.trace <+: s''.trace) :
    s.callsTo s'' = s.callsTo s' ++ s'.callsTo s'' := by
  obtain ⟨first, hfirst⟩ := h
  obtain ⟨second, hsecond⟩ := h'
  have hboth : s''.trace = s.trace ++ (first ++ second) := by
    rw [← hsecond, ← hfirst, List.append_assoc]
  rw [callsTo_eq hboth, callsTo_eq hfirst.symm, callsTo_eq hsecond.symm, sysCalls, sysCalls,
    sysCalls, List.filterMap_append]

/-- A signal has cut the last call of `write` short. -/
def CutShort (s : Session) : Prop := ∃ armed, lastWrite s.trace = some (armed, .eintr)

/-- An open connection and its socket: what is registered is what the connection takes to be
registered, and room for output has been noticed, or is `owed` a handler. -/
structure Watched (owed : Bool) (s : Session) (k : Socket) : Prop where
  synced : s.conn.closed = false → k.out = s.conn.writing
  writable : s.conn.closed = false → owed = true ∨ k.Noticed .writable ∨ s.CutShort

theorem Watched.of_closed (h : s.conn.closed = true) : Watched owed s k := by
  have hnot : s.conn.closed ≠ false := by simp [h]
  exact ⟨fun hopen => absurd hopen hnot, fun hopen => absurd hopen hnot⟩

/-- What matters of the connection. -/
theorem Watched.congr (hk : Watched owed s k) (hclosed : s'.conn.closed = s.conn.closed)
    (hwriting : s'.conn.writing = s.conn.writing) (hlast : lastWrite s'.trace = lastWrite s.trace) :
    Watched owed s' k := by
  constructor
  · rw [hclosed, hwriting]
    exact hk.synced
  · rw [hclosed, CutShort, hlast]
    exact hk.writable

/-- What the network does, and system calls other than `epoll_ctl`. -/
theorem Watched.answers {calls : List SysCall} (hk : Watched owed s k) (h : k.Answers calls k')
    (hcalls : ∀ out, .epollMod out ∉ calls) : Watched owed s k' := by
  constructor
  · intro hopen
    rw [out_answers h hcalls, hk.synced hopen]
  · intro hopen
    exact (hk.writable hopen).imp id (Or.imp (·.answers h) id)

/-- What a part of a handler leaves, whatever the network does meanwhile. -/
structure Leads (owed owed' : Bool) (s s' : Session) : Prop where
  grows : s.trace <+: s'.trace
  watched : ∀ k k', Watched owed s k → k.Answers (s.callsTo s') k' → Watched owed' s' k'

theorem Leads.trans {owed'' : Bool} (h : Leads owed owed' s s') (h' : Leads owed' owed'' s' s'') :
    Leads owed owed'' s s'' := by
  refine ⟨h.grows.trans h'.grows, fun k k' hk hanswers => ?_⟩
  rw [callsTo_trans h.grows h'.grows] at hanswers
  obtain ⟨middle, hfirst, hsecond⟩ := hanswers.split
  exact h'.watched middle k' (h.watched k middle hk hfirst) hsecond

theorem Leads.weaken (h : Leads owed false s s') : Leads owed owed' s s' := by
  refine ⟨h.grows, fun k k' hk hanswers => ?_⟩
  obtain ⟨hsynced, hwritable⟩ := h.watched k k' hk hanswers
  refine ⟨hsynced, fun hopen => .inr ?_⟩
  rcases hwritable hopen with hfalse | hdone
  · cases hfalse
  · exact hdone

theorem leads_of_closed (hgrows : s.trace <+: s'.trace) (h : s'.conn.closed = true) :
    Leads owed owed' s s' := ⟨hgrows, fun _ _ _ _ => .of_closed h⟩

theorem lastWrite_append (h : ∀ e ∈ effects, e.sysCall? = none) (trace : List Effect) :
    lastWrite (trace ++ effects) = lastWrite trace := by
  have hwrites : effects.filterMap Effect.write? = [] := by
    refine List.filterMap_eq_nil_iff.mpr fun e he => ?_
    have hnone := h e he
    cases e with
    | write offered armed result => cases hnone
    | _ => rfl
  rw [lastWrite, lastWrite, List.filterMap_append, hwrites, List.append_nil]

/-- Nothing has happened to the socket. -/
theorem leads_of_same (htrace : s'.trace = s.trace ++ effects)
    (heffects : ∀ e ∈ effects, e.sysCall? = none) (hclosed : s'.conn.closed = s.conn.closed)
    (hwriting : s'.conn.writing = s.conn.writing) : Leads owed owed s s' := by
  refine ⟨⟨effects, htrace.symm⟩, fun k k' hk hanswers => ?_⟩
  rw [callsTo_eq htrace, sysCalls, List.filterMap_eq_nil_iff.mpr heffects] at hanswers
  have hlast : lastWrite s'.trace = lastWrite s.trace := by
    rw [htrace, lastWrite_append heffects]
  exact (hk.answers hanswers (by simp)).congr hclosed hwriting hlast

theorem leads_refl (s : Session) : Leads owed owed s s :=
  leads_of_same (List.append_nil _).symm (by simp) rfl rfl

theorem leads_close (s : Session) : Leads owed owed' s s.close := by
  obtain ⟨effects, htrace, -⟩ := grows_close s
  exact leads_of_closed ⟨effects, htrace.symm⟩ (closed_close s)

theorem leads_handleError (s : Session) : Leads owed owed' s s.handleError := by
  have hcount : Leads owed owed s s.countError :=
    leads_of_same (List.append_nil _).symm (by simp) rfl rfl
  exact hcount.trans (leads_close _)

/-! ### Writing -/

theorem leads_enableWriting (hopen : s.conn.closed = false) (on : Bool) :
    Leads owed false s (s.enableWriting on) := by
  obtain ⟨hwriting, -⟩ := enableWriting_of_open hopen on
  have htrace : (s.enableWriting on).trace = s.trace ++ [.epollMod s.conn.fd on] := by
    rw [enableWriting, if_neg (by simp [hopen])]
  refine ⟨⟨_, htrace.symm⟩, fun k k' _ hanswers => ?_⟩
  rw [callsTo_eq htrace] at hanswers
  obtain ⟨hout, hnoticed⟩ := answers_epollMod hanswers
  exact ⟨fun _ => hout.trans hwriting.symm, fun _ => .inr (.inl hnoticed)⟩

/-- Without `EPOLLOUT` there is nothing to be noticed. -/
theorem leads_of_not_writing (hwriting : s.conn.writing = false) : Leads owed false s s := by
  refine ⟨List.prefix_rfl, fun k k' hk hanswers => ?_⟩
  rw [callsTo_eq (List.append_nil _).symm] at hanswers
  have hout : s.conn.closed = false → k'.out = s.conn.writing := fun hopen => by
    rw [out_answers hanswers (by simp [sysCalls]), hk.synced hopen]
  refine ⟨hout, fun hopen => .inr (.inl (.of_not ?_))⟩
  simp [EventMask.holds, Socket.ready, hout hopen, hwriting]

theorem leads_outputSent (hopen : s.conn.closed = false) : Leads owed false s s.outputSent := by
  have hoff : Leads owed false s (if s.conn.writing then s.enableWriting false else s) := by
    split
    · exact leads_enableWriting hopen false
    · rename_i hwriting
      exact leads_of_not_writing (by simpa using hwriting)
  unfold outputSent
  split
  · exact hoff.trans (leads_close _)
  · exact hoff

/-- The end of `handleWrite`: it registers what has to be, unless that is registered already and
the socket is full. -/
theorem leads_afterWrite (hopen : s.conn.closed = false)
    (hfull : s.conn.output.readableBytes ≠ 0 → s.conn.writing = true → owed = false) :
    Leads owed false s s.afterWrite := by
  unfold afterWrite
  split
  · exact leads_outputSent hopen
  · rename_i hrest
    split
    · exact leads_enableWriting hopen true
    · rename_i hwriting
      rw [hfull hrest (by simpa using hwriting)]
      exact leads_refl s

theorem callsTo_noteWrite (s : Session) (result : WriteResult) :
    s.callsTo (s.noteWrite result) = [.write s.conn.output.readable result] := by
  have htrace : (s.noteWrite result).trace =
      s.trace ++ [.write s.conn.output.readable s.conn.writing result] := rfl
  exact callsTo_eq htrace

theorem trace_prefix_of_grows {P : Effect → Bool} (h : Grows P s s') : s.trace <+: s'.trace := by
  obtain ⟨effects, htrace, -⟩ := h
  exact ⟨effects, htrace.symm⟩

theorem out_noteWrite {result : WriteResult} (hk : Watched owed s k)
    (hanswers : k.Answers (s.callsTo (s.noteWrite result)) k') :
    s.conn.closed = false → k'.out = s.conn.writing := by
  intro hopen
  rw [callsTo_noteWrite] at hanswers
  rw [out_answers hanswers (by simp), hk.synced hopen]

/-- A `write`: room for the rest is noticed from then on; if there is no rest, it need not be. -/
theorem leads_noteWrite {result : WriteResult} (hresult : result ≠ .eintr)
    (hfailed : result ≠ .failed) : Leads owed
      (decide ((s.noteWrite result).conn.output.readableBytes = 0)) s (s.noteWrite result) := by
  refine ⟨trace_prefix_of_grows (grows_noteWrite s result), fun k k' hk hanswers => ?_⟩
  refine ⟨out_noteWrite (s := s) hk hanswers, fun _ => ?_⟩
  by_cases hrest : (s.noteWrite result).conn.output.readableBytes = 0
  · exact .inl (decide_eq_true hrest)
  · refine .inr (.inl ?_)
    rw [callsTo_noteWrite] at hanswers
    refine answers_write hresult hfailed ?_ hanswers
    rw [← Buffer.length_readable, readable_noteWrite, List.length_drop, ← Buffer.length_readable]
      at hrest
    omega

theorem leads_noteWrite_eintr : Leads owed false s (s.noteWrite .eintr) := by
  refine ⟨trace_prefix_of_grows (grows_noteWrite s .eintr), fun k k' hk hanswers => ?_⟩
  exact ⟨out_noteWrite (s := s) hk hanswers,
    fun _ => .inr (.inr ⟨_, lastWrite_noteWrite s .eintr⟩)⟩

/-- **One call.**  `handleWrite` pays what is owed. -/
theorem leads_handleWrite (env : Env) (s : Session) : Leads owed false s (s.handleWrite env) := by
  cases hclosed : s.conn.closed with
  | true =>
      rw [handleWrite_of_closed env hclosed]
      exact leads_of_closed List.prefix_rfl hclosed
  | false =>
      have hafter (result : WriteResult) (hresult : result ≠ .eintr) (hfailed : result ≠ .failed) :
          Leads owed false s (s.noteWrite result).afterWrite :=
        (leads_noteWrite hresult hfailed).trans
          (leads_afterWrite hclosed fun hrest _ => decide_eq_false hrest)
      unfold handleWrite
      rw [if_neg (by simp [hclosed])]
      split
      · cases env.write s.writes with
        | wrote n => exact hafter (.wrote n) (by simp) (by simp)
        | eintr => exact leads_noteWrite_eintr
        | eagain => exact hafter .eagain (by simp) (by simp)
        | failed =>
            have hgrows := (grows_noteWrite s .failed).trans (silent_handleError _).grows.isIo
            exact leads_of_closed (trace_prefix_of_grows hgrows) (closed_close _)
      · rename_i hempty
        exact leads_afterWrite hclosed fun hrest _ => absurd (Nat.pos_of_ne_zero hrest) hempty

theorem leads_send (env : Env) (s : Session) (data : Bytes) :
    Leads owed owed s (s.send env data) := by
  unfold send
  split
  · exact leads_refl s
  · have htrace : (s.queue data).trace = s.trace ++ [.queue data s.conn.closeAfterWrite] := rfl
    have hqueue : Leads owed owed s (s.queue data) :=
      leads_of_same htrace (by simp [Effect.sysCall?]) rfl rfl
    exact hqueue.trans (leads_handleWrite env _).weaken

/-! ### Reading -/

theorem leads_answerRequest (env : Env) (s : Session) :
    Leads owed owed s (s.answerRequest env) := by
  have hcall : Leads owed owed s (s.afterCall env (s.callHandler env).1) := by
    have htrace := (trace_afterCall env s (s.callHandler env).1).1
    refine leads_of_same htrace (by simp [Effect.sysCall?])
      (trace_afterCall env s (s.callHandler env).1).2 ?_
    unfold afterCall
    split <;> rfl
  have hfinish (s : Session) : Leads owed owed s s.finishRequest :=
    leads_of_same (List.append_nil _).symm (by simp) rfl rfl
  exact (hcall.trans (leads_send env _ _)).trans (hfinish _)

theorem leads_rejectRequest (env : Env) (s : Session) :
    Leads owed owed s (s.rejectRequest env) := by
  have hmark : Leads owed owed s s.countError.markClosing :=
    leads_of_same (List.append_nil _).symm (by simp) rfl rfl
  exact hmark.trans (leads_send env _ _)

theorem leads_handleRequest (env : Env) (s : Session) :
    Leads owed owed s (s.handleRequest env) := by
  apply handleRequest_invariant (P := Leads owed owed s) env
  · intro s' h
    exact h.trans (leads_of_same (List.append_nil _).symm (by simp) rfl rfl)
  · exact fun s' h => h.trans (leads_answerRequest env s')
  · exact fun s' h => h.trans (leads_rejectRequest env s')
  · exact leads_refl s

theorem leads_handleRead (env : Env) (s : Session) (call : ReadCall) :
    Leads owed owed s (s.handleRead env call) := by
  have hread := onlyInput_readSteps s call.steps
  have hsteps : Leads owed owed s (call.steps.foldl readStep s) :=
    leads_of_same (hread.trace.trans (List.append_nil _).symm) (by simp) hread.closed hread.writing
  unfold handleRead
  refine hsteps.trans ?_
  cases call.last with
  | eagain now =>
      have htouch (s : Session) : Leads owed owed s (s.touch now) :=
        leads_of_same (List.append_nil _).symm (by simp) rfl rfl
      exact (htouch _).trans (leads_handleRequest env _)
  | eof => exact leads_close _
  | failed => exact leads_handleError _

theorem watched_onIdleTimer (hk : Watched owed s k) (now : TimePoint) (fresh : TimerId) :
    Watched owed (s.onIdleTimer now fresh) k := by
  unfold onIdleTimer
  split
  · exact .of_closed (closed_close _)
  · unfold armIdleTimer
    split
    · exact hk
    · exact hk.congr rfl rfl (lastWrite_append (by simp [Effect.sysCall?]) _)

end Session

/-! ## Reading -/

/-- The bytes that a system call takes out of the socket. -/
def SysCall.taken : SysCall → Bytes
  | .readv data => data
  | _ => []

namespace Socket

variable {k k' : Socket} {calls : List SysCall}

theorem arrived_net {base : Bytes} (step : NetStep) (h : k.arrived = base ++ k.received) :
    (k.net step).arrived = base ++ (k.net step).received := by
  cases step with
  | arrive data =>
      rw [net]
      split
      · exact h
      · show k.arrived ++ data = base ++ (k.received ++ data)
        rw [h, List.append_assoc]
  | _ => exact h

theorem arrived_serve {base : Bytes} {call : SysCall} (h : k.arrived = base ++ k.received)
    (hserve : k.serve call = some k') : k'.arrived = base ++ call.taken ++ k'.received := by
  cases call with
  | readv data =>
      simp only [serve, Option.ite_none_right_eq_some, Option.some.injEq] at hserve
      obtain ⟨⟨rest, hrest⟩, rfl⟩ := hserve
      show k.arrived = base ++ data ++ k.received.drop data.length
      rw [h, ← hrest, List.drop_left, List.append_assoc]
  | lastReadv last =>
      have hk : k' = k := by
        cases last <;> simp only [serve, Option.ite_none_left_eq_some,
          Option.ite_none_right_eq_some, Option.some.injEq] at hserve <;> exact hserve.2.symm
      rw [hk, h]
      exact congrArg (· ++ k.received) (List.append_nil base).symm
  | write offered result =>
      have hk : k'.arrived = k.arrived ∧ k'.received = k.received := by
        cases result with
        | eintr => exact Option.some.inj hserve ▸ ⟨rfl, rfl⟩
        | _ =>
            simp only [serve, Option.ite_none_right_eq_some, Option.some.injEq] at hserve
            exact hserve.2 ▸ ⟨rfl, rfl⟩
      rw [hk.1, hk.2, h]
      exact congrArg (· ++ k.received) (List.append_nil base).symm
  | epollMod out =>
      obtain rfl := Option.some.inj hserve
      exact h.trans (congrArg (· ++ k.received) (List.append_nil base).symm)

/-- Every byte that has arrived is taken out once, in order, or still there. -/
theorem arrived_answers {base : Bytes} (h : k.arrived = base ++ k.received)
    (hanswers : k.Answers calls k') :
    k'.arrived = base ++ calls.flatMap SysCall.taken ++ k'.received := by
  induction calls generalizing k base with
  | nil =>
      rw [List.flatMap_nil, List.append_nil]
      exact hanswers.idle (P := fun k => k.arrived = base ++ k.received)
        (fun _ step hk => arrived_net step hk) h
  | cons call rest ih =>
      obtain ⟨before, after, hbefore, hserve, hrest⟩ := hanswers.cons
      have hfirst : before.arrived = base ++ before.received :=
        hbefore.idle (P := fun k => k.arrived = base ++ k.received)
          (fun _ step hk => arrived_net step hk) h
      rw [ih (arrived_serve hfirst hserve) hrest, List.flatMap_cons, ← List.append_assoc]

/-- After `EAGAIN` nothing is left to be read, or it has been noticed. -/
theorem noticed_of_eagain {call : ReadCall} {now : TimePoint} (hlast : call.last = .eagain now)
    (h : k.Answers call.sysCalls k') : Noticed .readable k' ∧ Noticed .hangup k' := by
  obtain ⟨middle, -, hend⟩ := h.split
  rw [hlast] at hend
  refine hend.single (P := fun k => Noticed .readable k ∧ Noticed .hangup k) ?_ ?_
  · exact fun _ step hk => ⟨noticed_net step hk.1, noticed_net step hk.2⟩
  · intro before after _ hserve
    simp only [serve, Option.ite_none_left_eq_some, Option.some.injEq, Bool.or_eq_true,
      not_or, Bool.not_eq_true] at hserve
    obtain ⟨⟨hreadable, hbroken⟩, rfl⟩ := hserve
    exact ⟨.of_not hreadable, .of_not hbroken⟩

end Socket

/-! ## A connection with its socket -/

namespace Polled

open Socket Session

variable {env : Env} {fd idleTimeoutS : ℤ} {now : TimePoint} {p p' : Polled}

/-- The condition has been reported, and the loop has yet to handle it. -/
def Owes (p : Polled) (c : Condition) : Bool := p.reported.elim false (·.holds c)

/-- What holds in every state: the connection has run through its log, and no condition is lost. -/
structure Inv (env : Env) (fd idleTimeoutS : ℤ) (now : TimePoint) (p : Polled) : Prop where
  session : p.session = run env (Session.start fd idleTimeoutS now) p.log
  arrived : p.socket.arrived = received p.log ++ p.socket.received
  watched : Watched (p.Owes .writable) p.session p.socket
  noticed : p.session.conn.closed = false → ∀ c, c ≠ .writable →
    p.Owes c = true ∨ Noticed c p.socket

theorem inv_start (env : Env) (fd idleTimeoutS : ℤ) (now : TimePoint) (k : Socket) :
    Inv env fd idleTimeoutS now (start fd idleTimeoutS now k) := by
  have hnoticed (c : Condition) : Noticed c k.attach := noticed_register _ false
  exact ⟨rfl, rfl, ⟨fun _ => rfl, fun _ => .inr (.inl (hnoticed .writable))⟩,
    fun _ c _ => .inr (hnoticed c)⟩

theorem inv_net (h : Inv env fd idleTimeoutS now p) (step : NetStep) :
    Inv env fd idleTimeoutS now { p with socket := p.socket.net step } := by
  refine ⟨h.session, arrived_net step h.arrived, ?_, fun hopen c hc => ?_⟩
  · have hanswers : p.socket.Answers [] (p.socket.net step) := ⟨[.own step], rfl, rfl⟩
    exact h.watched.answers hanswers (by simp)
  · exact (h.noticed hopen c hc).imp id (noticed_net step)

/-- `epoll_wait` reports what was noticed. -/
theorem inv_wait (h : Inv env fd idleTimeoutS now p) : Inv env fd idleTimeoutS now { p with
    socket := { p.socket with pending := false }
    reported := if p.socket.ready.any then some p.socket.ready else none } := by
  have howes (c : Condition) : (if p.socket.ready.any then some p.socket.ready else none).elim false
      (·.holds c) = true ∨ Noticed c { p.socket with pending := false } := by
    cases hholds : p.socket.ready.holds c with
    | true =>
        rw [if_pos (EventMask.any_of_holds hholds)]
        exact .inl hholds
    | false => exact .inr (.of_not hholds)
  refine ⟨h.session, h.arrived, ⟨h.watched.synced, fun _ => ?_⟩, fun _ c _ => howes c⟩
  exact (howes .writable).imp id .inl

theorem taken_sysCalls (effects : List Effect) : (sysCalls effects).flatMap SysCall.taken = [] := by
  rw [List.flatMap_eq_nil_iff]
  intro call hcall
  obtain ⟨effect, -, heffect⟩ := List.mem_filterMap.mp hcall
  cases effect with
  | write offered armed result => exact Option.some.inj heffect ▸ rfl
  | epollMod fd out => exact Option.some.inj heffect ▸ rfl
  | _ => cases heffect

theorem taken_readCall (call : ReadCall) : call.sysCalls.flatMap SysCall.taken = call.received := by
  rw [ReadCall.sysCalls, List.flatMap_append, List.flatMap_map]
  exact List.append_nil _

theorem taken_handlerCalls (r : EventMask) (call : ReadCall) (s s' : Session) :
    (handlerCalls r call s s').flatMap SysCall.taken =
      Session.received (Session.reported r.hangup (reading r call) r.writable) := by
  have hwrite : Session.received (if r.writable then [Event.write] else []) = [] := by
    cases r.writable <;> rfl
  rw [handlerCalls, List.flatMap_append, callsTo, taken_sysCalls, List.append_nil,
    Session.reported]
  split
  · rfl
  · rw [reading]
    split
    · show call.sysCalls.flatMap SysCall.taken = Session.received ([Event.read call] ++ _)
      rw [taken_readCall, Session.received, List.flatMap_append, ← Session.received,
        ← Session.received, hwrite]
      simp [Session.received, Event.received]
    · exact hwrite.symm

/-- `handleWrite` is called for `EPOLLOUT`, if the connection is still open. -/
theorem leads_ifWritable {s : Session} (hfd : s.conn.closed = false → 0 ≤ s.conn.fd)
    (writable : Bool) : Leads writable false s
      (if 0 ≤ s.conn.fd && writable then s.handleWrite env else s) := by
  cases writable with
  | false =>
      rw [Bool.and_false, if_neg Bool.false_ne_true]
      exact leads_refl s
  | true =>
      split
      · exact leads_handleWrite env s
      · rename_i hgone
        refine leads_of_closed List.prefix_rfl ?_
        by_contra hopen
        exact hgone (by simpa using hfd (by simpa using hopen))

/-- **The handlers.**  Whatever the network does meanwhile, the handlers for the reported
conditions leave none behind. -/
theorem watched_dispatch {s : Session} {k k' : Socket} {r : EventMask} {call : ReadCall}
    (hfd : 0 ≤ s.conn.fd) (hk : Watched r.writable s k)
    (hnoticed : ∀ c, c ≠ .writable → r.holds c = true ∨ Noticed c k)
    (hanswers : k.Answers (handlerCalls r call s
      (s.dispatch env r.hangup (reading r call) r.writable)) k') :
    Watched false (s.dispatch env r.hangup (reading r call) r.writable) k' ∧
      ((s.dispatch env r.hangup (reading r call) r.writable).conn.closed = false →
        ∀ c, c ≠ .writable → Noticed c k') := by
  cases hhangup : r.hangup with
  | true =>
      have hclosed : (s.dispatch env true (reading r call) r.writable).conn.closed = true :=
        closed_close _
      exact ⟨.of_closed hclosed, fun hstill => by simp [hclosed] at hstill⟩
  | false =>
      have hcalm : Noticed .hangup k' := by
        refine ((hnoticed .hangup (by simp)).resolve_left ?_).answers hanswers
        simp [EventMask.holds, hhangup]
      cases hreadable : r.readable with
      | false =>
          have hnone : reading r call = none := by simp [reading, hreadable]
          rw [handlerCalls, hhangup, hnone, if_neg Bool.false_ne_true] at hanswers
          rw [hnone]
          refine ⟨(leads_ifWritable (fun _ => hfd) r.writable).watched k k' hk hanswers, ?_⟩
          intro _ c hc
          cases c with
          | hangup => exact hcalm
          | writable => exact absurd rfl hc
          | readable =>
              refine ((hnoticed .readable (by simp)).resolve_left ?_).answers hanswers
              simp [EventMask.holds, hreadable]
      | true =>
          have hsome : reading r call = some call := by simp [reading, hreadable]
          rw [handlerCalls, hhangup, hsome, if_neg Bool.false_ne_true] at hanswers
          rw [hsome]
          obtain ⟨middle, hreads, hwrites⟩ := hanswers.split
          have hmiddle : Watched r.writable s middle :=
            hk.answers hreads (by simp [ReadCall.sysCalls])
          have hkeeps := keepsFd_handleRead env s call
          have hleads : Leads r.writable false s (s.dispatch env false (some call) r.writable) :=
            (leads_handleRead env s call).trans
              (leads_ifWritable (fun hstill => (hkeeps hstill).2 ▸ hfd) r.writable)
          refine ⟨hleads.watched middle k' hmiddle hwrites, fun hstill c hc => ?_⟩
          -- what is open has read until `EAGAIN`
          have hread : (s.handleRead env call).conn.closed = false := by
            unfold Session.dispatch at hstill
            rw [if_neg Bool.false_ne_true] at hstill
            dsimp only at hstill
            split at hstill
            · exact ((sameReading_handleWrite env _).keepsFd hstill).1
            · exact hstill
          obtain ⟨now, hlast⟩ : ∃ now, call.last = .eagain now := by
            unfold handleRead at hread
            cases hlast : call.last with
            | eagain now => exact ⟨now, rfl⟩
            | eof => simp [hlast] at hread
            | failed => simp [hlast, handleError] at hread
          obtain ⟨hempty, -⟩ := noticed_of_eagain hlast hreads
          cases c with
          | hangup => exact hcalm
          | writable => exact absurd rfl hc
          | readable => exact hempty.answers hwrites

/-- What is open still has its descriptor. -/
theorem Inv.fd_eq (h : Inv env fd idleTimeoutS now p) (hopen : p.session.conn.closed = false) :
    p.session.conn.fd = fd := by
  rw [h.session] at hopen ⊢
  exact (keepsFd_run env (Session.start fd idleTimeoutS now) p.log hopen).2

theorem inv_dispatch (hfd : 0 ≤ fd) (h : Inv env fd idleTimeoutS now p)
    (hopen : p.session.conn.closed = false) {r : EventMask} (hreported : p.reported = some r)
    {call : ReadCall} {k : Socket}
    (hanswers : p.socket.Answers (handlerCalls r call p.session
      (p.session.dispatch env r.hangup (reading r call) r.writable)) k) :
    Inv env fd idleTimeoutS now { p with
      session := p.session.dispatch env r.hangup (reading r call) r.writable
      socket := k
      reported := none
      log := p.log ++ Session.reported r.hangup (reading r call) r.writable } := by
  have howes (c : Condition) : p.Owes c = r.holds c := by rw [Owes, hreported]; rfl
  have harrived := arrived_answers h.arrived hanswers
  rw [taken_handlerCalls] at harrived
  have hrun := dispatch_run env hfd idleTimeoutS now (h.session ▸ hopen) r.hangup (reading r call)
    r.writable
  rw [← h.session] at hrun
  have hwatched := h.watched
  have hnoticed := h.noticed hopen
  simp only [howes] at hwatched hnoticed
  obtain ⟨hkept, hrest⟩ :=
    watched_dispatch ((h.fd_eq hopen).symm ▸ hfd) hwatched hnoticed hanswers
  refine ⟨hrun, ?_, hkept, fun hstill c hc => .inr (hrest hstill c hc)⟩
  rw [harrived, Session.received, Session.received, Session.received, List.flatMap_append]

theorem inv_idle (h : Inv env fd idleTimeoutS now p) (hopen : p.session.conn.closed = false)
    (t : TimePoint) (fresh : TimerId) : Inv env fd idleTimeoutS now { p with
      session := p.session.onIdleTimer t fresh
      log := p.log ++ [.idle t fresh] } := by
  refine ⟨?_, ?_, watched_onIdleTimer h.watched t fresh, fun hstill c hc => h.noticed hopen c hc⟩
  · have hstep : p.session.step env (.idle t fresh) = p.session.onIdleTimer t fresh := by
      rw [Session.step, if_neg (by simp [hopen])]
    rw [run, Transition.run_concat, ← run, ← h.session, hstep]
  · rw [h.arrived, received_concat]
    exact congrArg (· ++ p.socket.received) (List.append_nil _).symm

theorem inv_step? (hfd : 0 ≤ fd) (h : Inv env fd idleTimeoutS now p) {label : PolledLabel}
    (hstep : p.step? env label = some p') : Inv env fd idleTimeoutS now p' := by
  cases label with
  | net step => exact Option.some.inj hstep ▸ inv_net h step
  | wait =>
      simp only [step?, Option.ite_none_right_eq_some, Option.some.injEq] at hstep
      exact hstep.2 ▸ inv_wait h
  | dispatch call script =>
      simp only [step?] at hstep
      split at hstep
      · cases hstep
      · rename_i r hreported
        split at hstep
        · cases hstep
        · rename_i hopen
          obtain ⟨k, hreplay, hnext⟩ := Option.bind_eq_some_iff.mp hstep
          simp only [Option.ite_none_right_eq_some, Option.some.injEq] at hnext
          obtain ⟨hcalls, rfl⟩ := hnext
          exact inv_dispatch hfd h (by simpa using hopen) hreported ⟨script, hcalls, hreplay⟩
  | idle t fresh =>
      simp only [step?, Option.ite_none_left_eq_some, Option.some.injEq, Bool.or_eq_true,
        not_or] at hstep
      obtain ⟨⟨hopen, -⟩, rfl⟩ := hstep
      exact inv_idle h (by simpa using hopen) t fresh

theorem inv_run (env : Env) (hfd : 0 ≤ fd) (idleTimeoutS : ℤ) (now : TimePoint) (k : Socket)
    (labels : List PolledLabel) : Inv env fd idleTimeoutS now
      (Transition.run (step env) (start fd idleTimeoutS now k) labels) := by
  refine Transition.run_invariant (fun p label h => ?_) (inv_start env fd idleTimeoutS now k) labels
  exact Transition.attempt_invariant (fun _ _ _ h hstep => inv_step? hfd h hstep) p label h

/-- `epoll_wait` has nothing to report for the connection, and nothing that it reported is left. -/
def AtRest (p : Polled) : Prop :=
  p.session.conn.closed = false ∧ p.reported = none ∧ p.socket.pending = false

/-- What a state without an event to come looks like. -/
structure Drained (p : Polled) : Prop where
  read : p.socket.arrived = Session.received p.log
  /-- What has arrived has been parsed, up to what is left in the input. -/
  taken : p.session.Taken p.socket.arrived
  /-- That is the beginning of one line or of one body, unless the connection is to be closed. -/
  waits : p.session.conn.closeAfterWrite = false →
    HttpParser.Waits p.session.conn.parser p.session.conn.input.readable
  finished : p.socket.finished = false
  broken : p.socket.broken = false
  /-- Output that is left waits for room, unless a signal has cut the last `write` short. -/
  written : p.session.conn.output.readable ≠ [] → ¬p.session.CutShort →
    p.session.conn.writing = true ∧ p.socket.out = true ∧ p.socket.space = 0

theorem Inv.drained (h : Inv env fd idleTimeoutS now p) (hrest : AtRest p) : Drained p := by
  obtain ⟨hopen, hreported, hpending⟩ := hrest
  have hnot {c : Condition} (hnoticed : Noticed c p.socket) : p.socket.ready.holds c = false := by
    by_contra hholds
    rw [hnoticed (by simpa using hholds)] at hpending
    cases hpending
  have howes (c : Condition) : ¬p.Owes c = true := by simp [Owes, hreported]
  have hreadable := hnot ((h.noticed hopen .readable (by simp)).resolve_left (howes _))
  have hbroken := hnot ((h.noticed hopen .hangup (by simp)).resolve_left (howes _))
  simp only [EventMask.holds, Socket.ready, Bool.or_eq_false_iff, Bool.not_eq_false',
    List.isEmpty_iff] at hreadable hbroken
  have hread : p.socket.arrived = Session.received p.log := by
    rw [h.arrived, hreadable.1, List.append_nil]
  refine ⟨hread, ?_, ?_, hreadable.2, hbroken, fun houtput hcut => ?_⟩
  · rw [hread, h.session]
    exact taken_run env fd idleTimeoutS now (h.session ▸ hopen)
  · have hwaiting : Waiting p.session := h.session ▸ waiting_run env fd idleTimeoutS now p.log
    exact hwaiting.waits hopen
  · have hsettled : Settled p.session := by
      rw [h.session]
      exact Transition.run_invariant (settled_step env) (settled_start fd idleTimeoutS now) p.log
    have hwriting := hsettled.armed hopen (fun hinterrupted => hcut ⟨_, hinterrupted⟩) houtput
    have hout := (h.watched.synced hopen).trans hwriting
    have hwritable := hnot (((h.watched.writable hopen).resolve_left (howes _)).resolve_right hcut)
    refine ⟨hwriting, hout, ?_⟩
    simpa [EventMask.holds, Socket.ready, hout] using hwritable

/-- **No event is lost.**  Whatever the network does, and whenever it does it: in every state in
which an open connection has no event to come, all that has arrived has been read and parsed, but
for the beginning of one line or body or what comes behind the last request that is answered; the
peer has neither closed nor reset the connection; and if there is output left, the socket is full
and `EPOLLOUT` is registered, unless a signal has cut the last `write` short. -/
theorem edgeTriggered_run (env : Env) (hfd : 0 ≤ fd) (idleTimeoutS : ℤ) (now : TimePoint)
    (k : Socket) (labels : List PolledLabel)
    (hrest : AtRest (Transition.run (step env) (start fd idleTimeoutS now k) labels)) :
    Drained (Transition.run (step env) (start fd idleTimeoutS now k) labels) :=
  (inv_run env hfd idleTimeoutS now k labels).drained hrest

/-- A request whose second half arrives while the handler for the first one runs, and a response
for which there is room in parts only. -/
def sampleLabels : List PolledLabel :=
  let front := bytes "GET / HT"
  let back := bytes "TP/1.1\r\n\r\n"
  let response := HttpResponse.toString {}
  [.net (.arrive front), .wait,
    .dispatch ⟨[.data front (by decide)], .eagain 1⟩
      [.request (.readv front), .request (.lastReadv (.eagain 1)), .own (.arrive back)],
    .wait,
    .dispatch ⟨[.data back (by decide)], .eagain 2⟩
      [.request (.readv back), .request (.lastReadv (.eagain 2)),
        .request (.write response (.wrote 5)), .request (.epollMod true), .own (.drain 100)],
    .wait,
    .dispatch ⟨[], .eagain 3⟩
      [.request (.write (response.drop 5) (.wrote 100)), .request (.epollMod false)]]

/-- The law on this run: in the end everything has been read and written, and the parser waits for
the next request. -/
theorem edgeTriggered_run_sample :
    let env : Env := ⟨fun _ _ => {}, fun k => if k = 0 then .wrote 5 else .wrote 100⟩
    let p := Transition.run (step env) (start 5 60 0 { space := 5 }) sampleLabels
    AtRest p ∧ p.socket.arrived = Session.received p.log ∧
      p.socket.arrived = bytes "GET / HTTP/1.1\r\n\r\n" ∧
      HttpParser.Waits p.session.conn.parser p.session.conn.input.readable ∧
      p.session.conn.output.readable = [] := by
  intro env p
  have hrest : AtRest p := ⟨by decide +kernel, by decide +kernel, by decide +kernel⟩
  have hlaw := edgeTriggered_run env (by decide) 60 0 { space := 5 } sampleLabels hrest
  exact ⟨hrest, hlaw.read, by decide +kernel, hlaw.waits (by decide +kernel),
    by decide +kernel⟩

end Polled

end WsServer
