import WsServer.Connection.EdgeTriggered
import WsServer.Server.Responses

/-!
# From the first byte to the last

A client writes requests without waiting for responses, and reads what comes back.  Between it and
the handler of the server stand the network, edge-triggered epoll, the read loop, the parser, the
request loop, partial writes, and the responses one behind another in one stream.  Each has its own
law; here they are put together (`answered_run`): whenever there is no event to come, the client
has been answered.  It reads exactly the responses to the requests that it has written completely,
in their order, unless it has not made room for them.
-/

namespace WsServer

open CString Interleaving

/-! ## The network keeps up -/

namespace Socket

variable {k k' : Socket} {calls : List SysCall}

/-- The peer has neither closed nor reset the connection. -/
def Up (k : Socket) : Prop := k.finished = false ∧ k.broken = false

theorem up_of_net {step : NetStep} (h : (k.net step).Up) : k.Up := by
  cases step with
  | arrive data =>
      rw [net] at h
      split at h <;> exact h
  | finish => cases h.1
  | reset => cases h.2
  | drain n => exact h
  | wake => exact h

theorem up_of_serve {call : SysCall} (h : k'.Up) (hserve : k.serve call = some k') : k.Up := by
  unfold serve at hserve
  split at hserve
  all_goals
    simp only [Option.ite_none_right_eq_some, Option.ite_none_left_eq_some, Option.some.injEq]
      at hserve
    obtain ⟨-, rfl⟩ := hserve
    exact h

/-- A peer that has closed does not come back. -/
theorem up_of_answers (h : k'.Up) (hanswers : k.Answers calls k') : k.Up := by
  by_contra hdown
  exact hanswers.invariant (P := fun k => ¬k.Up) (fun _ _ hdown hup => hdown (up_of_net hup))
    (fun _ _ _ _ hdown hserve hup => hdown (up_of_serve hup hserve)) hdown h

/-- While the peer has not closed, reading ends at `EAGAIN`. -/
theorem eagain_of_up {call : ReadCall} (h : k'.Up) (hanswers : k.Answers call.sysCalls k') :
    ∃ now, call.last = .eagain now := by
  obtain ⟨middle, -, hend⟩ := hanswers.split
  obtain ⟨before, after, -, hserve, hrest⟩ := hend.cons
  have hup := up_of_answers h hrest
  cases hlast : call.last with
  | eagain now => exact ⟨now, rfl⟩
  | eof =>
      simp only [hlast, serve, Option.ite_none_right_eq_some, Option.some.injEq,
        Bool.and_eq_true] at hserve
      have hfinished := (hserve.2 ▸ hup).1
      simp [hserve.1.2] at hfinished
  | failed =>
      simp only [hlast, serve, Option.ite_none_right_eq_some, Option.some.injEq] at hserve
      have hbroken := (hserve.2 ▸ hup).2
      simp [hserve.1] at hbroken

end Socket

/-! ## Runs with an idle timer -/

namespace Session

variable {env : Env} {s : Session}

/-- A read until `EAGAIN`, a write, or the idle timer. -/
def Event.Quiet (event : Event) : Prop :=
  event.isExchange = true ∨ ∃ now fresh, event = .idle now fresh

/-- An idle timer that leaves the connection open does nothing to the exchange. -/
theorem Served.onIdleTimer {done rest : List HttpParser.Message} {tail : Bytes}
    (hs : Served env s done rest tail) (now : TimePoint) (fresh : TimerId)
    (hopen : (s.onIdleTimer now fresh).conn.closed = false) :
    Served env (s.onIdleTimer now fresh) done rest tail := by
  have hsilent := silent_onIdleTimer s now fresh
  have hreading := sameReading_onIdleTimer s now fresh
  constructor
  · exact ⟨hsilent.grows.isIo.handled_eq.trans hs.progress.handled,
      hsilent.grows.isIo.queued_eq.trans hs.progress.queued,
      hreading.calls.trans hs.progress.calls⟩
  · intro _
    rw [hreading.parser, hreading.input]
    exact hs.reading (hreading.keepsFd hopen).1
  · exact fun hne => ⟨hopen, hsilent.closing.trans (hs.active hne).2⟩
  · exact hs.front
  · exact hs.waiting

/-- A connection that is still open has served what has arrived. -/
theorem served_of_open (hwrite : ∀ n, env.write n ≠ .failed) {messages : List HttpParser.Message}
    (hpipelined : Pipelined messages) (hanswers : AnswersKeepOpen env messages)
    (fd idleTimeoutS : ℤ) (now : TimePoint) {events : List Event}
    (hevents : ∀ event ∈ events, event.Quiet)
    (hopen : (run env (start fd idleTimeoutS now) events).conn.closed = false)
    (hbytes : received events <+: HttpParser.encodeAll messages) :
    ∃ done rest tail, messages = done ++ rest ∧
      received events = HttpParser.encodeAll done ++ tail ∧
      Served env (run env (start fd idleTimeoutS now) events) done rest tail := by
  induction events using List.reverseRecOn with
  | nil => exact ⟨[], messages, [], rfl, rfl, served_start env fd idleTimeoutS now messages⟩
  | append_singleton events event ih =>
      have hrun : run env (start fd idleTimeoutS now) (events ++ [event]) =
          (run env (start fd idleTimeoutS now) events).step env event :=
        Transition.run_concat _ _ _
      rw [hrun] at hopen
      rw [received_concat] at hbytes
      have hopen' := (keepsFd_step env _ event hopen).1
      obtain ⟨done, rest, tail, hsplit, hreceived, hs⟩ :=
        ih (fun e he => hevents e (by simp [he])) hopen' ((List.prefix_append _ _).trans hbytes)
      rw [hrun, received_concat]
      rcases hevents event (by simp) with hexchange | ⟨t, fresh, rfl⟩
      · have hfront : tail ++ event.received <+: HttpParser.encodeAll rest := by
          rwa [hreceived, hsplit, encodeAll_append, List.append_assoc,
            List.prefix_append_right_inj] at hbytes
        obtain ⟨done', rest', tail', hsplit', hreceived', hs'⟩ :=
          served_step hwrite hpipelined hanswers hsplit hs hexchange hfront
        exact ⟨done', rest', tail', hsplit', by rw [hreceived, List.append_assoc, hreceived'], hs'⟩
      · refine ⟨done, rest, tail, hsplit, ?_, ?_⟩
        · rw [hreceived]
          exact List.append_nil _
        · have hidle : (run env (start fd idleTimeoutS now) events).step env (.idle t fresh) =
              (run env (start fd idleTimeoutS now) events).onIdleTimer t fresh := by
            rw [Session.step, if_neg (by simp [hopen'])]
          rw [hidle] at hopen ⊢
          exact hs.onIdleTimer t fresh hopen

end Session

namespace Polled

open Socket Session

variable {env : Env} {p p' : Polled}

/-- As long as the peer has not closed, there are reads until `EAGAIN`, writes, and idle timers. -/
def Exchanging (p : Polled) : Prop :=
  p.socket.Up → (∀ r, p.reported = some r → r.hangup = false) ∧ ∀ event ∈ p.log, event.Quiet

/-- What the handlers did was to read until `EAGAIN` and to write. -/
theorem isExchange_of_mem_reported {k k' : Socket} {r : EventMask} {call : ReadCall}
    {s s' : Session} (hup : k'.Up) (hcalm : r.hangup = false)
    (hanswers : k.Answers (handlerCalls r call s s') k') {event : Session.Event}
    (hevent : event ∈ Session.reported r.hangup (reading r call) r.writable) :
    event.isExchange = true := by
  rw [handlerCalls, hcalm, if_neg Bool.false_ne_true] at hanswers
  rw [Session.reported, hcalm, if_neg Bool.false_ne_true, List.mem_append] at hevent
  rcases hevent with hread | hwrite
  · rw [reading] at hanswers hread
    split at hread
    · rename_i hreadable
      rw [if_pos hreadable] at hanswers
      obtain ⟨middle, hreads, hwrites⟩ := hanswers.split
      obtain ⟨now, hlast⟩ := eagain_of_up (up_of_answers hup hwrites) hreads
      obtain rfl := List.mem_singleton.mp hread
      obtain ⟨steps, last⟩ := call
      obtain rfl : last = .eagain now := hlast
      rfl
    · cases hread
  · split at hwrite
    · rw [List.mem_singleton.mp hwrite]
      rfl
    · cases hwrite

theorem exchanging_step? {label : PolledLabel} (h : Exchanging p)
    (hstep : p.step? env label = some p') : Exchanging p' := by
  cases label with
  | net step =>
      obtain rfl := Option.some.inj hstep
      exact fun hup => h (up_of_net hup)
  | wait =>
      simp only [step?, Option.ite_none_right_eq_some, Option.some.injEq] at hstep
      obtain ⟨-, rfl⟩ := hstep
      refine fun hup => ⟨fun r hr => ?_, (h hup).2⟩
      simp only [Option.ite_none_right_eq_some, Option.some.injEq] at hr
      exact hr.2 ▸ hup.2
  | dispatch call script =>
      simp only [step?] at hstep
      split at hstep
      · cases hstep
      · rename_i r hreported
        split at hstep
        · cases hstep
        · obtain ⟨k, hreplay, hnext⟩ := Option.bind_eq_some_iff.mp hstep
          simp only [Option.ite_none_right_eq_some, Option.some.injEq] at hnext
          obtain ⟨hcalls, rfl⟩ := hnext
          intro hup
          have hanswers : p.socket.Answers _ k := ⟨script, hcalls, hreplay⟩
          obtain ⟨hcalm, hlog⟩ := h (up_of_answers hup hanswers)
          refine ⟨fun r' hr' => ?_, fun event hevent => ?_⟩
          · cases hr'
          · rcases List.mem_append.mp hevent with hevent | hevent
            · exact hlog event hevent
            · exact .inl (isExchange_of_mem_reported hup (hcalm r hreported) hanswers hevent)
  | idle t fresh =>
      simp only [step?, Option.ite_none_left_eq_some, Option.some.injEq] at hstep
      obtain ⟨-, rfl⟩ := hstep
      refine fun hup => ⟨(h hup).1, fun event hevent => ?_⟩
      rcases List.mem_append.mp hevent with hevent | hevent
      · exact (h hup).2 event hevent
      · exact .inr ⟨t, fresh, List.mem_singleton.mp hevent⟩

theorem exchanging_run (env : Env) (fd idleTimeoutS : ℤ) (now : TimePoint) (k : Socket)
    (labels : List PolledLabel) :
    Exchanging (Transition.run (step env) (start fd idleTimeoutS now k) labels) := by
  refine Transition.run_invariant (fun p label h => ?_) (fun _ => ⟨nofun, by simp [start]⟩) labels
  exact Transition.attempt_invariant (fun _ _ _ h hstep => exchanging_step? h hstep) p label h

end Polled

/-! ## The server -/

namespace Server

open HttpParser Session SelfDelimiting

/-- The server as the handler of a connection: for each call of it, the state of the file system
and a snapshot of the counters. -/
def serving (opts : Options) (files : ℕ → FileSystem) (snapshots : ℕ → Stats)
    (write : ℕ → WriteResult) : Env where
  handler i request := (handleRequest opts (files i) (snapshots i) request {}).response
  write := write

/-- The requests, with what their responses are made from. -/
def exchanges (files : ℕ → FileSystem) (snapshots : ℕ → Stats) : ℕ → List Message → List Exchange
  | _, [] => []
  | i, m :: rest => ⟨m.request, files i, snapshots i⟩ :: exchanges files snapshots (i + 1) rest

variable {opts : Options} {files : ℕ → FileSystem} {snapshots : ℕ → Stats}
  {write : ℕ → WriteResult}

theorem responses_serving (i : ℕ) (messages : List Message) :
    responses (serving opts files snapshots write) i messages =
      written opts (exchanges files snapshots i messages) := by
  induction messages generalizing i with
  | nil => rfl
  | cons m rest ih =>
      rw [responses, ih, exchanges]
      rfl

/-- The server never asks for the connection to be closed. -/
theorem closeConnection_handleRequest (opts : Options) (files : FileSystem) (snapshot : Stats)
    (request : HttpRequest) :
    (handleRequest opts files snapshot request {}).response.closeConnection = false := by
  have hstatic : (serveStatic opts files request {}).response.closeConnection = false := by
    unfold serveStatic
    dsimp only
    split_ifs
    · rfl
    · rfl
    · split <;> rfl
  have hdispatch : (dispatch opts files snapshot request {}).response.closeConnection = false := by
    unfold dispatch
    dsimp only
    split_ifs
    · rfl
    · rfl
    · rfl
    · rfl
    · exact hstatic
    · rfl
  unfold handleRequest
  dsimp only
  split_ifs
  · exact hdispatch
  · exact hdispatch

/-- **From end to end.**  A client sends any pipelined requests, over a network that does what it
likes, to a connection with an idle timer.  Whenever there is no event to come for it, the handler
has been called once with each request that has arrived, in their order; and if there is room left
in the socket, then what has been written to it is read by the client as exactly the responses to
these requests. -/
theorem answered_run (hwrite : ∀ n, write n ≠ .failed) {messages : List Message}
    (hpipelined : Pipelined messages) {fd : ℤ} (hfd : 0 ≤ fd) (idleTimeoutS : ℤ) (now : TimePoint)
    (k : Socket) (labels : List PolledLabel) :
    let p := Transition.run (Polled.step (serving opts files snapshots write))
      (Polled.start fd idleTimeoutS now k) labels
    let done := arrived messages p.socket.arrived.length
    p.AtRest → ¬p.session.CutShort → p.socket.arrived <+: encodeAll messages →
      handled p.session.trace = done.map Message.request ∧
        (0 < p.socket.space → client.readAll
          ((exchanges files snapshots 0 done).map Exchange.isHead) (accepted p.session.trace) =
            some ((exchanges files snapshots 0 done).map (Exchange.meant opts), [])) := by
  intro p done hrest hcut hfront
  let env := serving opts files snapshots write
  have h : Polled.Inv env fd idleTimeoutS now p :=
    Polled.inv_run env hfd idleTimeoutS now k labels
  obtain ⟨hread, -, -, hfinished, hbroken, houtput⟩ := h.drained hrest
  have hquiet := (Polled.exchanging_run env fd idleTimeoutS now k labels ⟨hfinished, hbroken⟩).2
  have hanswers : AnswersKeepOpen env messages :=
    fun i _ => closeConnection_handleRequest opts (files i) (snapshots i) _
  have hopen : (run env (start fd idleTimeoutS now) p.log).conn.closed = false :=
    h.session ▸ hrest.1
  obtain ⟨first, rest, tail, hsplit, hreceived, hs⟩ :=
    served_of_open hwrite hpipelined hanswers fd idleTimeoutS now hquiet hopen (hread ▸ hfront)
  have hdone : done = first := hs.arrived_eq hsplit (hread.trans hreceived)
  rw [← h.session, ← hdone] at hs
  refine ⟨hs.progress.handled, fun hspace => ?_⟩
  have hempty : p.session.conn.output.readable = [] := by
    by_contra hleft
    have hfull := (houtput hleft hcut).2.2
    omega
  have hconserved : Conserved p.session := h.session ▸ conserved_run env fd idleTimeoutS now p.log
  have hsent : accepted p.session.trace = written opts (exchanges files snapshots 0 done) := by
    rw [← responses_serving, ← hs.progress.queued, ← hconserved, hempty, List.append_nil]
  have hclient := Reader.readAll_stream
    ((exchanges files snapshots 0 done).map (Exchange.message opts)) []
  rwa [stream_messages, expected_messages, List.map_map, List.append_nil, ← hsent] at hclient

/-- Two requests for a page that does not exist.  The second one comes in two parts, and there is
room for five bytes of the first response. -/
def sampleLabels : List PolledLabel :=
  let text := sampleGet.encode
  let response := (handleRequest {} ⟨fun _ => false, fun _ => none⟩ {} sampleGet.request
    {}).response.toString
  [.net (.arrive (text ++ text.take 9)), .wait,
    .dispatch ⟨[.data (text ++ text.take 9) (by decide)], .eagain 1⟩
      [.request (.readv (text ++ text.take 9)), .request (.lastReadv (.eagain 1)),
        .own (.arrive (text.drop 9)), .request (.write response (.wrote 5)),
        .request (.epollMod true), .own (.drain 1000)],
    .wait,
    .dispatch ⟨[.data (text.drop 9) (by decide)], .eagain 2⟩
      [.request (.readv (text.drop 9)), .request (.lastReadv (.eagain 2)),
        .request (.write (response.drop 5 ++ response) (.wrote 1000)),
        .request (.epollMod false)]]

/-- The law on this exchange: both requests have been answered. -/
theorem answered_run_sample :
    let files : ℕ → FileSystem := fun _ => ⟨fun _ => false, fun _ => none⟩
    let write : ℕ → WriteResult := fun n => if n = 0 then .wrote 5 else .wrote 1000
    let p := Transition.run (Polled.step (serving {} files (fun _ => {}) write))
      (Polled.start 5 60 0 { space := 5 }) sampleLabels
    let exchange : Exchange := ⟨sampleGet.request, files 0, {}⟩
    handled p.session.trace = [sampleGet.request, sampleGet.request] ∧
      client.readAll [false, false] (accepted p.session.trace) =
        some ([exchange.meant {}, exchange.meant {}], []) := by
  intro files write p exchange
  have hwrite : ∀ n, write n ≠ .failed := fun n => by
    show (if n = 0 then WriteResult.wrote 5 else .wrote 1000) ≠ .failed
    split <;> simp
  have hlast : lastWrite p.session.trace = some (true, .wrote 1000) := by decide +kernel
  have hcut : ¬p.session.CutShort := fun ⟨armed, h⟩ => by
    have hresult := congrArg (Option.map Prod.snd) (h.symm.trans hlast)
    cases Option.some.inj hresult
  have harrived : p.socket.arrived = encodeAll [sampleGet.message, sampleGet.message] := by
    decide +kernel
  have hfront : p.socket.arrived <+: encodeAll [sampleGet.message, sampleGet.message] := by
    rw [harrived]
  have hdone : arrived [sampleGet.message, sampleGet.message] p.socket.arrived.length =
      [sampleGet.message, sampleGet.message] := by
    rw [harrived]
    exact arrived_append [sampleGet.message, sampleGet.message] [] 0
  have hrest : p.AtRest := ⟨by decide +kernel, by decide +kernel, by decide +kernel⟩
  have hspace : 0 < p.socket.space := by decide +kernel
  have hpipelined : Pipelined [sampleGet.message, sampleGet.message] :=
    ⟨by decide +kernel, by decide +kernel⟩
  have hp : p = Transition.run (Polled.step (serving {} files (fun _ => {}) write))
    (Polled.start 5 60 0 { space := 5 }) sampleLabels := rfl
  have hfd : (0 : ℤ) ≤ 5 := by decide
  have hlaw := @answered_run {} files (fun _ => {}) write hwrite _ hpipelined 5 hfd 60 0
    { space := 5 } sampleLabels hrest hcut
  rw [← hp, hdone] at hlaw
  obtain ⟨hhandled, hread⟩ := hlaw hfront
  exact ⟨hhandled, hread hspace⟩

end Server

end WsServer
