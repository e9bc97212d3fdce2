import WsServer.Connection.Waiting
import WsServer.Reactors.Projection

/-!
# What a server holds of its input

Between two handlers of a loop each of its connections holds no more of its input than it waits
with (`Session.Waiting`), since all connections run as if they were alone.  While `handleRead` runs
there may be more, as it reads until `EAGAIN` before anything is parsed.

A connection that is closed or waits for its output to be sent is left out: it may have stopped in
the middle of its input, and what arrives after that stays in the buffer.
-/

namespace WsServer

open HttpParser

namespace Reactors

/-- What a server holds of the input of its connections. -/
structure InputBounded (s : Reactors) : Prop where
  /-- Of a connection that goes on, the beginning of one line or of one body. -/
  waits : ∀ l ∈ s.loops, ∀ conn ∈ l.reactor.sessions, conn.conn.closed = false →
    conn.conn.closeAfterWrite = false → Waits conn.conn.parser conn.conn.input.readable
  /-- So it is never more than the longest body. -/
  length : ∀ l ∈ s.loops, ∀ conn ∈ l.reactor.sessions, conn.conn.closed = false →
    conn.conn.closeAfterWrite = false → conn.conn.input.readableBytes ≤ kMaxBody
  /-- The head that has been read has not too many headers. -/
  headers : ∀ l ∈ s.loops, ∀ conn ∈ l.reactor.sessions,
    conn.conn.parser.request.headers.size ≤ kMaxHeaderCount

/-- **Bounded input**, in every state of every run. -/
theorem input_run (opts : Options) (inUse : Finset ℤ) (now : TimePoint)
    (labels : List ReactorsLabel) :
    InputBounded (Transition.run (step opts) (start opts inUse now) labels) := by
  have hwaiting : ∀ l ∈ (Transition.run (step opts) (start opts inUse now) labels).loops,
      ∀ conn ∈ l.reactor.sessions, Session.Waiting conn := by
    intro l hl conn hconn
    obtain ⟨env, fd, t, events, -, -, rfl⟩ := allProjected_run opts inUse now labels l hl conn hconn
    exact Session.waiting_run env fd opts.idleTimeoutS t events
  exact ⟨fun l hl conn hconn => (hwaiting l hl conn hconn).waits,
    fun l hl conn hconn => (hwaiting l hl conn hconn).length_le,
    fun l hl conn hconn => (hwaiting l hl conn hconn).valid.count⟩

end Reactors

end WsServer
