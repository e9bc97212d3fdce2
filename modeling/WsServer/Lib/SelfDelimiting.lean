import Mathlib

/-!
# Messages that delimit themselves

A stream carries messages one after another, with nothing between them but what
the messages say themselves.  A `Reader` takes one message off the front of a
stream; its law says that what follows the message does not matter
(`read_append`).  A `Message` is a text of which the reader takes everything.

It follows that a stream of messages is read back message by message
(`readAll_stream`), and that it can be cut into messages in one way only
(`stream_injective`).
-/

namespace SelfDelimiting

/-- A reader of messages.  `γ` is what it knows beforehand about the message that
it expects, and `β` what it makes of a message. -/
structure Reader (γ α β : Type*) where
  /-- What is made of the first message, and what follows it. -/
  read : γ → List α → Option (β × List α)
  read_append : ∀ {expected : γ} {bs rest : List α} {value : β},
    read expected bs = some (value, rest) →
      ∀ more, read expected (bs ++ more) = some (value, rest ++ more)

namespace Reader

variable {γ α β : Type*} (R : Reader γ α β)

/-- Read as many messages as are expected. -/
def readAll : List γ → List α → Option (List β × List α)
  | [], bs => some ([], bs)
  | expected :: later, bs =>
    match R.read expected bs with
    | none => none
    | some (value, rest) =>
      match readAll later rest with
      | none => none
      | some (values, rest) => some (value :: values, rest)

/-- A text that is one message. -/
structure Message where
  expected : γ
  text : List α
  value : β
  read_text : R.read expected text = some (value, [])

/-- The messages one after another. -/
def stream (messages : List R.Message) : List α := messages.flatMap Message.text

variable {R}

theorem Message.read_append (m : R.Message) (more : List α) :
    R.read m.expected (m.text ++ more) = some (m.value, more) :=
  R.read_append m.read_text more

theorem stream_cons (m : R.Message) (messages : List R.Message) :
    R.stream (m :: messages) = m.text ++ R.stream messages := List.flatMap_cons

/-- **Reading a stream.**  Every message is read as if it were the only one. -/
theorem readAll_stream (messages : List R.Message) (rest : List α) :
    R.readAll (messages.map Message.expected) (R.stream messages ++ rest) =
      some (messages.map Message.value, rest) := by
  induction messages with
  | nil => rfl
  | cons m messages ih =>
      rw [stream_cons, List.append_assoc, List.map_cons, readAll, m.read_append]
      simp only [ih, List.map_cons]

/-- No message begins with another one. -/
theorem Message.eq_of_append {first second : R.Message}
    (hexpected : first.expected = second.expected) {more other : List α}
    (h : first.text ++ more = second.text ++ other) : first = second ∧ more = other := by
  have hfirst := first.read_append more
  rw [h, hexpected, second.read_append, Option.some_inj, Prod.mk_inj] at hfirst
  obtain ⟨hvalue, rfl⟩ := hfirst
  have htext : first.text = second.text := List.append_cancel_right h
  refine ⟨?_, rfl⟩
  cases first
  cases second
  cases hexpected
  cases htext
  cases hvalue
  rfl

/-- **Cutting a stream.**  There is one way to cut it into the messages expected. -/
theorem stream_injective {first second : List R.Message}
    (hexpected : first.map Message.expected = second.map Message.expected)
    (h : R.stream first = R.stream second) : first = second := by
  induction first generalizing second with
  | nil =>
      cases second with
      | nil => rfl
      | cons m later => simp at hexpected
  | cons m messages ih =>
      cases second with
      | nil => simp at hexpected
      | cons m' later =>
          rw [List.map_cons, List.map_cons, List.cons.injEq] at hexpected
          rw [stream_cons, stream_cons] at h
          obtain ⟨rfl, hrest⟩ := Message.eq_of_append hexpected.1 h
          rw [ih hexpected.2 hrest]

end Reader

end SelfDelimiting
