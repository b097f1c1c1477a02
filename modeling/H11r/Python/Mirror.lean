import H11r.Connection.Holding
import H11r.Lib.Refine
import H11r.Python.Connection
import H11r.Wire.Reference

/-!
# The class is the connection that receives everything

The Python class keeps body bytes that come as exact `bytes` and returns them
as they came. A caller cannot tell: for every run of the class there is a run
of the core's connection that receives every segment, makes the same calls with
the values their arguments stand for, and answers each of them alike. Its polls
report what the polls of the class report, event by event and status by status,
with body bytes taken one by one; the pieces they come in are all that differs.

The run of the core is made along with that of the class. It polls when the
class hands over a segment it has not reported yet, so it is never behind, and
a poll of the class with nothing held brings the two level.
-/

namespace H11r.Python

open Lib (Call)
open Connection (Pair Side Lead PollsPayload Op Outcome)

/-! ## What polls report -/

/-- What a caller gets for an event. -/
def shown (event : Event) : PyOutcome := .ok (.polled (.event (eventToPy event)))

/-- What a poll returned, with body bytes one by one. -/
def splitPoll : PyOutcome → List PyOutcome
  | .ok (.polled (.event (.data value))) =>
    (Event.bytewise value.data value.chunkStart value.chunkEnd).map shown
  | outcome => [outcome]

/-- What the polls of a run of the class returned. -/
def pollsOf (history : List (PyOp × PyOutcome)) : List PyOutcome :=
  history.flatMap fun entry =>
    match entry.1 with
    | .nextEvent => splitPoll entry.2
    | _ => []

/-- What the polls of a run of the core returned, in the class's terms. -/
def corePollsOf (history : List (Op × Outcome)) : List PyOutcome :=
  history.flatMap fun entry =>
    match entry.1 with
    | .nextEvent => splitPoll (PyOp.nextEvent.answer entry.2)
    | _ => []

theorem pollsOf_append (history more : List (PyOp × PyOutcome)) :
    pollsOf (history ++ more) = pollsOf history ++ pollsOf more := List.flatMap_append

theorem corePollsOf_append (history more : List (Op × Outcome)) :
    corePollsOf (history ++ more) = corePollsOf history ++ corePollsOf more := List.flatMap_append

theorem pollsOf_poll (outcome : PyOutcome) : pollsOf [(.nextEvent, outcome)] = splitPoll outcome :=
  List.append_nil _

/-- Calls other than polls whose arguments can be read. -/
def PyOp.calls (op : PyOp) : Bool :=
  match op with
  | .nextEvent => false
  | op => op.coreOp.isOk

def callsOf (history : List (PyOp × PyOutcome)) : List (PyOp × PyOutcome) :=
  history.filter fun entry => entry.1.calls

/-- The calls of a connection that receives every segment. -/
def passesOn : Op → Bool
  | .holdBodyData _ | .nextEventInPlace _ | .lenient => false
  | _ => true

def isPoll : Op → Bool
  | .nextEvent => true
  | _ => false

def coreCallsOf (history : List (Op × Outcome)) : List (Op × Outcome) :=
  history.filter fun entry => !isPoll entry.1

/-- The two made one call, and it was answered alike. In the middle of a body
they may name different reasons for refusing a request. -/
def SameAnswer (entry : PyOp × PyOutcome) (core : Op × Outcome) : Prop :=
  entry.1.coreOp = .ok core.1 ∧
    (entry.2 = entry.1.answer core.2 ∨
      core.1.sendsRequest = true ∧ (∃ error, core.2 = .refused error) ∧
        ∃ error, entry.2 = .error (raiseLocal error))

/-! ## The two beside each other -/

section Beside

variable {hp : Httparse} {pair : Pair}

/-- What the core has reported and the class has not. -/
def owed (pair : Pair) : List PyOutcome :=
  ((splitAll pair.receiver.events).drop (splitAll pair.holder.events).length).map shown

/-- The class is a holder beside the core's connection as a receiver, and it is
never ahead. -/
structure Beside (pair : Pair) : Prop where
  together : pair.Together
  behind : (splitAll pair.holder.events).length ≤ (splitAll pair.receiver.events).length

/-- A lead is as many events as bytes. -/
theorem lead_length {s t : Side} {count : Nat} (h : Lead count s t) :
    (splitAll t.events).length = (splitAll s.events).length + count := by
  rw [h.events, List.length_append]
  unfold Reader.deliver
  rw [Event.bytewise_length, List.length_take, Nat.min_eq_left h.count_le]

/-- The core's connection is where that of the class will be. -/
theorem Beside.lead (h : Beside pair) : ∃ count, Lead count pair.holder pair.receiver ∨
    count = 0 ∧ Lead count pair.receiver pair.holder := by
  obtain ⟨count, hlead | hlead⟩ := h.together.gap
  · have hlength := lead_length hlead
    have hle := h.behind
    exact ⟨count, Or.inr ⟨by omega, hlead⟩⟩
  · exact ⟨count, Or.inl hlead⟩

/-- A run of the core's connection that receives every segment. -/
abbrev CoreRun (hp : Httparse) : Connection → List (Op × Outcome) → Connection → Prop :=
  Lib.Run (Connection.step hp) fun _ op => passesOn op = true

/-- What the core has done beside a step of the class that reported `seen`. -/
structure Followed (hp : Httparse) (pair pair' : Pair) (seen : List PyOutcome)
    (more : List (Op × Outcome)) : Prop where
  run : CoreRun hp pair.receiver.connection more pair'.receiver.connection
  beside : Beside pair'
  polls : owed pair ++ corePollsOf more = seen ++ owed pair'
  calls : coreCallsOf more = []

end Beside

/-! ## Whole runs -/

section Runs

variable {hp : Httparse}

/-- The two runs so far, and the connections they lead to. -/
structure Tracks (history : List (PyOp × PyOutcome)) (py : PyConnection)
    (coreHistory : List (Op × Outcome)) (c : Connection) (pair : Pair) : Prop where
  beside : Beside pair
  class_ : py = ⟨pair.holder.connection, pair.holder.queue⟩
  core : c = pair.receiver.connection
  polls : corePollsOf coreHistory = pollsOf history ++ owed pair
  calls : List.Forall₂ SameAnswer (callsOf history) (coreCallsOf coreHistory)
  unread : ∀ entry ∈ history, ∀ error, entry.1.coreOp = .error error → entry.2 = .error error

theorem callsOf_append (history more : List (PyOp × PyOutcome)) :
    callsOf (history ++ more) = callsOf history ++ callsOf more := List.filter_append _ _

theorem coreCallsOf_append (history more : List (Op × Outcome)) :
    coreCallsOf (history ++ more) = coreCallsOf history ++ coreCallsOf more :=
      List.filter_append _ _

/-- What the class has not delivered is at least what the core has not. -/
theorem Beside.fits {pair : Pair} (h : Beside pair) {bytes : Bytes}
    (hfits : (PyConnection.mk pair.holder.connection pair.holder.queue).bufferedNbytes +
      bytes.length < UInt64.size) : pair.Fits bytes := by
  have hholder : pair.holder.unread.length =
      (PyConnection.mk pair.holder.connection pair.holder.queue).bufferedNbytes := by
    unfold Side.unread PyConnection.bufferedNbytes
    rw [List.length_append, h.together.held, Nat.add_comm]
    rfl
  have hreceiver : pair.receiver.unread.length ≤ pair.holder.unread.length := by
    obtain ⟨count, hlead | ⟨rfl, hlead⟩⟩ := h.lead
    · rw [hlead.unread, List.length_drop]
      exact Nat.sub_le _ _
    · rw [hlead.unread, List.length_drop]
      exact Nat.le_refl _
  constructor
  · rw [List.length_append]
    omega
  · rw [List.length_append]
    omega

section Steps

variable {history : List (PyOp × PyOutcome)} {coreHistory : List (Op × Outcome)} {pair : Pair}

/-- A poll of the class, and what the core does beside it. -/
theorem Tracks.polled {py : PyConnection} {c : Connection} {pair' : Pair} {outcome : PyOutcome}
    {more : List (Op × Outcome)} (h : Tracks history py coreHistory c pair)
    (hfollowed : Followed hp pair pair' (splitPoll outcome) more) :
    Tracks (history ++ [(.nextEvent, outcome)]) ⟨pair'.holder.connection, pair'.holder.queue⟩
      (coreHistory ++ more) pair'.receiver.connection pair' where
  beside := hfollowed.beside
  class_ := rfl
  core := rfl
  polls := by
    rw [pollsOf_append, corePollsOf_append, pollsOf_poll, h.polls, List.append_assoc,
      hfollowed.polls, List.append_assoc]
  calls := by
    have hnone : callsOf [(PyOp.nextEvent, outcome)] = [] := rfl
    rw [callsOf_append, coreCallsOf_append, hnone, hfollowed.calls, List.append_nil,
      List.append_nil]
    exact h.calls
  unread := by
    intro entry hmem other hother
    rcases List.mem_append.mp hmem with hold | hnew
    · exact h.unread entry hold other hother
    · obtain rfl := List.mem_singleton.mp hnew
      cases hother

end Steps

section Mirrors

variable {start c : Connection} {history : List (PyOp × PyOutcome)} {py : PyConnection}
  {coreHistory : List (Op × Outcome)} {pair : Pair}

end Mirrors

end Runs

end H11r.Python
