import H11r.Lib.Machine
import H11r.Connection.Local
import H11r.Connection.Turn

/-!
# Runs of a connection

A connection as the machine its callers see: `Op` is a call of the public
interface with its arguments, `Outcome` what the call returns, `step` the two
together. `step_changes` breaks every call into changes from one list, so that
a property of all reachable connections is proved by cases on the list.
-/

namespace H11r.Connection

open Lib (Call)

/-- A call of the public interface. -/
inductive Op where
  | lenient
  | receiveData (data : Bytes)
  | holdBodyData (count : Nat)
  | nextEventInPlace (count : Nat)
  | nextEvent
  | sendRequest (request : Request)
  | sendInformationalResponse (response : Response)
  | sendResponse (response : Response)
  | sendRequestWithBody (request : Request) (body : Bytes)
  | sendRequestWithBodyFraming (request : Request) (length : Nat)
  | sendResponseWithBody (response : Response) (body : Bytes)
  | sendResponseWithBodyFraming (response : Response) (length : Nat)
  | sendData (data : Bytes)
  | sendDataFraming (length : Nat)
  | endOfMessage (trailers : Headers)
  | startNextCycle
  | close

/-- What a call returns. -/
inductive Outcome where
  | unit
  | held (accepted : Bool)
  | flags (chunkStart chunkEnd : Bool)
  | polled (next : NextEvent)
  | bytes (bytes : Bytes)
  | around (before after : Bytes)
  | refused (error : LocalProtocolError)
  | failed (error : RemoteProtocolError)

/-- The outcome of a method with the values it returns as `value` has them. -/
def outcome {α : Type} (value : α → Outcome) (result : Except LocalProtocolError α × Connection) :
    Outcome × Connection :=
  match result with
  | (.ok a, c) => (value a, c)
  | (.error error, c) => (.refused error, c)

@[simp] theorem outcome_snd {α : Type} (value : α → Outcome)
    (result : Except LocalProtocolError α × Connection) : (outcome value result).2 = result.2 := by
  rcases result with ⟨_ | _, _⟩ <;> rfl

/-- The outcome of a poll. -/
def pollOutcome (result : Except RemoteProtocolError NextEvent × Connection) :
    Outcome × Connection :=
  match result with
  | (.ok next, c) => (.polled next, c)
  | (.error error, c) => (.failed error, c)

@[simp] theorem pollOutcome_snd (result : Except RemoteProtocolError NextEvent × Connection) :
    (pollOutcome result).2 = result.2 := by
  rcases result with ⟨_ | _, _⟩ <;> rfl

/-- Makes a call. -/
def step (hp : Httparse) (op : Op) (c : Connection) : Outcome × Connection :=
  match op with
  | .lenient => (.unit, c.toLenient)
  | .receiveData data => outcome (fun _ => .unit) (receiveData data c)
  | .holdBodyData count => (.held (holdBodyData count c).1, (holdBodyData count c).2)
  | .nextEventInPlace count =>
    outcome (fun flags => .flags flags.1 flags.2) (nextEventInPlace count c)
  | .nextEvent => pollOutcome (nextEvent hp c)
  | .sendRequest request => outcome .bytes (sendRequest request c)
  | .sendInformationalResponse response => outcome .bytes (sendInformationalResponse response c)
  | .sendResponse response => outcome .bytes (sendResponse response c)
  | .sendRequestWithBody request body => outcome .bytes (sendRequestWithBody request body c)
  | .sendRequestWithBodyFraming request length =>
    outcome (fun parts => .around parts.1 parts.2) (sendRequestWithBodyFraming request length c)
  | .sendResponseWithBody response body => outcome .bytes (sendResponseWithBody response body c)
  | .sendResponseWithBodyFraming response length =>
    outcome (fun parts => .around parts.1 parts.2) (sendResponseWithBodyFraming response length c)
  | .sendData data => outcome .bytes (sendData data c)
  | .sendDataFraming length =>
    outcome (fun parts => .around parts.1 parts.2) (sendDataFraming length c)
  | .endOfMessage trailers => outcome .bytes (endOfMessage trailers c)
  | .startNextCycle => outcome (fun _ => .unit) (startNextCycle c)
  | .close => outcome (fun _ => .unit) (close c)

/-- A run of a new connection that makes the calls `allowed` permits. -/
abbrev Run (hp : Httparse) (allowed : Connection → Op → Prop) (role : Role) (limits : Limits) :
    List (Op × Outcome) → Connection → Prop :=
  Lib.Run (step hp) allowed (new role limits)

/-- Every call is allowed. -/
def anyCall (_ : Connection) (_ : Op) : Prop := True

/-- The bytes the caller holds are handed over before `next_event` is polled. -/
def handsOverFirst (c : Connection) (op : Op) : Prop :=
  match op with
  | .nextEvent => c.held = 0
  | _ => True

/-- A small request, and its head, for runs on fixed input. -/
def plainGet (version : Version) : Request :=
  ⟨.get, ascii "/", Headers.new.push (ascii "Host") (ascii "a"), version⟩

def plainGetHead (version : Version) : Bytes := serializeRequest (plainGet version) 0

/-- Some run of a new connection leads to `c`. -/
def Reachable (hp : Httparse) (c : Connection) : Prop :=
  ∃ role limits history, Run hp anyCall role limits history c

/-- What a call can do to a connection, one change at a time; polls and
`start_next_cycle` have lists of their own. -/
inductive Change : Connection → Connection → Prop
  | lenient {c : Connection} : Change c c.toLenient
  | received {c : Connection} {data : Bytes} (hdata : data ≠ []) (heof : c.eof = false) :
      Change c { c with input := c.input.extend data }
  | eof {c : Connection} : Change c c.recordEof
  | hold {c : Connection} {count : Nat} (hold : c.canHold count = true) :
      Change c { c with held := usizeAdd c.held count }
  | inPlace {c : Connection} {count : Nat} {state : ConnectionState}
      (hcount : count ≠ 0 ∧ count ≤ c.held)
      (hstate : c.state.processEvent c.role.peer .data = some state) :
      Change c { acceptedData state (c.advancePayload count).2 with held := c.held - count }
  | inPlaceRefused {c : Connection} {count : Nat} (hcount : count ≠ 0 ∧ count ≤ c.held)
      (hstate : c.state.processEvent c.role.peer .data = none) :
      Change c (c.advancePayload count).2
  | local {c c' : Connection} (h : LocalChange c c') : Change c c'

/-- Any number of changes. -/
abbrev Changes : Connection → Connection → Prop := Relation.ReflTransGen Change

/-- What `start_next_cycle` can do besides nothing. -/
inductive CycleChange : Connection → Connection → Prop
  | started {c : Connection} {state : ConnectionState}
      (hstate : c.state.startNextCycle = some state) :
      CycleChange c { c with state := state, cycle := .new }
  | refused {c : Connection} (hrole : c.role = .client) (hpeer : c.peerState = .done)
      (hinput : c.input.asSlice ≠ []) : CycleChange c c.disableKeepAlive

/-- What a poll can do: turns of the decoder, after the last of which the bytes
of a `Data` event leave the buffer. A turn that fails poisons the peer. -/
inductive PollChange (hp : Httparse) : Connection → Connection → Prop
  | turn {c c' : Connection} {r : Option Polled} (h : Turn hp c (.ok r) c') : PollChange hp c c'
  | taken {c : Connection} {count : Nat} :
      PollChange hp c { c with input := c.input.consume count }
  | failed {c c' : Connection} {error : RemoteProtocolError} (h : Turn hp c (.error error) c') :
      PollChange hp c { c' with state := c'.state.processError c'.role.peer }

variable {hp : Httparse} {c c' : Connection}

theorem LocalChanges.changes (h : LocalChanges c c') : Changes c c' :=
  Relation.ReflTransGen.mono (fun _ _ => Change.local) _ _ h

/-- A failed call of an atomic method changes nothing, so only the successful
ones have to be looked at. -/
theorem outcome_local {α : Type} {value : α → Outcome} {call : LocalCall α}
    (hatomic : Call.Atomic call) (hok : ∀ a c', call c = (.ok a, c') → LocalChanges c c') :
    LocalChanges c (outcome value (call c)).2 := by
  rcases h : call c with ⟨error | a, c'⟩
  · have heq : c' = c := hatomic _ _ _ h
    subst heq
    exact .refl
  · exact hok a c' h

/-- The calls that send something. -/
def Op.sends : Op → Bool
  | .lenient | .receiveData _ | .holdBodyData _ | .nextEventInPlace _ | .nextEvent
  | .startNextCycle => false
  | _ => true

/-- A call that sends something makes local changes only. -/
theorem step_local {op : Op} (hop : op.sends = true) (c : Connection) :
    LocalChanges c (step hp op c).2 := by
  cases op with
  | lenient | receiveData | holdBodyData | nextEventInPlace | nextEvent | startNextCycle => cases hop
  | sendRequest request =>
    exact outcome_local (sendRequest_atomic _) fun _ _ h => .single (sendRequest_change h)
  | sendInformationalResponse response =>
    exact outcome_local (sendInformationalResponse_atomic _) fun _ _ h =>
      .single (sendInformationalResponse_change h)
  | sendResponse response =>
    exact outcome_local (sendResponse_atomic _) fun _ _ h => .single (sendResponse_change h)
  | sendRequestWithBody request body =>
    refine outcome_local (sendRequestWithBody_atomic _ _) fun _ _ h => ?_
    obtain ⟨parts, hframing, _⟩ := sendRequestWithBody_ok h
    exact sendRequestWithBodyFraming_changes hframing
  | sendRequestWithBodyFraming request length =>
    exact outcome_local (sendRequestWithBodyFraming_atomic _ _) fun _ _ h =>
      sendRequestWithBodyFraming_changes h
  | sendResponseWithBody response body =>
    refine outcome_local (sendResponseWithBody_atomic _ _) fun _ _ h => ?_
    obtain ⟨parts, hframing, _⟩ := sendResponseWithBody_ok h
    exact sendResponseWithBodyFraming_changes hframing
  | sendResponseWithBodyFraming response length =>
    exact outcome_local (sendResponseWithBodyFraming_atomic _ _) fun _ _ h =>
      sendResponseWithBodyFraming_changes h
  | sendData data =>
    refine outcome_local (sendData_atomic _) fun _ _ h => ?_
    obtain ⟨around, hframing, _⟩ := sendData_ok h
    exact .single (sendDataFraming_change hframing)
  | sendDataFraming length =>
    exact outcome_local (sendDataFraming_atomic _) fun _ _ h => .single (sendDataFraming_change h)
  | endOfMessage trailers =>
    exact outcome_local (endOfMessage_atomic _) fun _ _ h => .single (endOfMessage_change h)
  | close => exact outcome_local close_atomic fun _ _ h => .single (close_change h)

theorem receiveData_changes (data : Bytes) : Changes c (receiveData data c).2 := by
  unfold receiveData
  rw [Call.get_bind, Call.failIf_bind]
  split
  · exact .refl
  next heof =>
    split
    · exact .single .eof
    next hdata => exact .single (.received hdata (by simpa [hdata] using heof))

theorem holdBodyData_changes (count : Nat) : Changes c (holdBodyData count c).2 := by
  unfold holdBodyData
  split
  next hold => exact .single (.hold hold)
  next => exact .refl

theorem advancePayload_state (count : Nat) (c : Connection) :
    (c.advancePayload count).2.state = c.state := by
  unfold advancePayload
  split <;> rfl

theorem advancePayload_role (count : Nat) (c : Connection) :
    (c.advancePayload count).2.role = c.role := by
  unfold advancePayload
  split <;> rfl

theorem advancePayload_held (count : Nat) (c : Connection) :
    (c.advancePayload count).2.held = c.held := by
  unfold advancePayload
  split <;> rfl

/-- The three ways a call of `next_event_in_place` can end. -/
theorem nextEventInPlace_cases {count : Nat} {r : Except LocalProtocolError (Bool × Bool)}
    (h : nextEventInPlace count c = (r, c')) :
    (∃ state, count ≠ 0 ∧ count ≤ c.held ∧
      c.state.processEvent c.role.peer .data = some state ∧
      r = .ok (c.advancePayload count).1.2 ∧
      c' = { acceptedData state (c.advancePayload count).2 with held := c.held - count }) ∨
    (∃ error, (count = 0 ∨ count > c.held) ∧ r = .error error ∧ c' = c) ∨
    (∃ error, count ≠ 0 ∧ count ≤ c.held ∧
      c.state.processEvent c.role.peer .data = none ∧ r = .error error ∧
      c' = (c.advancePayload count).2) := by
  unfold nextEventInPlace at h
  rw [Call.get_bind, Call.failIf_bind] at h
  split at h
  next hcount =>
    cases h
    exact Or.inr (Or.inl ⟨_, hcount, rfl, rfl⟩)
  next hcount =>
    have hcount : count ≠ 0 ∧ count ≤ c.held := by omega
    rw [Call.modify_bind] at h
    rcases hpeer : peerData count (c.advancePayload count).1.2.1 (c.advancePayload count).1.2.2
      (c.advancePayload count).2 with ⟨error | polled, c1⟩
    · rw [Call.bind_of_error (Call.mapError_eq_error.mpr ⟨error, hpeer, rfl⟩)] at h
      cases h
      rcases peerData_cases hpeer with ⟨_, _, hr, _⟩ | ⟨_, hstate, _, rfl⟩
      · cases hr
      · rw [advancePayload_state, advancePayload_role] at hstate
        exact Or.inr (Or.inr ⟨_, hcount.1, hcount.2, hstate, rfl, rfl⟩)
    · rw [Call.bind_of_ok (Call.mapError_eq_ok.mpr hpeer)] at h
      cases h
      rcases peerData_cases hpeer with ⟨state, hstate, _, rfl⟩ | ⟨_, _, hr, _⟩
      · rw [advancePayload_state, advancePayload_role] at hstate
        refine Or.inl ⟨state, hcount.1, hcount.2, hstate, rfl, ?_⟩
        show { acceptedData state (c.advancePayload count).2 with
          held := (c.advancePayload count).2.held - count } = _
        rw [advancePayload_held]
      · cases hr

theorem nextEventInPlace_changes (count : Nat) : Changes c (nextEventInPlace count c).2 := by
  rcases h : nextEventInPlace count c with ⟨r, c'⟩
  rcases nextEventInPlace_cases h with ⟨state, hzero, hle, hstate, _, rfl⟩ | ⟨_, _, _, rfl⟩ |
    ⟨_, hzero, hle, hstate, _, rfl⟩
  · exact .single (.inPlace ⟨hzero, hle⟩ hstate)
  · exact .refl
  · exact .single (.inPlaceRefused ⟨hzero, hle⟩ hstate)

theorem Turns.changes_ok {polled : Polled} (h : Turns hp c (.ok polled) c') :
    Relation.ReflTransGen (PollChange hp) c c' := by
  generalize hr : (.ok polled : Except RemoteProtocolError Polled) = r at h
  induction h with
  | last h =>
    subst hr
    exact .single (.turn h)
  | again h _ ih => exact .head (.turn h) (ih hr)

theorem Turns.changes_error {error : RemoteProtocolError} (h : Turns hp c (.error error) c') :
    Relation.ReflTransGen (PollChange hp) c
      { c' with state := c'.state.processError c'.role.peer } := by
  generalize hr : (.error error : Except RemoteProtocolError Polled) = r at h
  induction h with
  | last h =>
    subst hr
    exact .single (.failed h)
  | again h _ ih => exact .head (.turn h) (ih hr)

theorem nextEvent_changes : Relation.ReflTransGen (PollChange hp) c (nextEvent hp c).2 := by
  unfold nextEvent
  rcases h : nextEventInner hp c with ⟨error | polled, c'⟩
  · exact (nextEventInner_turns h).changes_error
  · cases polled with
    | data count chunkStart chunkEnd => exact (nextEventInner_turns h).changes_ok.tail .taken
    | _ => exact (nextEventInner_turns h).changes_ok

theorem startNextCycle_cases {r : Except LocalProtocolError Unit}
    (h : startNextCycle c = (r, c')) :
    (∃ state, r = .ok () ∧ c.state.startNextCycle = some state ∧
      c' = { c with state := state, cycle := .new }) ∨
    (∃ error, r = .error error ∧ c.role = .client ∧ c.peerState = .done ∧
      c.input.asSlice ≠ [] ∧ c' = c.disableKeepAlive) ∨
    (∃ error, r = .error error ∧ c' = c) := by
  unfold startNextCycle at h
  split at h
  next hbytes =>
    cases h
    exact Or.inr (Or.inl ⟨_, rfl, hbytes.1, hbytes.2.1, hbytes.2.2, rfl⟩)
  next =>
    split at h
    · cases h
      exact Or.inr (Or.inr ⟨_, rfl, rfl⟩)
    next state hstate =>
      cases h
      exact Or.inl ⟨state, rfl, hstate, rfl⟩

/-- Every other call is made of the listed changes. -/
theorem step_changes {op : Op} (hpoll : op ≠ .nextEvent) (hcycle : op ≠ .startNextCycle)
    (c : Connection) : Changes c (step hp op c).2 := by
  cases op with
  | lenient => exact .single .lenient
  | receiveData data =>
    show Changes c (outcome _ (receiveData data c)).2
    rw [outcome_snd]
    exact receiveData_changes data
  | holdBodyData count => exact holdBodyData_changes count
  | nextEventInPlace count =>
    show Changes c (outcome _ (nextEventInPlace count c)).2
    rw [outcome_snd]
    exact nextEventInPlace_changes count
  | nextEvent => exact absurd rfl hpoll
  | startNextCycle => exact absurd rfl hcycle
  | _ => exact (step_local rfl c).changes

/-- A property that every change outside polls preserves is preserved by every
call that is not a poll. -/
theorem step_preserve_unpolled {P : Connection → Prop}
    (hchange : ∀ c c', Change c c' → P c → P c')
    (hcycle : ∀ c c', CycleChange c c' → P c → P c') {op : Op} (hpoll : op ≠ .nextEvent)
    (hc : P c) : P (step hp op c).2 := by
  by_cases hstart : op = .startNextCycle
  · subst hstart
    show P (outcome _ (startNextCycle c)).2
    rw [outcome_snd]
    rcases h : startNextCycle c with ⟨r, c'⟩
    rcases startNextCycle_cases h with ⟨state, _, hstate, rfl⟩ |
      ⟨_, _, hrole, hpeer, hinput, rfl⟩ | ⟨_, _, rfl⟩
    · exact hcycle _ _ (.started hstate) hc
    · exact hcycle _ _ (.refused hrole hpeer hinput) hc
    · exact hc
  · exact Lib.preserve hchange (step_changes hpoll hstart c) hc

/-- A property that every listed change preserves is preserved by every call. -/
theorem step_preserve {P : Connection → Prop} (hchange : ∀ c c', Change c c' → P c → P c')
    (hcycle : ∀ c c', CycleChange c c' → P c → P c')
    (hpoll : ∀ c c', PollChange hp c c' → P c → P c') (op : Op) (hc : P c) :
    P (step hp op c).2 := by
  by_cases hnext : op = .nextEvent
  · subst hnext
    show P (pollOutcome (nextEvent hp c)).2
    rw [pollOutcome_snd]
    exact Lib.preserve hpoll nextEvent_changes hc
  · exact step_preserve_unpolled hchange hcycle hnext hc

end H11r.Connection
