import H11r.Connection.Run
import H11r.Python.Events
import H11r.Wire.Reference

/-!
# The Python connection

`connection.rs`: the class that wraps the connection of the core. It reads the
arguments, makes one call of the core, and turns the result into Python
objects. Two things it does by itself: body bytes that come as exact `bytes`
are kept as they are, with the core only counting them, and body bytes to be
sent are copied once, between the two parts of framing the core returns for
their length.

`coreOp` is the call of the core that a call of the class amounts to. For the
calls that do not touch what was received `writes_amounts` proves it.
-/

namespace H11r.Python

open Lib (Call)

/-- The core's connection and the `bytes` objects held for it. -/
structure PyConnection where
  core : Connection
  queue : List Bytes

/-- A method of the class: it returns or raises. -/
abbrev PyCall := Call PyConnection PyErr

/-- What `next_event` returns. -/
inductive PyPolled where
  | event (event : PyEvent)
  | needData
  | paused

def polledToPy : NextEvent → PyPolled
  | .event event => .event (eventToPy event)
  | .needData => .needData
  | .paused => .paused

namespace PyConnection

def new (role : Role) (maxHeadBytes maxHeaderCount : Nat) (lenient : Bool) :
    Except PyErr PyConnection := do
  let limits ← okOr (Limits.new maxHeadBytes maxHeaderCount)
    (.valueError "HTTP limits must be non-zero")
  let connection := Connection.new role limits
  return { core := if lenient then connection.toLenient else connection, queue := [] }

/-- A call of the core, with `local_error` for its errors. -/
def onCore {α : Type} (call : LocalCall α) : PyCall α := fun c =>
  match call c.core with
  | (.ok a, core) => (.ok a, { c with core })
  | (.error error, core) => (.error (raiseLocal error), { c with core })

/-- `framed`: the bytes of `value` between the framing for their length. -/
def framed (value : PyAny) (framing : Nat → LocalCall (Bytes × Bytes)) : PyCall Bytes := do
  let data ← Call.ofExcept (withBuffer value)
  let parts ← onCore (framing data.length)
  return parts.1 ++ data ++ parts.2

/-- Appends bytes received from the peer. Exact `bytes` that lie wholly within
a message body are held. -/
def receiveData (data : PyAny) : PyCall Unit :=
  match data with
  | .bytes bytes true => fun c =>
    match Connection.holdBodyData bytes.length c.core with
    | (true, core) => (.ok (), { core, queue := c.queue ++ [bytes] })
    | (false, core) => onCore (Connection.receiveData bytes) { c with core }
  | data => do
    let bytes ← Call.ofExcept (withBuffer data)
    onCore (Connection.receiveData bytes)

/-- Returns the next peer event or a receive status; what is held comes first. -/
def nextEvent (hp : Httparse) : PyCall PyPolled := fun c =>
  match c.queue with
  | data :: rest =>
    let inPlace : PyCall PyPolled := do
      let flags ← onCore (Connection.nextEventInPlace data.length)
      return .event (.data ⟨data, flags.1, flags.2⟩)
    inPlace { c with queue := rest }
  | [] =>
    match Connection.nextEvent hp c.core with
    | (.ok next, core) => (.ok (polledToPy next), { c with core })
    | (.error error, core) => (.error (raiseRemote error), { c with core })

def sendRequest (method target : PyAny) (headers : PyFields) (body httpVersion : Option PyAny) :
    PyCall Bytes := do
  let request ← Call.ofExcept (extractRequest method target headers httpVersion)
  match body with
  | none => onCore (Connection.sendRequest request)
  | some body => framed body (Connection.sendRequestWithBodyFraming request)

def sendInformationalResponse (statusCode : Number) (headers : Option PyFields)
    (reason httpVersion : Option PyAny) : PyCall Bytes := do
  let status ← Call.ofExcept (status statusCode)
  let response ← Call.ofExcept (extractResponse status headers reason httpVersion)
  onCore (Connection.sendInformationalResponse response)

def sendResponse (statusCode : Number) (headers : Option PyFields)
    (body reason httpVersion : Option PyAny) : PyCall Bytes := do
  let status ← Call.ofExcept (status statusCode)
  let response ← Call.ofExcept (extractResponse status headers reason httpVersion)
  match body with
  | none => onCore (Connection.sendResponse response)
  | some body => framed body (Connection.sendResponseWithBodyFraming response)

def sendData (data : PyAny) : PyCall Bytes := framed data Connection.sendDataFraming

/-- Returns the framing around an object, without copying its bytes. -/
def sendDataParts (data : PyAny) : PyCall (Bytes × PyAny × Bytes) := do
  let length ← Call.ofExcept (bodyNbytes data)
  let parts ← onCore (Connection.sendDataFraming length)
  return (parts.1, data, parts.2)

def endOfMessage (trailers : Option PyFields) : PyCall Bytes := do
  let trailers ← Call.ofExcept (extractHeaders trailers)
  onCore (Connection.endOfMessage trailers)

def startNextCycle : PyCall Unit := onCore Connection.startNextCycle

def close : PyCall Unit := onCore Connection.close

/-- How many received bytes are held but not yet parsed. -/
def bufferedNbytes (c : PyConnection) : Nat := c.core.trailingData.1.length + c.core.held

end PyConnection

/-! ## The class as a machine -/

/-- A call of the class with its arguments. -/
inductive PyOp where
  | receiveData (data : PyAny)
  | nextEvent
  | sendRequest (method target : PyAny) (headers : PyFields) (body httpVersion : Option PyAny)
  | sendInformationalResponse (statusCode : Number) (headers : Option PyFields)
      (reason httpVersion : Option PyAny)
  | sendResponse (statusCode : Number) (headers : Option PyFields)
      (body reason httpVersion : Option PyAny)
  | sendData (data : PyAny)
  | sendDataParts (data : PyAny)
  | endOfMessage (trailers : Option PyFields)
  | startNextCycle
  | close

/-- What a call returns. -/
inductive PyResult where
  | none
  | polled (next : PyPolled)
  | bytes (wire : Bytes)
  | parts (before : Bytes) (body : PyAny) (after : Bytes)

abbrev PyOutcome := Except PyErr PyResult

namespace PyConnection

/-- Makes a call. -/
def call (hp : Httparse) : PyOp → PyCall PyResult
  | .receiveData data => do
    receiveData data
    return .none
  | .nextEvent => do
    let next ← nextEvent hp
    return .polled next
  | .sendRequest method target headers body httpVersion => do
    let wire ← sendRequest method target headers body httpVersion
    return .bytes wire
  | .sendInformationalResponse statusCode headers reason httpVersion => do
    let wire ← sendInformationalResponse statusCode headers reason httpVersion
    return .bytes wire
  | .sendResponse statusCode headers body reason httpVersion => do
    let wire ← sendResponse statusCode headers body reason httpVersion
    return .bytes wire
  | .sendData data => do
    let wire ← sendData data
    return .bytes wire
  | .sendDataParts data => do
    let parts ← sendDataParts data
    return .parts parts.1 parts.2.1 parts.2.2
  | .endOfMessage trailers => do
    let wire ← endOfMessage trailers
    return .bytes wire
  | .startNextCycle => do
    startNextCycle
    return .none
  | .close => do
    close
    return .none

def step (hp : Httparse) (op : PyOp) (c : PyConnection) : PyOutcome × PyConnection := call hp op c

end PyConnection

/-! ## Which call of the core it is -/

/-- The call of the core that a call stands for, or what reading its arguments
raises. -/
def PyOp.coreOp : PyOp → Except PyErr Connection.Op
  | .receiveData data => do
    let data ← withBuffer data
    return .receiveData data
  | .nextEvent => .ok .nextEvent
  | .sendRequest method target headers body httpVersion => do
    let request ← extractRequest method target headers httpVersion
    match body with
    | none => return .sendRequest request
    | some body => do
      let body ← withBuffer body
      return .sendRequestWithBody request body
  | .sendInformationalResponse statusCode headers reason httpVersion => do
    let status ← status statusCode
    let response ← extractResponse status headers reason httpVersion
    return .sendInformationalResponse response
  | .sendResponse statusCode headers body reason httpVersion => do
    let status ← status statusCode
    let response ← extractResponse status headers reason httpVersion
    match body with
    | none => return .sendResponse response
    | some body => do
      let body ← withBuffer body
      return .sendResponseWithBody response body
  | .sendData data => do
    let data ← withBuffer data
    return .sendData data
  | .sendDataParts data => do
    let length ← bodyNbytes data
    return .sendDataFraming length
  | .endOfMessage trailers => do
    let trailers ← extractHeaders trailers
    return .endOfMessage trailers
  | .startNextCycle => .ok .startNextCycle
  | .close => .ok .close

/-- What a caller of the class gets for an answer of the core. -/
def PyOp.answer (op : PyOp) : Connection.Outcome → PyOutcome
  | .unit | .held _ | .flags _ _ => .ok .none
  | .polled next => .ok (.polled (polledToPy next))
  | .bytes wire => .ok (.bytes wire)
  | .around before after =>
    match op with
    | .sendDataParts body => .ok (.parts before body after)
    | _ => .ok .none
  | .refused error => .error (raiseLocal error)
  | .failed error => .error (raiseRemote error)

/-- Calls that only write, or change the local state. -/
def PyOp.writes : PyOp → Bool
  | .receiveData _ | .nextEvent => false
  | _ => true

section Step

variable {hp : Httparse} {c : PyConnection}

theorem onCore_ok {α : Type} {call : LocalCall α} {a : α} {core : Connection}
    (h : call c.core = (.ok a, core)) : PyConnection.onCore call c = (.ok a, { c with core }) := by
  unfold PyConnection.onCore
  rw [h]

theorem onCore_error {α : Type} {call : LocalCall α} {error : LocalProtocolError}
    {core : Connection}
    (h : call c.core = (.error error, core)) :
    PyConnection.onCore call c = (.error (raiseLocal error), { c with core }) := by
  unfold PyConnection.onCore
  rw [h]

/-- Framing a body by its length and putting its bytes between is the call of
the core that does both. -/
theorem framed_eq {value : PyAny} {data : Bytes} (hvalue : withBuffer value = .ok data)
    (framing : Nat → LocalCall (Bytes × Bytes)) : PyConnection.framed value framing c =
      PyConnection.onCore (do
        let parts ← framing data.length
        return parts.1 ++ data ++ parts.2) c := by
  unfold PyConnection.framed
  rw [hvalue, Call.ofExcept_ok_bind]
  rcases hframing : framing data.length c.core with ⟨error | parts, core⟩
  · rw [Call.bind_of_error (onCore_error hframing), onCore_error (Call.bind_of_error hframing)]
  · have hboth : (framing data.length >>= fun parts =>
        (pure (parts.1 ++ data ++ parts.2) : LocalCall Bytes)) c.core =
        (.ok (parts.1 ++ data ++ parts.2), core) := Call.bind_of_ok hframing
    rw [Call.bind_of_ok (onCore_ok hframing), onCore_ok hboth]
    rfl

/-- The answer of a call of the core, put into Python's terms. -/
theorem answered {α : Type} {x : PyCall α} {call : LocalCall α} {result : α → PyResult} {op : PyOp}
    {coreOp : Connection.Op} {value : α → Connection.Outcome}
    (hx : x c = PyConnection.onCore call c)
    (hcore : Connection.step hp coreOp c.core = Connection.outcome value (call c.core))
    (hvalue : ∀ a, op.answer (value a) = .ok (result a)) :
    (x >>= fun a => pure (result a)) c = (op.answer (Connection.step hp coreOp c.core).1,
      { c with core := (Connection.step hp coreOp c.core).2 }) := by
  rw [hcore]
  rcases hcall : call c.core with ⟨error | a, core⟩
  · rw [Call.bind_of_error (hx.trans (onCore_error hcall))]
    rfl
  · rw [Call.bind_of_ok (hx.trans (onCore_ok hcall))]
    show (Except.ok (result a), _) = (op.answer (value a), _)
    rw [hvalue]
    rfl

/-- What a call does: its arguments are read, and then the core is called. If
they cannot be read the connection is as before. -/
def Amounts (hp : Httparse) (op : PyOp) (c : PyConnection) : Prop :=
  PyConnection.step hp op c = match op.coreOp with
    | .error error => (.error error, c)
    | .ok call => (op.answer (Connection.step hp call c.core).1,
        { c with core := (Connection.step hp call c.core).2 })

theorem amounts_error {op : PyOp} (error : PyErr) (hop : op.coreOp = .error error)
    (hstep : PyConnection.step hp op c = (.error error, c)) : Amounts hp op c := by
  unfold Amounts
  rw [hop]
  exact hstep

theorem amounts_ok {op : PyOp} (call : Connection.Op) (hop : op.coreOp = .ok call)
    (hstep : PyConnection.step hp op c = (op.answer (Connection.step hp call c.core).1,
      { c with core := (Connection.step hp call c.core).2 })) : Amounts hp op c := by
  unfold Amounts
  rw [hop]
  exact hstep

/-- A piece of a message whose bytes are framed by their length. -/
theorem framed_error {value : PyAny} {error : PyErr} (hvalue : withBuffer value = .error error)
    (framing : Nat → LocalCall (Bytes × Bytes)) :
    PyConnection.framed value framing c = (.error error, c) := by
  unfold PyConnection.framed
  rw [hvalue]
  rfl

/-- Arguments that cannot be read. -/
theorem unread_amounts {α β : Type} {op : PyOp} {error : PyErr} {x : Except PyErr α}
    {call : α → PyCall β} {coreOp : α → Except PyErr Connection.Op} {result : β → PyResult}
    (hx : x = .error error) (hop : op.coreOp = x >>= coreOp)
    (hcall : PyConnection.call hp op = (Call.ofExcept x >>= call) >>= fun b => pure (result b)) :
    Amounts hp op c := by
  refine amounts_error error ?_ ?_
  · rw [hop, hx]
    rfl
  · show PyConnection.call hp op c = _
    rw [hcall, hx]
    rfl

theorem sendData_amounts (data : PyAny) : Amounts hp (.sendData data) c := by
  cases hdata : withBuffer data with
  | error error =>
    refine amounts_error error ?_ ?_
    · show (withBuffer data >>= fun _ => _) = _
      rw [hdata]
      rfl
    · exact Call.bind_of_error (framed_error hdata _)
  | ok bytes =>
    refine amounts_ok (.sendData bytes) ?_ (answered (framed_eq hdata _) rfl fun _ => rfl)
    show (withBuffer data >>= fun _ => _) = _
    rw [hdata]
    rfl

theorem sendDataParts_amounts (data : PyAny) : Amounts hp (.sendDataParts data) c := by
  cases hlength : bodyNbytes data with
  | error error => exact unread_amounts hlength rfl rfl
  | ok length =>
    refine amounts_ok (.sendDataFraming length) ?_ ?_
    · show (bodyNbytes data >>= fun _ => _) = _
      rw [hlength]
      rfl
    · have hcall : PyConnection.sendDataParts data c = (PyConnection.onCore
          (Connection.sendDataFraming length) >>= fun parts => pure (parts.1, data, parts.2))
              c := by
        unfold PyConnection.sendDataParts
        rw [hlength]
        rfl
      rcases hparts : Connection.sendDataFraming length c.core with ⟨error | parts, core⟩
      · have hcore : Connection.step hp (.sendDataFraming length) c.core = (.refused error, core) :=
          congrArg (Connection.outcome fun parts : Bytes × Bytes =>
            Connection.Outcome.around parts.1 parts.2) hparts
        rw [hcore]
        exact Call.bind_of_error (hcall.trans (Call.bind_of_error (onCore_error hparts)))
      · have hcore : Connection.step hp (.sendDataFraming length) c.core =
            (.around parts.1 parts.2, core) :=
          congrArg (Connection.outcome fun parts : Bytes × Bytes =>
            Connection.Outcome.around parts.1 parts.2) hparts
        rw [hcore]
        exact Call.bind_of_ok (hcall.trans (Call.bind_of_ok (onCore_ok hparts)))

theorem sendRequest_amounts (method target : PyAny) (headers : PyFields)
    (body httpVersion : Option PyAny) :
    Amounts hp (.sendRequest method target headers body httpVersion) c := by
  cases hrequest : extractRequest method target headers httpVersion with
  | error error => exact unread_amounts hrequest rfl rfl
  | ok request =>
    cases body with
    | none =>
      refine amounts_ok (.sendRequest request) ?_ (answered ?_ rfl fun _ => rfl)
      · show (extractRequest method target headers httpVersion >>= fun _ => _) = _
        rw [hrequest]
        rfl
      · unfold PyConnection.sendRequest
        rw [hrequest]
        rfl
    | some body =>
      have hcore : (PyOp.sendRequest method target headers (some body) httpVersion).coreOp =
          (withBuffer body >>= fun body => pure (.sendRequestWithBody request body)) := by
        show (extractRequest method target headers httpVersion >>= fun _ => _) = _
        rw [hrequest]
        rfl
      have hcall : PyConnection.sendRequest method target headers (some body) httpVersion c =
          PyConnection.framed body (Connection.sendRequestWithBodyFraming request) c := by
        unfold PyConnection.sendRequest
        rw [hrequest]
        rfl
      cases hbody : withBuffer body with
      | error error =>
        refine amounts_error error ?_ (Call.bind_of_error (hcall.trans (framed_error hbody _)))
        rw [hcore, hbody]
        rfl
      | ok data =>
        refine amounts_ok (.sendRequestWithBody request data) ?_
          (answered (hcall.trans (framed_eq hbody _)) rfl fun _ => rfl)
        rw [hcore, hbody]
        rfl

theorem sendResponse_amounts (statusCode : Number) (headers : Option PyFields)
    (body reason httpVersion : Option PyAny) :
    Amounts hp (.sendResponse statusCode headers body reason httpVersion) c := by
  cases hstatus : status statusCode with
  | error error => exact unread_amounts hstatus rfl rfl
  | ok status =>
    have hop : (PyOp.sendResponse statusCode headers body reason httpVersion).coreOp =
        (extractResponse status headers reason httpVersion >>= fun response =>
          match body with
          | none => pure (.sendResponse response)
          | some body =>
            withBuffer body >>= fun body => pure (.sendResponseWithBody response body)) := by
      show (Python.status statusCode >>= fun _ => _) = _
      rw [hstatus]
      rfl
    have hcall : PyConnection.sendResponse statusCode headers body reason httpVersion c =
        (Call.ofExcept (extractResponse status headers reason httpVersion) >>= fun response =>
          match body with
          | none => PyConnection.onCore (Connection.sendResponse response)
          | some body =>
            PyConnection.framed body (Connection.sendResponseWithBodyFraming response)) c := by
      unfold PyConnection.sendResponse
      rw [hstatus]
      rfl
    cases hresponse : extractResponse status headers reason httpVersion with
    | error error =>
      rw [hresponse] at hop hcall
      exact amounts_error error hop (Call.bind_of_error hcall)
    | ok response =>
      rw [hresponse] at hop hcall
      cases body with
      | none => exact amounts_ok _ hop (answered hcall rfl fun _ => rfl)
      | some body =>
        cases hbody : withBuffer body with
        | error error =>
          refine amounts_error error ?_
            (Call.bind_of_error (hcall.trans (framed_error hbody _)))
          rw [hop]
          show (withBuffer body >>= fun _ => _) = _
          rw [hbody]
          rfl
        | ok data =>
          refine amounts_ok (.sendResponseWithBody response data) ?_
            (answered (hcall.trans (framed_eq hbody _)) rfl fun _ => rfl)
          rw [hop]
          show (withBuffer body >>= fun _ => _) = _
          rw [hbody]
          rfl

theorem sendInformationalResponse_amounts (statusCode : Number) (headers : Option PyFields)
    (reason httpVersion : Option PyAny) :
    Amounts hp (.sendInformationalResponse statusCode headers reason httpVersion) c := by
  cases hstatus : status statusCode with
  | error error => exact unread_amounts hstatus rfl rfl
  | ok status =>
    have hop : (PyOp.sendInformationalResponse statusCode headers reason httpVersion).coreOp =
        (extractResponse status headers reason httpVersion >>= fun response =>
          pure (.sendInformationalResponse response)) := by
      show (Python.status statusCode >>= fun _ => _) = _
      rw [hstatus]
      rfl
    have hcall : PyConnection.sendInformationalResponse statusCode headers reason httpVersion c =
        (Call.ofExcept (extractResponse status headers reason httpVersion) >>= fun response =>
          PyConnection.onCore (Connection.sendInformationalResponse response)) c := by
      unfold PyConnection.sendInformationalResponse
      rw [hstatus]
      rfl
    cases hresponse : extractResponse status headers reason httpVersion with
    | error error =>
      rw [hresponse] at hop hcall
      exact amounts_error error hop (Call.bind_of_error hcall)
    | ok response =>
      rw [hresponse] at hop hcall
      exact amounts_ok _ hop (answered hcall rfl fun _ => rfl)

theorem endOfMessage_amounts (trailers : Option PyFields) :
    Amounts hp (.endOfMessage trailers) c := by
  cases htrailers : extractHeaders trailers with
  | error error => exact unread_amounts htrailers rfl rfl
  | ok fields =>
    refine amounts_ok (.endOfMessage fields) ?_ (answered ?_ rfl fun _ => rfl)
    · show (extractHeaders trailers >>= fun _ => _) = _
      rw [htrailers]
      rfl
    · unfold PyConnection.endOfMessage
      rw [htrailers]
      rfl

/-- A call that does not touch what was received is the call of the core with
the values its arguments stand for. -/
theorem writes_amounts {op : PyOp} (hop : op.writes = true) : Amounts hp op c := by
  cases op with
  | receiveData | nextEvent => cases hop
  | sendRequest method target headers body httpVersion =>
    exact sendRequest_amounts method target headers body httpVersion
  | sendInformationalResponse statusCode headers reason httpVersion =>
    exact sendInformationalResponse_amounts statusCode headers reason httpVersion
  | sendResponse statusCode headers body reason httpVersion =>
    exact sendResponse_amounts statusCode headers body reason httpVersion
  | sendData data => exact sendData_amounts data
  | sendDataParts data => exact sendDataParts_amounts data
  | endOfMessage trailers => exact endOfMessage_amounts trailers
  | startNextCycle => exact amounts_ok _ rfl (answered rfl rfl fun _ => rfl)
  | close => exact amounts_ok _ rfl (answered rfl rfl fun _ => rfl)

end Step

/-! ## Passing events on -/

/-- The send method for what an event says, called with its attributes. -/
def PyEvent.forward : PyEvent → PyOp
  | .request value => .sendRequest (.bytes value.method true) (.bytes value.target true)
      (.headers value.headers) none (some (.bytes value.httpVersion true))
  | .informationalResponse value => .sendInformationalResponse (.int value.statusCode)
      (some (.headers value.headers)) (some (.bytes value.reason true))
      (some (.bytes value.httpVersion true))
  | .response value => .sendResponse (.int value.statusCode) (some (.headers value.headers)) none
      (some (.bytes value.reason true)) (some (.bytes value.httpVersion true))
  | .data value => .sendData (.bytes value.data true)
  | .endOfMessage value => .endOfMessage (some (.headers value.trailers))
  | .connectionClosed => .close

/-- The same of the core. -/
def coreForward : Event → Connection.Op
  | .request request => .sendRequest request
  | .informationalResponse response => .sendInformationalResponse response
  | .response response => .sendResponse response
  | .data data _ _ => .sendData data
  | .endOfMessage trailers => .endOfMessage trailers
  | .connectionClosed => .close

theorem coreOp_forward (event : Event) :
    (eventToPy event).forward.coreOp = .ok (coreForward event) := by
  cases event with
  | request request =>
    exact congrArg (· >>= fun request => pure (Connection.Op.sendRequest request))
      (extractRequest_fromCore request)
  | informationalResponse response =>
    exact (congrArg (· >>= fun status => extractResponse status _ _ _ >>= fun response =>
      pure (Connection.Op.sendInformationalResponse response)) (status_asU16 response.status)).trans
      (congrArg (· >>= fun response => pure (Connection.Op.sendInformationalResponse response))
        (extractResponse_fromCore response))
  | response response =>
    exact (congrArg (· >>= fun status => extractResponse status _ _ _ >>= fun response =>
      pure (Connection.Op.sendResponse response)) (status_asU16 response.status)).trans
      (congrArg (· >>= fun response => pure (Connection.Op.sendResponse response))
        (extractResponse_fromCore response))
  | data | endOfMessage | connectionClosed => rfl

theorem forward_writes (event : PyEvent) : event.forward.writes = true := by
  cases event <;> rfl

/-- What a poll of the class returns is an event of the core, of the right class. -/
theorem step_nextEvent_event {hp : Httparse} {py : PyConnection} {event : PyEvent}
    (h : (PyConnection.step hp .nextEvent py).1 = .ok (.polled (.event event))) :
    ∃ core, event = eventToPy core ∧ Classed core := by
  have hnext : ∃ py', PyConnection.nextEvent hp py = (.ok (.event event), py') := by
    rcases hcall : PyConnection.nextEvent hp py with ⟨error | next, py'⟩
    · have hfails : PyConnection.step hp .nextEvent py = (.error error, py') :=
        Call.bind_of_error hcall
      rw [hfails] at h
      cases h
    · have hreturns : PyConnection.step hp .nextEvent py = (.ok (.polled next), py') :=
        Call.bind_of_ok hcall
      rw [hreturns] at h
      cases h
      exact ⟨py', rfl⟩
  obtain ⟨py', hnext⟩ := hnext
  obtain ⟨core, queue⟩ := py
  cases queue with
  | cons segment rest =>
    obtain ⟨flags, after, _, hlast⟩ := Call.bind_eq_ok.mp hnext
    cases hlast
    exact ⟨.data segment flags.1 flags.2, rfl, trivial⟩
  | nil =>
    unfold PyConnection.nextEvent at hnext
    dsimp only at hnext
    rcases hcore : Connection.nextEvent hp core with ⟨error | next, after⟩
    · rw [hcore] at hnext
      cases hnext
    · rw [hcore] at hnext
      cases next with
      | needData | paused => cases hnext
      | event event =>
        cases hnext
        exact ⟨event, rfl, nextEvent_classed hcore⟩

/-- A caller may pass on whatever a connection reports. The attributes of an
event give the event back, and another connection that sends them makes the call
of the core with the very values that were received. -/
theorem reported_events_pass_on {hp : Httparse} {start py : PyConnection}
    {history : List (PyOp × PyOutcome)}
    (h : Lib.Run (PyConnection.step hp) (fun _ _ => True) start history py) {event : PyEvent}
    (hreported : (PyOp.nextEvent, Except.ok (PyResult.polled (.event event))) ∈ history) :
    event.rebuild = .ok event ∧ ∃ core, event = eventToPy core ∧
      ∀ other : PyConnection, PyConnection.step hp event.forward other =
        (event.forward.answer (Connection.step hp (coreForward core) other.core).1,
          { other with core := (Connection.step hp (coreForward core) other.core).2 }) := by
  have hentries : ∀ entry ∈ history, entry = (PyOp.nextEvent, .ok (.polled (.event event))) →
      ∃ core, event = eventToPy core ∧ Classed core := by
    refine Lib.Run.entries (P := fun _ => True) trivial (fun _ _ _ _ => trivial) ?_ h
    intro s op _ _ hentry
    obtain ⟨rfl, houtcome⟩ := Prod.mk.inj hentry
    exact step_nextEvent_event houtcome
  obtain ⟨core, rfl, hclassed⟩ := hentries _ hreported rfl
  refine ⟨rebuild_eventToPy hclassed, core, rfl, fun other => ?_⟩
  have hamounts : Amounts hp (eventToPy core).forward other := writes_amounts (forward_writes _)
  unfold Amounts at hamounts
  rw [coreOp_forward] at hamounts
  exact hamounts

/-- A server that gets a small request. -/
def pyServer : PyConnection := ⟨Connection.new .server .default, []⟩

def plainGetCalls : List PyOp :=
  [.receiveData (.bytes (Connection.plainGetHead .http11) true), .nextEvent]

def eventOf : PyOutcome → Option PyEvent
  | .ok (.polled (.event event)) => some event
  | _ => none

/-- The request is reported, and may be passed on. -/
theorem plain_get_passes_on : ∃ event : PyEvent, event.rebuild = .ok event ∧
    ∃ core, event = eventToPy core := by
  have hrun := @Lib.Run.trace_of_forall _ _ _ (PyConnection.step Reference.httparse)
    (fun _ _ => True)
    pyServer plainGetCalls fun _ _ => trivial
  have hsome : (eventOf (PyConnection.step Reference.httparse .nextEvent
      (PyConnection.step Reference.httparse
        (.receiveData (.bytes (Connection.plainGetHead .http11) true)) pyServer).2).1).isSome =
            true := by
    decide +kernel
  obtain ⟨event, hevent⟩ := Option.isSome_iff_exists.mp hsome
  have houtcome : (PyConnection.step Reference.httparse .nextEvent
      (PyConnection.step Reference.httparse
        (.receiveData (.bytes (Connection.plainGetHead .http11) true)) pyServer).2).1 =
      .ok (.polled (.event event)) := by
    unfold eventOf at hevent
    split at hevent
    · next h =>
      cases hevent
      exact h
    · cases hevent
  have hmem : (PyOp.nextEvent, Except.ok (PyResult.polled (.event event))) ∈
      (Lib.trace (PyConnection.step Reference.httparse) pyServer plainGetCalls).1 := by
    rw [← houtcome]
    exact List.mem_cons_of_mem _ List.mem_cons_self
  obtain ⟨hrebuild, core, hcore, _⟩ := reported_events_pass_on hrun hmem
  exact ⟨event, hrebuild, core, hcore⟩

end H11r.Python
