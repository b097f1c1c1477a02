import H11r.Connection.Receive
import H11r.Connection.Send
import Mathlib.Logic.Relation

/-!
# What a local call can do

For each send method: what it has checked when it succeeds, and the connection
it leaves. A failed call leaves the connection it was made on, `sendComplete`
included: whatever its steps did up to the failure, they changed no more than
the two fields it puts back (`SameOutside`).

`LocalChange` collects the successful steps, so that an invariant of the local
side is proved by cases on it and not once more for every method.
-/

namespace H11r.Connection

open Lib (Call)

variable {c c' : Connection}

theorem advanceLocal_ok {event : StateEvent} {u : Unit} (h : advanceLocal event c = (.ok u, c')) :
    ∃ state, c.state.processEvent c.role event = some state ∧ c' = { c with state := state } := by
  unfold advanceLocal at h
  split at h
  next state hstate =>
    cases h
    exact ⟨state, hstate, rfl⟩
  next => cases h

theorem advanceLocal_of_some {event : StateEvent} {state : ConnectionState}
    (h : c.state.processEvent c.role event = some state) :
    advanceLocal event c = (.ok (), { c with state := state }) := by
  unfold advanceLocal
  rw [h]

theorem advanceLocal_atomic (event : StateEvent) : Call.Atomic (advanceLocal event) := by
  intro c e c' h
  unfold advanceLocal at h
  split at h
  next => cases h
  next => cases h; rfl

/-! ## What the checks say -/

theorem validateReason_ok {reason : Bytes} (h : validateReason reason = .ok ()) :
    reason.all isLineValueByte = true := by
  unfold validateReason at h
  split at h
  next hall => exact hall
  next => cases h

theorem validateTrailers_headers {trailers : Headers} (h : validateTrailers trailers = .ok ()) :
    validateHeaders trailers = .ok () := by
  unfold validateTrailers at h
  cases hheaders : validateHeaders trailers with
  | ok => rfl
  | error error =>
    rw [hheaders] at h
    cases h

theorem validateRequest_ok {request : Request} {fields : Fields}
    (h : validateRequest request fields = .ok ()) :
    validRequestTarget request.method.asBytes request.target = true ∧
      validateHeaders request.headers = .ok () ∧ fields.checkSend = .ok () := by
  unfold validateRequest at h
  cases htarget : validRequestTarget request.method.asBytes request.target with
  | false =>
    rw [htarget] at h
    cases h
  | true =>
    rw [htarget] at h
    cases hheaders : validateHeaders request.headers with
    | error error =>
      rw [hheaders] at h
      cases h
    | ok =>
      rw [hheaders] at h
      cases hsend : fields.checkSend with
      | error error =>
        rw [hsend] at h
        cases h
      | ok => exact ⟨rfl, rfl, rfl⟩

/-! ## Requests -/

/-- What `send_request` checks of a request, whatever the connection. -/
structure RequestChecked (request : Request) (framing : Framing) (upgrades : List Bytes) : Prop where
  valid : validateRequest request (Fields.scan request.headers) = .ok ()
  framed : (Fields.scan request.headers).framing request.httpVersion false = .ok framing
  content : contentForbidden request.method framing = false
  expects : ¬(framing = .fixed 0 ∧ (Fields.scan request.headers).expectContinue = true)
  offers : ∃ offered, upgradeProtocols request.headers = some offered ∧
    ¬((Fields.scan request.headers).upgrade = true ∧ offered = []) ∧
    upgrades = if request.httpVersion = .http11 then offered else []

/-- The connection after a request head has been sent. -/
def sentRequest (request : Request) (framing : Framing) (upgrades : List Bytes)
    (state : ConnectionState) (c : Connection) : Connection :=
  (recordRequest request.method request.httpVersion (Fields.scan request.headers) framing upgrades
    { c with state := state }).mapCycle fun cycle => { cycle with writer := some framing }

theorem sentRequest_state (request : Request) (framing : Framing) (upgrades : List Bytes)
    (state : ConnectionState) (c : Connection) :
    (sentRequest request framing upgrades state c).state = state.disableKeepAliveIf
      !((Fields.scan request.headers).persistent request.httpVersion) :=
  disableKeepAliveIf_state _ _

theorem sentRequest_cycle (request : Request) (framing : Framing) (upgrades : List Bytes)
    (state : ConnectionState) (c : Connection) :
    (sentRequest request framing upgrades state c).cycle = { c.cycle with
      requestKind := some (RequestKind.fromMethod request.method.asBytes)
      waitingForContinue :=
        (Fields.scan request.headers).expectsContinue request.httpVersion framing
      continueBeforeUpgrade :=
        (Fields.scan request.headers).expectsContinue request.httpVersion framing &&
          !upgrades.isEmpty
      upgradeProposals := upgrades
      writer := some framing } := by
  unfold sentRequest recordRequest
  rw [disableKeepAliveIf_eq]
  rfl

theorem toLocal_eq_ok {α : Type} {x : Except RemoteProtocolError α} {a : α} :
    toLocal x = .ok a ↔ x = .ok a := by
  cases x <;> simp [toLocal]

theorem sendRequest_ok {request : Request} {bytes : Bytes}
    (h : sendRequest request c = (.ok bytes, c')) :
    ∃ framing upgrades state, c.role = .client ∧ c.input.asSlice = [] ∧
      RequestChecked request framing upgrades ∧
      c.state.processEvent .client (requestEvent request.method upgrades) = some state ∧
      bytes = serializeRequest request (Fields.scan request.headers).hostAt ∧
      c' = sentRequest request framing upgrades state c := by
  unfold sendRequest at h
  rw [Call.get_bind] at h
  obtain ⟨hrole, h⟩ := Call.failIf_bind_eq_ok.mp h
  obtain ⟨hinput, h⟩ := Call.failIf_bind_eq_ok.mp h
  obtain ⟨_, hvalid, h⟩ := Call.ofExcept_bind_eq_ok.mp h
  obtain ⟨framing, hframing, h⟩ := Call.ofExcept_bind_eq_ok.mp h
  obtain ⟨hcontent, h⟩ := Call.failIf_bind_eq_ok.mp h
  obtain ⟨hexpects, h⟩ := Call.failIf_bind_eq_ok.mp h
  obtain ⟨offered, hoffered, h⟩ := Call.ofExcept_bind_eq_ok.mp h
  obtain ⟨hupgrade, h⟩ := Call.failIf_bind_eq_ok.mp h
  obtain ⟨_, _, hadvance, hlast⟩ := Call.bind_eq_ok.mp h
  obtain ⟨state, hstate, rfl⟩ := advanceLocal_ok hadvance
  have hrole : c.role = .client := Decidable.not_not.mp hrole
  rw [hrole] at hstate
  cases hlast
  exact ⟨framing, _, state, hrole, Decidable.not_not.mp hinput,
    { valid := hvalid
      framed := toLocal_eq_ok.mp hframing
      content := by simpa using hcontent
      expects := hexpects
      offers := ⟨offered, okOr_eq_ok.mp hoffered, hupgrade, rfl⟩ },
    hstate, rfl, rfl⟩

/-- Every check comes before the state advances, and nothing after that fails. -/
theorem sendRequest_atomic (request : Request) : Call.Atomic (sendRequest request) := by
  unfold sendRequest
  refine .bind_left .get fun c => .bind_left (.failIf _ _) fun _ => ?_
  refine .bind_left (.failIf _ _) fun _ => .bind_left (.ofExcept _) fun _ => ?_
  refine .bind_left (.ofExcept _) fun framing => .bind_left (.failIf _ _) fun _ => ?_
  refine .bind_left (.failIf _ _) fun _ => .bind_left (.ofExcept _) fun offered => ?_
  refine .bind_left (.failIf _ _) fun _ => .bind_right (advanceLocal_atomic _) fun _ => ?_
  exact .bind (.modify _) fun _ => .bind (.modify _) fun _ => .pure _

/-! ## Responses -/

/-- What every response head is checked for. -/
structure HeadChecked (response : Response) : Prop where
  headers : validateHeaders response.headers = .ok ()
  reason : validateReason response.reason = .ok ()
  send : (Fields.scan response.headers).checkSend = .ok ()

theorem sendInformationalResponse_ok {response : Response} {bytes : Bytes}
    (h : sendInformationalResponse response c = (.ok bytes, c')) :
    ∃ event state, c.role = .server ∧ response.status.isInformational = true ∧
      c.peerVersion ≠ some .http10 ∧ HeadChecked response ∧
      hasFramingFields response.headers = false ∧
      c.informationalEvent response.status response.httpVersion response.headers = some event ∧
      c.state.processEvent .server event = some state ∧
      bytes = serializeResponse response.httpVersion response.status response.reason
        response.headers ∧
      c' = recordInformational response.status { c with state := state } := by
  unfold sendInformationalResponse at h
  rw [Call.get_bind] at h
  obtain ⟨hfirst, h⟩ := Call.failIf_bind_eq_ok.mp h
  obtain ⟨hpeer, h⟩ := Call.failIf_bind_eq_ok.mp h
  obtain ⟨_, hheaders, h⟩ := Call.ofExcept_bind_eq_ok.mp h
  obtain ⟨_, hreason, h⟩ := Call.ofExcept_bind_eq_ok.mp h
  obtain ⟨_, hsend, h⟩ := Call.ofExcept_bind_eq_ok.mp h
  obtain ⟨hframing, h⟩ := Call.failIf_bind_eq_ok.mp h
  obtain ⟨event, hevent, h⟩ := Call.ofExcept_bind_eq_ok.mp h
  obtain ⟨_, _, hadvance, hlast⟩ := Call.bind_eq_ok.mp h
  obtain ⟨state, hstate, rfl⟩ := advanceLocal_ok hadvance
  simp only [not_or, Decidable.not_not, Bool.not_eq_false] at hfirst
  rw [hfirst.1] at hstate
  cases hlast
  exact ⟨event, state, hfirst.1, hfirst.2, hpeer, ⟨hheaders, hreason, hsend⟩,
    by simpa using hframing, okOr_eq_ok.mp hevent, hstate, rfl, rfl⟩

theorem sendInformationalResponse_atomic (response : Response) :
    Call.Atomic (sendInformationalResponse response) := by
  unfold sendInformationalResponse
  refine .bind_left .get fun c => .bind_left (.failIf _ _) fun _ => ?_
  refine .bind_left (.failIf _ _) fun _ => .bind_left (.ofExcept _) fun _ => ?_
  refine .bind_left (.ofExcept _) fun _ => .bind_left (.ofExcept _) fun _ => ?_
  refine .bind_left (.failIf _ _) fun _ => .bind_left (.ofExcept _) fun event => ?_
  refine .bind_right (advanceLocal_atomic _) fun _ => ?_
  exact .bind (.modify _) fun _ => .pure _

/-- What `send_response` checks of a response besides its framing. -/
structure ResponseChecked (response : Response) (connect : Bool) : Prop extends
    HeadChecked response where
  upgrade : ¬(response.status.asU16 = 426 ∧ (upgradeProtocols response.headers).all (·.isEmpty))
  unframed : ¬((response.status.asU16 = 204 ∨ connect = true) ∧
    (Fields.scan response.headers).hasFraming = true)

/-- The connection after a final response head has been sent. -/
def sentResponse (response : Response) (framing : Framing) (state : ConnectionState)
    (c : Connection) : Connection :=
  (recordResponse (recordReasonsToClose framing (Fields.scan response.headers)
    { c with state := state })).mapCycle fun cycle =>
      { cycle with writer := if c.opensTunnel response.status then none else some framing }

/-- The reasons to close that a response adds. -/
def closesFor (c : Connection) (response : Response) (framing : Framing)
    (state : ConnectionState) : Bool :=
  framing == .closeDelimited || (state.client == .sendBody && c.unread) ||
    (Fields.scan response.headers).close

theorem sentResponse_state (response : Response) (framing : Framing) (state : ConnectionState)
    (hrole : c.role = .server) : (sentResponse response framing state c).state =
      state.disableKeepAliveIf (c.closesFor response framing state) := by
  show (recordReasonsToClose framing (Fields.scan response.headers) { c with state := state }).state
    = _
  unfold recordReasonsToClose
  rw [disableKeepAliveIf_state]
  unfold closesFor peerState
  rw [hrole]
  rfl

theorem sentResponse_cycle (response : Response) (framing : Framing) (state : ConnectionState)
    (c : Connection) : (sentResponse response framing state c).cycle = { c.cycle with
      waitingForContinue := false
      continueBeforeUpgrade := false
      upgradeProposals := []
      writer := if c.opensTunnel response.status then none else some framing } := by
  unfold sentResponse recordReasonsToClose
  rw [disableKeepAliveIf_eq]
  rfl

theorem sendResponse_ok {response : Response} {bytes : Bytes}
    (h : sendResponse response c = (.ok bytes, c')) :
    ∃ framing headers state, c.role = .server ∧ response.status.isInformational = false ∧
      ResponseChecked response (c.opensTunnel response.status) ∧
      c.responseFraming response = .ok (framing, headers) ∧
      c.state.processEvent .server (c.finalResponseEvent response.status) = some state ∧
      bytes = serializeResponse response.httpVersion response.status response.reason
        (if c.opensTunnel response.status then headers
          else c'.announcePersistence response.httpVersion headers) ∧
      c' = sentResponse response framing state c := by
  unfold sendResponse at h
  rw [Call.get_bind] at h
  obtain ⟨hfirst, h⟩ := Call.failIf_bind_eq_ok.mp h
  obtain ⟨_, hheaders, h⟩ := Call.ofExcept_bind_eq_ok.mp h
  obtain ⟨_, hreason, h⟩ := Call.ofExcept_bind_eq_ok.mp h
  obtain ⟨_, hsend, h⟩ := Call.ofExcept_bind_eq_ok.mp h
  obtain ⟨hupgrade, h⟩ := Call.failIf_bind_eq_ok.mp h
  obtain ⟨hunframed, h⟩ := Call.failIf_bind_eq_ok.mp h
  obtain ⟨⟨framing, headers⟩, hplan, h⟩ := Call.ofExcept_bind_eq_ok.mp h
  obtain ⟨_, _, hadvance, hlast⟩ := Call.bind_eq_ok.mp h
  obtain ⟨state, hstate, rfl⟩ := advanceLocal_ok hadvance
  simp only [not_or, Decidable.not_not, Bool.not_eq_true] at hfirst
  rw [hfirst.1] at hstate
  cases hlast
  exact ⟨framing, headers, state, hfirst.1, hfirst.2,
    { headers := hheaders, reason := hreason, send := hsend, upgrade := hupgrade
      unframed := hunframed }, hplan, hstate, rfl, rfl⟩

/-- The conditions of `sendResponse_ok` are all there are. -/
theorem sendResponse_of {response : Response} {framing : Framing} {headers : Headers}
    {state : ConnectionState} (hrole : c.role = .server)
    (hfinal : response.status.isInformational = false)
    (hchecked : ResponseChecked response (c.opensTunnel response.status))
    (hframing : c.responseFraming response = .ok (framing, headers))
    (hstate : c.state.processEvent .server (c.finalResponseEvent response.status) = some state) :
    sendResponse response c =
      (.ok (serializeResponse response.httpVersion response.status response.reason
        (if c.opensTunnel response.status then headers
          else (sentResponse response framing state c).announcePersistence response.httpVersion
            headers)), sentResponse response framing state c) := by
  have hfirst : ¬(c.role ≠ .server ∨ response.status.isInformational = true) := by
    rw [hrole, hfinal]
    simp
  rw [← hrole] at hstate
  unfold sendResponse
  rw [Call.get_bind, Call.failIf_bind, if_neg hfirst, hchecked.headers, Call.ofExcept_ok_bind,
    hchecked.reason, Call.ofExcept_ok_bind, hchecked.send, Call.ofExcept_ok_bind, Call.failIf_bind,
    if_neg hchecked.upgrade, Call.failIf_bind, if_neg hchecked.unframed, hframing,
    Call.ofExcept_ok_bind]
  exact Call.bind_of_ok (advanceLocal_of_some hstate)

theorem sendResponse_atomic (response : Response) : Call.Atomic (sendResponse response) := by
  unfold sendResponse
  refine .bind_left .get fun c => .bind_left (.failIf _ _) fun _ => ?_
  refine .bind_left (.ofExcept _) fun _ => .bind_left (.ofExcept _) fun _ => ?_
  refine .bind_left (.ofExcept _) fun _ => .bind_left (.failIf _ _) fun _ => ?_
  refine .bind_left (.failIf _ _) fun _ => .bind_left (.ofExcept _) fun plan => ?_
  refine .bind_right (advanceLocal_atomic _) fun _ => ?_
  refine .bind (.modify _) fun _ => .bind (.modify _) fun _ => .bind .get fun c => ?_
  exact .bind (.modify _) fun _ => .pure _

theorem recordInformational_state (status : StatusCode) (c : Connection) :
    (recordInformational status c).state = c.state := by
  unfold recordInformational
  split <;> rfl

/-! ## Bodies -/

/-- The framing a piece of body leaves, and the bytes around the piece. -/
inductive DataFramed : Framing → Nat → Framing → Bytes × Bytes → Prop
  | fixed {remaining length : Nat} (h : length ≤ remaining) :
      DataFramed (.fixed remaining) length (.fixed (remaining - length)) ([], [])
  | closeDelimited (length : Nat) : DataFramed .closeDelimited length .closeDelimited ([], [])
  | emptyChunk : DataFramed .chunked 0 .chunked ([], [])
  | chunk {length : Nat} (h : length ≠ 0) :
      DataFramed .chunked length .chunked (chunkSize length, crlf)

/-- The connection after a piece of body has been sent. -/
def sentData (writer : Framing) (state : ConnectionState) (c : Connection) : Connection :=
  { c with state := state }.mapCycle fun cycle =>
    { cycle with writer := some writer, waitingForContinue := false }

theorem sendDataFraming_ok {length : Nat} {around : Bytes × Bytes}
    (h : sendDataFraming length c = (.ok around, c')) :
    ∃ old new state, c.cycle.writer = some old ∧ DataFramed old length new around ∧
      c.state.processEvent c.role .data = some state ∧ c' = sentData new state c := by
  unfold sendDataFraming at h
  rw [Call.get_bind] at h
  obtain ⟨⟨new, parts⟩, hplan, h⟩ := Call.ofExcept_bind_eq_ok.mp h
  obtain ⟨_, _, hadvance, hlast⟩ := Call.bind_eq_ok.mp h
  obtain ⟨state, hstate, rfl⟩ := advanceLocal_ok hadvance
  cases hlast
  split at hplan
  · cases hplan
  next remaining hwriter =>
    split at hplan
    next hle =>
      cases hplan
      exact ⟨_, _, state, hwriter, .fixed hle, hstate, rfl⟩
    · cases hplan
  next hwriter =>
    cases hplan
    exact ⟨_, _, state, hwriter, .closeDelimited length, hstate, rfl⟩
  next hwriter =>
    split at hplan
    next hzero =>
      cases hplan
      subst hzero
      exact ⟨_, _, state, hwriter, .emptyChunk, hstate, rfl⟩
    next hzero =>
      cases hplan
      exact ⟨_, _, state, hwriter, .chunk hzero, hstate, rfl⟩

/-- The conditions of `sendDataFraming_ok` are all there are. -/
theorem sendDataFraming_of {old new : Framing} {length : Nat} {around : Bytes × Bytes}
    {state : ConnectionState} (hwriter : c.cycle.writer = some old)
    (hframed : DataFramed old length new around)
    (hstate : c.state.processEvent c.role .data = some state) :
    sendDataFraming length c = (.ok around, sentData new state c) := by
  unfold sendDataFraming
  rw [Call.get_bind, hwriter]
  cases hframed with
  | fixed h =>
    simp only [if_pos h]
    exact Call.bind_of_ok (advanceLocal_of_some hstate)
  | closeDelimited => exact Call.bind_of_ok (advanceLocal_of_some hstate)
  | emptyChunk => exact Call.bind_of_ok (advanceLocal_of_some hstate)
  | chunk h =>
    simp only [if_neg h]
    exact Call.bind_of_ok (advanceLocal_of_some hstate)

theorem sendDataFraming_atomic (length : Nat) : Call.Atomic (sendDataFraming length) := by
  unfold sendDataFraming
  refine .bind_left .get fun c => .bind_left (.ofExcept _) fun plan => ?_
  refine .bind_right (advanceLocal_atomic _) fun _ => ?_
  exact .bind (.modify _) fun _ => .pure _

theorem sendData_ok {data bytes : Bytes} (h : sendData data c = (.ok bytes, c')) :
    ∃ around, sendDataFraming data.length c = (.ok around, c') ∧
      bytes = around.1 ++ data ++ around.2 := by
  obtain ⟨around, c1, hframing, hlast⟩ := Call.bind_eq_ok.mp h
  cases hlast
  exact ⟨around, hframing, rfl⟩

theorem sendData_atomic (data : Bytes) : Call.Atomic (sendData data) :=
  .bind_right (sendDataFraming_atomic _) fun _ => .pure _

/-- The bytes that end a message with the given framing. -/
inductive EndFramed : Framing → Headers → Bytes → Prop
  | chunked (trailers : Headers) :
      EndFramed .chunked trailers (ascii "0" ++ crlf ++ writeHeaders trailers ++ crlf)
  | fixed {trailers : Headers} (h : trailers.isEmpty = true) : EndFramed (.fixed 0) trailers []
  | closeDelimited {trailers : Headers} (h : trailers.isEmpty = true) :
      EndFramed .closeDelimited trailers []

/-- The connection after the end of the local message. -/
def sentEnd (state : ConnectionState) (c : Connection) : Connection :=
  { c with state := state }.mapCycle fun cycle =>
    { cycle with writer := none, waitingForContinue := false }

theorem endOfMessage_ok {trailers : Headers} {bytes : Bytes}
    (h : endOfMessage trailers c = (.ok bytes, c')) :
    ∃ framing state, validateTrailers trailers = .ok () ∧ c.cycle.writer = some framing ∧
      EndFramed framing trailers bytes ∧
      c.state.processEvent c.role .endOfMessage = some state ∧ c' = sentEnd state c := by
  unfold endOfMessage at h
  obtain ⟨_, hvalid, h⟩ := Call.ofExcept_bind_eq_ok.mp h
  rw [Call.get_bind] at h
  obtain ⟨last, hlast, h⟩ := Call.ofExcept_bind_eq_ok.mp h
  obtain ⟨_, _, hadvance, hend⟩ := Call.bind_eq_ok.mp h
  obtain ⟨state, hstate, rfl⟩ := advanceLocal_ok hadvance
  cases hend
  split at hlast
  · cases hlast
  next hwriter =>
    cases hlast
    exact ⟨_, state, hvalid, hwriter, .chunked trailers, hstate, rfl⟩
  · cases hlast
  next hwriter =>
    split at hlast
    next hempty =>
      cases hlast
      exact ⟨_, state, hvalid, hwriter, .fixed hempty, hstate, rfl⟩
    · cases hlast
  next hwriter =>
    split at hlast
    next hempty =>
      cases hlast
      exact ⟨_, state, hvalid, hwriter, .closeDelimited hempty, hstate, rfl⟩
    · cases hlast

/-- The conditions of `endOfMessage_ok` are all there are. -/
theorem endOfMessage_of {trailers : Headers} {bytes : Bytes} {framing : Framing}
    {state : ConnectionState} (hvalid : validateTrailers trailers = .ok ())
    (hwriter : c.cycle.writer = some framing) (hframed : EndFramed framing trailers bytes)
    (hstate : c.state.processEvent c.role .endOfMessage = some state) :
    endOfMessage trailers c = (.ok bytes, sentEnd state c) := by
  unfold endOfMessage
  rw [hvalid, Call.ofExcept_ok_bind, Call.get_bind, hwriter]
  cases hframed with
  | chunked => exact Call.bind_of_ok (advanceLocal_of_some hstate)
  | fixed h =>
    simp only [h, if_true]
    exact Call.bind_of_ok (advanceLocal_of_some hstate)
  | closeDelimited h =>
    simp only [h, if_true]
    exact Call.bind_of_ok (advanceLocal_of_some hstate)

theorem endOfMessage_atomic (trailers : Headers) : Call.Atomic (endOfMessage trailers) := by
  unfold endOfMessage
  refine .bind_left (.ofExcept _) fun _ => .bind_left .get fun c => ?_
  refine .bind_left (.ofExcept _) fun bytes => .bind_right (advanceLocal_atomic _) fun _ => ?_
  exact .bind (.modify _) fun _ => .pure _

/-- The connection after its local actor has closed. -/
def sentClose (state : ConnectionState) (c : Connection) : Connection :=
  { c with state := state }.mapCycle fun cycle => { cycle with writer := none }

theorem close_ok {u : Unit} (h : close c = (.ok u, c')) :
    ∃ state, c.state.processEvent c.role .connectionClosed = some state ∧
      c' = sentClose state c := by
  obtain ⟨_, _, hadvance, hlast⟩ := Call.bind_eq_ok.mp h
  obtain ⟨state, hstate, rfl⟩ := advanceLocal_ok hadvance
  cases hlast
  exact ⟨state, hstate, rfl⟩

theorem close_atomic : Call.Atomic close :=
  .bind_right (advanceLocal_atomic _) fun _ => .modify _

/-! ## Complete messages -/

/-- The connections differ at most in the state and the cycle. -/
def SameOutside (c c' : Connection) : Prop := { c' with state := c.state, cycle := c.cycle } = c

theorem SameOutside.trans {c'' : Connection} (h : SameOutside c c') (h' : SameOutside c' c'') :
    SameOutside c c'' := by
  unfold SameOutside at *
  cases c
  cases c'
  simp only [Connection.mk.injEq] at *
  exact ⟨h'.1.trans h.1, trivial, h'.2.2.1.trans h.2.2.1, h'.2.2.2.1.trans h.2.2.2.1,
    h'.2.2.2.2.1.trans h.2.2.2.2.1, h'.2.2.2.2.2.1.trans h.2.2.2.2.2.1,
    h'.2.2.2.2.2.2.1.trans h.2.2.2.2.2.2.1, h'.2.2.2.2.2.2.2.1.trans h.2.2.2.2.2.2.2.1, trivial⟩

theorem sendRest_ok {before : Bytes} {length : Nat} {parts : Bytes × Bytes}
    (h : sendRest before length c = (.ok parts, c')) :
    (c.localState = .switchedProtocol ∧ length = 0 ∧ parts = (before, []) ∧ c' = c) ∨
    (∃ last, c.localState ≠ .switchedProtocol ∧ length = 0 ∧
      endOfMessage .new c = (.ok last, c') ∧ parts = (before, last)) ∨
    (∃ around c1 last, c.localState ≠ .switchedProtocol ∧ length ≠ 0 ∧
      sendDataFraming length c = (.ok around, c1) ∧ endOfMessage .new c1 = (.ok last, c') ∧
      parts = (before ++ around.1, around.2 ++ last)) := by
  unfold sendRest at h
  rw [Call.get_bind] at h
  split at h
  next hswitched =>
    obtain ⟨hlength, hlast⟩ := Call.failIf_bind_eq_ok.mp h
    cases hlast
    exact Or.inl ⟨hswitched, Decidable.not_not.mp hlength, rfl, rfl⟩
  next hswitched =>
    split at h
    next hlength =>
      obtain ⟨around, c1, hdata, h⟩ := Call.bind_eq_ok.mp h
      obtain ⟨last, c2, hend, hlast⟩ := Call.bind_eq_ok.mp h
      cases hlast
      exact Or.inr (Or.inr ⟨around, c1, last, hswitched, hlength, hdata, hend, rfl⟩)
    next hlength =>
      rw [Call.pure_bind] at h
      obtain ⟨last, c2, hend, hlast⟩ := Call.bind_eq_ok.mp h
      cases hlast
      exact Or.inr (Or.inl ⟨last, hswitched, Decidable.not_not.mp hlength, hend, by
        rw [List.append_nil, List.nil_append]⟩)

theorem sendComplete_ok {head : LocalCall Bytes} {length : Nat} {parts : Bytes × Bytes}
    (h : sendComplete head length c = (.ok parts, c')) :
    ∃ before c1, head c = (.ok before, c1) ∧ sendRest before length c1 = (.ok parts, c') := by
  unfold sendComplete at h
  split at h
  next hsteps =>
    cases h
    exact Call.bind_eq_ok.mp hsteps
  next => cases h

/-- A failed step of `send_complete` has changed nothing that is not put back. -/
theorem sendComplete_atomic {head : LocalCall Bytes} (hhead : Call.Atomic head)
    (houtside : ∀ {c c' before}, head c = (.ok before, c') → SameOutside c c') (length : Nat) :
    Call.Atomic (sendComplete head length) := by
  intro c error c' h
  unfold sendComplete at h
  split at h
  · cases h
  next failure after hsteps =>
    cases h
    show SameOutside c after
    rcases Call.bind_eq_error.mp hsteps with hfails | ⟨before, c1, hok, hrest⟩
    · rw [hhead _ _ _ hfails]
      rfl
    · refine (houtside hok).trans ?_
      unfold sendRest at hrest
      rw [Call.get_bind] at hrest
      split at hrest
      · rw [Call.failIf_bind] at hrest
        split at hrest
        · cases hrest
          rfl
        · cases hrest
      · split at hrest
        · rcases Call.bind_eq_error.mp hrest with hdata | ⟨around, c2, hdata, hend⟩
          · rw [sendDataFraming_atomic _ _ _ _ hdata]
            rfl
          · obtain ⟨_, _, _, _, _, _, rfl⟩ := sendDataFraming_ok hdata
            rcases Call.bind_eq_error.mp hend with hend | ⟨_, _, _, hlast⟩
            · rw [endOfMessage_atomic _ _ _ _ hend]
              rfl
            · cases hlast
        · rw [Call.pure_bind] at hrest
          rcases Call.bind_eq_error.mp hrest with hend | ⟨_, _, _, hlast⟩
          · rw [endOfMessage_atomic _ _ _ _ hend]
            rfl
          · cases hlast

theorem sentRequest_sameOutside (request : Request) (framing : Framing) (upgrades : List Bytes)
    (state : ConnectionState) (c : Connection) :
    SameOutside c (sentRequest request framing upgrades state c) := by
  unfold sentRequest recordRequest
  rw [disableKeepAliveIf_eq]
  rfl

theorem sentResponse_sameOutside (response : Response) (framing : Framing)
    (state : ConnectionState) (c : Connection) :
    SameOutside c (sentResponse response framing state c) := by
  unfold sentResponse recordReasonsToClose
  rw [disableKeepAliveIf_eq]
  rfl

theorem responseWithLength_status (c : Connection) (response : Response) (length : Nat) :
    (c.responseWithLength response length).status = response.status := by
  unfold responseWithLength
  split <;> rfl

theorem sendRequestWithBodyFraming_atomic (request : Request) (length : Nat) :
    Call.Atomic (sendRequestWithBodyFraming request length) := by
  refine sendComplete_atomic (sendRequest_atomic _) (fun hok => ?_) length
  obtain ⟨framing, upgrades, state, _, _, _, _, _, rfl⟩ := sendRequest_ok hok
  exact sentRequest_sameOutside _ _ _ _ _

theorem sendResponseWithBodyFraming_atomic (response : Response) (length : Nat) :
    Call.Atomic (sendResponseWithBodyFraming response length) := by
  refine .bind_left .get fun c => sendComplete_atomic (sendResponse_atomic _) (fun hok => ?_) length
  obtain ⟨framing, headers, state, _, _, _, _, _, _, rfl⟩ := sendResponse_ok hok
  exact sentResponse_sameOutside _ _ _ _

theorem sendRequestWithBody_atomic (request : Request) (body : Bytes) :
    Call.Atomic (sendRequestWithBody request body) :=
  .bind_right (sendRequestWithBodyFraming_atomic _ _) fun _ => .pure _

theorem sendResponseWithBody_atomic (response : Response) (body : Bytes) :
    Call.Atomic (sendResponseWithBody response body) :=
  .bind_right (sendResponseWithBodyFraming_atomic _ _) fun _ => .pure _

/-! ## All of them together -/

/-- A successful step of the local side. -/
inductive LocalChange : Connection → Connection → Prop
  | request {c : Connection} {request : Request} {framing : Framing} {upgrades : List Bytes}
      {state : ConnectionState} (hrole : c.role = .client) (hinput : c.input.asSlice = [])
      (hchecked : RequestChecked request framing upgrades)
      (hstate : c.state.processEvent .client (requestEvent request.method upgrades) = some state) :
      LocalChange c (sentRequest request framing upgrades state c)
  | informational {c : Connection} {response : Response} {event : StateEvent}
      {state : ConnectionState} (hrole : c.role = .server)
      (hevent : c.informationalEvent response.status response.httpVersion response.headers =
        some event)
      (hstate : c.state.processEvent .server event = some state) :
      LocalChange c (recordInformational response.status { c with state := state })
  | response {c : Connection} {response : Response} {framing : Framing} {headers : Headers}
      {state : ConnectionState} (hrole : c.role = .server)
      (hframing : c.responseFraming response = .ok (framing, headers))
      (hstate : c.state.processEvent .server (c.finalResponseEvent response.status) =
        some state) :
      LocalChange c (sentResponse response framing state c)
  | data {c : Connection} {writer : Framing} {state : ConnectionState}
      (hstate : c.state.processEvent c.role .data = some state) :
      LocalChange c (sentData writer state c)
  | ends {c : Connection} {state : ConnectionState}
      (hstate : c.state.processEvent c.role .endOfMessage = some state) :
      LocalChange c (sentEnd state c)
  | closes {c : Connection} {state : ConnectionState}
      (hstate : c.state.processEvent c.role .connectionClosed = some state) :
      LocalChange c (sentClose state c)

/-- The local side of a successful call. -/
abbrev LocalChanges : Connection → Connection → Prop := Relation.ReflTransGen LocalChange

theorem sendRequest_change {request : Request} {bytes : Bytes}
    (h : sendRequest request c = (.ok bytes, c')) : LocalChange c c' := by
  obtain ⟨framing, upgrades, state, hrole, hinput, hchecked, hstate, _, rfl⟩ := sendRequest_ok h
  exact .request hrole hinput hchecked hstate

theorem sendInformationalResponse_change {response : Response} {bytes : Bytes}
    (h : sendInformationalResponse response c = (.ok bytes, c')) : LocalChange c c' := by
  obtain ⟨event, state, hrole, _, _, _, _, hevent, hstate, _, rfl⟩ :=
    sendInformationalResponse_ok h
  exact .informational hrole hevent hstate

theorem sendResponse_change {response : Response} {bytes : Bytes}
    (h : sendResponse response c = (.ok bytes, c')) : LocalChange c c' := by
  obtain ⟨framing, headers, state, hrole, _, _, hframing, hstate, _, rfl⟩ := sendResponse_ok h
  exact .response hrole hframing hstate

theorem sendDataFraming_change {length : Nat} {around : Bytes × Bytes}
    (h : sendDataFraming length c = (.ok around, c')) : LocalChange c c' := by
  obtain ⟨_, _, state, _, _, hstate, rfl⟩ := sendDataFraming_ok h
  exact .data hstate

theorem endOfMessage_change {trailers : Headers} {bytes : Bytes}
    (h : endOfMessage trailers c = (.ok bytes, c')) : LocalChange c c' := by
  obtain ⟨_, state, _, _, _, hstate, rfl⟩ := endOfMessage_ok h
  exact .ends hstate

theorem close_change {u : Unit} (h : close c = (.ok u, c')) : LocalChange c c' := by
  obtain ⟨state, hstate, rfl⟩ := close_ok h
  exact .closes hstate

/-- What follows a head in a complete message. -/
theorem sendRest_changes {before : Bytes} {length : Nat} {parts : Bytes × Bytes}
    (h : sendRest before length c = (.ok parts, c')) : LocalChanges c c' := by
  rcases sendRest_ok h with ⟨_, _, _, rfl⟩ | ⟨last, _, _, hend, _⟩ |
    ⟨around, c1, last, _, _, hdata, hend, _⟩
  · exact .refl
  · exact .single (endOfMessage_change hend)
  · exact .tail (.single (sendDataFraming_change hdata)) (endOfMessage_change hend)

theorem sendRequestWithBodyFraming_ok {request : Request} {length : Nat} {parts : Bytes × Bytes}
    (h : sendRequestWithBodyFraming request length c = (.ok parts, c')) :
    ∃ before c1, sendRequest (requestWithLength request length) c = (.ok before, c1) ∧
      sendRest before length c1 = (.ok parts, c') :=
  sendComplete_ok h

theorem sendResponseWithBodyFraming_ok {response : Response} {length : Nat}
    {parts : Bytes × Bytes} (h : sendResponseWithBodyFraming response length c = (.ok parts, c')) :
    ∃ before c1, sendResponse (c.responseWithLength response length) c = (.ok before, c1) ∧
      sendRest before length c1 = (.ok parts, c') := by
  unfold sendResponseWithBodyFraming at h
  rw [Call.get_bind] at h
  exact sendComplete_ok h

theorem sendRequestWithBodyFraming_changes {request : Request} {length : Nat}
    {parts : Bytes × Bytes} (h : sendRequestWithBodyFraming request length c = (.ok parts, c')) :
    LocalChanges c c' := by
  obtain ⟨before, c1, hhead, hrest⟩ := sendRequestWithBodyFraming_ok h
  exact .head (sendRequest_change hhead) (sendRest_changes hrest)

theorem sendResponseWithBodyFraming_changes {response : Response} {length : Nat}
    {parts : Bytes × Bytes} (h : sendResponseWithBodyFraming response length c = (.ok parts, c')) :
    LocalChanges c c' := by
  obtain ⟨before, c1, hhead, hrest⟩ := sendResponseWithBodyFraming_ok h
  exact .head (sendResponse_change hhead) (sendRest_changes hrest)

theorem sendRequestWithBody_ok {request : Request} {body bytes : Bytes}
    (h : sendRequestWithBody request body c = (.ok bytes, c')) :
    ∃ parts, sendRequestWithBodyFraming request body.length c = (.ok parts, c') ∧
      bytes = parts.1 ++ body ++ parts.2 := by
  obtain ⟨parts, c1, hframing, hlast⟩ := Call.bind_eq_ok.mp h
  cases hlast
  exact ⟨parts, hframing, rfl⟩

theorem sendResponseWithBody_ok {response : Response} {body bytes : Bytes}
    (h : sendResponseWithBody response body c = (.ok bytes, c')) :
    ∃ parts, sendResponseWithBodyFraming response body.length c = (.ok parts, c') ∧
      bytes = parts.1 ++ body ++ parts.2 := by
  obtain ⟨parts, c1, hframing, hlast⟩ := Call.bind_eq_ok.mp h
  cases hlast
  exact ⟨parts, hframing, rfl⟩

end H11r.Connection
