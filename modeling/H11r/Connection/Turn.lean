import H11r.Connection.Receive

/-!
# What one turn of the decoder can do

`Turn hp c r c'` lists every way in which `dispatch` can take `c` to `c'` with
the result `r`, each with what it has checked on the way; `dispatch_turn` says
the list is complete. A poll is a sequence of turns of which only the last
reports something (`Turns`, `nextEventInner_turns`). Properties of polls are
proved by cases on the turn and never unfold the decoder again.
-/

namespace H11r.Connection

open Lib (Call)

/-- The peer is in a state in which `next_event_inner` goes on to the reader. -/
def Reading (c : Connection) : Prop :=
  (c.peerState = .idle ∧ ¬(c.eof = true ∧ c.input.asSlice.length ≤ c.limits.maxHeadBytes ∧
      onlyEmptyLines c.input.asSlice = true)) ∨
    c.peerState = .sendResponse ∨ c.peerState = .sendBody

/-- The connection with other notes about how far its input has been scanned. -/
def rescan (progress : SectionProgress) (reader : Reader) (extensionBytes : Nat) (c : Connection) :
    Connection :=
  c.mapCycle fun cycle =>
    { cycle with progress := progress, reader := reader, chunkExtensionBytes := extensionBytes }

/-- Readers that differ only in how far a chunk-size line has been scanned. -/
def SameReader (old new : Reader) : Prop :=
  new = old ∨ ∃ scanned scanned', old = .chunked (.size scanned) ∧ new = .chunked (.size scanned')

/-- What a look at the buffer leaves of the notes about it: those of
`SectionProgress::due`, or an unfinished chunk-size line up to its last byte. -/
def Rescans (c : Connection) (progress : SectionProgress) (reader : Reader) : Prop :=
  (progress = c.cycle.progress ∨
    (c.cycle.reader = .head ∧ progress = (c.cycle.progress.due c.input.asSlice true).2) ∨
    (c.cycle.reader = .chunked .trailers ∧
      progress = (c.cycle.progress.due c.input.asSlice false).2)) ∧
  (reader = c.cycle.reader ∨ reader = .chunked (.size (c.input.asSlice.length - 1)))

/-- The connection after a request head has been accepted. -/
def acceptedRequest (request : Request) (framing : Framing) (state : ConnectionState)
    (c : Connection) : Connection :=
  setReader (reader framing)
    { recordRequest request.method request.httpVersion (Fields.scan request.headers) framing
        (offeredUpgrades request (Fields.scan request.headers)) { c with state := state } with
      peerVersion := some request.httpVersion }

/-- The connection after an informational response has been accepted. -/
def acceptedInformational (response : Response) (state : ConnectionState) (c : Connection) :
    Connection :=
  { recordInformational response.status (disableKeepAliveIf
      (isFaulty ((Fields.scan response.headers).framing response.httpVersion true))
      { c with state := state }) with
    peerVersion := some response.httpVersion }

/-- The connection once a final response counts, before its framing does. -/
def countedFinal (response : Response) (state : ConnectionState) (c : Connection) : Connection :=
  { recordResponse (disableKeepAliveIf
      (!(Fields.scan response.headers).persistent response.httpVersion) { c with state := state }) with
    peerVersion := some response.httpVersion }

/-- The body framing of a received final response. -/
def receivedFraming (c : Connection) (response : Response) : Except RemoteProtocolError Framing :=
  if c.responseHasNoBody response.status then .ok (.fixed 0)
  else (Fields.scan response.headers).framing response.httpVersion true

/-- The connection after a final response with the given framing. -/
def acceptedFinal (response : Response) (framing : Framing) (state : ConnectionState)
    (c : Connection) : Connection :=
  setReader (reader framing) (disableKeepAliveIf (framing == .closeDelimited)
    (disableKeepAliveIf (c.responseHasNoBody response.status &&
        isFaulty ((Fields.scan response.headers).framing response.httpVersion true))
      (countedFinal response state c)))

theorem acceptedRequest_state (request : Request) (framing : Framing) (state : ConnectionState)
    (c : Connection) : (acceptedRequest request framing state c).state =
      state.disableKeepAliveIf !((Fields.scan request.headers).persistent request.httpVersion) :=
  disableKeepAliveIf_state _ _

theorem acceptedRequest_cycle (request : Request) (framing : Framing) (state : ConnectionState)
    (c : Connection) : (acceptedRequest request framing state c).cycle =
      { c.cycle with
        requestKind := some (RequestKind.fromMethod request.method.asBytes)
        waitingForContinue :=
          (Fields.scan request.headers).expectsContinue request.httpVersion framing
        continueBeforeUpgrade :=
          (Fields.scan request.headers).expectsContinue request.httpVersion framing &&
            !(offeredUpgrades request (Fields.scan request.headers)).isEmpty
        upgradeProposals := offeredUpgrades request (Fields.scan request.headers)
        reader := reader framing } := by
  unfold acceptedRequest recordRequest
  rw [disableKeepAliveIf_eq]
  rfl

theorem acceptedInformational_state (response : Response) (state : ConnectionState)
    (c : Connection) : (acceptedInformational response state c).state =
      state.disableKeepAliveIf
        (isFaulty ((Fields.scan response.headers).framing response.httpVersion true)) := by
  unfold acceptedInformational recordInformational
  split <;> exact disableKeepAliveIf_state _ _

theorem countedFinal_state (response : Response) (state : ConnectionState) (c : Connection) :
    (countedFinal response state c).state = state.disableKeepAliveIf
      !((Fields.scan response.headers).persistent response.httpVersion) :=
  disableKeepAliveIf_state _ _

theorem acceptedFinal_state (response : Response) (framing : Framing) (state : ConnectionState)
    (c : Connection) : (acceptedFinal response framing state c).state =
      ((state.disableKeepAliveIf
        !((Fields.scan response.headers).persistent response.httpVersion)).disableKeepAliveIf
        (c.responseHasNoBody response.status &&
          isFaulty ((Fields.scan response.headers).framing response.httpVersion true))
        ).disableKeepAliveIf (framing == .closeDelimited) := by
  show (disableKeepAliveIf _ (disableKeepAliveIf _ (countedFinal response state c))).state = _
  rw [disableKeepAliveIf_state, disableKeepAliveIf_state, countedFinal_state]

theorem acceptedFinal_cycle (response : Response) (framing : Framing) (state : ConnectionState)
    (c : Connection) : (acceptedFinal response framing state c).cycle =
      { c.cycle with
        waitingForContinue := false
        continueBeforeUpgrade := false
        upgradeProposals := []
        reader := reader framing } := by
  unfold acceptedFinal countedFinal
  simp only [disableKeepAliveIf_eq]
  rfl

theorem acceptedRequest_input (request : Request) (framing : Framing) (state : ConnectionState)
    (c : Connection) : (acceptedRequest request framing state c).input = c.input := by
  unfold acceptedRequest recordRequest
  rw [disableKeepAliveIf_eq]
  rfl

theorem acceptedInformational_input (response : Response) (state : ConnectionState)
    (c : Connection) : (acceptedInformational response state c).input = c.input := by
  unfold acceptedInformational recordInformational
  simp only [disableKeepAliveIf_eq]
  split <;> rfl

theorem countedFinal_input (response : Response) (state : ConnectionState) (c : Connection) :
    (countedFinal response state c).input = c.input := by
  unfold countedFinal
  rw [disableKeepAliveIf_eq]
  rfl

theorem acceptedFinal_input (response : Response) (framing : Framing) (state : ConnectionState)
    (c : Connection) : (acceptedFinal response framing state c).input = c.input := by
  show (disableKeepAliveIf _ (disableKeepAliveIf _ (countedFinal response state c))).input = _
  rw [disableKeepAliveIf_input, disableKeepAliveIf_input, countedFinal_input]

/-- A section that was read with a line dropped leaves the buffer like any other. -/
theorem consumeSection_input (dropped : Bool) (stop : Nat) (c : Connection) :
    ((c.disableKeepAliveIf dropped).consumeSection stop).input = c.input.consume stop := by
  unfold consumeSection mapCycle
  rw [disableKeepAliveIf_input]

/-- The connection after a decoded piece of body. -/
def acceptedData (state : ConnectionState) (c : Connection) : Connection :=
  { c with state := state }.mapCycle fun cycle => { cycle with waitingForContinue := false }

/-- The connection after the end of the peer's message. -/
def finishedPeer (state : ConnectionState) (c : Connection) : Connection :=
  setReader .head { c with state := state }

/-- The connection after a chunk-size line that ends at `stop`. -/
def afterSizeLine (stop size extensionBytes : Nat) (c : Connection) : Connection :=
  { c with input := c.input.consume stop }.mapCycle fun cycle =>
    { cycle with
      chunkExtensionBytes := extensionBytes
      reader := if size = 0 then .chunked .trailers else .chunked (.data size true)
      progress := if size = 0 then .new else cycle.progress }

/-- One turn of the decoder, by what it found. -/
inductive Turn (hp : Httparse) (c : Connection) :
    Except RemoteProtocolError (Option Polled) → Connection → Prop
  | closed (hpeer : c.peerState = .closed) : Turn hp c (.ok (some (.event .connectionClosed))) c
  | idleClosed {state : ConnectionState} (hpeer : c.peerState = .idle) (heof : c.eof = true)
      (hlen : c.input.asSlice.length ≤ c.limits.maxHeadBytes)
      (hempty : onlyEmptyLines c.input.asSlice = true)
      (hstate : c.state.processEvent c.role.peer .connectionClosed = some state) :
      Turn hp c (.ok (some (.event .connectionClosed)))
        { c with input := c.input.consume c.input.asSlice.length, state := state }
  | paused (hpeer : c.peerState = .mightSwitchProtocol ∨ c.peerState = .switchedProtocol ∨
        ((c.peerState = .done ∨ c.peerState = .mustClose) ∧ c.input.asSlice ≠ [])) :
      Turn hp c (.ok (some .paused)) c
  | doneClosed {state : ConnectionState} (hpeer : c.peerState = .done ∨ c.peerState = .mustClose)
      (hinput : c.input.asSlice = []) (heof : c.eof = true)
      (hstate : c.state.processEvent c.role.peer .connectionClosed = some state) :
      Turn hp c (.ok (some (.event .connectionClosed))) { c with state := state }
  | doneWaits (hpeer : c.peerState = .done ∨ c.peerState = .mustClose)
      (hinput : c.input.asSlice = []) (heof : c.eof = false) : Turn hp c (.ok (some .needData)) c
  | poisoned {error : RemoteProtocolError} (hpeer : c.peerState = .error) : Turn hp c (.error error) c
  | waits {progress : SectionProgress} {reader : Reader} (hreading : c.Reading)
      (heof : c.eof = false) (hreader : SameReader c.cycle.reader reader)
      (hpending : c.input.asSlice.length ≤ c.limits.maxHeadBytes + 1)
      (hscan : c.Rescans progress reader) :
      Turn hp c (.ok (some .needData)) (c.rescan progress reader c.cycle.chunkExtensionBytes)
  | fails {error : RemoteProtocolError} {progress : SectionProgress} {reader : Reader}
      {extensionBytes : Nat} (hreading : c.Reading) (hreader : SameReader c.cycle.reader reader)
      (hscan : c.Rescans progress reader) :
      Turn hp c (.error error) (c.rescan progress reader extensionBytes)
  | request {stop : Nat} {request : Request} {framing : Framing} {state : ConnectionState}
      (hreading : c.Reading) (hreader : c.cycle.reader = .head) (hrole : c.role = .server)
      (hparse : parseRequestHead hp c.headSection c.limits.maxHeaderCount =
        .ok (some (stop, request)))
      (hframing : (Fields.scan request.headers).framing request.httpVersion false = .ok framing)
      (hforbidden : contentForbidden request.method framing = false)
      (hstate : c.state.processEvent .client (requestEvent request.method
        (offeredUpgrades request (Fields.scan request.headers))) = some state) :
      Turn hp c (.ok (some (.event (.request request))))
        (acceptedRequest request framing state (c.consumeSection stop))
  | requestRejected {error : RemoteProtocolError} {stop : Nat} {request : Request}
      (hreading : c.Reading) (hreader : c.cycle.reader = .head) (hrole : c.role = .server)
      (hparse : parseRequestHead hp c.headSection c.limits.maxHeaderCount =
        .ok (some (stop, request))) : Turn hp c (.error error) (c.consumeSection stop)
  | informational {stop : Nat} {response : Response} {dropped : Bool} {event : StateEvent}
      {state : ConnectionState} (hreading : c.Reading) (hreader : c.cycle.reader = .head)
      (hrole : c.role = .client)
      (hparse : parseResponseHead hp c.headSection c.limits.maxHeaderCount c.lenient =
        .ok (some (stop, response, dropped)))
      (hlocal : (c.disableKeepAliveIf dropped).localState ≠ .idle)
      (hstatus : response.status.isInformational = true)
      (hevent : c.informationalEvent response.status response.httpVersion response.headers =
        some event)
      (hstate : (c.disableKeepAliveIf dropped).state.processEvent .server event = some state) :
      Turn hp c (.ok (some (.event (.informationalResponse response))))
        (acceptedInformational response state ((c.disableKeepAliveIf dropped).consumeSection stop))
  | final {stop : Nat} {response : Response} {dropped : Bool} {framing : Framing}
      {state : ConnectionState} (hreading : c.Reading) (hreader : c.cycle.reader = .head)
      (hrole : c.role = .client)
      (hparse : parseResponseHead hp c.headSection c.limits.maxHeaderCount c.lenient =
        .ok (some (stop, response, dropped)))
      (hlocal : (c.disableKeepAliveIf dropped).localState ≠ .idle)
      (hstatus : response.status.isInformational = false)
      (hstate : (c.disableKeepAliveIf dropped).state.processEvent .server
        (c.finalResponseEvent response.status) = some state)
      (hframing : c.receivedFraming response = .ok framing) :
      Turn hp c (.ok (some (.event (.response response))))
        (acceptedFinal response framing state ((c.disableKeepAliveIf dropped).consumeSection stop))
  | finalFaulty {error : RemoteProtocolError} {stop : Nat} {response : Response} {dropped : Bool}
      {state : ConnectionState} (hreading : c.Reading) (hreader : c.cycle.reader = .head)
      (hrole : c.role = .client)
      (hparse : parseResponseHead hp c.headSection c.limits.maxHeaderCount c.lenient =
        .ok (some (stop, response, dropped)))
      (hstate : (c.disableKeepAliveIf dropped).state.processEvent .server
        (c.finalResponseEvent response.status) = some state)
      (hbody : c.responseHasNoBody response.status = false) :
      Turn hp c (.error error)
        (countedFinal response state ((c.disableKeepAliveIf dropped).consumeSection stop))
  | responseRejected {error : RemoteProtocolError} {stop : Nat} {response : Response}
      {dropped : Bool} (hreading : c.Reading) (hreader : c.cycle.reader = .head)
      (hrole : c.role = .client)
      (hparse : parseResponseHead hp c.headSection c.limits.maxHeaderCount c.lenient =
        .ok (some (stop, response, dropped))) :
      Turn hp c (.error error) ((c.disableKeepAliveIf dropped).consumeSection stop)
  | payload {state : ConnectionState} (hreading : c.Reading) (hinput : c.input.asSlice ≠ [])
      (hreader : (∃ remaining, c.cycle.reader = .fixed (remaining + 1)) ∨
        (∃ remaining first, c.cycle.reader = .chunked (.data remaining first)) ∨
        c.cycle.reader = .closeDelimited)
      (hstate : c.state.processEvent c.role.peer .data = some state) :
      Turn hp c (.ok (some (.data (c.advancePayload c.input.asSlice.length).1.1
          (c.advancePayload c.input.asSlice.length).1.2.1
          (c.advancePayload c.input.asSlice.length).1.2.2)))
        (acceptedData state (c.advancePayload c.input.asSlice.length).2)
  | payloadRejected {error : RemoteProtocolError} (hreading : c.Reading)
      (hstate : c.state.processEvent c.role.peer .data = none) :
      Turn hp c (.error error) (c.advancePayload c.input.asSlice.length).2
  | ends {state : ConnectionState} (hreading : c.Reading)
      (hreader : c.cycle.reader = .fixed 0 ∨
        (c.cycle.reader = .closeDelimited ∧ c.input.asSlice = [] ∧ c.eof = true))
      (hstate : c.state.processEvent c.role.peer .endOfMessage = some state) :
      Turn hp c (.ok (some (.event (.endOfMessage .new)))) (finishedPeer state c)
  | trailers {stop : Nat} {trailers : Headers} {state : ConnectionState} (hreading : c.Reading)
      (hreader : c.cycle.reader = .chunked .trailers)
      (hparse : parseTrailers hp c.headSection c.limits.maxHeaderCount (c.role == .client) =
        .ok (some (stop, trailers)))
      (hstate : c.state.processEvent c.role.peer .endOfMessage = some state) :
      Turn hp c (.ok (some (.event (.endOfMessage trailers))))
        (finishedPeer state (c.consumeSection stop))
  | trailersRejected {error : RemoteProtocolError} {stop : Nat} {trailers : Headers}
      (hreading : c.Reading) (hreader : c.cycle.reader = .chunked .trailers)
      (hparse : parseTrailers hp c.headSection c.limits.maxHeaderCount (c.role == .client) =
        .ok (some (stop, trailers)))
      (hstate : c.state.processEvent c.role.peer .endOfMessage = none) :
      Turn hp c (.error error) (c.consumeSection stop)
  | sizeLine {scanned stop size extensionBytes : Nat} (hreading : c.Reading)
      (hreader : c.cycle.reader = .chunked (.size scanned))
      (hstop : findCrlf c.input.asSlice scanned = some stop)
      (hsize : parseChunkHeader (c.input.asSlice.take (stop - 2)) = some size)
      (hlimit : stop - 2 ≤ c.limits.maxHeadBytes)
      (hextensions : extensionBytes = c.cycle.chunkExtensionBytes +
        ((c.input.asSlice.take (stop - 2)).length -
          countWhile isAsciiHexdigit (c.input.asSlice.take (stop - 2))))
      (hbudget : extensionBytes ≤ c.limits.maxHeadBytes) :
      Turn hp c (.ok none) (c.afterSizeLine stop size extensionBytes)
  | dataEnd (hreading : c.Reading) (hreader : c.cycle.reader = .chunked .dataEnd)
      (hcrlf : c.input.asSlice.take 2 = crlf) :
      Turn hp c (.ok none)
        (setReader (.chunked (.size 0)) { c with input := c.input.consume 2 })

/-! ## Every turn is in the list -/

section Parts

variable {c c' : Connection}

@[simp] theorem rescan_self (c : Connection) :
    c.rescan c.cycle.progress c.cycle.reader c.cycle.chunkExtensionBytes = c := rfl

theorem sameReader_refl (reader : Reader) : SameReader reader reader := Or.inl rfl

theorem rescans_self (c : Connection) : c.Rescans c.cycle.progress c.cycle.reader :=
  ⟨Or.inl rfl, Or.inl rfl⟩

theorem advancePeer_ok {event : StateEvent} {u : Unit} (h : advancePeer event c = (.ok u, c')) :
    ∃ state, c.state.processEvent c.role.peer event = some state ∧ c' = { c with state := state } := by
  unfold advancePeer at h
  split at h
  next state hstate =>
    cases h
    exact ⟨state, hstate, rfl⟩
  next => cases h

theorem advancePeer_error {event : StateEvent} {error : RemoteProtocolError}
    (h : advancePeer event c = (.error error, c')) :
    c.state.processEvent c.role.peer event = none ∧ c' = c := by
  unfold advancePeer at h
  split at h
  next => cases h
  next hstate =>
    cases h
    exact ⟨hstate, rfl⟩

theorem needDataOrEof_cases {message : String} {r : Except RemoteProtocolError Polled}
    (h : needDataOrEof message c = (r, c')) :
    c' = c ∧ ((r = .ok .needData ∧ c.eof = false) ∨ ∃ error, r = .error error) := by
  unfold needDataOrEof at h
  rw [Call.get_bind, Call.failIf_bind] at h
  split at h
  next heof =>
    cases h
    exact ⟨rfl, Or.inr ⟨_, rfl⟩⟩
  next heof =>
    cases h
    exact ⟨rfl, Or.inl ⟨rfl, by simpa using heof⟩⟩

theorem waitForSection_cases {skip : Bool} {r : Except RemoteProtocolError Polled}
    (h : waitForSection skip c = (r, c')) :
    c' = c ∧ ((r = .ok .needData ∧ c.eof = false ∧
      c.input.asSlice.length ≤ c.limits.maxHeadBytes) ∨ ∃ error, r = .error error) := by
  unfold waitForSection at h
  rw [Call.get_bind] at h
  split at h
  next hfits =>
    obtain ⟨hsame, ⟨hr, heof⟩ | herror⟩ := needDataOrEof_cases h
    · exact ⟨hsame, Or.inl ⟨hr, heof, hfits⟩⟩
    · exact ⟨hsame, Or.inr herror⟩
  · split at h
    · cases h
      exact ⟨rfl, Or.inr ⟨_, rfl⟩⟩
    · cases h
      exact ⟨rfl, Or.inr ⟨_, rfl⟩⟩

/-- Asking whether a section is due changes the notes about the scan only. -/
theorem sectionDue_cases (skip : Bool) (c : Connection) : ∃ due progress,
    sectionDue skip c =
      (.ok due, c.rescan progress c.cycle.reader c.cycle.chunkExtensionBytes) ∧
    (c.cycle.reader = (if skip then .head else .chunked .trailers) →
      c.Rescans progress c.cycle.reader) := by
  unfold sectionDue
  split
  · exact ⟨true, c.cycle.progress, rfl, fun _ => rescans_self c⟩
  · refine ⟨_, _, rfl, fun hreader => ⟨Or.inr ?_, Or.inl rfl⟩⟩
    cases skip with
    | true => exact Or.inl ⟨hreader, rfl⟩
    | false => exact Or.inr ⟨hreader, rfl⟩

theorem finishPeer_cases {trailers : Headers} {r : Except RemoteProtocolError Polled}
    (h : finishPeer trailers c = (r, c')) :
    (∃ state, c.state.processEvent c.role.peer .endOfMessage = some state ∧
        r = .ok (.event (.endOfMessage trailers)) ∧ c' = finishedPeer state c) ∨
      (∃ error, c.state.processEvent c.role.peer .endOfMessage = none ∧ r = .error error ∧ c' = c) := by
  unfold finishPeer at h
  rcases ha : advancePeer .endOfMessage c with ⟨error | u, c1⟩
  · rw [Call.bind_of_error ha] at h
    cases h
    obtain ⟨hnone, rfl⟩ := advancePeer_error ha
    exact Or.inr ⟨error, hnone, rfl, rfl⟩
  · rw [Call.bind_of_ok ha] at h
    cases h
    obtain ⟨state, hstate, rfl⟩ := advancePeer_ok ha
    exact Or.inl ⟨state, hstate, rfl, rfl⟩

theorem peerData_cases {count : Nat} {chunkStart chunkEnd : Bool}
    {r : Except RemoteProtocolError Polled} (h : peerData count chunkStart chunkEnd c = (r, c')) :
    (∃ state, c.state.processEvent c.role.peer .data = some state ∧
        r = .ok (.data count chunkStart chunkEnd) ∧ c' = acceptedData state c) ∨
      (∃ error, c.state.processEvent c.role.peer .data = none ∧ r = .error error ∧ c' = c) := by
  unfold peerData at h
  rcases ha : advancePeer .data c with ⟨error | u, c1⟩
  · rw [Call.bind_of_error ha] at h
    cases h
    obtain ⟨hnone, rfl⟩ := advancePeer_error ha
    exact Or.inr ⟨error, hnone, rfl, rfl⟩
  · rw [Call.bind_of_ok ha] at h
    cases h
    obtain ⟨state, hstate, rfl⟩ := advancePeer_ok ha
    exact Or.inl ⟨state, hstate, rfl, rfl⟩

/-- Closing is allowed to an actor that has not begun a message or is through
with it. -/
theorem processEvent_closed {s : ConnectionState} {role : Role}
    (h : s.state role = .idle ∨ s.state role = .done ∨ s.state role = .mustClose) :
    ∃ state, s.processEvent role .connectionClosed = some state := by
  unfold ConnectionState.processEvent
  rw [if_neg (by simp)]
  cases role with
  | client => rcases h with h | h | h <;> rw [h] <;> exact ⟨_, rfl⟩
  | server => rcases h with h | h | h <;> rw [h] <;> exact ⟨_, rfl⟩

theorem peerClosed_eq {state : ConnectionState}
    (h : c.state.processEvent c.role.peer .connectionClosed = some state) :
    peerClosed c = (.ok (.event .connectionClosed), { c with state := state }) := by
  unfold peerClosed
  have ha : advancePeer .connectionClosed c = (.ok (), { c with state := state }) := by
    unfold advancePeer
    rw [h]
  rw [Call.bind_of_ok ha]
  rfl

/-- What a parsed request head leads to. -/
theorem acceptRequest_cases {request : Request} {r : Except RemoteProtocolError Polled}
    (hrole : c.role = .server) (h : acceptRequest request c = (r, c')) :
    (∃ framing state,
      (Fields.scan request.headers).framing request.httpVersion false = .ok framing ∧
      contentForbidden request.method framing = false ∧
      c.state.processEvent .client (requestEvent request.method
        (offeredUpgrades request (Fields.scan request.headers))) = some state ∧
      r = .ok (.event (.request request)) ∧ c' = acceptedRequest request framing state c) ∨
    (∃ error, r = .error error ∧ c' = c) := by
  unfold acceptRequest at h
  simp only [Call.failIf_bind, Call.ofExcept_bind] at h
  split at h
  · cases h
    exact Or.inr ⟨_, rfl, rfl⟩
  · split at h
    · cases h
      exact Or.inr ⟨_, rfl, rfl⟩
    · split at h
      next framing hframing =>
        split at h
        · cases h
          exact Or.inr ⟨_, rfl, rfl⟩
        next hforbidden =>
          rcases ha : advancePeer (requestEvent request.method
            (offeredUpgrades request (Fields.scan request.headers))) c with ⟨error | u, c1⟩
          · rw [Call.bind_of_error ha] at h
            cases h
            obtain ⟨_, rfl⟩ := advancePeer_error ha
            exact Or.inr ⟨_, rfl, rfl⟩
          · rw [Call.bind_of_ok ha] at h
            cases h
            obtain ⟨state, hstate, rfl⟩ := advancePeer_ok ha
            rw [hrole] at hstate
            exact Or.inl ⟨framing, state, hframing, by simpa using hforbidden, hstate, rfl, rfl⟩
      · cases h
        exact Or.inr ⟨_, rfl, rfl⟩

theorem acceptInformational_cases {response : Response} {r : Except RemoteProtocolError Polled}
    (hrole : c.role = .client)
    (h : acceptInformational response
      ((Fields.scan response.headers).framing response.httpVersion true) c = (r, c')) :
    (∃ event state,
      c.informationalEvent response.status response.httpVersion response.headers = some event ∧
      c.state.processEvent .server event = some state ∧
      r = .ok (.event (.informationalResponse response)) ∧
      c' = acceptedInformational response state c) ∨
    (∃ error, r = .error error ∧ c' = c) := by
  unfold acceptInformational at h
  simp only [Call.get_bind, Call.ofExcept_bind] at h
  split at h
  next event hevent =>
    have hevent := okOr_eq_ok.mp hevent
    rcases ha : advancePeer event c with ⟨error | u, c1⟩
    · rw [Call.bind_of_error ha] at h
      cases h
      obtain ⟨_, rfl⟩ := advancePeer_error ha
      exact Or.inr ⟨_, rfl, rfl⟩
    · rw [Call.bind_of_ok ha] at h
      cases h
      obtain ⟨state, hstate, rfl⟩ := advancePeer_ok ha
      rw [hrole] at hstate
      exact Or.inl ⟨event, state, hevent, hstate, rfl, rfl⟩
  · cases h
    exact Or.inr ⟨_, rfl, rfl⟩

theorem acceptFinal_cases {response : Response} {r : Except RemoteProtocolError Polled}
    (hrole : c.role = .client)
    (h : acceptFinal response (Fields.scan response.headers)
      ((Fields.scan response.headers).framing response.httpVersion true) c = (r, c')) :
    (∃ framing state,
      c.state.processEvent .server (c.finalResponseEvent response.status) = some state ∧
      c.receivedFraming response = .ok framing ∧
      r = .ok (.event (.response response)) ∧ c' = acceptedFinal response framing state c) ∨
    (∃ error state,
      c.state.processEvent .server (c.finalResponseEvent response.status) = some state ∧
      c.responseHasNoBody response.status = false ∧
      r = .error error ∧ c' = countedFinal response state c) ∨
    (∃ error, r = .error error ∧ c' = c) := by
  unfold acceptFinal at h
  rw [Call.get_bind] at h
  rcases ha : advancePeer (c.finalResponseEvent response.status) c with ⟨error | u, c1⟩
  · rw [Call.bind_of_error ha] at h
    cases h
    obtain ⟨_, rfl⟩ := advancePeer_error ha
    exact Or.inr (Or.inr ⟨_, rfl, rfl⟩)
  · rw [Call.bind_of_ok ha] at h
    obtain ⟨state, hstate, rfl⟩ := advancePeer_ok ha
    rw [hrole] at hstate
    simp only [Call.modify_bind, Call.ofExcept_bind] at h
    have hreceived : c.receivedFraming response =
        if c.responseHasNoBody response.status then .ok (.fixed 0)
        else (Fields.scan response.headers).framing response.httpVersion true := rfl
    split at h
    next framing hframing =>
      rw [← hreceived] at hframing
      cases h
      exact Or.inl ⟨framing, state, hstate, hframing, rfl, rfl⟩
    next error hframing =>
      -- A faulty framing fails only where there is content, so keep-alive is
      -- not disabled for it.
      cases hbody : c.responseHasNoBody response.status with
      | true =>
        rw [hbody] at hframing
        cases hframing
      | false =>
        rw [hbody] at h
        cases h
        exact Or.inr (Or.inl ⟨error, state, hstate, rfl, rfl, rfl⟩)

/-- What a parsed response head leads to. -/
theorem acceptResponse_cases {response : Response} {r : Except RemoteProtocolError Polled}
    (hrole : c.role = .client) (h : acceptResponse response c = (r, c')) :
    (∃ event state, c.localState ≠ .idle ∧ response.status.isInformational = true ∧
      c.informationalEvent response.status response.httpVersion response.headers = some event ∧
      c.state.processEvent .server event = some state ∧
      r = .ok (.event (.informationalResponse response)) ∧
      c' = acceptedInformational response state c) ∨
    (∃ framing state, c.localState ≠ .idle ∧ response.status.isInformational = false ∧
      c.state.processEvent .server (c.finalResponseEvent response.status) = some state ∧
      c.receivedFraming response = .ok framing ∧
      r = .ok (.event (.response response)) ∧ c' = acceptedFinal response framing state c) ∨
    (∃ error state,
      c.state.processEvent .server (c.finalResponseEvent response.status) = some state ∧
      c.responseHasNoBody response.status = false ∧
      r = .error error ∧ c' = countedFinal response state c) ∨
    (∃ error, r = .error error ∧ c' = c) := by
  unfold acceptResponse at h
  simp only [Call.get_bind, Call.failIf_bind] at h
  split at h
  · cases h
    exact Or.inr (Or.inr (Or.inr ⟨_, rfl, rfl⟩))
  next hlocal =>
    split at h
    next hstatus =>
      rcases acceptInformational_cases hrole h with ⟨event, state, h1, h2, h3, h4⟩ | hrejected
      · exact Or.inl ⟨event, state, hlocal, hstatus, h1, h2, h3, h4⟩
      · exact Or.inr (Or.inr (Or.inr hrejected))
    next hstatus =>
      rcases acceptFinal_cases hrole h with ⟨framing, state, h1, h2, h3, h4⟩ | hrest
      · exact Or.inr (Or.inl ⟨framing, state, hlocal, by simpa using hstatus, h1, h2, h3, h4⟩)
      · exact Or.inr (Or.inr hrest)

theorem report_cases {x : RemoteCall Polled} {r : Except RemoteProtocolError (Option Polled)}
    (h : (x >>= fun polled => pure (some polled)) c = (r, c')) :
    ∃ r0, x c = (r0, c') ∧ r = r0.map some := by
  rcases hx : x c with ⟨error | polled, c1⟩
  · rw [Call.bind_of_error hx] at h
    cases h
    exact ⟨.error error, rfl, rfl⟩
  · rw [Call.bind_of_ok hx] at h
    cases h
    exact ⟨.ok polled, rfl, rfl⟩

end Parts

section Branches

variable {hp : Httparse} {c c' : Connection}

theorem needDataOrEof_turn {message : String} {r : Except RemoteProtocolError Polled}
    (hreading : c.Reading) (hpending : c.input.asSlice.length ≤ 1)
    (h : needDataOrEof message c = (r, c')) : Turn hp c (r.map some) c' := by
  obtain ⟨rfl, hr⟩ := needDataOrEof_cases h
  show Turn hp c' (r.map some)
    (c'.rescan c'.cycle.progress c'.cycle.reader c'.cycle.chunkExtensionBytes)
  rcases hr with ⟨rfl, heof⟩ | ⟨error, rfl⟩
  · exact .waits hreading heof (sameReader_refl _) (by omega) (rescans_self _)
  · exact .fails hreading (sameReader_refl _) (rescans_self _)

/-- Waiting for the rest of a section, with the notes of the scan changed. -/
theorem waitForSection_turn {skip : Bool} {progress : SectionProgress}
    {r : Except RemoteProtocolError Polled} (hreading : c.Reading)
    (hscan : c.Rescans progress c.cycle.reader)
    (h : waitForSection skip (c.rescan progress c.cycle.reader c.cycle.chunkExtensionBytes) =
      (r, c')) : Turn hp c (r.map some) c' := by
  obtain ⟨rfl, ⟨rfl, heof, hfits⟩ | ⟨error, rfl⟩⟩ := waitForSection_cases h
  · exact .waits hreading heof (sameReader_refl _) (Nat.le_succ_of_le hfits) hscan
  · exact .fails hreading (sameReader_refl _) hscan

theorem readHead_turn {r : Except RemoteProtocolError Polled} (hreading : c.Reading)
    (hreader : c.cycle.reader = .head) (h : readHead hp c = (r, c')) :
    Turn hp c (r.map some) c' := by
  unfold readHead at h
  obtain ⟨due, progress, hdue, hscan⟩ := sectionDue_cases true c
  have hscan := hscan hreader
  rw [Call.bind_of_ok hdue, Call.get_bind] at h
  split at h
  · exact waitForSection_turn hreading hscan h
  · split at h
    next hrole =>
      rw [Call.ofExcept_bind] at h
      split at h
      next parsed hparse =>
        cases parsed with
        | none => exact waitForSection_turn hreading hscan h
        | some parsed =>
          obtain ⟨stop, request⟩ := parsed
          dsimp only at h
          rw [Call.modify_bind] at h
          rcases acceptRequest_cases (c := c.consumeSection stop) hrole h with ⟨framing, state, h1, h2, h3, rfl, rfl⟩ | ⟨_, rfl, rfl⟩
          · exact .request hreading hreader hrole hparse h1 h2 h3
          · exact .requestRejected hreading hreader hrole hparse
      next error hparse =>
        cases h
        exact .fails hreading (sameReader_refl _) hscan
    next hrole =>
      have hrole : c.role = .client := by
        cases hc : c.role with
        | client => rfl
        | server => exact absurd hc hrole
      rw [Call.ofExcept_bind] at h
      split at h
      next parsed hparse =>
        cases parsed with
        | none => exact waitForSection_turn hreading hscan h
        | some parsed =>
          obtain ⟨stop, response, dropped⟩ := parsed
          dsimp only at h
          have hnotes : consumeSection stop (disableKeepAliveIf dropped
              (c.rescan progress c.cycle.reader c.cycle.chunkExtensionBytes)) =
              (c.disableKeepAliveIf dropped).consumeSection stop := by
            cases dropped <;> rfl
          rw [Call.modify_bind, Call.modify_bind, hnotes] at h
          have hcycle : ((c.disableKeepAliveIf dropped).consumeSection stop).cycle =
              { c.cycle with progress := .new } := by
            cases dropped <;> rfl
          have hrole' : ((c.disableKeepAliveIf dropped).consumeSection stop).role = .client := by
            cases dropped <;> exact hrole
          have hevent : ((c.disableKeepAliveIf dropped).consumeSection stop).informationalEvent
              response.status response.httpVersion response.headers =
              c.informationalEvent response.status response.httpVersion response.headers := by
            unfold informationalEvent validUpgradeResponse
            rw [hcycle]
          have hfinal : ((c.disableKeepAliveIf dropped).consumeSection stop).finalResponseEvent
              response.status = c.finalResponseEvent response.status := by
            unfold finalResponseEvent opensTunnel requestIs
            rw [hcycle]
          have hframing : ((c.disableKeepAliveIf dropped).consumeSection stop).receivedFraming
              response = c.receivedFraming response := by
            unfold receivedFraming responseHasNoBody opensTunnel requestIs
            rw [hcycle]
          have hbodyless : ((c.disableKeepAliveIf dropped).consumeSection stop).responseHasNoBody
              response.status = c.responseHasNoBody response.status := by
            unfold responseHasNoBody opensTunnel requestIs
            rw [hcycle]
          rcases acceptResponse_cases hrole' h with
            ⟨event, state, h1, h2, h3, h4, rfl, rfl⟩ | ⟨framing, state, h1, h2, h3, h4, rfl, rfl⟩ |
            ⟨_, state, h1, h2, rfl, rfl⟩ | ⟨_, rfl, rfl⟩
          · exact .informational hreading hreader hrole hparse h1 h2 (hevent ▸ h3) h4
          · exact .final hreading hreader hrole hparse h1 h2 (hfinal ▸ h3) (hframing ▸ h4)
          · exact .finalFaulty hreading hreader hrole hparse (hfinal ▸ h1) (hbodyless ▸ h2)
          · exact .responseRejected hreading hreader hrole hparse
      next error hparse =>
        cases h
        exact .fails hreading (sameReader_refl _) hscan

theorem readPayload_turn {message : String} {r : Except RemoteProtocolError Polled}
    (hreading : c.Reading)
    (hreader : (∃ remaining, c.cycle.reader = .fixed (remaining + 1)) ∨
      (∃ remaining first, c.cycle.reader = .chunked (.data remaining first)))
    (h : readPayload message c = (r, c')) : Turn hp c (r.map some) c' := by
  unfold readPayload at h
  rw [Call.get_bind] at h
  split at h
  next hinput => exact needDataOrEof_turn hreading (by rw [hinput]; exact Nat.zero_le 1) h
  next hinput =>
    have hsame : (c.advancePayload c.input.asSlice.length).2.state = c.state ∧
        (c.advancePayload c.input.asSlice.length).2.role = c.role := by
      unfold advancePayload
      split <;> exact ⟨rfl, rfl⟩
    rw [Call.modify_bind] at h
    rcases peerData_cases h with ⟨state, hstate, rfl, rfl⟩ | ⟨error, hstate, rfl, rfl⟩
    · rw [hsame.1, hsame.2] at hstate
      exact .payload hreading hinput (hreader.imp id Or.inl) hstate
    · rw [hsame.1, hsame.2] at hstate
      exact .payloadRejected hreading hstate

theorem readSizeLine_turn {scanned stop : Nat} {r : Except RemoteProtocolError Unit}
    (hreading : c.Reading) (hreader : c.cycle.reader = .chunked (.size scanned))
    (hstop : findCrlf c.input.asSlice scanned = some stop)
    (h : readSizeLine stop c = (r, c')) : Turn hp c (r.map fun _ => none) c' := by
  unfold readSizeLine at h
  simp only [Call.get_bind, Call.failIf_bind, Call.ofExcept_bind, Call.modify_bind] at h
  split at h
  · cases h
    show Turn hp c _ (c.rescan c.cycle.progress c.cycle.reader c.cycle.chunkExtensionBytes)
    exact .fails hreading (sameReader_refl _) (rescans_self c)
  next hlimit =>
    split at h
    next size hsize =>
      have hsize := okOr_eq_ok.mp hsize
      split at h
      · cases h
        exact .fails hreading (sameReader_refl _) (rescans_self c)
      next hbudget =>
        split at h
        next hzero =>
          cases h
          subst hzero
          exact .sizeLine hreading hreader hstop hsize (Nat.le_of_not_gt hlimit) rfl
            (Nat.le_of_not_gt hbudget)
        next hzero =>
          cases h
          have hturn : Turn hp c (.ok none) (c.afterSizeLine stop size
              (c.cycle.chunkExtensionBytes + ((c.input.asSlice.take (stop - 2)).length -
                countWhile isAsciiHexdigit (c.input.asSlice.take (stop - 2))))) :=
            .sizeLine hreading hreader hstop hsize (Nat.le_of_not_gt hlimit) rfl
              (Nat.le_of_not_gt hbudget)
          unfold afterSizeLine at hturn
          simp only [if_neg hzero] at hturn
          exact hturn
    · cases h
      show Turn hp c _ (c.rescan c.cycle.progress c.cycle.reader c.cycle.chunkExtensionBytes)
      exact .fails hreading (sameReader_refl _) (rescans_self c)

theorem waitForSizeLine_turn {scanned : Nat} {r : Except RemoteProtocolError Polled}
    (hreading : c.Reading) (hreader : c.cycle.reader = .chunked (.size scanned))
    (h : waitForSizeLine c = (r, c')) : Turn hp c (r.map some) c' := by
  unfold waitForSizeLine at h
  simp only [Call.get_bind, Call.failIf_bind, Call.modify_bind] at h
  split at h
  · cases h
    show Turn hp c _ (c.rescan c.cycle.progress c.cycle.reader c.cycle.chunkExtensionBytes)
    exact .fails hreading (sameReader_refl _) (rescans_self c)
  next hline =>
    have hpending : c.input.asSlice.length ≤ c.limits.maxHeadBytes + 1 := by
      unfold incompleteLineLen at hline
      split at hline <;> omega
    obtain ⟨rfl, hr⟩ := needDataOrEof_cases h
    show Turn hp c (r.map some) (c.rescan c.cycle.progress
      (.chunked (.size (c.input.asSlice.length - 1))) c.cycle.chunkExtensionBytes)
    rcases hr with ⟨rfl, heof⟩ | ⟨error, rfl⟩
    · exact .waits hreading heof (Or.inr ⟨_, _, hreader, rfl⟩) hpending ⟨Or.inl rfl, Or.inr rfl⟩
    · exact .fails hreading (Or.inr ⟨_, _, hreader, rfl⟩) ⟨Or.inl rfl, Or.inr rfl⟩

theorem readTrailers_turn {r : Except RemoteProtocolError Polled} (hreading : c.Reading)
    (hreader : c.cycle.reader = .chunked .trailers) (h : readTrailers hp c = (r, c')) :
    Turn hp c (r.map some) c' := by
  unfold readTrailers at h
  obtain ⟨due, progress, hdue, hscan⟩ := sectionDue_cases false c
  have hscan := hscan hreader
  rw [Call.bind_of_ok hdue, Call.get_bind] at h
  split at h
  · exact waitForSection_turn hreading hscan h
  · rw [Call.ofExcept_bind] at h
    split at h
    next parsed hparse =>
      cases parsed with
      | none => exact waitForSection_turn hreading hscan h
      | some parsed =>
        obtain ⟨stop, trailers⟩ := parsed
        dsimp only at h
        rw [Call.modify_bind] at h
        rcases finishPeer_cases (c := c.consumeSection stop) h with
          ⟨state, hstate, rfl, rfl⟩ | ⟨error, hstate, rfl, rfl⟩
        · exact .trailers hreading hreader hparse hstate
        · exact .trailersRejected hreading hreader hparse hstate
    · cases h
      exact .fails hreading (sameReader_refl _) hscan

theorem readChunked_turn {chunk : Chunk} {r : Except RemoteProtocolError (Option Polled)}
    (hreading : c.Reading) (hreader : c.cycle.reader = .chunked chunk)
    (h : readChunked hp chunk c = (r, c')) : Turn hp c r c' := by
  unfold readChunked at h
  rw [Call.get_bind] at h
  cases chunk with
  | size scanned =>
    cases hstop : findCrlf c.input.asSlice scanned with
    | none =>
      simp only [hstop] at h
      obtain ⟨r0, h0, rfl⟩ := report_cases h
      exact waitForSizeLine_turn hreading hreader h0
    | some stop =>
      simp only [hstop] at h
      rcases hsize : readSizeLine stop c with ⟨error | u, c1⟩
      · rw [Call.bind_of_error hsize] at h
        cases h
        exact readSizeLine_turn hreading hreader hstop hsize
      · rw [Call.bind_of_ok hsize] at h
        cases h
        exact readSizeLine_turn hreading hreader hstop hsize
  | data remaining first =>
    obtain ⟨r0, h0, rfl⟩ := report_cases h
    exact readPayload_turn hreading (Or.inr ⟨_, _, hreader⟩) h0
  | dataEnd =>
    dsimp only at h
    split at h
    next hshort =>
      obtain ⟨r0, h0, rfl⟩ := report_cases h
      exact needDataOrEof_turn hreading (by omega) h0
    · simp only [Call.failIf_bind, Call.modify_bind] at h
      split at h
      · cases h
        show Turn hp c _ (c.rescan c.cycle.progress c.cycle.reader c.cycle.chunkExtensionBytes)
        exact .fails hreading (sameReader_refl _) (rescans_self _)
      next hcrlf =>
        cases h
        exact .dataEnd hreading hreader (Decidable.not_not.mp hcrlf)
  | trailers =>
    obtain ⟨r0, h0, rfl⟩ := report_cases h
    exact readTrailers_turn hreading hreader h0

theorem finishPeer_turn {r : Except RemoteProtocolError Polled} (hreading : c.Reading)
    (hreader : c.cycle.reader = .fixed 0 ∨
      (c.cycle.reader = .closeDelimited ∧ c.input.asSlice = [] ∧ c.eof = true))
    (h : finishPeer .new c = (r, c')) : Turn hp c (r.map some) c' := by
  rcases finishPeer_cases h with ⟨state, hstate, rfl, rfl⟩ | ⟨error, _, rfl, rfl⟩
  · exact .ends hreading hreader hstate
  · show Turn hp c' _ (c'.rescan c'.cycle.progress c'.cycle.reader c'.cycle.chunkExtensionBytes)
    exact .fails hreading (sameReader_refl _) (rescans_self _)

theorem readBody_turn {r : Except RemoteProtocolError (Option Polled)} (hreading : c.Reading)
    (h : readBody hp c = (r, c')) : Turn hp c r c' := by
  unfold readBody at h
  rw [Call.get_bind] at h
  cases hreader : c.cycle.reader with
  | head =>
    simp only [hreader] at h
    obtain ⟨r0, h0, rfl⟩ := report_cases h
    exact readHead_turn hreading hreader h0
  | fixed remaining =>
    cases remaining with
    | zero =>
      simp only [hreader] at h
      obtain ⟨r0, h0, rfl⟩ := report_cases h
      exact finishPeer_turn hreading (Or.inl hreader) h0
    | succ remaining =>
      simp only [hreader] at h
      obtain ⟨r0, h0, rfl⟩ := report_cases h
      exact readPayload_turn hreading (Or.inl ⟨_, hreader⟩) h0
  | closeDelimited =>
    have hadvance : c.advancePayload c.input.asSlice.length =
        ((c.input.asSlice.length, false, false), c) := by
      unfold advancePayload
      rw [hreader]
    simp only [hreader] at h
    split at h
    next hinput =>
      obtain ⟨r0, h0, rfl⟩ := report_cases h
      rcases peerData_cases h0 with ⟨state, hstate, rfl, rfl⟩ | ⟨error, hstate, rfl, rfl⟩
      · have hturn : Turn hp c _ _ := .payload hreading hinput (Or.inr (Or.inr hreader)) hstate
        rw [hadvance] at hturn
        exact hturn
      · have hturn : Turn hp c' (.error error) _ := .payloadRejected hreading hstate
        rw [hadvance] at hturn
        exact hturn
    next hinput =>
      have hinput : c.input.asSlice = [] := Decidable.not_not.mp hinput
      split at h
      next heof =>
        obtain ⟨r0, h0, rfl⟩ := report_cases h
        exact finishPeer_turn hreading (Or.inr ⟨hreader, hinput, heof⟩) h0
      next heof =>
        cases h
        show Turn hp c _ (c.rescan c.cycle.progress c.cycle.reader c.cycle.chunkExtensionBytes)
        exact .waits hreading (by simpa using heof) (sameReader_refl _)
          (by rw [hinput]; exact Nat.zero_le _) (rescans_self _)
  | chunked chunk =>
    simp only [hreader] at h
    exact readChunked_turn hreading hreader h

/-- A peer that is through with its message. -/
theorem doneTurn {r : Except RemoteProtocolError (Option Polled)}
    (hpeer : c.peerState = .done ∨ c.peerState = .mustClose)
    (h : (if c.input.asSlice ≠ [] then pure (some Polled.paused)
      else if c.eof = true then peerClosed >>= fun polled => pure (some polled)
      else pure (some .needData) : RemoteCall (Option Polled)) c = (r, c')) : Turn hp c r c' := by
  split at h
  next hinput =>
    cases h
    exact .paused (Or.inr (Or.inr ⟨hpeer, hinput⟩))
  next hinput =>
    have hinput : c.input.asSlice = [] := Decidable.not_not.mp hinput
    split at h
    next heof =>
      obtain ⟨state, hstate⟩ := processEvent_closed (s := c.state) (Or.inr hpeer)
      obtain ⟨r0, h0, rfl⟩ := report_cases h
      rw [peerClosed_eq hstate] at h0
      cases h0
      exact .doneClosed hpeer hinput heof hstate
    next heof =>
      cases h
      exact .doneWaits hpeer hinput (by simpa using heof)

/-- The list of turns is complete. -/
theorem dispatch_turn {r : Except RemoteProtocolError (Option Polled)}
    (h : dispatch hp c = (r, c')) : Turn hp c r c' := by
  unfold dispatch at h
  rw [Call.get_bind] at h
  cases hpeer : c.peerState with
  | idle =>
    simp only [hpeer] at h
    split at h
    next hclose =>
      obtain ⟨heof, hlen, hempty⟩ := hclose
      obtain ⟨state, hstate⟩ := processEvent_closed (s := c.state) (Or.inl hpeer)
      rw [Call.modify_bind] at h
      obtain ⟨r0, h0, rfl⟩ := report_cases h
      have hclosed := peerClosed_eq
        (c := { c with input := c.input.consume c.input.asSlice.length }) hstate
      cases hclosed.symm.trans h0
      exact .idleClosed hpeer heof hlen hempty hstate
    next hclose => exact readBody_turn (Or.inl ⟨hpeer, hclose⟩) h
  | sendResponse =>
    simp only [hpeer] at h
    exact readBody_turn (Or.inr (Or.inl hpeer)) h
  | sendBody =>
    simp only [hpeer] at h
    exact readBody_turn (Or.inr (Or.inr hpeer)) h
  | done =>
    simp only [hpeer] at h
    exact doneTurn (Or.inl hpeer) h
  | mustClose =>
    simp only [hpeer] at h
    exact doneTurn (Or.inr hpeer) h
  | mightSwitchProtocol =>
    simp only [hpeer] at h
    cases h
    exact .paused (Or.inl hpeer)
  | switchedProtocol =>
    simp only [hpeer] at h
    cases h
    exact .paused (Or.inr (Or.inl hpeer))
  | closed =>
    simp only [hpeer] at h
    cases h
    exact .closed hpeer
  | error =>
    simp only [hpeer] at h
    cases h
    exact .poisoned hpeer

end Branches

/-! ## A poll is a sequence of turns -/

/-- Turns that make a tail call, and a last one that reports. -/
inductive Turns (hp : Httparse) :
    Connection → Except RemoteProtocolError Polled → Connection → Prop
  | last {c c' : Connection} {r : Except RemoteProtocolError Polled}
      (h : Turn hp c (r.map some) c') : Turns hp c r c'
  | again {c c' c'' : Connection} {r : Except RemoteProtocolError Polled}
      (h : Turn hp c (.ok none) c') (rest : Turns hp c' r c'') : Turns hp c r c''

theorem nextEventInner_turns {hp : Httparse} {c c' : Connection}
    {r : Except RemoteProtocolError Polled} (h : nextEventInner hp c = (r, c')) :
    Turns hp c r c' := by
  induction c using nextEventInner.induct hp with
  | case1 c polled c1 hd =>
    rw [nextEventInner_reports hd] at h
    cases h
    exact .last (dispatch_turn hd)
  | case2 c c1 hd ih =>
    rw [nextEventInner_again hd] at h
    exact .again (dispatch_turn hd) (ih h)
  | case3 c error c1 hd =>
    rw [nextEventInner_fails hd] at h
    cases h
    exact .last (dispatch_turn hd)

end H11r.Connection
