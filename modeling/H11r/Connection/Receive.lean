import H11r.Connection.Basic

/-!
# Reading peer bytes into events

`connection/receive.rs`. `next_event_inner` and `read_chunked` of the source
call each other, always as the last thing they do. Here `dispatch` is the body
of `next_event_inner`, and `none` in its result stands for that tail call;
`nextEventInner` is the loop. A tail call is made only after bytes have left
the buffer (`dispatch_again_lt`), so the loop ends on every connection.
-/

namespace H11r

open Lib (Call)

/-- A semantic event decoded from peer bytes. -/
inductive Event where
  | request (request : Request)
  | informationalResponse (response : Response)
  | response (response : Response)
  | data (data : Bytes) (chunkStart chunkEnd : Bool)
  | endOfMessage (trailers : Headers)
  | connectionClosed

/-- Result of polling `next_event`. -/
inductive NextEvent where
  | event (event : Event)
  | needData
  | paused

/-- Poll outcome before the body bytes are taken from the buffer. -/
inductive Polled where
  | event (event : Event)
  | data (count : Nat) (chunkStart chunkEnd : Bool)
  | needData
  | paused

namespace Connection

/-- A server that closed cannot answer another request. A server keeps
draining requests that a client buffered before its EOF. -/
def recordEof (c : Connection) : Connection :=
  disableKeepAliveIf (c.role == .client) { c with eof := true }

/-- Appends peer bytes. Empty bytes mark transport EOF. -/
def receiveData (data : Bytes) : LocalCall Unit := do
  let c ← Call.get
  Call.failIf (c.eof = true ∧ data ≠ []) (localError "receive_data called after EOF")
  if data = [] then Call.modify recordEof
  else Call.modify fun c => { c with input := c.input.extend data }

/-- Payload bytes left before the decoder needs framing again, while the peer
is sending a body. -/
def payloadRemaining (c : Connection) : Option Nat :=
  if c.peerState ≠ .sendBody then none
  else
    match c.cycle.reader with
    | .fixed remaining => if remaining > 0 then some remaining else none
    | .chunked (.data remaining _) => some remaining
    | .closeDelimited => some usizeMax
    | _ => none

/-- Whether `count` more body bytes may be held by the caller. -/
def canHold (c : Connection) (count : Nat) : Bool :=
  count != 0 && !c.eof && c.input.asSlice.isEmpty &&
    c.payloadRemaining.any fun remaining => usizeAdd c.held count ≤ remaining

/-- Records `count` received body bytes that the caller keeps instead of
passing to `receive_data`, and returns whether it may. -/
def holdBodyData (count : Nat) (c : Connection) : Bool × Connection :=
  if c.canHold count then (true, { c with held := usizeAdd c.held count }) else (false, c)

def setReader (reader : Reader) (c : Connection) : Connection :=
  c.mapCycle fun cycle => { cycle with reader := reader }

/-- Moves the decoder past at most `available` payload bytes and returns how
many it took with their chunk flags. -/
def advancePayload (available : Nat) (c : Connection) : (Nat × Bool × Bool) × Connection :=
  match c.cycle.reader with
  | .fixed remaining =>
    ((min remaining available, false, false), c.setReader (.fixed (remaining - min remaining available)))
  | .chunked (.data remaining first) =>
    let count := min remaining available
    ((count, first, decide (count = remaining)),
      c.setReader (.chunked (if count = remaining then .dataEnd else .data (remaining - count) false)))
  | _ => ((available, false, false), c)

def peerData (count : Nat) (chunkStart chunkEnd : Bool) : RemoteCall Polled := do
  advancePeer .data
  Call.modify (mapCycle fun cycle => { cycle with waitingForContinue := false })
  return .data count chunkStart chunkEnd

/-- Polls the `Data` event for the oldest `count` held body bytes and returns
its chunk flags. -/
def nextEventInPlace (count : Nat) : LocalCall (Bool × Bool) := do
  let c ← Call.get
  Call.failIf (count = 0 ∨ count > c.held) (localError "count does not match held body bytes")
  let taken := (c.advancePayload count).1
  Call.modify fun c => (c.advancePayload count).2
  let _ ← Call.mapError (fun _ => localError "held body bytes are invalid in the peer state")
    (peerData count taken.2.1 taken.2.2)
  Call.modify fun c => { c with held := c.held - count }
  return taken.2

def needDataOrEof (message : String) : RemoteCall Polled := do
  let c ← Call.get
  Call.failIf (c.eof = true) (remoteError message (some 400))
  return .needData

def finishPeer (trailers : Headers) : RemoteCall Polled := do
  advancePeer .endOfMessage
  Call.modify (setReader .head)
  return .event (.endOfMessage trailers)

def peerClosed : RemoteCall Polled := do
  advancePeer .connectionClosed
  return .event .connectionClosed

def readPayload (eofMessage : String) : RemoteCall Polled := do
  let c ← Call.get
  if c.input.asSlice = [] then needDataOrEof eofMessage
  else
    let taken := (c.advancePayload c.input.asSlice.length).1
    Call.modify fun c => (c.advancePayload c.input.asSlice.length).2
    peerData taken.1 taken.2.1 taken.2.2

/-- The buffered field section prefix within the configured byte limit. -/
def headSection (c : Connection) : Bytes := c.input.asSlice.take c.limits.maxHeadBytes

/-- Whether the buffered field section should be handed to `httparse`. -/
def sectionDue (skipLeadingEmpty : Bool) : RemoteCall Bool := fun c =>
  if c.eof = true ∨ c.input.asSlice.length > c.limits.maxHeadBytes then (.ok true, c)
  else
    let (due, progress) := c.cycle.progress.due c.input.asSlice skipLeadingEmpty
    (.ok due, c.mapCycle fun cycle => { cycle with progress := progress })

/-- Answers a section that is not complete, or not yet looked at. -/
def waitForSection (skipLeadingEmpty : Bool) : RemoteCall Polled := do
  let c ← Call.get
  if c.input.asSlice.length ≤ c.limits.maxHeadBytes then
    needDataOrEof (if skipLeadingEmpty then "unexpected EOF in HTTP head"
      else "unexpected EOF in trailers")
  else if !skipLeadingEmpty then
    Call.throw (remoteError "HTTP trailers exceed max_head_bytes" (some 400))
  else
    -- A request line too long to parse is a 414.
    let status := if startLineUnfinished c.headSection then 414 else 431
    Call.throw (remoteError "HTTP head exceeds max_head_bytes"
      (if c.role = .server then some status else none))

/-- Takes a complete section of `count` bytes out of the buffer. -/
def consumeSection (count : Nat) (c : Connection) : Connection :=
  { c with input := c.input.consume count }.mapCycle fun cycle => { cycle with progress := .new }

/-- The upgrades a received request offers. -/
def offeredUpgrades (request : Request) (fields : Fields) : List Bytes :=
  if request.httpVersion = .http11 ∧ fields.upgrade = true then
    (upgradeProtocols request.headers).getD []
  else []

def acceptRequest (request : Request) : RemoteCall Polled := do
  Call.failIf (validRequestTarget request.method.asBytes request.target = false)
    (remoteError "invalid request target" (some 400))
  let fields := Fields.scan request.headers
  Call.failIf (fields.hostValid request.httpVersion = false)
    (remoteError "request has a missing, duplicate, or invalid Host field" (some 400))
  let framing ← Call.ofExcept (fields.framing request.httpVersion false)
  Call.failIf (contentForbidden request.method framing = true)
    (remoteError "CONNECT and TRACE requests cannot carry content" (some 400))
  let upgrades := offeredUpgrades request fields
  advancePeer (requestEvent request.method upgrades)
  Call.modify (recordRequest request.method request.httpVersion fields framing upgrades)
  Call.modify fun c => { c with peerVersion := some request.httpVersion }
  Call.modify (setReader (reader framing))
  return .event (.request request)

/-- Faulty framing fields end the connection even on a message that has no
content. -/
def isFaulty (framing : Except RemoteProtocolError Framing) : Bool :=
  match framing with
  | .ok _ => false
  | .error _ => true

def acceptInformational (response : Response) (framing : Except RemoteProtocolError Framing) :
    RemoteCall Polled := do
  let c ← Call.get
  let event ← Call.ofExcept (okOr
    (c.informationalEvent response.status response.httpVersion response.headers)
    (remoteError "invalid 101 Upgrade response" none))
  advancePeer event
  Call.modify (disableKeepAliveIf (isFaulty framing))
  Call.modify (recordInformational response.status)
  Call.modify fun c => { c with peerVersion := some response.httpVersion }
  return .event (.informationalResponse response)

def acceptFinal (response : Response) (fields : Fields)
    (framing : Except RemoteProtocolError Framing) : RemoteCall Polled := do
  let c ← Call.get
  advancePeer (c.finalResponseEvent response.status)
  Call.modify (disableKeepAliveIf !(fields.persistent response.httpVersion))
  Call.modify recordResponse
  Call.modify fun c => { c with peerVersion := some response.httpVersion }
  let bodyless := c.responseHasNoBody response.status
  Call.modify (disableKeepAliveIf (bodyless && isFaulty framing))
  let framing ← Call.ofExcept (if bodyless then .ok (.fixed 0) else framing)
  Call.modify (disableKeepAliveIf (framing == .closeDelimited))
  Call.modify (setReader (reader framing))
  return .event (.response response)

def acceptResponse (response : Response) : RemoteCall Polled := do
  let c ← Call.get
  -- Data without an outstanding request is not a valid response.
  Call.failIf (c.localState = .idle)
    (remoteError "response received without an outstanding request" none)
  let fields := Fields.scan response.headers
  let framing := fields.framing response.httpVersion true
  if response.status.isInformational then acceptInformational response framing
  else acceptFinal response fields framing

def readHead (hp : Httparse) : RemoteCall Polled := do
  let due ← sectionDue true
  let c ← Call.get
  if !due then waitForSection true
  else if c.role = .server then
    match ← Call.ofExcept (parseRequestHead hp c.headSection c.limits.maxHeaderCount) with
    | none => waitForSection true
    | some parsed =>
      Call.modify (consumeSection parsed.1)
      acceptRequest parsed.2
  else
    match ← Call.ofExcept
        (parseResponseHead hp c.headSection c.limits.maxHeaderCount c.lenient) with
    | none => waitForSection true
    | some parsed =>
      -- A dropped line may have been a framing field, so the next message's
      -- boundary cannot be trusted.
      Call.modify (disableKeepAliveIf parsed.2.2)
      Call.modify (consumeSection parsed.1)
      acceptResponse parsed.2.1

/-- The error for a chunk line or its extensions over the limit. -/
def limitError (c : Connection) (message : String) : RemoteProtocolError :=
  remoteError message (if c.role = .server then some 400 else none)

/-- Takes the chunk-size line that ends at `stop` out of the buffer. -/
def readSizeLine (stop : Nat) : RemoteCall Unit := do
  let c ← Call.get
  Call.failIf (stop - 2 > c.limits.maxHeadBytes)
    (c.limitError "chunk line exceeds max_head_bytes")
  let line := c.input.asSlice.take (stop - 2)
  let size ← Call.ofExcept
    (okOr (parseChunkHeader line) (remoteError "invalid chunk size" (some 400)))
  -- Extension bytes are bounded across the whole message.
  let extensionBytes := c.cycle.chunkExtensionBytes + (line.length - countWhile isAsciiHexdigit line)
  Call.modify (mapCycle fun cycle => { cycle with chunkExtensionBytes := extensionBytes })
  Call.failIf (extensionBytes > c.limits.maxHeadBytes)
    (c.limitError "chunk extensions exceed max_head_bytes")
  Call.modify fun c => { c with input := c.input.consume stop }
  if size = 0 then
    Call.modify (mapCycle fun cycle =>
      { cycle with reader := .chunked .trailers, progress := .new })
  else Call.modify (setReader (.chunked (.data size true)))

def readTrailers (hp : Httparse) : RemoteCall Polled := do
  let due ← sectionDue false
  let c ← Call.get
  if !due then waitForSection false
  else
    match ← Call.ofExcept
        (parseTrailers hp c.headSection c.limits.maxHeaderCount (c.role == .client)) with
    | none => waitForSection false
    | some parsed =>
      Call.modify (consumeSection parsed.1)
      finishPeer parsed.2

/-- An unfinished chunk-size line, remembered as scanned. -/
def waitForSizeLine : RemoteCall Polled := do
  let c ← Call.get
  Call.failIf (incompleteLineLen c.input.asSlice > c.limits.maxHeadBytes)
    (c.limitError "chunk line exceeds max_head_bytes")
  Call.modify (setReader (.chunked (.size (c.input.asSlice.length - 1))))
  needDataOrEof "unexpected EOF in chunk size"

/-- `read_chunked`; `none` stands for the tail call of `next_event_inner`. -/
def readChunked (hp : Httparse) (chunk : Chunk) : RemoteCall (Option Polled) := do
  let c ← Call.get
  match chunk with
  | .size scanned =>
    match findCrlf c.input.asSlice scanned with
    | none => return some (← waitForSizeLine)
    | some stop =>
      readSizeLine stop
      return none
  | .data _ _ => return some (← readPayload "unexpected EOF in chunk data")
  | .dataEnd =>
    if c.input.asSlice.length < 2 then
      return some (← needDataOrEof "unexpected EOF after chunk data")
    else
      Call.failIf (c.input.asSlice.take 2 ≠ crlf)
        (remoteError "chunk data is not followed by CRLF" (some 400))
      Call.modify fun c => { c with input := c.input.consume 2 }
      Call.modify (setReader (.chunked (.size 0)))
      return none
  | .trailers => return some (← readTrailers hp)

/-- Decodes with the current reader. -/
def readBody (hp : Httparse) : RemoteCall (Option Polled) := do
  let c ← Call.get
  match c.cycle.reader with
  | .head => return some (← readHead hp)
  | .fixed 0 => return some (← finishPeer .new)
  | .fixed (_ + 1) => return some (← readPayload "unexpected EOF in Content-Length body")
  | .closeDelimited =>
    if c.input.asSlice ≠ [] then return some (← peerData c.input.asSlice.length false false)
    else if c.eof then return some (← finishPeer .new)
    else return some .needData
  | .chunked chunk => readChunked hp chunk

/-- The body of `next_event_inner`; `none` stands for its tail call. -/
def dispatch (hp : Httparse) : RemoteCall (Option Polled) := do
  let c ← Call.get
  match c.peerState with
  | .closed => return some (.event .connectionClosed)
  | .idle =>
    -- Empty lines before a message cannot turn a clean close into a truncated
    -- head; lines beyond the head limit still fail it.
    if c.eof = true ∧ c.input.asSlice.length ≤ c.limits.maxHeadBytes ∧
        onlyEmptyLines c.input.asSlice = true then
      Call.modify fun c => { c with input := c.input.consume c.input.asSlice.length }
      return some (← peerClosed)
    else readBody hp
  | .mightSwitchProtocol | .switchedProtocol => return some .paused
  | .done | .mustClose =>
    if c.input.asSlice ≠ [] then return some .paused
    else if c.eof then return some (← peerClosed)
    else return some .needData
  | .error => Call.throw (remoteError "peer state is ERROR" none)
  | .sendResponse | .sendBody => readBody hp

/-! ## The loop -/

theorem positionCrlf_lt {data : Bytes} {offset : Nat} (h : positionCrlf data = some offset) :
    offset + 2 ≤ data.length := by
  induction data generalizing offset with
  | nil => cases h
  | cons byte rest ih =>
    unfold positionCrlf at h
    split at h
    next hpair =>
      cases h
      cases rest with
      | nil => exact absurd hpair.2 (by simp)
      | cons => simp
    next =>
      obtain ⟨offset', hoffset, rfl⟩ := Option.map_eq_some_iff.mp h
      have := ih hoffset
      rw [List.length_cons]
      omega

/-- The end of a chunk-size line lies in the buffer, after its CRLF. -/
theorem findCrlf_le {data : Bytes} {start stop : Nat} (h : findCrlf data start = some stop) :
    start + 2 ≤ stop ∧ stop ≤ data.length := by
  obtain ⟨offset, hoffset, rfl⟩ := Option.map_eq_some_iff.mp h
  have hlen := positionCrlf_lt hoffset
  rw [List.length_drop] at hlen
  omega

/-- Reading a chunk-size line takes it out of the buffer. -/
theorem readSizeLine_input {stop : Nat} {c c' : Connection}
    (h : readSizeLine stop c = (.ok (), c')) : c'.input = c.input.consume stop := by
  unfold readSizeLine at h
  simp only [Call.get_bind, Call.failIf_bind, Call.ofExcept_bind, Call.modify_bind] at h
  split at h
  · cases h
  · split at h
    · split at h
      · cases h
      · split at h
        · cases h
          rfl
        · cases h
          rfl
    · cases h

/-- Once something is to be reported there is no tail call. -/
theorem report_ne_again {x : RemoteCall Polled} {c c' : Connection} :
    (x >>= fun polled => pure (some polled)) c ≠ (.ok none, c') := by
  intro h
  obtain ⟨polled, c1, _, h2⟩ := Call.bind_eq_ok.mp h
  cases h2

/-- A tail call of `read_chunked` is made with fewer bytes in the buffer. -/
theorem readChunked_again_lt {hp : Httparse} {chunk : Chunk} {c c' : Connection}
    (h : readChunked hp chunk c = (.ok none, c')) :
    c'.input.asSlice.length < c.input.asSlice.length := by
  unfold readChunked at h
  rw [Call.get_bind] at h
  cases chunk with
  | size scanned =>
    cases hstop : findCrlf c.input.asSlice scanned with
    | none =>
      simp only [hstop] at h
      exact absurd h report_ne_again
    | some stop =>
      simp only [hstop] at h
      obtain ⟨_, c1, h1, h2⟩ := Call.bind_eq_ok.mp h
      cases h2
      have hle := findCrlf_le hstop
      rw [readSizeLine_input h1, Buffer.asSlice_consume, List.length_drop]
      omega
  | data remaining first => exact absurd h report_ne_again
  | dataEnd =>
    dsimp only at h
    split at h
    · exact absurd h report_ne_again
    next hlen =>
      simp only [Call.failIf_bind, Call.modify_bind] at h
      split at h
      · cases h
      · cases h
        show (c.input.consume 2).asSlice.length < _
        rw [Buffer.asSlice_consume, List.length_drop]
        omega
  | trailers => exact absurd h report_ne_again

theorem readBody_again_lt {hp : Httparse} {c c' : Connection}
    (h : readBody hp c = (.ok none, c')) :
    c'.input.asSlice.length < c.input.asSlice.length := by
  unfold readBody at h
  rw [Call.get_bind] at h
  cases hreader : c.cycle.reader with
  | head =>
    simp only [hreader] at h
    exact absurd h report_ne_again
  | fixed remaining =>
    cases remaining with
    | zero =>
      simp only [hreader] at h
      exact absurd h report_ne_again
    | succ remaining =>
      simp only [hreader] at h
      exact absurd h report_ne_again
  | closeDelimited =>
    simp only [hreader] at h
    split at h
    · exact absurd h report_ne_again
    · split at h
      · exact absurd h report_ne_again
      · cases h
  | chunked chunk =>
    simp only [hreader] at h
    exact readChunked_again_lt h

/-- A tail call is made with fewer bytes in the buffer. -/
theorem dispatch_again_lt {hp : Httparse} {c c' : Connection}
    (h : dispatch hp c = (.ok none, c')) :
    c'.input.asSlice.length < c.input.asSlice.length := by
  unfold dispatch at h
  rw [Call.get_bind] at h
  cases hpeer : c.peerState with
  | idle =>
    simp only [hpeer] at h
    split at h
    · exact absurd h report_ne_again
    · exact readBody_again_lt h
  | sendResponse =>
    simp only [hpeer] at h
    exact readBody_again_lt h
  | sendBody =>
    simp only [hpeer] at h
    exact readBody_again_lt h
  | done =>
    simp only [hpeer] at h
    split at h
    · cases h
    · split at h
      · exact absurd h report_ne_again
      · cases h
  | mustClose =>
    simp only [hpeer] at h
    split at h
    · cases h
    · split at h
      · exact absurd h report_ne_again
      · cases h
  | mightSwitchProtocol =>
    simp only [hpeer] at h
    cases h
  | switchedProtocol =>
    simp only [hpeer] at h
    cases h
  | closed =>
    simp only [hpeer] at h
    cases h
  | error =>
    simp only [hpeer] at h
    cases h

/-- `next_event_inner`: the decoder runs until it has something to report. -/
def nextEventInner (hp : Httparse) (c : Connection) :
    Except RemoteProtocolError Polled × Connection :=
  match _h : dispatch hp c with
  | (.ok (some polled), c') => (.ok polled, c')
  | (.ok none, c') => nextEventInner hp c'
  | (.error error, c') => (.error error, c')
  termination_by c.input.asSlice.length
  decreasing_by exact dispatch_again_lt _h

/-- A turn that reports something ends the poll. -/
theorem nextEventInner_reports {hp : Httparse} {c c' : Connection} {polled : Polled}
    (h : dispatch hp c = (.ok (some polled), c')) : nextEventInner hp c = (.ok polled, c') := by
  rw [nextEventInner]
  split
  · next h' => rw [h] at h'; cases h'; rfl
  · next h' => rw [h] at h'; cases h'
  · next h' => rw [h] at h'; cases h'

/-- A tail call goes on with what the turn left. -/
theorem nextEventInner_again {hp : Httparse} {c c' : Connection}
    (h : dispatch hp c = (.ok none, c')) : nextEventInner hp c = nextEventInner hp c' := by
  rw [nextEventInner]
  split
  · next h' => rw [h] at h'; cases h'
  · next h' => rw [h] at h'; cases h'; rfl
  · next h' => rw [h] at h'; cases h'

theorem nextEventInner_fails {hp : Httparse} {c c' : Connection} {error : RemoteProtocolError}
    (h : dispatch hp c = (.error error, c')) : nextEventInner hp c = (.error error, c') := by
  rw [nextEventInner]
  split
  · next h' => rw [h] at h'; cases h'
  · next h' => rw [h] at h'; cases h'
  · next h' => rw [h] at h'; cases h'; rfl

/-- Polls one peer event, `NeedData`, or `Paused`. -/
def nextEvent (hp : Httparse) : RemoteCall NextEvent := fun c =>
  match nextEventInner hp c with
  | (.error error, c') =>
    (.error { error with
        suggestedStatusCode := if c'.role = .client then none else error.suggestedStatusCode },
      { c' with state := c'.state.processError c'.role.peer })
  | (.ok (.event event), c') => (.ok (.event event), c')
  | (.ok (.data count chunkStart chunkEnd), c') =>
    (.ok (.event (.data (c'.input.asSlice.take count) chunkStart chunkEnd)),
      { c' with input := c'.input.consume count })
  | (.ok .needData, c') => (.ok .needData, c')
  | (.ok .paused, c') => (.ok .paused, c')

end Connection

end H11r
