import H11r.Connection.Basic

/-!
# Serializing local events into bytes

`connection/send.rs`. Each method checks first and changes the connection after
its last check; `sendComplete` alone makes several changes in a row, and puts
two fields of the connection back when a later one fails.
-/

namespace H11r.Connection

open Lib (Call)

/-- Serializes a client request head and begins its body. -/
def sendRequest (request : Request) : LocalCall Bytes := do
  let c ← Call.get
  Call.failIf (c.role ≠ .client) (localError "only a client connection can send a request")
  -- Bytes that arrived with no outstanding request cannot answer this one.
  Call.failIf (c.input.asSlice ≠ []) (localError "the peer sent bytes before any request")
  let fields := Fields.scan request.headers
  Call.ofExcept (validateRequest request fields)
  let framing ← Call.ofExcept (toLocal (fields.framing request.httpVersion false))
  Call.failIf (contentForbidden request.method framing = true)
    (localError "CONNECT and TRACE requests cannot carry content")
  Call.failIf (framing = .fixed 0 ∧ fields.expectContinue = true)
    (localError "100-continue requires request content")
  let offered ← Call.ofExcept
    (okOr (upgradeProtocols request.headers) (localError "invalid Upgrade field"))
  Call.failIf (fields.upgrade = true ∧ offered = [])
    (localError "Connection: upgrade requires an Upgrade field")
  let upgrades := if request.httpVersion = .http11 then offered else []
  advanceLocal (requestEvent request.method upgrades)
  Call.modify (recordRequest request.method request.httpVersion fields framing upgrades)
  Call.modify (mapCycle fun cycle => { cycle with writer := some framing })
  return serializeRequest request fields.hostAt

/-- Serializes a server informational response head. -/
def sendInformationalResponse (response : Response) : LocalCall Bytes := do
  let c ← Call.get
  Call.failIf (c.role ≠ .server ∨ response.status.isInformational = false)
    (localError "an informational response requires a server role and 1xx status")
  -- HTTP/1.0 did not define any 1xx status codes.
  Call.failIf (c.peerVersion = some .http10)
    (localError "a 1xx response cannot be sent to an HTTP/1.0 client")
  Call.ofExcept (validateHeaders response.headers)
  Call.ofExcept (validateReason response.reason)
  Call.ofExcept (Fields.scan response.headers).checkSend
  Call.failIf (hasFramingFields response.headers = true)
    (localError "informational responses cannot carry framing fields")
  let event ← Call.ofExcept (okOr
    (c.informationalEvent response.status response.httpVersion response.headers)
    (localError "invalid 101 Upgrade response"))
  advanceLocal event
  Call.modify (recordInformational response.status)
  return serializeResponse response.httpVersion response.status response.reason response.headers

/-- The exchange is HTTP/1.1 at both ends. -/
def isHttp11 (c : Connection) (version : Version) : Bool :=
  c.peerVersion == some .http11 && version == .http11

/-- A chunked response to an HTTP/1.0 peer is sent close-delimited. -/
def stripsTransferEncoding (c : Connection) (response : Response) : Bool :=
  !c.isHttp11 response.httpVersion && (Fields.scan response.headers).hasTransferEncoding

/-- The framing of a final response and the fields that state it. -/
def responseFraming (c : Connection) (response : Response) :
    Except LocalProtocolError (Framing × Headers) := do
  let fields := Fields.scan response.headers
  let bodyless := c.responseHasNoBody response.status
  let declaredFraming := fun version => toLocal (fields.framing version bodyless)
  let stripped := c.stripsTransferEncoding response
  -- A stripped coding has been checked as it would be for HTTP/1.1.
  let headers ←
    if stripped then do
      let _ ← declaredFraming .http11
      pure (response.headers.retain fun name _ =>
        !eqIgnoreAsciiCase name (ascii "transfer-encoding"))
    else pure response.headers
  let declared := fields.hasFraming && !stripped
  if bodyless then
    if declared then
      let _ ← declaredFraming response.httpVersion
      pure (.fixed 0, headers)
    else pure (.fixed 0, headers)
  else if response.status.asU16 = 205 then
    -- A 205 response has no content and says so with a zero length.
    if !declared then pure (.fixed 0, headers.push (ascii "Content-Length") (ascii "0"))
    else do
      let framing ← declaredFraming response.httpVersion
      if framing ≠ .fixed 0 then .error (localError "a 205 response cannot carry content")
      else pure (.fixed 0, headers)
  else if !declared then
    if c.isHttp11 response.httpVersion then
      pure (.chunked, headers.push (ascii "Transfer-Encoding") (ascii "chunked"))
    else pure (.closeDelimited, headers)
  else do
    let framing ← declaredFraming response.httpVersion
    pure (framing, headers)

/-- Whether request content has yet to arrive; content that has all arrived
and awaits only its events does not count. -/
def unread (c : Connection) : Bool :=
  match c.cycle.reader with
  | .fixed remaining => decide (remaining > usizeAdd c.held c.input.asSlice.length)
  | _ => true

/-- Every reason to close that the response adds, recorded in the state. -/
def recordReasonsToClose (framing : Framing) (fields : Fields) (c : Connection) : Connection :=
  c.disableKeepAliveIf
    (framing == .closeDelimited || (c.peerState == .sendBody && c.unread) || fields.close)

/-- The fields of a head that has to say whether the connection persists. -/
def announcePersistence (c : Connection) (version : Version) (headers : Headers) : Headers :=
  if !c.state.keepAlive then setConnectionOption headers (ascii "close")
  else if !c.isHttp11 version then setConnectionOption headers (ascii "keep-alive")
  else headers

/-- Serializes a final server response head and begins its body. -/
def sendResponse (response : Response) : LocalCall Bytes := do
  let c ← Call.get
  Call.failIf (c.role ≠ .server ∨ response.status.isInformational = true)
    (localError "a final response requires a server role and non-1xx status")
  Call.ofExcept (validateHeaders response.headers)
  Call.ofExcept (validateReason response.reason)
  let fields := Fields.scan response.headers
  Call.ofExcept fields.checkSend
  -- A 426 names the protocols to upgrade to.
  Call.failIf (response.status.asU16 = 426 ∧ (upgradeProtocols response.headers).all (·.isEmpty))
    (localError "a 426 response requires an Upgrade field")
  let connect := c.opensTunnel response.status
  Call.failIf ((response.status.asU16 = 204 ∨ connect = true) ∧ fields.hasFraming = true)
    (localError "this response status cannot carry framing fields")
  let plan ← Call.ofExcept (c.responseFraming response)
  advanceLocal (c.finalResponseEvent response.status)
  Call.modify (recordReasonsToClose plan.1 fields)
  Call.modify recordResponse
  let c ← Call.get
  let headers := if connect then plan.2 else c.announcePersistence response.httpVersion plan.2
  -- A tunnel replaces the message body.
  Call.modify (mapCycle fun cycle => { cycle with writer := if connect then none else some plan.1 })
  return serializeResponse response.httpVersion response.status response.reason headers

/-- The bytes around a body piece of `length` bytes. -/
def sendDataFraming (length : Nat) : LocalCall (Bytes × Bytes) := do
  let c ← Call.get
  let plan ← Call.ofExcept <|
    match c.cycle.writer with
    | none => .error (localError "no message body is being sent")
    | some (.fixed remaining) =>
      if length ≤ remaining then .ok (Framing.fixed (remaining - length), ([], []))
      else .error (localError "body exceeds Content-Length")
    | some .closeDelimited => .ok (.closeDelimited, ([], []))
    | some .chunked =>
      if length = 0 then .ok (.chunked, ([], [])) else .ok (.chunked, (chunkSize length, crlf))
  advanceLocal .data
  Call.modify (mapCycle fun cycle =>
    { cycle with writer := some plan.1, waitingForContinue := false })
  return plan.2

/-- Serializes body bytes according to the selected message framing. -/
def sendData (data : Bytes) : LocalCall Bytes := do
  let around ← sendDataFraming data.length
  return around.1 ++ data ++ around.2

/-- Finishes the local message and serializes any required terminator. -/
def endOfMessage (trailers : Headers) : LocalCall Bytes := do
  Call.ofExcept (validateTrailers trailers)
  let c ← Call.get
  let bytes ← Call.ofExcept <|
    match c.cycle.writer with
    | none => .error (localError "no message body is being sent")
    | some .chunked => .ok (ascii "0" ++ crlf ++ writeHeaders trailers ++ crlf)
    | some (.fixed (_ + 1)) => .error (localError "body is shorter than Content-Length")
    | some (.fixed 0) | some .closeDelimited =>
      if trailers.isEmpty then .ok []
      else .error (localError "only chunked messages can carry trailers")
  advanceLocal .endOfMessage
  Call.modify (mapCycle fun cycle => { cycle with writer := none, waitingForContinue := false })
  return bytes

/-- The body and the end of a message whose head has just been sent. -/
def sendRest (before : Bytes) (length : Nat) : LocalCall (Bytes × Bytes) := do
  let c ← Call.get
  -- A successful CONNECT becomes a tunnel at the end of its head.
  if c.localState = .switchedProtocol then
    Call.failIf (length ≠ 0) (localError "a successful CONNECT response cannot carry content")
    return (before, [])
  else
    let around ← if length ≠ 0 then sendDataFraming length else pure ([], [])
    let last ← endOfMessage Headers.new
    return (before ++ around.1, around.2 ++ last)

/-- Frames a head, a body of `length` bytes, and the end of message as one
write, restoring the state and the cycle if any step fails. -/
def sendComplete (head : LocalCall Bytes) (length : Nat) : LocalCall (Bytes × Bytes) := fun c =>
  match (head >>= fun before => sendRest before length) c with
  | (.ok parts, after) => (.ok parts, after)
  | (.error error, after) => (.error error, { after with state := c.state, cycle := c.cycle })

/-- `usize::to_string`. -/
def decimal (number : Nat) : Bytes := (Nat.toDigits 10 number).map Char.toUInt8

/-- A request without framing fields gets `Content-Length` when it has a body
or its method defines content. -/
def requestWithLength (request : Request) (length : Nat) : Request :=
  if ([Method.post, Method.put, Method.patch].contains request.method ∨ length ≠ 0) ∧
      hasFramingFields request.headers = false then
    { request with headers := request.headers.push (ascii "Content-Length") (decimal length) }
  else request

def sendRequestWithBodyFraming (request : Request) (length : Nat) : LocalCall (Bytes × Bytes) :=
  sendComplete (sendRequest (requestWithLength request length)) length

/-- Serializes a complete client request. -/
def sendRequestWithBody (request : Request) (body : Bytes) : LocalCall Bytes := do
  let parts ← sendRequestWithBodyFraming request body.length
  return parts.1 ++ body ++ parts.2

/-- A response without framing fields gets `Content-Length` unless its status
or request method forbids content. -/
def responseWithLength (c : Connection) (response : Response) (length : Nat) : Response :=
  if hasFramingFields response.headers = false ∧ c.responseHasNoBody response.status = false then
    { response with headers := response.headers.push (ascii "Content-Length") (decimal length) }
  else response

def sendResponseWithBodyFraming (response : Response) (length : Nat) :
    LocalCall (Bytes × Bytes) := do
  let c ← Call.get
  sendComplete (sendResponse (c.responseWithLength response length)) length

/-- Serializes a complete final response. -/
def sendResponseWithBody (response : Response) (body : Bytes) : LocalCall Bytes := do
  let parts ← sendResponseWithBodyFraming response body.length
  return parts.1 ++ body ++ parts.2

end H11r.Connection
