import H11r.Connection.Inbound
import H11r.Python.Values

/-!
# Event objects

`events.rs`: the objects that `next_event` returns, and their constructors. An
attribute is what a caller reads of an object, and what it may pass on to a
constructor or a send method. What is read of an event the core reports gives
the event back (`rebuild_eventToPy`), since the core tells informational
responses from final ones by the same test as the constructors.

The name of a field may be looked up by any `str`. Every byte of a character
that is not ASCII lies outside the bytes of a name, so a `str` finds the fields
its ASCII bytes name and no others (`getAll_str`).
-/

namespace H11r

namespace Python

/-- `py_method`. Methods share their `bytes` objects, which is not modelled. -/
def pyMethod (method : Method) : Bytes := method.asBytes

/-- `py_version`. -/
def pyVersion (version : Version) : Bytes := version.wire

structure PyRequest where
  method : Bytes
  target : Bytes
  headers : Headers
  httpVersion : Bytes

/-- The fields shared by informational and final responses. -/
structure PyResponseBase where
  statusCode : Nat
  reason : Bytes
  headers : Headers
  httpVersion : Bytes

structure PyData where
  data : Bytes
  chunkStart : Bool
  chunkEnd : Bool

structure PyEndOfMessage where
  trailers : Headers

inductive PyEvent where
  | request (value : PyRequest)
  | informationalResponse (value : PyResponseBase)
  | response (value : PyResponseBase)
  | data (value : PyData)
  | endOfMessage (value : PyEndOfMessage)
  | connectionClosed

/-! ## From the core -/

def PyRequest.fromCore (value : Request) : PyRequest where
  method := pyMethod value.method
  target := value.target
  headers := value.headers
  httpVersion := pyVersion value.httpVersion

def PyResponseBase.fromCore (value : Response) : PyResponseBase where
  statusCode := value.status.asU16
  reason := value.reason
  headers := value.headers
  httpVersion := pyVersion value.httpVersion

def eventToPy : Event → PyEvent
  | .request value => .request (.fromCore value)
  | .informationalResponse value => .informationalResponse (.fromCore value)
  | .response value => .response (.fromCore value)
  | .data data chunkStart chunkEnd => .data ⟨data, chunkStart, chunkEnd⟩
  | .endOfMessage trailers => .endOfMessage ⟨trailers⟩
  | .connectionClosed => .connectionClosed

/-! ## Constructors and equality -/

/-- The arguments of a request, read in their order. -/
def extractRequest (method target : PyAny) (headers : PyFields) (httpVersion : Option PyAny) :
    Except PyErr Request := do
  let method ← extractMethod method
  let target ← textOrBuffer target
  let headers ← extractHeaders (some headers)
  let httpVersion ← extractVersion httpVersion
  return { method, target, headers, httpVersion }

/-- The arguments of a response behind its status. -/
def extractResponse (status : StatusCode) (headers : Option PyFields)
    (reason httpVersion : Option PyAny) : Except PyErr Response := do
  let reason ← optionalBytes reason
  let headers ← extractHeaders headers
  let httpVersion ← extractVersion httpVersion
  return { status, reason, headers, httpVersion }

def PyRequest.new (method target : PyAny) (headers : PyFields) (httpVersion : Option PyAny) :
    Except PyErr PyRequest := do
  let request ← extractRequest method target headers httpVersion
  return .fromCore request

def PyResponseBase.new (informational : Bool) (statusCode : Number) (headers : Option PyFields)
    (reason httpVersion : Option PyAny) : Except PyErr PyResponseBase := do
  let status ← status statusCode
  if status.isInformational ≠ informational then
    .error (.valueError (if informational then "InformationalResponse requires a 1xx status"
      else "Response requires a final, non-1xx status"))
  else
    let response ← extractResponse status headers reason httpVersion
    return .fromCore response

def PyData.new (data : PyAny) (chunkStart chunkEnd : Bool) : Except PyErr PyData := do
  let data ← withBuffer data
  return { data, chunkStart, chunkEnd }

def PyEndOfMessage.new (trailers : Option PyFields) : Except PyErr PyEndOfMessage := do
  let trailers ← extractHeaders trailers
  return { trailers }

def PyRequest.eq (left right : PyRequest) : Bool :=
  left.method == right.method && left.target == right.target &&
    left.headers.eq right.headers && left.httpVersion == right.httpVersion

def PyResponseBase.eq (left right : PyResponseBase) : Bool :=
  left.statusCode == right.statusCode && left.reason == right.reason &&
    left.headers.eq right.headers && left.httpVersion == right.httpVersion

def PyData.eq (left right : PyData) : Bool :=
  left.data == right.data && left.chunkStart == right.chunkStart && left.chunkEnd == right.chunkEnd

def PyEndOfMessage.eq (left right : PyEndOfMessage) : Bool := left.trailers.eq right.trailers

/-- Two events are equal if they have one class and equal attributes. -/
def PyEvent.eq : PyEvent → PyEvent → Bool
  | .request left, .request right => left.eq right
  | .informationalResponse left, .informationalResponse right => left.eq right
  | .response left, .response right => left.eq right
  | .data left, .data right => left.eq right
  | .endOfMessage left, .endOfMessage right => left.eq right
  | .connectionClosed, .connectionClosed => true
  | _, _ => false

/-! ## What a caller passes on -/

/-- The attributes of an event, passed to the constructor of its class. -/
def PyEvent.rebuild : PyEvent → Except PyErr PyEvent
  | .request value => do
    let value ← PyRequest.new (.bytes value.method true) (.bytes value.target true)
      (.headers value.headers) (some (.bytes value.httpVersion true))
    return .request value
  | .informationalResponse value => do
    let value ← PyResponseBase.new true (.int value.statusCode) (some (.headers value.headers))
      (some (.bytes value.reason true)) (some (.bytes value.httpVersion true))
    return .informationalResponse value
  | .response value => do
    let value ← PyResponseBase.new false (.int value.statusCode) (some (.headers value.headers))
      (some (.bytes value.reason true)) (some (.bytes value.httpVersion true))
    return .response value
  | .data value => do
    let value ← PyData.new (.bytes value.data true) value.chunkStart value.chunkEnd
    return .data value
  | .endOfMessage value => do
    let value ← PyEndOfMessage.new (some (.headers value.trailers))
    return .endOfMessage value
  | .connectionClosed => .ok .connectionClosed

theorem extractMethod_pyMethod (method : Method) :
    extractMethod (.bytes (pyMethod method) true) = .ok method := by
  show okOr (Method.fromBytes method.asBytes) _ = _
  rw [okOr_eq_ok]
  exact dif_pos method.token

theorem extractVersion_pyVersion (version : Version) :
    extractVersion (some (.bytes (pyVersion version) true)) = .ok version := by
  cases version <;> decide

theorem status_asU16 (code : StatusCode) : status (.int code.asU16) = .ok code := by
  have hsmall : (0 : Int) ≤ code.asU16 ∧ (code.asU16 : Int) ≤ (65535 : Nat) := by
    have hrange := code.range
    omega
  have hcode : (Number.int code.asU16).extract 65535 = .ok code.asU16 := if_pos hsmall
  unfold status
  rw [hcode]
  show okOr (StatusCode.fromU16 code.asU16) _ = _
  rw [okOr_eq_ok]
  exact dif_pos code.range

theorem extractRequest_fromCore (request : Request) :
    extractRequest (.bytes (pyMethod request.method) true) (.bytes request.target true)
      (.headers request.headers) (some (.bytes (pyVersion request.httpVersion) true)) =
    .ok request := by
  unfold extractRequest
  rw [extractMethod_pyMethod, extractVersion_pyVersion]
  rfl

theorem extractResponse_fromCore (response : Response) :
    extractResponse response.status (some (.headers response.headers))
      (some (.bytes response.reason true))
      (some (.bytes (pyVersion response.httpVersion) true)) = .ok response := by
  unfold extractResponse
  rw [extractVersion_pyVersion]
  rfl

theorem responseBase_fromCore (response : Response) :
    PyResponseBase.new response.status.isInformational
      (.int (PyResponseBase.fromCore response).statusCode)
      (some (.headers response.headers)) (some (.bytes response.reason true))
      (some (.bytes (pyVersion response.httpVersion) true)) = .ok (.fromCore response) := by
  unfold PyResponseBase.new
  show (status (.int response.status.asU16) >>= fun _ => _) = _
  rw [status_asU16]
  show (if response.status.isInformational ≠ response.status.isInformational then _ else _) = _
  rw [if_neg (not_not_intro rfl), extractResponse_fromCore]
  rfl

/-- A response event has the class its status asks for. -/
def Classed : Event → Prop
  | .informationalResponse response => response.status.isInformational = true
  | .response response => response.status.isInformational = false
  | _ => True

/-- What is read of an event gives it back. -/
theorem rebuild_eventToPy {event : Event} (h : Classed event) :
    (eventToPy event).rebuild = .ok (eventToPy event) := by
  cases event with
  | request request =>
    exact congrArg (fun read => (read >>= fun value => pure (PyRequest.fromCore value)) >>=
      fun value => pure (PyEvent.request value)) (extractRequest_fromCore request)
  | informationalResponse response =>
    have hbase := responseBase_fromCore response
    rw [show response.status.isInformational = true from h] at hbase
    exact congrArg (· >>= fun value => pure (PyEvent.informationalResponse value)) hbase
  | response response =>
    have hbase := responseBase_fromCore response
    rw [show response.status.isInformational = false from h] at hbase
    exact congrArg (· >>= fun value => pure (PyEvent.response value)) hbase
  | data | endOfMessage | connectionClosed => rfl

/-- A poll reports events of the right class only. -/
theorem nextEvent_classed {hp : Httparse} {c c' : Connection} {event : Event}
    (h : Connection.nextEvent hp c = (.ok (.event event), c')) : Classed event := by
  rcases Connection.nextEvent_event h with ⟨data, chunkStart, chunkEnd, rfl⟩ | hinner
  · trivial
  · obtain ⟨c1, _, hlast⟩ := Connection.nextEventInner_last hinner
    cases Connection.dispatch_turn hlast with
    | informational _ _ _ _ _ hstatus => exact hstatus
    | final _ _ _ _ _ hstatus => exact hstatus
    | _ => trivial

/-! ## Looking fields up -/

/-- `Headers.get_all()`. -/
def pyGetAll (headers : Headers) (name : PyAny) : Except PyErr (List Bytes) := do
  let name ← withFieldName name
  return headers.getAll name

/-- `Headers.get()`, `none` where the default is returned. -/
def pyGet (headers : Headers) (name : PyAny) : Except PyErr (Option Bytes) := do
  let name ← withFieldName name
  return (headers.getAll name).head?

theorem lossy_of_toStr {text : List CodePoint} {chars : List Char} (h : toStr text = .ok chars) :
    text.flatMap lossy = utf8 chars := by
  induction text generalizing chars with
  | nil =>
    cases h
    rfl
  | cons point rest ih =>
    cases point with
    | surrogate => cases h
    | scalar char =>
      unfold toStr at h
      cases hrest : toStr rest with
      | error error =>
        rw [hrest] at h
        cases h
      | ok more =>
        rw [hrest] at h
        cases h
        rw [List.flatMap_cons, ih hrest]
        rfl

/-- A surrogate leaves bytes that no name contains. -/
theorem toStr_error {text : List CodePoint} {error : PyErr} (h : toStr text = .error error) :
    ∃ byte ∈ text.flatMap lossy, 128 ≤ byte := by
  induction text with
  | nil => cases h
  | cons point rest ih =>
    cases point with
    | surrogate => exact ⟨0xEF, List.mem_append_left _ (by decide), by decide⟩
    | scalar char =>
      unfold toStr at h
      cases hrest : toStr rest with
      | ok more =>
        rw [hrest] at h
        cases h
      | error other =>
        rw [hrest] at h
        cases h
        obtain ⟨byte, hmem, hlarge⟩ := ih hrest
        exact ⟨byte, List.mem_append_right _ hmem, hlarge⟩

theorem isTokenByte_small {byte : UInt8} (h : isTokenByte byte = true) : byte < 128 := by
  revert h
  refine forall_byte (p := fun byte => isTokenByte byte = true → byte < 128) ?_ byte
  decide +kernel

theorem toAsciiLowercase_large {byte : UInt8} (h : 128 ≤ byte) : 128 ≤ toAsciiLowercase byte := by
  revert h
  refine forall_byte (p := fun byte => 128 ≤ byte → 128 ≤ toAsciiLowercase byte) ?_ byte
  decide +kernel

theorem toAsciiLowercase_small {byte : UInt8} (h : byte < 128) : toAsciiLowercase byte < 128 := by
  revert h
  refine forall_byte (p := fun byte => byte < 128 → toAsciiLowercase byte < 128) ?_ byte
  decide +kernel

/-- A name equals nothing that has a byte outside ASCII. -/
theorem name_matches_ascii {name sought : Bytes} (hname : validName name = true) {byte : UInt8}
    (hmem : byte ∈ sought) (hlarge : 128 ≤ byte) : eqIgnoreAsciiCase name sought = false := by
  refine Bool.eq_false_iff.mpr fun heq => ?_
  have hsame : name.map toAsciiLowercase = sought.map toAsciiLowercase := beq_iff_eq.mp heq
  have hfound : toAsciiLowercase byte ∈ name.map toAsciiLowercase := by
    rw [hsame]
    exact List.mem_map_of_mem hmem
  obtain ⟨own, hown, hlower⟩ := List.mem_map.mp hfound
  have hsmall := toAsciiLowercase_small (isTokenByte_small
    (List.all_eq_true.mp (validName_token hname).2 own hown))
  rw [hlower] at hsmall
  exact absurd (toAsciiLowercase_large hlarge) (UInt8.not_le.mpr hsmall)

theorem getAll_eq_nil {headers : Headers} {sought : Bytes}
    (hnames : ∀ field ∈ headers.iter, validName field.1 = true) {byte : UInt8}
    (hmem : byte ∈ sought) (hlarge : 128 ≤ byte) : headers.getAll sought = [] := by
  unfold Headers.getAll
  rw [List.map_eq_nil_iff, List.filter_eq_nil_iff]
  intro field hfield
  rw [name_matches_ascii (hnames field hfield) hmem hlarge]
  exact Bool.false_ne_true

theorem textOrBuffer_error {text : List CodePoint} {error : PyErr} (h : toStr text = .error error) :
    textOrBuffer (.str text) = .error error := by
  show (toStr text >>= fun _ => _) = _
  rw [h]
  rfl

theorem textOrBuffer_ok {text : List CodePoint} {chars : List Char} (h : toStr text = .ok chars) :
    textOrBuffer (.str text) = if (utf8 chars).all (· < 128) then .ok (utf8 chars)
      else .error (.valueError "HTTP str inputs must be ASCII") := by
  show (toStr text >>= fun _ => _) = _
  rw [h]
  rfl

/-- Any `str` may be looked up. It finds the fields that it names when it is
sent as a name, and none if it cannot be sent. -/
theorem getAll_str {headers : Headers} (hnames : ∀ field ∈ headers.iter, validName field.1 = true)
    (text : List CodePoint) : pyGetAll headers (.str text) =
      match textOrBuffer (.str text) with
      | .ok name => .ok (headers.getAll name)
      | .error _ => .ok [] := by
  show Except.ok (headers.getAll (text.flatMap lossy)) = _
  cases hchars : toStr text with
  | error error =>
    obtain ⟨byte, hmem, hlarge⟩ := toStr_error hchars
    rw [getAll_eq_nil hnames hmem hlarge, textOrBuffer_error hchars]
  | ok chars =>
    rw [lossy_of_toStr hchars, textOrBuffer_ok hchars]
    by_cases hascii : (utf8 chars).all (· < 128) = true
    · rw [if_pos hascii]
    · rw [if_neg hascii]
      rw [List.all_eq_true] at hascii
      push Not at hascii
      obtain ⟨byte, hmem, hlarge⟩ := hascii
      rw [getAll_eq_nil hnames hmem (UInt8.not_lt.mp fun hless => hlarge (decide_eq_true hless))]

end Python

end H11r
