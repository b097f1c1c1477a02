import H11r.Headers
import H11r.Wire.Buffer
import H11r.Wire.Target

/-!
# Field syntax and the semantics of framing and connection fields

`wire/fields.rs`, and `validate_request` of `wire/target.rs`. `Fields.scan`
reads the framing and connection-management fields of a section in one pass;
the decisions of the connection are functions of what it found.

The source matches the length of a name before it compares the name. A
case-insensitive match implies the length, so the comparison alone is kept.
-/

namespace H11r

/-- The split of `elements`: commas separate, unless they stand in a quoted
string of a field whose grammar has them. -/
def splitElements (quoting : Bool) : (quoted escaped : Bool) → Bytes → List Bytes
  | _, _, [] => [[]]
  | quoted, escaped, byte :: rest =>
    if byte == comma && !escaped && !quoted then [] :: splitElements quoting quoted false rest
    else
      let quoted' := if !escaped && byte == quote && quoting then !quoted else quoted
      let escaped' := !escaped && byte == backslash && quoted
      match splitElements quoting quoted' escaped' rest with
      | [] => [[byte]]
      | element :: elements => (byte :: element) :: elements

/-- Comma-separated list elements without surrounding whitespace. -/
def elements (value : Bytes) (quoting : Bool) : List Bytes :=
  (splitElements quoting false false value).map trimOws

def hasField (headers : Headers) (name : Bytes) : Bool := !(headers.getAll name).isEmpty

/-- Whether `headers` carry `Transfer-Encoding` or `Content-Length`. -/
def hasFramingFields (headers : Headers) : Bool :=
  hasField headers (ascii "transfer-encoding") || hasField headers (ascii "content-length")

def hasToken (headers : Headers) (name token : Bytes) : Bool :=
  ((headers.getAll name).flatMap (elements · false)).any (eqIgnoreAsciiCase · token)

/-- `token [ "/" token ]`. -/
def validProtocol (value : Bytes) : Bool :=
  match value.splitOnP (· == slash) with
  | [name] => validName name
  | [name, version] => validName name && validName version
  | _ => false

/-- The protocols of the Upgrade lines, or `none` if one is malformed or the
field is present without any. -/
def upgradeProtocols (headers : Headers) : Option (List Bytes) :=
  let protocols :=
    ((headers.getAll (ascii "upgrade")).flatMap (elements · false)).filter (!·.isEmpty)
  if protocols.all validProtocol then
    if !hasField headers (ascii "upgrade") || !protocols.isEmpty then some protocols else none
  else none

/-- `splitn(2, '/')`: the name, and the version after the first slash. -/
def splitProtocol (value : Bytes) : Bytes × Option Bytes :=
  match splitAtByte value slash with
  | some (name, version) => (name, some version)
  | none => (value, none)

/-- Names match case-insensitively, versions exactly. -/
def protocolMatches (left right : Bytes) : Bool :=
  eqIgnoreAsciiCase (splitProtocol left).1 (splitProtocol right).1 &&
    (splitProtocol left).2 == (splitProtocol right).2

/-- The options of the Connection lines that are not about persistence. -/
def otherConnectionOptions (headers : Headers) : List Bytes :=
  ((headers.getAll (ascii "connection")).flatMap (elements · false)).filter fun value =>
    !value.isEmpty && !eqIgnoreAsciiCase value (ascii "close") &&
      !eqIgnoreAsciiCase value (ascii "keep-alive")

/-- Replaces any persistence option in `Connection` with `option`, keeping the
other options. -/
def setConnectionOption (headers : Headers) (option : Bytes) : Headers :=
  (headers.retain fun name _ => !eqIgnoreAsciiCase name (ascii "connection")).push
    (ascii "Connection")
    ((ascii ", ").intercalate (otherConnectionOptions headers ++ [option]))

/-- What a `Transfer-Encoding` list says about chunked framing. -/
structure Codings where
  any : Bool
  empty : Bool
  malformed : Bool
  lastChunked : Bool
  chunkedBeforeLast : Bool
  otherBeforeLast : Bool
  deriving DecidableEq, Repr

/-! ## The Transfer-Encoding reader -/

namespace Codings

/-- `Codings::default`. -/
def new : Codings := ⟨false, false, false, false, false, false⟩

def isRegisteredCoding (name : Bytes) : Bool :=
  ["chunked", "compress", "deflate", "gzip", "x-compress", "x-gzip"].any fun coding =>
    eqIgnoreAsciiCase name (ascii coding)

/-- One turn of the parameter loop, from the `;` at `start`: whether the
parameter is well formed, and where the scan stands after it. -/
def readParameter (value : Bytes) (start : Nat) : Bool × Nat :=
  let name := skipOws value (start + 1)
  let afterName := skipOws value (tokenEnd value name)
  let parameter := skipOws value (afterName + 1)
  let afterValue :=
    if value[parameter]? = some quote then (parseQuotedString value parameter).getD parameter
    else tokenEnd value parameter
  (decide (afterName > name) && value[afterName]? == some equalsSign &&
    decide (afterValue > parameter), skipOws value afterValue)

theorem skipOws_ge (value : Bytes) (start : Nat) : start ≤ skipOws value start :=
  Nat.le_add_right _ _

/-- A well-formed parameter moves the scan forward. -/
theorem readParameter_gt {value : Bytes} {start next : Nat}
    (h : readParameter value start = (true, next)) : start < next := by
  unfold readParameter at h
  simp only [Prod.mk.injEq, Bool.and_eq_true, decide_eq_true_eq] at h
  obtain ⟨⟨⟨hname, _⟩, hvalue⟩, hnext⟩ := h
  have h1 := skipOws_ge value (start + 1)
  have h2 := skipOws_ge value (skipOws value (tokenEnd value (skipOws value (start + 1))) + 1)
  rw [← hnext]
  refine Nat.lt_of_lt_of_le ?_ (skipOws_ge value _)
  omega

/-- The `while valid && value.get(at) == Some(&b';')` loop. -/
def readParameters (value : Bytes) (start : Nat) : Bool × Nat :=
  if _h : value[start]? = some semicolon then
    match _hp : readParameter value start with
    | (true, next) => readParameters value next
    | (false, next) => (false, next)
  else (true, start)
  termination_by value.length - start
  decreasing_by
    have hlt : start < value.length := (List.getElem?_eq_some_iff.mp _h).1
    have hgt := readParameter_gt _hp
    omega

theorem readParameters_ge {value : Bytes} {start next : Nat}
    (h : readParameters value start = (true, next)) : start ≤ next := by
  induction start using readParameters.induct value with
  | case1 start hsemi next' hp ih =>
    rw [readParameters, dif_pos hsemi] at h
    split at h
    next next'' hp' =>
      rw [hp] at hp'
      cases hp'
      exact Nat.le_of_lt (Nat.lt_of_lt_of_le (readParameter_gt hp) (ih h))
    next next'' hp' => cases h
  | case2 start hsemi next' hp =>
    rw [readParameters, dif_pos hsemi] at h
    split at h
    next next'' hp' => rw [hp] at hp'; cases hp'
    next next'' hp' => cases h
  | case3 start hsemi =>
    rw [readParameters, dif_neg hsemi] at h
    cases h
    exact Nat.le_refl _

/-- The element that starts at `start`: whether it is well formed, whether it
is `chunked`, and where the scan stands after it. -/
def readElement (value : Bytes) (start : Nat) : Bool × Bool × Nat :=
  let nameEnd := tokenEnd value start
  let name := Span.slice ⟨start, nameEnd⟩ value
  let afterName := skipOws value nameEnd
  let parameters := value[afterName]? == some semicolon && decide (nameEnd > start)
  let (valid, next) :=
    if nameEnd > start then readParameters value afterName else (false, afterName)
  (valid && !(parameters && isRegisteredCoding name) &&
      (value[next]? == none || value[next]? == some comma),
    eqIgnoreAsciiCase name (ascii "chunked"), next)

/-- A well-formed element ends at a comma or at the end of the value. -/
theorem readElement_next {value : Bytes} {start next : Nat} {chunked : Bool}
    (h : readElement value start = (true, chunked, next)) :
    start < next ∧ (value[next]? = none ∨ value[next]? = some comma) := by
  unfold readElement at h
  simp only [Prod.mk.injEq, Bool.and_eq_true, Bool.or_eq_true, beq_iff_eq] at h
  obtain ⟨⟨⟨hvalid, _⟩, hend⟩, _, hnext⟩ := h
  rw [hnext] at hend
  by_cases hname : tokenEnd value start > start
  · rw [if_pos hname] at hvalid hnext
    have hparams : readParameters value (skipOws value (tokenEnd value start)) = (true, next) :=
      Prod.ext hvalid hnext
    have hge := readParameters_ge hparams
    exact ⟨Nat.lt_of_lt_of_le hname (Nat.le_trans (skipOws_ge value _) hge), hend⟩
  · rw [if_neg hname] at hvalid
    cases hvalid

/-- Records one more coding of the list. -/
def note (codings : Codings) (valid chunked : Bool) : Codings :=
  { codings with
    chunkedBeforeLast := codings.chunkedBeforeLast || (codings.any && codings.lastChunked)
    otherBeforeLast := codings.otherBeforeLast || (codings.any && !codings.lastChunked)
    any := true
    malformed := codings.malformed || !valid
    lastChunked := chunked && valid }

/-- The loop of `Codings::read`. At its head `start` is never past the end of
the value. -/
def readFrom (value : Bytes) (codings : Codings) (start : Nat) : Codings :=
  let element := skipOws value start
  match _hb : value[element]? with
  | none => { codings with empty := true }
  | some byte =>
    if byte = comma then readFrom value { codings with empty := true } (element + 1)
    else
      match _he : readElement value element with
      | (false, chunked, _) => codings.note false chunked
      | (true, chunked, next) =>
        if _hend : value[next]? = none then codings.note true chunked
        else readFrom value (codings.note true chunked) (next + 1)
  termination_by value.length - start
  decreasing_by
    · have hlt : element < value.length := (List.getElem?_eq_some_iff.mp _hb).1
      have hge := skipOws_ge value start
      omega
    · have hlt : element < value.length := (List.getElem?_eq_some_iff.mp _hb).1
      have hge := skipOws_ge value start
      have hnext := (readElement_next _he).1
      have hin : next < value.length := by
        rw [List.getElem?_eq_none_iff] at _hend
        omega
      omega

/-- Reads the list elements of one `Transfer-Encoding` line. -/
def read (codings : Codings) (value : Bytes) : Codings := readFrom value codings 0

/-- The body framing of a message whose only framing field is the list. -/
def framing (codings : Codings) (response : Bool) : Except RemoteProtocolError Framing :=
  if codings.malformed || !codings.any then
    .error (remoteError "invalid Transfer-Encoding field" (some 400))
  else if response && !codings.lastChunked then .ok .closeDelimited
  else if !codings.lastChunked || codings.chunkedBeforeLast then
    .error (remoteError "chunked must be the final transfer coding" (some 400))
  else if codings.otherBeforeLast && !response then
    .error (remoteError "only Transfer-Encoding: chunked is supported" (some 501))
  else .ok .chunked

end Codings

/-! ## The fields of a section -/

/-- The framing and connection-management fields of a section. -/
structure Fields where
  hosts : Nat
  validHost : Bool
  hostAt : Nat
  codings : Option Codings
  length : Option (Except String Nat)
  lengths : Nat
  close : Bool
  keepAlive : Bool
  upgrade : Bool
  connectionTe : Bool
  expectContinue : Bool
  upgradeField : Bool
  teField : Bool
  teChunked : Bool
  emptyElements : Bool

namespace Fields

/-- `Fields::default`. -/
def new : Fields :=
  ⟨0, false, 0, none, none, 0, false, false, false, false, false, false, false, false, false⟩

/-- An empty value is a list of no elements, not an empty element. -/
def noteEmpty (value : Bytes) (quoting : Bool) : Bool :=
  !(trimOws value).isEmpty && (elements value quoting).any (·.isEmpty)

/-- One more element of a `Content-Length` list: the first number stands, and
every other element has to agree with it. -/
def noteLength (length : Option (Except String Nat)) (element : Bytes) :
    Option (Except String Nat) :=
  match length with
  | none =>
    match parseNumber element 10 with
    | some number => some (.ok number)
    | none => some (.error "invalid Content-Length")
  | some (.ok first) =>
    if parseNumber element 10 = some first then some (.ok first)
    else some (.error "conflicting Content-Length fields")
  | some (.error message) => some (.error message)

/-- The turn of the scan for the field at position `index`. -/
def scanField (fields : Fields) (index : Nat) (name value : Bytes) : Fields :=
  if eqIgnoreAsciiCase name (ascii "te") then
    { fields with
      teField := true
      teChunked := fields.teChunked || (elements value true).any fun element =>
        eqIgnoreAsciiCase (element.take (tokenEnd element 0)) (ascii "chunked")
      emptyElements := fields.emptyElements || noteEmpty value true }
  else if eqIgnoreAsciiCase name (ascii "host") then
    { fields with
      hosts := fields.hosts + 1
      validHost := (authorityPort value).isSome
      hostAt := index }
  else if eqIgnoreAsciiCase name (ascii "expect") then
    { fields with
      expectContinue := fields.expectContinue || (elements value true).any fun element =>
        eqIgnoreAsciiCase element (ascii "100-continue")
      emptyElements := fields.emptyElements || noteEmpty value true }
  else if eqIgnoreAsciiCase name (ascii "upgrade") then
    { fields with
      upgradeField := true
      emptyElements := fields.emptyElements || noteEmpty value false }
  else if eqIgnoreAsciiCase name (ascii "connection") then
    let options := elements value false
    { fields with
      close := fields.close || options.any (eqIgnoreAsciiCase · (ascii "close"))
      keepAlive := fields.keepAlive || options.any (eqIgnoreAsciiCase · (ascii "keep-alive"))
      upgrade := fields.upgrade || options.any (eqIgnoreAsciiCase · (ascii "upgrade"))
      connectionTe := fields.connectionTe || options.any (eqIgnoreAsciiCase · (ascii "te"))
      emptyElements := fields.emptyElements || noteEmpty value false }
  else if eqIgnoreAsciiCase name (ascii "content-length") then
    { fields with
      lengths := fields.lengths + (elements value false).length
      length := (elements value false).foldl noteLength fields.length }
  else if eqIgnoreAsciiCase name (ascii "transfer-encoding") then
    { fields with codings := some ((fields.codings.getD .new).read value) }
  else fields

/-- The scan of the fields from position `index` on. -/
def scanFrom (fields : Fields) (index : Nat) : List (Bytes × Bytes) → Fields
  | [] => fields
  | (name, value) :: rest => scanFrom (fields.scanField index name value) (index + 1) rest

def scan (headers : Headers) : Fields := scanFrom new 0 headers.iter

/-- Field rules a sender must meet beyond what a recipient tolerates. -/
def checkSend (fields : Fields) : Except LocalProtocolError Unit :=
  if fields.emptyElements || fields.codings.any (·.empty) then
    .error (localError "a connection-level list field has an empty element")
  else if fields.lengths > 1 then
    .error (localError "Content-Length must be a single decimal value")
  else if fields.upgradeField && !fields.upgrade then
    .error (localError "Upgrade requires Connection: upgrade")
  else if fields.teChunked then .error (localError "TE cannot name the chunked coding")
  else if fields.teField && !fields.connectionTe then
    .error (localError "TE requires Connection: TE")
  else .ok ()

def hasFraming (fields : Fields) : Bool := fields.codings.isSome || fields.length.isSome

def hasTransferEncoding (fields : Fields) : Bool := fields.codings.isSome

/-- One valid Host, which HTTP/1.0 may omit. -/
def hostValid (fields : Fields) (version : Version) : Bool :=
  match fields.hosts with
  | 0 => version == .http10
  | 1 => fields.validHost
  | _ => false

/-- HTTP/1.1 persists unless `close` is sent, and HTTP/1.0 persists only with
the legacy `keep-alive` option. -/
def persistent (fields : Fields) (version : Version) : Bool :=
  !fields.close && (version == .http11 || fields.keepAlive)

def expectsContinue (fields : Fields) (version : Version) (framing : Framing) : Bool :=
  version == .http11 && framing != .fixed 0 && fields.expectContinue

/-- RFC 9112 Section 6.3: the message body length. -/
def framing (fields : Fields) (version : Version) (response : Bool) :
    Except RemoteProtocolError Framing :=
  match fields.codings, fields.length with
  | some _, some _ =>
    .error (remoteError "Transfer-Encoding and Content-Length cannot be combined" (some 400))
  | some codings, none =>
    if version = .http10 then
      .error (remoteError "Transfer-Encoding is not valid HTTP/1.0 framing" (some 400))
    else codings.framing response
  | none, some (.ok length) => .ok (.fixed length)
  | none, some (.error message) => .error (remoteError message (some 400))
  | none, none => if response then .ok .closeDelimited else .ok (.fixed 0)

end Fields

def validateHeaders (headers : Headers) : Except LocalProtocolError Unit :=
  if headers.isValid then .ok () else .error (localError "invalid HTTP header field")

def validateReason (reason : Bytes) : Except LocalProtocolError Unit :=
  if reason.all isLineValueByte then .ok () else .error (localError "invalid HTTP reason phrase")

/-- The fields a trailer section cannot carry. -/
def forbiddenTrailers : List String :=
  ["content-length", "transfer-encoding", "host", "connection", "trailer", "upgrade", "expect", "te"]

def validateTrailers (trailers : Headers) : Except LocalProtocolError Unit := do
  validateHeaders trailers
  if trailers.iter.any fun field =>
      forbiddenTrailers.any fun name => eqIgnoreAsciiCase field.1 (ascii name) then
    .error (localError "field is not permitted in an HTTP trailer")
  else .ok ()

/-- A request head. -/
structure Request where
  method : Method
  target : Bytes
  headers : Headers
  httpVersion : Version

/-- A response head, informational or final. -/
structure Response where
  status : StatusCode
  reason : Bytes
  headers : Headers
  httpVersion : Version

def validateRequest (request : Request) (fields : Fields) : Except LocalProtocolError Unit := do
  if validRequestTarget request.method.asBytes request.target then .ok ()
  else .error (localError "invalid request target for the request method")
  validateHeaders request.headers
  fields.checkSend
  -- A user agent generates Host in every version.
  if fields.hostValid .http11 then .ok ()
  else .error (localError "request has a missing, duplicate, or invalid Host field")

end H11r
