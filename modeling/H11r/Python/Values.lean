import H11r.Headers

/-!
# Python objects at the boundary

What `buffers.rs`, `headers.rs` and the argument readers of `events.rs` and
`mod.rs` see of the objects a Python caller passes. A `str` is a list of code
points, and a lone surrogate is one that has no encoding. Exceptions that
Python raises by itself are told apart by their class only; those of the
binding carry their text.

Reading an argument either gives the value of the core that it stands for or
raises, and it never touches the connection. `extractHeaders_iterable` says it
of a whole section of fields: it is read pair by pair, and the first pair that
cannot be read decides the exception.
-/

namespace H11r.Python

/-! ## Exceptions -/

/-- Class of an exception that Python raises by itself. -/
inductive ExceptionClass where
  | typeError
  | overflowError
  | attributeError
  | unicodeEncodeError
  | other
  deriving DecidableEq

inductive PyErr where
  | typeError (message : String)
  | valueError (message : String)
  | interpreter (class_ : ExceptionClass)
  | localProtocolError (message : String)
  | remoteProtocolError (message : String) (suggestedStatusCode : Option Nat)
  deriving DecidableEq

/-- `error.is_instance_of::<PyTypeError>`. -/
def PyErr.isTypeError : PyErr → Bool
  | .typeError _ | .interpreter .typeError => true
  | _ => false

/-- `local_error`. -/
def raiseLocal (error : LocalProtocolError) : PyErr := .localProtocolError error.message

/-- `remote_error`. -/
def raiseRemote (error : RemoteProtocolError) : PyErr :=
  .remoteProtocolError error.message error.suggestedStatusCode

/-! ## Numbers -/

/-- An object read as an integer. -/
inductive Number where
  | int (value : Int)
  | other

/-- `extract::<uN>` for a type whose largest value is `largest`. -/
def Number.extract (largest : Nat) : Number → Except PyErr Nat
  | .int value =>
    if 0 ≤ value ∧ value ≤ largest then .ok value.toNat else .error (.interpreter .overflowError)
  | .other => .error (.interpreter .typeError)

/-- A status code. An int beyond `u16` is as invalid as any other out of range. -/
def status (value : Number) : Except PyErr StatusCode := do
  let code ←
    match value.extract 65535 with
    | .ok code => .ok code
    | .error (.interpreter .overflowError) => .ok 0
    | .error error => .error error
  okOr (StatusCode.fromU16 code) (.valueError "HTTP status code must be between 100 and 599")

/-! ## Text and buffers -/

/-- A code point of a `str`. -/
inductive CodePoint where
  | scalar (char : Char)
  | surrogate
  deriving DecidableEq

/-- An object that may stand for bytes. -/
inductive PyAny where
  | bytes (data : Bytes) (exact : Bool)
  | str (text : List CodePoint)
  | buffer (data : Bytes) (contiguous : Bool)
  /-- An object without the buffer protocol, with what reading its `nbytes` gives. -/
  | object (nbytes : Except PyErr Number)

/-- `PyString::to_str`. -/
def toStr : List CodePoint → Except PyErr (List Char)
  | [] => .ok []
  | .scalar char :: rest => do
    let chars ← toStr rest
    return char :: chars
  | .surrogate :: _ => .error (.interpreter .unicodeEncodeError)

def utf8 (text : List Char) : Bytes := text.flatMap String.utf8EncodeChar

/-- A code point of `PyString::to_string_lossy`: a surrogate would take three
bytes, and each of them becomes a replacement character. -/
def lossy : CodePoint → Bytes
  | .scalar char => String.utf8EncodeChar char
  | .surrogate => [0xEF, 0xBF, 0xBD, 0xEF, 0xBF, 0xBD, 0xEF, 0xBF, 0xBD]

/-- The bytes of a buffer-protocol object. -/
def withBuffer : PyAny → Except PyErr Bytes
  | .bytes data _ | .buffer data _ => .ok data
  | .str _ | .object _ => .error (.interpreter .typeError)

/-- The bytes of an ASCII `str` or a buffer-protocol object. -/
def textOrBuffer : PyAny → Except PyErr Bytes
  | .str text => do
    let chars ← toStr text
    if (utf8 chars).all (· < 128) then return utf8 chars
    else .error (.valueError "HTTP str inputs must be ASCII")
  | value => withBuffer value

/-- The bytes of a field name to look up, for which any `str` will do. -/
def withFieldName : PyAny → Except PyErr Bytes
  | .str text => .ok (text.flatMap lossy)
  | value => withBuffer value

def contiguousBufferLen : PyAny → Except PyErr Nat
  | .bytes data _ => .ok data.length
  | .buffer data contiguous =>
    if contiguous then .ok data.length
    else .error (.valueError "send_data_parts requires a contiguous buffer")
  | .str _ | .object _ => .error (.interpreter .typeError)

/-- What `getattr("nbytes")` gives. -/
def PyAny.nbytes : PyAny → Except PyErr Number
  | .object nbytes => nbytes
  | .buffer data _ => .ok (.int data.length)
  | .bytes _ _ | .str _ => .error (.interpreter .attributeError)

def bodyNbytes (value : PyAny) : Except PyErr Nat :=
  match contiguousBufferLen value with
  | .ok length => .ok length
  | .error bufferError =>
    if bufferError.isTypeError then
      match value.nbytes with
      | .ok length => length.extract usizeMax
      | .error (.interpreter .attributeError) => .error bufferError
      | .error error => .error error
    else .error bufferError

def extractMethod (value : PyAny) : Except PyErr Method := do
  let bytes ← textOrBuffer value
  okOr (Method.fromBytes bytes) (.valueError "HTTP method must be a non-empty token")

def optionalBytes : Option PyAny → Except PyErr Bytes
  | none => .ok []
  | some value => textOrBuffer value

def extractVersion (value : Option PyAny) : Except PyErr Version :=
  match value with
  | none => .ok .http11
  | some value => do
    let bytes ← textOrBuffer value
    if bytes = ascii "1.1" then return .http11
    else if bytes = ascii "1.0" then return .http10
    else .error (.valueError "http_version must be b'1.0' or b'1.1'")

/-! ## Fields -/

/-- An item of an iterable of pairs. -/
inductive Item where
  | tuple (values : List PyAny)
  | other

/-- An object passed as fields: a `Headers`, or one that may be iterated. An
iterator can raise in the place of an item. -/
inductive PyFields where
  | headers (fields : Headers)
  | iterable (items : List (Except PyErr Item))
  | other

/-- The two items of a tuple. Exact `bytes`, the common case, are taken as they
are. -/
def pushBoth (headers : Headers) (name value : PyAny) : Except PyErr Headers :=
  match name, value with
  | .bytes name true, .bytes value true => .ok (headers.push name value)
  | name, value => do
    let name ← textOrBuffer name
    let value ← textOrBuffer value
    return headers.push name value

def pushPair (headers : Headers) : Item → Except PyErr Headers
  | .other => .error (.typeError "each header must be a 2-tuple")
  | .tuple [name, value] => pushBoth headers name value
  | .tuple _ => .error (.typeError "each header must contain name and value")

/-- The loop over the items. -/
def pushPairs (headers : Headers) : List (Except PyErr Item) → Except PyErr Headers
  | [] => .ok headers
  | item :: rest => do
    let item ← item
    let headers ← pushPair headers item
    pushPairs headers rest

def extractHeaders : Option PyFields → Except PyErr Headers
  | none => .ok .new
  | some (.headers fields) => .ok fields
  | some (.iterable items) => pushPairs (.withCapacity items.length (items.length * 64)) items
  | some .other => .error (.interpreter .typeError)

/-! ### What a section reads as -/

/-- The pair an item stands for. -/
def Item.pair : Item → Except PyErr (Bytes × Bytes)
  | .other => .error (.typeError "each header must be a 2-tuple")
  | .tuple [name, value] => do
    let name ← textOrBuffer name
    let value ← textOrBuffer value
    return (name, value)
  | .tuple _ => .error (.typeError "each header must contain name and value")

theorem pushBoth_eq (headers : Headers) (name value : PyAny) : pushBoth headers name value = do
    let name ← textOrBuffer name
    let value ← textOrBuffer value
    return headers.push name value := by
  unfold pushBoth
  split
  · rfl
  · rfl

theorem pushPair_eq (headers : Headers) (item : Item) : pushPair headers item = do
    let pair ← item.pair
    return headers.push pair.1 pair.2 := by
  match item with
  | .other | .tuple [] | .tuple [_] | .tuple (_ :: _ :: _ :: _) => rfl
  | .tuple [name, value] =>
    show pushBoth headers name value = ((textOrBuffer name >>= fun name =>
      textOrBuffer value >>= fun value => pure (name, value)) >>= fun pair =>
        pure (headers.push pair.1 pair.2))
    rw [pushBoth_eq]
    cases textOrBuffer name with
    | error => rfl
    | ok name =>
      cases textOrBuffer value with
      | error => rfl
      | ok value => rfl

/-- The pairs of the items, up to the first that is not one. -/
def pairsOf : List (Except PyErr Item) → Except PyErr (List (Bytes × Bytes))
  | [] => .ok []
  | item :: rest => do
    let item ← item
    let pair ← item.pair
    let pairs ← pairsOf rest
    return pair :: pairs

theorem pushPairs_eq (headers : Headers) (items : List (Except PyErr Item)) :
    pushPairs headers items = do
      let pairs ← pairsOf items
      return headers.extend pairs := by
  induction items generalizing headers with
  | nil => rfl
  | cons item rest ih =>
    unfold pushPairs pairsOf
    cases item with
    | error => rfl
    | ok item =>
      show (pushPair headers item >>= fun headers => pushPairs headers rest) = _
      rw [pushPair_eq]
      cases hpair : item.pair with
      | error error =>
        show _ = ((item.pair >>= fun pair => _) >>= fun pairs => _)
        rw [hpair]
        rfl
      | ok pair =>
        show pushPairs (headers.push pair.1 pair.2) rest =
          ((item.pair >>= fun pair => _) >>= fun pairs => _)
        rw [ih, hpair]
        show _ = ((pairsOf rest >>= fun pairs => _) >>= fun pairs => _)
        cases pairsOf rest with
        | error => rfl
        | ok pairs => rfl

/-- An iterable reads as the list of its pairs, or raises what the first item
raises that is not a pair. -/
theorem extractHeaders_iterable (items : List (Except PyErr Item)) :
    (extractHeaders (some (.iterable items))).map Headers.iter = pairsOf items := by
  show (pushPairs _ items).map Headers.iter = _
  rw [pushPairs_eq]
  cases pairsOf items with
  | error => rfl
  | ok pairs =>
    show Except.ok (((Headers.withCapacity _ _).extend pairs).iter) = _
    rw [Headers.iter_extend, Headers.iter_withCapacity, List.nil_append]

end H11r.Python
