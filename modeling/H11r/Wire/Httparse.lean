import H11r.Headers

/-!
# What the connection knows of `httparse`

The head and field-section parser is a dependency, so it is a parameter of the
model: an `Httparse` is any triple of parsing functions. The types say what
Rust's own types and the callers rely on without checking: an end position lies
in the input, every name and value is a slice of the input that ends before
that position, and the slices come in the order of the text.

Nothing here says which heads a parser accepts. Results that need more name
what they need, as laws of the parser.
-/

namespace H11r

/-- What the code reads of a `httparse::Error`: its text, and whether it is
`TooManyHeaders`. -/
structure HttparseError where
  text : String
  tooManyHeaders : Bool

/-- `httparse::Status`. -/
inductive ParseStatus (α : Type) where
  | complete (value : α)
  | incomplete

/-- The name and value slices of parsed fields, all of them before `stop`. -/
structure ParsedFields (stop : Nat) where
  spans : List (Span × Span)
  inRange : ∀ field ∈ spans,
    field.1.start ≤ field.1.stop ∧ field.1.stop ≤ field.2.start ∧
      field.2.start ≤ field.2.stop ∧ field.2.stop ≤ stop
  ordered : spans.Pairwise fun earlier later => earlier.2.stop ≤ later.1.start

/-- A complete request head in a buffer of `length` bytes. -/
structure RawRequest (length : Nat) where
  stop : Nat
  stop_le : stop ≤ length
  method : Method
  path : Bytes
  minor : Nat
  fields : ParsedFields stop

/-- A complete response head in a buffer of `length` bytes. -/
structure RawResponse (length : Nat) where
  stop : Nat
  stop_le : stop ≤ length
  code : Nat
  minor : Nat
  fields : ParsedFields stop

/-- A complete field section in a buffer of `length` bytes. -/
structure RawSection (length : Nat) where
  stop : Nat
  stop_le : stop ≤ length
  fields : ParsedFields stop

/-- The parsing functions the connection calls, each with the number of field
slots it is given. A response is parsed with obsolete folding allowed, and
with the three lenient options of `Connection::lenient` or without them. -/
structure Httparse where
  parseRequest : (buffer : Bytes) → (slots : Nat) →
    Except HttparseError (ParseStatus (RawRequest buffer.length))
  parseResponse : (lenient : Bool) → (buffer : Bytes) → (slots : Nat) →
    Except HttparseError (ParseStatus (RawResponse buffer.length))
  parseHeaders : (buffer : Bytes) → (slots : Nat) →
    Except HttparseError (ParseStatus (RawSection buffer.length))

end H11r
