import H11r.Wire.Section

/-!
# Laws of the head parser

What is asked of `httparse` where it matters which heads it accepts. A reader
of sections is *stable* when an answer it has given on a prefix is its answer
on every longer input, and when it answers at all exactly from the empty line
on that ends the section (`SectionReader`). `Httparse.Stable` asks that of the
three parsing functions, and of the first two that they skip empty lines.

`Stable.fold` is about trailers of a response, which are unfolded before they
are parsed: a line that is wrong where it stops does not become right because
another line is folded into it.

`Httparse.ReadsValid` says that a head written by a sender is read back as it
was written, at the places where it was written.
-/

namespace H11r

/-! ## What the code takes from a complete parse -/

structure RequestParts where
  stop : Nat
  method : Method
  path : Bytes
  minor : Nat
  spans : List (Span × Span)

structure ResponseParts where
  stop : Nat
  code : Nat
  minor : Nat
  spans : List (Span × Span)

structure SectionParts where
  stop : Nat
  spans : List (Span × Span)

def RawRequest.parts {length : Nat} (raw : RawRequest length) : RequestParts :=
  ⟨raw.stop, raw.method, raw.path, raw.minor, raw.fields.spans⟩

def RawResponse.parts {length : Nat} (raw : RawResponse length) : ResponseParts :=
  ⟨raw.stop, raw.code, raw.minor, raw.fields.spans⟩

def RawSection.parts {length : Nat} (raw : RawSection length) : SectionParts :=
  ⟨raw.stop, raw.fields.spans⟩

/-- The outcome of a parse, without the proofs that came with it. -/
def parsedAs {α β : Type} (parts : α → β) :
    Except HttparseError (ParseStatus α) → Except HttparseError (Option β)
  | .error error => .error error
  | .ok .incomplete => .ok none
  | .ok (.complete value) => .ok (some (parts value))

namespace Httparse

def request (hp : Httparse) (buffer : Bytes) (slots : Nat) :
    Except HttparseError (Option RequestParts) :=
  parsedAs RawRequest.parts (hp.parseRequest buffer slots)

def response (hp : Httparse) (lenient : Bool) (buffer : Bytes) (slots : Nat) :
    Except HttparseError (Option ResponseParts) :=
  parsedAs RawResponse.parts (hp.parseResponse lenient buffer slots)

def headers (hp : Httparse) (buffer : Bytes) (slots : Nat) :
    Except HttparseError (Option SectionParts) :=
  parsedAs RawSection.parts (hp.parseHeaders buffer slots)

end Httparse

/-! ## Stable readers -/

/-- A reader of sections that end at the first empty line, after a start line
or not, and that never takes an answer back. -/
structure SectionReader {ε α : Type} (read : Bytes → Except ε (Option α)) (stop : α → Nat)
    (afterStartLine : Bool) : Prop where
  complete : ∀ {data : Bytes} {value : α} (more : Bytes),
    read data = .ok (some value) → read (data ++ more) = .ok (some value)
  error : ∀ {data : Bytes} {error : ε} (more : Bytes),
    read data = .error error → read (data ++ more) = .error error
  ends : ∀ {data : Bytes} {value : α}, read data = .ok (some value) →
    emptyLineEnd data afterStartLine = some (stop value)
  waits : ∀ {data : Bytes}, read data = .ok none → emptyLineEnd data afterStartLine = none

namespace SectionReader

variable {ε α : Type} {read : Bytes → Except ε (Option α)} {stop : α → Nat} {afterStartLine : Bool}

theorem stop_le (h : SectionReader read stop afterStartLine) {data : Bytes} {value : α}
    (hread : read data = .ok (some value)) : stop value ≤ data.length :=
  emptyLineEnd_le (h.ends hread)

/-- Before the end of a section that is well formed there is no answer. -/
theorem waits_before (h : SectionReader read stop afterStartLine) {data more : Bytes} {value : α}
    (hread : read (data ++ more) = .ok (some value)) (hlt : data.length < stop value) :
    read data = .ok none := by
  cases hdata : read data with
  | error error =>
    rw [h.error more hdata] at hread
    cases hread
  | ok result =>
    cases result with
    | none => rfl
    | some found =>
      have hsame := h.complete more hdata
      rw [hread] at hsame
      cases hsame
      have hle := h.stop_le hdata
      omega

end SectionReader

namespace Httparse

/-- What makes the answers of the parser independent of how much of the input
it has seen. -/
structure Stable (hp : Httparse) : Prop where
  request : ∀ slots, SectionReader (hp.request · slots) RequestParts.stop true
  response : ∀ lenient slots, SectionReader (hp.response lenient · slots) ResponseParts.stop true
  headers : ∀ slots, SectionReader (hp.headers · slots) SectionParts.stop false
  request_empty : ∀ {data : Bytes} (slots : Nat), onlyEmptyLines data = true →
    hp.request data slots = .ok none
  response_empty : ∀ {data : Bytes} (lenient : Bool) (slots : Nat), onlyEmptyLines data = true →
    hp.response lenient data slots = .ok none
  fold : ∀ {line breaks : Bytes} {slots : Nat} {error : HttparseError} (more : Bytes),
    (breaks = [cr] ∨ breaks = [lf] ∨ breaks = crlf) →
    hp.headers (line ++ breaks) slots = .error error →
    ∀ parts, hp.headers (line ++ sp :: more) slots ≠ .ok (some parts)

/-- The parser fills no more field slots than it is given. -/
structure FillsSlots (hp : Httparse) : Prop where
  request : ∀ {buffer : Bytes} {slots : Nat} {parts : RequestParts},
    hp.request buffer slots = .ok (some parts) → parts.spans.length ≤ slots
  response : ∀ {lenient : Bool} {buffer : Bytes} {slots : Nat} {parts : ResponseParts},
    hp.response lenient buffer slots = .ok (some parts) → parts.spans.length ≤ slots
  headers : ∀ {buffer : Bytes} {slots : Nat} {parts : SectionParts},
    hp.headers buffer slots = .ok (some parts) → parts.spans.length ≤ slots

end Httparse

/-! ## The places of written fields -/

/-- Where the names and values of fields stand that are written from `start` on. -/
def fieldSpans (start : Nat) : List (Bytes × Bytes) → List (Span × Span)
  | [] => []
  | (name, value) :: rest =>
    (⟨start, start + name.length⟩,
      ⟨start + name.length + 2, start + name.length + 2 + value.length⟩) ::
      fieldSpans (start + (writeField (name, value)).length) rest

theorem writeField_length (name value : Bytes) :
    (writeField (name, value)).length = name.length + 2 + value.length + 2 := by
  simp only [writeField, List.length_append]
  rfl

/-- A field a sender may write. -/
def validField (field : Bytes × Bytes) : Prop :=
  validName field.1 = true ∧ validValue field.2 = true

def requestLine (method target : Bytes) (version : Version) : Bytes :=
  method ++ [sp] ++ target ++ ascii " HTTP/" ++ version.wire ++ crlf

def statusLineOf (version : Version) (status : StatusCode) (reason : Bytes) : Bytes :=
  ascii "HTTP/" ++ version.wire ++ [sp] ++ statusDigits status ++ [sp] ++ reason ++ crlf

/-- The minor version of a head. -/
def Version.minor : Version → Nat
  | .http10 => 0
  | .http11 => 1

@[simp] theorem version_minor (v : Version) : version v.minor = v := by
  cases v <;> rfl

/-- What a valid sender writes is read back, with the slots it needs. -/
structure Httparse.ReadsValid (hp : Httparse) : Prop where
  request : ∀ (method : Method) (target : Bytes) (version : Version)
    (fields : List (Bytes × Bytes)) (slots : Nat) (rest : Bytes),
    target ≠ [] → target.all isAsciiGraphic = true → (∀ field ∈ fields, validField field) →
    fields.length ≤ slots →
    hp.request (requestLine method.asBytes target version ++ fields.flatMap writeField ++ crlf
        ++ rest) slots =
      .ok (some ⟨(requestLine method.asBytes target version ++ fields.flatMap writeField
          ++ crlf).length, method, target, version.minor,
        fieldSpans (requestLine method.asBytes target version).length fields⟩)
  response : ∀ (lenient : Bool) (version : Version) (status : StatusCode) (reason : Bytes)
    (fields : List (Bytes × Bytes)) (slots : Nat) (rest : Bytes),
    reason.all isLineValueByte = true → (∀ field ∈ fields, validField field) →
    fields.length ≤ slots →
    hp.response lenient (statusLineOf version status reason ++ fields.flatMap writeField ++ crlf
        ++ rest) slots =
      .ok (some ⟨(statusLineOf version status reason ++ fields.flatMap writeField
          ++ crlf).length, status.asU16, version.minor,
        fieldSpans (statusLineOf version status reason).length fields⟩)
  headers : ∀ (fields : List (Bytes × Bytes)) (slots : Nat) (rest : Bytes),
    (∀ field ∈ fields, validField field) → fields.length ≤ slots →
    hp.headers (fields.flatMap writeField ++ crlf ++ rest) slots =
      .ok (some ⟨(fields.flatMap writeField ++ crlf).length, fieldSpans 0 fields⟩)

end H11r
