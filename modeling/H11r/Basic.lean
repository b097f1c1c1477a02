import H11r.Wire.Bytes

/-!
# Values and errors of the public interface

The value types of `lib.rs`, `method.rs` and `status.rs`. A type whose
constructor checks its argument carries the check as a field: a `Method` is a
non-empty token, a `StatusCode` lies in `100..=599`, `Limits` are not zero.
-/

namespace H11r

/-- HTTP protocol version carried by a request or response head. -/
inductive Version where
  | http10
  | http11
  deriving DecidableEq, Repr

/-- `Version::wire`. -/
def Version.wire : Version → Bytes
  | .http10 => ascii "1.0"
  | .http11 => ascii "1.1"

/-- A request method: any non-empty token, case-sensitive. -/
structure Method where
  asBytes : Bytes
  token : asBytes ≠ [] ∧ asBytes.all isTokenByte = true
  deriving DecidableEq

def Method.fromBytes (value : Bytes) : Option Method :=
  if h : value ≠ [] ∧ value.all isTokenByte = true then some ⟨value, h⟩ else none

namespace Method

def get : Method := ⟨ascii "GET", by decide⟩
def head : Method := ⟨ascii "HEAD", by decide⟩
def post : Method := ⟨ascii "POST", by decide⟩
def put : Method := ⟨ascii "PUT", by decide⟩
def connect : Method := ⟨ascii "CONNECT", by decide⟩
def options : Method := ⟨ascii "OPTIONS", by decide⟩
def trace : Method := ⟨ascii "TRACE", by decide⟩
def patch : Method := ⟨ascii "PATCH", by decide⟩

end Method

/-- A status code in the protocol-valid range. -/
structure StatusCode where
  asU16 : Nat
  range : 100 ≤ asU16 ∧ asU16 ≤ 599
  deriving DecidableEq

namespace StatusCode

def fromU16 (value : Nat) : Option StatusCode :=
  if h : 100 ≤ value ∧ value ≤ 599 then some ⟨value, h⟩ else none

def isInformational (status : StatusCode) : Bool := status.asU16 < 200

def isSuccess (status : StatusCode) : Bool := 200 ≤ status.asU16 && status.asU16 < 300

end StatusCode

/-- Inbound limits, which `Limits::new` refuses to make zero. -/
structure Limits where
  maxHeadBytes : Nat
  maxHeaderCount : Nat
  head_pos : 0 < maxHeadBytes
  count_pos : 0 < maxHeaderCount

/-- Creates non-zero limits. -/
def Limits.new (head headers : Nat) : Option Limits :=
  if h : 0 < head ∧ 0 < headers then some ⟨head, headers, h.1, h.2⟩ else none

/-- `Limits::default`. -/
def Limits.default : Limits := ⟨64 * 1024, 100, by decide, by decide⟩

/-- The caller attempted an operation forbidden by the local state or framing. -/
structure LocalProtocolError where
  message : String
  deriving DecidableEq, Repr

/-- The peer sent malformed HTTP or exceeded an inbound limit. -/
structure RemoteProtocolError where
  message : String
  suggestedStatusCode : Option Nat
  deriving DecidableEq, Repr

/-- `wire::local`. -/
def localError (message : String) : LocalProtocolError := ⟨message⟩

/-- `wire::remote`. -/
def remoteError (message : String) (status : Option Nat) : RemoteProtocolError :=
  ⟨message, status⟩

/-- `Option::ok_or`. -/
def okOr {α ε : Type} (value : Option α) (error : ε) : Except ε α :=
  match value with
  | some a => .ok a
  | none => .error error

theorem okOr_eq_ok {α ε : Type} {value : Option α} {error : ε} {a : α} :
    okOr value error = .ok a ↔ value = some a := by
  cases value <;> simp [okOr]

end H11r
