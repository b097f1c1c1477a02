import H11r.Lib.Call
import H11r.State
import H11r.Wire.Chunked

/-!
# `Connection`: one Sans-I/O HTTP/1 connection

`connection/mod.rs`: the fields of a connection, what it reports of them, and
the steps its send and receive methods share. A method is a `Lib.Call` on the
connection, so that a failed method also says which connection it leaves
behind; nothing is restored unless the source restores it.
-/

namespace H11r

open Lib (Call)

inductive RequestKind where
  | other
  | head
  | connect
  deriving DecidableEq, Repr

def RequestKind.fromMethod (method : Bytes) : RequestKind :=
  if method == ascii "HEAD" then .head
  else if method == ascii "CONNECT" then .connect
  else .other

/-- State scoped to one request/response cycle, reset by `start_next_cycle`. -/
structure Cycle where
  progress : SectionProgress
  reader : Reader
  writer : Option Framing
  chunkExtensionBytes : Nat
  requestKind : Option RequestKind
  upgradeProposals : List Bytes
  waitingForContinue : Bool
  continueBeforeUpgrade : Bool
  deriving DecidableEq, Repr

/-- `Cycle::default`. -/
def Cycle.new : Cycle := ⟨.new, .head, none, 0, none, [], false, false⟩

structure Connection where
  role : Role
  state : ConnectionState
  limits : Limits
  lenient : Bool
  input : Buffer
  /-- Body bytes the caller holds in place of `input`, which precede it. -/
  held : Nat
  eof : Bool
  peerVersion : Option Version
  cycle : Cycle

/-- A method that can fail because of what its caller asked for. -/
abbrev LocalCall := Call Connection LocalProtocolError

/-- A step that can fail because of what the peer sent. -/
abbrev RemoteCall := Call Connection RemoteProtocolError

namespace Connection

/-- Creates an idle connection with independent inbound limits. -/
def new (role : Role) (limits : Limits) : Connection :=
  ⟨role, .new, limits, false, .empty, 0, false, none, .new⟩

/-- `Connection::lenient`. -/
def toLenient (c : Connection) : Connection := { c with lenient := true }

def localState (c : Connection) : State := c.state.state c.role

def peerState (c : Connection) : State := c.state.state c.role.peer

/-- The states after which an actor takes no part in another exchange. -/
def stopsReuse : State → Bool
  | .mustClose | .closed | .error | .switchedProtocol => true
  | _ => false

/-- Whether HTTP may continue on this connection after the current exchange. -/
def keepAlive (c : Connection) : Bool :=
  c.state.keepAlive && !stopsReuse c.localState && !stopsReuse c.peerState

def clientIsWaitingFor100Continue (c : Connection) : Bool := c.cycle.waitingForContinue

/-- Bytes of a pipelined message or switched protocol, and whether EOF was
received. -/
def trailingData (c : Connection) : Bytes × Bool := (c.input.asSlice, c.eof)

def requestIs (c : Connection) (kind : RequestKind) : Bool := c.cycle.requestKind == some kind

/-- Whether a final response with `status` turns a CONNECT into a tunnel. -/
def opensTunnel (c : Connection) (status : StatusCode) : Bool :=
  c.requestIs .connect && status.isSuccess

/-- These final responses have no content, whatever framing fields they carry. -/
def responseHasNoBody (c : Connection) (status : StatusCode) : Bool :=
  status.asU16 == 204 || status.asU16 == 304 || c.requestIs .head || c.opensTunnel status

/-- The event for a final response: CONNECT success switches protocols. -/
def finalResponseEvent (c : Connection) (status : StatusCode) : StateEvent :=
  if c.opensTunnel status then .protocolSwitch .connect else .response

/-- A 101 selects only protocols that the request offered. -/
def validUpgradeResponse (c : Connection) (version : Version) (headers : Headers) : Bool :=
  version == .http11 && hasToken headers (ascii "connection") (ascii "upgrade") &&
    (upgradeProtocols headers).any fun selected =>
      !selected.isEmpty && selected.all fun protocol =>
        c.cycle.upgradeProposals.any fun offered => protocolMatches offered protocol

/-- The event for a 1xx response, or `none` for a 101 that does not select an
offered upgrade. -/
def informationalEvent (c : Connection) (status : StatusCode) (version : Version)
    (headers : Headers) : Option StateEvent :=
  if status.asU16 ≠ 101 then some .informationalResponse
  else if !c.cycle.continueBeforeUpgrade && c.validUpgradeResponse version headers then
    some (.protocolSwitch .upgrade)
  else none

/-- Updates the part of the connection that `start_next_cycle` resets. -/
def mapCycle (f : Cycle → Cycle) (c : Connection) : Connection := { c with cycle := f c.cycle }

/-- Makes the connection unusable for another exchange. -/
def disableKeepAlive (c : Connection) : Connection :=
  { c with state := c.state.disableKeepAlive }

/-- Disables keep-alive when `reason` holds. -/
def disableKeepAliveIf (reason : Bool) (c : Connection) : Connection :=
  if reason then c.disableKeepAlive else c

theorem disableKeepAliveIf_eq (reason : Bool) (c : Connection) : c.disableKeepAliveIf reason =
    { c with state := c.state.disableKeepAliveIf reason } := by
  cases reason <;> rfl

@[simp] theorem disableKeepAliveIf_state (reason : Bool) (c : Connection) :
    (c.disableKeepAliveIf reason).state = c.state.disableKeepAliveIf reason := by
  cases reason <;> rfl

@[simp] theorem disableKeepAliveIf_role (reason : Bool) (c : Connection) :
    (c.disableKeepAliveIf reason).role = c.role := by
  cases reason <;> rfl

@[simp] theorem disableKeepAliveIf_cycle (reason : Bool) (c : Connection) :
    (c.disableKeepAliveIf reason).cycle = c.cycle := by
  cases reason <;> rfl

@[simp] theorem disableKeepAliveIf_input (reason : Bool) (c : Connection) :
    (c.disableKeepAliveIf reason).input = c.input := by
  cases reason <;> rfl

@[simp] theorem disableKeepAliveIf_held (reason : Bool) (c : Connection) :
    (c.disableKeepAliveIf reason).held = c.held := by
  cases reason <;> rfl

@[simp] theorem disableKeepAliveIf_eof (reason : Bool) (c : Connection) :
    (c.disableKeepAliveIf reason).eof = c.eof := by
  cases reason <;> rfl

@[simp] theorem disableKeepAliveIf_limits (reason : Bool) (c : Connection) :
    (c.disableKeepAliveIf reason).limits = c.limits := by
  cases reason <;> rfl

def recordRequest (method : Method) (version : Version) (fields : Fields) (framing : Framing)
    (upgrades : List Bytes) (c : Connection) : Connection :=
  (c.disableKeepAliveIf !(fields.persistent version)).mapCycle fun cycle =>
    { cycle with
      requestKind := some (RequestKind.fromMethod method.asBytes)
      waitingForContinue := fields.expectsContinue version framing
      continueBeforeUpgrade := fields.expectsContinue version framing && !upgrades.isEmpty
      upgradeProposals := upgrades }

def recordInformational (status : StatusCode) (c : Connection) : Connection :=
  if status.asU16 = 100 then
    c.mapCycle fun cycle =>
      { cycle with waitingForContinue := false, continueBeforeUpgrade := false }
  else c

def recordResponse (c : Connection) : Connection :=
  c.mapCycle fun cycle =>
    { cycle with
      waitingForContinue := false
      continueBeforeUpgrade := false
      upgradeProposals := [] }

/-- Reports an event of the peer to the state machine. -/
def advancePeer (event : StateEvent) : RemoteCall Unit := fun c =>
  match c.state.processEvent c.role.peer event with
  | some state => (.ok (), { c with state := state })
  | none => (.error (remoteError "event is invalid in the peer state" (some 400)), c)

/-- Reports an event of the local actor to the state machine. -/
def advanceLocal (event : StateEvent) : LocalCall Unit := fun c =>
  match c.state.processEvent c.role event with
  | some state => (.ok (), { c with state := state })
  | none => (.error (localError "event is invalid in the local state"), c)

/-- Resets a completed exchange, including to drain messages buffered before
EOF. A client refuses, and disables keep-alive, when peer bytes follow the
complete response. -/
def startNextCycle : LocalCall Unit := fun c =>
  if c.role = .client ∧ c.peerState = .done ∧ c.input.asSlice ≠ [] then
    (.error (localError "unsolicited bytes follow the response; the connection is not reusable"),
      c.disableKeepAlive)
  else
    match c.state.startNextCycle with
    | none => (.error (localError "connection is not reusable"), c)
    | some state => (.ok (), { c with state := state, cycle := .new })

/-- Marks the local protocol actor as closed. -/
def close : LocalCall Unit := do
  advanceLocal .connectionClosed
  Call.modify (mapCycle fun cycle => { cycle with writer := none })

end Connection

/-- The event that starts a request, proposing any switch it offers. -/
def requestEvent (method : Method) (upgrades : List Bytes) : StateEvent :=
  .request ⟨method == .connect, !upgrades.isEmpty⟩

/-- CONNECT and TRACE requests have no content. -/
def contentForbidden (method : Method) (framing : Framing) : Bool :=
  framing != .fixed 0 && [Method.connect, Method.trace].contains method

/-- `map_err(|error| local(error.message))`. -/
def toLocal {α : Type} : Except RemoteProtocolError α → Except LocalProtocolError α
  | .ok value => .ok value
  | .error error => .error (localError error.message)

end H11r
