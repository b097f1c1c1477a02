/-!
# `ConnectionState`: the request and response lifecycle

The client and server actors of an exchange, the keep-alive flag and the
pending CONNECT and Upgrade proposals, as `state.rs` has them. An event first
advances one actor (`directTransition`), `processEvent` adds the effects it has
on the other fields, and `stabilize` then runs the joint rules to a fixed
point. A rejected event is `none`: the caller keeps the state it had.

`stabilize` is the source's loop. A pass that changes anything lowers `energy`
(`stabilizePass_energy`), so the loop ends from every state, and two passes are
always enough (`stabilize_eq`), which is the form the finite checks evaluate.
-/

namespace H11r

/-- The client or server actor in an HTTP/1 exchange. -/
inductive Role where
  | client
  | server
  deriving DecidableEq, Repr

def Role.peer : Role → Role
  | .client => .server
  | .server => .client

/-- Observable lifecycle state of one protocol actor. -/
inductive State where
  | idle
  | sendResponse
  | sendBody
  | done
  | mightSwitchProtocol
  | switchedProtocol
  | mustClose
  | closed
  | error
  deriving DecidableEq, Repr

inductive SwitchKind where
  | connect
  | upgrade
  deriving DecidableEq, Repr

/-- CONNECT and Upgrade remain independent until the server decides. -/
structure SwitchProposals where
  connect : Bool
  upgrade : Bool
  deriving DecidableEq, Repr

namespace SwitchProposals

def none : SwitchProposals := ⟨false, false⟩

def contains (proposals : SwitchProposals) : SwitchKind → Bool
  | .connect => proposals.connect
  | .upgrade => proposals.upgrade

def isEmpty (proposals : SwitchProposals) : Bool := !proposals.connect && !proposals.upgrade

end SwitchProposals

/-- Semantic events after message and header validation. -/
inductive StateEvent where
  | request (proposals : SwitchProposals)
  | informationalResponse
  | response
  | data
  | endOfMessage
  | protocolSwitch (kind : SwitchKind)
  | connectionClosed
  deriving DecidableEq, Repr

structure ConnectionState where
  client : State
  server : State
  keepAlive : Bool
  proposals : SwitchProposals
  deriving DecidableEq, Repr

/-! ## Finite checks

A statement about every state, event or pair of them is decided by trying
them all. -/

instance decidableForallRole {p : Role → Prop} [∀ role, Decidable (p role)] : Decidable (∀ role, p role) :=
  decidable_of_iff (p .client ∧ p .server)
    ⟨fun h role => match role with | .client => h.1 | .server => h.2, fun h => ⟨h _, h _⟩⟩

instance decidableForallState {p : State → Prop} [∀ state, Decidable (p state)] : Decidable (∀ state, p state) :=
  decidable_of_iff
    ((p .idle ∧ p .sendResponse ∧ p .sendBody) ∧ (p .done ∧ p .mightSwitchProtocol ∧
      p .switchedProtocol) ∧ (p .mustClose ∧ p .closed ∧ p .error))
    ⟨fun h state => by
      obtain ⟨⟨h1, h2, h3⟩, ⟨h4, h5, h6⟩, h7, h8, h9⟩ := h
      cases state <;> assumption,
     fun h => ⟨⟨h _, h _, h _⟩, ⟨h _, h _, h _⟩, ⟨h _, h _, h _⟩⟩⟩

instance decidableForallProposals {p : SwitchProposals → Prop} [∀ proposals, Decidable (p proposals)] :
    Decidable (∀ proposals, p proposals) :=
  decidable_of_iff (∀ connect upgrade, p ⟨connect, upgrade⟩)
    ⟨fun h proposals => h proposals.connect proposals.upgrade, fun h _ _ => h _⟩

instance decidableForallEvent {p : StateEvent → Prop} [∀ event, Decidable (p event)] : Decidable (∀ event, p event) :=
  decidable_of_iff
    ((∀ proposals, p (.request proposals)) ∧ p .informationalResponse ∧ p .response ∧ p .data ∧
      p .endOfMessage ∧ p (.protocolSwitch .connect) ∧ p (.protocolSwitch .upgrade) ∧
      p .connectionClosed)
    ⟨fun h event => by
      obtain ⟨h1, h2, h3, h4, h5, h6, h7, h8⟩ := h
      cases event with
      | request proposals => exact h1 proposals
      | protocolSwitch kind => cases kind <;> assumption
      | _ => assumption,
     fun h => ⟨fun _ => h _, h _, h _, h _, h _, h _, h _, h _⟩⟩

instance decidableForallConnectionState {p : ConnectionState → Prop} [∀ s, Decidable (p s)] :
    Decidable (∀ s, p s) :=
  decidable_of_iff (∀ client server keepAlive proposals, p ⟨client, server, keepAlive, proposals⟩)
    ⟨fun h s => h s.client s.server s.keepAlive s.proposals, fun h _ _ _ _ => h _⟩

instance decidableForallSome {p : ConnectionState → Prop} [∀ s, Decidable (p s)]
    (value : Option ConnectionState) :
    Decidable (∀ s, value = some s → p s) :=
  match value with
  | none => isTrue (by simp)
  | some s => decidable_of_iff (p s) (by simp)

/-- The event-triggered transition of one actor; `none` rejects the event. -/
def directTransition : Role → State → StateEvent → Option State
  | .client, .idle, .request _ => some .sendBody
  | .client, .idle, .connectionClosed => some .closed
  | .client, .sendBody, .data => some .sendBody
  | .client, .sendBody, .endOfMessage => some .done
  | .client, .done, .connectionClosed => some .closed
  | .client, .mustClose, .connectionClosed => some .closed
  | .client, .closed, .connectionClosed => some .closed
  | .server, .idle, .response => some .sendBody
  | .server, .idle, .connectionClosed => some .closed
  | .server, .sendResponse, .informationalResponse => some .sendResponse
  | .server, .sendResponse, .response => some .sendBody
  | .server, .sendResponse, .protocolSwitch _ => some .switchedProtocol
  | .server, .sendBody, .data => some .sendBody
  | .server, .sendBody, .endOfMessage => some .done
  | .server, .done, .connectionClosed => some .closed
  | .server, .mustClose, .connectionClosed => some .closed
  | .server, .closed, .connectionClosed => some .closed
  | _, _, _ => none

namespace ConnectionState

def new : ConnectionState := ⟨.idle, .idle, true, .none⟩

def state (s : ConnectionState) : Role → State
  | .client => s.client
  | .server => s.server

/-- Replaces the state of one actor. -/
def withState (s : ConnectionState) : Role → State → ConnectionState
  | .client, state => { s with client := state }
  | .server, state => { s with server := state }

/-- A completed request waits for the server's switch decision, which then
ends HTTP or lets the request count as done. -/
def resolveSwitch (s : ConnectionState) : ConnectionState :=
  let s := if s.client = .done ∧ !s.proposals.isEmpty then
    { s with client := .mightSwitchProtocol } else s
  let s :=
    if s.client = .mightSwitchProtocol ∧ s.server = .switchedProtocol then
      { s with client := .switchedProtocol }
    else if s.client = .mightSwitchProtocol ∧ s.proposals.isEmpty then { s with client := .done }
    else s
  if s.client = .switchedProtocol ∧ s.server = .switchedProtocol then
    { s with proposals := .none } else s

/-- Disabled keep-alive affects an actor only after its message ends. -/
def applyKeepAlive (s : ConnectionState) : ConnectionState :=
  if s.keepAlive then s
  else
    let s := if s.client = .done then { s with client := .mustClose } else s
    if s.server = .done then { s with server := .mustClose } else s

/-- Closing or poisoning one actor prevents the peer from starting another
message once its current work is complete. -/
def coupleClose (s : ConnectionState) : ConnectionState :=
  match s.client, s.server with
  | .closed, .done => { s with server := .mustClose }
  | .closed, .idle => { s with server := .mustClose }
  | .error, .done => { s with server := .mustClose }
  | .done, .closed => { s with client := .mustClose }
  | .idle, .closed => { s with client := .mustClose }
  | .done, .error => { s with client := .mustClose }
  | _, _ => s

/-- One turn of the loop in `stabilize`. -/
def stabilizePass (s : ConnectionState) : ConnectionState :=
  s.resolveSwitch.applyKeepAlive.coupleClose

/-- What the joint rules can still use up: a finished client message, the
pending proposals, and each actor that has not yet been told to close. -/
def energy (s : ConnectionState) : Nat :=
  (match s.client, s.proposals.isEmpty with
    | .done, false => 5
    | .mightSwitchProtocol, false => 4
    | .mightSwitchProtocol, true => 3
    | .done, true => 2
    | .idle, _ => 1
    | _, _ => 0)
  + (match s.server with
    | .done => 1
    | .idle => 1
    | _ => 0)
  + (if s.proposals.isEmpty then 0 else 1)

theorem stabilizePass_energy : ∀ s : ConnectionState,
    s.stabilizePass ≠ s → s.stabilizePass.energy < s.energy := by
  decide +kernel

/-- Resolves the coupled rules to a fixed point. -/
def stabilize (s : ConnectionState) : ConnectionState :=
  if _h : s.stabilizePass = s then s else stabilize s.stabilizePass
  termination_by s.energy
  decreasing_by exact stabilizePass_energy s _h

/-- Two passes reach the fixed point from every state. -/
theorem stabilizePass_thrice : ∀ s : ConnectionState,
    s.stabilizePass.stabilizePass.stabilizePass = s.stabilizePass.stabilizePass := by
  decide +kernel

theorem stabilize_eq (s : ConnectionState) : s.stabilize = s.stabilizePass.stabilizePass := by
  have hfix := stabilizePass_thrice s
  rw [stabilize]
  split
  next h1 => rw [h1, h1]
  next h1 =>
    rw [stabilize]
    split
    next h2 => rw [h2]
    next h2 =>
      rw [stabilize, dif_pos hfix]

/-- Applies an event of one actor; `none` leaves the stored state as it was. -/
def processEvent (s : ConnectionState) (role : Role) (event : StateEvent) :
    Option ConnectionState :=
  -- Body data is a self-loop of `SendBody` that the source answers first.
  if event = .data ∧ s.state role = .sendBody then some s
  else
    match directTransition role (s.state role) event with
    | none => none
    | some transitioned =>
      let next? : Option ConnectionState :=
        match role, event with
        | .client, .request proposals =>
          if s.server ≠ .idle then none
          else some { s with proposals := proposals, server := .sendResponse }
        | .server, .protocolSwitch kind => if s.proposals.contains kind then some s else none
        | .server, .response =>
          some { s with
            keepAlive := s.keepAlive && !s.proposals.contains .connect && s.server ≠ .idle
            proposals := .none }
        | _, _ => some s
      next?.map fun next => (next.withState role transitioned).stabilize

def disableKeepAlive (s : ConnectionState) : ConnectionState :=
  { s with keepAlive := false }.stabilize

/-- Disables keep-alive when `reason` holds. -/
def disableKeepAliveIf (reason : Bool) (s : ConnectionState) : ConnectionState :=
  if reason then s.disableKeepAlive else s

/-- A poisoned actor can never complete another message. -/
def processError (s : ConnectionState) (role : Role) : ConnectionState :=
  ({ s with keepAlive := false }.withState role .error).stabilize

def startNextCycle (s : ConnectionState) : Option ConnectionState :=
  if s.client ≠ .done ∨ s.server ≠ .done ∨ !s.keepAlive ∨ !s.proposals.isEmpty then none
  else some new

end ConnectionState

end H11r
