import H11r.Connection.Answer
import H11r.Connection.Inbound
import H11r.Connection.SentFraming
import H11r.Wire.Written

/-!
# The bytes of a message

Between its head and its end a message is written piece by piece, and the calls
that write it come among others: some are refused, and the peer's bytes are
received and polled for in between. `run_writes` says what the writer has made
of the pieces by then, and `message_written` what the whole message is.

`Asking` is the other thing that lasts from a request to its answer: what kind
of request was made.
-/

namespace H11r

open Lib (Call)

/-- An actor that has begun its message does not go back before it within a cycle. -/
theorem Move.begun {peer : Role} {s s' : ConnectionState} (h : Move peer s s') (hclient : s.client ≠ .idle) :
    s'.client ≠ .idle := by
  have hevent : ∀ (role : Role) (event : StateEvent) (s : ConnectionState), s.client ≠ .idle →
      ∀ s', s.processEvent role event = some s' → s'.client ≠ .idle := by
    decide +kernel
  have hother : ∀ s : ConnectionState, s.client ≠ .idle → s.disableKeepAlive.client ≠ .idle ∧
      ∀ role, (s.processError role).client ≠ .idle := by
    decide +kernel
  cases h with
  | event h => exact hevent _ _ s hclient s' h
  | disable => exact (hother s hclient).1
  | poison => exact (hother s hclient).2 peer

namespace Framing

/-- What is written for a piece of body. -/
def write (framing : Framing) (piece : Bytes) : Bytes :=
  match framing with
  | .chunked => if piece = [] then [] else chunkSize piece.length ++ piece ++ crlf
  | _ => piece

/-- What is left of the framing once `count` bytes have been written. -/
def left : Framing → Nat → Framing
  | .fixed remaining, count => .fixed (remaining - count)
  | framing, _ => framing

theorem left_write (framing : Framing) (count : Nat) (piece : Bytes) :
    (framing.left count).write piece = framing.write piece := by
  cases framing <;> rfl

theorem left_left (framing : Framing) (count more : Nat) :
    (framing.left count).left more = framing.left (count + more) := by
  cases framing with
  | fixed remaining =>
    show fixed (remaining - count - more) = fixed (remaining - (count + more))
    rw [Nat.sub_sub]
  | chunked | closeDelimited => rfl

/-- `count` bytes of body may be written. -/
def Holds : Framing → Nat → Prop
  | .fixed remaining, count => count ≤ remaining
  | _, _ => True

end Framing

namespace Connection

variable {hp : Httparse} {c c' start : Connection} {framing : Framing}

/-! ## One piece -/

theorem DataFramed.written {old new : Framing} {around : Bytes × Bytes} {piece : Bytes}
    (h : DataFramed old piece.length new around) :
    new = old.left piece.length ∧ old.Holds piece.length ∧
      around.1 ++ piece ++ around.2 = old.write piece := by
  generalize hlength : piece.length = length at h
  cases h with
  | fixed hle => exact ⟨rfl, hle, List.append_nil _⟩
  | closeDelimited => exact ⟨rfl, trivial, List.append_nil _⟩
  | emptyChunk =>
    have hnil := List.eq_nil_of_length_eq_zero hlength
    subst hnil
    exact ⟨rfl, trivial, rfl⟩
  | chunk hsome =>
    have hne : piece ≠ [] := by
      intro hnil
      rw [hnil] at hlength
      exact hsome hlength.symm
    refine ⟨rfl, trivial, ?_⟩
    unfold Framing.write
    rw [if_neg hne, hlength]

theorem sendData_written {piece bytes : Bytes} (hwriter : c.cycle.writer = some framing)
    (h : sendData piece c = (.ok bytes, c')) :
    c'.cycle.writer = some (framing.left piece.length) ∧ framing.Holds piece.length ∧
      bytes = framing.write piece := by
  obtain ⟨around, hframing, rfl⟩ := sendData_ok h
  obtain ⟨old, new, state, hold, hframed, _, rfl⟩ := sendDataFraming_ok hframing
  rw [hwriter] at hold
  cases hold
  obtain ⟨rfl, hholds, hbytes⟩ := DataFramed.written hframed
  exact ⟨rfl, hholds, hbytes⟩

/-! ## Calls beside the writer -/

/-- A turn of the decoder leaves the writer alone, and what kind of request was
made unless it is the next request that it reads. -/
theorem Turn.keeps {r : Except RemoteProtocolError (Option Polled)} (h : Turn hp c r c') :
    c'.cycle.writer = c.cycle.writer ∧
      (c.state.client ≠ .idle → c'.cycle.requestKind = c.cycle.requestKind) := by
  cases h with
  | request _ _ _ _ _ _ hstate =>
    rw [acceptedRequest_cycle]
    exact ⟨rfl, fun hbegun => absurd (ConnectionState.reuseLaws.request _ _ _ hstate).client hbegun⟩
  | @informational stop response dropped =>
    obtain ⟨hwriter, _, hkind, _⟩ := recordInformational_cycle response.status
      (disableKeepAliveIf (isFaulty ((Fields.scan response.headers).framing response.httpVersion true))
        { (c.disableKeepAliveIf dropped).consumeSection stop with state := _ })
    unfold acceptedInformational
    rw [hwriter, hkind, disableKeepAliveIf_cycle]
    cases dropped <;> exact ⟨rfl, fun _ => rfl⟩
  | @final stop response dropped =>
    rw [acceptedFinal_cycle]
    cases dropped <;> exact ⟨rfl, fun _ => rfl⟩
  | @finalFaulty _ stop response dropped =>
    unfold countedFinal recordResponse
    simp only [disableKeepAliveIf_eq]
    cases dropped <;> exact ⟨rfl, fun _ => rfl⟩
  | @responseRejected _ _ _ dropped => cases dropped <;> exact ⟨rfl, fun _ => rfl⟩
  | payload =>
    obtain ⟨hwriter, _, hkind, _⟩ := advancePayload_cycle c.input.asSlice.length c
    exact ⟨hwriter, fun _ => hkind⟩
  | payloadRejected =>
    obtain ⟨hwriter, _, hkind, _⟩ := advancePayload_cycle c.input.asSlice.length c
    exact ⟨hwriter, fun _ => hkind⟩
  | _ => exact ⟨rfl, fun _ => rfl⟩

theorem nextEvent_writer (hp : Httparse) (c : Connection) :
    (nextEvent hp c).2.cycle.writer = c.cycle.writer := by
  refine Lib.preserve (P := fun c' => c'.cycle.writer = c.cycle.writer) ?_ nextEvent_changes rfl
  intro c1 c2 h hsame
  cases h with
  | turn h => exact h.keeps.1.trans hsame
  | taken => exact hsame
  | failed h => exact h.keeps.1.trans hsame

/-- A call that only receives, or polls, leaves the writer alone. -/
theorem step_receives_writer {op : Op} (hop : op.sends = false) (hcycle : op ≠ .startNextCycle) :
    (step hp op c).2.cycle.writer = c.cycle.writer := by
  cases op with
  | lenient => rfl
  | receiveData data =>
    show (outcome _ (receiveData data c)).2.cycle.writer = _
    rw [outcome_snd]
    unfold receiveData recordEof
    rw [Call.get_bind, Call.failIf_bind]
    split
    · rfl
    · split
      · show (disableKeepAliveIf _ _).cycle.writer = _
        rw [disableKeepAliveIf_cycle]
      · rfl
  | holdBodyData count =>
    show (holdBodyData count c).2.cycle.writer = _
    unfold holdBodyData
    split <;> rfl
  | nextEventInPlace count =>
    show (outcome _ (nextEventInPlace count c)).2.cycle.writer = _
    rw [outcome_snd]
    have hpayload := (advancePayload_cycle count c).1
    rcases hcall : nextEventInPlace count c with ⟨r, c'⟩
    rcases nextEventInPlace_cases hcall with ⟨_, _, _, _, _, rfl⟩ | ⟨_, _, _, rfl⟩ | ⟨_, _, _, _, _, rfl⟩
    · exact hpayload
    · rfl
    · exact hpayload
  | nextEvent =>
    show (pollOutcome (nextEvent hp c)).2.cycle.writer = _
    rw [pollOutcome_snd]
    exact nextEvent_writer hp c
  | startNextCycle => exact absurd rfl hcycle
  | _ => cases hop

/-- The bytes that a call has returned to be written. -/
def Outcome.output : Outcome → Bytes
  | .bytes written => written
  | _ => []

def outputOf (history : List (Op × Outcome)) : Bytes := history.flatMap fun entry => entry.2.output

/-- Nothing is returned to be written by a call that only receives, or polls. -/
theorem step_receives_output {op : Op} (hop : op.sends = false) : (step hp op c).1.output = [] := by
  cases op with
  | lenient | holdBodyData => rfl
  | receiveData data =>
    show (outcome _ (receiveData data c)).1.output = []
    rcases receiveData data c with ⟨error | u, c'⟩ <;> rfl
  | nextEventInPlace count =>
    show (outcome _ (nextEventInPlace count c)).1.output = []
    rcases nextEventInPlace count c with ⟨error | flags, c'⟩ <;> rfl
  | nextEvent =>
    show (pollOutcome (nextEvent hp c)).1.output = []
    rcases nextEvent hp c with ⟨error | next, c'⟩ <;> rfl
  | startNextCycle =>
    show (outcome _ (startNextCycle c)).1.output = []
    rcases startNextCycle c with ⟨error | u, c'⟩ <;> rfl
  | _ => cases hop

/-! ## From a request to its answer -/

/-- A request of this kind has been made, and its cycle is not over. -/
structure Asking (kind : Option RequestKind) (c : Connection) : Prop where
  kind : c.cycle.requestKind = kind
  begun : c.state.client ≠ .idle

theorem Moves.begun {peer : Role} {s s' : ConnectionState} (h : Moves peer s s') (hclient : s.client ≠ .idle) :
    s'.client ≠ .idle :=
  Lib.preserve (P := fun s => s.client ≠ .idle) (fun _ _ hmove => hmove.begun) h hclient

theorem Change.asking {kind : Option RequestKind} (h : Change c c') (hc : c.Asking kind) : c'.Asking kind := by
  have hmoves : Moves .client c.state c'.state := h.moves
  refine ⟨?_, Moves.begun hmoves hc.begun⟩
  cases h with
  | lenient | received | hold => exact hc.kind
  | eof =>
    unfold recordEof
    rw [disableKeepAliveIf_cycle]
    exact hc.kind
  | inPlace => exact (advancePayload_cycle _ c).2.2.1.trans hc.kind
  | inPlaceRefused => exact (advancePayload_cycle _ c).2.2.1.trans hc.kind
  | «local» h =>
    cases h with
    | request _ _ _ hstate =>
      exact absurd (ConnectionState.reuseLaws.request _ _ _ hstate).client hc.begun
    | informational => exact (recordInformational_cycle _ _).2.2.1.trans hc.kind
    | response =>
      rw [sentResponse_cycle]
      exact hc.kind
    | data | ends | closes => exact hc.kind

theorem PollChange.asking {kind : Option RequestKind} (h : PollChange hp c c') (hc : c.Asking kind) :
    c'.Asking kind := by
  have hmoves : Moves c.role.peer c.state c'.state := h.moves
  refine ⟨?_, Moves.begun hmoves hc.begun⟩
  cases h with
  | turn h => exact (h.keeps.2 hc.begun).trans hc.kind
  | taken => exact hc.kind
  | failed h => exact (h.keeps.2 hc.begun).trans hc.kind

/-- A call other than `start_next_cycle`. -/
def staysInCycle (_ : Connection) (op : Op) : Prop := op ≠ .startNextCycle

theorem step_asking {kind : Option RequestKind} {op : Op} (hop : staysInCycle c op) (hc : c.Asking kind) :
    (step hp op c).2.Asking kind := by
  by_cases hpoll : op = .nextEvent
  · subst hpoll
    show (pollOutcome (nextEvent hp c)).2.Asking kind
    rw [pollOutcome_snd]
    exact Lib.preserve (fun _ _ h => h.asking) nextEvent_changes hc
  · exact Lib.preserve (fun _ _ h => h.asking) (step_changes hpoll hop c) hc

/-- Until the next cycle starts it stays known what kind of request was made. -/
theorem run_asking {kind : Option RequestKind} {history : List (Op × Outcome)}
    (h : Lib.Run (step hp) staysInCycle start history c) (hstart : start.Asking kind) : c.Asking kind :=
  Lib.Run.invariant (P := fun c => c.Asking kind) hstart (fun _ _ hc hop => step_asking hop hc) h

/-- A request takes the client into its body. -/
theorem request_begun {s s' : ConnectionState} {proposals : SwitchProposals}
    (h : s.processEvent .client (.request proposals) = some s') (reason : Bool) :
    (s'.disableKeepAliveIf reason).client ≠ .idle := by
  have hbody : s'.state .client = .sendBody := (ConnectionState.phaseLaws.own _ _ _ _ h).2.2.mpr rfl
  intro hidle
  cases hidle.symm.trans (ConnectionState.disableKeepAliveIf_sendBody reason hbody)

/-- A request has been sent. -/
theorem sendRequest_asking {request : Request} {bytes : Bytes} (h : sendRequest request c = (.ok bytes, c')) :
    c'.Asking (some (.fromMethod request.method.asBytes)) := by
  obtain ⟨framing, upgrades, state, _, _, _, hstate, _, rfl⟩ := sendRequest_ok h
  refine ⟨by rw [sentRequest_cycle], ?_⟩
  rw [sentRequest_state]
  exact request_begun hstate _

/-- A request has come. -/
theorem nextEvent_asking {request : Request} (h : nextEvent hp c = (.ok (.event (.request request)), c')) :
    c'.Asking (some (.fromMethod request.method.asBytes)) := by
  rcases nextEvent_event h with ⟨_, _, _, hdata⟩ | hinner
  · cases hdata
  · obtain ⟨c1, _, _, _, hturn⟩ := (nextEventInner_turns hinner).last_turn
    cases hturn with
    | request _ _ _ _ _ _ hstate =>
      refine ⟨by rw [acceptedRequest_cycle], ?_⟩
      rw [acceptedRequest_state]
      exact request_begun hstate _

/-! ## The body of a message -/

/-- The calls that come between the head of a message and its end: pieces of
body, accepted or not, other calls that are refused, and the peer's bytes. -/
def writesBody (hp : Httparse) (c : Connection) (op : Op) : Prop :=
  (∃ piece, op = .sendData piece) ∨ (op.sends = true ∧ ∃ error, (step hp op c).1 = .refused error) ∨
    (op.sends = false ∧ op ≠ .startNextCycle)

/-- The piece of body that a call has sent. -/
def sentPiece : Op × Outcome → List Bytes
  | (.sendData piece, .bytes _) => [piece]
  | _ => []

def sentPieces (history : List (Op × Outcome)) : List Bytes := history.flatMap sentPiece

/-- What the writer has made of the pieces so far. -/
structure Written (framing : Framing) (pieces : List Bytes) (output : Bytes) (c : Connection) : Prop where
  writer : c.cycle.writer = some (framing.left pieces.flatten.length)
  holds : framing.Holds pieces.flatten.length
  output : output = pieces.flatMap framing.write

theorem Written.piece {pieces : List Bytes} {output piece bytes : Bytes}
    (h : Written framing pieces output c) (hsent : sendData piece c = (.ok bytes, c')) :
    Written framing (pieces ++ [piece]) (output ++ bytes) c' := by
  obtain ⟨hwriter, hholds, hbytes⟩ := sendData_written h.writer hsent
  have hlength : (pieces ++ [piece]).flatten.length = pieces.flatten.length + piece.length := by
    rw [List.flatten_append, List.length_append, List.flatten_singleton]
  refine ⟨?_, ?_, ?_⟩
  · rw [hwriter, Framing.left_left, hlength]
  · rw [hlength]
    have hbefore := h.holds
    cases framing with
    | fixed remaining =>
      change pieces.flatten.length ≤ remaining at hbefore
      change piece.length ≤ remaining - pieces.flatten.length at hholds
      show pieces.flatten.length + piece.length ≤ remaining
      omega
    | chunked | closeDelimited => trivial
  · rw [List.flatMap_append, List.flatMap_singleton, ← h.output, hbytes, Framing.left_write]

theorem Written.step {pieces : List Bytes} {output : Bytes} (h : Written framing pieces output c) {op : Op}
    (hop : writesBody hp c op) :
    Written framing (pieces ++ sentPiece (op, (Connection.step hp op c).1))
      (output ++ (Connection.step hp op c).1.output) (Connection.step hp op c).2 := by
  have hsame : ∀ (c' : Connection) (outcome : Outcome), c'.cycle.writer = c.cycle.writer →
      outcome.output = [] → sentPiece (op, outcome) = [] →
      Written framing (pieces ++ sentPiece (op, outcome)) (output ++ outcome.output) c' := by
    intro c' outcome hwriter houtput hpiece
    rw [houtput, hpiece, List.append_nil, List.append_nil]
    exact ⟨hwriter.trans h.writer, h.holds, h.output⟩
  rcases hop with ⟨piece, rfl⟩ | ⟨hsends, error, hrefused⟩ | ⟨hreceives, hcycle⟩
  · rcases hcall : sendData piece c with ⟨error | bytes, c'⟩
    · have hc : c' = c := sendData_atomic _ _ _ _ hcall
      subst hc
      have hstep : Connection.step hp (.sendData piece) c' = (.refused error, c') := by
        show outcome _ (sendData piece c') = _
        rw [hcall]
        rfl
      rw [hstep]
      exact hsame _ (.refused error) rfl rfl rfl
    · have hstep : Connection.step hp (.sendData piece) c = (.bytes bytes, c') := by
        show outcome _ (sendData piece c) = _
        rw [hcall]
        rfl
      rw [hstep]
      show Written framing (pieces ++ [piece]) (output ++ bytes) c'
      exact h.piece hcall
  · -- A sending call that is refused changes nothing.
    rw [step_sends_refused hsends hrefused, hrefused]
    refine hsame _ _ rfl rfl ?_
    cases op <;> rfl
  · refine hsame _ _ (step_receives_writer hreceives hcycle) ?_ ?_
    · exact step_receives_output hreceives
    · cases op with
      | sendData => cases hreceives
      | _ => rfl

theorem run_writes {history : List (Op × Outcome)} (hwriter : start.cycle.writer = some framing)
    (h : Lib.Run (step hp) (writesBody hp) start history c) :
    Written framing (sentPieces history) (outputOf history) c := by
  refine Lib.Run.invariant_history
    (P := fun history c => Written framing (sentPieces history) (outputOf history) c) ?_ ?_ h
  · have hholds : framing.Holds 0 := by
      cases framing with
      | fixed remaining => exact Nat.zero_le _
      | chunked | closeDelimited => trivial
    refine ⟨?_, hholds, rfl⟩
    rw [hwriter]
    cases framing <;> rfl
  · intro history c op hwritten hop
    have hnext := hwritten.step hop
    unfold sentPieces outputOf at hnext ⊢
    rw [List.flatMap_append, List.flatMap_append, List.flatMap_singleton, List.flatMap_singleton]
    exact hnext

/-! ## The whole message -/

/-- `BodyText framing pieces trailers text`: a message with this framing, these
pieces of body and these trailers is `text` behind its head. -/
inductive BodyText : Framing → List Bytes → Headers → Bytes → Prop
  | fixed {pieces : List Bytes} {trailers : Headers} (h : trailers.iter = []) :
      BodyText (.fixed pieces.flatten.length) pieces trailers pieces.flatten
  | closeDelimited {pieces : List Bytes} {trailers : Headers} (h : trailers.iter = []) :
      BodyText .closeDelimited pieces trailers pieces.flatten
  | chunked (pieces : List Bytes) (trailers : Headers) :
      BodyText .chunked pieces trailers (writeChunks (pieces.filter (· ≠ [])) ++
        (ascii "0" ++ (crlf ++ (writeHeaders trailers ++ crlf))))

theorem flatMap_write_plain {pieces : List Bytes} (h : framing ≠ .chunked) :
    pieces.flatMap framing.write = pieces.flatten := by
  have hwrite : framing.write = id := by
    funext piece
    cases framing with
    | chunked => exact absurd rfl h
    | fixed | closeDelimited => rfl
  rw [hwrite, List.flatMap_id]

theorem flatMap_write_chunked (pieces : List Bytes) :
    pieces.flatMap Framing.chunked.write = writeChunks (pieces.filter (· ≠ [])) := by
  unfold writeChunks
  induction pieces with
  | nil => rfl
  | cons piece pieces ih =>
    rw [List.flatMap_cons, ih]
    by_cases hnil : piece = []
    · subst hnil
      rfl
    · rw [List.filter_cons_of_pos (by simpa using hnil), List.flatMap_cons]
      unfold Framing.write
      rw [if_neg hnil]

/-- From the head on to an accepted `end_of_message`, the bytes that the caller
is given to write are the message. -/
theorem message_written {history : List (Op × Outcome)} {trailers : Headers} {last : Bytes}
    (hwriter : start.cycle.writer = some framing)
    (h : Lib.Run (step hp) (writesBody hp) start history c)
    (hend : endOfMessage trailers c = (.ok last, c')) :
    (∀ field ∈ trailers.iter, validField field) ∧
      BodyText framing (sentPieces history) trailers (outputOf history ++ last) := by
  obtain ⟨hwritten, hholds, houtput⟩ := run_writes hwriter h
  obtain ⟨old, state, hvalid, hold, hframed, _, rfl⟩ := endOfMessage_ok hend
  rw [hwritten] at hold
  have hvalid' := validateHeaders_iff.mp (validateTrailers_headers hvalid)
  refine ⟨hvalid', ?_⟩
  have hempty : trailers.isEmpty = true → trailers.iter = [] := by
    rw [Headers.isEmpty_eq]
    exact List.isEmpty_iff.mp
  rw [houtput]
  cases framing with
  | fixed remaining =>
    have hleft : old = .fixed (remaining - (sentPieces history).flatten.length) := (Option.some.inj hold).symm
    subst hleft
    generalize hzero : remaining - (sentPieces history).flatten.length = rest at hframed
    cases hframed with
    | fixed hnone =>
      change (sentPieces history).flatten.length ≤ remaining at hholds
      have hall : remaining = (sentPieces history).flatten.length := by omega
      have hplain : Framing.fixed remaining ≠ .chunked := nofun
      rw [flatMap_write_plain hplain, List.append_nil, hall]
      exact .fixed (hempty hnone)
  | closeDelimited =>
    have hleft : old = .closeDelimited := (Option.some.inj hold).symm
    subst hleft
    cases hframed with
    | closeDelimited hnone =>
      have hplain : Framing.closeDelimited ≠ .chunked := nofun
      rw [flatMap_write_plain hplain, List.append_nil]
      exact .closeDelimited (hempty hnone)
  | chunked =>
    have hleft : old = .chunked := (Option.some.inj hold).symm
    subst hleft
    cases hframed with
    | chunked =>
      rw [flatMap_write_chunked]
      have hlast : ascii "0" ++ crlf ++ writeHeaders trailers ++ crlf =
          ascii "0" ++ (crlf ++ (writeHeaders trailers ++ crlf)) := by
        simp only [List.append_assoc]
      rw [hlast]
      exact .chunked _ _

end Connection

end H11r
