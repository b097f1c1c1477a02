import H11r.Connection.Layers
import H11r.Connection.Lead
import H11r.Wire.Prefix

/-!
# A connection and the one that has everything

`Whole rest c f` says that `f` is `c` once the bytes `rest` have come as well,
and the end of the input after them. `f` has forgotten how far `c` has scanned
its buffer: with the end of the input there, every section is parsed as it is,
and a size line is looked for from its start.

The steps of the decoder do not notice the difference, as far as they do not
look at the end of the buffer. On a client the end of the input has turned the
keep-alive flag off; `ConnectionState.SettledLaws.commutes` says that it does
not matter when that happens.
-/

namespace H11r

open Lib (Call)

/-! ## When keep-alive is turned off -/

namespace ConnectionState

/-- No joint rule applies: the state is one that `stabilize` leaves. -/
def Settled (s : ConnectionState) : Prop := s.stabilize = s

theorem settled_iff (s : ConnectionState) : s.Settled ↔ s.stabilizePass = s := by
  have hfix := stabilizePass_thrice s
  unfold Settled
  rw [stabilize_eq]
  constructor
  · intro h
    rw [h] at hfix
    exact hfix
  · intro h
    rw [h, h]

instance (s : ConnectionState) : Decidable s.Settled := decidable_of_iff _ (settled_iff s).symm

theorem stabilize_settled (s : ConnectionState) : s.stabilize.Settled := by
  rw [settled_iff, stabilize_eq]
  exact stabilizePass_thrice s

theorem Settled.event {s s' : ConnectionState} {role : Role} {event : StateEvent} (hs : s.Settled)
    (h : s.processEvent role event = some s') : s'.Settled := by
  unfold processEvent at h
  split at h
  · cases h
    exact hs
  · split at h
    · cases h
    · obtain ⟨next, _, rfl⟩ := Option.map_eq_some_iff.mp h
      exact stabilize_settled _

/-- What turning keep-alive off does to a settled state, and when. -/
structure SettledLaws : Prop where
  /-- Before an event of the server or after it. -/
  commutes : ∀ (event : StateEvent) (s : ConnectionState), s.Settled →
    s.disableKeepAlive.processEvent .server event =
      (s.processEvent .server event).map disableKeepAlive
  idle : ∀ s : ConnectionState, s.Settled → (s.disableKeepAlive.client = .idle ↔ s.client = .idle)
  server : ∀ s : ConnectionState, s.Settled → s.disableKeepAlive.server = s.server ∨
    s.server = .done ∧ s.disableKeepAlive.server = .mustClose

theorem settledLaws : SettledLaws where
  commutes := by decide +kernel
  idle := by decide +kernel
  server := by decide +kernel

theorem Settled.disableIf {s : ConnectionState} (h : s.Settled) (reason : Bool) :
    (s.disableKeepAliveIf reason).Settled := by
  cases reason with
  | false => exact h
  | true => exact stabilize_settled _

/-- Reasons to turn keep-alive off may come in any order. -/
theorem disableIf_comm (s : ConnectionState) (reason other : Bool) :
    (s.disableKeepAliveIf reason).disableKeepAliveIf other =
      (s.disableKeepAliveIf other).disableKeepAliveIf reason := by
  cases reason <;> cases other <;> rfl

theorem processEvent_disableIf {s : ConnectionState} (h : s.Settled) (role : Role) (event : StateEvent)
    {closing : Bool} (hclosing : closing = true → role = .server) :
    (s.disableKeepAliveIf closing).processEvent role event =
      (s.processEvent role event).map (disableKeepAliveIf closing) := by
  cases closing with
  | false =>
    show s.processEvent role event = (s.processEvent role event).map id
    rw [Option.map_id, id]
  | true =>
    rw [hclosing rfl]
    exact settledLaws.commutes event s h

end ConnectionState

/-! ## The relation -/

/-- A reader that has not looked at its buffer. -/
def Reader.unscanned : Reader → Reader
  | .chunked (.size _) => .chunked (.size 0)
  | reader => reader

theorem Reader.unscanned_of_framing (framing : Framing) :
    (H11r.reader framing).unscanned = H11r.reader framing := by
  cases framing <;> rfl

/-- Payload is not scanned. -/
theorem Reader.Room.unscanned {reader : Reader} {count : Nat} (h : reader.Room count) :
    reader.unscanned = reader ∧ (reader.after count).unscanned = reader.after count := by
  cases reader with
  | head => exact h.elim
  | fixed | closeDelimited => exact ⟨rfl, rfl⟩
  | chunked chunk =>
    cases chunk with
    | size | dataEnd | trailers => exact h.elim
    | data remaining first =>
      by_cases hcount : count = 0
      · subst hcount
        rw [Reader.after_zero]
        exact ⟨rfl, rfl⟩
      · rw [Reader.after_data first hcount]
        by_cases hend : count = remaining
        · rw [if_pos hend]
          exact ⟨rfl, rfl⟩
        · rw [if_neg hend]
          exact ⟨rfl, rfl⟩

namespace Connection

/-- The end of the input will turn the keep-alive flag off. -/
def closing (c : Connection) : Bool := !c.eof && c.role == .client

/-- `f` is `c` with `rest` behind its bytes, and the end of the input. -/
def Whole (rest : Bytes) (c f : Connection) : Prop :=
  c.state.Settled ∧ (c.eof = true → rest = []) ∧
    ∃ (buffer : Buffer) (progress : SectionProgress), buffer.asSlice = c.input.asSlice ++ rest ∧
      f = { c with
        input := buffer
        eof := true
        state := c.state.disableKeepAliveIf c.closing
        cycle := { c.cycle with progress := progress, reader := c.cycle.reader.unscanned } }

variable {hp : Httparse} {rest : Bytes} {c f : Connection}

namespace Whole

theorem settled (h : Whole rest c f) : c.state.Settled := h.1

theorem slice (h : Whole rest c f) : f.input.asSlice = c.input.asSlice ++ rest := by
  obtain ⟨_, _, buffer, progress, hbuffer, rfl⟩ := h
  exact hbuffer

theorem eof (h : Whole rest c f) : f.eof = true := by
  obtain ⟨_, _, buffer, progress, hbuffer, rfl⟩ := h
  rfl

theorem limits (h : Whole rest c f) : f.limits = c.limits := by
  obtain ⟨_, _, buffer, progress, hbuffer, rfl⟩ := h
  rfl

theorem role (h : Whole rest c f) : f.role = c.role := by
  obtain ⟨_, _, buffer, progress, hbuffer, rfl⟩ := h
  rfl

theorem lenient (h : Whole rest c f) : f.lenient = c.lenient := by
  obtain ⟨_, _, buffer, progress, hbuffer, rfl⟩ := h
  rfl

/-- After the end of the input both have the same bytes. -/
theorem slice_of_eof (h : Whole rest c f) (heof : c.eof = true) :
    f.input.asSlice = c.input.asSlice := by
  rw [h.slice, h.2.1 heof, List.append_nil]

theorem headSection (h : Whole rest c f) :
    f.headSection = c.headSection ++ rest.take (c.limits.maxHeadBytes - c.input.asSlice.length) := by
  unfold Connection.headSection
  rw [h.slice, h.limits, List.take_append]

/-- Where nothing is missing the sections are the same. -/
theorem headSection_eq (h : Whole rest c f)
    (hall : ¬(c.input.asSlice.length ≤ c.limits.maxHeadBytes ∧ c.eof = false)) :
    f.headSection = c.headSection := by
  rw [h.headSection]
  by_cases heof : c.eof = true
  · rw [h.2.1 heof, List.take_nil, List.append_nil]
  · have hlong : ¬c.input.asSlice.length ≤ c.limits.maxHeadBytes := fun hle => hall ⟨hle, by simpa using heof⟩
    rw [Nat.sub_eq_zero_of_le (by omega), List.take_zero, List.append_nil]

theorem reader (h : Whole rest c f) : f.cycle.reader = c.cycle.reader.unscanned := by
  obtain ⟨_, _, buffer, progress, hbuffer, rfl⟩ := h
  rfl

theorem setVersion (h : Whole rest c f) (version : Option Version) :
    Whole rest { c with peerVersion := version } { f with peerVersion := version } := by
  obtain ⟨hsettled, heof, buffer, progress, hbuffer, rfl⟩ := h
  exact ⟨hsettled, heof, buffer, progress, hbuffer, rfl⟩

theorem disableIf (h : Whole rest c f) (reason : Bool) :
    Whole rest (c.disableKeepAliveIf reason) (f.disableKeepAliveIf reason) := by
  obtain ⟨hsettled, heof, buffer, progress, hbuffer, rfl⟩ := h
  rw [disableKeepAliveIf_eq, disableKeepAliveIf_eq]
  refine ⟨hsettled.disableIf reason, heof, buffer, progress, hbuffer, ?_⟩
  dsimp only
  rw [ConnectionState.disableIf_comm]
  rfl

/-- A change of the cycle that does not look at the notes about the buffer. -/
theorem mapCycle (h : Whole rest c f) {g : Cycle → Cycle}
    (hg : ∀ (cycle : Cycle) (progress : SectionProgress), ∃ progress',
      g { cycle with progress := progress, reader := cycle.reader.unscanned } =
        { g cycle with progress := progress', reader := (g cycle).reader.unscanned }) :
    Whole rest (c.mapCycle g) (f.mapCycle g) := by
  obtain ⟨hsettled, heof, buffer, progress, hbuffer, rfl⟩ := h
  obtain ⟨progress', hprogress⟩ := hg c.cycle progress
  refine ⟨hsettled, heof, buffer, progress', hbuffer, ?_⟩
  unfold Connection.mapCycle
  dsimp only
  rw [hprogress]
  rfl

theorem setReader (h : Whole rest c f) {reader : Reader} (hreader : reader.unscanned = reader) :
    Whole rest (c.setReader reader) (f.setReader reader) := by
  refine h.mapCycle fun cycle progress => ⟨progress, ?_⟩
  dsimp only
  rw [hreader]

theorem consume (h : Whole rest c f) {count : Nat} (hcount : count ≤ c.input.asSlice.length) :
    Whole rest { c with input := c.input.consume count } { f with input := f.input.consume count } := by
  obtain ⟨hsettled, heof, buffer, progress, hbuffer, rfl⟩ := h
  refine ⟨hsettled, heof, buffer.consume count, progress, ?_, rfl⟩
  rw [Buffer.asSlice_consume, Buffer.asSlice_consume, hbuffer, List.drop_append_of_le_length hcount]

theorem consumeSection (h : Whole rest c f) {count : Nat} (hcount : count ≤ c.input.asSlice.length) :
    Whole rest (c.consumeSection count) (f.consumeSection count) :=
  (h.consume hcount).mapCycle fun _ _ => ⟨.new, rfl⟩

/-- Payload that both deliver. -/
theorem ahead (h : Whole rest c f) {count : Nat} (hcount : count ≤ c.input.asSlice.length)
    (hroom : c.cycle.reader.Room count) :
    Whole rest (c.ahead count (c.input.consume count) c.held)
      (f.ahead count (f.input.consume count) f.held) := by
  obtain ⟨hsettled, heof, buffer, progress, hbuffer, rfl⟩ := h
  obtain ⟨hreader, hafter⟩ := hroom.unscanned
  refine ⟨hsettled, heof, buffer.consume count, progress, ?_, ?_⟩
  · show (buffer.consume count).asSlice = (c.input.consume count).asSlice ++ rest
    rw [Buffer.asSlice_consume, Buffer.asSlice_consume, hbuffer, List.drop_append_of_le_length hcount]
  · unfold Connection.ahead
    dsimp only
    rw [hreader, hafter]
    rfl

/-- What `c` has scanned is forgotten. -/
theorem rescan (h : Whole rest c f) (progress : SectionProgress) {reader : Reader}
    (hreader : SameReader c.cycle.reader reader) :
    Whole rest (c.rescan progress reader c.cycle.chunkExtensionBytes) f := by
  obtain ⟨hsettled, heof, buffer, noted, hbuffer, rfl⟩ := h
  refine ⟨hsettled, heof, buffer, noted, hbuffer, ?_⟩
  have hsame : c.cycle.reader.unscanned = reader.unscanned := by
    rcases hreader with rfl | ⟨scanned, scanned', hold, rfl⟩
    · rfl
    · rw [hold]
      rfl
  rw [hsame]
  rfl

theorem localIdle (h : Whole rest c f) (hrole : c.role = .client) :
    c.localState = .idle ↔ f.localState = .idle := by
  obtain ⟨hsettled, heof, buffer, progress, hbuffer, rfl⟩ := h
  unfold localState
  dsimp only
  rw [hrole]
  show c.state.client = .idle ↔ (c.state.disableKeepAliveIf c.closing).client = .idle
  cases c.closing with
  | false => exact Iff.rfl
  | true => exact (ConnectionState.settledLaws.idle c.state hsettled).symm

/-- The peer is where it is, or done and will not go on. -/
theorem peerState (h : Whole rest c f) : f.peerState = c.peerState ∨
    c.peerState = .done ∧ f.peerState = .mustClose := by
  obtain ⟨hsettled, heof, buffer, progress, hbuffer, rfl⟩ := h
  unfold Connection.peerState
  dsimp only
  cases hclosing : c.closing with
  | false => exact Or.inl rfl
  | true =>
    have hrole : c.role = .client := by
      unfold closing at hclosing
      simp only [Bool.and_eq_true, beq_iff_eq] at hclosing
      exact hclosing.2
    rw [hrole]
    exact ConnectionState.settledLaws.server c.state hsettled

theorem inside (h : Whole rest c f) (hinside : c.Inside) :
    f.Inside ∧ f.cycle.reader = c.cycle.reader := by
  obtain ⟨hpeer, hroom⟩ := hinside
  have hreader : f.cycle.reader = c.cycle.reader := h.reader.trans hroom.unscanned.1
  refine ⟨⟨?_, by rw [hreader]; exact hroom⟩, hreader⟩
  rcases h.peerState with hsame | ⟨hdone, _⟩
  · exact hsame.trans hpeer
  · cases hpeer.symm.trans hdone

end Whole

/-! ## The steps that do not look at the end of the buffer -/

theorem advancePeer_whole (h : Whole rest c f) (event : StateEvent) :
    Call.Alike (Whole rest) c f (advancePeer event) (advancePeer event) := by
  have hsame := h
  obtain ⟨hsettled, heof, buffer, progress, hbuffer, rfl⟩ := h
  have hclosing : c.closing = true → c.role.peer = .server := by
    intro hclosing
    unfold closing at hclosing
    simp only [Bool.and_eq_true, beq_iff_eq] at hclosing
    rw [hclosing.2]
    rfl
  have hevent := ConnectionState.processEvent_disableIf hsettled c.role.peer event hclosing
  unfold Call.Alike advancePeer
  dsimp only
  rw [hevent]
  cases hstate : c.state.processEvent c.role.peer event with
  | none => exact ⟨rfl, hsame⟩
  | some state =>
    have hafter := hsettled.event hstate
    exact ⟨rfl, hafter, heof, buffer, progress, hbuffer, rfl⟩

theorem finishPeer_whole (h : Whole rest c f) (trailers : Headers) :
    Call.Alike (Whole rest) c f (finishPeer trailers) (finishPeer trailers) := by
  unfold finishPeer
  refine .bind (advancePeer_whole h _) fun _ c1 f1 h1 => ?_
  exact .modify_bind (.pure (h1.setReader rfl) _)

theorem peerClosed_whole (h : Whole rest c f) : Call.Alike (Whole rest) c f peerClosed peerClosed := by
  unfold peerClosed
  refine .bind (advancePeer_whole h _) fun _ c1 f1 h1 => ?_
  exact .pure h1 _

theorem acceptRequest_whole (h : Whole rest c f) (request : Request) :
    Call.Alike (Whole rest) c f (acceptRequest request) (acceptRequest request) := by
  unfold acceptRequest
  refine .failIf_bind Iff.rfl rfl h fun _ => .failIf_bind Iff.rfl rfl h fun _ => ?_
  refine .ofExcept_bind rfl h fun framing _ => .failIf_bind Iff.rfl rfl h fun _ => ?_
  refine .bind (advancePeer_whole h _) fun _ c1 f1 h1 => ?_
  refine .modify_bind (.modify_bind (.modify_bind (.pure ?_ _)))
  refine Whole.setReader (Whole.setVersion ?_ _) (Reader.unscanned_of_framing framing)
  exact (h1.disableIf _).mapCycle fun _ progress => ⟨progress, rfl⟩

theorem acceptInformational_whole (h : Whole rest c f) (response : Response)
    (framing : Except RemoteProtocolError Framing) :
    Call.Alike (Whole rest) c f (acceptInformational response framing)
      (acceptInformational response framing) := by
  have hevent : c.informationalEvent response.status response.httpVersion response.headers =
      f.informationalEvent response.status response.httpVersion response.headers := by
    obtain ⟨_, _, buffer, progress, hbuffer, rfl⟩ := h
    rfl
  have hrecord : ∀ {c f : Connection}, Whole rest c f →
      Whole rest (c.recordInformational response.status) (f.recordInformational response.status) := by
    intro c f h
    unfold recordInformational
    split
    · exact h.mapCycle fun _ progress => ⟨progress, rfl⟩
    · exact h
  unfold acceptInformational
  refine .get_bind (.ofExcept_bind (by rw [hevent]) h fun event _ => ?_)
  refine .bind (advancePeer_whole h _) fun _ c1 f1 h1 => ?_
  refine .modify_bind (.modify_bind (.modify_bind (.pure ?_ _)))
  exact (hrecord (h1.disableIf _)).setVersion _

theorem acceptFinal_whole (h : Whole rest c f) (response : Response) (fields : Fields)
    (framing : Except RemoteProtocolError Framing) :
    Call.Alike (Whole rest) c f (acceptFinal response fields framing)
      (acceptFinal response fields framing) := by
  have hbody : c.responseHasNoBody response.status = f.responseHasNoBody response.status := by
    obtain ⟨_, _, buffer, progress, hbuffer, rfl⟩ := h
    rfl
  have hevent : c.finalResponseEvent response.status = f.finalResponseEvent response.status := by
    obtain ⟨_, _, buffer, progress, hbuffer, rfl⟩ := h
    rfl
  unfold acceptFinal
  refine .get_bind ?_
  rw [hbody, hevent]
  refine .bind (advancePeer_whole h _) fun _ c1 f1 h1 => ?_
  have hrecorded : Whole rest (c1.disableKeepAliveIf (!fields.persistent response.httpVersion)).recordResponse
      (f1.disableKeepAliveIf (!fields.persistent response.httpVersion)).recordResponse :=
    (h1.disableIf _).mapCycle fun _ progress => ⟨progress, rfl⟩
  have h2 := (hrecorded.setVersion (some response.httpVersion)).disableIf
    (f.responseHasNoBody response.status && isFaulty framing)
  refine .modify_bind (.modify_bind (.modify_bind (.modify_bind ?_)))
  refine .ofExcept_bind rfl h2 fun framing _ => ?_
  refine .modify_bind (.modify_bind (.pure ?_ _))
  exact (h2.disableIf _).setReader (Reader.unscanned_of_framing framing)

theorem acceptResponse_whole (h : Whole rest c f) (hrole : c.role = .client) (response : Response) :
    Call.Alike (Whole rest) c f (acceptResponse response) (acceptResponse response) := by
  unfold acceptResponse
  refine .get_bind (.failIf_bind (h.localIdle hrole) rfl h fun _ => ?_)
  dsimp only
  split
  · exact acceptInformational_whole h _ _
  · exact acceptFinal_whole h _ _ _

/-- A size line that ends in the buffer. -/
theorem readSizeLine_whole (h : Whole rest c f) {stop : Nat} (hstop : stop ≤ c.input.asSlice.length) :
    Call.Alike (Whole rest) c f (readSizeLine stop) (readSizeLine stop) := by
  have hsame := h
  have hline : f.input.asSlice.take (stop - 2) = c.input.asSlice.take (stop - 2) := by
    rw [h.slice, List.take_append_of_le_length (by omega)]
  obtain ⟨hsettled, heof, buffer, progress, hbuffer, rfl⟩ := h
  unfold readSizeLine
  refine .get_bind (.failIf_bind Iff.rfl rfl hsame fun _ => ?_)
  dsimp only at hline ⊢
  rw [hline]
  refine .ofExcept_bind rfl hsame fun size _ => .modify_bind ?_
  have hbytes := hsame.mapCycle (g := fun cycle => { cycle with
    chunkExtensionBytes := c.cycle.chunkExtensionBytes + ((c.input.asSlice.take (stop - 2)).length -
      countWhile isAsciiHexdigit (c.input.asSlice.take (stop - 2))) }) fun _ progress => ⟨progress, rfl⟩
  refine .failIf_bind Iff.rfl rfl hbytes fun _ => .modify_bind ?_
  split
  · exact .modify ((hbytes.consume hstop).mapCycle fun _ _ => ⟨.new, rfl⟩)
  · exact .modify ((hbytes.consume hstop).setReader rfl)

end Connection

end H11r
