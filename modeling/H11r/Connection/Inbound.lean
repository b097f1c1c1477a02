import Mathlib
import H11r.Connection.Layers
import H11r.Wire.Reference

/-!
# What the limits bound

`max_head_bytes` and `max_header_count` bound what a peer can make a connection
keep and accept. A poll that asks for more bytes has little buffered; a head or
a trailer section that is accepted is no longer than the limit, with the empty
lines before it, and has no more fields than the parser was given slots for.

Chunk-size lines are bounded twice, each by itself and all the extensions of a
message together. The connection counts only the latter, in a field of the
cycle. `Watched` is a connection beside the chunk-size lines that its peer's
current message has been read with so far, and `Counted` the invariant that
makes the field their sum: it starts from zero before every message, and every
line that is taken out of the buffer is added to it.
-/

namespace H11r

/-! ## Fields and slots -/

theorem copyHeaders_length {stop : Nat} (section_ : Bytes) (parsed : ParsedFields stop)
    (hstop : stop ≤ section_.length) (unfold_ : Bool) :
    (copyHeaders section_ parsed hstop unfold_).iter.length = parsed.spans.length := by
  have hpush : ∀ (fields : List (Bytes × Bytes)) (headers : Headers),
      (fields.foldl (fun copied field => copied.push field.1 (normalizeObsFold field.2))
        headers).iter.length = headers.iter.length + fields.length := by
    intro fields
    induction fields with
    | nil => intro headers; rfl
    | cons field fields ih =>
      intro headers
      rw [List.foldl_cons, ih, Headers.iter_push, List.length_append, List.length_singleton,
        List.length_cons]
      omega
  unfold copyHeaders
  split
  · rw [hpush, Headers.iter_new, fieldSlices, List.length_map, List.length_nil, Nat.zero_add]
  · unfold copySection Headers.fromSection Headers.iter
    rw [List.length_map, List.length_map]

section Slots

variable {hp : Httparse} {head : Bytes} {maxHeaders stop : Nat}

theorem parseRequestHead_count (hslots : hp.FillsSlots) {request : Request}
    (h : parseRequestHead hp head maxHeaders = .ok (some (stop, request))) :
    request.headers.iter.length ≤ maxHeaders := by
  unfold parseRequestHead at h
  split at h
  · cases h
  · cases h
  next parsed hparse =>
    cases h
    have hparts : hp.request head maxHeaders = .ok (some parsed.parts) := by
      unfold Httparse.request
      rw [hparse]
      rfl
    rw [copyHeaders_length]
    exact hslots.request hparts

theorem parseResponseHead_count (hslots : hp.FillsSlots) {lenient dropped : Bool}
    {response : Response}
    (h : parseResponseHead hp head maxHeaders lenient = .ok (some (stop, response, dropped))) :
    response.headers.iter.length ≤ maxHeaders := by
  unfold parseResponseHead at h
  split at h
  · cases h
  · cases h
  next parsed hparse =>
    split at h
    · cases h
    · cases h
      have hparts : hp.response lenient head maxHeaders = .ok (some parsed.parts) := by
        unfold Httparse.response
        rw [hparse]
        rfl
      rw [copyHeaders_length]
      exact hslots.response hparts

theorem parseTrailers_count (hslots : hp.FillsSlots) {normalizeFolding : Bool} {trailers : Headers}
    (h : parseTrailers hp head maxHeaders normalizeFolding = .ok (some (stop, trailers))) :
    trailers.iter.length ≤ maxHeaders := by
  have hcount : ∀ {buffer : Bytes} {parsed : RawSection buffer.length},
      hp.parseHeaders buffer maxHeaders = .ok (.complete parsed) →
        parsed.fields.spans.length ≤ maxHeaders := by
    intro buffer parsed hparse
    have hparts : hp.headers buffer maxHeaders = .ok (some parsed.parts) := by
      unfold Httparse.headers
      rw [hparse]
      rfl
    exact hslots.headers hparts
  unfold parseTrailers at h
  dsimp only at h
  split at h
  · cases h
  · cases h
  next parsed hparse =>
    cases h
    rw [copyHeaders_length]
    exact hcount hparse

end Slots

/-- The fields of an event that a whole section was read for. -/
def Event.sectionFields : Event → Option Headers
  | .request head => some head.headers
  | .informationalResponse head | .response head => some head.headers
  | .endOfMessage trailers => some trailers
  | .data _ _ _ | .connectionClosed => none

/-- The events of message heads. -/
def Event.isHead : Event → Bool
  | .request _ | .informationalResponse _ | .response _ => true
  | _ => false

/-- The states of an actor that has not begun its message. -/
def State.begins : State → Bool
  | .idle | .sendResponse => true
  | _ => false

/-- No step of the state machine brings an actor back before its message. -/
theorem Move.begins {peer : Role} {s s' : ConnectionState} (h : Move peer s s') (actor : Role)
    (hbegins : (s'.state actor).begins = true) : (s.state actor).begins = true := by
  have hevent : ∀ (role : Role) (event : StateEvent) (s s' : ConnectionState),
      s.processEvent role event = some s' →
        ∀ actor, (s'.state actor).begins = true → (s.state actor).begins = true := by
    decide +kernel
  have hother : ∀ (s : ConnectionState) (actor : Role),
      ((s.disableKeepAlive.state actor).begins = true → (s.state actor).begins = true) ∧
      ∀ peer, ((s.processError peer).state actor).begins = true →
        (s.state actor).begins = true := by
    decide +kernel
  cases h with
  | event h => exact hevent _ _ _ _ h actor hbegins
  | disable => exact (hother s actor).1 hbegins
  | poison => exact (hother s actor).2 peer hbegins

theorem Moves.begins {peer : Role} {s s' : ConnectionState} (h : Moves peer s s') (actor : Role)
    (hbegins : (s'.state actor).begins = true) : (s.state actor).begins = true := by
  induction h with
  | refl => exact hbegins
  | tail _ hlast ih => exact ih (hlast.begins actor hbegins)

/-- A head comes where no message has begun. -/
theorem ConnectionState.processEvent_begins : ∀ (role : Role) (event : StateEvent)
    (s s' : ConnectionState), s.processEvent role event = some s' → event.insideBody = false →
      event ≠ .connectionClosed → (s.state role).begins = true := by
  decide +kernel

namespace Connection

variable {hp : Httparse} {c c' : Connection}

/-! ## The turns of one poll -/

/-- A poll is its tail calls and the turn that reports something. -/
theorem nextEventInner_last {polled : Polled} (h : nextEventInner hp c = (.ok polled, c')) :
    ∃ c1, TailCalls hp c c1 ∧ dispatch hp c1 = (.ok (some polled), c') := by
  induction c using nextEventInner.induct hp with
  | case1 c reported c1 hd =>
    rw [nextEventInner_reports hd] at h
    cases h
    exact ⟨c, .refl, hd⟩
  | case2 c c1 hd ih =>
    rw [nextEventInner_again hd] at h
    obtain ⟨c2, htail, hlast⟩ := ih h
    exact ⟨c2, .head hd htail, hlast⟩
  | case3 c error c1 hd =>
    rw [nextEventInner_fails hd] at h
    cases h

theorem nextEvent_needData (h : nextEvent hp c = (.ok .needData, c')) :
    nextEventInner hp c = (.ok .needData, c') := by
  unfold nextEvent at h
  rcases hinner : nextEventInner hp c with ⟨error | polled, c1⟩
  · rw [hinner] at h
    cases h
  · rw [hinner] at h
    cases polled <;> cases h
    rfl

theorem nextEvent_event {event : Event} (h : nextEvent hp c = (.ok (.event event), c')) :
    (∃ data chunkStart chunkEnd, event = .data data chunkStart chunkEnd) ∨
      nextEventInner hp c = (.ok (.event event), c') := by
  unfold nextEvent at h
  rcases hinner : nextEventInner hp c with ⟨error | polled, c1⟩
  · rw [hinner] at h
    cases h
  · rw [hinner] at h
    cases polled with
    | data count chunkStart chunkEnd =>
      cases h
      exact Or.inl ⟨_, _, _, rfl⟩
    | event event =>
      cases h
      exact Or.inr rfl
    | needData => cases h
    | paused => cases h

theorem TailCalls.limits {c1 : Connection} (h : TailCalls hp c c1) : c1.limits = c.limits :=
  Lib.preserve (P := fun later => later.limits = c.limits)
    (fun _ _ hd hc => (dispatch_turn hd).frame.limits.trans hc) h rfl

/-- Tail calls are made inside a chunked body only. -/
theorem TailCalls.reader {c1 : Connection} (h : TailCalls hp c c1) :
    c1 = c ∨ c1.cycle.reader ≠ .head := by
  induction h with
  | refl => exact Or.inl rfl
  | tail _ hd _ =>
    right
    cases dispatch_turn hd with
    | @sizeLine _ _ size =>
      unfold afterSizeLine mapCycle
      dsimp only
      split <;> nofun
    | dataEnd => nofun

/-! ## Heads and trailers -/

/-- What is parsed of the buffer lies within the limit. -/
theorem headSection_limit (c : Connection) : c.headSection.length ≤ c.limits.maxHeadBytes := by
  unfold headSection
  rw [List.length_take]
  exact Nat.min_le_left _ _

/-- A section that is accepted leaves the buffer whole, and within the limits. -/
theorem Turn.accepts (hslots : hp.FillsSlots) {event : Event}
    (h : Turn hp c (.ok (some (.event event))) c') {headers : Headers}
    (hfields : event.sectionFields = some headers) :
    (event.isHead = true → c.cycle.reader = .head) ∧
      headers.iter.length ≤ c.limits.maxHeaderCount ∧
      ∃ count, Drops count c c' ∧ count ≤ c.limits.maxHeadBytes := by
  -- The section that ends at `stop` is what leaves the buffer.
  have hdrops : ∀ {stop}, stop ≤ c.headSection.length → c'.input = c.input.consume stop →
      ∃ count, Drops count c c' ∧ count ≤ c.limits.maxHeadBytes := fun hstop hinput =>
    ⟨_, .consume (Nat.le_trans hstop (headSection_le c)) hinput,
      Nat.le_trans hstop (headSection_limit c)⟩
  cases h with
  | closed | idleClosed | doneClosed => cases hfields
  | request _ hreader _ hparse =>
    cases hfields
    exact ⟨fun _ => hreader, parseRequestHead_count hslots hparse,
      hdrops (parseRequestHead_le hparse) (acceptedRequest_input _ _ _ _)⟩
  | informational _ hreader _ hparse =>
    cases hfields
    refine ⟨fun _ => hreader, parseResponseHead_count hslots hparse,
      hdrops (parseResponseHead_le hparse) ?_⟩
    rw [acceptedInformational_input, consumeSection_input]
  | final _ hreader _ hparse =>
    cases hfields
    refine ⟨fun _ => hreader, parseResponseHead_count hslots hparse,
      hdrops (parseResponseHead_le hparse) ?_⟩
    rw [acceptedFinal_input, consumeSection_input]
  | ends =>
    cases hfields
    exact ⟨nofun, Nat.zero_le _, 0, .zero rfl, Nat.zero_le _⟩
  | trailers _ _ hparse =>
    cases hfields
    exact ⟨nofun, parseTrailers_count hslots hparse, hdrops (parseTrailers_le hparse) rfl⟩

/-- Bytes that left the buffer stood in front of those that are left. -/
theorem Drops.split {count : Nat} (h : Drops count c c') :
    ∃ bytes, c.input.asSlice = bytes ++ c'.input.asSlice ∧ bytes.length = count := by
  refine ⟨c.input.asSlice.take count, ?_, ?_⟩
  · rw [h.2, List.take_append_drop]
  · rw [List.length_take]
    exact Nat.min_eq_left h.1

theorem nextEvent_head_limits (hslots : hp.FillsSlots) {event : Event} {headers : Headers}
    (h : nextEvent hp c = (.ok (.event event), c')) (hfields : event.sectionFields = some headers) :
    headers.iter.length ≤ c.limits.maxHeaderCount ∧
      ∃ c1 bytes, TailCalls hp c c1 ∧ (event.isHead = true → c1 = c) ∧
        c1.input.asSlice = bytes ++ c'.input.asSlice ∧ bytes.length ≤ c.limits.maxHeadBytes := by
  rcases nextEvent_event h with ⟨_, _, _, rfl⟩ | hinner
  · cases hfields
  · obtain ⟨c1, htail, hlast⟩ := nextEventInner_last hinner
    obtain ⟨hhead, hcount, count, hdrops, hle⟩ := (dispatch_turn hlast).accepts hslots hfields
    obtain ⟨bytes, hbytes, hlength⟩ := hdrops.split
    rw [htail.limits] at hcount hle
    refine ⟨hcount, c1, bytes, htail, fun hevent => ?_, hbytes, by omega⟩
    exact htail.reader.resolve_right fun hreader => hreader (hhead hevent)

/-- A poll that asks for bytes has at most one more than the limit. -/
theorem nextEvent_needData_pending (h : nextEvent hp c = (.ok .needData, c')) :
    c'.input.asSlice.length ≤ c.limits.maxHeadBytes + 1 := by
  obtain ⟨c1, htail, hlast⟩ := nextEventInner_last (nextEvent_needData h)
  rw [← htail.limits]
  cases dispatch_turn hlast with
  | doneWaits _ hinput =>
    rw [hinput]
    exact Nat.zero_le _
  | waits _ _ _ hpending => exact hpending

/-! ## Chunk-size lines -/

/-- The chunk-size line that stands at the front of the buffer, if one is due. -/
def sizeLine (c : Connection) : List Bytes :=
  match c.cycle.reader with
  | .chunked (.size scanned) =>
    ((findCrlf c.input.asSlice scanned).map fun stop => c.input.asSlice.take (stop - 2)).toList
  | _ => []

/-- The chunk-size lines that a poll takes out of the buffer. -/
def sizeLines (hp : Httparse) (c : Connection) : List Bytes :=
  match _h : dispatch hp c with
  | (.ok none, c') => c.sizeLine ++ sizeLines hp c'
  | _ => []
  termination_by c.input.asSlice.length
  decreasing_by exact dispatch_again_lt _h

/-- A connection, and the chunk-size lines that the current message of its peer
has been read with. -/
structure Watched where
  connection : Connection
  lines : List Bytes

/-- The lines after a call. A poll that finds the decoder before a head finds it
before a new message. -/
def Watched.linesAfter (hp : Httparse) (op : Op) (w : Watched) : List Bytes :=
  match op with
  | .nextEvent =>
    (if w.connection.cycle.reader = .head then [] else w.lines) ++ sizeLines hp w.connection
  | _ => w.lines

/-- A call of a watched connection. -/
def watch (hp : Httparse) (op : Op) (w : Watched) : Outcome × Watched :=
  ((step hp op w.connection).1, ⟨(step hp op w.connection).2, w.linesAfter hp op⟩)

/-- A run of a new connection that is watched. -/
abbrev WatchedRun (hp : Httparse) (role : Role) (limits : Limits) :
    List (Op × Outcome) → Watched → Prop :=
  Lib.Run (watch hp) (fun _ _ => True) ⟨new role limits, []⟩

/-- Every run can be watched. -/
theorem run_watched {role : Role} {limits : Limits} {history : List (Op × Outcome)}
    (h : Run hp anyCall role limits history c) :
    ∃ lines, WatchedRun hp role limits history ⟨c, lines⟩ := by
  induction h with
  | start => exact ⟨[], .start⟩
  | step op _ _ ih =>
    obtain ⟨lines, hwatched⟩ := ih
    exact ⟨_, .step op hwatched trivial⟩

/-- Nothing is said about the lines of a peer that has failed. -/
structure Counted (lines : List Bytes) (c : Connection) : Prop where
  before : c.peerState.begins = true → c.cycle.chunkExtensionBytes = 0
  inside : c.cycle.reader ≠ .head → c.peerState ≠ .error →
    c.cycle.chunkExtensionBytes = (lines.map extensionLength).sum

/-- The lines are within the limits, one by one and all together. -/
structure LinesBounded (limits : Limits) (lines : List Bytes) : Prop where
  each : ∀ line ∈ lines, line.length ≤ limits.maxHeadBytes
  total : (lines.map extensionLength).sum ≤ limits.maxHeadBytes

theorem LinesBounded.nil (limits : Limits) : LinesBounded limits [] :=
  ⟨nofun, Nat.zero_le _⟩

variable {lines : List Bytes}

/-- A change of the actors, and of the decoder within its part of the message. -/
theorem Counted.same {peer : Role} (h : Counted lines c) (hrole : c'.role = c.role)
    (hmoves : Moves peer c.state c'.state)
    (hreader : c'.cycle.reader = .head ↔ c.cycle.reader = .head)
    (hcount : c'.cycle.chunkExtensionBytes = c.cycle.chunkExtensionBytes)
    (herror : c.peerState = .error → c'.peerState = .error) : Counted lines c' := by
  refine ⟨fun hbegins => ?_, fun hinside hpeer => ?_⟩
  · rw [hcount]
    refine h.before (hmoves.begins c.role.peer ?_)
    rw [← hrole]
    exact hbegins
  · rw [hcount]
    exact h.inside (fun hhead => hinside (hreader.mpr hhead)) fun hfailed => hpeer (herror hfailed)

theorem advancePayload_count (count : Nat) (c : Connection) :
    (c.advancePayload count).2.cycle.chunkExtensionBytes = c.cycle.chunkExtensionBytes := by
  unfold advancePayload
  split <;> rfl

theorem Change.decoder (h : Change c c') : (c'.cycle.reader = .head ↔ c.cycle.reader = .head) ∧
    c'.cycle.chunkExtensionBytes = c.cycle.chunkExtensionBytes := by
  cases h with
  | lenient | received | hold => exact ⟨Iff.rfl, rfl⟩
  | eof =>
    unfold recordEof
    rw [disableKeepAliveIf_cycle]
    exact ⟨Iff.rfl, rfl⟩
  | inPlace => exact ⟨(advancePayload_cycle _ c).2.1, advancePayload_count _ c⟩
  | inPlaceRefused => exact ⟨(advancePayload_cycle _ c).2.1, advancePayload_count _ c⟩
  | «local» h =>
    obtain ⟨hreader, _, hcount⟩ := h.decoder
    rw [hreader]
    exact ⟨Iff.rfl, hcount⟩

theorem Change.failedStays (h : Change c c') (hpeer : c.peerState = .error) :
    c'.peerState = .error := by
  have hstays : c.peerState.stays (c'.state.state c.role.peer) = true :=
    Moves.stays h.moves
  rw [hpeer] at hstays
  unfold peerState
  rw [h.role]
  exact beq_iff_eq.mp hstays

theorem Change.counted (h : Change c c') (hc : Counted lines c) : Counted lines c' := by
  have hmoves : Moves c.role.peer c.state c'.state := h.moves
  exact hc.same h.role hmoves h.decoder.1 h.decoder.2 h.failedStays

theorem CycleChange.counted (h : CycleChange c c') (hc : Counted lines c) : Counted lines c' := by
  cases h with
  | started => exact ⟨fun _ => rfl, fun hinside => absurd rfl hinside⟩
  | refused =>
    have hmoves : Moves c.role.peer c.state c.disableKeepAlive.state := .single .disable
    refine hc.same rfl hmoves Iff.rfl rfl fun hpeer => ?_
    have hstays : c.peerState.stays (c.disableKeepAlive.state.state c.role.peer) = true :=
      Move.stays (.disable : Move c.role.peer.peer _ _)
    rw [hpeer] at hstays
    exact beq_iff_eq.mp hstays

theorem new_counted (role : Role) (limits : Limits) : Counted [] (new role limits) :=
  ⟨fun _ => rfl, fun hinside => absurd rfl hinside⟩

/-! ## The lines of one poll -/

/-- Reading a head finds the count at zero. -/
theorem Counted.zero {state : ConnectionState} {event : StateEvent} {reason : Bool} {actor : Role}
    (h : Counted lines c) (hrole : c.role.peer = actor)
    (hstate : (c.state.disableKeepAliveIf reason).processEvent actor event = some state)
    (hinside : event.insideBody = false) (hclosed : event ≠ .connectionClosed) :
    c.cycle.chunkExtensionBytes = 0 := by
  have hbegins := ConnectionState.processEvent_begins _ _ _ _ hstate hinside hclosed
  have hmoves : Moves actor c.state (c.state.disableKeepAliveIf reason) :=
    disableKeepAliveIf_moves reason c.state
  refine h.before ?_
  unfold peerState
  rw [hrole]
  exact hmoves.begins actor hbegins

/-- A tail call adds the line it takes to the count. -/
theorem Turn.counted_again (h : Turn hp c (.ok none) c') (hagree : c.LayersAgree)
    (hc : Counted lines c) (hbounded : LinesBounded c.limits lines) :
    c'.cycle.reader ≠ .head ∧ Counted (lines ++ c.sizeLine) c' ∧
      LinesBounded c.limits (lines ++ c.sizeLine) := by
  cases h with
  | @sizeLine scanned stop size extensionBytes hreading hreader hstop hsize hlimit hextensions
      hbudget =>
    have hbody : c.peerState = .sendBody :=
      hagree.reading_body hreading (by rw [hreader]; nofun)
    have hline : c.sizeLine = [c.input.asSlice.take (stop - 2)] := by
      unfold Connection.sizeLine
      rw [hreader]
      dsimp only
      rw [hstop]
      rfl
    have hbefore : c.cycle.chunkExtensionBytes = (lines.map extensionLength).sum := by
      refine hc.inside (by rw [hreader]; nofun) ?_
      rw [hbody]
      nofun
    have hsum : ((lines ++ c.sizeLine).map extensionLength).sum = extensionBytes := by
      rw [hline, List.map_append, List.sum_append, hextensions, hbefore]
      rfl
    refine ⟨?_, ⟨fun hbegins => ?_, fun _ _ => hsum.symm⟩, ⟨fun line hmem => ?_, ?_⟩⟩
    · unfold afterSizeLine mapCycle
      dsimp only
      split <;> nofun
    · change c.peerState.begins = true at hbegins
      rw [hbody] at hbegins
      cases hbegins
    · rcases List.mem_append.mp hmem with hold | hnew
      · exact hbounded.each line hold
      · rw [hline, List.mem_singleton] at hnew
        rw [hnew, List.length_take]
        omega
    · rw [hsum]
      exact hbudget
  | dataEnd _ hreader _ =>
    have hline : c.sizeLine = [] := by
      unfold Connection.sizeLine
      rw [hreader]
    rw [hline, List.append_nil]
    refine ⟨nofun, ⟨hc.before, fun _ hpeer => hc.inside (by rw [hreader]; nofun) hpeer⟩, hbounded⟩

theorem acceptedInformational_decoder (response : Response) (dropped : Bool) (stop : Nat)
    (state : ConnectionState) (c : Connection) :
    (acceptedInformational response state
        ((c.disableKeepAliveIf dropped).consumeSection stop)).cycle.reader = c.cycle.reader ∧
      (acceptedInformational response state
        ((c.disableKeepAliveIf dropped).consumeSection stop)).cycle.chunkExtensionBytes =
          c.cycle.chunkExtensionBytes := by
  unfold acceptedInformational recordInformational
  simp only [disableKeepAliveIf_eq]
  split <;> exact ⟨rfl, rfl⟩

theorem Reading.not_failed (h : c.Reading) : c.peerState ≠ .error := by
  rcases h with ⟨h, _⟩ | h | h <;> rw [h] <;> nofun

/-- The turn that reports something keeps the count, and finds it at zero where
it starts a body. -/
theorem Turn.counted_last {polled : Polled} (h : Turn hp c (.ok (some polled)) c')
    (hc : Counted lines c) (hfresh : c.cycle.reader = .head → lines = []) : Counted lines c' := by
  have hmoves : Moves c.role.peer c.state c'.state := h.moves
  have hrole : c'.role = c.role := h.frame.role
  -- What a head leaves: no line has been read for its message.
  have hstarts : c.cycle.chunkExtensionBytes = 0 → c.cycle.reader = .head →
      c'.cycle.chunkExtensionBytes = c.cycle.chunkExtensionBytes → Counted lines c' := by
    intro hzero hreader hcount
    refine ⟨fun _ => hcount.trans hzero, fun _ _ => ?_⟩
    rw [hcount, hzero, hfresh hreader]
    rfl
  cases h with
  | closed | paused | doneWaits => exact hc
  | idleClosed hpeer =>
    refine hc.same hrole hmoves Iff.rfl rfl fun hfailed => ?_
    rw [hpeer] at hfailed
    cases hfailed
  | doneClosed hpeer =>
    refine hc.same hrole hmoves Iff.rfl rfl fun hfailed => ?_
    rcases hpeer with h | h <;> rw [h] at hfailed <;> cases hfailed
  | waits hreading _ hreader =>
    exact hc.same hrole hmoves hreader.head_iff rfl fun hfailed => absurd hfailed hreading.not_failed
  | request _ hreader hserver _ _ _ hstate =>
    have hasked : (c.state.disableKeepAliveIf false).processEvent .client (requestEvent _ _) =
        some _ := hstate
    refine hstarts (hc.zero (by rw [hserver]; rfl) hasked rfl nofun) hreader ?_
    rw [acceptedRequest_cycle]
    rfl
  | @informational stop response dropped _ state hreading =>
    have hcycle := acceptedInformational_decoder response dropped stop state c
    exact hc.same hrole hmoves (by rw [hcycle.1]) hcycle.2 fun hfailed =>
      absurd hfailed hreading.not_failed
  | @final _ response dropped _ _ _ hreader hclient _ _ _ hstate =>
    rw [disableKeepAliveIf_state] at hstate
    have hevent : (c.finalResponseEvent response.status).insideBody = false ∧
        c.finalResponseEvent response.status ≠ .connectionClosed := by
      unfold finalResponseEvent
      split <;> exact ⟨rfl, nofun⟩
    refine hstarts (hc.zero (by rw [hclient]; rfl) hstate hevent.1 hevent.2) hreader ?_
    rw [acceptedFinal_cycle]
    cases dropped <;> rfl
  | payload hreading =>
    exact hc.same hrole hmoves (advancePayload_cycle _ c).2.1 (advancePayload_count _ c) fun hfailed =>
      absurd hfailed hreading.not_failed
  | ends hreading =>
    refine ⟨fun hbegins => hc.before (hmoves.begins c.role.peer ?_), fun h => absurd rfl h⟩
    exact hbegins
  | trailers hreading =>
    refine ⟨fun hbegins => hc.before (hmoves.begins c.role.peer ?_), fun h => absurd rfl h⟩
    exact hbegins

theorem sizeLines_again (h : dispatch hp c = (.ok none, c')) :
    sizeLines hp c = c.sizeLine ++ sizeLines hp c' := by
  rw [sizeLines]
  split
  next hd =>
    rw [h] at hd
    cases hd
    rfl
  next hd => exact absurd h (hd c')

theorem sizeLines_last {r : Except RemoteProtocolError (Option Polled)}
    (h : dispatch hp c = (r, c')) (hr : r ≠ .ok none) : sizeLines hp c = [] := by
  rw [sizeLines]
  split
  next hd =>
    rw [h] at hd
    cases hd
    exact absurd rfl hr
  next => rfl

/-- Along a poll the count follows the lines that are taken out of the buffer. -/
theorem nextEventInner_counted {r : Except RemoteProtocolError Polled}
    (h : nextEventInner hp c = (r, c')) (hagree : c.LayersAgree) (hc : Counted lines c)
    (hbounded : LinesBounded c.limits lines) (hfresh : c.cycle.reader = .head → lines = []) :
    LinesBounded c.limits (lines ++ sizeLines hp c) ∧
      ∀ polled, r = .ok polled → Counted (lines ++ sizeLines hp c) c' := by
  induction c using nextEventInner.induct hp generalizing lines with
  | case1 c reported c1 hd =>
    rw [sizeLines_last hd (fun hagain => by cases hagain), List.append_nil]
    refine ⟨hbounded, fun polled hr => ?_⟩
    rw [nextEventInner_reports hd] at h
    cases h
    exact (dispatch_turn hd).counted_last hc hfresh
  | case2 c c1 hd ih =>
    have hturn := dispatch_turn hd
    obtain ⟨hreader, hcounted, hlines⟩ := hturn.counted_again hagree hc hbounded
    rw [← hturn.frame.limits] at hlines
    rw [nextEventInner_again hd] at h
    have hrest := ih h (hturn.layersAgree hagree) hcounted hlines fun hhead =>
      absurd hhead hreader
    rw [hturn.frame.limits, List.append_assoc, ← sizeLines_again hd] at hrest
    exact hrest
  | case3 c error c1 hd =>
    rw [sizeLines_last hd (fun hagain => by cases hagain), List.append_nil]
    refine ⟨hbounded, fun polled hr => ?_⟩
    rw [nextEventInner_fails hd] at h
    cases h
    cases hr

/-- A poll keeps the count, unless it fails. -/
theorem nextEvent_counted (hp : Httparse) (hagree : c.LayersAgree) (hc : Counted lines c)
    (hbounded : LinesBounded c.limits lines) (hfresh : c.cycle.reader = .head → lines = []) :
    LinesBounded c.limits (lines ++ sizeLines hp c) ∧
      Counted (lines ++ sizeLines hp c) (nextEvent hp c).2 := by
  unfold nextEvent
  rcases hinner : nextEventInner hp c with ⟨error | polled, c1⟩
  · obtain ⟨hlines, _⟩ := nextEventInner_counted hinner hagree hc hbounded hfresh
    have hfailed : (c1.state.processError c1.role.peer).state c1.role.peer = .error :=
      ConnectionState.processError_state _ _
    refine ⟨hlines, ⟨fun hbegins => ?_, fun _ hpeer => absurd hfailed hpeer⟩⟩
    change ((c1.state.processError c1.role.peer).state c1.role.peer).begins = true at hbegins
    rw [hfailed] at hbegins
    cases hbegins
  · obtain ⟨hlines, hcounted⟩ := nextEventInner_counted hinner hagree hc hbounded hfresh
    have hlast := hcounted polled rfl
    refine ⟨hlines, ?_⟩
    cases polled with
    | data count chunkStart chunkEnd => exact ⟨hlast.before, hlast.inside⟩
    | event event => exact hlast
    | needData => exact hlast
    | paused => exact hlast

/-! ## Whole runs -/

theorem Change.limits (h : Change c c') : c'.limits = c.limits := by
  cases h with
  | lenient | received | hold => rfl
  | eof => exact disableKeepAliveIf_limits _ _
  | inPlace => exact (advancePayload_frame _ c).limits
  | inPlaceRefused => exact (advancePayload_frame _ c).limits
  | «local» h => exact h.sameOutside.frame.limits

/-- A connection keeps its limits. -/
theorem step_limits (hp : Httparse) (op : Op) (c : Connection) :
    (step hp op c).2.limits = c.limits := by
  refine step_preserve (P := fun c' => c'.limits = c.limits) (fun _ _ h hc => h.limits.trans hc)
    (fun _ _ h hc => ?_) (fun _ _ h hc => h.frame.limits.trans hc) op rfl
  cases h <;> exact hc

theorem run_limits {allowed : Connection → Op → Prop} {role : Role} {limits : Limits}
    {history : List (Op × Outcome)} (h : Run hp allowed role limits history c) :
    c.limits = limits :=
  Lib.Run.invariant (P := fun c => c.limits = limits) rfl
    (fun s op hs _ => (step_limits hp op s).trans hs) h

/-- What holds of a watched connection throughout its run. -/
structure Watched.Ok (limits : Limits) (w : Watched) : Prop where
  kept : w.connection.limits = limits
  agree : w.connection.LayersAgree
  counted : Counted w.lines w.connection
  bounded : LinesBounded limits w.lines

theorem watch_ok {limits : Limits} {w : Watched} (op : Op) (h : w.Ok limits) :
    (watch hp op w).2.Ok limits := by
  have hlimits : (step hp op w.connection).2.limits = limits :=
    (step_limits hp op w.connection).trans h.kept
  have hagree : (step hp op w.connection).2.LayersAgree :=
    step_preserve (fun _ _ => Change.layersAgree) (fun _ _ => CycleChange.layersAgree)
      (fun _ _ => PollChange.layersAgree) op h.agree
  by_cases hpoll : op = .nextEvent
  · subst hpoll
    -- A poll before a head starts a new list of lines.
    have hstart : Counted (if w.connection.cycle.reader = .head then [] else w.lines)
          w.connection ∧
        LinesBounded w.connection.limits
          (if w.connection.cycle.reader = .head then [] else w.lines) ∧
        (w.connection.cycle.reader = .head →
          (if w.connection.cycle.reader = .head then [] else w.lines) = []) := by
      split
      next hhead =>
        exact ⟨⟨h.counted.before, fun hinside => absurd hhead hinside⟩, .nil _, fun _ => rfl⟩
      next hhead =>
        refine ⟨h.counted, ?_, fun hreader => absurd hreader hhead⟩
        rw [h.kept]
        exact h.bounded
    obtain ⟨hbounded, hcounted⟩ := nextEvent_counted hp h.agree hstart.1 hstart.2.1 hstart.2.2
    rw [h.kept] at hbounded
    refine ⟨hlimits, hagree, ?_, hbounded⟩
    change Counted _ (pollOutcome (nextEvent hp w.connection)).2
    rw [pollOutcome_snd]
    exact hcounted
  · have hlines : w.linesAfter hp op = w.lines := by
      cases op with
      | nextEvent => exact absurd rfl hpoll
      | _ => rfl
    have hcounted : Counted w.lines (step hp op w.connection).2 :=
      step_preserve_unpolled (fun _ _ => Change.counted) (fun _ _ => CycleChange.counted) hpoll
        h.counted
    refine ⟨hlimits, hagree, ?_, ?_⟩
    · change Counted (w.linesAfter hp op) _
      rw [hlines]
      exact hcounted
    · change LinesBounded limits (w.linesAfter hp op)
      rw [hlines]
      exact h.bounded

theorem watchedRun_ok {role : Role} {limits : Limits} {history : List (Op × Outcome)} {w : Watched}
    (h : WatchedRun hp role limits history w) : w.Ok limits := by
  have hnew : Watched.Ok limits ⟨new role limits, []⟩ :=
    ⟨rfl, new_agrees role, new_counted role limits, .nil limits⟩
  exact Lib.Run.invariant hnew (fun _ op hw _ => watch_ok op hw) h

/-- For all limits and in every run: a poll that asks for data leaves at most
one byte more than the limit in the buffer; a head or trailer section that is
accepted takes no more bytes and no more fields than the limits allow; and of
the chunk-size lines of a message each is within the limit, and so are all
their extensions together. -/
theorem inbound_limits (hslots : hp.FillsSlots) {role : Role} {limits : Limits}
    {history : List (Op × Outcome)} (h : Run hp anyCall role limits history c) :
    (∀ c', nextEvent hp c = (.ok .needData, c') →
      c'.input.asSlice.length ≤ limits.maxHeadBytes + 1) ∧
    (∀ event headers c', nextEvent hp c = (.ok (.event event), c') →
      event.sectionFields = some headers →
      headers.iter.length ≤ limits.maxHeaderCount ∧
        ∃ c1 bytes, TailCalls hp c c1 ∧ (event.isHead = true → c1 = c) ∧
          c1.input.asSlice = bytes ++ c'.input.asSlice ∧ bytes.length ≤ limits.maxHeadBytes) ∧
    ∃ lines, WatchedRun hp role limits history ⟨c, lines⟩ ∧
      (∀ line ∈ lines, line.length ≤ limits.maxHeadBytes) ∧
      (lines.map extensionLength).sum ≤ limits.maxHeadBytes := by
  obtain ⟨lines, hwatched⟩ := run_watched h
  have hok := watchedRun_ok hwatched
  have hlimits : c.limits = limits := run_limits h
  refine ⟨fun c' hpoll => ?_, fun event headers c' hpoll hfields => ?_, lines, hwatched,
    hok.bounded.each, hok.bounded.total⟩
  · rw [← hlimits]
    exact nextEvent_needData_pending hpoll
  · rw [← hlimits]
    exact nextEvent_head_limits hslots hpoll hfields

/-- The head of a chunked request, for a run on fixed input. -/
def chunkedPostHead : Bytes :=
  serializeRequest ⟨.post, ascii "/", (Headers.new.push (ascii "Host") (ascii "a")).push
    (ascii "Transfer-Encoding") (ascii "chunked"), .http11⟩ 0

/-- A server reads one chunk with an extension, and the lines it has read are
within the default limits. -/
theorem chunk_line_is_watched :
    ∃ history c lines, Run Reference.httparse anyCall .server .default history c ∧
      WatchedRun Reference.httparse .server .default history ⟨c, lines⟩ ∧
      (lines.map extensionLength).sum ≤ Limits.default.maxHeadBytes ∧ c.peerState = .sendBody := by
  have hrun : Run Reference.httparse anyCall .server .default _ _ :=
    Lib.Run.trace_of_forall _ [.receiveData (chunkedPostHead ++ ascii "2;a=b" ++ crlf ++ ascii "hi"),
      .nextEvent, .nextEvent] fun _ _ => trivial
  obtain ⟨_, _, lines, hwatched, _, htotal⟩ :=
    inbound_limits Reference.httparse_fillsSlots hrun
  exact ⟨_, _, lines, hrun, hwatched, htotal, by decide +kernel⟩

end Connection

end H11r
