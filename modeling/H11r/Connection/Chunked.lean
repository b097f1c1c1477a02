import H11r.Connection.Decode
import H11r.Connection.Switch

/-!
# The chunked decoder is its grammar

From the head of a chunked message on, bytes come in any pieces and are polled
for in between, and the local side sends what it sends. `Stage` is where the
decoder is then: still in the message, behind its end, or failed. It says of
each what the bytes received so far, and any that may follow, are the beginning
of. So the end of the message is reported exactly when the bytes begin with a
chunked body, and with the chunks and trailers of that body.
-/

namespace H11r

open Lib (Call)

/-! ## The events of a body -/

/-- One chunk in pieces, of which the last ends the chunk, and only the first
can begin it. -/
inductive ChunkEvents : Bytes → (chunkStart : Bool) → List Event → Prop
  | last {bytes : Bytes} {chunkStart : Bool} (hbytes : bytes ≠ []) :
      ChunkEvents bytes chunkStart [.data bytes chunkStart true]
  | more {piece rest : Bytes} {chunkStart : Bool} {events : List Event} (hpiece : piece ≠ [])
      (hrest : ChunkEvents rest false events) :
      ChunkEvents (piece ++ rest) chunkStart (.data piece chunkStart false :: events)

/-- The events of the chunks, chunk by chunk. -/
inductive BodyEvents : List Bytes → List Event → Prop
  | nil : BodyEvents [] []
  | cons {chunk : Bytes} {chunks : List Bytes} {events more : List Event}
      (hchunk : ChunkEvents chunk true events) (hrest : BodyEvents chunks more) :
      BodyEvents (chunk :: chunks) (events ++ more)

/-- The body bytes an event carries. -/
def Event.bytes : Event → Bytes
  | .data bytes _ _ => bytes
  | _ => []

/-- A `Data` event with bytes in it. -/
def Event.Delivers : Event → Prop
  | .data bytes _ _ => bytes ≠ []
  | _ => False

theorem ChunkEvents.bytes {chunk : Bytes} {chunkStart : Bool} {events : List Event}
    (h : ChunkEvents chunk chunkStart events) : events.flatMap Event.bytes = chunk := by
  induction h with
  | last => exact List.append_nil _
  | more _ _ ih =>
    rw [List.flatMap_cons, ih]
    rfl

theorem BodyEvents.bytes {chunks : List Bytes} {events : List Event} (h : BodyEvents chunks events) :
    events.flatMap Event.bytes = chunks.flatten := by
  induction h with
  | nil => rfl
  | cons hchunk _ ih => rw [List.flatMap_append, hchunk.bytes, ih, List.flatten_cons]

/-- A `Data` event whose bytes come first is a piece of the chunk that comes
first, or all of it. -/
theorem Event.bytewise_front {bytes chunk : Bytes} {chunkStart chunkEnd first : Bool}
    {more items : List Event} (hbytes : bytes ≠ []) (hchunk : chunk ≠ [])
    (h : bytewise bytes chunkStart chunkEnd ++ more = bytewise chunk first true ++ items) :
    chunkStart = first ∧ ((bytes = chunk ∧ chunkEnd = true ∧ more = items) ∨
      ∃ rest, rest ≠ [] ∧ chunk = bytes ++ rest ∧ chunkEnd = false ∧
        more = bytewise rest false true ++ items) := by
  induction bytes generalizing chunk chunkStart first with
  | nil => exact absurd rfl hbytes
  | cons byte bytes ih =>
    obtain ⟨byte', chunk, rfl⟩ := List.exists_cons_of_ne_nil hchunk
    by_cases hnil : bytes = []
    · subst hnil
      by_cases hnil' : chunk = []
      · subst hnil'
        obtain ⟨hevent, rfl⟩ := List.cons.inj h
        cases hevent
        exact ⟨rfl, Or.inl ⟨rfl, rfl, rfl⟩⟩
      · rw [bytewise_cons hnil'] at h
        obtain ⟨hevent, rfl⟩ := List.cons.inj h
        cases hevent
        exact ⟨rfl, Or.inr ⟨chunk, hnil', rfl, rfl, rfl⟩⟩
    · rw [bytewise_cons hnil] at h
      by_cases hnil' : chunk = []
      · subst hnil'
        obtain ⟨hevent, _⟩ := List.cons.inj h
        cases hevent
      · rw [bytewise_cons hnil'] at h
        obtain ⟨hevent, htail⟩ := List.cons.inj h
        cases hevent
        obtain ⟨_, ⟨rfl, hend, hmore⟩ | ⟨rest, hrest, rfl, hend, hmore⟩⟩ := ih hnil hnil' htail
        · exact ⟨rfl, Or.inl ⟨rfl, hend, hmore⟩⟩
        · exact ⟨rfl, Or.inr ⟨rest, hrest, rfl, hend, hmore⟩⟩

theorem chunkEvents_of_split {chunk : Bytes} {first : Bool} {events : List Event} {items : List Event}
    (hevents : ∀ event ∈ events, event.Delivers) (hchunk : chunk ≠ [])
    (h : splitAll events = Event.bytewise chunk first true ++ items) :
    ∃ front back, events = front ++ back ∧ ChunkEvents chunk first front ∧ splitAll back = items := by
  induction events generalizing chunk first with
  | nil =>
    exfalso
    have hlength := congrArg List.length h
    rw [List.length_append, Event.bytewise_length] at hlength
    have hpos := List.length_pos_iff.mpr hchunk
    change 0 = _ at hlength
    omega
  | cons event events ih =>
    have hdelivers := hevents event (List.mem_cons_self ..)
    have hlater := fun other hmem => hevents other (List.mem_cons_of_mem event hmem)
    cases event with
    | data bytes chunkStart chunkEnd =>
      change Event.bytewise bytes chunkStart chunkEnd ++ splitAll events = _ at h
      obtain ⟨rfl, ⟨rfl, rfl, hmore⟩ | ⟨rest, hrest, rfl, rfl, hmore⟩⟩ :=
        Event.bytewise_front hdelivers hchunk h
      · exact ⟨[_], events, rfl, .last hdelivers, hmore⟩
      · obtain ⟨front, back, rfl, hfront, hback⟩ := ih hlater hrest hmore
        exact ⟨_ :: front, back, rfl, .more hdelivers hfront, hback⟩
    | _ => exact hdelivers.elim

/-- `Data` events that are the chunks byte by byte are the chunks piece by
piece: no event reaches from one chunk into the next. -/
theorem bodyEvents_of_split {chunks : List Bytes} {events : List Event}
    (hevents : ∀ event ∈ events, event.Delivers) (hchunks : ∀ chunk ∈ chunks, chunk ≠ [])
    (h : splitAll events = chunkItems chunks) : BodyEvents chunks events := by
  induction chunks generalizing events with
  | nil =>
    cases events with
    | nil => exact .nil
    | cons event events =>
      have hdelivers := hevents event (List.mem_cons_self ..)
      cases event with
      | data bytes chunkStart chunkEnd =>
        have hlength := congrArg List.length h
        change (Event.bytewise bytes chunkStart chunkEnd ++ splitAll events).length = 0 at hlength
        rw [List.length_append, Event.bytewise_length] at hlength
        have hpos : 0 < bytes.length := List.length_pos_iff.mpr hdelivers
        omega
      | _ => exact hdelivers.elim
  | cons chunk chunks ih =>
    obtain ⟨front, back, rfl, hfront, hback⟩ :=
      chunkEvents_of_split hevents (hchunks chunk (List.mem_cons_self ..)) h
    refine .cons hfront (ih (fun event hmem => hevents event (List.mem_append_right _ hmem))
      (fun other hmem => hchunks other (List.mem_cons_of_mem _ hmem)) hback)

theorem ChunkedBody.chunks_ne_nil {hp : Httparse} {limits : Limits} {client : Bool} {spent : Nat}
    {body : Bytes} {chunks : List Bytes} {trailers : Headers}
    (h : ChunkedBody hp limits client spent body chunks trailers) : ∀ chunk ∈ chunks, chunk ≠ [] := by
  induction h with
  | chunk _ hcontent _ _ _ ih => exact List.forall_mem_cons.mpr ⟨hcontent, ih⟩
  | last => exact fun _ hmem => absurd hmem List.not_mem_nil

namespace Connection

variable {hp : Httparse} {c c' start : Connection} {text : Bytes} {events : List Event}

/-! ## Where a chunked body starts -/

theorem reader_chunked {framing : Framing} {chunk : Chunk} (h : reader framing = .chunked chunk) :
    chunk = .size 0 := by
  cases framing <;> cases h
  rfl

/-- A final response with a chunked body opens no tunnel. -/
theorem chunked_opensBody {response : Response} {framing : Framing} {chunk : Chunk}
    (hframing : c.receivedFraming response = .ok framing) (hreader : reader framing = .chunked chunk) :
    (c.finalResponseEvent response.status).opensBody = true := by
  unfold finalResponseEvent
  split
  next htunnel =>
    have hbodyless : c.responseHasNoBody response.status = true := by
      unfold responseHasNoBody
      rw [htunnel, Bool.or_true]
    unfold receivedFraming at hframing
    rw [if_pos hbodyless] at hframing
    cases hframing
    cases hreader
  next => rfl

/-- The head of a chunked message leaves the decoder before its first size line. -/
theorem head_starts {event : Event} {chunk : Chunk} (h : Reachable hp c)
    (hhead : nextEvent hp c = (.ok (.event event), c')) (hevent : event.isHead = true)
    (hchunked : c'.cycle.reader = .chunked chunk) :
    c'.peerState = .sendBody ∧ chunk = .size 0 ∧ c'.cycle.chunkExtensionBytes = 0 := by
  obtain ⟨role, limits, history, hrun⟩ := h
  obtain ⟨lines, hwatched⟩ := run_watched hrun
  have hcounted := (watchedRun_ok hwatched).counted
  have hpoll : nextEventInner hp c = (.ok (.event event), c') := by
    rcases nextEvent_event hhead with ⟨_, _, _, rfl⟩ | hinner
    · cases hevent
    · exact hinner
  obtain ⟨c1, _, _, hfirst, hturn⟩ := (nextEventInner_turns hpoll).last_turn
  have hread : c1.cycle.reader = .head → Counted [] c1 ∧ c1 = c := by
    intro hreader
    rcases hfirst with rfl | ⟨_, hinside⟩
    · exact ⟨⟨hcounted.before, fun hne => absurd hreader hne⟩, rfl⟩
    · cases hreader.symm.trans hinside
  have hzero : c1.cycle.reader = .head → c'.peerState = .sendBody → c'.cycle.chunkExtensionBytes = 0 := by
    intro hreader hpeer
    refine (hturn.counted_last (hread hreader).1 fun _ => rfl).inside ?_ ?_
    · rw [hchunked]
      nofun
    · rw [hpeer]
      nofun
  have hsends : ∀ {actor : Role}, c1.role.peer = actor → c'.state.state actor = .sendBody →
      c'.peerState = .sendBody := by
    rintro _ rfl hstate
    unfold peerState
    rw [hturn.frame.role]
    exact hstate
  cases hturn with
  | request _ hreader hrole _ _ _ hstate =>
    have hpeer := hsends (congrArg Role.peer hrole) (by
      rw [acceptedRequest_state]
      exact ConnectionState.disableKeepAliveIf_sendBody _
        ((ConnectionState.phaseLaws.own _ _ _ _ hstate).2.2.mpr rfl))
    have hzero := hzero hreader hpeer
    rw [acceptedRequest_cycle] at hchunked
    exact ⟨hpeer, reader_chunked hchunked, hzero⟩
  | @informational stop response dropped _ state _ hreader =>
    -- An informational response leaves the decoder before the next head.
    rw [(acceptedInformational_decoder response dropped stop state c1).1, hreader] at hchunked
    cases hchunked
  | @final stop response dropped framing state _ hreader hrole _ _ _ hstate hframing =>
    have hframed : reader framing = .chunked chunk := by
      rw [acceptedFinal_cycle] at hchunked
      exact hchunked
    have hpeer := hsends (congrArg Role.peer hrole) (by
      rw [acceptedFinal_state]
      exact ConnectionState.disableKeepAliveIf_sendBody _ (ConnectionState.disableKeepAliveIf_sendBody _
        (ConnectionState.disableKeepAliveIf_sendBody _
          ((ConnectionState.phaseLaws.own _ _ _ _ hstate).2.2.mpr (chunked_opensBody hframing hframed)))))
    exact ⟨hpeer, reader_chunked hframed, hzero hreader hpeer⟩
  | _ => cases hevent

/-! ## Calls beside the decoder -/

/-- The decoders of two connections, and the bytes they have, are the same. -/
structure SameDecoder (c c' : Connection) : Prop where
  role : c'.role = c.role
  limits : c'.limits = c.limits
  input : c'.input.asSlice = c.input.asSlice
  reader : c'.cycle.reader = c.cycle.reader
  progress : c'.cycle.progress = c.cycle.progress
  spent : c'.cycle.chunkExtensionBytes = c.cycle.chunkExtensionBytes

theorem SameDecoder.expects_iff (h : SameDecoder c c') {items : List Event} {trailers : Headers}
    {rest : Bytes} : c'.Expects hp text items trailers rest ↔ c.Expects hp text items trailers rest := by
  unfold Expects
  rw [h.role, h.limits, h.reader, h.spent]

theorem SameDecoder.decoding (h : SameDecoder c c') (hpeer : c'.peerState = .sendBody) (hc : c.Decoding) :
    c'.Decoding := by
  obtain ⟨_, chunk, hreader, hnotes⟩ := hc
  refine ⟨hpeer, chunk, h.reader.trans hreader, ?_⟩
  cases chunk with
  | size scanned =>
    intro more offset hoffset
    rw [h.input] at hoffset
    exact hnotes more offset hoffset
  | data | dataEnd => exact hnotes
  | trailers =>
    obtain ⟨seen, hseen, hwatched⟩ := hnotes
    refine ⟨seen, ?_, ?_⟩
    · rw [h.input]
      exact hseen
    · rw [h.progress]
      exact hwatched

theorem step_sends_decoder (hp : Httparse) {op : Op} (hop : op.sends = true) (c : Connection) :
    SameDecoder c (step hp op c).2 := by
  have houtside : SameOutside c (step hp op c).2 := step_sameOutside hop c
  have hdecoder : (step hp op c).2.cycle.reader = c.cycle.reader ∧
      (step hp op c).2.cycle.progress = c.cycle.progress ∧
      (step hp op c).2.cycle.chunkExtensionBytes = c.cycle.chunkExtensionBytes := by
    refine Lib.preserve (P := fun c' => c'.cycle.reader = c.cycle.reader ∧
      c'.cycle.progress = c.cycle.progress ∧
      c'.cycle.chunkExtensionBytes = c.cycle.chunkExtensionBytes) ?_ (step_local hop c) ⟨rfl, rfl, rfl⟩
    rintro c1 c2 h ⟨hreader, hprogress, hspent⟩
    obtain ⟨hreader', hprogress', hspent'⟩ := h.decoder
    exact ⟨hreader'.trans hreader, hprogress'.trans hprogress, hspent'.trans hspent⟩
  exact ⟨houtside.frame.role, houtside.frame.limits, congrArg Buffer.asSlice houtside.input,
    hdecoder.1, hdecoder.2.1, hdecoder.2.2⟩

theorem recordEof_decoder (c : Connection) : SameDecoder c c.recordEof := by
  unfold recordEof
  rw [disableKeepAliveIf_eq]
  exact ⟨rfl, rfl, rfl, rfl, rfl, rfl⟩

theorem Decoding.extend (hc : c.Decoding) (data : Bytes) :
    Decoding { c with input := c.input.extend data } := by
  obtain ⟨hpeer, chunk, hreader, hnotes⟩ := hc
  exact ⟨hpeer, chunk, hreader, hnotes.extend data⟩

/-- Behind the end of its message the peer has no more events than its close,
and what comes stays in the buffer. -/
theorem nextEvent_through (hp : Httparse) (hthrough : through c.peerState = true) :
    through (nextEvent hp c).2.peerState = true ∧ (nextEvent hp c).2.input.asSlice = c.input.asSlice ∧
      ∀ event, (nextEvent hp c).1 = .ok (.event event) → event = .connectionClosed := by
  rcases hpoll : nextEvent hp c with ⟨r, c'⟩
  obtain ⟨count, hdrops, hzero, _⟩ := nextEvent_input hpoll
  have hmoves := nextEvent_moves hp c
  have hrole := (nextEvent_frame hp c).role
  rw [hpoll] at hmoves hrole
  refine ⟨?_, ?_, fun event hevent => ?_⟩
  · unfold peerState
    rw [hrole]
    exact Lib.preserve (P := fun s => through (s.state c.role.peer) = true)
      (fun _ _ h hs => move_through h hs) hmoves hthrough
  · rw [hdrops.2, hzero hthrough, List.drop_zero]
  · dsimp only at hevent
    subst hevent
    have hnever : ∀ {c1 : Connection}, c1.state = c.state → SameFrame c c1 → ¬c1.Reading := by
      intro c1 hstate hframe hreading
      have hnot := hreading.not_through
      unfold peerState at hnot hthrough
      rw [hstate, hframe.role, hthrough] at hnot
      cases hnot
    unfold nextEvent at hpoll
    rcases hinner : nextEventInner hp c with ⟨error | polled, c2⟩
    · rw [hinner] at hpoll
      cases hpoll
    · rw [hinner] at hpoll
      obtain ⟨c1, hstate, hframe, _, hturn⟩ := (nextEventInner_turns hinner).last_turn
      have hnot := hnever hstate hframe
      cases polled with
      | event other =>
        cases hpoll
        cases hturn with
        | closed | idleClosed | doneClosed => rfl
        | request hreading | informational hreading | final hreading | ends hreading
        | trailers hreading => exact absurd hreading hnot
      | data count chunkStart chunkEnd =>
        cases hturn with
        | payload hreading => exact absurd hreading hnot
      | needData | paused => cases hpoll

/-! ## Runs -/

/-- What the caller does while a message comes: it receives, polls, and sends. -/
def delivers (_ : Connection) (op : Op) : Prop :=
  op.sends = true ∨ op = .nextEvent ∨ ∃ data, op = .receiveData data

/-- All the events a history has returned. -/
def eventsOf (history : List (Op × Outcome)) : List Event := history.flatMap fun entry => entry.2.events

/-- Where the decoder is once `text` has come since `start` and `events` have
been returned, and of which texts that is the beginning. -/
inductive Stage (hp : Httparse) (start : Connection) (text : Bytes) (events : List Event) (c : Connection) : Prop
  | decoding (hc : c.Decoding) (hevents : ∀ event ∈ events, event.Delivers)
      (hfollows : ∀ more all trailers rest, start.Expects hp (text ++ more) all trailers rest ↔
        ∃ later, all = splitAll events ++ later ∧
          c.Expects hp (c.input.asSlice ++ more) later trailers rest)
  | ended {datas closes : List Event} {trailers : Headers}
      (hlist : events = datas ++ .endOfMessage trailers :: closes)
      (hdatas : ∀ event ∈ datas, event.Delivers) (hcloses : ∀ event ∈ closes, event = .connectionClosed)
      (hthrough : through c.peerState = true)
      (hends : ∀ more items trailers' rest, start.Expects hp (text ++ more) items trailers' rest ↔
        items = splitAll datas ∧ trailers' = trailers ∧ rest = c.input.asSlice ++ more)
  | failed (hevents : ∀ event ∈ events, event.Delivers) (hpeer : c.peerState = .error)
      (hhopeless : ∀ more, (c.eof = true → more = []) →
        ∀ items trailers rest, ¬start.Expects hp (text ++ more) items trailers rest)

theorem Change.through (h : Change c c') (hpast : through c.peerState = true) :
    Connection.through c'.peerState = true := by
  unfold peerState
  rw [h.role]
  exact Lib.preserve (P := fun s => Connection.through (s.state c.role.peer) = true)
    (fun _ _ hmove hs => move_through hmove hs) (h.moves : Moves c.role.peer c.state c'.state) hpast

/-- A call that leaves the decoder and the peer alone. -/
theorem Stage.same (h : Stage hp start text events c) (hdecoder : SameDecoder c c')
    (hbody : c.peerState = .sendBody → c'.peerState = .sendBody)
    (hthrough : through c.peerState = true → through c'.peerState = true)
    (herror : c.peerState = .error → c'.peerState = .error)
    (heof : c.eof = true → c'.eof = true) : Stage hp start text events c' := by
  cases h with
  | decoding hc hevents hfollows =>
    refine .decoding (hdecoder.decoding (hbody hc.peer) hc) hevents fun more all trailers rest => ?_
    rw [hfollows more all trailers rest, hdecoder.input]
    simp only [hdecoder.expects_iff]
  | ended hlist hdatas hcloses hpast hends =>
    refine .ended hlist hdatas hcloses (hthrough hpast) ?_
    rw [hdecoder.input]
    exact hends
  | failed hevents hpeer hhopeless =>
    exact .failed hevents (herror hpeer) fun more hmore => hhopeless more fun hclosed => hmore (heof hclosed)

/-- More bytes, while the transport is open. -/
theorem Stage.extend (h : Stage hp start text events c) (data : Bytes) (heof : c.eof = false) :
    Stage hp start (text ++ data) events { c with input := c.input.extend data } := by
  have hinput : (c.input.extend data).asSlice = c.input.asSlice ++ data := Buffer.asSlice_extend _ _
  cases h with
  | decoding hc hevents hfollows =>
    refine .decoding (hc.extend data) hevents fun more all trailers rest => ?_
    rw [List.append_assoc, hfollows (data ++ more) all trailers rest]
    change _ ↔ ∃ later, _ ∧ c.Expects hp ((c.input.extend data).asSlice ++ more) later trailers rest
    rw [hinput, List.append_assoc]
  | ended hlist hdatas hcloses hpast hends =>
    refine .ended hlist hdatas hcloses hpast fun more items trailers' rest => ?_
    rw [List.append_assoc, hends (data ++ more) items trailers' rest]
    change _ ↔ _ ∧ _ ∧ rest = (c.input.extend data).asSlice ++ more
    rw [hinput, List.append_assoc]
  | failed hevents hpeer hhopeless =>
    refine .failed hevents hpeer fun more _ items trailers rest => ?_
    rw [List.append_assoc]
    refine hhopeless (data ++ more) (fun hclosed => ?_) items trailers rest
    rw [heof] at hclosed
    cases hclosed

theorem Stage.poll (hhp : hp.Stable) (h : Stage hp start text events c) :
    Stage hp start text (events ++ (step hp .nextEvent c).1.events) (step hp .nextEvent c).2 := by
  change Stage hp start text (events ++ (pollOutcome (nextEvent hp c)).1.events)
    (pollOutcome (nextEvent hp c)).2
  cases h with
  | decoding hc hevents hfollows =>
    rcases hpoll : nextEvent hp c with ⟨r, c'⟩
    cases nextEvent_polls hhp hc hpoll with
    | waits hafter hmore =>
      show Stage hp start text (events ++ []) c'
      rw [List.append_nil]
      refine .decoding hafter hevents fun more all trailers rest => ?_
      rw [hfollows more all trailers rest]
      have hsame : ∀ later, c.Expects hp (c.input.asSlice ++ more) later trailers rest ↔
          c'.Expects hp (c'.input.asSlice ++ more) later trailers rest := by
        intro later
        rw [hmore more later trailers rest]
        simp
      simp only [hsame]
    | @data _ bytes chunkStart chunkEnd hbytes hafter hmore =>
      refine .decoding hafter ?_ fun more all trailers rest => ?_
      · intro event hmem
        rcases List.mem_append.mp hmem with hold | hnew
        · exact hevents event hold
        · rw [List.mem_singleton.mp hnew]
          exact hbytes
      · change _ ↔ ∃ later, all = splitAll (events ++ [.data bytes chunkStart chunkEnd]) ++ later ∧ _
        rw [hfollows more all trailers rest, splitAll_append, splitAll_data]
        constructor
        · rintro ⟨later, rfl, hlater⟩
          obtain ⟨last, rfl, hlast⟩ := (hmore more later trailers rest).mp hlater
          exact ⟨last, (List.append_assoc _ _ _).symm, hlast⟩
        · rintro ⟨last, rfl, hlast⟩
          exact ⟨_, List.append_assoc _ _ _, (hmore more _ trailers rest).mpr ⟨last, rfl, hlast⟩⟩
    | @ends _ trailers hthrough hends =>
      have hlist : events ++ [.endOfMessage trailers] = events ++ .endOfMessage trailers :: [] := rfl
      refine .ended hlist hevents (by simp) hthrough fun more items trailers' rest => ?_
      rw [hfollows more items trailers' rest]
      constructor
      · rintro ⟨later, rfl, hlater⟩
        obtain ⟨rfl, htrailers, hrest⟩ := (hends more later trailers' rest).mp hlater
        exact ⟨List.append_nil _, htrailers, hrest⟩
      · rintro ⟨rfl, htrailers, hrest⟩
        exact ⟨[], (List.append_nil _).symm, (hends more [] trailers' rest).mpr ⟨rfl, htrailers, hrest⟩⟩
    | fails hfailed hhopeless =>
      show Stage hp start text (events ++ []) c'
      rw [List.append_nil]
      refine .failed hevents hfailed fun more hmore items trailers rest hexpects => ?_
      obtain ⟨later, _, hlater⟩ := (hfollows more items trailers rest).mp hexpects
      refine hhopeless more (fun hclosed => hmore ?_) later trailers rest hlater
      have heof := (nextEvent_frame hp c).eof
      rw [hpoll] at heof
      exact heof.trans hclosed
  | @ended datas closes trailers hlist hdatas hcloses hpast hends =>
    obtain ⟨hthrough, hinput, hclose⟩ := nextEvent_through hp hpast
    rcases hpoll : nextEvent hp c with ⟨r, c'⟩
    rw [hpoll] at hthrough hinput hclose
    have hlonger : events ++ (pollOutcome (r, c')).1.events =
        datas ++ .endOfMessage trailers :: (closes ++ (pollOutcome (r, c')).1.events) := by
      rw [hlist, List.append_assoc]
      rfl
    refine .ended hlonger hdatas ?_ ?_ ?_
    · intro event hmem
      rcases List.mem_append.mp hmem with hold | hnew
      · exact hcloses event hold
      · rcases r with error | next
        · cases hnew
        · cases next with
          | event other =>
            rw [List.mem_singleton.mp hnew]
            exact hclose other rfl
          | needData | paused => cases hnew
    · rw [pollOutcome_snd]
      exact hthrough
    · rw [pollOutcome_snd, hinput]
      exact hends
  | failed hevents hpeer hhopeless =>
    obtain ⟨error, hpoll⟩ : ∃ error, nextEvent hp c = (.error error, _) := nextEvent_poisoned hpeer
    rw [hpoll]
    show Stage hp start text (events ++ []) _
    rw [List.append_nil]
    exact .failed hevents (ConnectionState.processError_state _ _) hhopeless

theorem Stage.receive (h : Stage hp start text events c) (data : Bytes) :
    Stage hp start (text ++ passedBytes [(.receiveData data, (step hp (.receiveData data) c).1)]) events
      (step hp (.receiveData data) c).2 := by
  change Stage hp start (text ++ passedBytes [(_, (outcome _ (receiveData data c)).1)]) events
    (outcome _ (receiveData data c)).2
  by_cases hnil : data = []
  · subst hnil
    rw [receiveData_eof]
    show Stage hp start (text ++ []) events c.recordEof
    rw [List.append_nil]
    have hchange : Change c c.recordEof := .eof
    refine h.same (recordEof_decoder c) recordEof_inside hchange.through hchange.failedStays fun _ => ?_
    unfold recordEof
    rw [disableKeepAliveIf_eq]
  · by_cases heof : c.eof = true
    · rw [receiveData_after_eof heof hnil]
      show Stage hp start (text ++ []) events c
      rw [List.append_nil]
      exact h
    · have hopen : c.eof = false := Bool.eq_false_iff.mpr heof
      rw [receiveData_extends hopen hnil]
      show Stage hp start (text ++ (data ++ [])) events _
      rw [List.append_nil]
      exact h.extend data hopen

theorem Stage.send (h : Stage hp start text events c) {op : Op} (hop : op.sends = true) :
    Stage hp start text events (step hp op c).2 := by
  have hchanges : Changes c (step hp op c).2 := (step_local hop c).changes
  refine h.same (step_sends_decoder hp hop c) (fun hpeer => (step_sends_inside hop hpeer).1) ?_ ?_ fun heof => ?_
  · exact fun hpast => Lib.preserve (P := fun c' => through c'.peerState = true)
      (fun _ _ hchange hc => hchange.through hc) hchanges hpast
  · exact fun hpeer => Lib.preserve (P := fun c' => c'.peerState = .error)
      (fun _ _ hchange hc => hchange.failedStays hc) hchanges hpeer
  · rw [(step_sameOutside hop c).frame.eof]
    exact heof

theorem Op.sends_quiet {op : Op} (h : op.sends = true) : op.quiet = true := by
  cases op with
  | receiveData | holdBodyData | nextEventInPlace | nextEvent => cases h
  | _ => rfl

theorem Stage.step (hhp : hp.Stable) (h : Stage hp start text events c) {op : Op} (hop : delivers c op) :
    Stage hp start (text ++ passedBytes [(op, (step hp op c).1)]) (events ++ (step hp op c).1.events)
      (step hp op c).2 := by
  rcases hop with hop | rfl | ⟨data, rfl⟩
  · have hnone : passedBytes [(op, (Connection.step hp op c).1)] = [] :=
      passedBytes_other _ fun data hreceives => by
        subst hreceives
        cases hop
    rw [hnone, quiet_events (Op.sends_quiet hop), List.append_nil, List.append_nil]
    exact h.send hop
  · have hnone : passedBytes [(.nextEvent, (Connection.step hp .nextEvent c).1)] = [] :=
      passedBytes_other _ nofun
    rw [hnone, List.append_nil]
    exact h.poll hhp
  · have hnone : (Connection.step hp (.receiveData data) c).1.events = [] := by
      change (outcome (fun _ => .unit) (receiveData data c)).1.events = []
      rcases receiveData data c with ⟨error | u, c'⟩ <;> rfl
    rw [hnone, List.append_nil]
    exact h.receive data

theorem run_stage (hhp : hp.Stable) (hstart : start.Decoding) {history : List (Op × Outcome)}
    (h : Lib.Run (Connection.step hp) delivers start history c) :
    Stage hp start (start.input.asSlice ++ passedBytes history) (eventsOf history) c := by
  refine Lib.Run.invariant_history (P := fun history c =>
    Stage hp start (start.input.asSlice ++ passedBytes history) (eventsOf history) c) ?_ ?_ h
  · refine .decoding hstart (fun _ hmem => absurd hmem List.not_mem_nil) fun more all trailers rest => ?_
    change start.Expects hp (start.input.asSlice ++ [] ++ more) all trailers rest ↔ ∃ later, all = later ∧ _
    rw [List.append_nil]
    simp
  · intro history c op hstage hop
    have hnext := hstage.step hhp hop
    have hevents : eventsOf (history ++ [(op, (Connection.step hp op c).1)]) =
        eventsOf history ++ (Connection.step hp op c).1.events := by
      unfold eventsOf
      rw [List.flatMap_append, List.flatMap_cons, List.flatMap_nil, List.append_nil]
    rw [passedBytes_append, hevents, ← List.append_assoc]
    exact hnext

/-! ## Decoding and the grammar -/

/-- In front of the first size line the texts that complete the message are
those that begin with a chunked body. -/
theorem expects_iff (hreader : start.cycle.reader = .chunked (.size 0))
    (hspent : start.cycle.chunkExtensionBytes = 0) {items : List Event} {trailers : Headers} {rest : Bytes} :
    start.Expects hp text items trailers rest ↔ ∃ body chunks, text = body ++ rest ∧
      items = chunkItems chunks ∧
      ChunkedBody hp start.limits (start.role == .client) 0 body chunks trailers := by
  constructor
  · intro h
    have hcompletes := h.completes hreader
    rw [hspent] at hcompletes
    exact hcompletes
  · intro h
    refine ⟨_, hreader, ?_⟩
    rw [hspent]
    exact h

/-- The end of the message has been reported. -/
theorem Stage.reported {trailers : Headers} (h : Stage hp start text events c)
    (hmem : .endOfMessage trailers ∈ events) : ∃ datas closes,
      events = datas ++ .endOfMessage trailers :: closes ∧ (∀ event ∈ datas, event.Delivers) ∧
      (∀ event ∈ closes, event = .connectionClosed) ∧
      ∀ items trailers' rest, start.Expects hp text items trailers' rest ↔
        items = splitAll datas ∧ trailers' = trailers ∧ rest = c.input.asSlice := by
  cases h with
  | decoding _ hevents => exact (hevents _ hmem).elim
  | failed hevents => exact (hevents _ hmem).elim
  | @ended datas closes found hlist hdatas hcloses _ hends =>
    have hfound : trailers = found := by
      rw [hlist, List.mem_append, List.mem_cons] at hmem
      rcases hmem with hdata | hhere | hclose
      · exact (hdatas _ hdata).elim
      · cases hhere
        rfl
      · cases hcloses _ hclose
    subst hfound
    refine ⟨datas, closes, hlist, hdatas, hcloses, fun items trailers' rest => ?_⟩
    have hnow := hends [] items trailers' rest
    rw [List.append_nil, List.append_nil] at hnow
    exact hnow

/-- A poll that does not deliver finds the end of the message, fails because it
cannot come any more, or waits for it. -/
theorem Stage.poll_cases (hhp : hp.Stable) (h : Stage hp start text events c) {outcome : Outcome}
    (hpoll : Connection.step hp .nextEvent c = (outcome, c'))
    (hdata : ∀ data chunkStart chunkEnd, outcome ≠ .polled (.event (.data data chunkStart chunkEnd))) :
    (∃ trailers, .endOfMessage trailers ∈ events ++ outcome.events) ∨
    ((∀ items trailers rest, ¬start.Expects hp text items trailers rest) ∧
      ((∃ error, outcome = .failed error) ∨ (outcome = .polled .needData ∧ c'.eof = false))) := by
  change pollOutcome (nextEvent hp c) = (outcome, c') at hpoll
  cases h with
  | @decoding hc hevents hfollows =>
    have hnow : ∀ {items trailers rest}, start.Expects hp text items trailers rest →
        ∃ later, c.Expects hp (c.input.asSlice ++ []) later trailers rest := by
      intro items trailers rest hexpects
      rw [← List.append_nil text] at hexpects
      obtain ⟨later, _, hlater⟩ := (hfollows [] items trailers rest).mp hexpects
      exact ⟨later, hlater⟩
    have hframe := nextEvent_frame hp c
    rcases hnext : nextEvent hp c with ⟨r, d⟩
    rw [hnext] at hpoll hframe
    cases nextEvent_polls hhp hc hnext with
    | waits _ _ heof hunfinished =>
      cases hpoll
      refine Or.inr ⟨fun items trailers rest hexpects => ?_, Or.inr ⟨rfl, hframe.eof.trans heof⟩⟩
      obtain ⟨later, hlater⟩ := hnow hexpects
      rw [List.append_nil] at hlater
      exact hunfinished _ _ _ hlater
    | data =>
      cases hpoll
      exact absurd rfl (hdata _ _ _)
    | @ends _ trailers =>
      cases hpoll
      exact Or.inl ⟨trailers, List.mem_append_right _ (List.mem_singleton.mpr rfl)⟩
    | @fails _ error _ hhopeless =>
      cases hpoll
      refine Or.inr ⟨fun items trailers rest hexpects => ?_, Or.inl ⟨error, rfl⟩⟩
      obtain ⟨later, hlater⟩ := hnow hexpects
      exact hhopeless [] (fun _ => rfl) _ _ _ hlater
  | @ended datas closes trailers hlist =>
    refine Or.inl ⟨trailers, List.mem_append_left _ ?_⟩
    rw [hlist]
    exact List.mem_append_right _ (List.mem_cons_self ..)
  | failed _ hpeer hhopeless =>
    obtain ⟨error, hnext⟩ : ∃ error, nextEvent hp c = (.error error, _) := nextEvent_poisoned hpeer
    rw [hnext] at hpoll
    cases hpoll
    refine Or.inr ⟨fun items trailers rest hexpects => ?_, Or.inl ⟨error, rfl⟩⟩
    rw [← List.append_nil text] at hexpects
    exact hhopeless [] (fun _ => rfl) _ _ _ hexpects

/-- From the head of a chunked message on, whatever the segments are and
whenever it is polled: the end of the message is reported only if the bytes
begin with a chunked body, and once a poll has nothing more to deliver it has
been reported if they do, with the chunks, the trailers and the rest of the
bytes that the grammar gives them; otherwise that poll waits, with the
transport open, or fails. -/
theorem chunked_decoder_is_its_grammar (hhp : hp.Stable) {event : Event} {chunk : Chunk}
    (h : Reachable hp c) (hhead : nextEvent hp c = (.ok (.event event), start))
    (hevent : event.isHead = true) (hchunked : start.cycle.reader = .chunked chunk)
    {history : List (Op × Outcome)} {d : Connection}
    (hrun : Lib.Run (step hp) delivers start history d) :
    (∀ trailers, .endOfMessage trailers ∈ eventsOf history → ∃ body rest chunks,
      start.input.asSlice ++ passedBytes history = body ++ rest ∧
      ChunkedBody hp start.limits (start.role == .client) 0 body chunks trailers) ∧
    ∀ before outcome, history = before ++ [(.nextEvent, outcome)] →
      (∀ data chunkStart chunkEnd, outcome ≠ .polled (.event (.data data chunkStart chunkEnd))) →
      (∀ body rest chunks trailers, start.input.asSlice ++ passedBytes history = body ++ rest →
        ChunkedBody hp start.limits (start.role == .client) 0 body chunks trailers →
        ∃ datas closes, eventsOf history = datas ++ .endOfMessage trailers :: closes ∧
          BodyEvents chunks datas ∧ datas.flatMap Event.bytes = chunks.flatten ∧
          (∀ event ∈ closes, event = .connectionClosed) ∧ d.input.asSlice = rest) ∧
      ((∀ body rest chunks trailers, start.input.asSlice ++ passedBytes history = body ++ rest →
          ¬ChunkedBody hp start.limits (start.role == .client) 0 body chunks trailers) →
        (∃ error, outcome = .failed error) ∨ (outcome = .polled .needData ∧ d.eof = false)) := by
  obtain ⟨hpeer, rfl, hspent⟩ := head_starts h hhead hevent hchunked
  have hstart : start.Decoding := ⟨hpeer, _, hchunked, fun _ _ _ => Nat.zero_le _⟩
  have hstage := run_stage hhp hstart hrun
  refine ⟨fun trailers hmem => ?_, fun before outcome hhistory hdata => ?_⟩
  · obtain ⟨datas, _, _, _, _, hexpects⟩ := hstage.reported hmem
    obtain ⟨body, chunks, htext, _, hbody⟩ :=
      (expects_iff hchunked hspent).mp ((hexpects (splitAll datas) trailers _).mpr ⟨rfl, rfl, rfl⟩)
    exact ⟨body, _, chunks, htext, hbody⟩
  · have hlast := hrun
    rw [hhistory] at hlast
    obtain ⟨s, hbefore, _, hpoll⟩ := hlast.last
    have hstageBefore := run_stage hhp hstart hbefore
    have hnone : passedBytes [(.nextEvent, outcome)] = [] := passedBytes_other _ nofun
    have htext : passedBytes history = passedBytes before := by
      rw [hhistory, passedBytes_append, hnone, List.append_nil]
    have hevents : eventsOf history = eventsOf before ++ outcome.events := by
      rw [hhistory]
      unfold eventsOf
      rw [List.flatMap_append, List.flatMap_cons, List.flatMap_nil, List.append_nil]
    rcases hstageBefore.poll_cases hhp hpoll hdata with ⟨trailers, hmem⟩ | ⟨hnever, hends⟩
    · rw [← hevents] at hmem
      obtain ⟨datas, closes, hlist, hdatas, hcloses, hexpects⟩ := hstage.reported hmem
      refine ⟨fun body rest chunks trailers' hsplit hbody => ?_, fun hno => ?_⟩
      · obtain ⟨hitems, rfl, hrest⟩ := (hexpects (chunkItems chunks) trailers' rest).mp
          ((expects_iff hchunked hspent).mpr ⟨body, chunks, hsplit, rfl, hbody⟩)
        have hpieces := bodyEvents_of_split hdatas hbody.chunks_ne_nil hitems.symm
        exact ⟨datas, closes, hlist, hpieces, hpieces.bytes, hcloses, hrest.symm⟩
      · obtain ⟨body, chunks, hsplit, _, hbody⟩ :=
          (expects_iff hchunked hspent).mp ((hexpects (splitAll datas) trailers _).mpr ⟨rfl, rfl, rfl⟩)
        exact absurd hbody (hno body _ chunks trailers hsplit)
    · refine ⟨fun body rest chunks trailers hsplit hbody => ?_, fun _ => hends⟩
      rw [htext] at hsplit
      exact absurd ((expects_iff hchunked hspent).mpr ⟨body, chunks, hsplit, rfl, hbody⟩) (hnever _ _ _)

/-- A server that has returned the head of a chunked request. -/
def chunkedStart : Connection :=
  (nextEvent Reference.httparse
    (Lib.trace (step Reference.httparse) (new .server .default) [.receiveData chunkedPostHead]).2).2

/-- A chunk of two bytes in two segments, the last chunk, and a byte more. -/
def splitChunk : List Op :=
  [.receiveData (ascii "2;a=b\r\nh"), .nextEvent, .receiveData (ascii "i\r\n0\r\n\r\nX"), .nextEvent]

def splitChunkRun : List (Op × Outcome) × Connection :=
  Lib.trace (step Reference.httparse) chunkedStart splitChunk

/-- Whether a poll has returned a head. -/
def returnsHead : Except RemoteProtocolError NextEvent → Bool
  | .ok (.event event) => event.isHead
  | _ => false

/-- The trailers of an `EndOfMessage`. -/
def trailersOf : Outcome → Option Headers
  | .polled (.event (.endOfMessage trailers)) => some trailers
  | _ => none

/-- A server reads the chunk, and leaves the byte behind the message alone. -/
theorem split_chunk_is_decoded : ∃ (d : Connection) (history : List (Op × Outcome)) (body : Bytes)
    (chunks : List Bytes) (trailers : Headers) (datas closes : List Event),
    Lib.Run (step Reference.httparse) delivers chunkedStart history d ∧
    chunkedStart.input.asSlice ++ passedBytes history = body ++ ascii "X" ∧
    ChunkedBody Reference.httparse chunkedStart.limits (chunkedStart.role == .client) 0 body chunks trailers ∧
    eventsOf history = datas ++ .endOfMessage trailers :: closes ∧ BodyEvents chunks datas := by
  have hbegins : Run Reference.httparse anyCall .server .default _ _ :=
    Lib.Run.trace_of_forall _ [.receiveData chunkedPostHead] fun _ _ => trivial
  obtain ⟨hreturns, hreader, hends, hinput⟩ : returnsHead (nextEvent Reference.httparse
        (Lib.trace (step Reference.httparse) (new .server .default) [.receiveData chunkedPostHead]).2).1 = true ∧
      chunkedStart.cycle.reader = .chunked (.size 0) ∧
      (trailersOf (step Reference.httparse .nextEvent splitChunkRun.2).1).isSome = true ∧
      (step Reference.httparse .nextEvent splitChunkRun.2).2.input.asSlice = ascii "X" := by
    decide +kernel
  obtain ⟨event, hhead, hevent⟩ : ∃ event, nextEvent Reference.httparse
      (Lib.trace (step Reference.httparse) (new .server .default) [.receiveData chunkedPostHead]).2 =
        (.ok (.event event), chunkedStart) ∧ event.isHead = true := by
    unfold chunkedStart
    generalize nextEvent Reference.httparse (Lib.trace (step Reference.httparse) (new .server .default)
      [.receiveData chunkedPostHead]).2 = polled at hreturns ⊢
    rcases polled with ⟨error | next, c'⟩
    · cases hreturns
    · cases next with
      | event event => exact ⟨event, rfl, hreturns⟩
      | needData | paused => cases hreturns
  obtain ⟨trailers, hlast⟩ : ∃ trailers, (step Reference.httparse .nextEvent splitChunkRun.2).1 =
      .polled (.event (.endOfMessage trailers)) := by
    generalize (step Reference.httparse .nextEvent splitChunkRun.2).1 = outcome at hends
    unfold trailersOf at hends
    split at hends
    next trailers => exact ⟨trailers, rfl⟩
    next => cases hends
  have hdelivers : Lib.Permitted (step Reference.httparse) delivers chunkedStart splitChunk :=
    ⟨Or.inr (Or.inr ⟨_, rfl⟩), Or.inr (Or.inl rfl), Or.inr (Or.inr ⟨_, rfl⟩), Or.inr (Or.inl rfl), trivial⟩
  have hreads : Lib.Run (step Reference.httparse) delivers chunkedStart splitChunkRun.1 splitChunkRun.2 :=
    Lib.Run.trace chunkedStart splitChunk hdelivers
  have hrun := hreads.step .nextEvent (Or.inr (Or.inl rfl))
  obtain ⟨hsound, hcomplete⟩ :=
    chunked_decoder_is_its_grammar Reference.stable ⟨_, _, _, hbegins⟩ hhead hevent hreader hrun
  rw [hlast] at hsound hcomplete hrun
  obtain ⟨body, rest, chunks, htext, hbody⟩ := hsound trailers (by
    unfold eventsOf
    rw [List.flatMap_append]
    exact List.mem_append_right _ (List.mem_singleton.mpr rfl))
  obtain ⟨datas, closes, hevents, hpieces, _, _, hrest⟩ :=
    (hcomplete _ _ rfl (by simp)).1 body rest chunks trailers htext hbody
  rw [← hrest, hinput] at htext
  exact ⟨_, _, body, chunks, trailers, datas, closes, hrun, htext, hbody, hevents, hpieces⟩

end Connection

end H11r
