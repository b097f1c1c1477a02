import H11r.Connection.Drain
import H11r.Connection.Held
import H11r.Connection.Listener

/-!
# The messages a connection reports

No run stops the listener (`reported_messages_are_whole`). A turn of the decoder
that reports something moves the peer's actor, the reader and the notes of the
listener together (`Turn.heard`), and held bytes that are handed over count as
if they had been read (`nextEventInPlace_heard`). That they are payload at all
rests on `HeldFits`, and that an answer is never heard before its question on
`AsksFirst`.
-/

namespace H11r.Connection

open Lib (Call)

variable {hp : Httparse} {c c' : Connection} {l : Listener}

/-! ## Turns of the decoder -/

/-- What a poll tells before it takes the bytes of a piece of body. -/
def hearPoll (role : Role) (l : Listener) : Polled → Option Listener
  | .event event => l.event role event
  | .data count chunkStart chunkEnd => l.data count chunkStart chunkEnd
  | .needData => if l.heard.mayWait then some l else none
  | .paused => if l.heard.mayPause then some l else none

/-- The peer of a client does not wait for a request that has been sent. -/
def AsksFirst (c : Connection) : Prop :=
  c.role = .client → c.state.server = .idle → c.state.client = .idle

theorem SameReader.heard {old new : Reader} (h : SameReader old new) : new.heard = old.heard := by
  rcases h with rfl | ⟨_, _, rfl, rfl⟩ <;> rfl

/-- A reader that expects a head has heard none. -/
theorem Attends.at_head (hl : Attends l c) (hc : c.LayersAgree) (hreading : c.Reading)
    (hreader : c.cycle.reader = .head) : l.heard = .head := by
  have hheard := hl.heard
  rcases hreading with ⟨hpeer, _⟩ | hpeer | hpeer
  · rw [hpeer] at hheard
    exact hheard
  · rw [hpeer] at hheard
    exact hheard
  · exact absurd hreader (Agrees.body hc hpeer)

/-- Inside a body the listener expects what the reader does. -/
theorem Attends.in_body (hl : Attends l c) (hc : c.LayersAgree) (hreading : c.Reading)
    (hreader : c.cycle.reader ≠ .head) :
    c.peerState = .sendBody ∧ l.heard = c.cycle.reader.heard := by
  have hpeer := hc.reading_body hreading hreader
  have hheard := hl.heard
  rw [hpeer] at hheard
  exact ⟨hpeer, hheard⟩

/-- Where a reader reads, more may come, and it may be wrong. -/
theorem Attends.reading (hl : Attends l c) (hreading : c.Reading) :
    l.heard.mayWait = true ∧ l.heard.mayFail = true := by
  have hheard := hl.heard
  rcases hreading with ⟨hpeer, _⟩ | hpeer | hpeer
  · rw [hpeer] at hheard
    rw [show l.heard = .head from hheard]
    exact ⟨rfl, rfl⟩
  · rw [hpeer] at hheard
    rw [show l.heard = .head from hheard]
    exact ⟨rfl, rfl⟩
  · rw [hpeer] at hheard
    rw [show l.heard = c.cycle.reader.heard from hheard]
    cases c.cycle.reader with
    | head | fixed | closeDelimited => exact ⟨rfl, rfl⟩
    | chunked chunk => cases chunk <;> exact ⟨rfl, rfl⟩

/-- The decoder's tail calls tell nothing. -/
theorem Turn.again_attends (h : Turn hp c (.ok none) c') (hc : c.LayersAgree) (hl : Attends l c) :
    Attends l c' := by
  cases h with
  | @sizeLine scanned stop size extensionBytes hreading hreader =>
    have hheard := (hl.in_body hc hreading (by rw [hreader]; nofun)).2
    rw [hreader] at hheard
    have hpeer := hc.reading_body hreading (by rw [hreader]; nofun)
    refine ⟨hl.kind, ?_, hl.unasked, hl.asked⟩
    show Heard.Describes l.heard c.peerState _
    rw [hpeer, hheard]
    by_cases hzero : size = 0
    · rw [show (c.afterSizeLine stop size extensionBytes).cycle.reader =
        .chunked .trailers from if_pos hzero]
      rfl
    · rw [show (c.afterSizeLine stop size extensionBytes).cycle.reader =
        .chunked (.data size true) from
        if_neg hzero]
      rfl
  | dataEnd hreading hreader =>
    obtain ⟨hpeer, hheard⟩ := hl.in_body hc hreading (by rw [hreader]; nofun)
    rw [hreader] at hheard
    refine ⟨hl.kind, ?_, hl.unasked, hl.asked⟩
    show Heard.Describes l.heard c.peerState _
    rw [hpeer, hheard]
    rfl

/-- A piece of body, and what is left of it. -/
theorem Attends.data {count : Nat} (hl : Attends l c) (hpeer : c.peerState = .sendBody)
    (hcount : count ≠ 0)
    (hroom : c.cycle.reader.Room count)
    (hreader : c'.cycle.reader = c.cycle.reader.after count)
    (hkind : c'.cycle.requestKind = c.cycle.requestKind)
    (hstate : c'.state = c.state) (hrole : c'.role = c.role) :
    ∃ l', l.data count c.cycle.reader.startsChunk (c.cycle.reader.endsChunk count) = some l' ∧
      Attends l' c' := by
  have hheard := hl.heard
  rw [hpeer] at hheard
  have hheard : l.heard = c.cycle.reader.heard := hheard
  have hafter : l.heard.data count c.cycle.reader.startsChunk (c.cycle.reader.endsChunk count) =
      some c'.cycle.reader.heard := by
    rw [hheard, hreader]
    cases hbefore : c.cycle.reader with
    | head =>
      rw [hbefore] at hroom
      exact hroom.elim
    | closeDelimited => rfl
    | fixed remaining =>
      rw [hbefore] at hroom
      exact if_pos ⟨hroom, rfl, rfl⟩
    | chunked chunk =>
      cases chunk with
      | size | dataEnd | trailers =>
        rw [hbefore] at hroom
        exact hroom.elim
      | data remaining first =>
        rw [Reader.after_data first hcount]
        show (if first = !!first then some (Heard.chunked !decide (count = remaining)) else none) =
          _
        rw [if_pos (Bool.not_not first).symm]
        by_cases hend : count = remaining
        · rw [if_pos hend, decide_eq_true hend]
          rfl
        · rw [if_neg hend, decide_eq_false hend]
          rfl
  refine ⟨{ l with heard := c'.cycle.reader.heard }, ?_, hkind.trans hl.kind, ?_, ?_, ?_⟩
  · unfold Listener.data
    rw [if_neg hcount, hafter]
    rfl
  · unfold peerState at hpeer ⊢
    rw [hrole, hstate, hpeer]
    rfl
  · rw [hstate]
    exact hl.unasked
  · rw [hstate]
    exact hl.asked

/-- What is noted of the next thing heard. -/
theorem Attends.next {heard : Heard} (hl : Attends l c)
    (hkind : c'.cycle.requestKind = c.cycle.requestKind) (hserver : NotAsked c.state c'.state)
    (hheard : heard.Describes c'.peerState c'.cycle.reader) :
    Attends { l with heard := heard } c' :=
  ⟨hkind.trans hl.kind, hheard, fun hidle => hl.unasked (hserver.idle hidle),
    fun hasked => hl.asked (hserver.asked hasked)⟩

theorem Attends.at_peer {peer : State} (hl : Attends l c) (hpeer : c.peerState = peer) :
    l.heard.Describes peer c.cycle.reader := by
  rw [← hpeer]
  exact hl.heard

/-- The decoder takes a piece of the payload that is there, and a whole one. -/
theorem advancePayload_takes {available : Nat} (hopen : c.ChunkOpen) (havailable : available ≠ 0)
    (hreader : (∃ remaining, c.cycle.reader = .fixed (remaining + 1)) ∨
      (∃ remaining first, c.cycle.reader = .chunked (.data remaining first)) ∨
      c.cycle.reader = .closeDelimited) :
    ∃ count, count ≠ 0 ∧ c.cycle.reader.Room count ∧ c.advancePayload available =
      ((count, c.cycle.reader.startsChunk, c.cycle.reader.endsChunk count),
        c.setReader (c.cycle.reader.after count)) := by
  have hpos := advancePayload_pos hopen havailable hreader
  have hpart : c.cycle.reader.Room (c.advancePayload available).1.1 ∧
      c.advancePayload available = c.advancePayload (c.advancePayload available).1.1 := by
    unfold advancePayload
    rcases hreader with ⟨remaining, hreader⟩ | ⟨remaining, first, hreader⟩ | hreader
    · rw [hreader]
      dsimp only
      rw [Nat.min_eq_right (Nat.min_le_left (remaining + 1) available)]
      exact ⟨Nat.min_le_left _ _, rfl⟩
    · rw [hreader]
      dsimp only
      rw [Nat.min_eq_right (Nat.min_le_left remaining available)]
      exact ⟨Nat.min_le_left _ _, rfl⟩
    · rw [hreader]
      exact ⟨trivial, rfl⟩
  exact ⟨_, Nat.ne_of_gt hpos, hpart.1,
    hpart.2.trans (advancePayload_room hpart.1 (Nat.ne_of_gt hpos))⟩

/-! ### Heads -/

theorem Turn.request_heard {stop : Nat} {request : Request} {framing : Framing}
    {state : ConnectionState} (hhead : l.heard = .head) (hrole : c.role = .server)
    (hframing : (Fields.scan request.headers).framing request.httpVersion false = .ok framing)
    (hstate : c.state.processEvent .client (requestEvent request.method
      (offeredUpgrades request (Fields.scan request.headers))) = some state) :
    ∃ l', l.request request = some l' ∧
      Attends l' (acceptedRequest request framing state (c.consumeSection stop)) := by
  obtain ⟨_, _, hclient, hserver⟩ := ConnectionState.heardLaws.asks _ _ _ hstate
  have hafter := acceptedRequest_state request framing state (c.consumeSection stop)
  -- An actor in the middle of its message stays there when reuse is turned off.
  have hpeer : (acceptedRequest request framing state (c.consumeSection stop)).state.client =
      .sendBody := by
    have hfollows := ConnectionState.disableIf_follows .client
      (!(Fields.scan request.headers).persistent request.httpVersion) state
    rw [← hafter] at hfollows
    change state.client.follows _ = true at hfollows
    rw [hclient] at hfollows
    exact eq_of_beq hfollows
  have hasked : (acceptedRequest request framing state (c.consumeSection stop)).state.server =
      .sendResponse := by
    have hfollows := ConnectionState.disableIf_follows .server
      (!(Fields.scan request.headers).persistent request.httpVersion) state
    rw [← hafter] at hfollows
    change state.server.follows _ = true at hfollows
    rw [hserver] at hfollows
    exact eq_of_beq hfollows
  have hsame : (acceptedRequest request framing state (c.consumeSection stop)).role = .server := by
    unfold acceptedRequest recordRequest
    rw [disableKeepAliveIf_eq]
    exact hrole
  refine ⟨⟨some (RequestKind.fromMethod request.method.asBytes), .ofFraming framing⟩, ?_, ?_,
    ?_, ?_, nofun⟩
  · unfold Listener.request
    rw [hhead, hframing]
  · rw [acceptedRequest_cycle]
  · unfold peerState
    rw [hsame]
    change Heard.Describes _ (acceptedRequest request framing state _).state.client _
    rw [hpeer, acceptedRequest_cycle]
    exact (reader_heard framing).symm
  · intro hidle
    rw [hasked] at hidle
    cases hidle

theorem informationalEvent_kinds {status : StatusCode} {version : Version} {headers : Headers}
    {event : StateEvent} (h : c.informationalEvent status version headers = some event) :
    (status.asU16 ≠ 101 ∧ event = .informationalResponse) ∨
      (status.asU16 = 101 ∧ event = .protocolSwitch .upgrade) := by
  unfold informationalEvent at h
  split at h
  next hstatus =>
    cases h
    exact Or.inl ⟨hstatus, rfl⟩
  next hstatus =>
    split at h
    · cases h
      exact Or.inr ⟨Decidable.not_not.mp hstatus, rfl⟩
    · cases h

/-- The request is known once the server is asked it. -/
theorem Attends.asked_kind (hl : Attends l c) {dropped : Bool}
    (hserver : (c.state.disableKeepAliveIf dropped).server = .sendResponse) :
    ∃ kind, l.kind = some kind :=
  Option.ne_none_iff_exists'.mp
    (hl.asked ((ConnectionState.disableIf_notAsked dropped c.state).asked hserver))

theorem Turn.informational_heard {stop : Nat} {response : Response} {dropped : Bool}
    {event : StateEvent} {state : ConnectionState} (hl : Attends l c) (hhead : l.heard = .head)
    (hrole : c.role = .client) (hstatus : response.status.isInformational = true)
    (hevent : c.informationalEvent response.status response.httpVersion response.headers =
      some event)
    (hstate : (c.state.disableKeepAliveIf dropped).processEvent .server event = some state) :
    ∃ l', l.informationalResponse response = some l' ∧
    Attends l' (acceptedInformational response state
      ((c.disableKeepAliveIf dropped).consumeSection stop)) := by
  have hafter := acceptedInformational_state response state
    ((c.disableKeepAliveIf dropped).consumeSection stop)
  have hfollows := ConnectionState.disableIf_follows .server
    (isFaulty ((Fields.scan response.headers).framing response.httpVersion true)) state
  rw [← hafter] at hfollows
  change state.server.follows _ = true at hfollows
  have hnotes : (acceptedInformational response state
      ((c.disableKeepAliveIf dropped).consumeSection stop)).cycle.requestKind =
        c.cycle.requestKind ∧
      (acceptedInformational response state
        ((c.disableKeepAliveIf dropped).consumeSection stop)).role = .client := by
    unfold acceptedInformational recordInformational
    simp only [disableKeepAliveIf_eq]
    split <;> exact ⟨rfl, hrole⟩
  have hserver : NotAsked c.state (acceptedInformational response state
      ((c.disableKeepAliveIf dropped).consumeSection stop)).state := by
    rw [hafter]
    refine ((ConnectionState.disableIf_notAsked dropped c.state).trans
      (ConnectionState.heardLaws.notAsked _ _ _ _ hstate ?_)).trans
      (ConnectionState.disableIf_notAsked _ _)
    rcases informationalEvent_kinds hevent with ⟨_, rfl⟩ | ⟨_, rfl⟩ <;> rfl
  -- A 101 leaves nothing of HTTP; any other 1xx leaves the listener where it is.
  rcases informationalEvent_kinds hevent with ⟨hother, rfl⟩ | ⟨hswitch, rfl⟩
  · obtain ⟨hasked, hstays⟩ := ConnectionState.heardLaws.informs _ _ hstate
    obtain ⟨kind, hkind⟩ := hl.asked_kind hasked
    rw [hstays] at hfollows
    refine ⟨l, ?_, hl.next hnotes.1 hserver ?_⟩
    · unfold Listener.informationalResponse
      rw [hhead, hkind]
      dsimp only
      rw [if_neg (by rw [hstatus]; nofun), if_neg hother]
    · unfold peerState
      rw [hnotes.2]
      change Heard.Describes _ ((acceptedInformational response state _).state.state .server) _
      rw [eq_of_beq hfollows]
      exact hhead
  · obtain ⟨hasked, hswitched⟩ := ConnectionState.heardLaws.switches _ _ _ hstate
    obtain ⟨kind, hkind⟩ := hl.asked_kind hasked
    rw [hswitched] at hfollows
    refine ⟨{ l with heard := .switched }, ?_, hl.next hnotes.1 hserver ?_⟩
    · unfold Listener.informationalResponse
      rw [hhead, hkind]
      dsimp only
      rw [if_neg (by rw [hstatus]; nofun), if_pos hswitch]
    · unfold peerState
      rw [hnotes.2]
      change Heard.Describes _ ((acceptedInformational response state _).state.state .server) _
      rw [eq_of_beq hfollows]
      exact Or.inr rfl

/-- The body that the decoder expects after a response is the one it announces. -/
theorem answer_of {kind : RequestKind} {response : Response} {framing : Framing}
    (hkind : c.cycle.requestKind = some kind) (hstatus : response.status.isInformational = false)
    (hframing : c.receivedFraming response = .ok framing) : Heard.answer kind response =
      some (if c.opensTunnel response.status = true then .switched else .ofFraming framing) := by
  have htunnel : c.opensTunnel response.status = true ↔
      kind = .connect ∧ response.status.isSuccess = true := by
    unfold opensTunnel requestIs
    rw [hkind, Bool.and_eq_true, beq_iff_eq, Option.some.injEq]
  unfold Heard.answer
  rw [if_neg (by rw [hstatus]; nofun)]
  -- The tests come in the order of the source: a tunnel, no body, then the fields.
  by_cases hopens : c.opensTunnel response.status = true
  · rw [if_pos (htunnel.mp hopens), if_pos hopens]
  · rw [if_neg (fun h => hopens (htunnel.mpr h)), if_neg hopens]
    have hbodyless : c.responseHasNoBody response.status = true ↔
        response.status.asU16 = 204 ∨ response.status.asU16 = 304 ∨ kind = .head := by
      unfold responseHasNoBody requestIs
      rw [Bool.or_eq_true, Bool.or_eq_true, Bool.or_eq_true, beq_iff_eq, beq_iff_eq,
        beq_iff_eq, hkind,
        Option.some.injEq, or_assoc, or_assoc]
      exact or_congr_right (or_congr_right (or_iff_left hopens))
    unfold receivedFraming at hframing
    by_cases hnone : c.responseHasNoBody response.status = true
    · rw [if_pos hnone] at hframing
      cases hframing
      rw [if_pos (hbodyless.mp hnone)]
      rfl
    · rw [if_neg hnone] at hframing
      rw [if_neg (fun h => hnone (hbodyless.mpr h)), hframing]

theorem Turn.final_heard {stop : Nat} {response : Response} {dropped : Bool} {framing : Framing}
    {state : ConnectionState} (hl : Attends l c) (hhead : l.heard = .head) (hasks : c.AsksFirst)
    (hrole : c.role = .client) (hlocal : (c.disableKeepAliveIf dropped).localState ≠ .idle)
    (hstatus : response.status.isInformational = false)
    (hstate : (c.state.disableKeepAliveIf dropped).processEvent .server
      (c.finalResponseEvent response.status) = some state)
    (hframing : c.receivedFraming response = .ok framing) :
    ∃ l', l.response response = some l' ∧ Attends l' (acceptedFinal response framing state
      ((c.disableKeepAliveIf dropped).consumeSection stop)) := by
  have hcycle : ((c.disableKeepAliveIf dropped).consumeSection stop).cycle =
      { c.cycle with progress := .new } := by
    cases dropped <;> rfl
  have hnotes := acceptedFinal_cycle response framing state
    ((c.disableKeepAliveIf dropped).consumeSection stop)
  rw [hcycle] at hnotes
  have hsame : (acceptedFinal response framing state
      ((c.disableKeepAliveIf dropped).consumeSection stop)).role = .client := by
    unfold acceptedFinal countedFinal
    simp only [disableKeepAliveIf_eq]
    exact hrole
  have hafter := acceptedFinal_state response framing state
    ((c.disableKeepAliveIf dropped).consumeSection stop)
  -- Three things may turn reuse off, and none of them moves a server that is in its
  -- message.
  have hchain : ∀ s : ConnectionState, s.server.follows (((s.disableKeepAliveIf
      !((Fields.scan response.headers).persistent response.httpVersion)).disableKeepAliveIf
      (((c.disableKeepAliveIf dropped).consumeSection stop).responseHasNoBody response.status &&
        isFaulty ((Fields.scan response.headers).framing response.httpVersion true))
      ).disableKeepAliveIf (framing == .closeDelimited)).server = true := fun s =>
    State.follows_trans (State.follows_trans (ConnectionState.disableIf_follows .server _ s)
      (ConnectionState.disableIf_follows .server _ _))
        (ConnectionState.disableIf_follows .server _ _)
  have hfollows := hchain state
  rw [← hafter] at hfollows
  have hserver : NotAsked c.state (acceptedFinal response framing state
      ((c.disableKeepAliveIf dropped).consumeSection stop)).state := by
    rw [hafter]
    refine ((((ConnectionState.disableIf_notAsked dropped c.state).trans
      (ConnectionState.heardLaws.notAsked _ _ _ _ hstate ?_)).trans
      (ConnectionState.disableIf_notAsked _ _)).trans
        (ConnectionState.disableIf_notAsked _ _)).trans
      (ConnectionState.disableIf_notAsked _ _)
    unfold finalResponseEvent
    split <;> rfl
  -- A server that is answered about nothing would still be idle, and so would the client.
  have hidle : (c.state.disableKeepAliveIf dropped).server ≠ .idle := by
    intro hidle
    have hbefore := (ConnectionState.disableIf_notAsked dropped c.state).idle hidle
    have hclient := hasks hrole hbefore
    refine hlocal ?_
    unfold localState
    rw [disableKeepAliveIf_role, disableKeepAliveIf_state, hrole]
    cases dropped with
    | false => exact hclient
    | true => exact ConnectionState.heardLaws.idle _ hbefore hclient
  have hkinds : (c.state.disableKeepAliveIf dropped).server = .sendResponse ∧ state.server =
      if c.opensTunnel response.status = true then .switchedProtocol else .sendBody := by
    unfold finalResponseEvent at hstate
    by_cases hopens : c.opensTunnel response.status = true
    · rw [if_pos hopens] at hstate ⊢
      exact ConnectionState.heardLaws.switches _ _ _ hstate
    · rw [if_neg hopens] at hstate ⊢
      obtain ⟨hbefore, hsends⟩ := ConnectionState.heardLaws.responds _ _ hstate
      exact ⟨hbefore.resolve_left hidle, hsends⟩
  obtain ⟨kind, hkind⟩ := hl.asked_kind hkinds.1
  have hanswer := answer_of (hl.kind.trans hkind) hstatus hframing
  refine ⟨{ l with heard :=
    if c.opensTunnel response.status = true then .switched else .ofFraming framing }, ?_,
    hl.next (by rw [hnotes]) hserver ?_⟩
  · unfold Listener.response
    rw [hhead, hkind]
    dsimp only
    rw [hanswer]
    rfl
  · unfold peerState
    rw [hsame]
    change Heard.Describes _ (acceptedFinal response framing state _).state.server _
    rw [hkinds.2] at hfollows
    by_cases hopens : c.opensTunnel response.status = true
    · rw [if_pos hopens] at hfollows ⊢
      rw [eq_of_beq hfollows]
      exact Or.inr rfl
    · rw [if_neg hopens] at hfollows ⊢
      rw [eq_of_beq hfollows, hnotes]
      exact (reader_heard framing).symm

/-! ### Every turn -/

/-- What a turn reports is what the listener waits for. -/
theorem Turn.heard {polled : Polled} (h : Turn hp c (.ok (some polled)) c') (hc : c.LayersAgree)
    (hopen : c.ChunkOpen) (hasks : c.AsksFirst) (hl : Attends l c) :
    ∃ l', hearPoll c.role l polled = some l' ∧ Attends l' c' := by
  cases h with
  | closed hpeer =>
    have hheard : l.heard = .closed := hl.at_peer hpeer
    refine ⟨_, if_pos (by rw [hheard]; rfl), hl.next rfl (.refl _) ?_⟩
    rw [hpeer]
    rfl
  | idleClosed hpeer _ _ _ hstate =>
    have hheard : l.heard = .head := hl.at_peer hpeer
    refine ⟨_, if_pos (by rw [hheard]; rfl), hl.next rfl
      (ConnectionState.heardLaws.notAsked _ _ _ _ hstate rfl) ?_⟩
    unfold peerState
    rw [ConnectionState.heardLaws.closes _ _ _ hstate]
    rfl
  | doneClosed hpeer _ _ hstate =>
    have hheard : l.heard.mayClose = true := by
      rcases hpeer with hpeer | hpeer
      · rw [show l.heard = .complete from hl.at_peer hpeer]
        rfl
      · rcases hl.at_peer hpeer with hheard | hheard <;> rw [hheard] <;> rfl
    refine ⟨_, if_pos hheard,
      hl.next rfl (ConnectionState.heardLaws.notAsked _ _ _ _ hstate rfl) ?_⟩
    unfold peerState
    rw [ConnectionState.heardLaws.closes _ _ _ hstate]
    rfl
  | paused hpeer =>
    refine ⟨l, if_pos ?_, hl⟩
    rcases hpeer with hpeer | hpeer | ⟨hpeer | hpeer, _⟩
    · rw [show l.heard = .complete from hl.at_peer hpeer]
      rfl
    · rcases hl.at_peer hpeer with hheard | hheard <;> rw [hheard] <;> rfl
    · rw [show l.heard = .complete from hl.at_peer hpeer]
      rfl
    · rcases hl.at_peer hpeer with hheard | hheard <;> rw [hheard] <;> rfl
  | doneWaits hpeer =>
    refine ⟨l, if_pos ?_, hl⟩
    rcases hpeer with hpeer | hpeer
    · rw [show l.heard = .complete from hl.at_peer hpeer]
      rfl
    · rcases hl.at_peer hpeer with hheard | hheard <;> rw [hheard] <;> rfl
  | waits hreading _ hreader =>
    -- Only the notes of the scan have moved.
    exact ⟨l, if_pos (hl.reading hreading).1, hl.kind, hl.heard.reread hreader.heard, hl.unasked,
      hl.asked⟩
  | request hreading hreader hrole _ hframing _ hstate =>
    obtain ⟨l', htakes, hl'⟩ :=
      Turn.request_heard (hl.at_head hc hreading hreader) hrole hframing hstate
    exact ⟨l', (if_pos hrole).trans htakes, hl'⟩
  | informational hreading hreader hrole _ _ hstatus hevent hstate =>
    rw [disableKeepAliveIf_state] at hstate
    obtain ⟨l', htakes, hl'⟩ :=
      Turn.informational_heard hl (hl.at_head hc hreading hreader) hrole hstatus hevent hstate
    exact ⟨l', (if_pos hrole).trans htakes, hl'⟩
  | final hreading hreader hrole _ hlocal hstatus hstate hframing =>
    rw [disableKeepAliveIf_state] at hstate
    obtain ⟨l', htakes, hl'⟩ :=
      Turn.final_heard hl (hl.at_head hc hreading hreader) hasks hrole hlocal
      hstatus hstate hframing
    exact ⟨l', (if_pos hrole).trans htakes, hl'⟩
  | payload hreading hinput hreader hstate =>
    obtain ⟨rfl, hpeer⟩ := ConnectionState.bodyLaws.data _ _ _ hstate
    -- The source takes a piece only where there is input, so it is never empty.
    have havailable : c.input.asSlice.length ≠ 0 :=
      fun hnone => hinput (List.length_eq_zero_iff.mp hnone)
    obtain ⟨count, hcount, hroom, htakes⟩ := advancePayload_takes hopen havailable hreader
    rw [htakes]
    exact hl.data hpeer hcount hroom rfl rfl rfl rfl
  | ends hreading hreader hstate =>
    have hne : c.cycle.reader ≠ .head := by
      rcases hreader with hreader | ⟨hreader, _⟩ <;> rw [hreader] <;> nofun
    have hheard := (hl.in_body hc hreading hne).2
    have hend : l.heard.endOfMessage .new = some .complete := by
      rcases hreader with hreader | ⟨hreader, _⟩ <;> rw [hheard, hreader] <;> rfl
    refine ⟨{ l with heard := .complete }, ?_, hl.next rfl
      (ConnectionState.heardLaws.notAsked _ _ _ _ hstate rfl) ?_⟩
    · show (l.heard.endOfMessage .new).map _ = _
      rw [hend]
      rfl
    · have hdone : Heard.complete.Describes .done .head := rfl
      exact hdone.follows (ConnectionState.heardLaws.ends _ _ _ hstate).2
  | trailers hreading hreader _ hstate =>
    have hheard := (hl.in_body hc hreading (by rw [hreader]; nofun)).2
    refine ⟨{ l with heard := .complete }, ?_, hl.next rfl
      (ConnectionState.heardLaws.notAsked _ _ _ _ hstate rfl) ?_⟩
    · show (l.heard.endOfMessage _).map _ = _
      rw [hheard, hreader]
      rfl
    · have hdone : Heard.complete.Describes .done .head := rfl
      exact hdone.follows (ConnectionState.heardLaws.ends _ _ _ hstate).2

/-- A turn that fails poisons the peer, and nothing else is noted. -/
theorem Turn.failed_heard {error : RemoteProtocolError} (h : Turn hp c (.error error) c')
    (hl : Attends l c) : l.heard.mayFail = true ∧
      Attends { l with heard := .failed }
        { c' with state := c'.state.processError c'.role.peer } := by
  have hfails : l.heard.mayFail = true := by
    rcases h.failed_peer with hreading | hpeer
    · exact (hl.reading hreading).2
    · rw [show l.heard = .failed from hl.at_peer hpeer]
      rfl
  have hnotes : c'.cycle.requestKind = c.cycle.requestKind ∧ NotAsked c.state c'.state := by
    cases h with
    | poisoned | fails | requestRejected | trailersRejected => exact ⟨rfl, .refl _⟩
    | @finalFaulty _ stop response dropped state _ _ _ _ hstate =>
      rw [disableKeepAliveIf_state] at hstate
      refine ⟨?_, ?_⟩
      · unfold countedFinal
        simp only [disableKeepAliveIf_eq]
        rfl
      · rw [countedFinal_state]
        refine ((ConnectionState.disableIf_notAsked dropped c.state).trans
          (ConnectionState.heardLaws.notAsked _ _ _ _ hstate ?_)).trans
          (ConnectionState.disableIf_notAsked _ _)
        unfold finalResponseEvent
        split <;> rfl
    | @responseRejected _ stop response dropped =>
      have hsame := disableKeepAliveIf_unheard dropped c
      exact ⟨hsame.kind, hsame.server⟩
    | payloadRejected =>
      rw [advancePayload_state]
      exact ⟨(advancePayload_cycle _ c).2.2.1, .refl _⟩
  refine ⟨hfails, hl.next hnotes.1 (hnotes.2.trans (ConnectionState.heardLaws.poison _ _)) ?_⟩
  show Heard.Describes _ ((c'.state.processError c'.role.peer).state c'.role.peer) _
  rw [ConnectionState.processError_state]
  rfl

/-! ## Polls -/

/-- What the result of a poll tells the listener, and how it leaves its notes. -/
inductive Tells (role : Role) (l : Listener) : Except RemoteProtocolError Polled →
    Connection → Prop
  | hears {polled : Polled} {l' : Listener} {after : Connection}
      (htakes : hearPoll role l polled = some l') (h : Attends l' after) :
      Tells role l (.ok polled) after
  | fails {error : RemoteProtocolError} {after : Connection} (hfails : l.heard.mayFail = true)
      (h : Attends { l with heard := .failed }
        { after with state := after.state.processError after.role.peer }) :
      Tells role l (.error error) after

theorem Turns.tells {r : Except RemoteProtocolError Polled} (h : Turns hp c r c')
    (hc : c.LayersAgree)
    (hopen : c.ChunkOpen) (hasks : c.AsksFirst) (hl : Attends l c) : Tells c.role l r c' := by
  -- The decoder goes round without touching the state; its last turn is the one that
  -- reports.
  induction h with
  | @last c c' r h =>
    cases r with
    | ok polled =>
      obtain ⟨l', htakes, hl'⟩ := h.heard hc hopen hasks hl
      exact .hears htakes hl'
    | error error =>
      obtain ⟨hfails, hl'⟩ := h.failed_heard hl
      exact .fails hfails hl'
  | @again c c' c'' r h _ ih =>
    have hstays : c'.AsksFirst := by
      unfold AsksFirst
      rw [h.again_state, h.frame.role]
      exact hasks
    have hnext := ih (h.layersAgree hc) (h.chunkOpen hopen) hstays (h.again_attends hc hl)
    rw [h.frame.role] at hnext
    exact hnext

theorem nextEvent_heard (hc : c.LayersAgree) (hopen : c.ChunkOpen) (hasks : c.AsksFirst)
    (hl : Attends l c) : ∃ l', l.hear c.role (.nextEvent, (step hp .nextEvent c).1) = some l' ∧
      Attends l' (step hp .nextEvent c).2 := by
  change ∃ l', l.hear c.role (.nextEvent, (pollOutcome (nextEvent hp c)).1) = some l' ∧
    Attends l' (pollOutcome (nextEvent hp c)).2
  unfold nextEvent
  rcases hinner : nextEventInner hp c with ⟨error | polled, c1⟩
  · cases (nextEventInner_turns hinner).tells hc hopen hasks hl with
    | fails hfails hl' => exact ⟨_, if_pos hfails, hl'⟩
  · cases (nextEventInner_turns hinner).tells hc hopen hasks hl with
    | @hears _ l' _ htakes hl' =>
      cases polled with
      | event event => exact ⟨l', htakes, hl'⟩
      | needData => exact ⟨l', htakes, hl'⟩
      | paused => exact ⟨l', htakes, hl'⟩
      | data count chunkStart chunkEnd =>
        -- The poll counts the bytes, and they leave the buffer afterwards; all of them are there.
        refine ⟨l', ?_, hl'.kind, hl'.heard, hl'.unasked, hl'.asked⟩
        have hlength : (c1.input.asSlice.take count).length = count := by
          rw [List.length_take]
          exact Nat.min_eq_left (nextEventInner_turns hinner).data_le
        show l.data (c1.input.asSlice.take count).length chunkStart chunkEnd = some l'
        rw [hlength]
        exact htakes

/-- Held bytes are handed over as payload. -/
theorem nextEventInPlace_heard {count : Nat} (hheld : c.HeldFits) (hl : Attends l c) :
    ∃ l', l.hear c.role (.nextEventInPlace count, (step hp (.nextEventInPlace count) c).1) =
      some l' ∧
      Attends l' (step hp (.nextEventInPlace count) c).2 := by
  change ∃ l', l.hear c.role (.nextEventInPlace count, (outcome _ (nextEventInPlace count c)).1) =
    some l' ∧ Attends l' (outcome _ (nextEventInPlace count c)).2
  rcases hcall : nextEventInPlace count c with ⟨r, c'⟩
  rcases nextEventInPlace_cases hcall with
    ⟨state, hzero, hle, hstate, rfl, rfl⟩ | ⟨_, _, rfl, rfl⟩ |
    ⟨_, hzero, hle, hstate, rfl, rfl⟩
  · obtain ⟨rfl, hpeer⟩ := ConnectionState.bodyLaws.data _ _ _ hstate
    have hroom : c.cycle.reader.Room count := (hheld (by omega)).2.mono hle
    rw [advancePayload_room hroom hzero]
    exact hl.data hpeer hzero hroom rfl rfl rfl rfl
  · exact ⟨l, rfl, hl⟩
  · -- What is held is payload, so the state machine takes it.
    have hpeer : c.peerState = .sendBody := (hheld (by omega)).1
    rw [processEvent_data_inside hpeer] at hstate
    cases hstate

/-! ## Whole runs -/

/-- What may be held is payload that is left, whatever the machine word makes of
the sum. -/
theorem holdBodyData_heldFits (count : Nat) (hc : c.HeldFits) :
    (holdBodyData count c).2.HeldFits := by
  unfold holdBodyData
  by_cases hcan : c.canHold count = true
  · rw [if_pos hcan]
    intro _
    have hpeer := canHold_peer hcan
    refine ⟨hpeer, ?_⟩
    unfold canHold payloadRemaining at hcan
    rw [if_neg (fun hne => hne hpeer)] at hcan
    simp only [Bool.and_eq_true] at hcan
    have hremaining := hcan.2
    show c.cycle.reader.Room (usizeAdd c.held count)
    cases hreader : c.cycle.reader with
    | head =>
      rw [hreader] at hremaining
      cases hremaining
    | closeDelimited => trivial
    | fixed remaining =>
      rw [hreader] at hremaining
      dsimp only at hremaining
      split at hremaining
      · have hle : usizeAdd c.held count ≤ remaining := of_decide_eq_true hremaining
        exact hle
      · cases hremaining
    | chunked chunk =>
      rw [hreader] at hremaining
      cases chunk with
      | size | dataEnd | trailers => cases hremaining
      | data remaining first =>
        have hle : usizeAdd c.held count ≤ remaining := of_decide_eq_true hremaining
        exact hle
  · rw [if_neg hcan]
    exact hc

theorem step_handed_heldFits {op : Op} (hc : c.HeldFits) (hop : c.handsOverFirst op) :
    (step hp op c).2.HeldFits := by
  cases op with
  | holdBodyData count => exact holdBodyData_heldFits count hc
  | receiveData data =>
    show (outcome _ (receiveData data c)).2.HeldFits
    rw [outcome_snd]
    exact receiveData_heldFits data hc
  | nextEventInPlace count =>
    show (outcome _ (nextEventInPlace count c)).2.HeldFits
    rw [outcome_snd]
    exact nextEventInPlace_heldFits hc
  | nextEvent =>
    intro hne
    change (pollOutcome (nextEvent hp c)).2.held ≠ 0 at hne
    rw [pollOutcome_snd, (nextEvent_frame hp c).held] at hne
    exact absurd hop hne
  | _ => exact step_quiet_heldFits rfl hc

theorem run_asksFirst {allowed : Connection → Op → Prop} {role : Role} {limits : Limits}
    {history : List (Op × Outcome)} (h : Run hp allowed role limits history c) : c.AsksFirst := by
  intro hrole
  have hsame := run_role h
  rw [hrole] at hsame
  subst hsame
  -- This is about the state machine alone, so one law for each of its moves is enough.
  have hmove : ∀ s s', Move .server s s' → (s.server = .idle → s.client = .idle) →
      s'.server = .idle → s'.client = .idle := by
    have hevent : ∀ (role : Role) (event : StateEvent) (s s' : ConnectionState),
        s.processEvent role event = some s' → (s.server = .idle → s.client = .idle) →
          s'.server = .idle → s'.client = .idle := by
      decide +kernel
    have hpoison : ∀ s : ConnectionState, (s.processError .server).server ≠ .idle := by
      decide +kernel
    intro s s' hmove hs hidle
    cases hmove with
    | event h => exact hevent _ _ _ _ h hs hidle
    | disable =>
      have hbefore := (ConnectionState.heardLaws.disableNotAsked s).idle hidle
      exact ConnectionState.heardLaws.idle s hbefore (hs hbefore)
    | poison => exact absurd hidle (hpoison s)
  exact run_state (P := fun s => s.server = .idle → s.client = .idle) .client (fun _ => rfl) hmove h

theorem step_heard {op : Op} (hc : c.LayersAgree) (hopen : c.ChunkOpen) (hasks : c.AsksFirst)
    (hheld : c.HeldFits) (hl : Attends l c) :
    ∃ l', l.hear c.role (op, (step hp op c).1) = some l' ∧ Attends l' (step hp op c).2 := by
  -- The three calls that send a request tell the same thing.
  have hsends :
    ∀ {α : Type} {value : α → Outcome} {call : LocalCall α} {op : Op} {request : Request},
      Call.Atomic call → (∀ error, l.hear c.role (op, .refused error) = some l) →
      (∀ a, l.hear c.role (op, value a) = l.asks request) →
      (∀ a c', call c = (.ok a, c') → ∃ l', l.asks request = some l' ∧ Attends l' c') →
      ∃ l', l.hear c.role (op, (outcome value (call c)).1) = some l' ∧
        Attends l' (outcome value (call c)).2 := by
    intro α value call op request hatomic hrefused hvalue hok
    rcases hcall : call c with ⟨error | a, c'⟩
    · have hsame : c' = c := hatomic _ _ _ hcall
      subst hsame
      exact ⟨l, hrefused error, hl⟩
    · obtain ⟨l', hasks, hl'⟩ := hok a c' hcall
      exact ⟨l', (hvalue a).trans hasks, hl'⟩
  cases op with
  | nextEvent => exact nextEvent_heard hc hopen hasks hl
  | nextEventInPlace count => exact nextEventInPlace_heard hheld hl
  | startNextCycle => exact startNextCycle_heard hl
  | sendRequest request =>
    exact hsends (sendRequest_atomic _) (fun _ => rfl) (fun _ => rfl) fun _ _ h =>
      sendRequest_heard h rfl hl
  | sendRequestWithBody request body =>
    refine hsends (sendRequestWithBody_atomic _ _) (fun _ => rfl) (fun _ => rfl) fun _ _ h => ?_
    obtain ⟨parts, hframing, _⟩ := sendRequestWithBody_ok h
    exact sendRequestWithBodyFraming_heard hframing hl
  | sendRequestWithBodyFraming request length =>
    exact hsends (sendRequestWithBodyFraming_atomic _ _) (fun _ => rfl) (fun _ => rfl) fun _ _ h =>
      sendRequestWithBodyFraming_heard h hl
  -- No other call is heard.
  | _ => exact ⟨l, rfl, (step_unheard rfl).attends hl⟩

theorem run_handed_heldFits {role : Role} {limits : Limits} {history : List (Op × Outcome)}
    (h : Run hp handsOverFirst role limits history c) : c.HeldFits :=
  Lib.Run.invariant (P := HeldFits) (fun hne => absurd rfl hne)
    (fun _ _ hs hop => step_handed_heldFits hs hop) h

theorem run_heard {role : Role} {limits : Limits} {history : List (Op × Outcome)}
    (h : Run hp handsOverFirst role limits history c) :
    ∃ l, history.foldlM (Listener.hear role) .new = some l ∧ Attends l c := by
  have hstart : Attends .new (new role limits) :=
    ⟨rfl, by cases role <;> rfl, fun _ => rfl, nofun⟩
  refine Lib.Run.reads hstart (fun op hrun hl _ => ?_) h
  have hreachable : Reachable hp _ := ⟨_, _, _, hrun.mono fun _ _ _ => trivial⟩
  have hnext : ∃ l', Listener.hear _ _ (op, (step hp op _).1) = some l' ∧
      Attends l' (step hp op _).2 :=
    step_heard (run_layersAgree hrun) (reachable_chunkOpen hreachable) (run_asksFirst hrun)
      (run_handed_heldFits hrun) hl
  rw [run_role hrun] at hnext
  exact hnext

/-- In every run, what the peer is reported to have sent is a sequence of whole
messages, as far as it has come: every body is the one its head announces, byte
for byte or chunk for chunk, and nothing follows a switch, a close or a failure.
What is still to come of the message is what the decoder is prepared to read. -/
theorem reported_messages_are_whole {role : Role} {limits : Limits} {history : List (Op × Outcome)}
    (h : Run hp handsOverFirst role limits history c) :
    ∃ l, history.foldlM (Listener.hear role) .new = some l ∧ c.cycle.requestKind = l.kind ∧
      l.heard.Describes c.peerState c.cycle.reader := by
  obtain ⟨l, hread, hl⟩ := run_heard h
  exact ⟨l, hread, hl.kind, hl.heard⟩

/-- Four of the ten bytes of content have come. -/
theorem four_of_ten_reported :
    ∃ history c, Run Reference.httparse handsOverFirst .server .default history c ∧
      history.foldlM (Listener.hear .server) .new = some ⟨some .other, .fixed 6⟩ ∧
      c.cycle.requestKind = some .other ∧ (Heard.fixed 6).Describes c.peerState c.cycle.reader := by
  have hpermitted : Lib.Permitted (step Reference.httparse) handsOverFirst (new .server .default)
      [.receiveData tenBytesHead, .nextEvent, .receiveData (ascii "abcd"), .nextEvent] := by
    refine ⟨trivial, ?_, trivial, ?_, trivial⟩
    · show Connection.held _ = 0
      decide +kernel
    · show Connection.held _ = 0
      decide +kernel
  have hrun : Run Reference.httparse handsOverFirst .server .default _ _ :=
    Lib.Run.trace _ _ hpermitted
  obtain ⟨l, hread, hkind, hheard⟩ := reported_messages_are_whole hrun
  have hsix : (Lib.trace (step Reference.httparse) (new .server .default)
      [.receiveData tenBytesHead, .nextEvent, .receiveData (ascii "abcd"), .nextEvent]).1.foldlM
      (Listener.hear .server) .new = some ⟨some .other, .fixed 6⟩ := by
    decide +kernel
  cases hread.symm.trans hsix
  exact ⟨_, _, hrun, hsix, hkind, hheard⟩

end H11r.Connection
