import H11r.Connection.InTurn
import H11r.Connection.ResponseTrip

/-!
# Pipelined requests

Clients have written requests, one after the other, and a server gets their
bytes in pieces of any size, answers what it is asked and starts the next cycle
when it can. `Along` says where the server then is in the messages that are
still to come: on the way of the first of them, waiting for more where none is
left, or stopped because it has closed. A call keeps it there (`Along.step`), and
a successful `start_next_cycle` takes it to the message behind (`Along.next`).
-/

namespace H11r

open Lib (Call)

namespace Connection

variable {hp : Httparse} {c c' : Connection} {rest : Bytes} {limits : Limits}

/-! ## The requests -/

/-- A request as it was written: the pieces of its body and its trailers, the
bytes of its head, and the bytes behind the head. -/
structure SentRequest where
  request : Request
  pieces : List Bytes
  trailers : Headers
  head : Bytes
  body : Bytes

namespace SentRequest

def text (sent : SentRequest) : Bytes := sent.head ++ sent.body

/-- The fields in the order in which they are written. -/
def fields (sent : SentRequest) : List (Bytes × Bytes) :=
  hostFirst sent.request.headers.iter (Fields.scan sent.request.headers).hostAt

/-- A client has written it from its head to its end, with other calls in
between; it neither closes the connection nor proposes to switch. -/
structure Wrote (hp : Httparse) (sent : SentRequest) : Prop where
  calls : ∃ c s1 s2 s3 written last, sendRequest sent.request c = (.ok sent.head, s1) ∧
    Lib.Run (step hp) (writesBody hp) s1 written s2 ∧ endOfMessage sent.trailers s2 =
      (.ok last, s3) ∧
    sent.body = outputOf written ++ last ∧ sent.pieces = sentPieces written
  proposes : sent.request.proposesNothing
  persistent : (Fields.scan sent.request.headers).persistent sent.request.httpVersion = true

/-- A receiver with these limits takes it. -/
structure Fits (limits : Limits) (sent : SentRequest) : Prop where
  head : sent.head.length ≤ limits.maxHeadBytes
  fields : sent.fields.length ≤ limits.maxHeaderCount
  body : (Fields.scan sent.request.headers).framing sent.request.httpVersion false = .ok .chunked →
    BodyFits limits sent.pieces sent.trailers

/-- The events report the request: its head with Host in front, its body, and
its trailers. -/
def Reported (sent : SentRequest) (events : List Event) : Prop :=
  ∃ headers datas received,
    events = .request { sent.request with headers := headers } :: datas ++
      [.endOfMessage received] ∧
    headers.iter = sent.fields ∧ (∀ event ∈ datas, event.Delivers) ∧
    datas.flatMap Event.bytes = sent.pieces.flatten ∧ received.iter = sent.trailers.iter

/-- The events report the beginning of the request. -/
def Begun (sent : SentRequest) (events : List Event) : Prop :=
  ∃ headers datas, events = .request { sent.request with headers := headers } :: datas ∧
    headers.iter = sent.fields ∧ (∀ event ∈ datas, event.Delivers) ∧
    datas.flatMap Event.bytes <+: sent.pieces.flatten

end SentRequest

/-- A request, and the message that it is for a server. -/
structure Delivery (hp : Httparse) (limits : Limits) where
  sent : SentRequest
  message : Message
  head : message.head = sent.head
  body : message.body = sent.body
  event : ∃ headers : Headers, message.event = .request { sent.request with headers := headers } ∧
    headers.iter = sent.fields
  pieces : message.items.flatMap Event.bytes = sent.pieces.flatten
  trailers : message.trailers.iter = sent.trailers.iter
  untilEof : message.untilEof = false
  awaits : ∀ after, Awaits hp keepsWaiting (AwaitsRequest limits) message after
  persists : ∀ {after rest : Bytes} {c c' : Connection} {r : Except RemoteProtocolError NextEvent},
    c.AwaitsRequest limits → c.input.asSlice ++ rest = message.head ++ (message.body ++ after) →
      (c.eof = true → rest = []) → nextEvent hp c = (r, c') → c'.state.persists = true

/-- What a client has written is a message for the server. -/
theorem SentRequest.Wrote.delivery (hhp : hp.Stable) (hread : hp.ReadsValid) {sent : SentRequest}
    (h : sent.Wrote hp) (hfits : sent.Fits limits) : ∃ delivery : Delivery hp limits,
      delivery.sent = sent := by
  obtain ⟨c, s1, s2, s3, written, last, hrequest, hbody, hend, hsent, hpieces⟩ := h.calls
  obtain ⟨framing, hwriter, hcounted, hframed, hhead, htarget, hgraphic, hvalid, hmeans⟩ :=
    sendRequest_means hrequest
  obtain ⟨hvalid', htext⟩ := message_written hwriter hbody hend
  rw [← hsent, ← hpieces] at htext
  obtain ⟨fields, hfields, hreads⟩ :=
    requestHead_readsAs hhp hread sent.request.method sent.request.httpVersion
    htarget hgraphic hvalid hfits.fields
  rw [← hhead] at hreads
  obtain ⟨haccepts, _, hoffers, hpersists⟩ := hmeans fields hfields
  have hchunked : framing = .chunked → BodyFits limits sent.pieces sent.trailers := by
    intro hframing
    rw [hframing] at hframed
    exact hfits.body hframed
  obtain ⟨items, received, hiter, hitems, harrives⟩ :=
    htext.arrives hhp hread .server hvalid' hchunked
  have hpoll : ∀ {after rest : Bytes} {c c' : Connection}
      {r : Except RemoteProtocolError NextEvent},
      c.AwaitsRequest limits → c.input.asSlice ++ rest = sent.head ++ (sent.body ++ after) →
      (c.eof = true → rest = []) → nextEvent hp c = (r, c') → _ :=
    fun hc htext heof hpoll => nextEvent_awaitsRequest hhp hc hreads hfits.head haccepts
      htext heof hpoll
  refine ⟨{
    sent := sent
    message := ⟨sent.head, .request { sent.request with headers := fields }, sent.body, items,
      received, false⟩
    head := rfl
    body := rfl
    event := ⟨fields, rfl, hfields⟩
    pieces := hitems
    trailers := hiter
    untilEof := rfl
    awaits := fun after => ?_
    persists := fun hc htext heof hcall => ?_ }, rfl⟩
  · refine ⟨fun hop hwaits hc => hc.send hop hwaits, fun data hc => hc.extend data,
      fun hc => hc.eof, fun hc htext heof hcall => ?_⟩
    rcases hpoll hc htext heof hcall with ⟨rfl, hrest, hc', hinput⟩ | ⟨rfl, hbegins, _, hmore, _⟩
    · exact Or.inl ⟨rfl, hrest, hc', hinput⟩
    · refine Or.inr ⟨rfl, ?_⟩
      rw [hmore]
      have harrived := @harrives _ after hbegins fun hclose => absurd hclose hcounted
      rw [beq_eq_false_iff_ne.mpr hcounted] at harrived
      exact harrived
  · rcases hpoll hc htext heof hcall with ⟨_, _, hc', _⟩ | ⟨_, _, _, _, _, state, hstate, hafter⟩
    · exact hc'.persists
    · -- It neither closes the connection nor proposes to switch.
      have hevent : requestEvent sent.request.method
          (offeredUpgrades { sent.request with headers := fields } (Fields.scan fields)) =
              .request .none := by
        have hnone : offeredUpgrades sent.request (Fields.scan sent.request.headers) = [] := by
          unfold offeredUpgrades
          split
          next hboth => exact h.proposes.2 hboth.1
          next => rfl
        rw [hoffers, hnone]
        unfold requestEvent
        rw [beq_eq_false_iff_ne.mpr h.proposes.1]
        rfl
      change ConnectionState.new.processEvent .client (requestEvent sent.request.method
        (offeredUpgrades { sent.request with headers := fields } (Fields.scan fields))) =
          _ at hstate
      rw [hevent] at hstate
      change _ = state.disableKeepAliveIf
        !((Fields.scan fields).persistent sent.request.httpVersion) at hafter
      rw [hafter, hpersists, h.persistent]
      exact (ConnectionState.persistLaws.request .new rfl rfl).2 state hstate

/-- The bytes of all these requests. -/
def textOf (todo : List (Delivery hp limits)) : Bytes :=
  todo.flatMap fun delivery => delivery.sent.text

theorem textOf_cons (delivery : Delivery hp limits) (later : List (Delivery hp limits)) :
    textOf (delivery :: later) = delivery.message.head ++
      (delivery.message.body ++ textOf later) := by
  unfold textOf
  rw [List.flatMap_cons, delivery.head, delivery.body, ← List.append_assoc]
  rfl

/-- Where the server is in the requests that it has not yet left behind, with
`rest` still to come, when it has reported `events` since the cycle began. -/
inductive Along (hp : Httparse) (limits : Limits) (rest : Bytes) :
    List (Delivery hp limits) → List Event → Connection → Prop
  | message {c : Connection} {delivery : Delivery hp limits} {later : List (Delivery hp limits)}
      {events : List Event}
      (htrip : Trip hp (AwaitsRequest limits) delivery.message (textOf later) rest events c)
      (horderly : c.state.Orderly)
      (hcloses : Event.connectionClosed ∈ events → c.peerState = .closed) :
      Along hp limits rest (delivery :: later) events c
  | waits {c : Connection} (hc : c.AwaitsRequest limits) (hnone : c.input.asSlice ++ rest = []) :
      Along hp limits rest [] [] c
  | stopped {c : Connection} {todo : List (Delivery hp limits)} {events : List Event}
      (hstopped : c.Stopped)
      (hcloses : ∀ event ∈ events, event = .connectionClosed)
      (htext : c.input.asSlice ++ rest = textOf todo) : Along hp limits rest todo events c

section Steps

variable {todo : List (Delivery hp limits)} {events : List Event}

/-- A peer that has been told to close, or has closed, is heard no more. -/
theorem Stopped.over (h : c.Stopped) : c.Over := by
  rcases h.each c.role.peer with hpeer | hpeer
  · have hpeer : c.peerState = .mustClose := hpeer
    exact ⟨by rw [hpeer]; rfl, by rw [hpeer]; decide⟩
  · have hpeer : c.peerState = .closed := hpeer
    exact ⟨by rw [hpeer]; rfl, by rw [hpeer]; decide⟩

/-- It stays so. -/
theorem Stopped.step (h : c.Stopped) (hp : Httparse) (op : Op) :
    (Connection.step hp op c).2.Stopped := by
  refine ⟨fun actor => ?_⟩
  have hstays := step_stays hp op c actor
  rcases h.each actor with hactor | hactor
  · rw [hactor] at hstays
    simpa [State.stays] using hstays
  · rw [hactor] at hstays
    exact Or.inr (by simpa [State.stays] using hstays)

/-- On a server the end of the input changes nothing of the actors. -/
theorem receiveData_server (data : Bytes) (hrole : c.role = .server) :
    (receiveData data c).2.state = c.state := by
  unfold receiveData
  rw [Call.get_bind, Call.failIf_bind]
  split
  · rfl
  · split
    · show c.recordEof.state = c.state
      rw [recordEof_server hrole]
    · rfl

/-- The calls of a server that is in a request keep its actors orderly. -/
theorem step_orderly (hp : Httparse) {op : Op} (hop : delivers c op) (hrole : c.role = .server)
    (hasked : c.state.client ≠ .idle) (hc : c.state.Orderly) : (step hp op c).2.state.Orderly := by
  rcases hop with hop | rfl | ⟨data, rfl⟩
  · have hboth : (step hp op c).2.role = .server ∧ (step hp op c).2.state.client ≠ .idle ∧
        (step hp op c).2.state.Orderly := by
      refine Lib.preserve
        (P := fun c => c.role = .server ∧ c.state.client ≠ .idle ∧ c.state.Orderly) ?_
        (step_local hop c) ⟨hrole, hasked, hc⟩
      intro c1 c2 hchange h
      exact ⟨hchange.sameOutside.frame.role.trans h.1, hchange.orderly h.1 h.2⟩
    exact hboth.2.2
  · show (pollOutcome (nextEvent hp c)).2.state.Orderly
    rw [pollOutcome_snd]
    exact nextEvent_orderly hp hrole hasked hc
  · show (outcome _ (receiveData data c)).2.state.Orderly
    rw [outcome_snd, receiveData_server data hrole]
    exact hc

/-- Once the peer has been reported closed, it stays so. -/
theorem step_closes (hp : Httparse) {op : Op} (hop : delivers c op)
    (hcloses : Event.connectionClosed ∈ events → c.peerState = .closed)
    (hmem : Event.connectionClosed ∈ events ++ (step hp op c).1.events) :
    (step hp op c).2.peerState = .closed := by
  rcases List.mem_append.mp hmem with hold | hnew
  · have hstays : c.peerState.stays (step hp op c).2.peerState = true := by
      unfold peerState
      rw [step_role]
      exact step_stays hp op c c.role.peer
    rw [hcloses hold] at hstays
    simpa [State.stays] using hstays
  · rcases hop with hop | rfl | ⟨data, rfl⟩
    · rw [quiet_events (Op.sends_quiet hop)] at hnew
      cases hnew
    · change Event.connectionClosed ∈ (pollOutcome (nextEvent hp c)).1.events at hnew
      show (pollOutcome (nextEvent hp c)).2.peerState = .closed
      rw [pollOutcome_snd]
      rcases hpoll : nextEvent hp c with ⟨error | next, c'⟩
      · rw [hpoll] at hnew
        cases hnew
      · rw [hpoll] at hnew
        cases next with
        | needData | paused => cases hnew
        | event event =>
          have hevent : Event.connectionClosed = event := List.mem_singleton.mp hnew
          subst hevent
          exact nextEvent_closes hpoll
    · change Event.connectionClosed ∈ (outcome _ (receiveData data c)).1.events at hnew
      rcases hcall : receiveData data c with ⟨error | u, c'⟩
      · rw [hcall] at hnew
        cases hnew
      · rw [hcall] at hnew
        cases hnew

/-- In front of its head a message has not been reported. -/
theorem Trip.idle {m : Message} {after : Bytes}
    (h : Trip hp (AwaitsRequest limits) m after rest events c)
    (hidle : c.peerState = .idle) :
    events = [] ∧ c.AwaitsRequest limits ∧ c.input.asSlice ++ rest = m.head ++
      (m.body ++ after) := by
  cases h with
  | head hc htext => exact ⟨rfl, hc, htext⟩
  | body _ _ hc => cases hidle.symm.trans hc.peer
  | behind _ hover =>
    have hthrough := hover.through
    rw [hidle] at hthrough
    cases hthrough

/-- On the way of a message the actors stay orderly. -/
theorem Delivery.orderly {delivery : Delivery hp limits} {after : Bytes} {op : Op}
    (hop : delivers c op)
    (hwaits : keepsWaiting c op) (hrole : c.role = .server)
    (htrip : Trip hp (AwaitsRequest limits) delivery.message after rest events c)
    (horderly : c.state.Orderly)
    (heof : c.eof = true → rest = []) : (step hp op c).2.state.Orderly := by
  by_cases hasked : c.state.client = .idle
  · have hidle : c.peerState = .idle := by
      unfold peerState
      rw [hrole]
      exact hasked
    obtain ⟨_, hc, htext⟩ := htrip.idle hidle
    rcases hop with hop | rfl | ⟨data, rfl⟩
    · exact Or.inl (hc.send hop hwaits).persists
    · show (pollOutcome (nextEvent hp c)).2.state.Orderly
      rw [pollOutcome_snd]
      rcases hpoll : nextEvent hp c with ⟨r, c'⟩
      exact Or.inl (delivery.persists hc htext heof hpoll)
    · show (outcome _ (receiveData data c)).2.state.Orderly
      rw [outcome_snd, receiveData_server data hrole]
      exact horderly
  · exact step_orderly hp hop hrole hasked horderly

theorem Delivery.event_ne (delivery : Delivery hp limits) :
    delivery.message.event ≠ .connectionClosed := by
  obtain ⟨headers, hevent, _⟩ := delivery.event
  rw [hevent]
  nofun

/-- A call of a server that is in a message. -/
theorem Along.step_message (hhp : hp.Stable) {delivery : Delivery hp limits}
    {later : List (Delivery hp limits)}
    {op : Op} (hop : delivers c op) (hwaits : keepsWaiting c op) (hrole : c.role = .server)
    (htrip : Trip hp (AwaitsRequest limits) delivery.message (textOf later)
      (passedBytes [(op, (step hp op c).1)] ++ rest) events c)
    (horderly : c.state.Orderly) (hcloses : Event.connectionClosed ∈ events → c.peerState = .closed)
    (heof : c.eof = true → rest = []) : (step hp op c).1.isFailed = false ∧
      Along hp limits rest (delivery :: later) (events ++ (step hp op c).1.events)
        (step hp op c).2 := by
  obtain ⟨hgoes, hafter⟩ := htrip.step hhp (delivery.awaits _) delivery.event_ne hop hwaits heof
  refine ⟨hgoes, .message hafter ?_ (step_closes hp hop hcloses)⟩
  refine Delivery.orderly hop hwaits hrole htrip horderly fun hclosed => ?_
  rw [heof hclosed, (delivers_after_eof hp hop hclosed).2]
  rfl

/-- A server that is told to close while it waits reads no more requests. -/
theorem Along.close (h : c.AwaitsRequest limits) (htext : c.input.asSlice ++ rest = textOf todo) :
    (step hp .close c).1.isFailed = false ∧
      Along hp limits rest todo (step hp .close c).1.events (step hp .close c).2 := by
  obtain ⟨state, hstep, hstopped⟩ := h.close hp
  rw [hstep]
  exact ⟨rfl, .stopped hstopped (fun _ hmem => absurd hmem List.not_mem_nil) htext⟩

/-- A call of a server that waits behind the last request. -/
theorem Along.step_waits (hhp : hp.Stable) {op : Op} (hop : delivers c op)
    (hanswers : op.answers = false)
    (hc : c.AwaitsRequest limits)
    (hnone : c.input.asSlice ++ (passedBytes [(op, (step hp op c).1)] ++ rest) = []) :
    (step hp op c).1.isFailed = false ∧
      Along hp limits rest [] (step hp op c).1.events (step hp op c).2 := by
  obtain ⟨hinput, hmore⟩ := List.append_eq_nil_iff.mp hnone
  obtain ⟨hpassed, hrest⟩ := List.append_eq_nil_iff.mp hmore
  have hleft : c.input.asSlice ++ rest = [] := by rw [hinput, hrest]; rfl
  rcases hop with hop | rfl | ⟨data, rfl⟩
  · by_cases hclose : op = .close
    · subst hclose
      exact Along.close hc hleft
    · refine ⟨step_sends_goes hop, ?_⟩
      rw [step_unasked hop hanswers hclose hc.role hc.new, quiet_events (Op.sends_quiet hop)]
      exact .waits hc hleft
  · have hinput' : ∀ c' : Connection, c'.input.asSlice = [] → c'.input.asSlice ++ rest = [] := by
      intro c' hnil
      rw [hnil, hrest]
      rfl
    obtain ⟨c', hnil, ⟨hpoll, hc'⟩ | ⟨hpoll, hclosed⟩⟩ := hc.nothing hhp hinput
    · have hstep : step hp .nextEvent c = (.polled .needData, c') := by
        show pollOutcome (nextEvent hp c) = _
        rw [hpoll]
        rfl
      rw [hstep]
      exact ⟨rfl, .waits hc' (hinput' c' hnil)⟩
    · have hstep : step hp .nextEvent c = (.polled (.event .connectionClosed), c') := by
        show pollOutcome (nextEvent hp c) = _
        rw [hpoll]
        rfl
      rw [hstep]
      refine ⟨rfl, .stopped hclosed ?_ (hinput' c' hnil)⟩
      intro event hmem
      exact List.mem_singleton.mp hmem
  · by_cases hnil : data = []
    · subst hnil
      have hstep : step hp (.receiveData []) c = (.unit, c.recordEof) := by
        show outcome _ (receiveData [] c) = _
        rw [receiveData_eof]
        rfl
      rw [hstep]
      refine ⟨rfl, .waits hc.eof ?_⟩
      rw [recordEof_server hc.role]
      exact hleft
    · -- Nothing is to come, so these bytes were refused.
      have heof : c.eof = true := by
        by_contra hopen
        have hstep : (step hp (.receiveData data) c).1 = .unit := by
          show (outcome _ (receiveData data c)).1 = _
          rw [receiveData_extends (Bool.eq_false_iff.mpr hopen) hnil]
          rfl
        rw [hstep] at hpassed
        exact hnil (List.append_eq_nil_iff.mp hpassed).1
      have hstep : step hp (.receiveData data) c =
          (.refused (localError "receive_data called after EOF"), c) := by
        show outcome _ (receiveData data c) = _
        rw [receiveData_after_eof heof hnil]
        rfl
      rw [hstep]
      exact ⟨rfl, .waits hc hleft⟩

/-- A call of a server that reads no more requests. -/
theorem Along.step_stopped {op : Op} (hop : delivers c op) (hstopped : c.Stopped)
    (hcloses : ∀ event ∈ events, event = .connectionClosed)
    (htext : c.input.asSlice ++ (passedBytes [(op, (step hp op c).1)] ++ rest) = textOf todo) :
    (step hp op c).1.isFailed = false ∧
      Along hp limits rest todo (events ++ (step hp op c).1.events) (step hp op c).2 := by
  have hafter := hstopped.step hp op
  rcases hop with hop | rfl | ⟨data, rfl⟩
  · refine ⟨step_sends_goes hop, .stopped hafter ?_ ?_⟩
    · rw [quiet_events (Op.sends_quiet hop), List.append_nil]
      exact hcloses
    · rw [passedBytes_other _ fun data hreceives => by subst hreceives; cases hop] at htext
      rw [(step_sends_decoder hp hop c).input]
      exact htext
  · obtain ⟨next, c', hpoll, hrests, _, hinput⟩ := nextEvent_over hp hstopped.over
    have hstep : step hp .nextEvent c = (.polled next, c') := by
      show pollOutcome (nextEvent hp c) = _
      rw [hpoll]
      rfl
    rw [hstep] at hafter htext ⊢
    refine ⟨rfl, .stopped hafter (fun event hmem => ?_) ?_⟩
    · rcases List.mem_append.mp hmem with hold | hnew
      · exact hcloses event hold
      · rcases hrests with rfl | rfl | rfl
        · cases hnew
        · cases hnew
        · exact List.mem_singleton.mp hnew
    · rw [hinput]
      exact htext
  · rcases hcall : receiveData data c with ⟨error | u, c'⟩
    · have hsame : c' = c := receiveData_atomic _ _ _ _ hcall
      subst hsame
      have hstep : step hp (.receiveData data) c' = (.refused error, c') := by
        show outcome _ (receiveData data c') = _
        rw [hcall]
        rfl
      rw [hstep] at hafter htext ⊢
      refine ⟨rfl, .stopped hafter ?_ htext⟩
      show ∀ event ∈ events ++ [], event = .connectionClosed
      rw [List.append_nil]
      exact hcloses
    · have hstep : step hp (.receiveData data) c = (.unit, c') := by
        show outcome _ (receiveData data c) = _
        rw [hcall]
        rfl
      rw [hstep] at hafter htext ⊢
      refine ⟨rfl, .stopped hafter ?_ ?_⟩
      · show ∀ event ∈ events ++ [], event = .connectionClosed
        rw [List.append_nil]
        exact hcloses
      · rw [(receiveData_ok hcall).1, List.append_assoc]
        have hpassed : passedBytes [((.receiveData data : Op), Outcome.unit)] = data :=
          List.append_nil data
        rw [hpassed] at htext
        exact htext

/-- A call that begins no cycle. -/
theorem Along.step (hhp : hp.Stable) {op : Op} (hop : answersInTurn c op) (hrole : c.role = .server)
    (h : Along hp limits (passedBytes [(op, (Connection.step hp op c).1)] ++ rest) todo events c)
    (heof : c.eof = true → rest = []) : (Connection.step hp op c).1.isFailed = false ∧
      Along hp limits rest todo (events ++ (Connection.step hp op c).1.events)
        (Connection.step hp op c).2 := by
  cases h with
  | message htrip horderly hcloses =>
    by_cases hclose : c.peerState = .idle ∧ op = .close
    · obtain ⟨hidle, rfl⟩ := hclose
      obtain ⟨rfl, hc, htext⟩ := htrip.idle hidle
      exact Along.close hc (htext.trans (textOf_cons _ _).symm)
    · exact Along.step_message hhp hop.1 (fun hidle => ⟨hop.2 hidle, fun h => hclose ⟨hidle, h⟩⟩)
        hrole htrip horderly
        hcloses heof
  | waits hc hnone => exact Along.step_waits hhp hop.1 (hop.2 hc.peer) hc hnone
  | stopped hstopped hcloses htext => exact Along.step_stopped hop.1 hstopped hcloses htext

/-! ## From one request to the next -/

/-- Behind its last event the request has been reported. -/
theorem Delivery.reported (delivery : Delivery hp limits) (h : delivery.message.Reported events) :
    ∃ report closes, events = report ++ closes ∧ delivery.sent.Reported report ∧
      ∀ event ∈ closes, event = .connectionClosed := by
  obtain ⟨headers, hevent, hfields⟩ := delivery.event
  obtain ⟨datas, closes, rfl, hdatas, hitems, hcloses⟩ := h
  refine ⟨_, closes, ?_,
    ⟨headers, datas, delivery.message.trailers, rfl, hfields, hdatas, ?_, delivery.trailers⟩,
    hcloses⟩
  · rw [hevent, List.append_assoc]
    rfl
  · rw [← splitAll_bytes, ← hitems]
    exact delivery.pieces

/-- The server as it begins a cycle waits for the request behind. -/
theorem awaits_next (hrole : c.role = .server) (hlimits : c.limits = limits) :
    AwaitsRequest limits { c with state := .new, cycle := .new } := by
  refine ⟨hrole, hlimits, ⟨rfl, rfl, [], List.nil_prefix, .fresh⟩, ?_, rfl⟩
  show ConnectionState.new.state c.role.peer = .idle
  rw [hrole]
  rfl

/-- The next cycle begins behind a request that has been reported. -/
theorem Along.next (hrole : c.role = .server) (hlimits : c.limits = limits)
    (h : Along hp limits rest todo events c) (hnext : startNextCycle c = (.ok (), c')) :
    ∃ delivery later, todo = delivery :: later ∧ delivery.sent.Reported events ∧
    Along hp limits rest later [] c' := by
  obtain ⟨state, hstate, rfl⟩ : ∃ state, c.state.startNextCycle = some state ∧
      c' = { c with state := state, cycle := .new } := by
    rcases startNextCycle_cases hnext with
      ⟨state, _, hstate, hafter⟩ | ⟨_, hcall, _⟩ | ⟨_, hcall, _⟩
    · exact ⟨state, hstate, hafter⟩
    · cases hcall
    · cases hcall
  have hnew := startNextCycle_new hstate
  subst hnew
  have hdone : c.peerState = .done := by
    unfold peerState
    rw [hrole]
    exact (ConnectionState.bodyLaws.cycle _ _ hstate).1
  have hwaits := awaits_next hrole hlimits
  -- Only behind a whole request is the client done, and only then does a cycle begin.
  cases h with
  | waits hc => cases hdone.symm.trans hc.peer
  | stopped hstopped =>
    rcases hstopped.each c.role.peer with hpeer | hpeer <;> cases hdone.symm.trans hpeer
  | @message _ delivery later _ htrip _ hcloses =>
    -- A close would have moved the client.
    have hopen : Event.connectionClosed ∉ events := by
      intro hmem
      cases hdone.symm.trans (hcloses hmem)
    cases htrip with
    | head hc => cases hdone.symm.trans hc.peer
    | body _ _ hc => cases hdone.symm.trans hc.peer
    | behind hreported _ htext =>
      obtain ⟨report, closes, hevents, hreport, hnone⟩ := delivery.reported hreported
      have hnil : closes = [] := by
        refine List.eq_nil_iff_forall_not_mem.mpr fun event hmem => hopen ?_
        rw [hevents, ← hnone event hmem]
        exact List.mem_append_right _ hmem
      rw [hnil, List.append_nil] at hevents
      refine ⟨delivery, later, rfl, by rw [hevents]; exact hreport, ?_⟩
      cases later with
      | nil => exact .waits hwaits htext
      | cons delivery' later =>
        rw [textOf_cons] at htext
        exact .message (.head hwaits htext) (Or.inl hwaits.persists) fun hmem => absurd hmem
          List.not_mem_nil

end Steps

/-! ## Whole runs -/

/-- A server that answers what it is asked, and begins a new cycle when it can. -/
def servesInTurn (c : Connection) (op : Op) : Prop := answersInTurn c op ∨ op = .startNextCycle

/-- What the server has done of these requests: it has reported some from their
heads to their ends, one after the other, and stands somewhere in the others. -/
structure Served (requests : List (Delivery hp limits)) (rest : Bytes) (events : List Event)
    (c : Connection) :
    Prop where
  role : c.role = .server
  sameLimits : c.limits = limits
  stands : ∃ done todo reports current,
    requests = done ++ todo ∧ events = reports.flatten ++ current ∧
    List.Forall₂ (fun delivery report => delivery.sent.Reported report) done reports ∧
    Along hp limits rest todo current c

theorem Served.step (hhp : hp.Stable) {requests : List (Delivery hp limits)}
    {events : List Event} {op : Op}
    (hop : servesInTurn c op)
    (h : Served requests (passedBytes [(op, (Connection.step hp op c).1)] ++ rest) events c)
    (heof : c.eof = true → rest = []) : (Connection.step hp op c).1.isFailed = false ∧
      Served requests rest (events ++ (Connection.step hp op c).1.events)
        (Connection.step hp op c).2 := by
  obtain ⟨hrole, hlimits, done, todo, reports, current, hlist, hevents, hreports, halong⟩ := h
  have hrole' := (step_role hp op c).trans hrole
  have hlimits' := (step_limits hp op c).trans hlimits
  rcases hop with hop | rfl
  · obtain ⟨hgoes, halong'⟩ := halong.step hhp hop hrole heof
    refine ⟨hgoes, hrole', hlimits', done, todo, reports, _, hlist, ?_, hreports, halong'⟩
    rw [hevents, List.append_assoc]
  · have hnone : passedBytes [((.startNextCycle : Op), (Connection.step hp .startNextCycle c).1)] =
        [] :=
      passedBytes_other _ nofun
    rw [hnone] at halong
    rcases hcall : startNextCycle c with ⟨error | u, c'⟩
    · -- Bytes behind the message are a reason to refuse only at a client.
      have hsame : c' = c := by
        rcases startNextCycle_cases hcall with ⟨_, hok, _⟩ | ⟨_, _, hclient, _⟩ | ⟨_, _, hsame⟩
        · cases hok
        · rw [hrole] at hclient
          cases hclient
        · exact hsame
      have hstep : Connection.step hp .startNextCycle c = (.refused error, c) := by
        show outcome _ (startNextCycle c) = _
        rw [hcall, hsame]
        rfl
      rw [hstep]
      refine ⟨rfl, hrole, hlimits, done, todo, reports, current, hlist, ?_, hreports, halong⟩
      exact (List.append_nil _).trans hevents
    · have hstep : Connection.step hp .startNextCycle c = (.unit, c') := by
        show outcome _ (startNextCycle c) = _
        rw [hcall]
        rfl
      rw [hstep] at hrole' hlimits' ⊢
      obtain ⟨delivery, later, rfl, hreported, halong'⟩ := halong.next hrole hlimits hcall
      refine ⟨rfl, hrole', hlimits', done ++ [delivery], later, reports ++ [current], [], ?_, ?_,
        ?_, halong'⟩
      · rw [hlist, List.append_assoc]
        rfl
      · rw [List.flatten_append, List.flatten_singleton, List.append_nil]
        exact (List.append_nil _).trans hevents
      · exact List.rel_append hreports (.cons hreported .nil)

/-- The events report the requests `done` one after the other, then `current`,
which is a part of the first of `todo`, and at last that the peer has closed. -/
def InOrder (done todo : List SentRequest) (current events : List Event) : Prop :=
  ∃ reports closes, events = reports.flatten ++ (current ++ closes) ∧
    List.Forall₂ SentRequest.Reported done reports ∧
    (current = [] ∨ ∃ sent later, todo = sent :: later ∧ sent.Begun current) ∧
    ∀ event ∈ closes, event = .connectionClosed

section Order

variable {todo : List (Delivery hp limits)} {events : List Event}

/-- A server that is behind a request, and has answered it in a way that ends
nothing, can begin the next cycle. -/
theorem startNextCycle_done (hrole : c.role = .server) (horderly : c.state.Orderly) (hover : c.Over)
    (hlocal : c.localState = .done) (hkept : c.keepAlive = true) : ∃ c',
      startNextCycle c = (.ok (), c') := by
  have hlaw : ∀ s : ConnectionState, (s.persists || s.isLast) = true → through s.client = true →
    s.server = .done →
      s.keepAlive = true → s.startNextCycle = some .new := by
    decide +kernel
  have hover' := hover.through
  unfold keepAlive at hkept
  unfold localState at hlocal
  unfold peerState at hover'
  rw [hrole] at hlocal hover'
  have hstate := hlaw c.state (Bool.or_eq_true_iff.mpr horderly) hover' hlocal
    (Bool.and_eq_true_iff.mp (Bool.and_eq_true_iff.mp hkept).1).1
  refine ⟨{ c with state := .new, cycle := .new }, ?_⟩
  unfold startNextCycle
  rw [if_neg (by rw [hrole]; nofun), hstate]

/-- When all bytes have come, a server whose poll rests has reported the requests
up to where it stands, and the others are in its buffer. -/
theorem Along.rests (hhp : hp.Stable) (hrole : c.role = .server)
    (h : Along hp limits [] todo events c)
    {next : NextEvent} (hpoll : nextEvent hp c = (.ok next, c')) (hrests : next.Rests) :
    ∃ done later, todo = done ++ later ∧
      InOrder (done.map (·.sent)) (later.map (·.sent)) [] (events ++ (Outcome.polled next).events) ∧
      c'.input.asSlice = textOf later ∧
      (later ≠ [] → c'.localState = .done → c'.keepAlive = true → ∃ c'',
        startNextCycle c' = (.ok (), c'')) := by
  have hstep : Connection.step hp .nextEvent c = (.polled next, c') := by
    show pollOutcome (nextEvent hp c) = _
    rw [hpoll]
    rfl
  have hrole' : c'.role = .server := by
    have hkept := step_role hp .nextEvent c
    rw [hstep] at hkept
    exact hkept.trans hrole
  have hcloses : ∀ event ∈ (Outcome.polled next).events, event = .connectionClosed := by
    intro event hmem
    rcases hrests with rfl | rfl | rfl
    · cases hmem
    · cases hmem
    · exact List.mem_singleton.mp hmem
  cases h with
  | @message _ delivery later _ htrip horderly =>
    obtain ⟨next', c1, hcall, _, hdone⟩ :=
      htrip.poll hhp (delivery.awaits _) delivery.event_ne fun _ => rfl
    rw [hpoll] at hcall
    cases hcall
    obtain ⟨hreported, hover, hinput⟩ := hdone hrests rfl fun huntil => by
      rw [delivery.untilEof] at huntil
      cases huntil
    obtain ⟨report, closes, hevents, hreport, hcloses⟩ := delivery.reported hreported
    have horderly' : (Connection.step hp .nextEvent c).2.state.Orderly :=
      Delivery.orderly (Or.inr (Or.inl rfl)) (fun _ => ⟨rfl, nofun⟩) hrole htrip horderly
        fun _ => rfl
    rw [hstep] at horderly'
    refine ⟨[delivery], later, rfl,
      ⟨[report], closes, ?_, .cons hreport .nil, Or.inl rfl, hcloses⟩, hinput,
      fun _ => startNextCycle_done hrole' horderly' hover⟩
    rw [hevents, List.flatten_singleton, List.nil_append]
  | waits hc hnone =>
    rw [List.append_nil] at hnone
    obtain ⟨c1, hinput, hcall | hcall⟩ := hc.nothing hhp hnone
    · rw [hpoll] at hcall
      cases hcall.1
      exact ⟨[], [], rfl, ⟨[], _, rfl, .nil, Or.inl rfl, hcloses⟩, hinput,
        fun hmore => absurd rfl hmore⟩
    · rw [hpoll] at hcall
      cases hcall.1
      exact ⟨[], [], rfl, ⟨[], _, rfl, .nil, Or.inl rfl, hcloses⟩, hinput,
        fun hmore => absurd rfl hmore⟩
  | stopped hstopped hclosed htext =>
    obtain ⟨next', c1, hcall, _, _, hinput⟩ := nextEvent_over hp hstopped.over
    rw [hpoll] at hcall
    cases hcall
    have hafter := hstopped.step hp .nextEvent
    rw [hstep] at hafter
    rw [List.append_nil] at htext
    refine ⟨[], todo, rfl, ⟨[], _, rfl, .nil, Or.inl rfl, ?_⟩, hinput.trans htext,
      fun _ hlocal => ?_⟩
    · intro event hmem
      rcases List.mem_append.mp hmem with hold | hnew
      · exact hclosed event hold
      · exact hcloses event hnew
    · rcases hafter.each c'.role with hmust | hmust <;> cases hmust.symm.trans hlocal

theorem InOrder.before {done todo : List SentRequest} {current : List Event}
    {sents : List SentRequest}
    {reports : List (List Event)} (h : InOrder done todo current events)
    (hreports : List.Forall₂ SentRequest.Reported sents reports) :
    InOrder (sents ++ done) todo current (reports.flatten ++ events) := by
  obtain ⟨reports', closes, rfl, hreports', hcurrent, hcloses⟩ := h
  refine ⟨reports ++ reports', closes, ?_, List.rel_append hreports hreports', hcurrent, hcloses⟩
  rw [List.flatten_append, List.append_assoc]

end Order

end Connection

end H11r
