import H11r.Connection.Writes

/-!
# The request that a client writes

`Asks` describes the bytes of a request that the server has not got yet, and the
client that has written them and goes on with the body (`Asks.wrote`). The client
has nothing from the server then, and a poll of it waits (`nextEvent_quiet`). A
server that reads the head comes to remember the question as the client does.
-/

namespace H11r

open Lib (Call)

namespace Connection

variable {hp : Httparse} {c c' : Connection} {limits : Limits} {bytes text : Bytes}
  {request : Request}
  {framing : Framing}

/-- A server with these limits reads `head` as this request. -/
structure ReadsRequest (hp : Httparse) (limits : Limits) (head : Bytes) (request : Request) :
    Prop where
  reads : ReadsAs (fun data => parseRequestHead hp data limits.maxHeaderCount) head
    (head.length, request)
  fits : head.length ≤ limits.maxHeadBytes

/-- Whether a 100 has to come before the upgrade that a request offers. -/
def continuesFirst (request : Request) (framing : Framing) : Bool :=
  (Fields.scan request.headers).expectsContinue request.httpVersion framing &&
    !(offeredUpgrades request (Fields.scan request.headers)).isEmpty

theorem remembers_of_notes (h : Notes c request framing) :
    c.Remembers (.of request) (continuesFirst request framing) :=
  ⟨h.kind, h.upgrades, h.continues⟩

/-- The request that a client has written, of which the server has got nothing:
none yet, or the head and a part of the body. -/
inductive Asks (hp : Httparse) (limits : Limits) (c : Connection) (text : Bytes) : Prop
  | idle (hstate : c.state = .new) (hwriter : c.cycle.writer = none) (htext : text = [])
  | asked {request : Request} {head body : Bytes} {framing : Framing}
      (hhead : ReadsRequest hp limits head request)
      (haccepts : Accepts request framing) (hframing : framing ≠ .closeDelimited)
      (hnoted : c.Remembers (.of request) (continuesFirst request framing))
      (hstate : c.state =
        .during (Question.of request).keep (Question.of request).proposals
          c.cycle.writer.isNone .pending)
      (hbody : BodyComes hp limits .server framing c.cycle.writer body)
      (htext : text = head ++ body)

/-! ## What the client writes -/

/-- A client that is idle asks. -/
theorem asks_of_sendRequest (hhp : hp.Stable) (hread : hp.ReadsValid)
    (hsent : sendRequest request c = (.ok bytes, c'))
    (hfits : bytes.length ≤ limits.maxHeadBytes)
    (hcount : request.headers.iter.length ≤ limits.maxHeaderCount)
    (hnew : c.state = .new) : Asks hp limits c' bytes := by
  obtain ⟨framing, hwriter, hframing, _, hbytes, htarget, hgraphic, hvalid, hmeans⟩ :=
    sendRequest_means hsent
  have hslots : (hostFirst request.headers.iter (Fields.scan request.headers).hostAt).length ≤
      limits.maxHeaderCount := by
    rw [(hostFirst_perm _ _).length_eq]
    exact hcount
  obtain ⟨headers, hiter, hreads⟩ :=
    requestHead_readsAs hhp hread request.method request.httpVersion htarget hgraphic
    hvalid hslots
  rw [← hbytes] at hreads
  obtain ⟨haccepts, hnoted, hoffers, hpersists⟩ := hmeans headers hiter
  obtain ⟨_, upgrades, state, _, _, hchecked, hstate, _, hc'⟩ := sendRequest_ok hsent
  have hevent := Question.of_event { request with headers := headers }
  rw [hoffers, offeredUpgrades_sent hchecked] at hevent
  change requestEvent request.method upgrades = _ at hevent
  rw [hnew, hevent, ConnectionState.request_during] at hstate
  refine .asked ⟨hreads, hfits⟩ haccepts hframing (remembers_of_notes hnoted) ?_
    (hwriter ▸ bodyComes hhp hread limits .server framing)
    (List.append_nil _).symm
  rw [hwriter, hc', sentRequest_state, ← Option.some.inj hstate, ConnectionState.duringLaws.disable,
    ← hpersists,
    Bool.not_not]
  rfl

/-- The client goes on with its body. -/
theorem Asks.body (hp : Httparse) (h : Asks hp limits c text) (hwrites : WritesOn limits c bytes c')
    (hsome : c.cycle.writer ≠ none) (hrole : c.role = .client) :
    Asks hp limits c' (text ++ bytes) := by
  cases h with
  | idle _ hwriter => exact absurd hwriter hsome
  | @asked request head body framing hhead haccepts hframing hnoted hstate hbody htext =>
    have hends :=
      ConnectionState.duringLaws.ends (Question.of request).keep
        (Question.of request).proposals .pending
    obtain ⟨_, hstate'⟩ := hwrites.state
      (fun ended => .during (Question.of request).keep (Question.of request).proposals ended
        .pending) hends hrole hstate
    refine .asked hhead haccepts hframing (hwrites.remembers hnoted) hstate'
      (hbody.wrote (hwrites.goes hp)) ?_
    rw [htext, List.append_assoc]

/-- Whatever a client writes, it asks, and goes on with its body. -/
theorem Asks.wrote (hhp : hp.Stable) (hread : hp.ReadsValid) (h : Asks hp limits c text)
    (hwrites : Writes limits c bytes c') (hrole : c.role = .client) :
    Asks hp limits c' (text ++ bytes) := by
  induction hwrites generalizing text with
  | nothing =>
    rw [List.append_nil]
    exact h
  | request hsent hfits hcount =>
    cases h with
    | idle hnew _ htext =>
      rw [htext]
      exact asks_of_sendRequest hhp hread hsent hfits hcount hnew
    | asked _ _ _ _ hstate =>
      obtain ⟨_, _, _, _, _, _, hrequest, _⟩ := sendRequest_ok hsent
      unfold requestEvent at hrequest
      rw [hstate, (ConnectionState.during_headless _ _ _ _).1] at hrequest
      cases hrequest
  | informational hsent =>
    obtain ⟨_, _, hserver, _⟩ := sendInformationalResponse_ok hsent
    cases hrole.symm.trans hserver
  | response hsent =>
    obtain ⟨_, _, _, hserver, _⟩ := sendResponse_ok hsent
    cases hrole.symm.trans hserver
  | piece hsent hfits =>
    obtain ⟨_, hframing, _⟩ := sendData_ok hsent
    obtain ⟨_, _, _, hsome, _⟩ := sendDataFraming_ok hframing
    exact h.body hp (.piece hsent hfits) (by rw [hsome]; nofun) hrole
  | ends hsent hfits =>
    obtain ⟨_, _, _, hsome, _⟩ := endOfMessage_ok hsent
    exact h.body hp (.ends hsent hfits) (by rw [hsome]; nofun) hrole
  | append hwrites _ ih ih' =>
    rw [← List.append_assoc]
    exact ih' (ih h hrole) (hwrites.role.trans hrole)

/-! ## The client has nothing yet -/

theorem Asks.rescan (h : Asks hp limits c text) (progress : SectionProgress) (reader : Reader)
    (spent : Nat) :
    Asks hp limits (c.rescan progress reader spent) text := by
  cases h with
  | idle hstate hwriter htext => exact .idle hstate hwriter htext
  | asked hhead haccepts hframing hnoted hstate hbody htext =>
    exact .asked hhead haccepts hframing ⟨hnoted.kind, hnoted.upgrades, hnoted.continues⟩ hstate
      hbody htext

/-- The server has not answered. -/
theorem Asks.server (h : Asks hp limits c text) :
    c.state.server = .idle ∨ c.state.server = .sendResponse := by
  cases h with
  | idle hstate =>
    rw [hstate]
    exact Or.inl rfl
  | asked _ _ _ _ hstate =>
    rw [hstate]
    exact Or.inr (ConnectionState.duringViews.server _ _ _ _ nofun)

/-- A client that has got nothing waits. -/
theorem nextEvent_quiet (hhp : hp.Stable) (hrole : c.role = .client)
    (hpeer : c.peerState = .idle ∨ c.peerState = .sendResponse) (hbefore : c.BeforeHead)
    (hinput : c.input.asSlice = [])
    (heof : c.eof = false) : ∃ progress,
      nextEvent hp c =
        (.ok .needData, c.rescan progress c.cycle.reader c.cycle.chunkExtensionBytes) := by
  obtain ⟨progress, _, hwaits⟩ := readSection_nothing
    (fun data => parseResponseHead hp data c.limits.maxHeaderCount c.lenient)
    (fun parsed : Nat × Response × Bool => do
      Call.modify (disableKeepAliveIf parsed.2.2)
      Call.modify (consumeSection parsed.1)
      acceptResponse parsed.2.1)
    (parseResponseHead_emptyLines hhp rfl) hbefore.notes hinput heof
  rw [← readHead_response hp hrole] at hwaits
  have hopen : ¬(c.eof = true ∧ c.input.asSlice.length ≤ c.limits.maxHeadBytes ∧
      onlyEmptyLines c.input.asSlice = true) := by
    intro hclosed
    cases heof.symm.trans hclosed.1
  refine ⟨progress, ?_⟩
  unfold nextEvent
  rcases hpeer with hpeer | hpeer
  · rw [nextEventInner_idle hpeer hbefore.reader hopen hwaits]
  · rw [nextEventInner_head hpeer hbefore.reader hwaits]

/-- A client that has asked, and got nothing, waits for the head of the answer. -/
theorem awaitsResponse_of_remembers (hreach : Reachable hp c) (hrole : c.role = .client)
    (hstrict : c.lenient = false)
    (hinput : c.input.asSlice = []) {q : Question} {continues ended : Bool}
    (hnoted : c.Remembers q continues)
    (hstate : c.state = .during q.keep q.proposals ended .pending) :
    c.AwaitsResponse (some q.kind) c.limits := by
  have hpeer : c.peerState = .sendResponse := by
    unfold peerState
    rw [hrole, hstate]
    exact ConnectionState.duringViews.server _ _ _ _ nofun
  refine ⟨hrole, rfl, hstrict, reachable_beforeHead hreach (by rw [hpeer]; rfl) hinput, hpeer,
    hnoted.kind, ?_⟩
  rw [hstate]
  exact ConnectionState.duringViews.begun _ _ _ _

end Connection

end H11r
