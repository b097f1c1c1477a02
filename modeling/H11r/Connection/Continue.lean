import H11r.Connection.Lifecycle
import H11r.Wire.Reference

/-!
# The wait for 100 (Continue)

`client_is_waiting_for_100_continue` is set with the request and has to be
cleared by whatever ends the wait: body data, the end of the request, a 100
response, a final response. The receiving side clears it everywhere but at the
end of the request. A request that expects a 100 has content, and content
usually means a `Data` event before the end; but a chunked body may turn out
empty, and then the flag outlives the request.

`Waiting` is what is true of a connection while the flag is set, and
`endsWhileWaiting` the one poll that breaks it.
-/

namespace H11r

namespace ConnectionState

/-- The client is still sending its request and the server has not begun its
final response, unless one of them has been poisoned. -/
def Awaits (s : ConnectionState) : Prop :=
  (s.client = .sendBody ∨ s.client = .error) ∧ (s.server = .sendResponse ∨ s.server = .error)

instance (s : ConnectionState) : Decidable s.Awaits := inferInstanceAs (Decidable (_ ∧ _))

/-- The two states agree on what the wait depends on besides `Awaits`. -/
def SameOffer (s s' : ConnectionState) : Prop :=
  s'.proposals = s.proposals ∧ (s'.client = .sendBody → s.client = .sendBody)

instance (s s' : ConnectionState) : Decidable (SameOffer s s') :=
  inferInstanceAs (Decidable (_ ∧ _))

/-- What the steps of the state machine do to a client that waits. -/
structure AwaitLaws : Prop where
  disable : ∀ s : ConnectionState, s.Awaits →
      s.disableKeepAlive.Awaits ∧ SameOffer s s.disableKeepAlive
  poison : ∀ (role : Role) (s : ConnectionState), s.Awaits →
      (s.processError role).Awaits ∧ SameOffer s (s.processError role)
  request : ∀ (proposals : SwitchProposals) (s s' : ConnectionState),
      s.processEvent .client (.request proposals) = some s' →
        s'.Awaits ∧ s'.proposals = proposals
  informational : ∀ s : ConnectionState, s.Awaits → ∀ s',
      s.processEvent .server .informationalResponse = some s' → s'.Awaits ∧ SameOffer s s'
  offered : ∀ s s' : ConnectionState,
      s.processEvent .server (.protocolSwitch .upgrade) = some s' → s.proposals.upgrade = true
  /-- While the client waits, no one can close and the server has no body. -/
  refuses : ∀ (s : ConnectionState), s.Awaits →
      (∀ role, s.processEvent role .connectionClosed = none) ∧
        s.processEvent .server .endOfMessage = none
  ends : ∀ (role : Role) (s s' : ConnectionState),
      s.processEvent role .endOfMessage = some s' → s.state role = .sendBody

theorem awaitLaws : AwaitLaws where
  disable := by decide +kernel
  poison := by decide +kernel
  request := by decide +kernel
  informational := by decide +kernel
  offered := by decide +kernel
  refuses := by decide +kernel
  ends := by decide +kernel

theorem disableKeepAliveIf_awaits {s : ConnectionState} (reason : Bool) (h : s.Awaits) :
    (s.disableKeepAliveIf reason).Awaits ∧ SameOffer s (s.disableKeepAliveIf reason) := by
  cases reason with
  | false => exact ⟨h, rfl, id⟩
  | true => exact awaitLaws.disable s h

end ConnectionState

namespace Connection

variable {hp : Httparse} {c c' : Connection}

/-- Readers of a request body with content of which nothing has been reported. -/
def BodyAhead : Reader → Prop
  | .fixed (_ + 1) | .chunked (.size _) | .chunked (.data _ _) | .chunked .trailers => True
  | _ => False

/-- What is true of a connection while its client waits for a 100. -/
structure Waiting (c : Connection) : Prop where
  awaits : c.state.Awaits
  upgrade : c.state.proposals.upgrade = true → c.cycle.continueBeforeUpgrade = true
  ahead : c.role = .server → c.state.client = .sendBody → BodyAhead c.cycle.reader

/-- The flag is set only while the client waits. -/
def FlagWaits (c : Connection) : Prop := c.cycle.waitingForContinue = true → c.Waiting

theorem flagWaits_of_clear (h : c.cycle.waitingForContinue = false) : c.FlagWaits :=
  fun hflag => absurd hflag (by rw [h]; decide)

theorem Waiting.mono (h : c.Waiting) (hawaits : c'.state.Awaits)
    (hoffer : ConnectionState.SameOffer c.state c'.state)
    (hcontinue : c'.cycle.continueBeforeUpgrade = c.cycle.continueBeforeUpgrade)
    (hrole : c'.role = c.role)
    (hreader : c.role = .server → c.state.client = .sendBody → BodyAhead c.cycle.reader →
      BodyAhead c'.cycle.reader) : c'.Waiting where
  awaits := hawaits
  upgrade := by
    rw [hoffer.1, hcontinue]
    exact h.upgrade
  ahead := by
    intro hserver hclient
    rw [hrole] at hserver
    have hclient := hoffer.2 hclient
    exact hreader hserver hclient (h.ahead hserver hclient)

/-! ## A request begins the wait -/

theorem request_waiting (request : Request) (framing : Framing) {upgrades : List Bytes}
    {state : ConnectionState}
    (hstate : c.state.processEvent .client (requestEvent request.method upgrades) = some state)
    (hcontinue : c'.cycle.continueBeforeUpgrade = ((Fields.scan request.headers).expectsContinue
      request.httpVersion framing && !upgrades.isEmpty))
    (hflag : (Fields.scan request.headers).expectsContinue request.httpVersion framing = true)
    (hafter : c'.state = state.disableKeepAliveIf
      !((Fields.scan request.headers).persistent request.httpVersion))
    (hahead : c'.role = .server → BodyAhead c'.cycle.reader) : c'.Waiting := by
  obtain ⟨hawaits, hproposals⟩ := ConnectionState.awaitLaws.request _ _ _ hstate
  obtain ⟨hawaits', hsame⟩ := ConnectionState.disableKeepAliveIf_awaits
    (!((Fields.scan request.headers).persistent request.httpVersion)) hawaits
  rw [← hafter] at hawaits' hsame
  refine ⟨hawaits', ?_, fun hserver _ => hahead hserver⟩
  rw [hsame.1, hproposals, hcontinue, hflag]
  exact id

theorem sentRequest_flagWaits {request : Request} {framing : Framing} {upgrades : List Bytes}
    {state : ConnectionState} (hrole : c.role = .client)
    (hstate : c.state.processEvent .client (requestEvent request.method upgrades) = some state) :
    (sentRequest request framing upgrades state c).FlagWaits := by
  intro hflag
  refine request_waiting request framing hstate rfl hflag (sentRequest_state _ _ _ _ _) ?_
  intro hserver
  rw [(sentRequest_sameOutside _ _ _ _ _).frame.role, hrole] at hserver
  cases hserver

/-- The framing of a request is never close-delimited. -/
theorem request_framing_ne_closeDelimited {fields : Fields} {version : Version}
    (h : fields.framing version false = .ok .closeDelimited) : False := by
  unfold Fields.framing at h
  split at h
  · cases h
  · split at h
    · cases h
    · unfold Codings.framing at h
      simp only [Bool.false_and, Bool.false_eq_true, if_false] at h
      split at h
      · cases h
      · split at h
        · cases h
        · split at h <;> cases h
  · cases h
  · cases h
  · cases h

theorem acceptedRequest_flagWaits {request : Request} {framing : Framing}
    {state : ConnectionState}
    (hframing : (Fields.scan request.headers).framing request.httpVersion false = .ok framing)
    (hstate : c.state.processEvent .client (requestEvent request.method
      (offeredUpgrades request (Fields.scan request.headers))) = some state) :
    (acceptedRequest request framing state c).FlagWaits := by
  intro hflag
  have hexpects : (Fields.scan request.headers).expectsContinue request.httpVersion framing = true :=
    hflag
  refine request_waiting request framing hstate rfl hexpects (acceptedRequest_state _ _ _ _) ?_
  intro _
  show BodyAhead (reader framing)
  unfold Fields.expectsContinue at hexpects
  cases framing with
  | fixed size =>
    cases size with
    | zero => simp at hexpects
    | succ => trivial
  | chunked => trivial
  | closeDelimited => exact (request_framing_ne_closeDelimited hframing).elim

/-! ## An informational response goes on with it or ends it -/

theorem informational_flagWaits {response : Response} {event : StateEvent}
    {state : ConnectionState} (hc : c.FlagWaits)
    (hevent : c.informationalEvent response.status response.httpVersion response.headers =
      some event)
    (hstate : c.state.processEvent .server event = some state) :
    (recordInformational response.status { c with state := state }).FlagWaits := by
  unfold recordInformational
  split
  next => exact flagWaits_of_clear rfl
  next =>
    intro hflag
    have hwaiting := hc hflag
    unfold informationalEvent at hevent
    split at hevent
    next =>
      cases hevent
      obtain ⟨hawaits, hoffer⟩ :=
        ConnectionState.awaitLaws.informational _ hwaiting.awaits _ hstate
      exact hwaiting.mono hawaits hoffer rfl rfl fun _ _ h => h
    next =>
      -- A 101 needs the 100 first when both were asked for.
      split at hevent
      next hselected =>
        cases hevent
        have hoffered := ConnectionState.awaitLaws.offered _ _ hstate
        rw [hwaiting.upgrade hoffered] at hselected
        simp at hselected
      next => cases hevent

/-! ## Calls -/

theorem LocalChange.flagWaits (h : LocalChange c c') (hc : c.FlagWaits) : c'.FlagWaits := by
  cases h with
  | request hrole _ _ hstate => exact sentRequest_flagWaits hrole hstate
  | informational _ hevent hstate => exact informational_flagWaits hc hevent hstate
  | response => exact flagWaits_of_clear rfl
  | data => exact flagWaits_of_clear rfl
  | ends => exact flagWaits_of_clear rfl
  | closes hstate =>
    intro hflag
    have hrefuses := ConnectionState.awaitLaws.refuses _ (hc hflag).awaits
    rw [hrefuses.1] at hstate
    cases hstate

theorem disableKeepAliveIf_waiting (reason : Bool) (h : c.Waiting) :
    (c.disableKeepAliveIf reason).Waiting := by
  obtain ⟨hawaits, hoffer⟩ := ConnectionState.disableKeepAliveIf_awaits reason h.awaits
  rw [disableKeepAliveIf_eq]
  exact h.mono hawaits hoffer rfl rfl fun _ _ hahead => hahead

theorem disableKeepAliveIf_flagWaits (reason : Bool) (h : c.FlagWaits) :
    (c.disableKeepAliveIf reason).FlagWaits := by
  intro hflag
  rw [disableKeepAliveIf_cycle] at hflag
  exact disableKeepAliveIf_waiting reason (h hflag)

/-- What the flag depends on. -/
theorem FlagWaits.congr (h : c.FlagWaits) (hrole : c'.role = c.role) (hstate : c'.state = c.state)
    (hcycle : (c'.cycle.waitingForContinue, c'.cycle.continueBeforeUpgrade, c'.cycle.reader) =
      (c.cycle.waitingForContinue, c.cycle.continueBeforeUpgrade, c.cycle.reader)) :
    c'.FlagWaits := by
  simp only [Prod.mk.injEq] at hcycle
  obtain ⟨hwaits, hcontinue, hreader⟩ := hcycle
  intro hflag
  rw [hwaits] at hflag
  refine (h hflag).mono ?_ ?_ hcontinue hrole fun _ _ hahead => hreader ▸ hahead
  · rw [hstate]
    exact (h hflag).awaits
  · rw [hstate]
    exact ⟨rfl, id⟩

theorem Change.flagWaits (h : Change c c') (hc : c.FlagWaits) : c'.FlagWaits := by
  cases h with
  | lenient | received | hold =>
    intro hflag
    exact (hc hflag).mono (hc hflag).awaits ⟨rfl, id⟩ rfl rfl fun _ _ h => h
  | eof =>
    intro hflag
    unfold recordEof at hflag ⊢
    rw [disableKeepAliveIf_cycle] at hflag
    refine disableKeepAliveIf_waiting _ ?_
    exact (hc hflag).mono (hc hflag).awaits ⟨rfl, id⟩ rfl rfl fun _ _ h => h
  | inPlace => exact flagWaits_of_clear rfl
  | @inPlaceRefused count _ hstate =>
    intro hflag
    have hcycle : (c.advancePayload count).2.cycle.waitingForContinue =
        c.cycle.waitingForContinue ∧ (c.advancePayload count).2.cycle.continueBeforeUpgrade =
        c.cycle.continueBeforeUpgrade := by
      unfold advancePayload
      split <;> exact ⟨rfl, rfl⟩
    rw [hcycle.1] at hflag
    refine (hc hflag).mono ?_ ?_ hcycle.2 (advancePayload_role _ _) ?_
    · rw [advancePayload_state]
      exact (hc hflag).awaits
    · rw [advancePayload_state]
      exact ⟨rfl, id⟩
    · -- The data was refused, so the client is not in its body.
      intro hserver hclient _
      unfold ConnectionState.processEvent at hstate
      rw [hserver, if_pos ⟨rfl, hclient⟩] at hstate
      cases hstate
  | «local» h => exact h.flagWaits hc

theorem CycleChange.flagWaits (h : CycleChange c c') (hc : c.FlagWaits) : c'.FlagWaits := by
  cases h with
  | started => exact flagWaits_of_clear rfl
  | refused hrole hpeer =>
    intro hflag
    have hserver := (hc hflag).awaits.2
    have hdone : c.state.server = .done := by
      unfold peerState at hpeer
      rw [hrole] at hpeer
      exact hpeer
    rw [hdone] at hserver
    rcases hserver with h | h <;> cases h

/-! ## Polls -/

/-- The bytes after the last-chunk line, once it has been read or when the next
thing to read is such a line. -/
def afterLastChunk (c : Connection) : Option Bytes :=
  match c.cycle.reader with
  | .chunked .trailers => some c.input.asSlice
  | .chunked (.size scanned) =>
    match findCrlf c.input.asSlice scanned with
    | none => none
    | some stop =>
      if parseChunkHeader (c.input.asSlice.take (stop - 2)) = some 0 then
        some (c.input.asSlice.drop stop)
      else none
  | _ => none

/-- A server whose client still waits for a 100 has the end of an empty chunked
body, trailers included, in its buffer. -/
def EndsWhileWaiting (hp : Httparse) (c : Connection) : Prop :=
  c.role = .server ∧ c.cycle.waitingForContinue = true ∧ c.peerState = .sendBody ∧
    ∃ rest stop trailers, c.afterLastChunk = some rest ∧
      parseTrailers hp (rest.take c.limits.maxHeadBytes) c.limits.maxHeaderCount false =
        .ok (some (stop, trailers))

theorem waiting_peer (hrole : c.role = .client) (h : c.Waiting) :
    c.peerState ≠ .idle ∧ c.peerState ≠ .sendBody := by
  unfold peerState
  rw [hrole]
  show c.state.server ≠ .idle ∧ c.state.server ≠ .sendBody
  rcases h.awaits.2 with hserver | hserver <;> rw [hserver] <;> decide

/-- The end of the peer's message is not the end of a request that waits. -/
theorem ends_not_waiting {state : ConnectionState} (h : c.Waiting)
    (hstate : c.state.processEvent c.role.peer .endOfMessage = some state) :
    c.role = .server ∧ c.state.client = .sendBody := by
  have hbody := ConnectionState.awaitLaws.ends _ _ _ hstate
  cases hrole : c.role with
  | client => exact absurd hbody (waiting_peer hrole h).2
  | server =>
    rw [hrole] at hbody
    exact ⟨rfl, hbody⟩

theorem Turn.flagWaits {polled : Option Polled} (h : Turn hp c (.ok polled) c')
    (hnot : ¬EndsWhileWaiting hp c) (hc : c.FlagWaits) : c'.FlagWaits := by
  cases h with
  | closed | paused | doneWaits => exact hc
  | waits _ _ hreader =>
    intro hflag
    refine (hc hflag).mono (hc hflag).awaits ⟨rfl, id⟩ rfl rfl fun _ _ hahead => ?_
    rcases hreader with rfl | ⟨scanned, scanned', _, rfl⟩
    · exact hahead
    · trivial
  | idleClosed _ _ _ _ hstate =>
    intro hflag
    rw [(ConnectionState.awaitLaws.refuses _ (hc hflag).awaits).1] at hstate
    cases hstate
  | doneClosed _ _ _ hstate =>
    intro hflag
    rw [(ConnectionState.awaitLaws.refuses _ (hc hflag).awaits).1] at hstate
    cases hstate
  | request _ _ _ _ hframing _ hstate => exact acceptedRequest_flagWaits hframing hstate
  | @informational stop response dropped event state _ _ _ _ _ _ hevent hstate =>
    have hdropped := disableKeepAliveIf_flagWaits dropped hc
    have hsame : (c.disableKeepAliveIf dropped).informationalEvent response.status
        response.httpVersion response.headers = some event := by
      unfold informationalEvent validUpgradeResponse at hevent ⊢
      rw [disableKeepAliveIf_cycle]
      exact hevent
    have hafter := disableKeepAliveIf_flagWaits
      (isFaulty ((Fields.scan response.headers).framing response.httpVersion true))
      (informational_flagWaits hdropped hsame hstate)
    refine hafter.congr ?_ ?_ ?_
    all_goals
      unfold acceptedInformational recordInformational
      simp only [disableKeepAliveIf_eq]
      split <;> rfl
  | final => exact flagWaits_of_clear (by rw [acceptedFinal_cycle])
  | payload => exact flagWaits_of_clear rfl
  | ends _ hreader hstate =>
    intro hflag
    obtain ⟨hserver, hclient⟩ := ends_not_waiting (hc hflag) hstate
    have hahead := (hc hflag).ahead hserver hclient
    rcases hreader with hzero | ⟨hclose, _⟩
    · rw [hzero] at hahead
      exact hahead.elim
    · rw [hclose] at hahead
      exact hahead.elim
  | @trailers stop trailers _ _ hreader hparse hstate =>
    intro hflag
    obtain ⟨hserver, hclient⟩ := ends_not_waiting (hc hflag) hstate
    refine absurd ⟨hserver, hflag, ?_, c.input.asSlice, stop, trailers, ?_, ?_⟩ hnot
    · unfold peerState
      rw [hserver]
      exact hclient
    · unfold afterLastChunk
      rw [hreader]
    · rw [hserver] at hparse
      exact hparse
  | sizeLine =>
    intro hflag
    refine (hc hflag).mono (hc hflag).awaits ⟨rfl, id⟩ rfl rfl fun _ _ _ => ?_
    show BodyAhead (if _ then _ else _)
    split <;> trivial
  | dataEnd =>
    intro hflag
    exact (hc hflag).mono (hc hflag).awaits ⟨rfl, id⟩ rfl rfl fun _ _ _ => trivial

/-- A tail call brings no such end any closer than it was. -/
theorem Turn.again_not_ends (h : Turn hp c (.ok none) c') (hnot : ¬EndsWhileWaiting hp c)
    (hc : c.FlagWaits) : ¬EndsWhileWaiting hp c' := by
  rintro ⟨hserver, hflag, hpeer, rest, stop, trailers, hrest, hparse⟩
  cases h with
  | @sizeLine scanned lineEnd size _ _ hreader hstop hsize =>
    refine hnot ⟨hserver, hflag, hpeer, rest, stop, trailers, ?_, hparse⟩
    unfold afterLastChunk at hrest ⊢
    rw [hreader]
    dsimp only
    rw [hstop]
    dsimp only
    rw [hsize]
    by_cases hzero : size = 0
    · subst hzero
      simp only [afterSizeLine, mapCycle, if_true, Buffer.asSlice_consume] at hrest
      rw [if_pos rfl]
      exact hrest
    · simp only [afterSizeLine, mapCycle, if_neg hzero] at hrest
      cases hrest
  | dataEnd _ hreader =>
    have hahead := (hc hflag).ahead hserver (by
      unfold peerState at hpeer
      rw [hserver] at hpeer
      exact hpeer)
    rw [hreader] at hahead
    exact hahead.elim

/-- Up to the poisoning, a failed turn leaves the wait as it was or ends it. -/
theorem Turn.failed_cycle {error : RemoteProtocolError} (h : Turn hp c (.error error) c') :
    c'.cycle.waitingForContinue = false ∨
      (c'.cycle.waitingForContinue = c.cycle.waitingForContinue ∧
        c'.cycle.continueBeforeUpgrade = c.cycle.continueBeforeUpgrade ∧
        ∃ reason, c'.state = c.state.disableKeepAliveIf reason) := by
  cases h with
  | poisoned | fails | requestRejected | trailersRejected => exact Or.inr ⟨rfl, rfl, false, rfl⟩
  | finalFaulty => exact Or.inl rfl
  | @responseRejected _ _ _ dropped =>
    right
    unfold consumeSection mapCycle
    dsimp only
    rw [disableKeepAliveIf_cycle, disableKeepAliveIf_state]
    exact ⟨rfl, rfl, dropped, rfl⟩
  | payloadRejected =>
    right
    rw [advancePayload_state]
    unfold advancePayload
    split <;> exact ⟨rfl, rfl, false, rfl⟩

theorem Turn.failed_flagWaits {error : RemoteProtocolError} (h : Turn hp c (.error error) c')
    (hc : c.FlagWaits) : { c' with state := c'.state.processError c'.role.peer }.FlagWaits := by
  intro hflag
  rcases h.failed_cycle with hclear | ⟨hwaits, hcontinue, reason, hstate⟩
  · have hset : c'.cycle.waitingForContinue = true := hflag
    rw [hclear] at hset
    cases hset
  · have hwaiting := hc (hwaits ▸ hflag)
    obtain ⟨hawaits, hoffer⟩ := ConnectionState.disableKeepAliveIf_awaits reason hwaiting.awaits
    rw [← hstate] at hawaits hoffer
    obtain ⟨hpoisoned, hsame⟩ := ConnectionState.awaitLaws.poison c'.role.peer _ hawaits
    refine ⟨hpoisoned, ?_, ?_⟩
    · show (c'.state.processError c'.role.peer).proposals.upgrade = true → _
      rw [hsame.1, hoffer.1]
      intro hupgrade
      exact hcontinue.trans (hwaiting.upgrade hupgrade)
    · intro hserver hclient
      have hserver : c'.role = .server := hserver
      have herror := ConnectionState.processError_state c'.role.peer c'.state
      rw [hserver] at herror
      change (c'.state.processError c'.role.peer).client = .sendBody at hclient
      rw [hserver] at hclient
      rw [show (c'.state.processError Role.server.peer).client = .error from herror] at hclient
      cases hclient

theorem nextEvent_flagWaits (hnot : ¬EndsWhileWaiting hp c) (hc : c.FlagWaits) :
    (nextEvent hp c).2.FlagWaits := by
  have hok : ∀ {c c' r}, Turns hp c r c' → ¬EndsWhileWaiting hp c → c.FlagWaits →
      match r with
      | .ok _ => c'.FlagWaits
      | .error _ => { c' with state := c'.state.processError c'.role.peer }.FlagWaits := by
    intro c c' r h hnot hc
    induction h with
    | @last _ _ r h =>
      cases r with
      | ok polled => exact h.flagWaits hnot hc
      | error error => exact h.failed_flagWaits hc
    | again h _ ih => exact ih (h.again_not_ends hnot hc) (h.flagWaits hnot hc)
  unfold nextEvent
  rcases h : nextEventInner hp c with ⟨error | polled, c'⟩
  · exact hok (nextEventInner_turns h) hnot hc
  · have hafter : c'.FlagWaits := hok (nextEventInner_turns h) hnot hc
    cases polled with
    | data count chunkStart chunkEnd => exact hafter.congr rfl rfl rfl
    | _ => exact hafter

/-- The polls the result below leaves out. -/
def pollEndsWhileWaiting (hp : Httparse) (c : Connection) (op : Op) : Prop :=
  match op with
  | .nextEvent => EndsWhileWaiting hp c
  | _ => False

/-- In a run without such a poll the flag is set only while the client is
sending its request and the server has not begun to answer it. -/
theorem continue_flag_ends_with_wait {role : Role} {limits : Limits}
    {history : List (Op × Outcome)}
    (hrun : Run hp (fun c op => ¬pollEndsWhileWaiting hp c op) role limits history c)
    (hflag : c.clientIsWaitingFor100Continue = true) :
    (c.state.client = .sendBody ∨ c.state.client = .error) ∧
      (c.state.server = .sendResponse ∨ c.state.server = .error) := by
  have hflags : c.FlagWaits := by
    refine Lib.Run.invariant (P := FlagWaits) (flagWaits_of_clear rfl) (fun s op hs hop => ?_) hrun
    by_cases hpoll : op = .nextEvent
    · subst hpoll
      show (pollOutcome (nextEvent hp s)).2.FlagWaits
      rw [pollOutcome_snd]
      exact nextEvent_flagWaits hop hs
    · exact step_preserve_unpolled (fun _ _ => Change.flagWaits) (fun _ _ => CycleChange.flagWaits)
        hpoll hs
  exact (hflags hflag).awaits

/-- The request of the fixed runs below: a chunked POST that waits for a 100. -/
def waitingPost : Bytes :=
  ascii "POST / HTTP/1.1\r\nHost: a\r\nExpect: 100-continue\r\nTransfer-Encoding: chunked\r\n\r\n"

/-- The flag of a server that has read the head and nothing of the body. -/
theorem continue_flag_before_body :
    ∃ history c, Run Reference.httparse
        (fun c op => ¬pollEndsWhileWaiting Reference.httparse c op) .server .default history c ∧
      c.clientIsWaitingFor100Continue = true ∧
      ((c.state.client = .sendBody ∨ c.state.client = .error) ∧
        (c.state.server = .sendResponse ∨ c.state.server = .error)) := by
  have hpermitted : Lib.Permitted (step Reference.httparse)
      (fun c op => ¬pollEndsWhileWaiting Reference.httparse c op) (new .server .default)
      [.receiveData waitingPost, .nextEvent] := by
    refine ⟨id, ?_, trivial⟩
    rintro ⟨_, hflag, _⟩
    revert hflag
    decide +kernel
  have hrun : Run Reference.httparse
      (fun c op => ¬pollEndsWhileWaiting Reference.httparse c op) .server .default _ _ :=
    Lib.Run.trace _ _ hpermitted
  exact ⟨_, _, hrun, by decide +kernel, continue_flag_ends_with_wait hrun (by decide +kernel)⟩

/-- An empty chunked body ends the request without a `Data` event, and the flag
of the server stays set. -/
theorem continue_flag_outlives_empty_body :
    ¬∀ (hp : Httparse) (role : Role) (limits : Limits) (history : List (Op × Outcome))
      (c : Connection), Run hp anyCall role limits history c →
      c.clientIsWaitingFor100Continue = true →
      (c.state.client = .sendBody ∨ c.state.client = .error) ∧
        (c.state.server = .sendResponse ∨ c.state.server = .error) := by
  intro h
  have hrun : Run Reference.httparse anyCall .server .default _ _ :=
    Lib.Run.trace_of_forall _
      [.receiveData (waitingPost ++ ascii "0\r\n\r\n"), .nextEvent, .nextEvent] fun _ _ => trivial
  have hstate := h _ _ _ _ _ hrun (by decide +kernel)
  revert hstate
  decide +kernel

end Connection

end H11r
