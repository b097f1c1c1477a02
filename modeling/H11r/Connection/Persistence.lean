import H11r.Connection.Framed
import H11r.Connection.Atomic
import H11r.Connection.Reuse
import H11r.Wire.Announce
import H11r.Wire.Reference

/-!
# What a response head says about the connection

A response head states whether the connection persists: it carries `close`
exactly when the keep-alive flag is off once every reason the response adds has
been recorded (`announced_flag`). What `keep_alive()` reports looks at the two
actors as well. `RespondSound` is the invariant that leaves one way for the two
to disagree: a client that has closed its side after its request, while the
flag is still on. That client's actor is `Closed`, the flag is not, and the head
does not say `close`.
-/

namespace H11r

open Connection (stopsReuse)

namespace ConnectionState

/-- What holds of the actors of a server before it responds. -/
structure RespondSound (s : ConnectionState) : Prop where
  poisoned : s.client = .error → s.keepAlive = false
  closing : s.client = .mustClose → s.server = .idle ∨ s.server = .sendResponse →
    s.keepAlive = false
  switched : s.client = .switchedProtocol → s.server = .switchedProtocol
  closed : s.client = .closed → s.server ≠ .idle
  proposals : s.proposals.isEmpty = false → s.server ≠ .idle ∧
    (s.client = .sendBody ∨ s.client = .mightSwitchProtocol ∨ s.client = .error)

instance (s : ConnectionState) : Decidable s.RespondSound :=
  decidable_of_iff ((s.client = .error → s.keepAlive = false) ∧
      (s.client = .mustClose → s.server = .idle ∨ s.server = .sendResponse → s.keepAlive = false) ∧
      (s.client = .switchedProtocol → s.server = .switchedProtocol) ∧
      (s.client = .closed → s.server ≠ .idle) ∧
      (s.proposals.isEmpty = false → s.server ≠ .idle ∧
        (s.client = .sendBody ∨ s.client = .mightSwitchProtocol ∨ s.client = .error)))
    ⟨fun h => ⟨h.1, h.2.1, h.2.2.1, h.2.2.2.1, h.2.2.2.2⟩, fun h => ⟨h.1, h.2, h.3, h.4, h.5⟩⟩

/-- What a response and the end of it do to the flag and the actors. -/
structure RespondLaws : Prop where
  /-- A client that has closed while the flag is on, and a response that adds no
  reason to close, are where the flag and the actors disagree. -/
  flag : ∀ s : ConnectionState, s.RespondSound → ∀ s',
      s.processEvent .server .response = some s' → ∀ reason : Bool,
      (((s'.disableKeepAliveIf reason).keepAlive = false ↔ (s'.disableKeepAliveIf reason).ReuseOff) ↔
        ¬(s.client = .closed ∧ s.keepAlive = true ∧ reason = false))
  /-- The end of the response changes nothing about that. -/
  ends : ∀ s : ConnectionState, ∀ s',
      s.processEvent .server .endOfMessage = some s' → s'.keepAlive = s.keepAlive ∧
        (s'.ReuseOff ↔ s.ReuseOff)
  closed : ∀ s : ConnectionState, s.client = .closed → ∀ s',
      s.processEvent .server .response = some s' → s'.client = .closed
  disable : ∀ s : ConnectionState, s.disableKeepAlive.keepAlive = false

theorem respondLaws : RespondLaws where
  flag := by decide +kernel
  ends := by decide +kernel
  closed := by decide +kernel
  disable := by decide +kernel

end ConnectionState

theorem Move.respondSound {s s' : ConnectionState} (h : Move .client s s') (hs : s.RespondSound) :
    s'.RespondSound := by
  have hevent : ∀ (role : Role) (event : StateEvent) (s : ConnectionState), s.RespondSound →
      ∀ s', s.processEvent role event = some s' → s'.RespondSound := by
    decide +kernel
  have hdisable : ∀ s : ConnectionState, s.RespondSound → s.disableKeepAlive.RespondSound := by
    decide +kernel
  have herror : ∀ s : ConnectionState, s.RespondSound →
      (s.processError .client).RespondSound := by
    decide +kernel
  cases h with
  | event h => exact hevent _ _ s hs s' h
  | disable => exact hdisable s hs
  | poison => exact herror s hs

namespace Connection

variable {hp : Httparse} {c c' : Connection} {response : Response}

/-- The response is sent close-delimited: its exchange is not HTTP/1.1 at both
ends, it has content, and no length that its peer can read. -/
def sentCloseDelimited (c : Connection) (response : Response) : Bool :=
  !c.isHttp11 response.httpVersion && !c.responseHasNoBody response.status &&
    response.status.asU16 != 205 && !c.declaresFraming response

/-- The client has closed its side while the connection could still persist, and
the response gives no reason of its own to close. -/
def closedBehindFlag (c : Connection) (response : Response) : Prop :=
  c.peerState = .closed ∧ c.state.keepAlive = true ∧
    (Fields.scan response.headers).close = false ∧ c.sentCloseDelimited response = false

theorem codings_framing_ne_closeDelimited {codings : Codings} :
    codings.framing false ≠ .ok .closeDelimited := by
  unfold Codings.framing
  simp only [Bool.false_and, Bool.false_eq_true, if_false, Bool.not_false, Bool.and_true]
  split
  · simp
  · split
    · simp
    · split <;> simp

/-- Framing that a sender declares is never close-delimited. -/
theorem framing_ne_closeDelimited {fields : Fields} {version : Version} :
    fields.framing version false ≠ .ok .closeDelimited := by
  unfold Fields.framing
  split
  · simp
  · split
    · simp
    · exact codings_framing_ne_closeDelimited
  · simp
  · simp
  · simp

theorem Framed.closeDelimited_iff {framing : Framing} {headers : Headers}
    (h : Framed c response framing headers) :
    (framing == .closeDelimited) = c.sentCloseDelimited response := by
  unfold sentCloseDelimited
  cases h with
  | bodyless hbody => simp [hbody]
  | resetLength hbody hstatus => simp [hstatus]
  | resetDeclared hbody hstatus => simp [hstatus]
  | chunked _ _ _ hhttp => simp [hhttp]
  | closeDelimited hbody hstatus hdeclared hhttp => simp [hbody, hstatus, hdeclared, hhttp]
  | declared hbody hstatus hdeclared hframing =>
    rw [hdeclared, Bool.not_true, Bool.and_false, beq_eq_false_iff_ne]
    rintro rfl
    exact framing_ne_closeDelimited hframing

/-- The head carries `close` exactly when the flag is off after it. -/
theorem announced_flag {bytes : Bytes} (h : sendResponse response c = (.ok bytes, c'))
    (htunnel : c.opensTunnel response.status = false) (rest : Bytes) :
    announcesClose (bytes ++ rest) = !c'.state.keepAlive := by
  obtain ⟨framing, headers, state, hrole, _, hchecked, hplan, hstate, rfl, rfl⟩ := sendResponse_ok h
  obtain ⟨_, hframed⟩ := responseFraming_framed hplan
  have hvalid := hframed.valid (validateHeaders_iff.mp hchecked.headers)
  have hreason := validateReason_ok hchecked.reason
  have hclose : hasToken headers (ascii "connection") (ascii "close") =
      (Fields.scan response.headers).close := by
    rw [Fields.scan_close_eq_hasToken]
    unfold hasToken
    rw [hframed.connection]
  simp only [htunnel, Bool.false_eq_true, if_false]
  unfold announcePersistence
  cases hflag : (sentResponse response framing state c).state.keepAlive with
  | false =>
    rw [Bool.not_false, if_pos rfl, announcesClose_head _ _ hreason
      (setConnectionOption_valid hvalid (by decide) (by decide) (by decide)),
      setConnectionOption_close _ (by decide) (by decide)]
    decide
  | true =>
    rw [Bool.not_true, if_neg (by simp)]
    split
    · rw [announcesClose_head _ _ hreason
        (setConnectionOption_valid hvalid (by decide) (by decide) (by decide)),
        setConnectionOption_close _ (by decide) (by decide)]
      decide
    · -- The fields go out as they are, and `close` among them would have
      -- turned the flag off.
      rw [announcesClose_head _ _ hreason hvalid, hclose]
      rw [sentResponse_state _ _ _ hrole] at hflag
      cases hfield : (Fields.scan response.headers).close with
      | false => rfl
      | true =>
        unfold closesFor at hflag
        rw [hfield, Bool.or_true] at hflag
        have hoff : (state.disableKeepAliveIf true).keepAlive = false :=
          ConnectionState.respondLaws.disable state
        rw [hoff] at hflag
        cases hflag

/-- The head tells the truth about the connection exactly when the client has
not closed behind the flag. -/
theorem sendResponse_announces_iff {bytes : Bytes} (hsound : c.state.RespondSound)
    (h : sendResponse response c = (.ok bytes, c'))
    (htunnel : c.opensTunnel response.status = false) (rest : Bytes) :
    (announcesClose (bytes ++ rest) = true ↔ c'.state.ReuseOff) ↔ ¬c.closedBehindFlag response := by
  rw [announced_flag h htunnel rest]
  obtain ⟨framing, headers, state, hrole, _, _, hplan, hstate, _, rfl⟩ := sendResponse_ok h
  obtain ⟨_, hframed⟩ := responseFraming_framed hplan
  have hevent : c.finalResponseEvent response.status = .response := by
    unfold finalResponseEvent
    rw [htunnel]
    rfl
  rw [hevent] at hstate
  have hiff := ConnectionState.respondLaws.flag c.state hsound state hstate
    (c.closesFor response framing state)
  rw [sentResponse_state _ _ _ hrole, Bool.not_eq_true', hiff]
  have hpeer : c.peerState = c.state.client := by
    unfold peerState
    rw [hrole]
    rfl
  unfold closedBehindFlag
  rw [hpeer, ← hframed.closeDelimited_iff]
  refine not_congr ⟨?_, ?_⟩
  · rintro ⟨hclient, hflag, hreason⟩
    unfold closesFor at hreason
    simp only [Bool.or_eq_false_iff] at hreason
    exact ⟨hclient, hflag, hreason.2, hreason.1.1⟩
  · rintro ⟨hclient, hflag, hclose, hframing⟩
    refine ⟨hclient, hflag, ?_⟩
    unfold closesFor
    rw [hframing, hclose, ConnectionState.respondLaws.closed c.state hclient state hstate]
    rfl

/-- The rest of a complete response leaves the answer as it was. -/
theorem sendRest_reuseOff {before : Bytes} {length : Nat} {parts : Bytes × Bytes}
    (hrole : c.role = .server) (h : sendRest before length c = (.ok parts, c')) :
    (∃ more, parts.1 = before ++ more) ∧ (c'.state.ReuseOff ↔ c.state.ReuseOff) := by
  rcases sendRest_ok h with ⟨_, _, rfl, rfl⟩ | ⟨last, _, _, hend, rfl⟩ |
    ⟨around, c1, last, _, _, hdata, hend, rfl⟩
  · exact ⟨⟨[], (List.append_nil _).symm⟩, Iff.rfl⟩
  · obtain ⟨_, state, _, _, _, hstate, rfl⟩ := endOfMessage_ok hend
    rw [hrole] at hstate
    exact ⟨⟨[], (List.append_nil _).symm⟩,
      (ConnectionState.respondLaws.ends _ state hstate).2⟩
  · obtain ⟨_, _, middle, _, _, hmiddle, rfl⟩ := sendDataFraming_ok hdata
    obtain ⟨_, state, _, _, _, hstate, rfl⟩ := endOfMessage_ok hend
    have hsame : middle = c.state := (ConnectionState.bodyLaws.data _ _ _ hmiddle).1
    subst hsame
    change c.state.processEvent c.role .endOfMessage = some state at hstate
    rw [hrole] at hstate
    exact ⟨⟨around.1, rfl⟩, (ConnectionState.respondLaws.ends _ state hstate).2⟩

/-- For every reachable server and every response that goes out without opening
a tunnel, the head carries `close` exactly when the connection is not reusable
right after it, unless the client has closed behind the flag. -/
theorem response_announces_persistence {limits : Limits} {history : List (Op × Outcome)}
    (hrun : Run hp anyCall .server limits history c) :
    (∀ response bytes c', sendResponse response c = (.ok bytes, c') →
      c.opensTunnel response.status = false →
      ((announcesClose bytes = true ↔ c'.keepAlive = false) ↔ ¬c.closedBehindFlag response)) ∧
    ∀ response body bytes c', sendResponseWithBody response body c = (.ok bytes, c') →
      c.opensTunnel response.status = false →
      ((announcesClose bytes = true ↔ c'.keepAlive = false) ↔
        ¬c.closedBehindFlag (c.responseWithLength response body.length)) := by
  have hsound : c.state.RespondSound :=
    run_state .server (by decide) (fun _ _ h => Move.respondSound h) hrun
  refine ⟨fun response bytes c' h htunnel => ?_, fun response body bytes c' h htunnel => ?_⟩
  · have hiff := sendResponse_announces_iff hsound h htunnel []
    rw [List.append_nil] at hiff
    rw [keepAlive_eq_false]
    exact hiff
  · obtain ⟨parts, hparts, rfl⟩ := sendResponseWithBody_ok h
    obtain ⟨before, c1, hhead, hrest⟩ := sendResponseWithBodyFraming_ok hparts
    have hrole : c1.role = .server := by
      obtain ⟨_, _, _, hserver, _, _, _, _, _, rfl⟩ := sendResponse_ok hhead
      rw [(sentResponse_sameOutside _ _ _ _).frame.role]
      exact hserver
    obtain ⟨⟨more, hmore⟩, hsame⟩ := sendRest_reuseOff hrole hrest
    rw [keepAlive_eq_false, hsame, hmore, List.append_assoc, List.append_assoc]
    exact sendResponse_announces_iff hsound hhead
      (by rw [responseWithLength_status]; exact htunnel) _

/-- A response with no fields, for runs on fixed input. -/
def plainOk : Response := ⟨⟨200, by decide⟩, ascii "OK", .new, .http11⟩

/-- A server that has read one request answers it and says nothing of `close`. -/
theorem plain_response_persists :
    ∃ history c bytes c', Run Reference.httparse anyCall .server .default history c ∧
      sendResponse plainOk c = (.ok bytes, c') ∧ c'.keepAlive = true ∧
      (announcesClose bytes = true ↔ c'.keepAlive = false) := by
  have hrun : Run Reference.httparse anyCall .server .default _ _ :=
    Lib.Run.trace_of_forall _ [.receiveData (plainGetHead .http11), .nextEvent] fun _ _ => trivial
  obtain ⟨bytes, c', hsent⟩ := Lib.Call.exists_ok (sendResponse plainOk) (Lib.trace
    (step Reference.httparse) (new .server .default)
    [.receiveData (plainGetHead .http11), .nextEvent]).2 (by decide +kernel)
  have hiff := (response_announces_persistence hrun).1 _ _ _ hsent (by decide +kernel)
  have hon : (sendResponse plainOk (Lib.trace (step Reference.httparse) (new .server .default)
      [.receiveData (plainGetHead .http11), .nextEvent]).2).2.keepAlive = true := by
    decide +kernel
  rw [hsent] at hon
  refine ⟨_, _, bytes, c', hrun, hsent, hon, hiff.mpr ?_⟩
  · rintro ⟨hclosed, _⟩
    revert hclosed
    decide +kernel

/-- What a response and the connection say after each other: whether the head
announces `close`, and whether the connection is reusable. -/
def announcedAndKept (result : Except LocalProtocolError Bytes × Connection) : Option (Bool × Bool) :=
  match result with
  | (.ok bytes, c) => some (announcesClose bytes, c.keepAlive)
  | (.error _, _) => none

/-- A client that sends a request and closes its side, and a server that reads
both before it answers: the head does not say `close`, and the connection is
not reusable. -/
theorem half_closed_response_does_not_announce_close :
    ¬∀ (hp : Httparse) (limits : Limits) (history : List (Op × Outcome)) (c : Connection),
      Run hp anyCall .server limits history c →
      ∀ response bytes c', sendResponse response c = (.ok bytes, c') →
        c.opensTunnel response.status = false →
        (announcesClose bytes = true ↔ c'.keepAlive = false) := by
  intro h
  have hrun : Run Reference.httparse anyCall .server .default _ _ :=
    Lib.Run.trace_of_forall _ [.receiveData (plainGetHead .http11), .receiveData [], .nextEvent,
      .nextEvent, .nextEvent] fun _ _ => trivial
  have hsaid : announcedAndKept (sendResponse plainOk (Lib.trace (step Reference.httparse)
      (new .server .default) [.receiveData (plainGetHead .http11), .receiveData [], .nextEvent,
        .nextEvent, .nextEvent]).2) = some (false, false) := by
    decide +kernel
  have hclaim := h _ _ _ _ hrun plainOk
  generalize hresult : sendResponse plainOk _ = result at hsaid
  obtain ⟨error | bytes, c'⟩ := result
  · cases hsaid
  · obtain ⟨hsilent, hoff⟩ := Prod.mk.inj (Option.some.inj hsaid)
    have hiff := hclaim bytes c' hresult (by decide +kernel)
    rw [hsilent] at hiff
    exact absurd (hiff.mpr hoff) (by simp)

end Connection

end H11r
