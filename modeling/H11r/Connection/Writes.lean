import H11r.Connection.Answers
import H11r.Connection.InTurn

/-!
# What a connection may write to another

`Writes` puts together what the send methods return, as far as a receiver with
given limits takes it. Once its head is out an endpoint goes on with the body
only (`WritesOn`), and a server that has been asked goes on with an answer that
the client understands (`Writes.goesOn`): the heads it writes mean to the client
what they mean to itself, and say whether the connection persists.
-/

namespace H11r

open Lib (Call)

namespace Connection

variable {hp : Httparse} {c c' : Connection} {limits : Limits} {q : Question} {standing : Standing}
  {bytes : Bytes}
  {ended : Bool}

/-! ## What is written -/

/-- Calls of the send methods, and what they return, within the limits of the
receiver. A server answers when it has been asked. -/
inductive Writes (limits : Limits) : Connection → Bytes → Connection → Prop
  | nothing {c : Connection} : Writes limits c [] c
  | request {c c' : Connection} {request : Request} {bytes : Bytes}
      (hsent : sendRequest request c = (.ok bytes, c'))
      (hfits : bytes.length ≤ limits.maxHeadBytes)
      (hcount : request.headers.iter.length ≤ limits.maxHeaderCount) :
      Writes limits c bytes c'
  | informational {c c' : Connection} {response : Response} {bytes : Bytes}
      (hsent : sendInformationalResponse response c = (.ok bytes, c'))
      (hfits : bytes.length ≤ limits.maxHeadBytes)
      (hcount : response.headers.iter.length ≤ limits.maxHeaderCount) :
      Writes limits c bytes c'
  | response {c c' : Connection} {response : Response} {bytes : Bytes}
      (hsent : sendResponse response c = (.ok bytes, c')) (hasked : c.peerState ≠ .idle)
      (hfits : bytes.length ≤ limits.maxHeadBytes)
      (hcount : ∀ framing headers, Framed c response framing headers →
        (sentFields c c' response headers).iter.length ≤ limits.maxHeaderCount) :
        Writes limits c bytes c'
  | piece {c c' : Connection} {piece bytes : Bytes} (hsent : sendData piece c = (.ok bytes, c'))
      (hfits : c.cycle.writer = some .chunked → PieceFits limits piece) : Writes limits c bytes c'
  | ends {c c' : Connection} {trailers : Headers} {bytes : Bytes}
      (hsent : endOfMessage trailers c = (.ok bytes, c'))
      (hfits : c.cycle.writer = some .chunked → TrailersFit limits trailers) :
      Writes limits c bytes c'
  | append {c c' c'' : Connection} {bytes bytes' : Bytes} (h : Writes limits c bytes c')
      (h' : Writes limits c' bytes' c'') : Writes limits c (bytes ++ bytes') c''

/-- Calls that write a body, or a part of it. -/
inductive WritesOn (limits : Limits) : Connection → Bytes → Connection → Prop
  | nothing {c : Connection} : WritesOn limits c [] c
  | piece {c c' : Connection} {piece bytes : Bytes} (hsent : sendData piece c = (.ok bytes, c'))
      (hfits : c.cycle.writer = some .chunked → PieceFits limits piece) : WritesOn limits c bytes c'
  | ends {c c' : Connection} {trailers : Headers} {bytes : Bytes}
      (hsent : endOfMessage trailers c = (.ok bytes, c'))
      (hfits : c.cycle.writer = some .chunked → TrailersFit limits trailers) :
      WritesOn limits c bytes c'
  | append {c c' c'' : Connection} {bytes bytes' : Bytes} (h : WritesOn limits c bytes c')
      (h' : WritesOn limits c' bytes' c'') : WritesOn limits c (bytes ++ bytes') c''

/-! ## Single calls -/

/-- The head of a request, if it is sent, is within the limits of the server. -/
def requestFits (limits : Limits) (request : Request) (c : Connection) : Prop :=
  ∀ bytes c', sendRequest request c = (.ok bytes, c') →
    bytes.length ≤ limits.maxHeadBytes ∧ request.headers.iter.length ≤ limits.maxHeaderCount

def informationalFits (limits : Limits) (response : Response) (c : Connection) : Prop :=
  ∀ bytes c', sendInformationalResponse response c = (.ok bytes, c') →
    bytes.length ≤ limits.maxHeadBytes ∧ response.headers.iter.length ≤ limits.maxHeaderCount

/-- The server has been asked, and the head of its answer is within the limits of
the client, with the fields that it adds. -/
def responseFits (limits : Limits) (response : Response) (c : Connection) : Prop :=
  c.peerState ≠ .idle ∧ ∀ bytes c', sendResponse response c = (.ok bytes, c') →
    bytes.length ≤ limits.maxHeadBytes ∧ ∀ framing headers, Framed c response framing headers →
      (sentFields c c' response headers).iter.length ≤ limits.maxHeaderCount

/-- A body that is written in one piece. -/
def bodyFits (limits : Limits) (body : Bytes) (c : Connection) : Prop :=
  c.cycle.writer = some .chunked → PieceFits limits body ∧ TrailersFit limits .new

/-- What a call sends is within the limits of the receiver. The calls that frame a
body which the caller sends himself are not among them. -/
def fitsPeer (limits : Limits) (c : Connection) : Op → Prop
  | .sendRequest request => requestFits limits request c
  | .sendInformationalResponse response => informationalFits limits response c
  | .sendResponse response => responseFits limits response c
  | .sendData piece => c.cycle.writer = some .chunked → PieceFits limits piece
  | .endOfMessage trailers => c.cycle.writer = some .chunked → TrailersFit limits trailers
  | .sendRequestWithBody request body =>
    requestFits limits (requestWithLength request body.length) c ∧
      ∀ head c', sendRequest (requestWithLength request body.length) c = (.ok head, c') →
      bodyFits limits body c'
  | .sendResponseWithBody response body =>
    responseFits limits (c.responseWithLength response body.length) c ∧
      ∀ head c', sendResponse (c.responseWithLength response body.length) c = (.ok head, c') →
      bodyFits limits body c'
  | _ => False

/-- What comes behind the head of a complete message. -/
theorem sendRest_writes {before body : Bytes} {parts : Bytes × Bytes}
    (hfits : bodyFits limits body c)
    (h : sendRest before body.length c = (.ok parts, c')) : ∃ bytes,
      parts.1 ++ body ++ parts.2 = before ++ bytes ∧ Writes limits c bytes c' := by
  rcases sendRest_ok h with ⟨_, hlength, rfl, rfl⟩ | ⟨last, _, hlength, hend, rfl⟩ |
    ⟨around, c1, last, _, _, hdata, hend, rfl⟩
  · rw [List.eq_nil_of_length_eq_zero hlength]
    refine ⟨[], ?_, .nothing⟩
    rw [List.append_nil]
  · rw [List.eq_nil_of_length_eq_zero hlength, List.append_nil]
    exact ⟨last, rfl, .ends hend fun hchunked => (hfits hchunked).2⟩
  · have hpiece : sendData body c = (.ok (around.1 ++ body ++ around.2), c1) :=
      Call.bind_of_ok hdata
    obtain ⟨framing, _, _, hwriter, _, _, _⟩ := sendDataFraming_ok hdata
    have hwriter' : c1.cycle.writer = some .chunked → c.cycle.writer = some .chunked := by
      intro hchunked
      rw [(sendData_written hwriter hpiece).1] at hchunked
      rw [hwriter]
      cases framing with
      | chunked => rfl
      | fixed | closeDelimited => cases hchunked
    refine ⟨_, ?_, .append (.piece hpiece fun hchunked => (hfits hchunked).1)
      (.ends hend fun hchunked => (hfits (hwriter' hchunked)).2)⟩
    simp only [List.append_assoc]

/-- A call that fits is one that `Writes` allows. -/
theorem fitsPeer_writes (hp : Httparse) {op : Op} (h : fitsPeer limits c op) :
    op.sends = true ∧ Writes limits c (step hp op c).1.output (step hp op c).2 := by
  have hwrites : ∀ {call : LocalCall Bytes}, Call.Atomic call →
      (∀ bytes c', call c = (.ok bytes, c') → Writes limits c bytes c') →
      Writes limits c (outcome .bytes (call c)).1.output (outcome .bytes (call c)).2 := by
    intro call hatomic hok
    rcases hcall : call c with ⟨error | bytes, c'⟩
    · have hsame : c' = c := hatomic _ _ _ hcall
      rw [hsame]
      exact .nothing
    · exact hok bytes c' hcall
  cases op with
  | sendRequest request =>
    exact ⟨rfl, hwrites (sendRequest_atomic _) fun bytes c' hsent => .request hsent (h _ _ hsent).1
      (h _ _ hsent).2⟩
  | sendInformationalResponse response =>
    exact ⟨rfl, hwrites (sendInformationalResponse_atomic _) fun bytes c' hsent =>
      .informational hsent (h _ _ hsent).1 (h _ _ hsent).2⟩
  | sendResponse response =>
    exact ⟨rfl, hwrites (sendResponse_atomic _) fun bytes c' hsent =>
      .response hsent h.1 (h.2 _ _ hsent).1 (h.2 _ _ hsent).2⟩
  | sendData piece => exact ⟨rfl, hwrites (sendData_atomic _) fun bytes c' hsent => .piece hsent h⟩
  | endOfMessage trailers =>
    exact ⟨rfl, hwrites (endOfMessage_atomic _) fun bytes c' hsent => .ends hsent h⟩
  | sendRequestWithBody request body =>
    refine ⟨rfl, hwrites (sendRequestWithBody_atomic _ _) fun bytes c' hsent => ?_⟩
    obtain ⟨parts, hparts, rfl⟩ := sendRequestWithBody_ok hsent
    obtain ⟨head, c1, hhead, hrest⟩ := sendRequestWithBodyFraming_ok hparts
    obtain ⟨rest, hbytes, hwritten⟩ := sendRest_writes (h.2 _ _ hhead) hrest
    rw [hbytes]
    exact .append (.request hhead (h.1 _ _ hhead).1 (h.1 _ _ hhead).2) hwritten
  | sendResponseWithBody response body =>
    refine ⟨rfl, hwrites (sendResponseWithBody_atomic _ _) fun bytes c' hsent => ?_⟩
    obtain ⟨parts, hparts, rfl⟩ := sendResponseWithBody_ok hsent
    obtain ⟨head, c1, hhead, hrest⟩ := sendResponseWithBodyFraming_ok hparts
    obtain ⟨rest, hbytes, hwritten⟩ := sendRest_writes (h.2 _ _ hhead) hrest
    rw [hbytes]
    exact .append (.response hhead h.1.1 (h.1.2 _ _ hhead).1 (h.1.2 _ _ hhead).2) hwritten
  | _ => exact h.elim

/-- A response head goes out with two more fields than it was given, at most. -/
theorem Framed.sent_length {response : Response} {framing : Framing} {headers : Headers}
    (h : Framed c response framing headers) (c' : Connection) :
    (sentFields c c' response headers).iter.length ≤ response.headers.iter.length + 2 := by
  have hreadable : (c.readableFields response).iter.length ≤ response.headers.iter.length := by
    unfold readableFields
    split
    · rw [Headers.iter_retain]
      exact List.length_filter_le _ _
    · exact Nat.le_refl _
  have hpush : ∀ name value : Bytes, ((c.readableFields response).push name value).iter.length ≤
      response.headers.iter.length + 1 := by
    intro name value
    rw [Headers.iter_push, List.length_append]
    exact Nat.add_le_add_right hreadable 1
  have hframed : headers.iter.length ≤ response.headers.iter.length + 1 := by
    cases h with
    | bodyless | resetDeclared | closeDelimited | declared => exact Nat.le_succ_of_le hreadable
    | resetLength | chunked => exact hpush _ _
  have hset : ∀ option, (setConnectionOption headers option).iter.length ≤
      headers.iter.length + 1 := by
    intro option
    rw [setConnectionOption_iter, List.length_append]
    exact Nat.add_le_add_right (List.length_filter_le _ _) 1
  unfold sentFields announcePersistence
  split
  · omega
  · split
    · exact Nat.le_trans (hset _) (Nat.add_le_add_right hframed 1)
    · split
      · exact Nat.le_trans (hset _) (Nat.add_le_add_right hframed 1)
      · omega

/-- The bytes that a call has returned tell whether the head fits. -/
theorem requestFits_of (hp : Httparse) {request : Request}
    (hbytes : (step hp (.sendRequest request) c).1.output.length ≤ limits.maxHeadBytes)
    (hcount : request.headers.iter.length ≤ limits.maxHeaderCount) :
    requestFits limits request c := by
  intro bytes c' hsent
  change (outcome .bytes (sendRequest request c)).1.output.length ≤ _ at hbytes
  rw [hsent] at hbytes
  exact ⟨hbytes, hcount⟩

theorem responseFits_of (hp : Httparse) {response : Response} (hasked : c.peerState ≠ .idle)
    (hbytes : (step hp (.sendResponse response) c).1.output.length ≤ limits.maxHeadBytes)
    (hcount : response.headers.iter.length + 2 ≤ limits.maxHeaderCount) :
    responseFits limits response c := by
  refine ⟨hasked, fun bytes c' hsent => ?_⟩
  change (outcome .bytes (sendResponse response c)).1.output.length ≤ _ at hbytes
  rw [hsent] at hbytes
  exact ⟨hbytes, fun framing headers hframed => Nat.le_trans (hframed.sent_length c') hcount⟩

/-! ## What the calls change -/

theorem sendData_change {data : Bytes} (h : sendData data c = (.ok bytes, c')) :
    LocalChange c c' := by
  obtain ⟨around, hframing, _⟩ := sendData_ok h
  exact sendDataFraming_change hframing

theorem Writes.changes (h : Writes limits c bytes c') : LocalChanges c c' := by
  induction h with
  | nothing => exact .refl
  | request hsent => exact .single (sendRequest_change hsent)
  | informational hsent => exact .single (sendInformationalResponse_change hsent)
  | response hsent => exact .single (sendResponse_change hsent)
  | piece hsent => exact .single (sendData_change hsent)
  | ends hsent => exact .single (endOfMessage_change hsent)
  | append _ _ ih ih' => exact ih.trans ih'

theorem Writes.role (h : Writes limits c bytes c') : c'.role = c.role :=
  Lib.preserve (P := fun c' => c'.role = c.role)
    (fun _ _ hchange hc => hchange.sameOutside.frame.role.trans hc) h.changes
    rfl

theorem Writes.moves {peer : Role} (h : Writes limits c bytes c') : Moves peer c.state c'.state :=
  Lib.preserve (P := fun c' => Moves peer c.state c'.state)
    (fun _ _ hchange hc => hc.trans hchange.moves) h.changes .refl

/-! ## A body -/

theorem WritesOn.goes (hp : Httparse) (h : WritesOn limits c bytes c') :
    Goes limits c.cycle.writer bytes c'.cycle.writer := by
  induction h with
  | nothing => exact .refl _ _
  | piece hsent hfits => exact .piece hsent hfits
  | ends hsent hfits => exact .ends hp hsent hfits
  | append _ _ ih ih' => exact ih.trans ih'

/-- It changes nothing but the writer and the actor of the endpoint. -/
theorem WritesOn.remembers {continues : Bool} (h : WritesOn limits c bytes c')
    (hc : c.Remembers q continues) :
    c'.Remembers q continues := by
  induction h with
  | nothing => exact hc
  | piece hsent =>
    obtain ⟨_, hframing, _⟩ := sendData_ok hsent
    obtain ⟨_, _, _, _, _, _, rfl⟩ := sendDataFraming_ok hframing
    exact ⟨hc.kind, hc.upgrades, hc.continues⟩
  | ends hsent =>
    obtain ⟨_, _, _, _, _, _, rfl⟩ := endOfMessage_ok hsent
    exact ⟨hc.kind, hc.upgrades, hc.continues⟩
  | append _ _ ih ih' => exact ih' (ih hc)

/-- What the calls of a body do to the actors: nothing, until the end. -/
theorem WritesOn.state {role : Role} (actors : Bool → ConnectionState)
    (hends : (actors false).processEvent role .endOfMessage = some (actors true))
    (h : WritesOn limits c bytes c')
    (hrole : c.role = role) (hc : c.state = actors c.cycle.writer.isNone) :
    c'.role = role ∧ c'.state = actors c'.cycle.writer.isNone := by
  induction h with
  | nothing => exact ⟨hrole, hc⟩
  | piece hsent =>
    obtain ⟨_, hframing, _⟩ := sendData_ok hsent
    obtain ⟨_, _, state, hwriter, _, hstate, rfl⟩ := sendDataFraming_ok hframing
    refine ⟨hrole, ?_⟩
    rw [hwriter] at hc
    exact (ConnectionState.bodyLaws.data _ _ _ hstate).1.trans hc
  | ends hsent =>
    obtain ⟨_, state, _, hwriter, _, hstate, rfl⟩ := endOfMessage_ok hsent
    refine ⟨hrole, ?_⟩
    rw [hwriter] at hc
    change _ = actors false at hc
    rw [hc, hrole, hends] at hstate
    exact (Option.some.inj hstate).symm
  | append _ _ ih ih' =>
    obtain ⟨hrole', hc'⟩ := ih hrole hc
    exact ih' hrole' hc'

/-- A client that has begun its request goes on with it. -/
theorem Writes.client_on (h : Writes limits c bytes c') (hrole : c.role = .client)
    (hbegun : c.state.client ≠ .idle) :
    WritesOn limits c bytes c' := by
  induction h with
  | nothing => exact .nothing
  | request hsent =>
    obtain ⟨_, _, _, _, _, _, hstate, _⟩ := sendRequest_ok hsent
    exact absurd (ConnectionState.reuseLaws.request _ _ _ hstate).client hbegun
  | informational hsent =>
    obtain ⟨_, _, hserver, _⟩ := sendInformationalResponse_ok hsent
    cases hrole.symm.trans hserver
  | response hsent =>
    obtain ⟨_, _, _, hserver, _⟩ := sendResponse_ok hsent
    cases hrole.symm.trans hserver
  | piece hsent hfits => exact .piece hsent hfits
  | ends hsent hfits => exact .ends hsent hfits
  | append h h' ih ih' =>
    have hmoves : Moves .client _ _ := h.moves
    exact .append (ih hrole hbegun) (ih' (h.role.trans hrole) (Moves.begun hmoves hbegun))

/-- A server that has begun its answer goes on with it. -/
theorem Writes.server_on (h : Writes limits c bytes c') (hrole : c.role = .server)
    (hbegun : c.state.server.begins = false) : WritesOn limits c bytes c' := by
  induction h with
  | nothing => exact .nothing
  | request hsent =>
    obtain ⟨_, _, _, hclient, _⟩ := sendRequest_ok hsent
    cases hclient.symm.trans hrole
  | informational hsent =>
    obtain ⟨_, _, _, _, _, _, _, hevent, hstate, _⟩ := sendInformationalResponse_ok hsent
    rcases informationalEvent_cases hevent with rfl | ⟨rfl, _⟩
    · have hyes : State.begins _ = true :=
        ConnectionState.processEvent_begins _ _ _ _ hstate rfl nofun
      cases hyes.symm.trans hbegun
    · have hyes : State.begins _ = true :=
        ConnectionState.processEvent_begins _ _ _ _ hstate rfl nofun
      cases hyes.symm.trans hbegun
  | response hsent =>
    obtain ⟨_, _, _, _, _, _, _, hstate, _⟩ := sendResponse_ok hsent
    unfold finalResponseEvent at hstate
    split at hstate
    · have hyes : State.begins _ = true :=
        ConnectionState.processEvent_begins _ _ _ _ hstate rfl nofun
      cases hyes.symm.trans hbegun
    · have hyes : State.begins _ = true :=
        ConnectionState.processEvent_begins _ _ _ _ hstate rfl nofun
      cases hyes.symm.trans hbegun
  | piece hsent hfits => exact .piece hsent hfits
  | ends hsent hfits => exact .ends hsent hfits
  | append h h' ih ih' =>
    have hmoves : Moves .client _ _ := h.moves
    refine .append (ih hrole hbegun) (ih' (h.role.trans hrole) ?_)
    rw [Bool.eq_false_iff]
    intro hyes
    have hbefore := hmoves.begins .server hyes
    cases hbefore.symm.trans hbegun

/-- A server that has not been asked writes nothing. -/
theorem Writes.unasked (h : Writes limits c bytes c') (hrole : c.role = .server)
    (hstate : c.state = .new)
    (hwriter : c.cycle.writer = none) : bytes = [] ∧ c' = c := by
  induction h with
  | nothing => exact ⟨rfl, rfl⟩
  | request hsent =>
    obtain ⟨_, _, _, hclient, _⟩ := sendRequest_ok hsent
    cases hclient.symm.trans hrole
  | informational hsent =>
    obtain ⟨_, _, _, _, _, _, _, hevent, hsome, _⟩ := sendInformationalResponse_ok hsent
    rw [hstate] at hsome
    rcases informationalEvent_cases hevent with rfl | ⟨rfl, _⟩
    · rw [ConnectionState.new_server .informationalResponse nofun nofun] at hsome
      cases hsome
    · rw [ConnectionState.new_server (.protocolSwitch .upgrade) nofun nofun] at hsome
      cases hsome
  | response _ hasked =>
    refine absurd ?_ hasked
    unfold peerState
    rw [hrole, hstate]
    rfl
  | piece hsent =>
    obtain ⟨_, hframing, _⟩ := sendData_ok hsent
    obtain ⟨_, _, _, hsome, _⟩ := sendDataFraming_ok hframing
    cases hwriter.symm.trans hsome
  | ends hsent =>
    obtain ⟨_, _, _, hsome, _⟩ := endOfMessage_ok hsent
    cases hwriter.symm.trans hsome
  | append _ _ ih ih' =>
    obtain ⟨rfl, rfl⟩ := ih hrole hstate hwriter
    obtain ⟨rfl, rfl⟩ := ih' hrole hstate hwriter
    exact ⟨rfl, rfl⟩

end Connection

end H11r
