import H11r.Connection.Writes

/-!
# The answer that a server writes

A server that has been asked writes what a client understands: an informational
head is one that the client takes for what the server does, a final head has the
framing that is written, and it says to the client what the server has decided
about the connection (`sentFields_persistent`). So whatever a server goes on
with, the bytes are those of an answer (`Writes.goesOn`).
-/

namespace H11r

open Lib (Call)

namespace Connection

variable {hp : Httparse} {c c' : Connection} {limits : Limits} {q : Question} {standing : Standing}
  {bytes : Bytes}
  {ended : Bool} {response : Response} {framing : Framing} {headers fields : Headers}

/-! ## What a head says about the connection -/

/-- The head of a final response tells the client whether the server keeps the
connection. -/
theorem sentFields_persistent (h : sendResponse response c = (.ok bytes, c'))
    (htunnel : c.opensTunnel response.status = false)
    (hframed : Framed c response framing headers) :
    (Fields.scan (sentFields c c' response headers)).persistent response.httpVersion =
      c'.state.keepAlive := by
  obtain ⟨framing', _, state, hrole, _, _, _, _, _, rfl⟩ := sendResponse_ok h
  have hhttp : (sentResponse response framing' state c).isHttp11 response.httpVersion =
      c.isHttp11 response.httpVersion := by
    unfold sentResponse recordReasonsToClose
    rw [disableKeepAliveIf_eq]
    rfl
  have hclose : (Fields.scan headers).close = (Fields.scan response.headers).close := by
    rw [Fields.scan_close, hframed.connection, ← Fields.scan_close]
  unfold sentFields announcePersistence Fields.persistent
  rw [htunnel, if_neg (by decide), hhttp]
  cases hflag : (sentResponse response framing' state c).state.keepAlive with
  | false =>
    rw [if_pos (by decide), Fields.scan_close_eq_hasToken,
      setConnectionOption_close _ (by decide) (by decide)]
    rfl
  | true =>
    rw [if_neg (by decide)]
    cases hversion : c.isHttp11 response.httpVersion with
    | false =>
      rw [if_pos (by decide), Fields.scan_close_eq_hasToken,
        setConnectionOption_close _ (by decide) (by decide),
        Fields.scan_keepAlive_eq_hasToken,
        setConnectionOption_replaces _ (by decide) (by decide) (by decide)]
      rw [show eqIgnoreAsciiCase (ascii "keep-alive") (ascii "close") = false by decide,
        show eqIgnoreAsciiCase (ascii "keep-alive") (ascii "keep-alive") = true by decide,
        Bool.or_true]
      rfl
    | true =>
      -- An option `close` would have turned the flag off.
      have hopen : (Fields.scan response.headers).close = false := by
        cases hfield : (Fields.scan response.headers).close with
        | false => rfl
        | true =>
          rw [sentResponse_state _ _ _ hrole] at hflag
          unfold closesFor at hflag
          rw [hfield, Bool.or_true] at hflag
          cases (ConnectionState.respondLaws.disable state).symm.trans hflag
      unfold isHttp11 at hversion
      rw [if_neg (by decide), hclose, hopen, (Bool.and_eq_true_iff.mp hversion).2]
      rfl

/-- The framing fields of a head without content can be read. -/
theorem Framed.unfaulty (hframed : Framed c response framing headers)
    (hcoding : CodingChecked c response)
    (hbody : c.responseHasNoBody response.status = true) (c' : Connection) :
    isFaulty ((Fields.scan (sentFields c c' response headers)).framing response.httpVersion true) =
      false := by
  have hsame : ∀ name, eqIgnoreAsciiCase (ascii "connection") name = false →
      (sentFields c c' response headers).getAll name = headers.getAll name :=
    fun name hname => sentFields_getAll c c' response headers hname
  have hread : (Fields.scan (sentFields c c' response headers)).framing response.httpVersion true =
      (Fields.scan headers).framing response.httpVersion true := by
    unfold Fields.framing
    rw [Fields.scan_codings, Fields.scan_codings, Fields.scan_length, Fields.scan_length,
      hsame _ (by decide),
      hsame _ (by decide)]
  rw [hread]
  cases hframed with
  | bodyless _ hchecked =>
    cases hdeclared : c.declaresFraming response with
    | true =>
      obtain ⟨framing, hframing⟩ := hchecked hdeclared
      rw [(readableFields_declared hdeclared).1, hframing]
      rfl
    | false =>
      obtain ⟨hcodings, hlength⟩ := readableFields_undeclared hcoding hdeclared
      unfold Fields.framing
      rw [hcodings, hlength]
      rfl
  | resetLength hnone | resetDeclared hnone | chunked hnone
  | closeDelimited hnone | declared hnone =>
    cases hbody.symm.trans hnone

/-- What is read off a head depends on its fields only. -/
theorem scan_of_iter (h : fields.iter = headers.iter) :
    Fields.scan fields = Fields.scan headers := by
  unfold Fields.scan
  rw [h]

theorem informationalEvent_of_iter (h : fields.iter = headers.iter) (status : StatusCode)
    (version : Version) :
    c.informationalEvent status version fields = c.informationalEvent status version headers := by
  have hsame : ∀ name, fields.getAll name = headers.getAll name := by
    intro name
    rw [getAll_eq, getAll_eq, h]
  unfold informationalEvent validUpgradeResponse hasToken
  rw [hsame, upgradeProtocols_congr hsame]

/-- Whoever remembers the question takes an informational response for the same. -/
theorem Remembers.informationalEvent {client : Connection} {continues : Bool}
    (h : c.Remembers q continues)
    (h' : client.Remembers q continues) (status : StatusCode) (version : Version)
    (headers : Headers) :
    client.informationalEvent status version headers =
      c.informationalEvent status version headers := by
  unfold Connection.informationalEvent validUpgradeResponse
  rw [h.upgrades, h.continues, h'.upgrades, h'.continues]

/-! ## Where the server is -/

/-- How far a server is with its answer; `ended` tells whether it has got all of
the request. -/
inductive Stands (q : Question) (ended : Bool) (c : Connection) : Standing → Prop
  | pending {continues : Bool} (hstate : c.state = .during q.keep q.proposals ended .pending)
      (hwriter : c.cycle.writer = none) (hnoted : c.Remembers q continues) :
      Stands q ended c (.pending continues)
  | final {keep : Bool} {writer : Option Framing}
      (hstate : c.state = .during keep q.proposals ended (if writer.isNone then .ended else .begun))
      (hwriter : c.cycle.writer = writer) : Stands q ended c (.final keep writer)
  | switched (hstate : ∃ keep, c.state = .during keep q.proposals ended .switched)
      (hproposed : q.proposals ≠ .none)
      (hwriter : c.cycle.writer = none) : Stands q ended c .switched

/-- A server that does not wait for an answer any more sends no head. -/
theorem Stands.headless (h : Stands q ended c standing)
    (hanswered : ¬∃ continues, standing = .pending continues) :
    c.state.processEvent .server .informationalResponse = none ∧
    c.state.processEvent .server .response = none ∧
      c.state.processEvent .server (.protocolSwitch .connect) = none ∧
      c.state.processEvent .server (.protocolSwitch .upgrade) = none := by
  cases h with
  | pending => exact absurd ⟨_, rfl⟩ hanswered
  | @final keep writer hstate =>
    rw [hstate]
    refine (ConnectionState.during_headless keep q.proposals ended _).2 ?_
    cases writer <;> nofun
  | switched hstate =>
    obtain ⟨keep, hstate⟩ := hstate
    rw [hstate]
    exact (ConnectionState.during_headless keep q.proposals ended _).2 nofun

theorem Stands.goes (hp : Httparse) (h : Stands q ended c standing)
    (hwrites : WritesOn limits c bytes c')
    (hsome : c.cycle.writer ≠ none) (hrole : c.role = .server) : ∃ standing',
      Stands q ended c' standing' ∧ GoesOn hp limits q standing bytes standing' := by
  cases h with
  | pending _ hwriter => exact absurd hwriter hsome
  | switched _ _ hwriter => exact absurd hwriter hsome
  | @final keep writer hstate hwriter =>
    subst hwriter
    have hends := ConnectionState.duringLaws.ended keep q.proposals ended
    obtain ⟨_, hstate'⟩ := hwrites.state
      (fun isOver => .during keep q.proposals ended (if isOver then .ended else .begun)) hends
        hrole hstate
    exact ⟨.final keep c'.cycle.writer, .final hstate' rfl, .goes (hwrites.goes hp)⟩

/-! ## What it writes -/

section Writes

variable {continues : Bool}

/-- The bytes of a response head, as a client with these limits reads them. -/
theorem readsHead_of (hhp : hp.Stable) (hread : hp.ReadsValid) {version : Version}
    {status : StatusCode} {reason : Bytes}
    (hreason : reason.all isLineValueByte = true)
    (hvalid : ∀ field ∈ headers.iter, validField field)
    (hcount : headers.iter.length ≤ limits.maxHeaderCount)
    (hfits : (serializeResponse version status reason headers).length ≤ limits.maxHeadBytes) :
    ∃ fields : Headers,
      fields.iter = headers.iter ∧
      ReadsHead hp limits (serializeResponse version status reason headers)
        { status := status, reason := reason, headers := fields, httpVersion := version } := by
  obtain ⟨fields, hfields, hreads⟩ :=
    responseHead_readsAs hhp hread version status hreason hvalid hcount
  exact ⟨fields, hfields, hreads, hfits⟩

/-- A head without framing fields can be read. -/
theorem unfaulty_of_unframed (version : Version) (h : hasFramingFields headers = false) :
    isFaulty ((Fields.scan headers).framing version true) = false := by
  unfold hasFramingFields at h
  rw [Bool.or_eq_false_iff] at h
  have hcodings : (Fields.scan headers).codings = none := by
    rw [← Option.isNone_iff_eq_none, ← Option.isSome_eq_false_iff, Fields.scan_codings_isSome]
    exact h.1
  have hlength : (Fields.scan headers).length = none := by
    rw [← Option.isNone_iff_eq_none, ← Option.isSome_eq_false_iff, Fields.scan_length_isSome]
    exact h.2
  unfold Fields.framing
  rw [hcodings, hlength]
  rfl

/-- An informational response leaves the server with the final one to give. -/
theorem Remembers.informational {status : StatusCode} (h : c.Remembers q continues)
    (state : ConnectionState) :
    (recordInformational status { c with state := state }).Remembers q
      (continues && status.asU16 != 100) := by
  unfold recordInformational
  by_cases hcontinue : status.asU16 = 100
  · rw [if_pos hcontinue, hcontinue]
    refine ⟨h.kind, h.upgrades, ?_⟩
    exact (Bool.and_false _).symm
  · rw [if_neg hcontinue, bne_iff_ne.mpr hcontinue, Bool.and_true]
    exact ⟨h.kind, h.upgrades, h.continues⟩

theorem informational_goesOn (hhp : hp.Stable) (hread : hp.ReadsValid)
    (hsent : sendInformationalResponse response c = (.ok bytes, c'))
    (hfits : bytes.length ≤ limits.maxHeadBytes)
    (hcount : response.headers.iter.length ≤ limits.maxHeaderCount)
    (hc : Stands q ended c standing) : ∃ standing',
      Stands q ended c' standing' ∧ GoesOn hp limits q standing bytes standing' := by
  obtain ⟨event, state, _, hstatus, _, hchecked, hframing, hevent, hstate, rfl, rfl⟩ :=
    sendInformationalResponse_ok hsent
  have hcases := informationalEvent_cases hevent
  by_cases hpending : ∃ continues, standing = .pending continues
  · obtain ⟨continues, rfl⟩ := hpending
    cases hc with
    | pending hpending hwriter hnoted =>
      obtain ⟨fields, hfields, hhead⟩ := readsHead_of hhp hread (validateReason_ok hchecked.reason)
        (validateHeaders_iff.mp hchecked.headers) hcount hfits
      obtain ⟨hwriter', _⟩ := recordInformational_cycle response.status { c with state := state }
      have hsays : ∀ client : Connection, client.Remembers q continues →
          client.informationalEvent response.status response.httpVersion fields = some event := by
        intro client hclient
        rw [informationalEvent_of_iter hfields, hnoted.informationalEvent hclient]
        exact hevent
      rw [hpending] at hstate
      rcases hcases with rfl | ⟨rfl, _, hselects⟩
      · rw [ConnectionState.duringLaws.informational] at hstate
        have hsound : isFaulty ((Fields.scan fields).framing response.httpVersion true) =
            false := by
          rw [scan_of_iter hfields]
          exact unfaulty_of_unframed _ hframing
        have hnext : Answers hp limits q (continues && response.status.asU16 != 100) []
            (.pending (continues && response.status.asU16 != 100)) := .nothing
        have hanswers := Answers.informational hhead hstatus hsays hsound hnext
        rw [List.append_nil] at hanswers
        refine ⟨_, .pending ?_ (hwriter'.trans hwriter) (hnoted.informational state),
          .answers hanswers⟩
        rw [recordInformational_state]
        exact (Option.some.inj hstate).symm
      · have hoffered : q.proposals.upgrade = true := by
          have hne := validUpgradeResponse_offered hselects
          rw [hnoted.upgrades] at hne
          show (!q.upgrades.isEmpty) = true
          rw [List.isEmpty_eq_false_iff.mpr hne]
          rfl
        rw [ConnectionState.duringLaws.upgrades, if_pos hoffered] at hstate
        refine ⟨_, .switched ⟨q.keep, ?_⟩ (fun hnone => ?_) (hwriter'.trans hwriter),
          .answers (.upgraded hhead hstatus hsays hoffered)⟩
        · rw [recordInformational_state]
          exact (Option.some.inj hstate).symm
        · rw [hnone] at hoffered
          cases hoffered
  · obtain ⟨hinformational, _, _, hupgrade⟩ := hc.headless hpending
    rcases hcases with rfl | ⟨rfl, _⟩
    · cases hinformational.symm.trans hstate
    · cases hupgrade.symm.trans hstate

/-- The head of a final response means to the client what it means to the server. -/
theorem Framed.meansTo {state : ConnectionState} (hframed : Framed c response framing headers)
    (hcoding : CodingChecked c response) (hsent : sendResponse response c = (.ok bytes, c'))
    (htunnel : c.opensTunnel response.status = false) (hkind : c.cycle.requestKind = some q.kind)
    (hkeep : c'.state.keepAlive =
      ((q.keep && !q.proposals.connect) && !(c.closesFor response framing state)))
    (hfields : fields.iter = (sentFields c c' response headers).iter) :
    Means q framing c'.state.keepAlive { response with headers := fields } := by
  obtain ⟨_, _, _, _, hfinal, hchecked, _⟩ := sendResponse_ok hsent
  have hmeans : ∀ client : Connection,
    client.cycle.requestKind = some q.kind → client.opensTunnel response.status = false ∧
      client.receivedFraming { response with headers := sentFields c c' response headers } =
          .ok framing :=
    fun client hclient => hframed.means hcoding hchecked htunnel c' (hclient.trans hkind.symm)
  refine ⟨hfinal, fun client hclient => (hmeans client hclient).1, fun client hclient => ?_,
    fun client hclient => ?_⟩
  · have hreceived := (hmeans client hclient).2
    unfold receivedFraming at hreceived ⊢
    rw [scan_of_iter hfields]
    exact hreceived
  · have hbody : client.responseHasNoBody response.status =
        c.responseHasNoBody response.status := by
      unfold responseHasNoBody opensTunnel requestIs
      rw [hclient, hkind]
    have hsound : (c.responseHasNoBody response.status &&
        isFaulty ((Fields.scan (sentFields c c' response headers)).framing response.httpVersion
            true)) = false := by
      cases hnone : c.responseHasNoBody response.status with
      | false => rfl
      | true => exact hframed.unfaulty hcoding hnone c'
    unfold keepsAfter
    rw [scan_of_iter hfields]
    dsimp only
    rw [hbody, hsound, sentFields_persistent hsent htunnel hframed, hkeep]
    unfold closesFor
    -- What closes the connection behind the body closes it for the server too.
    cases framing == .closeDelimited <;> cases (q.keep && !q.proposals.connect) <;> simp

theorem response_goesOn (hhp : hp.Stable) (hread : hp.ReadsValid)
    (hsent : sendResponse response c = (.ok bytes, c'))
    (hfits : bytes.length ≤ limits.maxHeadBytes)
    (hcount : ∀ framing headers, Framed c response framing headers →
      (sentFields c c' response headers).iter.length ≤ limits.maxHeaderCount)
    (hc : Stands q ended c standing) : ∃ standing',
      Stands q ended c' standing' ∧ GoesOn hp limits q standing bytes standing' := by
  obtain ⟨framing, headers, state, hrole, hfinal, hchecked, hplan, hstate, hbytes, hc'⟩ :=
    sendResponse_ok hsent
  obtain ⟨hcoding, hframed⟩ := responseFraming_framed hplan
  have hwritten : bytes = serializeResponse response.httpVersion response.status response.reason
      (sentFields c c' response headers) := hbytes
  have hstate' : c'.state = state.disableKeepAliveIf (c.closesFor response framing state) := by
    rw [hc']
    exact sentResponse_state _ _ _ hrole
  have hwriter' :
      c'.cycle.writer = if c.opensTunnel response.status then none else some framing := by
    rw [hc', sentResponse_cycle]
  unfold finalResponseEvent at hstate
  by_cases hpending : ∃ continues, standing = .pending continues
  · obtain ⟨continues, rfl⟩ := hpending
    cases hc with
    | pending hpending hwriter hnoted =>
      have hreads := hwritten ▸ hfits
      obtain ⟨fields, hfields, hhead⟩ := readsHead_of hhp hread (validateReason_ok hchecked.reason)
        (hframed.sent_valid hchecked.toHeadChecked c') (hcount framing headers hframed) hreads
      rw [← hwritten] at hhead
      rw [hpending] at hstate
      cases htunnel : c.opensTunnel response.status with
      | true =>
        rw [htunnel, if_pos rfl, ConnectionState.duringLaws.connects] at hstate
        have hasked : q.proposals.connect = true := by
          by_contra hnot
          rw [if_neg hnot] at hstate
          cases hstate
        rw [if_pos hasked] at hstate
        have hopens : ∀ client : Connection, client.cycle.requestKind = some q.kind →
            client.opensTunnel response.status = true := by
          intro client hclient
          unfold opensTunnel requestIs at htunnel ⊢
          rw [hclient, ← hnoted.kind]
          exact htunnel
        refine ⟨_, .switched ?_ (fun hnone => ?_) ?_, .answers (.tunnel hhead hfinal hopens hasked)⟩
        · rw [hstate', ← Option.some.inj hstate, ConnectionState.duringLaws.disable]
          exact ⟨_, rfl⟩
        · rw [hnone] at hasked
          cases hasked
        · rw [hwriter', htunnel, if_pos rfl]
      | false =>
        rw [htunnel, if_neg (by decide), ConnectionState.duringLaws.response] at hstate
        rw [← Option.some.inj hstate, ConnectionState.duringLaws.disable] at hstate'
        have hkeep : c'.state.keepAlive =
            ((q.keep && !q.proposals.connect) && !(c.closesFor response framing
              (.during (q.keep && !q.proposals.connect) q.proposals ended .begun))) := by
          rw [hstate']
          exact ConnectionState.duringViews.keepAlive _ _ _ _
        have hmeans := hframed.meansTo hcoding hsent htunnel hnoted.kind hkeep hfields
        have hanswers :
            Answers hp limits q continues (bytes ++ [])
                (.final c'.state.keepAlive (some framing)) :=
          .final hhead hmeans (bodyComes hhp hread limits .client framing)
        rw [List.append_nil] at hanswers
        refine ⟨_, .final ?_ ?_, .answers hanswers⟩
        · rw [hkeep]
          exact hstate'
        · rw [hwriter', htunnel, if_neg (by decide)]
  · obtain ⟨_, hresponse, hconnect, _⟩ := hc.headless hpending
    split at hstate
    · cases hconnect.symm.trans hstate
    · cases hresponse.symm.trans hstate

/-- Whatever a server that has been asked writes, it goes on with its answer. -/
theorem Writes.goesOn (hhp : hp.Stable) (hread : hp.ReadsValid) (h : Writes limits c bytes c')
    (hrole : c.role = .server)
    (hc : Stands q ended c standing) : ∃ standing',
      Stands q ended c' standing' ∧ GoesOn hp limits q standing bytes standing' := by
  induction h generalizing standing with
  | nothing => exact ⟨standing, hc, .refl hp limits q standing⟩
  | request hsent =>
    obtain ⟨_, _, _, hclient, _⟩ := sendRequest_ok hsent
    cases hclient.symm.trans hrole
  | informational hsent hfits hcount => exact informational_goesOn hhp hread hsent hfits hcount hc
  | response hsent _ hfits hcount => exact response_goesOn hhp hread hsent hfits hcount hc
  | piece hsent hfits =>
    obtain ⟨_, hframing, _⟩ := sendData_ok hsent
    obtain ⟨_, _, _, hsome, _⟩ := sendDataFraming_ok hframing
    exact hc.goes hp (.piece hsent hfits) (by rw [hsome]; nofun) hrole
  | ends hsent hfits =>
    obtain ⟨_, _, _, hsome, _⟩ := endOfMessage_ok hsent
    exact hc.goes hp (.ends hsent hfits) (by rw [hsome]; nofun) hrole
  | append h _ ih ih' =>
    obtain ⟨standing1, hc1, hgoes1⟩ := ih hrole hc
    obtain ⟨standing2, hc2, hgoes2⟩ := ih' (h.role.trans hrole) hc1
    exact ⟨standing2, hc2, hgoes1.trans hgoes2⟩

end Writes

end Connection

end H11r
