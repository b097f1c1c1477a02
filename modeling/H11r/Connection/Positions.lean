import H11r.Connection.Terminal
import H11r.Wire.EmptyLine

/-!
# The notes about the buffer fit the buffer

A connection remembers how far it has scanned its buffer: the notes of the line
scan while it reads a head or trailers, the scanned part of an unfinished
chunk-size line. They are indices, good only as long as nothing in front of
them is consumed. `NotesFit` says what they are the notes of, and every call
preserves it but one: an idle peer that closes takes the buffer with it and
leaves the notes. Nothing is read from that peer any more.
-/

namespace H11r.Connection

/-- What the notes say about the buffer: the line scan of a section has looked
at a part of it, and outside of sections it has not begun. -/
def NotesFit (input : Bytes) (progress : SectionProgress) : Reader → Prop
  | .head => ∃ seen found, seen <+: input ∧ SectionProgress.Watched true seen progress found
  | .chunked .trailers => ∃ seen found, seen <+: input ∧ SectionProgress.Watched false seen progress found
  | .chunked (.size scanned) => progress = .new ∧ scanned ≤ input.length
  | _ => progress = .new

/-- The notes of the connection fit its buffer. -/
def Fits (c : Connection) : Prop := NotesFit c.input.asSlice c.cycle.progress c.cycle.reader

/-- Every index in the notes lies in the buffer. -/
structure InBuffer (c : Connection) : Prop where
  lineStart : c.cycle.progress.lineStart ≤ c.cycle.progress.position
  position : c.cycle.progress.position ≤ c.input.asSlice.length
  scanned : ∀ scanned, c.cycle.reader = .chunked (.size scanned) → scanned ≤ c.input.asSlice.length

section Notes

variable {input : Bytes} {progress : SectionProgress} {reader : Reader}

theorem notesFit_new (h : ∀ scanned, reader = .chunked (.size scanned) → scanned ≤ input.length) :
    NotesFit input .new reader := by
  have hfresh : ∀ skip, ∃ seen found, seen <+: input ∧ SectionProgress.Watched skip seen .new found :=
    fun skip => ⟨[], false, List.nil_prefix, .fresh⟩
  cases reader with
  | head => exact hfresh true
  | fixed | closeDelimited => rfl
  | chunked chunk =>
    cases chunk with
    | size scanned => exact ⟨rfl, h scanned rfl⟩
    | data | dataEnd => rfl
    | trailers => exact hfresh false

theorem NotesFit.longer {longer : Bytes} (h : NotesFit input progress reader) (hle : input <+: longer) :
    NotesFit longer progress reader := by
  cases reader with
  | head =>
    obtain ⟨seen, found, hseen, hwatched⟩ := h
    exact ⟨seen, found, hseen.trans hle, hwatched⟩
  | fixed | closeDelimited => exact h
  | chunked chunk =>
    cases chunk with
    | size scanned => exact ⟨h.1, Nat.le_trans h.2 hle.length_le⟩
    | data | dataEnd => exact h
    | trailers =>
      obtain ⟨seen, found, hseen, hwatched⟩ := h
      exact ⟨seen, found, hseen.trans hle, hwatched⟩

end Notes

variable {hp : Httparse} {c c' : Connection}

theorem Fits.inBuffer (h : c.Fits) : c.InBuffer := by
  have hwatched : ∀ {skip seen found}, seen <+: c.input.asSlice → SectionProgress.Watched skip seen c.cycle.progress found →
      c.cycle.progress.lineStart ≤ c.cycle.progress.position ∧
        c.cycle.progress.position ≤ c.input.asSlice.length := by
    intro skip seen found hseen hwatched
    exact ⟨hwatched.inside.1, Nat.le_trans hwatched.inside.2 hseen.length_le⟩
  have hnew : c.cycle.progress = .new → c.cycle.progress.lineStart ≤ c.cycle.progress.position ∧
      c.cycle.progress.position ≤ c.input.asSlice.length := by
    intro hprogress
    rw [hprogress]
    exact ⟨Nat.le_refl _, Nat.zero_le _⟩
  unfold Fits at h
  cases hreader : c.cycle.reader with
  | head =>
    rw [hreader] at h
    obtain ⟨seen, found, hseen, hlooked⟩ := h
    exact ⟨(hwatched hseen hlooked).1, (hwatched hseen hlooked).2, fun _ hsize => by cases hreader ▸ hsize⟩
  | fixed | closeDelimited =>
    rw [hreader] at h
    exact ⟨(hnew h).1, (hnew h).2, fun _ hsize => by cases hreader ▸ hsize⟩
  | chunked chunk =>
    rw [hreader] at h
    cases chunk with
    | size scanned =>
      refine ⟨(hnew h.1).1, (hnew h.1).2, fun _ hsize => ?_⟩
      cases hreader ▸ hsize
      exact h.2
    | data | dataEnd => exact ⟨(hnew h).1, (hnew h).2, fun _ hsize => by cases hreader ▸ hsize⟩
    | trailers =>
      obtain ⟨seen, found, hseen, hlooked⟩ := h
      exact ⟨(hwatched hseen hlooked).1, (hwatched hseen hlooked).2, fun _ hsize => by cases hreader ▸ hsize⟩

/-- Where nothing has been scanned since the bytes in front left the buffer. -/
theorem fits_new (hprogress : c.cycle.progress = .new)
    (hreader : ∀ scanned, c.cycle.reader = .chunked (.size scanned) → scanned ≤ c.input.asSlice.length) :
    c.Fits := by
  unfold Fits
  rw [hprogress]
  exact notesFit_new hreader

theorem Fits.same (h : c.Fits) (hinput : c'.input = c.input) (hprogress : c'.cycle.progress = c.cycle.progress)
    (hreader : c'.cycle.reader = c.cycle.reader) : c'.Fits := by
  unfold Fits
  rw [hinput, hprogress, hreader]
  exact h

/-! ## Calls other than polls -/

theorem advancePayload_fits (count : Nat) (h : c.Fits) : (c.advancePayload count).2.Fits := by
  unfold Fits at h ⊢
  unfold advancePayload
  split
  next hreader =>
    rw [hreader] at h
    exact h
  next hreader =>
    rw [hreader] at h
    show NotesFit _ _ (.chunked (if _ then _ else _))
    split <;> exact h
  · exact h

theorem Change.fits (h : Change c c') (hc : c.Fits) : c'.Fits := by
  cases h with
  | lenient | hold => exact hc
  | @received data =>
    unfold Fits
    rw [Buffer.asSlice_extend]
    exact NotesFit.longer hc (List.prefix_append _ _)
  | eof =>
    unfold recordEof
    exact hc.same (disableKeepAliveIf_input _ _) (by rw [disableKeepAliveIf_cycle])
      (by rw [disableKeepAliveIf_cycle])
  | inPlace => exact (advancePayload_fits _ hc).same rfl rfl rfl
  | inPlaceRefused => exact advancePayload_fits _ hc
  | «local» h => exact hc.same h.sameOutside.input h.decoder.2.1 h.decoder.1

theorem CycleChange.fits (h : CycleChange c c') (hc : c.Fits) : c'.Fits := by
  cases h with
  | started => exact fits_new rfl fun _ hsize => by cases hsize
  | refused => exact hc

/-! ## Polls -/

theorem Rescans.fits {progress : SectionProgress} {reader : Reader} (h : c.Rescans progress reader)
    (hreader : SameReader c.cycle.reader reader) (extensionBytes : Nat) (hc : c.Fits) :
    (c.rescan progress reader extensionBytes).Fits := by
  obtain ⟨hprogress, hsize⟩ := h
  show NotesFit c.input.asSlice progress reader
  have hlook : ∀ {skip : Bool}, (∃ seen found, seen <+: c.input.asSlice ∧ SectionProgress.Watched skip seen c.cycle.progress found) →
      ∃ seen found, seen <+: c.input.asSlice ∧
        SectionProgress.Watched skip seen (c.cycle.progress.due c.input.asSlice skip).2 found := by
    rintro skip ⟨seen, found, ⟨more, hmore⟩, hwatched⟩
    rw [← hmore]
    exact ⟨seen ++ more, _, List.prefix_refl _, hwatched.looked more⟩
  unfold Fits at hc
  rcases hprogress with rfl | ⟨hhead, rfl⟩ | ⟨htrailers, rfl⟩
  · rcases hsize with rfl | rfl
    · exact hc
    · rcases hreader with hsame | ⟨scanned, scanned', hold, _⟩
      · rw [hsame]
        exact hc
      · rw [hold] at hc
        exact ⟨hc.1, Nat.sub_le _ _⟩
  · rw [hhead] at hc
    have hsame : reader = .head := by
      rcases hreader with hsame | ⟨_, _, hold, _⟩
      · rw [hsame, hhead]
      · rw [hhead] at hold
        cases hold
    rw [hsame]
    exact hlook hc
  · rw [htrailers] at hc
    have hsame : reader = .chunked .trailers := by
      rcases hreader with hsame | ⟨_, _, hold, _⟩
      · rw [hsame, htrailers]
      · rw [htrailers] at hold
        cases hold
    rw [hsame]
    exact hlook hc

/-- The readers of an accepted head start their own notes. -/
theorem reader_size (framing : Framing) {scanned : Nat} (h : reader framing = .chunked (.size scanned)) :
    scanned = 0 := by
  cases framing <;> cases h
  rfl

/-- A section that has been consumed leaves no notes. -/
theorem consumeSection_fits (dropped : Bool) (stop : Nat) (hreader : c.cycle.reader = .head) :
    ((c.disableKeepAliveIf dropped).consumeSection stop).Fits := by
  refine fits_new rfl fun _ hsize => ?_
  have hcycle : ((c.disableKeepAliveIf dropped).consumeSection stop).cycle.reader = c.cycle.reader := by
    cases dropped <;> rfl
  rw [hcycle, hreader] at hsize
  cases hsize

/-- A turn keeps the notes right or ends with a closed peer. -/
theorem Turn.fits {r : Except RemoteProtocolError (Option Polled)} (h : Turn hp c r c') (hc : c.Fits) :
    c'.Fits ∨ (c'.peerState = .closed ∧ r = .ok (some (.event .connectionClosed))) := by
  have hclosed : ∀ {state : ConnectionState},
      c.state.processEvent c.role.peer .connectionClosed = some state → state.state c.role.peer = .closed := by
    intro state hstate
    have hlaw := processEvent_connectionClosed c.role.peer c.state
    rw [hstate] at hlaw
    split at hlaw
    · exact Option.some.inj hlaw
    · cases hlaw
  have hframing : ∀ {framing : Framing} {input : Bytes} {scanned : Nat},
      reader framing = .chunked (.size scanned) → scanned ≤ input.length := by
    intro framing input scanned hsize
    rw [reader_size framing hsize]
    exact Nat.zero_le _
  cases h with
  | closed | paused | doneWaits | poisoned => exact Or.inl hc
  | idleClosed _ _ _ _ hstate => exact Or.inr ⟨hclosed hstate, rfl⟩
  | doneClosed _ _ _ hstate => exact Or.inr ⟨hclosed hstate, rfl⟩
  | waits _ _ hreader _ hscan => exact Or.inl (hscan.fits hreader _ hc)
  | fails _ hreader hscan => exact Or.inl (hscan.fits hreader _ hc)
  | request =>
    refine Or.inl (fits_new ?_ ?_)
    · rw [acceptedRequest_cycle]
      rfl
    · intro scanned hsize
      rw [acceptedRequest_cycle] at hsize
      exact hframing hsize
  | requestRejected _ hreader => exact Or.inl (consumeSection_fits false _ hreader)
  | @informational stop response dropped event state _ hreader =>
    refine Or.inl ((consumeSection_fits dropped stop hreader).same (acceptedInformational_input _ _ _) ?_ ?_)
    · unfold acceptedInformational recordInformational
      rw [disableKeepAliveIf_eq]
      split <;> rfl
    · unfold acceptedInformational recordInformational
      rw [disableKeepAliveIf_eq]
      split <;> rfl
  | final =>
    refine Or.inl (fits_new ?_ ?_)
    · rw [acceptedFinal_cycle]
      rfl
    · intro scanned hsize
      rw [acceptedFinal_cycle] at hsize
      exact hframing hsize
  | @finalFaulty _ stop response dropped state _ hreader =>
    refine Or.inl ((consumeSection_fits dropped stop hreader).same (countedFinal_input _ _ _) ?_ ?_)
    · unfold countedFinal
      rw [disableKeepAliveIf_eq]
      rfl
    · unfold countedFinal
      rw [disableKeepAliveIf_eq]
      rfl
  | responseRejected _ hreader => exact Or.inl (consumeSection_fits _ _ hreader)
  | payload => exact Or.inl ((advancePayload_fits _ hc).same rfl rfl rfl)
  | payloadRejected => exact Or.inl (advancePayload_fits _ hc)
  | ends _ hreader =>
    refine Or.inl (fits_new ?_ fun _ hsize => by cases hsize)
    show c.cycle.progress = .new
    unfold Fits at hc
    rcases hreader with hreader | ⟨hreader, _⟩ <;> rw [hreader] at hc <;> exact hc
  | trailers => exact Or.inl (fits_new rfl fun _ hsize => by cases hsize)
  | trailersRejected _ hreader =>
    refine Or.inl (fits_new rfl fun _ hsize => ?_)
    cases hreader.symm.trans hsize
  | @sizeLine scanned stop size extensionBytes _ hreader =>
    unfold Fits at hc
    rw [hreader] at hc
    refine Or.inl (fits_new ?_ fun _ hsize => ?_)
    · show (if size = 0 then .new else c.cycle.progress) = SectionProgress.new
      split
      · rfl
      · exact hc.1
    · change (if size = 0 then Reader.chunked .trailers else .chunked (.data size true)) = _ at hsize
      split at hsize <;> cases hsize
  | dataEnd _ hreader =>
    unfold Fits at hc
    rw [hreader] at hc
    refine Or.inl (fits_new hc fun _ hsize => ?_)
    cases hsize
    exact Nat.zero_le _

/-- The bytes of a `Data` event leave the buffer of a connection without notes. -/
theorem Turn.data_fits {count : Nat} {chunkStart chunkEnd : Bool}
    (h : Turn hp c (.ok (some (.data count chunkStart chunkEnd))) c') (hc : c.Fits) :
    Fits { c' with input := c'.input.consume count } := by
  cases h with
  | payload _ _ hreader =>
    unfold Fits at hc
    have hprogress : c.cycle.progress = .new := by
      rcases hreader with ⟨_, hreader⟩ | ⟨_, _, hreader⟩ | hreader <;> rw [hreader] at hc <;> exact hc
    have hkept : (c.advancePayload c.input.asSlice.length).2.cycle.progress = c.cycle.progress := by
      unfold advancePayload
      split <;> rfl
    refine fits_new (hkept.trans hprogress) fun _ hsize => ?_
    change (c.advancePayload c.input.asSlice.length).2.cycle.reader = _ at hsize
    unfold advancePayload at hsize
    rcases hreader with ⟨_, hreader⟩ | ⟨_, _, hreader⟩ | hreader
    · rw [hreader] at hsize
      cases hsize
    · rw [hreader] at hsize
      change Reader.chunked (if _ then _ else _) = _ at hsize
      split at hsize <;> cases hsize
    · rw [hreader] at hsize
      cases hreader.symm.trans hsize

theorem Turns.fits {r : Except RemoteProtocolError Polled} (h : Turns hp c r c') (hc : c.Fits) :
    (c'.Fits ∨ (c'.peerState = .closed ∧ r = .ok (.event .connectionClosed))) ∧
      ∀ count chunkStart chunkEnd, r = .ok (.data count chunkStart chunkEnd) →
        Fits { c' with input := c'.input.consume count } := by
  induction h with
  | @last c c' r h =>
    refine ⟨(h.fits hc).imp_right fun hclosed => ⟨hclosed.1, ?_⟩, ?_⟩
    · have hr := hclosed.2
      cases r with
      | error => cases hr
      | ok polled => exact congrArg Except.ok (Option.some.inj (Except.ok.inj hr))
    · rintro count chunkStart chunkEnd rfl
      exact Turn.data_fits h hc
  | again h _ ih =>
    rcases h.fits hc with hfits | ⟨_, hr⟩
    · exact ih hfits
    · cases hr

theorem nextEvent_fits (hc : c.Fits) : (nextEvent hp c).2.Fits ∨ (nextEvent hp c).2.peerState = .closed := by
  unfold nextEvent
  rcases h : nextEventInner hp c with ⟨error | polled, c'⟩
  · rcases (nextEventInner_turns h).fits hc with ⟨hfits | ⟨_, hr⟩, _⟩
    · exact Or.inl (hfits.same rfl rfl rfl)
    · cases hr
  · obtain ⟨hfits, hdata⟩ := (nextEventInner_turns h).fits hc
    cases polled with
    | data count chunkStart chunkEnd => exact Or.inl (hdata _ _ _ rfl)
    | event | needData | paused => exact hfits.imp_right And.left

/-- A peer that has closed is not read from. -/
theorem nextEvent_closed (hpeer : c.peerState = .closed) :
    nextEvent hp c = (.ok (.event .connectionClosed), c) := by
  have hdispatch : dispatch hp c = (.ok (some (.event .connectionClosed)), c) := by
    unfold dispatch
    rw [Lib.Call.get_bind]
    simp only [hpeer]
    rfl
  unfold nextEvent
  rw [nextEventInner_reports hdispatch]

/-! ## Whole runs -/

theorem step_fits (hp : Httparse) (op : Op) (hc : c.Fits ∨ c.peerState = .closed) :
    (step hp op c).2.Fits ∨ (step hp op c).2.peerState = .closed := by
  rcases hc with hfits | hclosed
  · by_cases hpoll : op = .nextEvent
    · subst hpoll
      show (pollOutcome (nextEvent hp c)).2.Fits ∨ (pollOutcome (nextEvent hp c)).2.peerState = .closed
      rw [pollOutcome_snd]
      exact nextEvent_fits hfits
    · exact Or.inl (step_preserve_unpolled (fun _ _ => Change.fits) (fun _ _ => CycleChange.fits) hpoll hfits)
  · have hstays := step_stays hp op c c.role.peer
    change c.peerState.stays ((step hp op c).2.state.state c.role.peer) = true at hstays
    rw [hclosed, ← step_role hp op c] at hstays
    exact Or.inr (beq_iff_eq.mp hstays)

theorem reachable_fits (h : Reachable hp c) : c.Fits ∨ c.peerState = .closed := by
  obtain ⟨role, limits, history, hrun⟩ := h
  refine Lib.Run.invariant (P := fun c => c.Fits ∨ c.peerState = .closed) ?_
    (fun _ op hc _ => step_fits hp op hc) hrun
  exact Or.inl (fits_new rfl fun _ hsize => by cases hsize)

/-- A scan that is resumed on a longer and longer buffer is a fresh scan of the
last buffer, and says so in time. In a connection it is such a scan of the
buffer, whose notes lie in the buffer, until the peer has closed, which is not
read from. -/
theorem incremental_scan_is_a_fresh_scan :
    (∀ (skip found : Bool) (data : Bytes) (progress : SectionProgress), SectionProgress.Watched skip data progress found →
      (progress.lineStart ≤ progress.position ∧ progress.position ≤ data.length) ∧
      (found = false → ∀ (more : Bytes) (stop : Nat),
        ((progress.poll (data ++ more) skip).1 = some stop ↔ EndsSection (data ++ more) skip stop) ∧
        ((SectionProgress.new.poll (data ++ more) skip).1 = some stop ↔
          EndsSection (data ++ more) skip stop) ∧
        (EndsSection (data ++ more) skip stop → (progress.due (data ++ more) skip).1 = true))) ∧
    (∀ (hp : Httparse) (c : Connection), Reachable hp c →
      (c.peerState ≠ .closed → c.Fits ∧ c.InBuffer) ∧
      (c.peerState = .closed → nextEvent hp c = (.ok (.event .connectionClosed), c))) := by
  refine ⟨fun skip found data progress h => ⟨h.inside, ?_⟩, fun hp c h => ⟨fun hopen => ?_, nextEvent_closed⟩⟩
  · rintro rfl more stop
    refine ⟨?_, emptyLineEnd_iff _ _ _, h.due_eq⟩
    rw [h.poll_eq more]
    exact emptyLineEnd_iff _ _ _
  · have hfits := (reachable_fits h).resolve_right hopen
    exact ⟨hfits, hfits.inBuffer⟩

/-- A line and the empty line after it, looked at one after the other. -/
theorem second_look_finds_the_line :
    EndsSection (ascii "a b\r\n" ++ crlf) true 7 ∧
      (((SectionProgress.new.due (ascii "a b\r\n") true).2).due (ascii "a b\r\n" ++ crlf) true).1 = true ∧
      InBuffer (new .server .default) := by
  have hwatched : SectionProgress.Watched true (ascii "a b\r\n") (SectionProgress.new.due (ascii "a b\r\n") true).2 false :=
    .looked (ascii "a b\r\n") .fresh
  have hends : EndsSection (ascii "a b\r\n" ++ crlf) true 7 :=
    (emptyLineEnd_iff _ _ _).mp (by decide +kernel)
  have hreach : Reachable Reference.httparse (new .server .default) :=
    ⟨.server, .default, [], .start⟩
  exact ⟨hends,
    ((incremental_scan_is_a_fresh_scan.1 true false _ _ hwatched).2 rfl crlf 7).2.2 hends,
    ((incremental_scan_is_a_fresh_scan.2 _ _ hreach).1 (by decide)).2⟩

/-- Empty lines in three pieces and the end of the input: the idle peer closes,
the buffer is empty, and the scan still stands after five bytes. -/
theorem closing_keeps_the_scan_position :
    ¬∀ (hp : Httparse) (c : Connection), Reachable hp c →
      c.cycle.progress.position ≤ c.input.asSlice.length := by
  intro h
  have hrun : Run Reference.httparse anyCall .server .default _ _ :=
    Lib.Run.trace_of_forall _ [.receiveData crlf, .nextEvent, .receiveData crlf, .nextEvent,
      .receiveData [lf], .nextEvent, .receiveData [], .nextEvent] fun _ _ => trivial
  exact absurd (h _ _ ⟨_, _, _, hrun⟩) (by decide +kernel)

end H11r.Connection
