import H11r.Connection.Decode
import H11r.Connection.Whole

/-!
# A turn on a part of the input

A connection that has a part of the input takes a turn. `Joins` compares it
with the turn that the connection with all of the input takes in the same
place: both do the same, or the first waits and nothing has happened, or both
fail and suggest the same status. What the decoder does early, on bytes that
are not all there yet, it would have done with all of them.

Payload is left out here. Of a body the second connection delivers at once what
the first delivers in pieces.
-/

namespace H11r.Connection

open Lib (Call)

variable {hp : Httparse} {rest : Bytes} {c f : Connection}

/-- What the first connection has done, `(r, c')`, and what the call `y` does on
the second; `waiting` is what the first returns when it needs more bytes. -/
inductive Joins {α : Type} (rest : Bytes) (f : Connection) (y : RemoteCall α) (waiting : α) :
    Except RemoteProtocolError α × Connection → Prop
  | same {r : Except RemoteProtocolError α} {c' f' : Connection} (hf : y f = (r, f'))
      (hw : Whole rest c' f') : Joins rest f y waiting (r, c')
  | waits {c' : Connection} (hw : Whole rest c' f) : Joins rest f y waiting (.ok waiting, c')
  | fails {error error' : RemoteProtocolError} {c' f' : Connection} (hf : y f = (.error error', f'))
      (hstatus : error'.suggestedStatusCode = error.suggestedStatusCode) :
      Joins rest f y waiting (.error error, c')

namespace Joins

variable {α : Type} {x y : RemoteCall α} {waiting : α}

/-- Calls that do the same, the second after a step that the first makes as well. -/
theorem of_alike_after {c1 f1 : Connection} {y' : RemoteCall α}
    (h : Call.Alike (Whole rest) c1 f1 x y') (hy : y f = y' f1) : Joins rest f y waiting (x c1) := by
  obtain ⟨hresult, hstate⟩ := h
  rcases hx : x c1 with ⟨r, c'⟩
  rcases hy' : y' f1 with ⟨r', f'⟩
  rw [hx, hy'] at hresult hstate
  cases hresult
  exact .same (hy.trans hy') hstate

theorem of_alike (h : Call.Alike (Whole rest) c f x y) : Joins rest f y waiting (x c) :=
  of_alike_after h rfl

theorem congr {y' : RemoteCall α} {result : Except RemoteProtocolError α × Connection}
    (h : Joins rest f y' waiting result) (hy : y f = y' f) : Joins rest f y waiting result := by
  cases h with
  | same hf hw => exact .same (hy.trans hf) hw
  | waits hw => exact .waits hw
  | fails hf hstatus => exact .fails (hy.trans hf) hstatus

/-- What is reported at the end of a turn. -/
theorem report {x y : RemoteCall Polled} (h : Joins rest f y .needData (x c)) :
    Joins rest f (y >>= fun polled => pure (some polled)) (some .needData)
      ((x >>= fun polled => pure (some polled)) c) := by
  generalize hx : x c = result at h
  cases h with
  | @same r c' f' hf hw =>
    cases r with
    | error error =>
      rw [Call.bind_of_error hx]
      exact .same (Call.bind_of_error hf) hw
    | ok polled =>
      rw [Call.bind_of_ok hx]
      exact .same (Call.bind_of_ok hf) hw
  | waits hw =>
    rw [Call.bind_of_ok hx]
    exact .waits hw
  | fails hf hstatus =>
    rw [Call.bind_of_error hx]
    exact .fails (Call.bind_of_error hf) hstatus

end Joins

/-! ## Sections -/

theorem needDataOrEof_waits (heof : c.eof = false) (message : String) :
    needDataOrEof message c = (.ok .needData, c) := by
  unfold needDataOrEof
  rw [Call.get_bind, Call.failIf_bind, if_neg (by rw [heof]; decide)]
  rfl

theorem needDataOrEof_fails (heof : c.eof = true) (message : String) :
    needDataOrEof message c = (.error (remoteError message (some 400)), c) := by
  unfold needDataOrEof
  rw [Call.get_bind, Call.failIf_bind, if_pos heof]

theorem needDataOrEof_joins (h : Whole rest c f) (message : String) :
    Joins rest f (needDataOrEof message) .needData (needDataOrEof message c) := by
  by_cases heof : c.eof = true
  · rw [needDataOrEof_fails heof]
    exact .same (needDataOrEof_fails h.eof message) h
  · rw [needDataOrEof_waits (by simpa using heof)]
    exact .waits h

theorem waitForSection_joins (h : Whole rest c f) (skip : Bool) :
    Joins rest f (waitForSection skip) .needData (waitForSection skip c) := by
  by_cases hfits : c.input.asSlice.length ≤ c.limits.maxHeadBytes
  · have hwait : ∀ {d : Connection}, d.input.asSlice.length ≤ d.limits.maxHeadBytes →
        waitForSection skip d = needDataOrEof (if skip then "unexpected EOF in HTTP head"
          else "unexpected EOF in trailers") d := by
      intro d hd
      unfold waitForSection
      rw [Call.get_bind, if_pos hd]
    rw [hwait hfits]
    by_cases heof : c.eof = true
    · have hf : f.input.asSlice.length ≤ f.limits.maxHeadBytes := by
        rw [h.slice_of_eof heof, h.limits]
        exact hfits
      exact (needDataOrEof_joins h _).congr (hwait hf)
    · rw [needDataOrEof_waits (by simpa using heof)]
      exact .waits h
  · have hlong : ¬f.input.asSlice.length ≤ f.limits.maxHeadBytes := by
      rw [h.slice, h.limits, List.length_append]
      omega
    have hsection := h.headSection_eq fun hshort => hfits hshort.1
    refine .of_alike ?_
    unfold waitForSection
    refine .get_bind ?_
    rw [if_neg hfits, if_neg hlong, hsection, h.role]
    split
    · exact .throw h _
    · exact .throw h _

/-- What reading a head and reading trailers have in common. -/
def readSection {α : Type} (skip : Bool) (parse : Bytes → Except RemoteProtocolError (Option α))
    (accept : α → RemoteCall Polled) : RemoteCall Polled := do
  let due ← sectionDue skip
  let c ← Call.get
  if !due then waitForSection skip
  else
    match ← Call.ofExcept (parse c.headSection) with
    | none => waitForSection skip
    | some parsed => accept parsed

theorem waitForSection_waits (hfits : c.input.asSlice.length ≤ c.limits.maxHeadBytes)
    (heof : c.eof = false) (skip : Bool) : waitForSection skip c = (.ok .needData, c) := by
  unfold waitForSection
  rw [Call.get_bind, if_pos hfits]
  exact needDataOrEof_waits heof _

/-- A look changes the notes only, and one that does not call for the parser has
not gone past the limit or seen the end of the input. -/
theorem sectionDue_notes (h : Whole rest c f) (skip : Bool) : ∃ due c1,
    sectionDue skip c = (.ok due, c1) ∧ Whole rest c1 f ∧ c1.input = c.input ∧ c1.limits = c.limits ∧
      c1.eof = c.eof ∧ c1.role = c.role ∧
      (due = false → c.input.asSlice.length ≤ c.limits.maxHeadBytes ∧ c.eof = false) := by
  unfold sectionDue
  split
  next => exact ⟨true, c, rfl, h, rfl, rfl, rfl, rfl, nofun⟩
  next hlook =>
    refine ⟨_, _, rfl, h.rescan _ (sameReader_refl _), rfl, rfl, rfl, rfl, fun _ => ⟨by omega, ?_⟩⟩
    exact Bool.eq_false_iff.mpr fun heof => hlook (Or.inl heof)

section Sections

variable {α : Type} {parse : Bytes → Except RemoteProtocolError (Option α)} {accept : α → RemoteCall Polled}
  {skip : Bool}

/-- With the end of the input there, a section is parsed as it is. -/
theorem readSection_eof (heof : f.eof = true) : readSection skip parse accept f =
    match parse f.headSection with
    | .error error => (.error error, f)
    | .ok none => waitForSection skip f
    | .ok (some parsed) => accept parsed f := by
  have hdue : sectionDue skip f = (.ok true, f) := by
    unfold sectionDue
    rw [if_pos (Or.inl heof)]
  unfold readSection
  rw [Call.bind_of_ok hdue, Call.get_bind, if_neg (by decide), Call.ofExcept_bind]
  cases parse f.headSection with
  | error error => rfl
  | ok parsed => cases parsed <;> rfl

/-- Trailers that cannot be completed are refused as a bad request, one way or
the other. -/
theorem waitForSection_refuses (heof : f.eof = true) : ∃ error,
    waitForSection false f = (.error error, f) ∧ error.suggestedStatusCode = some 400 := by
  unfold waitForSection
  rw [Call.get_bind]
  split
  · exact ⟨_, needDataOrEof_fails heof _, rfl⟩
  · rw [if_pos (by decide)]
    exact ⟨_, rfl, rfl⟩

/-- What is wrong with a part of a section is wrong with the section, and is
answered with the same status. -/
def StaysWrong (skip : Bool) (limit : Nat) (parse : Bytes → Except RemoteProtocolError (Option α)) : Prop :=
  ∀ (data more : Bytes) (error : RemoteProtocolError), (data ++ more).length ≤ limit →
    parse data = .error error →
    parse (data ++ more) = .error error ∨
      skip = false ∧ error.suggestedStatusCode = some 400 ∧
        (∀ parsed, parse (data ++ more) ≠ .ok (some parsed)) ∧
        ∀ error', parse (data ++ more) = .error error' → error'.suggestedStatusCode = some 400

theorem readSection_waits (h : Whole rest c f) (heof : c.eof = false)
    (hfits : c.input.asSlice.length ≤ c.limits.maxHeadBytes) (hnone : parse c.headSection = .ok none) :
    ∃ c', readSection skip parse accept c = (.ok .needData, c') ∧ Whole rest c' f := by
  obtain ⟨due, c1, hdue, hnoted, hinput, hlimits, hopen, _⟩ := sectionDue_notes h skip
  have hsection : c1.headSection = c.headSection := by
    unfold headSection
    rw [hinput, hlimits]
  have hwaits : waitForSection skip c1 = (.ok .needData, c1) := by
    refine waitForSection_waits ?_ (hopen.trans heof) skip
    rw [hinput, hlimits]
    exact hfits
  refine ⟨c1, ?_, hnoted⟩
  unfold readSection
  rw [Call.bind_of_ok hdue, Call.get_bind]
  cases due with
  | false => rw [if_pos (by decide), hwaits]
  | true =>
    rw [if_neg (by decide), Call.ofExcept_bind, hsection, hnone]
    exact hwaits

theorem readSection_joins (h : Whole rest c f)
    (hcomplete : ∀ (data more : Bytes) (parsed : α), parse data = .ok (some parsed) →
      parse (data ++ more) = .ok (some parsed))
    (hwrong : StaysWrong skip c.limits.maxHeadBytes parse)
    (haccept : ∀ (parsed : α) (c1 : Connection), Whole rest c1 f → c1.input = c.input → c1.role = c.role →
      parse c.headSection = .ok (some parsed) → Call.Alike (Whole rest) c1 f (accept parsed) (accept parsed)) :
    Joins rest f (readSection skip parse accept) .needData (readSection skip parse accept c) := by
  have hf : readSection skip parse accept f = _ := readSection_eof h.eof
  obtain ⟨due, c1, hdue, hnoted, hinput, hlimits, heof, hrole, hlook⟩ := sectionDue_notes h skip
  have hsection : c1.headSection = c.headSection := by
    unfold headSection
    rw [hinput, hlimits]
  have hwaits : c.input.asSlice.length ≤ c.limits.maxHeadBytes → c.eof = false →
      waitForSection skip c1 = (.ok .needData, c1) := by
    intro hfits hopen
    refine waitForSection_waits ?_ (heof.trans hopen) skip
    rw [hinput, hlimits]
    exact hfits
  unfold readSection
  rw [Call.bind_of_ok hdue, Call.get_bind]
  cases due with
  | false =>
    obtain ⟨hfits, hopen⟩ := hlook rfl
    rw [if_pos (by decide), hwaits hfits hopen]
    exact .waits hnoted
  | true =>
    rw [if_neg (by decide), Call.ofExcept_bind, hsection]
    have hlonger := h.headSection
    cases hparse : parse c.headSection with
    | error error =>
      have hlimit : f.headSection.length ≤ c.limits.maxHeadBytes := by
        rw [← h.limits]
        exact List.length_take_le _ _
      rw [hlonger] at hlimit
      rcases hwrong _ _ error hlimit hparse with hsame | ⟨rfl, hstatus, hnever, hothers⟩
      · rw [← hlonger] at hsame
        rw [hsame] at hf
        exact .fails hf rfl
      · rw [← hlonger] at hnever hothers
        cases hparse' : parse f.headSection with
        | error error' =>
          rw [hparse'] at hf
          exact .fails hf ((hothers error' hparse').trans hstatus.symm)
        | ok found =>
          cases found with
          | none =>
            rw [hparse'] at hf
            obtain ⟨error', hrefuses, hstatus'⟩ := waitForSection_refuses h.eof
            exact .fails (hf.trans hrefuses) (hstatus'.trans hstatus.symm)
          | some parsed => exact absurd hparse' (hnever parsed)
    | ok found =>
      cases found with
      | none =>
        by_cases hopen : c.input.asSlice.length ≤ c.limits.maxHeadBytes ∧ c.eof = false
        · dsimp only
          rw [hwaits hopen.1 hopen.2]
          exact .waits hnoted
        · rw [h.headSection_eq hopen, hparse] at hf
          exact (waitForSection_joins hnoted skip).congr hf
      | some parsed =>
        have hwhole := hcomplete _ (rest.take (c.limits.maxHeadBytes - c.input.asSlice.length)) parsed hparse
        rw [← hlonger] at hwhole
        rw [hwhole] at hf
        exact (Joins.of_alike (haccept parsed c1 hnoted hinput hrole hparse)).congr hf

end Sections

/-- A request head is a section, and so is a response head. -/
theorem readHead_request (hp : Httparse) (hrole : c.role = .server) : readHead hp c =
    readSection true (fun data => parseRequestHead hp data c.limits.maxHeaderCount)
      (fun parsed => do
        Call.modify (consumeSection parsed.1)
        acceptRequest parsed.2) c := by
  obtain ⟨due, progress, hdue, _⟩ := sectionDue_cases true c
  have hlimits : (c.rescan progress c.cycle.reader c.cycle.chunkExtensionBytes).limits = c.limits := rfl
  have hserver : (c.rescan progress c.cycle.reader c.cycle.chunkExtensionBytes).role = .server := hrole
  unfold readHead readSection
  rw [Call.bind_of_ok hdue, Call.bind_of_ok hdue, Call.get_bind, Call.get_bind, if_pos hserver, hlimits]
  cases due with
  | false => rfl
  | true =>
    rw [if_neg (by decide), if_neg (by decide), Call.ofExcept_bind, Call.ofExcept_bind]
    generalize (c.rescan progress c.cycle.reader c.cycle.chunkExtensionBytes).headSection = data
    dsimp only
    rcases parseRequestHead hp data c.limits.maxHeaderCount with error | _ | parsed <;> rfl

theorem readHead_response (hp : Httparse) (hrole : c.role = .client) : readHead hp c =
    readSection true (fun data => parseResponseHead hp data c.limits.maxHeaderCount c.lenient)
      (fun parsed => do
        Call.modify (disableKeepAliveIf parsed.2.2)
        Call.modify (consumeSection parsed.1)
        acceptResponse parsed.2.1) c := by
  obtain ⟨due, progress, hdue, _⟩ := sectionDue_cases true c
  have hlimits : (c.rescan progress c.cycle.reader c.cycle.chunkExtensionBytes).limits = c.limits := rfl
  have hlenient : (c.rescan progress c.cycle.reader c.cycle.chunkExtensionBytes).lenient = c.lenient := rfl
  have hclient : (c.rescan progress c.cycle.reader c.cycle.chunkExtensionBytes).role ≠ .server := by
    show c.role ≠ .server
    rw [hrole]
    decide
  unfold readHead readSection
  rw [Call.bind_of_ok hdue, Call.bind_of_ok hdue, Call.get_bind, Call.get_bind, if_neg hclient, hlimits,
    hlenient]
  cases due with
  | false => rfl
  | true =>
    rw [if_neg (by decide), if_neg (by decide), Call.ofExcept_bind, Call.ofExcept_bind]
    generalize (c.rescan progress c.cycle.reader c.cycle.chunkExtensionBytes).headSection = data
    dsimp only
    rcases parseResponseHead hp data c.limits.maxHeaderCount c.lenient with error | _ | parsed <;> rfl

theorem readTrailers_section (hp : Httparse) (c : Connection) : readTrailers hp c =
    readSection false (fun data => parseTrailers hp data c.limits.maxHeaderCount (c.role == .client))
      (fun parsed => do
        Call.modify (consumeSection parsed.1)
        finishPeer parsed.2) c := by
  obtain ⟨due, progress, hdue, _⟩ := sectionDue_cases false c
  have hlimits : (c.rescan progress c.cycle.reader c.cycle.chunkExtensionBytes).limits = c.limits := rfl
  have hrole : (c.rescan progress c.cycle.reader c.cycle.chunkExtensionBytes).role = c.role := rfl
  unfold readTrailers readSection
  rw [Call.bind_of_ok hdue, Call.bind_of_ok hdue, Call.get_bind, Call.get_bind, hlimits, hrole]
  cases due with
  | false => rfl
  | true =>
    rw [if_neg (by decide), if_neg (by decide), Call.ofExcept_bind, Call.ofExcept_bind]
    generalize (c.rescan progress c.cycle.reader c.cycle.chunkExtensionBytes).headSection = data
    dsimp only
    rcases parseTrailers hp data c.limits.maxHeaderCount (c.role == .client) with error | _ | parsed <;> rfl

theorem readHead_joins (hhp : hp.Stable) (h : Whole rest c f) :
    Joins rest f (readHead hp) .needData (readHead hp c) := by
  cases hrole : c.role with
  | server =>
    have hf := readHead_request hp (h.role.trans hrole)
    rw [h.limits] at hf
    rw [readHead_request hp hrole]
    refine Joins.congr ?_ hf
    refine readSection_joins h (fun data more parsed hparse => parseRequestHead_complete hhp more hparse)
      (fun data more error _ hparse => Or.inl (parseRequestHead_error hhp more hparse)) ?_
    rintro ⟨stop, request⟩ c1 h1 hinput _ hparse
    have hle := parseRequestHead_le hparse
    have hshort := headSection_le c
    refine .modify_bind (acceptRequest_whole (h1.consumeSection ?_) _)
    rw [hinput]
    dsimp only
    omega
  | client =>
    have hf := readHead_response hp (h.role.trans hrole)
    rw [h.limits, h.lenient] at hf
    rw [readHead_response hp hrole]
    refine Joins.congr ?_ hf
    refine readSection_joins h (fun data more parsed hparse => parseResponseHead_complete hhp more hparse)
      (fun data more error _ hparse => Or.inl (parseResponseHead_error hhp more hparse)) ?_
    rintro ⟨stop, response, dropped⟩ c1 h1 hinput hsame hparse
    have hle := parseResponseHead_le hparse
    have hshort := headSection_le c
    refine .modify_bind (.modify_bind (acceptResponse_whole ((h1.disableIf _).consumeSection ?_) ?_ _))
    · rw [disableKeepAliveIf_input, hinput]
      dsimp only
      omega
    · show (c1.disableKeepAliveIf dropped).role = .client
      rw [disableKeepAliveIf_role, hsame, hrole]

theorem readTrailers_joins (hhp : hp.Stable) (h : Whole rest c f) :
    Joins rest f (readTrailers hp) .needData (readTrailers hp c) := by
  have hf := readTrailers_section hp f
  rw [h.limits, h.role] at hf
  rw [readTrailers_section]
  refine Joins.congr ?_ hf
  refine readSection_joins h (fun data more parsed hparse => parseTrailers_complete hhp more hparse)
    (fun data more error hlimit hparse => Or.inr ⟨rfl, parseTrailers_status hparse,
      parseTrailers_wrong hhp hlimit hparse, fun _ => parseTrailers_status⟩) ?_
  rintro ⟨stop, trailers⟩ c1 h1 hinput _ hparse
  have hle := parseTrailers_le hparse
  have hshort := headSection_le c
  refine .modify_bind (finishPeer_whole (h1.consumeSection ?_) _)
  rw [hinput]
  dsimp only
  omega

/-- Empty lines in front of a head are waited on, as long as more may come. -/
theorem readHead_emptyLines (hhp : hp.Stable) (h : Whole rest c f) (heof : c.eof = false)
    (hfits : f.input.asSlice.length ≤ f.limits.maxHeadBytes)
    (hempty : onlyEmptyLines f.input.asSlice = true) :
    ∃ c', readHead hp c = (.ok .needData, c') ∧ Whole rest c' f := by
  have hshort : c.input.asSlice.length ≤ c.limits.maxHeadBytes := by
    rw [h.slice, h.limits, List.length_append] at hfits
    omega
  have hall : f.headSection = f.input.asSlice := List.take_of_length_le hfits
  have hlonger := h.headSection
  rw [hall] at hlonger
  cases hrole : c.role with
  | server =>
    rw [readHead_request hp hrole]
    refine readSection_waits h heof hshort ?_
    have hnone : parseRequestHead hp f.input.asSlice c.limits.maxHeaderCount = .ok none :=
      parseRequestHead_emptyLines hhp hempty
    rw [hlonger] at hnone
    rcases hparse : parseRequestHead hp c.headSection c.limits.maxHeaderCount with error | _ | parsed
    · rw [parseRequestHead_error hhp _ hparse] at hnone
      cases hnone
    · rfl
    · rw [parseRequestHead_complete hhp _ hparse] at hnone
      cases hnone
  | client =>
    rw [readHead_response hp hrole]
    refine readSection_waits h heof hshort ?_
    have hnone : parseResponseHead hp f.input.asSlice c.limits.maxHeaderCount c.lenient = .ok none :=
      parseResponseHead_emptyLines hhp hempty
    rw [hlonger] at hnone
    rcases hparse : parseResponseHead hp c.headSection c.limits.maxHeaderCount c.lenient with
      error | _ | ⟨stop, response, dropped⟩
    · rw [parseResponseHead_error hhp _ hparse] at hnone
      cases hnone
    · rfl
    · rw [parseResponseHead_complete hhp _ hparse] at hnone
      cases hnone

/-! ## The other readers -/

/-- Where nothing is there to deliver, both ask for more or both have the end of
the input. -/
theorem readPayload_joins (h : Whole rest c f) (hinput : c.input.asSlice = []) (message : String) :
    Joins rest f (readPayload message) .needData (readPayload message c) := by
  have hempty : ∀ {d : Connection}, d.input.asSlice = [] →
      readPayload message d = needDataOrEof message d := by
    intro d hd
    unfold readPayload
    rw [Call.get_bind, if_pos hd]
  rw [hempty hinput]
  by_cases heof : c.eof = true
  · refine (needDataOrEof_joins h message).congr (hempty ?_)
    rw [h.slice_of_eof heof, hinput]
  · rw [needDataOrEof_waits (by simpa using heof)]
    exact .waits h

/-- An unfinished line does not get shorter. -/
theorem incompleteLineLen_append (data more : Bytes) :
    incompleteLineLen data ≤ incompleteLineLen (data ++ more) := by
  by_cases hmore : more = []
  · rw [hmore, List.append_nil]
  · have hlength := List.length_pos_iff.mpr hmore
    have hle : incompleteLineLen data ≤ data.length := Nat.sub_le _ _
    unfold incompleteLineLen at hle ⊢
    rw [List.length_append]
    split <;> split <;> omega

theorem readSizeLine_long {stop : Nat} (hlong : stop - 2 > c.limits.maxHeadBytes) :
    readSizeLine stop c = (.error (c.limitError "chunk line exceeds max_head_bytes"), c) := by
  unfold readSizeLine
  rw [Call.get_bind, Call.failIf_bind, if_pos hlong]

theorem waitForSizeLine_eq (c : Connection) : waitForSizeLine c =
    if incompleteLineLen c.input.asSlice > c.limits.maxHeadBytes then
      (.error (c.limitError "chunk line exceeds max_head_bytes"), c)
    else needDataOrEof "unexpected EOF in chunk size"
      (c.setReader (.chunked (.size (c.input.asSlice.length - 1)))) := by
  unfold waitForSizeLine
  rw [Call.get_bind, Call.failIf_bind]
  rfl

theorem readSize_joins (h : Whole rest c f) {scanned : Nat}
    (hreader : c.cycle.reader = .chunked (.size scanned)) (hnotes : c.NotesOf (.size scanned)) :
    Joins rest f (readChunked hp (.size 0)) (some .needData) (readChunked hp (.size scanned) c) := by
  have hfound : ∀ {d : Connection} {scanned stop}, findCrlf d.input.asSlice scanned = some stop →
      readChunked hp (.size scanned) d = (readSizeLine stop >>= fun _ => pure none) d := by
    intro d scanned stop hstop
    unfold readChunked
    rw [Call.get_bind]
    dsimp only
    rw [hstop]
  have hmissing : ∀ {d : Connection} {scanned}, findCrlf d.input.asSlice scanned = none →
      readChunked hp (.size scanned) d = (waitForSizeLine >>= fun polled => pure (some polled)) d := by
    intro d scanned hstop
    unfold readChunked
    rw [Call.get_bind]
    dsimp only
    rw [hstop]
  have hstart : findCrlf f.input.asSlice 0 = (positionCrlf (c.input.asSlice ++ rest)).map (· + 2) := by
    rw [h.slice]
    exact H11r.findCrlf_eq fun _ _ => Nat.zero_le _
  have hlimit : f.limitError = c.limitError := by
    funext message
    unfold limitError
    rw [h.role]
  cases hoffset : positionCrlf c.input.asSlice with
  | some offset =>
    have hlt := positionCrlf_lt hoffset
    have hc : findCrlf c.input.asSlice scanned = some (offset + 2) := by
      rw [Decoding.findCrlf_eq hnotes, hoffset]
      rfl
    rw [positionCrlf_append rest hoffset] at hstart
    rw [hfound hc]
    refine (Joins.of_alike ?_).congr (hfound hstart)
    exact .bind (readSizeLine_whole h hlt) fun _ _ _ h1 => .pure h1 none
  | none =>
    have hc : findCrlf c.input.asSlice scanned = none := by
      rw [Decoding.findCrlf_eq hnotes, hoffset]
      rfl
    rw [hmissing hc]
    by_cases hlong : incompleteLineLen c.input.asSlice > c.limits.maxHeadBytes
    · -- The line is too long already, whether or not it ends later.
      have hfails : waitForSizeLine c = _ := (waitForSizeLine_eq c).trans (if_pos hlong)
      rw [Call.bind_of_error hfails]
      cases hlater : positionCrlf (c.input.asSlice ++ rest) with
      | some offset =>
        rw [hlater] at hstart
        have hle := incompleteLineLen_le hoffset hlater
        have hline : readSizeLine (offset + 2) f = (.error (f.limitError _), f) :=
          readSizeLine_long (by rw [h.limits]; omega)
        rw [hlimit] at hline
        exact .fails ((hfound hstart).trans (Call.bind_of_error hline)) rfl
      | none =>
        rw [hlater] at hstart
        have hle := incompleteLineLen_append c.input.asSlice rest
        have hline : waitForSizeLine f = (.error (f.limitError _), f) :=
          (waitForSizeLine_eq f).trans (if_pos (by rw [h.slice, h.limits]; omega))
        rw [hlimit] at hline
        exact .fails ((hmissing hstart).trans (Call.bind_of_error hline)) rfl
    · have hnoted : Whole rest (c.setReader (.chunked (.size (c.input.asSlice.length - 1)))) f :=
        h.rescan c.cycle.progress (Or.inr ⟨_, _, hreader, rfl⟩)
      have hwait : waitForSizeLine c = _ := (waitForSizeLine_eq c).trans (if_neg hlong)
      have hsame : (c.setReader (.chunked (.size (c.input.asSlice.length - 1)))).eof = c.eof := rfl
      by_cases heof : c.eof = true
      · have hslice := h.slice_of_eof heof
        rw [h.2.1 heof, List.append_nil, hoffset] at hstart
        have hwait' : waitForSizeLine f = _ := (waitForSizeLine_eq f).trans
          (if_neg (by rw [hslice, h.limits]; exact hlong))
        have hended : (f.setReader (.chunked (.size (f.input.asSlice.length - 1)))).eof = true := h.eof
        rw [Call.bind_of_error (hwait.trans (needDataOrEof_fails (hsame.trans heof) _))]
        exact .fails ((hmissing hstart).trans
          (Call.bind_of_error (hwait'.trans (needDataOrEof_fails hended _)))) rfl
      · rw [Call.bind_of_ok (hwait.trans (needDataOrEof_waits (hsame.trans (by simpa using heof)) _))]
        exact .waits hnoted

/-- What follows the payload of a chunk. -/
theorem readDataEnd_joins (h : Whole rest c f) :
    Joins rest f (readChunked hp .dataEnd) (some .needData) (readChunked hp .dataEnd c) := by
  have hshort : ∀ {d : Connection}, d.input.asSlice.length < 2 → readChunked hp .dataEnd d =
      (needDataOrEof "unexpected EOF after chunk data" >>= fun polled => pure (some polled)) d := by
    intro d hd
    unfold readChunked
    rw [Call.get_bind]
    dsimp only
    rw [if_pos hd]
  by_cases hlength : c.input.asSlice.length < 2
  · rw [hshort hlength]
    by_cases heof : c.eof = true
    · refine (needDataOrEof_joins h _).report.congr (hshort ?_)
      rw [h.slice_of_eof heof]
      exact hlength
    · rw [Call.bind_of_ok (needDataOrEof_waits (by simpa using heof) _)]
      exact .waits h
  · have htwo : f.input.asSlice.take 2 = c.input.asSlice.take 2 := by
      rw [h.slice, List.take_append_of_le_length (by omega)]
    have hlength' : ¬f.input.asSlice.length < 2 := by
      rw [h.slice, List.length_append]
      omega
    refine .of_alike ?_
    unfold readChunked
    refine .get_bind ?_
    dsimp only
    rw [if_neg hlength, if_neg hlength', htwo]
    refine .failIf_bind Iff.rfl rfl h fun _ => .modify_bind (.modify_bind (.pure ?_ _))
    exact (h.consume (by omega)).setReader rfl

/-! ## A turn -/

theorem readBody_joins (hhp : hp.Stable) (h : Whole rest c f) (hagree : c.LayersAgree)
    (hnoted : c.NotesHold) (hreading : c.Reading) (hnot : ¬(c.Inside ∧ c.input.asSlice ≠ [])) :
    Joins rest f (readBody hp) (some .needData) (readBody hp c) := by
  have hreader' := h.reader
  have hnone : c.cycle.reader.Room 1 → c.input.asSlice = [] := by
    intro hroom
    by_cases hinput : c.input.asSlice = []
    · exact hinput
    · refine absurd ⟨⟨hagree.reading_body hreading fun hhead => ?_, hroom⟩, hinput⟩ hnot
      rw [hhead] at hroom
      exact hroom
  cases hreader : c.cycle.reader with
  | head =>
    rw [hreader] at hreader'
    have hread : ∀ {d : Connection}, d.cycle.reader = .head →
        readBody hp d = (readHead hp >>= fun polled => pure (some polled)) d := by
      intro d hd
      unfold readBody
      rw [Call.get_bind]
      simp only [hd]
    rw [hread hreader]
    exact (readHead_joins hhp h).report.congr (hread hreader')
  | fixed remaining =>
    rw [hreader] at hreader' hnone
    cases remaining with
    | zero =>
      have hread : ∀ {d : Connection}, d.cycle.reader = .fixed 0 →
          readBody hp d = (finishPeer .new >>= fun polled => pure (some polled)) d := by
        intro d hd
        unfold readBody
        rw [Call.get_bind]
        simp only [hd]
      rw [hread hreader]
      exact (Joins.of_alike (finishPeer_whole h _)).report.congr (hread hreader')
    | succ remaining =>
      have hread : ∀ {d : Connection}, d.cycle.reader = .fixed (remaining + 1) → readBody hp d =
          (readPayload "unexpected EOF in Content-Length body" >>= fun polled => pure (some polled)) d := by
        intro d hd
        unfold readBody
        rw [Call.get_bind]
        simp only [hd]
      rw [hread hreader]
      exact (readPayload_joins h (hnone (Nat.succ_pos _)) _).report.congr (hread hreader')
  | closeDelimited =>
    rw [hreader] at hreader' hnone
    have hempty := hnone trivial
    have hread : ∀ {d : Connection}, d.cycle.reader = .closeDelimited → d.input.asSlice = [] →
        readBody hp d = (if d.eof then finishPeer .new >>= fun polled => pure (some polled)
          else pure (some .needData)) d := by
      intro d hd hnil
      unfold readBody
      rw [Call.get_bind]
      simp only [hd]
      rw [if_neg (fun hsome => hsome hnil)]
    rw [hread hreader hempty]
    by_cases heof : c.eof = true
    · have hnil : f.input.asSlice = [] := by rw [h.slice_of_eof heof, hempty]
      have hf := hread hreader' hnil
      rw [if_pos h.eof] at hf
      rw [if_pos heof]
      exact (Joins.of_alike (finishPeer_whole h _)).report.congr hf
    · rw [if_neg heof]
      exact .waits h
  | chunked chunk =>
    have hread : ∀ {d : Connection} {chunk}, d.cycle.reader = .chunked chunk →
        readBody hp d = readChunked hp chunk d := by
      intro d chunk hd
      unfold readBody
      rw [Call.get_bind]
      simp only [hd]
    have hnotes := hnoted chunk hreader
    rw [hread hreader]
    rw [hreader] at hreader' hnone
    cases chunk with
    | size scanned => exact (readSize_joins h hreader hnotes).congr (hread hreader')
    | data remaining first =>
      have hempty := hnone (Nat.pos_of_ne_zero hnotes)
      refine Joins.congr ?_ (hread hreader')
      exact (readPayload_joins h hempty _).report
    | dataEnd => exact (readDataEnd_joins h).congr (hread hreader')
    | trailers =>
      refine Joins.congr ?_ (hread hreader')
      exact (readTrailers_joins hhp h).report

/-- Between messages. -/
theorem dispatchIdle_joins (hhp : hp.Stable) (h : Whole rest c f) (hagree : c.LayersAgree)
    (hnoted : c.NotesHold) (hpeer : c.peerState = .idle) :
    Joins rest f (dispatch hp) (some .needData) (dispatch hp c) := by
  have hpeer' : f.peerState = .idle := by
    rcases h.peerState with hsame | ⟨hdone, _⟩
    · rw [hsame, hpeer]
    · cases hpeer.symm.trans hdone
  have hcloses : ∀ {d : Connection}, d.peerState = .idle → (d.eof = true ∧
      d.input.asSlice.length ≤ d.limits.maxHeadBytes ∧ onlyEmptyLines d.input.asSlice = true) →
      dispatch hp d = (peerClosed >>= fun polled => pure (some polled))
        { d with input := d.input.consume d.input.asSlice.length } := by
    intro d hd hempty
    unfold dispatch
    rw [Call.get_bind]
    simp only [hd]
    rw [if_pos hempty]
    rfl
  have hreads : ∀ {d : Connection}, d.peerState = .idle → ¬(d.eof = true ∧
      d.input.asSlice.length ≤ d.limits.maxHeadBytes ∧ onlyEmptyLines d.input.asSlice = true) →
      dispatch hp d = readBody hp d := by
    intro d hd hhead
    unfold dispatch
    rw [Call.get_bind]
    simp only [hd]
    rw [if_neg hhead]
  by_cases hempty : c.eof = true ∧ c.input.asSlice.length ≤ c.limits.maxHeadBytes ∧
      onlyEmptyLines c.input.asSlice = true
  · have hslice := h.slice_of_eof hempty.1
    have hboth : Call.Alike (Whole rest)
        { c with input := c.input.consume c.input.asSlice.length }
        { f with input := f.input.consume c.input.asSlice.length } peerClosed peerClosed :=
      peerClosed_whole (h.consume (Nat.le_refl _))
    have hf := hcloses hpeer' ⟨h.eof, by rw [hslice, h.limits]; exact hempty.2⟩
    rw [hslice] at hf
    rw [hcloses hpeer hempty]
    exact .of_alike_after (.bind hboth fun _ _ _ h1 => .pure h1 _) hf
  · rw [hreads hpeer hempty]
    have hnot : ¬(c.Inside ∧ c.input.asSlice ≠ []) := fun hinside => by
      cases hpeer.symm.trans hinside.1.1
    by_cases hempty' : f.eof = true ∧ f.input.asSlice.length ≤ f.limits.maxHeadBytes ∧
        onlyEmptyLines f.input.asSlice = true
    · have heof : c.eof = false := by
        refine Bool.eq_false_iff.mpr fun heof => hempty ⟨heof, ?_⟩
        rw [← h.slice_of_eof heof, ← h.limits]
        exact hempty'.2
      have hreader : c.cycle.reader = .head := hagree.head (by
        show c.peerState.readsHead = true
        rw [hpeer]
        rfl)
      obtain ⟨c', hwaits, hw⟩ := readHead_emptyLines hhp h heof hempty'.2.1 hempty'.2.2
      have hread : readBody hp c = (.ok (some .needData), c') := by
        unfold readBody
        rw [Call.get_bind]
        simp only [hreader]
        rw [Call.bind_of_ok hwaits]
        rfl
      rw [hread]
      exact .waits hw
    · have hreading : c.Reading := Or.inl ⟨hpeer, hempty⟩
      exact (readBody_joins hhp h hagree hnoted hreading hnot).congr (hreads hpeer' hempty')

/-- After a message. -/
theorem dispatchDone_joins (h : Whole rest c f) (hpeer : c.peerState = .done ∨ c.peerState = .mustClose) :
    Joins rest f (dispatch hp) (some .needData) (dispatch hp c) := by
  have hpeer' : f.peerState = .done ∨ f.peerState = .mustClose := by
    rcases h.peerState with hsame | ⟨_, hcloses⟩
    · rw [hsame]
      exact hpeer
    · exact Or.inr hcloses
  have hdispatch : ∀ {d : Connection}, d.peerState = .done ∨ d.peerState = .mustClose →
      dispatch hp d = (if d.input.asSlice ≠ [] then pure (some .paused)
        else if d.eof then peerClosed >>= fun polled => pure (some polled)
        else pure (some .needData)) d := by
    intro d hd
    unfold dispatch
    rw [Call.get_bind]
    rcases hd with hd | hd <;> simp only [hd]
  have hf := hdispatch hpeer'
  rw [hdispatch hpeer]
  by_cases hinput : c.input.asSlice = []
  · rw [if_neg (fun hsome => hsome hinput)]
    by_cases heof : c.eof = true
    · have hnil : f.input.asSlice = [] := by rw [h.slice_of_eof heof, hinput]
      rw [if_neg (fun hsome => hsome hnil), if_pos h.eof] at hf
      rw [if_pos heof]
      exact (Joins.of_alike (peerClosed_whole h)).report.congr hf
    · rw [if_neg heof]
      exact .waits h
  · have hsome : f.input.asSlice ≠ [] := by
      rw [h.slice]
      simp [hinput]
    rw [if_pos hsome] at hf
    rw [if_pos hinput]
    exact .same hf h

/-- A turn of the decoder, outside payload that is there. -/
theorem dispatch_joins (hhp : hp.Stable) (h : Whole rest c f) (hagree : c.LayersAgree)
    (hnoted : c.NotesHold) (hnot : ¬(c.Inside ∧ c.input.asSlice ≠ [])) :
    Joins rest f (dispatch hp) (some .needData) (dispatch hp c) := by
  have hsame : c.peerState ≠ .done → f.peerState = c.peerState := by
    intro hdone
    rcases h.peerState with hsame | ⟨hpeer, _⟩
    · exact hsame
    · exact absurd hpeer hdone
  cases hpeer : c.peerState with
  | idle => exact dispatchIdle_joins hhp h hagree hnoted hpeer
  | done => exact dispatchDone_joins h (Or.inl hpeer)
  | mustClose => exact dispatchDone_joins h (Or.inr hpeer)
  | sendResponse | sendBody =>
    have hread : ∀ {d : Connection}, d.peerState = .sendResponse ∨ d.peerState = .sendBody →
        dispatch hp d = readBody hp d := by
      intro d hd
      unfold dispatch
      rw [Call.get_bind]
      rcases hd with hd | hd <;> simp only [hd]
    have hreading : c.peerState = .sendResponse ∨ c.peerState = .sendBody := by simp [hpeer]
    have hreading' : f.peerState = .sendResponse ∨ f.peerState = .sendBody := by
      rw [hsame (by simp [hpeer])]
      exact hreading
    rw [hread hreading]
    exact (readBody_joins hhp h hagree hnoted (Or.inr hreading) hnot).congr (hread hreading')
  | mightSwitchProtocol | switchedProtocol | closed | error =>
    have hpeer' := (hsame (by simp [hpeer])).trans hpeer
    refine .of_alike ?_
    unfold dispatch
    refine .get_bind ?_
    simp only [hpeer, hpeer']
    first
      | exact .pure h _
      | exact .throw h _

end H11r.Connection
