import H11r.Connection.Drain
import H11r.Connection.Inbound
import H11r.Connection.Lead
import H11r.Connection.Positions
import H11r.Wire.ChunkedBody

/-!
# One poll of the chunked decoder

The decoder stops wherever the bytes stop: in a size line, in a chunk, between
the CR and the LF behind it, in the trailers. `Chunk.Completes` says, for each
of its five positions, which texts complete the message from there, and what
they are decoded to. A turn that takes bytes leaves a position from which the
rest of any text completes the message exactly if the whole did before
(`Again`, `Delivered`); a turn that waits or fails does so on a text that does
not complete the message, and a turn that fails on one that never will.
-/

namespace H11r

open Lib (Call)

/-! ## The texts that complete a message -/

/-- The body bytes of chunks one by one. -/
def chunkItems (chunks : List Bytes) : List Event :=
  chunks.flatMap fun chunk => Event.bytewise chunk true true

/-- `chunk.Completes hp limits client spent text items trailers rest`: from
`chunk` on, with `spent` bytes of extensions read, `text` is decoded to these
body bytes and trailers, and `rest` comes after the message. -/
def Chunk.Completes (hp : Httparse) (limits : Limits) (client : Bool) (spent : Nat) (text : Bytes)
    (items : List Event) (trailers : Headers) (rest : Bytes) : Chunk → Prop
  | .size _ => ∃ body chunks, text = body ++ rest ∧ items = chunkItems chunks ∧
      ChunkedBody hp limits client spent body chunks trailers
  | .data remaining first => ∃ content body chunks, text = content ++ (crlf ++ (body ++ rest)) ∧
      content.length = remaining ∧ items = Event.bytewise content first true ++ chunkItems chunks ∧
      ChunkedBody hp limits client spent body chunks trailers
  | .dataEnd => ∃ body chunks, text = crlf ++ (body ++ rest) ∧ items = chunkItems chunks ∧
      ChunkedBody hp limits client spent body chunks trailers
  | .trailers => ∃ trailer, text = trailer ++ rest ∧ items = [] ∧
      TrailerSection hp limits client trailer trailers

/-- Where the decoder is after a size line. -/
def afterSize (size : Nat) : Chunk := if size = 0 then .trailers else .data size true

namespace Chunk.Completes

variable {hp : Httparse} {limits : Limits} {client : Bool} {spent : Nat} {text : Bytes}
  {items : List Event} {trailers : Headers} {rest : Bytes} {scanned offset size remaining : Nat}
  {first : Bool}

/-- A message goes on with a size line within the limits. -/
theorem sizeLine (h : Completes hp limits client spent text items trailers rest (.size scanned)) :
    ∃ offset size, positionCrlf text = some offset ∧ offset ≤ limits.maxHeadBytes ∧
      parseChunkHeader (text.take offset) = some size ∧
      spent + extensionLength (text.take offset) ≤ limits.maxHeadBytes := by
  have hfront : ∀ {line after : Bytes} {size : Nat}, SizeLine line size → text = line ++ (crlf ++ after) →
      line.length ≤ limits.maxHeadBytes → spent + extensionLength line ≤ limits.maxHeadBytes →
      ∃ offset size, positionCrlf text = some offset ∧ offset ≤ limits.maxHeadBytes ∧
        parseChunkHeader (text.take offset) = some size ∧
        spent + extensionLength (text.take offset) ≤ limits.maxHeadBytes := by
    intro line after size hline htext hlimit hbudget
    have htake : text.take line.length = line := by rw [htext, List.take_left]
    refine ⟨line.length, size, (hline.split htext).mpr rfl, hlimit, ?_, ?_⟩
    · rw [htake]
      exact (parseChunkHeader_iff line size).mpr hline
    · rw [htake]
      exact hbudget
  obtain ⟨body, chunks, htext, _, hbody⟩ := h
  cases hbody with
  | chunk hline _ hlimit hbudget =>
    rw [List.append_assoc, List.append_assoc] at htext
    exact hfront hline htext hlimit hbudget
  | last hline hlimit hbudget =>
    rw [List.append_assoc, List.append_assoc] at htext
    exact hfront hline htext hlimit hbudget

/-- Behind the size line the message goes on with the chunk or the trailers. -/
theorem size_iff (hoffset : positionCrlf text = some offset)
    (hsize : parseChunkHeader (text.take offset) = some size) (hlimit : offset ≤ limits.maxHeadBytes)
    (hbudget : spent + extensionLength (text.take offset) ≤ limits.maxHeadBytes) :
    Completes hp limits client spent text items trailers rest (.size scanned) ↔
      Completes hp limits client (spent + extensionLength (text.take offset)) (text.drop (offset + 2))
        items trailers rest (afterSize size) := by
  obtain ⟨line, after, rfl, hlength⟩ := positionCrlf_some hoffset
  have htake : (line ++ (crlf ++ after)).take offset = line := by rw [← hlength, List.take_left]
  have hdrop : (line ++ (crlf ++ after)).drop (offset + 2) = after := by
    rw [← hlength, ← List.drop_drop, List.drop_left]
    rfl
  rw [htake] at hsize hbudget ⊢
  rw [hdrop]
  have hline := (parseChunkHeader_iff line size).mp hsize
  have hunique : ∀ {line' : Bytes} {size' : Nat} {after' : Bytes}, SizeLine line' size' →
      line ++ (crlf ++ after) = line' ++ (crlf ++ after') → line' = line ∧ size' = size ∧ after' = after := by
    intro line' size' after' hline' heq
    have hsame : line'.length = line.length := by
      rw [heq, positionCrlf_line after' hline'.no_cr] at hoffset
      rw [hlength]
      exact Option.some.inj hoffset
    obtain ⟨rfl, htail⟩ := List.append_inj heq hsame.symm
    have hparse := (parseChunkHeader_iff line size').mpr hline'
    rw [hsize] at hparse
    exact ⟨rfl, (Option.some.inj hparse).symm, (List.append_cancel_left htail).symm⟩
  constructor
  · rintro ⟨body, chunks, htext, rfl, hbody⟩
    cases hbody with
    | @chunk _ line' content body chunks _ hline' hcontent _ _ hrest =>
      have heq : line ++ (crlf ++ after) = line' ++ (crlf ++ (content ++ (crlf ++ (body ++ rest)))) := by
        rw [htext]
        simp
      obtain ⟨rfl, rfl, rfl⟩ := hunique hline' heq
      have hpos : ¬content.length = 0 := fun hzero => hcontent (List.length_eq_zero_iff.mp hzero)
      unfold afterSize
      rw [if_neg hpos]
      exact ⟨content, body, chunks, rfl, rfl, rfl, hrest⟩
    | @last _ line' trailer _ hline' _ _ htrailer =>
      have heq : line ++ (crlf ++ after) = line' ++ (crlf ++ (trailer ++ rest)) := by
        rw [htext]
        simp
      obtain ⟨rfl, rfl, rfl⟩ := hunique hline' heq
      exact ⟨trailer, rfl, rfl, htrailer⟩
  · intro h
    unfold afterSize at h
    by_cases hzero : size = 0
    · rw [if_pos hzero] at h
      obtain ⟨trailer, rfl, rfl, htrailer⟩ := h
      subst hzero
      exact ⟨line ++ (crlf ++ trailer), [], by simp, rfl, .last hline (hlength ▸ hlimit) hbudget htrailer⟩
    · rw [if_neg hzero] at h
      obtain ⟨content, body, chunks, rfl, rfl, rfl, hrest⟩ := h
      have hcontent : content ≠ [] := fun hnil => hzero (List.length_eq_zero_iff.mpr hnil)
      exact ⟨line ++ (crlf ++ (content ++ (crlf ++ body))), content :: chunks, by simp, rfl,
        .chunk hline hcontent (hlength ▸ hlimit) hbudget hrest⟩

/-- A chunk in two pieces. -/
theorem data_iff {piece : Bytes} (hpiece : piece ≠ []) (hle : piece.length ≤ remaining) :
    Completes hp limits client spent (piece ++ text) items trailers rest (.data remaining first) ↔
      ∃ later, items = Event.bytewise piece first (decide (piece.length = remaining)) ++ later ∧
        Completes hp limits client spent text later trailers rest
          (if piece.length = remaining then .dataEnd else .data (remaining - piece.length) false) := by
  by_cases hall : piece.length = remaining
  · rw [if_pos hall, decide_eq_true hall]
    constructor
    · rintro ⟨content, body, chunks, htext, hcontent, rfl, hbody⟩
      obtain ⟨rfl, rfl⟩ := List.append_inj htext (hall.trans hcontent.symm)
      exact ⟨_, rfl, body, chunks, rfl, rfl, hbody⟩
    · rintro ⟨later, rfl, body, chunks, rfl, rfl, hbody⟩
      exact ⟨piece, body, chunks, rfl, hall, rfl, hbody⟩
  · rw [if_neg hall, decide_eq_false hall]
    constructor
    · rintro ⟨content, body, chunks, htext, hcontent, rfl, hbody⟩
      obtain ⟨more, rfl⟩ : ∃ more, content = piece ++ more := by
        rcases List.append_eq_append_iff.mp htext with ⟨more, rfl, _⟩ | ⟨more, rfl, _⟩
        · exact ⟨more, rfl⟩
        · rw [List.length_append] at hall hle
          omega
      rw [List.append_assoc] at htext
      have htext := List.append_cancel_left htext
      rw [List.length_append] at hcontent
      have hmore : more ≠ [] := by
        rintro rfl
        exact hall hcontent
      rw [Event.bytewise_append hpiece hmore, List.append_assoc]
      exact ⟨_, rfl, more, body, chunks, htext, by omega, rfl, hbody⟩
    · rintro ⟨later, rfl, more, body, chunks, rfl, hmore, rfl, hbody⟩
      have hne : more ≠ [] := by
        rintro rfl
        rw [List.length_nil] at hmore
        omega
      refine ⟨piece ++ more, body, chunks, by simp, ?_, ?_, hbody⟩
      · rw [List.length_append]
        omega
      · rw [Event.bytewise_append hpiece hne, List.append_assoc]

/-- The CRLF after a chunk. -/
theorem dataEnd_iff : Completes hp limits client spent text items trailers rest .dataEnd ↔
    ∃ after, text = crlf ++ after ∧
      Completes hp limits client spent after items trailers rest (.size scanned) := by
  constructor
  · rintro ⟨body, chunks, rfl, rfl, hbody⟩
    exact ⟨_, rfl, body, chunks, rfl, rfl, hbody⟩
  · rintro ⟨after, rfl, body, chunks, rfl, rfl, hbody⟩
    exact ⟨body, chunks, rfl, rfl, hbody⟩

/-- The trailers of a text whose first empty line has come. -/
theorem trailers_iff {stop : Nat} (hends : EndsSection text false stop) :
    Completes hp limits client spent text items trailers rest .trailers ↔
      items = [] ∧ rest = text.drop stop ∧ stop ≤ limits.maxHeadBytes ∧
        ParsesTrailers hp limits client (text.take stop) trailers := by
  have hlength : (text.take stop).length = stop := by
    rw [List.length_take]
    exact Nat.min_eq_left hends.stop_le
  constructor
  · rintro ⟨trailer, rfl, rfl, hsection⟩
    have hstop := hends.unique (hsection.ends.lengthen rest)
    subst hstop
    rw [List.take_left, List.drop_left]
    exact ⟨rfl, rfl, hsection.limit, hsection.parses⟩
  · rintro ⟨rfl, rfl, hlimit, hparses⟩
    refine ⟨text.take stop, (List.take_append_drop stop text).symm, rfl, ?_, ?_, hparses⟩
    · have hsplit := hends
      rw [← List.take_append_drop stop text] at hsplit
      have hshort := hsplit.shorten (Nat.le_of_eq hlength.symm)
      rw [hlength]
      exact hshort
    · rw [hlength]
      exact hlimit

/-- What is read of a text that goes on to complete the message: the whole
section, if it has come, and no answer before that. -/
theorem trailers_read (hhp : hp.Stable) {more : Bytes}
    (h : Completes hp limits client spent (text ++ more) items trailers rest .trailers) :
    (∃ stop, EndsSection text false stop ∧ parseTrailers hp (text.take limits.maxHeadBytes)
      limits.maxHeaderCount client = .ok (some (stop, trailers))) ∨
    (more ≠ [] ∧ text.length ≤ limits.maxHeadBytes ∧ parseTrailers hp (text.take limits.maxHeadBytes)
      limits.maxHeaderCount client = .ok none) := by
  obtain ⟨trailer, htext, _, hsection⟩ := h
  rcases List.append_eq_append_iff.mp htext with ⟨later, rfl, hmore⟩ | ⟨after, rfl, _⟩
  · by_cases hlater : later = []
    · subst hlater
      rw [List.append_nil] at hsection
      refine Or.inl ⟨text.length, hsection.ends, ?_⟩
      rw [List.take_of_length_le hsection.limit, parseTrailers_iff hhp, List.take_length]
      exact ⟨hsection.ends, hsection.parses⟩
    · have hlimit := hsection.limit
      rw [List.length_append] at hlimit
      have hshort : text.length ≤ limits.maxHeadBytes := by omega
      refine Or.inr ⟨?_, hshort, ?_⟩
      · rw [hmore]
        simp [hlater]
      · rw [List.take_of_length_le hshort]
        exact hsection.waits hhp hlater
  · have hends := hsection.ends.lengthen after
    refine Or.inl ⟨trailer.length, hends, ?_⟩
    rw [List.take_append, List.take_of_length_le hsection.limit, parseTrailers_iff hhp, List.take_left]
    exact ⟨hsection.ends.lengthen _, hsection.parses⟩

end Chunk.Completes

/-! ## A connection in a chunked body -/

namespace Connection

variable {hp : Httparse} {c c' : Connection}

/-- The texts that complete the message the decoder is in. -/
def Expects (hp : Httparse) (c : Connection) (text : Bytes) (items : List Event) (trailers : Headers)
    (rest : Bytes) : Prop :=
  ∃ chunk, c.cycle.reader = .chunked chunk ∧
    chunk.Completes hp c.limits (c.role == .client) c.cycle.chunkExtensionBytes text items trailers rest

/-- What the decoder has noted about its buffer: where the size line cannot end
yet, that the chunk goes on, how far it has looked for the empty line. -/
def NotesOf (c : Connection) : Chunk → Prop
  | .size scanned =>
    ∀ more offset, positionCrlf (c.input.asSlice ++ more) = some offset → scanned ≤ offset
  | .data remaining _ => remaining ≠ 0
  | .dataEnd => True
  | .trailers =>
    ∃ seen, seen <+: c.input.asSlice ∧ SectionProgress.Watched false seen c.cycle.progress false

/-- More bytes do not undo what has been seen of the buffer. -/
theorem NotesOf.extend {chunk : Chunk} (h : c.NotesOf chunk) (data : Bytes) :
    NotesOf { c with input := c.input.extend data } chunk := by
  cases chunk with
  | size scanned =>
    intro more offset hoffset
    change positionCrlf ((c.input.extend data).asSlice ++ more) = some offset at hoffset
    rw [Buffer.asSlice_extend, List.append_assoc] at hoffset
    exact h (data ++ more) offset hoffset
  | data | dataEnd => exact h
  | trailers =>
    obtain ⟨seen, hseen, hwatched⟩ := h
    refine ⟨seen, ?_, hwatched⟩
    show seen <+: (c.input.extend data).asSlice
    rw [Buffer.asSlice_extend]
    exact hseen.trans (List.prefix_append _ _)

/-- Where the decoder is in a chunked body, its notes are right. -/
def NotesHold (c : Connection) : Prop := ∀ chunk, c.cycle.reader = .chunked chunk → c.NotesOf chunk

/-- The peer is in a chunked body. -/
structure Decoding (c : Connection) : Prop where
  peer : c.peerState = .sendBody
  notes : ∃ chunk, c.cycle.reader = .chunked chunk ∧ c.NotesOf chunk

theorem Decoding.notesHold (h : c.Decoding) : c.NotesHold := by
  obtain ⟨_, chunk, hreader, hnotes⟩ := h
  intro other hother
  cases hreader.symm.trans hother
  exact hnotes

/-- What completes the message for `c` completes it for `c'`, which has
delivered `items` more. -/
def Follows (hp : Httparse) (c c' : Connection) (items : List Event) : Prop :=
  ∀ more all trailers rest, c.Expects hp (c.input.asSlice ++ more) all trailers rest ↔
    ∃ later, all = items ++ later ∧ c'.Expects hp (c'.input.asSlice ++ more) later trailers rest

/-- The bytes that are there do not complete the message. -/
def Unfinished (hp : Httparse) (c : Connection) : Prop :=
  ∀ items trailers rest, ¬c.Expects hp c.input.asSlice items trailers rest

/-- No bytes that can still come complete the message. -/
def Hopeless (hp : Httparse) (c : Connection) : Prop :=
  ∀ more, (c.eof = true → more = []) →
    ∀ items trailers rest, ¬c.Expects hp (c.input.asSlice ++ more) items trailers rest

/-- One turn of the decoder in a chunked body. -/
inductive Decodes (hp : Httparse) (c : Connection) :
    Except RemoteProtocolError (Option Polled) → Connection → Prop
  | again {c' : Connection} (hafter : c'.Decoding) (hfollows : Follows hp c c' []) :
      Decodes hp c (.ok none) c'
  | waits {c' : Connection} (hafter : c'.Decoding) (hfollows : Follows hp c c' []) (heof : c.eof = false)
      (hunfinished : c.Unfinished hp) : Decodes hp c (.ok (some .needData)) c'
  | data {c' : Connection} {count : Nat} {chunkStart chunkEnd : Bool}
      (hcount : c'.input.asSlice.take count ≠ [])
      (hafter : Decoding { c' with input := c'.input.consume count })
      (hfollows : Follows hp c { c' with input := c'.input.consume count }
        (Event.bytewise (c'.input.asSlice.take count) chunkStart chunkEnd)) :
      Decodes hp c (.ok (some (.data count chunkStart chunkEnd))) c'
  | ends {c' : Connection} {trailers : Headers} (hthrough : through c'.peerState = true)
      (hends : ∀ more items trailers' rest,
        c.Expects hp (c.input.asSlice ++ more) items trailers' rest ↔
          items = [] ∧ trailers' = trailers ∧ rest = c'.input.asSlice ++ more) :
      Decodes hp c (.ok (some (.event (.endOfMessage trailers)))) c'
  | fails {c' : Connection} {error : RemoteProtocolError} (hhopeless : c.Hopeless hp) :
      Decodes hp c (.error error) c'

theorem Follows.refl (hp : Httparse) (c : Connection) : Follows hp c c [] := by
  intro more all trailers rest
  simp

theorem Follows.trans {c'' : Connection} {items items' : List Event} (h : Follows hp c c' items)
    (h' : Follows hp c' c'' items') : Follows hp c c'' (items ++ items') := by
  intro more all trailers rest
  rw [h more]
  constructor
  · rintro ⟨later, rfl, hlater⟩
    obtain ⟨last, rfl, hlast⟩ := (h' more _ _ _).mp hlater
    exact ⟨last, (List.append_assoc _ _ _).symm, hlast⟩
  · rintro ⟨last, rfl, hlast⟩
    exact ⟨items' ++ last, List.append_assoc _ _ _, (h' more _ _ _).mpr ⟨last, rfl, hlast⟩⟩

theorem Expects.completes {chunk : Chunk} {text : Bytes} {items : List Event} {trailers : Headers}
    {rest : Bytes} (h : c.Expects hp text items trailers rest) (hreader : c.cycle.reader = .chunked chunk) :
    chunk.Completes hp c.limits (c.role == .client) c.cycle.chunkExtensionBytes text items trailers rest := by
  obtain ⟨other, hother, hcompletes⟩ := h
  rw [hreader] at hother
  cases hother
  exact hcompletes

theorem dispatch_chunked {chunk : Chunk} (hpeer : c.peerState = .sendBody)
    (hreader : c.cycle.reader = .chunked chunk) : dispatch hp c = readChunked hp chunk c := by
  unfold dispatch
  rw [Call.get_bind]
  simp only [hpeer]
  unfold readBody
  rw [Call.get_bind]
  simp only [hreader]

/-- A turn that has not found what it needs waits, or fails on EOF. -/
theorem needDataOrEof_decodes {message : String} {r : Except RemoteProtocolError Polled}
    (hafter : c'.Decoding) (hfollows : Follows hp c c' []) (heof : c'.eof = c.eof)
    (hunfinished : c.Unfinished hp) {d : Connection} (h : needDataOrEof message c' = (r, d)) :
    Decodes hp c (r.map some) d := by
  unfold needDataOrEof at h
  rw [Call.get_bind, Call.failIf_bind] at h
  split at h
  next hclosed =>
    cases h
    refine .fails fun more hmore items trailers rest => ?_
    rw [hmore (heof.symm.trans hclosed), List.append_nil]
    exact hunfinished items trailers rest
  next hopen =>
    cases h
    refine .waits hafter hfollows ?_ hunfinished
    rw [← heof]
    exact Bool.eq_false_iff.mpr hopen

/-! ## The five positions -/

/-- The end of a size line that is in the buffer, from where the scan stands. -/
theorem Decoding.findCrlf_eq {scanned : Nat} (hnotes : c.NotesOf (.size scanned)) :
    findCrlf c.input.asSlice scanned = (positionCrlf c.input.asSlice).map (· + 2) :=
  H11r.findCrlf_eq fun offset hoffset => hnotes [] offset (by rw [List.append_nil]; exact hoffset)

theorem waitForSizeLine_decodes {scanned : Nat} (hpeer : c.peerState = .sendBody)
    (hreader : c.cycle.reader = .chunked (.size scanned)) (hnone : positionCrlf c.input.asSlice = none)
    {r : Except RemoteProtocolError Polled} (h : waitForSizeLine c = (r, c')) :
    Decodes hp c (r.map some) c' := by
  unfold waitForSizeLine at h
  rw [Call.get_bind, Call.failIf_bind] at h
  split at h
  next hlong =>
    cases h
    refine .fails fun more _ items trailers rest hexpects => ?_
    obtain ⟨offset, _, hoffset, hlimit, _, _⟩ := (hexpects.completes hreader).sizeLine
    have hle := incompleteLineLen_le hnone hoffset
    omega
  next hlong =>
    rw [Call.modify_bind] at h
    have hafter : (c.setReader (.chunked (.size (c.input.asSlice.length - 1)))).Decoding := by
      refine ⟨hpeer, _, rfl, ?_⟩
      intro more offset hoffset
      have hle := positionCrlf_later hnone hoffset
      omega
    have heof : (c.setReader (.chunked (.size (c.input.asSlice.length - 1)))).eof = c.eof := rfl
    refine needDataOrEof_decodes hafter ?_ heof ?_ h
    · intro more all trailers rest
      constructor
      · intro hexpects
        have hcompletes := hexpects.completes hreader
        exact ⟨all, rfl, _, rfl, hcompletes⟩
      · rintro ⟨later, rfl, hexpects⟩
        have hcompletes := hexpects.completes rfl
        exact ⟨_, hreader, hcompletes⟩
    · intro items trailers rest hexpects
      obtain ⟨offset, _, hoffset, _⟩ := (hexpects.completes hreader).sizeLine
      rw [hnone] at hoffset
      cases hoffset

theorem readSizeLine_decodes {scanned offset : Nat} (hpeer : c.peerState = .sendBody)
    (hreader : c.cycle.reader = .chunked (.size scanned)) (hnotes : c.NotesOf (.size scanned))
    (hoffset : positionCrlf c.input.asSlice = some offset)
    {r : Except RemoteProtocolError Unit} (h : readSizeLine (offset + 2) c = (r, c')) :
    Decodes hp c (r.map fun _ => none) c' := by
  have hlt := positionCrlf_lt hoffset
  have htake : ∀ more, (c.input.asSlice ++ more).take offset = c.input.asSlice.take offset := fun more =>
    List.take_append_of_le_length (by omega)
  -- A text that completes the message starts with this line.
  have hline : ∀ {more : Bytes} {items : List Event} {trailers : Headers} {rest : Bytes},
      c.Expects hp (c.input.asSlice ++ more) items trailers rest →
      offset ≤ c.limits.maxHeadBytes ∧ (parseChunkHeader (c.input.asSlice.take offset)).isSome = true ∧
        c.cycle.chunkExtensionBytes + extensionLength (c.input.asSlice.take offset) ≤
          c.limits.maxHeadBytes := by
    intro more items trailers rest hexpects
    obtain ⟨found, size, hfound, hlimit, hsize, hbudget⟩ := (hexpects.completes hreader).sizeLine
    rw [positionCrlf_append more hoffset] at hfound
    cases hfound
    rw [htake] at hsize hbudget
    exact ⟨hlimit, by rw [hsize]; rfl, hbudget⟩
  rcases r with error | u
  · refine .fails fun more _ items trailers rest hexpects => ?_
    obtain ⟨hlimit, hsize, hbudget⟩ := hline hexpects
    obtain ⟨size, hsize⟩ := Option.isSome_iff_exists.mp hsize
    unfold readSizeLine at h
    simp only [Call.get_bind, Call.failIf_bind, Call.ofExcept_bind, Call.modify_bind,
      Nat.add_sub_cancel, hsize, okOr] at h
    rw [if_neg (Nat.not_lt.mpr hlimit)] at h
    split at h
    next hover => exact absurd hbudget (Nat.not_le.mpr hover)
    next => split at h <;> cases h
  · have hfound : findCrlf c.input.asSlice scanned = some (offset + 2) := by
      rw [Decoding.findCrlf_eq hnotes, hoffset]
      rfl
    have hturn : Turn hp c (.ok none) c' :=
      readSizeLine_turn (Or.inr (Or.inr hpeer)) hreader hfound h
    cases hturn with
    | dataEnd _ hother => cases hreader.symm.trans hother
    | @sizeLine _ stop size spent _ hother hstop hsize hlimit hspent hbudget =>
      cases hreader.symm.trans hother
      rw [hfound] at hstop
      cases hstop
      rw [Nat.add_sub_cancel] at hsize hlimit hspent
      subst hspent
      have hinput : ∀ spent, (c.afterSizeLine (offset + 2) size spent).input.asSlice =
          c.input.asSlice.drop (offset + 2) := fun _ => Buffer.asSlice_consume _ _
      have hafter : (if size = 0 then Reader.chunked .trailers else .chunked (.data size true)) =
          .chunked (afterSize size) := by
        unfold afterSize
        split <;> rfl
      refine .again ⟨hpeer, _, hafter, ?_⟩ fun more all trailers rest => ?_
      · unfold afterSize
        by_cases hzero : size = 0
        · rw [if_pos hzero]
          refine ⟨[], List.nil_prefix, ?_⟩
          show SectionProgress.Watched false [] (if size = 0 then .new else c.cycle.progress) false
          rw [if_pos hzero]
          exact .fresh
        · rw [if_neg hzero]
          exact hzero
      · have hiff : (Chunk.size scanned).Completes hp c.limits (c.role == .client) c.cycle.chunkExtensionBytes
            (c.input.asSlice ++ more) all trailers rest ↔ (afterSize size).Completes hp c.limits
            (c.role == .client) (c.cycle.chunkExtensionBytes +
              extensionLength ((c.input.asSlice ++ more).take offset))
            ((c.input.asSlice ++ more).drop (offset + 2)) all trailers rest :=
          Chunk.Completes.size_iff (positionCrlf_append more hoffset) ((htake more).symm ▸ hsize) hlimit
            ((htake more).symm ▸ hbudget)
        rw [htake, List.drop_append_of_le_length hlt] at hiff
        change _ ↔ ∃ later, all = later ∧ _
        rw [hinput]
        constructor
        · intro hexpects
          exact ⟨all, rfl, _, hafter, hiff.mp (hexpects.completes hreader)⟩
        · rintro ⟨later, rfl, hexpects⟩
          exact ⟨_, hreader, hiff.mpr (hexpects.completes hafter)⟩

theorem readChunkEnd_decodes (hpeer : c.peerState = .sendBody) (hreader : c.cycle.reader = .chunked .dataEnd)
    {r : Except RemoteProtocolError (Option Polled)} (h : readChunked hp .dataEnd c = (r, c')) :
    Decodes hp c r c' := by
  have hstarts : ∀ {more : Bytes} {items : List Event} {trailers : Headers} {rest : Bytes},
      c.Expects hp (c.input.asSlice ++ more) items trailers rest →
      ∃ after, c.input.asSlice ++ more = crlf ++ after := by
    intro more items trailers rest hexpects
    obtain ⟨body, chunks, htext, _, _⟩ := hexpects.completes hreader
    exact ⟨_, htext⟩
  unfold readChunked at h
  rw [Call.get_bind] at h
  dsimp only at h
  split at h
  next hshort =>
    obtain ⟨r0, h0, rfl⟩ := report_cases h
    refine needDataOrEof_decodes ⟨hpeer, _, hreader, trivial⟩ (.refl hp c) rfl ?_ h0
    intro items trailers rest hexpects
    rw [← List.append_nil c.input.asSlice] at hexpects
    obtain ⟨after, hafter⟩ := hstarts hexpects
    have hlength := congrArg List.length hafter
    rw [List.append_nil, List.length_append] at hlength
    change _ = 2 + _ at hlength
    omega
  next hlong =>
    have htake : ∀ more, (c.input.asSlice ++ more).take 2 = c.input.asSlice.take 2 := fun more =>
      List.take_append_of_le_length (by omega)
    simp only [Call.failIf_bind, Call.modify_bind] at h
    split at h
    next hother =>
      cases h
      refine .fails fun more _ items trailers rest hexpects => hother ?_
      obtain ⟨after, hafter⟩ := hstarts hexpects
      rw [← htake more, hafter]
      rfl
    next hcrlf =>
      have hcrlf := Decidable.not_not.mp hcrlf
      cases h
      refine .again ⟨hpeer, .size 0, rfl, fun _ _ _ => Nat.zero_le _⟩ fun more all trailers rest => ?_
      have hinput : (c.input.consume 2).asSlice = c.input.asSlice.drop 2 := Buffer.asSlice_consume _ _
      have hsplit : c.input.asSlice ++ more = crlf ++ (c.input.asSlice.drop 2 ++ more) := by
        rw [← List.append_assoc, ← hcrlf, List.take_append_drop]
      have hiff : Chunk.dataEnd.Completes hp c.limits (c.role == .client) c.cycle.chunkExtensionBytes
          (c.input.asSlice ++ more) all trailers rest ↔ ∃ after, c.input.asSlice ++ more = crlf ++ after ∧
          (Chunk.size 0).Completes hp c.limits (c.role == .client) c.cycle.chunkExtensionBytes after all
            trailers rest := Chunk.Completes.dataEnd_iff
      change _ ↔ ∃ later, all = later ∧ Expects hp _ ((c.input.consume 2).asSlice ++ more) later trailers rest
      rw [hinput]
      constructor
      · intro hexpects
        obtain ⟨after, hafter, hcompletes⟩ := hiff.mp (hexpects.completes hreader)
        rw [hsplit] at hafter
        rw [List.append_cancel_left hafter]
        exact ⟨all, rfl, _, rfl, hcompletes⟩
      · rintro ⟨later, rfl, hexpects⟩
        have hcompletes := hexpects.completes rfl
        exact ⟨_, hreader, hiff.mpr ⟨_, hsplit, hcompletes⟩⟩

theorem readChunkData_decodes {remaining : Nat} {first : Bool} (hpeer : c.peerState = .sendBody)
    (hreader : c.cycle.reader = .chunked (.data remaining first)) (hremaining : remaining ≠ 0)
    {r : Except RemoteProtocolError (Option Polled)} (h : dispatch hp c = (r, c')) :
    Decodes hp c r c' := by
  by_cases hinput : c.input.asSlice = []
  · rw [dispatch_chunked hpeer hreader] at h
    unfold readChunked at h
    rw [Call.get_bind] at h
    obtain ⟨r0, h0, rfl⟩ := report_cases h
    unfold readPayload at h0
    rw [Call.get_bind, if_pos hinput] at h0
    refine needDataOrEof_decodes ⟨hpeer, _, hreader, hremaining⟩ (.refl hp c) rfl ?_ h0
    intro items trailers rest hexpects
    obtain ⟨content, body, chunks, htext, hcontent, _⟩ := hexpects.completes hreader
    rw [hinput] at htext
    have hnil := (List.append_eq_nil_iff.mp htext.symm).1
    rw [hnil] at hcontent
    exact hremaining hcontent.symm
  · have hinside : c.Inside := ⟨hpeer, by
      rw [hreader]
      exact Nat.pos_of_ne_zero hremaining⟩
    obtain ⟨count, hportion, hcount, hroom, hdispatch⟩ := dispatch_inside hp hinside hinput
    rw [hdispatch] at h
    cases h
    have hle : count ≤ c.input.asSlice.length := by
      rw [hportion]
      exact Reader.portion_le _ _
    have hlength : (c.input.asSlice.take count).length = count := by
      rw [List.length_take]
      exact Nat.min_eq_left hle
    have hpiece : c.input.asSlice.take count ≠ [] := by
      intro hnil
      rw [hnil] at hlength
      exact hcount hlength.symm
    rw [hreader] at hroom
    have hfits : (c.input.asSlice.take count).length ≤ remaining := by
      rw [hlength]
      exact hroom
    have hafter : (c.ahead count (c.input.consume count) c.held).cycle.reader =
        .chunked (if count = remaining then .dataEnd else .data (remaining - count) false) := by
      show c.cycle.reader.after count = _
      rw [hreader, Reader.after_data first hcount]
    refine .data hpiece ⟨hpeer, _, hafter, ?_⟩ fun more all trailers rest => ?_
    · split
      · trivial
      · show remaining - count ≠ 0
        have hroom : count ≤ remaining := hroom
        omega
    · have hiff : (Chunk.data remaining first).Completes hp c.limits (c.role == .client)
          c.cycle.chunkExtensionBytes (c.input.asSlice.take count ++ (c.input.asSlice.drop count ++ more)) all
          trailers rest ↔ _ := Chunk.Completes.data_iff hpiece hfits
      rw [hlength, ← List.append_assoc, List.take_append_drop] at hiff
      have hdrop : (c.input.consume count).asSlice = c.input.asSlice.drop count := Buffer.asSlice_consume _ _
      change _ ↔ ∃ later, all = Event.bytewise (c.input.asSlice.take count) c.cycle.reader.startsChunk
        (c.cycle.reader.endsChunk count) ++ later ∧
          Expects hp _ ((c.input.consume count).asSlice ++ more) later trailers rest
      rw [hdrop, hreader]
      constructor
      · intro hexpects
        obtain ⟨later, hall, hcompletes⟩ := hiff.mp (hexpects.completes hreader)
        exact ⟨later, hall, _, hafter, hcompletes⟩
      · rintro ⟨later, hall, hexpects⟩
        exact ⟨_, hreader, hiff.mpr ⟨later, hall, hexpects.completes hafter⟩⟩

/-- What has been noted about the section at the front of the buffer is right,
and its empty line has not been seen. -/
def SectionNotes (skip : Bool) (c : Connection) : Prop :=
  ∃ seen, seen <+: c.input.asSlice ∧ SectionProgress.Watched skip seen c.cycle.progress false

/-- A look at a section: one that does not call for the parser has seen the whole
buffer, and its notes are right as long as there is no empty line. -/
theorem sectionDue_watched {skip : Bool} (hnotes : c.SectionNotes skip) : ∃ due progress,
    sectionDue skip c = (.ok due, c.rescan progress c.cycle.reader c.cycle.chunkExtensionBytes) ∧
    (due = false → c.input.asSlice.length ≤ c.limits.maxHeadBytes ∧
      ∀ stop, ¬EndsSection c.input.asSlice skip stop) ∧
    ((∀ stop, ¬EndsSection c.input.asSlice skip stop) →
      (c.rescan progress c.cycle.reader c.cycle.chunkExtensionBytes).SectionNotes skip) := by
  unfold sectionDue
  split
  next => exact ⟨true, c.cycle.progress, rfl, nofun, fun _ => hnotes⟩
  next hlook =>
    obtain ⟨seen, ⟨more, hmore⟩, hwatched⟩ := hnotes
    have hdue : ∀ {stop}, EndsSection c.input.asSlice skip stop →
        (c.cycle.progress.due c.input.asSlice skip).1 = true := by
      intro stop hends
      rw [← hmore] at hends ⊢
      exact hwatched.due_eq hends
    refine ⟨(c.cycle.progress.due c.input.asSlice skip).1, (c.cycle.progress.due c.input.asSlice skip).2,
      rfl, fun hnot => ⟨by omega, fun stop hends => ?_⟩, fun hno => ?_⟩
    · rw [hdue hends] at hnot
      cases hnot
    · have hpoll : (c.cycle.progress.poll c.input.asSlice skip).1 = none := by
        cases hfound : (c.cycle.progress.poll c.input.asSlice skip).1 with
        | none => rfl
        | some stop =>
          rw [← hmore, hwatched.poll_eq, hmore] at hfound
          exact absurd ((emptyLineEnd_iff _ _ _).mp hfound) (hno stop)
      have hlooked := hwatched.looked more
      have hfinds : c.cycle.progress.finds c.input.asSlice skip = false := by
        unfold SectionProgress.finds
        rw [hpoll]
        exact Bool.and_false _
      rw [hmore, hfinds] at hlooked
      exact ⟨c.input.asSlice, List.prefix_refl _, hlooked⟩

/-- A trailer section without an empty line, within the limit. -/
theorem waitForTrailers_decodes (hhp : hp.Stable) {progress : SectionProgress}
    (hpeer : c.peerState = .sendBody) (hreader : c.cycle.reader = .chunked .trailers)
    (hno : ∀ stop, ¬EndsSection c.input.asSlice false stop)
    (hnotes : (c.rescan progress c.cycle.reader c.cycle.chunkExtensionBytes).NotesOf .trailers)
    (hlimit : c.input.asSlice.length ≤ c.limits.maxHeadBytes) {r : Except RemoteProtocolError Polled}
    (h : waitForSection false (c.rescan progress c.cycle.reader c.cycle.chunkExtensionBytes) = (r, c')) :
    Decodes hp c (r.map some) c' := by
  unfold waitForSection at h
  rw [Call.get_bind] at h
  have hlimit' : (c.rescan progress c.cycle.reader c.cycle.chunkExtensionBytes).input.asSlice.length ≤
      (c.rescan progress c.cycle.reader c.cycle.chunkExtensionBytes).limits.maxHeadBytes := hlimit
  rw [if_pos hlimit'] at h
  have hafter : (c.rescan progress c.cycle.reader c.cycle.chunkExtensionBytes).Decoding :=
    ⟨hpeer, .trailers, hreader, hnotes⟩
  have heof : (c.rescan progress c.cycle.reader c.cycle.chunkExtensionBytes).eof = c.eof := rfl
  refine needDataOrEof_decodes hafter ?_ heof ?_ h
  · exact Follows.refl hp c
  · intro items trailers rest hexpects
    rw [← List.append_nil c.input.asSlice] at hexpects
    rcases (hexpects.completes hreader).trailers_read hhp with ⟨stop, hends, _⟩ | ⟨hmore, _⟩
    · exact hno stop hends
    · exact hmore rfl

theorem readTrailers_decodes (hhp : hp.Stable) (hpeer : c.peerState = .sendBody)
    (hreader : c.cycle.reader = .chunked .trailers) (hnotes : c.NotesOf .trailers)
    {r : Except RemoteProtocolError Polled} (h : readTrailers hp c = (r, c')) :
    Decodes hp c (r.map some) c' := by
  unfold readTrailers at h
  obtain ⟨due, progress, hdue, hlooked, hafter⟩ := sectionDue_watched hnotes
  rw [Call.bind_of_ok hdue, Call.get_bind] at h
  cases due with
  | false =>
    obtain ⟨hlimit, hno⟩ := hlooked rfl
    exact waitForTrailers_decodes hhp hpeer hreader hno (hafter hno) hlimit h
  | true =>
    rw [if_neg (by decide), Call.ofExcept_bind] at h
    split at h
    next parsed hparse =>
      change parseTrailers hp (c.input.asSlice.take c.limits.maxHeadBytes) c.limits.maxHeaderCount
        (c.role == .client) = .ok parsed at hparse
      cases parsed with
      | none =>
        by_cases hlimit : c.input.asSlice.length ≤ c.limits.maxHeadBytes
        · have hno : ∀ stop, ¬EndsSection c.input.asSlice false stop := by
            intro stop hends
            rw [List.take_of_length_le hlimit] at hparse
            exact parseTrailers_answers _ _ (fun _ slots => (hhp.headers slots).waits) hends hparse
          exact waitForTrailers_decodes hhp hpeer hreader hno (hafter hno) hlimit h
        · -- The section is too long, and its end has not been seen.
          have hhopeless : c.Hopeless hp := by
            intro more _ items trailers rest hexpects
            rcases (hexpects.completes hreader).trailers_read hhp with ⟨stop, _, hread⟩ | ⟨_, hshort, _⟩
            · rw [hparse] at hread
              cases hread
            · exact hlimit hshort
          dsimp only at h
          unfold waitForSection at h
          rw [Call.get_bind] at h
          have hlong : ¬(c.rescan progress c.cycle.reader c.cycle.chunkExtensionBytes).input.asSlice.length ≤
              (c.rescan progress c.cycle.reader c.cycle.chunkExtensionBytes).limits.maxHeadBytes := hlimit
          rw [if_neg hlong, if_pos (by decide)] at h
          cases h
          exact .fails hhopeless
      | some parsed =>
        obtain ⟨stop, trailers⟩ := parsed
        obtain ⟨hends, hparses⟩ := (parseTrailers_iff hhp).mp hparse
        have hlimit : stop ≤ c.limits.maxHeadBytes := by
          have hle := hends.stop_le
          rw [List.length_take] at hle
          omega
        rw [List.take_take, Nat.min_eq_left hlimit] at hparses
        have hwhole : ∀ more, EndsSection (c.input.asSlice ++ more) false stop := by
          intro more
          have hbuffer := hends.lengthen (c.input.asSlice.drop c.limits.maxHeadBytes)
          rw [List.take_append_drop] at hbuffer
          exact hbuffer.lengthen more
        have hle : stop ≤ c.input.asSlice.length := by
          have hbuffer := (hwhole []).stop_le
          rw [List.append_nil] at hbuffer
          exact hbuffer
        dsimp only at h
        rw [Call.modify_bind] at h
        have hsome := (processEvent_insideBody _ _ hpeer).2
        rcases finishPeer_cases h with ⟨state, hstate, rfl, rfl⟩ | ⟨error, hnone, _⟩
        · refine .ends (processEvent_endOfMessage _ _ _ hstate) fun more items trailers' rest => ?_
          have hiff : Chunk.trailers.Completes hp c.limits (c.role == .client) c.cycle.chunkExtensionBytes
              (c.input.asSlice ++ more) items trailers' rest ↔ _ :=
            Chunk.Completes.trailers_iff (hwhole more)
          have hrest : (finishedPeer state ((c.rescan progress c.cycle.reader
              c.cycle.chunkExtensionBytes).consumeSection stop)).input.asSlice =
              c.input.asSlice.drop stop := Buffer.asSlice_consume _ _
          rw [List.take_append_of_le_length hle, List.drop_append_of_le_length hle] at hiff
          rw [hrest]
          constructor
          · intro hexpects
            obtain ⟨rfl, rfl, _, hother⟩ := hiff.mp (hexpects.completes hreader)
            exact ⟨rfl, hother.unique hparses, rfl⟩
          · rintro ⟨rfl, rfl, rfl⟩
            exact ⟨_, hreader, hiff.mpr ⟨rfl, rfl, hlimit, hparses⟩⟩
        · rw [show c.state.processEvent c.role.peer .endOfMessage = none from hnone] at hsome
          cases hsome
    next error hparse =>
      change parseTrailers hp (c.input.asSlice.take c.limits.maxHeadBytes) c.limits.maxHeaderCount
        (c.role == .client) = .error error at hparse
      cases h
      refine .fails fun more _ items trailers rest hexpects => ?_
      rcases (hexpects.completes hreader).trailers_read hhp with ⟨stop, _, hread⟩ | ⟨_, _, hread⟩
      · rw [hparse] at hread
        cases hread
      · rw [hparse] at hread
        cases hread

/-- One turn of the decoder, whatever its position. -/
theorem dispatch_decodes (hhp : hp.Stable) (h : c.Decoding)
    {r : Except RemoteProtocolError (Option Polled)} (hturn : dispatch hp c = (r, c')) :
    Decodes hp c r c' := by
  obtain ⟨hpeer, chunk, hreader, hnotes⟩ := h
  have hchunk := hturn
  rw [dispatch_chunked hpeer hreader] at hchunk
  cases chunk with
  | size scanned =>
    unfold readChunked at hchunk
    rw [Call.get_bind] at hchunk
    dsimp only at hchunk
    rw [Decoding.findCrlf_eq hnotes] at hchunk
    cases hoffset : positionCrlf c.input.asSlice with
    | none =>
      rw [hoffset] at hchunk
      obtain ⟨r0, hwait, rfl⟩ := report_cases hchunk
      exact waitForSizeLine_decodes hpeer hreader hoffset hwait
    | some offset =>
      rw [hoffset] at hchunk
      change (readSizeLine (offset + 2) >>= fun _ => pure none) c = (r, c') at hchunk
      rcases hline : readSizeLine (offset + 2) c with ⟨error | u, c1⟩
      · rw [Call.bind_of_error hline] at hchunk
        cases hchunk
        exact readSizeLine_decodes hpeer hreader hnotes hoffset hline
      · rw [Call.bind_of_ok hline] at hchunk
        cases hchunk
        exact readSizeLine_decodes hpeer hreader hnotes hoffset hline
  | data remaining first => exact readChunkData_decodes hpeer hreader hnotes hturn
  | dataEnd => exact readChunkEnd_decodes hpeer hreader hchunk
  | trailers =>
    unfold readChunked at hchunk
    rw [Call.get_bind] at hchunk
    obtain ⟨r0, hread, rfl⟩ := report_cases hchunk
    exact readTrailers_decodes hhp hpeer hreader hnotes hread

/-! ## One poll -/

/-- A poll in a chunked body. -/
inductive Polls (hp : Httparse) (c : Connection) : Except RemoteProtocolError NextEvent → Connection → Prop
  | waits {c' : Connection} (hafter : c'.Decoding) (hfollows : Follows hp c c' []) (heof : c.eof = false)
      (hunfinished : c.Unfinished hp) : Polls hp c (.ok .needData) c'
  | data {c' : Connection} {bytes : Bytes} {chunkStart chunkEnd : Bool} (hbytes : bytes ≠ [])
      (hafter : c'.Decoding) (hfollows : Follows hp c c' (Event.bytewise bytes chunkStart chunkEnd)) :
      Polls hp c (.ok (.event (.data bytes chunkStart chunkEnd))) c'
  | ends {c' : Connection} {trailers : Headers} (hthrough : through c'.peerState = true)
      (hends : ∀ more items trailers' rest,
        c.Expects hp (c.input.asSlice ++ more) items trailers' rest ↔
          items = [] ∧ trailers' = trailers ∧ rest = c'.input.asSlice ++ more) :
      Polls hp c (.ok (.event (.endOfMessage trailers))) c'
  | fails {c' : Connection} {error : RemoteProtocolError} (hfailed : c'.peerState = .error)
      (hhopeless : c.Hopeless hp) : Polls hp c (.error error) c'

/-- The turn that ends a poll, in a connection that has read on. -/
theorem nextEventInner_decodes (hhp : hp.Stable) {r : Except RemoteProtocolError Polled}
    (h : c.Decoding) (hpoll : nextEventInner hp c = (r, c')) : ∃ c1 : Connection, SameFrame c c1 ∧
      Follows hp c c1 [] ∧ Decodes hp c1 (r.map some) c' := by
  induction c using nextEventInner.induct hp with
  | case1 c polled c1 hd =>
    rw [nextEventInner_reports hd] at hpoll
    cases hpoll
    exact ⟨c, .refl c, .refl hp c, dispatch_decodes hhp h hd⟩
  | case2 c c1 hd ih =>
    rw [nextEventInner_again hd] at hpoll
    cases dispatch_decodes hhp h hd with
    | again hafter hfollows =>
      obtain ⟨c2, hframe, hmore, hlast⟩ := ih hafter hpoll
      exact ⟨c2, (dispatch_turn hd).frame.trans hframe, hfollows.trans hmore, hlast⟩
  | case3 c error c1 hd =>
    rw [nextEventInner_fails hd] at hpoll
    cases hpoll
    exact ⟨c, .refl c, .refl hp c, dispatch_decodes hhp h hd⟩

/-- What a connection that has read on cannot complete, it could not before. -/
theorem Follows.unfinished (h : Follows hp c c' []) (hc : c'.Unfinished hp) : c.Unfinished hp := by
  intro items trailers rest hexpects
  have hnow := (h [] items trailers rest).mp (by rw [List.append_nil]; exact hexpects)
  obtain ⟨later, _, hlater⟩ := hnow
  rw [List.append_nil] at hlater
  exact hc later trailers rest hlater

theorem Follows.hopeless (h : Follows hp c c' []) (heof : c'.eof = c.eof) (hc : c'.Hopeless hp) :
    c.Hopeless hp := by
  intro more hmore items trailers rest hexpects
  obtain ⟨later, _, hlater⟩ := (h more items trailers rest).mp hexpects
  exact hc more (fun hclosed => hmore (heof.symm.trans hclosed)) later trailers rest hlater

theorem nextEvent_polls (hhp : hp.Stable) (h : c.Decoding) {r : Except RemoteProtocolError NextEvent}
    (hpoll : nextEvent hp c = (r, c')) : Polls hp c r c' := by
  unfold nextEvent at hpoll
  rcases hinner : nextEventInner hp c with ⟨error | polled, c2⟩
  · obtain ⟨c1, hframe, hfollows, hlast⟩ := nextEventInner_decodes hhp h hinner
    rw [hinner] at hpoll
    cases hpoll
    cases hlast with
    | fails hhopeless =>
      exact .fails (ConnectionState.processError_state _ _) (hfollows.hopeless hframe.eof hhopeless)
  · obtain ⟨c1, hframe, hfollows, hlast⟩ := nextEventInner_decodes hhp h hinner
    rw [hinner] at hpoll
    cases hlast with
    | waits hafter hmore heof hunfinished =>
      cases hpoll
      exact .waits hafter (hfollows.trans hmore) (hframe.eof.symm.trans heof) (hfollows.unfinished hunfinished)
    | data hcount hafter hmore =>
      cases hpoll
      exact .data hcount hafter (hfollows.trans hmore)
    | @ends _ trailers hthrough hends =>
      cases hpoll
      refine .ends hthrough fun more items trailers' rest => ?_
      rw [hfollows more items trailers' rest]
      constructor
      · rintro ⟨later, hitems, hlater⟩
        rw [hitems]
        exact (hends more later trailers' rest).mp hlater
      · intro hended
        exact ⟨items, rfl, (hends more items trailers' rest).mpr hended⟩

end Connection

end H11r
