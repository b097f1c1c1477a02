import H11r.Wire.Fields
import H11r.Wire.Httparse

/-!
# Start-line and field-section parsing and serialization

`wire/head.rs`: what is made of a head that `httparse` has parsed, and the
heads the connection writes itself.
-/

namespace H11r

/-! ## Obsolete folding -/

/-- Whether a line break in front of `rest` is folded. -/
def startsWithOws (rest : Bytes) : Bool := rest.head?.any isOws

/-- The loop of `normalize_obs_fold`: `normalized` is the output so far. -/
def unfoldLoop (normalized : Bytes) (data : Bytes) : Bytes :=
  match data with
  | [] => normalized
  | byte :: rest =>
    if byte = lf ∧ startsWithOws rest then
      let kept := if normalized.getLast? = some cr then normalized.dropLast else normalized
      unfoldLoop (kept ++ [sp]) (rest.dropWhile isOws)
    else unfoldLoop (normalized ++ [byte]) rest
  termination_by data.length
  decreasing_by
    · have h := (List.dropWhile_sublist (p := isOws) (l := rest)).length_le
      simp only [List.length_cons]
      omega
    · simp

/-- Whether a line break is followed by whitespace anywhere in `data`. -/
def hasFold : Bytes → Bool
  | [] => false
  | byte :: rest => (byte == lf && startsWithOws rest) || hasFold rest

def normalizeObsFold (data : Bytes) : Bytes := if hasFold data then unfoldLoop [] data else data

/-! ## Copying parsed fields -/

/-- The end of the last value, or `start` when there is none. -/
def sectionEnd (start : Nat) (spans : List (Span × Span)) : Nat :=
  spans.foldl (fun stop field => max stop field.2.stop) start

theorem le_sectionEnd (spans : List (Span × Span)) (start : Nat) : start ≤ sectionEnd start spans := by
  induction spans generalizing start with
  | nil => exact Nat.le_refl _
  | cons field spans ih => exact Nat.le_trans (Nat.le_max_left _ _) (ih _)

theorem stop_le_sectionEnd {spans : List (Span × Span)} {field : Span × Span} (start : Nat)
    (hmem : field ∈ spans) : field.2.stop ≤ sectionEnd start spans := by
  induction spans generalizing start with
  | nil => exact absurd hmem (by simp)
  | cons first spans ih =>
    rcases List.mem_cons.mp hmem with rfl | hin
    · exact Nat.le_trans (Nat.le_max_right _ _) (le_sectionEnd spans _)
    · exact ih _ hin

theorem sectionEnd_le {spans : List (Span × Span)} {start bound : Nat} (hstart : start ≤ bound)
    (h : ∀ field ∈ spans, field.2.stop ≤ bound) : sectionEnd start spans ≤ bound := by
  induction spans generalizing start with
  | nil => exact hstart
  | cons field spans ih =>
    exact ih (Nat.max_le.mpr ⟨hstart, h field (List.mem_cons_self ..)⟩)
      fun other hmem => h other (List.mem_cons_of_mem _ hmem)

/-- The first name's offset, where the copied bytes start. -/
def sectionStart (spans : List (Span × Span)) : Nat :=
  match spans with
  | [] => 0
  | first :: _ => first.1.start

theorem sectionStart_le {stop : Nat} (parsed : ParsedFields stop) {field : Span × Span}
    (hmem : field ∈ parsed.spans) : sectionStart parsed.spans ≤ field.1.start := by
  obtain ⟨spans, hrange, hordered⟩ := parsed
  cases spans with
  | nil => exact absurd hmem (by simp)
  | cons first spans =>
    rcases List.mem_cons.mp hmem with rfl | hin
    · exact Nat.le_refl _
    · have hfirst := hrange first (List.mem_cons_self ..)
      have hlater := (List.pairwise_cons.mp hordered).1 field hin
      show first.1.start ≤ field.1.start
      omega

/-- The range relative to `offset`. -/
def Span.shift (span : Span) (offset : Nat) : Span := ⟨span.start - offset, span.stop - offset⟩

/-- Copies the bytes spanning the fields in one piece. -/
def copySection {stop : Nat} (section_ : Bytes) (parsed : ParsedFields stop)
    (hstop : stop ≤ section_.length) : Headers :=
  Headers.fromSection
    (Span.slice ⟨sectionStart parsed.spans, sectionEnd (sectionStart parsed.spans) parsed.spans⟩
      section_)
    (parsed.spans.map fun field =>
      (field.1.shift (sectionStart parsed.spans), field.2.shift (sectionStart parsed.spans)))
    (by
      intro field hmem
      obtain ⟨source, hsource, rfl⟩ := List.mem_map.mp hmem
      have hrange := parsed.inRange source hsource
      have hstart := sectionStart_le parsed hsource
      have hend := stop_le_sectionEnd (sectionStart parsed.spans) hsource
      have hle : sectionEnd (sectionStart parsed.spans) parsed.spans ≤ section_.length :=
        Nat.le_trans (sectionEnd_le (by omega) fun other hother => (parsed.inRange other hother).2.2.2)
          hstop
      simp only [Span.slice, Span.shift, Span.InRange, List.length_take, List.length_drop]
      omega)

/-- The name and value bytes of the parsed fields. -/
def fieldSlices {stop : Nat} (section_ : Bytes) (parsed : ParsedFields stop) :
    List (Bytes × Bytes) :=
  parsed.spans.map fun field => (field.1.slice section_, field.2.slice section_)

/-- Copies parsed fields, unfolding their values when asked to and needed. -/
def copyHeaders {stop : Nat} (section_ : Bytes) (parsed : ParsedFields stop)
    (hstop : stop ≤ section_.length) (unfold_ : Bool) : Headers :=
  if unfold_ ∧ (fieldSlices section_ parsed).any (fun field => field.2.contains lf) then
    (fieldSlices section_ parsed).foldl
      (fun copied field => copied.push field.1 (normalizeObsFold field.2)) Headers.new
  else copySection section_ parsed hstop

/-! ## Heads -/

/-- `httparse` accepts only minor versions 0 and 1. -/
def version (minor : Nat) : Version := if minor = 0 then .http10 else .http11

/-- Parses a request head from a prefix already capped at the head byte limit:
the end of the head and the request, or `none` when more bytes are needed. -/
def parseRequestHead (hp : Httparse) (head : Bytes) (maxHeaders : Nat) :
    Except RemoteProtocolError (Option (Nat × Request)) :=
  match hp.parseRequest head maxHeaders with
  | .error error =>
    .error (remoteError ("invalid request head: " ++ error.text)
      (some (if error.tooManyHeaders then 431 else 400)))
  | .ok .incomplete => .ok none
  | .ok (.complete parsed) =>
    .ok (some (parsed.stop,
      { method := parsed.method
        target := parsed.path
        headers := copyHeaders head parsed.fields parsed.stop_le false
        httpVersion := version parsed.minor }))

/-- A line without the CR that ends it. -/
def stripCr (line : Bytes) : Bytes := if line.getLast? = some cr then line.dropLast else line

/-- The first non-empty line, with its offset. -/
def findLine (offset : Nat) : List Bytes → Nat × Bytes
  | [] => (0, [])
  | line :: lines =>
    if (stripCr line).isEmpty then findLine (offset + line.length + 1) lines
    else (offset, stripCr line)

/-- `httparse` skips empty lines before the status line, and so does this. -/
def statusLine (head : Bytes) : Nat × Bytes := findLine 0 (head.splitOnP (· == lf))

/-- The reason phrase, recovered from its place in the status line. -/
def reasonPhrase (lenient : Bool) (line : Bytes) : Bytes :=
  if lenient then
    let spaces := fun start => start + countWhile (· == sp) (line.drop start)
    line.drop (spaces (spaces 8 + 3))
  else line.drop 13

/-- The bytes that may lie between two parsed fields. -/
def isBlank (gap : Bytes) : Bool :=
  gap.all fun byte => byte == sp || byte == ht || byte == cr || byte == lf

/-- Whether something other than blanks lies between the fields from `start`
on, or between the last of them and `stop`. -/
def gapAfter (head : Bytes) (stop : Nat) : Nat → List (Span × Span) → Bool
  | start, [] => !isBlank (Span.slice ⟨start, stop⟩ head)
  | start, field :: fields =>
    !isBlank (Span.slice ⟨start, field.1.start⟩ head) || gapAfter head stop field.2.stop fields

/-- Whether a lenient parse dropped a field line. -/
def droppedLines (head : Bytes) (line : Nat × Bytes) (stop : Nat) (spans : List (Span × Span)) :
    Bool :=
  gapAfter head stop (line.1 + line.2.length) spans

/-- Parses a response head from a prefix already capped at the head byte limit:
its end, the response, and whether a lenient parse dropped a line. -/
def parseResponseHead (hp : Httparse) (head : Bytes) (maxHeaders : Nat) (lenient : Bool) :
    Except RemoteProtocolError (Option (Nat × Response × Bool)) :=
  match hp.parseResponse lenient head maxHeaders with
  | .error error => .error (remoteError ("invalid response head: " ++ error.text) none)
  | .ok .incomplete => .ok none
  | .ok (.complete parsed) =>
    match StatusCode.fromU16 parsed.code with
    | none => .error (remoteError "invalid response status" none)
    | some status =>
      let line := statusLine (head.take parsed.stop)
      .ok (some (parsed.stop,
        { status := status
          reason := reasonPhrase lenient line.2
          headers := copyHeaders head parsed.fields parsed.stop_le true
          httpVersion := version parsed.minor },
        lenient && droppedLines head line parsed.stop parsed.fields.spans))

/-- Whether `data` ends inside a start line that follows any empty lines. -/
def startLineUnfinished (data : Bytes) : Bool :=
  ((Lib.splitInclusive (· == lf) data).find? fun line => line != [lf] && line != [cr, lf]).any
    fun line => line.getLast? != some lf

/-! ## Serialization -/

def writeField (field : Bytes × Bytes) : Bytes := field.1 ++ ascii ": " ++ field.2 ++ crlf

def writeHeaders (headers : Headers) : Bytes := headers.iter.flatMap writeField

/-- The fields in the order they are written: the one at `hostAt` first. -/
def hostFirst (fields : List (Bytes × Bytes)) (hostAt : Nat) : List (Bytes × Bytes) :=
  fields[hostAt]?.toList ++ fields.eraseIdx hostAt

/-- Serializes a request head with the field at `hostAt` written first. -/
def serializeRequest (request : Request) (hostAt : Nat) : Bytes :=
  request.method.asBytes ++ [sp] ++ request.target ++ ascii " HTTP/" ++ request.httpVersion.wire
    ++ crlf ++ (hostFirst request.headers.iter hostAt).flatMap writeField ++ crlf

/-- The three digits of a status code. -/
def statusDigits (status : StatusCode) : Bytes :=
  [UInt8.ofNat (48 + status.asU16 / 100), UInt8.ofNat (48 + status.asU16 / 10 % 10),
    UInt8.ofNat (48 + status.asU16 % 10)]

def serializeResponse (version : Version) (status : StatusCode) (reason : Bytes)
    (headers : Headers) : Bytes :=
  ascii "HTTP/" ++ version.wire ++ [sp] ++ statusDigits status ++ [sp] ++ reason ++ crlf
    ++ writeHeaders headers ++ crlf

end H11r
