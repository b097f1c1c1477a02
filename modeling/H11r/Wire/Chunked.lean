import H11r.Wire.Head

/-!
# Chunked transfer coding: chunk-size lines and trailers

`wire/chunked.rs`, and `DataPrefix::chunk_size` of `lib.rs`, which writes the
chunk-size line that `parseChunkHeader` reads.
-/

namespace H11r

/-- One turn of the extension loop of `parse_chunk_header`: the position after
the extension that starts at `start`. -/
def parseExtension (line : Bytes) (start : Nat) : Option Nat :=
  let semi := skipOws line start
  if (line)[semi]? = some semicolon then
    let name := skipOws line (semi + 1)
    let nameEnd := name + countWhile isTokenByte (line.drop name)
    if nameEnd = name then none
    else
      let afterName := skipOws line nameEnd
      if (line)[afterName]? = some equalsSign then
        let value := skipOws line (afterName + 1)
        if (line)[value]? = some quote then parseQuotedString line value
        else
          let valueEnd := value + countWhile isTokenByte (line.drop value)
          if valueEnd = value then none else some valueEnd
      -- BWS after a name is allowed only before the next extension.
      else if afterName ≠ nameEnd ∧ (line)[afterName]? ≠ some semicolon then none
      else some afterName
  else none

theorem parseQuotedString_gt {value : Bytes} {start stop : Nat}
    (h : parseQuotedString value start = some stop) : start < stop := by
  unfold parseQuotedString at h
  obtain ⟨length, _, rfl⟩ := Option.map_eq_some_iff.mp h
  omega

theorem parseExtension_gt {line : Bytes} {start next : Nat}
    (h : parseExtension line start = some next) : start < next := by
  unfold parseExtension at h
  have h1 := Codings.skipOws_ge line start
  have h2 := Codings.skipOws_ge line (skipOws line start + 1)
  have h3 := fun after => Codings.skipOws_ge line (after + 1)
  simp only at h
  split at h
  · split at h
    · cases h
    · next hname =>
      have h4 := Codings.skipOws_ge line (skipOws line (skipOws line start + 1) +
        countWhile isTokenByte (line.drop (skipOws line (skipOws line start + 1))))
      split at h
      · split at h
        · have h5 := parseQuotedString_gt h
          have h6 := h3 (skipOws line (skipOws line (skipOws line start + 1) +
            countWhile isTokenByte (line.drop (skipOws line (skipOws line start + 1)))))
          omega
        · split at h
          · cases h
          · cases h
            have h6 := h3 (skipOws line (skipOws line (skipOws line start + 1) +
              countWhile isTokenByte (line.drop (skipOws line (skipOws line start + 1)))))
            omega
      · split at h
        · cases h
        · cases h
          omega
  · cases h

/-- Whether the extensions from `start` to the end of the line are well formed. -/
def validExtensions (line : Bytes) (start : Nat) : Bool :=
  if start < line.length then
    match _h : parseExtension line start with
    | some next => validExtensions line next
    | none => false
  else true
  termination_by line.length - start
  decreasing_by
    have hgt := parseExtension_gt _h
    omega

/-- Parses `chunk-size [ chunk-ext ]`, without its CRLF. -/
def parseChunkHeader (line : Bytes) : Option Nat :=
  let digits := countWhile isAsciiHexdigit line
  match parseNumber (line.take digits) 16 with
  | none => none
  | some size => if validExtensions line digits then some size else none

/-- What follows the size digits on a chunk-size line. -/
def extensionLength (line : Bytes) : Nat := line.length - countWhile isAsciiHexdigit line

/-- The offset of the first CRLF. -/
def positionCrlf : Bytes → Option Nat
  | [] => none
  | byte :: rest =>
    if byte = cr ∧ rest.head? = some lf then some 0 else (positionCrlf rest).map (· + 1)

/-- The end of the CRLF at or after `start`, a position already scanned. -/
def findCrlf (data : Bytes) (start : Nat) : Option Nat :=
  (positionCrlf (data.drop start)).map (start + · + 2)

/-- The length of an unterminated line, not counting a final CR that may begin
its CRLF. -/
def incompleteLineLen (data : Bytes) : Nat :=
  data.length - (if data.getLast? = some cr then 1 else 0)

/-- Parses trailers from a prefix already capped at the head byte limit. -/
def parseTrailers (hp : Httparse) (data : Bytes) (maxHeaders : Nat) (normalizeFolding : Bool) :
    Except RemoteProtocolError (Option (Nat × Headers)) :=
  -- Bytes after the terminating empty line belong to whatever follows, so they
  -- are neither unfolded into nor parsed with the trailers.
  let originalEnd := (SectionProgress.new.poll data false).1
  let data := data.take (originalEnd.getD data.length)
  let normalized := if normalizeFolding then normalizeObsFold data else data
  match hp.parseHeaders normalized maxHeaders with
  | .error error => .error (remoteError ("invalid trailer field: " ++ error.text) (some 400))
  | .ok .incomplete => .ok none
  | .ok (.complete parsed) =>
    .ok (some (originalEnd.getD parsed.stop,
      copyHeaders normalized parsed.fields parsed.stop_le false))

/-! ## The chunk-size line of a piece of body -/

def hexDigit (digit : Nat) : UInt8 := (ascii "0123456789abcdef").getD digit 0

/-- The number of hex digits of `length`, one for zero. -/
def hexDigits (length : Nat) : Nat := if length = 0 then 1 else length.log2 / 4 + 1

/-- `DataPrefix::chunk_size`. -/
def chunkSize (length : Nat) : Bytes :=
  (List.range (hexDigits length)).map
      (fun index => hexDigit (length >>> (4 * (hexDigits length - 1 - index)) % 16)) ++ crlf

end H11r
