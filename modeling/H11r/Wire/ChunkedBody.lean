import H11r.Wire.SizeLine
import H11r.Wire.Unfold

/-!
# A chunked body

The grammar of RFC 9112 Section 7.1 with the limits of a connection:
`ChunkedBody` is chunks of at least one byte, each after a size line and before
a CRLF, then the size line of the last chunk, and a trailer section up to its
empty line.

The decoder sees prefixes of such a text, so the second half is about prefixes:
where a size line can still end (`positionCrlf`), and that the parser neither
accepts nor rejects a trailer section before its empty line has come, although
a client unfolds a section before it is parsed, and unfolding part of a section
need not give part of the unfolded section (`Unfolded.cut`).
-/

namespace H11r

open Lib

/-! ## The grammar -/

/-- A trailer section as it is given to `parse_headers`. -/
def unfoldedFor (client : Bool) (trailer : Bytes) : Bytes :=
  if client then normalizeObsFold trailer else trailer

/-- The trailer section, unfolded on a client, is parsed as `trailers`. -/
def ParsesTrailers (hp : Httparse) (limits : Limits) (client : Bool) (trailer : Bytes)
    (trailers : Headers) : Prop :=
  ∃ parsed, hp.parseHeaders (unfoldedFor client trailer) limits.maxHeaderCount = .ok (.complete parsed) ∧
    trailers = copyHeaders (unfoldedFor client trailer) parsed.fields parsed.stop_le false

/-- A trailer section with its empty line, within the limits. -/
structure TrailerSection (hp : Httparse) (limits : Limits) (client : Bool) (trailer : Bytes)
    (trailers : Headers) : Prop where
  ends : EndsSection trailer false trailer.length
  limit : trailer.length ≤ limits.maxHeadBytes
  parses : ParsesTrailers hp limits client trailer trailers

/-- `ChunkedBody hp limits client spent body chunks trailers`: after `spent`
bytes of extensions, `body` is the rest of a message with these chunks and
trailers. -/
inductive ChunkedBody (hp : Httparse) (limits : Limits) (client : Bool) :
    Nat → Bytes → List Bytes → Headers → Prop
  | chunk {spent : Nat} {line content rest : Bytes} {chunks : List Bytes} {trailers : Headers}
      (hline : SizeLine line content.length) (hcontent : content ≠ [])
      (hlimit : line.length ≤ limits.maxHeadBytes)
      (hbudget : spent + extensionLength line ≤ limits.maxHeadBytes)
      (hrest : ChunkedBody hp limits client (spent + extensionLength line) rest chunks trailers) :
      ChunkedBody hp limits client spent (line ++ (crlf ++ (content ++ (crlf ++ rest))))
        (content :: chunks) trailers
  | last {spent : Nat} {line trailer : Bytes} {trailers : Headers} (hline : SizeLine line 0)
      (hlimit : line.length ≤ limits.maxHeadBytes)
      (hbudget : spent + extensionLength line ≤ limits.maxHeadBytes)
      (htrailer : TrailerSection hp limits client trailer trailers) :
      ChunkedBody hp limits client spent (line ++ (crlf ++ trailer)) [] trailers

/-! ## The first CRLF -/

theorem positionCrlf_cons {byte : UInt8} {rest : Bytes} (h : ¬(byte = cr ∧ rest.head? = some lf)) :
    positionCrlf (byte :: rest) = (positionCrlf rest).map (· + 1) := by
  rw [positionCrlf, if_neg h]

/-- What stands where a CRLF has been found. -/
theorem positionCrlf_some {data : Bytes} {offset : Nat} (h : positionCrlf data = some offset) :
    ∃ line rest, data = line ++ (crlf ++ rest) ∧ line.length = offset := by
  induction data generalizing offset with
  | nil => cases h
  | cons byte rest ih =>
    by_cases hpair : byte = cr ∧ rest.head? = some lf
    · rw [positionCrlf, if_pos hpair] at h
      cases h
      obtain ⟨rfl, hhead⟩ := hpair
      obtain ⟨after, rfl⟩ := List.head?_eq_some_iff.mp hhead
      exact ⟨[], after, rfl, rfl⟩
    · rw [positionCrlf_cons hpair] at h
      obtain ⟨offset', hoffset, rfl⟩ := Option.map_eq_some_iff.mp h
      obtain ⟨line, after, rfl, rfl⟩ := ih hoffset
      exact ⟨byte :: line, after, rfl, rfl⟩

/-- The first CRLF stays the first. -/
theorem positionCrlf_append {data : Bytes} {offset : Nat} (more : Bytes)
    (h : positionCrlf data = some offset) : positionCrlf (data ++ more) = some offset := by
  induction data generalizing offset with
  | nil => cases h
  | cons byte rest ih =>
    by_cases hpair : byte = cr ∧ rest.head? = some lf
    · rw [positionCrlf, if_pos hpair] at h
      cases h
      rw [List.cons_append, positionCrlf, if_pos]
      refine ⟨hpair.1, ?_⟩
      rw [List.head?_append, hpair.2]
      rfl
    · rw [positionCrlf_cons hpair] at h
      obtain ⟨offset', hoffset, rfl⟩ := Option.map_eq_some_iff.mp h
      have hpair' : ¬(byte = cr ∧ (rest ++ more).head? = some lf) := by
        rintro ⟨hcr, hhead⟩
        refine hpair ⟨hcr, ?_⟩
        cases rest with
        | nil => cases hoffset
        | cons next rest => exact hhead
      rw [List.cons_append, positionCrlf_cons hpair', ih hoffset]
      rfl

/-- The CRLF after a line without a CR. -/
theorem positionCrlf_line {line : Bytes} (rest : Bytes) (h : cr ∉ line) :
    positionCrlf (line ++ (crlf ++ rest)) = some line.length := by
  induction line with
  | nil => rfl
  | cons byte line ih =>
    rw [List.mem_cons, not_or] at h
    rw [List.cons_append, positionCrlf_cons fun hpair => h.1 hpair.1.symm, ih h.2]
    rfl

/-- A CRLF that is found only with more bytes ends in them. -/
theorem positionCrlf_later {data more : Bytes} {offset : Nat} (hnone : positionCrlf data = none)
    (h : positionCrlf (data ++ more) = some offset) : data.length ≤ offset + 1 := by
  induction data generalizing offset with
  | nil => exact Nat.zero_le _
  | cons byte rest ih =>
    by_cases hpair : byte = cr ∧ rest.head? = some lf
    · rw [positionCrlf, if_pos hpair] at hnone
      cases hnone
    · rw [positionCrlf_cons hpair, Option.map_eq_none_iff] at hnone
      rw [List.cons_append] at h
      by_cases hpair' : byte = cr ∧ (rest ++ more).head? = some lf
      · have hrest : rest = [] := by
          cases rest with
          | nil => rfl
          | cons next rest => exact absurd hpair' hpair
        rw [hrest]
        exact Nat.le_add_left _ _
      · rw [positionCrlf_cons hpair'] at h
        obtain ⟨offset', hoffset, rfl⟩ := Option.map_eq_some_iff.mp h
        exact Nat.succ_le_succ (ih hnone hoffset)

/-- The length of an unfinished line is part of the line, whatever comes. -/
theorem incompleteLineLen_le {data more : Bytes} {offset : Nat} (hnone : positionCrlf data = none)
    (h : positionCrlf (data ++ more) = some offset) : incompleteLineLen data ≤ offset := by
  have hlater := positionCrlf_later hnone h
  by_cases hlast : data.length ≤ offset
  · unfold incompleteLineLen
    omega
  -- The CR of the CRLF is the last byte that has come.
  · obtain ⟨line, rest, hrest, hline⟩ := positionCrlf_some h
    have hlength : data.length = offset + 1 := by omega
    have hbyte : (data ++ more)[offset]? = some cr := by
      rw [hrest, List.getElem?_append_right (by omega), hline, Nat.sub_self]
      rfl
    have hcr : data.getLast? = some cr := by
      rw [List.getElem?_append_left (by omega)] at hbyte
      rw [List.getLast?_eq_getElem?, hlength, Nat.add_sub_cancel]
      exact hbyte
    unfold incompleteLineLen
    rw [if_pos hcr]
    omega

theorem positionCrlf_drop {data : Bytes} {start : Nat}
    (h : ∀ offset, positionCrlf data = some offset → start ≤ offset) :
    positionCrlf data = (positionCrlf (data.drop start)).map (start + ·) := by
  induction start generalizing data with
  | zero =>
    rw [List.drop_zero]
    simp
  | succ start ih =>
    cases data with
    | nil => rfl
    | cons byte rest =>
      have hpair : ¬(byte = cr ∧ rest.head? = some lf) := by
        intro hpair
        have hle := h 0 (by rw [positionCrlf, if_pos hpair])
        omega
      rw [positionCrlf_cons hpair] at h ⊢
      have hrest : ∀ offset, positionCrlf rest = some offset → start ≤ offset := by
        intro offset hoffset
        exact Nat.le_of_succ_le_succ (h (offset + 1) (by rw [hoffset]; rfl))
      rw [List.drop_succ_cons, ih hrest, Option.map_map]
      congr 1
      funext offset
      show start + offset + 1 = start + 1 + offset
      omega

/-- A search that starts before the first CRLF finds it. -/
theorem findCrlf_eq {data : Bytes} {start : Nat}
    (h : ∀ offset, positionCrlf data = some offset → start ≤ offset) :
    findCrlf data start = (positionCrlf data).map (· + 2) := by
  unfold findCrlf
  rw [positionCrlf_drop h, Option.map_map]
  rfl

/-! ## Size lines have no CR -/

theorem isOws_ne_cr {byte : UInt8} (h : isOws byte = true) : byte ≠ cr := by
  rintro rfl
  revert h
  decide

theorem QuotedText.no_cr {text : Bytes} (h : QuotedText text) : cr ∉ text := by
  induction h with
  | nil => exact List.not_mem_nil
  | @text byte rest hbyte _ ih =>
    rw [List.mem_cons, not_or]
    refine ⟨?_, ih⟩
    rintro rfl
    revert hbyte
    decide
  | @pair byte rest hbyte _ ih =>
    rw [List.mem_cons, List.mem_cons, not_or, not_or]
    exact ⟨by decide, (isLineValueByte_ne_cr hbyte).symm, ih⟩

theorem IsGap.no_cr {text : Bytes} (h : IsGap text) : cr ∉ text :=
  fun hmem => isOws_ne_cr (h cr hmem) rfl

theorem IsToken.no_cr {text : Bytes} (h : IsToken text) : cr ∉ text :=
  fun hmem => isTokenByte_ne_cr (h.2 cr hmem) rfl

theorem IsWord.no_cr {text : Bytes} (h : IsWord text) : cr ∉ text := by
  rcases h with htoken | ⟨body, hbody, rfl⟩
  · exact htoken.no_cr
  · have hinside := hbody.no_cr
    simp only [List.mem_append, List.mem_cons, List.not_mem_nil, or_false, not_or]
    exact ⟨⟨by decide, hinside⟩, by decide⟩

theorem Extensions.no_cr {text : Bytes} (h : Extensions text) : cr ∉ text := by
  induction h with
  | nil => exact List.not_mem_nil
  | name hbefore hgap hname _ ih =>
    simp only [List.mem_append, List.mem_cons, not_or]
    exact ⟨hbefore.no_cr, by decide, hgap.no_cr, hname.no_cr, ih⟩
  | value hbefore hgap hname hleft hright hword _ ih =>
    simp only [List.mem_append, List.mem_cons, not_or]
    exact ⟨hbefore.no_cr, by decide, hgap.no_cr, hname.no_cr, hleft.no_cr, by decide, hright.no_cr,
      hword.no_cr, ih⟩

theorem SizeLine.no_cr {line : Bytes} {size : Nat} (h : SizeLine line size) : cr ∉ line := by
  obtain ⟨digits, extensions, rfl, _, hdigits, _, _, hextensions⟩ := h
  rw [List.mem_append, not_or]
  refine ⟨fun hmem => ?_, hextensions.no_cr⟩
  have hdigit := hdigits cr hmem
  revert hdigit
  decide

/-- A size line is read up to the first CRLF. -/
theorem SizeLine.split {line rest data : Bytes} {size offset : Nat} (h : SizeLine line size)
    (hdata : data = line ++ (crlf ++ rest)) :
    positionCrlf data = some offset ↔ offset = line.length := by
  rw [hdata, positionCrlf_line rest h.no_cr, Option.some.injEq, eq_comm]

/-! ## Unfolding a part of a text -/

theorem not_foldsHere_nil : ¬FoldsHere [] := by
  rintro ⟨fold, rest, heq, gap, _, _, rfl | rfl⟩ <;> cases heq

/-- A fold at the front becomes a space. -/
theorem Unfolded.front {data result : Bytes} (h : Unfolded data result) (hhere : FoldsHere data) :
    ∃ after, result = sp :: after := by
  cases h with
  | nil => exact absurd hhere not_foldsHere_nil
  | fold => exact ⟨_, rfl⟩
  | keep hkeep => exact absurd hhere hkeep

/-- A fold that is there only with more bytes begins with the last bytes there are. -/
theorem FoldsHere.later {byte : UInt8} {rest more : Bytes} (hkeep : ¬FoldsHere (byte :: rest))
    (h : FoldsHere (byte :: (rest ++ more))) :
    byte :: rest = [cr] ∨ byte :: rest = [lf] ∨ byte :: rest = crlf := by
  obtain ⟨fold, after, heq, gap, hne, hgap, hbreak⟩ := h
  obtain ⟨space, gap, rfl⟩ := List.exists_cons_of_ne_nil hne
  have hspace := hgap space (List.mem_cons_self ..)
  rcases hbreak with rfl | rfl
  · obtain ⟨hbyte, hrest⟩ := List.cons.inj heq
    subst hbyte
    cases rest with
    | nil => exact Or.inr (Or.inl rfl)
    | cons next rest =>
      obtain ⟨hnext, _⟩ := List.cons.inj hrest
      subst hnext
      exact absurd (foldsHere_lf (by rw [startsWithOws_cons]; exact hspace)) hkeep
  · obtain ⟨hbyte, hrest⟩ := List.cons.inj heq
    subst hbyte
    cases rest with
    | nil => exact Or.inl rfl
    | cons second rest =>
      obtain ⟨hsecond, htail⟩ := List.cons.inj hrest
      subst hsecond
      cases rest with
      | nil => exact Or.inr (Or.inr rfl)
      | cons third rest =>
        obtain ⟨hthird, _⟩ := List.cons.inj htail
        subst hthird
        exact absurd (foldsHere_crlf (by rw [startsWithOws_cons]; exact hspace)) hkeep

/-- The part of a text before some point, unfolded, is a part of the unfolded
text, unless the point lies in the line break of a fold. -/
theorem Unfolded.cut {data more result whole : Bytes} (h : Unfolded data result)
    (hwhole : Unfolded (data ++ more) whole) :
    result <+: whole ∨ ∃ line breaks after, result = line ++ breaks ∧
      (breaks = [cr] ∨ breaks = [lf] ∨ breaks = crlf) ∧ whole = line ++ sp :: after := by
  -- What is kept or unfolded in front stays in front of either outcome.
  have hfront : ∀ {byte : UInt8} {result whole : Bytes},
      (result <+: whole ∨ ∃ line breaks after, result = line ++ breaks ∧
        (breaks = [cr] ∨ breaks = [lf] ∨ breaks = crlf) ∧ whole = line ++ sp :: after) →
      (byte :: result <+: byte :: whole ∨ ∃ line breaks after, byte :: result = line ++ breaks ∧
        (breaks = [cr] ∨ breaks = [lf] ∨ breaks = crlf) ∧ byte :: whole = line ++ sp :: after) := by
    intro byte result whole hcut
    rcases hcut with hprefix | ⟨line, breaks, after, rfl, hbreaks, rfl⟩
    · exact Or.inl ((List.prefix_cons_inj byte).mpr hprefix)
    · exact Or.inr ⟨byte :: line, breaks, after, rfl, hbreaks, rfl⟩
  induction h generalizing whole with
  | nil => exact Or.inl List.nil_prefix
  | @fold fold rest result hfold hstop hrest ih =>
    by_cases hnil : rest = []
    · subst hnil
      have hhere : FoldsHere (fold ++ [] ++ more) := ⟨fold, [] ++ more, by simp, hfold⟩
      obtain ⟨after, rfl⟩ := hwhole.front hhere
      have hresult : result = [] := hrest.unique .nil
      rw [hresult]
      exact Or.inl ⟨after, rfl⟩
    · obtain ⟨next, rest', rfl⟩ := List.exists_cons_of_ne_nil hnil
      have hstop' : Stops isOws (next :: rest' ++ more) := stops_cons _ (hstop next rfl)
      obtain ⟨after, hafter⟩ := exists_of (next :: rest' ++ more)
      have hnow := Unfolded.fold hfold hstop' hafter
      rw [← List.append_assoc] at hnow
      rw [hwhole.unique hnow]
      exact hfront (ih hafter)
  | @keep byte rest result hkeep hrest ih =>
    by_cases hhere : FoldsHere (byte :: (rest ++ more))
    · obtain ⟨after, rfl⟩ := hwhole.front hhere
      have hself : hasFold (byte :: rest) = false := by
        rcases hhere.later hkeep with heq | heq | heq <;> rw [heq] <;> decide
      have hsame := (Unfolded.keep hkeep hrest).unique (Unfolded.self hself)
      exact Or.inr ⟨[], byte :: rest, after, hsame, hhere.later hkeep, rfl⟩
    · obtain ⟨after, hafter⟩ := exists_of (rest ++ more)
      rw [hwhole.unique (.keep hhere hafter)]
      exact hfront (ih hafter)

/-! ## Trailer sections, before and after their empty line -/

theorem EndsSection.emptyLines_pos {data : Bytes} {stop : Nat} (h : EndsSection data false stop) :
    0 < emptyLines data := by
  obtain ⟨leading, lines, last, rest, rfl, _, hlines, hlast, hleading, rfl⟩ := h
  obtain rfl : leading = [] := hleading
  rw [List.flatten_nil, List.nil_append]
  induction lines with
  | nil =>
    obtain ⟨body, rfl, hempty⟩ := isEmptyLine_iff.mp hlast
    have hsplit : ([] : List Bytes).flatten ++ (body ++ [lf] ++ rest) = body ++ lf :: rest := by simp
    rw [hsplit, emptyLines_line rest (lf_not_mem_empty hempty), if_pos hempty]
    exact Nat.succ_pos _
  | cons line lines ih =>
    obtain ⟨body, rfl, hbody, _, _⟩ := hlines line (List.mem_cons_self ..)
    have hsplit : ((body ++ [lf]) :: lines).flatten ++ (last ++ rest) =
        body ++ lf :: (lines.flatten ++ (last ++ rest)) := by simp
    rw [hsplit, emptyLines_line _ hbody]
    have hrest := ih fun other hmem => hlines other (List.mem_cons_of_mem _ hmem)
    exact Nat.add_pos_left hrest _

/-- Without an empty line none is folded. -/
theorem FoldsNoEmptyLine.of_zero {data : Bytes} (h : emptyLines data = 0) : FoldsNoEmptyLine data := by
  induction hsize : data.length using Nat.strongRecOn generalizing data with
  | ind size ih =>
  subst hsize
  rcases exists_line data with hnone | ⟨body, more, rfl, hbody⟩
  · rintro before line after rfl _ hline
    obtain ⟨other, rfl, _⟩ := isEmptyLine_iff.mp hline
    exact absurd (by simp) hnone
  · rw [emptyLines_line more hbody] at h
    have hfull : ¬(body = [] ∨ body = [cr]) := by
      intro hempty
      rw [if_pos hempty] at h
      cases h
    refine FoldsNoEmptyLine.of_line hbody (fun hempty => absurd hempty hfull) ?_
    exact ih more.length (by simp; omega) (by omega) rfl

theorem emptyLines_zero {data : Bytes} (h : emptyLineEnd data false = none) : emptyLines data = 0 := by
  by_contra hsome
  obtain ⟨stop, hstop⟩ := exists_endsSection (Nat.pos_of_ne_zero hsome)
  rw [(emptyLineEnd_iff data false stop).mpr hstop] at h
  cases h

/-- A section that ends in the first part of a text. -/
theorem EndsSection.shorten {data more : Bytes} {stop : Nat} (h : EndsSection (data ++ more) false stop)
    (hle : stop ≤ data.length) : EndsSection data false stop := by
  obtain ⟨leading, lines, last, rest, heq, hlead, hlines, hlast, hleading, hstop⟩ := h
  rw [← List.append_assoc lines.flatten, ← List.append_assoc leading.flatten] at heq
  rw [List.append_eq_append_iff] at heq
  rcases heq with ⟨after, hall, hmore⟩ | ⟨after, rfl, hrest⟩
  · have hnil : after = [] := by
      have hlength := congrArg List.length hall
      rw [← hstop, List.length_append] at hlength
      exact List.length_eq_zero_iff.mp (by omega)
    rw [hnil, List.append_nil] at hall
    exact ⟨leading, lines, last, [], by rw [← hall]; simp, hlead, hlines, hlast, hleading, hstop⟩
  · exact ⟨leading, lines, last, after, by simp, hlead, hlines, hlast, hleading, hstop⟩

theorem EndsSection.lengthen {data : Bytes} {stop : Nat} (h : EndsSection data false stop) (more : Bytes) :
    EndsSection (data ++ more) false stop :=
  (emptyLineEnd_iff _ _ _).mp (emptyLineEnd_append more ((emptyLineEnd_iff _ _ _).mpr h))

theorem EndsSection.stop_le {data : Bytes} {stop : Nat} (h : EndsSection data false stop) :
    stop ≤ data.length := emptyLineEnd_le ((emptyLineEnd_iff _ _ _).mpr h)

theorem EndsSection.unique {data : Bytes} {stop stop' : Nat} (h : EndsSection data false stop)
    (h' : EndsSection data false stop') : stop = stop' := by
  have hend := (emptyLineEnd_iff _ _ _).mpr h
  rw [(emptyLineEnd_iff _ _ _).mpr h'] at hend
  exact (Option.some.inj hend).symm

section Trailers

variable {hp : Httparse} {limits : Limits} {client : Bool} {data more : Bytes} {stop slots : Nat}
  {trailers : Headers}

/-- Without an empty line a section is not complete, unfolded or not. -/
theorem headers_unfinished (hhp : hp.Stable) (hnone : emptyLineEnd data false = none)
    (parts : SectionParts) : hp.headers (unfoldedFor client data) slots ≠ .ok (some parts) := by
  intro hread
  have hends := (emptyLineEnd_iff _ _ _).mp ((hhp.headers slots).ends hread)
  have hzero := emptyLines_zero hnone
  have hlines : emptyLines (unfoldedFor client data) = 0 := by
    cases client with
    | false => exact hzero
    | true =>
      have hkeeps := (normalizeObsFold_unfolded data).keeps_lines.1 (.of_zero hzero)
      exact hkeeps.2.trans hzero
  have hpos := hends.emptyLines_pos
  omega

theorem ParsesTrailers.unique {other : Headers} (h : ParsesTrailers hp limits client data trailers)
    (h' : ParsesTrailers hp limits client data other) : trailers = other := by
  obtain ⟨parsed, hparse, rfl⟩ := h
  obtain ⟨parsed', hparse', rfl⟩ := h'
  rw [hparse] at hparse'
  cases hparse'
  rfl

/-- `parse_trailers` on the text it gives to the parser. -/
theorem parseTrailers_eq {text : Bytes}
    (htext : unfoldedFor client (data.take ((emptyLineEnd data false).getD data.length)) = text) :
    parseTrailers hp data slots client =
      match hp.parseHeaders text slots with
      | .error error => .error (remoteError ("invalid trailer field: " ++ error.text) (some 400))
      | .ok .incomplete => .ok none
      | .ok (.complete parsed) =>
        .ok (some ((emptyLineEnd data false).getD parsed.stop,
          copyHeaders text parsed.fields parsed.stop_le false)) := by
  subst htext
  rfl

/-- `parse_trailers` takes a section with its first empty line. -/
theorem parseTrailers_iff (hhp : hp.Stable) :
    parseTrailers hp data limits.maxHeaderCount client = .ok (some (stop, trailers)) ↔
      EndsSection data false stop ∧ ParsesTrailers hp limits client (data.take stop) trailers := by
  cases hend : emptyLineEnd data false with
  | some found =>
    have hfound := (emptyLineEnd_iff _ _ _).mp hend
    have htext : unfoldedFor client (data.take ((emptyLineEnd data false).getD data.length)) =
        unfoldedFor client (data.take found) := by rw [hend, Option.getD_some]
    rw [parseTrailers_eq htext, hend]
    constructor
    · intro h
      split at h
      · cases h
      · cases h
      next parsed hparse =>
        cases h
        exact ⟨hfound, parsed, hparse, rfl⟩
    · rintro ⟨hstop, parsed, hparse, rfl⟩
      obtain rfl := hstop.unique hfound
      rw [hparse]
      rfl
  | none =>
    have htext : unfoldedFor client (data.take ((emptyLineEnd data false).getD data.length)) =
        unfoldedFor client data := by rw [hend, Option.getD_none, List.take_length]
    rw [parseTrailers_eq htext]
    constructor
    · intro h
      split at h
      · cases h
      · cases h
      next parsed hparse =>
        have hread : hp.headers (unfoldedFor client data) limits.maxHeaderCount = .ok (some parsed.parts) :=
          congrArg (parsedAs RawSection.parts) hparse
        exact absurd hread (headers_unfinished hhp hend _)
    · rintro ⟨hstop, _⟩
      rw [(emptyLineEnd_iff _ _ _).mpr hstop] at hend
      cases hend

/-- Before the empty line of a section that will be accepted there is no answer. -/
theorem TrailerSection.waits (hhp : hp.Stable)
    (h : TrailerSection hp limits client (data ++ more) trailers) (hmore : more ≠ []) :
    parseTrailers hp data limits.maxHeaderCount client = .ok none := by
  have hshort := List.length_pos_iff.mpr hmore
  have hend : emptyLineEnd data false = none := by
    cases hfound : emptyLineEnd data false with
    | none => rfl
    | some found =>
      have hstop := (emptyLineEnd_iff _ _ _).mp hfound
      have hsame := (hstop.lengthen more).unique h.ends
      have hle := hstop.stop_le
      rw [List.length_append] at hsame
      omega
  obtain ⟨parts, hread⟩ : ∃ parts, hp.headers (unfoldedFor client (data ++ more)) limits.maxHeaderCount =
      .ok (some parts) := by
    obtain ⟨whole, hwhole, _⟩ := h.parses
    exact ⟨whole.parts, congrArg (parsedAs RawSection.parts) hwhole⟩
  have hstable := hhp.headers limits.maxHeaderCount
  have hprefix : unfoldedFor client data <+: unfoldedFor client (data ++ more) →
      ∀ error, hp.headers (unfoldedFor client data) limits.maxHeaderCount ≠ .error error := by
    rintro ⟨after, hafter⟩ error hfails
    rw [← hafter] at hread
    cases (hstable.error after hfails).symm.trans hread
  have hnoError : ∀ error, hp.headers (unfoldedFor client data) limits.maxHeaderCount ≠ .error error := by
    cases client with
    | false => exact hprefix (List.prefix_append data more)
    | true =>
      rcases (normalizeObsFold_unfolded data).cut (normalizeObsFold_unfolded (data ++ more)) with
        hpart | ⟨line, breaks, after, hpart, hbreaks, hfull⟩
      · exact hprefix hpart
      · intro error hfails
        change hp.headers (normalizeObsFold data) _ = _ at hfails
        change hp.headers (normalizeObsFold (data ++ more)) _ = _ at hread
        rw [hpart] at hfails
        rw [hfull] at hread
        exact hhp.fold after hbreaks hfails _ hread
  have htext : unfoldedFor client (data.take ((emptyLineEnd data false).getD data.length)) =
      unfoldedFor client data := by rw [hend, Option.getD_none, List.take_length]
  rw [parseTrailers_eq htext]
  split
  next error hparse => exact absurd (congrArg (parsedAs RawSection.parts) hparse) (hnoError error)
  next => rfl
  next parsed hparse =>
    exact absurd (congrArg (parsedAs RawSection.parts) hparse) (headers_unfinished hhp hend _)

end Trailers

end H11r
