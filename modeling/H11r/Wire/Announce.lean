import H11r.Wire.Laws
import H11r.Wire.Options

/-!
# What a written head announces

`announcesClose` is how a recipient that knows nothing of the connection finds
the `close` option in the bytes of a head: the `announces_close` of the exchange
fuzz target. On a head that `serializeResponse` has written from valid fields
it finds the option exactly when the fields have it (`announcesClose_head`),
whatever follows the head.
-/

namespace H11r

/-- `u8::is_ascii_whitespace`. -/
def isAsciiWhitespace (byte : UInt8) : Bool :=
  byte == sp || byte == ht || byte == lf || byte == 12 || byte == cr

/-- `<[u8]>::trim_ascii`. -/
def trimAscii (value : Bytes) : Bytes :=
  ((value.dropWhile isAsciiWhitespace).reverse.dropWhile isAsciiWhitespace).reverse

/-- The offset of the first CRLF CRLF, or the length when there is none. -/
def headEnd : Bytes → Nat
  | [] => 0
  | byte :: rest => if (byte :: rest).take 4 = crlf ++ crlf then 0 else headEnd rest + 1

/-- Whether a line is a Connection field with the `close` option. -/
def lineAnnouncesClose (line : Bytes) : Bool :=
  (ascii "connection:").isPrefixOf (line.map toAsciiLowercase) &&
    (((line.map toAsciiLowercase).drop 11).splitOnP (· == comma)).any fun option =>
      trimAscii option == ascii "close"

/-- Whether a response head carries a `close` connection option. -/
def announcesClose (head : Bytes) : Bool :=
  ((head.take (headEnd head)).splitOnP (· == lf)).any lineAnnouncesClose

/-! ## The lines of a head -/

theorem headEnd_line {line : Bytes} (tail : Bytes) (h : cr ∉ line) :
    headEnd (line ++ crlf ++ tail) =
      if tail.take 2 = crlf then line.length else line.length + 2 + headEnd tail := by
  induction line with
  | nil =>
    have hlf : headEnd (lf :: tail) = headEnd tail + 1 := by
      rw [headEnd, if_neg]
      intro heq
      exact absurd (List.cons.inj heq).1 (by decide)
    show (if cr :: lf :: tail.take 2 = crlf ++ crlf then 0 else headEnd (lf :: tail) + 1) = _
    have hiff : (cr :: lf :: tail.take 2 = crlf ++ crlf) ↔ tail.take 2 = crlf := by
      simp [crlf]
    rw [hlf]
    by_cases htail : tail.take 2 = crlf
    · rw [if_pos (hiff.mpr htail), if_pos htail]
      rfl
    · rw [if_neg (fun h => htail (hiff.mp h)), if_neg htail, List.length_nil]
      omega
  | cons byte line ih =>
    rw [List.mem_cons, not_or] at h
    have hbyte : headEnd (byte :: line ++ crlf ++ tail) = headEnd (line ++ crlf ++ tail) + 1 := by
      show headEnd (byte :: (line ++ crlf ++ tail)) = _
      rw [headEnd, if_neg]
      intro heq
      exact h.1 (List.cons.inj heq).1.symm
    rw [hbyte, ih h.2, List.length_cons]
    split <;> omega

/-- A line of a head: neither empty nor broken. -/
structure PlainLine (line : Bytes) : Prop where
  ne : line ≠ []
  cr : cr ∉ line
  lf : lf ∉ line

theorem splitOnP_line {line : Bytes} (h : lf ∉ line) : line.splitOnP (· == lf) = [line] := by
  refine List.splitOnP_eq_singleton fun byte hbyte => ?_
  rw [beq_eq_false_iff_ne]
  rintro rfl
  exact h hbyte

/-- The lines of a head are found one by one, each but the last with its CR. -/
theorem any_lines {find : Bytes → Bool} (lines : List Bytes) (hne : lines ≠ []) (rest : Bytes)
    (hplain : ∀ line ∈ lines, PlainLine line) (hcr : ∀ line ∈ lines, find (line ++ [cr]) = find line) :
    (((lines.flatMap (· ++ crlf) ++ crlf ++ rest).take
      (headEnd (lines.flatMap (· ++ crlf) ++ crlf ++ rest))).splitOnP (· == lf)).any find =
      lines.any find := by
  induction lines with
  | nil => exact absurd rfl hne
  | cons line lines ih =>
    have hline := hplain line (List.mem_cons_self ..)
    have hlf : lf ∉ line ++ [cr] := by
      rw [List.mem_append, List.mem_singleton, not_or]
      exact ⟨hline.lf, by decide⟩
    cases lines with
    | nil =>
      have htext : [line].flatMap (· ++ crlf) ++ crlf ++ rest = line ++ crlf ++ (crlf ++ rest) := by
        simp
      have hclose : (crlf ++ rest).take 2 = crlf := rfl
      rw [htext, headEnd_line _ hline.cr, if_pos hclose, List.append_assoc, List.take_left,
        splitOnP_line hline.lf]
    | cons next lines =>
      have hrest := ih (by simp) (fun other hmem => hplain other (List.mem_cons_of_mem _ hmem))
        fun other hmem => hcr other (List.mem_cons_of_mem _ hmem)
      have htext : (line :: next :: lines).flatMap (· ++ crlf) ++ crlf ++ rest =
          line ++ crlf ++ ((next :: lines).flatMap (· ++ crlf) ++ crlf ++ rest) := by
        simp [List.flatMap_cons]
      have hnext := hplain next (List.mem_cons_of_mem _ (List.mem_cons_self ..))
      have hopen : ((next :: lines).flatMap (· ++ crlf) ++ crlf ++ rest).take 2 ≠ crlf := by
        obtain ⟨byte, tail, rfl⟩ := List.exists_cons_of_ne_nil hnext.ne
        intro heq
        exact hnext.cr ((List.cons.inj heq).1 ▸ List.mem_cons_self ..)
      have hcut : ∀ tail : Bytes, ∀ count : Nat,
          (line ++ crlf ++ tail).take (line.length + 2 + count) =
            (line ++ [cr]) ++ lf :: tail.take count := by
        intro tail count
        have hlength : line.length + 2 = (line ++ crlf).length := by simp [crlf]
        rw [hlength, List.take_length_add_append]
        simp [crlf]
      rw [htext, headEnd_line _ hline.cr, if_neg hopen, hcut, List.splitOnP_append_cons _ _ (by decide),
        splitOnP_line hlf, List.any_append, hrest, List.any_cons, List.any_nil, Bool.or_false,
        hcr line (List.mem_cons_self ..)]
      rfl

/-! ## One line -/

theorem toAsciiLowercase_eq_comma : ∀ byte, (toAsciiLowercase byte == comma) = (byte == comma) :=
  forall_byte (by decide +kernel)

theorem toAsciiLowercase_ne_colon : ∀ byte, byte ≠ colon → toAsciiLowercase byte ≠ colon :=
  forall_byte (by decide +kernel)

/-- On the bytes of a value, lowercase or not, only blanks are whitespace. -/
theorem isAsciiWhitespace_value : ∀ byte, isLineValueByte byte = true →
    isAsciiWhitespace (toAsciiLowercase byte) = isOws byte :=
  forall_byte (by decide +kernel)

theorem dropWhile_congr {p q : UInt8 → Bool} {value : Bytes} (h : ∀ byte ∈ value, p byte = q byte) :
    value.dropWhile p = value.dropWhile q := by
  induction value with
  | nil => rfl
  | cons byte value ih =>
    rw [List.dropWhile_cons, List.dropWhile_cons, h byte (List.mem_cons_self ..),
      ih fun other hmem => h other (List.mem_cons_of_mem _ hmem)]

theorem trimAscii_lowercase {value : Bytes} (h : value.all isLineValueByte = true) :
    trimAscii (value.map toAsciiLowercase) = (trimOws value).map toAsciiLowercase := by
  have hdrop : ∀ text : Bytes, (∀ byte ∈ text, isLineValueByte byte = true) →
      (text.map toAsciiLowercase).dropWhile isAsciiWhitespace =
        (text.dropWhile isOws).map toAsciiLowercase := by
    intro text htext
    rw [List.dropWhile_map]
    congr 1
    exact dropWhile_congr fun byte hbyte => isAsciiWhitespace_value byte (htext byte hbyte)
  rw [List.all_eq_true] at h
  unfold trimAscii trimOws
  rw [hdrop value h, ← List.map_reverse, hdrop, List.map_reverse]
  intro byte hbyte
  rw [List.mem_reverse] at hbyte
  exact h byte ((List.dropWhile_sublist _).subset hbyte)

theorem trimAscii_cr (value : Bytes) : trimAscii (value ++ [cr]) = trimAscii value := by
  have hcr : isAsciiWhitespace cr = true := by decide
  unfold trimAscii
  rw [List.dropWhile_append]
  split
  next hempty =>
    rw [List.isEmpty_iff.mp hempty, List.dropWhile_cons_of_pos hcr]
    rfl
  next =>
    rw [List.reverse_append, List.reverse_singleton, List.singleton_append,
      List.dropWhile_cons_of_pos hcr]

/-- Splitting leaves a byte at the end in the last piece. -/
theorem splitOnP_concat {separator last : UInt8} (hlast : last ≠ separator) (value : Bytes) :
    ∃ pieces piece, value.splitOnP (· == separator) = pieces ++ [piece] ∧
      (value ++ [last]).splitOnP (· == separator) = pieces ++ [piece ++ [last]] := by
  induction value with
  | nil =>
    refine ⟨[], [], rfl, ?_⟩
    rw [List.nil_append, List.splitOnP_eq_singleton]
    · rfl
    · intro byte hbyte
      rw [List.mem_singleton.mp hbyte, beq_eq_false_iff_ne]
      exact hlast
  | cons byte value ih =>
    obtain ⟨pieces, piece, hvalue, hconcat⟩ := ih
    rw [List.cons_append, List.splitOnP_cons_eq_if_modifyHead, List.splitOnP_cons_eq_if_modifyHead,
      hvalue, hconcat]
    by_cases hbyte : (byte == separator) = true
    · rw [if_pos hbyte, if_pos hbyte]
      exact ⟨[] :: pieces, piece, rfl, rfl⟩
    · rw [if_neg hbyte, if_neg hbyte]
      cases pieces with
      | nil => exact ⟨[], byte :: piece, rfl, rfl⟩
      | cons first pieces => exact ⟨(byte :: first) :: pieces, piece, rfl, rfl⟩

theorem splitOnP_lowercase (value : Bytes) :
    (value.map toAsciiLowercase).splitOnP (· == comma) =
      (value.splitOnP (· == comma)).map (·.map toAsciiLowercase) := by
  induction value with
  | nil => rfl
  | cons byte value ih =>
    rw [List.map_cons, List.splitOnP_cons_eq_if_modifyHead, List.splitOnP_cons_eq_if_modifyHead, ih,
      toAsciiLowercase_eq_comma]
    split
    · rfl
    · obtain ⟨head, tail, hsplit⟩ :=
        List.exists_cons_of_ne_nil (List.splitOnP_ne_nil (· == comma) value)
      rw [hsplit]
      rfl

/-- A written field line starts with `connection:` exactly when its name is
Connection. -/
theorem isPrefixOf_connection {name : Bytes} (htoken : name.all isTokenByte = true) (rest : Bytes) :
    (ascii "connection:").isPrefixOf ((name ++ colon :: rest).map toAsciiLowercase) =
      eqIgnoreAsciiCase name (ascii "connection") := by
  have hcolon : ∀ byte ∈ name.map toAsciiLowercase, (byte != colon) = true := by
    intro byte hbyte
    obtain ⟨source, hsource, rfl⟩ := List.mem_map.mp hbyte
    rw [bne_iff_ne]
    refine toAsciiLowercase_ne_colon source ?_
    rintro rfl
    exact absurd (List.all_eq_true.mp htoken _ hsource) (by decide)
  have hmap : (name ++ colon :: rest).map toAsciiLowercase =
      name.map toAsciiLowercase ++ colon :: rest.map toAsciiLowercase := by
    rw [List.map_append]
    rfl
  have hsplit : ascii "connection:" = ascii "connection" ++ [colon] := by decide
  have hlower : (ascii "connection").map toAsciiLowercase = ascii "connection" := by decide
  rw [hmap, Bool.eq_iff_iff, List.isPrefixOf_iff_prefix, eqIgnoreAsciiCase, beq_iff_eq, hlower]
  constructor
  · rintro ⟨tail, htail⟩
    have htake := congrArg (List.takeWhile (· != colon)) htail
    rw [List.takeWhile_append_of_pos hcolon, hsplit, List.append_assoc,
      List.takeWhile_append_of_pos (List.all_eq_true.mp (by decide))] at htake
    simpa using htake.symm
  · intro hname
    rw [hname, hsplit]
    exact ⟨rest.map toAsciiLowercase, by simp⟩

/-- What is found on a written field line, with the CR that may follow it. -/
theorem lineAnnouncesClose_field {field : Bytes × Bytes} (hname : validName field.1 = true)
    (hvalue : field.2.all isLineValueByte = true) (tail : Bytes) (htail : tail = [] ∨ tail = [cr]) :
    lineAnnouncesClose (field.1 ++ ascii ": " ++ field.2 ++ tail) =
      (eqIgnoreAsciiCase field.1 (ascii "connection") &&
        (elements field.2 false).any (eqIgnoreAsciiCase · (ascii "close"))) := by
  obtain ⟨name, value⟩ := field
  have htoken := (validName_token hname).2
  have hline : name ++ ascii ": " ++ value ++ tail = name ++ colon :: (sp :: value ++ tail) := by
    rw [List.append_assoc, List.append_assoc]
    rfl
  rw [hline]
  unfold lineAnnouncesClose
  rw [isPrefixOf_connection htoken]
  cases heq : eqIgnoreAsciiCase name (ascii "connection") with
  | false => rfl
  | true =>
    have hlength : name.length = 10 := by
      unfold eqIgnoreAsciiCase at heq
      rw [beq_iff_eq] at heq
      have := congrArg List.length heq
      simpa [ascii] using this
    have hdrop : ((name ++ colon :: (sp :: value ++ tail)).map toAsciiLowercase).drop 11 =
        (sp :: value ++ tail).map toAsciiLowercase := by
      rw [← List.map_drop]
      congr 1
      show List.drop (10 + 1) _ = _
      rw [← hlength, ← List.drop_drop, List.drop_left]
      rfl
    have hbytes : ∀ piece ∈ (sp :: value).splitOnP (· == comma), piece.all isLineValueByte = true := by
      intro piece hpiece
      rw [List.all_eq_true]
      intro byte hbyte
      rcases List.mem_cons.mp ((not_mem_splitOnP hpiece).2 byte hbyte) with rfl | hmem
      · decide
      · exact List.all_eq_true.mp hvalue byte hmem
    have hlower : (ascii "close").map toAsciiLowercase = ascii "close" := by decide
    have hpiece : ∀ piece ∈ (sp :: value).splitOnP (· == comma),
        (trimAscii (piece.map toAsciiLowercase) == ascii "close") =
          eqIgnoreAsciiCase (trimOws piece) (ascii "close") := by
      intro piece hmem
      rw [trimAscii_lowercase (hbytes piece hmem), eqIgnoreAsciiCase, hlower]
    have hplain : (((sp :: value).map toAsciiLowercase).splitOnP (· == comma)).any
        (fun option => trimAscii option == ascii "close") =
        (elements value false).any (eqIgnoreAsciiCase · (ascii "close")) := by
      rw [splitOnP_lowercase, ← elements_sp, elements_plain, List.any_map, List.any_map, Bool.eq_iff_iff,
        List.any_eq_true, List.any_eq_true]
      constructor
      · rintro ⟨piece, hmem, hfound⟩
        exact ⟨piece, hmem, by rw [← hfound]; exact (hpiece piece hmem).symm⟩
      · rintro ⟨piece, hmem, hfound⟩
        exact ⟨piece, hmem, by rw [← hfound]; exact hpiece piece hmem⟩
    rw [hdrop, Bool.true_and, Bool.true_and, ← hplain]
    rcases htail with rfl | rfl
    · rw [List.append_nil]
    · obtain ⟨pieces, piece, hvalue', hconcat⟩ :=
        splitOnP_concat (show cr ≠ comma by decide)
          ((sp :: value).map toAsciiLowercase)
      have hcr : (sp :: value ++ [cr]).map toAsciiLowercase =
          (sp :: value).map toAsciiLowercase ++ [cr] := by
        rw [List.map_append]
        rfl
      rw [hcr, hconcat, hvalue']
      simp only [List.any_append, List.any_cons, List.any_nil, trimAscii_cr]

/-! ## The whole head -/

/-- The lines of a response head. -/
def headLines (version : Version) (status : StatusCode) (reason : Bytes) (headers : Headers) :
    List Bytes :=
  (ascii "HTTP/" ++ version.wire ++ [sp] ++ statusDigits status ++ [sp] ++ reason) ::
    headers.iter.map fun field => field.1 ++ ascii ": " ++ field.2

theorem serializeResponse_lines (version : Version) (status : StatusCode) (reason : Bytes)
    (headers : Headers) : serializeResponse version status reason headers =
      (headLines version status reason headers).flatMap (· ++ crlf) ++ crlf := by
  unfold serializeResponse headLines writeHeaders
  rw [List.flatMap_cons, List.flatMap_map]
  rfl

theorem statusDigits_bytes (status : StatusCode) : ∀ byte ∈ statusDigits status,
    isAsciiDigit byte = true := by
  have hdigits : ∀ digit < 10, isAsciiDigit (UInt8.ofNat (48 + digit)) = true := by decide
  have hrange := status.range
  intro byte hbyte
  simp only [statusDigits, List.mem_cons, List.not_mem_nil, or_false] at hbyte
  rcases hbyte with rfl | rfl | rfl
  · exact hdigits _ (by omega)
  · exact hdigits _ (by omega)
  · exact hdigits _ (by omega)

theorem isLineValueByte_digit : ∀ byte, isAsciiDigit byte = true → isLineValueByte byte = true :=
  forall_byte (by decide +kernel)

theorem plainLine_status (version : Version) (status : StatusCode) {reason : Bytes}
    (hreason : reason.all isLineValueByte = true) :
    PlainLine (ascii "HTTP/" ++ version.wire ++ [sp] ++ statusDigits status ++ [sp] ++ reason) := by
  have hbytes : ∀ byte ∈ ascii "HTTP/" ++ version.wire ++ [sp] ++ statusDigits status ++ [sp] ++
      reason, isLineValueByte byte = true := by
    intro byte hbyte
    simp only [List.mem_append, List.mem_singleton] at hbyte
    rcases hbyte with ((((h | h) | h) | h) | h) | h
    · exact List.all_eq_true.mp (by decide) byte h
    · cases version <;> exact List.all_eq_true.mp (by decide) byte h
    · rw [h]
      decide
    · exact isLineValueByte_digit byte (statusDigits_bytes status byte h)
    · rw [h]
      decide
    · exact List.all_eq_true.mp hreason byte h
  exact ⟨by simp, fun h => isLineValueByte_ne_cr (hbytes _ h) rfl,
    fun h => isLineValueByte_ne_lf (hbytes _ h) rfl⟩

theorem plainLine_field {field : Bytes × Bytes} (hname : validName field.1 = true)
    (hvalue : validValue field.2 = true) : PlainLine (field.1 ++ ascii ": " ++ field.2) := by
  have hname := validName_token hname
  have hvalue := validValue_all hvalue
  refine ⟨by simp [hname.1], ?_, ?_⟩
  · simp only [List.mem_append, not_or]
    exact ⟨⟨fun h => isTokenByte_ne_cr (List.all_eq_true.mp hname.2 _ h) rfl, by decide⟩,
      fun h => isLineValueByte_ne_cr (List.all_eq_true.mp hvalue _ h) rfl⟩
  · simp only [List.mem_append, not_or]
    exact ⟨⟨lf_not_mem_token hname.2, by decide⟩, lf_not_mem_value hvalue⟩

theorem headLines_plain (version : Version) (status : StatusCode) {reason : Bytes}
    {headers : Headers} (hreason : reason.all isLineValueByte = true)
    (hvalid : ∀ field ∈ headers.iter, validName field.1 = true ∧ validValue field.2 = true) :
    ∀ line ∈ headLines version status reason headers, PlainLine line := by
  intro line hmem
  rcases List.mem_cons.mp hmem with rfl | hmem
  · exact plainLine_status version status hreason
  · obtain ⟨field, hfield, rfl⟩ := List.mem_map.mp hmem
    exact plainLine_field (hvalid field hfield).1 (hvalid field hfield).2

/-- A written head announces `close` exactly when its fields say so. -/
theorem announcesClose_head (version : Version) (status : StatusCode) {reason : Bytes}
    {headers : Headers} (hreason : reason.all isLineValueByte = true)
    (hvalid : ∀ field ∈ headers.iter, validName field.1 = true ∧ validValue field.2 = true)
    (rest : Bytes) :
    announcesClose (serializeResponse version status reason headers ++ rest) =
      hasToken headers (ascii "connection") (ascii "close") := by
  have hstatus : ∀ tail : Bytes, lineAnnouncesClose
      (ascii "HTTP/" ++ version.wire ++ [sp] ++ statusDigits status ++ [sp] ++ reason ++ tail) =
        false := by
    intro tail
    unfold lineAnnouncesClose
    rw [Bool.and_eq_false_iff]
    left
    cases version <;> rfl
  have hplain := headLines_plain version status hreason hvalid
  have hfield : ∀ field ∈ headers.iter, ∀ tail : Bytes, tail = [] ∨ tail = [cr] →
      lineAnnouncesClose (field.1 ++ ascii ": " ++ field.2 ++ tail) =
        (eqIgnoreAsciiCase field.1 (ascii "connection") &&
          (elements field.2 false).any (eqIgnoreAsciiCase · (ascii "close"))) :=
    fun field hmem => lineAnnouncesClose_field (hvalid field hmem).1
      (validValue_all (hvalid field hmem).2)
  have hcr : ∀ line ∈ headLines version status reason headers,
      lineAnnouncesClose (line ++ [cr]) = lineAnnouncesClose line := by
    intro line hmem
    rcases List.mem_cons.mp hmem with rfl | hmem
    · rw [hstatus, ← List.append_nil (_ ++ reason), hstatus]
    · obtain ⟨field, hin, rfl⟩ := List.mem_map.mp hmem
      have hplain := hfield field hin [] (Or.inl rfl)
      rw [List.append_nil] at hplain
      rw [hfield field hin [cr] (Or.inr rfl), hplain]
  unfold announcesClose
  rw [serializeResponse_lines, any_lines _ (by simp [headLines]) rest hplain hcr]
  unfold headLines
  rw [List.any_cons, ← List.append_nil (_ ++ reason), hstatus, Bool.false_or, List.any_map]
  unfold hasToken
  rw [Bool.eq_iff_iff, List.any_eq_true, List.any_eq_true]
  constructor
  · rintro ⟨field, hmem, hfound⟩
    have hplain := hfield field hmem [] (Or.inl rfl)
    rw [List.append_nil] at hplain
    rw [Function.comp_apply, hplain, Bool.and_eq_true, List.any_eq_true] at hfound
    obtain ⟨hname, element, helement, hclose⟩ := hfound
    refine ⟨element, List.mem_flatMap.mpr ⟨field.2, ?_, helement⟩, hclose⟩
    exact List.mem_map.mpr ⟨field, List.mem_filter.mpr ⟨hmem, hname⟩, rfl⟩
  · rintro ⟨element, helement, hclose⟩
    obtain ⟨line, hline, helement⟩ := List.mem_flatMap.mp helement
    obtain ⟨field, hmem, rfl⟩ := List.mem_map.mp hline
    obtain ⟨hmem, hname⟩ := List.mem_filter.mp hmem
    have hplain := hfield field hmem [] (Or.inl rfl)
    rw [List.append_nil] at hplain
    refine ⟨field, hmem, ?_⟩
    rw [Function.comp_apply, hplain, Bool.and_eq_true, List.any_eq_true]
    exact ⟨hname, element, helement, hclose⟩

end H11r
