import H11r.Wire.Chunked
import H11r.Lib.Text

/-!
# Tokens, quoted strings and numerals

The grammar of RFC 9110 Section 5.6 that the list fields and the chunk-size
line share, said without a scanner, and what the scanners of `Bytes` do on a
text that is written in it. Each scanner has one lemma for a text that is known
to go on as the grammar says, and one that takes any text apart.
-/

namespace H11r

open Lib

/-! ## Whitespace and tokens -/

/-- `OWS` and `BWS`: `*( SP / HTAB )`. -/
def IsGap (text : Bytes) : Prop := ∀ byte ∈ text, isOws byte = true

/-- `token = 1*tchar`. -/
def IsToken (text : Bytes) : Prop := text ≠ [] ∧ ∀ byte ∈ text, isTokenByte byte = true

/-- What stands between the quotes: `*( qdtext / quoted-pair )`. -/
inductive QuotedText : Bytes → Prop
  | nil : QuotedText []
  | text {byte : UInt8} {rest : Bytes} (hbyte : isQdtext byte = true) (hrest : QuotedText rest) :
      QuotedText (byte :: rest)
  | pair {byte : UInt8} {rest : Bytes} (hbyte : isLineValueByte byte = true)
      (hrest : QuotedText rest) : QuotedText (backslash :: byte :: rest)

/-- `quoted-string = DQUOTE *( qdtext / quoted-pair ) DQUOTE`. -/
def IsQuotedString (text : Bytes) : Prop := ∃ body, QuotedText body ∧ text = quote :: body ++ [quote]

/-- `token / quoted-string`. -/
def IsWord (text : Bytes) : Prop := IsToken text ∨ IsQuotedString text

theorem isGap_nil : IsGap [] := fun _ h => by cases h

theorem isTokenByte_not_ows : ∀ byte, isTokenByte byte = true → isOws byte = false :=
  forall_byte (by decide +kernel)

theorem isOws_not_token : ∀ byte, isOws byte = true → isTokenByte byte = false :=
  forall_byte (by decide +kernel)

theorem IsToken.stops_gap {token : Bytes} (h : IsToken token) (rest : Bytes) :
    Stops isOws (token ++ rest) := by
  obtain ⟨byte, more, rfl⟩ := List.exists_cons_of_ne_nil h.1
  exact stops_cons _ (isTokenByte_not_ows byte (h.2 byte (List.mem_cons_self ..)))

theorem IsToken.head {token : Bytes} (h : IsToken token) (rest : Bytes) :
    ∃ byte, (token ++ rest).head? = some byte ∧ isTokenByte byte = true := by
  obtain ⟨byte, more, rfl⟩ := List.exists_cons_of_ne_nil h.1
  exact ⟨byte, rfl, h.2 byte (List.mem_cons_self ..)⟩

/-- After whitespace a token cannot go on. -/
theorem IsGap.stops_token {gap rest : Bytes} (h : IsGap gap) (hrest : Stops isTokenByte rest) :
    Stops isTokenByte (gap ++ rest) := by
  cases gap with
  | nil => exact hrest
  | cons byte gap => exact stops_cons _ (isOws_not_token byte (h byte (List.mem_cons_self ..)))

/-! ## The scanners -/

variable {value run rest text : Bytes} {start stop : Nat}

theorem skipOws_run (h : At value start (run ++ rest)) (hrun : IsGap run) (hstop : Stops isOws rest) :
    skipOws value start = start + run.length := by
  unfold skipOws countWhile
  rw [h.drop, takeWhile_run hrun hstop]

theorem skipOws_stop (h : At value start rest) (hstop : Stops isOws rest) :
    skipOws value start = start := by
  have hnil : At value start ([] ++ rest) := h
  simpa using skipOws_run hnil isGap_nil hstop

theorem skipOws_split (h : At value start text) : ∃ gap rest, text = gap ++ rest ∧ IsGap gap ∧
    Stops isOws rest ∧ skipOws value start = start + gap.length ∧
    At value (skipOws value start) rest := by
  obtain ⟨gap, rest, rfl, hgap, hstop, _⟩ := exists_run isOws text
  have hskip := skipOws_run h hgap hstop
  exact ⟨gap, rest, rfl, hgap, hstop, hskip, hskip ▸ h.skip⟩

/-- The end of the token at `start`, as the chunk-size line and the list fields
count it. -/
theorem countToken_run (h : At value start (run ++ rest)) (hrun : ∀ byte ∈ run, isTokenByte byte = true)
    (hstop : Stops isTokenByte rest) : countWhile isTokenByte (value.drop start) = run.length := by
  unfold countWhile
  rw [h.drop, takeWhile_run hrun hstop]

theorem countToken_split (h : At value start text) : ∃ token rest, text = token ++ rest ∧
    (∀ byte ∈ token, isTokenByte byte = true) ∧ Stops isTokenByte rest ∧
    countWhile isTokenByte (value.drop start) = token.length ∧ At value (start + token.length) rest := by
  obtain ⟨token, rest, rfl, htoken, hstop, _⟩ := exists_run isTokenByte text
  exact ⟨token, rest, rfl, htoken, hstop, countToken_run h htoken hstop, h.skip⟩

theorem tokenEnd_at (h : At value start text) :
    tokenEnd value start = start + countWhile isTokenByte (value.drop start) := by
  unfold tokenEnd
  rw [if_pos h.le]

/-- A text that closes its quotes, and what follows. -/
theorem quotedLength_closed {body : Bytes} (h : QuotedText body) (rest : Bytes) :
    quotedLength (body ++ quote :: rest) = some (body.length + 1) := by
  induction h with
  | nil =>
    rw [List.nil_append, quotedLength.eq_def]
    rfl
  | @text byte body hbyte _ ih =>
    have hquote : (byte == quote) = false := by
      rw [beq_eq_false_iff_ne]
      rintro rfl
      revert hbyte
      decide
    have hescape : (byte == backslash) = false := by
      rw [beq_eq_false_iff_ne]
      rintro rfl
      revert hbyte
      decide
    rw [List.cons_append, quotedLength.eq_def]
    simp only [hquote, hescape, hbyte, ih, if_true, Bool.false_eq_true, if_false]
    rfl
  | @pair byte body hbyte _ ih =>
    have hquote : (backslash == quote) = false := by decide
    rw [List.cons_append, List.cons_append, quotedLength.eq_def]
    simp only [hquote, beq_self_eq_true, hbyte, ih, if_true, Bool.false_eq_true, if_false]
    rfl

theorem quotedLength_some {length : Nat} (h : quotedLength text = some length) :
    ∃ body rest, text = body ++ quote :: rest ∧ QuotedText body ∧ length = body.length + 1 := by
  induction text using quotedLength.induct generalizing length with
  | case1 => cases h
  | case2 byte rest hquote =>
    rw [quotedLength.eq_def] at h
    simp only [hquote, if_true] at h
    cases h
    rw [beq_iff_eq] at hquote
    subst hquote
    exact ⟨[], rest, rfl, .nil, rfl⟩
  | case3 byte hquote hescape =>
    rw [quotedLength, if_neg hquote, if_pos hescape] at h
    cases h
  | case4 byte hquote hescape escaped rest hbyte ih =>
    rw [quotedLength, if_neg hquote, if_pos hescape, if_pos hbyte] at h
    obtain ⟨length, hlength, rfl⟩ := Option.map_eq_some_iff.mp h
    obtain ⟨body, after, rfl, hbody, rfl⟩ := ih hlength
    rw [beq_iff_eq] at hescape
    subst hescape
    exact ⟨backslash :: escaped :: body, after, rfl, .pair hbyte hbody, rfl⟩
  | case5 byte hquote hescape escaped rest hbyte =>
    rw [quotedLength, if_neg hquote, if_pos hescape, if_neg hbyte] at h
    cases h
  | case6 byte rest hquote hescape hbyte ih =>
    rw [quotedLength.eq_def] at h
    simp only [hquote, hescape, hbyte, if_true, Bool.false_eq_true, if_false] at h
    obtain ⟨length, hlength, rfl⟩ := Option.map_eq_some_iff.mp h
    obtain ⟨body, after, rfl, hbody, rfl⟩ := ih hlength
    exact ⟨byte :: body, after, rfl, .text hbyte hbody, rfl⟩
  | case7 byte rest hquote hescape hbyte =>
    rw [quotedLength.eq_def] at h
    simp only [hquote, hescape, hbyte, Bool.false_eq_true, if_false] at h
    cases h

theorem parseQuotedString_quoted (h : At value start (run ++ rest)) (hrun : IsQuotedString run) :
    parseQuotedString value start = some (start + run.length) := by
  obtain ⟨body, hbody, rfl⟩ := hrun
  have hnext : At value (start + 1) (body ++ quote :: rest) := by
    have h' : At value start (quote :: (body ++ quote :: rest)) := by simpa using h
    exact h'.next
  unfold parseQuotedString
  rw [hnext.drop, quotedLength_closed hbody]
  simp only [Option.map_some, List.length_append, List.length_cons, List.length_nil]
  congr 1
  omega

theorem parseQuotedString_some (h : At value start (quote :: text))
    (hparse : parseQuotedString value start = some stop) : ∃ run rest,
    quote :: text = run ++ rest ∧ IsQuotedString run ∧ stop = start + run.length := by
  unfold parseQuotedString at hparse
  rw [h.next.drop] at hparse
  obtain ⟨length, hlength, rfl⟩ := Option.map_eq_some_iff.mp hparse
  obtain ⟨body, rest, rfl, hbody, rfl⟩ := quotedLength_some hlength
  refine ⟨quote :: body ++ [quote], rest, by simp, ⟨body, hbody, rfl⟩, ?_⟩
  simp only [List.length_append, List.length_cons, List.length_nil]
  omega

/-! ## Numerals -/

/-- The value of a hexadecimal digit. -/
def hexValue (byte : UInt8) : Nat :=
  if isAsciiDigit byte then byte.toNat - 48
  else if 97 ≤ byte then byte.toNat - 87
  else byte.toNat - 55

/-- The value of a decimal digit. -/
def decimalValue (byte : UInt8) : Nat := byte.toNat - 48

/-- The number that digits of the given values stand for. -/
def numeral (radix : Nat) (digit : UInt8 → Nat) (digits : Bytes) : Nat :=
  digits.foldl (fun number byte => number * radix + digit byte) 0

theorem toDigit_hex : ∀ byte, toDigit byte 16 =
    if isAsciiHexdigit byte then some (hexValue byte) else none :=
  forall_byte (by decide +kernel)

theorem toDigit_decimal : ∀ byte, toDigit byte 10 =
    if isAsciiDigit byte then some (decimalValue byte) else none :=
  forall_byte (by decide +kernel)

variable {radix : Nat} {isDigit : UInt8 → Bool} {digit : UInt8 → Nat}

theorem foldl_digits_ge (digit : UInt8 → Nat) (hradix : 0 < radix) (digits : Bytes) (number : Nat) :
    number ≤ digits.foldl (fun number byte => number * radix + digit byte) number := by
  induction digits generalizing number with
  | nil => exact Nat.le_refl _
  | cons byte digits ih =>
    have hstep : number ≤ number * radix + digit byte :=
      Nat.le_trans (Nat.le_mul_of_pos_right number hradix) (Nat.le_add_right _ _)
    exact Nat.le_trans hstep (ih _)

/-- The checked fold fails exactly on a byte that is no digit and on a value
that does not fit: a partial value is never above the whole one. -/
theorem parseDigits_eq (hradix : 0 < radix)
    (hdigit : ∀ byte, toDigit byte radix = if isDigit byte then some (digit byte) else none)
    (digits : Bytes) (number : Nat) (hnumber : number ≤ usizeMax) :
    parseDigits radix number digits =
      if digits.all isDigit ∧
          digits.foldl (fun number byte => number * radix + digit byte) number ≤ usizeMax
      then some (digits.foldl (fun number byte => number * radix + digit byte) number) else none := by
  induction digits generalizing number with
  | nil => simp [parseDigits, hnumber]
  | cons byte digits ih =>
    rw [parseDigits, hdigit, List.foldl_cons, List.all_cons]
    have hge := foldl_digits_ge digit hradix digits (number * radix + digit byte)
    by_cases hbyte : isDigit byte = true
    · rw [hbyte, Bool.true_and, if_pos rfl]
      by_cases hfits : number * radix + digit byte ≤ usizeMax
      · rw [if_pos (by omega)]
        dsimp only
        rw [if_pos hfits, ih _ hfits]
      · have hlarge : ¬ (digits.all isDigit = true ∧
            digits.foldl (fun number byte => number * radix + digit byte)
              (number * radix + digit byte) ≤ usizeMax) := by omega
        rw [if_neg hlarge]
        dsimp only
        rw [if_neg hfits, ite_self]
    · rw [Bool.not_eq_true] at hbyte
      rw [hbyte]
      simp

theorem parseNumber_iff (hradix : 0 < radix)
    (hdigit : ∀ byte, toDigit byte radix = if isDigit byte then some (digit byte) else none)
    (digits : Bytes) (number : Nat) :
    parseNumber digits radix = some number ↔
      digits ≠ [] ∧ (∀ byte ∈ digits, isDigit byte = true) ∧ numeral radix digit digits = number ∧
        number ≤ usizeMax := by
  unfold parseNumber
  by_cases hempty : digits = []
  · simp [hempty]
  · rw [List.isEmpty_eq_false_iff.mpr hempty, if_neg Bool.false_ne_true,
      parseDigits_eq hradix hdigit digits 0 (Nat.zero_le _), Option.ite_none_right_eq_some,
      List.all_eq_true, Option.some.injEq]
    unfold numeral
    constructor
    · rintro ⟨⟨hall, hfits⟩, rfl⟩
      exact ⟨hempty, hall, rfl, hfits⟩
    · rintro ⟨_, hall, rfl, hfits⟩
      exact ⟨⟨hall, hfits⟩, rfl⟩

end H11r
