import Mathlib
import H11r.Wire.Grammar
import H11r.Lib.Machine

/-!
# The chunk-size line

`parse_chunk_header` against the grammar of RFC 9112 Section 7.1:
`chunk-size [ chunk-ext ]`, with `BWS` where that grammar has it. Whitespace
after an extension name belongs to what follows it, an `=` or the next `;`, and
is an error at the end of the line. One turn of the loop takes one extension
and leaves a list of extensions if and only if it was given one.
-/

namespace H11r

open Lib

/-- `chunk-ext = *( BWS ";" BWS token [ BWS "=" BWS ( token / quoted-string ) ] )`. -/
inductive Extensions : Bytes → Prop
  | nil : Extensions []
  | name {before gap name rest : Bytes} (hbefore : IsGap before) (hgap : IsGap gap)
      (hname : IsToken name) (hrest : Extensions rest) :
      Extensions (before ++ semicolon :: (gap ++ (name ++ rest)))
  | value {before gap name left right word rest : Bytes} (hbefore : IsGap before) (hgap : IsGap gap)
      (hname : IsToken name) (hleft : IsGap left) (hright : IsGap right) (hword : IsWord word)
      (hrest : Extensions rest) :
      Extensions (before ++ semicolon :: (gap ++ (name ++ (left ++ equalsSign ::
        (right ++ (word ++ rest))))))

/-- A line of `1*HEXDIG chunk-ext` whose digits stand for `size`, a `usize`. -/
def SizeLine (line : Bytes) (size : Nat) : Prop :=
  ∃ digits extensions, line = digits ++ extensions ∧ digits ≠ [] ∧
    (∀ byte ∈ digits, isAsciiHexdigit byte = true) ∧ numeral 16 hexValue digits = size ∧
    size ≤ usizeMax ∧ Extensions extensions

/-- Extensions start with whitespace and a semicolon, and how much whitespace
does not matter. -/
theorem Extensions.shape {text : Bytes} (h : Extensions text) : text = [] ∨
    ∃ gap rest, text = gap ++ semicolon :: rest ∧ IsGap gap ∧
      ∀ other, IsGap other → Extensions (other ++ semicolon :: rest) := by
  cases h with
  | nil => exact Or.inl rfl
  | name hbefore hgap hname hrest =>
    exact Or.inr ⟨_, _, rfl, hbefore, fun other hother => .name hother hgap hname hrest⟩
  | value hbefore hgap hname hleft hright hword hrest =>
    exact Or.inr ⟨_, _, rfl, hbefore,
      fun other hother => .value hother hgap hname hleft hright hword hrest⟩

theorem stops_semicolon (p : UInt8 → Bool) (rest : Bytes) (h : p semicolon = false) :
    Stops p (semicolon :: rest) := stops_cons rest h

/-- Neither a token nor a number goes on with an extension. -/
theorem Extensions.stops {text : Bytes} {p : UInt8 → Bool} (h : Extensions text)
    (hows : ∀ byte, isOws byte = true → p byte = false) (hsemi : p semicolon = false) :
    Stops p text := by
  rcases h.shape with rfl | ⟨gap, rest, rfl, hgap, _⟩
  · exact stops_nil p
  · cases gap with
    | nil => exact stops_cons _ hsemi
    | cons byte gap => exact stops_cons _ (hows byte (hgap byte (List.mem_cons_self ..)))

section Extension

variable {line rest : Bytes} {start next : Nat}

/-- A turn that goes on has taken one extension off the front. -/
theorem parseExtension_sound (h : At line start rest) (hparse : parseExtension line start = some next) :
    ∃ left, At line next left ∧ (Extensions left → Extensions rest) := by
  obtain ⟨before, r1, rfl, hbefore, _, _, hat1⟩ := skipOws_split h
  unfold parseExtension at hparse
  simp only [hat1.getElem?] at hparse
  generalize skipOws line start = semi at hparse hat1
  split at hparse
  case isFalse => cases hparse
  case isTrue hsemi =>
  obtain ⟨r2, rfl⟩ := List.head?_eq_some_iff.mp hsemi
  obtain ⟨gap, r3, rfl, hgap, _, _, hat3⟩ := skipOws_split hat1.next
  generalize skipOws line (semi + 1) = nameStart at hparse hat3
  obtain ⟨name, r4, rfl, hname, _, hcount, hat4⟩ := countToken_split hat3
  rw [hcount] at hparse
  split at hparse
  case isTrue => cases hparse
  case isFalse hne =>
  have htoken : IsToken name := ⟨fun hnil => hne (by rw [hnil]; rfl), hname⟩
  obtain ⟨left, r5, rfl, hleft, _, hskip5, hat5⟩ := skipOws_split hat4
  generalize hafter : skipOws line (nameStart + name.length) = afterName at hparse hat5 hskip5
  rw [hat5.getElem?] at hparse
  split at hparse
  · -- A value follows the name.
    next hequals =>
    obtain ⟨r6, rfl⟩ := List.head?_eq_some_iff.mp hequals
    obtain ⟨right, r7, rfl, hright, _, _, hat7⟩ := skipOws_split hat5.next
    generalize skipOws line (afterName + 1) = valueStart at hparse hat7
    rw [hat7.getElem?] at hparse
    split at hparse
    · next hquote =>
      obtain ⟨r8, rfl⟩ := List.head?_eq_some_iff.mp hquote
      obtain ⟨word, r9, heq, hword, rfl⟩ := parseQuotedString_some hat7 hparse
      rw [heq] at hat7 ⊢
      exact ⟨r9, hat7.skip, fun hrest =>
        .value hbefore hgap htoken hleft hright (Or.inr hword) hrest⟩
    · obtain ⟨word, r9, rfl, hword, _, hcount, hat9⟩ := countToken_split hat7
      rw [hcount] at hparse
      split at hparse
      · cases hparse
      · next hne =>
        cases hparse
        refine ⟨r9, hat9, fun hrest => .value hbefore hgap htoken hleft hright (Or.inl ⟨?_, hword⟩) hrest⟩
        intro hnil
        exact hne (by rw [hnil]; rfl)
  · split at hparse
    · cases hparse
    · next hends =>
      rw [Option.some.injEq] at hparse
      subst hparse
      refine ⟨r5, hat5, fun hrest => ?_⟩
      -- Whitespace after the name is part of the extension that follows.
      have hrest' : Extensions (left ++ r5) := by
        by_cases hnone : afterName = nameStart + name.length
        · have hnil : left = [] := List.length_eq_zero_iff.mp (by omega)
          rw [hnil]
          exact hrest
        · rcases hrest.shape with rfl | ⟨gap', r6, rfl, hgap', hother⟩
          · exact absurd ⟨hnone, by simp⟩ hends
          · cases gap' with
            | nil => exact hother left hleft
            | cons byte gap' =>
              exfalso
              apply hends
              refine ⟨hnone, fun hhead => ?_⟩
              have hsemi : byte = semicolon := by simpa using hhead
              have hows := hgap' byte (List.mem_cons_self ..)
              rw [hsemi] at hows
              revert hows
              decide
      exact .name hbefore hgap htoken hrest'

/-- The scan up to the end of an extension name. -/
theorem parseExtension_upto_name {before gap name tail : Bytes}
    (h : At line start (before ++ semicolon :: (gap ++ (name ++ tail)))) (hbefore : IsGap before)
    (hgap : IsGap gap) (hname : IsToken name) (hstop : Stops isTokenByte tail) :
    ∃ nameEnd, At line nameEnd tail ∧ parseExtension line start =
      (if (line)[skipOws line nameEnd]? = some equalsSign then
        (if (line)[skipOws line (skipOws line nameEnd + 1)]? = some quote then
          parseQuotedString line (skipOws line (skipOws line nameEnd + 1))
        else
          (if skipOws line (skipOws line nameEnd + 1) + countWhile isTokenByte
              (line.drop (skipOws line (skipOws line nameEnd + 1))) =
              skipOws line (skipOws line nameEnd + 1) then none
          else some (skipOws line (skipOws line nameEnd + 1) + countWhile isTokenByte
            (line.drop (skipOws line (skipOws line nameEnd + 1))))))
      else if skipOws line nameEnd ≠ nameEnd ∧ (line)[skipOws line nameEnd]? ≠ some semicolon then none
      else some (skipOws line nameEnd)) := by
  have hsemi := skipOws_run h hbefore (stops_semicolon isOws _ (by decide))
  have hat1 := h.skip
  have hnameStart := skipOws_run hat1.next hgap (hname.stops_gap tail)
  have hat3 := hat1.next.skip
  have hcount := countToken_run hat3 hname.2 hstop
  have hne : ∀ n, n + name.length ≠ n := fun n heq =>
    hname.1 (List.length_eq_zero_iff.mp (by omega))
  refine ⟨_, hat3.skip, ?_⟩
  unfold parseExtension
  simp only [hsemi, hat1.getElem?, List.head?_cons, hnameStart, hcount, if_pos, hne, if_false]

/-- Where there are extensions the turn takes the first of them. -/
theorem parseExtension_complete (h : At line start rest) (hrest : Extensions rest) (hne : rest ≠ []) :
    ∃ next left, parseExtension line start = some next ∧ At line next left ∧ Extensions left := by
  cases hrest with
  | nil => exact absurd rfl hne
  | @name before gap name tail hbefore hgap hname htail =>
    have hstop : Stops isTokenByte tail := htail.stops isOws_not_token (by decide)
    obtain ⟨nameEnd, hat, hparse⟩ := parseExtension_upto_name h hbefore hgap hname hstop
    rw [hparse]
    rcases htail.shape with rfl | ⟨gap', tail', rfl, hgap', hother⟩
    · have hskip := skipOws_stop hat (stops_nil _)
      rw [hskip, hat.getElem?]
      exact ⟨nameEnd, [], by simp, hat, .nil⟩
    · have hskip := skipOws_run hat hgap' (stops_semicolon isOws tail' (by decide))
      have hat' := hat.skip
      have hsemi : (some semicolon = some equalsSign) = False := by decide
      rw [hskip, hat'.getElem?]
      refine ⟨nameEnd + gap'.length, semicolon :: tail', ?_, hat', hother [] isGap_nil⟩
      simp [hsemi]
  | @value before gap name left right word tail hbefore hgap hname hleft hright hword htail =>
    have hstop : Stops isTokenByte (left ++ equalsSign :: (right ++ (word ++ tail))) :=
      hleft.stops_token (stops_cons _ (by decide))
    obtain ⟨nameEnd, hat, hparse⟩ := parseExtension_upto_name h hbefore hgap hname hstop
    have hskip := skipOws_run hat hleft (stops_cons _ (by decide))
    have hat2 := hat.skip
    rw [hparse, hskip, hat2.getElem?, List.head?_cons, if_pos rfl]
    have hstopTail : Stops isTokenByte tail := htail.stops isOws_not_token (by decide)
    rcases hword with htoken | hquoted
    · have hskip2 := skipOws_run hat2.next hright (htoken.stops_gap tail)
      have hat3 := hat2.next.skip
      obtain ⟨byte, hhead, hbyte⟩ := htoken.head tail
      have hquote : byte ≠ quote := by
        rintro rfl
        revert hbyte
        decide
      have hcount := countToken_run hat3 htoken.2 hstopTail
      refine ⟨_, tail, ?_, hat3.skip, htail⟩
      rw [hskip2, hat3.getElem?, hhead, if_neg (by simpa using hquote), hcount, if_neg]
      intro heq
      exact htoken.1 (List.length_eq_zero_iff.mp (by omega))
    · obtain ⟨body, hbody, rfl⟩ := hquoted
      have hskip2 := skipOws_run hat2.next hright (stops_cons _ (by decide))
      have hat3 := hat2.next.skip
      refine ⟨_, tail, ?_, hat3.skip, htail⟩
      rw [hskip2, hat3.getElem?, List.cons_append, List.cons_append, List.head?_cons, if_pos rfl]
      exact parseQuotedString_quoted hat3 ⟨body, hbody, rfl⟩

theorem validExtensions_step (h : start < line.length) :
    validExtensions line start = (parseExtension line start).any (validExtensions line ·) := by
  rw [validExtensions, if_pos h]
  split
  next next hparse => rw [hparse, Option.any_some]
  next hparse => rw [hparse, Option.any_none]

theorem validExtensions_iff (h : At line start rest) :
    validExtensions line start = true ↔ Extensions rest := by
  induction start using validExtensions.induct line generalizing rest with
  | case1 start hlt next hparse ih =>
    rw [validExtensions_step hlt, hparse]
    constructor
    · intro hvalid
      obtain ⟨left, hat, himp⟩ := parseExtension_sound h hparse
      exact himp ((ih hat).mp hvalid)
    · intro hrest
      have hne : rest ≠ [] := fun hnil => by
        have := h.nil_iff.mp hnil
        omega
      obtain ⟨next', left, hparse', hat, hleft⟩ := parseExtension_complete h hrest hne
      rw [hparse] at hparse'
      cases hparse'
      exact (ih hat).mpr hleft
  | case2 start hlt hparse =>
    rw [validExtensions_step hlt, hparse]
    constructor
    · intro hfalse
      simp at hfalse
    · intro hrest
      have hne : rest ≠ [] := fun hnil => by
        have := h.nil_iff.mp hnil
        omega
      obtain ⟨next', left, hparse', _, _⟩ := parseExtension_complete h hrest hne
      rw [hparse] at hparse'
      cases hparse'
  | case3 start hge =>
    rw [validExtensions, if_neg hge]
    have hnil : rest = [] := h.nil_iff.mpr (by omega)
    rw [hnil]
    exact ⟨fun _ => .nil, fun _ => rfl⟩

end Extension

/-! ## The whole line -/

/-- One turn of the extension loop, or the end of it. -/
def extensionTurn (line : Bytes) (start : Nat) : Bool ⊕ Nat :=
  if start < line.length then
    match parseExtension line start with
    | some next => .inr next
    | none => .inl false
  else .inl true

/-- The loop ends on every line. -/
theorem validExtensions_loop (line : Bytes) (start : Nat) :
    loop (extensionTurn line) (line.length + 1) start = some (validExtensions line start) := by
  refine loop_ends (validExtensions line) (fun start => line.length - start) ?_ ?_ (by omega)
  · intro start result hturn
    unfold extensionTurn at hturn
    split at hturn
    next hlt =>
      split at hturn
      next next hparse => cases hturn
      next hparse =>
        cases hturn
        rw [validExtensions_step hlt, hparse, Option.any_none]
    next hge =>
      cases hturn
      rw [validExtensions, if_neg hge]
  · intro start next hturn
    unfold extensionTurn at hturn
    split at hturn
    next hlt =>
      split at hturn
      next next' hparse =>
        cases hturn
        have hgt := parseExtension_gt hparse
        refine ⟨by omega, ?_⟩
        rw [validExtensions_step hlt, hparse, Option.any_some]
      next hparse => cases hturn
    next hge => cases hturn

theorem isAsciiHexdigit_not_ows : ∀ byte, isOws byte = true → isAsciiHexdigit byte = false :=
  forall_byte (by decide +kernel)

/-- The digits of a line are the longest run of them: no extension goes on
with a digit. -/
theorem parseChunkHeader_run {digits rest : Bytes}
    (hdigits : ∀ byte ∈ digits, isAsciiHexdigit byte = true) (hstop : Stops isAsciiHexdigit rest) :
    parseChunkHeader (digits ++ rest) =
      match parseNumber digits 16 with
      | none => none
      | some size => if validExtensions (digits ++ rest) digits.length then some size else none := by
  unfold parseChunkHeader countWhile
  rw [takeWhile_run hdigits hstop]
  dsimp only
  rewrite [List.take_left]
  rfl

theorem parseChunkHeader_iff (line : Bytes) (size : Nat) :
    parseChunkHeader line = some size ↔ SizeLine line size := by
  constructor
  · intro h
    obtain ⟨digits, rest, rfl, hdigits, hstop, _⟩ := exists_run isAsciiHexdigit line
    rw [parseChunkHeader_run hdigits hstop] at h
    split at h
    · cases h
    next number hnumber =>
      rw [Option.ite_none_right_eq_some] at h
      obtain ⟨hvalid, hsize⟩ := h
      cases hsize
      obtain ⟨hne, _, hvalue, hfits⟩ :=
        (parseNumber_iff (by decide) toDigit_hex digits size).mp hnumber
      exact ⟨digits, rest, rfl, hne, hdigits, hvalue, hfits,
        (validExtensions_iff (At.after digits rest)).mp hvalid⟩
  · rintro ⟨digits, extensions, rfl, hne, hdigits, hvalue, hfits, hext⟩
    have hstop : Stops isAsciiHexdigit extensions := hext.stops isAsciiHexdigit_not_ows (by decide)
    have hnumber := (parseNumber_iff (by decide) toDigit_hex digits size).mpr
      ⟨hne, hdigits, hvalue, hfits⟩
    have hvalid := (validExtensions_iff (At.after digits extensions)).mpr hext
    rw [parseChunkHeader_run hdigits hstop, hnumber]
    simp only [hvalid, if_true]

/-- Zeros in front change nothing of the value. -/
theorem numeral_zeros (zeros : Nat) (digits : Bytes) :
    numeral 16 hexValue (List.replicate zeros 48 ++ digits) = numeral 16 hexValue digits := by
  unfold numeral
  rw [List.foldl_append]
  congr 1
  induction zeros with
  | zero => rfl
  | succ zeros ih =>
    rw [List.replicate_succ', List.foldl_append, ih]
    rfl

/-- `parse_chunk_header` accepts `chunk-size [ chunk-ext ]` and nothing else. -/
theorem chunk_header_is_its_grammar (line : Bytes) :
    (∀ size, parseChunkHeader line = some size ↔ SizeLine line size) ∧
    -- Leading zeros are accepted, as many as there are.
    (∀ zeros size, SizeLine line size →
      parseChunkHeader (List.replicate zeros 48 ++ line) = some size) ∧
    -- A number that does not fit a `usize` is not.
    (∀ digits extensions, line = digits ++ extensions →
      (∀ byte ∈ digits, isAsciiHexdigit byte = true) → Stops isAsciiHexdigit extensions →
      2 ^ 64 ≤ numeral 16 hexValue digits → parseChunkHeader line = none) ∧
    -- The loop over the extensions ends.
    (∀ start, loop (extensionTurn line) (line.length + 1) start =
      some (validExtensions line start)) := by
  refine ⟨parseChunkHeader_iff line, ?_, ?_, validExtensions_loop line⟩
  · rintro zeros size ⟨digits, extensions, rfl, hne, hdigits, hvalue, hfits, hext⟩
    rw [parseChunkHeader_iff]
    refine ⟨List.replicate zeros 48 ++ digits, extensions, (List.append_assoc ..).symm, by simp [hne],
      ?_, ?_, hfits, hext⟩
    · intro byte hmem
      rcases List.mem_append.mp hmem with hzero | hdigit
      · rw [List.eq_of_mem_replicate hzero]
        decide
      · exact hdigits byte hdigit
    · rw [numeral_zeros, hvalue]
  · rintro digits extensions rfl hdigits hstop hlarge
    have hnone : parseNumber digits 16 = none := by
      cases hnumber : parseNumber digits 16 with
      | none => rfl
      | some number =>
        obtain ⟨_, _, hvalue, hfits⟩ :=
          (parseNumber_iff (by decide) toDigit_hex digits number).mp hnumber
        have hmax : usizeMax < 2 ^ 64 := by decide
        omega
    rw [parseChunkHeader_run hdigits hstop, hnone]

example : parseChunkHeader (ascii "00a ; x = \"\\\";\";y") = some 10 := by decide +kernel
example : parseChunkHeader (ascii "a;x ") = none := by decide +kernel

end H11r
