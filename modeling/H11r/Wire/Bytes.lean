/-!
# Byte classes and scanning primitives

The small predicates and scanners that the wire modules of the source share:
`is_tchar` of `method.rs`, the value classes and index scanners of
`wire/fields.rs`, and `parse_number` of `wire/chunked.rs`.

A `&[u8]` is a `List UInt8` here and a `usize` a `Nat`. A length, an index or
a sum that stays below the length of something in memory cannot leave the
64-bit range, so only the two places where the source computes with numbers
that no memory backs say what happens at the word limit: `parseNumber` reads
with the checked operations, and `usizeAdd` wraps as a release build does.

The scanners keep the source's index arithmetic, indices past the end of the
value included.
-/

namespace H11r

abbrev Bytes := List UInt8

/-- The bytes of an ASCII literal. -/
def ascii (text : String) : Bytes := text.toList.map Char.toUInt8

def cr : UInt8 := 13
def lf : UInt8 := 10
def sp : UInt8 := 32
def ht : UInt8 := 9
def comma : UInt8 := 44
def semicolon : UInt8 := 59
def equalsSign : UInt8 := 61
def quote : UInt8 := 34
def backslash : UInt8 := 92
def slash : UInt8 := 47
def colon : UInt8 := 58

/-- The two bytes that end a line. -/
def crlf : Bytes := [cr, lf]

/-- `usize::MAX` on a 64-bit target. -/
def usizeMax : Nat := UInt64.size - 1

/-- `usize` addition in a release build, which does not check for overflow. -/
def usizeAdd (a b : Nat) : Nat := (a + b) % UInt64.size

/-- `usize::saturating_mul`. -/
def saturatingMul (a b : Nat) : Nat := min (a * b) usizeMax

def isAsciiDigit (byte : UInt8) : Bool := 48 ≤ byte && byte ≤ 57

def isAsciiAlphabetic (byte : UInt8) : Bool :=
  (65 ≤ byte && byte ≤ 90) || (97 ≤ byte && byte ≤ 122)

def isAsciiAlphanumeric (byte : UInt8) : Bool := isAsciiAlphabetic byte || isAsciiDigit byte

def isAsciiHexdigit (byte : UInt8) : Bool :=
  isAsciiDigit byte || (65 ≤ byte && byte ≤ 70) || (97 ≤ byte && byte ≤ 102)

/-- `u8::is_ascii_graphic`: visible ASCII. -/
def isAsciiGraphic (byte : UInt8) : Bool := 33 ≤ byte && byte ≤ 126

def toAsciiLowercase (byte : UInt8) : UInt8 :=
  if 65 ≤ byte && byte ≤ 90 then byte + 32 else byte

def eqIgnoreAsciiCase (left right : Bytes) : Bool :=
  left.map toAsciiLowercase == right.map toAsciiLowercase

/-- `is_tchar`, the token bytes of RFC 9110 Section 5.6.2. -/
def isTokenByte (byte : UInt8) : Bool :=
  isAsciiAlphanumeric byte || (ascii "!#$%&'*+-.^_`|~").contains byte

def isLineValueByte (byte : UInt8) : Bool :=
  byte == ht || (32 ≤ byte && byte ≤ 126) || 128 ≤ byte

def isFieldVchar (byte : UInt8) : Bool := (33 ≤ byte && byte ≤ 126) || 128 ≤ byte

/-- The `b' ' | b'\t'` pattern of the source. -/
def isOws (byte : UInt8) : Bool := byte == sp || byte == ht

def validName (name : Bytes) : Bool := !name.isEmpty && name.all isTokenByte

def validValue (value : Bytes) : Bool :=
  value.isEmpty ||
    (value.head?.any isFieldVchar && value.getLast?.any isFieldVchar && value.all isLineValueByte)

def trimOws (value : Bytes) : Bytes :=
  ((value.dropWhile isOws).reverse.dropWhile isOws).reverse

/-- `char::to_digit` on a byte taken as a character, for radix 10 and 16. -/
def toDigit (byte : UInt8) (radix : Nat) : Option Nat :=
  let digit :=
    if isAsciiDigit byte then byte.toNat - 48
    else if 97 ≤ byte && byte ≤ 122 then byte.toNat - 97 + 10
    else if 65 ≤ byte && byte ≤ 90 then byte.toNat - 65 + 10
    else radix
  if digit < radix then some digit else none

/-- The fold of `parse_number`: `checked_mul`, then `checked_add`. -/
def parseDigits (radix : Nat) : Nat → Bytes → Option Nat
  | number, [] => some number
  | number, byte :: rest =>
    if number * radix ≤ usizeMax then
      match toDigit byte radix with
      | some digit =>
        if number * radix + digit ≤ usizeMax then parseDigits radix (number * radix + digit) rest
        else none
      | none => none
    else none

def parseNumber (value : Bytes) (radix : Nat) : Option Nat :=
  if value.isEmpty then none else parseDigits radix 0 value

/-- The number of bytes from the front of `value` that satisfy `p`. -/
def countWhile (p : UInt8 → Bool) (value : Bytes) : Nat := (value.takeWhile p).length

def skipOws (value : Bytes) (start : Nat) : Nat := start + countWhile isOws (value.drop start)

/-- The end of the token at `start`. Past the end of the value `slice[..]`
is empty, and the source answers `value.len()`. -/
def tokenEnd (value : Bytes) (start : Nat) : Nat :=
  if start ≤ value.length then start + countWhile isTokenByte (value.drop start) else value.length

/-- The bytes that stand for themselves between the quotes. -/
def isQdtext (byte : UInt8) : Bool :=
  byte == ht || byte == 32 || byte == 33 || (35 ≤ byte && byte ≤ 91) ||
    (93 ≤ byte && byte ≤ 126) || 128 ≤ byte

/-- The loop of `parse_quoted_string` from the byte after the quote: the
number of bytes up to and with the closing quote. -/
def quotedLength : Bytes → Option Nat
  | [] => none
  | byte :: rest =>
    if byte == quote then some 1
    else if byte == backslash then
      match rest with
      | [] => none
      | escaped :: rest => if isLineValueByte escaped then (quotedLength rest).map (· + 2) else none
    else if isQdtext byte then (quotedLength rest).map (· + 1)
    else none

def parseQuotedString (value : Bytes) (start : Nat) : Option Nat :=
  (quotedLength (value.drop (start + 1))).map (start + 1 + ·)

/-- A fact about every byte is checked byte by byte. -/
theorem forall_byte {p : UInt8 → Prop} (h : ∀ n < 256, p (UInt8.ofNat n)) (byte : UInt8) : p byte := by
  rw [← UInt8.ofNat_toNat (x := byte)]
  exact h _ byte.toNat_lt

/-! ## Line breaks are in none of the classes -/

theorem isTokenByte_ne_lf {byte : UInt8} (h : isTokenByte byte = true) : byte ≠ lf := by
  rintro rfl
  revert h
  decide

theorem isTokenByte_ne_cr {byte : UInt8} (h : isTokenByte byte = true) : byte ≠ cr := by
  rintro rfl
  revert h
  decide

theorem isLineValueByte_ne_lf {byte : UInt8} (h : isLineValueByte byte = true) : byte ≠ lf := by
  rintro rfl
  revert h
  decide

theorem isLineValueByte_ne_cr {byte : UInt8} (h : isLineValueByte byte = true) : byte ≠ cr := by
  rintro rfl
  revert h
  decide

theorem lf_not_mem_token {name : Bytes} (h : name.all isTokenByte = true) : lf ∉ name :=
  fun hmem => isTokenByte_ne_lf (List.all_eq_true.mp h _ hmem) rfl

theorem lf_not_mem_value {value : Bytes} (h : value.all isLineValueByte = true) : lf ∉ value :=
  fun hmem => isLineValueByte_ne_lf (List.all_eq_true.mp h _ hmem) rfl

/-! ## Valid names and values -/

theorem isFieldVchar_not_ows {byte : UInt8} (h : isFieldVchar byte = true) : isOws byte = false := by
  unfold isFieldVchar at h
  unfold isOws sp ht
  rw [Bool.or_eq_false_iff, beq_eq_false_iff_ne, beq_eq_false_iff_ne]
  constructor
  · rintro rfl
    revert h
    decide
  · rintro rfl
    revert h
    decide

/-- A valid value has no whitespace at its ends. -/
theorem trimOws_valid {value : Bytes} (h : validValue value = true) :
    trimOws (sp :: value) = value ∧ countWhile isOws (sp :: value) = 1 := by
  have hsp : isOws sp = true := by decide
  unfold validValue at h
  rw [Bool.or_eq_true, Bool.and_eq_true, Bool.and_eq_true] at h
  unfold trimOws countWhile
  rw [List.dropWhile_cons_of_pos hsp, List.takeWhile_cons_of_pos hsp]
  rcases h with hempty | ⟨⟨hhead, hlast⟩, _⟩
  · rw [List.isEmpty_iff] at hempty
    subst hempty
    exact ⟨rfl, rfl⟩
  · cases value with
    | nil => exact ⟨rfl, rfl⟩
    | cons first rest =>
      have hfirst : isOws first = false := isFieldVchar_not_ows (by simpa using hhead)
      obtain ⟨last, hlast'⟩ : ∃ last, (first :: rest).getLast? = some last :=
        ⟨_, List.getLast?_eq_some_getLast (by simp)⟩
      have hvchar : isFieldVchar last = true := by
        rw [hlast'] at hlast
        exact hlast
      obtain ⟨before, hbefore⟩ := List.getLast?_eq_some_iff.mp hlast'
      have hreverse : (first :: rest).reverse = last :: before.reverse := by
        rw [hbefore, List.reverse_append]
        rfl
      have hdrop : ∀ {l : Bytes} {byte : UInt8}, isOws byte = false →
          (byte :: l).dropWhile isOws = byte :: l := fun h => List.dropWhile_cons_of_neg (by simp [h])
      refine ⟨?_, ?_⟩
      · rw [hdrop hfirst, hreverse, hdrop (isFieldVchar_not_ows hvchar), ← hreverse,
          List.reverse_reverse]
      · rw [List.takeWhile_cons_of_neg (by simp [hfirst])]
        rfl

theorem validValue_all {value : Bytes} (h : validValue value = true) :
    value.all isLineValueByte = true := by
  unfold validValue at h
  rw [Bool.or_eq_true, Bool.and_eq_true, Bool.and_eq_true] at h
  rcases h with hempty | ⟨_, hall⟩
  · rw [List.isEmpty_iff] at hempty
    subst hempty
    rfl
  · exact hall

theorem validName_token {name : Bytes} (h : validName name = true) :
    name ≠ [] ∧ name.all isTokenByte = true := by
  unfold validName at h
  rw [Bool.and_eq_true, Bool.not_eq_true', List.isEmpty_eq_false_iff] at h
  exact h

end H11r
