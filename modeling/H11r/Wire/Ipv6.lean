import Mathlib
import H11r.Wire.Grammar

/-!
# IPv6 address text

The reader of the standard library that `valid_ip_literal` relies on, against
the grammar of RFC 3986: eight groups of at most four hex digits, the last two
of which may be an IPv4 address, or fewer with one `::` in the place of the
rest. The reader is greedy and tries an IPv4 address before every group; that
it never goes wrong on an address is what each `_complete` lemma says.
-/

namespace H11r

open Lib

def dot : UInt8 := 46

/-- `h16 = 1*4HEXDIG`. -/
def IsH16 (piece : Bytes) : Prop :=
  piece ≠ [] ∧ piece.length ≤ 4 ∧ ∀ byte ∈ piece, isAsciiHexdigit byte = true

/-- `dec-octet`: a number up to 255 without leading zeros. -/
def IsOctet (piece : Bytes) : Prop :=
  piece ≠ [] ∧ piece.length ≤ 3 ∧ (∀ byte ∈ piece, isAsciiDigit byte = true) ∧
    (1 < piece.length → piece.head? ≠ some 48) ∧ numeral 10 decimalValue piece ≤ 255

/-- Octets, each but the first of an address after a dot. -/
inductive Octets : (left index : Nat) → Bytes → Prop
  | nil {index : Nat} : Octets 0 index []
  | first {left : Nat} {octet rest : Bytes} (hoctet : IsOctet octet) (hrest : Octets left 1 rest) :
      Octets (left + 1) 0 (octet ++ rest)
  | next {left index : Nat} {octet rest : Bytes} (hindex : 0 < index) (hoctet : IsOctet octet)
      (hrest : Octets left (index + 1) rest) : Octets (left + 1) index (dot :: (octet ++ rest))

/-- `IPv4address`: four octets. -/
def IsIpv4 (text : Bytes) : Prop := Octets 4 0 text

/-- `h16 *( ":" h16 )` with so many groups. -/
inductive Hextets : Nat → Bytes → Prop
  | one {piece : Bytes} (hpiece : IsH16 piece) : Hextets 1 piece
  | cons {count : Nat} {piece rest : Bytes} (hpiece : IsH16 piece) (hrest : Hextets count rest) :
      Hextets (count + 1) (piece ++ colon :: rest)

/-- The same, where an IPv4 address may stand for the last two groups. -/
inductive Groups : Nat → Bytes → Prop
  | one {piece : Bytes} (hpiece : IsH16 piece) : Groups 1 piece
  | ipv4 {address : Bytes} (haddress : IsIpv4 address) : Groups 2 address
  | cons {count : Nat} {piece rest : Bytes} (hpiece : IsH16 piece) (hrest : Groups count rest) :
      Groups (count + 1) (piece ++ colon :: rest)

/-- `IPv6address` of RFC 3986 Section 3.2.2. -/
def IsIpv6 (text : Bytes) : Prop :=
  Groups 8 text ∨
    ∃ head tail headCount tailCount, text = head ++ colon :: colon :: tail ∧
      (head = [] ∧ headCount = 0 ∨ Hextets headCount head) ∧
      (tail = [] ∧ tailCount = 0 ∨ Groups tailCount tail) ∧ headCount + tailCount ≤ 7

theorem Hextets.groups {count : Nat} {text : Bytes} (h : Hextets count text) : Groups count text := by
  induction h with
  | one hpiece => exact .one hpiece
  | cons hpiece _ ih => exact .cons hpiece ih

/-! ## Numbers -/

theorem foldl_digits_lt {radix : Nat} {digit : UInt8 → Nat} {digits : Bytes}
    (h : ∀ byte ∈ digits, digit byte < radix) (number : Nat) :
    digits.foldl (fun number byte => number * radix + digit byte) number <
      (number + 1) * radix ^ digits.length := by
  induction digits generalizing number with
  | nil => simp
  | cons byte digits ih =>
    have hbyte := h byte (List.mem_cons_self ..)
    have hrest := ih (fun other hmem => h other (List.mem_cons_of_mem _ hmem))
      (number * radix + digit byte)
    have hstep : number * radix + digit byte + 1 ≤ (number + 1) * radix := by
      rw [Nat.add_mul]
      omega
    rw [List.foldl_cons, List.length_cons, Nat.pow_succ', ← Nat.mul_assoc]
    exact Nat.lt_of_lt_of_le hrest (Nat.mul_le_mul_right _ hstep)

theorem hexValue_lt : ∀ byte, isAsciiHexdigit byte = true → hexValue byte < 16 :=
  forall_byte (by decide +kernel)

theorem decimalValue_lt : ∀ byte, isAsciiDigit byte = true → decimalValue byte < 10 :=
  forall_byte (by decide +kernel)

theorem isSome_hex : (fun byte => (toDigit byte 16).isSome) = isAsciiHexdigit := by
  funext byte
  rw [toDigit_hex]
  cases isAsciiHexdigit byte <;> rfl

theorem isSome_decimal : (fun byte => (toDigit byte 10).isSome) = isAsciiDigit := by
  funext byte
  rw [toDigit_decimal]
  cases isAsciiDigit byte <;> rfl

/-- A group has at most four digits, so its value is never too large. -/
theorem readNumber_h16 {text rest : Bytes} : readNumber 16 4 65535 true text = some rest ↔
    ∃ piece, text = piece ++ rest ∧ IsH16 piece ∧ Stops isAsciiHexdigit rest := by
  obtain ⟨digits, after, rfl, hdigits, hstop, hrun⟩ := exists_run isAsciiHexdigit text
  have hvalue : digits.length ≤ 4 → numeral 16 hexValue digits < 65536 := by
    intro hlength
    have hlt := foldl_digits_lt (fun byte hmem => hexValue_lt byte (hdigits byte hmem)) 0
    refine Nat.lt_of_lt_of_le hlt ?_
    rw [Nat.zero_add, Nat.one_mul]
    exact Nat.pow_le_pow_right (by decide) hlength
  have hread : readNumber 16 4 65535 true (digits ++ after) =
      if digits = [] ∨ digits.length > 4 then none else some after := by
    unfold readNumber
    rw [isSome_hex, hrun]
    simp only [List.isEmpty_iff]
    split
    · rfl
    next hshort =>
      rw [not_or] at hshort
      have hlt := hvalue (by omega)
      have hmax : (65536 : Nat) ≤ usizeMax := by decide
      have hnumber := (parseNumber_iff (by decide) toDigit_hex digits _).mpr
        ⟨hshort.1, hdigits, rfl, by omega⟩
      rw [if_neg (by simp), hnumber, Option.all_some, if_pos (decide_eq_true (by omega)),
        List.drop_left]
  rw [hread, Option.ite_none_left_eq_some, not_or, Option.some.injEq]
  constructor
  · rintro ⟨⟨hne, hlength⟩, rfl⟩
    exact ⟨digits, rfl, ⟨hne, by omega, hdigits⟩, hstop⟩
  · rintro ⟨piece, heq, ⟨hne, hlength, hpiece⟩, hrest⟩
    have hsame : digits = piece := by
      rw [← takeWhile_run hdigits hstop, heq, takeWhile_run hpiece hrest]
    subst hsame
    exact ⟨⟨hne, by omega⟩, List.append_cancel_left heq⟩

theorem readNumber_octet {text rest : Bytes} : readNumber 10 3 255 false text = some rest ↔
    ∃ octet, text = octet ++ rest ∧ IsOctet octet ∧ Stops isAsciiDigit rest := by
  obtain ⟨digits, after, rfl, hdigits, hstop, hrun⟩ := exists_run isAsciiDigit text
  have hvalue : digits.length ≤ 3 → numeral 10 decimalValue digits < 1000 := by
    intro hlength
    have hlt := foldl_digits_lt (fun byte hmem => decimalValue_lt byte (hdigits byte hmem)) 0
    refine Nat.lt_of_lt_of_le hlt ?_
    rw [Nat.zero_add, Nat.one_mul]
    exact Nat.pow_le_pow_right (by decide) hlength
  have hread : readNumber 10 3 255 false (digits ++ after) =
      if digits = [] ∨ digits.length > 3 then none
      else if digits.head? = some 48 ∧ digits.length > 1 then none
      else if numeral 10 decimalValue digits ≤ 255 then some after else none := by
    unfold readNumber
    rw [isSome_decimal, hrun]
    simp only [List.isEmpty_iff]
    split
    · rfl
    next hshort =>
      rw [not_or] at hshort
      have hlt := hvalue (by omega)
      have hmax : (1000 : Nat) ≤ usizeMax := by decide
      have hnumber := (parseNumber_iff (by decide) toDigit_decimal digits _).mpr
        ⟨hshort.1, hdigits, rfl, by omega⟩
      rw [hnumber, Option.all_some, List.drop_left]
      simp
  rw [hread]
  constructor
  · intro h
    rw [Option.ite_none_left_eq_some, Option.ite_none_left_eq_some, Option.ite_none_right_eq_some,
      not_or, not_and, Option.some.injEq] at h
    obtain ⟨⟨hne, hlength⟩, hzero, hlimit, rfl⟩ := h
    exact ⟨digits, rfl, ⟨hne, by omega, hdigits, fun hlong hhead => hzero hhead hlong, hlimit⟩, hstop⟩
  · rintro ⟨octet, heq, ⟨hne, hlength, hoctet, hzero, hlimit⟩, hrest⟩
    have hsame : digits = octet := by
      rw [← takeWhile_run hdigits hstop, heq, takeWhile_run hoctet hrest]
    subst hsame
    rw [if_neg (by rw [not_or]; exact ⟨hne, by omega⟩), if_neg fun h => hzero h.2 h.1, if_pos hlimit,
      List.append_cancel_left heq]

/-! ## IPv4 addresses -/

theorem readGivenChar_some {char : UInt8} {text rest : Bytes} :
    readGivenChar char text = some rest ↔ text = char :: rest := by
  cases text with
  | nil => simp [readGivenChar]
  | cons byte text =>
    unfold readGivenChar
    rw [Option.ite_none_right_eq_some, Option.some.injEq, beq_iff_eq]
    constructor
    · rintro ⟨rfl, rfl⟩
      rfl
    · intro h
      exact List.cons.inj h

/-- The text of a part, after its separator if it is not the first. -/
def afterSeparator (separator : UInt8) (index : Nat) (text : Bytes) : Bytes :=
  if 0 < index then separator :: text else text

theorem readSeparator_some {separator : UInt8} {index : Nat} {inner : Bytes → Option Bytes}
    {text rest : Bytes} : readSeparator separator index inner text = some rest ↔
      ∃ body, text = afterSeparator separator index body ∧ inner body = some rest := by
  unfold readSeparator afterSeparator
  split
  · rw [Option.bind_eq_some_iff]
    constructor
    · rintro ⟨body, hchar, hinner⟩
      exact ⟨body, readGivenChar_some.mp hchar, hinner⟩
    · rintro ⟨body, htext, hinner⟩
      exact ⟨body, readGivenChar_some.mpr htext, hinner⟩
  · constructor
    · intro h
      exact ⟨text, rfl, h⟩
    · rintro ⟨body, rfl, h⟩
      exact h

theorem readIpv4Octets_sound {left index : Nat} {text rest : Bytes}
    (h : readIpv4Octets left index text = some rest) :
    ∃ address, text = address ++ rest ∧ Octets left index address ∧
      (0 < left → Stops isAsciiDigit rest) := by
  induction left generalizing index text with
  | zero =>
    cases h
    exact ⟨[], rfl, .nil, fun h => absurd h (Nat.lt_irrefl _)⟩
  | succ left ih =>
    rw [readIpv4Octets, Option.bind_eq_some_iff] at h
    obtain ⟨middle, hsep, hrest⟩ := h
    obtain ⟨body, rfl, hnumber⟩ := readSeparator_some.mp hsep
    obtain ⟨octet, rfl, hoctet, hstop⟩ := readNumber_octet.mp hnumber
    obtain ⟨address, rfl, haddress, hend⟩ := ih hrest
    have hstop' : Stops isAsciiDigit rest := by
      cases left with
      | zero =>
        cases haddress
        exact hstop
      | succ left => exact hend (Nat.succ_pos _)
    unfold afterSeparator
    split
    next hindex =>
      exact ⟨dot :: (octet ++ address), by simp [dot], .next hindex hoctet haddress, fun _ => hstop'⟩
    next hindex =>
      have hzero : index = 0 := by omega
      subst hzero
      exact ⟨octet ++ address, by simp, .first hoctet haddress, fun _ => hstop'⟩

/-- An octet is followed by the dot of the next, or by what follows the address. -/
theorem Octets.stops {left index : Nat} {address rest : Bytes} (h : Octets left index address)
    (hindex : 0 < index) (hrest : Stops isAsciiDigit rest) : Stops isAsciiDigit (address ++ rest) := by
  cases h with
  | nil => exact hrest
  | first => exact absurd hindex (Nat.lt_irrefl _)
  | next => exact stops_cons _ (by decide)

theorem readIpv4Octets_complete {left index : Nat} {address rest : Bytes}
    (h : Octets left index address) (hrest : Stops isAsciiDigit rest) :
    readIpv4Octets left index (address ++ rest) = some rest := by
  induction h with
  | nil => rfl
  | @first left octet more hoctet hmore ih =>
    rw [readIpv4Octets, Option.bind_eq_some_iff]
    refine ⟨more ++ rest, readSeparator_some.mpr ⟨_, rfl, readNumber_octet.mpr
      ⟨octet, List.append_assoc .., hoctet, hmore.stops (by decide) hrest⟩⟩, ih⟩
  | @next left index octet more hindex hoctet hmore ih =>
    rw [readIpv4Octets, Option.bind_eq_some_iff]
    refine ⟨more ++ rest, readSeparator_some.mpr ⟨octet ++ (more ++ rest), ?_, readNumber_octet.mpr
      ⟨octet, rfl, hoctet, hmore.stops (by omega) hrest⟩⟩, ih⟩
    unfold afterSeparator
    rw [if_pos hindex, List.cons_append, List.append_assoc]
    rfl

/-! ## Groups -/

theorem isAsciiDigit_hex : ∀ byte, isAsciiDigit byte = true → isAsciiHexdigit byte = true :=
  forall_byte (by decide +kernel)

/-- A group of hex digits that no dot follows is not the start of an IPv4 address. -/
theorem readIpv4Octets_h16 {piece rest : Bytes} (hpiece : ∀ byte ∈ piece, isAsciiHexdigit byte = true)
    (hstop : Stops isAsciiHexdigit rest) (hrest : rest.head? ≠ some dot) : readIpv4Octets 4 0 (piece ++ rest) = none := by
  cases h : readIpv4Octets 4 0 (piece ++ rest) with
  | none => rfl
  | some after =>
    exfalso
    obtain ⟨address, heq, haddress, _⟩ := readIpv4Octets_sound h
    cases haddress with
    | next hindex => exact absurd hindex (Nat.lt_irrefl _)
    | @first _ octet more hoctet hmore =>
    cases hmore with
    | @next _ _ octet' more' _ hoctet' hmore' =>
    -- The first octet is followed by a dot, which is in no group of hex digits.
    rw [List.append_assoc] at heq
    rcases List.append_eq_append_iff.mp heq with ⟨middle, hoctetEq, hmiddle⟩ | ⟨middle, hpieceEq, hmiddle⟩
    · cases middle with
      | nil =>
        rw [List.nil_append] at hmiddle
        exact hrest (by rw [hmiddle]; rfl)
      | cons byte middle =>
        have hdigit := hoctet.2.2.1 byte (by rw [hoctetEq]; simp)
        have hhex := hstop byte (by rw [hmiddle]; rfl)
        rw [isAsciiDigit_hex byte hdigit] at hhex
        cases hhex
    · cases middle with
      | nil =>
        rw [List.nil_append] at hmiddle
        exact hrest (by rw [← hmiddle]; rfl)
      | cons byte middle =>
        obtain ⟨rfl, _⟩ := List.cons.inj hmiddle
        have hdot := hpiece dot (by rw [hpieceEq]; simp)
        revert hdot
        decide

/-- Whatever may follow a group of an address: nothing, or a colon. -/
def EndsGroup (rest : Bytes) : Prop := rest = [] ∨ ∃ more, rest = colon :: more

theorem EndsGroup.stops {rest : Bytes} {p : UInt8 → Bool} (h : EndsGroup rest) (hcolon : p colon = false) :
    Stops p rest := by
  rcases h with rfl | ⟨more, rfl⟩
  · exact stops_nil p
  · exact stops_cons more hcolon

theorem EndsGroup.not_dot {rest : Bytes} (h : EndsGroup rest) : rest.head? ≠ some dot := by
  rcases h with rfl | ⟨more, rfl⟩
  · simp
  · simp [colon, dot]

theorem readSeparator_none {separator : UInt8} {index : Nat} {inner : Bytes → Option Bytes}
    {body : Bytes} (h : inner body = none) :
    readSeparator separator index inner (afterSeparator separator index body) = none := by
  cases hread : readSeparator separator index inner (afterSeparator separator index body) with
  | none => rfl
  | some rest =>
    obtain ⟨other, heq, hinner⟩ := readSeparator_some.mp hread
    have hsame : other = body := by
      unfold afterSeparator at heq
      split at heq
      · exact (List.cons.inj heq).2.symm
      · exact heq.symm
    rw [hsame, h] at hinner
    cases hinner

/-- One group is read, and the next one is looked for. -/
theorem readGroups_h16 (left index : Nat) {piece rest : Bytes} (hpiece : IsH16 piece)
    (hrest : EndsGroup rest) :
    readGroups (left + 1) index (afterSeparator colon index (piece ++ rest)) =
      readGroups left (index + 1) rest := by
  have hstop : Stops isAsciiHexdigit rest := hrest.stops (by decide)
  have hipv4 : readSeparator colon index (readIpv4Octets 4 0)
      (afterSeparator colon index (piece ++ rest)) = none :=
    readSeparator_none (readIpv4Octets_h16 hpiece.2.2 hstop hrest.not_dot)
  have hgroup : readSeparator colon index (readNumber 16 4 65535 true)
      (afterSeparator colon index (piece ++ rest)) = some rest :=
    readSeparator_some.mpr ⟨_, rfl, readNumber_h16.mpr ⟨piece, rfl, hpiece, hstop⟩⟩
  rw [readGroups, hipv4, ite_self]
  dsimp only
  rw [hgroup]

/-- An IPv4 address ends the groups. -/
theorem readGroups_ipv4 {left : Nat} (index : Nat) {address rest : Bytes} (haddress : IsIpv4 address)
    (hrest : EndsGroup rest) (hleft : 0 < left) :
    readGroups (left + 1) index (afterSeparator colon index (address ++ rest)) =
      (index + 2, true, rest) := by
  have hipv4 : readSeparator colon index (readIpv4Octets 4 0)
      (afterSeparator colon index (address ++ rest)) = some rest :=
    readSeparator_some.mpr ⟨_, rfl, readIpv4Octets_complete haddress (hrest.stops (by decide))⟩
  rw [readGroups, if_pos hleft, hipv4]

/-- Where no group starts none is read. -/
theorem readGroups_stop {left index : Nat} {text : Bytes}
    (h : ∀ body, text = afterSeparator colon index body → body = [] ∨ ∃ more, body = colon :: more) :
    readGroups left index text = (index, false, text) := by
  cases left with
  | zero => rfl
  | succ left =>
    have hnone : ∀ inner : Bytes → Option Bytes, inner [] = none →
        (∀ more, inner (colon :: more) = none) →
        readSeparator colon index inner text = none := by
      intro inner hnil hcolon
      cases hread : readSeparator colon index inner text with
      | none => rfl
      | some rest =>
        obtain ⟨body, heq, hinner⟩ := readSeparator_some.mp hread
        rcases h body heq with rfl | ⟨more, rfl⟩
        · rw [hnil] at hinner
          cases hinner
        · rw [hcolon] at hinner
          cases hinner
    have hipv4 := hnone (readIpv4Octets 4 0) (by decide) fun more => rfl
    have hgroup := hnone (readNumber 16 4 65535 true) (by decide) fun more => rfl
    rw [readGroups, hipv4, hgroup, ite_self]

theorem readGroups_hextets {count left : Nat} (index : Nat) {text rest : Bytes} (h : Hextets count text)
    (hleft : count ≤ left) (hrest : EndsGroup rest) :
    readGroups left index (afterSeparator colon index (text ++ rest)) =
      readGroups (left - count) (index + count) rest := by
  induction h generalizing left index with
  | @one piece hpiece =>
    obtain ⟨left, rfl⟩ := Nat.exists_eq_add_of_le' hleft
    rw [readGroups_h16 left index hpiece hrest, Nat.add_sub_cancel]
  | @cons count piece more hpiece hmore ih =>
    obtain ⟨left, rfl⟩ := Nat.exists_eq_add_of_le' (Nat.le_trans (Nat.le_add_left 1 count) hleft)
    have hmore' := ih (index + 1) (show count ≤ left by omega)
    unfold afterSeparator at hmore'
    rw [if_pos (Nat.succ_pos index)] at hmore'
    rw [List.append_assoc, List.cons_append, readGroups_h16 left index hpiece (Or.inr ⟨_, rfl⟩), hmore']
    congr 1 <;> omega

theorem readGroups_groups {count left : Nat} (index : Nat) {text : Bytes} (h : Groups count text)
    (hleft : count ≤ left) : ∃ ipv4,
    readGroups left index (afterSeparator colon index text) = (index + count, ipv4, []) := by
  induction h generalizing left index with
  | @one piece hpiece =>
    obtain ⟨left, rfl⟩ := Nat.exists_eq_add_of_le' hleft
    have hread := readGroups_h16 left index hpiece (Or.inl rfl)
    rw [List.append_nil] at hread
    refine ⟨false, hread.trans (readGroups_stop fun body heq => ?_)⟩
    unfold afterSeparator at heq
    rw [if_pos (Nat.succ_pos index)] at heq
    cases heq
  | @ipv4 address haddress =>
    obtain ⟨left, rfl⟩ := Nat.exists_eq_add_of_le' (Nat.le_trans (by decide : 1 ≤ 2) hleft)
    have hread := readGroups_ipv4 index haddress (Or.inl rfl) (show 0 < left by omega)
    rw [List.append_nil] at hread
    exact ⟨true, hread⟩
  | @cons count piece more hpiece hmore ih =>
    obtain ⟨left, rfl⟩ := Nat.exists_eq_add_of_le' (Nat.le_trans (Nat.le_add_left 1 count) hleft)
    obtain ⟨ipv4, hmore'⟩ := ih (index + 1) (show count ≤ left by omega)
    unfold afterSeparator at hmore'
    rw [if_pos (Nat.succ_pos index)] at hmore'
    refine ⟨ipv4, ?_⟩
    rw [readGroups_h16 left index hpiece (Or.inr ⟨_, rfl⟩), hmore', Nat.add_assoc, Nat.add_comm 1]

/-- What was read are groups. -/
theorem readGroups_sound {left index count : Nat} {text rest : Bytes} {ipv4 : Bool}
    (h : readGroups left index text = (count, ipv4, rest)) :
    (count = index ∧ ipv4 = false ∧ rest = text) ∨
      ∃ body read, text = afterSeparator colon index (body ++ rest) ∧ count = index + read ∧
        read ≤ left ∧ Groups read body ∧ (ipv4 = false → Hextets read body) := by
  induction left generalizing index text with
  | zero =>
    cases h
    exact Or.inl ⟨rfl, rfl, rfl⟩
  | succ left ih =>
    rw [readGroups] at h
    split at h
    next after hipv4 =>
      cases h
      rw [Option.ite_none_right_eq_some] at hipv4
      obtain ⟨body, rfl, hbody⟩ := readSeparator_some.mp hipv4.2
      obtain ⟨address, rfl, haddress, _⟩ := readIpv4Octets_sound hbody
      exact Or.inr ⟨address, 2, rfl, rfl, by omega, .ipv4 haddress, fun h => by cases h⟩
    next =>
      split at h
      next after hgroup =>
        obtain ⟨body, rfl, hbody⟩ := readSeparator_some.mp hgroup
        obtain ⟨piece, rfl, hpiece, _⟩ := readNumber_h16.mp hbody
        right
        rcases ih h with ⟨rfl, rfl, rfl⟩ | ⟨more, read, rfl, rfl, hread, hgroups, hhextets⟩
        · exact ⟨piece, 1, rfl, rfl, by omega, .one hpiece, fun _ => .one hpiece⟩
        · refine ⟨piece ++ colon :: more, read + 1, ?_, by omega, by omega, .cons hpiece hgroups,
            fun h => .cons hpiece (hhextets h)⟩
          unfold afterSeparator
          simp
      next =>
        cases h
        exact Or.inl ⟨rfl, rfl, rfl⟩

/-- The reader accepts the text of an address and no other. -/
theorem parseIpv6_iff (text : Bytes) : parseIpv6 text = true ↔ IsIpv6 text := by
  unfold parseIpv6
  constructor
  · intro h
    rcases hhead : readGroups 8 0 text with ⟨headCount, ipv4, rest⟩
    rw [hhead] at h
    dsimp only at h
    split at h
    next hcount =>
      rw [List.isEmpty_iff] at h
      subst h
      rcases readGroups_sound hhead with ⟨hzero, _, _⟩ | ⟨body, read, heq, hread, _, hgroups, _⟩
      · omega
      · left
        have htext : text = body := by simpa [afterSeparator] using heq
        have hread' : read = 8 := by omega
        rw [htext, ← hread']
        exact hgroups
    next hcount =>
      split at h
      · cases h
      next hipv4 =>
        split at h
        · cases h
        next tail htail =>
          obtain ⟨middle, hfirst, hsecond⟩ := Option.bind_eq_some_iff.mp htail
          have hrest : rest = colon :: colon :: tail := by
            rw [readGivenChar_some.mp hfirst, readGivenChar_some.mp hsecond]
          rcases htailRead : readGroups (8 - (headCount + 1)) 0 tail with ⟨tailCount, tailIpv4, after⟩
          rw [htailRead, List.isEmpty_iff] at h
          dsimp only at h
          subst h
          have htailGroups : (tail = [] ∧ tailCount = 0 ∨ Groups tailCount tail) ∧
              tailCount ≤ 8 - (headCount + 1) := by
            rcases readGroups_sound htailRead with ⟨hzero, _, hnil⟩ |
                ⟨body, read, heq, hread, hle, hgroups, _⟩
            · exact ⟨Or.inl ⟨hnil.symm, hzero⟩, by omega⟩
            · have hbody : tail = body := by simpa [afterSeparator] using heq
              have hcount' : tailCount = read := by omega
              rw [hbody, hcount']
              exact ⟨Or.inr hgroups, hle⟩
          right
          rcases readGroups_sound hhead with ⟨hzero, _, hsame⟩ | ⟨body, read, heq, hread, hle, _, hhextets⟩
          · refine ⟨[], tail, 0, tailCount, ?_, Or.inl ⟨rfl, rfl⟩, htailGroups.1, by omega⟩
            rw [← hsame, hrest]
            rfl
          · refine ⟨body, tail, read, tailCount, ?_, Or.inr (hhextets (by simpa using hipv4)),
              htailGroups.1, by omega⟩
            rw [heq, hrest]
            rfl
  · rintro (hgroups | ⟨head, tail, headCount, tailCount, rfl, hhead, htail, hcount⟩)
    · obtain ⟨ipv4, hread⟩ := readGroups_groups 0 hgroups (Nat.le_refl 8)
      have hread' : readGroups 8 0 text = (8, ipv4, []) := by simpa [afterSeparator] using hread
      rw [hread']
      rfl
    · have hstop : ∀ index left, readGroups left index (colon :: colon :: tail) =
          (index, false, colon :: colon :: tail) := by
        intro index left
        refine readGroups_stop fun body heq => ?_
        unfold afterSeparator at heq
        split at heq
        · exact Or.inr ⟨tail, (List.cons.inj heq).2.symm⟩
        · exact Or.inr ⟨colon :: tail, heq.symm⟩
      have hreadHead : readGroups 8 0 (head ++ colon :: colon :: tail) =
          (headCount, false, colon :: colon :: tail) := by
        rcases hhead with ⟨rfl, rfl⟩ | hhextets
        · exact hstop 0 8
        · have hread := readGroups_hextets 0 hhextets (show headCount ≤ 8 by omega)
            (Or.inr ⟨colon :: tail, rfl⟩)
          rw [hstop, Nat.zero_add] at hread
          exact hread
      have hreadTail : ∃ count ipv4, readGroups (8 - (headCount + 1)) 0 tail = (count, ipv4, []) := by
        rcases htail with ⟨rfl, rfl⟩ | hgroups
        · refine ⟨0, false, readGroups_stop fun body heq => Or.inl ?_⟩
          simpa [afterSeparator] using heq.symm
        · obtain ⟨ipv4, hread⟩ := readGroups_groups 0 hgroups
            (show tailCount ≤ 8 - (headCount + 1) by omega)
          exact ⟨_, ipv4, by simpa [afterSeparator] using hread⟩
      obtain ⟨count, ipv4, hreadTail⟩ := hreadTail
      rw [hreadHead]
      dsimp only
      rw [if_neg (by omega), if_neg (by simp)]
      have hcolons : (readGivenChar colon (colon :: colon :: tail)).bind (readGivenChar colon) =
          some tail := rfl
      rw [hcolons]
      dsimp only
      rw [hreadTail]
      rfl

end H11r
