import H11r.Wire.Ipv6

/-!
# Authorities and request targets

`authority_port` and `valid_request_target` against the grammars they decide:
`uri-host [ ":" port ]` of RFC 9110, and the four forms of a request target of
RFC 9112. No host of either kind has the byte the code looks for first, a `]`
or a colon, so the first such byte is the one that ends the host.
-/

namespace H11r

open Lib

def percent : UInt8 := 37
def leftBracket : UInt8 := 91
def rightBracket : UInt8 := 93
def hash : UInt8 := 35

/-- `reg-name = *( unreserved / pct-encoded / sub-delims )`. -/
inductive RegName : Bytes → Prop
  | nil : RegName []
  | char {byte : UInt8} {rest : Bytes} (hbyte : (isUnreserved byte || isSubDelim byte) = true)
      (hrest : RegName rest) : RegName (byte :: rest)
  | encoded {high low : UInt8} {rest : Bytes} (hhigh : isAsciiHexdigit high = true)
      (hlow : isAsciiHexdigit low = true) (hrest : RegName rest) :
      RegName (percent :: high :: low :: rest)

/-- `IPvFuture = "v" 1*HEXDIG "." 1*( unreserved / sub-delims / ":" )`. -/
def IsIpvFuture (text : Bytes) : Prop :=
  ∃ letter version address, text = letter :: (version ++ dot :: address) ∧
    (letter = 118 ∨ letter = 86) ∧ version ≠ [] ∧ (∀ byte ∈ version, isAsciiHexdigit byte = true) ∧
    address ≠ [] ∧ ∀ byte ∈ address, (isUnreserved byte || isSubDelim byte || byte == colon) = true

/-- `uri-host = IP-literal / reg-name`. -/
def IsUriHost (host : Bytes) : Prop :=
  RegName host ∨ ∃ literal, host = leftBracket :: (literal ++ [rightBracket]) ∧
    (IsIpv6 literal ∨ IsIpvFuture literal)

/-- `uri-host [ ":" port ]`, with the port when there is one. -/
def IsAuthority (value : Bytes) (port : Option Bytes) : Prop :=
  ∃ host, IsUriHost host ∧ value = host ++ (port.map (colon :: ·)).getD [] ∧
    ∀ digits, port = some digits → ∀ byte ∈ digits, isAsciiDigit byte = true

/-! ## Splitting at the first of a byte -/

theorem splitAtByte_first {value rest : Bytes} {needle : UInt8} (h : needle ∉ value) :
    splitAtByte (value ++ needle :: rest) needle = some (value, rest) := by
  have hrun : ∀ byte ∈ value, (byte != needle) = true := by
    intro byte hmem
    rw [bne_iff_ne]
    rintro rfl
    exact h hmem
  have hstop : Stops (· != needle) (needle :: rest) := stops_cons rest (by simp)
  unfold splitAtByte
  rw [if_pos (by simp), takeWhile_run hrun hstop, dropWhile_run hrun hstop]
  rfl

theorem splitAtByte_some {value left right : Bytes} {needle : UInt8}
    (h : splitAtByte value needle = some (left, right)) :
    value = left ++ needle :: right ∧ needle ∉ left := by
  unfold splitAtByte at h
  split at h
  next hmem =>
    obtain ⟨run, rest, rfl, hrun, hstop, htake⟩ := exists_run (· != needle) value
    rw [takeWhile_run hrun hstop, dropWhile_run hrun hstop] at h
    cases h
    have hnot : needle ∉ left := fun hin => by simpa using hrun needle hin
    rw [List.contains_iff_mem, List.mem_append] at hmem
    cases rest with
    | nil => simp [hnot] at hmem
    | cons byte rest =>
      have hbyte : byte = needle := by simpa using hstop byte rfl
      rw [hbyte]
      exact ⟨rfl, hnot⟩
  next => cases h

theorem splitAtByte_none {value : Bytes} {needle : UInt8} :
    splitAtByte value needle = none ↔ needle ∉ value := by
  unfold splitAtByte
  by_cases hmem : needle ∈ value <;> simp [hmem]

/-! ## Hosts -/

theorem isRegByte_ne_percent : ∀ byte, (isUnreserved byte || isSubDelim byte) = true → byte ≠ 37 :=
  forall_byte (by decide +kernel)

theorem validRegName_iff (host : Bytes) : validRegName host = true ↔ RegName host := by
  unfold validRegName
  constructor
  · intro h
    induction host using validPercentEncoded.induct with
    | case1 => exact .nil
    | case2 high low rest ih =>
      rw [validPercentEncoded, Bool.and_eq_true, Bool.and_eq_true] at h
      exact .encoded h.1.1 h.1.2 (ih h.2)
    | case3 byte rest hnot ih =>
      rw [validPercentEncoded, Bool.and_eq_true, Bool.and_eq_true] at h
      · exact .char h.1.2 (ih h.2)
      · exact hnot
  · intro h
    induction h with
    | nil => rfl
    | @char byte rest hbyte _ ih =>
      have hne := isRegByte_ne_percent byte hbyte
      rw [validPercentEncoded, hbyte, ih]
      · simpa using hne
      · exact fun _ _ _ hpercent => absurd hpercent hne
    | @encoded high low rest hhigh hlow _ ih =>
      show validPercentEncoded _ (37 :: high :: low :: rest) = true
      rw [validPercentEncoded, hhigh, hlow, ih]
      rfl

/-- A byte that is in no class of a reg-name is in none. -/
theorem RegName.not_mem {host : Bytes} {byte : UInt8} (h : RegName host)
    (hreg : (isUnreserved byte || isSubDelim byte) = false) (hhex : isAsciiHexdigit byte = false)
    (hpercent : byte ≠ percent) : byte ∉ host := by
  induction h with
  | nil => simp
  | @char other rest hother _ ih =>
    rw [List.mem_cons, not_or]
    refine ⟨?_, ih⟩
    rintro rfl
    rw [hother] at hreg
    cases hreg
  | @encoded high low rest hhigh hlow _ ih =>
    simp only [List.mem_cons, not_or]
    refine ⟨hpercent, ?_, ?_, ih⟩
    · rintro rfl
      rw [hhigh] at hhex
      cases hhex
    · rintro rfl
      rw [hlow] at hhex
      cases hhex

theorem IsIpvFuture.iff (text : Bytes) : IsIpvFuture text ↔
    (text.head?.any (fun byte => byte == 118 || byte == 86) &&
      match splitAtByte text 46 with
      | none => false
      | some (version, address) =>
        decide (version.length > 1) && (version.drop 1).all isAsciiHexdigit && !address.isEmpty &&
          address.all fun byte => isUnreserved byte || isSubDelim byte || byte == colon) = true := by
  constructor
  · rintro ⟨letter, version, address, rfl, hletter, hne, hversion, haddressNe, haddress⟩
    have hdot : (46 : UInt8) ∉ letter :: version := by
      rw [List.mem_cons, not_or]
      refine ⟨?_, fun hmem => ?_⟩
      · rcases hletter with rfl | rfl <;> decide
      · have hhex := hversion 46 hmem
        revert hhex
        decide
    have hsplit : splitAtByte (letter :: (version ++ dot :: address)) 46 =
        some (letter :: version, address) := splitAtByte_first hdot
    rw [hsplit]
    have hlength := List.length_pos_iff.mpr hne
    simp only [List.head?_cons, Option.any_some, List.length_cons, List.drop_succ_cons, List.drop_zero,
      Bool.and_eq_true, decide_eq_true_eq, List.all_eq_true, Bool.not_eq_true', List.isEmpty_eq_false_iff]
    refine ⟨?_, ⟨⟨by omega, hversion⟩, haddressNe⟩, haddress⟩
    rcases hletter with rfl | rfl <;> decide
  · intro h
    rw [Bool.and_eq_true] at h
    obtain ⟨hhead, hsplit⟩ := h
    split at hsplit
    · cases hsplit
    next version address hparts =>
      obtain ⟨rfl, _⟩ := splitAtByte_some hparts
      simp only [Bool.and_eq_true, decide_eq_true_eq, List.all_eq_true, Bool.not_eq_true',
        List.isEmpty_eq_false_iff] at hsplit
      obtain ⟨⟨⟨hlength, hversion⟩, haddressNe⟩, haddress⟩ := hsplit
      cases version with
      | nil => simp at hlength
      | cons letter version =>
        refine ⟨letter, version, address, rfl, ?_, ?_, hversion, haddressNe, haddress⟩
        · simpa using hhead
        · rintro rfl
          simp at hlength

theorem validIpLiteral_iff (literal : Bytes) :
    validIpLiteral literal = true ↔ IsIpv6 literal ∨ IsIpvFuture literal := by
  unfold validIpLiteral
  exact Bool.or_eq_true_iff.trans (or_congr (parseIpv6_iff literal) (IsIpvFuture.iff literal).symm)

/-! ## No host of an address has a bracket -/

theorem IsH16.not_mem {piece : Bytes} {byte : UInt8} (h : IsH16 piece)
    (hhex : isAsciiHexdigit byte = false) : byte ∉ piece := by
  intro hmem
  rw [h.2.2 byte hmem] at hhex
  cases hhex

theorem Octets.not_mem {left index : Nat} {address : Bytes} {byte : UInt8} (h : Octets left index address)
    (hdigit : isAsciiDigit byte = false) (hdot : byte ≠ dot) : byte ∉ address := by
  have hoctet : ∀ octet, IsOctet octet → byte ∉ octet := by
    intro octet hoctet hmem
    rw [hoctet.2.2.1 byte hmem] at hdigit
    cases hdigit
  induction h with
  | nil => simp
  | first hfirst _ ih =>
    rw [List.mem_append, not_or]
    exact ⟨hoctet _ hfirst, ih⟩
  | next _ hnext _ ih =>
    rw [List.mem_cons, List.mem_append, not_or, not_or]
    exact ⟨hdot, hoctet _ hnext, ih⟩

theorem Groups.not_mem {count : Nat} {text : Bytes} {byte : UInt8} (h : Groups count text)
    (hhex : isAsciiHexdigit byte = false) (hcolon : byte ≠ colon) (hdot : byte ≠ dot) :
    byte ∉ text := by
  have hdigit : isAsciiDigit byte = false := by
    rw [← Bool.not_eq_true]
    intro hdigit
    rw [isAsciiDigit_hex byte hdigit] at hhex
    cases hhex
  induction h with
  | one hpiece => exact hpiece.not_mem hhex
  | ipv4 haddress => exact Octets.not_mem haddress hdigit hdot
  | cons hpiece _ ih =>
    rw [List.mem_append, List.mem_cons, not_or, not_or]
    exact ⟨hpiece.not_mem hhex, hcolon, ih⟩

theorem rightBracket_not_mem {literal : Bytes} (h : IsIpv6 literal ∨ IsIpvFuture literal) :
    rightBracket ∉ literal := by
  have hgroups : ∀ {count text}, Groups count text → rightBracket ∉ text := fun h =>
    h.not_mem (by decide) (by decide) (by decide)
  rcases h with (hfull | ⟨head, tail, headCount, tailCount, rfl, hhead, htail, _⟩) |
      ⟨letter, version, address, rfl, hletter, _, hversion, _, haddress⟩
  · exact hgroups hfull
  · rw [List.mem_append, List.mem_cons, List.mem_cons, not_or, not_or, not_or]
    refine ⟨?_, by decide, by decide, ?_⟩
    · rcases hhead with ⟨rfl, _⟩ | hhextets
      · simp
      · exact hgroups hhextets.groups
    · rcases htail with ⟨rfl, _⟩ | htail
      · simp
      · exact hgroups htail
  · simp only [List.mem_cons, List.mem_append, not_or]
    refine ⟨?_, fun hmem => ?_, by decide, fun hmem => ?_⟩
    · rcases hletter with rfl | rfl <;> decide
    · have hhex := hversion rightBracket hmem
      revert hhex
      decide
    · have hclass := haddress rightBracket hmem
      revert hclass
      decide

/-! ## The authority -/

theorem authorityPort_bracket (literal rest : Bytes) (hliteral : rightBracket ∉ literal) :
    authorityPort (leftBracket :: (literal ++ rightBracket :: rest)) =
      match (if !validIpLiteral literal then none
        else if rest.isEmpty then some none
        else (readGivenChar colon rest).map some : Option (Option Bytes)) with
      | none => none
      | some port => if port.all (·.all isAsciiDigit) then some port else none := by
  have hsplit : splitAtByte ((leftBracket :: (literal ++ rightBracket :: rest)).drop 1) 93 =
      some (literal, rest) := splitAtByte_first hliteral
  unfold authorityPort
  rw [hsplit]
  rfl

theorem authorityPort_plain {value : Bytes} (h : value.head? ≠ some 91) :
    authorityPort value =
      match (if value.count colon > 1 then none
        else
          match splitAtByte value colon with
          | none => if validRegName value then some none else none
          | some (host, port) => if validRegName host then some (some port) else none :
            Option (Option Bytes)) with
      | none => none
      | some port => if port.all (·.all isAsciiDigit) then some port else none := by
  unfold authorityPort
  rewrite [if_neg h]
  rfl

theorem authorityPort_sound {value : Bytes} {port : Option Bytes}
    (h : authorityPort value = some port) : IsAuthority value port := by
  have hdigits : ∀ {port : Option Bytes}, port.all (·.all isAsciiDigit) = true →
      ∀ digits, port = some digits → ∀ byte ∈ digits, isAsciiDigit byte = true := by
    rintro port hall digits rfl
    exact List.all_eq_true.mp hall
  by_cases hbracket : value.head? = some 91
  · obtain ⟨text, rfl⟩ := List.head?_eq_some_iff.mp hbracket
    cases hsplit : splitAtByte text 93 with
    | none =>
      unfold authorityPort at h
      rw [if_pos hbracket, List.drop_succ_cons, List.drop_zero, hsplit] at h
      cases h
    | some parts =>
      obtain ⟨literal, rest⟩ := parts
      obtain ⟨rfl, hnot⟩ := splitAtByte_some hsplit
      have heq := authorityPort_bracket literal rest hnot
      change authorityPort (91 :: (literal ++ 93 :: rest)) = _ at heq
      rw [heq] at h
      split at h
      · cases h
      next found hfound =>
        rw [Option.ite_none_right_eq_some] at h
        obtain ⟨hall, hport⟩ := h
        cases hport
        rw [Option.ite_none_left_eq_some] at hfound
        obtain ⟨hvalid, hfound⟩ := hfound
        have hliteral := (validIpLiteral_iff literal).mp (by simpa using hvalid)
        refine ⟨leftBracket :: (literal ++ [rightBracket]), Or.inr ⟨literal, rfl, hliteral⟩, ?_,
          hdigits hall⟩
        split at hfound
        next hempty =>
          cases hfound
          rw [List.isEmpty_iff] at hempty
          simp [hempty, leftBracket, rightBracket]
        next hne =>
          obtain ⟨digits, hdigits, rfl⟩ := Option.map_eq_some_iff.mp hfound
          rw [readGivenChar_some.mp hdigits]
          simp [leftBracket, rightBracket]
  · rw [authorityPort_plain hbracket] at h
    split at h
    · cases h
    next found hfound =>
      rw [Option.ite_none_right_eq_some] at h
      obtain ⟨hall, hport⟩ := h
      cases hport
      rw [Option.ite_none_left_eq_some] at hfound
      obtain ⟨_, hfound⟩ := hfound
      split at hfound
      next hsplit =>
        rw [Option.ite_none_right_eq_some] at hfound
        obtain ⟨hvalid, hnone⟩ := hfound
        cases hnone
        exact ⟨value, Or.inl ((validRegName_iff _).mp hvalid), by simp, hdigits hall⟩
      next host digits hsplit =>
        rw [Option.ite_none_right_eq_some] at hfound
        obtain ⟨hvalid, hsome⟩ := hfound
        cases hsome
        obtain ⟨rfl, _⟩ := splitAtByte_some hsplit
        exact ⟨host, Or.inl ((validRegName_iff _).mp hvalid), rfl, hdigits hall⟩

theorem authorityPort_complete {value : Bytes} {port : Option Bytes} (h : IsAuthority value port) :
    authorityPort value = some port := by
  obtain ⟨host, hhost, rfl, hdigits⟩ := h
  have hall : port.all (·.all isAsciiDigit) = true := by
    cases port with
    | none => rfl
    | some digits => exact List.all_eq_true.mpr (hdigits digits rfl)
  rcases hhost with hreg | ⟨literal, rfl, hliteral⟩
  · have hcolon : colon ∉ host := hreg.not_mem (by decide) (by decide) (by decide)
    have hhead : (host ++ (port.map (colon :: ·)).getD []).head? ≠ some 91 := by
      cases host with
      | nil => cases port <;> simp [colon]
      | cons byte host =>
        have hbracket : (91 : UInt8) ∉ byte :: host := hreg.not_mem (by decide) (by decide) (by decide)
        intro heq
        have hbyte : byte = 91 := by simpa using heq
        exact hbracket (hbyte ▸ List.mem_cons_self ..)
    rw [authorityPort_plain hhead]
    cases port with
    | none =>
      have hcount : host.count colon = 0 := List.count_eq_zero_of_not_mem hcolon
      simp only [Option.map_none, Option.getD_none, List.append_nil, hcount,
        splitAtByte_none.mpr hcolon, (validRegName_iff host).mpr hreg]
      rfl
    | some digits =>
      have hnone : colon ∉ digits := by
        intro hmem
        have hdigit := hdigits digits rfl colon hmem
        revert hdigit
        decide
      have hcount : (host ++ colon :: digits).count colon = 1 := by
        rw [List.count_append, List.count_cons_self, List.count_eq_zero_of_not_mem hcolon,
          List.count_eq_zero_of_not_mem hnone]
      simp only [Option.map_some, Option.getD_some, hcount, splitAtByte_first hcolon,
        (validRegName_iff host).mpr hreg]
      exact if_pos hall
  · have hvalid := (validIpLiteral_iff literal).mpr hliteral
    have hshape : leftBracket :: (literal ++ [rightBracket]) ++ (port.map (colon :: ·)).getD [] =
        leftBracket :: (literal ++ rightBracket :: (port.map (colon :: ·)).getD []) := by simp
    rw [hshape, authorityPort_bracket _ _ (rightBracket_not_mem hliteral), hvalid]
    cases port with
    | none => rfl
    | some digits => exact if_pos hall

theorem authorityPort_iff (value : Bytes) (port : Option Bytes) :
    authorityPort value = some port ↔ IsAuthority value port :=
  ⟨authorityPort_sound, authorityPort_complete⟩

/-! ## The request target -/

/-- `scheme = ALPHA *( ALPHA / DIGIT / "+" / "-" / "." )`. -/
def IsScheme (scheme : Bytes) : Prop :=
  ∃ first rest, scheme = first :: rest ∧ isAsciiAlphabetic first = true ∧
    ∀ byte ∈ rest, (isAsciiAlphanumeric byte || (ascii "+-.").contains byte) = true

/-- A target of visible ASCII without a fragment, in the form its method asks for. -/
structure IsRequestTarget (method target : Bytes) : Prop where
  nonempty : target ≠ []
  visible : ∀ byte ∈ target, isAsciiGraphic byte = true ∧ byte ≠ hash
  form :
    if method = ascii "CONNECT" then
      ∃ digits, IsAuthority target (some digits) ∧ 1 ≤ numeral 10 decimalValue digits ∧
        numeral 10 decimalValue digits ≤ 65535
    else if target = ascii "*" then method = ascii "OPTIONS"
    else (∃ rest, target = slash :: rest) ∨ ∃ scheme rest, IsScheme scheme ∧ target = scheme ++ colon :: rest

/-- A port of digits is read exactly, however many zeros it starts with. -/
theorem validTcpPort_iff {digits : Bytes} (h : ∀ byte ∈ digits, isAsciiDigit byte = true) :
    validTcpPort digits = true ↔
      1 ≤ numeral 10 decimalValue digits ∧ numeral 10 decimalValue digits ≤ 65535 := by
  have hplus : digits.head? ≠ some 43 := by
    cases digits with
    | nil => simp
    | cons byte digits =>
      intro heq
      have hbyte : byte = 43 := by simpa using heq
      have hdigit := h byte (List.mem_cons_self ..)
      rw [hbyte] at hdigit
      revert hdigit
      decide
  have hmax : (65535 : Nat) ≤ usizeMax := by decide
  unfold validTcpPort
  rw [if_neg hplus, Option.any_eq_true]
  constructor
  · rintro ⟨number, hnumber, hrange⟩
    obtain ⟨_, _, rfl, _⟩ := (parseNumber_iff (by decide) toDigit_decimal digits number).mp hnumber
    rw [Bool.and_eq_true, bne_iff_ne, decide_eq_true_eq] at hrange
    omega
  · rintro ⟨hpos, hle⟩
    have hne : digits ≠ [] := by
      rintro rfl
      exact absurd hpos (by decide)
    refine ⟨_, (parseNumber_iff (by decide) toDigit_decimal digits _).mpr ⟨hne, h, rfl, by omega⟩, ?_⟩
    rw [Bool.and_eq_true, bne_iff_ne, decide_eq_true_eq]
    omega

theorem isAsciiAlphabetic_alphanumeric : ∀ byte, isAsciiAlphabetic byte = true →
    (isAsciiAlphanumeric byte || (ascii "+-.").contains byte) = true :=
  forall_byte (by decide +kernel)

theorem hasScheme_iff (target : Bytes) :
    hasScheme target = true ↔ ∃ scheme rest, IsScheme scheme ∧ target = scheme ++ colon :: rest := by
  unfold hasScheme
  rw [Bool.and_eq_true, Option.any_eq_true, Option.any_eq_true]
  constructor
  · rintro ⟨⟨letter, hhead, hletter⟩, ⟨scheme, rest⟩, hsplit, hscheme⟩
    obtain ⟨rfl, _⟩ := splitAtByte_some hsplit
    cases scheme with
    | nil =>
      cases hhead
      exact absurd hletter (by decide)
    | cons first scheme =>
      obtain rfl : first = letter := by simpa using hhead
      rw [List.all_eq_true] at hscheme
      exact ⟨first :: scheme, rest, ⟨first, scheme, rfl, hletter,
        fun byte hmem => hscheme byte (List.mem_cons_of_mem _ hmem)⟩, rfl⟩
  · rintro ⟨_, rest, ⟨first, scheme, rfl, hfirst, hscheme⟩, rfl⟩
    have hall : ∀ byte ∈ first :: scheme,
        (isAsciiAlphanumeric byte || (ascii "+-.").contains byte) = true := by
      intro byte hmem
      rcases List.mem_cons.mp hmem with rfl | hmem
      · exact isAsciiAlphabetic_alphanumeric byte hfirst
      · exact hscheme byte hmem
    have hcolon : colon ∉ first :: scheme := by
      intro hmem
      have hclass := hall colon hmem
      revert hclass
      decide
    exact ⟨⟨first, rfl, hfirst⟩, _, splitAtByte_first hcolon, List.all_eq_true.mpr hall⟩

theorem validRequestTarget_iff (method target : Bytes) :
    validRequestTarget method target = true ↔ IsRequestTarget method target := by
  have hvisible : (target.isEmpty || !target.all fun byte => isAsciiGraphic byte && byte != 35) = false ↔
      target ≠ [] ∧ ∀ byte ∈ target, isAsciiGraphic byte = true ∧ byte ≠ hash := by
    rw [Bool.or_eq_false_iff, List.isEmpty_eq_false_iff, Bool.not_eq_false', List.all_eq_true]
    simp only [Bool.and_eq_true, bne_iff_ne]
    rfl
  have hconnect : (authorityPort target).join.any validTcpPort = true ↔
      ∃ digits, IsAuthority target (some digits) ∧ 1 ≤ numeral 10 decimalValue digits ∧
        numeral 10 decimalValue digits ≤ 65535 := by
    rw [Option.any_eq_true]
    constructor
    · rintro ⟨digits, hport, hvalid⟩
      have hauthority := authorityPort_sound (Option.join_eq_some_iff.mp hport)
      exact ⟨digits, hauthority, (validTcpPort_iff (hauthority.choose_spec.2.2 digits rfl)).mp hvalid⟩
    · rintro ⟨digits, hauthority, hrange⟩
      exact ⟨digits, Option.join_eq_some_iff.mpr (authorityPort_complete hauthority),
        (validTcpPort_iff (hauthority.choose_spec.2.2 digits rfl)).mpr hrange⟩
  have hslash : (target.head? == some slash) = true ↔ ∃ rest, target = slash :: rest := by
    rw [beq_iff_eq, List.head?_eq_some_iff]
  unfold validRequestTarget
  by_cases hvis : target ≠ [] ∧ ∀ byte ∈ target, isAsciiGraphic byte = true ∧ byte ≠ hash
  · rw [hvisible.mpr hvis, if_neg Bool.false_ne_true]
    -- Only the form is left to decide.
    have hform : IsRequestTarget method target ↔
        (if method = ascii "CONNECT" then
          ∃ digits, IsAuthority target (some digits) ∧ 1 ≤ numeral 10 decimalValue digits ∧
            numeral 10 decimalValue digits ≤ 65535
        else if target = ascii "*" then method = ascii "OPTIONS"
        else (∃ rest, target = slash :: rest) ∨
          ∃ scheme rest, IsScheme scheme ∧ target = scheme ++ colon :: rest) :=
      ⟨fun h => h.form, fun h => ⟨hvis.1, hvis.2, h⟩⟩
    rw [hform]
    by_cases hmethod : method = ascii "CONNECT"
    · rw [if_pos (beq_iff_eq.mpr hmethod), if_pos hmethod, hconnect]
    · rw [if_neg (by simpa using hmethod), if_neg hmethod]
      by_cases hstar : target = ascii "*"
      · rw [if_pos (beq_iff_eq.mpr hstar), if_pos hstar, beq_iff_eq]
      · rw [if_neg (by simpa using hstar), if_neg hstar, Bool.or_eq_true, hslash, hasScheme_iff]
  · have hnot := mt hvisible.mp hvis
    rw [Bool.not_eq_false] at hnot
    rw [hnot, if_pos rfl]
    constructor
    · intro h
      cases h
    · intro h
      exact absurd ⟨h.nonempty, h.visible⟩ hvis

/-- Authorities and request targets are accepted exactly in their grammars. -/
theorem authority_and_target_are_their_grammars :
    (∀ value port, authorityPort value = some port ↔ IsAuthority value port) ∧
    ∀ method target, validRequestTarget method target = true ↔ IsRequestTarget method target :=
  ⟨authorityPort_iff, validRequestTarget_iff⟩

end H11r
