import H11r.Basic

/-!
# Request-target and Host authority validation

`wire/target.rs`. The IPv6 address of a bracketed host is read by the standard
library's `Ipv6Addr::from_str`; `parseIpv6` follows its parser: up to eight
groups of at most four hex digits, one `::` for at least one group of zeroes,
and an IPv4 address in the place of the last two groups. Only whether the text
is accepted matters here, so the readers return the text they leave.
-/

namespace H11r

/-- The parser's `read_given_char`. -/
def readGivenChar (char : UInt8) : Bytes → Option Bytes
  | [] => none
  | byte :: rest => if byte == char then some rest else none

/-- `read_number` with a digit limit: at most `maxDigits` digits, no leading
zero unless allowed, and a value of at most `limit`. -/
def readNumber (radix maxDigits limit : Nat) (allowZeroPrefix : Bool) (text : Bytes) :
    Option Bytes :=
  let digits := text.takeWhile fun byte => (toDigit byte radix).isSome
  if digits.isEmpty ∨ digits.length > maxDigits then none
  else if !allowZeroPrefix ∧ digits.head? = some 48 ∧ digits.length > 1 then none
  else if (parseNumber digits radix).all (· ≤ limit) then some (text.drop digits.length)
  else none

/-- `read_separator`: every part but the first follows the separator. -/
def readSeparator (separator : UInt8) (index : Nat) (inner : Bytes → Option Bytes)
    (text : Bytes) : Option Bytes :=
  if index > 0 then (readGivenChar separator text).bind inner else inner text

/-- The octets of an IPv4 address from number `index` on. -/
def readIpv4Octets : (left index : Nat) → Bytes → Option Bytes
  | 0, _, text => some text
  | left + 1, index, text =>
    (readSeparator 46 index (readNumber 10 3 255 false) text).bind (readIpv4Octets left (index + 1))

/-- `read_groups` from group `index` on, with `left` slots free: how many
groups were read, whether an IPv4 address ended them, and the rest. -/
def readGroups : (left index : Nat) → Bytes → Nat × Bool × Bytes
  | 0, index, text => (index, false, text)
  | left + 1, index, text =>
    let ipv4 := if left > 0 then readSeparator colon index (readIpv4Octets 4 0) text else none
    match ipv4 with
    | some rest => (index + 2, true, rest)
    | none =>
      match readSeparator colon index (readNumber 16 4 65535 true) text with
      | some rest => readGroups left (index + 1) rest
      | none => (index, false, text)

/-- Whether `Ipv6Addr::from_str` accepts the text. -/
def parseIpv6 (text : Bytes) : Bool :=
  let (headSize, headIpv4, rest) := readGroups 8 0 text
  if headSize = 8 then rest.isEmpty
  else if headIpv4 then false
  else
    match (readGivenChar colon rest).bind (readGivenChar colon) with
    | none => false
    | some rest => (readGroups (8 - (headSize + 1)) 0 rest).2.2.isEmpty

def isUnreserved (byte : UInt8) : Bool :=
  isAsciiAlphanumeric byte || (ascii "-._~").contains byte

def isSubDelim (byte : UInt8) : Bool := (ascii "!$&'()*+,;=").contains byte

def splitAtByte (value : Bytes) (needle : UInt8) : Option (Bytes × Bytes) :=
  if value.contains needle then
    some (value.takeWhile (· != needle), (value.dropWhile (· != needle)).drop 1)
  else none

/-- An IPv6 address, or `"v" 1*HEXDIG "." 1*( unreserved / sub-delims / ":" )`. -/
def validIpLiteral (value : Bytes) : Bool :=
  parseIpv6 value ||
    (value.head?.any (fun byte => byte == 118 || byte == 86) &&
      match splitAtByte value 46 with
      | none => false
      | some (version, address) =>
        decide (version.length > 1) && (version.drop 1).all isAsciiHexdigit && !address.isEmpty &&
          address.all fun byte => isUnreserved byte || isSubDelim byte || byte == colon)

/-- Every byte is allowed or part of a complete percent-encoding. -/
def validPercentEncoded (allowed : UInt8 → Bool) : Bytes → Bool
  | [] => true
  | 37 :: high :: low :: rest =>
    isAsciiHexdigit high && isAsciiHexdigit low && validPercentEncoded allowed rest
  | byte :: rest => byte != 37 && allowed byte && validPercentEncoded allowed rest

def validRegName (value : Bytes) : Bool :=
  validPercentEncoded (fun byte => isUnreserved byte || isSubDelim byte) value

/-- Parses `uri-host [ ":" port ]`, returning the port when one is present. -/
def authorityPort (value : Bytes) : Option (Option Bytes) :=
  let port? : Option (Option Bytes) :=
    if value.head? = some 91 then
      match splitAtByte (value.drop 1) 93 with
      | none => none
      | some (literal, rest) =>
        if !validIpLiteral literal then none
        else if rest.isEmpty then some none
        else (readGivenChar colon rest).map some
    else if value.count colon > 1 then none
    else
      match splitAtByte value colon with
      | none => if validRegName value then some none else none
      | some (host, port) => if validRegName host then some (some port) else none
  match port? with
  | none => none
  | some port => if port.all (·.all isAsciiDigit) then some port else none

/-- Whether `port` names a TCP port that a tunnel can connect to: 1 to 65535.
The standard library also takes a leading `+` in `u16::from_str`. -/
def validTcpPort (port : Bytes) : Bool :=
  let digits := if port.head? = some 43 then port.drop 1 else port
  (parseNumber digits 10).any fun number => number != 0 && number ≤ 65535

/-- Whether `target` begins with an RFC 3986 `scheme ":"`. -/
def hasScheme (target : Bytes) : Bool :=
  target.head?.any isAsciiAlphabetic &&
    (splitAtByte target colon).any fun parts =>
      parts.1.all fun byte => isAsciiAlphanumeric byte || (ascii "+-.").contains byte

/-- Checks the request-target form allowed for `method`. -/
def validRequestTarget (method target : Bytes) : Bool :=
  if target.isEmpty || !target.all (fun byte => isAsciiGraphic byte && byte != 35) then false
  else if method == ascii "CONNECT" then (authorityPort target).join.any validTcpPort
  else if target == ascii "*" then method == ascii "OPTIONS"
  else target.head? == some slash || hasScheme target

end H11r
