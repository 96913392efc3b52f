import SchemaAtlas.Failure
import SchemaAtlas.Json.Plain
import SchemaAtlas.Text.Ends
import SchemaAtlas.Text.Lines
import SchemaAtlas.Text.Utf8

/-!
# `SchemaAtlas.Web.Address`: the parts of a request's address

An address may have a scheme, an authority, a path, a query and a fragment. The authority names
a host, perhaps with a user in front and, behind a colon, a number. Only path and query say what
is asked for, but a malformed authority is refused. Blanks and controls in front of an address
do not count, nor do tabs and line breaks anywhere in it.
-/

set_option autoImplicit false

namespace SchemaAtlas.Web

open SchemaAtlas.Text

/-- The path and the query of an address. -/
structure Address where
  path : String
  query : String
  deriving DecidableEq, Repr

/-! ### Authorities -/

/-- Holds of one of the four numbers of a dotted address. -/
def isOctet (ds : List Char) : Bool :=
  !ds.isEmpty && ds.all Char.isDigit && ds.length ≤ 3 && !(ds.length != 1 && ds.head? == some '0')
    && ds.foldl (fun n c => n * 10 + (c.toNat - '0'.toNat)) 0 ≤ 255

/-- Holds of a dotted address. -/
def isDotted (cs : List Char) : Bool :=
  let octets := cutChars '.' cs
  octets.length == 4 && octets.all isOctet

/-- Holds of one of the numbers of a colon-separated address. -/
def isHextet (cs : List Char) : Bool :=
  !cs.isEmpty && cs.length ≤ 4 && cs.all isHex

/-- The numbers of a colon-separated address; a dotted address at the end counts as two. None if
the dotted address is malformed. -/
def hextets? (cs : List Char) : Option (List (List Char)) :=
  let parts := cutChars ':' cs
  match parts.reverse with
  | last :: before =>
    if last.contains '.' then
      if isDotted last then some (before.reverse ++ [['0'], ['0']]) else none
    else some parts
  | [] => none

/-- Holds of a colon-separated address: eight numbers, or fewer with one gap between two
colons. -/
def isColoned (cs : List Char) : Bool :=
  match hextets? cs with
  | none => false
  | some parts =>
    let n := parts.length
    let inner := (parts.drop 1).take (n - 2)
    let gaps := (inner.filter List.isEmpty).length
    let opensEmpty := parts.head?.any List.isEmpty
    let closesEmpty := parts.getLast?.any List.isEmpty
    if n < 3 || 9 < n || 1 < gaps then false
    else if gaps = 1 then
      let place := (inner.findIdx List.isEmpty) + 1
      let high := if opensEmpty then place - 1 else place
      let low := if closesEmpty then n - place - 2 else n - place - 1
      (!opensEmpty || high = 0) && (!closesEmpty || low = 0) && high + low < 8
        && (parts.filter fun part => !part.isEmpty).all isHextet
    else n = 8 && !opensEmpty && !closesEmpty && parts.all isHextet

/-- Holds of a coloned address with or without a zone behind a percent sign. -/
def isZoned (cs : List Char) : Bool :=
  match cutChars '%' cs with
  | [address] => isColoned address
  | [address, zone] => !zone.isEmpty && isColoned address
  | _ => false

/-- Holds of an address of a future kind: `v`, a hexadecimal number, a point, and something. -/
def isFuture (cs : List Char) : Bool :=
  match cs with
  | 'v' :: r =>
    match r.dropWhile isHex with
    | '.' :: c :: rest => !(r.takeWhile isHex).isEmpty && !(c :: rest).contains '\n'
    | _ => false
  | _ => false

/-- What is wrong with a host between brackets, if anything. -/
def bracketFault? (host : List Char) : Option String :=
  if host.head? == some 'v' then
    if isFuture host then none else some "IPvFuture address is invalid"
  else if isDotted host then some "An IPv4 address cannot be in brackets"
  else if isZoned host then none
  else some (Json.quotedPlain (String.ofList host)
    ++ " does not appear to be an IPv4 or IPv6 address")

/-- Characters whose compatible form holds one of the signs that end a host or divide it. -/
def disguised : List Nat :=
  [0x2047, 0x2048, 0x2049, 0x2100, 0x2101, 0x2105, 0x2106, 0x2A74, 0xFE13, 0xFE16, 0xFE55, 0xFE56,
    0xFE5F, 0xFE6B, 0xFF03, 0xFF0F, 0xFF1A, 0xFF1F, 0xFF20]

/-- What follows the last `@`, or all of it: the host and its number, without a user in front. -/
def afterUser (authority : List Char) : List Char :=
  (authority.reverse.takeWhile fun c => c != '@').reverse

/-- The host in an authority that has brackets. Nothing may stand between the user and the
host's opening bracket, and nothing but a colon right behind the closing one; if the brackets
belong to the user, the host ends at the first colon. -/
def bracketedHost? (authority : List Char) : Option (List Char) :=
  let (before, bracketed) := (afterUser authority).span fun c => c != '['
  match bracketed with
  | [] => some (before.takeWhile fun c => c != ':')
  | _ :: inside =>
    let (host, behind) := inside.span fun c => c != ']'
    if before.isEmpty && (behind.drop 1).head?.all (· == ':') then some host else none

/-- What is wrong with the brackets of an authority, if anything. -/
def bracketsFault? (authority : List Char) : Option String :=
  let opens := authority.contains '['
  let closes := authority.contains ']'
  if !opens && !closes then none
  else match if opens && closes then bracketedHost? authority else none with
    | some host => bracketFault? host
    | none => some "Invalid IPv6 URL"

/-- What is wrong with an authority, if anything. -/
def authorityFault? (authority : List Char) : Option String :=
  match bracketsFault? authority with
  | some fault => some fault
  | none =>
    if authority.any fun c => disguised.contains c.toNat then
      some ("netloc '" ++ String.ofList authority
        ++ "' contains invalid characters under NFKC normalization")
    else none

/-! ### Addresses -/

/-- Characters of a scheme. -/
def isSchemeChar (c : Char) : Bool :=
  c.isAlphanum || c == '+' || c == '-' || c == '.'

/-- The address without its scheme: a letter and what may follow it, up to a colon. -/
def withoutScheme (cs : List Char) : List Char :=
  match cs.dropWhile isSchemeChar with
  | ':' :: rest => if cs.head?.any Char.isAlpha then rest else cs
  | _ => cs

/-- The authority of an address and what follows it, if there is one. -/
def splitAuthority : List Char → List Char × List Char
  | '/' :: '/' :: r => r.span fun c => c != '/' && c != '?' && c != '#'
  | cs => ([], cs)

/-- The parts of an address. -/
def Address.ofText (s : String) : Except Failure Address :=
  let cs := (s.toList.dropWhile fun c => c.toNat ≤ 32).filter fun c =>
    c != '\t' && c != '\r' && c != '\n'
  let (authority, rest) := splitAuthority (withoutScheme cs)
  match authorityFault? authority with
  | some fault => .error (.badHost fault)
  | none =>
    let (path, query) := (rest.takeWhile fun c => c != '#').span fun c => c != '?'
    .ok ⟨String.ofList path, String.ofList (query.drop 1)⟩

/-! ### Queries -/

/-- The bytes of a text in which a percent sign and two hexadecimal digits stand for a byte. -/
def percentBytes : List Char → List UInt8
  | [] => []
  | '%' :: a :: b :: r =>
    match hexValue? a, hexValue? b with
    | some x, some y => UInt8.ofNat (x * 16 + y) :: percentBytes r
    | _, _ => Utf8.encodeChar '%' ++ percentBytes (a :: b :: r)
  | c :: r => Utf8.encodeChar c ++ percentBytes r

/-- The text that percent signs and plus signs stand for. Bytes are read as text between
characters beyond ASCII, which stand for themselves; `run` is the ASCII text in progress,
reversed. -/
def unescapeFrom (run : List Char) : List Char → List Char
  | [] => Utf8.decodeFrom none (percentBytes run.reverse)
  | c :: r =>
    if c.toNat < 128 then unescapeFrom ((if c = '+' then ' ' else c) :: run) r
    else Utf8.decodeFrom none (percentBytes run.reverse) ++ c :: unescapeFrom [] r

/-- The text that percent signs and plus signs stand for. -/
def unescape (cs : List Char) : String :=
  String.ofList (unescapeFrom [] cs)

/-- The fields of a query, in order: a name and a value each. Fields without a value are left
out. -/
def queryFields (query : String) : List (String × String) :=
  (cutChars '&' query.toList).filterMap fun field =>
    let (name, value) := field.span fun c => c != '='
    match value.drop 1 with
    | [] => none
    | value => some (unescape name, unescape value)

/-- The first value of a field. -/
def fieldValue? (name : String) (fields : List (String × String)) : Option String :=
  fields.lookup name

end SchemaAtlas.Web
