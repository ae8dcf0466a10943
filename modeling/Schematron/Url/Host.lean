import Schematron.Url.Percent
import Schematron.Url.Punycode

/-!
# Hosts

The host of a URL: a domain name, an address of four numbers, or an address of eight. A domain name
is percent-decoded and brought to ASCII. A name that ends in a number must be an address.
-/
namespace Schematron.Url

/-- Why a text is no URL. -/
inductive UrlError where
  | emptyHost
  | badDomain
  | badPort
  | badIpv4
  | badIpv6
  | badDomainCharacter
  | relativeWithoutBase
  | relativeToOpaque
  deriving DecidableEq, Repr, Inhabited

def UrlError.message : UrlError → String
  | .emptyHost => "empty host"
  | .badDomain => "invalid international domain name"
  | .badPort => "invalid port number"
  | .badIpv4 => "invalid IPv4 address"
  | .badIpv6 => "invalid IPv6 address"
  | .badDomainCharacter => "invalid domain character"
  | .relativeWithoutBase => "relative URL without a base"
  | .relativeToOpaque => "relative URL with a cannot-be-a-base base"

namespace Host

def splitOn (sep : Char) : List Char → List (List Char)
  | [] => [[]]
  | c :: cs =>
    if c = sep then [] :: splitOn sep cs
    else match splitOn sep cs with
      | [] => [[c]]
      | p :: ps => (c :: p) :: ps

/-- The value of a number in a base; none if a character is no digit of it. -/
def number? (base : Nat) (cs : List Char) : Option Nat :=
  cs.foldlM (fun n c => do
    let d ← Hex.value? c
    if d < base then some (base * n + d) else none) 0

/-- A part of an address: decimal, octal after a zero, or hexadecimal after `0x`. -/
def ipv4Part? (cs : List Char) : Option Nat :=
  match cs with
  | [] => none
  | '0' :: 'x' :: ds | '0' :: 'X' :: ds => number? 16 ds
  | '0' :: d :: ds => number? 8 (d :: ds)
  | ds => number? 10 ds

/-- Whether the last part of a name, before a final dot, is a number. -/
def endsInNumber (cs : List Char) : Bool :=
  let last := match (splitOn '.' cs).reverse with
    | [] :: p :: _ => some p
    | [] :: [] => none
    | p :: _ => some p
    | [] => none
  last.any fun p => (! p.isEmpty && p.all Char.isDigit) || (ipv4Part? p).isSome

/-- The value of an address of up to four parts, of which the last fills what is left. -/
def ipv4? (cs : List Char) : Option Nat := do
  let parts := splitOn '.' cs
  let parts := if parts.getLast? == some [] then parts.dropLast else parts
  if 4 < parts.length then failure
  let numbers ← parts.mapM ipv4Part?
  let last ← numbers.getLast?
  let front := numbers.dropLast
  if front.any (255 < ·) then failure
  if Nat.pow 256 (4 - front.length) ≤ last then failure
  return front.zipIdx.foldl (fun n (p, i) => n + p * Nat.pow 256 (3 - i)) last

def renderIpv4 (n : Nat) : String :=
  ".".intercalate
    ([n / 16777216, n / 65536 % 256, n / 256 % 256, n % 256].map toString)

/-- The pieces of an address of eight numbers between single colons; the last may be an address of
four decimal numbers, which stands for two pieces. -/
def ipv6Pieces? : List (List Char) → Option (List Nat)
  | [] => some []
  | [p] =>
    if p.contains '.' then do
      let parts ← (splitOn '.' p).mapM fun d =>
        if d.isEmpty || (d.head? == some '0' && d.length != 1) then none
        else (number? 10 d).filter (· ≤ 255)
      match parts with
      | [a, b, c, d] => return [256 * a + b, 256 * c + d]
      | _ => failure
    else do
      if p.isEmpty || 4 < p.length then failure
      return [← number? 16 p]
  | p :: ps => do
    if p.isEmpty || 4 < p.length then failure
    let n ← number? 16 p
    return n :: (← ipv6Pieces? ps)

/-- The parts of a text before and after its first double colon. -/
def splitDoubleColon : List Char → Option (List Char × List Char)
  | ':' :: ':' :: cs => some ([], cs)
  | c :: cs => (splitDoubleColon cs).map fun (a, b) => (c :: a, b)
  | [] => none

/-- The pieces of a part of an address; the empty part has none. -/
def ipv6Side? (cs : List Char) : Option (List Nat) :=
  if cs.isEmpty then some [] else ipv6Pieces? (splitOn ':' cs)

/-- The eight numbers of an address; a double colon stands for as many zeros as are missing. -/
def ipv6? (cs : List Char) : Option (List Nat) := do
  match splitDoubleColon cs with
  | none =>
    let ps ← ipv6Side? cs
    if ps.length = 8 then return ps else failure
  | some (a, b) =>
    if a.contains '.' then failure
    let before ← ipv6Side? a
    let after ← ipv6Side? b
    let count := before.length + after.length
    if 8 ≤ count then failure
    return before ++ List.replicate (8 - count) 0 ++ after

/-- A number in hexadecimal digits in lower case, without leading zeros. -/
def hex (n : Nat) : String := String.ofList (Nat.toDigits 16 n)

def zeros (ps : List Nat) : Nat := (ps.takeWhile (· == 0)).length

/-- Where the first longest run of at least two zeros starts, and its length. -/
def longestZeros (ps : List Nat) : Option (Nat × Nat) :=
  (List.range ps.length).foldl (fun best i =>
    let n := zeros (ps.drop i)
    if n < 2 then best
    else match best with
      | some (_, m) => if m < n then some (i, n) else best
      | none => some (i, n)) none

/-- An address of eight numbers as it is written: its longest run of zeros becomes a double colon. -/
def renderIpv6 (ps : List Nat) : String :=
  let join (qs : List Nat) := ":".intercalate (qs.map hex)
  match longestZeros ps with
  | none => "[" ++ join ps ++ "]"
  | some (i, n) => "[" ++ join (ps.take i) ++ "::" ++ join (ps.drop (i + n)) ++ "]"

/-- A character that no domain name holds. -/
def isForbidden (c : Char) : Bool :=
  c.toNat ≤ 0x20 || c.toNat = 0x7F ||
  ['%', '#', '/', ':', '<', '>', '?', '@', '[', '\\', ']', '^', '`', '\x7b', '|', '\x7d'].contains c

def bracketed (cs : List Char) : Except UrlError String :=
  match cs with
  | '[' :: rest =>
    if rest.getLast? == some ']' then
      match ipv6? rest.dropLast with
      | some ps => .ok (renderIpv6 ps)
      | none => .error .badIpv6
    else .error .badIpv6
  | _ => .error .badIpv6

def parse (cs : List Char) : Except UrlError String :=
  if cs.head? == some '[' then bracketed cs
  else
    match Utf8.decodeFrom 0 (percentDecode cs) with
    | .error _ => .error .badDomain
    | .ok name =>
      match Punycode.toAscii? name with
      | none => .error .badDomain
      | some domain =>
        if domain.any isForbidden then .error .badDomain
        else if domain.isEmpty then .error .emptyHost
        else if endsInNumber domain then
          match ipv4? domain with
          | some n => .ok (renderIpv4 n)
          | none => .error .badIpv4
        else .ok (String.ofList domain)

/-- The host of any other URL, which is kept as it is written. -/
def parseOpaque (cs : List Char) : Except UrlError String :=
  if cs.head? == some '[' then bracketed cs
  else if cs.any fun c => [Char.ofNat 0, '\t', '\n', '\r', ' ', '#', '/', ':', '<', '>', '?', '@',
      '[', '\\', ']', '^', '|'].contains c then
    .error .badDomainCharacter
  else .ok (String.ofList (percentEncode controlSet cs))

end Host

end Schematron.Url
