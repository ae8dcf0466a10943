import Schematron.Json.Basic
import Schematron.Json.Parser
import Schematron.Number.Basic
import Schematron.Time.Calendar

/-!
# TOML scalars

Strings, numbers, truth values and dates, as version 1.1 of the format has them. A scalar is read as
the JSON value that says the same; a date, for which JSON has no value, becomes an object.
-/
namespace Schematron.Toml
open Schematron.Text Schematron.Text.Scan

def blanks : Scan Unit := do let _ ← run fun c => c == ' ' || c == '\t'

def char (c : Char) : Scan Unit := do let _ ← satisfy (· == c)

def newline : Scan (List Char) := do
  if ← tryWord "\n" then return ['\n']
  else
    word "\r\n"
    return ['\r', '\n']

/-- A character that may stand in a comment or, quotes and backslashes apart, in a string. -/
def isPlain (c : Char) : Bool := c == '\t' || (0x20 ≤ c.toNat && c.toNat != 0x7F)

def hexNumber : Nat → Scan Nat
  | 0 => return 0
  | n + 1 => do
    let high ← Json.Reader.hexDigit
    return high * Nat.pow 16 n + (← hexNumber n)

def numbered (digits : Nat) : Scan Char := do
  let n ← hexNumber digits
  if h : n.isValidChar then return Char.ofNatAux n h else fail

/-- The character of an escape, after its backslash. -/
def escapeRest : Scan Char := do
  match ← next with
  | 'b' => return Char.ofNat 8
  | 't' => return '\t'
  | 'n' => return '\n'
  | 'f' => return Char.ofNat 12
  | 'r' => return '\r'
  | 'e' => return Char.ofNat 27
  | '"' => return '"'
  | '\\' => return '\\'
  | 'x' => numbered 2
  | 'u' => numbered 4
  | 'U' => numbered 8
  | _ => fail

def basicChar : Scan Char := do
  match ← satisfy (fun c => isPlain c && c != '"') with
  | '\\' => escapeRest
  | c => return c

def basicString : Scan String := do
  char '"'
  let cs ← many basicChar
  char '"'
  return String.ofList cs

/-- A string in single quotes, in which nothing is escaped. -/
def literalString : Scan String := do
  char '\''
  let cs ← run fun c => isPlain c && c != '\''
  char '\''
  return String.ofList cs

def innerQuotes (quote : Char) : Scan (List Char) := do
  let qs ← run1 (· == quote)
  if qs.length < 3 then return qs else fail

/-- A backslash at the end of a line, and the white space after it. -/
def joinedLines : Scan (List Char) := do
  char '\\'
  blanks
  let _ ← newline
  let _ ← many do if ((← peek).any fun c => c == ' ' || c == '\t') then blanks else let _ ← newline
  return []

def basicPart : Scan (List Char) := do
  match ← peek with
  | some '"' => innerQuotes '"'
  | some '\\' => fun text =>
    match joinedLines text with
    | some found => some found
    | none => (do return [← basicChar]) text
  | some '\n' | some '\r' => newline
  | _ => return [← basicChar]

def literalPart : Scan (List Char) := do
  match ← peek with
  | some '\'' => innerQuotes '\''
  | some '\n' | some '\r' => newline
  | _ => return [← satisfy isPlain]

/-- A string in three quotes. A line end right after the first three does not count, and up to two
further quotes may stand before the last three. -/
def longString (quote : Char) (part : Scan (List Char)) : Scan String := do
  word (String.ofList [quote, quote, quote])
  if ((← peek).any fun c => c == '\n' || c == '\r') then let _ ← newline
  let cs ← many part
  let qs ← run1 (· == quote)
  if 3 ≤ qs.length && qs.length ≤ 5 then
    return String.ofList (cs.flatten ++ qs.drop 3)
  else fail

def string : Scan String := do
  if ← sees "\"\"\"" then longString '"' basicPart
  else if ← sees "'''" then longString '\'' literalPart
  else if ← sees "'" then literalString
  else basicString

/-- The digits of a number, where single underscores may stand between digits. -/
def digits? (isDigit : Char → Bool) : List Char → Option (List Char)
  | [] => none
  | [c] => if isDigit c then some [c] else none
  | c :: '_' :: cs => if isDigit c then (digits? isDigit cs).map (c :: ·) else none
  | c :: cs => if isDigit c then (digits? isDigit cs).map (c :: ·) else none

/-- The digits of a number that starts with a zero only if it has no other digit. -/
def wholeDigits? (cs : List Char) : Option (List Char) :=
  (digits? Char.isDigit cs).filter fun ds => ds.head? != some '0' || ds.length == 1

def value (base : Nat) (ds : List Char) : Nat :=
  ds.foldl (fun n c => n * base + (Hex.value? c).getD 0) 0

/-- The sign of a number, and what follows it. -/
def signed : List Char → Bool × List Char
  | '-' :: cs => (true, cs)
  | '+' :: cs => (false, cs)
  | cs => (false, cs)

/-- An integer; it fits 128 bits, with a sign or without. -/
def integer? (token : List Char) : Option Json :=
  let inBase := fun base cs =>
    (digits? (fun c => (Hex.value? c).any (· < base)) cs).map (value base)
  let n? : Option Int :=
    match token with
    | '0' :: 'x' :: cs => (inBase 16 cs).map Int.ofNat
    | '0' :: 'o' :: cs => (inBase 8 cs).map Int.ofNat
    | '0' :: 'b' :: cs => (inBase 2 cs).map Int.ofNat
    | _ =>
      let (negative, cs) := signed token
      (wholeDigits? cs).map fun ds => if negative then -(value 10 ds : Int) else value 10 ds
  (n?.filter fun n => -(Number.capacity 127 : Int) ≤ n && n < Number.capacity 128).map .int

/-- The least number that is rounded to infinity in double precision. -/
def overflow : Nat := Number.capacity 1024 - Number.capacity 970

/-- Whether digits that stand for a number between `10 ^ (scale - 1)` and `10 ^ scale`, once their
leading zeros are gone, stand for a finite one in double precision. -/
def isFinite (ds : List Char) (point : Int) : Bool :=
  let significant := ds.dropWhile (· == '0')
  let scale := point - (ds.length - significant.length : Nat)
  significant.isEmpty || scale < 309 ||
    (scale == 309 &&
      value 10 significant * Nat.pow 10 309 < overflow * Nat.pow 10 significant.length)

/-- A number with a fraction or an exponent, infinity, or no number. -/
def decimal? (token : List Char) : Option Json := do
  let (_, cs) := signed token
  if cs == "inf".toList || cs == "nan".toList then return .decimal (String.ofList token)
  let mantissa := cs.takeWhile fun c => c != 'e' && c != 'E'
  if mantissa == cs && ! cs.contains '.' then none
  let whole ← wholeDigits? (mantissa.takeWhile (· != '.'))
  let fraction ← match mantissa.dropWhile (· != '.') with
    | [] => some []
    | _ :: fs => digits? Char.isDigit fs
  let exponent : Int ← match cs.drop mantissa.length with
    | [] => some 0
    | _ :: es =>
      let (negative, es) := signed es
      (digits? Char.isDigit es).map fun ds =>
        if negative then -(value 10 ds : Int) else value 10 ds
  if isFinite (whole ++ fraction) (whole.length + exponent) then
    return .decimal (String.ofList token)
  else none

/-- A number of so many digits, and what follows it. -/
def fixed? (count : Nat) (cs : List Char) : Option (Nat × List Char) :=
  let ds := cs.take count
  if ds.length == count && ds.all Char.isDigit then some (value 10 ds, cs.drop count) else none

def afterDate? (cs : List Char) : Option (List Char) := do
  let (year, cs) ← fixed? 4 cs
  let (month, cs) ← fixed? 2 (← after? ['-'] cs)
  let (day, cs) ← fixed? 2 (← after? ['-'] cs)
  if Calendar.isDate year month day then some cs else none

def afterMinutes? (cs : List Char) : Option (List Char) := do
  let (hour, cs) ← fixed? 2 cs
  let (minute, cs) ← fixed? 2 (← after? [':'] cs)
  if hour < 24 && minute < 60 then some cs else none

/-- What follows a time of day, which may leave out its seconds. -/
def afterTime? (cs : List Char) : Option (List Char) := do
  let cs ← afterMinutes? cs
  match cs with
  | ':' :: cs =>
    let (second, cs) ← fixed? 2 cs
    if 60 < second then none
    match cs with
    | '.' :: cs => if (cs.takeWhile Char.isDigit).isEmpty then none else some (cs.dropWhile Char.isDigit)
    | _ => some cs
  | _ => some cs

/-- Whether this is an offset from universal time, or nothing. -/
def isOffset : List Char → Bool
  | [] | ['Z'] | ['z'] => true
  | c :: cs => (c == '+' || c == '-') && afterMinutes? cs == some []

/-- Whether this is a date, a time of day, or both. -/
def isMoment (token : List Char) : Bool :=
  afterTime? token == some [] ||
    match afterDate? token with
    | some [] => true
    | some (c :: cs) => [' ', 'T', 't'].contains c && (afterTime? cs).any isOffset
    | none => false

/-- Reads what stands without quotes. -/
def bare? (token : List Char) : Option Json :=
  if token == "true".toList then some (.bool true)
  else if token == "false".toList then some (.bool false)
  else if isMoment token then some (.obj [("moment", .str (String.ofList token))])
  else (integer? token).or (decimal? token)

/-- The characters of which numbers, dates and truth values consist. -/
def isBare (c : Char) : Bool := c.isAlphanum || "+-_.:".toList.contains c

/-- A value without quotes. One space may stand between a date and a time. -/
def bare : Scan Json := do
  let token ← run1 isBare
  let token ← do
    match afterDate? token, (← rest) with
    | some [], ' ' :: c :: _ =>
      if c.isDigit then
        char ' '
        pure (token ++ ' ' :: (← run isBare))
      else pure token
    | _, _ => pure token
  match bare? token with
  | some j => return j
  | none => fail

end Schematron.Toml
