/-!
# Domain names in ASCII

A label with characters beyond ASCII is written as `xn--` and its Punycode (RFC 3492): the ASCII
characters, then the others in increasing order, each as its distance from the one before in a
number system whose digits have changing thresholds. Letters are first brought to lower case.
-/
namespace Schematron.Url.Punycode

/-- A digit of base 36: letters, then numerals. -/
def digit (d : Nat) : Char :=
  if d < 26 then Char.ofNat ('a'.toNat + d) else Char.ofNat ('0'.toNat + (d - 26))

def threshold (k bias : Nat) : Nat := max 1 (min 26 (k - bias))

/-- Divides until the distance is small, and counts the divisions. -/
def shrink (delta k : Nat) : Nat × Nat :=
  if h : 455 < delta then shrink (delta / 35) (k + 36) else (delta, k)
termination_by delta

def adapt (delta count : Nat) (isFirst : Bool) : Nat :=
  let delta := if isFirst then delta / 700 else delta / 2
  let (delta, k) := shrink (delta + delta / count) 0
  k + 36 * delta / (delta + 38)

/-- A distance in digits of changing thresholds; `fuel` bounds their number. -/
def digits (bias : Nat) : (fuel : Nat) → (k q : Nat) → List Char
  | 0, _, _ => []
  | fuel + 1, k, q =>
    let t := threshold k bias
    if q < t then [digit q]
    else digit (t + (q - t) % (36 - t)) :: digits bias fuel (k + 36) ((q - t) / (36 - t))

/-- What has been written of a label. -/
structure Coding where
  delta : Nat
  bias : Nat
  handled : Nat
  output : List Char

/-- Writes one code point: every occurrence of it in the label. -/
def writePoint (basic : Nat) (label : List Char) (s : Coding) (n : Nat) : Coding :=
  label.foldl (fun s c =>
    if c.toNat < n then { s with delta := s.delta + 1 }
    else if c.toNat = n then
      { delta := 0
        bias := adapt s.delta (s.handled + 1) (s.handled == basic)
        handled := s.handled + 1
        output := s.output ++ digits s.bias (s.delta + 1) 36 s.delta }
    else s) s

def pointsBeyond (label : List Char) : List Nat :=
  ((label.map Char.toNat).filter (0x80 ≤ ·)).mergeSort.eraseDups

def encode (label : List Char) : List Char :=
  let basic := label.filter (·.toNat < 0x80)
  let first : Coding := ⟨0, 72, basic.length, basic ++ if basic.isEmpty then [] else ['-']⟩
  let step : Coding × Nat → Nat → Coding × Nat := fun (s, n) m =>
    let s := { s with delta := s.delta + (m - n) * (s.handled + 1) }
    let s := writePoint basic.length label s m
    ({ s with delta := s.delta + 1 }, m + 1)
  ((pointsBeyond label).foldl step (first, 0x80)).1.output

/-- A letter in lower case, for the alphabets whose capitals lie at a fixed distance or beside
their small letters. -/
def lower (c : Char) : Char :=
  let n := c.toNat
  if (0xC0 ≤ n && n ≤ 0xDE && n != 0xD7) || (0x391 ≤ n && n ≤ 0x3A9) || (0x410 ≤ n && n ≤ 0x42F) then
    Char.ofNat (n + 32)
  else if 0x400 ≤ n && n ≤ 0x40F then Char.ofNat (n + 80)
  else if ((0x100 ≤ n && n ≤ 0x137) || (0x14A ≤ n && n ≤ 0x177) || (0x460 ≤ n && n ≤ 0x481)) &&
      n % 2 = 0 && n != 0x130 then Char.ofNat (n + 1)
  else if ((0x139 ≤ n && n ≤ 0x148) || (0x179 ≤ n && n ≤ 0x17E)) && n % 2 = 1 then Char.ofNat (n + 1)
  else c.toLower

def label (cs : List Char) : List Char :=
  if cs.all (·.toNat < 0x80) then cs else "xn--".toList ++ encode cs

def isDot (c : Char) : Bool := c == '.' || [0x3002, 0xFF0E, 0xFF61].contains c.toNat

/-- The labels of a name in ASCII, with dots between them. -/
def labels (current : List Char) : List Char → List Char
  | [] => label current
  | c :: cs => if isDot c then label current ++ '.' :: labels [] cs else labels (current ++ [c]) cs

/-- A domain name in ASCII; none if it holds a replacement character. -/
def toAscii? (name : List Char) : Option (List Char) :=
  if name.contains '\uFFFD' then none
  else some (labels [] ((name.filter (·.toNat != 0xAD)).map lower))

end Schematron.Url.Punycode
