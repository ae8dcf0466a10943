import Schematron.Text.Utf8

/-!
# SipHash

A keyed hash of bytes to 64 bits, with one round for each word of eight bytes and three rounds at
the end.
-/
namespace Schematron.SipHash

/-- The four words that are mixed. -/
structure Words where
  v0 : UInt64
  v1 : UInt64
  v2 : UInt64
  v3 : UInt64
  deriving DecidableEq, Repr, Inhabited

def rotated (w : UInt64) (bits : UInt64) : UInt64 := (w <<< bits) ||| (w >>> (64 - bits))

def Words.round (w : Words) : Words :=
  let v0 := w.v0 + w.v1
  let v1 := rotated w.v1 13 ^^^ v0
  let v0 := rotated v0 32
  let v2 := w.v2 + w.v3
  let v3 := rotated w.v3 16 ^^^ v2
  let v0 := v0 + v3
  let v3 := rotated v3 21 ^^^ v0
  let v2 := v2 + v1
  let v1 := rotated v1 17 ^^^ v2
  let v2 := rotated v2 32
  ⟨v0, v1, v2, v3⟩

def Words.ofKey (k0 k1 : UInt64) : Words :=
  ⟨k0 ^^^ 0x736f6d6570736575, k1 ^^^ 0x646f72616e646f6d, k0 ^^^ 0x6c7967656e657261,
    k1 ^^^ 0x7465646279746573⟩

def Words.absorb (w : Words) (m : UInt64) : Words :=
  let r := { w with v3 := w.v3 ^^^ m }.round
  { r with v0 := r.v0 ^^^ m }

/-- The word whose bytes are given, the lowest first. -/
def word (bs : Bytes) : UInt64 := bs.foldr (fun b w => w <<< 8 ||| b.toUInt64) 0

/-- The words of bytes, eight bytes each. The last word has the length in its highest byte. -/
def messageWords (length : Nat) : Bytes → List UInt64
  | b0 :: b1 :: b2 :: b3 :: b4 :: b5 :: b6 :: b7 :: bs =>
    word [b0, b1, b2, b3, b4, b5, b6, b7] :: messageWords length bs
  | bs => [word bs ||| (UInt64.ofNat length <<< 56)]

def hash (k0 k1 : UInt64) (bs : Bytes) : UInt64 :=
  let w := (messageWords bs.length bs).foldl Words.absorb (Words.ofKey k0 k1)
  let f := { w with v2 := w.v2 ^^^ 0xff }.round.round.round
  f.v0 ^^^ f.v1 ^^^ f.v2 ^^^ f.v3

end Schematron.SipHash
