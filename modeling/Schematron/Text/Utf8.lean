/-!
# UTF-8

Bytes and the text that they stand for. Decoding tells where the first malformed sequence starts
and how long it is: the longest part that could have begun a character, or that the bytes end
inside a character.
-/
namespace Schematron

abbrev Bytes := List UInt8

namespace Utf8

def encode (s : String) : Bytes := s.toList.flatMap String.utf8EncodeChar

theorem encode_injective {s s' : String} (h : encode s = encode s') : s = s' := by
  have hdecode (s : String) : (encode s).toByteArray.utf8Decode? = some s.toList.toArray :=
    List.utf8Decode?_utf8Encode
  have hlist := hdecode s
  rw [h, hdecode s'] at hlist
  exact String.toList_injective (by simpa using hlist.symm)

/-- Where decoding fails: the index of the first byte of a malformed sequence, and the length of
the sequence if it does not end with the bytes. -/
structure Fault where
  index : Nat
  length : Option Nat
  deriving DecidableEq, Repr, Inhabited

def Fault.message (f : Fault) : String :=
  match f.length with
  | some n => "invalid utf-8 sequence of " ++ toString n ++ " bytes from index " ++ toString f.index
  | none => "incomplete utf-8 byte sequence from index " ++ toString f.index

/-- What a first byte and the bytes after it begin with. -/
inductive Start where
  /-- A character with that many bytes after the first. -/
  | char (c : Char) (more : Nat)
  /-- A malformed sequence of that many bytes. -/
  | malformed (length : Nat)
  /-- A character that the bytes do not complete. -/
  | incomplete
  deriving Repr, Inhabited

/-- Reads `left` more continuation bytes, of which `seen` are read; the next one lies between `lo`
and `hi`. -/
def continuation (value seen : Nat) : (left lo hi : Nat) → Bytes → Start
  | 0, _, _, _ => .char (Char.ofNat value) (seen - 1)
  | _ + 1, _, _, [] => .incomplete
  | left + 1, lo, hi, b :: bs =>
    if lo ≤ b.toNat && b.toNat ≤ hi then
      continuation (value * 64 + (b.toNat - 0x80)) (seen + 1) left 0x80 0xBF bs
    else .malformed seen

def start (first : UInt8) (bs : Bytes) : Start :=
  let n := first.toNat
  if n < 0x80 then .char (Char.ofNat n) 0
  else if n < 0xC2 then .malformed 1
  else if n < 0xE0 then continuation (n - 0xC0) 1 1 0x80 0xBF bs
  else if n < 0xF0 then
    continuation (n - 0xE0) 1 2 (if n = 0xE0 then 0xA0 else 0x80) (if n = 0xED then 0x9F else 0xBF) bs
  else if n < 0xF5 then
    continuation (n - 0xF0) 1 3 (if n = 0xF0 then 0x90 else 0x80) (if n = 0xF4 then 0x8F else 0xBF) bs
  else .malformed 1

def decodeFrom (index : Nat) : Bytes → Except Fault (List Char)
  | [] => .ok []
  | b :: bs =>
    match start b bs with
    | .char c more => do
      let cs ← decodeFrom (index + 1 + more) (bs.drop more)
      return c :: cs
    | .malformed n => .error ⟨index, some n⟩
    | .incomplete => .error ⟨index, none⟩
termination_by bs => bs.length
decreasing_by simp only [List.length_drop, List.length_cons]; omega

def decode (bs : Bytes) : Except Fault String := (decodeFrom 0 bs).map String.ofList

/-- The characters of bytes, with the replacement character for each malformed sequence. -/
def lossyChars : Bytes → List Char
  | [] => []
  | b :: bs =>
    match start b bs with
    | .char c more => c :: lossyChars (bs.drop more)
    | .malformed n => '\uFFFD' :: lossyChars (bs.drop (n - 1))
    | .incomplete => ['\uFFFD']
termination_by bs => bs.length
decreasing_by all_goals simp only [List.length_drop, List.length_cons]; omega

/-- The text of bytes, with the replacement character for each malformed sequence. -/
def decodeLossy (bs : Bytes) : String := String.ofList (lossyChars bs)

end Utf8

end Schematron
