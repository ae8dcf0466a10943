import Schematron.Text.Blank
import Schematron.Text.Utf8

/-!
# Globs

Patterns for paths. A question mark stands for one byte and a star for any number of them, but not
for slashes; two stars that fill the room between slashes stand for any number of directories.
`Glob.rests` gives what a pattern leaves of a text, for every way to match its front.
-/
namespace Schematron

/-- A part of a pattern. -/
inductive Glob.Token where
  | literal (c : Char)
  /-- One byte other than a slash. -/
  | any
  /-- Any number of bytes other than slashes. -/
  | run
  /-- Directories at the start, with the slash after them. -/
  | leading
  /-- Directories between two slashes. -/
  | between
  /-- Everything below a slash. -/
  | inside
  /-- One byte in ranges, or not in them. -/
  | range (negated : Bool) (ranges : List (Char × Char))
  | alternatives (branches : List (List Glob.Token))
  deriving Repr, Inhabited

abbrev Glob := List Glob.Token

/-- Why a text is no pattern. -/
inductive GlobError where
  | unclosedClass
  | invalidRange (first last : Char)
  | unopenedAlternatives
  | unclosedAlternatives
  | danglingEscape
  deriving DecidableEq, Repr, Inhabited

def GlobError.message : GlobError → String
  | .unclosedClass => "unclosed character class; missing ']'"
  | .invalidRange a b => "invalid range; '" ++ a.toString ++ "' > '" ++ b.toString ++ "'"
  | .unopenedAlternatives =>
    "unopened alternate group; missing '\x7b' (maybe escape '\x7d' with '[\x7d]'?)"
  | .unclosedAlternatives =>
    "unclosed alternate group; missing '\x7d' (maybe escape '\x7b' with '[\x7b]'?)"
  | .danglingEscape => "dangling '\\'"

namespace Glob

def slash : UInt8 := 47

/-- The bytes that a range stands for: the last byte of its first character to the first byte of its
last one, and the other bytes of the two. -/
def inRange (r : Char × Char) (b : UInt8) : Bool :=
  let first := String.utf8EncodeChar r.1
  let last := String.utf8EncodeChar r.2
  if r.1 = r.2 then first.contains b
  else
    first.dropLast.contains b || last.tail.contains b ||
      (first.getLast?.getD 0 ≤ b && b ≤ last.headD 0)

/-- A text and everything that is left of it after more of its front is taken, as long as that
front is in a class. -/
def tails (p : UInt8 → Bool) : Bytes → List Bytes
  | [] => [[]]
  | b :: bs => (b :: bs) :: (if p b then tails p bs else [])

/-- What follows each slash of a text. -/
def afterSlashes : Bytes → List Bytes
  | [] => []
  | b :: bs => if b = slash then bs :: afterSlashes bs else afterSlashes bs

def afterBytes : Bytes → Bytes → List Bytes
  | [], bs => [bs]
  | _ :: _, [] => []
  | w :: ws, b :: bs => if w = b then afterBytes ws bs else []

def afterByte (p : UInt8 → Bool) : Bytes → List Bytes
  | [] => []
  | b :: bs => if p b then [bs] else []

mutual

/-- Whether a part stands for the empty text because nothing is written in it. -/
def Token.isVoid : Token → Bool
  | .alternatives bs => allVoid bs
  | _ => false

/-- Whether every branch is void. -/
def allVoid : List (List Token) → Bool
  | [] => true
  | b :: bs => isVoid b && allVoid bs

/-- Whether every part is void. -/
def isVoid : List Token → Bool
  | [] => true
  | t :: ts => t.isVoid && isVoid ts

end

mutual

/-- What a part leaves of a text, for every way to match its front. -/
def Token.rests : Token → Bytes → List Bytes
  | .literal c, bs => afterBytes (String.utf8EncodeChar c) bs
  | .any, bs => afterByte (· != slash) bs
  | .run, bs => tails (· != slash) bs
  | .leading, bs => bs :: afterSlashes bs
  | .between, bs => (afterBytes [slash] bs).flatMap fun r => r :: afterSlashes r
  | .inside, bs => (afterBytes [slash] bs).flatMap (tails fun _ => true)
  | .range negated rs, bs => afterByte (fun b => rs.any (inRange · b) != negated) bs
  | .alternatives branches, bs => if allVoid branches then [bs] else branchRests branches bs

/-- What one of the branches leaves of a text; a void branch is no choice. -/
def branchRests : List (List Token) → Bytes → List Bytes
  | [], _ => []
  | b :: bs, text => (if isVoid b then [] else rests b [text]) ++ branchRests bs text

def rests : List Token → List Bytes → List Bytes
  | [], texts => texts
  | t :: ts, texts => rests ts (texts.flatMap t.rests).eraseDups

end

/-- Whether a pattern matches a whole text. Two stars alone match every text. -/
def accepts (g : Glob) (text : Bytes) : Bool :=
  match g with
  | [.leading] => true
  | _ => (rests g [text]).contains []

/-- The parts read so far: the finished branches of each group that is open, with the branch that is
being read, innermost first. -/
structure Reading where
  /-- The branch that is being read, in reverse. -/
  current : List Token := []
  /-- For each open group the finished branches, in reverse, and the branch around the group. -/
  groups : List (List (List Token) × List Token) := []

def Reading.add (r : Reading) (t : Token) : Reading := { r with current := t :: r.current }

def Reading.openGroup (r : Reading) : Reading := ⟨[], ([], r.current) :: r.groups⟩

/-- Starts the next branch of a group; without a group, a comma is a comma. -/
def Reading.comma (r : Reading) : Reading :=
  match r.groups with
  | [] => r.add (.literal ',')
  | (bs, outer) :: gs => ⟨[], (r.current.reverse :: bs, outer) :: gs⟩

def Reading.closeGroup (r : Reading) : Except GlobError Reading :=
  match r.groups with
  | [] => .error .unopenedAlternatives
  | (bs, outer) :: gs =>
    .ok ⟨.alternatives (r.current.reverse :: bs).reverse :: outer, gs⟩

/-- Ends the last range of a class, if it does not end before it starts. -/
def endRange (c : Char) : List (Char × Char) → Except GlobError (List (Char × Char))
  | [] => .ok [(c, c)]
  | (a, _) :: rs => if c < a then .error (.invalidRange a c) else .ok ((a, c) :: rs)

/-- The ranges of a class, in reverse, and what follows its closing bracket. A bracket or a hyphen
at the start stands for itself, and so does a hyphen at the end. -/
def classRest (start pending : Bool) (rs : List (Char × Char)) :
    List Char → Except GlobError (List (Char × Char) × List Char)
  | [] => .error .unclosedClass
  | c :: cs =>
    if c = ']' && ! start then .ok (if pending then ('-', '-') :: rs else rs, cs)
    else if c = '-' && ! start && ! pending then classRest false true rs cs
    else if pending then do classRest false false (← endRange c rs) cs
    else classRest false false ((c, c) :: rs) cs

theorem length_classRest {start pending : Bool} {rs ranges : List (Char × Char)}
    {cs rest : List Char} (h : classRest start pending rs cs = .ok (ranges, rest)) :
    rest.length < cs.length := by
  induction cs generalizing start pending rs with
  | nil => simp [classRest] at h
  | cons c cs ih =>
    unfold classRest at h
    split at h
    · simp only [Except.ok.injEq, Prod.mk.injEq] at h
      simp [h.2]
    · split at h
      · exact Nat.lt_succ_of_lt (ih h)
      · split at h
        · cases he : endRange c rs with
          | error e => simp [he, bind, Except.bind] at h
          | ok rs' => exact Nat.lt_succ_of_lt (ih (by simpa [he, bind, Except.bind] using h))
        · exact Nat.lt_succ_of_lt (ih h)

/-- Whether a run of two stars ends a branch or is followed by a slash. -/
inductive Following where
  | slash
  | branchEnd
  | other
  deriving DecidableEq, Repr, Inhabited

def following (r : Reading) : List Char → Following
  | [] => .branchEnd
  | c :: _ =>
    if c = '/' then .slash
    else if (c = ',' || c = '\x7d') && ! r.groups.isEmpty then .branchEnd
    else .other

/-- The part that two stars between slashes make, given the part before them. -/
def merge (before : Option Token) (atEnd : Bool) : List Token :=
  match before with
  | some .leading => [.leading]
  | some .inside => [.inside]
  | _ => [if atEnd then .inside else .between]

/-- Two stars after a character, where `rest` follows them: the new state, and whether the slash
that follows is used up. -/
def twoStars (r : Reading) (before : Option Char) (rest : List Char) : Reading × Bool :=
  let plain := (r.add .run).add .run
  if r.current.isEmpty then
    match rest with
    | [] => (r.add .leading, false)
    | '/' :: _ => (r.add .leading, true)
    | _ => (plain, false)
  else if before != some '/' && (r.groups.isEmpty || (before != some ',' && before != some '\x7b')) then
    (plain, false)
  else
    match following r rest with
    | .other => (plain, false)
    | .branchEnd => ({ r with current := merge r.current.head? true ++ r.current.tail }, false)
    | .slash => ({ r with current := merge r.current.head? false ++ r.current.tail }, true)

/-- Reads a pattern, where `before` is the character in front. -/
def read (r : Reading) (before : Option Char) : List Char → Except GlobError Reading
  | [] => .ok r
  | '?' :: cs => read (r.add .any) (some '?') cs
  | '*' :: '*' :: cs =>
    match twoStars r before cs, cs with
    | (r, true), _ :: cs => read r (some '/') cs
    | (r, _), cs => read r (some '*') cs
  | '*' :: cs => read (r.add .run) (some '*') cs
  | '[' :: cs =>
    let negated := cs.head? == some '!' || cs.head? == some '^'
    match _h : classRest true false [] (if negated then cs.tail else cs) with
    | .error e => .error e
    | .ok (rs, rest) => read (r.add (.range negated rs.reverse)) (some ']') rest
  | '\x7b' :: cs => read r.openGroup (some '\x7b') cs
  | '\x7d' :: cs => do read (← r.closeGroup) (some '\x7d') cs
  | ',' :: cs => read r.comma (some ',') cs
  | '\\' :: c :: cs => read (r.add (.literal c)) (some c) cs
  | ['\\'] => .error .danglingEscape
  | c :: cs => read (r.add (.literal c)) (some c) cs
termination_by cs => cs.length
decreasing_by
  all_goals simp_wf
  all_goals try omega
  all_goals
    have hl := length_classRest (by assumption)
    split at hl <;> simp_all <;> omega

def parse (text : String) : Except GlobError Glob := do
  let r ← read {} none text.toList
  if r.groups.isEmpty then return r.current.reverse else throw .unclosedAlternatives

end Glob

end Schematron
