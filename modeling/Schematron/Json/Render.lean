import Schematron.Json.Basic
import Schematron.Text.Hex

/-!
# Writing JSON

The shortest form: no white space, and only quotation marks, backslashes and control characters are
escaped. A written value holds no line break.
-/
namespace Schematron.Json

def escapeChar (c : Char) : List Char :=
  if c == '"' then ['\\', '"']
  else if c == '\\' then ['\\', '\\']
  else if c == '\n' then ['\\', 'n']
  else if c == '\r' then ['\\', 'r']
  else if c == '\t' then ['\\', 't']
  else if c.toNat == 8 then ['\\', 'b']
  else if c.toNat == 12 then ['\\', 'f']
  else if c.toNat < 0x20 then
    ['\\', 'u', '0', '0', Hex.digit (c.toNat / 16), Hex.digit (c.toNat % 16)]
  else [c]

def quote (s : String) : String := String.ofList ('"' :: s.toList.flatMap escapeChar ++ ['"'])

mutual

def render : Json → String
  | .null => "null"
  | .bool true => "true"
  | .bool false => "false"
  | .int n => toString n
  | .decimal s => s
  | .str s => quote s
  | .unpaired => "\"\""
  | .arr js => "[" ++ renderItems js ++ "]"
  | .obj ms => "\x7b" ++ renderMembers ms ++ "\x7d"

/-- The items of an array, with commas between them. -/
def renderItems : List Json → String
  | [] => ""
  | [j] => j.render
  | j :: js => j.render ++ "," ++ renderItems js

/-- The members of an object, with commas between them. -/
def renderMembers : List (String × Json) → String
  | [] => ""
  | [(k, j)] => quote k ++ ":" ++ j.render
  | (k, j) :: ms => quote k ++ ":" ++ j.render ++ "," ++ renderMembers ms

end

end Schematron.Json
