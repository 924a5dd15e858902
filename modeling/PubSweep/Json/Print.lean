import PubSweep.Digest.Block
import PubSweep.Json.Value

/-!
JSON values as indented text.
-/

namespace PubSweep.Json

/-- The characters of a character inside quotes. -/
def escapeChar (c : Char) : List Char :=
  if c = '"' then ['\\', '"']
  else if c = '\\' then ['\\', '\\']
  else if c = '\n' then ['\\', 'n']
  else if c = '\r' then ['\\', 'r']
  else if c = '\t' then ['\\', 't']
  else if c.toNat = 8 then ['\\', 'b']
  else if c.toNat = 12 then ['\\', 'f']
  else if c.toNat < 32 then
    ['\\', 'u', '0', '0', Digest.hexDigit (c.toNat / 16), Digest.hexDigit (c.toNat % 16)]
  else [c]

/-- A text in quotes. -/
def quote (text : String) : String :=
  "\"" ++ String.ofList (text.toList.flatMap escapeChar) ++ "\""

/-- The text of a number. -/
def renderNumber (mantissa : Int) (exponent : Nat) : String :=
  if exponent = 0 then toString mantissa
  else
    let digits := toString mantissa.natAbs
    let digits := String.ofList (List.replicate (exponent + 1 - digits.length) '0') ++ digits
    let whole := digits.toList.take (digits.length - exponent)
    let fraction := digits.toList.drop (digits.length - exponent)
    (if mantissa < 0 then "-" else "") ++ String.ofList whole ++ "." ++ String.ofList fraction

/-- The start of a line. -/
def indent (depth : Nat) : String := "\n" ++ String.ofList (List.replicate (2 * depth) ' ')

mutual
/-- A value as text, two blanks for each level. -/
def prettyAt (depth : Nat) : Json → String
  | null => "null"
  | bool b => if b then "true" else "false"
  | number m e => renderNumber m e
  | string s => quote s
  | array [] => "[]"
  | array (x :: xs) =>
    "[" ++ indent (depth + 1) ++ prettyAt (depth + 1) x ++ prettyItems (depth + 1) xs ++
      indent depth ++ "]"
  | object [] => "\x7b\x7d"
  | object ((k, v) :: ms) =>
    "\x7b" ++ indent (depth + 1) ++ quote k ++ ": " ++ prettyAt (depth + 1) v ++
      prettyMembers (depth + 1) ms ++ indent depth ++ "\x7d"

/-- The further items of an array. -/
def prettyItems (depth : Nat) : List Json → String
  | [] => ""
  | x :: xs => "," ++ indent depth ++ prettyAt depth x ++ prettyItems depth xs

/-- The further members of an object. -/
def prettyMembers (depth : Nat) : List (String × Json) → String
  | [] => ""
  | (k, v) :: ms =>
    "," ++ indent depth ++ quote k ++ ": " ++ prettyAt depth v ++ prettyMembers depth ms
end

/-- A value as text, two blanks for each level. -/
def pretty (j : Json) : String := prettyAt 0 j

end PubSweep.Json
