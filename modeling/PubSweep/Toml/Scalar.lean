import PubSweep.Time
import PubSweep.Toml.Value
import PubSweep.Uuid

/-!
TOML values without parts: strings, numbers, dates and truth values.
-/

namespace PubSweep.Toml

/-- Whether a character may not stand in a line of text. -/
def isControl (c : Char) : Bool := (c.toNat < 32 && c ≠ '\t') || c.toNat = 127

/-- Blanks inside a line. -/
def isLineBlank (c : Char) : Bool := c = ' ' || c = '\t'

/-- The character of a number, if there is one. -/
def charOf? (n : Nat) : Option Char := if n.isValidChar then some (Char.ofNat n) else none

/-- Reads some hexadecimal digits as a character. -/
def hexChar? (count : Nat) (cs : List Char) : Option (Char × List Char) := do
  let digits := cs.take count
  if digits.length ≠ count then none
  else return (← charOf? (← Uuid.digitsValue digits), cs.drop count)

/-- Reads the character of an escape, behind its backslash. -/
def escape? : List Char → Option (Char × List Char)
  | 'b' :: r => some (Char.ofNat 8, r)
  | 't' :: r => some ('\t', r)
  | 'n' :: r => some ('\n', r)
  | 'f' :: r => some (Char.ofNat 12, r)
  | 'r' :: r => some ('\r', r)
  | 'e' :: r => some (Char.ofNat 27, r)
  | '"' :: r => some ('"', r)
  | '\\' :: r => some ('\\', r)
  | 'x' :: r => hexChar? 2 r
  | 'u' :: r => hexChar? 4 r
  | 'U' :: r => hexChar? 8 r
  | _ => none

/-- Reads the rest of a line in double quotes. -/
def basicString? : (fuel : Nat) → List Char → Option (List Char × List Char)
  | 0, _ => none
  | _, [] => none
  | _ + 1, '"' :: r => some ([], r)
  | fuel + 1, '\\' :: r => do
    let (c, r) ← escape? r
    let (cs, r) ← basicString? fuel r
    return (c :: cs, r)
  | fuel + 1, c :: r =>
    if isControl c then none else (basicString? fuel r).map fun (cs, r) => (c :: cs, r)

/-- Reads the rest of a line in single quotes. -/
def literalString? : List Char → Option (List Char × List Char)
  | [] => none
  | '\'' :: r => some ([], r)
  | c :: r => if isControl c then none else (literalString? r).map fun (cs, r) => (c :: cs, r)

/-- The rest of a text behind a line break. -/
def lineBreak? : List Char → Option (List Char)
  | '\n' :: r => some r
  | '\r' :: '\n' :: r => some r
  | _ => none

/-- Leaves out a line break right behind the opening quotes. -/
def skipFirstBreak (cs : List Char) : List Char := (lineBreak? cs).getD cs

/-- Leaves out blanks and line breaks. -/
def skipBlankLines : (fuel : Nat) → List Char → List Char
  | 0, cs => cs
  | fuel + 1, cs =>
    let r := cs.dropWhile isLineBlank
    match lineBreak? r with
    | some r => skipBlankLines fuel r
    | none => r

/-- The closing quotes of a text over several lines; up to two more quotes before them belong to the
text. -/
def closing? (quote : Char) (cs : List Char) : Option (List Char × List Char) :=
  let quotes := cs.takeWhile (· = quote)
  if quotes.length < 3 then none
  else
    let count := min quotes.length 5
    some (List.replicate (count - 3) quote, cs.drop count)

/-- Reads the rest of a text over several lines.  In double quotes a backslash escapes, and one at
the end of a line joins the lines. -/
def longString? (quote : Char) : (fuel : Nat) → List Char → Option (List Char × List Char)
  | 0, _ => none
  | fuel + 1, cs =>
    match closing? quote cs with
    | some found => some found
    | none =>
      match cs with
      | [] => none
      | c :: r =>
        if c = '\\' && quote = '"' then
          match lineBreak? (r.dropWhile isLineBlank) with
          | some rest => longString? quote fuel (skipBlankLines rest.length rest)
          | none => do
            let (e, r) ← escape? r
            let (cs, r) ← longString? quote fuel r
            return (e :: cs, r)
        else
          match lineBreak? cs with
          | some r => (longString? quote fuel r).map fun (cs, r) => ('\n' :: cs, r)
          | none =>
            if isControl c then none
            else (longString? quote fuel r).map fun (cs, r) => (c :: cs, r)

/-- Reads a text in quotes. -/
def string? : List Char → Option (List Char × List Char)
  | '"' :: '"' :: '"' :: r => longString? '"' (r.length + 1) (skipFirstBreak r)
  | '\'' :: '\'' :: '\'' :: r => longString? '\'' (r.length + 1) (skipFirstBreak r)
  | '"' :: r => basicString? (r.length + 1) r
  | '\'' :: r => literalString? r
  | _ => none

/-- Leaves out the underscores between digits; none where one does not stand between two. -/
def plainDigits? (isDigit : Char → Bool) : List Char → Option (List Char)
  | [] => none
  | [c] => if isDigit c then some [c] else none
  | c :: '_' :: d :: rest =>
    if isDigit c && isDigit d then (plainDigits? isDigit (d :: rest)).map (c :: ·) else none
  | c :: rest => if isDigit c then (plainDigits? isDigit rest).map (c :: ·) else none

/-- A sign, and what is behind it. -/
def signOf : List Char → Option Char × List Char
  | '+' :: r => (some '+', r)
  | '-' :: r => (some '-', r)
  | r => (none, r)

/-- Reads digits of a base. -/
def digits? (base : Nat) (cs : List Char) : Option Nat := do
  let isDigit (c : Char) : Bool := (Uuid.digitValue c).any (· < base)
  let ds ← plainDigits? isDigit cs
  return ds.foldl (fun n c => base * n + (Uuid.digitValue c).getD 0) 0

/-- Reads a decimal number without zeros in front. -/
def decimal? (cs : List Char) : Option Nat :=
  match cs with
  | '0' :: _ :: _ => none
  | _ => digits? 10 cs

/-- Reads an integer of 64 bits. -/
def integer? (cs : List Char) : Option Int := do
  let n : Int ← match cs with
    | '0' :: 'x' :: r => (digits? 16 r).map Int.ofNat
    | '0' :: 'o' :: r => (digits? 8 r).map Int.ofNat
    | '0' :: 'b' :: r => (digits? 2 r).map Int.ofNat
    | _ =>
      let (sign, r) := signOf cs
      (decimal? r).map fun n => if sign = some '-' then -(n : Int) else n
  if -0x8000000000000000 ≤ n && n < 0x8000000000000000 then some n else none

/-- Whether a text is a floating-point number. -/
def isFloat (cs : List Char) : Bool :=
  let (_, r) := signOf cs
  if r = "inf".toList || r = "nan".toList then true
  else
    let notExponent (c : Char) : Bool := c ≠ 'e' && c ≠ 'E'
    let mantissa := r.takeWhile notExponent
    let exponent := r.dropWhile notExponent
    let whole := mantissa.takeWhile (· ≠ '.')
    let fraction := mantissa.dropWhile (· ≠ '.')
    let isFraction := fraction.isEmpty || (plainDigits? Char.isDigit (fraction.drop 1)).isSome
    let isExponent :=
      exponent.isEmpty || (plainDigits? Char.isDigit (signOf (exponent.drop 1)).2).isSome
    (decimal? whole).isSome && isFraction && isExponent &&
      !(fraction.isEmpty && exponent.isEmpty)

/-- Reads a number of exactly `count` digits. -/
def fixed? (count : Nat) (cs : List Char) : Option (Nat × List Char) :=
  let ds := cs.take count
  if ds.length = count && ds.all Char.isDigit then some (Timestamp.decimal ds, cs.drop count)
  else none

/-- Reads a mark. -/
def mark? (c : Char) : List Char → Option (List Char)
  | d :: r => if c = d then some r else none
  | [] => none

/-- Reads a day. -/
def day? (cs : List Char) : Option (List Char) := do
  let (year, r) ← fixed? 4 cs
  let (month, r) ← fixed? 2 (← mark? '-' r)
  let (day, r) ← fixed? 2 (← mark? '-' r)
  if 1 ≤ month && month ≤ 12 && 1 ≤ day && day ≤ Timestamp.daysInMonth year month then some r
  else none

/-- Reads the seconds of a time of day, if they are there. -/
def seconds? (cs : List Char) : Option (List Char) :=
  match cs with
  | ':' :: r => do
    let (second, r) ← fixed? 2 r
    if 60 < second then none
    else
      match r with
      | '.' :: r =>
        let ds := r.takeWhile Char.isDigit
        if ds.isEmpty then none else some (r.drop ds.length)
      | _ => some r
  | _ => some cs

/-- Reads a time of day. -/
def time? (cs : List Char) : Option (List Char) := do
  let (hour, r) ← fixed? 2 cs
  let (minute, r) ← fixed? 2 (← mark? ':' r)
  if hour ≤ 23 && minute ≤ 59 then seconds? r else none

/-- Reads the distance from universal time, if it is there. -/
def zone? (cs : List Char) : Option (List Char) :=
  match cs with
  | 'Z' :: r | 'z' :: r => some r
  | '+' :: r | '-' :: r => do
    let (hour, r) ← fixed? 2 r
    let (minute, r) ← fixed? 2 (← mark? ':' r)
    if hour ≤ 23 && minute ≤ 59 then some r else none
  | _ => some cs

/-- Whether a text is a day, a time of day, or both. -/
def isDate (cs : List Char) : Bool :=
  match day? cs with
  | some [] => true
  | some (c :: r) =>
    (c = 'T' || c = 't' || c = ' ') && ((time? r).bind zone?).any List.isEmpty
  | none => (time? cs).any List.isEmpty

/-- Whether a character may stand in a value without quotes. -/
def isBareValueChar (c : Char) : Bool :=
  c.isAlphanum || c = '_' || c = '+' || c = '-' || c = '.' || c = ':'

/-- The characters of a value without quotes.  A day and a time of day may have a blank between
them. -/
def bareValue (cs : List Char) : List Char × List Char :=
  let first := cs.takeWhile isBareValueChar
  let rest := cs.drop first.length
  match day? first, rest with
  | some [], ' ' :: d :: r =>
    if d.isDigit then
      let second := (d :: r).takeWhile isBareValueChar
      (first ++ ' ' :: second, (d :: r).drop second.length)
    else (first, rest)
  | _, _ => (first, rest)

/-- Reads a value without quotes. -/
def bare? (cs : List Char) : Option (Value × List Char) := do
  let (token, rest) := bareValue cs
  let text := String.ofList token
  if text = "true" then return (.boolean true, rest)
  else if text = "false" then return (.boolean false, rest)
  else
    match integer? token with
    | some n => return (.integer n, rest)
    | none =>
      if isFloat token then return (.float text, rest)
      else if isDate token then return (.date text, rest)
      else none

end PubSweep.Toml
