import PubSweep.Toml.Scalar

/-!
Reading TOML texts.
-/

namespace PubSweep.Toml

/-- Leaves out blanks inside a line. -/
def skipLineBlanks (cs : List Char) : List Char := cs.dropWhile isLineBlank

/-- Leaves out a comment, if there is one; its characters must be allowed in text. -/
def comment? (cs : List Char) : Option (List Char) :=
  match cs with
  | '#' :: r =>
    let isInside (c : Char) : Bool := !isControl c
    let rest := r.dropWhile isInside
    if rest.isEmpty || (lineBreak? rest).isSome then some rest else none
  | _ => some cs

/-- Reads the end of a line: blanks, a comment, and a line break or the end of the text. -/
def lineEnd? (cs : List Char) : Option (List Char) := do
  let r ← comment? (skipLineBlanks cs)
  if r.isEmpty then some [] else lineBreak? r

/-- Leaves out blanks, comments and line breaks. -/
def skipSpace? : (fuel : Nat) → List Char → Option (List Char)
  | 0, cs => some cs
  | fuel + 1, cs => do
    let r ← comment? (skipLineBlanks cs)
    match lineBreak? r with
    | some r => skipSpace? fuel r
    | none => return r

/-- Leaves out blanks, comments and line breaks. -/
def space? (cs : List Char) : Option (List Char) := skipSpace? (cs.length + 1) cs

/-- Whether a character may stand in a key without quotes. -/
def isBareKeyChar (c : Char) : Bool := c.isAlphanum || c = '_' || c = '-'

/-- Reads one part of a key. -/
def keyPart? (cs : List Char) : Option (String × List Char) :=
  match cs with
  | '"' :: r => (basicString? (r.length + 1) r).map fun (s, r) => (String.ofList s, r)
  | '\'' :: r => (literalString? r).map fun (s, r) => (String.ofList s, r)
  | _ =>
    let part := cs.takeWhile isBareKeyChar
    if part.isEmpty then none else some (String.ofList part, cs.drop part.length)

/-- Reads a key with dots between its parts. -/
def key? : (fuel : Nat) → List Char → Option (List String × List Char)
  | 0, _ => none
  | fuel + 1, cs => do
    let (part, r) ← keyPart? (skipLineBlanks cs)
    match skipLineBlanks r with
    | '.' :: r => do
      let (parts, r) ← key? fuel r
      return (part :: parts, r)
    | r => return ([part], r)

mutual
/-- Reads a value. -/
def value? : (fuel : Nat) → List Char → Option (Value × List Char)
  | 0, _ => none
  | fuel + 1, cs =>
    match cs with
    | '[' :: r => do
      let (items, r) ← items? fuel (← space? r)
      return (.array items, r)
    | '\x7b' :: r => do
      let (members, r) ← inline? fuel [] (← space? r)
      return (.table (finishMembers members), r)
    | '"' :: _ | '\'' :: _ => (string? cs).map fun (s, r) => (.string (String.ofList s), r)
    | _ => bare? cs

/-- Reads the items of an array and its closing bracket. -/
def items? : (fuel : Nat) → List Char → Option (List Value × List Char)
  | 0, _ => none
  | fuel + 1, cs =>
    match cs with
    | ']' :: r => some ([], r)
    | _ => do
      let (v, r) ← value? fuel cs
      match ← space? r with
      | ',' :: r => do
        let (vs, r) ← items? fuel (← space? r)
        return (v :: vs, r)
      | ']' :: r => return ([v], r)
      | _ => none

/-- Reads the members of a table in braces and the closing brace. -/
def inline? : (fuel : Nat) → Members → List Char → Option (Members × List Char)
  | 0, _, _ => none
  | fuel + 1, ms, cs =>
    match cs with
    | '\x7d' :: r => some (ms, r)
    | _ => do
      let (key, r) ← key? (cs.length + 1) cs
      let r ← mark? '=' r
      let (v, r) ← value? fuel (skipLineBlanks r)
      let ms ← ms.assign key v
      match ← space? r with
      | ',' :: r => inline? fuel ms (← space? r)
      | '\x7d' :: r => return (ms, r)
      | _ => none
end

/-- Reads a line that opens a table, or gives a value to a key of the table opened last. -/
def line? (current : List String) (ms : Members) (cs : List Char) :
    Option (List String × Members × List Char) :=
  match cs with
  | '[' :: '[' :: r => do
    let (name, r) ← key? (r.length + 1) r
    let r ← mark? ']' r
    let r ← mark? ']' r
    return (name, ← ms.openNext name, ← lineEnd? r)
  | '[' :: r => do
    let (name, r) ← key? (r.length + 1) r
    let r ← mark? ']' r
    return (name, ← ms.openTable name, ← lineEnd? r)
  | _ => do
    let (key, r) ← key? (cs.length + 1) cs
    let r ← mark? '=' r
    let (v, r) ← value? (r.length + 1) (skipLineBlanks r)
    return (current, ← ms.change (·.assign key v) current, ← lineEnd? r)

/-- Reads all lines. -/
def lines? : (fuel : Nat) → (current : List String) → Members → List Char → Option Members
  | 0, _, _, _ => none
  | fuel + 1, current, ms, cs => do
    let cs ← space? cs
    if cs.isEmpty then return ms
    else
      let (current, ms, rest) ← line? current ms cs
      lines? fuel current ms rest

/-- Reads a text; a byte order mark in front is passed over. -/
def parse? (text : String) : Option (List (String × Value)) :=
  let cs :=
    match text.toList with
    | c :: r => if c.toNat = 0xFEFF then r else c :: r
    | [] => []
  (lines? (cs.length + 1) [] [] cs).map finishMembers

end PubSweep.Toml
