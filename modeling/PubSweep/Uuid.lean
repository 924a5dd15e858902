import PubSweep.Digest.Sha1
import PubSweep.Text.Bytes

/-!
Identities of 128 bits.
-/

namespace PubSweep

/-- An identity; identities are ordered by their bytes. -/
structure Uuid where
  value : BitVec 128
deriving DecidableEq, Inhabited

namespace Uuid

/-- The order by bytes. -/
def compare (a b : Uuid) : Ordering := Ord.compare a.value.toNat b.value.toNat

/-- The bytes of an identity. -/
def bytes (u : Uuid) : List UInt8 :=
  (List.range 16).map fun i => UInt8.ofNat (u.value.toNat >>> (8 * (15 - i)))

/-- The identity of sixteen bytes. -/
def ofBytes (bytes : List UInt8) : Uuid :=
  ⟨BitVec.ofNat 128 (bytes.foldl (fun n b => n * 256 + b.toNat) 0)⟩

/-- The identity of a name: the digest of the name in its namespace, with the marks of version 5. -/
def ofName (space : Uuid) (name : List UInt8) : Uuid :=
  let digest := (Digest.Sha1.digest (space.bytes ++ name)).take 16
  ofBytes <| digest.zipIdx.map fun (b, i) =>
    if i = 6 then b &&& 0x0f ||| 0x50
    else if i = 8 then b &&& 0x3f ||| 0x80
    else b

/-- The groups of digits in the text of an identity. -/
def groups : List Nat := [8, 4, 4, 4, 12]

/-- Some digits in groups with hyphens between. -/
def hyphenate : List Nat → List Char → List Char
  | [], _ => []
  | [n], ds => ds.take n
  | n :: ns, ds => ds.take n ++ '-' :: hyphenate ns (ds.drop n)

/-- The text of an identity. -/
def render (u : Uuid) : String :=
  String.ofList (hyphenate groups (u.bytes.flatMap Digest.hexByte))

/-- The value of a hexadecimal digit of either case. -/
def digitValue (c : Char) : Option Nat :=
  if '0' ≤ c && c ≤ '9' then some (c.toNat - 48)
  else if 'a' ≤ c && c ≤ 'f' then some (c.toNat - 87)
  else if 'A' ≤ c && c ≤ 'F' then some (c.toNat - 55)
  else none

/-- The value of hexadecimal digits. -/
def digitsValue (ds : List Char) : Option Nat :=
  ds.foldlM (fun n c => (digitValue c).map (16 * n + ·)) 0

/-- The digits of a text in groups; none where a hyphen is missing or extra. -/
def ungroup : List Nat → List Char → Option (List Char)
  | [], cs => if cs.isEmpty then some [] else none
  | [n], cs => if cs.length = n then some cs else none
  | n :: ns, cs =>
    match cs.drop n with
    | '-' :: rest => (ungroup ns rest).map (cs.take n ++ ·)
    | _ => none

/-- What may stand around the text of an identity: braces, or the name of the scheme in front. -/
def unwrap (cs : List Char) : List Char :=
  let scheme := "urn:uuid:".toList
  if scheme.isPrefixOf cs then cs.drop scheme.length
  else if cs.length = 38 && cs.head? == some '\x7b' && cs.getLast? == some '\x7d' then
    (cs.drop 1).dropLast
  else cs

/-- Reads an identity: thirty-two digits, with hyphens or without. -/
def parse? (text : String) : Option Uuid :=
  let cs := text.toList
  let digits := if cs.length = 32 then some cs else ungroup groups (unwrap cs)
  (digits.bind digitsValue).map fun n => ⟨BitVec.ofNat 128 n⟩

end Uuid

end PubSweep
