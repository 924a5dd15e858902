import PubSweep.Digest.Block

/-!
The digest SHA-1.
-/

namespace PubSweep.Digest.Sha1

/-- The five words between two blocks. -/
structure State where
  a : UInt32
  b : UInt32
  c : UInt32
  d : UInt32
  e : UInt32

/-- The words before the first block. -/
def State.initial : State := ⟨0x67452301, 0xefcdab89, 0x98badcfe, 0x10325476, 0xc3d2e1f0⟩

/-- The words of all rounds, from the words of a block. -/
def schedule (block : List UInt32) : Array UInt32 :=
  (List.range 64).foldl
    (fun w i =>
      let x := w.getD (i + 13) 0 ^^^ w.getD (i + 8) 0 ^^^ w.getD (i + 2) 0 ^^^ w.getD i 0
      w.push (rotateLeft x 1))
    block.toArray

/-- What a round mixes in: a function of three words, and a constant. -/
def mix (i : Nat) (s : State) : UInt32 × UInt32 :=
  if i < 20 then ((s.b &&& s.c) ||| (~~~s.b &&& s.d), 0x5a827999)
  else if i < 40 then (s.b ^^^ s.c ^^^ s.d, 0x6ed9eba1)
  else if i < 60 then ((s.b &&& s.c) ||| (s.b &&& s.d) ||| (s.c &&& s.d), 0x8f1bbcdc)
  else (s.b ^^^ s.c ^^^ s.d, 0xca62c1d6)

/-- One round. -/
def round (s : State) (word : UInt32) (i : Nat) : State :=
  let (f, k) := mix i s
  ⟨rotateLeft s.a 5 + f + s.e + k + word, s.a, rotateLeft s.b 30, s.c, s.d⟩

/-- Takes in a block. -/
def compress (s : State) (block : List UInt32) : State :=
  let t := (schedule block).toList.zipIdx.foldl (fun t (w, i) => round t w i) s
  ⟨s.a + t.a, s.b + t.b, s.c + t.c, s.d + t.d, s.e + t.e⟩

/-- The digest of some bytes. -/
def digest (message : List UInt8) : List UInt8 :=
  let s := (blocks message).foldl compress .initial
  [s.a, s.b, s.c, s.d, s.e].flatMap wordBytes

end PubSweep.Digest.Sha1
