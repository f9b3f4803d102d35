import CellMachine.Text.Digits
import CellMachine.Wire.Image

/-!
# Digests

The SHA-256 digest of bytes, by which the written form of an image is told from every other. A
message is padded to blocks of sixty-four bytes; each block is expanded to sixty-four words, which
are mixed into the eight words of the chaining state one after the other.
-/

namespace CellMachine

namespace Digest

/-- The chaining state: eight words. -/
structure State where
  a : UInt32
  b : UInt32
  c : UInt32
  d : UInt32
  e : UInt32
  f : UInt32
  g : UInt32
  h : UInt32
  deriving DecidableEq, Repr

/-- The state before the first block. -/
def State.initial : State :=
  { a := 0x6a09e667, b := 0xbb67ae85, c := 0x3c6ef372, d := 0xa54ff53a,
    e := 0x510e527f, f := 0x9b05688c, g := 0x1f83d9ab, h := 0x5be0cd19 }

/-- The constants of the sixty-four rounds. -/
def roundConstants : List UInt32 :=
  [0x428a2f98, 0x71374491, 0xb5c0fbcf, 0xe9b5dba5, 0x3956c25b, 0x59f111f1, 0x923f82a4, 0xab1c5ed5,
   0xd807aa98, 0x12835b01, 0x243185be, 0x550c7dc3, 0x72be5d74, 0x80deb1fe, 0x9bdc06a7, 0xc19bf174,
   0xe49b69c1, 0xefbe4786, 0x0fc19dc6, 0x240ca1cc, 0x2de92c6f, 0x4a7484aa, 0x5cb0a9dc, 0x76f988da,
   0x983e5152, 0xa831c66d, 0xb00327c8, 0xbf597fc7, 0xc6e00bf3, 0xd5a79147, 0x06ca6351, 0x14292967,
   0x27b70a85, 0x2e1b2138, 0x4d2c6dfc, 0x53380d13, 0x650a7354, 0x766a0abb, 0x81c2c92e, 0x92722c85,
   0xa2bfe8a1, 0xa81a664b, 0xc24b8b70, 0xc76c51a3, 0xd192e819, 0xd6990624, 0xf40e3585, 0x106aa070,
   0x19a4c116, 0x1e376c08, 0x2748774c, 0x34b0bcb5, 0x391c0cb3, 0x4ed8aa4a, 0x5b9cca4f, 0x682e6ff3,
   0x748f82ee, 0x78a5636f, 0x84c87814, 0x8cc70208, 0x90befffa, 0xa4506ceb, 0xbef9a3f7, 0xc67178f2]

/-- The bits of a word turned right by `n` places. -/
def rotate (x : UInt32) (n : UInt32) : UInt32 := (x >>> n) ||| (x <<< (32 - n))

/-- One round with the schedule word `w` and the round constant `k`. -/
def State.round (s : State) (w k : UInt32) : State :=
  let mixE := rotate s.e 6 ^^^ rotate s.e 11 ^^^ rotate s.e 25
  let choice := (s.e &&& s.f) ^^^ (~~~s.e &&& s.g)
  let t1 := s.h + mixE + choice + k + w
  let mixA := rotate s.a 2 ^^^ rotate s.a 13 ^^^ rotate s.a 22
  let majority := (s.a &&& s.b) ^^^ (s.a &&& s.c) ^^^ (s.b &&& s.c)
  { a := t1 + mixA + majority, b := s.a, c := s.b, d := s.c,
    e := s.d + t1, f := s.e, g := s.f, h := s.g }

/-- The sum of two states, word by word. -/
def State.add (s t : State) : State :=
  { a := s.a + t.a, b := s.b + t.b, c := s.c + t.c, d := s.d + t.d,
    e := s.e + t.e, f := s.f + t.f, g := s.g + t.g, h := s.h + t.h }

/-- The words of bytes, four bytes each, most significant first. -/
def words : List UInt8 → List UInt32
  | b0 :: b1 :: b2 :: b3 :: rest =>
    ((b0.toUInt32 <<< 24) ||| (b1.toUInt32 <<< 16) ||| (b2.toUInt32 <<< 8) ||| b3.toUInt32) ::
      words rest
  | _ => []

/-- The schedule word after those in `ws`. -/
def nextWord (ws : Array UInt32) : UInt32 :=
  let back (n : Nat) := ws.getD (ws.size - n) 0
  let x := back 15
  let y := back 2
  back 16 + (rotate x 7 ^^^ rotate x 18 ^^^ (x >>> 3)) + back 7 +
    (rotate y 17 ^^^ rotate y 19 ^^^ (y >>> 10))

/-- The schedule continued by `count` words. -/
def extend : (count : Nat) → Array UInt32 → Array UInt32
  | 0, ws => ws
  | count + 1, ws => extend count (ws.push (nextWord ws))

/-- The sixty-four words of a block. -/
def schedule (block : List UInt8) : Array UInt32 := extend 48 (words block).toArray

/-- Mixes a block into the state. -/
def State.compress (s : State) (block : List UInt8) : State :=
  s.add (((schedule block).toList.zip roundConstants).foldl (fun t wk => t.round wk.1 wk.2) s)

/-- The message with a one bit, zeros and its length in bits, up to whole blocks. -/
def pad (message : List UInt8) : List UInt8 :=
  let length := message.length
  message ++ 0x80 :: List.replicate ((119 - length % 64) % 64) 0 ++ Cbor.bigEndian 8 (8 * length)

/-- Mixes `count` blocks into the state. -/
def compressAll : (count : Nat) → List UInt8 → State → State
  | 0, _, s => s
  | count + 1, bytes, s => compressAll count (bytes.drop 64) (s.compress (bytes.take 64))

/-- The bytes of a state. -/
def State.bytes (s : State) : List UInt8 :=
  [s.a, s.b, s.c, s.d, s.e, s.f, s.g, s.h].flatMap fun w => Cbor.bigEndian 4 w.toNat

/-- The digest of a message. -/
def ofMessage (message : List UInt8) : List UInt8 :=
  let padded := pad message
  (compressAll (padded.length / 64) padded State.initial).bytes

end Digest

/-- The digest of an image in hexadecimal digits. -/
def Image.digest (img : Image) : String := Text.hexBytes (Digest.ofMessage img.toBytes)

end CellMachine
