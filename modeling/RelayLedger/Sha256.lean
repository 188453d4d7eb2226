/-
# SHA-256

The digest of FIPS 180-4: the message is padded to whole blocks of sixty-four bytes, and the
registers are folded over the blocks. Deployment addresses and the chain addresses made from names
are cut from it. Whatever the message, the digest has thirty-two bytes (`Sha256.length_digest`).

Key definitions: `Sha256.pad`, `Sha256.schedule`, `Sha256.compress`, `Sha256.digest`.
-/
import RelayLedger.Bytes

namespace RelayLedger
namespace Sha256

/-- The eight working registers. -/
structure Registers where
  a : UInt32
  b : UInt32
  c : UInt32
  d : UInt32
  e : UInt32
  f : UInt32
  g : UInt32
  h : UInt32

/-- The registers before the first block: the fractional parts of the square roots of the first
eight primes. -/
def Registers.initial : Registers :=
  ⟨0x6a09e667, 0xbb67ae85, 0x3c6ef372, 0xa54ff53a, 0x510e527f, 0x9b05688c, 0x1f83d9ab, 0x5be0cd19⟩

/-- The constant of each round: the fractional parts of the cube roots of the first sixty-four
primes. -/
def roundConstants : List UInt32 :=
  [0x428a2f98, 0x71374491, 0xb5c0fbcf, 0xe9b5dba5, 0x3956c25b, 0x59f111f1, 0x923f82a4, 0xab1c5ed5,
   0xd807aa98, 0x12835b01, 0x243185be, 0x550c7dc3, 0x72be5d74, 0x80deb1fe, 0x9bdc06a7, 0xc19bf174,
   0xe49b69c1, 0xefbe4786, 0x0fc19dc6, 0x240ca1cc, 0x2de92c6f, 0x4a7484aa, 0x5cb0a9dc, 0x76f988da,
   0x983e5152, 0xa831c66d, 0xb00327c8, 0xbf597fc7, 0xc6e00bf3, 0xd5a79147, 0x06ca6351, 0x14292967,
   0x27b70a85, 0x2e1b2138, 0x4d2c6dfc, 0x53380d13, 0x650a7354, 0x766a0abb, 0x81c2c92e, 0x92722c85,
   0xa2bfe8a1, 0xa81a664b, 0xc24b8b70, 0xc76c51a3, 0xd192e819, 0xd6990624, 0xf40e3585, 0x106aa070,
   0x19a4c116, 0x1e376c08, 0x2748774c, 0x34b0bcb5, 0x391c0cb3, 0x4ed8aa4a, 0x5b9cca4f, 0x682e6ff3,
   0x748f82ee, 0x78a5636f, 0x84c87814, 0x8cc70208, 0x90befffa, 0xa4506ceb, 0xbef9a3f7, 0xc67178f2]

/-- A word turned right by `n` places, `0 < n < 32`. -/
def rotate (n : UInt32) (x : UInt32) : UInt32 := (x >>> n) ||| (x <<< (32 - n))

/-- The words of a block, four bytes each. -/
def words : Bytes → List UInt32
  | a :: b :: c :: d :: rest => UInt32.ofNat (Bytes.toNat [a, b, c, d]) :: words rest
  | _ => []

/-- The word that follows sixteen words of the schedule. -/
def nextWord (window : List UInt32) : UInt32 :=
  let w0 := window.getD 0 0
  let w1 := window.getD 1 0
  let w9 := window.getD 9 0
  let w14 := window.getD 14 0
  let s0 := rotate 7 w1 ^^^ rotate 18 w1 ^^^ (w1 >>> 3)
  let s1 := rotate 17 w14 ^^^ rotate 19 w14 ^^^ (w14 >>> 10)
  w0 + s0 + w9 + s1

/-- The next `count` words of the schedule, of which `window` holds the first sixteen. -/
def schedule : Nat → List UInt32 → List UInt32
  | 0, _ => []
  | count + 1, window =>
    window.getD 0 0 :: schedule count (window.tail ++ [nextWord window])

/-- One round; `kw` is the round's constant plus its schedule word. -/
def round (r : Registers) (kw : UInt32) : Registers :=
  let s1 := rotate 6 r.e ^^^ rotate 11 r.e ^^^ rotate 25 r.e
  let choice := (r.e &&& r.f) ^^^ ((~~~ r.e) &&& r.g)
  let t1 := r.h + s1 + choice + kw
  let s0 := rotate 2 r.a ^^^ rotate 13 r.a ^^^ rotate 22 r.a
  let majority := (r.a &&& r.b) ^^^ (r.a &&& r.c) ^^^ (r.b &&& r.c)
  ⟨t1 + (s0 + majority), r.a, r.b, r.c, r.d + t1, r.e, r.f, r.g⟩

/-- The registers after one block. -/
def compress (r : Registers) (block : Bytes) : Registers :=
  let kws := List.zipWith (· + ·) roundConstants (schedule 64 (words block))
  let s := kws.foldl round r
  ⟨r.a + s.a, r.b + s.b, r.c + s.c, r.d + s.d, r.e + s.e, r.f + s.f, r.g + s.g, r.h + s.h⟩

/-- The message, a set bit, zeros, and the message's length in bits as eight bytes; the whole is a
multiple of sixty-four bytes. -/
def pad (message : Bytes) : Bytes :=
  let zeros := (119 - message.length % 64) % 64
  message ++ 0x80 :: List.replicate zeros 0 ++ Bytes.ofNat 8 (8 * message.length)

/-- The first `count` blocks of sixty-four bytes. -/
def blocks : Nat → Bytes → List Bytes
  | 0, _ => []
  | count + 1, s => s.take 64 :: blocks count (s.drop 64)

/-- The registers, one after another. -/
def Registers.toBytes (r : Registers) : Bytes :=
  [r.a, r.b, r.c, r.d, r.e, r.f, r.g, r.h].flatMap fun x => Bytes.ofNat 4 x.toNat

/-- The SHA-256 digest of a message. -/
def digest (message : Bytes) : Bytes :=
  let padded := pad message
  ((blocks (padded.length / 64) padded).foldl compress Registers.initial).toBytes

theorem Registers.length_toBytes (r : Registers) : r.toBytes.length = 32 := by
  simp [Registers.toBytes, Bytes.length_ofNat]

@[simp] theorem length_digest (message : Bytes) : (digest message).length = 32 :=
  Registers.length_toBytes _

end Sha256
end RelayLedger
