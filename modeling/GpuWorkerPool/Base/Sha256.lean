import Mathlib.Algebra.Order.Ring.Nat
import Mathlib.Data.List.Basic

/-!
SHA-256 of a byte string and its hexadecimal digest. Words are 32-bit vectors, the message schedule
is a list read back from its end, and every recursion is structural, so the digest of a short
message can be computed inside a proof.
-/

namespace Base.Sha256

abbrev Word := BitVec 32

def roundConstants : List Word := [
  0x428a2f98, 0x71374491, 0xb5c0fbcf, 0xe9b5dba5, 0x3956c25b, 0x59f111f1, 0x923f82a4, 0xab1c5ed5,
  0xd807aa98, 0x12835b01, 0x243185be, 0x550c7dc3, 0x72be5d74, 0x80deb1fe, 0x9bdc06a7, 0xc19bf174,
  0xe49b69c1, 0xefbe4786, 0x0fc19dc6, 0x240ca1cc, 0x2de92c6f, 0x4a7484aa, 0x5cb0a9dc, 0x76f988da,
  0x983e5152, 0xa831c66d, 0xb00327c8, 0xbf597fc7, 0xc6e00bf3, 0xd5a79147, 0x06ca6351, 0x14292967,
  0x27b70a85, 0x2e1b2138, 0x4d2c6dfc, 0x53380d13, 0x650a7354, 0x766a0abb, 0x81c2c92e, 0x92722c85,
  0xa2bfe8a1, 0xa81a664b, 0xc24b8b70, 0xc76c51a3, 0xd192e819, 0xd6990624, 0xf40e3585, 0x106aa070,
  0x19a4c116, 0x1e376c08, 0x2748774c, 0x34b0bcb5, 0x391c0cb3, 0x4ed8aa4a, 0x5b9cca4f, 0x682e6ff3,
  0x748f82ee, 0x78a5636f, 0x84c87814, 0x8cc70208, 0x90befffa, 0xa4506ceb, 0xbef9a3f7, 0xc67178f2]

structure State where
  a : Word
  b : Word
  c : Word
  d : Word
  e : Word
  f : Word
  g : Word
  h : Word

def initial : State :=
  ⟨0x6a09e667, 0xbb67ae85, 0x3c6ef372, 0xa54ff53a, 0x510e527f, 0x9b05688c, 0x1f83d9ab, 0x5be0cd19⟩

/-- One round with message word `w` and constant `k`. -/
def round (s : State) (w k : Word) : State :=
  let s1 := s.e.rotateRight 6 ^^^ s.e.rotateRight 11 ^^^ s.e.rotateRight 25
  let ch := (s.e &&& s.f) ^^^ (~~~s.e &&& s.g)
  let t1 := s.h + s1 + ch + k + w
  let s0 := s.a.rotateRight 2 ^^^ s.a.rotateRight 13 ^^^ s.a.rotateRight 22
  let maj := (s.a &&& s.b) ^^^ (s.a &&& s.c) ^^^ (s.b &&& s.c)
  ⟨t1 + (s0 + maj), s.a, s.b, s.c, s.d + t1, s.e, s.f, s.g⟩

/-- Extends a schedule, newest word first, by `n` words. -/
def extend : Nat → List Word → List Word
  | 0, words => words
  | n + 1, words =>
      let w15 := words.getD 14 0
      let w2 := words.getD 1 0
      let s0 := w15.rotateRight 7 ^^^ w15.rotateRight 18 ^^^ (w15 >>> 3)
      let s1 := w2.rotateRight 17 ^^^ w2.rotateRight 19 ^^^ (w2 >>> 10)
      extend n ((words.getD 15 0 + s0 + words.getD 6 0 + s1) :: words)

def rounds : State → List (Word × Word) → State
  | s, [] => s
  | s, (w, k) :: rest => rounds (round s w k) rest

/-- The compression of one block of sixteen words. -/
def compress (s : State) (block : List Word) : State :=
  let r := rounds s ((extend 48 block.reverse).reverse.zip roundConstants)
  ⟨s.a + r.a, s.b + r.b, s.c + r.c, s.d + r.d, s.e + r.e, s.f + r.f, s.g + r.g, s.h + r.h⟩

/-- The message followed by a one bit, zeros, and its length in bits on eight bytes. -/
def pad (message : List UInt8) : List UInt8 :=
  let length := message.length
  let zeros := (119 - length % 64) % 64
  message ++ 0x80 :: List.replicate zeros 0 ++
    (List.range 8).map fun i => UInt8.ofNat (length * 8 / 2 ^ (8 * (7 - i)))

def words : List UInt8 → List Word
  | b0 :: b1 :: b2 :: b3 :: rest =>
      BitVec.ofNat 32 (b0.toNat * 2 ^ 24 + b1.toNat * 2 ^ 16 + b2.toNat * 2 ^ 8 + b3.toNat) ::
        words rest
  | _ => []

/-- Absorbs up to `n` blocks. -/
def absorb : Nat → State → List Word → State
  | 0, s, _ => s
  | n + 1, s, message =>
      if message.isEmpty then s else absorb n (compress s (message.take 16)) (message.drop 16)

def hexWord (w : Word) : List Char :=
  (List.range 8).map fun i => Nat.digitChar (w.toNat / 16 ^ (7 - i) % 16)

end Sha256

open Sha256 in
/-- `hashlib.sha256(data).hexdigest()`. -/
@[irreducible] def sha256Hex (data : ByteArray) : String :=
  let message := words (pad data.toList)
  let s := absorb message.length initial message
  String.ofList ([s.a, s.b, s.c, s.d, s.e, s.f, s.g, s.h].flatMap hexWord)

end Base
