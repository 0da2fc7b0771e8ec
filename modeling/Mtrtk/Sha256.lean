import Mathlib.Logic.Function.Iterate
import Mathlib.Tactic.Common

/-!
# SHA-256

`hashlib.sha256` : the digest the raw logger writes into the sidecar of a finished hour, as
`hexdigest` prints it. `_OpenLog.hasher` is the list of the bytes it was fed, and
`sha256Hex` is applied to it when the hour is closed.
-/

namespace Mtrtk.Sha256

/-- The eight words of the state. -/
structure Words where
  (a b c d e f g h : UInt32)

def Words.init : Words :=
  ⟨0x6a09e667, 0xbb67ae85, 0x3c6ef372, 0xa54ff53a, 0x510e527f, 0x9b05688c, 0x1f83d9ab, 0x5be0cd19⟩

def Words.add (x y : Words) : Words :=
  ⟨x.a + y.a, x.b + y.b, x.c + y.c, x.d + y.d, x.e + y.e, x.f + y.f, x.g + y.g, x.h + y.h⟩

def Words.toList (x : Words) : List UInt32 := [x.a, x.b, x.c, x.d, x.e, x.f, x.g, x.h]

/-- The round constants. -/
def roundConstants : List UInt32 :=
  [0x428a2f98, 0x71374491, 0xb5c0fbcf, 0xe9b5dba5, 0x3956c25b, 0x59f111f1, 0x923f82a4, 0xab1c5ed5,
    0xd807aa98, 0x12835b01, 0x243185be, 0x550c7dc3, 0x72be5d74, 0x80deb1fe, 0x9bdc06a7, 0xc19bf174,
    0xe49b69c1, 0xefbe4786, 0x0fc19dc6, 0x240ca1cc, 0x2de92c6f, 0x4a7484aa, 0x5cb0a9dc, 0x76f988da,
    0x983e5152, 0xa831c66d, 0xb00327c8, 0xbf597fc7, 0xc6e00bf3, 0xd5a79147, 0x06ca6351, 0x14292967,
    0x27b70a85, 0x2e1b2138, 0x4d2c6dfc, 0x53380d13, 0x650a7354, 0x766a0abb, 0x81c2c92e, 0x92722c85,
    0xa2bfe8a1, 0xa81a664b, 0xc24b8b70, 0xc76c51a3, 0xd192e819, 0xd6990624, 0xf40e3585, 0x106aa070,
    0x19a4c116, 0x1e376c08, 0x2748774c, 0x34b0bcb5, 0x391c0cb3, 0x4ed8aa4a, 0x5b9cca4f, 0x682e6ff3,
    0x748f82ee, 0x78a5636f, 0x84c87814, 0x8cc70208, 0x90befffa, 0xa4506ceb, 0xbef9a3f7, 0xc67178f2]

def rotr (x : UInt32) (n : UInt32) : UInt32 := (x >>> n) ||| (x <<< (32 - n))

/-- One more word in front of the schedule, whose newest word is the first. -/
def extend (w : List UInt32) : List UInt32 :=
  let s₀ := w.getD 14 0
  let s₁ := w.getD 1 0
  (w.getD 15 0 + (rotr s₀ 7 ^^^ rotr s₀ 18 ^^^ (s₀ >>> 3)) + w.getD 6 0
    + (rotr s₁ 17 ^^^ rotr s₁ 19 ^^^ (s₁ >>> 10))) :: w

/-- The word at byte `4 * i`, big-endian. -/
def word (block : List UInt8) (i : ℕ) : UInt32 :=
  ((block.drop (4 * i)).take 4).foldl (fun acc b => (acc <<< 8) ||| b.toUInt32) 0

def schedule (block : List UInt8) : List UInt32 :=
  (extend^[48] ((List.range 16).map (word block)).reverse).reverse

/-- One round, with its constant and its word of the schedule. -/
def round (x : Words) (kw : UInt32 × UInt32) : Words :=
  let t₁ := x.h + (rotr x.e 6 ^^^ rotr x.e 11 ^^^ rotr x.e 25)
    + ((x.e &&& x.f) ^^^ (~~~x.e &&& x.g)) + kw.1 + kw.2
  let t₂ := (rotr x.a 2 ^^^ rotr x.a 13 ^^^ rotr x.a 22)
    + ((x.a &&& x.b) ^^^ (x.a &&& x.c) ^^^ (x.b &&& x.c))
  ⟨t₁ + t₂, x.a, x.b, x.c, x.d + t₁, x.e, x.f, x.g⟩

def compress (x : Words) (block : List UInt8) : Words :=
  x.add ((roundConstants.zip (schedule block)).foldl round x)

/-- The message, a set bit, zeros, and the length in bits as eight bytes. -/
def pad (data : List UInt8) : List UInt8 :=
  let zeros : List UInt8 := List.replicate ((119 - data.length % 64) % 64) 0
  let bits := (List.range 8).reverse.map fun i => UInt8.ofNat ((8 * data.length) >>> (8 * i))
  data ++ 0x80 :: zeros ++ bits

def blocks (data : List UInt8) : List (List UInt8) :=
  (List.range (data.length / 64)).map fun i => (data.drop (64 * i)).take 64

/-- The eight hexadecimal digits of a word. -/
def hexWord (x : UInt32) : List Char :=
  (List.range 8).reverse.map fun i => Nat.digitChar (x.toNat >>> (4 * i) % 16)

/-- `hashlib.sha256(data).hexdigest()`. -/
def sha256Hex (data : List UInt8) : String :=
  String.ofList (((blocks (pad data)).foldl compress Words.init).toList.flatMap hexWord)

/-- The digest of the empty message. -/
example : sha256Hex [] = "e3b0c44298fc1c149afbf4c8996fb92427ae41e4649b934ca495991b7852b855" := by
  decide +kernel

end Mtrtk.Sha256
