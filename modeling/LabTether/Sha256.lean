import Mathlib

/-!
SHA-256 and its lower-case hexadecimal form (`crypto/sha256`, `encoding/hex`).
Words are naturals below `2 ^ 32` and a message is the list of its bytes.
-/
namespace LabTether.Sha256

def word (x : ℕ) : ℕ := x % 2 ^ 32

def rotateRight (x n : ℕ) : ℕ := word ((x >>> n) ||| (x <<< (32 - n)))

def roundConstants : List ℕ := [
  0x428a2f98, 0x71374491, 0xb5c0fbcf, 0xe9b5dba5, 0x3956c25b, 0x59f111f1, 0x923f82a4, 0xab1c5ed5,
  0xd807aa98, 0x12835b01, 0x243185be, 0x550c7dc3, 0x72be5d74, 0x80deb1fe, 0x9bdc06a7, 0xc19bf174,
  0xe49b69c1, 0xefbe4786, 0x0fc19dc6, 0x240ca1cc, 0x2de92c6f, 0x4a7484aa, 0x5cb0a9dc, 0x76f988da,
  0x983e5152, 0xa831c66d, 0xb00327c8, 0xbf597fc7, 0xc6e00bf3, 0xd5a79147, 0x06ca6351, 0x14292967,
  0x27b70a85, 0x2e1b2138, 0x4d2c6dfc, 0x53380d13, 0x650a7354, 0x766a0abb, 0x81c2c92e, 0x92722c85,
  0xa2bfe8a1, 0xa81a664b, 0xc24b8b70, 0xc76c51a3, 0xd192e819, 0xd6990624, 0xf40e3585, 0x106aa070,
  0x19a4c116, 0x1e376c08, 0x2748774c, 0x34b0bcb5, 0x391c0cb3, 0x4ed8aa4a, 0x5b9cca4f, 0x682e6ff3,
  0x748f82ee, 0x78a5636f, 0x84c87814, 0x8cc70208, 0x90befffa, 0xa4506ceb, 0xbef9a3f7, 0xc67178f2]

def initialDigest : List ℕ := [
  0x6a09e667, 0xbb67ae85, 0x3c6ef372, 0xa54ff53a, 0x510e527f, 0x9b05688c, 0x1f83d9ab, 0x5be0cd19]

/-- The `n` low bytes of `x`, most significant first. -/
def bigEndian : ℕ → ℕ → List ℕ
  | 0, _ => []
  | n + 1, x => (x >>> (8 * n)) % 256 :: bigEndian n x

def pad (bytes : List ℕ) : List ℕ :=
  bytes ++ 0x80 :: List.replicate ((119 - bytes.length % 64) % 64) 0 ++
    bigEndian 8 (8 * bytes.length)

def words : List ℕ → List ℕ
  | a :: b :: c :: d :: rest => (((a * 256 + b) * 256 + c) * 256 + d) :: words rest
  | _ => []

/-- The message schedule, last word first. -/
def extend : ℕ → List ℕ → List ℕ
  | 0, w => w
  | n + 1, w =>
    let x := w.getD 14 0
    let y := w.getD 1 0
    let s0 := rotateRight x 7 ^^^ rotateRight x 18 ^^^ (x >>> 3)
    let s1 := rotateRight y 17 ^^^ rotateRight y 19 ^^^ (y >>> 10)
    extend n (word (w.getD 15 0 + s0 + w.getD 6 0 + s1) :: w)

def round : List ℕ → ℕ × ℕ → List ℕ
  | [a, b, c, d, e, f, g, h], (k, w) =>
    let s1 := rotateRight e 6 ^^^ rotateRight e 11 ^^^ rotateRight e 25
    let ch := (e &&& f) ^^^ ((2 ^ 32 - 1 - e) &&& g)
    let t1 := h + s1 + ch + k + w
    let s0 := rotateRight a 2 ^^^ rotateRight a 13 ^^^ rotateRight a 22
    let maj := (a &&& b) ^^^ (a &&& c) ^^^ (b &&& c)
    [word (t1 + s0 + maj), a, b, c, word (d + t1), e, f, g]
  | v, _ => v

def compress (digest block : List ℕ) : List ℕ :=
  let schedule := (extend 48 block.reverse).reverse
  List.zipWith (fun x y => word (x + y)) digest ((roundConstants.zip schedule).foldl round digest)

def blocks : ℕ → List ℕ → List (List ℕ)
  | 0, _ => []
  | n + 1, ws => ws.take 16 :: blocks n (ws.drop 16)

def sum256 (bytes : List ℕ) : List ℕ :=
  let ws := words (pad bytes)
  ((blocks (ws.length / 16) ws).foldl compress initialDigest).flatMap (bigEndian 4)

def hexDigit (n : ℕ) : Char := "0123456789abcdef".toList.getD n '0'

def encodeToString (bytes : List ℕ) : String :=
  String.ofList (bytes.flatMap fun b => [hexDigit (b / 16), hexDigit (b % 16)])

def utf8Bytes (s : String) : List ℕ :=
  s.toList.flatMap fun c => (String.utf8EncodeChar c).map UInt8.toNat

/-- `hex.EncodeToString(sha256.Sum256([]byte(s)))`. -/
def hexDigest (s : String) : String := encodeToString (sum256 (utf8Bytes s))

example : hexDigest "abc" =
    "ba7816bf8f01cfea414140de5dae2223b00361a396177a9cb410ff61f20015ad" := by
  decide +kernel

end LabTether.Sha256
