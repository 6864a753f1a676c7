-- The digest SHA-256 of a text, in hexadecimal digits.
namespace WidgetSchema.Digest

def roundConstants : Array UInt32 := #[
  0x428a2f98, 0x71374491, 0xb5c0fbcf, 0xe9b5dba5, 0x3956c25b, 0x59f111f1, 0x923f82a4, 0xab1c5ed5,
  0xd807aa98, 0x12835b01, 0x243185be, 0x550c7dc3, 0x72be5d74, 0x80deb1fe, 0x9bdc06a7, 0xc19bf174,
  0xe49b69c1, 0xefbe4786, 0x0fc19dc6, 0x240ca1cc, 0x2de92c6f, 0x4a7484aa, 0x5cb0a9dc, 0x76f988da,
  0x983e5152, 0xa831c66d, 0xb00327c8, 0xbf597fc7, 0xc6e00bf3, 0xd5a79147, 0x06ca6351, 0x14292967,
  0x27b70a85, 0x2e1b2138, 0x4d2c6dfc, 0x53380d13, 0x650a7354, 0x766a0abb, 0x81c2c92e, 0x92722c85,
  0xa2bfe8a1, 0xa81a664b, 0xc24b8b70, 0xc76c51a3, 0xd192e819, 0xd6990624, 0xf40e3585, 0x106aa070,
  0x19a4c116, 0x1e376c08, 0x2748774c, 0x34b0bcb5, 0x391c0cb3, 0x4ed8aa4a, 0x5b9cca4f, 0x682e6ff3,
  0x748f82ee, 0x78a5636f, 0x84c87814, 0x8cc70208, 0x90befffa, 0xa4506ceb, 0xbef9a3f7, 0xc67178f2]

/-- The eight words that the digest is made of. -/
structure HashState where
  a : UInt32
  b : UInt32
  c : UInt32
  d : UInt32
  e : UInt32
  f : UInt32
  g : UInt32
  h : UInt32

def HashState.initial : HashState :=
  ⟨0x6a09e667, 0xbb67ae85, 0x3c6ef372, 0xa54ff53a, 0x510e527f, 0x9b05688c, 0x1f83d9ab, 0x5be0cd19⟩

def HashState.add (s t : HashState) : HashState :=
  ⟨s.a + t.a, s.b + t.b, s.c + t.c, s.d + t.d, s.e + t.e, s.f + t.f, s.g + t.g, s.h + t.h⟩

def HashState.words (s : HashState) : List UInt32 := [s.a, s.b, s.c, s.d, s.e, s.f, s.g, s.h]

def rotate (x : UInt32) (n : UInt32) : UInt32 := (x >>> n) ||| (x <<< (32 - n))

/-- One round, with a word of the schedule and its constant. -/
def round (s : HashState) (k w : UInt32) : HashState :=
  let s1 := rotate s.e 6 ^^^ rotate s.e 11 ^^^ rotate s.e 25
  let choice := (s.e &&& s.f) ^^^ (~~~s.e &&& s.g)
  let t1 := s.h + s1 + choice + k + w
  let s0 := rotate s.a 2 ^^^ rotate s.a 13 ^^^ rotate s.a 22
  let majority := (s.a &&& s.b) ^^^ (s.a &&& s.c) ^^^ (s.b &&& s.c)
  ⟨t1 + (s0 + majority), s.a, s.b, s.c, s.d + t1, s.e, s.f, s.g⟩

/-- The next word of the schedule. The last sixteen words are given, the newest first. -/
def nextWord (last : List UInt32) : UInt32 :=
  let at_ (i : Nat) : UInt32 := last.getD (i - 1) 0
  let w2 := at_ 2
  let w15 := at_ 15
  let s0 := rotate w15 7 ^^^ rotate w15 18 ^^^ (w15 >>> 3)
  let s1 := rotate w2 17 ^^^ rotate w2 19 ^^^ (w2 >>> 10)
  at_ 16 + s0 + at_ 7 + s1

/-- The schedule of a block: its sixteen words and forty-eight more. -/
def schedule (words : List UInt32) : List UInt32 :=
  ((List.range 48).foldl (fun ws _ => nextWord ws :: ws) words.reverse).reverse

def compress (s : HashState) (words : List UInt32) : HashState :=
  s.add (((schedule words).zip roundConstants.toList).foldl (fun t (w, k) => round t k w) s)

/-- A number in bytes, the highest first. -/
def bigEndian (count n : Nat) : List UInt8 :=
  (List.range count).reverse.map fun i => UInt8.ofNat (n / Nat.pow 256 i)

/-- The bytes with a one bit, zeros and their length in bits behind them, so that they fill
whole blocks of 64. -/
def padded (bytes : List UInt8) : List UInt8 :=
  let n := bytes.length
  bytes ++ 0x80 :: List.replicate ((119 - n % 64) % 64) 0 ++ bigEndian 8 (8 * n)

def wordOf (a b c d : UInt8) : UInt32 :=
  (a.toUInt32 <<< 24) ||| (b.toUInt32 <<< 16) ||| (c.toUInt32 <<< 8) ||| d.toUInt32

def toWords : List UInt8 → List UInt32
  | a :: b :: c :: d :: rest => wordOf a b c d :: toWords rest
  | _ => []

/-- The blocks of sixteen words, the last one first in the making. -/
def blocks (words : List UInt32) : List (List UInt32) :=
  (List.range (words.length / 16)).map fun i => (words.drop (16 * i)).take 16

def hexWord (w : UInt32) : String :=
  String.ofList ((List.range 8).reverse.map fun i => Nat.digitChar (w.toNat / Nat.pow 16 i % 16))

/-- The digest of a text. -/
def sha256 (s : String) : String :=
  let words := toWords (padded s.toUTF8.toList)
  String.join (((blocks words).foldl compress HashState.initial).words.map hexWord)

end WidgetSchema.Digest
