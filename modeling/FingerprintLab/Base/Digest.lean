import FingerprintLab.Base.Str

/-!
# SHA-256 and MD5

The digests of `crypto/sha256` (FIPS 180-4) and `crypto/md5` (RFC 1321) on byte lists, written so
that the kernel can evaluate them on a short message.
-/

set_option linter.unusedVariables false

namespace Go

/-- big-endian word -/
def wordBE (b : Bytes) : UInt32 := UInt32.ofNat (b.foldl (fun n x => n * 256 + x.toNat) 0)

/-- little-endian word -/
def wordLE (b : Bytes) : UInt32 := wordBE b.reverse

def wordBytes (w : UInt32) : Bytes :=
  [UInt8.ofNat (w.toNat / 2^24), UInt8.ofNat (w.toNat / 2^16), UInt8.ofNat (w.toNat / 2^8),
    UInt8.ofNat w.toNat]

def rotr (w n : UInt32) : UInt32 := (w >>> n) ||| (w <<< (32 - n))
def rotl (w n : UInt32) : UInt32 := (w <<< n) ||| (w >>> (32 - n))

/-- the first `k` pieces of length `n` -/
def chunks (n : Nat) : Nat → Bytes → List Bytes
  | 0, _ => []
  | k+1, b => b.take n :: chunks n k (b.drop n)

/-- the eight bytes of a length, most significant first -/
def lenBytes (n : Nat) : Bytes := (List.range 8).map fun i => UInt8.ofNat (n / 256^(7 - i))

/-- the padded message; both digests differ only in the byte order of the length -/
def padded (len : Bytes) (b : Bytes) : Bytes :=
  b ++ [0x80] ++ List.replicate ((119 - b.length % 64) % 64) 0 ++ len

/-! ## SHA-256 -/

def sha256K : List UInt32 := [
  0x428a2f98, 0x71374491, 0xb5c0fbcf, 0xe9b5dba5, 0x3956c25b, 0x59f111f1, 0x923f82a4, 0xab1c5ed5,
  0xd807aa98, 0x12835b01, 0x243185be, 0x550c7dc3, 0x72be5d74, 0x80deb1fe, 0x9bdc06a7, 0xc19bf174,
  0xe49b69c1, 0xefbe4786, 0x0fc19dc6, 0x240ca1cc, 0x2de92c6f, 0x4a7484aa, 0x5cb0a9dc, 0x76f988da,
  0x983e5152, 0xa831c66d, 0xb00327c8, 0xbf597fc7, 0xc6e00bf3, 0xd5a79147, 0x06ca6351, 0x14292967,
  0x27b70a85, 0x2e1b2138, 0x4d2c6dfc, 0x53380d13, 0x650a7354, 0x766a0abb, 0x81c2c92e, 0x92722c85,
  0xa2bfe8a1, 0xa81a664b, 0xc24b8b70, 0xc76c51a3, 0xd192e819, 0xd6990624, 0xf40e3585, 0x106aa070,
  0x19a4c116, 0x1e376c08, 0x2748774c, 0x34b0bcb5, 0x391c0cb3, 0x4ed8aa4a, 0x5b9cca4f, 0x682e6ff3,
  0x748f82ee, 0x78a5636f, 0x84c87814, 0x8cc70208, 0x90befffa, 0xa4506ceb, 0xbef9a3f7, 0xc67178f2]

/-- the eight working variables -/
structure Sha where
  a : UInt32
  b : UInt32
  c : UInt32
  d : UInt32
  e : UInt32
  f : UInt32
  g : UInt32
  h : UInt32

def Sha.init : Sha :=
  ⟨0x6a09e667, 0xbb67ae85, 0x3c6ef372, 0xa54ff53a, 0x510e527f, 0x9b05688c, 0x1f83d9ab, 0x5be0cd19⟩

def Sha.words (s : Sha) : List UInt32 := [s.a, s.b, s.c, s.d, s.e, s.f, s.g, s.h]

/-- the message schedule, `n` words longer than `w` -/
def schedule : Nat → List UInt32 → List UInt32
  | 0, w => w
  | n+1, w =>
    let k := w.length
    let x := w.getD (k - 15) 0
    let y := w.getD (k - 2) 0
    let s0 := rotr x 7 ^^^ rotr x 18 ^^^ (x >>> 3)
    let s1 := rotr y 17 ^^^ rotr y 19 ^^^ (y >>> 10)
    schedule n (w ++ [w.getD (k - 16) 0 + s0 + w.getD (k - 7) 0 + s1])

def Sha.round (s : Sha) (kw : UInt32 × UInt32) : Sha :=
  let s1 := rotr s.e 6 ^^^ rotr s.e 11 ^^^ rotr s.e 25
  let ch := (s.e &&& s.f) ^^^ (~~~s.e &&& s.g)
  let t1 := s.h + s1 + ch + kw.1 + kw.2
  let s0 := rotr s.a 2 ^^^ rotr s.a 13 ^^^ rotr s.a 22
  let maj := (s.a &&& s.b) ^^^ (s.a &&& s.c) ^^^ (s.b &&& s.c)
  ⟨t1 + (s0 + maj), s.a, s.b, s.c, s.d + t1, s.e, s.f, s.g⟩

def Sha.block (s : Sha) (b : Bytes) : Sha :=
  let w := schedule 48 ((chunks 4 16 b).map wordBE)
  let r := (sha256K.zip w).foldl Sha.round s
  ⟨s.a + r.a, s.b + r.b, s.c + r.c, s.d + r.d, s.e + r.e, s.f + r.f, s.g + r.g, s.h + r.h⟩

/-- `sha256.Sum256` -/
def sha256 (b : Bytes) : Bytes :=
  let p := padded (lenBytes (8 * b.length)) b
  ((chunks 64 (p.length / 64) p).foldl Sha.block Sha.init).words.flatMap wordBytes

theorem wordBytes_length (w : UInt32) : (wordBytes w).length = 4 := rfl

theorem sha256_length (b : Bytes) : (sha256 b).length = 32 := by
  simp only [sha256, Sha.words, List.flatMap_cons, List.flatMap_nil, List.length_append,
    wordBytes_length, List.length_nil]

theorem hexEncode_length (b : Bytes) : (hexEncode b).length = 2 * b.length := by
  induction b with
  | nil => rfl
  | cons x b ih =>
    show (hexEncode b).length + 2 = 2 * (b.length + 1)
    omega

example : hexEncode (sha256 (str "abc"))
    = str "ba7816bf8f01cfea414140de5dae2223b00361a396177a9cb410ff61f20015ad" := by decide +kernel

/-! ## MD5 -/

def md5K : List UInt32 := [
  0xd76aa478, 0xe8c7b756, 0x242070db, 0xc1bdceee, 0xf57c0faf, 0x4787c62a, 0xa8304613, 0xfd469501,
  0x698098d8, 0x8b44f7af, 0xffff5bb1, 0x895cd7be, 0x6b901122, 0xfd987193, 0xa679438e, 0x49b40821,
  0xf61e2562, 0xc040b340, 0x265e5a51, 0xe9b6c7aa, 0xd62f105d, 0x02441453, 0xd8a1e681, 0xe7d3fbc8,
  0x21e1cde6, 0xc33707d6, 0xf4d50d87, 0x455a14ed, 0xa9e3e905, 0xfcefa3f8, 0x676f02d9, 0x8d2a4c8a,
  0xfffa3942, 0x8771f681, 0x6d9d6122, 0xfde5380c, 0xa4beea44, 0x4bdecfa9, 0xf6bb4b60, 0xbebfbc70,
  0x289b7ec6, 0xeaa127fa, 0xd4ef3085, 0x04881d05, 0xd9d4d039, 0xe6db99e5, 0x1fa27cf8, 0xc4ac5665,
  0xf4292244, 0x432aff97, 0xab9423a7, 0xfc93a039, 0x655b59c3, 0x8f0ccc92, 0xffeff47d, 0x85845dd1,
  0x6fa87e4f, 0xfe2ce6e0, 0xa3014314, 0x4e0811a1, 0xf7537e82, 0xbd3af235, 0x2ad7d2bb, 0xeb86d391]

def md5S : List UInt32 := [7, 12, 17, 22, 5, 9, 14, 20, 4, 11, 16, 23, 6, 10, 15, 21]

structure Md where
  a : UInt32
  b : UInt32
  c : UInt32
  d : UInt32

def Md.init : Md := ⟨0x67452301, 0xefcdab89, 0x98badcfe, 0x10325476⟩

/-- step `i` of the four rounds on the sixteen words `m` -/
def Md.step (m : List UInt32) (s : Md) (i : Nat) : Md :=
  let f := if i < 16 then (s.b &&& s.c) ||| (~~~s.b &&& s.d)
    else if i < 32 then (s.d &&& s.b) ||| (~~~s.d &&& s.c)
    else if i < 48 then s.b ^^^ s.c ^^^ s.d
    else s.c ^^^ (s.b ||| ~~~s.d)
  let g := if i < 16 then i
    else if i < 32 then (5 * i + 1) % 16
    else if i < 48 then (3 * i + 5) % 16
    else 7 * i % 16
  let t := s.a + f + md5K.getD i 0 + m.getD g 0
  ⟨s.d, s.b + rotl t (md5S.getD (i / 16 * 4 + i % 4) 0), s.b, s.c⟩

def Md.block (s : Md) (b : Bytes) : Md :=
  let r := (List.range 64).foldl (Md.step ((chunks 4 16 b).map wordLE)) s
  ⟨s.a + r.a, s.b + r.b, s.c + r.c, s.d + r.d⟩

/-- `md5.Sum` -/
def md5 (b : Bytes) : Bytes :=
  let p := padded (lenBytes (8 * b.length)).reverse b
  let s := (chunks 64 (p.length / 64) p).foldl Md.block Md.init
  [s.a, s.b, s.c, s.d].flatMap fun w => (wordBytes w).reverse

example : hexEncode (md5 (str "abc")) = str "900150983cd24fb0d6963f7d28e17f72" := by decide +kernel

end Go
