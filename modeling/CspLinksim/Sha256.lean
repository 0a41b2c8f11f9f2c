/-!
# SHA-256 (`ci_sha256.c`)

The byte-at-a-time context of FIPS 180-4, with the bytes of the buffer as a list. The
uploader needs the digest to have 32 bytes and to be a function of the message.
-/

namespace CspLinksim.Sha256

def k : List UInt32 :=
  [0x428a2f98, 0x71374491, 0xb5c0fbcf, 0xe9b5dba5, 0x3956c25b, 0x59f111f1,
    0x923f82a4, 0xab1c5ed5, 0xd807aa98, 0x12835b01, 0x243185be, 0x550c7dc3,
    0x72be5d74, 0x80deb1fe, 0x9bdc06a7, 0xc19bf174, 0xe49b69c1, 0xefbe4786,
    0x0fc19dc6, 0x240ca1cc, 0x2de92c6f, 0x4a7484aa, 0x5cb0a9dc, 0x76f988da,
    0x983e5152, 0xa831c66d, 0xb00327c8, 0xbf597fc7, 0xc6e00bf3, 0xd5a79147,
    0x06ca6351, 0x14292967, 0x27b70a85, 0x2e1b2138, 0x4d2c6dfc, 0x53380d13,
    0x650a7354, 0x766a0abb, 0x81c2c92e, 0x92722c85, 0xa2bfe8a1, 0xa81a664b,
    0xc24b8b70, 0xc76c51a3, 0xd192e819, 0xd6990624, 0xf40e3585, 0x106aa070,
    0x19a4c116, 0x1e376c08, 0x2748774c, 0x34b0bcb5, 0x391c0cb3, 0x4ed8aa4a,
    0x5b9cca4f, 0x682e6ff3, 0x748f82ee, 0x78a5636f, 0x84c87814, 0x8cc70208,
    0x90befffa, 0xa4506ceb, 0xbef9a3f7, 0xc67178f2]

def rotr (x n : UInt32) : UInt32 := (x >>> n) ||| (x <<< (32 - n))
def ch (x y z : UInt32) : UInt32 := (x &&& y) ^^^ (~~~x &&& z)
def maj (x y z : UInt32) : UInt32 := (x &&& y) ^^^ (x &&& z) ^^^ (y &&& z)
def ep0 (x : UInt32) : UInt32 := rotr x 2 ^^^ rotr x 13 ^^^ rotr x 22
def ep1 (x : UInt32) : UInt32 := rotr x 6 ^^^ rotr x 11 ^^^ rotr x 25
def sig0 (x : UInt32) : UInt32 := rotr x 7 ^^^ rotr x 18 ^^^ (x >>> 3)
def sig1 (x : UInt32) : UInt32 := rotr x 17 ^^^ rotr x 19 ^^^ (x >>> 10)

/-- The eight words of the state, and of the working variables. -/
structure Words where
  a : UInt32
  b : UInt32
  c : UInt32
  d : UInt32
  e : UInt32
  f : UInt32
  g : UInt32
  h : UInt32
  deriving DecidableEq

structure CiSha256 where
  state : Words
  bitlen : UInt64
  buf : List UInt8
  deriving DecidableEq

/-- The big-endian word at byte `i`. -/
def be32 (p : List UInt8) (i : Nat) : UInt32 :=
  ((p.getD i 0).toUInt32 <<< 24) ||| ((p.getD (i + 1) 0).toUInt32 <<< 16) |||
    ((p.getD (i + 2) 0).toUInt32 <<< 8) ||| (p.getD (i + 3) 0).toUInt32

/-- The message schedule grown by `n` words. -/
def expand (m : List UInt32) : Nat → List UInt32
  | 0 => m
  | n + 1 =>
    let i := m.length
    expand (m ++ [sig1 (m.getD (i - 2) 0) + m.getD (i - 7) 0 + sig0 (m.getD (i - 15) 0) +
      m.getD (i - 16) 0]) n

def roundStep (w : Words) (km : UInt32 × UInt32) : Words :=
  let t1 := w.h + ep1 w.e + ch w.e w.f w.g + km.1 + km.2
  let t2 := ep0 w.a + maj w.a w.b w.c
  { a := t1 + t2, b := w.a, c := w.b, d := w.c, e := w.d + t1, f := w.e, g := w.f, h := w.g }

def ciSha256Transform (s : Words) (p : List UInt8) : Words :=
  let m := expand ((List.range 16).map fun i => be32 p (i * 4)) 48
  let w := (k.zip m).foldl roundStep s
  { a := s.a + w.a, b := s.b + w.b, c := s.c + w.c, d := s.d + w.d,
    e := s.e + w.e, f := s.f + w.f, g := s.g + w.g, h := s.h + w.h }

def ciSha256Init : CiSha256 where
  state :=
    { a := 0x6a09e667, b := 0xbb67ae85, c := 0x3c6ef372, d := 0xa54ff53a,
      e := 0x510e527f, f := 0x9b05688c, g := 0x1f83d9ab, h := 0x5be0cd19 }
  bitlen := 0
  buf := []

def updateByte (c : CiSha256) (byte : UInt8) : CiSha256 :=
  let buf := c.buf ++ [byte]
  if buf.length = 64 then
    { state := ciSha256Transform c.state buf, bitlen := c.bitlen + 512, buf := [] }
  else { c with buf }

def ciSha256Update (c : CiSha256) (data : List UInt8) : CiSha256 := data.foldl updateByte c

def pad (buf : List UInt8) (n : Nat) : List UInt8 := buf ++ List.replicate (n - buf.length) 0

def be64Bytes (x : UInt64) : List UInt8 :=
  [(x >>> 56).toUInt8, (x >>> 48).toUInt8, (x >>> 40).toUInt8, (x >>> 32).toUInt8,
    (x >>> 24).toUInt8, (x >>> 16).toUInt8, (x >>> 8).toUInt8, x.toUInt8]

def be32Bytes (x : UInt32) : List UInt8 :=
  [(x >>> 24).toUInt8, (x >>> 16).toUInt8, (x >>> 8).toUInt8, x.toUInt8]

def ciSha256Final (c : CiSha256) : List UInt8 :=
  let bitlen := c.bitlen + UInt64.ofNat c.buf.length * 8
  let buf := c.buf ++ [0x80]
  let (state, buf) :=
    if buf.length > 56 then (ciSha256Transform c.state (pad buf 64), []) else (c.state, buf)
  let w := ciSha256Transform state (pad buf 56 ++ be64Bytes bitlen)
  [w.a, w.b, w.c, w.d, w.e, w.f, w.g, w.h].flatMap be32Bytes

def sha256 (data : List UInt8) : List UInt8 :=
  ciSha256Final (ciSha256Update ciSha256Init data)

theorem sha256_length (data : List UInt8) : (sha256 data).length = 32 := by
  simp [sha256, ciSha256Final, be32Bytes]

example : sha256 [0x61, 0x62, 0x63] =
    [0xba, 0x78, 0x16, 0xbf, 0x8f, 0x01, 0xcf, 0xea, 0x41, 0x41, 0x40, 0xde, 0x5d, 0xae, 0x22, 0x23,
      0xb0, 0x03, 0x61, 0xa3, 0x96, 0x17, 0x7a, 0x9c, 0xb4, 0x10, 0xff, 0x61, 0xf2, 0x00, 0x15,
      0xad] := by
  decide +kernel

end CspLinksim.Sha256
