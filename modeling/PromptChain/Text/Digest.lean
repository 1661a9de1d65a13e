import PromptChain.Text.Hex
/-!
# The MD5 digest

The padded message is folded block by block into four 32-bit words, which are written with their
lowest byte first.
-/

namespace PromptChain.Text.Digest

/-- The integer parts of `2 ^ 32 * |sin i|` for `i` from 1 to 64. -/
def sines : List UInt32 :=
  [
    0xd76aa478, 0xe8c7b756, 0x242070db, 0xc1bdceee, 0xf57c0faf, 0x4787c62a, 0xa8304613,
    0xfd469501, 0x698098d8, 0x8b44f7af, 0xffff5bb1, 0x895cd7be, 0x6b901122, 0xfd987193,
    0xa679438e, 0x49b40821, 0xf61e2562, 0xc040b340, 0x265e5a51, 0xe9b6c7aa, 0xd62f105d,
    0x02441453, 0xd8a1e681, 0xe7d3fbc8, 0x21e1cde6, 0xc33707d6, 0xf4d50d87, 0x455a14ed,
    0xa9e3e905, 0xfcefa3f8, 0x676f02d9, 0x8d2a4c8a, 0xfffa3942, 0x8771f681, 0x6d9d6122,
    0xfde5380c, 0xa4beea44, 0x4bdecfa9, 0xf6bb4b60, 0xbebfbc70, 0x289b7ec6, 0xeaa127fa,
    0xd4ef3085, 0x04881d05, 0xd9d4d039, 0xe6db99e5, 0x1fa27cf8, 0xc4ac5665, 0xf4292244,
    0x432aff97, 0xab9423a7, 0xfc93a039, 0x655b59c3, 0x8f0ccc92, 0xffeff47d, 0x85845dd1,
    0x6fa87e4f, 0xfe2ce6e0, 0xa3014314, 0x4e0811a1, 0xf7537e82, 0xbd3af235, 0x2ad7d2bb,
    0xeb86d391]

def rotations : List UInt32 :=
  let cycle (amounts : List UInt32) := (List.replicate 4 amounts).flatten
  cycle [7, 12, 17, 22] ++ cycle [5, 9, 14, 20] ++ cycle [4, 11, 16, 23] ++ cycle [6, 10, 15, 21]

structure Words where
  a : UInt32
  b : UInt32
  c : UInt32
  d : UInt32
  deriving DecidableEq, Repr

def Words.initial : Words := ⟨0x67452301, 0xefcdab89, 0x98badcfe, 0x10325476⟩

def rotateLeft (x amount : UInt32) : UInt32 := x <<< amount ||| x >>> (32 - amount)

def mix (i : Nat) (w : Words) : UInt32 × Nat :=
  if i < 16 then ((w.b &&& w.c) ||| (~~~w.b &&& w.d), i)
  else if i < 32 then ((w.d &&& w.b) ||| (~~~w.d &&& w.c), (5 * i + 1) % 16)
  else if i < 48 then (w.b ^^^ w.c ^^^ w.d, (3 * i + 5) % 16)
  else (w.c ^^^ (w.b ||| ~~~w.d), 7 * i % 16)

def step (block : List UInt32) (w : Words) (round : Nat × UInt32 × UInt32) : Words :=
  let (mixed, index) := mix round.1 w
  let sum := mixed + w.a + round.2.1 + block.getD index 0
  ⟨w.d, w.b + rotateLeft sum round.2.2, w.b, w.c⟩

def absorb (w : Words) (block : List UInt32) : Words :=
  let out := ((List.range 64).zip (sines.zip rotations)).foldl (step block) w
  ⟨w.a + out.a, w.b + out.b, w.c + out.c, w.d + out.d⟩

def littleEndian (count n : Nat) : List UInt8 :=
  (List.range count).map fun i => UInt8.ofNat (n / Nat.pow 256 i % 256)

/-- A message with its padding: a one bit, zeros, and its length in bits. -/
def pad (message : List UInt8) : List UInt8 :=
  message ++ 0x80 :: List.replicate ((119 - message.length % 64) % 64) 0
    ++ littleEndian 8 (8 * message.length % Nat.pow 2 64)

/-- Bytes cut into groups of `size`, up to `count` of them. -/
def groups (size : Nat) : (count : Nat) → List UInt8 → List (List UInt8)
  | 0, _ => []
  | count + 1, bytes => bytes.take size :: groups size count (bytes.drop size)

def word (bytes : List UInt8) : UInt32 :=
  bytes.foldr (fun byte acc => acc <<< 8 ||| byte.toUInt32) 0

def digest (message : List UInt8) : List UInt8 :=
  let padded := pad message
  let blocks := (groups 64 (padded.length / 64) padded).map fun block =>
    (groups 4 16 block).map word
  let w := blocks.foldl absorb Words.initial
  [w.a, w.b, w.c, w.d].flatMap fun x => littleEndian 4 x.toNat

def ofText (s : String) : List Char := hexBytes (digest s.toUTF8.toList)

end PromptChain.Text.Digest
