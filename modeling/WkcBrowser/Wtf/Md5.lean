import WkcBrowser.Lib.Bytes

/-!
# `WTF::MD5`

`checksum data` is the digest that `addBytes(data)` followed by `checksum` leaves: the message is
cut into blocks of 64 bytes, the last ones padded with `0x80`, zeros and the bit count.  Nothing is
proved about it but its length; the cache code only compares digests.
-/

namespace Wkc.MD5
open Buf

def F1 (x y z : UInt32) : UInt32 := z ^^^ (x &&& (y ^^^ z))
def F2 (x y z : UInt32) : UInt32 := F1 z x y
def F3 (x y z : UInt32) : UInt32 := x ^^^ y ^^^ z
def F4 (x y z : UInt32) : UInt32 := y ^^^ (x ||| ~~~z)

structure State where
  a : UInt32
  b : UInt32
  c : UInt32
  d : UInt32

/-- `MD5STEP`; the result is turned by one place, so that the next step again works on `a` -/
def step (f : UInt32 → UInt32 → UInt32 → UInt32) (data s : UInt32) (w : State) : State :=
  let t := w.a + f w.b w.c w.d + data
  ⟨w.d, (t <<< s ||| t >>> (32 - s)) + w.b, w.b, w.c⟩

/-- index into the block, constant and shift of the sixteen steps of each round -/
def round1 : List (Nat × UInt32 × UInt32) :=
  [(0, 0xd76aa478, 7), (1, 0xe8c7b756, 12), (2, 0x242070db, 17), (3, 0xc1bdceee, 22),
   (4, 0xf57c0faf, 7), (5, 0x4787c62a, 12), (6, 0xa8304613, 17), (7, 0xfd469501, 22),
   (8, 0x698098d8, 7), (9, 0x8b44f7af, 12), (10, 0xffff5bb1, 17), (11, 0x895cd7be, 22),
   (12, 0x6b901122, 7), (13, 0xfd987193, 12), (14, 0xa679438e, 17), (15, 0x49b40821, 22)]

def round2 : List (Nat × UInt32 × UInt32) :=
  [(1, 0xf61e2562, 5), (6, 0xc040b340, 9), (11, 0x265e5a51, 14), (0, 0xe9b6c7aa, 20),
   (5, 0xd62f105d, 5), (10, 0x02441453, 9), (15, 0xd8a1e681, 14), (4, 0xe7d3fbc8, 20),
   (9, 0x21e1cde6, 5), (14, 0xc33707d6, 9), (3, 0xf4d50d87, 14), (8, 0x455a14ed, 20),
   (13, 0xa9e3e905, 5), (2, 0xfcefa3f8, 9), (7, 0x676f02d9, 14), (12, 0x8d2a4c8a, 20)]

def round3 : List (Nat × UInt32 × UInt32) :=
  [(5, 0xfffa3942, 4), (8, 0x8771f681, 11), (11, 0x6d9d6122, 16), (14, 0xfde5380c, 23),
   (1, 0xa4beea44, 4), (4, 0x4bdecfa9, 11), (7, 0xf6bb4b60, 16), (10, 0xbebfbc70, 23),
   (13, 0x289b7ec6, 4), (0, 0xeaa127fa, 11), (3, 0xd4ef3085, 16), (6, 0x04881d05, 23),
   (9, 0xd9d4d039, 4), (12, 0xe6db99e5, 11), (15, 0x1fa27cf8, 16), (2, 0xc4ac5665, 23)]

def round4 : List (Nat × UInt32 × UInt32) :=
  [(0, 0xf4292244, 6), (7, 0x432aff97, 10), (14, 0xab9423a7, 15), (5, 0xfc93a039, 21),
   (12, 0x655b59c3, 6), (3, 0x8f0ccc92, 10), (10, 0xffeff47d, 15), (1, 0x85845dd1, 21),
   (8, 0x6fa87e4f, 6), (15, 0xfe2ce6e0, 10), (6, 0xa3014314, 15), (13, 0x4e0811a1, 21),
   (4, 0xf7537e82, 6), (11, 0xbd3af235, 10), (2, 0x2ad7d2bb, 15), (9, 0xeb86d391, 21)]

/-- word `i` of a block -/
def word (block : Bytes) (i : Nat) : UInt32 := UInt32.ofNat (ofLE ((block.drop (4 * i)).take 4))

def rounds (f : UInt32 → UInt32 → UInt32 → UInt32) (steps : List (Nat × UInt32 × UInt32))
    (block : Bytes) (w : State) : State :=
  steps.foldl (fun w t => step f (word block t.1 + t.2.1) t.2.2 w) w

def transform (buf : State) (block : Bytes) : State :=
  let w := rounds F4 round4 block (rounds F3 round3 block (rounds F2 round2 block
    (rounds F1 round1 block buf)))
  ⟨buf.a + w.a, buf.b + w.b, buf.c + w.c, buf.d + w.d⟩

def init : State := ⟨0x67452301, 0xefcdab89, 0x98badcfe, 0x10325476⟩

def padding (length : Nat) : Bytes :=
  0x80 :: (zeros ((119 - length % 64) % 64) ++ toLE 8 (8 * length))

def blocks : Nat → State → Bytes → State
  | 0, buf, _ => buf
  | n + 1, buf, data => blocks n (transform buf (data.take 64)) (data.drop 64)

def checksum (data : Bytes) : Bytes :=
  let message := data ++ padding data.length
  let w := blocks (message.length / 64) init message
  toLE 4 w.a.toNat ++ toLE 4 w.b.toNat ++ toLE 4 w.c.toNat ++ toLE 4 w.d.toNat

@[simp] theorem checksum_length (data : Bytes) : (checksum data).length = 16 := by
  simp [checksum]

end Wkc.MD5
