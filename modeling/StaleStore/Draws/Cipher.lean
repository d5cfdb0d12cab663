namespace StaleStore
namespace Draws

structure Key where
  k0 : UInt32
  k1 : UInt32
  k2 : UInt32
  k3 : UInt32
  k4 : UInt32
  k5 : UInt32
  k6 : UInt32
  k7 : UInt32
deriving DecidableEq, Repr, Inhabited

structure Block where
  x0 : UInt32
  x1 : UInt32
  x2 : UInt32
  x3 : UInt32
  x4 : UInt32
  x5 : UInt32
  x6 : UInt32
  x7 : UInt32
  x8 : UInt32
  x9 : UInt32
  x10 : UInt32
  x11 : UInt32
  x12 : UInt32
  x13 : UInt32
  x14 : UInt32
  x15 : UInt32
deriving DecidableEq, Repr

def rotateLeft (x : UInt32) (n : UInt32) : UInt32 := (x <<< n) ||| (x >>> (32 - n))

structure Quarter where
  a : UInt32
  b : UInt32
  c : UInt32
  d : UInt32

def Quarter.round (q : Quarter) : Quarter :=
  let a := q.a + q.b
  let d := rotateLeft (q.d ^^^ a) 16
  let c := q.c + d
  let b := rotateLeft (q.b ^^^ c) 12
  let a := a + b
  let d := rotateLeft (d ^^^ a) 8
  let c := c + d
  let b := rotateLeft (b ^^^ c) 7
  ⟨a, b, c, d⟩

def Block.doubleRound (s : Block) : Block :=
  let p := Quarter.round ⟨s.x0, s.x4, s.x8, s.x12⟩
  let q := Quarter.round ⟨s.x1, s.x5, s.x9, s.x13⟩
  let r := Quarter.round ⟨s.x2, s.x6, s.x10, s.x14⟩
  let t := Quarter.round ⟨s.x3, s.x7, s.x11, s.x15⟩
  let e := Quarter.round ⟨p.a, q.b, r.c, t.d⟩
  let f := Quarter.round ⟨q.a, r.b, t.c, p.d⟩
  let g := Quarter.round ⟨r.a, t.b, p.c, q.d⟩
  let h := Quarter.round ⟨t.a, p.b, q.c, r.d⟩
  ⟨e.a, f.a, g.a, h.a, h.b, e.b, f.b, g.b, g.c, h.c, e.c, f.c, f.d, g.d, h.d, e.d⟩

-- The constant words, the key, the block number in two words and a nonce of zero.
def Block.start (key : Key) (number : UInt64) : Block :=
  ⟨0x61707865, 0x3320646e, 0x79622d32, 0x6b206574,
    key.k0, key.k1, key.k2, key.k3, key.k4, key.k5, key.k6, key.k7,
    number.toUInt32, (number >>> 32).toUInt32, 0, 0⟩

def Block.add (s t : Block) : Block :=
  ⟨s.x0 + t.x0, s.x1 + t.x1, s.x2 + t.x2, s.x3 + t.x3, s.x4 + t.x4, s.x5 + t.x5, s.x6 + t.x6,
    s.x7 + t.x7, s.x8 + t.x8, s.x9 + t.x9, s.x10 + t.x10, s.x11 + t.x11, s.x12 + t.x12,
    s.x13 + t.x13, s.x14 + t.x14, s.x15 + t.x15⟩

def Key.block (key : Key) (number : UInt64) : Block :=
  let start := Block.start key number
  start.doubleRound.doubleRound.doubleRound.doubleRound.add start

def joinWords (low high : UInt32) : UInt64 := low.toUInt64 ||| (high.toUInt64 <<< 32)

-- A block holds eight 64-bit values, each with its low word first.
def Block.value (s : Block) : Fin 8 → UInt64
  | 0 => joinWords s.x0 s.x1
  | 1 => joinWords s.x2 s.x3
  | 2 => joinWords s.x4 s.x5
  | 3 => joinWords s.x6 s.x7
  | 4 => joinWords s.x8 s.x9
  | 5 => joinWords s.x10 s.x11
  | 6 => joinWords s.x12 s.x13
  | 7 => joinWords s.x14 s.x15

end Draws
end StaleStore
