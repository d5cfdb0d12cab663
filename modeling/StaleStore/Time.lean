namespace StaleStore

structure Timestamp where
  ms : UInt64
deriving DecidableEq, Repr, Inhabited

structure Span where
  secs : UInt64
  nanos : Nat
  nanos_lt : nanos < 1000000000 := by decide
deriving DecidableEq, Repr

namespace Span

def zero : Span := ⟨0, 0, by decide⟩

def ofMillis (ms : UInt64) : Span where
  secs := ms / 1000
  nanos := ms.toNat % 1000 * 1000000
  nanos_lt := by omega

def toNanos (d : Span) : Nat := d.secs.toNat * 1000000000 + d.nanos

def toMillis (d : Span) : Nat := d.secs.toNat * 1000 + d.nanos / 1000000

-- Whole milliseconds modulo the width of a reading.
def toMillis64 (d : Span) : UInt64 := UInt64.ofNat d.toMillis

end Span

namespace Timestamp

def zero : Timestamp := ⟨0⟩

def millisSince (now since : Timestamp) : UInt64 :=
  if now.ms ≤ since.ms then 0 else now.ms - since.ms

def since (now earlier : Timestamp) : Span := Span.ofMillis (now.millisSince earlier)

-- Adding a span stops at the last reading.
def add (t : Timestamp) (d : Span) : Timestamp :=
  let ms := d.toMillis64
  if UInt64.size ≤ t.ms.toNat + ms.toNat then ⟨UInt64.ofNat (UInt64.size - 1)⟩ else ⟨t.ms + ms⟩

-- Moving a clock wraps around.
def advanceMillis (t : Timestamp) (ms : UInt64) : Timestamp := ⟨t.ms + ms⟩
def advance (t : Timestamp) (d : Span) : Timestamp := t.advanceMillis d.toMillis64

def hasElapsed (now earlier : Timestamp) (span : Span) : Bool :=
  span.toNanos ≤ (now.since earlier).toNanos

end Timestamp
end StaleStore
