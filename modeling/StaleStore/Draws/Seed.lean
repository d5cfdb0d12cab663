import StaleStore.Draws.Cipher

namespace StaleStore
namespace Draws

def seedStep (state : UInt64) : UInt64 := state * 6364136223846793005 + 11634580027462260723

def seedWord (state : UInt64) : UInt32 :=
  let folded := (((state >>> 18) ^^^ state) >>> 27).toUInt32
  let turn := (state >>> 59).toUInt32
  (folded >>> turn) ||| (folded <<< ((32 - turn) % 32))

def Key.ofSeed (seed : UInt64) : Key :=
  let s0 := seedStep seed
  let s1 := seedStep s0
  let s2 := seedStep s1
  let s3 := seedStep s2
  let s4 := seedStep s3
  let s5 := seedStep s4
  let s6 := seedStep s5
  let s7 := seedStep s6
  ⟨seedWord s0, seedWord s1, seedWord s2, seedWord s3, seedWord s4, seedWord s5, seedWord s6,
    seedWord s7⟩

end Draws
end StaleStore
