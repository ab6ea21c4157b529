import AccountCache.Bytes

namespace AccountCache

structure Entropy where
  source : Nat → UInt8
  drawn : Nat

namespace Entropy

def draw (e : Entropy) (n : Nat) : Bytes × Entropy :=
  ((List.range n).map fun i => e.source (e.drawn + i), { e with drawn := e.drawn + n })

@[simp]
theorem draw_length (e : Entropy) (n : Nat) : (e.draw n).1.length = n := by simp [draw]

end Entropy
end AccountCache
