/-!
# The index-keyed generator (`ci_prng.h`)

One 64-bit draw per packet index: the state is never consumed sequentially, so
a draw depends on the seed and the index alone.
-/

namespace CspLinksim.Prng

/-- `ci_splitmix64`. -/
def ciSplitmix64 (x₀ : UInt64) : UInt64 :=
  let x := x₀ + 0x9E3779B97F4A7C15
  let x := (x ^^^ (x >>> 30)) * 0xBF58476D1CE4E5B9
  let x := (x ^^^ (x >>> 27)) * 0x94D049BB133111EB
  x ^^^ (x >>> 31)

/-- `ci_draw`. -/
def ciDraw (seed index : UInt64) : UInt64 := ciSplitmix64 (seed ^^^ index)

end CspLinksim.Prng
