import StaticIndex.Native.Snapshot

/-!
# The benchmark's random generator

A model of `FastRandom` (`playground/fast_random.h`), the 48-bit linear congruential
generator the benchmark threads draw keys from. `seed_` is an `unsigned long`: the product
`seed_ * 0x5DEECE66DL` wraps modulo `2^64`, and the mask `(1L << 48) - 1` then keeps the low
48 bits. Only `next()` and the constructor are modelled; the other draws (`next_uniform`,
`next_char`, the string draws) serve tests outside the index.
-/

namespace StaticIndex

/-- A `FastRandom` object: its one field `seed_`. -/
structure FastRandom where
  seed : Nat
  deriving DecidableEq, Repr

/-- `FastRandom(seed)`, which calls `set_seed0(seed_)`:
    `seed_ = (seed ^ 0x5DEECE66DL) & ((1L << 48) - 1)`. -/
def FastRandom.new (seed : Nat) : FastRandom :=
  ⟨(seed ^^^ 0x5DEECE66D) &&& ((1 <<< 48) - 1)⟩

/-- `next(bits)`: `seed_ = (seed_ * 0x5DEECE66DL + 0xBL) & ((1L << 48) - 1)` in `unsigned long`
    arithmetic, then `seed_ >> (48 - bits)`. -/
def FastRandom.nextBits (r : FastRandom) (bits : Nat) : Nat × FastRandom :=
  let seed := (r.seed * 0x5DEECE66D + 0xB) % 2 ^ 64 &&& ((1 <<< 48) - 1)
  (seed >>> (48 - bits), ⟨seed⟩)

/-- `next()`: `((unsigned long)next(32) << 32) + next(32)` in `unsigned long` arithmetic. C++
    leaves the order of the two calls unspecified; the model makes the left one first. -/
def FastRandom.next (r : FastRandom) : Nat × FastRandom :=
  let (hi, r) := r.nextBits 32
  let (lo, r) := r.nextBits 32
  (((hi <<< 32) + lo) % 2 ^ 64, r)

end StaticIndex
