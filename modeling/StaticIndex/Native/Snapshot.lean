import Mathlib

/-!
# Snapshot entries

`KAryIndex` searches `container_`, the key-sorted snapshot that `base_reorganize` projects
from the data table (`static_index/kary_index.h`). Each entry carries a key `key_` and the
value `value_` that `find` appends to its output.

Positions in the search code are C++ `int`s (and `size_t`s converted to `int`). They are
modelled as mathematical integers, which is what they are as long as nothing overflows
(`Spec/Overflow.lean` is about when that holds). `read` is the only way the model reads
`container_`: it is `none` outside `[0, size_)`, where the code would read out of bounds.
-/

namespace StaticIndex

/-- An entry `container_[p]` of the snapshot: a key and the value stored with it. -/
structure Entry (K V : Type) where
  key : K
  value : V
  deriving DecidableEq, Repr

/-- `container_[p]` for a position `p`; `none` when `p` is outside `[0, size_)`. -/
def read {α : Type} (C : List α) (p : Int) : Option α :=
  if p < 0 then none else C[p.toNat]?

/-- The snapshot is sorted by key, as `base_reorganize` leaves it. -/
def KeySorted {K V : Type} [LinearOrder K] (C : List (Entry K V)) : Prop :=
  C.Pairwise fun a b => a.key ≤ b.key

instance {K V : Type} [LinearOrder K] (C : List (Entry K V)) : Decidable (KeySorted C) :=
  inferInstanceAs (Decidable (C.Pairwise _))

/-- The duplicate scans of `find` (`// move left`, `// move right`): the values of the
    leading entries whose key equals `key`, stopping at the first that differs. -/
def scanWhile {K V : Type} [LinearOrder K] (key : K) (entries : List (Entry K V)) : List V :=
  (entries.takeWhile fun e => e.key = key).map (·.value)

end StaticIndex
