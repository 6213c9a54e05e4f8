import StaticIndex.Native.Snapshot

/-!
# The static k-ary search index

A model of `KAryIndex` (`static_index/kary_index.h`): an implicit k-ary search tree over the
sorted snapshot `container_`, stored level by level in the flat array `inner_nodes_`.

A call of `construct_inner_layers_internal` or `find_inner_layers_internal` works on an
inclusive range `[begin_offset, end_offset]` of `container_` and on the node whose `k_ - 1`
pivots sit at `inner_nodes_[base_pos + dst_pos + i]`. Its pivot `i` is the key at
`begin_offset + step_offset * (i + 1)`, with `step_offset = (end_offset - begin_offset) / k_`,
and child `i` works on the range between pivots `i - 1` and `i`. Both recursions take a
`layers` argument, `num_layers_ - curr_layer`, and recurse structurally on it.

`construct_inner_layers_internal` is modelled as the list of writes it performs, in order,
so that which slot is written, how often, and from where, can be stated about it;
`applyWrites` performs them on the freshly allocated array. Reads return `Option`: `none`
is an out-of-bounds read of `container_` (`read`) or a read of an `inner_nodes_` slot that
was never assigned (`readInner`).
-/

namespace StaticIndex

variable {K V : Type}

/-- The state of a `KAryIndex`: `num_layers_` and `k_` from the constructor, which asserts
    `k_ >= 2`, and the fields `reorganize` sets. `size_` is `container.length`; a slot of
    `inner_nodes_` that was never assigned is `none`. -/
structure KAryIndex (K V : Type) where
  numLayers : Nat
  k : Nat
  two_le_k : 2 ≤ k
  container : List (Entry K V)
  keyMin : K
  keyMax : K
  innerNodes : List (Option K)

/-! ## Range and slot arithmetic shared by the two recursions -/

/-- `step_offset = (end_offset - begin_offset) / k_`. The code divides the difference as a
    `size_t`, so `toNat` is exact while the difference is not negative. That holds on every range
    either recursion reaches in a state a successful `reorganize` leaves (`Node.fits_bounds`).
    After a rejected `reorganize`, `find` can reach a negative difference. There the code's
    division wraps to a huge step, and the model's step is `0`. -/
def stepOffset (k : Nat) (beginOffset endOffset : Int) : Nat :=
  (endOffset - beginOffset).toNat / k

/-- Position of pivot `i`: `begin_offset + step_offset * (i + 1)`, the product taken in
    `size_t`. -/
def pivotPos (beginOffset : Int) (step i : Nat) : Int :=
  beginOffset + ((step * (i + 1) : Nat) : Int)

/-- First position of child `i`: `begin_offset` for child `0`, one past pivot `i - 1`
    otherwise. -/
def childBegin (beginOffset : Int) (step i : Nat) : Int :=
  if i = 0 then beginOffset else beginOffset + ((step * i : Nat) : Int) + 1

/-- Last position of child `i`: one before pivot `i`, and `end_offset` for child `k_ - 1`. -/
def childEnd (k : Nat) (beginOffset endOffset : Int) (step i : Nat) : Int :=
  if i = k - 1 then endOffset else beginOffset + ((step * (i + 1) : Nat) : Int) - 1

/-- `new_base_pos = (base_pos + 1) * k_ - 1`. -/
def childBase (k basePos : Nat) : Nat := (basePos + 1) * k - 1

/-- `new_dst_pos + i * (k_ - 1)` with `new_dst_pos = dst_pos * k_`. -/
def childDst (k dstPos i : Nat) : Nat := dstPos * k + i * (k - 1)

/-! ## Construction -/

/-- The writes `inner_nodes_[slot] = container_[pos].key_` that
    `construct_inner_layers_internal(begin_offset, end_offset, base_pos, dst_pos, curr_layer)`
    performs, as `(slot, pos)` pairs in program order; `layers = num_layers_ - curr_layer`.
    An empty range writes nothing; after its own `k_ - 1` pivots, a call above the last
    layer (`layers > 1`) recurses into its `k_` children. Positions are integers. They equal
    the code's `int` parameters while `size_ ≤ 2^31 - 1`, where every range end a call
    receives fits in an `int` (`Node.offsets_fit_int`). -/
def constructInnerLayersInternal (k : Nat) :
    Nat → Int → Int → Nat → Nat → List (Nat × Int)
  | 0, _, _, _, _ => []
  | layers + 1, beginOffset, endOffset, basePos, dstPos =>
    if endOffset < beginOffset then [] else
      let step := stepOffset k beginOffset endOffset
      (List.range (k - 1)).map (fun i => (basePos + dstPos + i, pivotPos beginOffset step i)) ++
      match layers with
      | 0 => []
      | _ + 1 => (List.range k).flatMap fun i =>
          constructInnerLayersInternal k layers (childBegin beginOffset step i)
            (childEnd k beginOffset endOffset step i) (childBase k basePos) (childDst k dstPos i)

/-- Performs the writes `inner_nodes_[slot] = container_[pos].key_` in order. (A write out of
    range would be dropped and an out-of-bounds read would store `none`; neither happens,
    see `constructInnerLayersInternal_root_slots_perm` and `constructInnerLayers_spec`.) -/
def applyWrites {V : Type} (C : List (Entry K V)) (I : List (Option K))
    (writes : List (Nat × Int)) : List (Option K) :=
  writes.foldl (fun I w => I.set w.1 ((read C w.2).map (·.key))) I

/-- The writes of `construct_inner_layers`: the root call on `[0, size_ - 1]` with
    `base_pos = 0` and `dst_pos = 0`, whose children get `base_pos = k_ - 1` and
    `dst_pos = i * (k_ - 1)` as in the code. -/
def KAryIndex.innerWrites (s : KAryIndex K V) : List (Nat × Int) :=
  constructInnerLayersInternal s.k s.numLayers 0 (s.container.length - 1) 0 0

/-- `inner_nodes_ = new KeyT[k_^num_layers_ - 1]` followed by `construct_inner_layers()`. -/
def KAryIndex.constructInnerLayers (s : KAryIndex K V) : List (Option K) :=
  applyWrites s.container (List.replicate (s.k ^ s.numLayers - 1) none) s.innerWrites

/-! ## Lookup -/

section Lookup

/-- `x` lies outside `[INT_MIN, INT_MAX]`: computing it as a C++ `int` overflows, which is
    undefined behaviour. -/
def IntOverflows (x : Int) : Prop := x < -2 ^ 31 ∨ 2 ^ 31 - 1 < x

instance (x : Int) : Decidable (IntOverflows x) := inferInstanceAs (Decidable (_ ∨ _))

variable [LinearOrder K]

/-- `find_internal(key, offset_begin, offset_end)`: binary search of `container_` over the
    inclusive range; `size_` when `key` is not found. The midpoint is C++'s truncating
    division of the `int` sum `offset_begin + offset_end`. The result is `none` when that sum
    overflows, which is undefined behaviour, and when the read is out of bounds. The other
    `int` steps, `offset_lookup ± 1`, stay inside the range. -/
def findInternal {V : Type} (C : List (Entry K V)) (key : K) (offsetBegin offsetEnd : Int) :
    Option Int :=
  if offsetEnd < offsetBegin then some (C.length : Int)
  else if IntOverflows (offsetBegin + offsetEnd) then none else do
    let offsetLookup := (offsetBegin + offsetEnd).tdiv 2
    let e ← read C offsetLookup
    if key = e.key then some offsetLookup
    else if e.key < key then findInternal C key (offsetLookup + 1) offsetEnd
    else findInternal C key offsetBegin (offsetLookup - 1)
termination_by (offsetEnd - offsetBegin + 1).toNat
decreasing_by
  all_goals
    simp_wf
    have := Int.tdiv_eq_ediv (a := offsetBegin + offsetEnd) (b := 2)
    have := Int.neg_tdiv (offsetBegin + offsetEnd) 2
    have := Int.tdiv_eq_ediv (a := -(offsetBegin + offsetEnd)) (b := 2)
    omega

/-- `inner_nodes_[slot]`: `none` when the slot is out of range or was never assigned. -/
def readInner (I : List (Option K)) (slot : Nat) : Option K :=
  I[slot]?.join

/-- The `n = k_ - 1` pivots `inner_nodes_[base_pos + dst_pos + i]` of one node, read by the
    comparison loops of `find_inner_layers_internal`. -/
def readPivots (I : List (Option K)) (slot n : Nat) : Option (List K) :=
  (List.range n).mapM fun i => readInner I (slot + i)

/-- `find_inner_layers_internal(key, begin_offset, end_offset, base_pos, dst_pos, curr_layer)`
    with `layers = num_layers_ - curr_layer`: the leaf range `(begin_offset, end_offset)` at
    the last layer; a singleton at the first pivot equal to `key`; otherwise the descent into
    the first child `i` with `key < pivot i` (child `k_ - 1` when there is none). -/
def findInnerLayersInternal (k : Nat) (I : List (Option K)) (key : K) :
    Nat → Int → Int → Nat → Nat → Option (Int × Int)
  | 0, beginOffset, endOffset, _, _ => some (beginOffset, endOffset)
  | layers + 1, beginOffset, endOffset, basePos, dstPos => do
    let step := stepOffset k beginOffset endOffset
    let pivots ← readPivots I (basePos + dstPos) (k - 1)
    let j := pivots.findIdx (· = key)
    if j < k - 1 then some (pivotPos beginOffset step j, pivotPos beginOffset step j)
    else
      let i := pivots.findIdx (key < ·)
      findInnerLayersInternal k I key layers (childBegin beginOffset step i)
        (childEnd k beginOffset endOffset step i) (childBase k basePos) (childDst k dstPos i)

/-- `find_inner_layers(key)`: `(0, size_)` without inner layers, otherwise the descent from
    the root, which is the internal step on `[0, size_ - 1]` at `base_pos = dst_pos = 0`. As in
    the construction, the integer offsets are the code's `int`s while `size_ ≤ 2^31 - 1`. -/
def KAryIndex.findInnerLayers (s : KAryIndex K V) (key : K) : Option (Int × Int) :=
  if s.numLayers = 0 then some (0, (s.container.length : Int))
  else findInnerLayersInternal s.k s.innerNodes key s.numLayers 0 (s.container.length - 1) 0 0

/-- `find(key, values)`: the values it appends to `values`, or `none` if it reads out of
    bounds, reads an unassigned slot, or overflows an `int` in `find_internal`. A range returned with equal ends is taken as a hit at
    that position; otherwise `find_internal` searches it. From the hit, the value there is
    emitted, then the equal keys to its left (moving left), then those to its right. -/
def KAryIndex.find (s : KAryIndex K V) (key : K) : Option (List V) :=
  if s.container.length = 0 then some []
  else if s.keyMax < key ∨ key < s.keyMin then some []
  else if s.keyMax = s.keyMin then
    some (if s.keyMax = key then s.container.map (·.value) else [])
  else do
    let offsetRange ← s.findInnerLayers key
    let offsetFind ← if offsetRange.1 = offsetRange.2 then some offsetRange.1
      else findInternal s.container key offsetRange.1 offsetRange.2
    if offsetFind = s.container.length then some []
    else do
      let e ← read s.container offsetFind
      some (e.value :: scanWhile key (s.container.take offsetFind.toNat).reverse ++
        scanWhile key (s.container.drop (offsetFind.toNat + 1)))

/-- `find_range(lhs_key, rhs_key, values)`: the values it appends to `values`, `none` when
    `assert(lhs_key < rhs_key)` fails. Past the assertion the body only returns early on an
    empty index or a range outside `[key_min_, key_max_]`, and appends nothing on any path. -/
def KAryIndex.findRange (s : KAryIndex K V) (lhsKey rhsKey : K) : Option (List V) :=
  if ¬lhsKey < rhsKey then none
  else if s.container.length = 0 then some []
  else if s.keyMax < lhsKey ∨ rhsKey < s.keyMin then some []
  else some []

end Lookup

/-! ## Rebuild -/

/-- Modelled from the spec: `base_reorganize`, declared in `base_static_index.h` (not among
    the sources), replaces `container_` by the data table's key-sorted snapshot
    (`project_sorted`) and sets `size_` to its length. -/
def KAryIndex.baseReorganize (s : KAryIndex K V) (snapshot : List (Entry K V)) :
    KAryIndex K V :=
  { s with container := snapshot }

/-- `reorganize()`: `base_reorganize()` runs first; the assertion `exceed maximum layers` is
    an error result that keeps the state reached so far. The check uses the exact `k^L`. The code
    converts the `double` `std::pow(k_, num_layers_) - 1` to `size_t`, which agrees with it while
    `k^L ≤ 2^53`. -/
def reorganize (snapshot : List (Entry K V)) : EStateM String (KAryIndex K V) Unit := do
  modify (·.baseReorganize snapshot)
  let s ← get
  if h : s.k ^ s.numLayers - 1 < s.container.length then
    set { s with
      keyMin := s.container[0].key
      keyMax := s.container[s.container.length - 1].key
      innerNodes := if s.numLayers ≠ 0 then s.constructInnerLayers else [] }
  else throw "exceed maximum layers"

end StaticIndex
