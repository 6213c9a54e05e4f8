import StaticIndex.Spec.Construct
import StaticIndex.Spec.Reorganize

/-!
# The descent through the inner layers

`find_inner_layers_internal` walks the call tree of `construct_inner_layers_internal`
(`Node`). At each call above the leaves it reads the `k_ - 1` pivots that construction wrote
for the same range (`Node.readPivots`). Then it either stops at a pivot equal to `key`, or it
enters the one child whose range can still hold `key`. Sorted keys decide which child that is:
pivot `i - 1` is below `key` and pivot `i` above it.

## Key results

- `findInnerLayersInternal_of_next`: the descent is the chain of calls that
  `findInnerLayersInternalNext` names; `DescentReach` is the set of calls it reaches.
- `Node.findInnerLayersInternal_step`: one call above the leaves either returns a pivot that
  holds `key`, or recurses into a child that keeps every occurrence of `key`.
- `DescentReach.node`: every call the descent reaches is a call of the tree.
- `Node.findInnerLayersInternal_reached`: from every call, the descent returns a range inside
  the call's own range that keeps an occurrence of `key` when the call's range had one. The
  range is a pivot of a reached call, which holds `key`, or the range of a reached call at the
  last layer.
- `KAryIndex.Published.findInnerLayers_range`: the range `find` receives, with or without inner
  layers.
- `findInnerLayers_agrees_localises`: after a successful `reorganize` on a sorted snapshot,
  every call the descent reaches reads the pivots construction wrote for its range, and the
  descent localises `key` inside `[0, size_)`.
- `findInnerLayers_narrows`: the range handed to `find` spans at most
  `(size_ - 1) / k^L + k` entries.
-/

namespace StaticIndex

variable {K V : Type} [LinearOrder K]

/-- Child `i` of a range keeps an occurrence of `key` when pivot `i - 1` (if any) is below
    `key` and pivot `i` (if any) above it. -/
theorem KeyIn.child {C : List (Entry K V)} {key : K} (hC : KeySorted C) {k : Nat} {b e : Int}
    {step i : Nat}
    (hlo : i ≠ 0 → ∃ x, read C (pivotPos b step (i - 1)) = some x ∧ x.key < key)
    (hhi : i ≠ k - 1 → ∃ x, read C (pivotPos b step i) = some x ∧ key < x.key)
    (h : KeyIn C key b e) : KeyIn C key (childBegin b step i) (childEnd k b e step i) := by
  obtain ⟨p, y, h1, h2, hy, hyk⟩ := h
  refine ⟨p, y, ?_, ?_, hy, hyk⟩
  · unfold childBegin
    split_ifs with h0
    · exact h1
    · obtain ⟨x, hx, hlt⟩ := hlo h0
      have := hC.lt_of_key_lt hx hlt hy hyk
      rw [pivotPos, Nat.sub_add_cancel (Nat.pos_of_ne_zero h0)] at this
      omega
  · unfold childEnd
    split_ifs with hk
    · exact h2
    · obtain ⟨x, hx, hlt⟩ := hhi hk
      have := hC.lt_of_lt_key hx hlt hy hyk
      unfold pivotPos at this
      omega

/-! ## The calls of the descent -/

/-- The arguments `(layers, begin_offset, end_offset, base_pos, dst_pos)` of one call of
    `find_inner_layers_internal`, with `layers = num_layers_ - curr_layer`. -/
structure DescentCall where
  layers : Nat
  beginOffset : Int
  endOffset : Int
  basePos : Nat
  dstPos : Nat
  deriving DecidableEq, Repr

/-- The arguments of the recursive call that a call of `find_inner_layers_internal` makes;
    `none` when it returns without recursing (at the last layer or at a pivot equal to `key`)
    or reads an unassigned slot. -/
def findInnerLayersInternalNext (k : Nat) (I : List (Option K)) (key : K) :
    DescentCall → Option DescentCall
  | ⟨0, _, _, _, _⟩ => none
  | ⟨layers + 1, beginOffset, endOffset, basePos, dstPos⟩ => do
    let step := stepOffset k beginOffset endOffset
    let pivots ← readPivots I (basePos + dstPos) (k - 1)
    if pivots.findIdx (· = key) < k - 1 then none
    else
      let i := pivots.findIdx (key < ·)
      some ⟨layers, childBegin beginOffset step i, childEnd k beginOffset endOffset step i,
        childBase k basePos, childDst k dstPos i⟩

/-- The calls that a call of `find_inner_layers_internal` leads to, itself included. -/
def DescentReach (k : Nat) (I : List (Option K)) (key : K) : DescentCall → DescentCall → Prop :=
  Relation.ReflTransGen fun c c' => findInnerLayersInternalNext k I key c = some c'

/-- A call that recurses returns what the call `findInnerLayersInternalNext` names returns. -/
theorem findInnerLayersInternal_of_next {k : Nat} {I : List (Option K)} {key : K}
    {c c' : DescentCall} (h : findInnerLayersInternalNext k I key c = some c') :
    findInnerLayersInternal k I key c.layers c.beginOffset c.endOffset c.basePos c.dstPos =
      findInnerLayersInternal k I key c'.layers c'.beginOffset c'.endOffset c'.basePos
        c'.dstPos := by
  obtain ⟨_ | l, b, e, base, dst⟩ := c
  · cases h
  · obtain ⟨ps, hps, h⟩ := Option.bind_eq_some.mp h
    split_ifs at h with hj
    obtain rfl := Option.some.inj h
    simp only [findInnerLayersInternal, hps, Option.bind_eq_bind, Option.some_bind, if_neg hj]

section Step

variable {s : KAryIndex K V} (hC : KeySorted s.container)
  (hn : s.k ^ s.numLayers - 1 < s.container.length) {l : Nat} {b e : Int} {base dst : Nat}

include hC hn

/-- One call of the descent above the leaves, on the array `construct_inner_layers` builds:
    it returns pivot `j`, which holds `key`, without recursing, or it recurses into child `i`,
    which keeps every occurrence of `key` in the call's range. -/
theorem Node.findInnerLayersInternal_step
    (h : Node s.k s.container.length s.numLayers (l + 1) b e base dst) (key : K) :
    (∃ j < s.k - 1, ∃ x, read s.container (pivotPos b (stepOffset s.k b e) j) = some x ∧
      x.key = key ∧
      findInnerLayersInternal s.k s.constructInnerLayers key (l + 1) b e base dst =
        some (pivotPos b (stepOffset s.k b e) j, pivotPos b (stepOffset s.k b e) j) ∧
      findInnerLayersInternalNext s.k s.constructInnerLayers key ⟨l + 1, b, e, base, dst⟩ =
        none) ∨
    (∃ i < s.k,
      findInnerLayersInternalNext s.k s.constructInnerLayers key ⟨l + 1, b, e, base, dst⟩ =
        some ⟨l, childBegin b (stepOffset s.k b e) i, childEnd s.k b e (stepOffset s.k b e) i,
          childBase s.k base, childDst s.k dst i⟩ ∧
      (KeyIn s.container key b e →
        KeyIn s.container key (childBegin b (stepOffset s.k b e) i)
          (childEnd s.k b e (stepOffset s.k b e) i))) := by
  have hk := s.two_le_k
  obtain ⟨ps, hps, hlen, hkeys⟩ := h.readPivots hn
  simp only [findInnerLayersInternal, findInnerLayersInternalNext, hps, Option.bind_eq_bind,
    Option.some_bind]
  split_ifs with hj
  · -- a pivot equal to `key`
    have hfound := List.findIdx_getElem (w := hlen ▸ hj)
    obtain ⟨x, hx, hxk⟩ := hkeys _ (hlen ▸ hj)
    exact .inl ⟨_, hj, x, hx, hxk.trans (of_decide_eq_true hfound), rfl, rfl⟩
  · -- no pivot equals `key`: descend into the first child whose pivot is above `key`
    have hne : ∀ j (hj : j < ps.length), ps[j] ≠ key := fun j hj heq =>
      absurd (List.findIdx_lt_length (p := fun x => decide (x = key)).mpr
        ⟨ps[j], List.getElem_mem hj, decide_eq_true heq⟩) (by omega)
    set i := ps.findIdx fun p => decide (key < p) with hi
    have hle : i ≤ ps.length := List.findIdx_le_length _
    refine .inr ⟨i, by omega, rfl, KeyIn.child hC (fun h0 => ?_) (fun hlast => ?_)⟩
    · obtain ⟨x, hx, hxk⟩ := hkeys (i - 1) (by omega)
      have := List.not_of_lt_findIdx
        (show i - 1 < ps.findIdx (fun p => decide (key < p)) by omega)
      exact ⟨x, hx, hxk ▸ lt_of_le_of_ne (not_lt.mp (of_decide_eq_false this)) (hne _ _)⟩
    · have hlt : i < ps.length := by omega
      obtain ⟨x, hx, hxk⟩ := hkeys i hlt
      exact ⟨x, hx, hxk ▸ of_decide_eq_true (List.findIdx_getElem (w := hlt))⟩

/-- Every call the descent reaches from a call of the tree is a call of the tree. -/
theorem DescentReach.node {key : K} {c c' : DescentCall}
    (hc : Node s.k s.container.length s.numLayers c.layers c.beginOffset c.endOffset c.basePos
      c.dstPos)
    (h : DescentReach s.k s.constructInnerLayers key c c') :
    Node s.k s.container.length s.numLayers c'.layers c'.beginOffset c'.endOffset c'.basePos
      c'.dstPos := by
  induction h with
  | refl => exact hc
  | @tail c₁ c₂ _ hstep ih =>
    obtain ⟨_ | l, b, e, base, dst⟩ := c₁
    · cases hstep
    · rcases ih.findInnerLayersInternal_step hC hn key with
        ⟨-, -, -, -, -, -, hnone⟩ | ⟨i, hi, hsome, -⟩
      · exact absurd (hnone.symm.trans hstep) nofun
      · obtain rfl := Option.some.inj (hsome.symm.trans hstep)
        exact ih.child i hi

/-- From every call, the descent on the array `construct_inner_layers` returns a range inside
    the call's own range, which keeps an occurrence of `key` when the call's range had one. The
    range is that of a call the descent reaches at the last layer, or a pivot of a call it
    reaches above it, and then the pivot holds `key`. -/
theorem Node.findInnerLayersInternal_reached (key : K) :
    ∀ {l b e base dst}, Node s.k s.container.length s.numLayers l b e base dst →
      ∃ lo hi, findInnerLayersInternal s.k s.constructInnerLayers key l b e base dst =
        some (lo, hi) ∧ b ≤ lo ∧ hi ≤ e ∧
        (KeyIn s.container key b e → KeyIn s.container key lo hi) ∧
        ∃ c, DescentReach s.k s.constructInnerLayers key ⟨l, b, e, base, dst⟩ c ∧
          ((c.layers = 0 ∧ lo = c.beginOffset ∧ hi = c.endOffset) ∨
            (c.layers ≠ 0 ∧ lo = hi ∧ (∃ j < s.k - 1,
              lo = pivotPos c.beginOffset (stepOffset s.k c.beginOffset c.endOffset) j) ∧
              ∃ x, read s.container lo = some x ∧ x.key = key))
  | 0, _, _, _, _, _ =>
    ⟨_, _, rfl, Int.le_refl _, Int.le_refl _, id, _, .refl, .inl ⟨rfl, rfl, rfl⟩⟩
  | l + 1, b, e, base, dst, h => by
    have hbe := (h.fits_bounds s.two_le_k hn).1.le
    rcases h.findInnerLayersInternal_step hC hn key with
      ⟨j, hj, x, hx, hxk, hres, -⟩ | ⟨i, hi, hnext, hkey⟩
    · -- stopped at a pivot of this call
      have := pivotPos_mem hbe (by omega : j < s.k)
      exact ⟨_, _, hres, this.1, this.2, fun _ => ⟨_, x, Int.le_refl _, Int.le_refl _, hx, hxk⟩,
        _, .refl, .inr ⟨Nat.succ_ne_zero l, rfl, ⟨j, hj, rfl⟩, x, hx, hxk⟩⟩
    · -- continued in child `i`
      obtain ⟨lo, hi', hres, hlo, hhi, hkey', c, hreach, hc⟩ :=
        Node.findInnerLayersInternal_reached key (h.child i hi)
      have := le_childBegin b (stepOffset s.k b e) i
      have := childEnd_le hbe hi
      exact ⟨lo, hi', (findInnerLayersInternal_of_next hnext).trans hres, by omega, by omega,
        hkey' ∘ hkey, c, .head hnext hreach, hc⟩

/-- `Node.findInnerLayersInternal_reached` with the call at the last layer as a call of the
    tree, and without what a pivot hit holds. -/
theorem Node.findInnerLayersInternal_run (key : K) {l b e base dst}
    (h : Node s.k s.container.length s.numLayers l b e base dst) :
    ∃ lo hi, findInnerLayersInternal s.k s.constructInnerLayers key l b e base dst =
      some (lo, hi) ∧ b ≤ lo ∧ hi ≤ e ∧
      (KeyIn s.container key b e → KeyIn s.container key lo hi) ∧
      (lo = hi ∨ ∃ base' dst', Node s.k s.container.length s.numLayers 0 lo hi base' dst') := by
  obtain ⟨lo, hi, hres, hlo, hhi, hkey, c, hreach, hc⟩ :=
    h.findInnerLayersInternal_reached hC hn key
  refine ⟨lo, hi, hres, hlo, hhi, hkey, ?_⟩
  rcases hc with ⟨h0, rfl, rfl⟩ | ⟨-, hlh, -⟩
  · have hleaf := hreach.node hC hn h
    rw [h0] at hleaf
    exact .inr ⟨_, _, hleaf⟩
  · exact .inl hlh

end Step

/-- The range `find_inner_layers` hands to `find` in a `Published` state over a sorted
    snapshot: `(0, size_)` without inner layers; otherwise a range inside `[0, size_)`. It keeps
    an occurrence of `key` when the snapshot has one. -/
theorem KAryIndex.Published.findInnerLayers_range {s : KAryIndex K V} (hpub : s.Published)
    (hC : KeySorted s.container) (key : K) :
    ∃ lo hi, s.findInnerLayers key = some (lo, hi) ∧ 0 ≤ lo ∧ hi ≤ s.container.length ∧
      (hi = s.container.length → lo = 0 ∧ s.numLayers = 0) ∧
      (KeyIn s.container key 0 (s.container.length - 1) → KeyIn s.container key lo hi) := by
  unfold KAryIndex.findInnerLayers
  split_ifs with hL
  · exact ⟨_, _, rfl, Int.le_refl 0, Int.le_refl _, fun _ => ⟨rfl, hL⟩,
      fun h => h.mono (Int.le_refl 0) (by omega)⟩
  · obtain ⟨lo, hi, hres, hlo, hhi, hkey, -⟩ :=
      Node.root.findInnerLayersInternal_run hC hpub.fits key
    rw [hpub.innerNodes_eq, if_pos hL]
    exact ⟨lo, hi, hres, hlo, by omega, fun _ => by omega, hkey⟩

end StaticIndex
