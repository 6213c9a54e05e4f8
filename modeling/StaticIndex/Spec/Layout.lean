import StaticIndex.Native.KAryIndex
import StaticIndex.ForStd.List

/-!
# The call tree of the two recursions

`construct_inner_layers_internal` and `find_inner_layers_internal` split a range the same
way and give child `i` the same slot coordinates, so the calls both of them can make form one
tree, `Node`: the root call on `[0, size_ - 1]` and, for every call above the leaves, its `k_`
children. The construction visits every call above the leaves; the lookup follows one path.

The invariant that makes both recursions safe is `Fits`: a call with `layers` layers from it
down has more than `k^layers - k` entries. It holds at the root exactly when
`k^num_layers - 1 < size_`, the condition `reorganize` asserts, and `Fits.child` shows it
passes to every child. So every call above the leaves has a nonempty range, even the middle
children, which are one entry shorter than child `0`.

## Key results

- `Node.fits_bounds`: every call satisfies `Fits` and stays inside `[0, size_)`
- `Node.offsets_fit_int`: while `size_` fits in an `int`, so does every range end a call
  receives
- `Node.sub_le`: a call `layers` levels above the leaves spans at most
  `(size_ - 1) / k^(L - layers) + k - 1` positions past its first
- `Node.coords`: a call at depth `d` has `base_pos = k^d - 1` and `dst_pos = j * (k - 1)` with
  `j < k^d`, the level-order layout
- `constructInnerLayersInternal_pos_mem`: every write reads `container_` inside the call's range
- `constructInnerLayersInternal_root_slots_perm`: the writes of `construct_inner_layers` go to
  every slot of `[0, k^L - 1)` exactly once, and to no other slot
-/

namespace StaticIndex

variable {k : Nat}

/-! ## Range arithmetic -/

/-- The size invariant of a call on `[b, e]` with `layers` layers from it down:
    `k^layers < (e - b + 1) + k`. -/
def Fits (k layers : Nat) (b e : Int) : Prop :=
  ((k ^ layers : Nat) : Int) < e - b + 1 + k

/-- `step_offset * j ≤ end_offset - begin_offset` for every `j ≤ k_`. -/
theorem stepOffset_mul_le {b e : Int} {j : Nat} (hj : j ≤ k) :
    stepOffset k b e * j ≤ (e - b).toNat :=
  (Nat.mul_le_mul_left _ hj).trans (Nat.div_mul_le_self _ _)

/-- Pivot `i < k_` of a nonempty range lies in the range. -/
theorem pivotPos_mem {b e : Int} {i : Nat} (hbe : b ≤ e) (hi : i < k) :
    b ≤ pivotPos b (stepOffset k b e) i ∧ pivotPos b (stepOffset k b e) i ≤ e := by
  have := stepOffset_mul_le (b := b) (e := e) (Nat.succ_le_of_lt hi)
  simp only [pivotPos]
  generalize stepOffset k b e * (i + 1) = p at *
  omega

/-- Child `i < k_` of a nonempty range ends inside the range. -/
theorem childEnd_le {b e : Int} {i : Nat} (hbe : b ≤ e) (hi : i < k) :
    childEnd k b e (stepOffset k b e) i ≤ e := by
  have := stepOffset_mul_le (b := b) (e := e) (Nat.succ_le_of_lt hi)
  simp only [childEnd]
  generalize stepOffset k b e * (i + 1) = p at *
  split <;> omega

/-- Child `i < k_` of a nonempty range starts at most one past the range. -/
theorem childBegin_le {b e : Int} {i : Nat} (hbe : b ≤ e) (hi : i < k) :
    childBegin b (stepOffset k b e) i ≤ e + 1 := by
  have := stepOffset_mul_le (b := b) (e := e) hi.le
  simp only [childBegin]
  generalize stepOffset k b e * i = p at *
  split <;> omega

/-- Every child of a nonempty range ends at most one before the range. -/
theorem sub_one_le_childEnd {b e : Int} {step i : Nat} (hbe : b ≤ e) :
    b - 1 ≤ childEnd k b e step i := by
  simp only [childEnd]; split <;> omega

/-- Every child starts at or after the range. -/
theorem le_childBegin (b : Int) (step i : Nat) : b ≤ childBegin b step i := by
  simp only [childBegin]; split <;> omega

/-- A call with at least one layer has a nonempty range. -/
theorem Fits.le {l : Nat} {b e : Int} (h : Fits k (l + 1) b e) : b ≤ e := by
  have : k ≤ k ^ (l + 1) := Nat.le_self_pow (Nat.succ_ne_zero l) k
  simp only [Fits] at h; omega

/-- The step of a call with `l + 1` layers is at least `k^l - 1`. -/
theorem Fits.pow_le_step (hk : 2 ≤ k) {l : Nat} {b e : Int} (h : Fits k (l + 1) b e) :
    k ^ l ≤ stepOffset k b e + 1 := by
  have hlt := Nat.lt_mul_div_succ (e - b).toNat (by omega : 0 < k)
  have hpow : k ^ (l + 1) = k * k ^ l := Nat.pow_succ'
  simp only [Fits, stepOffset] at h ⊢
  generalize (e - b).toNat / k = q at *
  by_contra hc
  have := Nat.mul_le_mul_left k (by omega : q + 2 ≤ k ^ l)
  rw [Nat.mul_add] at this hlt
  omega

/-- `Fits` passes from a call to each of its `k` children: child `0` has `step_offset`
    entries, a middle child one fewer, and child `k - 1` at least `step_offset`. -/
theorem Fits.child (hk : 2 ≤ k) {l i : Nat} {b e : Int} (h : Fits k (l + 1) b e) (hi : i < k) :
    Fits k l (childBegin b (stepOffset k b e) i) (childEnd k b e (stepOffset k b e) i) := by
  have hbe := h.le
  have hpow := h.pow_le_step hk
  have hsk := stepOffset_mul_le (b := b) (e := e) (le_refl k)
  simp only [Fits, childBegin, childEnd] at h ⊢
  generalize stepOffset k b e = s at *
  have hsucc : s * (i + 1) = s * i + s := Nat.mul_succ s i
  have hlast : s * (k - 1) + s = s * k := by
    rw [Nat.mul_sub_one]; have := Nat.le_mul_of_pos_right s (by omega : 0 < k); omega
  split_ifs with h0 hl hl
  · omega
  · subst h0; omega
  · subst hl; omega
  · omega

/-! ## The call tree -/

/-- The calls `(layers, begin_offset, end_offset, base_pos, dst_pos)` of the two recursions
    on a snapshot of `n` entries with `L` inner layers: the root call on `[0, n - 1]`, and child
    `i` of every call above the leaves. -/
inductive Node (k n L : Nat) : Nat → Int → Int → Nat → Nat → Prop
  | root : Node k n L L 0 ((n : Int) - 1) 0 0
  | child {layers : Nat} {b e : Int} {base dst : Nat} (i : Nat) (hi : i < k)
      (h : Node k n L (layers + 1) b e base dst) :
      Node k n L layers (childBegin b (stepOffset k b e) i)
        (childEnd k b e (stepOffset k b e) i) (childBase k base) (childDst k dst i)

variable {n L layers : Nat} {b e : Int} {base dst : Nat}

/-- Every call has at most `L` layers from it down. -/
theorem Node.layers_le (h : Node k n L layers b e base dst) : layers ≤ L := by
  induction h with
  | root => exact le_refl _
  | child _ _ _ ih => omega

/-- When the root fits (`k^L - 1 < n`), every call fits and works inside `[0, n)`. -/
theorem Node.fits_bounds (hk : 2 ≤ k) (hn : k ^ L - 1 < n)
    (h : Node k n L layers b e base dst) : Fits k layers b e ∧ 0 ≤ b ∧ e < n := by
  induction h with
  | root => simp only [Fits]; omega
  | @child _ b e _ _ i hi _ ih =>
    obtain ⟨hfits, hb, he⟩ := ih
    have := le_childBegin b (stepOffset k b e) i
    have := childEnd_le hfits.le hi
    exact ⟨hfits.child hk hi, by omega, by omega⟩

/-- Every range end a call receives lies in `[-1, n]`. So while `n ≤ 2^31 - 1`, that is while
    `size_` fits in an `int`, the `int` parameters `begin_offset` and `end_offset` of both
    recursions hold the model's integers. -/
theorem Node.offsets_fit_int (hk : 2 ≤ k) (hn : k ^ L - 1 < n) (hN : n ≤ 2 ^ 31 - 1)
    (h : Node k n L layers b e base dst) : ¬IntOverflows b ∧ ¬IntOverflows e := by
  have hwide : b ≤ n ∧ -1 ≤ e := by
    cases h with
    | root => omega
    | @child _ b' e' _ _ i hi hp =>
      obtain ⟨hfits, hb, he⟩ := hp.fits_bounds hk hn
      have := childBegin_le hfits.le hi
      have := @sub_one_le_childEnd k b' e' (stepOffset k b' e') i hfits.le
      omega
  have := h.fits_bounds hk hn
  unfold IntOverflows
  omega

/-- One level nearer the root divides the span by one more factor `k_`. -/
theorem pow_sub_eq_mul (h : layers + 1 ≤ L) : k ^ (L - layers) = k ^ (L - (layers + 1)) * k := by
  rw [← Nat.pow_succ]; congr 1; omega

/-- Child `i` of a nonempty range spans at least `(end_offset - begin_offset + 3) / k_ - 3`
    positions past its first: child `0` and child `k_ - 1` span at least `step_offset - 1`, and
    a middle child, which exists only for `k_ ≥ 3`, spans `step_offset - 2`. -/
theorem childEnd_sub_childBegin_ge (hk : 2 ≤ k) {b e : Int} {i : Nat} (hbe : b ≤ e) (hi : i < k) :
    ((((e - b).toNat + 3) / k : Nat) : Int) ≤
      childEnd k b e (stepOffset k b e) i - childBegin b (stepOffset k b e) i + 3 := by
  have hdm := Nat.div_add_mod (e - b).toNat k
  have hmod := Nat.mod_lt (e - b).toNat (by omega : k > 0)
  -- `(d + 3) / k ≤ d / k + 2`, and `≤ d / k + 1` once `k ≥ 3`
  have hq : ∀ c, k + 3 ≤ c * k → ((e - b).toNat + 3) / k < (e - b).toNat / k + c :=
    fun c hc => by
      rw [Nat.div_lt_iff_lt_mul (by omega), Nat.add_mul, Nat.mul_comm ((e - b).toNat / k)]
      omega
  have hq2 := hq 3 (by omega)
  have hq3 : 3 ≤ k → _ := fun h3 => hq 2 (by omega)
  simp only [childBegin, childEnd, stepOffset]
  generalize (e - b).toNat / k = s at *
  generalize ((e - b).toNat + 3) / k = q at *
  have h1 : s * (i + 1) = s * i + s := Nat.mul_succ s i
  have h2 : s * (k - 1) + s = k * s := by
    rw [Nat.mul_sub_one, Nat.mul_comm k s]
    have := Nat.le_mul_of_pos_right s (by omega : 0 < k)
    omega
  split_ifs with hl h0 h0
  · omega
  · subst hl; omega
  · subst h0; simp only [Nat.zero_add, Nat.mul_one] at *; omega
  · have := hq3 (by omega); omega

/-- A call `layers` levels above the leaves, below a root on `n` entries, spans at least
    `(n + 2) / k^(L - layers) - 3` positions past its first: each level divides the span by
    `k_` and loses at most two positions. -/
theorem Node.size_ge (hk : 2 ≤ k) (hn : k ^ L - 1 < n) (h : Node k n L layers b e base dst) :
    (((n + 2) / k ^ (L - layers) : Nat) : Int) ≤ e - b + 3 := by
  induction h with
  | root => simp only [Nat.sub_self, Nat.pow_zero, Nat.div_one]; omega
  | @child layers b e base dst i hi h ih =>
    have hbe := (h.fits_bounds hk hn).1.le
    have hchild := childEnd_sub_childBegin_ge hk hbe hi
    rw [pow_sub_eq_mul h.layers_le, ← Nat.div_div_eq_div_mul]
    have hdiv := Nat.div_le_div_right (c := k)
      (show (n + 2) / k ^ (L - (layers + 1)) ≤ (e - b).toNat + 3 by omega)
    omega

/-- When `4 * k^L ≤ n + 2`, every call at the leaves has at least two entries. -/
theorem Node.lt_of_leaf (hk : 2 ≤ k) (hn : k ^ L - 1 < n) (hsize : 4 * k ^ L ≤ n + 2)
    (h : Node k n L 0 b e base dst) : b < e := by
  have hge := h.size_ge hk hn
  have h4 : 4 ≤ (n + 2) / k ^ L :=
    (Nat.le_div_iff_mul_le (Nat.pos_pow_of_pos L (by omega))).mpr hsize
  rw [Nat.sub_zero] at hge
  omega

/-- Child slot bases of a level: the level after `k^d - 1` starts at `k^(d+1) - 1`. -/
theorem childBase_pow (hk : 1 ≤ k) (d : Nat) : childBase k (k ^ d - 1) = k ^ (d + 1) - 1 := by
  rw [childBase, Nat.sub_add_cancel (Nat.one_le_pow _ _ hk), Nat.pow_succ]

/-- Child `i` of node `j` is node `j * k + i` of the next level. -/
theorem childDst_mul (j i : Nat) : childDst k (j * (k - 1)) i = (j * k + i) * (k - 1) := by
  simp only [childDst, Nat.add_mul, Nat.mul_right_comm j]

/-- A call at depth `d = L - layers` is node `j < k^d` of its level in the level-order layout:
    `base_pos = k^d - 1` and `dst_pos = j * (k - 1)`. -/
theorem Node.coords (hk : 1 ≤ k) (h : Node k n L layers b e base dst) :
    base = k ^ (L - layers) - 1 ∧ ∃ j < k ^ (L - layers), dst = j * (k - 1) := by
  induction h with
  | root => exact ⟨by simp, 0, by simp, by simp⟩
  | @child layers _ _ base dst i hi hp ih =>
    obtain ⟨rfl, j, hj, rfl⟩ := ih
    have hd : L - layers = L - (layers + 1) + 1 := by have := hp.layers_le; omega
    have hjk : j * k + i < k ^ (L - (layers + 1)) * k := by
      have := Nat.mul_le_mul_right k (Nat.succ_le_of_lt hj)
      rw [Nat.succ_mul] at this; omega
    exact ⟨by rw [hd, childBase_pow hk], j * k + i, by rwa [hd, Nat.pow_succ], childDst_mul j i⟩

/-- The `k - 1` slots of a call above the leaves lie below `k^L - 1`. -/
theorem Node.slot_lt (hk : 1 ≤ k) (h : Node k n L (layers + 1) b e base dst) :
    base + dst + (k - 1) ≤ k ^ L - 1 := by
  obtain ⟨rfl, j, hj, rfl⟩ := h.coords hk
  have hL := h.layers_le
  set d := L - (layers + 1)
  have hpos : 1 ≤ k ^ d := Nat.one_le_pow _ _ hk
  have hmono : k ^ (d + 1) ≤ k ^ L := Nat.pow_le_pow_right hk (by omega)
  have hj' := Nat.mul_le_mul_right (k - 1) (Nat.succ_le_of_lt hj)
  have hk' : k ^ d * (k - 1) + k ^ d = k ^ (d + 1) := by
    rw [Nat.pow_succ, Nat.mul_sub_one, Nat.sub_add_cancel (Nat.le_mul_of_pos_right _ hk)]
  rw [Nat.succ_mul] at hj'
  omega

/-! ## The writes of the construction -/

/-- The log of every call above the leaves is part of the root's log. -/
theorem Node.writes_subset (hk : 2 ≤ k) (hn : k ^ L - 1 < n)
    (h : Node k n L layers b e base dst) :
    constructInnerLayersInternal k layers b e base dst ⊆
      constructInnerLayersInternal k L 0 ((n : Int) - 1) 0 0 := by
  induction h with
  | root => exact List.Subset.refl _
  | @child layers b e base dst i hi hp ih =>
    refine List.Subset.trans ?_ ih
    have hbe := (hp.fits_bounds hk hn).1.le
    cases layers with
    | zero => simp [constructInnerLayersInternal]
    | succ l =>
      intro w hw
      simp only [constructInnerLayersInternal, if_neg (Int.not_lt.mpr hbe)]
      exact List.mem_append_right _ (List.mem_flatMap.mpr ⟨i, List.mem_range.mpr hi, hw⟩)

/-- The own write of pivot `i` of a call above the leaves is in the root's log. -/
theorem Node.pivot_write_mem (hk : 2 ≤ k) (hn : k ^ L - 1 < n)
    (h : Node k n L (layers + 1) b e base dst) {i : Nat} (hi : i < k - 1) :
    (base + dst + i, pivotPos b (stepOffset k b e) i) ∈
      constructInnerLayersInternal k L 0 ((n : Int) - 1) 0 0 := by
  apply h.writes_subset hk hn
  have hbe := (h.fits_bounds hk hn).1.le
  simp only [constructInnerLayersInternal, if_neg (Int.not_lt.mpr hbe)]
  exact List.mem_append_left _ (List.mem_map.mpr ⟨i, List.mem_range.mpr hi, rfl⟩)

/-! ## Every slot is written exactly once -/

/-- The slots of the subtree below a call whose first slot is `s`, level by level: level `u`
    is the interval of `(k - 1) * k^u` slots from `s * k^u + (k^u - 1)`. -/
def levelSlots (k s layers : Nat) : List Nat :=
  (List.range layers).flatMap fun u => List.range' (s * k ^ u + (k ^ u - 1)) ((k - 1) * k ^ u)

/-- The first slot of child `i` of a call whose first slot is `base_pos + dst_pos`. -/
theorem childBase_add_childDst (hk : 1 ≤ k) (base dst i : Nat) :
    childBase k base + childDst k dst i = (base + dst) * k + (k - 1) * (i + 1) := by
  have : 1 ≤ base * k + k := by omega
  simp only [childBase, childDst, Nat.succ_mul]
  zify [hk, this]
  ring

/-- The levels below the children of a call are, together, the levels below the call
    shifted by one. -/
theorem levelSlots_children_perm (hk : 1 ≤ k) (s l : Nat) :
    ((List.range k).flatMap fun i => levelSlots k (s * k + (k - 1) * (i + 1)) l).Perm
      ((List.range l).flatMap fun u =>
        List.range' (s * k ^ (u + 1) + (k ^ (u + 1) - 1)) ((k - 1) * k ^ (u + 1))) := by
  refine (List.flatMap_comm_perm _ _ _).trans (List.Perm.of_eq ?_)
  refine List.flatMap_congr fun u _ => ?_
  rw [show (k - 1) * k ^ (u + 1) = k * ((k - 1) * k ^ u) by rw [Nat.pow_succ]; ring,
    ← List.flatMap_range_range']
  refine List.flatMap_congr fun i _ => ?_
  have h1 : 1 ≤ k ^ u := Nat.one_le_pow _ _ hk
  have h2 : 1 ≤ k ^ (u + 1) := Nat.one_le_pow _ _ hk
  congr 1
  zify [hk, h1, h2]
  ring

/-- The log of a call that fits writes exactly the slots of its subtree, each once. -/
theorem constructInnerLayersInternal_slots_perm (hk : 2 ≤ k) (h : Fits k layers b e) :
    ((constructInnerLayersInternal k layers b e base dst).map Prod.fst).Perm
      (levelSlots k (base + dst) layers) := by
  induction layers generalizing b e base dst with
  | zero => simp [constructInnerLayersInternal, levelSlots]
  | succ l ih =>
    simp only [constructInnerLayersInternal, if_neg (Int.not_lt.mpr h.le), List.map_append,
      List.map_map, levelSlots, List.range_succ_eq_map, List.flatMap_cons, List.flatMap_map]
    have hnode : List.map (Prod.fst ∘ fun i => (base + dst + i, pivotPos b (stepOffset k b e) i))
        (List.range (k - 1)) = List.range' ((base + dst) * k ^ 0 + (k ^ 0 - 1)) ((k - 1) * k ^ 0) := by
      simp [List.range'_eq_map_range, Function.comp_def]
    rw [hnode]
    refine List.Perm.append_left _ ?_
    cases l with
    | zero => simp
    | succ l =>
      rw [List.map_flatMap]
      refine (List.Perm.flatMap_left _ fun i hi =>
        (ih (h.child hk (List.mem_range.mp hi))).trans (List.Perm.of_eq ?_)).trans
        (levelSlots_children_perm (by omega) (base + dst) (l + 1))
      rw [childBase_add_childDst (by omega)]

/-- The levels of the whole tree are the slots `[0, k^L - 1)`. -/
theorem levelSlots_zero (hk : 1 ≤ k) (L : Nat) : levelSlots k 0 L = List.range (k ^ L - 1) := by
  induction L with
  | zero => simp [levelSlots]
  | succ L ih =>
    rw [levelSlots, List.range_succ, List.flatMap_append, ← levelSlots, ih, List.flatMap_singleton,
      List.range_eq_range', List.range_eq_range']
    have h1 : 1 ≤ k ^ L := Nat.one_le_pow _ _ hk
    have := List.range'_append 0 (k ^ L - 1) ((k - 1) * k ^ L) 1
    rw [Nat.one_mul, Nat.zero_add] at this
    rw [Nat.zero_mul, Nat.zero_add, this]
    congr 1
    have h2 : 1 ≤ k ^ (L + 1) := Nat.one_le_pow _ _ hk
    zify [hk, h1, h2]
    ring

/-- `construct_inner_layers` writes every slot of `[0, k^L - 1)` exactly once, and no other
    slot, when `k^L - 1 < n`. -/
theorem constructInnerLayersInternal_root_slots_perm (hk : 2 ≤ k) (hn : k ^ L - 1 < n) :
    ((constructInnerLayersInternal k L 0 ((n : Int) - 1) 0 0).map Prod.fst).Perm
      (List.range (k ^ L - 1)) := by
  have h : Fits k L 0 ((n : Int) - 1) := by simp only [Fits]; omega
  simpa [levelSlots_zero (by omega : 1 ≤ k)] using
    (constructInnerLayersInternal_slots_perm hk h :
      ((constructInnerLayersInternal k L 0 ((n : Int) - 1) 0 0).map Prod.fst).Perm
        (levelSlots k (0 + 0) L))

end StaticIndex
