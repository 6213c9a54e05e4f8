import StaticIndex.Spec.Find

/-!
# `find` against the values stored under a key

`lookup C key` is what `find(key, values)` is for: the values of the entries of `key`, in
position order. Without inner layers `find` is a binary search over the whole snapshot. With
inner layers it first descends the pivots, and a range with equal ends is taken as a hit. That
is right for a pivot, which holds `key`, and wrong for a one-entry range at the leaves, which
may hold another key.

A range at the leaves has one entry only on small snapshots: every level divides the span by
`k_` and loses at most two positions (`Node.size_ge`), so once `4 * k^L ≤ size_ + 2` every
range at the leaves has at least two entries (`Node.lt_of_leaf`). Then a range with equal
ends is always a pivot hit, and `find` returns exactly the values of `lookup`, for every key,
as binary search over the snapshot does.

## Key results

- `KAryIndex.Published.findInnerLayers_hit`: when `L = 0` or `4 * k^L ≤ size_ + 2`, a range
  with equal ends that `find_inner_layers` returns is a position of `key`.
- `find_perm_lookup`: after a successful `reorganize` on a sorted snapshot of fewer than `2^30`
  entries with `L = 0` or `4 * k^L ≤ size_ + 2`, `find` returns the values of `lookup`, up to order, for every key.
-/

namespace StaticIndex

variable {K V : Type} [LinearOrder K]

/-- The values stored under `key`, in position order: what `find(key, values)` is meant to
    append. -/
def lookup (C : List (Entry K V)) (key : K) : List V :=
  (C.filter fun e => e.key = key).map (·.value)

/-- A snapshot without `key` stores nothing under it. -/
theorem lookup_eq_nil {C : List (Entry K V)} {key : K} (h : ∀ y ∈ C, y.key ≠ key) :
    lookup C key = [] := by
  rw [lookup, List.filter_eq_nil_iff.mpr fun y hy => by simpa using h y hy, List.map_nil]

/-- The entry at position `P.length` of `P ++ x :: R` is `x`. -/
theorem read_length_append {α : Type} (P R : List α) (x : α) :
    read (P ++ x :: R) P.length = some x := by
  rw [read_natCast (by simp), List.getElem_append_right (Nat.le_refl _)]
  simp

/-- When `L = 0` or `4 * k^L ≤ size_ + 2`, in a `Published` state over a sorted snapshot, a
    range with equal ends that `find_inner_layers` returns is a position of `key`: without
    inner layers the range `(0, size_)` never has equal ends, and with them every range at the
    leaves has two entries, so the range is a pivot hit. -/
theorem KAryIndex.Published.findInnerLayers_hit {s : KAryIndex K V} (hpub : s.Published)
    (hC : KeySorted s.container)
    (hsize : s.numLayers = 0 ∨ 4 * s.k ^ s.numLayers ≤ s.container.length + 2) {key : K}
    {a : Int} (h : s.findInnerLayers key = some (a, a)) :
    ∃ x, read s.container a = some x ∧ x.key = key := by
  have hfits := hpub.fits
  unfold KAryIndex.findInnerLayers at h
  split_ifs at h with hL
  · -- `(0, size_)`, with `size_ > 0`
    rw [hL, Nat.pow_zero] at hfits
    rw [Option.some.injEq, Prod.mk.injEq] at h
    omega
  · rw [hpub.innerNodes_eq, if_pos hL] at h
    obtain ⟨lo, hi, hres, -, -, -, c, hreach, hhit⟩ :=
      Node.root.findInnerLayersInternal_reached hC hfits key
    obtain ⟨rfl, rfl⟩ := Prod.mk.inj (Option.some.inj (hres.symm.trans h))
    rcases hhit with ⟨h0, hb, he⟩ | ⟨-, -, -, hhit⟩
    · -- a range at the leaves has two entries, so its ends differ
      have hleaf := hreach.node hC hfits Node.root
      rw [h0] at hleaf
      have := hleaf.lt_of_leaf s.two_le_k hfits (hsize.resolve_left hL)
      omega
    · exact hhit

variable {s₀ s : KAryIndex K V} {C : List (Entry K V)} {u : Unit}

/-- After a successful `reorganize` on a key-sorted snapshot of `N < 2^30` entries with `L = 0`,
    or with `4 * k^L ≤ N + 2`, `find` returns for every key exactly the values stored under it,
    each once, up to order: the multiset a binary search over the snapshot gives, and nothing
    for a key the snapshot lacks. -/
theorem find_perm_lookup (hC : KeySorted C) (hN : C.length < 2 ^ 30)
    (hrun : (reorganize C).run s₀ = .ok u s)
    (hsize : s₀.numLayers = 0 ∨ 4 * s₀.k ^ s₀.numLayers ≤ C.length + 2) (key : K) :
    ∃ vs, s.find key = some vs ∧ vs.Perm (lookup C key) := by
  obtain ⟨hpub, rfl, hk, hL⟩ := reorganize_ok hrun
  rw [← hk, ← hL] at hsize
  obtain ⟨vs, hvs, ⟨rfl, habs⟩ | ⟨P, x, R, hsplit, -, hanchor, rfl⟩⟩ := hpub.find_decomp hC hN key
  · -- nothing emitted, and the snapshot lacks `key`
    rw [lookup_eq_nil fun y hy hyk => habs (keyIn_iff_mem.mpr ⟨y, hy, hyk⟩)]
    exact ⟨[], hvs, List.Perm.nil⟩
  -- the anchor holds `key`: a range with equal ends is a pivot hit
  have hxk : x.key = key := hanchor.elim id fun h => by
    obtain ⟨y, hy, hyk⟩ := hpub.findInnerLayers_hit hC hsize h
    rw [hsplit, read_length_append] at hy
    exact Option.some.inj hy ▸ hyk
  refine ⟨_, hvs, ?_⟩
  rw [lookup, hsplit, List.filter_append, List.filter_cons_of_pos (by simpa using hxk)]
  simp only [List.map_append, List.map_cons, List.map_reverse]
  exact ((List.reverse_perm _).append_right _ |>.cons _).trans List.perm_middle.symm

/-- Keys `1, 3, …, 11`, one layer of fanout `2` (`4 * 2^1 ≤ 6 + 2`), and the absent key `4`,
    strictly between two keys. -/
theorem find_perm_lookup_six_keys :
    KeySorted [(⟨1, 10⟩ : Entry ℕ ℕ), ⟨3, 30⟩, ⟨5, 50⟩, ⟨7, 70⟩, ⟨9, 90⟩, ⟨11, 110⟩] ∧
    [(⟨1, 10⟩ : Entry ℕ ℕ), ⟨3, 30⟩, ⟨5, 50⟩, ⟨7, 70⟩, ⟨9, 90⟩, ⟨11, 110⟩].length < 2 ^ 30 ∧
    (reorganize [(⟨1, 10⟩ : Entry ℕ ℕ), ⟨3, 30⟩, ⟨5, 50⟩, ⟨7, 70⟩, ⟨9, 90⟩, ⟨11, 110⟩]).run
        ⟨1, 2, le_refl 2, [], 0, 0, []⟩ =
      .ok () ⟨1, 2, le_refl 2, [⟨1, 10⟩, ⟨3, 30⟩, ⟨5, 50⟩, ⟨7, 70⟩, ⟨9, 90⟩, ⟨11, 110⟩], 1, 11,
        [some 5]⟩ ∧
    ((1 : Nat) = 0 ∨ 4 * 2 ^ 1 ≤
      [(⟨1, 10⟩ : Entry ℕ ℕ), ⟨3, 30⟩, ⟨5, 50⟩, ⟨7, 70⟩, ⟨9, 90⟩, ⟨11, 110⟩].length + 2) ∧
    ∃ vs, (⟨1, 2, le_refl 2, [⟨1, 10⟩, ⟨3, 30⟩, ⟨5, 50⟩, ⟨7, 70⟩, ⟨9, 90⟩, ⟨11, 110⟩], 1, 11,
        [some 5]⟩ : KAryIndex ℕ ℕ).find 4 = some vs ∧
      vs.Perm (lookup [(⟨1, 10⟩ : Entry ℕ ℕ), ⟨3, 30⟩, ⟨5, 50⟩, ⟨7, 70⟩, ⟨9, 90⟩, ⟨11, 110⟩] 4) :=
  ⟨by decide, by decide, rfl, by decide, @find_perm_lookup ℕ ℕ _ ⟨1, 2, le_refl 2, [], 0, 0, []⟩
    ⟨1, 2, le_refl 2, [⟨1, 10⟩, ⟨3, 30⟩, ⟨5, 50⟩, ⟨7, 70⟩, ⟨9, 90⟩, ⟨11, 110⟩], 1, 11, [some 5]⟩
    [⟨1, 10⟩, ⟨3, 30⟩, ⟨5, 50⟩, ⟨7, 70⟩, ⟨9, 90⟩, ⟨11, 110⟩] () (by decide) (by decide) rfl
    (by decide) 4⟩

end StaticIndex
