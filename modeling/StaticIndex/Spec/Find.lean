import StaticIndex.Spec.BinarySearch
import StaticIndex.Spec.Descent

/-!
# `find`

`find(key)` first checks `key` against `key_min_` and `key_max_` and takes the shortcut for a
snapshot of one key. Otherwise it gets a range from `find_inner_layers`. A range with equal ends
is taken as a hit at that position; any other range is searched by `find_internal`. From the
hit (the anchor) `find` emits the anchor's value, then scans left and right for equal keys.

## Key results

- `KAryIndex.Published.find_anchor`: what one call of `find` does in a `Published` state over a
  sorted snapshot. It emits nothing, and only when the snapshot lacks `key`. Or it emits from an
  anchor, which holds `key` whenever the snapshot has `key`, or else is a one-entry range
  returned by the descent.
- `KAryIndex.Published.find_decomp`: the anchor form with the scans replaced by filters.
- `find_isSome`: below `2^30` entries, `find` never overflows, reads out of bounds or reads an
  unassigned slot.
- `find_complete`: below `2^30` entries, when `key` occurs, `find` emits exactly the values of
  its entries.
- `find_emission_order`: the order of the emitted values. The anchor comes first, then the
  matches left of it from nearest to farthest, then those right of it in position order.
- `find_absent_key`: an absent key yields nothing, or the one value of a one-entry leaf range.
  Without inner layers it always yields nothing.
- `find_reports_absent_key`: a two-entry snapshot with one layer, on which `find` reports a
  value for a key the snapshot lacks.
-/

namespace StaticIndex

variable {K V : Type} [LinearOrder K]

section Published

variable {s : KAryIndex K V} (hpub : s.Published) (hC : KeySorted s.container)

include hpub hC

/-- Every key of the snapshot lies between `key_min_` and `key_max_`. -/
theorem KAryIndex.Published.keyIn_bounds {key : K}
    (h : KeyIn s.container key 0 (s.container.length - 1)) :
    s.keyMin ≤ key ∧ key ≤ s.keyMax := by
  obtain ⟨x0, hx0, hmin⟩ := hpub.keyMin_eq
  obtain ⟨xN, hxN, hmax⟩ := hpub.keyMax_eq
  obtain ⟨p, y, h1, h2, hy, rfl⟩ := h
  exact ⟨hmin ▸ hC.key_le hx0 hy h1, hmax ▸ hC.key_le hy hxN h2⟩

/-- A snapshot whose first and last keys agree holds one key. -/
theorem KAryIndex.Published.key_eq_of_keyMax_eq_keyMin (heq : s.keyMax = s.keyMin) :
    ∀ y ∈ s.container, y.key = s.keyMax := fun y hy =>
  have h := hpub.keyIn_bounds hC (keyIn_iff_mem.mpr ⟨y, hy, rfl⟩)
  le_antisymm h.2 (heq ▸ h.1)

/-- What one call of `find` does. It emits nothing, and only when the snapshot lacks `key`. Or
    it emits from an anchor `a`: the anchor's value, then the left scan, then the right scan. The
    anchor holds `key` whenever the snapshot does. An anchor without `key` is a one-entry range
    `(a, a)` returned by `find_inner_layers`. -/
theorem KAryIndex.Published.find_anchor (hN : s.container.length < 2 ^ 30) (key : K) :
    ∃ vs, s.find key = some vs ∧
      ((vs = [] ∧ ¬KeyIn s.container key 0 (s.container.length - 1)) ∨
       ∃ a x, read s.container a = some x ∧
         (KeyIn s.container key 0 (s.container.length - 1) → x.key = key) ∧
         (x.key = key ∨ s.findInnerLayers key = some (a, a)) ∧
         vs = x.value :: scanWhile key (s.container.take a.toNat).reverse ++
           scanWhile key (s.container.drop (a.toNat + 1))) := by
  obtain ⟨x0, hx0, -⟩ := hpub.keyMin_eq
  obtain ⟨xN, hxN, hmax⟩ := hpub.keyMax_eq
  have hpos := (read_bounds hx0).2
  unfold KAryIndex.find
  rw [if_neg (by omega)]
  split_ifs with hout heq hkey
  · -- `key` outside `[key_min_, key_max_]`: the snapshot lacks `key`
    refine ⟨[], rfl, .inl ⟨rfl, fun hin => ?_⟩⟩
    have h := hpub.keyIn_bounds hC hin
    exact hout.elim (not_lt.mpr h.2) (not_lt.mpr h.1)
  · -- `key_min_ = key_max_ = key`: every entry holds `key`, emitted from the anchor `0`
    have hall : ∀ y ∈ s.container, y.key = key := hkey ▸ hpub.key_eq_of_keyMax_eq_keyMin hC heq
    obtain ⟨y, ys, hys⟩ := List.exists_cons_of_length_pos (by omega : 0 < s.container.length)
    have hyk : y.key = key := hall y (hys ▸ List.mem_cons_self y ys)
    refine ⟨_, rfl, .inr ⟨0, y, by simp [hys, read], fun _ => hyk, .inl hyk, ?_⟩⟩
    rw [hys] at hall ⊢
    simp [scanWhile_of_forall fun e he => hall e (List.mem_cons_of_mem y he)]
  · -- `key_min_ = key_max_ ≠ key` is excluded by the range check
    exact absurd (le_antisymm (heq ▸ not_lt.mp fun h => hout (.inr h))
      (not_lt.mp fun h => hout (.inl h))) hkey
  · -- the descent, then the leaf search
    obtain ⟨lo, hi, hr, hlo, hhi, hend, hkey⟩ := hpub.findInnerLayers_range hC key
    simp only [hr, Option.bind_eq_bind, Option.some_bind]
    by_cases hlh : lo = hi
    · -- a one-entry range is taken as a hit
      subst hlh
      have hlt : lo < s.container.length :=
        lt_of_le_of_ne hhi fun h => by have := (hend h).1; omega
      obtain ⟨x, hx⟩ := read_exists hlo hlt
      rw [if_pos rfl, if_neg (Int.ne_of_lt hlt), hx, Option.some_bind]
      refine ⟨_, rfl, .inr ⟨lo, x, hx, fun hin => ?_, .inr rfl, rfl⟩⟩
      obtain ⟨p, y, h1, h2, hy, hyk⟩ := hkey hin
      obtain rfl : p = lo := by omega
      exact Option.some.inj (hy.symm.trans hx) ▸ hyk
    · -- `find_internal` on the range
      obtain ⟨r, hfr, hfound, hnot⟩ := findInternal_correct hC hN lo hi hlo hhi fun h =>
        ⟨by have := (hend h).1; omega, fun x hx => Option.some.inj (hxN.symm.trans hx) ▸
          hmax ▸ not_lt.mp fun h => hout (.inl h)⟩
      rw [if_neg hlh, hfr, Option.some_bind]
      by_cases hin : KeyIn s.container key lo hi
      · obtain ⟨-, -, y, hy, hyk⟩ := hfound hin
        have := read_bounds hy
        rw [if_neg (by omega), hy]
        exact ⟨_, rfl, .inr ⟨r, y, hy, fun _ => hyk, .inl hyk, rfl⟩⟩
      · rw [hnot hin, if_pos rfl]
        exact ⟨[], rfl, .inl ⟨rfl, fun h => hin (hkey h)⟩⟩

/-- `find_anchor` with the snapshot split as `P ++ x :: R` at the anchor `x`, and the scans
    written as the entries of `key` in `P`, nearest first, and in `R`. -/
theorem KAryIndex.Published.find_decomp (hN : s.container.length < 2 ^ 30) (key : K) :
    ∃ vs, s.find key = some vs ∧
      ((vs = [] ∧ ¬KeyIn s.container key 0 (s.container.length - 1)) ∨
       ∃ P x R, s.container = P ++ x :: R ∧
         (KeyIn s.container key 0 (s.container.length - 1) → x.key = key) ∧
         (x.key = key ∨ s.findInnerLayers key = some (P.length, P.length)) ∧
         vs = x.value :: ((P.filter fun e => e.key = key).reverse ++
           R.filter fun e => e.key = key).map (·.value)) := by
  obtain ⟨vs, hvs, h | ⟨a, x, hx, hkey, hanchor, rfl⟩⟩ := hpub.find_anchor hC hN key
  · exact ⟨vs, hvs, .inl h⟩
  obtain ⟨⟨ha0, hlen⟩, rfl⟩ := read_eq_some_iff.mp hx
  have hsplit : s.container = s.container.take a.toNat ++
      s.container[a.toNat] :: s.container.drop (a.toNat + 1) := by
    rw [← List.drop_eq_getElem_cons, List.take_append_drop]
  have hP : ((s.container.take a.toNat).length : Int) = a := by
    rw [List.length_take, min_eq_left hlen.le]; omega
  have hall : s.container[a.toNat].key = key ∨ ∀ y ∈ s.container, y.key ≠ key := by
    by_cases hin : KeyIn s.container key 0 (s.container.length - 1)
    · exact .inl (hkey hin)
    · exact .inr fun y hy hyk => hin (keyIn_iff_mem.mpr ⟨y, hy, hyk⟩)
  obtain ⟨hl, hr⟩ := hC.scanWhile_anchor hsplit hall
  refine ⟨_, hvs, .inr ⟨_, _, _, hsplit, hkey, by rw [hP]; exact hanchor, ?_⟩⟩
  rw [hl, hr, List.map_append, List.cons_append]

end Published

variable {s₀ s : KAryIndex K V} {C : List (Entry K V)} {u : Unit}

/-- After a successful `reorganize` on a key-sorted snapshot of fewer than `2^30` entries, `find`
    never overflows an `int`, never reads `container_` out of bounds and never reads a slot of
    `inner_nodes_` that construction did not assign. -/
theorem find_isSome (hC : KeySorted C) (hN : C.length < 2 ^ 30)
    (hrun : (reorganize C).run s₀ = .ok u s) (key : K) :
    (s.find key).isSome := by
  obtain ⟨hpub, rfl, -⟩ := reorganize_ok hrun
  obtain ⟨vs, hvs, -⟩ := hpub.find_anchor hC hN key
  simp [hvs]

/-- A snapshot of four keys, two inner layers of fanout `2`, and a key it lacks. -/
theorem find_isSome_four_keys :
    KeySorted [(⟨1, 1⟩ : Entry ℕ ℕ), ⟨2, 2⟩, ⟨3, 3⟩, ⟨5, 5⟩] ∧
    [(⟨1, 1⟩ : Entry ℕ ℕ), ⟨2, 2⟩, ⟨3, 3⟩, ⟨5, 5⟩].length < 2 ^ 30 ∧
    (reorganize [(⟨1, 1⟩ : Entry ℕ ℕ), ⟨2, 2⟩, ⟨3, 3⟩, ⟨5, 5⟩]).run
        ⟨2, 2, le_refl 2, [], 0, 0, []⟩ =
      .ok () ⟨2, 2, le_refl 2, [⟨1, 1⟩, ⟨2, 2⟩, ⟨3, 3⟩, ⟨5, 5⟩], 1, 5,
        [some 2, some 1, some 3]⟩ ∧
    ((⟨2, 2, le_refl 2, [⟨1, 1⟩, ⟨2, 2⟩, ⟨3, 3⟩, ⟨5, 5⟩], 1, 5, [some 2, some 1, some 3]⟩ :
      KAryIndex ℕ ℕ).find 4).isSome :=
  ⟨by decide, by decide, rfl, @find_isSome ℕ ℕ _ ⟨2, 2, le_refl 2, [], 0, 0, []⟩
    ⟨2, 2, le_refl 2, [⟨1, 1⟩, ⟨2, 2⟩, ⟨3, 3⟩, ⟨5, 5⟩], 1, 5, [some 2, some 1, some 3]⟩
    [⟨1, 1⟩, ⟨2, 2⟩, ⟨3, 3⟩, ⟨5, 5⟩] () (by decide) (by decide) rfl 4⟩

/-- After a successful `reorganize` on a key-sorted snapshot of fewer than `2^30` entries, `find`
    emits, for a key that occurs, exactly the values of the entries with that key: each once, up
    to order. -/
theorem find_complete (hC : KeySorted C) (hN : C.length < 2 ^ 30)
    (hrun : (reorganize C).run s₀ = .ok u s) (key : K)
    (hkey : ∃ y ∈ C, y.key = key) :
    ∃ vs, s.find key = some vs ∧ vs.Perm ((C.filter fun e => e.key = key).map (·.value)) := by
  obtain ⟨hpub, rfl, -⟩ := reorganize_ok hrun
  obtain ⟨vs, hvs, ⟨-, habs⟩ | ⟨P, x, R, hsplit, hx, -, rfl⟩⟩ := hpub.find_decomp hC hN key
  · exact absurd (keyIn_iff_mem.mpr hkey) habs
  have hxk : x.key = key := hx (keyIn_iff_mem.mpr hkey)
  refine ⟨_, hvs, ?_⟩
  rw [hsplit, List.filter_append, List.filter_cons_of_pos (by simpa using hxk)]
  simp only [List.map_append, List.map_cons, List.map_reverse]
  exact ((List.reverse_perm _).append_right _ |>.cons _).trans List.perm_middle.symm

/-- The duplicates of `S4`: four entries of key `3` around the root pivot. -/
theorem find_complete_duplicates :
    KeySorted [(⟨1, 2⟩ : Entry ℕ ℕ), ⟨2, 4⟩, ⟨3, 1⟩, ⟨3, 3⟩, ⟨3, 5⟩, ⟨3, 7⟩, ⟨4, 6⟩, ⟨5, 8⟩] ∧
    [(⟨1, 2⟩ : Entry ℕ ℕ), ⟨2, 4⟩, ⟨3, 1⟩, ⟨3, 3⟩, ⟨3, 5⟩, ⟨3, 7⟩, ⟨4, 6⟩, ⟨5, 8⟩].length < 2 ^ 30 ∧
    (reorganize [(⟨1, 2⟩ : Entry ℕ ℕ), ⟨2, 4⟩, ⟨3, 1⟩, ⟨3, 3⟩, ⟨3, 5⟩, ⟨3, 7⟩, ⟨4, 6⟩,
        ⟨5, 8⟩]).run ⟨2, 2, le_refl 2, [], 0, 0, []⟩ =
      .ok () ⟨2, 2, le_refl 2, [⟨1, 2⟩, ⟨2, 4⟩, ⟨3, 1⟩, ⟨3, 3⟩, ⟨3, 5⟩, ⟨3, 7⟩, ⟨4, 6⟩,
        ⟨5, 8⟩], 1, 5, [some 3, some 2, some 3]⟩ ∧
    (∃ y ∈ [(⟨1, 2⟩ : Entry ℕ ℕ), ⟨2, 4⟩, ⟨3, 1⟩, ⟨3, 3⟩, ⟨3, 5⟩, ⟨3, 7⟩, ⟨4, 6⟩, ⟨5, 8⟩],
      y.key = 3) ∧
    ∃ vs, (⟨2, 2, le_refl 2, [⟨1, 2⟩, ⟨2, 4⟩, ⟨3, 1⟩, ⟨3, 3⟩, ⟨3, 5⟩, ⟨3, 7⟩, ⟨4, 6⟩,
        ⟨5, 8⟩], 1, 5, [some 3, some 2, some 3]⟩ : KAryIndex ℕ ℕ).find 3 = some vs ∧
      vs.Perm (([(⟨1, 2⟩ : Entry ℕ ℕ), ⟨2, 4⟩, ⟨3, 1⟩, ⟨3, 3⟩, ⟨3, 5⟩, ⟨3, 7⟩, ⟨4, 6⟩,
        ⟨5, 8⟩].filter fun e => e.key = 3).map (·.value)) :=
  ⟨by decide, by decide, rfl, ⟨⟨3, 1⟩, by decide, rfl⟩, @find_complete ℕ ℕ _ ⟨2, 2, le_refl 2, [], 0, 0, []⟩
    ⟨2, 2, le_refl 2, [⟨1, 2⟩, ⟨2, 4⟩, ⟨3, 1⟩, ⟨3, 3⟩, ⟨3, 5⟩, ⟨3, 7⟩, ⟨4, 6⟩, ⟨5, 8⟩], 1, 5,
      [some 3, some 2, some 3]⟩
    [⟨1, 2⟩, ⟨2, 4⟩, ⟨3, 1⟩, ⟨3, 3⟩, ⟨3, 5⟩, ⟨3, 7⟩, ⟨4, 6⟩, ⟨5, 8⟩] () (by decide) (by decide) rfl 3
    ⟨⟨3, 1⟩, by decide, rfl⟩⟩

/-- After a successful `reorganize` on a key-sorted snapshot of fewer than `2^30` entries, `find`
    emits nothing, or it splits the snapshot as `P ++ x :: R` at an anchor `x`, which holds `key` when the snapshot
    does. It emits the anchor's value, then the values of the entries of `key` in `P` from
    nearest to farthest, then those in `R` in position order. -/
theorem find_emission_order (hC : KeySorted C) (hN : C.length < 2 ^ 30)
    (hrun : (reorganize C).run s₀ = .ok u s) (key : K) :
    ∃ vs, s.find key = some vs ∧
      (vs = [] ∨ ∃ P x R, C = P ++ x :: R ∧ ((∃ y ∈ C, y.key = key) → x.key = key) ∧
        vs = x.value :: ((P.filter fun e => e.key = key).reverse ++
          R.filter fun e => e.key = key).map (·.value)) := by
  obtain ⟨hpub, rfl, -⟩ := reorganize_ok hrun
  obtain ⟨vs, hvs, ⟨rfl, -⟩ | ⟨P, x, R, hsplit, hx, -, rfl⟩⟩ := hpub.find_decomp hC hN key
  · exact ⟨[], hvs, .inl rfl⟩
  · exact ⟨_, hvs, .inr ⟨P, x, R, hsplit, hx ∘ keyIn_iff_mem.mpr, rfl⟩⟩

/-- The duplicates of `S4`: the anchor is the root pivot at position `3`. -/
theorem find_emission_order_duplicates :
    KeySorted [(⟨1, 2⟩ : Entry ℕ ℕ), ⟨2, 4⟩, ⟨3, 1⟩, ⟨3, 3⟩, ⟨3, 5⟩, ⟨3, 7⟩, ⟨4, 6⟩, ⟨5, 8⟩] ∧
    [(⟨1, 2⟩ : Entry ℕ ℕ), ⟨2, 4⟩, ⟨3, 1⟩, ⟨3, 3⟩, ⟨3, 5⟩, ⟨3, 7⟩, ⟨4, 6⟩, ⟨5, 8⟩].length < 2 ^ 30 ∧
    (reorganize [(⟨1, 2⟩ : Entry ℕ ℕ), ⟨2, 4⟩, ⟨3, 1⟩, ⟨3, 3⟩, ⟨3, 5⟩, ⟨3, 7⟩, ⟨4, 6⟩,
        ⟨5, 8⟩]).run ⟨2, 2, le_refl 2, [], 0, 0, []⟩ =
      .ok () ⟨2, 2, le_refl 2, [⟨1, 2⟩, ⟨2, 4⟩, ⟨3, 1⟩, ⟨3, 3⟩, ⟨3, 5⟩, ⟨3, 7⟩, ⟨4, 6⟩,
        ⟨5, 8⟩], 1, 5, [some 3, some 2, some 3]⟩ ∧
    ∃ vs, (⟨2, 2, le_refl 2, [⟨1, 2⟩, ⟨2, 4⟩, ⟨3, 1⟩, ⟨3, 3⟩, ⟨3, 5⟩, ⟨3, 7⟩, ⟨4, 6⟩,
        ⟨5, 8⟩], 1, 5, [some 3, some 2, some 3]⟩ : KAryIndex ℕ ℕ).find 3 = some vs ∧
      (vs = [] ∨ ∃ P x R, [(⟨1, 2⟩ : Entry ℕ ℕ), ⟨2, 4⟩, ⟨3, 1⟩, ⟨3, 3⟩, ⟨3, 5⟩, ⟨3, 7⟩,
          ⟨4, 6⟩, ⟨5, 8⟩] = P ++ x :: R ∧
        ((∃ y ∈ [(⟨1, 2⟩ : Entry ℕ ℕ), ⟨2, 4⟩, ⟨3, 1⟩, ⟨3, 3⟩, ⟨3, 5⟩, ⟨3, 7⟩, ⟨4, 6⟩,
          ⟨5, 8⟩], y.key = 3) → x.key = 3) ∧
        vs = x.value :: ((P.filter fun e => e.key = 3).reverse ++
          R.filter fun e => e.key = 3).map (·.value)) :=
  ⟨by decide, by decide, rfl, @find_emission_order ℕ ℕ _ ⟨2, 2, le_refl 2, [], 0, 0, []⟩
    ⟨2, 2, le_refl 2, [⟨1, 2⟩, ⟨2, 4⟩, ⟨3, 1⟩, ⟨3, 3⟩, ⟨3, 5⟩, ⟨3, 7⟩, ⟨4, 6⟩, ⟨5, 8⟩], 1, 5,
      [some 3, some 2, some 3]⟩
    [⟨1, 2⟩, ⟨2, 4⟩, ⟨3, 1⟩, ⟨3, 3⟩, ⟨3, 5⟩, ⟨3, 7⟩, ⟨4, 6⟩, ⟨5, 8⟩] () (by decide) (by decide) rfl 3⟩

/-- On the snapshot of `S4`, `find(3)` emits `[3, 1, 5, 7]`: the anchor at position `3`
    first, before the entry of key `3` at position `2`, so not in ascending order of position,
    which is `[1, 3, 5, 7]`. -/
theorem find_duplicates_anchor_first :
    KeySorted [(⟨1, 2⟩ : Entry ℕ ℕ), ⟨2, 4⟩, ⟨3, 1⟩, ⟨3, 3⟩, ⟨3, 5⟩, ⟨3, 7⟩, ⟨4, 6⟩, ⟨5, 8⟩] ∧
    (reorganize [(⟨1, 2⟩ : Entry ℕ ℕ), ⟨2, 4⟩, ⟨3, 1⟩, ⟨3, 3⟩, ⟨3, 5⟩, ⟨3, 7⟩, ⟨4, 6⟩,
        ⟨5, 8⟩]).run ⟨2, 2, le_refl 2, [], 0, 0, []⟩ =
      .ok () ⟨2, 2, le_refl 2, [⟨1, 2⟩, ⟨2, 4⟩, ⟨3, 1⟩, ⟨3, 3⟩, ⟨3, 5⟩, ⟨3, 7⟩, ⟨4, 6⟩,
        ⟨5, 8⟩], 1, 5, [some 3, some 2, some 3]⟩ ∧
    (⟨2, 2, le_refl 2, [⟨1, 2⟩, ⟨2, 4⟩, ⟨3, 1⟩, ⟨3, 3⟩, ⟨3, 5⟩, ⟨3, 7⟩, ⟨4, 6⟩, ⟨5, 8⟩], 1, 5,
        [some 3, some 2, some 3]⟩ : KAryIndex ℕ ℕ).find 3 = some [3, 1, 5, 7] ∧
    ([(⟨1, 2⟩ : Entry ℕ ℕ), ⟨2, 4⟩, ⟨3, 1⟩, ⟨3, 3⟩, ⟨3, 5⟩, ⟨3, 7⟩, ⟨4, 6⟩, ⟨5, 8⟩].filter
        fun e => e.key = 3).map (·.value) = [1, 3, 5, 7] :=
  ⟨by decide, rfl, rfl, rfl⟩

/-- After a successful `reorganize` on a key-sorted snapshot of fewer than `2^30` entries, `find`
    on a key the snapshot lacks emits nothing, or exactly one value. That value is the value of the entry at `a`,
    where `find_inner_layers` returned the one-entry range `(a, a)`. Without inner layers it
    emits nothing. -/
theorem find_absent_key (hC : KeySorted C) (hN : C.length < 2 ^ 30)
    (hrun : (reorganize C).run s₀ = .ok u s) (key : K)
    (habs : ∀ y ∈ C, y.key ≠ key) :
    ∃ vs, s.find key = some vs ∧
      (vs = [] ∨ ∃ a x, s.findInnerLayers key = some (a, a) ∧ read C a = some x ∧
        vs = [x.value]) ∧
      (s₀.numLayers = 0 → vs = []) := by
  obtain ⟨hpub, rfl, -, hL⟩ := reorganize_ok hrun
  obtain ⟨vs, hvs, ⟨rfl, -⟩ | ⟨a, x, hx, -, hanchor, rfl⟩⟩ := hpub.find_anchor hC hN key
  · exact ⟨[], hvs, .inl rfl, fun _ => rfl⟩
  have hxk : x.key ≠ key := by
    obtain ⟨-, rfl⟩ := read_eq_some_iff.mp hx
    exact habs _ (List.getElem_mem _)
  have hr := hanchor.resolve_left hxk
  rw [scanWhile_eq_nil fun y hy => habs y (List.mem_of_mem_take (List.mem_reverse.mp hy)),
    scanWhile_eq_nil fun y hy => habs y (List.mem_of_mem_drop hy)] at hvs
  refine ⟨_, hvs, .inr ⟨a, x, hr, hx, rfl⟩, fun h0 => ?_⟩
  have hN := (read_bounds hx).2
  rw [KAryIndex.findInnerLayers, if_pos (hL ▸ h0), Option.some.injEq, Prod.mk.injEq] at hr
  omega

/-- The absent key `2` of a two-entry snapshot with one layer of fanout `2`. -/
theorem find_absent_key_two_entries :
    KeySorted [(⟨1, 10⟩ : Entry ℕ ℕ), ⟨3, 30⟩] ∧
    [(⟨1, 10⟩ : Entry ℕ ℕ), ⟨3, 30⟩].length < 2 ^ 30 ∧
    (reorganize [(⟨1, 10⟩ : Entry ℕ ℕ), ⟨3, 30⟩]).run ⟨1, 2, le_refl 2, [], 0, 0, []⟩ =
      .ok () ⟨1, 2, le_refl 2, [⟨1, 10⟩, ⟨3, 30⟩], 1, 3, [some 1]⟩ ∧
    (∀ y ∈ [(⟨1, 10⟩ : Entry ℕ ℕ), ⟨3, 30⟩], y.key ≠ 2) ∧
    ∃ vs, (⟨1, 2, le_refl 2, [⟨1, 10⟩, ⟨3, 30⟩], 1, 3, [some 1]⟩ : KAryIndex ℕ ℕ).find 2 =
        some vs ∧
      (vs = [] ∨ ∃ a x, (⟨1, 2, le_refl 2, [⟨1, 10⟩, ⟨3, 30⟩], 1, 3, [some 1]⟩ :
          KAryIndex ℕ ℕ).findInnerLayers 2 = some (a, a) ∧
        read [(⟨1, 10⟩ : Entry ℕ ℕ), ⟨3, 30⟩] a = some x ∧ vs = [x.value]) ∧
      ((⟨1, 2, le_refl 2, [], 0, 0, []⟩ : KAryIndex ℕ ℕ).numLayers = 0 → vs = []) :=
  ⟨by decide, by decide, rfl, by decide, @find_absent_key ℕ ℕ _ ⟨1, 2, le_refl 2, [], 0, 0, []⟩
    ⟨1, 2, le_refl 2, [⟨1, 10⟩, ⟨3, 30⟩], 1, 3, [some 1]⟩ [⟨1, 10⟩, ⟨3, 30⟩] () (by decide)
    (by decide) rfl 2 (by decide)⟩

/-- Keys `1` and `3`, one layer of fanout `2`, and the absent key `2`, strictly between
    `key_min_` and `key_max_`. The descent passes the pivot `1` and ends in the one-entry leaf
    range `(1, 1)`, which `find` takes as a hit: it reports the value `30` of key `3`. -/
theorem find_reports_absent_key :
    KeySorted [(⟨1, 10⟩ : Entry ℕ ℕ), ⟨3, 30⟩] ∧
    (reorganize [(⟨1, 10⟩ : Entry ℕ ℕ), ⟨3, 30⟩]).run ⟨1, 2, le_refl 2, [], 0, 0, []⟩ =
      .ok () ⟨1, 2, le_refl 2, [⟨1, 10⟩, ⟨3, 30⟩], 1, 3, [some 1]⟩ ∧
    (∀ y ∈ [(⟨1, 10⟩ : Entry ℕ ℕ), ⟨3, 30⟩], y.key ≠ 2) ∧
    (⟨1, 2, le_refl 2, [⟨1, 10⟩, ⟨3, 30⟩], 1, 3, [some 1]⟩ : KAryIndex ℕ ℕ).findInnerLayers 2 =
      some (1, 1) ∧
    (⟨1, 2, le_refl 2, [⟨1, 10⟩, ⟨3, 30⟩], 1, 3, [some 1]⟩ : KAryIndex ℕ ℕ).find 2 =
      some [30] :=
  ⟨by decide, rfl, by decide, rfl, rfl⟩

end StaticIndex
