import StaticIndex.Spec.BinarySearch
import StaticIndex.Spec.Reorganize

/-!
# Positions as C++ `int`s

The model computes positions as mathematical integers; the code computes them as `int`s.
`find_internal` forms `offset_begin + offset_end` before halving it, so the sum, not only the
positions, must fit in an `int`; `findInternal` gives `none` when it does not. This module
follows the calls that one call of `find_internal` leads to (`FindInternalReach`), bounds the
ranges they work on, and shows a snapshot of `INT_MAX` entries on which the sum overflows.

## Key results

- `findInternal_of_next`: a call that recurses returns what the call `findInternalNext` names
  returns, so every reached range is a call of the recursion.
- `FindInternalReach.shrinks`: along every run, ranges only shrink.
- `findInternal_sums_fit`: from a range inside `[0, size_]` with `size_ < 2^30`, every sum
  `offset_begin + offset_end` formed lies in `[0, 2^31 - 1]`.
- `identitySnapshot_find_path`: on keys `0, …, n - 1` without inner layers, `find` on the last
  key calls `find_internal(key, 0, n)`, which continues on `[n / 2 + 1, n]`.
- `find_midpoint_sum_exceeds_int`: with `2^31 - 1` entries and no inner layers, `find` calls
  `find_internal(key, 0, size_)`, which reaches the call on `[2^30, 2^31 - 1]`, whose sum
  exceeds `INT_MAX`.
- `find_misses_key_int_max`, `find_undefined_int_max`: so `find` on that key yields no values
  at all: the key it should find is there, and the lookup is undefined behaviour.
-/

namespace StaticIndex

variable {K V : Type} [LinearOrder K]

/-- The arguments of the recursive call that `find_internal(key, offset_begin, offset_end)`
    makes; `none` when it returns without recursing (or overflows, or reads out of bounds). -/
def findInternalNext (C : List (Entry K V)) (key : K) (offsetBegin offsetEnd : Int) :
    Option (Int × Int) :=
  if offsetEnd < offsetBegin then none
  else if IntOverflows (offsetBegin + offsetEnd) then none else do
    let offsetLookup := (offsetBegin + offsetEnd).tdiv 2
    let e ← read C offsetLookup
    if key = e.key then none
    else if e.key < key then some (offsetLookup + 1, offsetEnd)
    else some (offsetBegin, offsetLookup - 1)

/-- The calls that a call of `find_internal` on the range `r` leads to, itself included. -/
def FindInternalReach (C : List (Entry K V)) (key : K) : Int × Int → Int × Int → Prop :=
  Relation.ReflTransGen fun r r' => findInternalNext C key r.1 r.2 = some r'

variable {C : List (Entry K V)} {key : K}

/-- The shape of a call that recurses: a nonempty range whose sum fits, and a readable midpoint
    that does not hold `key`. -/
theorem findInternalNext_eq_some {lo hi : Int} {r : Int × Int}
    (h : findInternalNext C key lo hi = some r) :
    ∃ x, ¬hi < lo ∧ ¬IntOverflows (lo + hi) ∧ read C ((lo + hi).tdiv 2) = some x ∧
      key ≠ x.key ∧
      r = if x.key < key then ((lo + hi).tdiv 2 + 1, hi) else (lo, (lo + hi).tdiv 2 - 1) := by
  unfold findInternalNext at h
  split_ifs at h with hlt ho
  obtain ⟨x, hx, h⟩ := Option.bind_eq_some.mp h
  refine ⟨x, hlt, ho, hx, ?_⟩
  split_ifs at h with heq hless <;> cases h
  · exact ⟨heq, (if_pos hless).symm⟩
  · exact ⟨heq, (if_neg hless).symm⟩

/-- A call that recurses returns what the next call returns. -/
theorem findInternal_of_next {lo hi : Int} {r : Int × Int}
    (h : findInternalNext C key lo hi = some r) :
    findInternal C key lo hi = findInternal C key r.1 r.2 := by
  obtain ⟨x, hlt, ho, hx, hne, rfl⟩ := findInternalNext_eq_some h
  rw [findInternal_of_read hlt ho hx, if_neg hne]
  split_ifs <;> rfl

/-- Every call reached returns what the first call returns. -/
theorem FindInternalReach.findInternal_eq {r r' : Int × Int} (h : FindInternalReach C key r r') :
    findInternal C key r.1 r.2 = findInternal C key r'.1 r'.2 := by
  induction h with
  | refl => rfl
  | tail _ hstep ih => exact ih.trans (findInternal_of_next hstep)

/-- One recursive call works inside the range of its caller. -/
theorem findInternalNext_shrinks {lo hi : Int} {r : Int × Int}
    (h : findInternalNext C key lo hi = some r) : lo ≤ r.1 ∧ r.2 ≤ hi := by
  obtain ⟨x, hlt, -, -, -, rfl⟩ := findInternalNext_eq_some h
  have := midpoint_mem (Int.not_lt.mp hlt)
  split_ifs <;> constructor <;> dsimp only <;> omega

/-- Along every run of `find_internal`, ranges only shrink. -/
theorem FindInternalReach.shrinks {r r' : Int × Int} (h : FindInternalReach C key r r') :
    r.1 ≤ r'.1 ∧ r'.2 ≤ r.2 := by
  induction h with
  | refl => exact ⟨Int.le_refl _, Int.le_refl _⟩
  | tail _ hstep ih =>
    have := findInternalNext_shrinks hstep
    omega

/-- From a range inside `[0, size_]` of a snapshot of fewer than `2^30` entries, every call
    reached that forms `offset_begin + offset_end` (its range is nonempty) forms a sum in
    `[0, 2^31 - 1]`: it fits in an `int`. -/
theorem findInternal_sums_fit {lo hi lo' hi' : Int} (hlo : 0 ≤ lo) (hhi : hi ≤ C.length)
    (hN : C.length < 2 ^ 30) (h : FindInternalReach C key (lo, hi) (lo', hi'))
    (hle : lo' ≤ hi') : 0 ≤ lo' + hi' ∧ lo' + hi' ≤ 2 ^ 31 - 1 := by
  have := h.shrinks
  dsimp only at this
  omega

/-- The call `find_internal(3, 0, 3)` on keys `1, 2, 3` reaches the range `[2, 3]`. -/
theorem findInternal_sums_fit_three :
    (0 : Int) ≤ 0 ∧ (3 : Int) ≤ ([(⟨1, 1⟩ : Entry ℕ ℕ), ⟨2, 2⟩, ⟨3, 3⟩].length : Int) ∧
    [(⟨1, 1⟩ : Entry ℕ ℕ), ⟨2, 2⟩, ⟨3, 3⟩].length < 2 ^ 30 ∧
    FindInternalReach [(⟨1, 1⟩ : Entry ℕ ℕ), ⟨2, 2⟩, ⟨3, 3⟩] 3 (0, 3) (2, 3) ∧ (2 : Int) ≤ 3 ∧
    (0 ≤ (2 : Int) + 3 ∧ (2 : Int) + 3 ≤ 2 ^ 31 - 1) :=
  have hreach : FindInternalReach [(⟨1, 1⟩ : Entry ℕ ℕ), ⟨2, 2⟩, ⟨3, 3⟩] 3 (0, 3) (2, 3) :=
    .single rfl
  ⟨by decide, by decide, by decide, hreach, by decide,
    findInternal_sums_fit (by decide) (by decide) (by decide) hreach (by decide)⟩

/-- Past its range checks, `find` continues from the result of `find_internal` on the range
    `find_inner_layers` returned, when that range has two different ends. -/
theorem KAryIndex.find_eq_bind_findInternal {s : KAryIndex K V} {lo hi : Int}
    (h0 : s.container.length ≠ 0) (hin : ¬(s.keyMax < key ∨ key < s.keyMin))
    (hne : s.keyMax ≠ s.keyMin) (hr : s.findInnerLayers key = some (lo, hi)) (hlh : lo ≠ hi) :
    ∃ g, s.find key = (findInternal s.container key lo hi).bind g := by
  unfold KAryIndex.find
  rw [if_neg h0, if_neg hin, if_neg hne]
  simp only [hr, Option.bind_eq_bind, Option.some_bind, if_neg hlh]
  exact ⟨_, rfl⟩

/-! ## A snapshot at the `int` limit -/

/-- The snapshot of keys `0, …, n - 1`, each stored with itself as its value. -/
def identitySnapshot (n : Nat) : List (Entry ℕ ℕ) :=
  (List.range n).map fun i => ⟨i, i⟩

@[simp] theorem identitySnapshot_length (n : Nat) : (identitySnapshot n).length = n := by
  simp [identitySnapshot]

theorem identitySnapshot_sorted (n : Nat) : KeySorted (identitySnapshot n) :=
  List.pairwise_map.mpr ((List.pairwise_lt_range n).imp Nat.le_of_lt)

theorem read_identitySnapshot {n p : Nat} (hp : p < n) :
    read (identitySnapshot n) p = some ⟨p, p⟩ := by
  rw [read_natCast (by simpa using hp)]
  simp [identitySnapshot]

/-- On keys `0, …, n - 1` with `3 ≤ n ≤ INT_MAX`, the search for the last key from `[0, n]`
    compares with the key at `n / 2` and continues on `[n / 2 + 1, n]`. -/
theorem findInternalNext_identitySnapshot {n : Nat} (hn : 3 ≤ n) (hN : n ≤ 2 ^ 31 - 1) :
    findInternalNext (identitySnapshot n) (n - 1) 0 n =
      some (((n / 2 : Nat) : Int) + 1, (n : Int)) := by
  have hmid : (0 + (n : Int)).tdiv 2 = ((n / 2 : Nat) : Int) := by rw [Int.zero_add]; rfl
  unfold findInternalNext
  rw [if_neg (by omega), if_neg (by unfold IntOverflows; omega)]
  simp only [hmid, read_identitySnapshot (by omega : n / 2 < n), Option.bind_eq_bind,
    Option.some_bind]
  rw [if_neg (by omega : n - 1 ≠ n / 2), if_pos (by omega : n / 2 < n - 1)]

/-- On keys `0, …, n - 1` with `3 ≤ n ≤ INT_MAX` and no inner layers, `reorganize` accepts the
    snapshot, and `find` on the last key passes its range checks and calls
    `find_internal(key, 0, n)`. That call continues on `[n / 2 + 1, n]`. -/
theorem identitySnapshot_find_path {n : Nat} (hn : 3 ≤ n) (hN : n ≤ 2 ^ 31 - 1) :
    (reorganize (identitySnapshot n)).run ⟨0, 2, le_refl 2, [], 0, 0, []⟩ =
      .ok () ⟨0, 2, le_refl 2, identitySnapshot n, 0, n - 1, []⟩ ∧
    (∃ g, (⟨0, 2, le_refl 2, identitySnapshot n, 0, n - 1, []⟩ : KAryIndex ℕ ℕ).find (n - 1) =
      (findInternal (identitySnapshot n) (n - 1) 0 n).bind g) ∧
    FindInternalReach (identitySnapshot n) (n - 1) (0, n) (((n / 2 : Nat) : Int) + 1, n) := by
  refine ⟨?_, KAryIndex.find_eq_bind_findInternal (by simp; omega) (by simp)
    (by simp; omega) (by simp [KAryIndex.findInnerLayers]) (by omega),
    .single (findInternalNext_identitySnapshot hn hN)⟩
  rw [reorganize_run, dif_pos (by simp; omega)]
  simp [identitySnapshot]

/-- `2^31 - 1 = INT_MAX` entries with keys `0, …, 2^31 - 2`, no inner layers, and the last key.
    `reorganize` accepts the snapshot, and `find` passes its range checks and calls
    `find_internal(key, 0, size_)`. That call continues on `[2^30, 2^31 - 1]`, where
    `offset_begin + offset_end = 2^30 + 2^31 - 1` exceeds `INT_MAX`. -/
theorem find_midpoint_sum_exceeds_int :
    KeySorted (identitySnapshot (2 ^ 31 - 1)) ∧
    (reorganize (identitySnapshot (2 ^ 31 - 1))).run ⟨0, 2, le_refl 2, [], 0, 0, []⟩ =
      .ok () ⟨0, 2, le_refl 2, identitySnapshot (2 ^ 31 - 1), 0, 2 ^ 31 - 2, []⟩ ∧
    (∃ g, (⟨0, 2, le_refl 2, identitySnapshot (2 ^ 31 - 1), 0, 2 ^ 31 - 2, []⟩ :
        KAryIndex ℕ ℕ).find (2 ^ 31 - 2) =
      (findInternal (identitySnapshot (2 ^ 31 - 1)) (2 ^ 31 - 2) 0 (2 ^ 31 - 1)).bind g) ∧
    FindInternalReach (identitySnapshot (2 ^ 31 - 1)) (2 ^ 31 - 2) (0, 2 ^ 31 - 1)
      (2 ^ 30, 2 ^ 31 - 1) ∧
    findInternal (identitySnapshot (2 ^ 31 - 1)) (2 ^ 31 - 2) 0 (2 ^ 31 - 1) =
      findInternal (identitySnapshot (2 ^ 31 - 1)) (2 ^ 31 - 2) (2 ^ 30) (2 ^ 31 - 1) ∧
    (2 ^ 31 - 1 : Int) < 2 ^ 30 + (2 ^ 31 - 1) := by
  obtain ⟨hrun, hfind, hreach⟩ :=
    identitySnapshot_find_path (n := 2 ^ 31 - 1) (by decide) (by decide)
  exact ⟨identitySnapshot_sorted _, hrun, hfind, hreach, hreach.findInternal_eq, by decide⟩

/-- On the snapshot of `find_midpoint_sum_exceeds_int`, the overflowing call is undefined
    behaviour, so `find` on the last key yields no result. -/
theorem find_identitySnapshot_int_max :
    (⟨0, 2, le_refl 2, identitySnapshot (2 ^ 31 - 1), 0, 2 ^ 31 - 2, []⟩ :
      KAryIndex ℕ ℕ).find (2 ^ 31 - 2) = none := by
  obtain ⟨-, ⟨g, hfind⟩, hreach⟩ :=
    identitySnapshot_find_path (n := 2 ^ 31 - 1) (by decide) (by decide)
  have hnone := hreach.findInternal_eq.trans
    (findInternal_of_overflow (by decide) (by unfold IntOverflows; omega))
  exact hfind.trans (by rw [hnone]; rfl)

/-- The last key `2^31 - 2` occurs in the snapshot of `2^31 - 1` entries, which `reorganize`
    accepts, yet `find` on it yields no values: its search overflows an `int`. -/
theorem find_misses_key_int_max :
    KeySorted (identitySnapshot (2 ^ 31 - 1)) ∧
    (reorganize (identitySnapshot (2 ^ 31 - 1))).run ⟨0, 2, le_refl 2, [], 0, 0, []⟩ =
      .ok () ⟨0, 2, le_refl 2, identitySnapshot (2 ^ 31 - 1), 0, 2 ^ 31 - 2, []⟩ ∧
    (∃ y ∈ identitySnapshot (2 ^ 31 - 1), y.key = 2 ^ 31 - 2) ∧
    (⟨0, 2, le_refl 2, identitySnapshot (2 ^ 31 - 1), 0, 2 ^ 31 - 2, []⟩ :
      KAryIndex ℕ ℕ).find (2 ^ 31 - 2) = none :=
  ⟨identitySnapshot_sorted _,
    (identitySnapshot_find_path (n := 2 ^ 31 - 1) (by decide) (by decide)).1,
    ⟨⟨2 ^ 31 - 2, 2 ^ 31 - 2⟩, List.mem_map.mpr ⟨_, List.mem_range.mpr (by decide), rfl⟩, rfl⟩,
    find_identitySnapshot_int_max⟩

/-- After `reorganize` accepts the snapshot of `2^31 - 1` entries, `find` on its last key is not
    a defined computation: its search forms an `int` sum above `INT_MAX`. -/
theorem find_undefined_int_max :
    KeySorted (identitySnapshot (2 ^ 31 - 1)) ∧
    (reorganize (identitySnapshot (2 ^ 31 - 1))).run ⟨0, 2, le_refl 2, [], 0, 0, []⟩ =
      .ok () ⟨0, 2, le_refl 2, identitySnapshot (2 ^ 31 - 1), 0, 2 ^ 31 - 2, []⟩ ∧
    ((⟨0, 2, le_refl 2, identitySnapshot (2 ^ 31 - 1), 0, 2 ^ 31 - 2, []⟩ :
      KAryIndex ℕ ℕ).find (2 ^ 31 - 2)).isSome = false :=
  ⟨identitySnapshot_sorted _,
    (identitySnapshot_find_path (n := 2 ^ 31 - 1) (by decide) (by decide)).1,
    congrArg Option.isSome find_identitySnapshot_int_max⟩

end StaticIndex
