import StaticIndex.Spec.Snapshot
import StaticIndex.Native.KAryIndex

/-!
# The leaf binary search `find_internal`

`find_internal(key, offset_begin, offset_end)` searches an inclusive range of `container_`.
`find` calls it on a leaf range inside `[0, size_)` and, without inner layers, on
`[0, size_]`, whose end is one past the snapshot; there the guard `key <= key_max_` keeps the
search off position `size_`. Its `int` sum `offset_begin + offset_end` fits while
`size_ < 2^30`, which every result below through it assumes.

## Key results

- `findInternal_congr`: the result depends only on the entries inside the range
- `findInternal_correct`: on a sorted snapshot it finds a position of `key` inside the range
  when there is one and returns `size_` otherwise, reading only inside `[0, size_)`
-/

namespace StaticIndex

variable {K V : Type} [LinearOrder K] {C : List (Entry K V)} {key : K}

/-- The midpoint `(offset_begin + offset_end) / 2` of a nonempty range lies in the range. -/
theorem midpoint_mem {lo hi : Int} (h : lo ≤ hi) :
    lo ≤ (lo + hi).tdiv 2 ∧ (lo + hi).tdiv 2 ≤ hi := by
  have := Int.tdiv_eq_ediv (a := lo + hi) (b := 2)
  have := Int.neg_tdiv (lo + hi) 2
  have := Int.tdiv_eq_ediv (a := -(lo + hi)) (b := 2)
  omega

/-- Inside `[0, n]` with `n < 2^30`, the `int` sum of two ends does not overflow. -/
theorem not_intOverflows_add {lo hi : Int} {n : Nat} (hlo : 0 ≤ lo) (hhi : hi ≤ n)
    (hle : lo ≤ hi) (hN : n < 2 ^ 30) : ¬IntOverflows (lo + hi) := by
  unfold IntOverflows
  omega

theorem findInternal_of_lt {lo hi : Int} (h : hi < lo) :
    findInternal C key lo hi = some (C.length : Int) := by
  rw [findInternal.eq_1, if_pos h]

/-- A nonempty range whose `int` sum overflows: undefined behaviour. -/
theorem findInternal_of_overflow {lo hi : Int} (h : ¬hi < lo) (ho : IntOverflows (lo + hi)) :
    findInternal C key lo hi = none := by
  rw [findInternal.eq_1, if_neg h, if_pos ho]

/-- One step of `find_internal` on a nonempty range whose sum fits and whose midpoint
    reads `x`. -/
theorem findInternal_of_read {lo hi : Int} {x : Entry K V} (h : ¬hi < lo)
    (ho : ¬IntOverflows (lo + hi)) (hx : read C ((lo + hi).tdiv 2) = some x) :
    findInternal C key lo hi =
      if key = x.key then some ((lo + hi).tdiv 2)
      else if x.key < key then findInternal C key ((lo + hi).tdiv 2 + 1) hi
      else findInternal C key lo ((lo + hi).tdiv 2 - 1) := by
  rw [findInternal.eq_1, if_neg h, if_neg ho]
  simp only [hx]
  rfl

/-- `find_internal` reads nothing outside its range: a snapshot of the same length that agrees
    with `C` on `[offset_begin, offset_end] ∩ [0, size_)` gives the same result. -/
theorem findInternal_congr {C' : List (Entry K V)} (hlen : C'.length = C.length) (lo hi : Int)
    (h : ∀ p, lo ≤ p → p ≤ hi → p < C.length → read C' p = read C p) :
    findInternal C' key lo hi = findInternal C key lo hi := by
  induction lo, hi using findInternal.induct C key with
  | case1 lo hi hlt => rw [findInternal_of_lt hlt, findInternal_of_lt hlt, hlen]
  | case2 lo hi hle ho => rw [findInternal_of_overflow hle ho, findInternal_of_overflow hle ho]
  | case3 lo hi hle ho mid ih1 ih2 =>
    have hmid := midpoint_mem (Int.not_lt.mp hle)
    have hread : read C' mid = read C mid := read_congr hlen fun _ hN => h _ hmid.1 hmid.2 hN
    rw [findInternal.eq_1, findInternal.eq_1, if_neg hle, if_neg hle, if_neg ho, if_neg ho]
    simp only [hread]
    rcases read C mid with _ | x
    · rfl
    · simp only [Option.bind_eq_bind, Option.some_bind]
      rw [ih1 fun p h1 h2 => h p (by omega) h2, ih2 fun p h1 h2 => h p h1 (by omega)]

/-- `find_internal` on a sorted snapshot with `size_ < 2^30` and a range `[lo, hi]` with
    `0 ≤ lo`, `hi ≤ size_`, and, when `hi = size_`, `lo ≠ size_` and `key` at most the last key:
    it returns a position of `key` inside the range when there is one, and `size_` otherwise. -/
theorem findInternal_correct (hC : KeySorted C) (hN : C.length < 2 ^ 30) (lo hi : Int)
    (hlo : 0 ≤ lo) (hhi : hi ≤ C.length)
    (hend : hi = C.length → lo ≠ C.length ∧ ∀ x, read C (C.length - 1) = some x → key ≤ x.key) :
    ∃ r, findInternal C key lo hi = some r ∧
      (KeyIn C key lo hi → lo ≤ r ∧ r ≤ hi ∧ ∃ x, read C r = some x ∧ x.key = key) ∧
      (¬KeyIn C key lo hi → r = C.length) := by
  induction lo, hi using findInternal.induct C key with
  | case1 lo hi hlt =>
    exact ⟨_, findInternal_of_lt hlt, fun ⟨p, _, h1, h2, _⟩ => absurd hlt (by omega),
      fun _ => rfl⟩
  | case2 lo hi hle ho => exact absurd ho (not_intOverflows_add hlo hhi (by omega) hN)
  | case3 lo hi hle ho mid ih1 ih2 =>
    have hmid : lo ≤ mid ∧ mid ≤ hi ∧ mid < C.length := by
      have := Int.tdiv_eq_ediv (a := lo + hi) (b := 2) (by omega) (by decide)
      by_cases hN : hi = C.length
      · have := (hend hN).1; omega
      · omega
    obtain ⟨x, hx⟩ := read_exists (C := C) (p := mid) (by omega) hmid.2.2
    rw [findInternal_of_read hle ho hx]
    split_ifs with heq hlt
    · -- the midpoint holds `key`
      exact ⟨mid, rfl, fun _ => ⟨hmid.1, hmid.2.1, x, hx, heq.symm⟩,
        fun hn => absurd ⟨mid, x, hmid.1, hmid.2.1, hx, heq.symm⟩ hn⟩
    · -- search right of the midpoint
      obtain ⟨r, hr, hfound, hnot⟩ := ih1 (by omega) hhi fun hN => ⟨fun h => by
        have hx' : read C (C.length - 1) = some x := by rw [← hx]; congr 1; omega
        exact absurd ((hend hN).2 x hx') (not_le.mpr hlt), (hend hN).2⟩
      refine ⟨r, hr, fun ⟨p, y, h1, h2, hy, hyk⟩ => ?_, fun hn => hnot fun hin =>
        hn (hin.mono (by omega) (Int.le_refl _))⟩
      have := hC.lt_of_key_lt hx hlt hy hyk
      obtain ⟨h3, h4, h5⟩ := hfound ⟨p, y, by omega, h2, hy, hyk⟩
      exact ⟨by omega, h4, h5⟩
    · -- search left of the midpoint
      have hgt : key < x.key := lt_of_le_of_ne (not_lt.mp hlt) heq
      obtain ⟨r, hr, hfound, hnot⟩ := ih2 hlo (by omega) fun hN => absurd hN (by omega)
      refine ⟨r, hr, fun ⟨p, y, h1, h2, hy, hyk⟩ => ?_, fun hn => hnot fun hin =>
        hn (hin.mono (Int.le_refl _) (by omega))⟩
      have := hC.lt_of_lt_key hx hgt hy hyk
      obtain ⟨h3, h4, h5⟩ := hfound ⟨p, y, h1, by omega, hy, hyk⟩
      exact ⟨h3, by omega, h5⟩

/-- `find_internal(key, lo, hi)` on a key-sorted snapshot with `size_ < 2^30`, for `0 ≤ lo`,
    `hi ≤ size_` and, when `hi = size_` (the call without inner layers), `lo ≠ size_` and `key` at
    most the last key: it terminates without overflow or reading out of bounds, its result depends only on the entries of
    `[lo, min(hi, size_ - 1)]`, and it is a position of `key` in `[lo, hi]` when the range holds
    `key`, and `size_` otherwise. -/
theorem findInternal_leaf_search (hC : KeySorted C) (hN : C.length < 2 ^ 30) {lo hi : Int}
    (hlo : 0 ≤ lo) (hhi : hi ≤ C.length)
    (hend : hi = C.length → lo ≠ C.length ∧ ∀ x, read C (C.length - 1) = some x → key ≤ x.key) :
    ∃ r, findInternal C key lo hi = some r ∧
      (∀ C' : List (Entry K V), C'.length = C.length →
        (∀ p, lo ≤ p → p ≤ hi → p < C.length → read C' p = read C p) →
        findInternal C' key lo hi = some r) ∧
      (KeyIn C key lo hi → lo ≤ r ∧ r ≤ hi ∧ ∃ x, read C r = some x ∧ x.key = key) ∧
      (¬KeyIn C key lo hi → r = C.length) := by
  obtain ⟨r, hr, hfound, hnot⟩ := findInternal_correct hC hN lo hi hlo hhi hend
  exact ⟨r, hr, fun C' hlen hagree => (findInternal_congr hlen lo hi hagree).trans hr,
    hfound, hnot⟩

/-- The call without inner layers, `find_internal(key, 0, size_)`, on a three-entry snapshot. -/
theorem findInternal_leaf_search_three :
    KeySorted [(⟨1, 10⟩ : Entry ℕ ℕ), ⟨2, 20⟩, ⟨3, 30⟩] ∧
    [(⟨1, 10⟩ : Entry ℕ ℕ), ⟨2, 20⟩, ⟨3, 30⟩].length < 2 ^ 30 ∧ (0 : Int) ≤ 0 ∧ (3 : Int) ≤ 3 ∧
    ((3 : Int) = 3 → (0 : Int) ≠ 3 ∧
      ∀ x, read [(⟨1, 10⟩ : Entry ℕ ℕ), ⟨2, 20⟩, ⟨3, 30⟩] (3 - 1) = some x → 2 ≤ x.key) ∧
    ∃ r, findInternal [(⟨1, 10⟩ : Entry ℕ ℕ), ⟨2, 20⟩, ⟨3, 30⟩] 2 0 3 = some r ∧
      (∀ C' : List (Entry ℕ ℕ), C'.length = 3 →
        (∀ p, 0 ≤ p → p ≤ 3 → p < 3 → read C' p = read [(⟨1, 10⟩ : Entry ℕ ℕ), ⟨2, 20⟩, ⟨3, 30⟩] p) →
        findInternal C' 2 0 3 = some r) ∧
      (KeyIn [(⟨1, 10⟩ : Entry ℕ ℕ), ⟨2, 20⟩, ⟨3, 30⟩] 2 0 3 → 0 ≤ r ∧ r ≤ 3 ∧
        ∃ x, read [(⟨1, 10⟩ : Entry ℕ ℕ), ⟨2, 20⟩, ⟨3, 30⟩] r = some x ∧ x.key = 2) ∧
      (¬KeyIn [(⟨1, 10⟩ : Entry ℕ ℕ), ⟨2, 20⟩, ⟨3, 30⟩] 2 0 3 → r = 3) := by
  have hend : (3 : Int) = 3 → (0 : Int) ≠ 3 ∧
      ∀ x, read [(⟨1, 10⟩ : Entry ℕ ℕ), ⟨2, 20⟩, ⟨3, 30⟩] (3 - 1) = some x → 2 ≤ x.key :=
    fun _ => ⟨by decide, fun x hx => by cases hx; decide⟩
  exact ⟨by decide, by decide, by decide, by decide, hend,
    findInternal_leaf_search (C := [(⟨1, 10⟩ : Entry ℕ ℕ), ⟨2, 20⟩, ⟨3, 30⟩])
      (by decide) (by decide) (by decide) (by decide) hend⟩

/-- `find_internal(key, size_, size_)` satisfies `0 ≤ lo`, `hi ≤ size_` and `key ≤` the last
    key, yet reads `container_[size_]`: on a one-entry snapshot it reads out of bounds. -/
theorem findInternal_reads_size :
    KeySorted [(⟨0, 0⟩ : Entry ℕ ℕ)] ∧ read [(⟨0, 0⟩ : Entry ℕ ℕ)] 0 = some ⟨0, 0⟩ ∧
      findInternal [(⟨0, 0⟩ : Entry ℕ ℕ)] 0 1 1 = none :=
  ⟨by decide, rfl, by rw [findInternal.eq_1]; rfl⟩

end StaticIndex
