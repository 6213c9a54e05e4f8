import StaticIndex.Native.Snapshot

/-!
# Reads and scans of a key-sorted snapshot

`read` characterised by positions, key monotonicity along positions in a `KeySorted`
snapshot, and the two duplicate scans of `find`: on a sorted snapshot, scanning out of the
run of equal keys from inside it emits exactly that run (`scanWhile_eq_filter`).
-/

namespace StaticIndex

variable {K V : Type}

/-- `read` succeeds exactly at the positions of `[0, size_)`. -/
theorem read_eq_some_iff {α : Type} {C : List α} {p : Int} {x : α} :
    read C p = some x ↔ ∃ h : 0 ≤ p ∧ p.toNat < C.length, C[p.toNat] = x := by
  unfold read
  split
  · simp only [reduceCtorEq, false_iff, not_exists]; omega
  · rw [List.getElem?_eq_some_iff]
    exact ⟨fun ⟨h, hx⟩ => ⟨⟨by omega, h⟩, hx⟩, fun ⟨h, hx⟩ => ⟨h.2, hx⟩⟩

/-- A position of `[0, size_)` can be read. -/
theorem read_exists {α : Type} {C : List α} {p : Int} (h0 : 0 ≤ p) (hp : p < C.length) :
    ∃ x, read C p = some x :=
  ⟨C[p.toNat], read_eq_some_iff.mpr ⟨⟨h0, by omega⟩, rfl⟩⟩

/-- A successful read is at a position of `[0, size_)`. -/
theorem read_bounds {α : Type} {C : List α} {p : Int} {x : α} (h : read C p = some x) :
    0 ≤ p ∧ p < C.length := by
  obtain ⟨⟨h0, hp⟩, -⟩ := read_eq_some_iff.mp h; omega

/-- Two snapshots of the same length that agree on `[0, size_)` read the same everywhere. -/
theorem read_congr {α : Type} {C C' : List α} (hlen : C'.length = C.length) {p : Int}
    (h : 0 ≤ p → p < C.length → read C' p = read C p) : read C' p = read C p := by
  by_cases hp : 0 ≤ p ∧ p < C.length
  · exact h hp.1 hp.2
  · simp only [read]; split
    · rfl
    · rw [List.getElem?_eq_none (by omega), List.getElem?_eq_none (by omega)]

/-- `container_[p]` for a position `p < size_`. -/
theorem read_natCast {α : Type} {C : List α} {p : Nat} (hp : p < C.length) :
    read C p = some C[p] := by
  simp only [read, if_neg (show ¬(p : Int) < 0 by omega)]
  simp [hp]

/-- `key` occurs at some position of `[lo, hi]`. -/
def KeyIn (C : List (Entry K V)) (key : K) (lo hi : Int) : Prop :=
  ∃ p x, lo ≤ p ∧ p ≤ hi ∧ read C p = some x ∧ x.key = key

theorem KeyIn.mono {C : List (Entry K V)} {key : K} {lo hi lo' hi' : Int}
    (h : KeyIn C key lo' hi') (hlo : lo ≤ lo') (hhi : hi' ≤ hi) : KeyIn C key lo hi :=
  let ⟨p, x, h1, h2, hx, hk⟩ := h
  ⟨p, x, by omega, by omega, hx, hk⟩

/-- Over the whole snapshot, `KeyIn` is membership of an entry with that key. -/
theorem keyIn_iff_mem {C : List (Entry K V)} {key : K} :
    KeyIn C key 0 (C.length - 1) ↔ ∃ y ∈ C, y.key = key := by
  constructor
  · rintro ⟨p, y, -, -, hy, rfl⟩
    obtain ⟨⟨-, hp⟩, rfl⟩ := read_eq_some_iff.mp hy
    exact ⟨_, List.getElem_mem hp, rfl⟩
  · rintro ⟨y, hy, rfl⟩
    obtain ⟨p, hp, rfl⟩ := List.getElem_of_mem hy
    exact ⟨p, _, by omega, by omega, read_natCast hp, rfl⟩

section Sorted

variable [LinearOrder K] {C : List (Entry K V)}

/-- Keys do not decrease along the positions of a key-sorted snapshot. -/
theorem KeySorted.key_le (hC : KeySorted C) {p q : Int} {x y : Entry K V}
    (hp : read C p = some x) (hq : read C q = some y) (hpq : p ≤ q) : x.key ≤ y.key := by
  obtain ⟨⟨hp0, hpl⟩, rfl⟩ := read_eq_some_iff.mp hp
  obtain ⟨⟨hq0, hql⟩, rfl⟩ := read_eq_some_iff.mp hq
  rcases (show p.toNat < q.toNat ∨ p.toNat = q.toNat by omega) with h | h
  · exact List.pairwise_iff_getElem.mp hC _ _ hpl hql h
  · simp only [h, le_refl]

/-- In a key-sorted snapshot, an occurrence of `key` lies after every position whose key is
    smaller. -/
theorem KeySorted.lt_of_key_lt (hC : KeySorted C) {p q : Int} {x y : Entry K V} {key : K}
    (hp : read C p = some x) (hlt : x.key < key) (hq : read C q = some y) (hy : y.key = key) :
    p < q :=
  Int.not_le.mp fun h => absurd (hC.key_le hq hp h) (by rw [hy]; exact not_le.mpr hlt)

/-- In a key-sorted snapshot, an occurrence of `key` lies before every position whose key is
    larger. -/
theorem KeySorted.lt_of_lt_key (hC : KeySorted C) {p q : Int} {x y : Entry K V} {key : K}
    (hp : read C p = some x) (hlt : key < x.key) (hq : read C q = some y) (hy : y.key = key) :
    q < p :=
  Int.not_le.mp fun h => absurd (hC.key_le hp hq h) (by rw [hy]; exact not_le.mpr hlt)

/-! ## The duplicate scans -/

/-- A scan emits every entry of `key` of a list in which no entry of `key` follows one of
    another key. -/
theorem scanWhile_eq_filter {key : K} {l : List (Entry K V)}
    (h : l.Pairwise fun a b => a.key ≠ key → b.key ≠ key) :
    scanWhile key l = (l.filter fun e => e.key = key).map (·.value) := by
  induction l with
  | nil => rfl
  | cons x xs ih =>
    rw [List.pairwise_cons] at h
    by_cases hx : x.key = key
    · simpa [scanWhile, hx] using ih h.2
    · have : xs.filter (fun e => e.key = key) = [] :=
        List.filter_eq_nil_iff.mpr fun y hy => by simpa using h.1 y hy hx
      simp [scanWhile, hx, this]

@[simp] theorem scanWhile_nil {key : K} : scanWhile key ([] : List (Entry K V)) = [] := rfl

/-- A scan over entries that all hold `key` emits all their values. -/
theorem scanWhile_of_forall {key : K} {l : List (Entry K V)} (h : ∀ y ∈ l, y.key = key) :
    scanWhile key l = l.map (·.value) := by
  rw [scanWhile, List.takeWhile_eq_self_iff.mpr fun y hy => decide_eq_true (h y hy)]

/-- A scan over entries none of which holds `key` emits nothing. -/
theorem scanWhile_eq_nil {key : K} {l : List (Entry K V)} (h : ∀ y ∈ l, y.key ≠ key) :
    scanWhile key l = [] := by
  cases l with
  | nil => rfl
  | cons x xs => simp [scanWhile, h x (List.mem_cons_self x xs)]

/-- Split a key-sorted snapshot as `P ++ x :: R` at an anchor `x` that holds `key`, or in a
    snapshot without `key`. Scanning left from the anchor emits the entries of `key` in `P`
    from nearest to farthest. Scanning right emits those in `R` in position order. -/
theorem KeySorted.scanWhile_anchor (hC : KeySorted C) {P R : List (Entry K V)} {x : Entry K V}
    {key : K} (hsplit : C = P ++ x :: R) (hx : x.key = key ∨ ∀ y ∈ C, y.key ≠ key) :
    scanWhile key P.reverse = ((P.filter fun e => e.key = key).reverse).map (·.value) ∧
    scanWhile key R = (R.filter fun e => e.key = key).map (·.value) := by
  subst hsplit
  obtain ⟨hP, hxR, hPxR⟩ := List.pairwise_append.mp hC
  obtain ⟨hxR', hR⟩ := List.pairwise_cons.mp hxR
  constructor
  · rw [scanWhile_eq_filter, List.filter_reverse]
    refine List.pairwise_reverse.mpr (hP.imp_of_mem fun {a b} ha hb hab hbk hak => ?_)
    rcases hx with hx | hall
    · exact hbk (le_antisymm (hx ▸ hPxR b hb x (List.mem_cons_self x R)) (hak ▸ hab))
    · exact hall a (List.mem_append_left _ ha) hak
  · refine scanWhile_eq_filter (hR.imp_of_mem fun {a b} ha hb hab hak hbk => ?_)
    rcases hx with hx | hall
    · exact hak (le_antisymm (hbk ▸ hab) (hx ▸ hxR' a ha))
    · exact hall b (List.mem_append_right _ (List.mem_cons_of_mem x hb)) hbk

end Sorted

end StaticIndex
