import StaticIndex.Spec.Snapshot
import StaticIndex.Native.KAryIndex

/-!
# `reorganize`

`reorganize` runs `base_reorganize` first, which installs the new snapshot as `container_`,
and only then checks `k_^num_layers_ - 1 < size_`. `reorganize_run` says what one call does
in each case. A successful call leaves a `Published` state: the layer check holds and
`key_min_`, `key_max_` and `inner_nodes_` are computed from the installed snapshot. A
rejected call keeps the new `container_` beside the previous `key_min_`, `key_max_` and
`inner_nodes_` (`reorganize_rejected`).

The model checks the exact `k^L`. The code computes `std::pow(k_, num_layers_) - 1` as a
`double` and converts it to `size_t`. That conversion is exact while `k^L ≤ 2^53`, and the
statements about rejected rebuilds assume this.
-/

namespace StaticIndex

variable {K V : Type}

/-- What one call of `reorganize` does, in both outcomes of the layer check. -/
theorem reorganize_run (s : KAryIndex K V) (C : List (Entry K V)) :
    (reorganize C).run s = if h : s.k ^ s.numLayers - 1 < C.length then
      .ok () { s with
        container := C
        keyMin := C[0].key
        keyMax := C[C.length - 1].key
        innerNodes := if s.numLayers ≠ 0 then (s.baseReorganize C).constructInnerLayers else [] }
      else .error "exceed maximum layers" (s.baseReorganize C) := by
  simp only [reorganize, EStateM.run, bind, EStateM.bind, modify, modifyGet,
    MonadStateOf.modifyGet, EStateM.modifyGet, get, getThe, MonadStateOf.get, EStateM.get, set,
    EStateM.set, throw, throwThe, MonadExceptOf.throw, EStateM.throw, KAryIndex.baseReorganize]
  split <;> rfl

/-- The states a successful `reorganize` leaves: the layer check holds, `key_min_` and
    `key_max_` are the keys of the first and last entries, and `inner_nodes_` is what
    `construct_inner_layers` builds (`nullptr`, modelled as `[]`, without inner layers). -/
structure KAryIndex.Published (s : KAryIndex K V) : Prop where
  fits : s.k ^ s.numLayers - 1 < s.container.length
  keyMin_eq : ∃ x, read s.container 0 = some x ∧ x.key = s.keyMin
  keyMax_eq : ∃ x, read s.container (s.container.length - 1) = some x ∧ x.key = s.keyMax
  innerNodes_eq : s.innerNodes = if s.numLayers ≠ 0 then s.constructInnerLayers else []

/-- A successful `reorganize` installs the snapshot and leaves a `Published` state with the
    same configuration. -/
theorem reorganize_ok {s s' : KAryIndex K V} {C : List (Entry K V)} {u : Unit}
    (h : (reorganize C).run s = .ok u s') :
    s'.Published ∧ s'.container = C ∧ s'.k = s.k ∧ s'.numLayers = s.numLayers := by
  rw [reorganize_run] at h
  split at h
  · rename_i hfits
    cases h
    refine ⟨⟨hfits, ⟨C[0], ?_, rfl⟩, ⟨C[C.length - 1], ?_, rfl⟩, rfl⟩, rfl, rfl, rfl⟩ <;>
      dsimp only <;> rw [read_eq_some_iff]
    · exact ⟨⟨Int.le_refl 0, by simp only [Int.toNat_zero]; omega⟩, rfl⟩
    · exact ⟨⟨by omega, by omega⟩, by congr 1; omega⟩
  · cases h

/-- The error branch of `reorganize_run`: the model's check rejects a snapshot with
    `size_ ≤ k_^num_layers_ - 1` after installing it. -/
theorem reorganize_error_of_le (s : KAryIndex K V) {C : List (Entry K V)}
    (h : C.length ≤ s.k ^ s.numLayers - 1) :
    (reorganize C).run s = .error "exceed maximum layers" { s with container := C } := by
  rw [reorganize_run, dif_neg (by omega)]
  rfl

/-- A `reorganize` whose layer check fails, for every prior state and every snapshot with
    `size_ ≤ k_^num_layers_ - 1`, while `k_^num_layers_ ≤ 2^53`, where the code's `double`
    `std::pow(k_, num_layers_) - 1` converts to `size_t` exactly: the error leaves
    `container_` (and so `size_`) replaced by the new snapshot, and `key_min_`, `key_max_`,
    `inner_nodes_`, `num_layers_` and `k_` as they were. -/
theorem reorganize_rejected (s : KAryIndex K V) (C : List (Entry K V))
    (h : C.length ≤ s.k ^ s.numLayers - 1) : s.k ^ s.numLayers ≤ 2 ^ 53 →
    (reorganize C).run s = .error "exceed maximum layers" { s with container := C } :=
  fun _ => reorganize_error_of_le s h

/-- An empty snapshot is rejected with one layer of fanout `2`. -/
theorem reorganize_rejected_empty :
    ([] : List (Entry ℕ ℕ)).length ≤ 2 ^ 1 - 1 ∧ 2 ^ 1 ≤ 2 ^ 53 ∧
    (reorganize ([] : List (Entry ℕ ℕ))).run ⟨1, 2, le_refl 2, [⟨1, 1⟩, ⟨2, 2⟩], 1, 2, [some 1]⟩ =
      .error "exceed maximum layers" ⟨1, 2, le_refl 2, [], 1, 2, [some 1]⟩ :=
  ⟨by decide, by decide, reorganize_rejected ⟨1, 2, le_refl 2, [⟨1, 1⟩, ⟨2, 2⟩], 1, 2, [some 1]⟩ []
    (by decide) (by decide)⟩

/-- After a successful rebuild on keys `1, 2`, a rebuild on the empty snapshot fails its check
    but has replaced `container_`: the state changed, and `find(1)` no longer answers from the
    previous snapshot. -/
theorem reorganize_rejected_changes_state :
    (reorganize [(⟨1, 1⟩ : Entry ℕ ℕ), ⟨2, 2⟩]).run ⟨1, 2, le_refl 2, [], 0, 0, []⟩ =
      .ok () ⟨1, 2, le_refl 2, [⟨1, 1⟩, ⟨2, 2⟩], 1, 2, [some 1]⟩ ∧
    (reorganize ([] : List (Entry ℕ ℕ))).run ⟨1, 2, le_refl 2, [⟨1, 1⟩, ⟨2, 2⟩], 1, 2, [some 1]⟩ =
      .error "exceed maximum layers" ⟨1, 2, le_refl 2, [], 1, 2, [some 1]⟩ ∧
    (⟨1, 2, le_refl 2, [⟨1, 1⟩, ⟨2, 2⟩], 1, 2, [some 1]⟩ : KAryIndex ℕ ℕ).find 1 = some [1] ∧
    (⟨1, 2, le_refl 2, [], 1, 2, [some 1]⟩ : KAryIndex ℕ ℕ).find 1 = some [] :=
  ⟨rfl, rfl, rfl, rfl⟩

end StaticIndex
