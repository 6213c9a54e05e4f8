import StaticIndex.Native.Lifetime
import StaticIndex.Spec.Construct
import StaticIndex.Spec.Reorganize

/-!
# What the index does with its heap arrays

Each rebuild whose layer check passes, with inner layers, allocates a new array for
`inner_nodes_` and points the pointer at it; the array it pointed at before is neither freed
nor reachable any more. The destructor frees only the array the pointer holds at the end.
So over the whole life of an index with `L ≠ 0` whose rebuilds pass their check `n` times,
`n` arrays are allocated and `n - 1` of them are never freed; with `n = 0` the destructor
passes the uninitialised pointer to `delete[]`.

`Lifetime.rebuild_heap` says what one rebuild does to the heap, `Lifetime.rebuildAll_heap`
what a whole sequence of rebuilds does, and `Lifetime.destroy_after_rebuilds` what is left
after the destructor.

## Key results

- `Lifetime.rebuild_heap`: one rebuild keeps `k_` and `num_layers_`, and allocates exactly when
  its check passes and `L ≠ 0`.
- `Lifetime.rebuildAll_heap`: after any sequence of rebuilds with `L ≠ 0`, the pointer holds the
  array of the last accepted rebuild and every array allocated is still allocated.
- `Lifetime.destroy_after_rebuilds`: from construction, through any sequence of rebuilds, to the
  destructor: the arrays of all accepted rebuilds but the last stay allocated.
-/

namespace StaticIndex

variable {K V : Type}

/-- The number of snapshots of `Cs` that pass the layer check `k^L - 1 < size_`. -/
def accepted (k L : Nat) (Cs : List (List (Entry K V))) : Nat :=
  (Cs.filter fun C => k ^ L - 1 < C.length).length

@[simp] theorem accepted_nil (k L : Nat) : accepted k L ([] : List (List (Entry K V))) = 0 := rfl

theorem accepted_cons (k L : Nat) (C : List (Entry K V)) (Cs : List (List (Entry K V))) :
    accepted k L (C :: Cs) = (if k ^ L - 1 < C.length then 1 else 0) + accepted k L Cs := by
  simp only [accepted, List.filter_cons, decide_eq_true_eq]
  split <;> simp [Nat.add_comm]

@[simp] theorem Lifetime.rebuildAll_nil (t : Lifetime K V) : t.rebuildAll [] = t := rfl

@[simp] theorem Lifetime.rebuildAll_cons (t : Lifetime K V) (C : List (Entry K V))
    (Cs : List (List (Entry K V))) : t.rebuildAll (C :: Cs) = (t.rebuild C).rebuildAll Cs := rfl

/-- One rebuild keeps `k_` and `num_layers_`. When its layer check passes it allocates the next
    array and points `inner_nodes_` at it if `L ≠ 0`, and sets `nullptr` otherwise; either way
    it frees nothing. When the check fails the pointer and the heap are as they were. -/
theorem Lifetime.rebuild_heap (t : Lifetime K V) (C : List (Entry K V)) :
    (t.rebuild C).index.k = t.index.k ∧ (t.rebuild C).index.numLayers = t.index.numLayers ∧
    ((t.rebuild C).ptr, (t.rebuild C).live, (t.rebuild C).allocs) =
      if t.index.k ^ t.index.numLayers - 1 < C.length then
        if t.index.numLayers ≠ 0 then (.array t.allocs, t.allocs :: t.live, t.allocs + 1)
        else (.null, t.live, t.allocs)
      else (t.ptr, t.live, t.allocs) := by
  have hrun := reorganize_run t.index C
  simp only [EStateM.run] at hrun
  simp only [Lifetime.rebuild, Lifetime.reorganize, EStateM.run, hrun]
  by_cases h : t.index.k ^ t.index.numLayers - 1 < C.length
  · rw [dif_pos h, if_pos h]
    by_cases hL : t.index.numLayers = 0 <;> simp [hL]
  · rw [dif_neg h, if_neg h]
    exact ⟨rfl, rfl, rfl⟩

/-- Rebuilds keep `k_` and `num_layers_`. -/
theorem Lifetime.rebuildAll_config (t : Lifetime K V) (Cs : List (List (Entry K V))) :
    (t.rebuildAll Cs).index.k = t.index.k ∧
      (t.rebuildAll Cs).index.numLayers = t.index.numLayers := by
  induction Cs generalizing t with
  | nil => exact ⟨rfl, rfl⟩
  | cons C Cs ih =>
    obtain ⟨hk, hL, -⟩ := t.rebuild_heap C
    obtain ⟨hk', hL'⟩ := ih (t.rebuild C)
    exact ⟨hk'.trans hk, hL'.trans hL⟩

/-- Without inner layers no rebuild allocates or frees, and after the first accepted rebuild
    `inner_nodes_` is `nullptr`. -/
theorem Lifetime.rebuildAll_heap_of_zero (t : Lifetime K V) (Cs : List (List (Entry K V)))
    (hL : t.index.numLayers = 0) :
    (t.rebuildAll Cs).live = t.live ∧
      (t.rebuildAll Cs).ptr = if accepted t.index.k t.index.numLayers Cs = 0 then t.ptr
        else .null := by
  induction Cs generalizing t with
  | nil => exact ⟨rfl, rfl⟩
  | cons C Cs ih =>
    obtain ⟨hk, hL', hheap⟩ := t.rebuild_heap C
    obtain ⟨hlive, hptr⟩ := ih _ (hL'.trans hL)
    rw [hk, hL'] at hptr
    rw [Lifetime.rebuildAll_cons, hlive, hptr, accepted_cons]
    rw [if_neg (not_not.mpr hL)] at hheap
    generalize accepted t.index.k t.index.numLayers Cs = n
    split_ifs at hheap with hacc <;> simp only [Prod.mk.injEq] at hheap <;> simp [hheap, hacc]

/-- With inner layers, after any sequence of rebuilds of which `n` pass their check: `n` arrays
    have been allocated, none freed, and the pointer holds the last of them (or what it held
    before, when `n = 0`). -/
theorem Lifetime.rebuildAll_heap (t : Lifetime K V) (Cs : List (List (Entry K V)))
    (hL : t.index.numLayers ≠ 0) :
    (t.rebuildAll Cs).allocs = t.allocs + accepted t.index.k t.index.numLayers Cs ∧
    (t.rebuildAll Cs).live =
      (List.range' t.allocs (accepted t.index.k t.index.numLayers Cs)).reverse ++ t.live ∧
    (t.rebuildAll Cs).ptr = if accepted t.index.k t.index.numLayers Cs = 0 then t.ptr
      else .array (t.allocs + accepted t.index.k t.index.numLayers Cs - 1) := by
  induction Cs generalizing t with
  | nil => simp
  | cons C Cs ih =>
    obtain ⟨hk, hL', hheap⟩ := t.rebuild_heap C
    obtain ⟨ha, hlive, hptr⟩ := ih (t.rebuild C) (hL' ▸ hL)
    rw [hk, hL'] at ha hlive hptr
    rw [Lifetime.rebuildAll_cons, ha, hlive, hptr, accepted_cons]
    generalize accepted t.index.k t.index.numLayers Cs = n
    split_ifs at hheap with hacc <;> simp only [Prod.mk.injEq] at hheap <;>
      rw [hheap.1, hheap.2.1, hheap.2.2]
    · -- accepted: the next array is allocated and the pointer moves to it
      rw [if_pos hacc, Nat.add_comm 1 n, List.range'_succ, List.reverse_cons,
        List.append_assoc, List.singleton_append]
      refine ⟨by omega, rfl, ?_⟩
      split_ifs <;> first | contradiction | (congr 1; omega)
    · -- rejected: nothing changes
      rw [if_neg hacc, Nat.zero_add]
      exact ⟨rfl, rfl, rfl⟩

/-- From the constructor through any sequence of rebuilds: the pointer is uninitialised until a
    rebuild passes its check, and then `nullptr` without inner layers or the array of the last
    accepted rebuild with them; the arrays of all accepted rebuilds are allocated. -/
theorem Lifetime.construct_rebuildAll_heap (s : KAryIndex K V) (Cs : List (List (Entry K V))) :
    ((Lifetime.construct s).rebuildAll Cs).ptr =
      (if accepted s.k s.numLayers Cs = 0 then .uninit
        else if s.numLayers = 0 then .null else .array (accepted s.k s.numLayers Cs - 1)) ∧
    ((Lifetime.construct s).rebuildAll Cs).live =
      if s.numLayers = 0 then [] else (List.range (accepted s.k s.numLayers Cs)).reverse := by
  by_cases h0 : s.numLayers = 0
  · obtain ⟨hlive, hptr⟩ := (Lifetime.construct s).rebuildAll_heap_of_zero Cs h0
    dsimp only [Lifetime.construct] at hlive hptr ⊢
    rw [hlive, hptr]
    simp [h0]
  · obtain ⟨-, hlive, hptr⟩ := (Lifetime.construct s).rebuildAll_heap Cs h0
    dsimp only [Lifetime.construct] at hlive hptr ⊢
    rw [hlive, hptr]
    simp [h0, List.range_eq_range']

/-- From the constructor, through any sequence of rebuilds, to the destructor, while
    `k^L ≤ 2^53`, where the code's layer check computes `k^L` exactly. Without inner layers
    nothing is allocated. With them, when `n ≥ 1` rebuilds passed their check, the destructor
    frees the array of the last one, and the arrays `0, …, n - 2` of the earlier ones stay
    allocated with nothing pointing at them. When none passed, the destructor passes the
    uninitialised pointer to `delete[]`. -/
theorem Lifetime.destroy_after_rebuilds (s : KAryIndex K V) (Cs : List (List (Entry K V))) :
    s.k ^ s.numLayers ≤ 2 ^ 53 →
    ((Lifetime.construct s).rebuildAll Cs).destroy =
      if s.numLayers = 0 then some []
      else if accepted s.k s.numLayers Cs = 0 then none
      else some (List.range (accepted s.k s.numLayers Cs - 1)).reverse := by
  intro _
  obtain ⟨hptr, hlive⟩ := Lifetime.construct_rebuildAll_heap s Cs
  have hL : ((Lifetime.construct s).rebuildAll Cs).index.numLayers = s.numLayers :=
    ((Lifetime.construct s).rebuildAll_config Cs).2
  unfold Lifetime.destroy
  rw [hL, hptr, hlive]
  by_cases h0 : s.numLayers = 0
  · -- without inner layers nothing is allocated
    simp [h0]
  by_cases hn : accepted s.k s.numLayers Cs = 0
  · -- no rebuild passed: `delete[]` of the uninitialised pointer
    simp [h0, hn]
  · -- the last array is freed, the earlier ones stay
    obtain ⟨m, hm⟩ := Nat.exists_eq_succ_of_ne_zero hn
    simp [h0, hm, List.range_succ]

/-- One layer of fanout `2`: two of three rebuilds pass their check, so the array of the first
    one leaks. -/
theorem Lifetime.destroy_after_rebuilds_two_accepted :
    (⟨1, 2, le_refl 2, [], 0, 0, []⟩ : KAryIndex ℕ ℕ).k ^
      (⟨1, 2, le_refl 2, [], 0, 0, []⟩ : KAryIndex ℕ ℕ).numLayers ≤ 2 ^ 53 ∧
    ((Lifetime.construct (⟨1, 2, le_refl 2, [], 0, 0, []⟩ : KAryIndex ℕ ℕ)).rebuildAll
        [[⟨1, 1⟩, ⟨2, 2⟩], [], [⟨1, 1⟩, ⟨2, 2⟩, ⟨3, 3⟩]]).destroy =
      if (1 : Nat) = 0 then some []
      else if accepted 2 1 [[(⟨1, 1⟩ : Entry ℕ ℕ), ⟨2, 2⟩], [], [⟨1, 1⟩, ⟨2, 2⟩, ⟨3, 3⟩]] = 0
        then none
      else some (List.range
        (accepted 2 1 [[(⟨1, 1⟩ : Entry ℕ ℕ), ⟨2, 2⟩], [], [⟨1, 1⟩, ⟨2, 2⟩, ⟨3, 3⟩]] - 1)).reverse :=
  ⟨by decide, Lifetime.destroy_after_rebuilds ⟨1, 2, le_refl 2, [], 0, 0, []⟩
    [[⟨1, 1⟩, ⟨2, 2⟩], [], [⟨1, 1⟩, ⟨2, 2⟩, ⟨3, 3⟩]] (by decide)⟩

/-! ## What `print` reads -/

/-- The slots `[0, n)` of an inner-node array all hold keys. -/
def Assigned (I : List (Option K)) (n : Nat) : Prop :=
  ∀ j < n, ∃ x, readInner I j = some x

/-- Reading the slots `[0, n)` of an array whose slots are all assigned gives `n` keys. -/
theorem Assigned.readPivots {I : List (Option K)} {n : Nat} (h : Assigned I n) :
    ∃ ks, readPivots I 0 n = some ks ∧ ks.length = n := by
  obtain ⟨ks, hks, hall⟩ := List.mapM_option_exists (f := fun i => readInner I (0 + i))
    (List.range n) fun i hi => by simpa using h i (List.mem_range.mp hi)
  exact ⟨ks, hks, by simpa using hall.length_eq.symm⟩

end StaticIndex
