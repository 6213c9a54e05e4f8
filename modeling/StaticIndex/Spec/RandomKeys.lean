import StaticIndex.Spec.BatchKeys

/-!
# Insert keys with `max_key_count_ != 0`

With `global_max_key != 0`, `get_insert_key` returns `rand_gen_.next() % global_max_key`, and
no call of `BatchKeys` touches shared state. So in every interleaving the keys an object hands
out depend only on its own calls: an object that only inserts hands out the next values of its
own `FastRandom(thread_id)`, whatever the other threads do.

`run_workload` builds the loader's object as `BatchKeys(0)`, and inserter thread `0` builds its
own with `thread_id = 0`. The two objects generate the same keys in the same order, so inserter
`0` inserts again the keys the loader inserted. With `max_key_count_ = 0` the same two objects
hand out distinct keys (`KeySystem.issued_keys_distinct`).

## Key results

- `KeySystem.keysOf_run`: over any interleaving, an object that only calls `get_insert_key`
  hands out the keys `BatchKeys.insertKeys` gives from its own state, one per call.
- `KeySystem.keysOf_eq_insertKeys`: from the start state, those keys depend only on the
  object's thread id and its number of calls.
- `KeySystem.same_thread_id_keys_prefix`: of two such objects built with the same thread id,
  one hands out a prefix of the keys of the other.
-/

namespace StaticIndex

/-- `get_insert_key` with `global_max_key != 0`: the next value of the generator modulo
    `global_max_key`, with the globals unchanged. -/
theorem BatchKeys.getInsertKey_eq_of_ne {b : BatchKeys} {g : KeyGlobals} (hmax : g.maxKey ≠ 0) :
    b.getInsertKey g =
      (b.randGen.next.1 % g.maxKey, { b with randGen := b.randGen.next.2 }, g) := by
  unfold BatchKeys.getInsertKey
  rw [if_neg hmax]

/-- The keys `n` successive calls of `get_insert_key` on `b` hand out, with the globals `g`
    unchanged between them. -/
def BatchKeys.insertKeys (g : KeyGlobals) (b : BatchKeys) : Nat → List Nat
  | 0 => []
  | n + 1 => (b.getInsertKey g).1 :: BatchKeys.insertKeys g (b.getInsertKey g).2.1 n

/-- Fewer calls hand out a prefix of the keys of more calls. -/
theorem BatchKeys.insertKeys_prefix (g : KeyGlobals) {n m : Nat} (h : n ≤ m) (b : BatchKeys) :
    b.insertKeys g n <+: b.insertKeys g m := by
  induction n generalizing b m with
  | zero => exact List.nil_prefix
  | succ n ih =>
    obtain ⟨m, rfl⟩ : ∃ m', m = m' + 1 := ⟨m - 1, by omega⟩
    exact List.prefix_cons_inj _ |>.mpr (ih (by omega) _)

namespace KeySystem

/-- The keys object `i` handed out, oldest first. -/
def keysOf (s : KeySystem) (i : Nat) : List Nat :=
  ((s.issued.filter fun p => p.1 = i).map Prod.snd).reverse

variable {s s' : KeySystem} {i : Nat}

/-- With `global_max_key != 0`, a call of `get_insert_key` leaves the globals as they are. -/
theorem insertStep_globals (hmax : s.globals.maxKey ≠ 0) (j : Nat) :
    (s.insertStep j).globals = s.globals := by
  rw [insertStep_eq, BatchKeys.getInsertKey_eq_of_ne hmax]

/-- With `global_max_key != 0`, over the calls `cs` of any interleaving, an object `i` that only
    calls `get_insert_key` hands out, one per call, the keys `insertKeys` gives from its own
    state: the calls of the other objects change nothing of it. -/
theorem keysOf_run {cs : List KeyCall} (hmax : s.globals.maxKey ≠ 0) (hrun : s.run cs = some s')
    (hi : ∀ c ∈ cs, c.obj = i → c = .insert i) :
    s'.keysOf i = s.keysOf i ++ (s.gens i).insertKeys s.globals (cs.count (.insert i)) := by
  induction cs generalizing s with
  | nil =>
    obtain rfl := Option.some.inj hrun
    simp [BatchKeys.insertKeys]
  | cons c cs ih =>
    obtain ⟨s₁, h1, hrest⟩ := Option.bind_eq_some.mp hrun
    have hi' := fun c hc => hi c (List.mem_cons_of_mem _ hc)
    cases c with
    | insert j =>
      obtain rfl := Option.some.inj h1
      have hg := insertStep_globals hmax j
      rw [ih (hg ▸ hmax) hrest hi', hg, insertStep_eq]
      by_cases hji : j = i
      · -- object `i` itself: its next key, then the rest of its calls
        subst hji
        simp [keysOf, List.count_cons, BatchKeys.insertKeys]
      · -- another object: nothing of `i` changes
        simp [keysOf, List.count_cons, hji, Function.update_noteq (Ne.symm hji)]
    | random j =>
      have hji : j ≠ i := fun h => nomatch hi _ (List.mem_cons_self _ _) h
      obtain ⟨⟨r, b⟩, hr, rfl⟩ := Option.map_eq_some'.mp h1
      obtain rfl := BatchKeys.getRandomKey_eq_some hr
      rw [ih (by exact hmax) hrest hi']
      simp [keysOf, List.count_cons, Function.update_noteq (Ne.symm hji)]

/-- With `max_key_count_ != 0`, over every interleaving from the state `main` starts the
    threads from, the keys an object that only calls `get_insert_key` hands out depend on
    nothing but its thread id and its number of calls: they are the first values
    `rand_gen_.next() % global_max_key` of `FastRandom(thread_id)`, in order. -/
theorem keysOf_eq_insertKeys {maxKey : Nat} {tids : Nat → Nat} {cs : List KeyCall}
    (hmax : maxKey ≠ 0) (hrun : (KeySystem.start maxKey tids).run cs = some s')
    (hi : ∀ c ∈ cs, c.obj = i → c = .insert i) :
    s'.keysOf i = (BatchKeys.new (tids i)).insertKeys ⟨0, maxKey⟩ (cs.count (.insert i)) := by
  rw [keysOf_run hmax hrun hi]
  simp [KeySystem.start, keysOf]

/-- Object `0` inserts twice, around an insert of object `1`, with `global_max_key = 1000`. -/
theorem keysOf_eq_insertKeys_two_objects :
    (1000 : Nat) ≠ 0 ∧
    (KeySystem.start 1000 id).run [.insert 0, .insert 1, .insert 0] =
      some ((((KeySystem.start 1000 id).insertStep 0).insertStep 1).insertStep 0) ∧
    (∀ c ∈ [KeyCall.insert 0, .insert 1, .insert 0], c.obj = 0 → c = .insert 0) ∧
    ((((KeySystem.start 1000 id).insertStep 0).insertStep 1).insertStep 0).keysOf 0 =
      (BatchKeys.new (id 0)).insertKeys ⟨0, 1000⟩
        ([KeyCall.insert 0, .insert 1, .insert 0].count (.insert 0)) :=
  have hrun : (KeySystem.start 1000 id).run [.insert 0, .insert 1, .insert 0] =
      some ((((KeySystem.start 1000 id).insertStep 0).insertStep 1).insertStep 0) := rfl
  have hi : ∀ c ∈ [KeyCall.insert 0, .insert 1, .insert 0], c.obj = 0 → c = .insert 0 := by
    decide
  ⟨by decide, hrun, hi, keysOf_eq_insertKeys (by decide : (1000 : Nat) ≠ 0) hrun hi⟩

/-- With `max_key_count_ != 0`, over every interleaving, two objects built with the same thread
    id that only call `get_insert_key` hand out the same keys in the same order, as far as both
    go: the keys of one are a prefix of the keys of the other. `run_workload`'s loader,
    `BatchKeys(0)`, and inserter thread `0` are two such objects: inserter `0` inserts again the
    keys the loader inserted, in the same order. -/
theorem same_thread_id_keys_prefix {maxKey : Nat} {tids : Nat → Nat} {cs : List KeyCall}
    {j : Nat} (hmax : maxKey ≠ 0) (hrun : (KeySystem.start maxKey tids).run cs = some s')
    (htid : tids i = tids j) (hi : ∀ c ∈ cs, c.obj = i → c = .insert i)
    (hj : ∀ c ∈ cs, c.obj = j → c = .insert j) :
    s'.keysOf i <+: s'.keysOf j ∨ s'.keysOf j <+: s'.keysOf i := by
  rw [keysOf_run hmax hrun hi, keysOf_run hmax hrun hj]
  simp only [KeySystem.start, keysOf, List.filter_nil, List.map_nil, List.reverse_nil,
    List.nil_append, htid]
  rcases le_total (cs.count (.insert i)) (cs.count (.insert j)) with h | h
  · exact .inl (BatchKeys.insertKeys_prefix _ h _)
  · exact .inr (BatchKeys.insertKeys_prefix _ h _)

/-- The loader as object `0`, built with thread id `0`, loads two keys; inserter thread `0`, as
    object `1` with thread id `1 - 1 = 0`, then inserts one. -/
theorem same_thread_id_keys_prefix_loader :
    (1000 : Nat) ≠ 0 ∧
    (KeySystem.start 1000 (· - 1)).run [.insert 0, .insert 0, .insert 1] =
      some ((((KeySystem.start 1000 (· - 1)).insertStep 0).insertStep 0).insertStep 1) ∧
    (0 : Nat) - 1 = 1 - 1 ∧
    (∀ c ∈ [KeyCall.insert 0, .insert 0, .insert 1], c.obj = 0 → c = .insert 0) ∧
    (∀ c ∈ [KeyCall.insert 0, .insert 0, .insert 1], c.obj = 1 → c = .insert 1) ∧
    (((((KeySystem.start 1000 (· - 1)).insertStep 0).insertStep 0).insertStep 1).keysOf 0 <+:
        ((((KeySystem.start 1000 (· - 1)).insertStep 0).insertStep 0).insertStep 1).keysOf 1 ∨
      ((((KeySystem.start 1000 (· - 1)).insertStep 0).insertStep 0).insertStep 1).keysOf 1 <+:
        ((((KeySystem.start 1000 (· - 1)).insertStep 0).insertStep 0).insertStep 1).keysOf 0) :=
  have hrun : (KeySystem.start 1000 (· - 1)).run [.insert 0, .insert 0, .insert 1] =
      some ((((KeySystem.start 1000 (· - 1)).insertStep 0).insertStep 0).insertStep 1) := rfl
  have hi : ∀ c ∈ [KeyCall.insert 0, .insert 0, .insert 1], c.obj = 0 → c = .insert 0 := by
    decide
  have hj : ∀ c ∈ [KeyCall.insert 0, .insert 0, .insert 1], c.obj = 1 → c = .insert 1 := by
    decide
  ⟨by decide, hrun, rfl, hi, hj,
    same_thread_id_keys_prefix (by decide : (1000 : Nat) ≠ 0) hrun (rfl : (0 : Nat) - 1 = 1 - 1)
      hi hj⟩

end KeySystem

end StaticIndex
