import StaticIndex.Native.BatchKeys

/-!
# Insert keys are unique across threads

With `max_key_count_ = 0` every insert key comes from a batch that one `fetch_add` on
`global_curr_key` reserved, and batches never overlap. So over every interleaving of the
threads' calls, no two calls of `get_insert_key`, on the same object or on different ones,
return the same key, and each object returns its keys in increasing order. This holds while
`global_curr_key` has not wrapped around: fewer than `2^54` calls in all, which
`batchKeyCount * issued.length < 2^64` bounds.

`KeySystem.Inv` is the invariant: the batches are disjoint intervals below `global_curr_key`,
and every key handed out lies below its object's batch and outside every batch.
`KeySystem.Inv.insertStep` and `KeySystem.Inv.randomStep` show that each kind of call keeps
it. `KeySystem.Reachable.inv` lifts it to every state that some interleaving reaches.

The same invariant shows when a reader's `get_random_key` divides by zero: exactly when no
`get_insert_key` has run yet. `KeySystem.Covered` adds that no reserved key is lost: every key
below `global_curr_key` was handed out or waits in some object's batch. So a reader draws
only reserved keys, but some of them no inserter has inserted yet.

## Key results

- `BatchKeys.getInsertKey_eq`: what one `get_insert_key` does when `global_max_key == 0` and
  nothing wraps.
- `KeySystem.issued_keys_distinct`: in every reachable state, the keys handed out are pairwise
  distinct, below `global_curr_key`, and increasing per object.
- `KeySystem.getRandomKey_eq_none_iff`: `get_random_key` divides by zero exactly when no insert
  key has been handed out.
- `KeySystem.reserved_keys_partition`: the keys below `global_curr_key` are split exactly into
  the keys handed out and the unused rests of the batches.
- `KeySystem.getRandomKey_reserved`: every key a reader draws was handed out or is still unused
  in a batch.
-/

namespace StaticIndex

/-- `x` lies in the batch `[local_curr_key_, local_max_key_)` of `b`. -/
def BatchKeys.InBatch (b : BatchKeys) (x : Nat) : Prop :=
  b.localCurrKey ≤ x ∧ x < b.localMaxKey

variable {b : BatchKeys} {g : KeyGlobals}

/-- `get_insert_key` with `global_max_key == 0`, on a batch below `global_curr_key`, when
    reserving one more batch does not wrap `global_curr_key`: an exhausted batch is replaced by
    `[global_curr_key, global_curr_key + batch_key_count_)`, and the call hands out the first
    key of its batch. -/
theorem BatchKeys.getInsertKey_eq (hmax : g.maxKey = 0) (hb : b.localCurrKey ≤ b.localMaxKey)
    (hle : b.localMaxKey ≤ g.currKey) (hwrap : g.currKey + batchKeyCount < 2 ^ 64) :
    b.getInsertKey g =
      if b.localCurrKey = b.localMaxKey then
        (g.currKey,
          { b with localCurrKey := g.currKey + 1, localMaxKey := g.currKey + batchKeyCount },
          { g with currKey := g.currKey + batchKeyCount })
      else (b.localCurrKey, { b with localCurrKey := b.localCurrKey + 1 }, g) := by
  have h1 : 1 ≤ batchKeyCount := by decide
  unfold BatchKeys.getInsertKey
  rw [if_pos hmax]
  split_ifs with h
  · simp only [Nat.mod_eq_of_lt hwrap, Nat.mod_eq_of_lt (by omega : g.currKey + 1 < 2 ^ 64)]
  · simp only [Nat.mod_eq_of_lt (by omega : b.localCurrKey + 1 < 2 ^ 64)]

/-- `get_random_key` unfolded: the divisor is `global_curr_key` or `global_max_key`. -/
theorem BatchKeys.getRandomKey_eq (b : BatchKeys) (g : KeyGlobals) : b.getRandomKey g =
    if (if g.maxKey = 0 then g.currKey else g.maxKey) = 0 then none
    else some (b.randGen.next.1 % (if g.maxKey = 0 then g.currKey else g.maxKey),
      { b with randGen := b.randGen.next.2 }) := rfl

/-- A call of `get_random_key` that does not divide by zero changes only the generator. -/
theorem BatchKeys.getRandomKey_eq_some {r : Nat} {b' : BatchKeys}
    (h : b.getRandomKey g = some (r, b')) : b' = { b with randGen := b.randGen.next.2 } := by
  rw [BatchKeys.getRandomKey_eq] at h
  split_ifs at h <;> exact (Prod.mk.inj (Option.some.inj h)).2.symm

/-- The invariant of the key generators with `global_max_key == 0`, while `global_curr_key`
    has not wrapped. -/
structure KeySystem.Inv (s : KeySystem) : Prop where
  max_key : s.globals.maxKey = 0
  curr_key_le : s.globals.currKey ≤ batchKeyCount * s.issued.length
  batch_le : ∀ i, (s.gens i).localCurrKey ≤ (s.gens i).localMaxKey ∧
    (s.gens i).localMaxKey ≤ s.globals.currKey
  batch_disjoint : ∀ i j x, (s.gens i).InBatch x → (s.gens j).InBatch x → i = j
  issued_lt : ∀ p ∈ s.issued, p.2 < (s.gens p.1).localCurrKey
  issued_fresh : ∀ p ∈ s.issued, ∀ j, ¬(s.gens j).InBatch p.2
  nodup : (s.issued.map Prod.snd).Nodup
  increasing : ∀ i, ((s.issued.filter fun p => p.1 = i).map Prod.snd).Pairwise (· > ·)

namespace KeySystem

variable {s : KeySystem}

/-- Every key handed out lies below `global_curr_key`. -/
theorem Inv.issued_lt_currKey (hs : s.Inv) {p : Nat × Nat} (hp : p ∈ s.issued) :
    p.2 < s.globals.currKey :=
  Nat.lt_of_lt_of_le (hs.issued_lt p hp)
    ((hs.batch_le p.1).1.trans (hs.batch_le p.1).2)

/-- The start state satisfies the invariant when `global_max_key == 0`. -/
theorem inv_start (tids : Nat → Nat) : (start 0 tids).Inv where
  max_key := rfl
  curr_key_le := Nat.zero_le _
  batch_le := fun _ => ⟨le_refl 0, le_refl 0⟩
  batch_disjoint := fun _ _ _ h => absurd h.2 (Nat.not_lt_zero _)
  issued_lt := fun _ h => nomatch h
  issued_fresh := fun _ h => nomatch h
  nodup := List.nodup_nil
  increasing := fun _ => List.Pairwise.nil

/-- `insert_step` unfolded: the key, object and globals that `get_insert_key` returns. -/
theorem insertStep_eq (s : KeySystem) (i : Nat) : s.insertStep i =
    ⟨((s.gens i).getInsertKey s.globals).2.2,
      Function.update s.gens i ((s.gens i).getInsertKey s.globals).2.1,
      (i, ((s.gens i).getInsertKey s.globals).1) :: s.issued⟩ := rfl

/-- What every call of `get_insert_key` from an invariant state does: it hands out `key`,
    leaves its object with the batch `[key + 1, hi)`, and `global_curr_key` at `c`. The interval
    `[key, hi)` meets no other batch and no key handed out before, and `key` is above every key
    the object handed out before. Either the call reserved `[key, hi)` as a new batch, or
    `[key, hi)` is what was left of its batch: so `[key, hi)` holds the rest of the old batch
    and every key the call reserved. -/
theorem Inv.insertStep_shape (hs : s.Inv) (i : Nat)
    (hwrap : batchKeyCount * (s.issued.length + 1) < 2 ^ 64) :
    ∃ key hi c, s.insertStep i = ⟨{ s.globals with currKey := c },
        Function.update s.gens i { s.gens i with localCurrKey := key + 1, localMaxKey := hi },
        (i, key) :: s.issued⟩ ∧
      key < hi ∧ hi ≤ c ∧ c ≤ batchKeyCount * (s.issued.length + 1) ∧ s.globals.currKey ≤ c ∧
      (∀ j, j ≠ i → ∀ x, key ≤ x → x < hi → ¬(s.gens j).InBatch x) ∧
      (∀ p ∈ s.issued, ¬(key ≤ p.2 ∧ p.2 < hi)) ∧
      (∀ p ∈ s.issued, p.1 = i → p.2 < key) ∧
      (∀ x, (s.gens i).InBatch x ∨ s.globals.currKey ≤ x ∧ x < c → key ≤ x ∧ x < hi) := by
  have h1 : 1 ≤ batchKeyCount := by decide
  have hcur := hs.curr_key_le
  rw [Nat.mul_succ] at hwrap ⊢
  rw [insertStep_eq, BatchKeys.getInsertKey_eq hs.max_key (hs.batch_le i).1 (hs.batch_le i).2
    (by omega)]
  split_ifs with hfull
  · -- an exhausted batch: reserve `[global_curr_key, global_curr_key + batch_key_count_)`
    refine ⟨_, _, _, rfl, by omega, le_refl _, by omega, by omega,
      fun j _ x hx _ hin => ?_, fun p hp => ?_, fun p hp _ => hs.issued_lt_currKey hp,
      fun x hx => by rcases hx with ⟨h, h'⟩ | h <;> omega⟩
    · have := (hs.batch_le j).2; exact absurd hin.2 (by omega)
    · have := hs.issued_lt_currKey hp; omega
  · -- the rest of the current batch
    have hlt : (s.gens i).localCurrKey < (s.gens i).localMaxKey := by
      have := (hs.batch_le i).1; omega
    refine ⟨_, (s.gens i).localMaxKey, s.globals.currKey, rfl, hlt, (hs.batch_le i).2, by omega,
      le_refl _,
      fun j hj x hx hx' hin => hj (hs.batch_disjoint j i x hin ⟨hx, hx'⟩),
      fun p hp h => hs.issued_fresh p hp i h, fun p hp hpi => hpi ▸ hs.issued_lt p hp,
      fun x hx => by rcases hx with ⟨h, h'⟩ | h <;> omega⟩

/-- The batch of object `j` after object `i`'s batch became `[lo, hi)`. -/
theorem inBatch_update {gens : Nat → BatchKeys} {i j x lo hi : Nat} :
    (Function.update gens i { gens i with localCurrKey := lo, localMaxKey := hi } j).InBatch x ↔
      if j = i then lo ≤ x ∧ x < hi else (gens j).InBatch x := by
  rw [Function.update_apply]; split_ifs <;> rfl

/-- The batch of object `j` after object `i` drew from its generator. -/
theorem inBatch_update_randGen {gens : Nat → BatchKeys} {i j x : Nat} {r : FastRandom} :
    (Function.update gens i { gens i with randGen := r } j).InBatch x ↔ (gens j).InBatch x := by
  rw [Function.update_apply]; split_ifs with hj <;> simp [hj, BatchKeys.InBatch]

/-- A call of `get_insert_key` keeps the invariant, as long as `global_curr_key` cannot wrap. -/
theorem Inv.insertStep (hs : s.Inv) (i : Nat)
    (hwrap : batchKeyCount * (s.issued.length + 1) < 2 ^ 64) : (s.insertStep i).Inv := by
  obtain ⟨key, hi, c, heq, hkey, hhi, hc, hcle, hother, hnew, hinc, -⟩ :=
    hs.insertStep_shape i hwrap
  have hcurr : ∀ j, (Function.update s.gens i
      { s.gens i with localCurrKey := key + 1, localMaxKey := hi } j).localCurrKey =
      if j = i then key + 1 else (s.gens j).localCurrKey := fun j => by
    rw [Function.update_apply]; split_ifs <;> rfl
  rw [heq]
  refine ⟨hs.max_key, hc, fun j => ?_, fun j j' x => ?_, fun p hp => ?_, fun p hp j => ?_, ?_,
    fun j => ?_⟩
  · -- batches stay below `global_curr_key`
    by_cases hj : j = i
    · subst hj; simp only [Function.update_same]; omega
    · simp only [Function.update_noteq hj]; have := hs.batch_le j; omega
  · -- batches stay disjoint
    rw [inBatch_update, inBatch_update]
    split_ifs with hj hj'
    · exact fun _ _ => hj.trans hj'.symm
    · exact fun h h' => absurd h' (hother j' hj' x (by omega) h.2)
    · exact fun h h' => absurd h (hother j hj x (by omega) h'.2)
    · exact hs.batch_disjoint j j' x
  · -- every key is below its object's batch
    rw [hcurr]
    rcases List.mem_cons.mp hp with rfl | hp
    · rw [if_pos rfl]; omega
    · split_ifs with hpi
      · have := hinc p hp hpi; omega
      · exact hs.issued_lt p hp
  · -- no key lies in a batch
    rw [inBatch_update]
    rcases List.mem_cons.mp hp with rfl | hp
    · split_ifs with hj
      · omega
      · exact hother j hj _ (le_refl _) hkey
    · split_ifs with hj
      · exact fun h => hnew p hp ⟨by omega, h.2⟩
      · exact hs.issued_fresh p hp j
  · -- the new key was not handed out before
    refine List.nodup_cons.mpr ⟨fun h => ?_, hs.nodup⟩
    obtain ⟨p, hp, hpk⟩ := List.mem_map.mp h
    exact hnew p hp ⟨by omega, by omega⟩
  · -- the new key is above the object's earlier keys
    rw [List.filter_cons]
    split_ifs with hj
    · refine List.pairwise_cons.mpr ⟨fun y hy => ?_, hs.increasing j⟩
      obtain ⟨p, hp, rfl⟩ := List.mem_map.mp hy
      obtain ⟨hp, hpj⟩ := List.mem_filter.mp hp
      exact hinc p hp ((of_decide_eq_true hpj).trans (of_decide_eq_true hj).symm)
    · exact hs.increasing j

/-- A call of `get_random_key` keeps the invariant: it changes only its object's generator. -/
theorem Inv.randomStep (hs : s.Inv) {i : Nat} {s' : KeySystem} (h : s.randomStep i = some s') :
    s'.Inv := by
  obtain ⟨⟨r, b⟩, hr, rfl⟩ := Option.map_eq_some'.mp h
  obtain rfl := BatchKeys.getRandomKey_eq_some hr
  dsimp only
  -- every batch is as it was
  have hsame : ∀ j, (Function.update s.gens i
      { s.gens i with randGen := (s.gens i).randGen.next.2 } j).localCurrKey =
        (s.gens j).localCurrKey ∧
      (Function.update s.gens i
        { s.gens i with randGen := (s.gens i).randGen.next.2 } j).localMaxKey =
        (s.gens j).localMaxKey := fun j => by
    rw [Function.update_apply]; split_ifs with hj <;> simp [hj]
  exact ⟨hs.max_key, hs.curr_key_le, fun j => (hsame j).1 ▸ (hsame j).2 ▸ hs.batch_le j,
    fun j j' x h h' =>
      hs.batch_disjoint j j' x (inBatch_update_randGen.mp h) (inBatch_update_randGen.mp h'),
    fun p hp => (hsame p.1).1 ▸ hs.issued_lt p hp,
    fun p hp j h => hs.issued_fresh p hp j (inBatch_update_randGen.mp h), hs.nodup,
    hs.increasing⟩

/-- The states the key generators reach from `init` over any interleaving of the threads'
    calls. -/
inductive Reachable (init : KeySystem) : KeySystem → Prop
  | start : Reachable init init
  | insert {s : KeySystem} (i : Nat) : Reachable init s → Reachable init (s.insertStep i)
  | random {s s' : KeySystem} (i : Nat) : Reachable init s → s.randomStep i = some s' →
      Reachable init s'

/-- An interleaving given as the list of its calls reaches only states of `Reachable`, so
    what holds of every reachable state holds after every run. -/
theorem Reachable.of_run {init : KeySystem} {cs : List KeyCall} {s' : KeySystem}
    (h : Reachable init s) (hrun : s.run cs = some s') : Reachable init s' := by
  induction cs generalizing s with
  | nil => exact Option.some.inj hrun ▸ h
  | cons c cs ih =>
    obtain ⟨s₁, h1, hrest⟩ := Option.bind_eq_some.mp hrun
    cases c with
    | insert i => exact ih (Option.some.inj h1 ▸ .insert i h) hrest
    | random i => exact ih (.random i h h1) hrest

/-- Every reachable state with `global_max_key == 0`, before `global_curr_key` can wrap,
    satisfies the invariant. -/
theorem Reachable.inv {tids : Nat → Nat} (h : Reachable (KeySystem.start 0 tids) s)
    (hwrap : batchKeyCount * s.issued.length < 2 ^ 64) : s.Inv := by
  induction h with
  | start => exact inv_start tids
  | @insert s i _ ih =>
    exact (ih (Nat.lt_of_le_of_lt (Nat.mul_le_mul_left _ (Nat.le_succ _)) hwrap)).insertStep i hwrap
  | random i _ hstep ih =>
    obtain ⟨_, -, rfl⟩ := Option.map_eq_some'.mp hstep
    exact (ih hwrap).randomStep hstep

/-- With `max_key_count_ = 0`, over every interleaving of the threads' calls, and while fewer
    than `2^54` insert keys have been handed out: no two calls of `get_insert_key`, on the same
    object or on different ones, returned the same key; every key lies below
    `global_curr_key`; and each object handed its keys out in increasing order. -/
theorem issued_keys_distinct {tids : Nat → Nat} (h : Reachable (KeySystem.start 0 tids) s)
    (hwrap : batchKeyCount * s.issued.length < 2 ^ 64) :
    (s.issued.map Prod.snd).Nodup ∧ (∀ p ∈ s.issued, p.2 < s.globals.currKey) ∧
      ∀ i, ((s.issued.filter fun p => p.1 = i).map Prod.snd).Pairwise (· > ·) :=
  have hs := h.inv hwrap
  ⟨hs.nodup, fun _ hp => hs.issued_lt_currKey hp, hs.increasing⟩

/-- Two objects each take a key, then the first takes another. -/
theorem issued_keys_distinct_two_objects :
    Reachable (KeySystem.start 0 id)
      ((((KeySystem.start 0 id).insertStep 0).insertStep 1).insertStep 0) ∧
    batchKeyCount *
      ((((KeySystem.start 0 id).insertStep 0).insertStep 1).insertStep 0).issued.length < 2 ^ 64 ∧
    (((((KeySystem.start 0 id).insertStep 0).insertStep 1).insertStep 0).issued.map
        Prod.snd).Nodup ∧
      (∀ p ∈ ((((KeySystem.start 0 id).insertStep 0).insertStep 1).insertStep 0).issued,
        p.2 < ((((KeySystem.start 0 id).insertStep 0).insertStep 1).insertStep 0).globals.currKey) ∧
      ∀ i, ((((((KeySystem.start 0 id).insertStep 0).insertStep 1).insertStep 0).issued.filter
        fun p => p.1 = i).map Prod.snd).Pairwise (· > ·) :=
  have h : Reachable (KeySystem.start 0 id)
      ((((KeySystem.start 0 id).insertStep 0).insertStep 1).insertStep 0) :=
    .insert 0 (.insert 1 (.insert 0 .start))
  have hwrap : batchKeyCount *
      ((((KeySystem.start 0 id).insertStep 0).insertStep 1).insertStep 0).issued.length <
        2 ^ 64 := by decide
  ⟨h, hwrap, issued_keys_distinct h hwrap⟩

/-- With `max_key_count_ = 0`, over every interleaving, `get_random_key` divides by zero
    exactly when no `get_insert_key` has run yet: on a run with `init_key_count_ = 0`, every
    reader call before the first inserter call crashes. -/
theorem getRandomKey_eq_none_iff {tids : Nat → Nat} (h : Reachable (KeySystem.start 0 tids) s)
    (hwrap : batchKeyCount * s.issued.length < 2 ^ 64) (b : BatchKeys) :
    b.getRandomKey s.globals = none ↔ s.issued = [] := by
  have hs := h.inv hwrap
  have hzero : s.globals.currKey = 0 ↔ s.issued = [] := by
    refine ⟨fun h0 => List.eq_nil_iff_forall_not_mem.mpr fun p hp => ?_,
      fun hnil => by simpa [hnil] using hs.curr_key_le⟩
    have := hs.issued_lt_currKey hp
    omega
  rw [BatchKeys.getRandomKey_eq, if_pos hs.max_key, ← hzero]
  split_ifs with h0 <;> simp [h0]

/-- A reader before any insert key, and after the first one, with `max_key_count_ = 0`. -/
theorem getRandomKey_eq_none_iff_two_states :
    Reachable (KeySystem.start 0 id) (KeySystem.start 0 id) ∧
    batchKeyCount * (KeySystem.start 0 id).issued.length < 2 ^ 64 ∧
    ((BatchKeys.new 5).getRandomKey (KeySystem.start 0 id).globals = none ↔
      (KeySystem.start 0 id).issued = []) ∧
    Reachable (KeySystem.start 0 id) ((KeySystem.start 0 id).insertStep 0) ∧
    batchKeyCount * ((KeySystem.start 0 id).insertStep 0).issued.length < 2 ^ 64 ∧
    ((BatchKeys.new 5).getRandomKey ((KeySystem.start 0 id).insertStep 0).globals = none ↔
      ((KeySystem.start 0 id).insertStep 0).issued = []) :=
  have hwrap₀ : batchKeyCount * (KeySystem.start 0 id).issued.length < 2 ^ 64 := by decide
  have hwrap₁ : batchKeyCount * ((KeySystem.start 0 id).insertStep 0).issued.length < 2 ^ 64 := by
    decide
  ⟨.start, hwrap₀, getRandomKey_eq_none_iff .start hwrap₀ (BatchKeys.new 5),
    .insert 0 .start, hwrap₁, getRandomKey_eq_none_iff (.insert 0 .start) hwrap₁ (BatchKeys.new 5)⟩

/-! ## No reserved key is lost -/

/-- Every key below `global_curr_key`, which some `fetch_add` reserved, was handed out or lies
    in some object's batch. -/
def Covered (s : KeySystem) : Prop :=
  ∀ x < s.globals.currKey, x ∈ s.issued.map Prod.snd ∨ ∃ i, (s.gens i).InBatch x

/-- A call of `get_insert_key` loses no reserved key: the key it hands out is now handed out,
    and the rest of what it took over is its new batch. -/
theorem Inv.covered_insertStep (hs : s.Inv) (hc : s.Covered) (i : Nat)
    (hwrap : batchKeyCount * (s.issued.length + 1) < 2 ^ 64) : (s.insertStep i).Covered := by
  obtain ⟨key, hi, c, heq, -, -, -, -, -, -, -, htake⟩ := hs.insertStep_shape i hwrap
  rw [heq]
  rintro x (hx : x < c)
  -- before the call `x` was handed out, in another object's batch, or taken over by the call
  have hwhere : x ∈ s.issued.map Prod.snd ∨ (∃ j, j ≠ i ∧ (s.gens j).InBatch x) ∨
      (key ≤ x ∧ x < hi) := by
    by_cases hlt : x < s.globals.currKey
    · rcases hc x hlt with h | ⟨j, hj⟩
      · exact .inl h
      by_cases hji : j = i
      · exact .inr (.inr (htake x (.inl (hji ▸ hj))))
      · exact .inr (.inl ⟨j, hji, hj⟩)
    · exact .inr (.inr (htake x (.inr ⟨Nat.le_of_not_lt hlt, hx⟩)))
  simp only [List.map_cons, List.mem_cons]
  rcases hwhere with h | ⟨j, hji, hj⟩ | ⟨h1, h2⟩
  · exact .inl (.inr h)
  · exact .inr ⟨j, inBatch_update.mpr (by rwa [if_neg hji])⟩
  · rcases Nat.eq_or_lt_of_le h1 with rfl | h1
    · exact .inl (.inl rfl)
    · exact .inr ⟨i, inBatch_update.mpr (by rw [if_pos rfl]; omega)⟩

/-- A call of `get_random_key` changes no batch and hands out nothing. -/
theorem Covered.randomStep (hc : s.Covered) {i : Nat} {s' : KeySystem}
    (h : s.randomStep i = some s') : s'.Covered := by
  obtain ⟨⟨r, b⟩, hr, rfl⟩ := Option.map_eq_some'.mp h
  obtain rfl := BatchKeys.getRandomKey_eq_some hr
  intro x hx
  rcases hc x hx with h | ⟨j, hj⟩
  · exact .inl h
  · exact .inr ⟨j, inBatch_update_randGen.mpr hj⟩

/-- Every reachable state with `global_max_key == 0`, before `global_curr_key` can wrap, loses
    no reserved key. -/
theorem Reachable.covered {tids : Nat → Nat} (h : Reachable (KeySystem.start 0 tids) s)
    (hwrap : batchKeyCount * s.issued.length < 2 ^ 64) : s.Covered := by
  induction h with
  | start => exact fun x hx => absurd hx (Nat.not_lt_zero x)
  | @insert s i hr ih =>
    have hwrap' := Nat.lt_of_le_of_lt (Nat.mul_le_mul_left _ (Nat.le_succ _)) hwrap
    exact (hr.inv hwrap').covered_insertStep (ih hwrap') i hwrap
  | random i _ hstep ih =>
    obtain ⟨_, -, rfl⟩ := Option.map_eq_some'.mp hstep
    exact (ih hwrap).randomStep hstep

/-- With `max_key_count_ = 0`, over every interleaving of the threads' calls, and while fewer
    than `2^54` insert keys have been handed out, the keys `global_curr_key` has passed are split
    exactly into the keys `get_insert_key` handed out and the unused rests of the objects'
    batches: a key is below `global_curr_key` exactly when it is in one of them, no key handed
    out is in a batch, and no key is in two batches. -/
theorem reserved_keys_partition {tids : Nat → Nat} (h : Reachable (KeySystem.start 0 tids) s)
    (hwrap : batchKeyCount * s.issued.length < 2 ^ 64) (x : Nat) :
    (x < s.globals.currKey ↔ x ∈ s.issued.map Prod.snd ∨ ∃ i, (s.gens i).InBatch x) ∧
    (x ∈ s.issued.map Prod.snd → ∀ i, ¬(s.gens i).InBatch x) ∧
    ∀ i j, (s.gens i).InBatch x → (s.gens j).InBatch x → i = j := by
  have hs := h.inv hwrap
  refine ⟨⟨h.covered hwrap x, ?_⟩, fun hx i => ?_, fun i j => hs.batch_disjoint i j x⟩
  · rintro (hx | ⟨i, hi⟩)
    · obtain ⟨p, hp, rfl⟩ := List.mem_map.mp hx
      exact hs.issued_lt_currKey hp
    · exact Nat.lt_of_lt_of_le hi.2 (hs.batch_le i).2
  · obtain ⟨p, hp, rfl⟩ := List.mem_map.mp hx
    exact hs.issued_fresh p hp i

/-- After object `0` took key `0`, the key `216` lies in the unused rest `[1, 1024)` of its
    batch. -/
theorem reserved_keys_partition_one_batch :
    Reachable (KeySystem.start 0 id) ((KeySystem.start 0 id).insertStep 0) ∧
    batchKeyCount * ((KeySystem.start 0 id).insertStep 0).issued.length < 2 ^ 64 ∧
    (216 < ((KeySystem.start 0 id).insertStep 0).globals.currKey ↔
      216 ∈ ((KeySystem.start 0 id).insertStep 0).issued.map Prod.snd ∨
        ∃ i, (((KeySystem.start 0 id).insertStep 0).gens i).InBatch 216) ∧
    (216 ∈ ((KeySystem.start 0 id).insertStep 0).issued.map Prod.snd →
      ∀ i, ¬(((KeySystem.start 0 id).insertStep 0).gens i).InBatch 216) ∧
    ∀ i j, (((KeySystem.start 0 id).insertStep 0).gens i).InBatch 216 →
      (((KeySystem.start 0 id).insertStep 0).gens j).InBatch 216 → i = j :=
  have h : Reachable (KeySystem.start 0 id) ((KeySystem.start 0 id).insertStep 0) :=
    .insert 0 .start
  have hwrap : batchKeyCount * ((KeySystem.start 0 id).insertStep 0).issued.length < 2 ^ 64 := by
    decide
  ⟨h, hwrap, reserved_keys_partition h hwrap 216⟩

/-- With `max_key_count_ = 0`, over every interleaving of the threads' calls, every key a
    reader's `get_random_key` draws was reserved: an inserter handed it out, or it is still
    unused in some object's batch, and then no inserter has inserted it yet. -/
theorem getRandomKey_reserved {tids : Nat → Nat} (h : Reachable (KeySystem.start 0 tids) s)
    (hwrap : batchKeyCount * s.issued.length < 2 ^ 64) {b b' : BatchKeys} {x : Nat}
    (hx : b.getRandomKey s.globals = some (x, b')) :
    x ∈ s.issued.map Prod.snd ∨ ∃ i, (s.gens i).InBatch x := by
  rw [BatchKeys.getRandomKey_eq, if_pos (h.inv hwrap).max_key] at hx
  split_ifs at hx with h0
  obtain ⟨rfl, -⟩ := Prod.mk.inj (Option.some.inj hx)
  exact h.covered hwrap _ (Nat.mod_lt _ (Nat.pos_of_ne_zero h0))

/-- After object `0` took key `0`, a reader with thread id `1` draws `216`, which no inserter
    has handed out: it lies in the rest `[1, 1024)` of object `0`'s batch. -/
theorem getRandomKey_reserved_pending :
    Reachable (KeySystem.start 0 id) ((KeySystem.start 0 id).insertStep 0) ∧
    batchKeyCount * ((KeySystem.start 0 id).insertStep 0).issued.length < 2 ^ 64 ∧
    (BatchKeys.new 1).getRandomKey ((KeySystem.start 0 id).insertStep 0).globals =
      some (216, { BatchKeys.new 1 with randGen := ⟨28280696119558⟩ }) ∧
    (216 ∈ ((KeySystem.start 0 id).insertStep 0).issued.map Prod.snd ∨
      ∃ i, (((KeySystem.start 0 id).insertStep 0).gens i).InBatch 216) :=
  have h : Reachable (KeySystem.start 0 id) ((KeySystem.start 0 id).insertStep 0) :=
    .insert 0 .start
  have hwrap : batchKeyCount * ((KeySystem.start 0 id).insertStep 0).issued.length < 2 ^ 64 := by
    decide
  have hx : (BatchKeys.new 1).getRandomKey ((KeySystem.start 0 id).insertStep 0).globals =
      some (216, { BatchKeys.new 1 with randGen := ⟨28280696119558⟩ }) := rfl
  ⟨h, hwrap, hx, getRandomKey_reserved h hwrap hx⟩

end KeySystem

end StaticIndex
