import StaticIndex.Native.FastRandom

/-!
# Key generation in the benchmark driver

A model of `BatchKeys` (`src/main.cxx`). `main` sets `global_max_key` from `max_key_count_`
and `global_curr_key = 0` before any thread starts. The loader in `run_workload` and every
inserter and reader thread then own a `BatchKeys` object. With `global_max_key == 0`,
`get_insert_key` hands out the keys of a batch `[local_curr_key_, local_max_key_)`, which it
reserves with one `fetch_add` on the shared `global_curr_key` when it runs out. Readers call
`get_random_key`, which draws below `global_curr_key`. `uint64_t` arithmetic is modelled
modulo `2^64`. The comment on `Config::max_key_count_` says that `0` makes the insert keys
random. The code does the reverse: with `0` the keys come from the sequential batches, and
with a nonzero value they are `rand_gen_.next() % global_max_key`.

`KeySystem` is all of this state at once: the globals, every `BatchKeys` object, and a ghost
history of the keys `get_insert_key` returned. A call touches shared memory once, in its
`fetch_add` or its load of `global_curr_key`; the rest of it works on its own object. So every
execution gives the same results as one in which each call runs as one step, and
`KeySystem.insertStep` and `KeySystem.randomStep` are those steps, and `KeySystem.run` runs
an interleaving given as the list of its calls.
-/

namespace StaticIndex

/-- `batch_key_count_ = 1ull << 10`. -/
def batchKeyCount : Nat := 1 <<< 10

/-- A `BatchKeys` object: `rand_gen_`, `thread_id_`, and the batch
    `[local_curr_key_, local_max_key_)` it hands keys out from. -/
structure BatchKeys where
  randGen : FastRandom
  threadId : Nat
  localCurrKey : Nat
  localMaxKey : Nat

/-- `BatchKeys(thread_id)`: `rand_gen_(thread_id)` and an empty batch. -/
def BatchKeys.new (threadId : Nat) : BatchKeys :=
  ⟨FastRandom.new threadId, threadId, 0, 0⟩

/-- The globals key generation reads: `global_curr_key`, a `std::atomic<uint64_t>`, and
    `global_max_key`. -/
structure KeyGlobals where
  currKey : Nat
  maxKey : Nat

/-- `get_insert_key()`: the key, and the object and globals after the call. With
    `global_max_key == 0`, an exhausted batch reserves the next `batch_key_count_` keys by
    `global_curr_key.fetch_add(batch_key_count_)`, and the call returns the next key of the
    batch. Otherwise it returns `rand_gen_.next() % global_max_key`. -/
def BatchKeys.getInsertKey (b : BatchKeys) (g : KeyGlobals) : Nat × BatchKeys × KeyGlobals :=
  if g.maxKey = 0 then
    let (b, g) := if b.localCurrKey = b.localMaxKey then
        ({ b with
            localCurrKey := g.currKey
            localMaxKey := (g.currKey + batchKeyCount) % 2 ^ 64 },
          { g with currKey := (g.currKey + batchKeyCount) % 2 ^ 64 })
      else (b, g)
    (b.localCurrKey, { b with localCurrKey := (b.localCurrKey + 1) % 2 ^ 64 }, g)
  else
    let (r, randGen) := b.randGen.next
    (r % g.maxKey, { b with randGen }, g)

/-- `get_random_key()`: `rand_gen_.next() % global_curr_key` when `global_max_key == 0`, and
    `rand_gen_.next() % global_max_key` otherwise, with the object after the call; `none` when
    the divisor is `0`, a division by zero. -/
def BatchKeys.getRandomKey (b : BatchKeys) (g : KeyGlobals) : Option (Nat × BatchKeys) :=
  let (r, randGen) := b.randGen.next
  let bound := if g.maxKey = 0 then g.currKey else g.maxKey
  if bound = 0 then none else some (r % bound, { b with randGen })

/-- The key generators of a run: the globals, the `BatchKeys` object of every thread (and of
    the loader), and, as ghost state, the `(object, key)` pairs `get_insert_key` returned,
    newest first. -/
structure KeySystem where
  globals : KeyGlobals
  gens : Nat → BatchKeys
  issued : List (Nat × Nat)

/-- The state `main` starts the threads from: `global_curr_key = 0`, `global_max_key`, and
    object `i` constructed with thread id `tids i`. -/
def KeySystem.start (maxKey : Nat) (tids : Nat → Nat) : KeySystem :=
  ⟨⟨0, maxKey⟩, fun i => BatchKeys.new (tids i), []⟩

/-- Object `i` calls `get_insert_key()`. -/
def KeySystem.insertStep (s : KeySystem) (i : Nat) : KeySystem :=
  let (key, b, g) := (s.gens i).getInsertKey s.globals
  ⟨g, Function.update s.gens i b, (i, key) :: s.issued⟩

/-- Object `i` calls `get_random_key()`; `none` when the call divides by zero. -/
def KeySystem.randomStep (s : KeySystem) (i : Nat) : Option KeySystem :=
  ((s.gens i).getRandomKey s.globals).map fun (_, b) =>
    { s with gens := Function.update s.gens i b }

/-- A call of a key generator: object `i` calls `get_insert_key()` or `get_random_key()`. -/
inductive KeyCall
  | insert (i : Nat)
  | random (i : Nat)
  deriving DecidableEq, Repr

/-- The object that makes the call. -/
def KeyCall.obj : KeyCall → Nat
  | .insert i => i
  | .random i => i

/-- One call of an interleaving; `none` when it divides by zero. -/
def KeySystem.step (s : KeySystem) : KeyCall → Option KeySystem
  | .insert i => some (s.insertStep i)
  | .random i => s.randomStep i

/-- The calls of an interleaving, in the order they take effect; `none` when one divides by
    zero. -/
def KeySystem.run (s : KeySystem) : List KeyCall → Option KeySystem
  | [] => some s
  | c :: cs => (s.step c).bind fun s => s.run cs

end StaticIndex
