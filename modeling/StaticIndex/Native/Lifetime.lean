import StaticIndex.Native.KAryIndex

/-!
# The inner-node array as a heap object

`inner_nodes_` is a raw pointer (`static_index/kary_index.h`). The constructor does not
initialise it. A successful `reorganize` points it at a fresh `new KeyT[k_^num_layers_ - 1]`
when `num_layers_ != 0`, and sets it to `nullptr` otherwise; it does not free the array it
pointed at before. The destructor passes it to `delete[]` when `num_layers_ != 0`, and `print`
reads the array through it when it is not `nullptr`.

`KAryIndex` holds the contents of the array (`innerNodes`); `Lifetime` adds what the code does
with memory: the value of the pointer, and the arrays that `new[]` returned and `delete[]` has
not freed, each named by the number of the `new[]` that returned it.
-/

namespace StaticIndex

/-- The value of the pointer `inner_nodes_`. -/
inductive InnerPtr
  /-- never assigned: the constructor leaves it uninitialised -/
  | uninit
  /-- `nullptr` -/
  | null
  /-- the array returned by the `id`-th `new KeyT[...]` -/
  | array (id : Nat)
  deriving DecidableEq, Repr

/-- An index and the heap arrays it allocated for `inner_nodes_`: `live` holds the arrays
    `new[]` returned and `delete[]` has not freed, newest first, and `allocs` counts the
    `new[]`s so far. -/
structure Lifetime (K V : Type) where
  index : KAryIndex K V
  ptr : InnerPtr
  live : List Nat
  allocs : Nat

variable {K V : Type}

/-- The object right after `KAryIndex(table_ptr, num_layers, k)`: `num_layers_` and `k_` are
    set (the `ASSERT(k_ >= 2, ...)` is the field `two_le_k`), `inner_nodes_` is uninitialised,
    and nothing is allocated. The other fields of `s` are whatever the object holds. -/
def Lifetime.construct (s : KAryIndex K V) : Lifetime K V :=
  ⟨s, .uninit, [], 0⟩

/-- `reorganize()` with its memory effects. `base_reorganize` and the layer `ASSERT` are those
    of `reorganize`; after the check, `inner_nodes_ = new KeyT[inner_size]` when
    `num_layers_ != 0`, without freeing the array it pointed at, and `inner_nodes_ = nullptr`
    otherwise. -/
def Lifetime.reorganize (snapshot : List (Entry K V)) : EStateM String (Lifetime K V) Unit :=
  fun t => match (StaticIndex.reorganize snapshot).run t.index with
    | .ok u s =>
      if s.numLayers ≠ 0 then .ok u ⟨s, .array t.allocs, t.allocs :: t.live, t.allocs + 1⟩
      else .ok u { t with index := s, ptr := .null }
    | .error e s => .error e { t with index := s }

/-- The state one `reorganize` leaves, whether its check passes or fails. -/
def Lifetime.rebuild (t : Lifetime K V) (snapshot : List (Entry K V)) : Lifetime K V :=
  match (Lifetime.reorganize snapshot).run t with
  | .ok _ t' => t'
  | .error _ t' => t'

/-- The state after rebuilding on each snapshot in turn; a rejected rebuild passes on the state
    it leaves. -/
def Lifetime.rebuildAll (t : Lifetime K V) (snapshots : List (List (Entry K V))) :
    Lifetime K V :=
  snapshots.foldl Lifetime.rebuild t

/-- `~KAryIndex()`: `delete[] inner_nodes_` when `num_layers_ != 0`. The arrays still allocated
    afterwards, or `none` when `delete[]` receives a pointer that is uninitialised or whose
    array was already freed (undefined behaviour); `delete[] nullptr` does nothing. -/
def Lifetime.destroy (t : Lifetime K V) : Option (List Nat) :=
  if t.index.numLayers ≠ 0 then
    match t.ptr with
    | .array id => if id ∈ t.live then some (t.live.erase id) else none
    | .null => some t.live
    | .uninit => none
  else some t.live

end StaticIndex
