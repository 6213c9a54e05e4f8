import Mathlib.Data.List.Perm.Basic
import Mathlib.Data.List.Forall2

/-!
# List lemmas for the standard library

Generic lemmas about `List.flatMap`, `List.range'` and `List.mapM` in `Option`, used by
the slot-layout and pivot proofs.
-/

namespace List

/-- `mapM` in `Option` succeeds when every call does, with results related to the inputs
    one by one. -/
theorem mapM_option_exists {α β : Type} {f : α → Option β} (l : List α)
    (h : ∀ a ∈ l, ∃ b, f a = some b) :
    ∃ bs, l.mapM f = some bs ∧ Forall₂ (fun a b => f a = some b) l bs := by
  induction l with
  | nil => exact ⟨[], rfl, Forall₂.nil⟩
  | cons a l ih =>
    obtain ⟨b, hb⟩ := h a (mem_cons_self a l)
    obtain ⟨bs, hbs, hall⟩ := ih fun a' ha' => h a' (mem_cons_of_mem a ha')
    exact ⟨b :: bs, by simp only [mapM_cons, hb, hbs]; rfl, Forall₂.cons hb hall⟩

/-- The two orders of a double `flatMap` are permutations of each other. -/
theorem flatMap_comm_perm {α β γ : Type} (l₁ : List α) (l₂ : List β) (f : α → β → List γ) :
    (l₁.flatMap fun a => l₂.flatMap (f a)) ~ l₂.flatMap fun b => l₁.flatMap fun a => f a b := by
  induction l₁ with
  | nil => simp
  | cons a l₁ ih =>
    simp only [flatMap_cons]
    exact (ih.append_left _).trans (flatMap_append_perm l₂ (f a) _)

/-- `k` consecutive intervals of length `m` starting at `a` make up one interval. -/
theorem flatMap_range_range' (a m k : Nat) :
    (range k).flatMap (fun i => range' (a + i * m) m) = range' a (k * m) := by
  induction k with
  | zero => simp
  | succ k ih =>
    have := range'_append a (k * m) m 1
    rw [Nat.one_mul] at this
    rw [range_succ, flatMap_append, ih, flatMap_singleton, this, Nat.succ_mul, Nat.add_comm m]

end List
