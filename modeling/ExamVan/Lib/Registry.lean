import Mathlib.Data.Finset.Basic

/-!
# Registries of names in use

A registry is the set of names that may not be given out again. It is exact when it holds the name
of every owner, no two owners have one name, and it holds nothing else. All three say that the
registry and the owners' names are the same multiset.
-/

namespace Registry

variable {α : Type*} {registry : Finset α} {owned : Multiset α} {a : α}

def Exact (registry : Finset α) (owned : Multiset α) : Prop := registry.val = owned

theorem Exact.nodup (h : Exact registry owned) : owned.Nodup := h ▸ registry.nodup

theorem Exact.mem_iff (h : Exact registry owned) : a ∈ registry ↔ a ∈ owned := by
  rw [← h, Finset.mem_val]

/-- A name that is not in the registry gets an owner. -/
theorem Exact.claim [DecidableEq α] (h : Exact registry owned) (hfree : a ∉ registry) :
    Exact (insert a registry) (a ::ₘ owned) := by
  rw [Exact, Finset.insert_val_of_notMem hfree, h]

/-- An owner gives its name back. -/
theorem Exact.release [DecidableEq α] (h : Exact registry (a ::ₘ owned)) :
    Exact (registry.erase a) owned := by
  rw [Exact, Finset.erase_val, h, Multiset.erase_cons_head]

end Registry
