import Mathlib.Data.List.AList
import Mathlib.Algebra.BigOperators.Group.List.Basic
import Mathlib.Algebra.Order.BigOperators.Group.List

/-! Finite keyed tables with sums over their rows. A table is an association
list without repeated keys, so a row can be rewritten in place and the sum
changes by exactly the difference of the two rows. -/
namespace KvasirNet

abbrev Table (κ : Type*) (ν : Type*) := AList (fun _ : κ => ν)

namespace Table

variable {κ ν M : Type*}

def mapRows (g : κ → ν → ν) (t : Table κ ν) : Table κ ν :=
  ⟨t.entries.map fun e => ⟨e.1, g e.1 e.2⟩, t.nodupKeys.map₂ g⟩

def total [AddMonoid M] (f : κ → ν → M) (t : Table κ ν) : M :=
  (t.entries.map fun e => f e.1 e.2).sum

@[simp]
theorem total_empty [AddMonoid M] (f : κ → ν → M) : total f (∅ : Table κ ν) = 0 := rfl

theorem total_mapRows [AddMonoid M] (f : κ → ν → M) (g : κ → ν → ν) (t : Table κ ν) :
    total f (mapRows g t) = total (fun k v => f k (g k v)) t := by
  simp only [total, mapRows, List.map_map]
  rfl

theorem total_congr [AddMonoid M] (f g : κ → ν → M) (t : Table κ ν)
    (h : ∀ k v, f k v = g k v) : total f t = total g t := by
  simp only [total, h]

theorem total_nonneg [AddMonoid M] [Preorder M] [AddLeftMono M] (f : κ → ν → M)
    (t : Table κ ν) (h : ∀ e ∈ t.entries, 0 ≤ f e.1 e.2) : 0 ≤ total f t := by
  apply List.sum_nonneg
  intro x hx
  obtain ⟨e, he, rfl⟩ := List.mem_map.mp hx
  exact h e he

def keep (p : κ → ν → Bool) (t : Table κ ν) : Table κ ν :=
  ⟨t.entries.filter fun e => p e.1 e.2,
    List.NodupKeys.sublist List.filter_sublist t.nodupKeys⟩

section Keys
variable [DecidableEq κ]

/-- Two tables are compared by their entries, by evaluation. -/
instance [DecidableEq ν] : DecidableEq (Table κ ν) := fun t u =>
  decidable_of_iff (t.entries = u.entries) AList.ext_iff.symm

@[simp]
theorem lookup_mapRows (g : κ → ν → ν) (t : Table κ ν) (k : κ) :
    (mapRows g t).lookup k = (t.lookup k).map (g k) :=
  List.dlookup_map₂ k

theorem mem_entries_iff (t : Table κ ν) (k : κ) (v : ν) :
    (⟨k, v⟩ : Σ _ : κ, ν) ∈ t.entries ↔ t.lookup k = some v :=
  (List.mem_dlookup_iff t.nodupKeys).symm

theorem total_insert [AddMonoid M] (f : κ → ν → M) (t : Table κ ν) (k : κ) (v : ν) :
    total f (t.insert k v) = f k v + total f (t.erase k) := by
  simp only [total, AList.entries_insert, List.map_cons, List.sum_cons]
  rfl

/-- The row stored under `k`, as a summand. -/
def rowAt [AddMonoid M] (f : κ → ν → M) (t : Table κ ν) (k : κ) : M :=
  (t.lookup k).elim 0 (f k)

theorem sum_kerase_add [AddCommMonoid M] (f : κ → ν → M) (k : κ) {l : List (Σ _ : κ, ν)}
    (hl : l.NodupKeys) :
    ((l.kerase k).map fun e => f e.1 e.2).sum + (l.dlookup k).elim 0 (f k) =
      (l.map fun e => f e.1 e.2).sum := by
  induction l with
  | nil => simp
  | cons e l ih =>
    obtain ⟨k', v⟩ := e
    by_cases hk : k = k'
    · -- the erased row is the head, and no later row has its key
      subst hk
      simp [List.kerase_cons_eq, List.dlookup_cons_eq, add_comm]
    · have hrest := ih (List.nodupKeys_of_nodupKeys_cons hl)
      rw [List.kerase_cons_ne hk, List.dlookup_cons_ne _ _ hk]
      simp only [List.map_cons, List.sum_cons, add_assoc, hrest]

theorem total_erase_add [AddCommMonoid M] (f : κ → ν → M) (t : Table κ ν) (k : κ) :
    total f (t.erase k) + rowAt f t k = total f t :=
  sum_kerase_add f k t.nodupKeys

theorem total_eq_rowAt [AddCommMonoid M] (f : κ → ν → M) (t : Table κ ν) (k : κ)
    (h : ∀ k' v, k' ≠ k → f k' v = 0) : total f t = rowAt f t k := by
  have hrest : total f (t.erase k) = 0 := by
    apply List.sum_eq_zero
    intro x hx
    obtain ⟨e, he, rfl⟩ := List.mem_map.mp hx
    have hmem : e.1 ∈ t.erase k := AList.mem_keys.mpr (List.mem_map_of_mem he)
    exact h e.1 e.2 (AList.mem_erase.mp hmem).1
  rw [← total_erase_add f t k, hrest, zero_add]

theorem total_insert_add [AddCommMonoid M] (f : κ → ν → M) (t : Table κ ν) (k : κ) (v : ν) :
    total f (t.insert k v) + rowAt f t k = total f t + f k v := by
  rw [total_insert, add_assoc, total_erase_add, add_comm]

@[simp]
theorem lookup_keep (p : κ → ν → Bool) (t : Table κ ν) (k : κ) :
    (keep p t).lookup k = (t.lookup k).filter (p k) := by
  ext v
  rw [← mem_entries_iff, Option.filter_eq_some_iff, ← mem_entries_iff]
  exact List.mem_filter

end Keys

end Table
end KvasirNet
