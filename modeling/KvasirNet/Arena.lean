import Mathlib.Data.List.Basic

/-! Records addressed by their place in a list. New records go to the end and
old ones are rewritten in place, so that a place once handed out stays valid. -/
namespace KvasirNet

variable {α : Type*} {R : α → α → Prop} {l l' l'' : List α}

/-- Every record is still in its place, changed only as `R` allows. -/
def Grows (R : α → α → Prop) (l l' : List α) : Prop :=
  ∀ (i : ℕ) (x : α), l[i]? = some x → ∃ x', l'[i]? = some x' ∧ R x x'

namespace Grows

theorem refl (hR : ∀ x, R x x) (l : List α) : Grows R l l := fun _ x h => ⟨x, h, hR x⟩

theorem trans (hR : ∀ x y z, R x y → R y z → R x z) (h : Grows R l l') (h' : Grows R l' l'') :
    Grows R l l'' := by
  intro i x hx
  obtain ⟨y, hy, hxy⟩ := h i x hx
  obtain ⟨z, hz, hyz⟩ := h' i y hy
  exact ⟨z, hz, hR x y z hxy hyz⟩

theorem append (hR : ∀ x, R x x) (l new : List α) : Grows R l (l ++ new) := by
  intro i x hx
  have hi : i < l.length := (List.getElem?_eq_some_iff.mp hx).1
  exact ⟨x, by rw [List.getElem?_append_left hi, hx], hR x⟩

theorem modify (hR : ∀ x, R x x) {i : ℕ} {f : α → α} (hf : ∀ x, l[i]? = some x → R x (f x)) :
    Grows R l (l.modify i f) := by
  intro j x hx
  rw [List.getElem?_modify, hx]
  by_cases hij : i = j
  · subst hij
    exact ⟨f x, by simp, hf x hx⟩
  · exact ⟨x, by simp [hij], hR x⟩

theorem mapIdx {f : ℕ → α → α} (hf : ∀ i x, R x (f i x)) : Grows R l (l.mapIdx f) := by
  intro i x hx
  exact ⟨f i x, by simp [hx], hf i x⟩

end Grows

theorem getElem?_modify_eq_some {i j : ℕ} {f : α → α} {y : α} (h : (l.modify i f)[j]? = some y) :
    (i = j ∧ ∃ x, l[i]? = some x ∧ y = f x) ∨ (i ≠ j ∧ l[j]? = some y) := by
  rw [List.getElem?_modify] at h
  by_cases hij : i = j
  · subst hij
    obtain ⟨x, hx, rfl⟩ := Option.map_eq_some_iff.mp h
    exact Or.inl ⟨rfl, x, hx, by simp⟩
  · refine Or.inr ⟨hij, ?_⟩
    simpa [hij] using h

theorem getElem?_set_eq_some {i j : ℕ} {x y : α} (h : (l.set i x)[j]? = some y) :
    (i = j ∧ y = x) ∨ (i ≠ j ∧ l[j]? = some y) := by
  rw [List.getElem?_set] at h
  split_ifs at h with hij
  · exact Or.inl ⟨hij, (Option.some.inj h).symm⟩
  · exact Or.inr ⟨hij, h⟩

theorem getElem?_concat_eq_some {j : ℕ} {x y : α} (h : (l ++ [x])[j]? = some y) :
    (j = l.length ∧ y = x) ∨ l[j]? = some y := by
  rcases Nat.lt_trichotomy j l.length with hj | hj | hj
  · rw [List.getElem?_append_left hj] at h
    exact Or.inr h
  · subst hj
    simp at h
    exact Or.inl ⟨rfl, h.symm⟩
  · rw [List.getElem?_eq_none (by simp; omega)] at h
    cases h

end KvasirNet
