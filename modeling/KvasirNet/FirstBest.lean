import Mathlib.Data.List.Basic
import Mathlib.Order.Lattice

/-! A search that goes once through a list and keeps the best candidate so far: of those with the
greatest key, the first. -/
namespace KvasirNet.FirstBest

variable {α κ : Type*} [LinearOrder κ] (ok : α → Bool) (key : α → κ)

def keepBest (best : Option α) (a : α) : Option α :=
  if ok a then
    match best with
    | none => some a
    | some b => if key b < key a then some a else some b
  else best

variable {ok key}

variable {best : Option α}

theorem keepBest_some {a b : α} (h : keepBest ok key best a = some b) :
    (best = some b ∨ b = a ∧ ok a = true) ∧ (ok a = true → key a ≤ key b) ∧
      ∀ b₀, best = some b₀ → key b₀ ≤ key b := by
  unfold keepBest at h
  by_cases ha : ok a = true
  · rw [if_pos ha] at h
    cases best with
    | none =>
      obtain rfl := Option.some.inj h
      exact ⟨Or.inr ⟨rfl, ha⟩, fun _ => le_refl _, fun b₀ hb₀ => nomatch hb₀⟩
    | some b₀ =>
      dsimp only at h
      by_cases hlt : key b₀ < key a
      · rw [if_pos hlt] at h
        obtain rfl := Option.some.inj h
        refine ⟨Or.inr ⟨rfl, ha⟩, fun _ => le_refl _, fun b hb => ?_⟩
        obtain rfl := Option.some.inj hb
        exact le_of_lt hlt
      · rw [if_neg hlt] at h
        obtain rfl := Option.some.inj h
        refine ⟨Or.inl rfl, fun _ => not_lt.mp hlt, fun b hb => ?_⟩
        obtain rfl := Option.some.inj hb
        exact le_refl _
  · rw [if_neg ha] at h
    refine ⟨Or.inl h, fun hok => absurd hok ha, fun b₀ hb₀ => ?_⟩
    obtain rfl := Option.some.inj (h.symm.trans hb₀)
    exact le_refl _

theorem keepBest_eq_none {a : α} :
    keepBest ok key best a = none ↔ best = none ∧ ok a = false := by
  unfold keepBest
  by_cases ha : ok a = true
  · rw [if_pos ha]
    cases best with
    | none => simp [ha]
    | some b =>
      dsimp only
      split_ifs
      all_goals simp
  · rw [if_neg ha]
    simp [Bool.eq_false_iff.mpr ha]

theorem foldl_keepBest_some {l : List α} {b : α}
    (h : l.foldl (keepBest ok key) best = some b) :
    (best = some b ∨ b ∈ l ∧ ok b = true) ∧ (∀ a ∈ l, ok a = true → key a ≤ key b) ∧
      ∀ b₀, best = some b₀ → key b₀ ≤ key b := by
  induction l generalizing best with
  | nil =>
    refine ⟨Or.inl h, fun a ha => absurd ha List.not_mem_nil, fun b₀ hb₀ => ?_⟩
    obtain rfl := Option.some.inj (h.symm.trans hb₀)
    exact le_refl _
  | cons a l ih =>
    obtain ⟨hfrom, hrest, hbest⟩ := ih h
    refine ⟨?_, ?_, ?_⟩
    · rcases hfrom with hkept | ⟨hmem, hok⟩
      · rcases (keepBest_some hkept).1 with hold | ⟨rfl, hok⟩
        · exact Or.inl hold
        · exact Or.inr ⟨List.mem_cons_self, hok⟩
      · exact Or.inr ⟨List.mem_cons_of_mem a hmem, hok⟩
    · intro a' ha' hok
      rcases List.mem_cons.mp ha' with rfl | ha'
      · -- the candidate is kept, or something that is no worse
        cases hkept : keepBest ok key best a' with
        | none =>
          have hfalse := (keepBest_eq_none.mp hkept).2
          rw [hok] at hfalse
          cases hfalse
        | some b₁ => exact le_trans ((keepBest_some hkept).2.1 hok) (hbest b₁ hkept)
      · exact hrest a' ha' hok
    · intro b₀ hb₀
      cases hkept : keepBest ok key best a with
      | none =>
        have hnone := (keepBest_eq_none.mp hkept).1
        rw [hb₀] at hnone
        cases hnone
      | some b₁ => exact le_trans ((keepBest_some hkept).2.2 b₀ hb₀) (hbest b₁ hkept)

theorem foldl_keepBest_eq_none {l : List α} :
    l.foldl (keepBest ok key) best = none ↔ best = none ∧ ∀ a ∈ l, ok a = false := by
  induction l generalizing best with
  | nil => simp
  | cons a l ih =>
    rw [List.foldl_cons, ih, keepBest_eq_none, List.forall_mem_cons, and_assoc]

end KvasirNet.FirstBest
