import Mathlib.Algebra.BigOperators.Group.List.Basic
import Mathlib.Logic.Function.Basic
import Mathlib.Tactic.Abel

/-! Adding values into the cells of an array, each at its own index. The order
does not matter, and going through an array of partial sums gives the same. -/
namespace KvasirNet

variable {κ M : Type*} [DecidableEq κ] [AddCommMonoid M]

def scatterAdd (out : κ → M) (l : List (κ × M)) : κ → M :=
  l.foldl (fun out e => Function.update out e.1 (out e.1 + e.2)) out

def cellSum (l : List (κ × M)) (k : κ) : M := (l.map fun e => if e.1 = k then e.2 else 0).sum

@[simp]
theorem cellSum_nil (k : κ) : cellSum ([] : List (κ × M)) k = 0 := rfl

@[simp]
theorem cellSum_cons (e : κ × M) (l : List (κ × M)) (k : κ) :
    cellSum (e :: l) k = (if e.1 = k then e.2 else 0) + cellSum l k := by
  simp [cellSum]

theorem scatterAdd_apply (out : κ → M) (l : List (κ × M)) (k : κ) :
    scatterAdd out l k = out k + cellSum l k := by
  induction l generalizing out with
  | nil => simp [scatterAdd]
  | cons e l ih =>
    have hstep : scatterAdd out (e :: l) =
        scatterAdd (Function.update out e.1 (out e.1 + e.2)) l := rfl
    rw [hstep, ih, cellSum_cons]
    by_cases he : e.1 = k
    · subst he
      rw [Function.update_self, if_pos rfl, add_assoc]
    · rw [Function.update_of_ne (Ne.symm he), if_neg he, zero_add]

/-- The cells of a list of partial sums, under the names of their rows. -/
def rowSums (names : List κ) (work : List (ℕ × M)) : List (κ × M) :=
  names.zipIdx.map fun e => (e.1, cellSum work e.2)

theorem cellSum_rowSums_single {names : List κ} {r : ℕ} {name : κ} (v : M)
    (h : names[r]? = some name) (k : κ) :
    ((names.zipIdx.map fun e => if e.1 = k then (if r = e.2 then v else 0) else 0)).sum =
      if name = k then v else 0 := by
  -- rows before the base are never met
  have hshift (names : List κ) (base : ℕ) (hr : names[r - base]? = some name) (hb : base ≤ r) :
      ((names.zipIdx base).map fun e => if e.1 = k then (if r = e.2 then v else 0) else 0).sum =
        if name = k then v else 0 := by
    have hlater (l : List κ) (b : ℕ) (hb : r < b) :
        ((l.zipIdx b).map fun e => if e.1 = k then (if r = e.2 then v else 0) else 0).sum = 0 := by
      induction l generalizing b with
      | nil => rfl
      | cons x l ih =>
        have hne : r ≠ b := by omega
        rw [List.zipIdx_cons, List.map_cons, List.sum_cons, ih (b + 1) (by omega)]
        simp [hne]
    induction names generalizing base with
    | nil => simp at hr
    | cons x l ih =>
      rw [List.zipIdx_cons, List.map_cons, List.sum_cons]
      by_cases hrb : r = base
      · subst hrb
        obtain rfl : x = name := by simpa using hr
        rw [hlater l (r + 1) (by omega)]
        simp
      · have hnext : l[r - (base + 1)]? = some name := by
          have hsub : r - base = r - (base + 1) + 1 := by omega
          rwa [hsub, List.getElem?_cons_succ] at hr
        rw [ih (base + 1) hnext (by omega)]
        simp [hrb]
  exact hshift names 0 h (Nat.zero_le r)

theorem cellSum_rowSums {names : List κ} {work : List (ℕ × M)} (place : ℕ → κ)
    (h : ∀ e ∈ work, names[e.1]? = some (place e.1)) (k : κ) :
    cellSum (rowSums names work) k = cellSum (work.map fun e => (place e.1, e.2)) k := by
  induction work with
  | nil =>
    simp only [rowSums, cellSum, List.map_map, Function.comp_def, List.map_nil, List.sum_nil]
    apply List.sum_eq_zero
    simp
  | cons e work ih =>
    have htail := ih fun x hx => h x (List.mem_cons_of_mem e hx)
    have hhead := cellSum_rowSums_single e.2 (h e List.mem_cons_self) k
    rw [List.map_cons, cellSum_cons, ← htail]
    simp only [rowSums, cellSum, List.map_map, Function.comp_def, List.map_cons, List.sum_cons] at *
    rw [← hhead, ← List.sum_map_add]
    congr 1
    apply List.map_congr_left
    intro x hx
    split_ifs <;> simp

end KvasirNet
