import KvasirNet.GridRound

/-! Sums that are rounded after every term. Rounding once at the end gives the same exactly when
what the single roundings cut off adds up to nothing that rounds. -/
namespace KvasirNet

/-- How far a number lies above the multiple of `1/n` that it is rounded to, in units of `1/n`. -/
def excess (n : ℕ) (x : ℚ) : ℚ := Int.fract (x * n + 1 / 2) - 1 / 2

/-- The terms of a sum that starts at `s`: rounded one by one they lose less than what rounds. -/
def Settles (n : ℕ) (s : ℚ) : List ℚ → Prop
  | [] => True
  | x :: rest => -(1 / 2) ≤ excess n (s + x) + (rest.map (excess n)).sum ∧
    excess n (s + x) + (rest.map (excess n)).sum < 1 / 2

def roundedSum (n : ℕ) (s : ℚ) (xs : List ℚ) : ℚ := xs.foldl (fun s x => roundTo n (s + x)) s

theorem sum_roundTo_onGrid (n : ℕ) (xs : List ℚ) : OnGrid n (xs.map (roundTo n)).sum := by
  induction xs with
  | nil => exact onGrid_zero n
  | cons x xs ih =>
    rw [List.map_cons, List.sum_cons]
    exact (onGrid_roundTo n x).add ih

section
variable {n : ℕ} (hn : 0 < n)
include hn

theorem roundTo_add_excess (x : ℚ) : roundTo n x + excess n x / n = x := by
  have hne : (n : ℚ) ≠ 0 := by positivity
  have hfloor := Int.floor_add_fract (x * n + 1 / 2)
  rw [roundTo, round_eq, excess, ← add_div, div_eq_iff hne]
  linarith

theorem roundTo_eq_zero_iff (x : ℚ) : roundTo n (x / n) = 0 ↔ -(1 / 2) ≤ x ∧ x < 1 / 2 := by
  have hne : (n : ℚ) ≠ 0 := by positivity
  have hround : roundTo n (x / n) = 0 ↔ round x = 0 := by
    rw [roundTo, div_mul_cancel₀ x hne, div_eq_zero_iff, or_iff_left hne, Int.cast_eq_zero]
  rw [hround, round_eq, Int.floor_eq_zero_iff, Set.mem_Ico]
  constructor
  · intro h
    constructor <;> linarith [h.1, h.2]
  · intro h
    constructor <;> linarith [h.1, h.2]

theorem roundedSum_of_onGrid {s : ℚ} (hs : OnGrid n s) (xs : List ℚ) :
    roundedSum n s xs = s + (xs.map (roundTo n)).sum := by
  induction xs generalizing s with
  | nil => exact (add_zero s).symm
  | cons x xs ih =>
    have hstep : roundedSum n s (x :: xs) = roundedSum n (s + roundTo n x) xs := by
      rw [← roundTo_grid_add n hn s x hs]
      rfl
    rw [hstep, ih (hs.add (onGrid_roundTo n x)), List.map_cons, List.sum_cons, add_assoc]

theorem sum_eq_roundTo_add (xs : List ℚ) :
    xs.sum = (xs.map (roundTo n)).sum + (xs.map (excess n)).sum / n := by
  induction xs with
  | nil => simp
  | cons x xs ih =>
    have hx := roundTo_add_excess hn x
    rw [List.sum_cons, List.map_cons, List.map_cons, List.sum_cons, List.sum_cons, ih, add_div]
    linarith

theorem roundedSum_eq_iff {s x : ℚ} (rest : List ℚ) :
    roundedSum n s (x :: rest) = roundTo n (s + (x :: rest).sum) ↔ Settles n s (x :: rest) := by
  have hgrid : OnGrid n (roundTo n (s + x) + (rest.map (roundTo n)).sum) :=
    (onGrid_roundTo n _).add (sum_roundTo_onGrid n rest)
  have hparts : s + (x :: rest).sum = roundTo n (s + x) + (rest.map (roundTo n)).sum +
      (excess n (s + x) + (rest.map (excess n)).sum) / n := by
    have hx := roundTo_add_excess hn (s + x)
    have hrest := sum_eq_roundTo_add hn rest
    rw [List.sum_cons, add_div]
    linarith
  have hone : roundedSum n s (x :: rest) = roundTo n (s + x) + (rest.map (roundTo n)).sum :=
    roundedSum_of_onGrid hn (onGrid_roundTo n (s + x)) rest
  rw [hone, hparts, roundTo_grid_add n hn _ _ hgrid, eq_comm, add_eq_left, roundTo_eq_zero_iff hn]
  rfl

theorem excess_of_onGrid {x : ℚ} (hx : OnGrid n x) : excess n x = 0 := by
  have hne : (n : ℚ) ≠ 0 := by positivity
  have hsum := roundTo_add_excess hn x
  rw [roundTo_of_onGrid n hn x hx, add_eq_left, div_eq_zero_iff] at hsum
  exact hsum.resolve_right hne

theorem settles_of_onGrid {s : ℚ} (hs : OnGrid n s) {xs : List ℚ} (hxs : ∀ x ∈ xs, OnGrid n x) :
    Settles n s xs := by
  cases xs with
  | nil => trivial
  | cons x rest =>
    have hfirst : excess n (s + x) = 0 := excess_of_onGrid hn (hs.add (hxs x List.mem_cons_self))
    have hrest : (rest.map (excess n)).sum = 0 := by
      apply List.sum_eq_zero
      intro e he
      obtain ⟨y, hy, rfl⟩ := List.mem_map.mp he
      exact excess_of_onGrid hn (hxs y (List.mem_cons_of_mem x hy))
    show -(1 / 2) ≤ excess n (s + x) + (rest.map (excess n)).sum ∧
      excess n (s + x) + (rest.map (excess n)).sum < 1 / 2
    rw [hfirst, hrest]
    constructor <;> norm_num

end

end KvasirNet
