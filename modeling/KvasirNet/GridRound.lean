import Mathlib.Algebra.Order.Round
import Mathlib.Data.Rat.Floor
import Mathlib.Tactic.Linarith
import Mathlib.Tactic.FieldSimp
import Mathlib.Tactic.Ring

/-! Rounding to multiples of `1/n`, halves upward. Adding a multiple of `1/n`
commutes with the rounding, which is what makes independently rounded sums
agree. -/
namespace KvasirNet

def roundTo (n : ℕ) (x : ℚ) : ℚ := (round (x * n) : ℤ) / n

/-- `x` is a multiple of `1/n`. -/
def OnGrid (n : ℕ) (x : ℚ) : Prop := ∃ z : ℤ, x = z / n

theorem onGrid_roundTo (n : ℕ) (x : ℚ) : OnGrid n (roundTo n x) := ⟨round (x * n), rfl⟩

theorem onGrid_zero (n : ℕ) : OnGrid n 0 := ⟨0, by simp⟩

theorem roundTo_grid_add (n : ℕ) (hn : 0 < n) (g x : ℚ) (hg : OnGrid n g) :
    roundTo n (g + x) = g + roundTo n x := by
  obtain ⟨z, rfl⟩ := hg
  have hne : (n : ℚ) ≠ 0 := by positivity
  have hmul : ((z : ℚ) / n + x) * n = z + x * n := by
    field_simp
  simp only [roundTo, hmul, round_intCast_add, Int.cast_add]
  ring

theorem roundTo_of_onGrid (n : ℕ) (hn : 0 < n) (g : ℚ) (hg : OnGrid n g) : roundTo n g = g := by
  have h := roundTo_grid_add n hn g 0 hg
  simpa [roundTo] using h

theorem OnGrid.add {n : ℕ} {x y : ℚ} (hx : OnGrid n x) (hy : OnGrid n y) : OnGrid n (x + y) := by
  obtain ⟨a, rfl⟩ := hx
  obtain ⟨b, rfl⟩ := hy
  exact ⟨a + b, by push_cast; ring⟩

theorem OnGrid.neg {n : ℕ} {x : ℚ} (hx : OnGrid n x) : OnGrid n (-x) := by
  obtain ⟨a, rfl⟩ := hx
  exact ⟨-a, by push_cast; ring⟩

theorem OnGrid.sub {n : ℕ} {x y : ℚ} (hx : OnGrid n x) (hy : OnGrid n y) : OnGrid n (x - y) := by
  simpa only [sub_eq_add_neg] using hx.add hy.neg

end KvasirNet
