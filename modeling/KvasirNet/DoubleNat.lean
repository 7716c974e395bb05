import Mathlib.Data.Nat.Log
import Mathlib.Algebra.Ring.Nat

/-! Natural numbers as binary64 values. Above `2^53` only the multiples of a
growing power of two are kept; the rest go to the nearest of them, ties to the
even significand. -/
namespace KvasirNet

/-- How many low bits a 53-bit significand cannot hold. -/
def droppedBits (n : ℕ) : ℕ := n.log2 - 52

/-- The double nearest to `n`. -/
def toNumber (n : ℕ) : ℕ :=
  let unit := 2 ^ droppedBits n
  let q := n / unit
  let r := n % unit
  if unit < 2 * r ∨ (2 * r = unit ∧ q % 2 = 1) then (q + 1) * unit else q * unit

/-- `n` is the value of some double. -/
def Representable (n : ℕ) : Prop := ∃ m k, m < 2 ^ 53 ∧ n = m * 2 ^ k

theorem toNumber_eq_self_iff_dvd (n : ℕ) : toNumber n = n ↔ 2 ^ droppedBits n ∣ n := by
  have hpos : 0 < 2 ^ droppedBits n := Nat.two_pow_pos _
  have hsplit : 2 ^ droppedBits n * (n / 2 ^ droppedBits n) + n % 2 ^ droppedBits n = n :=
    Nat.div_add_mod n _
  have hlt : n % 2 ^ droppedBits n < 2 ^ droppedBits n := Nat.mod_lt _ hpos
  constructor
  · intro h
    apply Nat.dvd_of_mod_eq_zero
    simp only [toNumber] at h
    split at h
    · -- rounding up never stays in place
      rw [Nat.add_mul, Nat.one_mul, Nat.mul_comm] at h
      omega
    · rw [Nat.mul_comm] at h
      omega
  · intro h
    have hr : n % 2 ^ droppedBits n = 0 := Nat.mod_eq_zero_of_dvd h
    have hstay : ¬(2 ^ droppedBits n < 2 * (n % 2 ^ droppedBits n) ∨
        (2 * (n % 2 ^ droppedBits n) = 2 ^ droppedBits n ∧ n / 2 ^ droppedBits n % 2 = 1)) := by
      omega
    simp only [toNumber, if_neg hstay]
    exact Nat.div_mul_cancel h

theorem lt_two_pow_droppedBits (n : ℕ) : n < 2 ^ 53 * 2 ^ droppedBits n := by
  calc
    n < 2 ^ (n.log2 + 1) := Nat.lt_log2_self
    _ ≤ 2 ^ (53 + droppedBits n) := Nat.pow_le_pow_right (by decide) (by unfold droppedBits; omega)
    _ = 2 ^ 53 * 2 ^ droppedBits n := pow_add 2 53 _

theorem toNumber_eq_self_iff (n : ℕ) : toNumber n = n ↔ Representable n := by
  rw [toNumber_eq_self_iff_dvd]
  constructor
  · rintro ⟨m, hm⟩
    refine ⟨m, droppedBits n, ?_, hm.trans (Nat.mul_comm _ _)⟩
    apply Nat.lt_of_mul_lt_mul_right (a := 2 ^ droppedBits n)
    calc
      m * 2 ^ droppedBits n = n := by rw [Nat.mul_comm]; exact hm.symm
      _ < 2 ^ 53 * 2 ^ droppedBits n := lt_two_pow_droppedBits n
  · rintro ⟨m, k, hm, hn⟩
    have hk : droppedBits n ≤ k ∨ n = 0 := by
      by_contra hcon
      obtain ⟨hkd, hn0⟩ : k < droppedBits n ∧ n ≠ 0 := by omega
      -- a number that drops more than `k` bits is at least `2^(53+k)`
      have hlow : 2 ^ n.log2 ≤ n := Nat.log2_self_le hn0
      have hexp : 53 + k ≤ n.log2 := by unfold droppedBits at hkd; omega
      have hbig : 2 ^ (53 + k) ≤ n := le_trans (Nat.pow_le_pow_right (by decide) hexp) hlow
      have hsmall : n < 2 ^ (53 + k) := by
        rw [hn, pow_add]
        exact Nat.mul_lt_mul_of_pos_right hm (Nat.two_pow_pos k)
      omega
    rcases hk with hk | hk
    · have hdvd : 2 ^ droppedBits n ∣ m * 2 ^ k :=
        Nat.dvd_mul_left_of_dvd (Nat.pow_dvd_pow 2 hk) m
      rwa [← hn] at hdvd
    · rw [hk]
      exact Nat.dvd_zero _

theorem representable_of_lt {n : ℕ} (h : n < 2 ^ 53) : Representable n := ⟨n, 0, h, by simp⟩

theorem toNumber_of_lt {n : ℕ} (h : n < 2 ^ 53) : toNumber n = n :=
  (toNumber_eq_self_iff n).mpr (representable_of_lt h)

example : toNumber (2 ^ 53 + 1) = 2 ^ 53 := by decide

example : toNumber (2 ^ 64 - 1) = 2 ^ 64 := by decide

end KvasirNet
