import KvasirNet.Binary64
import KvasirNet.DoubleNat
import Mathlib.Data.Nat.Factorization.Basic
import Mathlib.Algebra.BigOperators.Group.List.Basic
import Mathlib.Data.Nat.Cast.Field

/-! The natural numbers that double-precision arithmetic keeps. One that is a double stays what it
is when it is rounded, what comes of rounding a natural is one that is a double, and so a product
whose value is a double is computed exactly, one factor after the other. -/
namespace KvasirNet

theorem representable_zero : Representable 0 := ⟨0, 0, by norm_num, rfl⟩

theorem Representable.mul_two_pow {n : ℕ} (h : Representable n) (j : ℕ) :
    Representable (n * 2 ^ j) := by
  obtain ⟨m, k, hm, rfl⟩ := h
  exact ⟨m, k + j, hm, by rw [pow_add, Nat.mul_assoc]⟩

theorem Representable.of_dvd {m n : ℕ} (h : Representable n) (hn : n ≠ 0) (hdvd : m ∣ n) :
    Representable m := by
  obtain ⟨a, k, ha, rfl⟩ := h
  have hm : m ≠ 0 := by
    intro hzero
    exact hn (Nat.eq_zero_of_zero_dvd (hzero ▸ hdvd))
  obtain ⟨j, b, hb, rfl⟩ := Nat.exists_eq_two_pow_mul_odd hm
  have hcoprime : Nat.Coprime b (2 ^ k) := hb.coprime_two_right.pow_right k
  have hba : b ∣ a := hcoprime.dvd_of_dvd_mul_right ((Nat.dvd_mul_left b (2 ^ j)).trans hdvd)
  have hapos : 0 < a := Nat.pos_of_ne_zero fun hzero => hn (by rw [hzero, Nat.zero_mul])
  exact ⟨b, j, (Nat.le_of_dvd hapos hba).trans_lt ha, Nat.mul_comm _ _⟩

theorem nearestEven_natCast (n : ℕ) : nearestEven (n : ℚ) = n := by
  have hint := nearestEven_intCast (n : ℤ)
  rwa [Int.cast_natCast] at hint

theorem nearestEven_nonneg {q : ℚ} (h : 0 ≤ q) : 0 ≤ nearestEven q := by
  have hfloor : 0 ≤ ⌊q⌋ := Int.floor_nonneg.mpr h
  unfold nearestEven
  split_ifs
  all_goals omega

theorem nearestEven_le {q : ℚ} {b : ℤ} (h : q < b) : nearestEven q ≤ b := by
  have hfloor : ⌊q⌋ < b := Int.floor_lt.mpr h
  unfold nearestEven
  split_ifs
  all_goals omega

theorem log_lt_of_lastPlace (n : ℕ) : (n : ℚ) < 2 ^ (53 + lastPlace (n : ℚ)) := by
  have hself := Int.lt_zpow_succ_log_self (b := 2) (by norm_num) |(n : ℚ)|
  have hplace : Int.log 2 |(n : ℚ)| + 1 ≤ 53 + lastPlace (n : ℚ) := by
    unfold lastPlace
    omega
  calc
    (n : ℚ) ≤ |(n : ℚ)| := le_abs_self _
    _ < ((2 : ℕ) : ℚ) ^ (Int.log 2 |(n : ℚ)| + 1) := hself
    _ ≤ 2 ^ (53 + lastPlace (n : ℚ)) := by
      rw [Nat.cast_ofNat]
      exact zpow_le_zpow_right₀ (by norm_num) hplace

theorem rounded_natCast (n : ℕ) : ∃ m, Representable m ∧ rounded (n : ℚ) = m := by
  by_cases hsmall : n < 2 ^ 53
  · refine ⟨n, representable_of_lt hsmall, ?_⟩
    have hint := rounded_intCast (n := (n : ℤ)) (by rw [Nat.abs_cast]; exact_mod_cast hsmall)
    rwa [Int.cast_natCast] at hint
  -- from there on the last place is a whole number
  obtain ⟨k, hk⟩ : ∃ k : ℕ, lastPlace (n : ℚ) = k := by
    have hbig : (2 : ℚ) ^ (53 : ℤ) ≤ |(n : ℚ)| := by
      rw [Nat.abs_cast]
      exact_mod_cast Nat.le_of_not_lt hsmall
    have hlog : (53 : ℤ) ≤ Int.log 2 |(n : ℚ)| := by
      have hpos : (0 : ℚ) < |(n : ℚ)| := lt_of_lt_of_le (by norm_num) hbig
      rw [← Int.zpow_le_iff_le_log (by norm_num) hpos]
      exact_mod_cast hbig
    refine ⟨(lastPlace (n : ℚ)).toNat, ?_⟩
    unfold lastPlace
    omega
  have hunit : (0 : ℚ) < 2 ^ k := by positivity
  have hlow : 0 ≤ nearestEven ((n : ℚ) / 2 ^ k) := nearestEven_nonneg (by positivity)
  have hhigh : nearestEven ((n : ℚ) / 2 ^ k) ≤ 2 ^ 53 := by
    apply nearestEven_le
    rw [div_lt_iff₀ hunit]
    have hself := log_lt_of_lastPlace n
    rw [hk, zpow_add₀ (by norm_num), zpow_natCast] at hself
    exact_mod_cast hself
  obtain ⟨s, hs⟩ := Int.eq_ofNat_of_zero_le hlow
  refine ⟨s * 2 ^ k, ?_, ?_⟩
  · have hle : s ≤ 2 ^ 53 := by
      rw [hs] at hhigh
      exact_mod_cast hhigh
    rcases Nat.lt_or_eq_of_le hle with hlt | rfl
    · exact ⟨s, k, hlt, rfl⟩
    · exact ⟨1, 53 + k, by norm_num, by rw [Nat.one_mul, pow_add]⟩
  · rw [rounded, hk, zpow_natCast, hs]
    push_cast
    rfl

theorem rounded_of_representable {n : ℕ} (h : Representable n) : rounded (n : ℚ) = n := by
  obtain ⟨m, k, hm, rfl⟩ := h
  by_cases hzero : m = 0
  · have hint := rounded_intCast (n := 0) (by norm_num)
    subst hzero
    simpa using hint
  -- the last place is not above the power, so the number is a whole number of them
  have hplace : lastPlace ((m * 2 ^ k : ℕ) : ℚ) ≤ k := by
    have hpos : (0 : ℚ) < ((m * 2 ^ k : ℕ) : ℚ) := by
      exact_mod_cast Nat.mul_pos (Nat.pos_of_ne_zero hzero) (Nat.two_pow_pos k)
    have hlt : Int.log 2 ((m * 2 ^ k : ℕ) : ℚ) < 53 + k := by
      rw [← Int.lt_zpow_iff_log_lt (by norm_num) hpos]
      have hcast : ((m * 2 ^ k : ℕ) : ℚ) < ((2 ^ 53 * 2 ^ k : ℕ) : ℚ) := by
        exact_mod_cast Nat.mul_lt_mul_of_pos_right hm (Nat.two_pow_pos k)
      rw [Nat.cast_ofNat, zpow_add₀ (by norm_num), zpow_natCast]
      exact_mod_cast hcast
    unfold lastPlace
    rw [Nat.abs_cast]
    omega
  obtain ⟨j, hj⟩ : ∃ j : ℕ, (k : ℤ) = lastPlace ((m * 2 ^ k : ℕ) : ℚ) + j :=
    ⟨(k - lastPlace ((m * 2 ^ k : ℕ) : ℚ)).toNat, by omega⟩
  have hunit : (0 : ℚ) < 2 ^ lastPlace ((m * 2 ^ k : ℕ) : ℚ) := zpow_pos (by norm_num) _
  have hwhole : ((m * 2 ^ k : ℕ) : ℚ) / 2 ^ lastPlace ((m * 2 ^ k : ℕ) : ℚ) = ((m * 2 ^ j : ℕ) : ℚ) := by
    rw [div_eq_iff hunit.ne']
    have hpow : (2 : ℚ) ^ k = 2 ^ lastPlace ((m * 2 ^ k : ℕ) : ℚ) * 2 ^ j := by
      rw [← zpow_natCast, hj, zpow_add₀ (by norm_num), zpow_natCast]
    generalize lastPlace ((m * 2 ^ k : ℕ) : ℚ) = place at hpow
    push_cast
    rw [hpow]
    ring
  rw [rounded, hwhole, nearestEven_natCast, Int.cast_natCast, ← hwhole]
  exact div_mul_cancel₀ _ hunit.ne'

namespace Num

theorem neg_two_pow_lt {q : ℚ} (h : 0 ≤ q) : -2 ^ 1024 < q :=
  lt_of_lt_of_le (neg_lt_zero.mpr (pow_pos (by norm_num) 1024)) h

theorem double_natCast_cases (n : ℕ) :
    double (n : ℚ) = posInf ∨ ∃ m, Representable m ∧ double (n : ℚ) = ofNat m := by
  obtain ⟨m, hm, hround⟩ := rounded_natCast n
  have hnonneg : (0 : ℚ) ≤ m := Nat.cast_nonneg m
  rw [double, hround, if_neg (not_le.mpr (neg_two_pow_lt hnonneg))]
  by_cases hbig : (2 : ℚ) ^ 1024 ≤ m
  · exact Or.inl (if_pos hbig)
  · exact Or.inr ⟨m, hm, if_neg hbig⟩

theorem representable_of_double {n m : ℕ} (h : double (n : ℚ) = ofNat m) : Representable m := by
  rcases double_natCast_cases n with hinf | ⟨k, hk, hfin⟩
  · rw [hinf] at h
    cases h
  · rw [hfin] at h
    rwa [← ofNat_inj.mp h]

theorem double_of_representable {n m : ℕ} (hn : Representable n) (h : double (n : ℚ) = ofNat m) :
    m = n := by
  have hnonneg : (0 : ℚ) ≤ n := Nat.cast_nonneg n
  rw [double, rounded_of_representable hn, if_neg (not_le.mpr (neg_two_pow_lt hnonneg))] at h
  by_cases hbig : (2 : ℚ) ^ 1024 ≤ n
  · rw [if_pos hbig] at h
    cases h
  · rw [if_neg hbig] at h
    exact (ofNat_inj.mp h).symm

theorem double_of_le {n m : ℕ} {q : ℚ} (hn : Representable n) (hle : n ≤ m) (h : double q = ofNat m) :
    double (n : ℚ) = ofNat n := by
  have hm : (m : ℚ) < 2 ^ 1024 := by
    by_cases hlow : rounded q ≤ -2 ^ 1024
    · rw [double, if_pos hlow] at h
      cases h
    by_cases hhigh : 2 ^ 1024 ≤ rounded q
    · rw [double, if_neg hlow, if_pos hhigh] at h
      cases h
    rw [double, if_neg hlow, if_neg hhigh] at h
    have hround : rounded q = m := fin.inj h
    rw [← hround]
    exact not_le.mp hhigh
  have hnonneg : (0 : ℚ) ≤ n := Nat.cast_nonneg n
  have hcast : (n : ℚ) ≤ m := by exact_mod_cast hle
  rw [double, rounded_of_representable hn, if_neg (not_le.mpr (neg_two_pow_lt hnonneg)),
    if_neg (not_le.mpr (hcast.trans_lt hm)), ofNat]

theorem div_ofNat_of_double {m d : ℕ} {q : ℚ} (h : double q = ofNat m) (hrep : Representable m)
    (hd : 0 < d) (hdvd : d ∣ m) : div (ofNat m) (ofNat d) = ofNat (m / d) := by
  have hdq : (d : ℚ) ≠ 0 := by exact_mod_cast hd.ne'
  have hquot : Representable (m / d) := by
    by_cases hzero : m = 0
    · rw [hzero, Nat.zero_div]
      exact representable_zero
    · exact hrep.of_dvd hzero (Nat.div_dvd_of_dvd hdvd)
  rw [ofNat, ofNat, div, if_neg hdq, ← Nat.cast_div hdvd hdq]
  exact double_of_le hquot (Nat.div_le_self m d) h

/-! ### Products -/

theorem mul_ofNat_eq (a b : ℕ) : mul (ofNat a) (ofNat b) = double ((a * b : ℕ) : ℚ) := by
  rw [ofNat, ofNat, mul]
  push_cast
  rfl

theorem mul_posInf_ofNat (n : ℕ) :
    mul posInf (ofNat n) = posInf ∨ mul posInf (ofNat n) = nan := by
  have hnonneg : (0 : ℚ) ≤ n := Nat.cast_nonneg n
  have hsign : (ofNat n).sgn = 1 ∨ (ofNat n).sgn = 0 := by
    change (if (0 : ℚ) < n then (1 : ℤ) else if (n : ℚ) < 0 then -1 else 0) = 1 ∨
      (if (0 : ℚ) < n then (1 : ℤ) else if (n : ℚ) < 0 then -1 else 0) = 0
    by_cases hpos : (0 : ℚ) < n
    · exact Or.inl (if_pos hpos)
    · rw [if_neg hpos, if_neg (not_lt.mpr hnonneg)]
      exact Or.inr rfl
  change infinity (1 * (ofNat n).sgn) = _ ∨ infinity (1 * (ofNat n).sgn) = _
  rcases hsign with hs | hs
  · exact Or.inl (by rw [hs]; rfl)
  · exact Or.inr (by rw [hs]; rfl)

theorem foldl_mul_posInf (dims : List ℕ) {x : Num} (hx : x = posInf ∨ x = nan) :
    dims.foldl (fun a b => a.mul (.ofNat b)) x = posInf ∨
      dims.foldl (fun a b => a.mul (.ofNat b)) x = nan := by
  induction dims generalizing x with
  | nil => exact hx
  | cons d dims ih =>
    apply ih
    rcases hx with rfl | rfl
    · exact mul_posInf_ofNat d
    · exact Or.inr rfl

theorem foldl_mul_posInf_ne (dims : List ℕ) (m : ℕ) :
    dims.foldl (fun a b => a.mul (.ofNat b)) posInf ≠ ofNat m := by
  intro h
  rcases foldl_mul_posInf dims (Or.inl rfl) with hinf | hnan
  · rw [hinf] at h
    cases h
  · rw [hnan] at h
    cases h

theorem foldl_mul_cases (dims : List ℕ) {acc : ℕ} (hacc : Representable acc) :
    (∃ m, Representable m ∧ dims.foldl (fun a b => a.mul (.ofNat b)) (ofNat acc) = ofNat m) ∨
      dims.foldl (fun a b => a.mul (.ofNat b)) (ofNat acc) = posInf ∨
      dims.foldl (fun a b => a.mul (.ofNat b)) (ofNat acc) = nan := by
  induction dims generalizing acc with
  | nil => exact Or.inl ⟨acc, hacc, rfl⟩
  | cons d dims ih =>
    rw [List.foldl_cons, mul_ofNat_eq]
    rcases double_natCast_cases (acc * d) with hinf | ⟨m, hm, hfin⟩
    · rw [hinf]
      exact Or.inr (foldl_mul_posInf dims (Or.inl rfl))
    · rw [hfin]
      exact ih hm

theorem foldl_mul_zero (dims : List ℕ) :
    dims.foldl (fun a b => a.mul (.ofNat b)) (ofNat 0) = ofNat 0 := by
  induction dims with
  | nil => rfl
  | cons d dims ih =>
    have hzero : mul (ofNat 0) (ofNat d) = ofNat 0 := by
      rw [mul_ofNat (by rw [Nat.zero_mul]; norm_num), Nat.zero_mul]
    rw [List.foldl_cons, hzero, ih]

theorem foldl_mul_exact {dims : List ℕ} {acc m : ℕ}
    (hprod : Representable (acc * dims.prod)) (hne : acc * dims.prod ≠ 0)
    (h : dims.foldl (fun a b => a.mul (.ofNat b)) (ofNat acc) = ofNat m) :
    m = acc * dims.prod := by
  induction dims generalizing acc with
  | nil =>
    rw [List.prod_nil, Nat.mul_one]
    exact (ofNat_inj.mp h).symm
  | cons d dims ih =>
    rw [List.prod_cons, ← Nat.mul_assoc] at hprod hne ⊢
    rw [List.foldl_cons, mul_ofNat_eq] at h
    have hstep : Representable (acc * d) := hprod.of_dvd hne (Nat.dvd_mul_right _ _)
    rcases double_natCast_cases (acc * d) with hinf | ⟨k, -, hfin⟩
    · rw [hinf] at h
      exact absurd h (foldl_mul_posInf_ne dims m)
    · rw [hfin, double_of_representable hstep hfin] at h
      exact ih hprod hne h

theorem foldl_mul_of_zero_mem {dims : List ℕ} (hmem : 0 ∈ dims) {acc m : ℕ}
    (h : dims.foldl (fun a b => a.mul (.ofNat b)) (ofNat acc) = ofNat m) : m = 0 := by
  induction dims generalizing acc with
  | nil => cases hmem
  | cons d dims ih =>
    rw [List.foldl_cons, mul_ofNat_eq] at h
    rcases List.mem_cons.mp hmem with rfl | hmem
    · rw [Nat.mul_zero, double_natCast (by norm_num), foldl_mul_zero] at h
      exact (ofNat_inj.mp h).symm
    · rcases double_natCast_cases (acc * d) with hinf | ⟨k, -, hfin⟩
      · rw [hinf] at h
        exact absurd h (foldl_mul_posInf_ne dims m)
      · rw [hfin] at h
        exact ih hmem h

end Num

end KvasirNet
