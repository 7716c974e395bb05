import Mathlib.Data.Int.Log
import Mathlib.Data.Rat.Floor
import Mathlib.Data.Prod.Lex
import Mathlib.Algebra.Order.Floor.Ring
import Mathlib.Tactic.Linarith
import Mathlib.Tactic.NormNum
import Mathlib.Tactic.FieldSimp
import Mathlib.Tactic.Positivity

/-! Double-precision arithmetic on rationals. A result is rounded to the nearest
double, ties to the even significand; integers below `2^53` come out exact, and a
quotient of two such integers is on the same side of every integer as the exact
one. The sign of a zero is left out. -/
namespace KvasirNet

inductive Num
  | nan
  | negInf
  | fin (q : ℚ)
  | posInf
  deriving DecidableEq, Repr

/-! ## Rounding -/

def nearestEven (q : ℚ) : ℤ :=
  if Int.fract q < 1 / 2 then ⌊q⌋
  else if 1 / 2 < Int.fract q then ⌊q⌋ + 1
  else if ⌊q⌋ % 2 = 0 then ⌊q⌋ else ⌊q⌋ + 1

theorem abs_nearestEven_sub (q : ℚ) : |(nearestEven q : ℚ) - q| ≤ 1 / 2 := by
  have hsplit : (⌊q⌋ : ℚ) + Int.fract q = q := Int.floor_add_fract q
  have hnonneg : 0 ≤ Int.fract q := Int.fract_nonneg q
  have hlt : Int.fract q < 1 := Int.fract_lt_one q
  unfold nearestEven
  split_ifs with hlow hhigh heven
  all_goals
    push_cast
    rw [abs_le]
    constructor <;> linarith

theorem nearestEven_intCast (n : ℤ) : nearestEven (n : ℚ) = n := by
  rw [nearestEven, Int.fract_intCast, Int.floor_intCast, if_pos (by norm_num)]

/-- The exponent of the last place of a 53-bit significand. -/
def lastPlace (q : ℚ) : ℤ := max (Int.log 2 |q| - 52) (-1074)

/-- The rational that `q` is rounded to, if it is not too large. -/
def rounded (q : ℚ) : ℚ := nearestEven (q / 2 ^ lastPlace q) * 2 ^ lastPlace q

def double (q : ℚ) : Num :=
  if rounded q ≤ -2 ^ 1024 then .negInf
  else if 2 ^ 1024 ≤ rounded q then .posInf
  else .fin (rounded q)

theorem double_of_abs_lt {q : ℚ} (h : |rounded q| < 2 ^ 1024) : double q = .fin (rounded q) := by
  obtain ⟨hlo, hhi⟩ := abs_lt.mp h
  rw [double, if_neg (not_le.mpr hlo), if_neg (not_le.mpr hhi)]

theorem rounded_intCast {n : ℤ} (h : |n| < 2 ^ 53) : rounded (n : ℚ) = n := by
  by_cases hzero : n = 0
  · subst hzero
    have hnear : nearestEven 0 = 0 := by simpa using nearestEven_intCast 0
    rw [rounded, Int.cast_zero, zero_div, hnear, Int.cast_zero, zero_mul]
  · have hpos : (0 : ℚ) < |(n : ℚ)| := by
      rw [abs_pos]
      exact_mod_cast hzero
    have hone : (1 : ℚ) ≤ |(n : ℚ)| := by
      have habs : 1 ≤ |n| := Int.one_le_abs hzero
      exact_mod_cast habs
    have hlog : Int.log 2 |(n : ℚ)| < 53 := by
      rw [← Int.lt_zpow_iff_log_lt (by norm_num) hpos]
      have hcast : |(n : ℚ)| < 2 ^ 53 := by exact_mod_cast h
      exact_mod_cast hcast
    have hlog0 : 0 ≤ Int.log 2 |(n : ℚ)| := by
      rw [← Int.zpow_le_iff_le_log (by norm_num) hpos]
      simpa using hone
    -- the last place is a fraction, so the integer is a whole number of them
    obtain ⟨k, hk⟩ : ∃ k : ℕ, lastPlace (n : ℚ) = -k := by
      refine ⟨(52 - Int.log 2 |(n : ℚ)|).toNat, ?_⟩
      unfold lastPlace
      omega
    have hunit : (n : ℚ) / 2 ^ lastPlace (n : ℚ) = ((n * 2 ^ k : ℤ) : ℚ) := by
      rw [hk, zpow_neg, zpow_natCast, div_inv_eq_mul]
      push_cast
      ring
    rw [rounded, hunit, nearestEven_intCast, ← hunit]
    exact div_mul_cancel₀ _ (zpow_pos (by norm_num) _).ne'

theorem double_intCast {n : ℤ} (h : |n| < 2 ^ 53) : double (n : ℚ) = .fin n := by
  have hsmall : |rounded (n : ℚ)| < 2 ^ 1024 := by
    rw [rounded_intCast h]
    have hcast : |(n : ℚ)| < 2 ^ 53 := by exact_mod_cast h
    exact hcast.trans (pow_lt_pow_right₀ (by norm_num) (by norm_num))
  rw [double_of_abs_lt hsmall, rounded_intCast h]

theorem abs_rounded_sub {q : ℚ} (hq : q ≠ 0) (h : (2 : ℚ) ^ (-1022 : ℤ) ≤ |q|) :
    |rounded q - q| ≤ |q| / 2 ^ 53 := by
  have hpos : 0 < |q| := abs_pos.mpr hq
  have hlog : -1022 ≤ Int.log 2 |q| := by
    rw [← Int.zpow_le_iff_le_log (by norm_num) hpos]
    exact_mod_cast h
  have hplace : lastPlace q = Int.log 2 |q| - 52 := by
    unfold lastPlace
    omega
  have hunit : (0 : ℚ) < 2 ^ lastPlace q := zpow_pos (by norm_num) _
  have hbelow : (2 : ℚ) ^ Int.log 2 |q| ≤ |q| := by
    have hself := Int.zpow_log_le_self (b := 2) (r := |q|) (by norm_num) hpos
    exact_mod_cast hself
  have herr : rounded q - q = (nearestEven (q / 2 ^ lastPlace q) - q / 2 ^ lastPlace q) * 2 ^ lastPlace q := by
    rw [rounded, sub_mul, div_mul_cancel₀ _ hunit.ne']
  calc
    |rounded q - q| = |(nearestEven (q / 2 ^ lastPlace q) : ℚ) - q / 2 ^ lastPlace q| * 2 ^ lastPlace q := by
      rw [herr, abs_mul, abs_of_pos hunit]
    _ ≤ 1 / 2 * 2 ^ lastPlace q := mul_le_mul_of_nonneg_right (abs_nearestEven_sub _) hunit.le
    _ = 2 ^ Int.log 2 |q| / 2 ^ 53 := by
      rw [hplace, zpow_sub₀ (by norm_num)]
      norm_num
      ring
    _ ≤ |q| / 2 ^ 53 := div_le_div_of_nonneg_right hbelow (by norm_num)

theorem double_div_intCast {a b : ℤ} (ha : |a| < 2 ^ 53) (hb0 : b ≠ 0) (hb : |b| < 2 ^ 53) :
    ∃ x : ℚ, double ((a : ℚ) / b) = .fin x ∧
      ∀ k : ℤ, (x < k ↔ (a : ℚ) / b < k) ∧ ((k : ℚ) < x ↔ (k : ℚ) < (a : ℚ) / b) := by
  by_cases ha0 : a = 0
  · subst ha0
    refine ⟨0, ?_, fun k => by simp⟩
    have hzero := double_intCast (n := 0) (by norm_num)
    simpa using hzero
  · have hbpos : (0 : ℚ) < |(b : ℚ)| := by
      rw [abs_pos]
      exact_mod_cast hb0
    have hacast : |(a : ℚ)| < 2 ^ 53 := by exact_mod_cast ha
    have hbcast : |(b : ℚ)| < 2 ^ 53 := by exact_mod_cast hb
    have ha1 : (1 : ℚ) ≤ |(a : ℚ)| := by
      have habs : 1 ≤ |a| := Int.one_le_abs ha0
      exact_mod_cast habs
    have hq : (a : ℚ) / b ≠ 0 := by
      apply div_ne_zero
      · exact_mod_cast ha0
      · exact_mod_cast hb0
    have hnormal : (2 : ℚ) ^ (-1022 : ℤ) ≤ |(a : ℚ) / b| := by
      rw [abs_div, le_div_iff₀ hbpos]
      calc
        (2 : ℚ) ^ (-1022 : ℤ) * |(b : ℚ)| ≤ 2 ^ (-1022 : ℤ) * 2 ^ 53 :=
          mul_le_mul_of_nonneg_left hbcast.le (zpow_pos (by norm_num) _).le
        _ = 2 ^ (-969 : ℤ) := by
          rw [← zpow_natCast, ← zpow_add₀ (by norm_num)]
          norm_num
        _ ≤ 1 := zpow_le_one_of_nonpos₀ (by norm_num) (by norm_num)
        _ ≤ |(a : ℚ)| := ha1
    have herr := abs_rounded_sub hq hnormal
    have hgap : |(a : ℚ) / b| / 2 ^ 53 < 1 / |(b : ℚ)| := by
      rw [abs_div, div_div, div_lt_div_iff₀ (by positivity) hbpos]
      calc
        |(a : ℚ)| * |(b : ℚ)| < 2 ^ 53 * |(b : ℚ)| := mul_lt_mul_of_pos_right hacast hbpos
        _ = 1 * (|(b : ℚ)| * 2 ^ 53) := by ring
    have hb1 : (1 : ℚ) ≤ |(b : ℚ)| := by
      have habs : 1 ≤ |b| := Int.one_le_abs hb0
      exact_mod_cast habs
    refine ⟨rounded ((a : ℚ) / b), double_of_abs_lt ?_, fun k => ?_⟩
    · have hle : |(a : ℚ) / b| ≤ |(a : ℚ)| := by
        rw [abs_div]
        exact div_le_self (abs_nonneg _) hb1
      calc
        |rounded ((a : ℚ) / b)| ≤ |(a : ℚ) / b| + |rounded ((a : ℚ) / b) - (a : ℚ) / b| := by
          have htri := abs_add_le ((a : ℚ) / b) (rounded ((a : ℚ) / b) - (a : ℚ) / b)
          rwa [add_sub_cancel] at htri
        _ < 2 ^ 53 + 1 := by
          have hone : 1 / |(b : ℚ)| ≤ 1 := (div_le_one hbpos).mpr hb1
          linarith
        _ ≤ 2 ^ 54 := by norm_num
        _ ≤ 2 ^ 1024 := pow_le_pow_right₀ (by norm_num) (by norm_num)
    · have hbne : (b : ℚ) ≠ 0 := by exact_mod_cast hb0
      by_cases hk : a = k * b
      · have hquot : (a : ℚ) / b = k := by
          rw [hk]
          push_cast
          exact mul_div_cancel_right₀ _ hbne
        have hkabs : |k| < 2 ^ 53 := by
          have hprod : |a| = |k| * |b| := by rw [hk, abs_mul]
          have hbabs : 1 ≤ |b| := Int.one_le_abs hb0
          have hknonneg : 0 ≤ |k| := abs_nonneg k
          nlinarith
        rw [hquot, rounded_intCast hkabs]
        exact ⟨Iff.rfl, Iff.rfl⟩
      · -- the quotient is at least `1 / b` away from an integer that it is not
        have hfar : 1 / |(b : ℚ)| ≤ |(a : ℚ) / b - k| := by
          have hdiff : (a : ℚ) / b - k = ((a - k * b : ℤ) : ℚ) / b := by
            push_cast
            field_simp
          have hnum : (1 : ℚ) ≤ |((a - k * b : ℤ) : ℚ)| := by
            have habs : 1 ≤ |a - k * b| := Int.one_le_abs (sub_ne_zero.mpr hk)
            exact_mod_cast habs
          rw [hdiff, abs_div]
          exact div_le_div_of_nonneg_right hnum hbpos.le
        have hclose : |rounded ((a : ℚ) / b) - (a : ℚ) / b| < |(a : ℚ) / b - k| :=
          herr.trans_lt (hgap.trans_le hfar)
        obtain ⟨hlo, hhi⟩ := abs_lt.mp hclose
        rcases le_or_gt 0 ((a : ℚ) / b - k) with hside | hside
        · rw [abs_of_nonneg hside] at hlo hhi
          constructor <;> constructor <;> intro h <;> linarith
        · rw [abs_of_neg hside] at hlo hhi
          constructor <;> constructor <;> intro h <;> linarith

theorem ceil_double_div {a b : ℤ} (ha : |a| < 2 ^ 53) (hb0 : b ≠ 0) (hb : |b| < 2 ^ 53) :
    ∃ x : ℚ, double ((a : ℚ) / b) = .fin x ∧ ⌈x⌉ = ⌈(a : ℚ) / b⌉ := by
  obtain ⟨x, hx, hside⟩ := double_div_intCast ha hb0 hb
  refine ⟨x, hx, ?_⟩
  apply Int.ceil_eq_iff.mpr
  have hself := Int.ceil_eq_iff.mp (rfl : ⌈(a : ℚ) / b⌉ = ⌈(a : ℚ) / b⌉)
  constructor
  · have hlow := (hside (⌈(a : ℚ) / b⌉ - 1)).2
    push_cast at hlow
    exact hlow.mpr hself.1
  · have hhigh := (hside ⌈(a : ℚ) / b⌉).2
    exact not_lt.mp fun h => absurd (hhigh.mp h) (not_lt.mpr hself.2)

/-! ## Operations -/

namespace Num

def sgn : Num → ℤ
  | nan => 0
  | negInf => -1
  | fin q => if 0 < q then 1 else if q < 0 then -1 else 0
  | posInf => 1

/-- An infinity of that sign; without one there is no number. -/
def infinity (s : ℤ) : Num := if 0 < s then posInf else if s < 0 then negInf else nan

def add : Num → Num → Num
  | fin a, fin b => double (a + b)
  | fin _, y => y
  | x, fin _ => x
  | x, y => if x = y then x else nan

def mul : Num → Num → Num
  | nan, _ => nan
  | _, nan => nan
  | fin a, fin b => double (a * b)
  | x, y => infinity (x.sgn * y.sgn)

def div : Num → Num → Num
  | nan, _ => nan
  | _, nan => nan
  | fin a, fin b => if b = 0 then infinity (sgn (fin a)) else double (a / b)
  | fin _, _ => fin 0
  | x, fin b => infinity (if b = 0 then x.sgn else x.sgn * sgn (fin b))
  | _, _ => nan

/-- The remainder of a truncating division, which is exact. -/
def rem : Num → Num → Num
  | fin a, fin b => if b = 0 then nan else fin (a - b * (if 0 ≤ a / b then ⌊a / b⌋ else ⌈a / b⌉))
  | fin a, posInf => fin a
  | fin a, negInf => fin a
  | _, _ => nan

def ceil : Num → Num
  | fin q => fin ⌈q⌉
  | x => x

def ofNat (n : ℕ) : Num := fin n

def key : Num → ℤ ×ₗ ℚ
  | nan => toLex (-2, 0)
  | negInf => toLex (-1, 0)
  | fin q => toLex (0, q)
  | posInf => toLex (1, 0)

theorem key_injective : Function.Injective key := by
  intro x y h
  cases x <;> cases y <;> simp_all [key]

instance : LinearOrder Num := LinearOrder.lift' key key_injective

theorem fin_le_fin {a b : ℚ} : fin a ≤ fin b ↔ a ≤ b := by
  change key (fin a) ≤ key (fin b) ↔ a ≤ b
  simp [key, Prod.Lex.toLex_le_toLex]

/-! ### Natural numbers below `2^53` -/

theorem ofNat_inj {a b : ℕ} : ofNat a = ofNat b ↔ a = b := by
  simp [ofNat]

theorem ofNat_eq_zero {n : ℕ} : ofNat n = fin 0 ↔ n = 0 := by
  simp [ofNat]

theorem double_natCast {n : ℕ} (h : n < 2 ^ 53) : double (n : ℚ) = ofNat n := by
  have habs : |(n : ℤ)| < 2 ^ 53 := by
    rw [Nat.abs_cast]
    exact_mod_cast h
  have hint := double_intCast habs
  exact_mod_cast hint

theorem add_ofNat {a b : ℕ} (h : a + b < 2 ^ 53) : add (ofNat a) (ofNat b) = ofNat (a + b) := by
  have hcast : (a : ℚ) + b = ((a + b : ℕ) : ℚ) := by push_cast; ring
  rw [ofNat, ofNat, add, hcast, double_natCast h]

theorem mul_ofNat {a b : ℕ} (h : a * b < 2 ^ 53) : mul (ofNat a) (ofNat b) = ofNat (a * b) := by
  have hcast : (a : ℚ) * b = ((a * b : ℕ) : ℚ) := by push_cast; ring
  rw [ofNat, ofNat, mul, hcast, double_natCast h]

theorem div_ofNat {a b : ℕ} (h : a < 2 ^ 53) (hb : 0 < b) (hdvd : b ∣ a) :
    div (ofNat a) (ofNat b) = ofNat (a / b) := by
  obtain ⟨c, rfl⟩ := hdvd
  have hbq : (b : ℚ) ≠ 0 := by exact_mod_cast hb.ne'
  have hcast : ((b * c : ℕ) : ℚ) / b = (c : ℚ) := by
    push_cast
    exact mul_div_cancel_left₀ _ hbq
  have hc : c < 2 ^ 53 := lt_of_le_of_lt (Nat.le_mul_of_pos_left c hb) h
  rw [ofNat, ofNat, div, if_neg hbq, hcast, double_natCast hc, Nat.mul_div_cancel_left c hb]

theorem rem_ofNat {a b : ℕ} (hb : 0 < b) : rem (ofNat a) (ofNat b) = ofNat (a % b) := by
  have hbq : (b : ℚ) ≠ 0 := by exact_mod_cast hb.ne'
  have hnonneg : (0 : ℚ) ≤ (a : ℚ) / b := by positivity
  have hfloor : ⌊(a : ℚ) / b⌋ = ((a / b : ℕ) : ℤ) := by
    rw [Rat.floor_natCast_div_natCast]
    exact_mod_cast rfl
  have hmod : (a : ℚ) - b * ((a / b : ℕ) : ℚ) = ((a % b : ℕ) : ℚ) := by
    have hsplit : ((b * (a / b) + a % b : ℕ) : ℚ) = a := by rw [Nat.div_add_mod]
    push_cast at hsplit
    linarith
  rw [ofNat, ofNat, rem, if_neg hbq, if_pos hnonneg, hfloor, Int.cast_natCast, hmod, ofNat]

end Num

end KvasirNet
