import Mathlib.Data.Nat.Choose.Basic
import Mathlib.Algebra.Order.Field.Rat
import Mathlib.Algebra.Order.Field.Basic
import Mathlib.Algebra.Order.Ring.Cast
import Mathlib.Data.Nat.Cast.Order.Ring
import Mathlib.Order.Bounds.Basic
import Mathlib.Tactic.Linarith
import Mathlib.Tactic.Positivity
import Mathlib.Tactic.FieldSimp

/-! The plan that a desktop shows when it joins: how likely a token asks for one of its experts, and
how many layers it may take before the network is slower than the target. -/
namespace KvasirNet.NetworkPlan

/-! ## Draws without replacement -/

/-- The share of draws that miss: of `total` things `free` may be drawn, one after the other. -/
def missing (total free : ℕ) : ℕ → ℚ
  | 0 => 1
  | draws + 1 => missing total free draws * (max 0 ((free : ℚ) - draws) / (total - draws))

theorem cast_descFactorial (n k : ℕ) :
    ((n.descFactorial (k + 1) : ℕ) : ℚ) = n.descFactorial k * max 0 ((n : ℚ) - k) := by
  rw [Nat.descFactorial_succ, Nat.cast_mul, mul_comm]
  rcases Nat.le_total k n with hle | hle
  · rw [Nat.cast_sub hle, max_eq_right (sub_nonneg.mpr (Nat.cast_le.mpr hle))]
  · rw [Nat.sub_eq_zero_of_le hle, Nat.cast_zero,
      max_eq_left (sub_nonpos.mpr (Nat.cast_le.mpr hle))]

variable {total draws : ℕ}

theorem missing_eq_descFactorial (free : ℕ) (h : draws ≤ total) :
    missing total free draws = free.descFactorial draws / total.descFactorial draws := by
  induction draws with
  | zero => simp [missing]
  | succ draws ih =>
    have hlt : (draws : ℚ) ≤ total := Nat.cast_le.mpr (Nat.le_of_succ_le h)
    rw [missing, ih (Nat.le_of_succ_le h), div_mul_div_comm, cast_descFactorial free,
      cast_descFactorial total, max_eq_right (sub_nonneg.mpr hlt)]

theorem missing_eq_choose (free : ℕ) (h : draws ≤ total) :
    missing total free draws = (free.choose draws : ℚ) / total.choose draws := by
  have hfactorial : (draws.factorial : ℚ) ≠ 0 := Nat.cast_ne_zero.mpr draws.factorial_ne_zero
  rw [missing_eq_descFactorial free h, Nat.descFactorial_eq_factorial_mul_choose,
    Nat.descFactorial_eq_factorial_mul_choose, Nat.cast_mul, Nat.cast_mul,
    mul_div_mul_left _ _ hfactorial]

theorem missing_nonneg (free : ℕ) (h : draws ≤ total) :
    0 ≤ missing total free draws := by
  rw [missing_eq_choose free h]
  positivity

theorem missing_mono {free free' : ℕ} (h : draws ≤ total) (hfree : free ≤ free') :
    missing total free draws ≤ missing total free' draws := by
  rw [missing_eq_choose free h, missing_eq_choose free' h]
  apply div_le_div_of_nonneg_right _ (Nat.cast_nonneg _)
  exact Nat.cast_le.mpr (Nat.choose_le_choose draws hfree)

theorem missing_self (h : draws ≤ total) : missing total total draws = 1 := by
  rw [missing_eq_choose total h]
  exact div_self (Nat.cast_ne_zero.mpr (Nat.choose_pos h).ne')

theorem missing_antitone {free draws' : ℕ} (hfree : free ≤ total) (hle : draws ≤ draws')
    (h : draws' ≤ total) : missing total free draws' ≤ missing total free draws := by
  induction draws', hle using Nat.le_induction with
  | base => exact le_refl _
  | succ d _ ih =>
    have hd : (d : ℚ) < total := Nat.cast_lt.mpr h
    have hfactor : max 0 ((free : ℚ) - d) / (total - d) ≤ 1 := by
      rw [div_le_one (sub_pos.mpr hd)]
      apply max_le (sub_nonneg.mpr hd.le)
      exact sub_le_sub_right (Nat.cast_le.mpr hfree) _
    calc
      missing total free (d + 1)
        = missing total free d * (max 0 ((free : ℚ) - d) / (total - d)) := rfl
      _ ≤ missing total free d * 1 :=
        mul_le_mul_of_nonneg_left hfactor (missing_nonneg free (Nat.le_of_succ_le h))
      _ = missing total free d := mul_one _
      _ ≤ missing total free draws := ih (Nat.le_of_succ_le h)

/-! ## The plan -/

/-- The loop of `hitProbability`, after so many draws. -/
def missLoop (total held : ℕ) : ℕ → ℚ
  | 0 => 1
  | i + 1 => missLoop total held i * (max 0 ((total : ℚ) - held - i) / (total - i))

def hitProbability (total held used : ℕ) : ℚ :=
  if ¬ 0 < total ∨ ¬ 0 < held ∨ ¬ 0 < used then 0
  else if total ≤ held then 1
  else 1 - missLoop total held used

inductive Wire
  | v1
  | v2f16
  deriving DecidableEq, Repr

/-- What `planLayers` is given; the defaults are its own. -/
structure Inputs where
  rttMs : ℚ
  computeMs : ℚ := 2
  baseTps : ℚ
  nExpert : ℕ := 288
  nUsed : ℕ := 8
  expertsPerLayer : ℕ := 64
  nEmbd : ℕ := 4096
  uploadBytesPerSecond : ℚ := 5000000
  maxLayers : ℕ := 8
  targetTps : ℚ := 4
  wire : Wire := .v1

structure Row where
  layers : ℕ
  tokenMs : ℚ
  tps : ℚ
  meetsTarget : Bool
  deriving DecidableEq, Repr

structure Plan where
  perLayerMs : ℚ
  transferMs : ℚ
  computeMs : ℚ
  wire : Wire
  hitProbability : ℚ
  baseTps : ℚ
  targetTps : ℚ
  rows : List Row
  recommendedLayers : ℕ

namespace Inputs
variable (x : Inputs)

def p : ℚ := NetworkPlan.hitProbability x.nExpert x.expertsPerLayer x.nUsed

def pairsPerHit : ℚ :=
  if 0 < x.p then (x.nUsed * x.expertsPerLayer / x.nExpert : ℚ) / x.p else 0

def bytes : ℚ :=
  match x.wire with
  | .v2f16 => x.nEmbd * 2
  | .v1 => x.pairsPerHit * x.nEmbd * 4

def transferMs : ℚ := x.bytes / x.uploadBytesPerSecond * 1000

def perLayerMs : ℚ := x.rttMs + x.computeMs + x.transferMs

def baseMs : ℚ := 1000 / x.baseTps

def row (k : ℕ) : Row :=
  let tokenMs := x.baseMs + k * x.p * x.perLayerMs
  ⟨k, tokenMs, 1000 / tokenMs, x.targetTps ≤ 1000 / tokenMs⟩

def rows : List Row := (List.range (x.maxLayers + 1)).map x.row

def fits : List Row := x.rows.filter fun r => 0 < r.layers ∧ r.meetsTarget

end Inputs

def planLayers (x : Inputs) : Plan where
  perLayerMs := x.perLayerMs
  transferMs := x.transferMs
  computeMs := x.computeMs
  wire := x.wire
  hitProbability := x.p
  baseTps := x.baseTps
  targetTps := x.targetTps
  rows := x.rows
  recommendedLayers := (x.fits.getLast?.map Row.layers).getD 0

example : hitProbability 10 4 2 = 2 / 3 := by decide +kernel

/-! ## The probability -/

theorem missLoop_eq {held : ℕ} (h : held ≤ total) (draws : ℕ) :
    missLoop total held draws = missing total (total - held) draws := by
  induction draws with
  | zero => rfl
  | succ i ih => rw [missLoop, missing, ih, Nat.cast_sub h]

variable {used : ℕ}

theorem hitProbability_eq (held : ℕ) (htotal : 0 < total) (hused : used ≤ total) :
    hitProbability total held used = 1 - missing total (total - held) used := by
  unfold hitProbability
  by_cases hzero : ¬ 0 < total ∨ ¬ 0 < held ∨ ¬ 0 < used
  · rw [if_pos hzero]
    rcases hzero with hno | hno | hno
    · exact absurd htotal hno
    · rw [Nat.eq_zero_of_not_pos hno, Nat.sub_zero, missing_self hused, sub_self]
    · rw [Nat.eq_zero_of_not_pos hno]
      exact (sub_self 1).symm
  rw [if_neg hzero]
  by_cases hall : total ≤ held
  · have hpos : 0 < used := by
      by_contra hno
      exact hzero (.inr (.inr hno))
    rw [if_pos hall, missing_eq_choose _ hused, Nat.sub_eq_zero_of_le hall,
      Nat.choose_eq_zero_of_lt hpos, Nat.cast_zero, zero_div, sub_zero]
  · rw [if_neg hall, missLoop_eq (Nat.le_of_not_le hall)]

theorem hitProbability_eq_choose (held : ℕ) (htotal : 0 < total)
    (hused : used ≤ total) : hitProbability total held used =
      1 - ((total - min held total).choose used : ℚ) / total.choose used := by
  have hcapped : total - min held total = total - held := by omega
  rw [hitProbability_eq held htotal hused, missing_eq_choose _ hused, hcapped]

theorem hitProbability_mem (held : ℕ) (htotal : 0 < total) (hused : used ≤ total) :
    0 ≤ hitProbability total held used ∧ hitProbability total held used ≤ 1 := by
  have hnonneg := missing_nonneg (total - held) hused
  have hle := missing_mono hused (Nat.sub_le total held)
  rw [missing_self hused] at hle
  rw [hitProbability_eq held htotal hused]
  constructor <;> linarith

theorem hitProbability_mono {held held' used' : ℕ} (htotal : 0 < total)
    (hheld : held ≤ held') (hused : used ≤ used') (hle : used' ≤ total) :
    hitProbability total held used ≤ hitProbability total held' used' := by
  rw [hitProbability_eq held htotal (hused.trans hle), hitProbability_eq held' htotal hle]
  apply sub_le_sub_left
  calc
    missing total (total - held') used'
      ≤ missing total (total - held') used := missing_antitone (Nat.sub_le _ _) hused hle
    _ ≤ missing total (total - held) used :=
      missing_mono (hused.trans hle) (Nat.sub_le_sub_left hheld total)

/-! ## The layers -/

/-- The rates are positive, and as many experts are used as there are at most. -/
structure Inputs.Sensible (x : Inputs) : Prop where
  nExpert : 0 < x.nExpert
  nUsed : x.nUsed ≤ x.nExpert
  rttMs : 0 < x.rttMs
  computeMs : 0 ≤ x.computeMs
  baseTps : 0 < x.baseTps
  upload : 0 < x.uploadBytesPerSecond

section
variable {x : Inputs} (h : x.Sensible)
include h

theorem p_nonneg : 0 ≤ x.p := (hitProbability_mem _ h.nExpert h.nUsed).1

theorem perLayerMs_pos : 0 < x.perLayerMs := by
  have hpairs : 0 ≤ x.pairsPerHit := by
    unfold Inputs.pairsPerHit
    split_ifs with hp
    · positivity
    · exact le_refl _
  have hbytes : 0 ≤ x.bytes := by
    unfold Inputs.bytes
    cases x.wire with
    | v1 => positivity
    | v2f16 => positivity
  have htransfer : 0 ≤ x.transferMs := by
    have hupload := h.upload
    unfold Inputs.transferMs
    positivity
  have hrtt := h.rttMs
  have hcompute := h.computeMs
  unfold Inputs.perLayerMs
  linarith

theorem baseMs_pos : 0 < x.baseMs := div_pos (by norm_num) h.baseTps

theorem tokenMs_pos (k : ℕ) : 0 < (x.row k).tokenMs := by
  have hlayers : 0 ≤ k * x.p * x.perLayerMs :=
    mul_nonneg (mul_nonneg (Nat.cast_nonneg k) (p_nonneg h)) (perLayerMs_pos h).le
  have hbase := baseMs_pos h
  show 0 < x.baseMs + k * x.p * x.perLayerMs
  linarith

theorem tokenMs_mono {k l : ℕ} (hkl : k ≤ l) : (x.row k).tokenMs ≤ (x.row l).tokenMs := by
  apply add_le_add_right
  apply mul_le_mul_of_nonneg_right _ (perLayerMs_pos h).le
  exact mul_le_mul_of_nonneg_right (Nat.cast_le.mpr hkl) (p_nonneg h)

theorem tps_antitone {k l : ℕ} (hkl : k ≤ l) : (x.row l).tps ≤ (x.row k).tps :=
  div_le_div_of_nonneg_left (by norm_num) (tokenMs_pos h k) (tokenMs_mono h hkl)

theorem tps_strict {k l : ℕ} (hp : 0 < x.p) (hkl : k < l) : (x.row l).tps < (x.row k).tps := by
  apply div_lt_div_of_pos_left (by norm_num) (tokenMs_pos h k)
  apply add_lt_add_right
  apply mul_lt_mul_of_pos_right _ (perLayerMs_pos h)
  exact mul_lt_mul_of_pos_right (Nat.cast_lt.mpr hkl) hp

theorem meets_of_le {k l : ℕ} (hkl : k ≤ l) (hl : (x.row l).meetsTarget = true) :
    (x.row k).meetsTarget = true :=
  decide_eq_true ((of_decide_eq_true hl).trans (tps_antitone h hkl))

end

variable {x : Inputs}

theorem mem_rows {r : Row} : r ∈ x.rows ↔ ∃ k ≤ x.maxLayers, r = x.row k := by
  simp only [Inputs.rows, List.mem_map, List.mem_range, Nat.lt_succ_iff]
  constructor
  · rintro ⟨k, hk, rfl⟩
    exact ⟨k, hk, rfl⟩
  · rintro ⟨k, hk, rfl⟩
    exact ⟨k, hk, rfl⟩

theorem layers_le_of_getLast {r r' : Row} (hlast : x.fits.getLast? = some r)
    (hr' : r' ∈ x.fits) : r'.layers ≤ r.layers := by
  have hsorted : x.fits.Pairwise fun a b => a.layers < b.layers := by
    apply List.Pairwise.filter
    apply List.pairwise_map.mpr
    exact List.pairwise_lt_range
  obtain ⟨init, hinit⟩ := List.getLast?_eq_some_iff.mp hlast
  rw [hinit] at hr' hsorted
  rcases List.mem_append.mp hr' with hmem | hmem
  · exact Nat.le_of_lt ((List.pairwise_append.mp hsorted).2.2 r' hmem r (List.mem_singleton.mpr rfl))
  · rw [List.mem_singleton.mp hmem]

theorem mem_fits {r : Row} :
    r ∈ x.fits ↔ r ∈ x.rows ∧ 0 < r.layers ∧ r.meetsTarget = true := by
  rw [Inputs.fits, List.mem_filter, decide_eq_true_eq]

/-- The layers up to which every plan meets the target. -/
def Meets (x : Inputs) (k : ℕ) : Prop :=
  k ≤ x.maxLayers ∧ ∀ r ∈ x.rows, 1 ≤ r.layers → r.layers ≤ k → r.meetsTarget = true

theorem recommendedLayers_greatest (h : x.Sensible) :
    IsGreatest {k | Meets x k} (planLayers x).recommendedLayers := by
  show IsGreatest _ ((x.fits.getLast?.map Row.layers).getD 0)
  cases hlast : x.fits.getLast? with
  | none =>
    rw [Option.map_none, Option.getD_none]
    refine ⟨⟨Nat.zero_le _, fun r _ hpos hle => absurd (hpos.trans hle) (by decide)⟩, ?_⟩
    rintro k ⟨hk, hmeets⟩
    by_contra hpos
    -- one layer would fit
    have hrow : x.row 1 ∈ x.fits := by
      have hone : x.row 1 ∈ x.rows := mem_rows.mpr ⟨1, by omega, rfl⟩
      exact mem_fits.mpr ⟨hone, Nat.one_pos, hmeets _ hone (Nat.le_refl 1) (by show 1 ≤ k; omega)⟩
    rw [List.getLast?_eq_none_iff.mp hlast] at hrow
    exact absurd hrow List.not_mem_nil
  | some r =>
    obtain ⟨hmem, -, hmeets⟩ := mem_fits.mp (List.mem_of_getLast? hlast)
    obtain ⟨l, hl, rfl⟩ := mem_rows.mp hmem
    rw [Option.map_some, Option.getD_some]
    refine ⟨⟨hl, fun r hr _ hle => ?_⟩, ?_⟩
    · obtain ⟨k, -, rfl⟩ := mem_rows.mp hr
      exact meets_of_le h hle hmeets
    · rintro k ⟨hk, hall⟩
      by_contra hlt
      have hrow : x.row k ∈ x.fits := by
        have hin : x.row k ∈ x.rows := mem_rows.mpr ⟨k, hk, rfl⟩
        exact mem_fits.mpr ⟨hin, by show 0 < k; omega, hall _ hin (by show 1 ≤ k; omega) (Nat.le_refl k)⟩
      exact hlt (layers_le_of_getLast hlast hrow)

/-- The probability is the hypergeometric one, and the recommendation rests on its speeds falling. -/
theorem layer_plan :
    (∀ total held used : ℕ, 0 < total → used ≤ total →
      hitProbability total held used =
        1 - ((total - min held total).choose used : ℚ) / total.choose used ∧
      0 ≤ hitProbability total held used ∧ hitProbability total held used ≤ 1 ∧
      (∀ held', held ≤ held' → hitProbability total held used ≤ hitProbability total held' used) ∧
      ∀ used', used' ≤ used → hitProbability total held used' ≤ hitProbability total held used) ∧
    ∀ x : Inputs, x.Sensible →
      (planLayers x).rows.map Row.layers = List.range (x.maxLayers + 1) ∧
      (0 < (planLayers x).hitProbability → ∀ r ∈ (planLayers x).rows, ∀ r' ∈ (planLayers x).rows,
        r.layers < r'.layers → r'.tps < r.tps) ∧
      IsGreatest {k | Meets x k} (planLayers x).recommendedLayers := by
  refine ⟨fun total held used htotal hused => ⟨hitProbability_eq_choose held htotal hused,
    (hitProbability_mem held htotal hused).1, (hitProbability_mem held htotal hused).2,
    fun held' hheld => hitProbability_mono htotal hheld (Nat.le_refl _) hused,
    fun used' hle => hitProbability_mono htotal (Nat.le_refl _) hle hused⟩,
    fun x h => ⟨?_, fun hp r hr r' hr' hlt => ?_, recommendedLayers_greatest h⟩⟩
  · show x.rows.map Row.layers = _
    rw [Inputs.rows, List.map_map]
    exact List.map_id _
  · obtain ⟨k, -, rfl⟩ := mem_rows.mp hr
    obtain ⟨l, -, rfl⟩ := mem_rows.mp hr'
    exact tps_strict h hp hlt

/-- 20 ms to a backbone that alone gives 6 tokens a second. -/
def sampleInputs : Inputs := { rttMs := 20, baseTps := 6 }

theorem layer_plan_sample : hitProbability 288 64 8 = 1 - ((224 : ℕ).choose 8 : ℚ) / (288 : ℕ).choose 8 ∧
    IsGreatest {k | Meets sampleInputs k} (planLayers sampleInputs).recommendedLayers := by
  have hprobability := (layer_plan.1 288 64 8 (by decide) (by decide)).1
  have hplan := layer_plan.2 sampleInputs ⟨by decide, by decide, by norm_num [sampleInputs],
    by norm_num [sampleInputs], by norm_num [sampleInputs], by norm_num [sampleInputs]⟩
  exact ⟨hprobability, hplan.2.2⟩

end KvasirNet.NetworkPlan
