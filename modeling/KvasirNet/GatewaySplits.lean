import KvasirNet.GatewayNodes
import KvasirNet.GridSums

/-! A contribution credited in parts. The three totals of a row are rounded to a millionth after
every report, each at its own scale. -/
namespace KvasirNet.Gateway

def reportScale (cfg : Config) (n : NodeRow) : ℚ :=
  (tierFor n).mult * if n.hostsGateway then cfg.gatewayBonus else 1

/-- Reports of raw units, each with the second it is credited at, one after the other. -/
def creditEach (cfg : Config) (n : NodeRow) (reports : List (ℚ × ℕ)) : NodeRow :=
  reports.foldl (fun n r => creditContribution cfg n r.1 r.2) n

/-- A millionth is what `round6` rounds to. -/
def perUnit : ℕ := 1000000

/-- The terms of one total of a row: the raw units of the reports at a scale. -/
def termsAt (scale : ℚ) (reports : List (ℚ × ℕ)) : List ℚ := reports.map fun r => r.1 * scale

section
variable {cfg : Config} {n : NodeRow}

theorem creditContribution_of_pos {raw : ℚ} (h : 0 < raw) (now : ℕ) :
    creditContribution cfg n raw now =
      { n with
        contributedUnits := roundTo perUnit (n.contributedUnits + raw * 1)
        effectiveUnits := roundTo perUnit (n.effectiveUnits + raw * reportScale cfg n)
        pendingRewards := roundTo perUnit
          (n.pendingRewards + raw * (reportScale cfg n * cfg.rewardPerUnit))
        lastReport := some now } := by
  have heffective : raw * (tierFor n).mult * (if n.hostsGateway then cfg.gatewayBonus else 1) =
      raw * reportScale cfg n := mul_assoc _ _ _
  unfold creditContribution
  rw [if_neg (not_le.mpr h)]
  simp only [heffective, mul_one, mul_assoc]
  rfl

theorem reportScale_credit {raw : ℚ} (h : 0 < raw) (now : ℕ) :
    reportScale cfg (creditContribution cfg n raw now) = reportScale cfg n := by
  rw [creditContribution_of_pos h]
  rfl

theorem creditEach_totals {reports : List (ℚ × ℕ)} (h : ∀ r ∈ reports, 0 < r.1) :
    (creditEach cfg n reports).contributedUnits =
        roundedSum perUnit n.contributedUnits (termsAt 1 reports) ∧
      (creditEach cfg n reports).effectiveUnits =
        roundedSum perUnit n.effectiveUnits (termsAt (reportScale cfg n) reports) ∧
      (creditEach cfg n reports).pendingRewards =
        roundedSum perUnit n.pendingRewards
          (termsAt (reportScale cfg n * cfg.rewardPerUnit) reports) := by
  induction reports generalizing n with
  | nil => exact ⟨rfl, rfl, rfl⟩
  | cons r reports ih =>
    have hr : 0 < r.1 := h r List.mem_cons_self
    obtain ⟨hcontributed, heffective, hpending⟩ :=
      @ih (creditContribution cfg n r.1 r.2) fun s hs => h s (List.mem_cons_of_mem r hs)
    rw [reportScale_credit hr] at heffective hpending
    rw [creditContribution_of_pos hr] at hcontributed heffective hpending
    have hstep : creditEach cfg n (r :: reports) =
        creditEach cfg (creditContribution cfg n r.1 r.2) reports := rfl
    rw [hstep, creditContribution_of_pos hr]
    exact ⟨hcontributed, heffective, hpending⟩

theorem sum_termsAt (scale : ℚ) (reports : List (ℚ × ℕ)) :
    (termsAt scale reports).sum = (reports.map Prod.fst).sum * scale := by
  induction reports with
  | nil => exact (zero_mul scale).symm
  | cons r reports ih =>
    have hcons : (termsAt scale (r :: reports)).sum = r.1 * scale + (termsAt scale reports).sum :=
      List.sum_cons
    rw [hcons, ih, List.map_cons, List.sum_cons, add_mul]

theorem total_pos {r : ℚ × ℕ} {reports : List (ℚ × ℕ)} (h : ∀ s ∈ r :: reports, 0 < s.1) :
    0 < ((r :: reports).map Prod.fst).sum := by
  have hrest : 0 ≤ (reports.map Prod.fst).sum := by
    apply List.sum_nonneg
    intro x hx
    obtain ⟨s, hs, rfl⟩ := List.mem_map.mp hx
    exact (h s (List.mem_cons_of_mem r hs)).le
  rw [List.map_cons, List.sum_cons]
  exact add_pos_of_pos_of_nonneg (h r List.mem_cons_self) hrest

end

/-- Crediting the reports one by one and crediting their sum once leave the same totals exactly
when the terms of every total settle. -/
theorem split_credit_iff (cfg : Config) (n : NodeRow) (reports : List (ℚ × ℕ)) (now : ℕ)
    (h : ∀ r ∈ reports, 0 < r.1) :
    ((creditEach cfg n reports).contributedUnits =
        (creditContribution cfg n (reports.map Prod.fst).sum now).contributedUnits ∧
      (creditEach cfg n reports).effectiveUnits =
        (creditContribution cfg n (reports.map Prod.fst).sum now).effectiveUnits ∧
      (creditEach cfg n reports).pendingRewards =
        (creditContribution cfg n (reports.map Prod.fst).sum now).pendingRewards) ↔
    Settles perUnit n.contributedUnits (termsAt 1 reports) ∧
      Settles perUnit n.effectiveUnits (termsAt (reportScale cfg n) reports) ∧
      Settles perUnit n.pendingRewards
        (termsAt (reportScale cfg n * cfg.rewardPerUnit) reports) := by
  cases reports with
  | nil =>
    have hnone : creditContribution cfg n (([] : List (ℚ × ℕ)).map Prod.fst).sum now = n :=
      if_pos le_rfl
    rw [hnone]
    exact ⟨fun _ => ⟨trivial, trivial, trivial⟩, fun _ => ⟨rfl, rfl, rfl⟩⟩
  | cons r reports =>
    obtain ⟨hcontributed, heffective, hpending⟩ := @creditEach_totals cfg n _ h
    have hsettles : ∀ s scale : ℚ, roundedSum perUnit s (termsAt scale (r :: reports)) =
        roundTo perUnit (s + ((r :: reports).map Prod.fst).sum * scale) ↔
        Settles perUnit s (termsAt scale (r :: reports)) := by
      intro s scale
      rw [← sum_termsAt]
      exact roundedSum_eq_iff (by decide) _
    rw [hcontributed, heffective, hpending, creditContribution_of_pos (total_pos h)]
    exact and_congr (hsettles _ _) (and_congr (hsettles _ _) (hsettles _ _))

/-- Seven units in two reports, and at once. -/
theorem split_credit_whole_units : (creditEach defaultConfig (newNode "A" 5) [(3, 6), (4, 7)]).pendingRewards =
    (creditContribution defaultConfig (newNode "A" 5) 7 8).pendingRewards := by
  have hpos : ∀ r ∈ [((3 : ℚ), 6), (4, 7)], 0 < r.1 := by decide
  have hgrid : ∀ m z : ℕ, OnGrid perUnit ((m : ℚ) * z / perUnit) := by
    intro m z
    exact ⟨m * z, by push_cast; rfl⟩
  have hsettled : ∀ k : ℕ, Settles perUnit 0 (termsAt (k / perUnit) [(3, 6), (4, 7)]) := by
    intro k
    apply settles_of_onGrid (by decide) (onGrid_zero perUnit)
    intro x hx
    obtain ⟨r, hr, rfl⟩ := List.mem_map.mp hx
    rcases List.mem_cons.mp hr with rfl | hr
    · rw [← mul_div_assoc]
      exact hgrid 3 k
    · obtain rfl := List.mem_singleton.mp hr
      rw [← mul_div_assoc]
      exact hgrid 4 k
  have hone : (1 : ℚ) = (1000000 : ℕ) / perUnit := by norm_num [perUnit]
  have hscale : reportScale defaultConfig (newNode "A" 5) = (1000000 : ℕ) / perUnit := by
    norm_num [perUnit, reportScale, tierFor, newNode, unmeasured]
  have hrate : reportScale defaultConfig (newNode "A" 5) * defaultConfig.rewardPerUnit =
      (10000 : ℕ) / perUnit := by
    norm_num [perUnit, reportScale, tierFor, newNode, unmeasured, defaultConfig]
  have hiff := split_credit_iff defaultConfig (newNode "A" 5) [(3, 6), (4, 7)] 8 hpos
  rw [hrate, hscale] at hiff
  have hsum : ([((3 : ℚ), 6), (4, 7)].map Prod.fst).sum = 7 := by norm_num
  rw [hsum] at hiff
  exact (hiff.mpr ⟨hone ▸ hsettled _, hsettled _, hsettled _⟩).2.2

/-- Three reports of less than half a millionth leave nothing, their sum leaves a millionth. -/
theorem small_reports_lost :
    (creditEach defaultConfig (newNode "A" 5)
      [(4 / 10 ^ 7, 6), (4 / 10 ^ 7, 7), (4 / 10 ^ 7, 8)]).contributedUnits = 0 ∧
    (creditContribution defaultConfig (newNode "A" 5)
      (4 / 10 ^ 7 + 4 / 10 ^ 7 + 4 / 10 ^ 7) 8).contributedUnits = 1 / 10 ^ 6 := by
  refine ⟨?_, ?_⟩
  · decide +kernel
  · decide +kernel

end KvasirNet.Gateway
