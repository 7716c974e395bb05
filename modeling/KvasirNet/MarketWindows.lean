import KvasirNet.MarketCoverage
import KvasirNet.FirstBest
import Mathlib.Data.Prod.Lex

/-! The windows that the market hands out: which run `expert-volunteer` chooses, and what becomes of
it when a request names the most experts it can take. -/
namespace KvasirNet.Market

open EqualRuns (runsOf_longest)
open FirstBest (keepBest)

variable {cfg : Config} {s : State} {now : ℕ} {want : String}

/-! ## Scarcity -/

/-- The scarcity of experts with so many replicas. -/
def Config.scarcity (cfg : Config) (count : ℕ) : ℚ := (⟨(0, 0), count⟩ : CoverRun).scarcity cfg

theorem scarcity_pos_iff (hT : 0 < cfg.targetReplicas) (count : ℕ) :
    0 < cfg.scarcity count ↔
      count < cfg.targetReplicas ∧ cfg.targetReplicas ≤ 2000 * (cfg.targetReplicas - count) := by
  have hTq : (0 : ℚ) < cfg.targetReplicas := by exact_mod_cast hT
  have hround : 0 < cfg.scarcity count ↔
      1 ≤ max 0 (((cfg.targetReplicas : ℚ) - count) / cfg.targetReplicas) * 1000 + 1 / 2 := by
    unfold Config.scarcity CoverRun.scarcity jsRound
    dsimp only
    rw [div_pos_iff_of_pos_right (by norm_num), Int.cast_pos, Int.lt_iff_add_one_le, zero_add,
      Int.le_floor]
    norm_num
  rw [hround]
  by_cases hcount : count < cfg.targetReplicas
  · have hdiff : (((cfg.targetReplicas - count : ℕ) : ℕ) : ℚ) = (cfg.targetReplicas : ℚ) - count :=
      Nat.cast_sub hcount.le
    rw [← hdiff, max_eq_right (by positivity)]
    have hscale : 1 ≤ ((cfg.targetReplicas - count : ℕ) : ℚ) / cfg.targetReplicas * 1000 + 1 / 2 ↔
        (cfg.targetReplicas : ℚ) ≤ ((2000 * (cfg.targetReplicas - count) : ℕ) : ℚ) := by
      rw [div_mul_eq_mul_div, ← sub_le_iff_le_add, le_div_iff₀ hTq]
      push_cast
      constructor
      · intro h
        linarith
      · intro h
        linarith
    rw [hscale, Nat.cast_le]
    exact ⟨fun h => ⟨hcount, h⟩, fun h => h.2⟩
  · have hle : ((cfg.targetReplicas : ℚ) - count) / cfg.targetReplicas ≤ 0 := by
      apply div_nonpos_of_nonpos_of_nonneg _ hTq.le
      have hcast : (cfg.targetReplicas : ℚ) ≤ count := by exact_mod_cast not_lt.mp hcount
      linarith
    rw [max_eq_left hle]
    norm_num
    intro h
    exact absurd h hcount

/-! ## The choice -/

def Best.key (cfg : Config) (b : Best) : ℚ ×ₗ ℕ := toLex (b.run.scarcity cfg, b.run.width)

def Best.scarce (cfg : Config) (b : Best) : Bool := decide (0 < b.run.scarcity cfg)

theorem improve_eq (m : ModelInfo) (layer : ℕ) (best : Option Best) (run : CoverRun) :
    Best.improve cfg m layer best run =
      keepBest (Best.scarce cfg) (Best.key cfg) best ⟨m, layer, run⟩ := by
  unfold Best.improve keepBest Best.scarce
  by_cases hpos : 0 < run.scarcity cfg
  · rw [if_neg (not_le.mpr hpos), if_pos (decide_eq_true hpos)]
    cases best with
    | none => rfl
    | some b =>
      have hkey : b.key cfg < Best.key cfg ⟨m, layer, run⟩ ↔
          b.run.scarcity cfg < run.scarcity cfg ∨
            run.scarcity cfg = b.run.scarcity cfg ∧ b.run.width < run.width := by
        rw [Best.key, Best.key, Prod.Lex.toLex_lt_toLex]
        simp only [eq_comm]
      simp only [hkey]
  · rw [if_pos (not_lt.mp hpos), if_neg (by simpa using hpos)]

/-- Every run of the models that answer to the request, in the order of the search. -/
def candidates (cfg : Config) (s : State) (now : ℕ) (want : String) : List Best :=
  (cfg.models.filter (ModelInfo.wanted want)).flatMap fun m =>
    (s.coverage cfg now m.id).2.flatMap fun l => l.2.map fun run => ⟨m, l.1, run⟩

theorem coverage_sweep (cfg : Config) (s : State) (now : ℕ) (model : String) :
    ((s.sweep now).coverage cfg now model).2 = (s.coverage cfg now model).2 := by
  cases hinfo : cfg.modelInfo model with
  | none =>
    unfold State.coverage
    rw [hinfo]
  | some info => rw [coverage_answer hinfo, coverage_answer hinfo, sweep_sweep]

theorem foldl_flatMap_map {α β γ δ : Type*} (f : δ → γ → δ) (g : α → β → γ) (inner : α → List β)
    (l : List α) (d : δ) :
    l.foldl (fun d a => (inner a).foldl (fun d b => f d (g a b)) d) d =
      (l.flatMap fun a => (inner a).map (g a)).foldl f d := by
  induction l generalizing d with
  | nil => rfl
  | cons a l ih => rw [List.foldl_cons, List.flatMap_cons, List.foldl_append, ih, List.foldl_map]

theorem volunteerBest_best (cfg : Config) (s : State) (now : ℕ) (want : String) :
    (volunteerBest cfg s now want).2 =
      (candidates cfg s now want).foldl (keepBest (Best.scarce cfg) (Best.key cfg)) none := by
  unfold volunteerBest candidates
  -- every look at the coverage is at the state, or at the state swept
  suffices hfold : ∀ (models : List ModelInfo) (x : State × Option Best),
      x.1 = s ∨ x.1 = s.sweep now →
      (models.foldl (fun x m =>
        let r := x.1.coverage cfg now m.id
        (r.1, r.2.foldl (fun best l => l.2.foldl (Best.improve cfg m l.1) best) x.2)) x).2 =
      (models.flatMap fun m => (s.coverage cfg now m.id).2.flatMap fun l =>
        l.2.map fun run => (⟨m, l.1, run⟩ : Best)).foldl
          (keepBest (Best.scarce cfg) (Best.key cfg)) x.2 from
    hfold _ (s, none) (Or.inl rfl)
  intro models
  induction models with
  | nil => exact fun x _ => rfl
  | cons m models ih =>
    intro x hx
    have hanswer : (x.1.coverage cfg now m.id).2 = (s.coverage cfg now m.id).2 := by
      rcases hx with hx | hx
      · rw [hx]
      · rw [hx, coverage_sweep]
    have hnext : (x.1.coverage cfg now m.id).1 = s ∨ (x.1.coverage cfg now m.id).1 = s.sweep now := by
      rcases coverage_state cfg now x.1 m.id with h | h
      · rw [h]
        exact hx
      · rcases hx with hx | hx
        · exact Or.inr (by rw [h, hx])
        · exact Or.inr (by rw [h, hx, sweep_sweep])
    rw [List.foldl_cons, ih _ hnext, List.flatMap_cons, List.foldl_append]
    dsimp only
    rw [hanswer, ← foldl_flatMap_map (keepBest (Best.scarce cfg) (Best.key cfg))
      (fun l run => (⟨m, l.1, run⟩ : Best)) (fun l : ℕ × List CoverRun => l.2)]
    simp only [← improve_eq]

/-- An expert that the request may be answered with: of a model that answers to it, the one that its
id names. -/
def Config.Offers (cfg : Config) (want : String) (info : ModelInfo) (layer e : ℕ) : Prop :=
  ∃ m ∈ cfg.models, m.wanted want = true ∧ cfg.modelInfo m.id = some info ∧
    layer ∈ info.expertLayers ∧ e < info.nExpert

abbrev State.replicasAt (s : State) (now : ℕ) (info : ModelInfo) (layer e : ℕ) : ℕ :=
  (s.sweep now).replicas info layer e

theorem modelInfo_id {m : ModelInfo} (hm : m ∈ cfg.models) :
    ∃ info, cfg.modelInfo m.id = some info := by
  cases hinfo : cfg.modelInfo m.id with
  | some info => exact ⟨info, rfl⟩
  | none =>
    have hmiss := List.find?_eq_none.mp hinfo m hm
    simp at hmiss

theorem run_spec {n : ℕ} {f : ℕ → ℕ} {r : CoverRun}
    (hr : r ∈ coverRuns ((List.range n).map f)) :
    r.experts.1 < r.experts.2 ∧ r.experts.2 ≤ n ∧
      ∀ e, r.experts.1 ≤ e → e < r.experts.2 → f e = r.replicas := by
  have hlongest := runsOf_longest ((List.range n).map f)
  have hlength : ((List.range n).map f).length = n := by rw [List.length_map, List.length_range]
  have hmem : r.run ∈ EqualRuns.runsOf ((List.range n).map f) := by
    rw [← coverRuns_run]
    exact List.mem_map_of_mem hr
  obtain ⟨-, hlt, hstop⟩ := hlongest.tiles.bounds.2 r.run hmem
  rw [hlength] at hstop
  refine ⟨hlt, hstop, fun e hlo hhi => ?_⟩
  have hvalue := hlongest.values r.run hmem e hlo hhi
  rw [List.getElem?_map, List.getElem?_range (hhi.trans_le hstop), Option.map_some] at hvalue
  exact Option.some.inj hvalue

theorem run_exists {n : ℕ} (f : ℕ → ℕ) {e : ℕ} (he : e < n) :
    ∃ r ∈ coverRuns ((List.range n).map f), r.experts.1 ≤ e ∧ e < r.experts.2 := by
  have hlength : ((List.range n).map f).length = n := by rw [List.length_map, List.length_range]
  obtain ⟨r, hr, hin⟩ := (runsOf_longest ((List.range n).map f)).tiles.exists_mem (Nat.zero_le e)
    (hlength.symm ▸ he)
  rw [← coverRuns_run] at hr
  obtain ⟨run, hrun, rfl⟩ := List.mem_map.mp hr
  exact ⟨run, hrun, hin⟩

theorem mem_candidates {c : Best} :
    c ∈ candidates cfg s now want ↔ c.model ∈ cfg.models ∧ c.model.wanted want = true ∧
      ∃ info, cfg.modelInfo c.model.id = some info ∧ c.layer ∈ info.expertLayers ∧
        c.run ∈ coverRuns ((List.range info.nExpert).map (s.replicasAt now info c.layer)) := by
  unfold candidates
  rw [List.mem_flatMap]
  constructor
  · rintro ⟨m, hm, hc⟩
    obtain ⟨hmodel, hwanted⟩ := List.mem_filter.mp hm
    obtain ⟨info, hinfo⟩ := modelInfo_id hmodel
    obtain ⟨l, hl, hc⟩ := List.mem_flatMap.mp hc
    obtain ⟨run, hrun, rfl⟩ := List.mem_map.mp hc
    rw [coverage_answer hinfo] at hl
    obtain ⟨layer, hlayer, rfl⟩ := List.mem_map.mp hl
    exact ⟨hmodel, hwanted, info, hinfo, List.mem_eraseDups.mp hlayer, hrun⟩
  · rintro ⟨hmodel, hwanted, info, hinfo, hlayer, hrun⟩
    refine ⟨c.model, List.mem_filter.mpr ⟨hmodel, hwanted⟩, ?_⟩
    rw [coverage_answer hinfo]
    apply List.mem_flatMap.mpr
    exact ⟨_, List.mem_map.mpr ⟨c.layer, List.mem_eraseDups.mpr hlayer, rfl⟩,
      List.mem_map.mpr ⟨c.run, hrun, rfl⟩⟩

theorem candidate_of_offers {info : ModelInfo} {layer e : ℕ} (h : cfg.Offers want info layer e) :
    ∃ c ∈ candidates cfg s now want, c.run.replicas = s.replicasAt now info layer e := by
  obtain ⟨m, hm, hwanted, hinfo, hlayer, he⟩ := h
  obtain ⟨r, hr, hlo, hhi⟩ := run_exists (s.replicasAt now info layer) he
  refine ⟨⟨m, layer, r⟩, mem_candidates.mpr ⟨hm, hwanted, info, hinfo, hlayer, hr⟩, ?_⟩
  exact ((run_spec hr).2.2 e hlo hhi).symm

theorem offers_of_candidate {c : Best} (hc : c ∈ candidates cfg s now want) :
    ∃ info, cfg.modelInfo c.model.id = some info ∧ c.layer ∈ info.expertLayers ∧
      c.run.experts.1 < c.run.experts.2 ∧ c.run.experts.2 ≤ info.nExpert ∧
      ∀ e, c.run.experts.1 ≤ e → e < c.run.experts.2 →
        cfg.Offers want info c.layer e ∧ s.replicasAt now info c.layer e = c.run.replicas := by
  obtain ⟨hm, hwanted, info, hinfo, hlayer, hr⟩ := mem_candidates.mp hc
  obtain ⟨hlt, hstop, hcount⟩ := run_spec hr
  exact ⟨info, hinfo, hlayer, hlt, hstop, fun e hlo hhi =>
    ⟨⟨c.model, hm, hwanted, hinfo, hlayer, hhi.trans_le hstop⟩, hcount e hlo hhi⟩⟩

/-! ## The answer -/

/-- What an answer is to be. An assigned window lies in an expert layer, has whole ends and no more
experts than were asked for; its experts are below target and no expert on offer is scarcer. Where
nothing is assigned, every expert on offer is at target. -/
def Sensible (cfg : Config) (s : State) (now : ℕ) (want : String) (maxExperts : ℚ) : Reply → Prop
  | .assigned a => ∃ info, cfg.modelInfo a.model.id = some info ∧ a.layer ∈ info.expertLayers ∧
      ∃ lo hi : ℕ, a.experts = ((lo : ℚ), (hi : ℚ)) ∧ lo < hi ∧ hi ≤ info.nExpert ∧
        (0 < maxExperts → ((hi - lo : ℕ) : ℚ) ≤ maxExperts) ∧
        ∀ e, lo ≤ e → e < hi → s.replicasAt now info a.layer e < cfg.targetReplicas ∧
          ∀ info' layer' e', cfg.Offers want info' layer' e' →
            cfg.scarcity (s.replicasAt now info' layer' e') ≤
              cfg.scarcity (s.replicasAt now info a.layer e)
  | .atTarget => ∀ info layer e, cfg.Offers want info layer e →
      cfg.targetReplicas ≤ s.replicasAt now info layer e
  | _ => True

/-- The number that a request names is not positive, or whole, or enough for the widest of the
scarcest runs; and if any expert on offer is below target, one of them is so by a two-thousandth of
it or more. -/
def Offerable (cfg : Config) (s : State) (now : ℕ) (want : String) (maxExperts : ℚ) : Prop :=
  (∀ c ∈ candidates cfg s now want, c.scarce cfg = true →
    (∀ c' ∈ candidates cfg s now want, c'.scarce cfg = true → c'.key cfg ≤ c.key cfg) →
    maxExperts ≤ 0 ∨ maxExperts.den = 1 ∨ (c.run.width : ℚ) ≤ maxExperts) ∧
  ((∃ info layer e, cfg.Offers want info layer e ∧
      s.replicasAt now info layer e < cfg.targetReplicas) →
    ∃ info layer e, cfg.Offers want info layer e ∧
      s.replicasAt now info layer e < cfg.targetReplicas ∧
      cfg.targetReplicas ≤ 2000 * (cfg.targetReplicas - s.replicasAt now info layer e))

def clippedEnd (lo stop : ℕ) (maxExperts : ℚ) : ℚ :=
  if 0 < maxExperts then min (stop : ℚ) ((lo : ℚ) + maxExperts) else stop

theorem whole_of_den {q : ℚ} (hden : q.den = 1) (hpos : 0 < q) : ∃ k : ℕ, q = k ∧ 0 < k := by
  have hnum : 0 < q.num := Rat.num_pos.mpr hpos
  obtain ⟨k, hk⟩ := Int.eq_ofNat_of_zero_le hnum.le
  have hq : q = k := by
    have hself := Rat.coe_int_num_of_den_eq_one hden
    rw [hk, Int.cast_natCast] at hself
    exact hself.symm
  refine ⟨k, hq, ?_⟩
  omega

theorem clippedEnd_iff {lo stop : ℕ} (hlt : lo < stop) (maxExperts : ℚ) :
    (∃ hi : ℕ, clippedEnd lo stop maxExperts = hi ∧ lo < hi ∧ hi ≤ stop ∧
      (0 < maxExperts → ((hi - lo : ℕ) : ℚ) ≤ maxExperts)) ↔
    maxExperts ≤ 0 ∨ maxExperts.den = 1 ∨ ((stop - lo : ℕ) : ℚ) ≤ maxExperts := by
  have hwidth : ((stop - lo : ℕ) : ℚ) = (stop : ℚ) - lo := Nat.cast_sub hlt.le
  unfold clippedEnd
  by_cases hpos : 0 < maxExperts
  · rw [if_pos hpos]
    by_cases hwide : ((stop - lo : ℕ) : ℚ) ≤ maxExperts
    · -- the run is not clipped
      refine iff_of_true ⟨stop, ?_, hlt, le_refl _, fun _ => hwide⟩ (Or.inr (Or.inr hwide))
      apply min_eq_left
      linarith
    · have hmin : min (stop : ℚ) ((lo : ℚ) + maxExperts) = lo + maxExperts := by
        apply min_eq_right
        linarith
      rw [hmin]
      constructor
      · rintro ⟨hi, hend, hlo, -, -⟩
        have hdiff : maxExperts = ((hi - lo : ℕ) : ℚ) := by
          rw [Nat.cast_sub hlo.le]
          linarith
        right
        left
        rw [hdiff]
        exact Rat.den_natCast _
      · rintro (hle | hden | hle)
        · exact absurd hpos (not_lt.mpr hle)
        · obtain ⟨k, rfl, hk⟩ := whole_of_den hden hpos
          refine ⟨lo + k, by push_cast; ring, by omega, ?_, fun _ => ?_⟩
          · have hsmall : k < stop - lo := by exact_mod_cast not_le.mp hwide
            omega
          · rw [Nat.add_sub_cancel_left]
        · exact absurd hle hwide
  · rw [if_neg hpos]
    exact iff_of_true ⟨stop, rfl, hlt, le_refl _, fun h => absurd h hpos⟩ (Or.inl (not_lt.mp hpos))

theorem scarcity_run (cfg : Config) (r : CoverRun) : r.scarcity cfg = cfg.scarcity r.replicas := rfl

theorem atTarget_iff (hT : 0 < cfg.targetReplicas) (maxExperts : ℚ)
    (hnone : ∀ c ∈ candidates cfg s now want, c.scarce cfg = false) :
    Sensible cfg s now want maxExperts .atTarget ↔ Offerable cfg s now want maxExperts := by
  have hflat : ∀ info layer e, cfg.Offers want info layer e →
      ¬ 0 < cfg.scarcity (s.replicasAt now info layer e) := by
    intro info layer e hoffers hpos
    obtain ⟨c, hc, hcount⟩ : ∃ c ∈ candidates cfg s now want,
        c.run.replicas = s.replicasAt now info layer e := candidate_of_offers hoffers
    have hfalse := of_decide_eq_false (hnone c hc)
    rw [scarcity_run, hcount] at hfalse
    exact hfalse hpos
  constructor
  · intro h
    refine ⟨fun c hc hscarce => ?_, ?_⟩
    · rw [hnone c hc] at hscarce
      cases hscarce
    · rintro ⟨info, layer, e, hoffers, hbelow⟩
      exact absurd hbelow (not_lt.mpr (h info layer e hoffers))
  · rintro ⟨-, h⟩ info layer e hoffers
    by_contra hbelow
    obtain ⟨info', layer', e', hoffers', hlack⟩ := h ⟨info, layer, e, hoffers, not_le.mp hbelow⟩
    exact hflat info' layer' e' hoffers' ((scarcity_pos_iff hT _).mpr hlack)

theorem assigned_iff (hT : 0 < cfg.targetReplicas) (maxExperts : ℚ) {b : Best}
    (hb : b ∈ candidates cfg s now want) (hscarce : b.scarce cfg = true)
    (hbest : ∀ c ∈ candidates cfg s now want, c.scarce cfg = true → c.key cfg ≤ b.key cfg) :
    Sensible cfg s now want maxExperts (.assigned ⟨b.model, b.layer, b.run,
      ((b.run.experts.1 : ℚ), clippedEnd b.run.experts.1 b.run.experts.2 maxExperts)⟩) ↔
    Offerable cfg s now want maxExperts := by
  obtain ⟨info, hinfo, hlayer, hlt, hstop, hexperts⟩ := offers_of_candidate hb
  have hpos : 0 < cfg.scarcity b.run.replicas := of_decide_eq_true hscarce
  have hlack := (scarcity_pos_iff hT b.run.replicas).mp hpos
  have hclip := clippedEnd_iff hlt maxExperts
  -- nothing on offer is scarcer than the best candidate
  have hscarcest : ∀ info' layer' e', cfg.Offers want info' layer' e' →
      cfg.scarcity (s.replicasAt now info' layer' e') ≤ cfg.scarcity b.run.replicas := by
    intro info' layer' e' hoffers
    obtain ⟨c, hc, hcount⟩ : ∃ c ∈ candidates cfg s now want,
        c.run.replicas = s.replicasAt now info' layer' e' := candidate_of_offers hoffers
    rw [← hcount]
    by_cases hc' : c.scarce cfg = true
    · have hkey := hbest c hc hc'
      rw [Best.key, Best.key, Prod.Lex.toLex_le_toLex] at hkey
      rcases hkey with hless | ⟨heq, -⟩
      · exact hless.le
      · exact heq.le
    · have hle : ¬ 0 < c.run.scarcity cfg := by simpa [Best.scarce] using hc'
      exact (not_lt.mp hle).trans hpos.le
  have hoffer : Offerable cfg s now want maxExperts ↔
      maxExperts ≤ 0 ∨ maxExperts.den = 1 ∨ (b.run.width : ℚ) ≤ maxExperts := by
    constructor
    · exact fun h => h.1 b hb hscarce hbest
    · intro h
      constructor
      · intro c hc hc' hmax
        have hwidth : c.run.width = b.run.width := by
          have hkey := le_antisymm (hbest c hc hc') (hmax b hb hscarce)
          exact congrArg (fun k => (ofLex k).2) hkey
        rwa [hwidth]
      · intro _
        obtain ⟨hoffers, hcount⟩ := hexperts b.run.experts.1 (le_refl _) hlt
        exact ⟨info, b.layer, b.run.experts.1, hoffers, by rwa [hcount]⟩
  rw [hoffer, CoverRun.width, ← hclip]
  constructor
  · rintro ⟨info', -, -, lo, hi, hends, hlo, -, hmax, hin⟩
    obtain ⟨hstart, hend⟩ := Prod.mk.inj hends
    obtain rfl : b.run.experts.1 = lo := by exact_mod_cast hstart
    refine ⟨hi, hend, hlo, ?_, hmax⟩
    -- the clipped end is not behind the run
    have hle : clippedEnd b.run.experts.1 b.run.experts.2 maxExperts ≤ b.run.experts.2 := by
      unfold clippedEnd
      split_ifs
      · exact min_le_left _ _
      · exact le_refl _
    rw [hend] at hle
    exact_mod_cast hle
  · rintro ⟨hi, hend, hlo, hhi, hmax⟩
    refine ⟨info, hinfo, hlayer, b.run.experts.1, hi, by rw [hend], hlo, hhi.trans hstop, hmax, ?_⟩
    intro e he hehi
    have hcount := (hexperts e he (hehi.trans_le hhi)).2
    rw [hcount]
    exact ⟨hlack.1, hscarcest⟩

/-- A volunteer is answered sensibly exactly where the request can be met in whole experts. -/
theorem volunteer_sensible_iff (hT : 0 < cfg.targetReplicas) (s : State) (now : ℕ) (who : Who)
    (allowed isFrozen : Bool) (want : String) (maxExperts : ℚ) :
    Sensible cfg s now want maxExperts
      (react cfg s (.volunteer who allowed isFrozen want maxExperts now)).2 ↔
    (needsNode who allowed = .ok () → isFrozen = false → Offerable cfg s now want maxExperts) := by
  cases hpassed : needsNode who allowed with
  | error e =>
    have hreply : (react cfg s (.volunteer who allowed isFrozen want maxExperts now)).2 =
        .refused e := by
      simp only [react, hpassed]
    rw [hreply]
    exact iff_of_true trivial fun h => by cases h
  | ok _ =>
    cases isFrozen with
    | true =>
      have hreply : (react cfg s (.volunteer who allowed true want maxExperts now)).2 = .frozen := by
        simp only [react, hpassed, if_true]
      rw [hreply]
      exact iff_of_true trivial fun _ h => by cases h
    | false =>
      have hreply : (react cfg s (.volunteer who allowed false want maxExperts now)).2 =
          (volunteer cfg s now who want maxExperts).2 := by
        simp only [react, hpassed, Bool.false_eq_true, if_false]
      rw [hreply]
      have hbest := volunteerBest_best cfg s now want
      cases hfound : (volunteerBest cfg s now want).2 with
      | none =>
        have hanswer : (volunteer cfg s now who want maxExperts).2 = .atTarget := by
          simp only [volunteer, hfound]
        rw [hfound] at hbest
        have hnone := (FirstBest.foldl_keepBest_eq_none.mp hbest.symm).2
        rw [hanswer, atTarget_iff hT maxExperts hnone]
        exact ⟨fun h _ _ => h, fun h => h rfl rfl⟩
      | some b =>
        have hanswer : (volunteer cfg s now who want maxExperts).2 =
            .assigned ⟨b.model, b.layer, b.run,
              ((b.run.experts.1 : ℚ), clippedEnd b.run.experts.1 b.run.experts.2 maxExperts)⟩ := by
          simp only [volunteer, hfound]
          rfl
        rw [hfound] at hbest
        obtain ⟨hfrom, hmax, -⟩ := FirstBest.foldl_keepBest_some hbest.symm
        rcases hfrom with hnone | ⟨hmem, hscarce⟩
        · cases hnone
        · rw [hanswer, assigned_iff hT maxExperts hmem hscarce hmax]
          exact ⟨fun h _ _ => h, fun h => h rfl rfl⟩

theorem volunteer_sensible_one :
    (react pairConfig State.empty (.volunteer (.node "W") true false "" 1 0)).2 =
      .assigned ⟨pairModel, 3, ⟨(0, 2), 0⟩, (0, 1)⟩ ∧
    Sensible pairConfig State.empty 0 "" 1
      (react pairConfig State.empty (.volunteer (.node "W") true false "" 1 0)).2 := by
  constructor
  · decide +kernel
  · apply (volunteer_sensible_iff (by decide) State.empty 0 (.node "W") true false "" 1).mpr
    intro _ _
    refine ⟨fun _ _ _ _ => Or.inr (Or.inl (by decide)), ?_⟩
    rintro ⟨info, layer, e, hoffers, hbelow⟩
    have htarget : pairConfig.targetReplicas = 2 := rfl
    rw [htarget] at hbelow
    refine ⟨info, layer, e, hoffers, by rw [htarget]; exact hbelow, ?_⟩
    rw [htarget]
    omega

/-- A volunteer that can take half an expert is given the window from 0 to 0.5. -/
theorem half_expert_assigned :
    ¬ ∀ (cfg : Config) (s : State) (now : ℕ) (who : Who) (allowed isFrozen : Bool) (want : String)
      (maxExperts : ℚ), 0 < cfg.targetReplicas →
      Sensible cfg s now want maxExperts
        (react cfg s (.volunteer who allowed isFrozen want maxExperts now)).2 := by
  intro hall
  have hreply : (react pairConfig State.empty (.volunteer (.node "W") true false "" (1 / 2) 0)).2 =
      .assigned ⟨pairModel, 3, ⟨(0, 2), 0⟩, (0, 1 / 2)⟩ := by decide +kernel
  have hsensible := hall pairConfig State.empty 0 (.node "W") true false "" (1 / 2) (by decide)
  rw [hreply] at hsensible
  obtain ⟨info, -, -, lo, hi, hends, -⟩ := hsensible
  have hend : (1 / 2 : ℚ) = hi := (Prod.mk.inj hends).2
  have hden : (1 / 2 : ℚ).den = 1 := by
    rw [hend]
    exact Rat.den_natCast hi
  exact absurd hden (by decide +kernel)

end KvasirNet.Market
