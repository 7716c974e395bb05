import KvasirNet.MarketMoves
import KvasirNet.EqualRuns

/-! What `coverage` says of a model: its expert layers, each cut into the longest runs of equal
replica counts, and how these counts compare with the workers and claims that list an expert. -/
namespace KvasirNet.Market

open EqualRuns (Run Tiles Apart runsOf foldFrom runsOf_longest)

/-! ## Runs -/

/-- A run of the answer as a run of the counts. -/
def CoverRun.run (r : CoverRun) : Run ℕ := ⟨r.experts.1, r.experts.2, r.replicas⟩

theorem foldRuns_run (start count e : ℕ) (counts : List ℕ) :
    (foldRuns start count e counts).map CoverRun.run = foldFrom start count e counts := by
  induction counts generalizing start count e with
  | nil => rfl
  | cons r rest ih =>
    rw [foldRuns, foldFrom]
    by_cases hr : r = count
    · rw [if_pos hr, if_pos hr]
      exact ih start count (e + 1)
    · rw [if_neg hr, if_neg hr, List.map_cons, ih e r (e + 1)]
      rfl

theorem coverRuns_run (counts : List ℕ) : (coverRuns counts).map CoverRun.run = runsOf counts := by
  cases counts with
  | nil => rfl
  | cons r rest => exact foldRuns_run 0 r 1 rest

/-! ## Who lists an expert -/

def Segment.lists (seg : Segment) (layer e : ℕ) : Bool :=
  decide (seg.layer = (layer : ℚ) ∧ seg.lo ≤ e ∧ (e : ℚ) < seg.hi)

/-- The loop over the segment comes to the expert. -/
def Segment.counted (info : ModelInfo) (layer e : ℕ) (seg : Segment) : Bool :=
  decide (seg.layer = (layer : ℚ)) && meets seg.lo seg.hi info.nExpert e

/-- How often the loops over a worker's segments come to the expert. -/
def Worker.counted (info : ModelInfo) (layer e : ℕ) (w : Worker) : ℕ :=
  w.segments.countP (Segment.counted info layer e)

def Worker.lists (layer e : ℕ) (w : Worker) : Bool := w.segments.any fun seg => seg.lists layer e

def Claim.lists (layer e : ℕ) (c : Claim) : Bool :=
  decide (c.layer = layer ∧ c.experts.1 ≤ e ∧ (e : ℚ) < c.experts.2)

def Claim.counted (info : ModelInfo) (layer e : ℕ) (c : Claim) : Bool :=
  decide (c.layer = layer) && meets c.experts.1 c.experts.2 info.nExpert e

/-- The live workers of a model; each id is there once. -/
def State.workersOf (s : State) (now : ℕ) (info : ModelInfo) : List Worker :=
  ((s.workers.entries.filter fun w => !w.2.stale now).filter fun w =>
    w.2.model == info.id || w.2.model == info.name).map fun w => w.2

def State.claimsOf (s : State) (now : ℕ) (info : ModelInfo) : List Claim :=
  ((s.pending.entries.filter fun c => decide (now ≤ c.2 + pendingAssignmentMs)).filter fun c =>
    c.1.model == info.id).map fun c => c.1

def State.holders (s : State) (now : ℕ) (info : ModelInfo) (layer e : ℕ) : ℕ :=
  (s.workersOf now info).countP (Worker.lists layer e)

def State.promises (s : State) (now : ℕ) (info : ModelInfo) (layer e : ℕ) : ℕ :=
  (s.claimsOf now info).countP (Claim.lists layer e)

/-- What the answer is to say: every expert layer once, cut from the first expert to the last into
runs that differ from their neighbours, the replicas of each those of its experts. -/
structure Counts (s : State) (now : ℕ) (info : ModelInfo) (answer : List (ℕ × List CoverRun)) :
    Prop where
  once : (answer.map Prod.fst).Nodup
  layers : ∀ layer, layer ∈ answer.map Prod.fst ↔ layer ∈ info.expertLayers
  tiles : ∀ l ∈ answer, Tiles 0 info.nExpert (l.2.map CoverRun.run)
  apart : ∀ l ∈ answer, Apart (l.2.map CoverRun.run)
  replicas : ∀ l ∈ answer, ∀ r ∈ l.2, ∀ e, r.experts.1 ≤ e → e < r.experts.2 →
    r.replicas = s.holders now info l.1 e + s.promises now info l.1 e

/-- An expert is counted once too often for every segment of a worker beyond its first one, and
missed by a worker or a claim that lists it only from a fraction on, which the loops step over. As
many are counted too often as are missed. -/
def State.Balanced (s : State) (now : ℕ) (info : ModelInfo) : Prop :=
  ∀ layer ∈ info.expertLayers, ∀ e < info.nExpert,
    ((s.workersOf now info).map fun w => w.counted info layer e - 1).sum =
      (s.workersOf now info).countP (fun w => w.lists layer e && w.counted info layer e == 0) +
      (s.claimsOf now info).countP fun c => c.lists layer e && !c.counted info layer e

/-! ## Counting -/

theorem lists_of_meets {lo hi : ℚ} {n e : ℕ} (h : meets lo hi n e = true) :
    lo ≤ e ∧ (e : ℚ) < hi := by
  simp only [meets, Bool.and_eq_true, decide_eq_true_eq] at h
  obtain ⟨⟨-, hlo⟩, hhi⟩ := h
  exact ⟨(le_max_right 0 lo).trans hlo, hhi.trans_le (min_le_left _ _)⟩

variable {info : ModelInfo}

theorem Segment.lists_of_counted {seg : Segment} {layer e : ℕ}
    (h : seg.counted info layer e = true) : seg.lists layer e = true := by
  obtain ⟨hlayer, hmeets⟩ := Bool.and_eq_true_iff.mp h
  exact decide_eq_true ⟨of_decide_eq_true hlayer, lists_of_meets hmeets⟩

theorem Claim.lists_of_counted {c : Claim} {layer e : ℕ}
    (h : c.counted info layer e = true) : c.lists layer e = true := by
  obtain ⟨hlayer, hmeets⟩ := Bool.and_eq_true_iff.mp h
  exact decide_eq_true ⟨of_decide_eq_true hlayer, lists_of_meets hmeets⟩

theorem Worker.lists_of_counted {w : Worker} {layer e : ℕ}
    (h : 0 < w.counted info layer e) : w.lists layer e = true := by
  obtain ⟨seg, hseg, hcounted⟩ := List.countP_pos_iff.mp h
  exact List.any_eq_true.mpr ⟨seg, hseg, Segment.lists_of_counted hcounted⟩

theorem sum_eq_beyond {α : Type*} (f : α → ℕ) (l : List α) :
    (l.map f).sum = (l.map fun a => f a - 1).sum + l.countP fun a => decide (0 < f a) := by
  induction l with
  | nil => rfl
  | cons a l ih =>
    rw [List.map_cons, List.map_cons, List.sum_cons, List.sum_cons, List.countP_cons, ih]
    by_cases hf : 0 < f a
    · rw [if_pos (decide_eq_true hf)]
      omega
    · rw [if_neg (by simpa using hf)]
      omega

theorem countP_eq_add {α : Type*} {p q : α → Bool} (l : List α) (h : ∀ a, q a = true → p a = true) :
    l.countP p = l.countP q + l.countP fun a => p a && !q a := by
  induction l with
  | nil => rfl
  | cons a l ih =>
    rw [List.countP_cons, List.countP_cons, List.countP_cons, ih]
    cases hq : q a with
    | true =>
      rw [h a hq]
      simp
      omega
    | false =>
      cases hp : p a with
      | true =>
        simp
        omega
      | false => simp

theorem replicas_sweep (s : State) (now : ℕ) (info : ModelInfo) (layer e : ℕ) :
    (s.sweep now).replicas info layer e =
      ((s.workersOf now info).map fun w => w.counted info layer e).sum +
      (s.claimsOf now info).countP (Claim.counted info layer e) := by
  have hworkers : (s.sweep now).workers.entries = s.workers.entries.filter fun w => !w.2.stale now := rfl
  have hclaims : (s.sweep now).pending.entries =
      s.pending.entries.filter fun c => decide (now ≤ c.2 + pendingAssignmentMs) := rfl
  unfold State.replicas
  rw [hworkers, hclaims, List.countP_flatMap]
  congr 1
  · rw [State.workersOf, List.map_map]
    rfl
  · rw [State.claimsOf, List.countP_map, List.countP_filter, List.countP_filter, List.countP_filter]
    apply List.countP_congr
    intro c _
    simp only [Function.comp_apply, Claim.counted, Bool.and_eq_true]
    tauto

theorem nodup_eraseDups (l : List ℕ) : l.eraseDups.Nodup := by
  induction hn : l.length using Nat.strong_induction_on generalizing l with
  | _ n ih =>
    cases l with
    | nil => exact List.nodup_nil
    | cons a l =>
      rw [List.eraseDups_cons, List.nodup_cons]
      constructor
      · rw [List.mem_eraseDups, List.mem_filter]
        simp
      · apply ih _ _ _ rfl
        have hle := List.length_filter_le (fun b => !b == a) l
        rw [List.length_cons] at hn
        omega

theorem coverage_answer {cfg : Config} {model : String}
    (hinfo : cfg.modelInfo model = some info) (s : State) (now : ℕ) :
    (s.coverage cfg now model).2 = info.expertLayers.eraseDups.map fun layer =>
      (layer, coverRuns ((List.range info.nExpert).map ((s.sweep now).replicas info layer))) := by
  unfold State.coverage
  rw [hinfo]
  rfl

theorem replicas_eq_iff (s : State) (now : ℕ) (info : ModelInfo) (layer e : ℕ) :
    (s.sweep now).replicas info layer e = s.holders now info layer e + s.promises now info layer e ↔
      ((s.workersOf now info).map fun w => w.counted info layer e - 1).sum =
        (s.workersOf now info).countP (fun w => w.lists layer e && w.counted info layer e == 0) +
        (s.claimsOf now info).countP fun c => c.lists layer e && !c.counted info layer e := by
  have hsum := sum_eq_beyond (fun w : Worker => w.counted info layer e) (s.workersOf now info)
  have hworkers := countP_eq_add (p := Worker.lists layer e)
    (q := fun w => decide (0 < w.counted info layer e)) (s.workersOf now info)
    fun w hw => w.lists_of_counted (of_decide_eq_true hw)
  have hclaims := countP_eq_add (p := Claim.lists layer e) (q := Claim.counted info layer e)
    (s.claimsOf now info) fun c hc => Claim.lists_of_counted hc
  have hzero : ((s.workersOf now info).countP fun w =>
      w.lists layer e && !decide (0 < w.counted info layer e)) =
      (s.workersOf now info).countP fun w => w.lists layer e && w.counted info layer e == 0 := by
    apply List.countP_congr
    intro w _
    simp
  rw [replicas_sweep, State.holders, State.promises, hsum, hworkers, hclaims, hzero]
  omega

theorem coverage_counts_iff {cfg : Config} {model : String} {info : ModelInfo}
    (hinfo : cfg.modelInfo model = some info) (s : State) (now : ℕ) :
    Counts s now info (s.coverage cfg now model).2 ↔ s.Balanced now info := by
  rw [coverage_answer hinfo]
  have hlength (layer : ℕ) :
      ((List.range info.nExpert).map ((s.sweep now).replicas info layer)).length = info.nExpert := by
    rw [List.length_map, List.length_range]
  have hruns (layer : ℕ) := runsOf_longest
    ((List.range info.nExpert).map ((s.sweep now).replicas info layer))
  constructor
  · intro h layer hlayer e he
    apply (replicas_eq_iff s now info layer e).mp
    -- the run that the expert is in
    obtain ⟨r, hr, hin⟩ := (hruns layer).tiles.exists_mem (Nat.zero_le e) ((hlength layer).symm ▸ he)
    rw [← coverRuns_run] at hr
    obtain ⟨run, hrun, rfl⟩ := List.mem_map.mp hr
    have hvalue := (hruns layer).values run.run (coverRuns_run _ ▸ hr) e hin.1 hin.2
    rw [List.getElem?_map, List.getElem?_range he, Option.map_some] at hvalue
    rw [Option.some.inj hvalue]
    exact h.replicas _ (List.mem_map.mpr ⟨layer, List.mem_eraseDups.mpr hlayer, rfl⟩) run hrun e
      hin.1 hin.2
  · intro h
    have hfirst : (info.expertLayers.eraseDups.map fun layer =>
        (layer, coverRuns ((List.range info.nExpert).map ((s.sweep now).replicas info layer)))).map
        Prod.fst = info.expertLayers.eraseDups := by
      rw [List.map_map]
      exact List.map_id _
    refine ⟨?_, ?_, ?_, ?_, ?_⟩
    · rw [hfirst]
      exact nodup_eraseDups _
    · intro layer
      rw [hfirst]
      exact List.mem_eraseDups
    · intro l hl
      obtain ⟨layer, -, rfl⟩ := List.mem_map.mp hl
      have htiles := (hruns layer).tiles
      rwa [hlength, ← coverRuns_run] at htiles
    · intro l hl
      obtain ⟨layer, -, rfl⟩ := List.mem_map.mp hl
      have hapart := (hruns layer).apart
      rwa [← coverRuns_run] at hapart
    · intro l hl r hr e hlo hhi
      obtain ⟨layer, hlayer, rfl⟩ := List.mem_map.mp hl
      have hmem : r.run ∈ runsOf ((List.range info.nExpert).map ((s.sweep now).replicas info layer)) := by
        rw [← coverRuns_run]
        exact List.mem_map_of_mem hr
      have he : e < info.nExpert := by
        have hbound := ((hruns layer).tiles.bounds.2 r.run hmem).2.2
        rw [hlength] at hbound
        exact hhi.trans_le hbound
      have hvalue := (hruns layer).values r.run hmem e hlo hhi
      rw [List.getElem?_map, List.getElem?_range he, Option.map_some] at hvalue
      rw [← (replicas_eq_iff s now info layer e).mpr (h layer (List.mem_eraseDups.mp hlayer) e he)]
      exact (Option.some.inj hvalue).symm

def pairModel : ModelInfo := ⟨"m", "m", 8, 4, 2, [3]⟩

def pairConfig : Config := ⟨[pairModel], 2, 1⟩

/-- One worker, and one claim on what it does not have. -/
def sharedLayer : State :=
  { State.empty with
    workers := State.empty.workers.insert "w" ⟨"m", [⟨3, 0, 1⟩], "", "W", Platform.unsaid, 1000⟩
    pending := State.empty.pending.insert ⟨"W", "m", 3, (1, 2)⟩ 1000 }

theorem coverage_counts_shared :
    Counts sharedLayer 2000 pairModel (sharedLayer.coverage pairConfig 2000 "m").2 := by
  apply (coverage_counts_iff (by decide) sharedLayer 2000).mpr
  have hbalanced : ∀ layer ∈ [3], ∀ e < 2,
      ((sharedLayer.workersOf 2000 pairModel).map fun w => w.counted pairModel layer e - 1).sum =
      (sharedLayer.workersOf 2000 pairModel).countP (fun w =>
        w.lists layer e && w.counted pairModel layer e == 0) +
      (sharedLayer.claimsOf 2000 pairModel).countP fun c =>
        c.lists layer e && !c.counted pairModel layer e := by
    decide +kernel
  exact hbalanced

/-- A worker that reports expert 1 in two segments. -/
def overlapping : CoverageBody :=
  ⟨"w", "m", [[some 3, some 0, some 2], [some 3, some 1, some 2]], "", "W", Platform.unsaid⟩

theorem overlap_counted_twice :
    ¬ ∀ (cfg : Config) (model : String) (info : ModelInfo) (s : State) (now : ℕ),
      cfg.modelInfo model = some info → Counts s now info (s.coverage cfg now model).2 := by
  intro hall
  have hcounts := hall pairConfig "m" pairModel
    (react pairConfig State.empty (.coverage (.node "W") true overlapping 1000)).1 2000 (by decide)
  have hrun : (3, [⟨(0, 1), 1⟩, ⟨(1, 2), 2⟩]) ∈ ((react pairConfig State.empty
      (.coverage (.node "W") true overlapping 1000)).1.coverage pairConfig 2000 "m").2 := by
    decide +kernel
  have hreplicas := hcounts.replicas _ hrun ⟨(1, 2), 2⟩ (by decide) 1 (by decide) (by decide)
  have hone : (react pairConfig State.empty (.coverage (.node "W") true overlapping 1000)).1.holders
      2000 pairModel 3 1 + (react pairConfig State.empty
      (.coverage (.node "W") true overlapping 1000)).1.promises 2000 pairModel 3 1 = 1 := by
    decide +kernel
  rw [hone] at hreplicas
  exact absurd hreplicas (by decide)

end KvasirNet.Market
