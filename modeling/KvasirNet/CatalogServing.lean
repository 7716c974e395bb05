import KvasirNet.Runs
import Mathlib.Data.List.AList
import Mathlib.Data.List.Induction
import Mathlib.Tactic.Common

/-! `verify`: whether the snapshots of the agents show that the stages of a model hold its load. -/
namespace KvasirNet.CatalogServing

/-- A field of a JSON object, with what it holds if it is neither missing nor null. -/
inductive Field (ν : Type)
  | missing
  | null
  | value (x : ν)
  deriving DecidableEq, Repr

/-- `field ?? null`. -/
def Field.orNull {ν : Type} : Field ν → Option ν
  | .value x => some x
  | _ => none

structure Row (ν : Type) where
  nodeId : String
  generation : Field ν
  loadGeneration : Field ν

structure Stage (ν : Type) where
  agent : String
  node : String
  generation : ν

structure Model (ν : Type) where
  id : String
  loadGeneration : ν
  stages : List (Stage ν)

/-- The snapshots that there are, each with its rows if it has any. -/
abbrev Snapshots (ν : Type) := String → Option (Option (List (Row ν)))

/-- What `verify` notes about a stage. -/
structure StageReport (ν : Type) where
  agent : String
  node : String
  found : Bool
  generationMatches : Bool
  loadGeneration : Option ν
  holdsOurLoad : Option Bool

structure Verdict (ν : Type) where
  serving : Bool
  stages : List (StageReport ν)
  loadGenerationReported : Bool

/-! ### Verifying -/

section
variable {ν μ : Type} [DecidableEq μ]

/-- `Number` of a value; `none` is NaN. -/
structure Numbers (ν μ : Type) where
  number : ν → Option μ
  zero : μ

variable (N : Numbers ν μ)

def Numbers.ofField : Field ν → Option μ
  | .missing => none
  | .null => some N.zero
  | .value x => N.number x

/-- `===` of two numbers. -/
def same (a b : Option μ) : Bool := a.isSome && a == b

variable (model : Model ν) (snapshots : Snapshots ν)

/-- `snapshot?.nodes?.find(...)`. -/
def row (stage : Stage ν) : Option (Row ν) := do
  let snapshot ← snapshots stage.agent
  let nodes ← snapshot
  nodes.find? fun r => r.nodeId = stage.node

def reported (stage : Stage ν) : Option ν := (row snapshots stage).bind fun r => r.loadGeneration.orNull

/-- The stage is registered at the generation the catalog names. -/
def registered (stage : Stage ν) : Bool :=
  (row snapshots stage).any fun r => same (N.ofField r.generation) (N.number stage.generation)

def holdsOurLoad (stage : Stage ν) : Option Bool :=
  (reported snapshots stage).map fun g => same (N.number g) (N.number model.loadGeneration)

def stageReport (stage : Stage ν) : StageReport ν where
  agent := stage.agent
  node := stage.node
  found := (row snapshots stage).isSome
  generationMatches := registered N snapshots stage
  loadGeneration := reported snapshots stage
  holdsOurLoad := holdsOurLoad N model snapshots stage

def verify : Verdict ν :=
  let stages := model.stages.map (stageReport N model snapshots)
  let reports := stages.all fun stage => stage.loadGeneration.isSome
  { serving :=
      if reports then stages.all fun stage => stage.found && stage.holdsOurLoad == some true
      else stages.all fun stage => stage.found && stage.generationMatches
    stages := stages
    loadGenerationReported := reports }

/-- The verdicts of a refresh, under the ids of the models. -/
def refreshServing (models : List (Model ν)) : AList fun _ : String => Verdict ν :=
  models.foldl (fun serving m => serving.insert m.id (verify N m snapshots)) ∅

/-! ### What a verdict says -/

/-- The model is said to serve only if all of its stages were found and none of them reports
another load. -/
def Sound (v : Verdict ν) : Prop :=
  v.serving = true → ∀ stage ∈ v.stages, stage.found = true ∧ stage.holdsOurLoad ≠ some false

/-- A ring of which some stages report their load and some do not. All are registered as the
catalog has them, and one of them reports another load. -/
structure Mixed : Prop where
  silent : ∃ stage ∈ model.stages, reported snapshots stage = none
  registered : ∀ stage ∈ model.stages, registered N snapshots stage = true
  other : ∃ stage ∈ model.stages, ∃ g, reported snapshots stage = some g ∧
    same (N.number g) (N.number model.loadGeneration) = false

variable {N model snapshots}

theorem found_of_registered {stage : Stage ν} (h : registered N snapshots stage = true) :
    (row snapshots stage).isSome = true := by
  unfold registered at h
  cases hrow : row snapshots stage with
  | none =>
    rw [hrow] at h
    cases h
  | some r => rfl

theorem holdsOurLoad_eq_false {stage : Stage ν} :
    holdsOurLoad N model snapshots stage = some false ↔ ∃ g, reported snapshots stage = some g ∧
      same (N.number g) (N.number model.loadGeneration) = false :=
  Option.map_eq_some_iff

theorem serving_of_reports (h : ∀ stage ∈ model.stages, reported snapshots stage ≠ none) :
    (verify N model snapshots).serving = true ↔ ∀ stage ∈ model.stages,
      (row snapshots stage).isSome = true ∧ holdsOurLoad N model snapshots stage = some true := by
  have hreports : ((model.stages.map (stageReport N model snapshots)).all
      fun stage => stage.loadGeneration.isSome) = true := by
    rw [List.all_map, List.all_eq_true]
    intro stage hstage
    exact Option.isSome_iff_ne_none.mpr (h stage hstage)
  simp only [verify, hreports, if_true, List.all_map, List.all_eq_true, Function.comp_apply,
    stageReport, Bool.and_eq_true, beq_iff_eq]

theorem serving_of_silent (h : ∃ stage ∈ model.stages, reported snapshots stage = none) :
    (verify N model snapshots).serving = true ↔
      ∀ stage ∈ model.stages, registered N snapshots stage = true := by
  have hreports : ((model.stages.map (stageReport N model snapshots)).all
      fun stage => stage.loadGeneration.isSome) = false := by
    obtain ⟨stage, hstage, hnone⟩ := h
    rw [List.all_map, List.all_eq_false]
    refine ⟨stage, hstage, ?_⟩
    show ¬ (reported snapshots stage).isSome = true
    rw [hnone]
    exact Bool.false_ne_true
  simp only [verify, hreports, Bool.false_eq_true, if_false, List.all_map, List.all_eq_true,
    Function.comp_apply, stageReport, Bool.and_eq_true]
  constructor
  · intro hall stage hstage
    exact (hall stage hstage).2
  · intro hall stage hstage
    exact ⟨found_of_registered (hall stage hstage), hall stage hstage⟩

theorem sound_of_not_mixed (hnot : ¬ Mixed N model snapshots) :
    Sound (verify N model snapshots) := by
  intro hserving report hreport
  obtain ⟨stage, hstage, rfl⟩ := List.mem_map.mp
    (show report ∈ model.stages.map (stageReport N model snapshots) from hreport)
  by_cases hsilent : ∃ stage ∈ model.stages, reported snapshots stage = none
  · have hregistered := (serving_of_silent hsilent).mp hserving
    refine ⟨found_of_registered (hregistered stage hstage), ?_⟩
    intro hfalse
    exact hnot ⟨hsilent, hregistered, stage, hstage, holdsOurLoad_eq_false.mp hfalse⟩
  · have hall : ∀ stage ∈ model.stages, reported snapshots stage ≠ none :=
      fun stage hstage hnone => hsilent ⟨stage, hstage, hnone⟩
    obtain ⟨hfound, hholds⟩ := (serving_of_reports hall).mp hserving stage hstage
    refine ⟨hfound, ?_⟩
    show holdsOurLoad N model snapshots stage ≠ some false
    rw [hholds]
    simp

theorem not_sound_of_mixed (hmixed : Mixed N model snapshots) :
    ¬ Sound (verify N model snapshots) := by
  intro hsound
  obtain ⟨stage, hstage, hother⟩ := hmixed.other
  have hserving := (serving_of_silent hmixed.silent).mpr hmixed.registered
  have hmem : stageReport N model snapshots stage ∈ (verify N model snapshots).stages :=
    List.mem_map_of_mem hstage
  apply (hsound hserving _ hmem).2
  exact holdsOurLoad_eq_false.mpr hother

/-- A verdict is sound unless the reports are mixed and the ones there are go unheard. -/
theorem verify_sound_iff (N : Numbers ν μ) (model : Model ν) (snapshots : Snapshots ν) :
    Sound (verify N model snapshots) ↔ ¬ Mixed N model snapshots :=
  ⟨fun hsound hmixed => not_sound_of_mixed hmixed hsound, sound_of_not_mixed⟩

theorem refreshServing_lookup {models : List (Model ν)} {id : String} {v : Verdict ν}
    (h : (refreshServing N snapshots models).lookup id = some v) :
    ∃ m ∈ models, m.id = id ∧ v = verify N m snapshots := by
  induction models using List.reverseRecOn with
  | nil => cases h
  | append_singleton models m ih =>
    rw [refreshServing, List.foldl_append] at h
    by_cases hid : id = m.id
    · subst hid
      rw [List.foldl_cons, List.foldl_nil, AList.lookup_insert] at h
      exact ⟨m, by simp, rfl, (Option.some.inj h).symm⟩
    · rw [List.foldl_cons, List.foldl_nil, AList.lookup_insert_ne hid] at h
      obtain ⟨m', hm', hid', hv⟩ := ih h
      exact ⟨m', List.mem_append_left _ hm', hid', hv⟩

theorem refreshServing_sound {models : List (Model ν)}
    (h : ∀ m ∈ models, ¬ Mixed N m snapshots) {id : String} {v : Verdict ν}
    (hv : (refreshServing N snapshots models).lookup id = some v) : Sound v := by
  obtain ⟨m, hm, -, rfl⟩ := refreshServing_lookup hv
  exact sound_of_not_mixed (h m hm)

end

/-! ### A mixed ring -/

def naturals : Numbers ℕ ℕ := ⟨some, 0⟩

def twoStages : Model ℕ := ⟨"m", 7, [⟨"a", "s0", 7⟩, ⟨"b", "s1", 7⟩]⟩

/-- The agent `a` does not report loads yet; the stage of `b` holds the one before. -/
def mixedSnapshots : Snapshots ℕ
  | "a" => some (some [⟨"s0", .value 7, .missing⟩])
  | "b" => some (some [⟨"s1", .value 7, .value 6⟩])
  | _ => none

theorem mixed_ring_serves : ¬ Sound (verify naturals twoStages mixedSnapshots) := by
  apply not_sound_of_mixed
  refine ⟨⟨⟨"a", "s0", 7⟩, List.mem_cons_self, rfl⟩, by decide, ?_⟩
  exact ⟨⟨"b", "s1", 7⟩, List.mem_cons_of_mem _ List.mem_cons_self, 6, rfl, rfl⟩

end KvasirNet.CatalogServing
