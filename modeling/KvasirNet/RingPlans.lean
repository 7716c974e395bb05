import KvasirNet.LoadGenerations

/-! The plan of a ring of two hosts, the catalog that the bridge starts from, and what the numbers of
the loads have to do with both. -/
namespace KvasirNet.LoadGenerations

/-! ### The plan -/

structure Host where
  agent : String
  node : String
  binary : String
  model : String
  lib : String
  endpoint : Option String
  path : Option String
  cudaVisibleDevices : Option String

structure Site where
  head : Host
  tail : Host
  split : ℤ
  commonFlags : String

structure Template where
  model : String
  nLayer : ℕ
  first : Settings
  last : Settings

/-- The layers that a stage leaves to the other one. -/
def offLayers (start stop : ℤ) (nLayer : ℕ) : List ℕ :=
  (List.range nLayer).filter fun i => !(decide (start ≤ i) && decide (i < stop))

def planText (host : Host) (flags : String) (start stop : ℤ) (nLayer : ℕ) : String :=
  s!"--model \"{host.model}\" {flags} --layer-begin {start} --layer-end {stop} " ++
    s!"--kv-layer-begin {start} --kv-layer-end {stop} --override-tensor \"blk\\.(" ++
    String.intercalate "|" ((offLayers start stop nLayer).map toString) ++ ")\\..*=CPU\""

/-- `environment`, one setting a line. -/
def environment (host : Host) : String :=
  String.intercalate "\n" [
    "PATH=" ++ host.path.getD "/usr/local/cuda/bin:/usr/local/bin:/usr/bin:/bin",
    "LD_LIBRARY_PATH=" ++ host.lib ++ ":/usr/local/cuda/targets/sbsa-linux/lib",
    "CUDA_VISIBLE_DEVICES=" ++ host.cudaVisibleDevices.getD "0",
    "OMP_WAIT_POLICY=PASSIVE", "GOMP_SPINCOUNT=0"]

/-- `stage`; what it updates hides what the template has under the same keys. -/
def ringStage (template : Settings) (site : Site) (host : Host) (start stop : ℤ) (nLayer : ℕ)
    (generation : ℤ) : PlanStage where
  stage := ⟨host.agent, host.node, generation⟩
  settings := [("binary", host.binary), ("endpoint", host.endpoint.getD "127.0.0.1:42100"),
    ("plan", planText host site.commonFlags start stop nLayer),
    ("environment", environment host)] ++ template

/-- `main`, with the number that `load_generation` has given. -/
def ringPlan (site : Site) (template : Template) (generation : ℤ) : Except String Plan :=
  if 0 < site.split ∧ site.split < template.nLayer then
    .ok { model := some template.model
          load_generation := some generation
          defaults := []
          stages := [
            ringStage template.first site site.head 0 site.split template.nLayer generation,
            ringStage template.last site site.tail site.split template.nLayer template.nLayer
              generation] }
  else .error s!"split {site.split} is not inside 0..{template.nLayer}"

/-- The settings of a template that a stage keeps and that a load needs. -/
def Complete (template : Settings) : Prop :=
  ∀ key ∈ ["n_batch", "n_ubatch", "context_size", "total_context_size", "sequence_capacity",
    "resource_profile"], (template.lookup key).isSome = true

instance (template : Settings) : Decidable (Complete template) := by
  unfold Complete
  infer_instance

theorem mem_offLayers {start stop : ℤ} {nLayer i : ℕ} :
    i ∈ offLayers start stop nLayer ↔ i < nLayer ∧ ¬(start ≤ i ∧ (i : ℤ) < stop) := by
  rw [offLayers, List.mem_filter, List.mem_range, Bool.not_eq_true', ← Bool.decide_and,
    decide_eq_false_iff_not]

theorem ringStage_complete {template : Settings} {site : Site} {host : Host} {start stop : ℤ}
    {nLayer : ℕ} {generation : ℤ} :
    (∀ key ∈ required, (((ringStage template site host start stop nLayer generation).settings.lookup
      key).or (([] : Settings).lookup key)).isSome = true) ↔ Complete template := by
  simp [required, Complete, ringStage, List.lookup_cons]

theorem missing_none {plan : Plan} : missing plan = none ↔ ∀ s ∈ plan.stages, ∀ key ∈ required,
    ((s.settings.lookup key).or (plan.defaults.lookup key)).isSome = true := by
  unfold missing
  simp only [List.findSome?_eq_none_iff, Option.map_eq_none_iff, List.find?_eq_none,
    Option.isNone_iff_eq_none, Option.isSome_iff_ne_none, ne_eq]

theorem loadWork_confirmed {plan : Plan} {generation : ℤ}
    (hone : (plan.recorded.map Stage.generation).eraseDups = [generation])
    (hnumber : plan.load_generation = some generation) :
    loadWork confirmed plan = .ok (some generation) ↔ 0 < generation ∧ missing plan = none := by
  unfold loadWork
  rw [hone]
  simp only [confirmed, hnumber, Option.getD_none, Option.getD_some]
  by_cases hpos : generation ≤ 0
  · rw [if_pos hpos]
    exact iff_of_false nofun fun h => absurd h.1 (by omega)
  · rw [if_neg hpos, if_neg (not_not.mpr rfl)]
    cases missing plan with
    | none => exact iff_of_true rfl ⟨by omega, rfl⟩
    | some error => exact iff_of_false nofun fun h => nomatch h.2

/-- Of the layers each is left out on exactly one of the two stages, and the loader takes the plan at
its number exactly when the number is positive and both ends of the template are complete. -/
theorem ring_plan_loads {site : Site} {template : Template} {generation : ℤ} {plan : Plan}
    (h : ringPlan site template generation = .ok plan) :
    (∀ i < template.nLayer,
      (i ∈ offLayers 0 site.split template.nLayer ↔
        i ∉ offLayers site.split template.nLayer template.nLayer)) ∧
    (loadWork confirmed plan = .ok (some generation) ↔
      0 < generation ∧ Complete template.first ∧ Complete template.last) := by
  unfold ringPlan at h
  split_ifs at h with hsplit
  obtain rfl := Except.ok.inj h
  refine ⟨fun i hi => ?_, ?_⟩
  · rw [mem_offLayers, mem_offLayers]
    omega
  · have hone : ([generation, generation] : List ℤ).eraseDups = [generation] := by
      simp [List.eraseDups_cons]
    refine (loadWork_confirmed ?_ ?_).trans ?_
    · exact hone
    · rfl
    · rw [missing_none, List.forall_mem_cons, List.forall_mem_singleton, ringStage_complete,
        ringStage_complete]

def sampleHost (agent : String) : Host :=
  ⟨agent, "n", "/bin/stage", "/m.gguf", "/lib", none, none, none⟩

def sampleSettings : Settings := required.map fun key => (key, "-")

theorem ring_plan_loads_sample : ∃ plan, ringPlan ⟨sampleHost "h", sampleHost "t", 1, ""⟩
      ⟨"m", 3, sampleSettings, sampleSettings⟩ 5 = .ok plan ∧
    loadWork confirmed plan = .ok (some 5) := by
  obtain ⟨plan, hplan⟩ : ∃ plan, ringPlan ⟨sampleHost "h", sampleHost "t", 1, ""⟩
      ⟨"m", 3, sampleSettings, sampleSettings⟩ 5 = .ok plan := ⟨_, rfl⟩
  exact ⟨plan, hplan, (ring_plan_loads hplan).2.mpr (by decide)⟩

end KvasirNet.LoadGenerations
