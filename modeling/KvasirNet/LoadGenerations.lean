import KvasirNet.Runs
import Mathlib.Data.Int.Order.Basic
import Mathlib.Data.List.Basic

/-! The number that a ring is loaded with: the two files that name it, and the runs of the
tools that write them, each of which may stop at any step. -/
namespace KvasirNet.LoadGenerations

structure Stage where
  agent : String
  node : String
  generation : ℤ
  deriving DecidableEq, Repr

/-- The plan's own data of a stage and its defaults, by their keys. -/
abbrev Settings := List (String × String)

structure PlanStage where
  stage : Stage
  settings : Settings
  deriving DecidableEq, Repr

structure Plan where
  model : Option String
  load_generation : Option ℤ
  defaults : Settings
  stages : List PlanStage
  deriving DecidableEq, Repr

/-- The command line. A `--generation` that is no integer is `some none`. -/
structure Options where
  generation : Option (Option ℤ)
  model : Option String
  dryRun : Bool
  confirm : Bool
  deriving DecidableEq, Repr

/-- `last-load.json` -/
structure Record where
  load_generation : ℤ
  model : Option String
  stages : List Stage
  deriving DecidableEq, Repr

/-- A model of `catalog.json`; unloaded, its number is null. -/
structure Entry where
  id : String
  load_generation : Option ℤ
  stages : List Stage
  deriving DecidableEq, Repr

/-- A file of JSON. One whose writing was cut off is there and cannot be read. -/
inductive File (α : Type)
  | absent
  | unreadable
  | readable (content : α)
  deriving DecidableEq, Repr

def File.written {α : Type} (whole : Bool) (content : α) : File α :=
  if whole then .readable content else .unreadable

/-- The tool that runs, with the stages that it has yet to send to. -/
inductive Tool
  | idle
  | loading (generation : ℤ) (model : Option String) (stages rest : List Stage)
  | unloading (generation : ℤ) (model : Option String) (rest : List Stage)
  deriving DecidableEq, Repr

/-- The files and the tool, then what has happened: each LOAD that was `sent`, each UNLOAD that
is unanswered, each LOAD that no UNLOAD has answered since, and each number that was `handed`
out, with the LOADs sent before it. -/
structure World where
  record : File Record
  catalog : File (List Entry)
  tool : Tool
  sent : List (Stage × ℤ)
  asked : List (Stage × ℤ)
  owed : List (Stage × ℤ)
  handed : List (ℤ × List (Stage × ℤ))

def World.start (record : File Record) (catalog : File (List Entry)) : World :=
  ⟨record, catalog, .idle, [], [], [], []⟩

/-! ### A new number -/

/-- The numbers that a file names; one that cannot be read is passed by. -/
def File.seen {α : Type} (path : String) (holders : α → List (Option ℤ)) :
    File α → List (String × ℤ)
  | .readable data => (holders data).filterMap fun previous => previous.map fun n => (path, n)
  | _ => []

/-- What the two files name, of those that the run reads. -/
def seen (w : World) (record catalog : Bool) : List (String × ℤ) :=
  (if record then w.record.seen "state/last-load.json" fun r => [some r.load_generation] else []) ++
    if catalog then w.catalog.seen "catalog.json" (List.map Entry.load_generation) else []

/-- `load_generation`: the clock in milliseconds. -/
def loadGeneration (clock : ℤ) (seen : List (String × ℤ)) : Except String ℤ :=
  match seen.find? fun s => clock ≤ s.2 with
  | some (path, previous) =>
    .error (s!"the clock is behind {path}: {clock} <= {previous}.\n" ++
      "Reusing or going below a live generation strands the model. Fix the clock.")
  | none => .ok clock

theorem loadGeneration_ok {clock g : ℤ} {seen : List (String × ℤ)}
    (h : loadGeneration clock seen = .ok g) : g = clock ∧ ∀ s ∈ seen, s.2 < clock := by
  unfold loadGeneration at h
  split at h
  · cases h
  · rename_i hnone
    refine ⟨(Except.ok.inj h).symm, fun s hs => ?_⟩
    have hbehind := List.find?_eq_none.mp hnone s hs
    simp only [decide_eq_true_eq] at hbehind
    omega

/-! ### Loading -/

/-- The keys of the payload that have no default of their own. -/
def required : List String :=
  ["binary", "endpoint", "plan", "n_batch", "n_ubatch", "context_size", "total_context_size",
    "sequence_capacity", "resource_profile"]

def missing (plan : Plan) : Option String :=
  plan.stages.findSome? fun s =>
    (required.find? fun key => ((s.settings.lookup key).or (plan.defaults.lookup key)).isNone).map
      fun key => s!"stage {s.stage.node} is missing {key}"

def Plan.recorded (plan : Plan) : List Stage := plan.stages.map PlanStage.stage

/-- `doLoad` before it writes: the number, or nothing where the run is a dry one. -/
def loadWork (o : Options) (plan : Plan) : Except String (Option ℤ) :=
  match (plan.recorded.map Stage.generation).eraseDups with
  | [] => .error "the plan has no stages"
  | [nodeGeneration] =>
    match o.generation.getD (some (plan.load_generation.getD nodeGeneration)) with
    | none => .error "generation must be a positive integer"
    | some generation =>
      if generation ≤ 0 then .error "generation must be a positive integer"
      else if generation ≠ nodeGeneration then
        .error (s!"load generation {generation} differs from the plan's node generation " ++
          s!"{nodeGeneration}; they are one number, and a ring loaded with two loses its head " ++
          "on the first release")
      else match missing plan with
        | some error => .error error
        | none =>
          if o.dryRun then .ok none
          else if o.confirm then .ok (some generation)
          else .error "refusing to load without --confirm"
  | several =>
    .error ("every stage must share one node generation; the plan has " ++
      String.intercalate ", " (several.map toString))

theorem loadWork_ok {o : Options} {plan : Plan} {g : ℤ} (h : loadWork o plan = .ok (some g)) :
    0 < g ∧ ∀ s ∈ plan.recorded, s.generation = g := by
  unfold loadWork at h
  split at h
  · cases h
  · rename_i nodeGeneration hone
    split at h
    · cases h
    rename_i generation hgiven
    split at h
    · cases h
    rename_i hpos
    split at h
    · cases h
    rename_i hsame
    split at h
    · cases h
    split at h
    · cases h
    split at h
    swap
    · cases h
    obtain rfl := Option.some.inj (Except.ok.inj h)
    refine ⟨by omega, fun s hs => ?_⟩
    have hmem : s.generation ∈ (plan.recorded.map Stage.generation).eraseDups :=
      List.mem_eraseDups.mpr (List.mem_map_of_mem hs)
    rw [hone, List.mem_singleton] at hmem
    omega
  · cases h

/-! ### Unloading -/

/-- What `doUnload` unloads: the record, or without one the catalog at a number by hand. -/
def unloaded (w : World) (o : Options) : Except String Record :=
  match w.record with
  | .readable record => .ok record
  | .unreadable => .error "last-load.json is not JSON"
  | .absent =>
    match o.generation.join.filter fun supplied => 0 < supplied with
    | none => .error ("no load record at state/last-load.json. The generation is not recoverable " ++
        "from the machines — pass --generation <n> from whoever drove the load, and the stages " ++
        "will be read from the catalog")
    | some supplied =>
      match w.catalog with
      | .absent => .error "no catalog to read the stages from"
      | .unreadable => .error "catalog.json is not JSON"
      | .readable models =>
        match models.find? fun entry => o.model.all fun id => entry.id = id with
        | none => .error "the catalog has no model to unload"
        | some model => .ok ⟨supplied, some model.id, model.stages⟩

/-- `doUnload` before it sends: the number and the record, or nothing in a dry run. -/
def unloadWork (w : World) (o : Options) : Except String (Option (ℤ × Record)) :=
  match unloaded w o with
  | .error error => .error error
  | .ok record =>
    match o.generation.getD (some record.load_generation) with
    | none => .error "no usable load generation"
    | some generation =>
      if generation ≤ 0 then .error "no usable load generation"
      else if o.dryRun then .ok none
      else if o.confirm then .ok (some (generation, record))
      else .error "refusing to unload without --confirm"

/-! ### The catalog -/

/-- The entry of a model that serves: in the place of the old one, or at the end. -/
def served (models : List Entry) (entry : Entry) : List Entry :=
  match models.findIdx? fun model => model.id = entry.id with
  | some index => models.set index entry
  | none => models ++ [entry]

/-- After a whole load. A plan without a model fails here, as does a catalog that is no JSON. -/
def afterLoad (catalog : File (List Entry)) (model : Option String) (generation : ℤ)
    (stages : List Stage) (whole : Bool) : File (List Entry) :=
  match model, catalog with
  | none, _ | _, .unreadable => catalog
  | some id, .absent => .written whole (served [] ⟨id, some generation, stages⟩)
  | some id, .readable models => .written whole (served models ⟨id, some generation, stages⟩)

/-- After a whole unload the model's number is null. -/
def afterUnload (catalog : File (List Entry)) (model : Option String) (whole : Bool) :
    File (List Entry) :=
  match catalog with
  | .readable models => .written whole (models.map fun entry =>
      if some entry.id = model then { entry with load_generation := none } else entry)
  | other => other

/-! ### Runs -/

/-- A tool is begun, the next message of the running one leaves, a stage answers an UNLOAD with
success, all stages have answered the tool as it wants, or it stops. A file is written `whole`
or the tool stops in the middle of it. -/
inductive Event
  | makePlan (clock : ℤ) (record catalog : Bool)
  | load (o : Options) (plan : Plan) (whole : Bool)
  | unload (o : Options)
  | send
  | answered (stage : Stage) (generation : ℤ)
  | finished (whole : Bool)
  | stopped
  deriving DecidableEq, Repr

def step (w : World) : Event → Option World
  | .makePlan clock record catalog =>
    if w.tool ≠ .idle then none
    else match loadGeneration clock (seen w record catalog) with
      | .error _ => some w
      | .ok generation => some { w with handed := (generation, w.sent) :: w.handed }
  | .load o plan whole =>
    if w.tool ≠ .idle then none
    else match loadWork o plan with
      | .error _ | .ok none => some w
      | .ok (some generation) =>
        -- the record comes before the first LOAD
        some { w with
          record := .written whole ⟨generation, plan.model, plan.recorded⟩
          tool := if whole then .loading generation plan.model plan.recorded plan.recorded
            else .idle }
  | .unload o =>
    if w.tool ≠ .idle then none
    else match unloadWork w o with
      | .error _ | .ok none => some w
      | .ok (some (generation, record)) =>
        some { w with tool := .unloading generation record.model record.stages }
  | .send =>
    match w.tool with
    | .loading generation model stages (s :: rest) =>
      some { w with
        tool := .loading generation model stages rest
        sent := (s, generation) :: w.sent
        owed := (s, generation) :: w.owed }
    | .unloading generation model (s :: rest) =>
      some { w with
        tool := .unloading generation model rest
        asked := (s, generation) :: w.asked }
    | _ => none
  | .answered s generation =>
    if (s, generation) ∈ w.asked then
      some { w with
        asked := w.asked.erase (s, generation)
        owed := w.owed.filter fun p => p ≠ (s, generation) }
    else none
  | .finished whole =>
    match w.tool with
    | .loading generation model stages [] =>
      some { w with
        tool := .idle
        catalog := afterLoad w.catalog model generation stages whole }
    | .unloading _ model [] =>
      some { w with tool := .idle, catalog := afterUnload w.catalog model whole }
    | _ => none
  | .stopped => some { w with tool := .idle }

/-! ### What is kept -/

/-- The record or the catalog names the number together with the stage. -/
def Named (w : World) (p : Stage × ℤ) : Prop :=
  (∃ r, w.record = .readable r ∧ r.load_generation = p.2 ∧ p.1 ∈ r.stages) ∨
    ∃ models, w.catalog = .readable models ∧
      ∃ entry ∈ models, entry.load_generation = some p.2 ∧ p.1 ∈ entry.stages

/-- Some `--unload` without a number sends the stage its number. -/
def Unloadable (w : World) (p : Stage × ℤ) : Prop :=
  ∃ o : Options, o.generation = none ∧
    ∃ r, unloadWork w o = .ok (some (p.2, r)) ∧ p.1 ∈ r.stages

/-- The clock is not at a number that was sent, unless a file still stands in its way; a load
that writes its record has all stages that owe an UNLOAD among its own, with their numbers,
and writes the whole of it unless none does. -/
def careful (w : World) : Event → Bool
  | .makePlan clock record catalog =>
    (w.sent.all fun p => p.2 ≠ clock) || (seen w record catalog).any fun s => clock ≤ s.2
  | .load o plan whole =>
    match loadWork o plan with
    | .ok (some _) => w.owed.all fun p => whole && plan.recorded.contains p.1
    | _ => true
  | _ => true

/-- The record names all that is owed, and what the running load may still send. -/
structure Sound (w : World) : Prop where
  owed : ∀ p ∈ w.owed, 0 < p.2 ∧ p.1.generation = p.2 ∧
    ∃ r, w.record = .readable r ∧ r.load_generation = p.2 ∧ p.1 ∈ r.stages
  loading : ∀ g model stages rest, w.tool = .loading g model stages rest →
    0 < g ∧ (∀ s ∈ rest, s.generation = g) ∧ rest ⊆ stages ∧
      w.record = .readable ⟨g, model, stages⟩
  handed : ∀ h ∈ w.handed, ∀ p ∈ h.2, p.2 ≠ h.1

theorem start_sound (record : File Record) (catalog : File (List Entry)) :
    Sound (.start record catalog) where
  owed := fun _ h => absurd h List.not_mem_nil
  loading := fun _ _ _ _ h => by cases h
  handed := fun _ h => absurd h List.not_mem_nil

variable {w w' : World}

theorem makePlan_sound {clock : ℤ} {record catalog : Bool}
    (hcareful : careful w (.makePlan clock record catalog) = true) (hw : Sound w)
    (h : step w (.makePlan clock record catalog) = some w') : Sound w' := by
  simp only [step] at h
  split_ifs at h with hidle
  split at h
  · obtain rfl := Option.some.inj h
    exact hw
  · rename_i g hg
    obtain rfl := Option.some.inj h
    obtain ⟨rfl, hseen⟩ := loadGeneration_ok hg
    refine ⟨hw.owed, hw.loading, fun x hx p hp => ?_⟩
    rcases List.mem_cons.mp hx with rfl | hx
    · -- no file stands in the way, so the clock is at none of the numbers
      rcases Bool.or_eq_true_iff.mp hcareful with hall | hany
      · have hne := List.all_eq_true.mp hall p hp
        exact of_decide_eq_true hne
      · obtain ⟨s, hs, hle⟩ := List.any_eq_true.mp hany
        have hlt := hseen s hs
        have hle := of_decide_eq_true hle
        omega
    · exact hw.handed x hx p hp

theorem load_sound {o : Options} {plan : Plan} {whole : Bool}
    (hcareful : careful w (.load o plan whole) = true) (hw : Sound w)
    (h : step w (.load o plan whole) = some w') : Sound w' := by
  simp only [step] at h
  split at h
  · cases h
  split at h
  · obtain rfl := Option.some.inj h
    exact hw
  · obtain rfl := Option.some.inj h
    exact hw
  · rename_i g hg
    obtain rfl := Option.some.inj h
    obtain ⟨hpos, hsame⟩ := loadWork_ok hg
    simp only [careful, hg] at hcareful
    have howed : ∀ p ∈ w.owed, whole = true ∧ p.1 ∈ plan.recorded := by
      intro p hp
      have hp := List.all_eq_true.mp hcareful p hp
      obtain ⟨hwhole, hmem⟩ := Bool.and_eq_true_iff.mp hp
      exact ⟨hwhole, List.contains_iff_mem.mp hmem⟩
    refine ⟨fun p hp => ?_, fun g' model stages rest htool => ?_, hw.handed⟩
    · obtain ⟨hwhole, hmem⟩ := howed p hp
      obtain ⟨hp0, hgen, -⟩ := hw.owed p hp
      have hnumber : g = p.2 := by
        rw [← hgen, hsame p.1 hmem]
      exact ⟨hp0, hgen, _, by rw [hwhole]; rfl, hnumber, hmem⟩
    · cases whole with
      | false => cases htool
      | true =>
        cases htool
        exact ⟨hpos, hsame, fun s hs => hs, rfl⟩

theorem Sound.of_quiet (hw : Sound w) (hrecord : w'.record = w.record)
    (howed : w'.owed ⊆ w.owed) (hhanded : w'.handed = w.handed)
    (htool : w'.tool = w.tool ∨ ∀ g model stages rest, w'.tool ≠ .loading g model stages rest) :
    Sound w' := by
  refine ⟨fun p hp => ?_, fun g model stages rest h => ?_, ?_⟩
  · rw [hrecord]
    exact hw.owed p (howed hp)
  · rw [hrecord]
    rcases htool with htool | hno
    · exact hw.loading g model stages rest (htool ▸ h)
    · exact absurd h (hno g model stages rest)
  · rw [hhanded]
    exact hw.handed

theorem send_sound (hw : Sound w) (h : step w .send = some w') : Sound w' := by
  simp only [step] at h
  split at h
  · rename_i g model stages s rest htool
    obtain rfl := Option.some.inj h
    obtain ⟨hpos, hsame, hrest, hrecord⟩ := hw.loading g model stages (s :: rest) htool
    refine ⟨fun p hp => ?_, fun g' model' stages' rest' htool' => ?_, hw.handed⟩
    · rcases List.mem_cons.mp hp with rfl | hp
      · exact ⟨hpos, hsame s List.mem_cons_self, _, hrecord, rfl, hrest List.mem_cons_self⟩
      · exact hw.owed p hp
    · cases htool'
      exact ⟨hpos, fun t ht => hsame t (List.mem_cons_of_mem s ht),
        fun t ht => hrest (List.mem_cons_of_mem s ht), hrecord⟩
  · obtain rfl := Option.some.inj h
    exact hw.of_quiet rfl (fun _ hp => hp) rfl (.inr fun _ _ _ _ he => by cases he)
  · cases h

theorem step_sound {e : Event} (hcareful : careful w e = true) (hw : Sound w)
    (h : step w e = some w') : Sound w' := by
  cases e with
  | makePlan clock record catalog => exact makePlan_sound hcareful hw h
  | load o plan whole => exact load_sound hcareful hw h
  | send => exact send_sound hw h
  | unload o =>
    simp only [step] at h
    split_ifs at h with hidle
    split at h
    · obtain rfl := Option.some.inj h
      exact hw
    · obtain rfl := Option.some.inj h
      exact hw
    · obtain rfl := Option.some.inj h
      exact hw.of_quiet rfl (fun _ hp => hp) rfl (.inr fun _ _ _ _ he => by cases he)
  | answered s generation =>
    simp only [step] at h
    split_ifs at h with hasked
    obtain rfl := Option.some.inj h
    exact hw.of_quiet rfl (fun _ hp => List.mem_of_mem_filter hp) rfl (.inl rfl)
  | finished whole =>
    simp only [step] at h
    split at h
    · obtain rfl := Option.some.inj h
      exact hw.of_quiet rfl (fun _ hp => hp) rfl (.inr fun _ _ _ _ he => by cases he)
    · obtain rfl := Option.some.inj h
      exact hw.of_quiet rfl (fun _ hp => hp) rfl (.inr fun _ _ _ _ he => by cases he)
    · cases h
  | stopped =>
    obtain rfl := Option.some.inj h
    exact hw.of_quiet rfl (fun _ hp => hp) rfl (.inr fun _ _ _ _ he => by cases he)

theorem Sound.unloadable (hw : Sound w) {p : Stage × ℤ} (hp : p ∈ w.owed) :
    Named w p ∧ Unloadable w p := by
  obtain ⟨hpos, -, r, hrecord, hnumber, hmem⟩ := hw.owed p hp
  refine ⟨.inl ⟨r, hrecord, hnumber, hmem⟩, ⟨none, none, false, true⟩, rfl, r, ?_, hmem⟩
  simp [unloadWork, unloaded, hrecord, hnumber, hpos]

/-- In a run of careful steps no number is lost and none is handed out again. -/
theorem generation_kept {record : File Record} {catalog : File (List Entry)} {es : List Event}
    {w : World}
    (hcareful : Along step (fun w e => careful w e = true) (.start record catalog) es)
    (hrun : runs step (.start record catalog) es = some w) :
    (∀ p ∈ w.owed, Named w p ∧ Unloadable w p) ∧ ∀ h ∈ w.handed, ∀ p ∈ h.2, p.2 ≠ h.1 := by
  have hw : Sound w :=
    runs_invariant (fun _ _ _ hc hs hstep => step_sound hc hs hstep) hcareful hrun
      (start_sound record catalog)
  exact ⟨fun p hp => hw.unloadable hp, hw.handed⟩

def ring (model agent : String) (generation : ℤ) : Plan where
  model := some model
  load_generation := none
  defaults := required.map fun key => (key, "-")
  stages := [⟨⟨agent, model, generation⟩, []⟩]

def confirmed : Options := ⟨none, none, false, true⟩

/-- A load that stops halfway, its unload from the record, and the next load. -/
def retried : List Event :=
  [.makePlan 1 true true, .load confirmed (ring "a" "h" 1) true, .send, .stopped,
    .unload confirmed, .send, .answered ⟨"h", "a", 1⟩ 1, .finished true, .makePlan 2 true true,
    .load confirmed (ring "b" "h" 2) true, .send, .finished true]

theorem generation_kept_retried :
    ∃ w, runs step (.start .absent .absent) retried = some w ∧ w.owed ≠ [] ∧
      (∀ p ∈ w.owed, Named w p ∧ Unloadable w p) ∧ ∀ h ∈ w.handed, ∀ p ∈ h.2, p.2 ≠ h.1 :=
  have hcareful : Along step (fun w e => careful w e = true) (.start .absent .absent) retried := by
    decide
  ⟨_, rfl, List.cons_ne_nil _ _, generation_kept hcareful rfl⟩

/-- A load stops halfway, and the load of another model writes over its record. -/
theorem generation_forgotten :
    ¬∀ (record : File Record) (catalog : File (List Entry)) (es : List Event) (w : World),
      runs step (.start record catalog) es = some w →
        (∀ p ∈ w.owed, Named w p ∧ Unloadable w p) ∧
          ∀ h ∈ w.handed, ∀ p ∈ h.2, p.2 ≠ h.1 := by
  intro h
  have hrun := (h .absent .absent [.load confirmed (ring "a" "h" 1) true, .send, .stopped,
    .load confirmed (ring "b" "h" 2) true] _ rfl).1 (⟨"h", "a", 1⟩, 1) List.mem_cons_self
  rcases hrun.1 with ⟨r, hr, hnumber, -⟩ | ⟨models, hmodels, -⟩
  · cases hr
    exact absurd hnumber (by decide)
  · cases hmodels

end KvasirNet.LoadGenerations
