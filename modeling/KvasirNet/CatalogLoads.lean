import KvasirNet.CatalogServing
import KvasirNet.LoadGenerations

/-! `load` of the catalog, over the runs of the tools that write it. -/
namespace KvasirNet.LoadGenerations

/-- Why `load` throws at a model. -/
def Entry.fault (m : Entry) : Option String :=
  if m.id = "" ∨ m.stages = [] then
    some s!"catalog model {m.id} needs an id and at least one stage"
  else if ∃ s ∈ m.stages, s.agent = "" ∨ s.node = "" ∨ s.generation = 0 then
    some s!"catalog model {m.id} has an incomplete stage"
  else if 0 < m.load_generation.getD 0 then none
  else
    some (s!"catalog model {m.id} needs load_generation from the placement plan " ++
      "(an integer the loader set; it is not discoverable over OUTER and must not be guessed)")

def Entry.model (m : Entry) : CatalogServing.Model ℤ where
  id := m.id
  loadGeneration := m.load_generation.getD 0
  stages := m.stages.map fun s => ⟨s.agent, s.node, s.generation⟩

def load (models : List Entry) : Except String (List (CatalogServing.Model ℤ)) :=
  match models.findSome? Entry.fault with
  | some fault => .error fault
  | none => .ok (models.map Entry.model)

def Entry.Spelled (m : Entry) : Prop :=
  m.id ≠ "" ∧ ∀ s ∈ m.stages, s.agent ≠ "" ∧ s.node ≠ ""

theorem fault_none {m : Entry} : m.fault = none ↔
    (m.id ≠ "" ∧ m.stages ≠ []) ∧ (∀ s ∈ m.stages, s.agent ≠ "" ∧ s.node ≠ "" ∧ s.generation ≠ 0) ∧
      0 < m.load_generation.getD 0 := by
  unfold Entry.fault
  split_ifs with hid hstage hnumber
  · exact iff_of_false nofun fun h => hid.elim h.1.1 h.1.2
  · obtain ⟨s, hs, hbad⟩ := hstage
    refine iff_of_false nofun fun h => ?_
    obtain ⟨hagent, hnode, hgeneration⟩ := h.2.1 s hs
    exact hbad.elim hagent fun hbad => hbad.elim hnode hgeneration
  · refine iff_of_true rfl ⟨not_or.mp hid, fun s hs => ?_, hnumber⟩
    have hgood := not_or.mp fun hbad => hstage ⟨s, hs, hbad⟩
    exact ⟨hgood.1, not_or.mp hgood.2⟩
  · exact iff_of_false nofun fun h => hnumber h.2.2

theorem load_ok {models : List Entry} {ms : List (CatalogServing.Model ℤ)} :
    load models = .ok ms ↔ (∀ m ∈ models, m.fault = none) ∧ ms = models.map Entry.model := by
  unfold load
  cases hfault : models.findSome? Entry.fault with
  | none =>
    have hall := List.findSome?_eq_none_iff.mp hfault
    exact ⟨fun h => ⟨hall, (Except.ok.inj h).symm⟩, fun h => congrArg Except.ok h.2.symm⟩
  | some fault =>
    refine iff_of_false nofun fun h => ?_
    rw [List.findSome?_eq_none_iff.mpr h.1] at hfault
    cases hfault

/-! ### What an entry stands for -/

/-- Each of the stages was sent a LOAD with the number. -/
def Backed (sent : List (Stage × ℤ)) (generation : ℤ) (stages : List Stage) : Prop :=
  0 < generation ∧ stages ≠ [] ∧ ∀ s ∈ stages, s.generation = generation ∧ (s, generation) ∈ sent

/-- The catalog names only loads that were sent whole; the running load has sent what is no
longer before it. -/
structure Loaded (w : World) : Prop where
  catalog : ∀ models, w.catalog = .readable models → ∀ m ∈ models, ∀ g, m.load_generation = some g →
    Backed w.sent g m.stages
  loading : ∀ g model stages rest, w.tool = .loading g model stages rest →
    Backed ((rest.map fun s => (s, g)) ++ w.sent) g stages

theorem Backed.mono {sent sent' : List (Stage × ℤ)} {g : ℤ} {stages : List Stage}
    (h : Backed sent g stages) (hsub : sent ⊆ sent') : Backed sent' g stages :=
  ⟨h.1, h.2.1, fun s hs => (h.2.2 s hs).imp_right fun hmem => hsub hmem⟩

theorem Loaded.of_quiet {w w' : World} (hw : Loaded w) (hcatalog : w'.catalog = w.catalog)
    (hsent : w'.sent = w.sent)
    (htool : w'.tool = w.tool ∨ ∀ g model stages rest, w'.tool ≠ .loading g model stages rest) :
    Loaded w' := by
  refine ⟨?_, fun g model stages rest h => ?_⟩
  · rw [hcatalog, hsent]
    exact hw.catalog
  · rw [hsent]
    rcases htool with htool | hno
    · exact hw.loading g model stages rest (htool ▸ h)
    · exact absurd h (hno g model stages rest)

theorem mem_served {models : List Entry} {m entry : Entry} (h : m ∈ served models entry) :
    m ∈ models ∨ m = entry := by
  unfold served at h
  split at h
  · exact List.mem_or_eq_of_mem_set h
  · exact (List.mem_append.mp h).imp_right List.mem_singleton.mp

theorem mem_afterLoad {catalog : File (List Entry)} {model : Option String} {g : ℤ}
    {stages : List Stage} {whole : Bool} {models : List Entry} {m : Entry}
    (h : afterLoad catalog model g stages whole = .readable models) (hm : m ∈ models) :
    (∃ old, catalog = .readable old ∧ m ∈ old) ∨ (m.load_generation = some g ∧ m.stages = stages) := by
  have hwritten : ∀ old id, File.written whole (served old ⟨id, some g, stages⟩) = .readable models →
      m ∈ old ∨ (m.load_generation = some g ∧ m.stages = stages) := by
    intro old id h
    cases whole with
    | false => cases h
    | true =>
      cases h
      rcases mem_served hm with hold | rfl
      · exact .inl hold
      · exact .inr ⟨rfl, rfl⟩
  unfold afterLoad at h
  split at h
  · exact .inl ⟨models, h, hm⟩
  · cases h
  · exact (hwritten _ _ h).imp_left fun h => absurd h List.not_mem_nil
  · exact (hwritten _ _ h).imp_left fun h => ⟨_, rfl, h⟩

theorem mem_afterUnload {catalog : File (List Entry)} {model : Option String} {whole : Bool}
    {models : List Entry} {m : Entry} (h : afterUnload catalog model whole = .readable models)
    (hm : m ∈ models) : m.load_generation = none ∨ ∃ old, catalog = .readable old ∧ m ∈ old := by
  unfold afterUnload at h
  split at h
  · cases whole with
    | false => cases h
    | true =>
      cases h
      obtain ⟨entry, hentry, rfl⟩ := List.mem_map.mp hm
      split_ifs
      · exact .inl rfl
      · exact .inr ⟨_, rfl, hentry⟩
  · exact .inr ⟨models, h, hm⟩

theorem load_loaded {w w' : World} {o : Options} {plan : Plan} {whole : Bool} (hw : Loaded w)
    (h : step w (.load o plan whole) = some w') : Loaded w' := by
  simp only [step] at h
  split at h
  · cases h
  split at h
  · obtain rfl := Option.some.inj h
    exact hw
  · obtain rfl := Option.some.inj h
    exact hw
  · rename_i g hg
    obtain rfl := Option.some.inj h
    refine ⟨hw.catalog, fun g' model stages rest htool => ?_⟩
    cases whole with
    | false => cases htool
    | true =>
      cases htool
      obtain ⟨hpos, hsame⟩ := loadWork_ok hg
      have hstages : plan.recorded ≠ [] := by
        intro hnil
        simp only [loadWork, hnil, List.map_nil, List.eraseDups_nil, reduceCtorEq] at hg
      exact ⟨hpos, hstages, fun s hs =>
        ⟨hsame s hs, List.mem_append_left _ (List.mem_map_of_mem hs)⟩⟩

theorem send_loaded {w w' : World} (hw : Loaded w) (h : step w .send = some w') : Loaded w' := by
  simp only [step] at h
  split at h
  · rename_i g model stages s rest htool
    obtain rfl := Option.some.inj h
    refine ⟨fun models hmodels m hm g' hg' => ?_, fun g' model' stages' rest' htool' => ?_⟩
    · exact (hw.catalog models hmodels m hm g' hg').mono (List.subset_cons_self _ _)
    · cases htool'
      -- the stage that was sent to has moved to the other side
      exact (hw.loading g model stages (s :: rest) htool).mono fun p hp =>
        List.perm_middle.mem_iff.mpr hp
  · obtain rfl := Option.some.inj h
    exact hw.of_quiet rfl rfl (.inr fun _ _ _ _ he => by cases he)
  · cases h

theorem finished_loaded {w w' : World} {whole : Bool} (hw : Loaded w)
    (h : step w (.finished whole) = some w') : Loaded w' := by
  simp only [step] at h
  split at h
  · rename_i g model stages htool
    obtain rfl := Option.some.inj h
    refine ⟨fun models hmodels m hm g' hg' => ?_, fun _ _ _ _ he => (by cases he)⟩
    rcases mem_afterLoad hmodels hm with ⟨old, hold, hmem⟩ | ⟨hnumber, hstages⟩
    · exact hw.catalog old hold m hmem g' hg'
    · have hbacked := hw.loading g model stages [] htool
      obtain rfl := Option.some.inj (hnumber.symm.trans hg')
      rw [hstages]
      exact hbacked
  · obtain rfl := Option.some.inj h
    refine ⟨fun models hmodels m hm g' hg' => ?_, fun _ _ _ _ he => (by cases he)⟩
    rcases mem_afterUnload hmodels hm with hnone | ⟨old, hold, hmem⟩
    · rw [hnone] at hg'
      cases hg'
    · exact hw.catalog old hold m hmem g' hg'
  · cases h

theorem step_loaded {w w' : World} {e : Event} (hw : Loaded w) (h : step w e = some w') :
    Loaded w' := by
  cases e with
  | load o plan whole => exact load_loaded hw h
  | send => exact send_loaded hw h
  | finished whole => exact finished_loaded hw h
  | makePlan clock record catalog =>
    simp only [step] at h
    split_ifs at h
    split at h <;> obtain rfl := Option.some.inj h
    · exact hw
    · exact hw.of_quiet rfl rfl (.inl rfl)
  | unload o =>
    simp only [step] at h
    split_ifs at h
    split at h <;> obtain rfl := Option.some.inj h
    · exact hw
    · exact hw
    · exact hw.of_quiet rfl rfl (.inr fun _ _ _ _ he => by cases he)
  | answered s generation =>
    simp only [step] at h
    split_ifs at h
    obtain rfl := Option.some.inj h
    exact hw.of_quiet rfl rfl (.inl rfl)
  | stopped =>
    obtain rfl := Option.some.inj h
    exact hw.of_quiet rfl rfl (.inr fun _ _ _ _ he => by cases he)

end KvasirNet.LoadGenerations
