import KvasirNet.Rollcall
import KvasirNet.WireEvent
import Mathlib.Data.List.TakeWhile

/-! When a pipeline is taken to be ready: `Pipeline.install`, which waits for the stages to report,
and `awaitAll`, which waits for their lifecycle results. Both count the names of nodes until there
are as many as stages. -/
namespace KvasirNet.Readiness

open Rollcall (Roll roll answer firstOf)
open Wire (Endpoint)

structure Stage where
  agent : String
  node : String
  generation : ℕ
  deriving DecidableEq, Repr

/-! ## `Pipeline.install` -/

/-- What is put into the set of those that are ready: a name, or where there is none the size of
the set. -/
inductive Key
  | node (name : String)
  | number (size : ℕ)
  deriving DecidableEq, Repr

/-- An event of the session's correlation, and the end of the time it is given. -/
inductive SessionEvent
  | error
  | refused (payload : String)
  | ready (source : Endpoint)
  | other
  | timeout
  deriving DecidableEq, Repr

inductive Installing
  | waiting (ready : List Key)
  | resolved
  | rejected (message : Option String)
  deriving DecidableEq, Repr

/-- `event.meta.source.node`. -/
def sourceNode : Endpoint → Option String
  | .node _ name _ => some name
  | _ => none

def insertKey {κ : Type*} [DecidableEq κ] (set : List κ) (k : κ) : List κ :=
  if k ∈ set then set else set ++ [k]

/-- Once settled it listens no more. An error brings its own message. -/
def installStep (stages : List Stage) : Installing → SessionEvent → Installing
  | .waiting _, .error => .rejected none
  | .waiting _, .refused payload => .rejected (some ("session refused: " ++ payload))
  | .waiting ready, .timeout => .rejected (some ("session install timed out with " ++
      toString ready.length ++ "/" ++ toString stages.length ++ " stages ready"))
  | .waiting ready, .ready source =>
    let ready := insertKey ready (((sourceNode source).map Key.node).getD (.number ready.length))
    if stages.length ≤ ready.length then .resolved else .waiting ready
  | s, _ => s

def install (stages : List Stage) (events : List SessionEvent) : Installing :=
  events.foldl (installStep stages) (.waiting [])

/-! ## `awaitAll` -/

structure Metadata where
  nodeId : Option String
  status : Option String
  adapterContentType : Option String
  resourceState : Option String
  firstError : Option String
  cleanupError : Option String
  deriving DecidableEq, Repr

/-- An event of the correlation, with the agent whose connection it comes on: a result carries
metadata and a text, of which the first 400 characters are kept; what cannot be decoded rejects as
an error does. -/
inductive ResultEvent
  | error
  | other
  | result (agent : String) (metadata : Metadata) (text : String)
  | timeout
  deriving DecidableEq, Repr

inductive Awaiting
  | waiting (seen failures : List String)
  | resolved (seen : List String)
  | rejected (message : Option String)
  deriving DecidableEq, Repr

def fieldText (field : Option String) : String := field.getD "undefined"

def Metadata.succeeded (m : Metadata) (wanted : String) : Bool :=
  decide (m.status = some "succeeded" ∧ m.adapterContentType = some wanted)

def failureText (node : String) (m : Metadata) (text : String) : String :=
  node ++ ": " ++ fieldText m.status ++ " (" ++ fieldText m.resourceState ++ ") " ++
    ((m.firstError.orElse fun _ => m.cleanupError).getD text)

def resultName (seen : List String) (m : Metadata) : String :=
  m.nodeId.getD ("stage-" ++ toString seen.length)

def awaitStep (wanted : String) (stages : List Stage) : Awaiting → ResultEvent → Awaiting
  | .waiting _ _, .error => .rejected none
  | .waiting seen failures, .timeout => .rejected (some ("timed out with " ++ toString seen.length ++
      "/" ++ toString stages.length ++ " stages answering" ++
      if failures = [] then "" else "\n  " ++ "\n  ".intercalate failures))
  | .waiting seen failures, .result _ m text =>
    let node := resultName seen m
    if node ∈ seen then .waiting seen failures
    else
      let seen := seen ++ [node]
      let failures := if m.succeeded wanted then failures else failures ++ [failureText node m text]
      if seen.length < stages.length then .waiting seen failures
      else if failures = [] then .resolved seen
      else .rejected (some ("\n  " ++ "\n  ".intercalate failures))
  | s, _ => s

def awaitAll (wanted : String) (stages : List Stage) (events : List ResultEvent) : Awaiting :=
  events.foldl (awaitStep wanted stages) (.waiting [] [])

/-! ## What is meant -/

def Stage.endpoint (st : Stage) : Endpoint := .node st.agent st.node st.generation

def SessionEvent.breaks : SessionEvent → Bool
  | .error | .refused _ | .timeout => true
  | _ => false

/-- The stage has reported ready, and nothing had gone wrong before. -/
def Reported (events : List SessionEvent) (st : Stage) : Prop :=
  .ready st.endpoint ∈ events.takeWhile fun e => !e.breaks

def InstallRight (stages : List Stage) (events : List SessionEvent) : Prop :=
  install stages events = .resolved ↔ ∀ st ∈ stages, Reported events st

def ResultEvent.breaks : ResultEvent → Bool
  | .error | .timeout => true
  | _ => false

/-- Whether the stage says in the event that it succeeded; nothing in an event that is not its own. -/
def answerOf (wanted : String) (st : Stage) : ResultEvent → Option Bool
  | .result agent m _ =>
    if agent = st.agent ∧ m.nodeId = some st.node then some (m.succeeded wanted) else none
  | _ => none

/-- What the first result of a stage says, if there is one and nothing had gone wrong before. -/
def resultOf (wanted : String) (events : List ResultEvent) (st : Stage) : Option Bool :=
  (events.takeWhile fun e => !e.breaks).findSome? (answerOf wanted st)

/-- It resolves when each stage has answered that it succeeded, and rejects when each has answered,
one of them otherwise. -/
structure AwaitRight (wanted : String) (stages : List Stage) (events : List ResultEvent) : Prop where
  resolves : (∃ seen, awaitAll wanted stages events = .resolved seen) ↔
    ∀ st ∈ stages, resultOf wanted events st = some true
  rejects : (∀ st ∈ stages, (resultOf wanted events st).isSome = true) →
    (∃ st ∈ stages, resultOf wanted events st = some false) →
    ∃ message, awaitAll wanted stages events = .rejected message

/-! ## The rolls behind them -/

variable {wanted : String} {stages : List Stage}

/-- The ready events that are heard, by the names of their nodes. -/
def readyAnswers : List SessionEvent → List (Key × Bool)
  | [] => []
  | .ready source :: rest =>
    ((sourceNode source).map fun name => (Key.node name, true)).toList ++ readyAnswers rest
  | .other :: rest => readyAnswers rest
  | _ => []

theorem install_settled (events : List SessionEvent) {s : Installing}
    (h : ∀ ready, s ≠ .waiting ready) : events.foldl (installStep stages) s = s := by
  induction events with
  | nil => rfl
  | cons e rest ih =>
    have hstep : installStep stages s e = s := by
      cases s with
      | waiting ready => exact absurd rfl (h ready)
      | resolved => rfl
      | rejected message => rfl
    rw [List.foldl_cons, hstep, ih]

theorem installStep_ready (stages : List Stage) (ready : List Key) (source : Endpoint) :
    installStep stages (.waiting ready) (.ready source) =
      if stages.length ≤
          (insertKey ready (((sourceNode source).map Key.node).getD (.number ready.length))).length then
        .resolved
      else
        .waiting (insertKey ready (((sourceNode source).map Key.node).getD (.number ready.length))) := rfl

theorem insertKey_old {κ : Type*} [DecidableEq κ] {set : List κ} {k : κ} (h : k ∈ set) :
    insertKey set k = set := if_pos h

theorem insertKey_new {κ : Type*} [DecidableEq κ] {set : List κ} {k : κ} (h : k ∉ set) :
    insertKey set k = set ++ [k] := if_neg h

def Named (events : List SessionEvent) : Prop :=
  ∀ source, .ready source ∈ events → (sourceNode source).isSome = true

variable {source : Endpoint}

theorem install_ready {rest : List SessionEvent} {as : List (Key × Bool)}
    (hrest : ∀ (ready : List Key) (good : Bool), ready.length < stages.length →
      (rest.foldl (installStep stages) (.waiting ready) = .resolved ↔
        ∃ good', as.foldl (answer stages.length) (.listening ready good) = .closed good'))
    {ready : List Key} (hlt : ready.length < stages.length) (good : Bool)
    {k : Key} (hk : ((sourceNode source).map Key.node).getD (.number ready.length) = k) :
    (SessionEvent.ready source :: rest).foldl (installStep stages) (.waiting ready) = .resolved ↔
      ∃ good', ((k, true) :: as).foldl (answer stages.length) (.listening ready good) =
        .closed good' := by
  rw [List.foldl_cons, List.foldl_cons, installStep_ready, Rollcall.answer_listening, hk]
  by_cases hold : k ∈ ready
  · rw [insertKey_old hold, if_pos hold, if_neg (not_le.mpr hlt)]
    exact hrest ready good hlt
  · rw [insertKey_new hold, if_neg hold]
    by_cases hfull : stages.length ≤ (ready ++ [k]).length
    · rw [if_pos hfull, if_pos hfull, install_settled rest fun _ => Installing.noConfusion,
        Rollcall.foldl_answer_closed]
      exact iff_of_true rfl ⟨_, rfl⟩
    · rw [if_neg hfull, if_neg hfull]
      exact hrest _ _ (not_le.mp hfull)

variable {events : List SessionEvent}

theorem install_from (hnamed : Named events) (ready : List Key)
    (good : Bool) (hlt : ready.length < stages.length) :
    events.foldl (installStep stages) (.waiting ready) = .resolved ↔
      ∃ good', (readyAnswers events).foldl (answer stages.length) (.listening ready good) =
        .closed good' := by
  induction events generalizing ready good with
  | nil =>
    refine iff_of_false Installing.noConfusion ?_
    rintro ⟨good', h⟩
    cases h
  | cons e rest ih =>
    have hrest : Named rest := fun source hsource => hnamed source (List.mem_cons_of_mem e hsource)
    -- what breaks it off ends the answers too
    have hbroken (message : Option String) :
        rest.foldl (installStep stages) (.rejected message) = .resolved ↔
          ∃ good', (Roll.listening ready good : Roll Key) = .closed good' := by
      rw [install_settled rest fun _ => Installing.noConfusion]
      refine iff_of_false Installing.noConfusion ?_
      rintro ⟨good', h⟩
      cases h
    cases e with
    | error => exact hbroken _
    | refused payload => exact hbroken _
    | timeout => exact hbroken _
    | other => exact ih hrest ready good hlt
    | ready source =>
      obtain ⟨name, hname⟩ := Option.isSome_iff_exists.mp (hnamed source List.mem_cons_self)
      have hanswers : readyAnswers (.ready source :: rest) = (Key.node name, true) :: readyAnswers rest := by
        rw [readyAnswers, hname]
        rfl
      rw [hanswers]
      apply install_ready (ih hrest) hlt
      rw [hname]
      rfl

theorem install_first {rest : List SessionEvent} (hnamed : Named rest)
    (hne : stages ≠ []) :
    install stages (.ready source :: rest) = .resolved ↔
      ∃ good, roll stages.length
        ((((sourceNode source).map Key.node).getD (.number 0), true) :: readyAnswers rest) =
          .closed good := by
  have hpos : ([] : List Key).length < stages.length := List.length_pos_of_ne_nil hne
  exact install_ready (install_from hnamed) hpos true rfl

def readyOf (sts : List Stage) : List SessionEvent := sts.map fun st => .ready st.endpoint

theorem readyAnswers_readyOf (sts : List Stage) :
    readyAnswers (readyOf sts) = sts.map fun st => (Key.node st.node, true) := by
  induction sts with
  | nil => rfl
  | cons st sts ih =>
    have hrest : readyAnswers (readyOf (st :: sts)) = (Key.node st.node, true) :: readyAnswers (readyOf sts) := rfl
    rw [hrest, ih, List.map_cons]

variable {sts : List Stage}

theorem mem_readyOf :
    .ready source ∈ readyOf sts ↔ ∃ st ∈ sts, source = st.endpoint := by
  constructor
  · intro h
    obtain ⟨st, hst, heq⟩ := List.mem_map.mp h
    exact ⟨st, hst, (SessionEvent.ready.inj heq).symm⟩
  · rintro ⟨st, hst, rfl⟩
    exact List.mem_map.mpr ⟨st, hst, rfl⟩

theorem named_readyOf (sts : List Stage) : Named (readyOf sts) := by
  intro source hsource
  obtain ⟨st, -, rfl⟩ := mem_readyOf.mp hsource
  rfl

variable {st : Stage}

theorem reported_readyOf
    (hready : ∀ e ∈ events, e.breaks = false) : Reported events st ↔ .ready st.endpoint ∈ events := by
  unfold Reported
  rw [List.takeWhile_eq_self_iff.mpr]
  intro e he
  rw [hready e he, Bool.not_false]

theorem mem_readyAnswers {a : Key × Bool} :
    a ∈ readyAnswers events ↔ ∃ source name, .ready source ∈ (events.takeWhile fun e => !e.breaks) ∧
      sourceNode source = some name ∧ a = (Key.node name, true) := by
  induction events with
  | nil =>
    refine iff_of_false List.not_mem_nil ?_
    rintro ⟨source, name, hsource, -⟩
    exact List.not_mem_nil hsource
  | cons e rest ih =>
    have hstop (hbreaks : e.breaks = true) (hnone : readyAnswers (e :: rest) = []) :
        a ∈ readyAnswers (e :: rest) ↔ ∃ source name,
          .ready source ∈ ((e :: rest).takeWhile fun e => !e.breaks) ∧
          sourceNode source = some name ∧ a = (Key.node name, true) := by
      rw [hnone, List.takeWhile_cons_of_neg (by rw [hbreaks]; simp)]
      refine iff_of_false List.not_mem_nil ?_
      rintro ⟨source, name, hsource, -⟩
      exact List.not_mem_nil hsource
    cases e with
    | error => exact hstop rfl rfl
    | refused payload => exact hstop rfl rfl
    | timeout => exact hstop rfl rfl
    | other =>
      rw [List.takeWhile_cons_of_pos rfl]
      refine ih.trans ?_
      simp only [List.mem_cons, reduceCtorEq, false_or]
    | ready source =>
      rw [List.takeWhile_cons_of_pos rfl, readyAnswers, List.mem_append, ih]
      constructor
      · rintro (hfirst | ⟨source', name, hsource', hrest⟩)
        · obtain ⟨name, hname, rfl⟩ := Option.map_eq_some_iff.mp (Option.mem_toList.mp hfirst)
          exact ⟨source, name, List.mem_cons_self, hname, rfl⟩
        · exact ⟨source', name, List.mem_cons_of_mem _ hsource', hrest⟩
      · rintro ⟨source', name, hsource', hname, rfl⟩
        rcases List.mem_cons.mp hsource' with heq | hsource'
        · obtain rfl := SessionEvent.ready.inj heq
          exact Or.inl (Option.mem_toList.mpr (by rw [hname, Option.map_some]))
        · exact Or.inr ⟨source', name, hsource', hname, rfl⟩

def keysOf (sts : List Stage) : List Key := sts.map fun st => Key.node st.node

theorem keysOf_nodup : (keysOf sts).Nodup ↔ (sts.map Stage.node).Nodup := by
  have hcomp : keysOf sts = (sts.map Stage.node).map Key.node := by
    rw [List.map_map]
    rfl
  rw [hcomp, List.nodup_map_iff fun _ _ => Key.node.inj]

theorem keysOf_length (sts : List Stage) : (keysOf sts).length = sts.length := List.length_map _

def OfStages (stages : List Stage) (events : List SessionEvent) : Prop :=
  ∀ source, .ready source ∈ events → ∃ st ∈ stages, source = st.endpoint

theorem OfStages.named (h : OfStages stages events) : Named events := by
  intro source hsource
  obtain ⟨st, -, rfl⟩ := h source hsource
  rfl

theorem stage_unique (hnodup : (stages.map Stage.node).Nodup) {st' : Stage} (hst : st ∈ stages)
    (hst' : st' ∈ stages) (h : st.node = st'.node) : st = st' :=
  List.inj_on_of_nodup_map hnodup hst hst' h

theorem install_right (hne : stages ≠ []) (hnodup : (stages.map Stage.node).Nodup)
    (hof : OfStages stages events) : InstallRight stages events := by
  have hkeys : keysOf stages ≠ [] := by
    intro h
    exact hne (List.map_eq_nil_iff.mp h)
  have hin : ∀ a ∈ readyAnswers events, a.1 ∈ keysOf stages := by
    intro a ha
    obtain ⟨source, name, hsource, hname, rfl⟩ := mem_readyAnswers.mp ha
    obtain ⟨st, hst, rfl⟩ := hof source (List.takeWhile_subset _ hsource)
    obtain rfl := Option.some.inj hname
    exact List.mem_map_of_mem hst
  have hroll := Rollcall.closed_iff_all (keysOf_nodup.mpr hnodup) hkeys hin
  unfold InstallRight install
  rw [install_from hof.named [] true (List.length_pos_of_ne_nil hne), ← keysOf_length stages]
  refine hroll.trans ?_
  constructor
  · intro hall st hst
    obtain ⟨a, ha, hname⟩ := List.mem_map.mp (hall _ (List.mem_map_of_mem hst))
    obtain ⟨source, name, hsource, hnode, rfl⟩ := mem_readyAnswers.mp ha
    obtain ⟨st', hst', rfl⟩ := hof source (List.takeWhile_subset _ hsource)
    obtain rfl := Option.some.inj hnode
    obtain rfl := stage_unique hnodup hst' hst (Key.node.inj hname)
    exact hsource
  · intro hall k hk
    obtain ⟨st, hst, rfl⟩ := List.mem_map.mp hk
    exact List.mem_map.mpr ⟨_, mem_readyAnswers.mpr ⟨st.endpoint, st.node, hall st hst, rfl, rfl⟩, rfl⟩

theorem install_shared_name (hne : stages ≠ []) (h : ¬ (stages.map Stage.node).Nodup) :
    ¬ InstallRight stages (readyOf stages) := by
  intro hright
  have hready : ∀ e ∈ readyOf stages, e.breaks = false := by
    intro e he
    obtain ⟨st, -, rfl⟩ := List.mem_map.mp he
    rfl
  have hresolved := hright.mpr fun st hst =>
    (reported_readyOf hready).mpr (mem_readyOf.mpr ⟨st, hst, rfl⟩)
  have hclosed := (install_from (named_readyOf stages) [] true (List.length_pos_of_ne_nil hne)).mp hresolved
  have hcard := (Rollcall.closed_iff (List.length_pos_of_ne_nil hne) _).mp hclosed
  have hnames : (readyAnswers (readyOf stages)).map Prod.fst = keysOf stages := by
    rw [readyAnswers_readyOf, List.map_map]
    rfl
  have hfew := Rollcall.card_lt_of_not_nodup (mt keysOf_nodup.mp h)
  rw [hnames] at hcard
  rw [keysOf_length] at hfew
  omega

theorem install_stranger (hne : stages ≠ []) (hnodup : (stages.map Stage.node).Nodup)
    (hstranger : ∀ st ∈ stages, source ≠ st.endpoint) :
    ∃ sts, (∀ st ∈ sts, st ∈ stages) ∧ ¬ InstallRight stages (.ready source :: readyOf sts) := by
  have hkeys : (stages.map fun st => Key.node st.node).Nodup := keysOf_nodup.mpr hnodup
  obtain ⟨st, hst, hdistinct, hlength⟩ :=
    Rollcall.exists_missing hne hkeys (((sourceNode source).map Key.node).getD (.number 0))
  refine ⟨stages.filter fun b => Key.node b.node ≠ Key.node st.node,
    fun st' hst' => (List.mem_filter.mp hst').1, fun hright => ?_⟩
  have hready : ∀ e ∈ SessionEvent.ready source ::
      readyOf (stages.filter fun b => Key.node b.node ≠ Key.node st.node), e.breaks = false := by
    intro e he
    rcases List.mem_cons.mp he with rfl | he
    · rfl
    · obtain ⟨st', -, rfl⟩ := List.mem_map.mp he
      rfl
  have hresolved : install stages (.ready source ::
      readyOf (stages.filter fun b => Key.node b.node ≠ Key.node st.node)) = .resolved := by
    rw [install_first (named_readyOf _) hne, readyAnswers_readyOf,
      Rollcall.closed_iff (List.length_pos_of_ne_nil hne), List.map_cons, List.map_map]
    rw [← hlength, ← List.toFinset_card_of_nodup hdistinct]
    exact le_refl _
  -- the stage that is left out has not reported
  have hreported := (reported_readyOf hready).mp (hright.mp hresolved st hst)
  rcases List.mem_cons.mp hreported with heq | hmem
  · exact hstranger st hst (SessionEvent.ready.inj heq).symm
  · obtain ⟨st', hst', hend⟩ := mem_readyOf.mp hmem
    have hnode : st.node = st'.node := (Endpoint.node.inj hend).2.1
    have hother := of_decide_eq_true (List.mem_filter.mp hst').2
    exact hother (by rw [hnode])

/-! ## The lifecycle results -/

/-- The results that are heard, by the names in their metadata. -/
def resultAnswers (wanted : String) : List ResultEvent → List (String × Bool)
  | [] => []
  | .result _ m _ :: rest =>
    (m.nodeId.map fun name => (name, m.succeeded wanted)).toList ++ resultAnswers wanted rest
  | .other :: rest => resultAnswers wanted rest
  | _ => []

theorem awaitAll_settled (events : List ResultEvent) {s : Awaiting}
    (h : ∀ seen failures, s ≠ .waiting seen failures) :
    events.foldl (awaitStep wanted stages) s = s := by
  induction events with
  | nil => rfl
  | cons e rest ih =>
    have hstep : awaitStep wanted stages s e = s := by
      cases s with
      | waiting seen failures => exact absurd rfl (h seen failures)
      | resolved seen => rfl
      | rejected message => rfl
    rw [List.foldl_cons, hstep, ih]

structure Called (final : Awaiting) (called : Roll String) : Prop where
  resolved : (∃ seen, final = .resolved seen) ↔ called = .closed true
  rejected : called = .closed false → ∃ message, final = .rejected message

theorem called_waiting (seen failures seen' : List String) (good : Bool) :
    Called (.waiting seen failures) (.listening seen' good) := by
  refine ⟨iff_of_false ?_ (fun h => nomatch h), fun h => nomatch h⟩
  rintro ⟨seen, h⟩
  cases h

theorem called_broken (message : Option String) (seen : List String) (good : Bool) :
    Called (.rejected message) (.listening seen good) := by
  refine ⟨iff_of_false ?_ (fun h => nomatch h), fun h => nomatch h⟩
  rintro ⟨seen, h⟩
  cases h

theorem awaitStep_result (seen failures : List String) (agent : String) (m : Metadata) (text : String) :
    awaitStep wanted stages (.waiting seen failures) (.result agent m text) =
      if resultName seen m ∈ seen then .waiting seen failures
      else
        let failures := if m.succeeded wanted then failures
          else failures ++ [failureText (resultName seen m) m text]
        if (seen ++ [resultName seen m]).length < stages.length then
          .waiting (seen ++ [resultName seen m]) failures
        else if failures = [] then .resolved (seen ++ [resultName seen m])
        else .rejected (some ("\n  " ++ "\n  ".intercalate failures)) := rfl

variable {rest : List ResultEvent} {agent : String}

theorem await_result {as : List (String × Bool)}
    (hrest : ∀ seen failures : List String, seen.length < stages.length →
      Called (rest.foldl (awaitStep wanted stages) (.waiting seen failures))
        (as.foldl (answer stages.length) (.listening seen (decide (failures = [])))))
    {seen failures : List String} (hlt : seen.length < stages.length) {text name : String}
    {m : Metadata} (hname : resultName seen m = name) :
    Called ((ResultEvent.result agent m text :: rest).foldl (awaitStep wanted stages)
        (.waiting seen failures))
      (((name, m.succeeded wanted) :: as).foldl (answer stages.length)
        (.listening seen (decide (failures = [])))) := by
  rw [List.foldl_cons, List.foldl_cons, awaitStep_result, Rollcall.answer_listening, hname]
  by_cases hold : name ∈ seen
  · rw [if_pos hold, if_pos hold]
    exact hrest seen failures hlt
  · rw [if_neg hold, if_neg hold]
    -- the failures stay none as long as the answers are good
    have hgood : (decide (failures = []) && m.succeeded wanted) = decide
        ((if m.succeeded wanted then failures else failures ++ [failureText name m text]) = []) := by
      by_cases hok : m.succeeded wanted = true
      · rw [if_pos hok, hok, Bool.and_true]
      · rw [if_neg hok, Bool.eq_false_of_not_eq_true hok, Bool.and_false]
        exact (decide_eq_false (List.append_ne_nil_of_right_ne_nil _ (List.cons_ne_nil _ _))).symm
    generalize (if m.succeeded wanted then failures else failures ++ [failureText name m text]) =
      failures' at hgood
    by_cases hfull : stages.length ≤ (seen ++ [name]).length
    · rw [if_pos hfull, Rollcall.foldl_answer_closed, hgood]
      simp only [not_lt.mpr hfull, if_false]
      by_cases hnone : failures' = []
      · rw [if_pos hnone, awaitAll_settled rest fun _ _ => Awaiting.noConfusion, decide_eq_true hnone]
        exact ⟨iff_of_true ⟨_, rfl⟩ rfl, fun h => Bool.noConfusion (Roll.closed.inj h)⟩
      · rw [if_neg hnone, awaitAll_settled rest fun _ _ => Awaiting.noConfusion, decide_eq_false hnone]
        refine ⟨iff_of_false ?_ fun h => Bool.noConfusion (Roll.closed.inj h), fun _ => ⟨_, rfl⟩⟩
        rintro ⟨seen, h⟩
        cases h
    · rw [if_neg hfull, hgood]
      simp only [not_le.mp hfull, if_true]
      exact hrest _ _ (not_le.mp hfull)

def AllNamed (events : List ResultEvent) : Prop :=
  ∀ agent m text, .result agent m text ∈ events → m.nodeId.isSome = true

theorem await_from {events : List ResultEvent} (hnamed : AllNamed events)
    (seen failures : List String) (hlt : seen.length < stages.length) :
    Called (events.foldl (awaitStep wanted stages) (.waiting seen failures))
      ((resultAnswers wanted events).foldl (answer stages.length)
        (.listening seen (decide (failures = [])))) := by
  induction events generalizing seen failures with
  | nil => exact called_waiting _ _ _ _
  | cons e rest ih =>
    have hrest : AllNamed rest := fun agent m text h =>
      hnamed agent m text (List.mem_cons_of_mem e h)
    have hbroken (message : Option String) : Called
        (rest.foldl (awaitStep wanted stages) (.rejected message))
        (.listening seen (decide (failures = []))) := by
      rw [awaitAll_settled rest fun _ _ => Awaiting.noConfusion]
      exact called_broken _ _ _
    cases e with
    | error => exact hbroken _
    | timeout => exact hbroken _
    | other => exact ih hrest seen failures hlt
    | result agent m text =>
      obtain ⟨name, hname⟩ := Option.isSome_iff_exists.mp (hnamed agent m text List.mem_cons_self)
      have hanswers : resultAnswers wanted (.result agent m text :: rest) =
          (name, m.succeeded wanted) :: resultAnswers wanted rest := by
        rw [resultAnswers, hname]
        rfl
      rw [hanswers]
      apply await_result (ih hrest) hlt
      rw [resultName, hname]
      rfl

theorem await_first {text : String} {m : Metadata}
    (hnamed : AllNamed rest) (hne : stages ≠ []) :
    Called (awaitAll wanted stages (.result agent m text :: rest))
      (roll stages.length ((resultName [] m, m.succeeded wanted) :: resultAnswers wanted rest)) := by
  have hpos : ([] : List String).length < stages.length := List.length_pos_of_ne_nil hne
  exact await_result (await_from hnamed) hpos rfl

theorem mem_resultAnswers {events : List ResultEvent} {a : String × Bool}
    (ha : a ∈ resultAnswers wanted events) :
    ∃ agent m text, .result agent m text ∈ events ∧ m.nodeId = some a.1 := by
  induction events with
  | nil => exact absurd ha List.not_mem_nil
  | cons e rest ih =>
    have hlater (ha : a ∈ resultAnswers wanted rest) :
        ∃ agent m text, .result agent m text ∈ e :: rest ∧ m.nodeId = some a.1 := by
      obtain ⟨agent, m, text, hmem, hname⟩ := ih ha
      exact ⟨agent, m, text, List.mem_cons_of_mem e hmem, hname⟩
    cases e with
    | error => exact absurd ha List.not_mem_nil
    | timeout => exact absurd ha List.not_mem_nil
    | other => exact hlater ha
    | result agent m text =>
      rw [resultAnswers, List.mem_append] at ha
      rcases ha with hfirst | ha
      · obtain ⟨name, hname, rfl⟩ := Option.map_eq_some_iff.mp (Option.mem_toList.mp hfirst)
        exact ⟨agent, m, text, List.mem_cons_self, hname⟩
      · exact hlater ha

def ResultsOf (stages : List Stage) (events : List ResultEvent) : Prop :=
  ∀ agent m text, .result agent m text ∈ events →
    ∃ st ∈ stages, agent = st.agent ∧ m.nodeId = some st.node

theorem ResultsOf.allNamed {events : List ResultEvent} (h : ResultsOf stages events) :
    AllNamed events := by
  intro agent m text hmem
  obtain ⟨st, -, -, hname⟩ := h agent m text hmem
  rw [hname]
  rfl

theorem ResultsOf.tail {e : ResultEvent}
    (h : ResultsOf stages (e :: rest)) : ResultsOf stages rest :=
  fun agent m text hmem => h agent m text (List.mem_cons_of_mem e hmem)

theorem resultOf_result (agent text : String) (m : Metadata) (rest : List ResultEvent) (st : Stage) :
    resultOf wanted (.result agent m text :: rest) st =
      if agent = st.agent ∧ m.nodeId = some st.node then some (m.succeeded wanted)
      else resultOf wanted rest st := by
  unfold resultOf
  rw [List.takeWhile_cons_of_pos rfl, List.findSome?_cons, answerOf]
  by_cases hmine : agent = st.agent ∧ m.nodeId = some st.node
  · rw [if_pos hmine, if_pos hmine]
  · rw [if_neg hmine, if_neg hmine]

theorem firstOf_resultAnswers (hnodup : (stages.map Stage.node).Nodup) {events : List ResultEvent}
    (hof : ResultsOf stages events) (hst : st ∈ stages) :
    firstOf (resultAnswers wanted events) st.node = resultOf wanted events st := by
  induction events with
  | nil => rfl
  | cons e rest ih =>
    cases e with
    | error => rfl
    | timeout => rfl
    | other => exact ih hof.tail
    | result agent m text =>
      obtain ⟨st', hst', rfl, hname⟩ := hof agent m text List.mem_cons_self
      have hanswers : resultAnswers wanted (.result st'.agent m text :: rest) =
          (st'.node, m.succeeded wanted) :: resultAnswers wanted rest := by
        rw [resultAnswers, hname]
        rfl
      rw [resultOf_result, hanswers, firstOf, List.find?_cons]
      by_cases hsame : st'.node = st.node
      · obtain rfl := stage_unique hnodup hst' hst hsame
        rw [if_pos ⟨rfl, hname⟩, decide_eq_true rfl]
        rfl
      · have hother : ¬ (st'.agent = st.agent ∧ m.nodeId = some st.node) := by
          rintro ⟨-, h⟩
          exact hsame (Option.some.inj (hname.symm.trans h))
        rw [if_neg hother, decide_eq_false hsame]
        exact ih hof.tail

theorem awaitAll_right (hne : stages ≠ []) (hnodup : (stages.map Stage.node).Nodup)
    {events : List ResultEvent} (hof : ResultsOf stages events) : AwaitRight wanted stages events := by
  have hnames : stages.map Stage.node ≠ [] := by
    intro h
    exact hne (List.map_eq_nil_iff.mp h)
  have hin : ∀ a ∈ resultAnswers wanted events, a.1 ∈ stages.map Stage.node := by
    intro a ha
    obtain ⟨agent, m, text, hmem, hname⟩ := mem_resultAnswers ha
    obtain ⟨st, hst, -, hname'⟩ := hof agent m text hmem
    rw [Option.some.inj (hname.symm.trans hname')]
    exact List.mem_map_of_mem hst
  have hcalled : Called (awaitAll wanted stages events)
      (roll (stages.map Stage.node).length (resultAnswers wanted events)) := by
    rw [List.length_map]
    exact await_from hof.allNamed [] [] (List.length_pos_of_ne_nil hne)
  -- all have answered if it is closed
  have hclosed := Rollcall.closed_iff_all hnodup hnames hin
  have hanswered : (∀ st ∈ stages, (resultOf wanted events st).isSome = true) ↔
      ∀ x ∈ stages.map Stage.node, x ∈ (resultAnswers wanted events).map Prod.fst := by
    rw [List.forall_mem_map]
    apply forall₂_congr
    intro st hst
    rw [← firstOf_resultAnswers hnodup hof hst, Rollcall.firstOf_isSome]
  have hgood {good : Bool} (h : roll (stages.map Stage.node).length (resultAnswers wanted events) =
      .closed good) : good = true ↔ ∀ st ∈ stages, resultOf wanted events st = some true := by
    rw [Rollcall.good_iff_all hnodup hnames hin h, List.forall_mem_map]
    apply forall₂_congr
    intro st hst
    rw [firstOf_resultAnswers hnodup hof hst]
  constructor
  · rw [hcalled.resolved]
    constructor
    · intro h
      exact (hgood h).mp rfl
    · intro hall
      obtain ⟨good, h⟩ := hclosed.mpr (hanswered.mp fun st hst => by rw [hall st hst]; rfl)
      rw [h, (hgood h).mpr hall]
  · rintro hall ⟨st, hst, hfailed⟩
    obtain ⟨good, h⟩ := hclosed.mpr (hanswered.mp hall)
    apply hcalled.rejected
    cases good with
    | false => exact h
    | true =>
      have htrue := (hgood h).mp rfl st hst
      rw [hfailed] at htrue
      exact absurd (Option.some.inj htrue) Bool.false_ne_true

/-- The result a stage sends when it has succeeded. -/
def succeededAs (wanted : String) (name : Option String) : Metadata where
  nodeId := name
  status := some "succeeded"
  adapterContentType := some wanted
  resourceState := none
  firstError := none
  cleanupError := none

theorem succeeded_succeededAs (wanted : String) (name : Option String) :
    (succeededAs wanted name).succeeded wanted = true := decide_eq_true ⟨rfl, rfl⟩

def succeededBy (wanted : String) (sts : List Stage) : List ResultEvent :=
  sts.map fun st => .result st.agent (succeededAs wanted (some st.node)) ""

theorem mem_succeededBy {text : String} {m : Metadata} :
    .result agent m text ∈ succeededBy wanted sts ↔
      ∃ st ∈ sts, agent = st.agent ∧ m = succeededAs wanted (some st.node) ∧ text = "" := by
  constructor
  · intro h
    obtain ⟨st, hst, heq⟩ := List.mem_map.mp h
    obtain ⟨hagent, hm, htext⟩ := ResultEvent.result.inj heq
    exact ⟨st, hst, hagent.symm, hm.symm, htext.symm⟩
  · rintro ⟨st, hst, rfl, rfl, rfl⟩
    exact List.mem_map.mpr ⟨st, hst, rfl⟩

theorem allNamed_succeededBy (sts : List Stage) : AllNamed (succeededBy wanted sts) := by
  intro agent m text h
  obtain ⟨st, -, -, rfl, -⟩ := mem_succeededBy.mp h
  rfl

theorem resultAnswers_succeededBy (sts : List Stage) :
    resultAnswers wanted (succeededBy wanted sts) = sts.map fun st => (st.node, true) := by
  induction sts with
  | nil => rfl
  | cons st sts ih =>
    have hanswers : resultAnswers wanted (succeededBy wanted (st :: sts)) =
        (st.node, (succeededAs wanted (some st.node)).succeeded wanted) ::
          resultAnswers wanted (succeededBy wanted sts) := rfl
    rw [hanswers, ih, succeeded_succeededAs, List.map_cons]

theorem resultOf_succeededBy :
    resultOf wanted (succeededBy wanted sts) st =
      if ∃ st' ∈ sts, st'.agent = st.agent ∧ st'.node = st.node then some true else none := by
  induction sts with
  | nil => simp [succeededBy, resultOf]
  | cons st' sts ih =>
    have hcons : succeededBy wanted (st' :: sts) =
        .result st'.agent (succeededAs wanted (some st'.node)) "" :: succeededBy wanted sts := rfl
    rw [hcons, resultOf_result, ih, succeeded_succeededAs]
    have hname : (succeededAs wanted (some st'.node)).nodeId = some st.node ↔ st'.node = st.node :=
      Option.some_inj
    by_cases hmine : st'.agent = st.agent ∧ st'.node = st.node
    · rw [if_pos ⟨hmine.1, hname.mpr hmine.2⟩, if_pos ⟨st', List.mem_cons_self, hmine⟩]
    · rw [if_neg fun h => hmine ⟨h.1, hname.mp h.2⟩]
      simp only [List.exists_mem_cons_iff, hmine, false_or]

theorem awaitAll_shared_name (wanted : String) (hne : stages ≠ [])
    (h : ¬ (stages.map Stage.node).Nodup) : ¬ AwaitRight wanted stages (succeededBy wanted stages) := by
  intro hright
  have hresolved := hright.resolves.mpr fun st hst => by
    rw [resultOf_succeededBy, if_pos ⟨st, hst, rfl, rfl⟩]
  have hpos : 0 < stages.length := List.length_pos_of_ne_nil hne
  have hclosed := (await_from (allNamed_succeededBy stages) [] [] hpos).resolved.mp hresolved
  have hcard := (Rollcall.closed_iff hpos _).mp ⟨true, hclosed⟩
  have hfew := Rollcall.card_lt_of_not_nodup h
  rw [resultAnswers_succeededBy, List.map_map] at hcard
  rw [List.length_map] at hfew
  exact absurd hcard (not_le.mpr hfew)

theorem awaitAll_stranger (wanted : String) (hne : stages ≠ []) (hnodup : (stages.map Stage.node).Nodup)
    {name : Option String}
    (hstranger : ∀ st ∈ stages, ¬ (agent = st.agent ∧ name = some st.node)) :
    ∃ sts, (∀ st ∈ sts, st ∈ stages) ∧ ¬ AwaitRight wanted stages
      (.result agent (succeededAs wanted name) "" :: succeededBy wanted sts) := by
  obtain ⟨st, hst, hdistinct, hlength⟩ :=
    Rollcall.exists_missing hne hnodup (resultName [] (succeededAs wanted name))
  refine ⟨stages.filter fun b => b.node ≠ st.node, fun st' hst' => (List.mem_filter.mp hst').1,
    fun hright => ?_⟩
  have hpos : 0 < stages.length := List.length_pos_of_ne_nil hne
  have hcalled : Called
      (awaitAll wanted stages (.result agent (succeededAs wanted name) "" ::
        succeededBy wanted (stages.filter fun b => b.node ≠ st.node)))
      (roll stages.length ((resultName [] (succeededAs wanted name),
        (succeededAs wanted name).succeeded wanted) ::
          resultAnswers wanted (succeededBy wanted (stages.filter fun b => b.node ≠ st.node)))) :=
    await_first (allNamed_succeededBy _) hne
  rw [resultAnswers_succeededBy, succeeded_succeededAs] at hcalled
  have hclosed : ∃ good, roll stages.length ((resultName [] (succeededAs wanted name), true) ::
      (stages.filter fun b => b.node ≠ st.node).map fun st => (st.node, true)) = .closed good := by
    rw [Rollcall.closed_iff hpos, List.map_cons, List.map_map]
    rw [← hlength, ← List.toFinset_card_of_nodup hdistinct]
    exact le_refl _
  obtain ⟨good, hgood⟩ := hclosed
  have hall : good = true := by
    apply Rollcall.good_of_all hpos _ hgood
    intro a ha
    rcases List.mem_cons.mp ha with rfl | ha
    · rfl
    · obtain ⟨st', -, rfl⟩ := List.mem_map.mp ha
      rfl
  have hresult := hright.resolves.mp (hcalled.resolved.mpr (hall ▸ hgood)) st hst
  -- the stage that is left out has not answered
  have hother : ¬ (agent = st.agent ∧ (succeededAs wanted name).nodeId = some st.node) :=
    hstranger st hst
  rw [resultOf_result, if_neg hother, resultOf_succeededBy, if_neg] at hresult
  · cases hresult
  · rintro ⟨st', hst', -, hnode⟩
    exact of_decide_eq_true (List.mem_filter.mp hst').2 hnode

/-! ## Whom the counts are right for -/

variable {senders : Endpoint → Prop} {answerers : String → Option String → Prop}

def SentBy (senders : Endpoint → Prop) (events : List SessionEvent) : Prop :=
  ∀ source, .ready source ∈ events → senders source

/-- Results come from some agents and under some names only. -/
def AnsweredBy (answerers : String → Option String → Prop) (events : List ResultEvent) : Prop :=
  ∀ agent m text, .result agent m text ∈ events → answerers agent m.nodeId

/-- No two stages share the name of a node, and only they send what is counted. -/
structure OnlyStages (stages : List Stage) (senders : Endpoint → Prop)
    (answerers : String → Option String → Prop) : Prop where
  nodup : (stages.map Stage.node).Nodup
  senders : ∀ source, senders source → ∃ st ∈ stages, source = st.endpoint
  answerers : ∀ agent name, answerers agent name → ∃ st ∈ stages, agent = st.agent ∧ name = some st.node

theorem sentBy_readyOf (hsend : ∀ st ∈ stages, senders st.endpoint)
    (hsub : ∀ st ∈ sts, st ∈ stages) : SentBy senders (readyOf sts) := by
  intro source hsource
  obtain ⟨st, hst, rfl⟩ := mem_readyOf.mp hsource
  exact hsend st (hsub st hst)

theorem answeredBy_succeededBy (hanswer : ∀ st ∈ stages, answerers st.agent (some st.node))
    (hsub : ∀ st ∈ sts, st ∈ stages) :
    AnsweredBy answerers (succeededBy wanted sts) := by
  intro agent m text hmem
  obtain ⟨st, hst, rfl, rfl, -⟩ := mem_succeededBy.mp hmem
  exact hanswer st (hsub st hst)

/-- Both waits mean every stage, whatever comes, just when the names of the stages differ and
nobody else is heard. -/
theorem readiness_iff (hne : stages ≠ []) (wanted : String)
    (hsend : ∀ st ∈ stages, senders st.endpoint)
    (hanswer : ∀ st ∈ stages, answerers st.agent (some st.node)) :
    ((∀ events, SentBy senders events → InstallRight stages events) ∧
      ∀ events, AnsweredBy answerers events → AwaitRight wanted stages events) ↔
      OnlyStages stages senders answerers := by
  constructor
  · rintro ⟨hinstall, hawait⟩
    have hnodup : (stages.map Stage.node).Nodup := by
      by_contra hdup
      exact install_shared_name hne hdup
        (hinstall _ (sentBy_readyOf hsend fun st hst => hst))
    refine ⟨hnodup, fun source hsource => ?_, fun agent name hname => ?_⟩
    · by_contra hno
      have hstranger : ∀ st ∈ stages, source ≠ st.endpoint := fun st hst heq => hno ⟨st, hst, heq⟩
      obtain ⟨sts, hsub, hwrong⟩ := install_stranger hne hnodup hstranger
      apply hwrong
      apply hinstall
      intro source' hmem
      rcases List.mem_cons.mp hmem with heq | hmem
      · rw [SessionEvent.ready.inj heq]
        exact hsource
      · exact sentBy_readyOf hsend hsub source' hmem
    · by_contra hno
      have hstranger : ∀ st ∈ stages, ¬ (agent = st.agent ∧ name = some st.node) :=
        fun st hst heq => hno ⟨st, hst, heq⟩
      obtain ⟨sts, hsub, hwrong⟩ := awaitAll_stranger wanted hne hnodup hstranger
      apply hwrong
      apply hawait
      intro agent' m text hmem
      rcases List.mem_cons.mp hmem with heq | hmem
      · obtain ⟨rfl, rfl, rfl⟩ := ResultEvent.result.inj heq
        exact hname
      · exact answeredBy_succeededBy hanswer hsub agent' m text hmem
  · intro honly
    constructor
    · intro events hsent
      exact install_right hne honly.nodup fun source hmem => honly.senders source (hsent source hmem)
    · intro events hanswered
      exact awaitAll_right hne honly.nodup fun agent m text hmem =>
        honly.answerers agent m.nodeId (hanswered agent m text hmem)

def gateStage : Stage := ⟨"north", "gate", 1⟩
def tailStage : Stage := ⟨"north", "tail", 1⟩

theorem readiness_two :
    (∀ events, SentBy (fun source => ∃ st ∈ [gateStage, tailStage], source = st.endpoint) events →
      InstallRight [gateStage, tailStage] events) ∧
    ∀ events, AnsweredBy
        (fun agent name => ∃ st ∈ [gateStage, tailStage], agent = st.agent ∧ name = some st.node)
        events →
      AwaitRight "loaded" [gateStage, tailStage] events := by
  have hne : [gateStage, tailStage] ≠ [] := List.cons_ne_nil _ _
  refine (readiness_iff hne "loaded" (fun st hst => ⟨st, hst, rfl⟩)
    (fun st hst => ⟨st, hst, rfl, rfl⟩)).mpr ⟨by decide, fun source h => h, fun agent name h => h⟩

def farGate : Stage := ⟨"south", "gate", 1⟩

/-- The two gates both report ready and both answer that they succeeded: neither wait ends. A
stranger that answers without a name is taken for the only stage. -/
theorem equal_names_never_ready :
    ¬ ((∀ stages events, stages ≠ [] → InstallRight stages events) ∧
      ∀ wanted stages events, stages ≠ [] → AwaitRight wanted stages events) ∧
    install [gateStage, farGate] (readyOf [gateStage, farGate]) =
      .waiting [.node "gate"] ∧
    awaitAll "loaded" [gateStage, farGate] (succeededBy "loaded" [gateStage, farGate]) =
      .waiting ["gate"] [] ∧
    awaitAll "loaded" [gateStage] [.result "east" (succeededAs "loaded" none) ""] =
      .resolved ["stage-0"] := by
  refine ⟨?_, by decide, by decide, by decide⟩
  rintro ⟨hinstall, -⟩
  exact install_shared_name (List.cons_ne_nil _ _) (by decide)
    (hinstall [gateStage, farGate] (readyOf [gateStage, farGate]) (List.cons_ne_nil _ _))

end KvasirNet.Readiness
