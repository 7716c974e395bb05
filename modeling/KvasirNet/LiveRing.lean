import KvasirNet.Runs
import Mathlib.Data.List.Sort
import Mathlib.Data.Rat.Lemmas
import Mathlib.Tactic.Linarith

/-! What the wallet shows of the work its stages do (`liveRing.cjs`): the contribution feed of the
bridge, matched to the stages of the own agent, and the cache that polls it in the background. -/
namespace KvasirNet.LiveRing

structure Node where
  nodeId : String
  /-- Null or absent is `none`. -/
  generation : Option ℕ
  deriving DecidableEq

/-- What `status()` tells of the agent. -/
structure Agent where
  running : Bool
  pid : Option ℕ
  address : String
  lastError : Option String
  nodes : List Node
  snapshotAt : Option ℚ

/-- A `lastError` that is not empty. -/
def Agent.failed (agent : Agent) : Bool := agent.lastError.any (· ≠ "")

/-- `Number(s.relay?.bytes)` of every slot, and how many slots serve. -/
structure Experts where
  slots : List (Option ℚ)
  servingSlots : ℕ

/-- What is read of a row of the feed: a text or a finite number, when it is one. -/
structure Row where
  nodeId : Option String
  agent : Option String
  perfTps : Option ℚ
  lastWorkAtMs : Option ℚ
  model : Option String

inductive RingState
  | unavailable
  | stale
  | idle
  | live
  deriving DecidableEq

inductive ReasonCode
  | agentNotInspected
  | agentStale
  | agentUnavailable
  | expertOnly
  | noStage
  | feedHttp
  | feedUnavailable
  | noMatch
  | missingMetadata
  deriving DecidableEq

/-- `startsWith('agent')`. -/
def ReasonCode.ofAgent : ReasonCode → Bool
  | agentNotInspected => true
  | agentStale => true
  | agentUnavailable => true
  | _ => false

structure Stage where
  nodeId : String
  model : Option String
  lastWorkAt : Option ℚ
  state : RingState
  tps : Option ℚ
  reasonCode : Option ReasonCode
  reason : Option String

structure View where
  state : RingState := .unavailable
  source : Option String
  metric : String := "achieved request throughput"
  observedAt : ℚ
  lastWorkAt : Option ℚ := none
  window : String := "bridge EWMA (0.7 previous + 0.3 request)"
  relayBytes : ℚ
  stages : List Stage := []
  reason : Option String := none
  reasonCode : Option ReasonCode := none
  httpStatus : Option ℕ

/-! ### One observation -/

def Row.isOf (row : Row) (agent : Agent) (node : Node) : Bool :=
  decide (row.nodeId = some node.nodeId) && decide (row.agent = some agent.address)

/-- The row of a stage, when there is exactly one. -/
def matchOf (agent : Agent) (rows : List Row) (node : Node) : Option Row :=
  match rows.filter fun row => row.isOf agent node with
  | [row] => some row
  | _ => none

def stageState (now : ℚ) (rate workedAt : Option ℚ) (model : Option String) : RingState :=
  match workedAt, model with
  | some t, some _ => if 60000 < now - t then .stale else if rate = none then .idle else .live
  | _, _ => .unavailable

def liveStage (agent : Agent) (rows : List Row) (now : ℚ) (node : Node) : Stage :=
  let row := matchOf agent rows node
  let rate := row.bind fun r => r.perfTps.filter (0 < ·)
  let workedAt := row.bind fun r => r.lastWorkAtMs.filter fun t => 0 < t ∧ t ≤ now
  let model := row.bind fun r => r.model.filter (· ≠ "")
  let state := stageState now rate workedAt model
  { nodeId := node.nodeId
    model := model
    lastWorkAt := workedAt
    state := state
    tps := if state = .live then rate else none
    reasonCode :=
      if row.isNone then some .noMatch
      else if workedAt.isNone || model.isNone then some .missingMetadata else none
    reason :=
      if row.isNone then some "No unique stage/agent contribution match"
      else if workedAt.isNone || model.isNone then
        some "Feed lacks model or last-work time; polling is not proof of live work"
      else none }

def overallState (stages : List Stage) : RingState :=
  if stages.any fun s => s.state = .live then .live
  else if stages.any fun s => s.state = .stale then .stale
  else if stages.all fun s => s.state = .idle then .idle
  else .unavailable

def latest : List ℚ → Option ℚ
  | [] => none
  | t :: ts => some (ts.foldl (fun m u => if m < u then u else m) t)

def relayBytes (experts : Option Experts) : ℚ :=
  ((experts.map Experts.slots).getD []).foldl (fun n bytes => n + bytes.getD 0) 0

/-- `contributions` is `none` when it is not an array. -/
def liveRing (agent : Agent) (experts : Option Experts) (contributions : Option (List Row))
    (source : Option String) (now : ℚ) (error : Option String) (httpStatus : Option ℕ) : View :=
  let base : View :=
    { source := source, observedAt := now, relayBytes := relayBytes experts, httpStatus := httpStatus }
  let serving := (experts.map Experts.servingSlots).getD 0 ≠ 0
  match agent.snapshotAt with
  | none =>
    { base with
      reasonCode := some .agentNotInspected
      reason := some "Owned agent has not been inspected yet" }
  | some snapshotAt =>
    if 15000 < now - snapshotAt then
      { base with
        state := .stale
        reasonCode := some .agentStale
        reason := some "Owned-agent inspection is stale" }
    else if !agent.running || agent.failed then
      { base with
        reasonCode := some .agentUnavailable
        reason := some "Owned-agent inspection is currently unavailable" }
    else if agent.nodes = [] then
      { base with
        state := if serving then .unavailable else .idle
        reasonCode := if serving then some .expertOnly else some .noStage
        reason :=
          if serving then
            some "No pipeline stage; expert workers expose relay activity, not token timing"
          else some "Idle — no stage on this agent" }
    else
      match error, contributions with
      | none, some rows =>
        let stages := agent.nodes.map (liveStage agent rows now)
        { base with
          stages := stages
          state := overallState stages
          lastWorkAt := latest (stages.filterMap Stage.lastWorkAt) }
      | _, _ =>
        { base with
          reasonCode := if httpStatus.any (· ≠ 0) then some .feedHttp else some .feedUnavailable
          reason := some (error.getD "Contribution feed unavailable") }

/-! ### Asking the bridge -/

/-- The parts of `new URL('/api/contributions', baseUrl)`. -/
structure Url where
  protocol : String
  username : String
  password : String
  href : String

/-- `none` when the base is no URL. -/
abbrev UrlParser := String → Option Url

def sourceOf (url : UrlParser) (baseUrl : String) : Option String :=
  (url baseUrl).bind fun u =>
    if u.protocol ∈ ["http:", "https:"] ∧ u.username = "" ∧ u.password = "" then some u.href
    else none

/-- What becomes of the request. It also fails on a body that is no JSON and on a row that is
`null`. -/
inductive Reply
  | failed
  | http (status : ℕ)
  | feed (contributions : Option (List Row))

/-- An observation on its way: `none` of a settled one is a rejection. -/
inductive Phase
  | queued
  | requesting
  | settled (value : Option View)
  | handled (value : View)
  | finished (value : View)

/-- An `observe` that the cache has started, with what the closure holds. -/
structure Launch where
  startedAt : ℚ
  agent : Agent
  experts : Option Experts
  baseUrl : String
  source : Option String
  /-- Which entry was `current`. -/
  entry : ℕ
  phase : Phase
  reply : Option Reply

inductive Task
  /-- The callback that calls `observe`, up to the request. -/
  | observe
  | reply (r : Reply)
  | reject
  /-- The callback that takes the value, or the reason of the rejection. -/
  | handle
  | finish

def unasked (agent : Agent) (now : ℚ) : Bool :=
  !agent.running || !(agent.snapshotAt.any fun t => t ≠ 0 ∧ now - t ≤ 15000) ||
    agent.failed || agent.nodes.isEmpty

/-- How `observeLiveRing` begins; `none` when it waits for the reply. -/
def observeLiveRing (url : UrlParser) (agent : Agent) (experts : Option Experts) (baseUrl : String)
    (now : ℚ) : Option View :=
  match sourceOf url baseUrl with
  | none => some (liveRing agent experts none none now (some "Contribution feed unavailable") none)
  | some source =>
    if unasked agent now then some (liveRing agent experts none (some source) now none none)
    else none

def observedReply (agent : Agent) (experts : Option Experts) (source : Option String) (now : ℚ) :
    Reply → View
  | .failed => liveRing agent experts none source now (some "Contribution feed unavailable") none
  | .http status =>
    liveRing agent experts none source now (some ("Contribution feed HTTP " ++ toString status))
      (some status)
  | .feed contributions => liveRing agent experts contributions source now none none

def Launch.run (url : UrlParser) (now : ℚ) (l : Launch) (task : Task) : Option Launch :=
  match task, l.phase with
  | .observe, .queued =>
    match observeLiveRing url l.agent l.experts l.baseUrl now with
    | some view => some { l with phase := .settled (some view) }
    | none => some { l with phase := .requesting }
  | .reply r, .requesting =>
    some { l with
      phase := .settled (some (observedReply l.agent l.experts (sourceOf url l.baseUrl) now r))
      reply := some r }
  | .reject, .queued => some { l with phase := .settled none }
  | .reject, .requesting => some { l with phase := .settled none }
  | .handle, .settled (some view) => some { l with phase := .handled view }
  | .handle, .settled none =>
    some { l with phase := .handled (liveRing l.agent l.experts none l.source now none none) }
  | .finish, .handled view => some { l with phase := .finished view }
  | _, _ => none

/-! ### The cache -/

/-- What `JSON.stringify` writes out. -/
structure Key where
  baseUrl : String
  address : String
  pid : Option ℕ
  running : Bool
  nodes : List (String × Option ℕ)
  deriving DecidableEq

def codeUnits (text : String) : List ℕ :=
  text.toList.flatMap fun c =>
    if c.toNat < 0x10000 then [c.toNat]
    else [0xD800 + (c.toNat - 0x10000) / 0x400, 0xDC00 + (c.toNat - 0x10000) % 0x400]

/-- The text of a pair, as `sort` compares it. -/
def pairText (pair : String × Option ℕ) : String :=
  pair.1 ++ "," ++ (pair.2.map toString).getD ""

def Agent.pairs (agent : Agent) : List (String × Option ℕ) :=
  agent.nodes.map fun n => (n.nodeId, n.generation)

def keyOf (agent : Agent) (baseUrl : String) : Key where
  baseUrl := baseUrl
  address := agent.address
  pid := agent.pid
  running := agent.running
  nodes := agent.pairs.mergeSort fun a b =>
    !(codeUnits (pairText b)).lex (codeUnits (pairText a)) fun x y => decide (x < y)

structure Entry where
  /-- Which object it is. -/
  id : ℕ
  key : Key
  value : Option View

structure State where
  entry : Option Entry
  inFlight : Bool
  lastStarted : Option ℚ
  clock : ℚ
  /-- All that were ever started, in order. -/
  launches : List Launch
  nextEntry : ℕ

def init : State := ⟨none, false, none, 0, [], 0⟩

def ageStage (now : ℚ) (s : Stage) : Stage :=
  if s.lastWorkAt.any fun t => t ≠ 0 ∧ 60000 < now - t then { s with state := .stale, tps := none }
  else s

def View.aged (value : View) (now relayBytes : ℚ) : View :=
  let stages := value.stages.map (ageStage now)
  { value with
    stages := stages
    state := if stages = [] then value.state else overallState stages
    relayBytes := relayBytes }

/-- `entry?.key !== key` makes a new entry. -/
def State.current (s : State) (key : Key) : Entry :=
  match s.entry with
  | some e => if e.key = key then e else ⟨s.nextEntry, key, none⟩
  | none => ⟨s.nextEntry, key, none⟩

def fallback (url : UrlParser) (now : ℚ) (agent : Agent) (experts : Option Experts)
    (baseUrl : String) : View :=
  liveRing agent experts none (sourceOf url baseUrl) now none none

/-- `cachedLiveRing` at a time: the cache after the call, and what it returns. -/
def cachedLiveRing (url : UrlParser) (refreshMs : ℚ) (s : State) (now : ℚ) (agent : Agent)
    (experts : Option Experts) (baseUrl : String) : State × View :=
  let current := s.current (keyOf agent baseUrl)
  let view := fallback url now agent experts baseUrl
  if view.reasonCode.any ReasonCode.ofAgent || agent.nodes.isEmpty then
    ({ s with entry := none, clock := now, nextEntry := s.nextEntry + 1 }, view)
  else
    let read : View :=
      match current.value with
      | none => view
      | some value => value.aged now view.relayBytes
    if !s.inFlight && s.lastStarted.all (fun t => refreshMs ≤ now - t) then
      let launch : Launch :=
        ⟨now, agent, experts, baseUrl, sourceOf url baseUrl, current.id, .queued, none⟩
      ({ entry := some current
         inFlight := true
         lastStarted := some now
         clock := now
         launches := s.launches ++ [launch]
         nextEntry := s.nextEntry + 1 }, read)
    else
      ({ s with entry := some current, clock := now, nextEntry := s.nextEntry + 1 }, read)

/-- A call, or a callback of one of the observations, at a time. -/
inductive Action
  | call (now : ℚ) (agent : Agent) (experts : Option Experts) (baseUrl : String)
  | task (i : ℕ) (task : Task) (now : ℚ)

/-- The value an observation came to, once it was taken. -/
def Launch.view? (l : Launch) : Option View :=
  match l.phase with
  | .handled view => some view
  | .finished view => some view
  | _ => none

/-- What the callback of an observation does to the cache. -/
def State.afterTask (s : State) (i : ℕ) (task : Task) (now : ℚ) (l : Launch) : State :=
  let moved : State := { s with launches := s.launches.set i l, clock := now }
  match task with
  | .handle =>
    { moved with
      entry := s.entry.map fun e => if e.id = l.entry then { e with value := l.view? } else e }
  | .finish => { moved with inFlight := false }
  | _ => moved

def step (url : UrlParser) (refreshMs : ℚ) (s : State) : Action → Option State
  | .call now agent experts baseUrl =>
    if s.clock ≤ now then some (cachedLiveRing url refreshMs s now agent experts baseUrl).1 else none
  | .task i task now =>
    if s.clock ≤ now then
      (s.launches[i]?).bind fun l => (l.run url now task).map fun l' => s.afterTask i task now l'
    else none

/-! ### What an observation can show -/

variable {agent : Agent} {rows : List Row} {now : ℚ}

theorem overallState_live_iff {stages : List Stage} :
    overallState stages = .live ↔ ∃ s ∈ stages, s.state = .live := by
  have hany : (stages.any fun s => s.state = .live) = true ↔ ∃ s ∈ stages, s.state = .live := by
    simp only [List.any_eq_true, decide_eq_true_eq]
  rw [← hany]
  unfold overallState
  by_cases hlive : (stages.any fun s => s.state = .live) = true
  · rw [if_pos hlive]
    exact ⟨fun _ => hlive, fun _ => rfl⟩
  · rw [if_neg hlive]
    refine ⟨fun h => ?_, fun h => absurd h hlive⟩
    split_ifs at h

theorem liveRing_cases (agent : Agent) (experts : Option Experts) (contributions : Option (List Row))
    (source : Option String) (now : ℚ) (error : Option String) (httpStatus : Option ℕ) :
    (liveRing agent experts contributions source now error httpStatus).stages = [] ∧
        (liveRing agent experts contributions source now error httpStatus).state ≠ .live ∨
      ∃ rows, contributions = some rows ∧
        (liveRing agent experts contributions source now error httpStatus).stages =
          agent.nodes.map (liveStage agent rows now) ∧
        (liveRing agent experts contributions source now error httpStatus).state =
          overallState (agent.nodes.map (liveStage agent rows now)) := by
  cases hsnap : agent.snapshotAt with
  | none =>
    left
    simp only [liveRing, hsnap]
    exact ⟨trivial, fun h => by cases h⟩
  | some snapshotAt =>
    by_cases hstale : 15000 < now - snapshotAt
    · left
      simp only [liveRing, hsnap, if_pos hstale]
      exact ⟨trivial, fun h => by cases h⟩
    by_cases hdown : (!agent.running || agent.failed) = true
    · left
      simp only [liveRing, hsnap, if_neg hstale, if_pos hdown]
      exact ⟨trivial, fun h => by cases h⟩
    by_cases hnodes : agent.nodes = []
    · left
      simp only [liveRing, hsnap, if_neg hstale, if_neg hdown, if_pos hnodes]
      refine ⟨trivial, fun h => ?_⟩
      split_ifs at h
    -- the stages are shown unless there is an error, or no array
    simp only [liveRing, hsnap, if_neg hstale, if_neg hdown, if_neg hnodes]
    cases error with
    | some error => exact .inl ⟨rfl, fun h => by cases h⟩
    | none =>
      cases contributions with
      | none => exact .inl ⟨rfl, fun h => by cases h⟩
      | some rows => exact .inr ⟨rows, rfl, rfl, rfl⟩

theorem liveStage_live {node : Node} (h : (liveStage agent rows now node).state = .live) :
    ∃ row t, (rows.filter fun row => row.isOf agent node) = [row] ∧ row.lastWorkAtMs = some t ∧
      (liveStage agent rows now node).lastWorkAt = some t ∧ 0 < t ∧ t ≤ now ∧ now - t ≤ 60000 := by
  have hstate : (liveStage agent rows now node).state =
      stageState now ((matchOf agent rows node).bind fun r => r.perfTps.filter (0 < ·))
        (liveStage agent rows now node).lastWorkAt (liveStage agent rows now node).model := rfl
  rw [hstate] at h
  cases hworked : (liveStage agent rows now node).lastWorkAt with
  | none =>
    rw [hworked] at h
    cases h
  | some t =>
    rw [hworked] at h
    -- the time comes out of the one row
    have hbind : ((matchOf agent rows node).bind fun r =>
        r.lastWorkAtMs.filter fun u => 0 < u ∧ u ≤ now) = some t := hworked
    obtain ⟨row, hrow, htime⟩ := Option.bind_eq_some_iff.mp hbind
    obtain ⟨hms, hbounds⟩ := Option.filter_eq_some_iff.mp htime
    obtain ⟨hpos, hle⟩ := of_decide_eq_true hbounds
    have hone : (rows.filter fun row => row.isOf agent node) = [row] := by
      unfold matchOf at hrow
      split at hrow
      · rename_i found heq
        rw [heq, Option.some.inj hrow]
      · cases hrow
    have hfresh : now - t ≤ 60000 := by
      by_contra hold
      cases hmodel : (liveStage agent rows now node).model with
      | none =>
        rw [hmodel] at h
        cases h
      | some model =>
        rw [hmodel] at h
        have hstale : (60000 : ℚ) < now - t := not_le.mp hold
        unfold stageState at h
        dsimp only at h
        rw [if_pos hstale] at h
        cases h
    exact ⟨row, t, hone, hms, rfl, hpos, hle, hfresh⟩

/-! ### What an observation went through -/

/-- The value is what `liveRing` made of the reply to this observation, not after the time. -/
def Launch.Reported (l : Launch) (clock : ℚ) (v : View) : Prop :=
  ∃ now ≤ clock,
    (∃ source error httpStatus, v = liveRing l.agent l.experts none source now error httpStatus) ∨
      ∃ rows source, l.reply = some (.feed (some rows)) ∧
        v = liveRing l.agent l.experts (some rows) source now none none

/-- The values that an observation holds in its phase. -/
def Launch.holds (l : Launch) : Option View :=
  match l.phase with
  | .settled value => value
  | _ => l.view?

variable {l : Launch} {v : View}

theorem Launch.holds_of_view (h : l.view? = some v) : l.holds = some v := by
  unfold Launch.holds
  cases hphase : l.phase with
  | settled value =>
    rw [Launch.view?, hphase] at h
    cases h
  | queued => exact h
  | requesting => exact h
  | handled _ => exact h
  | finished _ => exact h

def Launch.unfinished (l : Launch) : Prop := ∀ v, l.phase ≠ .finished v

/-- The request is under way, or about to be made. -/
def Launch.inFlight (l : Launch) : Bool :=
  match l.phase with
  | .queued => true
  | .requesting => true
  | _ => false

structure Launch.SameStart (l l' : Launch) : Prop where
  startedAt : l'.startedAt = l.startedAt
  agent : l'.agent = l.agent
  experts : l'.experts = l.experts
  baseUrl : l'.baseUrl = l.baseUrl
  entry : l'.entry = l.entry

/-- All that a callback can do to its observation. -/
structure Launch.Moved (l l' : Launch) (task : Task) (clock clock' : ℚ) : Prop where
  same : l.SameStart l'
  unfinished : l.unfinished
  view : ∀ v, l.view? = some v → l'.view? = some v
  reported : (∀ v, l.holds = some v → l.Reported clock v) →
    ∀ v, l'.holds = some v → l'.Reported clock' v
  kept : ∀ v, l.view? = some v → l'.reply = l.reply
  handled : task = .handle → ∃ v, l'.view? = some v
  finished : task = .finish → ¬ l'.unfinished

variable {l' : Launch} {clock : ℚ}

theorem Launch.Reported.mono {clock' : ℚ}
    (h : l.Reported clock v) (hle : clock ≤ clock') (hagent : l'.agent = l.agent)
    (hexperts : l'.experts = l.experts) (hreply : l'.reply = l.reply) : l'.Reported clock' v := by
  obtain ⟨now, hnow, hv⟩ := h
  refine ⟨now, hnow.trans hle, ?_⟩
  rw [hagent, hexperts, hreply]
  exact hv

variable {baseUrl : String}

theorem observeLiveRing_eq {url : UrlParser} {agent : Agent} {experts : Option Experts}
    {now : ℚ} (h : observeLiveRing url agent experts baseUrl now = some v) :
    ∃ source error httpStatus, v = liveRing agent experts none source now error httpStatus := by
  unfold observeLiveRing at h
  cases hsource : sourceOf url baseUrl with
  | none =>
    rw [hsource] at h
    exact ⟨_, _, _, (Option.some.inj h).symm⟩
  | some source =>
    rw [hsource] at h
    dsimp only at h
    by_cases hunasked : unasked agent now = true
    · rw [if_pos hunasked] at h
      exact ⟨_, _, _, (Option.some.inj h).symm⟩
    · rw [if_neg hunasked] at h
      cases h

theorem observedReply_cases (agent : Agent) (experts : Option Experts) (source : Option String)
    (now : ℚ) (r : Reply) :
    (∃ source' error httpStatus, observedReply agent experts source now r =
        liveRing agent experts none source' now error httpStatus) ∨
      ∃ rows, r = .feed (some rows) ∧ observedReply agent experts source now r =
        liveRing agent experts (some rows) source now none none := by
  cases r with
  | failed => exact .inl ⟨source, some "Contribution feed unavailable", none, rfl⟩
  | http status =>
    exact .inl ⟨source, some ("Contribution feed HTTP " ++ toString status), some status, rfl⟩
  | feed contributions =>
    cases contributions with
    | none => exact .inl ⟨source, none, none, rfl⟩
    | some rows => exact .inr ⟨rows, rfl, rfl⟩

variable {task : Task}

theorem Launch.Moved.early {now : ℚ} (hsame : l.SameStart l')
    (hphase : l.view? = none) (htask : task ≠ .handle ∧ task ≠ .finish)
    (hreported : ∀ v, l'.holds = some v → l'.Reported now v) : l.Moved l' task clock now where
  same := hsame
  unfinished v hv := by
    rw [Launch.view?, hv] at hphase
    cases hphase
  view v hv := by
    rw [hphase] at hv
    cases hv
  reported _ := hreported
  kept v hv := by
    rw [hphase] at hv
    cases hv
  handled h := absurd h htask.1
  finished h := absurd h htask.2

theorem Launch.run_moved {url : UrlParser} {now : ℚ}
    (hle : clock ≤ now) (h : l.run url now task = some l') : l.Moved l' task clock now := by
  obtain ⟨startedAt, agent, experts, baseUrl, source, entry, phase, reply⟩ := l
  cases task with
  | observe =>
    cases phase with
    | queued =>
      simp only [Launch.run] at h
      cases hview : observeLiveRing url agent experts baseUrl now with
      | none =>
        rw [hview] at h
        obtain rfl := Option.some.inj h
        exact .early ⟨rfl, rfl, rfl, rfl, rfl⟩ rfl (by simp) fun v hv => by cases hv
      | some view =>
        rw [hview] at h
        obtain rfl := Option.some.inj h
        refine .early ⟨rfl, rfl, rfl, rfl, rfl⟩ rfl (by simp) fun v hv => ?_
        obtain rfl : view = v := Option.some.inj hv
        exact ⟨now, le_rfl, .inl (observeLiveRing_eq hview)⟩
    | requesting => cases h
    | settled _ => cases h
    | handled _ => cases h
    | finished _ => cases h
  | reply r =>
    cases phase with
    | requesting =>
      obtain rfl := Option.some.inj h
      refine .early ⟨rfl, rfl, rfl, rfl, rfl⟩ rfl (by simp) fun v hv => ?_
      obtain rfl := Option.some.inj hv
      rcases observedReply_cases agent experts (sourceOf url baseUrl) now r with hnone | ⟨rows, rfl, hv⟩
      · exact ⟨now, le_rfl, .inl hnone⟩
      · exact ⟨now, le_rfl, .inr ⟨rows, _, rfl, hv⟩⟩
    | queued => cases h
    | settled _ => cases h
    | handled _ => cases h
    | finished _ => cases h
  | reject =>
    cases phase with
    | queued =>
      obtain rfl := Option.some.inj h
      exact .early ⟨rfl, rfl, rfl, rfl, rfl⟩ rfl (by simp) fun v hv => by cases hv
    | requesting =>
      obtain rfl := Option.some.inj h
      exact .early ⟨rfl, rfl, rfl, rfl, rfl⟩ rfl (by simp) fun v hv => by cases hv
    | settled _ => cases h
    | handled _ => cases h
    | finished _ => cases h
  | handle =>
    cases phase with
    | settled value =>
      cases value with
      | some view =>
        obtain rfl := Option.some.inj h
        refine ⟨⟨rfl, rfl, rfl, rfl, rfl⟩, fun v hv => (by cases hv), fun v hv => (by cases hv), ?_,
          fun v hv => (by cases hv), fun _ => ⟨view, rfl⟩, fun htask => (by cases htask)⟩
        intro hreported v hv
        obtain rfl : view = v := Option.some.inj hv
        exact (hreported view rfl).mono hle rfl rfl rfl
      | none =>
        obtain rfl := Option.some.inj h
        refine ⟨⟨rfl, rfl, rfl, rfl, rfl⟩, fun v hv => (by cases hv), fun v hv => (by cases hv), ?_,
          fun v hv => (by cases hv), fun _ => ⟨_, rfl⟩, fun htask => (by cases htask)⟩
        intro _ v hv
        obtain rfl := Option.some.inj hv
        exact ⟨now, le_rfl, .inl ⟨_, _, _, rfl⟩⟩
    | queued => cases h
    | requesting => cases h
    | handled _ => cases h
    | finished _ => cases h
  | finish =>
    cases phase with
    | handled view =>
      obtain rfl := Option.some.inj h
      refine ⟨⟨rfl, rfl, rfl, rfl, rfl⟩, fun v hv => (by cases hv), fun v hv => hv, ?_, fun _ _ => rfl,
        fun htask => (by cases htask), fun _ hopen => hopen view rfl⟩
      intro hreported v hv
      exact (hreported v hv).mono hle rfl rfl rfl
    | queued => cases h
    | requesting => cases h
    | settled value => cases value <;> cases h
    | finished _ => cases h

/-! ### What holds of the cache -/

structure State.Sound (refreshMs : ℚ) (s : State) : Prop where
  spaced : (s.launches.map Launch.startedAt).Pairwise fun a b => refreshMs ≤ b - a
  started : ∀ l ∈ s.launches, ∃ t, s.lastStarted = some t ∧ l.startedAt ≤ t
  past : ∀ l ∈ s.launches, l.startedAt ≤ s.clock
  /-- Only the last one can be unfinished, and then the flag is up. -/
  single : ∀ i l, s.launches[i]? = some l → l.unfinished →
    i + 1 = s.launches.length ∧ s.inFlight = true
  reported : ∀ l ∈ s.launches, ∀ v, l.holds = some v → l.Reported s.clock v
  fresh : ∀ l ∈ s.launches, l.entry < s.nextEntry
  entry_fresh : ∀ e, s.entry = some e → e.id < s.nextEntry
  entry_key : ∀ e, s.entry = some e → ∀ l ∈ s.launches, l.entry = e.id →
    keyOf l.agent l.baseUrl = e.key
  entry_value : ∀ e, s.entry = some e → ∀ v, e.value = some v →
    ∃ l ∈ s.launches, l.entry = e.id ∧ l.view? = some v

variable {url : UrlParser} {refreshMs : ℚ} {s s' : State}

theorem init_sound : init.Sound refreshMs where
  spaced := List.Pairwise.nil
  started l hl := absurd hl List.not_mem_nil
  past l hl := absurd hl List.not_mem_nil
  single i l hl := by cases hl
  reported l hl := absurd hl List.not_mem_nil
  fresh l hl := absurd hl List.not_mem_nil
  entry_fresh e he := by cases he
  entry_key e he := by cases he
  entry_value e he := by cases he

theorem State.current_cases (s : State) (key : Key) :
    s.entry = some (s.current key) ∧ (s.current key).key = key ∨
      s.current key = ⟨s.nextEntry, key, none⟩ := by
  unfold State.current
  cases hentry : s.entry with
  | none => exact .inr rfl
  | some e =>
    dsimp only
    by_cases hkey : e.key = key
    · rw [if_pos hkey]
      exact .inl ⟨rfl, hkey⟩
    · rw [if_neg hkey]
      exact .inr rfl

structure State.Serves (s : State) (key : Key) (e : Entry) : Prop where
  same_key : e.key = key
  launches : ∀ l ∈ s.launches, l.entry = e.id → keyOf l.agent l.baseUrl = key
  value : ∀ v, e.value = some v → ∃ l ∈ s.launches, l.entry = e.id ∧ l.view? = some v
  fresh : e.id < s.nextEntry + 1

theorem State.Sound.serves (hs : s.Sound refreshMs) (key : Key) : s.Serves key (s.current key) := by
  rcases s.current_cases key with ⟨hentry, hkey⟩ | hnew
  · have hid := hs.entry_fresh _ hentry
    exact ⟨hkey, fun l hl hid => (hs.entry_key _ hentry l hl hid).trans hkey, hs.entry_value _ hentry,
      by omega⟩
  · rw [hnew]
    -- no observation was started for the new object
    refine ⟨rfl, fun l hl hid => ?_, fun v hv => (by cases hv), Nat.lt_succ_self _⟩
    have hold := hs.fresh l hl
    have hid' : l.entry = s.nextEntry := hid
    omega

theorem State.Sound.read {now : ℚ} {key : Key} {e : Entry} (hs : s.Sound refreshMs)
    (hserves : s.Serves key e) (hle : s.clock ≤ now) :
    State.Sound refreshMs { s with entry := some e, clock := now, nextEntry := s.nextEntry + 1 } where
  spaced := hs.spaced
  started := hs.started
  past l hl := (hs.past l hl).trans hle
  single := hs.single
  reported l hl v hv := (hs.reported l hl v hv).mono hle rfl rfl rfl
  fresh l hl := (hs.fresh l hl).trans (Nat.lt_succ_self _)
  entry_fresh e' he := by
    obtain rfl : e = e' := Option.some.inj he
    exact hserves.fresh
  entry_key e' he l hl hid := by
    obtain rfl : e = e' := Option.some.inj he
    exact (hserves.launches l hl hid).trans hserves.same_key.symm
  entry_value e' he v hv := by
    obtain rfl : e = e' := Option.some.inj he
    exact hserves.value v hv

theorem State.Sound.drop {now : ℚ} (hs : s.Sound refreshMs) (hle : s.clock ≤ now) :
    State.Sound refreshMs { s with entry := none, clock := now, nextEntry := s.nextEntry + 1 } where
  spaced := hs.spaced
  started := hs.started
  past l hl := (hs.past l hl).trans hle
  single := hs.single
  reported l hl v hv := (hs.reported l hl v hv).mono hle rfl rfl rfl
  fresh l hl := (hs.fresh l hl).trans (Nat.lt_succ_self _)
  entry_fresh e he := by cases he
  entry_key e he := by cases he
  entry_value e he := by cases he

theorem State.Sound.launch {now : ℚ} {key : Key} {e : Entry} {agent : Agent}
    {experts : Option Experts} {source : Option String} (hs : s.Sound refreshMs)
    (hserves : s.Serves key e) (hkey : keyOf agent baseUrl = key) (hle : s.clock ≤ now)
    (hidle : s.inFlight = false)
    (hdue : (s.lastStarted.all fun t => refreshMs ≤ now - t) = true) :
    State.Sound refreshMs
      { entry := some e
        inFlight := true
        lastStarted := some now
        clock := now
        launches := s.launches ++
          [⟨now, agent, experts, baseUrl, source, e.id, .queued, none⟩]
        nextEntry := s.nextEntry + 1 } := by
  have hstale : ∀ l ∈ s.launches, refreshMs ≤ now - l.startedAt := by
    intro l hl
    obtain ⟨t, ht, hstarted⟩ := hs.started l hl
    rw [ht] at hdue
    have hdue' : refreshMs ≤ now - t := of_decide_eq_true hdue
    linarith
  have hmem : ∀ {l : Launch}, l ∈ s.launches ++
      [⟨now, agent, experts, baseUrl, source, e.id, .queued, none⟩] → l ∈ s.launches ∨
        l = ⟨now, agent, experts, baseUrl, source, e.id, .queued, none⟩ := by
    intro l hl
    rcases List.mem_append.mp hl with hold | hnew
    · exact .inl hold
    · exact .inr (List.mem_singleton.mp hnew)
  refine ⟨?_, ?_, ?_, ?_, ?_, ?_, ?_, ?_, ?_⟩
  · dsimp only
    rw [List.map_append]
    apply List.pairwise_append.mpr
    refine ⟨hs.spaced, List.pairwise_singleton _ _, ?_⟩
    intro a ha b hb
    obtain ⟨l, hl, rfl⟩ := List.mem_map.mp ha
    obtain rfl := List.mem_singleton.mp hb
    exact hstale l hl
  · intro l hl
    refine ⟨now, rfl, ?_⟩
    rcases hmem hl with hold | rfl
    · exact (hs.past l hold).trans hle
    · exact le_rfl
  · intro l hl
    rcases hmem hl with hold | rfl
    · exact (hs.past l hold).trans hle
    · exact le_rfl
  · intro i l hl hopen
    refine ⟨?_, rfl⟩
    dsimp only at hl ⊢
    rw [List.length_append, List.length_singleton]
    rcases Nat.lt_or_ge i s.launches.length with hlt | hge
    · -- the earlier ones have all finished
      rw [List.getElem?_append_left hlt] at hl
      have hbusy := (hs.single i l hl hopen).2
      rw [hidle] at hbusy
      cases hbusy
    · have hbound := (List.getElem?_eq_some_iff.mp hl).1
      rw [List.length_append, List.length_singleton] at hbound
      omega
  · intro l hl v hv
    rcases hmem hl with hold | rfl
    · exact (hs.reported l hold v hv).mono hle rfl rfl rfl
    · cases hv
  · intro l hl
    rcases hmem hl with hold | rfl
    · exact (hs.fresh l hold).trans (Nat.lt_succ_self _)
    · exact hserves.fresh
  · intro e' he
    obtain rfl : e = e' := Option.some.inj he
    exact hserves.fresh
  · intro e' he l hl hid
    obtain rfl : e = e' := Option.some.inj he
    rcases hmem hl with hold | rfl
    · exact (hserves.launches l hold hid).trans hserves.same_key.symm
    · exact hkey.trans hserves.same_key.symm
  · intro e' he v hv
    obtain rfl : e = e' := Option.some.inj he
    obtain ⟨l, hl, hid, hview⟩ := hserves.value v hv
    exact ⟨l, List.mem_append_left _ hl, hid, hview⟩

theorem State.Sound.call {now : ℚ} (hs : s.Sound refreshMs) (hle : s.clock ≤ now) (agent : Agent)
    (experts : Option Experts) (baseUrl : String) :
    (cachedLiveRing url refreshMs s now agent experts baseUrl).1.Sound refreshMs := by
  have hserves := hs.serves (keyOf agent baseUrl)
  unfold cachedLiveRing
  dsimp only
  by_cases hdropped : ((fallback url now agent experts baseUrl).reasonCode.any ReasonCode.ofAgent ||
      agent.nodes.isEmpty) = true
  · rw [if_pos hdropped]
    exact hs.drop hle
  rw [if_neg hdropped]
  by_cases hdue : (!s.inFlight && s.lastStarted.all fun t => decide (refreshMs ≤ now - t)) = true
  · rw [if_pos hdue]
    obtain ⟨hidle, hspaced⟩ := Bool.and_eq_true_iff.mp hdue
    exact hs.launch hserves rfl hle (Bool.not_eq_true' _ ▸ hidle) hspaced
  · rw [if_neg hdue]
    exact hs.read hserves hle

theorem Launch.Moved.still {ls : List Launch} {i : ℕ} {x : Launch}
    {now : ℚ} (hmoved : l.Moved l' task clock now) (hl : ls[i]? = some l) (hx : x ∈ ls) :
    ∃ y ∈ ls.set i l', x.SameStart y ∧ (∀ v, x.view? = some v → y.view? = some v) := by
  obtain ⟨j, hj⟩ := List.mem_iff_getElem?.mp hx
  obtain ⟨hi, -⟩ := List.getElem?_eq_some_iff.mp hl
  by_cases hij : i = j
  · subst hij
    obtain rfl : l = x := Option.some.inj (hl.symm.trans hj)
    refine ⟨l', List.mem_iff_getElem?.mpr ⟨i, ?_⟩, hmoved.same, hmoved.view⟩
    rw [List.getElem?_set_self hi]
  · refine ⟨x, List.mem_iff_getElem?.mpr ⟨j, ?_⟩, ⟨rfl, rfl, rfl, rfl, rfl⟩, fun v hv => hv⟩
    rw [List.getElem?_set_ne hij, hj]

theorem map_startedAt_set {ls : List Launch} {i : ℕ} (hl : ls[i]? = some l)
    (hsame : l.SameStart l') :
    (ls.set i l').map Launch.startedAt = ls.map Launch.startedAt := by
  apply List.ext_getElem?
  intro j
  rw [List.getElem?_map, List.getElem?_map]
  by_cases hij : i = j
  · subst hij
    obtain ⟨hi, -⟩ := List.getElem?_eq_some_iff.mp hl
    rw [List.getElem?_set_self hi, hl, Option.map_some, Option.map_some, hsame.startedAt]
  · rw [List.getElem?_set_ne hij]

theorem State.Sound.moved {i : ℕ} {now : ℚ} (hs : s.Sound refreshMs)
    (hle : s.clock ≤ now) (hl : s.launches[i]? = some l) (hmoved : l.Moved l' task s.clock now) :
    State.Sound refreshMs { s with launches := s.launches.set i l', clock := now } := by
  have hlmem : l ∈ s.launches := List.mem_iff_getElem?.mpr ⟨i, hl⟩
  refine ⟨?_, ?_, ?_, ?_, ?_, ?_, ?_, ?_, ?_⟩
  · dsimp only
    rw [map_startedAt_set hl hmoved.same]
    exact hs.spaced
  · intro x hx
    rcases List.mem_or_eq_of_mem_set hx with hold | rfl
    · exact hs.started x hold
    · rw [hmoved.same.startedAt]
      exact hs.started l hlmem
  · intro x hx
    rcases List.mem_or_eq_of_mem_set hx with hold | rfl
    · exact (hs.past x hold).trans hle
    · rw [hmoved.same.startedAt]
      exact (hs.past l hlmem).trans hle
  · intro j x hx hopen
    dsimp only at hx ⊢
    rw [List.length_set]
    by_cases hij : i = j
    · subst hij
      exact hs.single i l hl hmoved.unfinished
    · rw [List.getElem?_set_ne hij] at hx
      exact hs.single j x hx hopen
  · intro x hx v hv
    rcases List.mem_or_eq_of_mem_set hx with hold | rfl
    · exact (hs.reported x hold v hv).mono hle rfl rfl rfl
    · exact hmoved.reported (hs.reported l hlmem) v hv
  · intro x hx
    rcases List.mem_or_eq_of_mem_set hx with hold | rfl
    · exact hs.fresh x hold
    · rw [hmoved.same.entry]
      exact hs.fresh l hlmem
  · exact hs.entry_fresh
  · intro e he x hx hid
    rcases List.mem_or_eq_of_mem_set hx with hold | rfl
    · exact hs.entry_key e he x hold hid
    · rw [hmoved.same.entry] at hid
      rw [hmoved.same.agent, hmoved.same.baseUrl]
      exact hs.entry_key e he l hlmem hid
  · intro e he v hv
    obtain ⟨x, hx, hid, hview⟩ := hs.entry_value e he v hv
    obtain ⟨y, hy, hsame, hkept⟩ := hmoved.still hl hx
    exact ⟨y, hy, hsame.entry.trans hid, hkept v hview⟩

theorem State.Sound.store (hs : s.Sound refreshMs) (hl : l ∈ s.launches) :
    State.Sound refreshMs { s with
      entry := s.entry.map fun e => if e.id = l.entry then { e with value := l.view? } else e } := by
  -- the entry of before has the name and the key of the one after
  have hbefore : ∀ e', (s.entry.map fun e =>
      if e.id = l.entry then { e with value := l.view? } else e) = some e' →
      ∃ e, s.entry = some e ∧ e.id = e'.id ∧ e.key = e'.key ∧
        (e' = e ∨ e.id = l.entry ∧ e'.value = l.view?) := by
    intro e' he'
    obtain ⟨e, he, heq⟩ := Option.map_eq_some_iff.mp he'
    by_cases hid : e.id = l.entry
    · rw [if_pos hid] at heq
      subst heq
      exact ⟨e, he, rfl, rfl, .inr ⟨hid, rfl⟩⟩
    · rw [if_neg hid] at heq
      subst heq
      exact ⟨e, he, rfl, rfl, .inl rfl⟩
  refine ⟨hs.spaced, hs.started, hs.past, hs.single, hs.reported, hs.fresh, ?_, ?_, ?_⟩
  · intro e' he'
    obtain ⟨e, he, hid, -, -⟩ := hbefore e' he'
    rw [← hid]
    exact hs.entry_fresh e he
  · intro e' he' x hx hx_id
    obtain ⟨e, he, hid, hkey, -⟩ := hbefore e' he'
    rw [← hid] at hx_id
    rw [← hkey]
    exact hs.entry_key e he x hx hx_id
  · intro e' he' v hv
    obtain ⟨e, he, hid, -, rfl | ⟨hmine, hvalue⟩⟩ := hbefore e' he'
    · exact hs.entry_value e' he v hv
    · rw [hvalue] at hv
      exact ⟨l, hl, hmine.symm.trans hid, hv⟩

theorem State.Sound.lower (hs : s.Sound refreshMs)
    (hall : ∀ (i : ℕ) (l : Launch), s.launches[i]? = some l → ¬ l.unfinished) :
    State.Sound refreshMs { s with inFlight := false } :=
  ⟨hs.spaced, hs.started, hs.past, fun i l hl hopen => absurd hopen (hall i l hl), hs.reported,
    hs.fresh, hs.entry_fresh, hs.entry_key, hs.entry_value⟩

theorem State.Sound.afterTask {i : ℕ} {now : ℚ}
    (hs : s.Sound refreshMs) (hle : s.clock ≤ now) (hl : s.launches[i]? = some l)
    (hmoved : l.Moved l' task s.clock now) : (s.afterTask i task now l').Sound refreshMs := by
  have hset := hs.moved hle hl hmoved
  obtain ⟨hi, -⟩ := List.getElem?_eq_some_iff.mp hl
  cases task with
  | observe => exact hset
  | reply _ => exact hset
  | reject => exact hset
  | handle =>
    apply hset.store
    exact List.mem_iff_getElem?.mpr ⟨i, List.getElem?_set_self hi⟩
  | finish =>
    apply hset.lower
    intro j x hx hopen
    dsimp only at hx
    by_cases hij : i = j
    · subst hij
      rw [List.getElem?_set_self hi] at hx
      obtain rfl := Option.some.inj hx
      exact hmoved.finished rfl hopen
    · -- two unfinished ones would both be the last
      rw [List.getElem?_set_ne hij] at hx
      have hlast := (hs.single j x hx hopen).1
      have hmine := (hs.single i l hl hmoved.unfinished).1
      omega

theorem State.Sound.step {a : Action} (hs : s.Sound refreshMs)
    (h : LiveRing.step url refreshMs s a = some s') : s'.Sound refreshMs := by
  cases a with
  | call now agent experts baseUrl =>
    simp only [LiveRing.step] at h
    by_cases hle : s.clock ≤ now
    · rw [if_pos hle] at h
      obtain rfl := Option.some.inj h
      exact hs.call hle agent experts baseUrl
    · rw [if_neg hle] at h
      cases h
  | task i task now =>
    simp only [LiveRing.step] at h
    by_cases hle : s.clock ≤ now
    · rw [if_pos hle] at h
      obtain ⟨l, hl, hrun⟩ := Option.bind_eq_some_iff.mp h
      obtain ⟨l', hl', rfl⟩ := Option.map_eq_some_iff.mp hrun
      exact hs.afterTask hle hl (Launch.run_moved hle hl')
    · rw [if_neg hle] at h
      cases h

theorem runs_sound {as : List Action} (h : runs (LiveRing.step url refreshMs) init as = some s) :
    s.Sound refreshMs := by
  apply runs_invariant (P := fun _ _ => True) _ (along_of_forall (fun _ _ => trivial) _ _) h init_sound
  intro s a s' _ hs hstep
  exact hs.step hstep

/-! ### What a call returns -/

/-- The base URL, the agent and its stages are those of the call. -/
structure Launch.SameIdentity (l : Launch) (agent : Agent) (baseUrl : String) : Prop where
  baseUrl : l.baseUrl = baseUrl
  address : l.agent.address = agent.address
  pid : l.agent.pid = agent.pid
  pairs : l.agent.pairs.Perm agent.pairs

/-- The one row of the feed that the stage is told by, and the time of its last work. -/
structure Launch.Backs (l : Launch) (agent : Agent) (now : ℚ) (stage : Stage) (row : Row) (t : ℚ) :
    Prop where
  one_row : ∃ rows, l.reply = some (.feed (some rows)) ∧
    (rows.filter fun r =>
      decide (r.nodeId = some stage.nodeId) && decide (r.agent = some agent.address)) = [row]
  own_stage : ∃ node ∈ agent.nodes, node.nodeId = stage.nodeId
  worked_at : row.lastWorkAtMs = some t
  shown : stage.lastWorkAt = some t
  not_ahead : t ≤ now
  recent : now - t ≤ 60000

/-- What a call at a time may return, when its fallback is the given one. -/
structure Honest (s : State) (now : ℚ) (agent : Agent) (baseUrl : String) (fallback view : View) :
    Prop where
  origin : view = fallback ∨ ∃ l ∈ s.launches, l.SameIdentity agent baseUrl ∧
    ∃ value, l.view? = some value ∧ view = value.aged now fallback.relayBytes
  live : ∀ stage ∈ view.stages, stage.state = .live →
    ∃ l ∈ s.launches, l.SameIdentity agent baseUrl ∧ ∃ row t, l.Backs agent now stage row t
  overall : view.state = .live ↔ ∃ stage ∈ view.stages, stage.state = .live

theorem sameIdentity_of_key {agent : Agent}
    (h : keyOf l.agent l.baseUrl = keyOf agent baseUrl) : l.SameIdentity agent baseUrl where
  baseUrl := congrArg Key.baseUrl h
  address := congrArg Key.address h
  pid := congrArg Key.pid h
  pairs := by
    have hsorted := congrArg Key.nodes h
    have hperm := List.mergeSort_perm l.agent.pairs fun a b =>
      !(codeUnits (pairText b)).lex (codeUnits (pairText a)) fun x y => decide (x < y)
    have hperm' := List.mergeSort_perm agent.pairs fun a b =>
      !(codeUnits (pairText b)).lex (codeUnits (pairText a)) fun x y => decide (x < y)
    exact (hperm.symm.trans (List.Perm.of_eq hsorted)).trans hperm'

theorem ageStage_live {now : ℚ} {stage : Stage} (h : (ageStage now stage).state = .live) :
    ageStage now stage = stage ∧ ∀ t, stage.lastWorkAt = some t → t ≠ 0 → now - t ≤ 60000 := by
  unfold ageStage at h ⊢
  by_cases hold : (stage.lastWorkAt.any fun t => t ≠ 0 ∧ 60000 < now - t) = true
  · rw [if_pos hold] at h
    cases h
  · rw [if_neg hold]
    refine ⟨rfl, fun t ht hne => ?_⟩
    by_contra hlate
    apply hold
    rw [ht]
    exact decide_eq_true ⟨hne, not_le.mp hlate⟩

theorem Launch.Reported.stages (h : l.Reported clock v) :
    v.stages = [] ∧ v.state ≠ .live ∨
      ∃ rows now, now ≤ clock ∧ l.reply = some (.feed (some rows)) ∧
        v.stages = l.agent.nodes.map (liveStage l.agent rows now) ∧
        v.state = overallState v.stages := by
  obtain ⟨now, hnow, ⟨source, error, httpStatus, rfl⟩ | ⟨rows, source, hreply, rfl⟩⟩ := h
  · rcases liveRing_cases l.agent l.experts none source now error httpStatus with hnone | ⟨_, h, -⟩
    · exact .inl hnone
    · cases h
  · rcases liveRing_cases l.agent l.experts (some rows) source now none none with
      hnone | ⟨rows', h, hstages, hstate⟩
    · exact .inl hnone
    · obtain rfl : rows = rows' := Option.some.inj h
      exact .inr ⟨rows, now, hnow, hreply, hstages, by rw [hstate, hstages]⟩

theorem aged_overall {value : View} (hempty : value.stages = [] → value.state ≠ .live)
    (now relayBytes : ℚ) :
    (value.aged now relayBytes).state = .live ↔
      ∃ stage ∈ (value.aged now relayBytes).stages, stage.state = .live := by
  unfold View.aged
  dsimp only
  by_cases hstages : value.stages.map (ageStage now) = []
  · rw [if_pos hstages, hstages]
    have hnone := hempty (List.map_eq_nil_iff.mp hstages)
    exact ⟨fun h => absurd h hnone, fun ⟨_, hmem, _⟩ => absurd hmem List.not_mem_nil⟩
  · rw [if_neg hstages]
    exact overallState_live_iff

theorem backs_of_aged {agent : Agent} {now : ℚ}
    (hreported : l.Reported clock v) (hle : clock ≤ now) (hsame : l.SameIdentity agent baseUrl)
    {stage : Stage} (hmem : stage ∈ v.stages.map (ageStage now)) (hlive : stage.state = .live) :
    ∃ row t, l.Backs agent now stage row t := by
  obtain ⟨old, hold, rfl⟩ := List.mem_map.mp hmem
  obtain ⟨hkept, hrecent⟩ := ageStage_live hlive
  rw [hkept] at hlive ⊢
  rcases hreported.stages with ⟨hnone, -⟩ | ⟨rows, seen, hseen, hreply, hstages, -⟩
  · rw [hnone] at hold
    cases hold
  rw [hstages] at hold
  obtain ⟨node, hnode, rfl⟩ := List.mem_map.mp hold
  obtain ⟨row, t, hone, hms, hshown, hpos, hpast, -⟩ := liveStage_live hlive
  have hpair : (node.nodeId, node.generation) ∈ agent.pairs :=
    hsame.pairs.mem_iff.mp (List.mem_map_of_mem hnode)
  obtain ⟨own, hown, heq⟩ := List.mem_map.mp hpair
  have hrows : (rows.filter fun r =>
      decide (r.nodeId = some node.nodeId) && decide (r.agent = some agent.address)) = [row] := by
    rw [← hsame.address]
    exact hone
  exact ⟨row, t, ⟨rows, hreply, hrows⟩, ⟨own, hown, congrArg Prod.fst heq⟩, hms, hshown,
    hpast.trans (hseen.trans hle), hrecent t hshown hpos.ne'⟩

theorem Honest.of_fallback (url : UrlParser) (s : State) (now : ℚ) (agent : Agent)
    (experts : Option Experts) (baseUrl : String) :
    Honest s now agent baseUrl (fallback url now agent experts baseUrl)
      (fallback url now agent experts baseUrl) := by
  have hnone : (fallback url now agent experts baseUrl).stages = [] ∧
      (fallback url now agent experts baseUrl).state ≠ .live := by
    rcases liveRing_cases agent experts none (sourceOf url baseUrl) now none none with h | ⟨_, h, -⟩
    · exact h
    · cases h
  refine ⟨.inl rfl, fun stage hstage => ?_, fun h => absurd h hnone.2, fun ⟨stage, hstage, _⟩ => ?_⟩
  · rw [hnone.1] at hstage
    cases hstage
  · rw [hnone.1] at hstage
    cases hstage

theorem State.Sound.honest {now : ℚ} (hs : s.Sound refreshMs) (hle : s.clock ≤ now) (agent : Agent)
    (experts : Option Experts) (baseUrl : String) :
    Honest s now agent baseUrl (fallback url now agent experts baseUrl)
      (cachedLiveRing url refreshMs s now agent experts baseUrl).2 := by
  have hserves := hs.serves (keyOf agent baseUrl)
  have hfallback := Honest.of_fallback url s now agent experts baseUrl
  have hread : Honest s now agent baseUrl (fallback url now agent experts baseUrl)
      (match (s.current (keyOf agent baseUrl)).value with
      | none => fallback url now agent experts baseUrl
      | some value => value.aged now (fallback url now agent experts baseUrl).relayBytes) := by
    cases hvalue : (s.current (keyOf agent baseUrl)).value with
    | none => exact hfallback
    | some value =>
      obtain ⟨l, hl, hid, hview⟩ := hserves.value value hvalue
      have hsame := sameIdentity_of_key (hserves.launches l hl hid)
      have hreported := hs.reported l hl value (Launch.holds_of_view hview)
      refine ⟨.inr ⟨l, hl, hsame, value, hview, rfl⟩, fun stage hstage hlive => ?_,
        aged_overall (fun hempty => ?_) _ _⟩
      · exact ⟨l, hl, hsame, backs_of_aged hreported hle hsame hstage hlive⟩
      · rcases hreported.stages with ⟨-, hstate⟩ | ⟨rows, seen, -, -, -, hstate⟩
        · exact hstate
        · rw [hstate, hempty]
          exact fun h => by cases h
  unfold cachedLiveRing
  dsimp only
  split_ifs
  · exact hfallback
  · exact hread
  · exact hread

/-- In every run of the cache: one observation at a time, not too often, and every answer honest. -/
theorem live_ring_honest (url : UrlParser) (refreshMs : ℚ) {as : List Action} {s : State}
    (hrun : runs (step url refreshMs) init as = some s) :
    (∀ (i j : ℕ) (l l' : Launch), s.launches[i]? = some l → s.launches[j]? = some l' →
        l.inFlight = true → l'.inFlight = true → i = j) ∧
      ((s.launches.map Launch.startedAt).Pairwise fun a b => refreshMs ≤ b - a) ∧
      ∀ now agent experts baseUrl, s.clock ≤ now →
        Honest s now agent baseUrl (fallback url now agent experts baseUrl)
          (cachedLiveRing url refreshMs s now agent experts baseUrl).2 := by
  have hs := runs_sound hrun
  have hopen : ∀ l : Launch, l.inFlight = true → l.unfinished := by
    intro l hflight v hphase
    rw [Launch.inFlight, hphase] at hflight
    cases hflight
  refine ⟨?_, hs.spaced, fun now agent experts baseUrl hle => hs.honest hle agent experts baseUrl⟩
  intro i j l l' hl hl' hflight hflight'
  have hi := (hs.single i l hl (hopen l hflight)).1
  have hj := (hs.single j l' hl' (hopen l' hflight')).1
  omega

def sampleUrl : UrlParser := fun base =>
  if base = "https://bridge" then some ⟨"https:", "", "", "https://bridge/api/contributions"⟩ else none

def sampleAgent : Agent := ⟨true, some 7, "tcp://127.0.0.1:42031", none, [⟨"stage-1", some 1⟩], some 1000⟩

def sampleRow : Row :=
  ⟨some "stage-1", some "tcp://127.0.0.1:42031", some (283 / 10), some 900, some "step-3.7-flash"⟩

def samplePoll : List Action :=
  [.call 1000 sampleAgent none "https://bridge", .task 0 .observe 1001,
    .task 0 (.reply (.feed (some [sampleRow]))) 1200, .task 0 .handle 1200, .task 0 .finish 1200]

theorem live_ring_honest_poll :
    ∃ s, runs (step sampleUrl 10000) init samplePoll = some s ∧
      (cachedLiveRing sampleUrl 10000 s 2000 sampleAgent none "https://bridge").2.state = .live ∧
      Honest s 2000 sampleAgent "https://bridge"
        (fallback sampleUrl 2000 sampleAgent none "https://bridge")
        (cachedLiveRing sampleUrl 10000 s 2000 sampleAgent none "https://bridge").2 := by
  obtain ⟨s, hrun, hread⟩ := runs_exists (step sampleUrl 10000) init samplePoll
    (fun s => decide (s.clock ≤ 2000) && decide
      ((cachedLiveRing sampleUrl 10000 s 2000 sampleAgent none "https://bridge").2.state = .live))
    (by decide +kernel)
  obtain ⟨hclock, hlive⟩ := Bool.and_eq_true_iff.mp hread
  exact ⟨s, hrun, of_decide_eq_true hlive,
    (live_ring_honest sampleUrl 10000 hrun).2.2 2000 sampleAgent none "https://bridge"
      (of_decide_eq_true hclock)⟩

end KvasirNet.LiveRing
