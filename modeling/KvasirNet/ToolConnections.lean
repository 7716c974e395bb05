import Mathlib.Data.List.Basic
import Mathlib.Data.List.Dedup
import Mathlib.Data.List.TakeWhile
import Mathlib.Tactic.Common

/-! The connections the tools open to their agents, and how they give them up. An agent
frees the slot of a connection on FINISH only. -/
namespace KvasirNet.Tools

/-- What happens to the connection of an agent. A hop connection is open once the agent
has acknowledged the hello. -/
inductive Event (α : Type)
  | opened (agent : α)
  | broke (agent : α)
  | finish (agent : α)
  | destroyed (agent : α)
  deriving DecidableEq, Repr

inductive Await
  | resolved
  | rejected
  | timedOut
  deriving DecidableEq, Repr

structure World (α : Type) where
  connect : α → Await
  /-- A socket that fails before the last `connect` is over. -/
  breaksOpening : α → Bool
  /-- Whether `send` returns, for each command in turn. -/
  send : ℕ → Bool
  /-- A socket that fails while the replies are awaited. -/
  breaksWaiting : α → Bool
  /-- The lifecycle results, or an INSPECT: refused replies reject too. -/
  reply : α → Await
  results : Await
  /-- The acknowledgement of FINISH. -/
  finish : α → Await

variable {α : Type}

/-- The event of every socket of a kind that fails. -/
def breaking (breaks : α → Bool) (open' : List α) : List (Event α) :=
  (open'.filter breaks).map .broke

/-- The process ends, and its sockets with it. -/
def exit (open' : List α) : List (Event α) := open'.map .destroyed

/-- `release`: FINISH is written, and the socket destroyed when it is acknowledged, or
by `close` when it is not. -/
def release (w : World α) (agent : α) : List (Event α) :=
  match w.finish agent with
  | .resolved => [.finish agent, .destroyed agent]
  | .rejected | .timedOut => [.finish agent, .destroyed agent]

/-- `clientsFor`: the agents in turn, up to one whose `connect` throws; whether there
was none. -/
def clientsFor (w : World α) : List α → List α × Bool
  | [] => ([], true)
  | agent :: agents =>
    match w.connect agent with
    | .resolved =>
      let (open', all) := clientsFor w agents
      (agent :: open', all)
    | .rejected | .timedOut => ([], false)

/-- `doLoad` from its connections on: one for each agent, a LOAD for each stage, and
`releaseAll` once the results are in or given up. What is thrown before that reaches
`process.exit`. -/
def doLoad [DecidableEq α] (w : World α) (stages : List α) : List (Event α) :=
  let (open', all) := clientsFor w stages.dedup
  open'.map .opened ++ breaking w.breaksOpening open' ++
    if all ∧ ∀ i < stages.length, w.send i then
      breaking w.breaksWaiting open' ++ match w.results with
        | .resolved | .rejected | .timedOut => open'.flatMap (release w)
    else exit open'

/-- `doUnload` goes the same way over the stages of the record. -/
def doUnload [DecidableEq α] (w : World α) (record : List α) : List (Event α) := doLoad w record

/-- `inspect.mjs` from the agents of its plan on: one connection after the other. -/
def inspectAll (w : World α) : List α → List (Event α)
  | [] => []
  | agent :: agents =>
    match w.connect agent with
    | .rejected | .timedOut => []
    | .resolved =>
      let before := .opened agent :: breaking w.breaksWaiting [agent]
      match w.reply agent with
      | .resolved => before ++ release w agent ++ inspectAll w agents
      | .rejected | .timedOut => before ++ exit [agent]

def inspectMjs [DecidableEq α] (w : World α) (stages : List α) : List (Event α) := inspectAll w stages.dedup

/-- `P4Node.inspect`: `close` in the `finally`. -/
def nodeInspect (w : World α) (running : Bool) (agent : α) : List (Event α) :=
  if ¬ running then []
  else match w.connect agent with
    | .rejected | .timedOut => []
    | .resolved => .opened agent :: breaking w.breaksWaiting [agent] ++ [.destroyed agent]

/-- Every socket that is destroyed was sent FINISH before, or had failed. -/
def Finished : List (Event α) → List (Event α) → Prop
  | _, [] => True
  | before, e :: log =>
    (∀ agent, e = .destroyed agent → .finish agent ∈ before ∨ .broke agent ∈ before) ∧
      Finished (before ++ [e]) log

/-- A tool hands its connections back when every one that it opened is closed in the end,
and none without FINISH while its socket works. -/
structure HandsBack (log : List (Event α)) : Prop where
  closed : ∀ agent, .opened agent ∈ log → .destroyed agent ∈ log
  finished : Finished [] log

/-! ### Logs put together -/

variable {before : List (Event α)}

theorem finished_append {xs ys : List (Event α)} :
    Finished before (xs ++ ys) ↔ Finished before xs ∧ Finished (before ++ xs) ys := by
  induction xs generalizing before with
  | nil => simp [Finished]
  | cons x xs ih => simp only [List.cons_append, Finished, ih, List.append_assoc,
      List.nil_append, and_assoc]

theorem finished_of_none {log : List (Event α)}
    (h : ∀ agent, .destroyed agent ∉ log) : Finished before log := by
  induction log generalizing before with
  | nil => trivial
  | cons e log ih =>
    refine ⟨fun agent he => ?_, ih fun agent hmem => h agent (List.mem_cons_of_mem e hmem)⟩
    exact absurd (he ▸ List.mem_cons_self) (h agent)

variable {open' : List α}

theorem finished_exit :
    Finished before (exit open') ↔
      ∀ agent ∈ open', .finish agent ∈ before ∨ .broke agent ∈ before := by
  induction open' generalizing before with
  | nil => simp [exit, Finished]
  | cons a open' ih =>
    have hcons : exit (a :: open') = .destroyed a :: exit open' := rfl
    simp only [hcons, Finished, ih, List.forall_mem_cons, List.mem_append, List.mem_singleton,
      reduceCtorEq, or_false, Event.destroyed.injEq, forall_eq']

theorem release_eq (w : World α) (agent : α) :
    release w agent = [.finish agent, .destroyed agent] := by
  unfold release
  cases w.finish agent <;> rfl

variable {w : World α}

theorem finished_release {agent : α} :
    Finished before (release w agent) := by
  rw [release_eq]
  have hfirst : ∀ a, Event.finish agent = .destroyed a →
      .finish a ∈ before ∨ .broke a ∈ before := by
    intro a ha
    cases ha
  refine ⟨hfirst, ?_, trivial⟩
  intro a ha
  obtain rfl := Event.destroyed.inj ha
  exact Or.inl (by simp)

theorem finished_releaseAll :
    Finished before (open'.flatMap (release w)) := by
  induction open' generalizing before with
  | nil => trivial
  | cons a open' ih =>
    rw [List.flatMap_cons, finished_append]
    exact ⟨finished_release, ih⟩

theorem broke_mem_breaking {breaks : α → Bool} {agent : α} :
    .broke agent ∈ breaking breaks open' ↔ agent ∈ open' ∧ breaks agent := by
  simp [breaking]

theorem destroyed_mem_releaseAll {agent : α} :
    .destroyed agent ∈ open'.flatMap (release w) ↔ agent ∈ open' := by
  simp [release_eq]

/-! ### Loads and unloads -/

/-- The agents whose connections are opened before a `connect` throws. -/
def reached (w : World α) (agents : List α) : List α :=
  agents.takeWhile fun agent => w.connect agent = .resolved

theorem clientsFor_eq (w : World α) (agents : List α) :
    clientsFor w agents = (reached w agents, decide (∀ agent ∈ agents, w.connect agent = .resolved)) := by
  induction agents with
  | nil => rfl
  | cons a agents ih =>
    cases hconnect : w.connect a <;> simp [clientsFor, reached, hconnect, ih]

theorem doLoad_eq [DecidableEq α] (w : World α) (stages : List α) :
    doLoad w stages =
      (reached w stages.dedup).map .opened ++ breaking w.breaksOpening (reached w stages.dedup) ++
        if (∀ agent ∈ stages, w.connect agent = .resolved) ∧ ∀ i < stages.length, w.send i then
          breaking w.breaksWaiting (reached w stages.dedup) ++
            (reached w stages.dedup).flatMap (release w)
        else exit (reached w stages.dedup) := by
  have hwait : ∀ log : List (Event α), (match w.results with
      | .resolved | .rejected | .timedOut => log) = log := by
    intro log
    cases w.results <;> rfl
  unfold doLoad
  rw [clientsFor_eq]
  simp only [hwait, decide_eq_true_eq, List.mem_dedup]

theorem doLoad_closed [DecidableEq α] (w : World α) (stages : List α) (agent : α)
    (h : .opened agent ∈ doLoad w stages) : .destroyed agent ∈ doLoad w stages := by
  rw [doLoad_eq] at h ⊢
  have hopen : agent ∈ reached w stages.dedup := by
    split_ifs at h <;> simpa [breaking, exit, release_eq] using h
  refine List.mem_append_right _ ?_
  split_ifs
  · exact List.mem_append_right _ (destroyed_mem_releaseAll.mpr hopen)
  · exact List.mem_map_of_mem hopen

/-- A load or an unload hands its connections back exactly when every connection could
be opened and every command sent, or every socket that was opened had failed by then. -/
theorem doLoad_handsBack [DecidableEq α] (w : World α) (stages : List α) :
    HandsBack (doLoad w stages) ↔
      ((∀ agent ∈ stages, w.connect agent = .resolved) ∧ ∀ i < stages.length, w.send i) ∨
        ∀ agent ∈ reached w stages.dedup, w.breaksOpening agent := by
  have hquiet : ∀ agent, Event.destroyed agent ∉ (reached w stages.dedup).map .opened ++
      breaking w.breaksOpening (reached w stages.dedup) := by
    intro agent hmem
    simp [breaking] at hmem
  have hfinished : Finished [] (doLoad w stages) ↔
      ((∀ agent ∈ stages, w.connect agent = .resolved) ∧ ∀ i < stages.length, w.send i) ∨
        ∀ agent ∈ reached w stages.dedup, w.breaksOpening agent := by
    rw [doLoad_eq, finished_append, List.nil_append]
    simp only [finished_of_none hquiet, true_and]
    by_cases hgood : (∀ agent ∈ stages, w.connect agent = .resolved) ∧
        ∀ i < stages.length, w.send i
    · rw [if_pos hgood, finished_append]
      refine iff_of_true ⟨finished_of_none ?_, finished_releaseAll⟩ (Or.inl hgood)
      intro agent hmem
      simp [breaking] at hmem
    · -- the process exits: only the sockets that failed before are excused
      rw [if_neg hgood, finished_exit]
      simp only [hgood, false_or]
      constructor
      · intro h agent hagent
        rcases h agent hagent with hfinish | hbroke
        · simp [breaking] at hfinish
        · have hbreaks : agent ∈ reached w stages.dedup ∧ w.breaksOpening agent := by
            simpa [breaking] using hbroke
          exact hbreaks.2
      · intro h agent hagent
        exact Or.inr (List.mem_append_right _ (broke_mem_breaking.mpr ⟨hagent, h agent hagent⟩))
  exact ⟨fun h => hfinished.mp h.finished, fun h => ⟨doLoad_closed w stages, hfinished.mpr h⟩⟩

/-! ### Inspections -/

/-- The agent at which `inspect.mjs` stops. -/
def stopsAt (w : World α) (agents : List α) : Option α :=
  agents.find? fun agent => w.connect agent ≠ .resolved ∨ w.reply agent ≠ .resolved

theorem inspectAll_closed (w : World α) (agents : List α) (agent : α)
    (h : .opened agent ∈ inspectAll w agents) : .destroyed agent ∈ inspectAll w agents := by
  induction agents with
  | nil => cases h
  | cons a agents ih =>
    cases hconnect : w.connect a with
    | rejected | timedOut => simp [inspectAll, hconnect] at h
    | resolved =>
      cases hreply : w.reply a with
      | resolved =>
        have hcases : agent = a ∨ .opened agent ∈ inspectAll w agents := by
          simpa [inspectAll, hconnect, hreply, breaking, release_eq] using h
        rcases hcases with rfl | hlater
        · simp [inspectAll, hconnect, hreply, release_eq]
        · simp [inspectAll, hconnect, hreply, ih hlater]
      | rejected | timedOut =>
        have hagent : agent = a := by
          simpa [inspectAll, hconnect, hreply, breaking, exit] using h
        simp [inspectAll, hconnect, hreply, exit, hagent]

/-- What is logged before a connection is given up holds no FINISH of it, unless an
earlier turn wrote one. -/
theorem finished_turn {a : α} :
    Finished before (.opened a :: breaking w.breaksWaiting [a]) := by
  refine finished_of_none fun agent hmem => ?_
  simp [breaking] at hmem

theorem inspectAll_finished (w : World α) {agents : List α}
    (hnodup : agents.Nodup)
    (hbefore : ∀ agent ∈ agents, .finish agent ∉ before ∧ .broke agent ∉ before) :
    Finished before (inspectAll w agents) ↔
      ∀ agent, stopsAt w agents = some agent → w.connect agent = .resolved →
        w.breaksWaiting agent := by
  induction agents generalizing before with
  | nil => simp [inspectAll, Finished, stopsAt]
  | cons a agents ih =>
    obtain ⟨ha, hnodup⟩ := List.nodup_cons.mp hnodup
    have hfresh := hbefore a List.mem_cons_self
    cases hconnect : w.connect a with
    | rejected | timedOut =>
      have hstop : stopsAt w (a :: agents) = some a := by simp [stopsAt, hconnect]
      simp [inspectAll, hconnect, hstop, Finished]
    | resolved =>
      cases hreply : w.reply a with
      | resolved =>
        -- the turn hands its connection back, and the loop goes on
        have hstop : stopsAt w (a :: agents) = stopsAt w agents := by
          simp [stopsAt, hconnect, hreply]
        have hlater : ∀ agent ∈ agents,
            .finish agent ∉ before ++ (.opened a :: breaking w.breaksWaiting [a] ++ release w a) ∧
            .broke agent ∉ before ++
              (.opened a :: breaking w.breaksWaiting [a] ++ release w a) := by
          intro agent hagent
          have hne : agent ≠ a := fun he => ha (he ▸ hagent)
          have hold := hbefore agent (List.mem_cons_of_mem a hagent)
          simp [breaking, release_eq, hold, hne]
        have hturn : inspectAll w (a :: agents) =
            (.opened a :: breaking w.breaksWaiting [a] ++ release w a) ++ inspectAll w agents := by
          simp [inspectAll, hconnect, hreply]
        rw [hturn, finished_append, ih hnodup hlater, hstop, finished_append]
        exact and_iff_right ⟨finished_turn, finished_release⟩
      | rejected | timedOut =>
        -- the exception leaves the connection as it is
        have hstop : stopsAt w (a :: agents) = some a := by simp [stopsAt, hreply]
        have hturn : inspectAll w (a :: agents) =
            (.opened a :: breaking w.breaksWaiting [a]) ++ exit [a] := by
          simp [inspectAll, hconnect, hreply]
        rw [hturn, finished_append, finished_exit, hstop]
        have hbroke : (.finish a ∈ before ++ (.opened a :: breaking w.breaksWaiting [a]) ∨
            .broke a ∈ before ++ (.opened a :: breaking w.breaksWaiting [a])) ↔
            w.breaksWaiting a := by
          simp [breaking, hfresh.1, hfresh.2]
        simp only [finished_turn, true_and, List.forall_mem_singleton, hbroke,
          Option.some.injEq, forall_eq', hconnect, forall_const]

/-- `inspect.mjs` hands its connections back exactly when the agent it stops at could not
be reached at all, or had its socket fail. -/
theorem inspectMjs_handsBack [DecidableEq α] (w : World α) (stages : List α) :
    HandsBack (inspectMjs w stages) ↔
      ∀ agent, stopsAt w stages.dedup = some agent → w.connect agent = .resolved →
        w.breaksWaiting agent := by
  have hfinished : Finished [] (inspectMjs w stages) ↔ _ :=
    inspectAll_finished w (List.nodup_dedup stages)
      fun agent _ => ⟨List.not_mem_nil, List.not_mem_nil⟩
  exact ⟨fun h => hfinished.mp h.finished,
    fun h => ⟨inspectAll_closed w stages.dedup, hfinished.mpr h⟩⟩

theorem nodeInspect_handsBack (w : World α) (running : Bool) (agent : α) :
    HandsBack (nodeInspect w running agent) ↔
      running = false ∨ w.connect agent ≠ .resolved ∨ w.breaksWaiting agent := by
  have hnone : HandsBack ([] : List (Event α)) := by
    constructor
    · intro a ha
      cases ha
    · trivial
  cases running with
  | false => simpa [nodeInspect] using hnone
  | true =>
    cases hconnect : w.connect agent with
    | rejected | timedOut => simpa [nodeInspect, hconnect] using hnone
    | resolved =>
      have hlog : nodeInspect w true agent =
          (.opened agent :: breaking w.breaksWaiting [agent]) ++ exit [agent] := by
        simp [nodeInspect, hconnect, exit]
      have hfinished : Finished [] (nodeInspect w true agent) ↔ w.breaksWaiting agent := by
        rw [hlog, finished_append, finished_exit]
        simp only [finished_turn, true_and]
        simp [breaking]
      have hclosed : ∀ a, .opened a ∈ nodeInspect w true agent →
          .destroyed a ∈ nodeInspect w true agent := by
        intro a ha
        have hagent : a = agent := by simpa [hlog, breaking, exit] using ha
        simp [hlog, exit, hagent]
      simp only [Bool.true_eq_false, false_or, ne_eq, not_true_eq_false]
      exact ⟨fun h => hfinished.mp h.finished, fun h => ⟨hclosed, hfinished.mpr h⟩⟩

/-- When each tool hands its connections back. -/
theorem connections_handed_back [DecidableEq α] (w : World α) (stages record : List α)
    (running : Bool) (agent : α) :
    (HandsBack (doLoad w stages) ↔
      ((∀ agent ∈ stages, w.connect agent = .resolved) ∧ ∀ i < stages.length, w.send i) ∨
        ∀ agent ∈ reached w stages.dedup, w.breaksOpening agent) ∧
    (HandsBack (doUnload w record) ↔
      ((∀ agent ∈ record, w.connect agent = .resolved) ∧ ∀ i < record.length, w.send i) ∨
        ∀ agent ∈ reached w record.dedup, w.breaksOpening agent) ∧
    (HandsBack (inspectMjs w stages) ↔
      ∀ agent, stopsAt w stages.dedup = some agent → w.connect agent = .resolved →
        w.breaksWaiting agent) ∧
    (HandsBack (nodeInspect w running agent) ↔
      running = false ∨ w.connect agent ≠ .resolved ∨ w.breaksWaiting agent) :=
  ⟨doLoad_handsBack w stages, doLoad_handsBack w record, inspectMjs_handsBack w stages,
    nodeInspect_handsBack w running agent⟩

/-- Two agents of which the second refuses, and whose first fails at nothing. -/
def secondRefuses : World ℕ where
  connect agent := if agent = 0 then .resolved else .rejected
  breaksOpening _ := false
  send _ := true
  breaksWaiting _ := false
  reply _ := .resolved
  results := .resolved
  finish _ := .resolved

/-- A load of two agents drops the first connection when the second agent cannot be
reached, and an inspection from the desktop drops its connection when all goes well. -/
theorem connections_dropped :
    doLoad secondRefuses [0, 1] = [.opened 0, .destroyed 0] ∧
    ¬ HandsBack (doLoad secondRefuses [0, 1]) ∧
    ¬ HandsBack (nodeInspect secondRefuses true 0) := by
  have hload : doLoad secondRefuses [0, 1] = [.opened 0, .destroyed 0] := by decide
  have hinspect : nodeInspect secondRefuses true 0 = [.opened 0, .destroyed 0] := by decide
  have hdropped : ¬ HandsBack ([.opened 0, .destroyed 0] : List (Event ℕ)) := by
    intro h
    have hfinish := h.finished.2.1 0 rfl
    simp at hfinish
  exact ⟨hload, hload ▸ hdropped, hinspect ▸ hdropped⟩

end KvasirNet.Tools
