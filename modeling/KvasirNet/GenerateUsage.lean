import KvasirNet.Interleaving
import Mathlib.Algebra.BigOperators.Group.Finset.Basic
import Mathlib.Algebra.GroupWithZero.Nat
import Mathlib.Algebra.Order.BigOperators.Group.Finset
import Mathlib.Algebra.Order.BigOperators.Group.List
import Mathlib.Data.List.AList
import Mathlib.Data.List.Induction

/-! `Pipeline.generate` as it reads the events of one request: outputs, batch observations, stage
spans and the release receipt come on several connections, and the first release, or the end of the
250 ms that a stop is given, closes the request. What it has counted by then is the usage. -/
namespace KvasirNet.Generate

open Interleaving (Merge joined)

/-! ## The handler -/

structure OwnedRequest where
  requestId : String
  prefillRows : Option ℕ
  deriving DecidableEq, Repr

inductive Event
  | output (text stop : Option String)
  | observation (observationId : Option String) (physicalBatches : List (List OwnedRequest))
  | span (node : Option String) (rows : Option ℕ)
  | release
  | refused (message : String)
  | other
  deriving DecidableEq, Repr

/-- What the handler is called with, and what ends the request from outside: `lapse` is the end of
the time a stop is given. -/
inductive Input
  | event (e : Event)
  | lapse
  | timeout
  | abort
  deriving DecidableEq, Repr

structure Result where
  text : String
  tokenCount : ℕ
  promptTokens : ℕ
  finishReason : Option String
  stages : AList fun _ : String => ℕ
  observations : List String

inductive Generating
  | reading (result : Result) (timers : ℕ)
  | resolved (result : Result)
  | rejected (message : String)

def Result.start : Result where
  text := ""
  tokenCount := 0
  promptTokens := 0
  finishReason := none
  stages := ∅
  observations := []

def truthy (s : Option String) : Option String := s.filter (· ≠ "")

/-- The prefill rows of one request in an observation. -/
def prefillRows (id : String) (physicalBatches : List (List OwnedRequest)) : ℕ :=
  (physicalBatches.flatten.map fun owned =>
    if owned.requestId = id then owned.prefillRows.getD 0 else 0).sum

def Result.output (result : Result) (text stop : Option String) : Result :=
  let result := match truthy text with
    | some t => { result with text := result.text ++ t, tokenCount := result.tokenCount + 1 }
    | none => result
  { result with finishReason := (truthy stop).or result.finishReason }

def Result.observe (id : String) (result : Result) (observationId : Option String)
    (physicalBatches : List (List OwnedRequest)) : Result :=
  match truthy observationId with
  | some o =>
    if o ∈ result.observations then result
    else { result with
      observations := result.observations ++ [o]
      promptTokens := result.promptTokens + prefillRows id physicalBatches }
  | none => { result with promptTokens := result.promptTokens + prefillRows id physicalBatches }

def Result.addSpan (result : Result) (node : Option String) (rows : Option ℕ) : Result :=
  let name := node.getD "unknown"
  { result with
    stages := result.stages.insert name ((result.stages.lookup name).getD 0 + rows.getD 0) }

def gather (id : String) (result : Result) : Event → Result
  | .output text stop => result.output text stop
  | .observation observationId batches => result.observe id observationId batches
  | .span node rows => result.addSpan node rows
  | _ => result

def gathered (id : String) (es : List Event) : Result := es.foldl (gather id) .start

def Event.stops : Event → Bool
  | .output _ stop => (truthy stop).isSome
  | _ => false

def handle (id : String) (timeoutMs : ℕ) : Generating → Input → Generating
  | .reading result _, .event .release => .resolved result
  | .reading _ _, .event (.refused message) =>
    .rejected ("p4 refused request " ++ id ++ ": " ++ message)
  | .reading result timers, .event e =>
    .reading (gather id result e) (if e.stops then timers + 1 else timers)
  | .reading result (_ + 1), .lapse => .resolved result
  | .reading _ _, .timeout =>
    .rejected ("p4 request " ++ id ++ " timed out after " ++ toString timeoutMs ++ " ms")
  | .reading _ _, .abort => .rejected "client aborted the request"
  | s, _ => s

def generate (id : String) (timeoutMs : ℕ) (inputs : List Input) : Generating :=
  inputs.foldl (handle id timeoutMs) (.reading .start 0)

/-- The part of what is returned that is billed. -/
structure Usage where
  completionTokens : ℕ
  promptTokens : Option ℕ
  stageRows : String → Option ℕ

def Result.usage (result : Result) : Usage where
  completionTokens := result.tokenCount
  promptTokens := if result.promptTokens = 0 then none else some result.promptTokens
  stageRows := fun node => result.stages.lookup node

/-- What `generate` returns, if it does. -/
def Generating.usage : Generating → Option Usage
  | .resolved result => some result.usage
  | _ => none

/-! ## Runs -/

def Input.event? : Input → Option Event
  | .event e => some e
  | _ => none

/-- The streams in some order, every event before the timeout; the time a stop is given does not go
on for ever. -/
structure Run (id : String) (timeoutMs : ℕ) (streams : List (List Event)) (inputs : List Input) :
    Prop where
  merged : Merge streams (inputs.filterMap Input.event?)
  inTime : ∀ i ∈ inputs, i ≠ .timeout ∧ i ≠ .abort
  lapsed : ∀ result timers, generate id timeoutMs inputs = .reading result timers → timers = 0

def SameUsage (id : String) (timeoutMs : ℕ) (streams : List (List Event)) : Prop :=
  ∀ inputs inputs', Run id timeoutMs streams inputs → Run id timeoutMs streams inputs' →
    (generate id timeoutMs inputs).usage = (generate id timeoutMs inputs').usage

/-! ## What the events count -/

def Event.speaks : Event → Bool
  | .output text _ => (truthy text).isSome
  | _ => false

def Event.rowsFor (node : String) : Event → Option ℕ
  | .span name rows => if name.getD "unknown" = node then some (rows.getD 0) else none
  | _ => none

/-- The prompt rows of an observation without an id. -/
def Event.anonymous (id : String) : Event → Option ℕ
  | .observation observationId batches =>
    if (truthy observationId).isSome then none else some (prefillRows id batches)
  | _ => none

/-- The id of an observation and its prompt rows. -/
def Event.named (id : String) : Event → Option (String × ℕ)
  | .observation observationId batches =>
    (truthy observationId).map fun o => (o, prefillRows id batches)
  | _ => none

variable {id : String} {timeoutMs : ℕ} {es : List Event}

variable {e : Event}

theorem rowsFor_eq_some {node : String} {n : ℕ} (h : e.rowsFor node = some n) :
    ∃ name rows, e = .span name rows ∧ name.getD "unknown" = node ∧ rows.getD 0 = n := by
  cases e with
  | span name rows =>
    by_cases hname : name.getD "unknown" = node
    · rw [Event.rowsFor, if_pos hname] at h
      exact ⟨name, rows, rfl, hname, Option.some.inj h⟩
    · rw [Event.rowsFor, if_neg hname] at h
      cases h
  | _ => cases h

theorem anonymous_eq_some {n : ℕ} (h : e.anonymous id = some n) :
    ∃ observationId batches, e = .observation observationId batches ∧
      truthy observationId = none ∧ prefillRows id batches = n := by
  cases e with
  | observation observationId batches =>
    cases ho : truthy observationId with
    | none =>
      rw [Event.anonymous, ho] at h
      exact ⟨observationId, batches, rfl, ho, Option.some.inj h⟩
    | some o =>
      rw [Event.anonymous, ho] at h
      cases h
  | _ => cases h

theorem named_eq_some {x : String × ℕ} (h : e.named id = some x) :
    ∃ o observationId batches, e = .observation observationId batches ∧
      truthy observationId = some o ∧ (o, prefillRows id batches) = x := by
  cases e with
  | observation observationId batches =>
    obtain ⟨o, ho, hx⟩ := Option.map_eq_some_iff.mp h
    exact ⟨o, observationId, batches, rfl, ho, hx⟩
  | _ => cases h

def tokensOf (es : List Event) : ℕ := es.countP Event.speaks

/-- The sum of some numbers, if there are any. -/
def total (l : List ℕ) : Option ℕ := if l = [] then none else some l.sum

def rowsOf (es : List Event) (node : String) : Option ℕ := total (es.filterMap (Event.rowsFor node))

def promptOf (id : String) (es : List Event) : ℕ :=
  (es.filterMap (Event.anonymous id)).sum + ∑ x ∈ (es.filterMap (Event.named id)).toFinset, x.2

def usageOf (id : String) (es : List Event) : Usage where
  completionTokens := tokensOf es
  promptTokens := if promptOf id es = 0 then none else some (promptOf id es)
  stageRows := rowsOf es

/-- An observation that comes again is the same. -/
def Repeats (id : String) (es : List Event) : Prop :=
  ∀ o rows rows', (o, rows) ∈ es.filterMap (Event.named id) →
    (o, rows') ∈ es.filterMap (Event.named id) → rows = rows'

theorem Repeats.subset {es' : List Event} (h : Repeats id es) (hsub : es' ⊆ es) : Repeats id es' := by
  intro o rows rows' hrows hrows'
  have hmem {x : String × ℕ} (hx : x ∈ es'.filterMap (Event.named id)) :
      x ∈ es.filterMap (Event.named id) := by
    obtain ⟨e, he, hex⟩ := List.mem_filterMap.mp hx
    exact List.mem_filterMap.mpr ⟨e, hsub he, hex⟩
  exact h o rows rows' (hmem hrows) (hmem hrows')

theorem total_perm {l l' : List ℕ} (h : l.Perm l') : total l = total l' := by
  unfold total
  by_cases hnil : l = []
  · have hnil' : l' = [] := (hnil ▸ h).nil_eq.symm
    rw [if_pos hnil, if_pos hnil']
  · have hnil' : l' ≠ [] := fun hnil' => hnil (hnil' ▸ h).eq_nil
    rw [if_neg hnil, if_neg hnil', h.sum_eq]

theorem total_append {l r : List ℕ} (hr : r ≠ []) : total (l ++ r) = some ((total l).getD 0 + r.sum) := by
  have hne : l ++ r ≠ [] := List.append_ne_nil_of_right_ne_nil l hr
  have hsum : (total l).getD 0 = l.sum := by
    unfold total
    by_cases hnil : l = []
    · rw [if_pos hnil, hnil]
      rfl
    · rw [if_neg hnil]
      rfl
  rw [hsum, total, if_neg hne, List.sum_append]

theorem usageOf_perm {es' : List Event} (h : es.Perm es') : usageOf id es = usageOf id es' := by
  have hrows : rowsOf es = rowsOf es' := by
    funext node
    exact total_perm (h.filterMap _)
  have hprompt : promptOf id es = promptOf id es' := by
    unfold promptOf
    rw [(h.filterMap _).sum_eq, List.toFinset_eq_of_perm _ _ (h.filterMap _)]
  unfold usageOf tokensOf
  rw [hrows, hprompt, h.countP_eq]

/-! ### The handler counts this -/

theorem gathered_concat (es : List Event) (e : Event) :
    gathered id (es ++ [e]) = gather id (gathered id es) e := by
  unfold gathered
  rw [List.foldl_append, List.foldl_cons, List.foldl_nil]

/-- What the result says of the events it has gathered. -/
structure Tells (id : String) (es : List Event) (result : Result) : Prop where
  tokens : result.tokenCount = tokensOf es
  prompt : result.promptTokens = promptOf id es
  rows : ∀ node, result.stages.lookup node = rowsOf es node
  observed : ∀ o, o ∈ result.observations ↔ ∃ rows, (o, rows) ∈ es.filterMap (Event.named id)

theorem filterMap_concat_none {β : Type*} {f : Event → Option β} (h : f e = none)
    (es : List Event) : (es ++ [e]).filterMap f = es.filterMap f := by
  rw [List.filterMap_append, List.filterMap_cons_none h, List.filterMap_nil, List.append_nil]

theorem filterMap_concat_some {β : Type*} {f : Event → Option β} {b : β}
    (h : f e = some b) (es : List Event) : (es ++ [e]).filterMap f = es.filterMap f ++ [b] := by
  rw [List.filterMap_append, List.filterMap_cons_some h, List.filterMap_nil]

theorem tokensOf_concat (es : List Event) (e : Event) :
    tokensOf (es ++ [e]) = tokensOf es + if e.speaks then 1 else 0 := by
  rw [tokensOf, List.countP_append, List.countP_singleton]
  rfl

theorem rowsOf_concat_none {node : String} (h : e.rowsFor node = none) :
    rowsOf (es ++ [e]) node = rowsOf es node := by
  unfold rowsOf
  rw [filterMap_concat_none h]

theorem rowsOf_concat_some {node : String} {rows : ℕ} (h : e.rowsFor node = some rows) :
    rowsOf (es ++ [e]) node = some ((rowsOf es node).getD 0 + rows) := by
  unfold rowsOf
  rw [filterMap_concat_some h, total_append (List.cons_ne_nil _ _), List.sum_singleton]

theorem promptOf_concat (hanonymous : e.anonymous id = none) (hnamed : e.named id = none) :
    promptOf id (es ++ [e]) = promptOf id es := by
  unfold promptOf
  rw [filterMap_concat_none hanonymous, filterMap_concat_none hnamed]

theorem promptOf_concat_anonymous {rows : ℕ} (hanonymous : e.anonymous id = some rows)
    (hnamed : e.named id = none) : promptOf id (es ++ [e]) = promptOf id es + rows := by
  unfold promptOf
  rw [filterMap_concat_some hanonymous, filterMap_concat_none hnamed, List.sum_append,
    List.sum_singleton]
  omega

theorem promptOf_concat_named {x : String × ℕ} (hanonymous : e.anonymous id = none)
    (hnamed : e.named id = some x) : promptOf id (es ++ [e]) =
      promptOf id es + if x ∈ es.filterMap (Event.named id) then 0 else x.2 := by
  have hset : (es.filterMap (Event.named id) ++ [x]).toFinset =
      insert x (es.filterMap (Event.named id)).toFinset := by
    ext y
    simp
  unfold promptOf
  rw [filterMap_concat_none hanonymous, filterMap_concat_some hnamed, hset]
  by_cases hold : x ∈ es.filterMap (Event.named id)
  · rw [if_pos hold, Finset.insert_eq_of_mem (List.mem_toFinset.mpr hold), Nat.add_zero]
  · rw [if_neg hold, Finset.sum_insert (mt List.mem_toFinset.mp hold)]
    omega

variable {result : Result}

theorem Tells.silent (h : Tells id es result) (hspeaks : e.speaks = false)
    (hanonymous : e.anonymous id = none) (hnamed : e.named id = none)
    (hrows : ∀ node, e.rowsFor node = none) : Tells id (es ++ [e]) result := by
  constructor
  · rw [tokensOf_concat, hspeaks, h.tokens]
    rfl
  · rw [promptOf_concat hanonymous hnamed, h.prompt]
  · intro node
    rw [rowsOf_concat_none (hrows node), h.rows node]
  · intro o
    rw [filterMap_concat_none hnamed, h.observed o]

theorem Tells.output (h : Tells id es result) (text stop : Option String) :
    Tells id (es ++ [.output text stop]) (result.output text stop) := by
  have hsame : (result.output text stop).promptTokens = result.promptTokens ∧
      (result.output text stop).stages = result.stages ∧
      (result.output text stop).observations = result.observations := by
    unfold Result.output
    cases truthy text with
    | none => exact ⟨rfl, rfl, rfl⟩
    | some t => exact ⟨rfl, rfl, rfl⟩
  have htokens : (result.output text stop).tokenCount =
      result.tokenCount + if (Event.output text stop).speaks then 1 else 0 := by
    have hspeaks : (Event.output text stop).speaks = (truthy text).isSome := rfl
    rw [hspeaks]
    unfold Result.output
    cases truthy text with
    | none => rfl
    | some t => rfl
  obtain ⟨hprompt, hstages, hobservations⟩ := hsame
  constructor
  · rw [tokensOf_concat, htokens, h.tokens]
  · rw [promptOf_concat rfl rfl, hprompt, h.prompt]
  · intro node
    rw [rowsOf_concat_none rfl, hstages, h.rows node]
  · intro o
    rw [filterMap_concat_none rfl, hobservations, h.observed o]

theorem Tells.addSpan (h : Tells id es result) (node : Option String)
    (rows : Option ℕ) : Tells id (es ++ [.span node rows]) (result.addSpan node rows) := by
  constructor
  · rw [tokensOf_concat]
    exact h.tokens
  · rw [promptOf_concat rfl rfl]
    exact h.prompt
  · intro name
    by_cases hname : node.getD "unknown" = name
    · have hrows : (Event.span node rows).rowsFor name = some (rows.getD 0) := if_pos hname
      rw [rowsOf_concat_some hrows, ← h.rows name, ← hname]
      exact AList.lookup_insert _
    · have hrows : (Event.span node rows).rowsFor name = none := if_neg hname
      rw [rowsOf_concat_none hrows, ← h.rows name]
      exact AList.lookup_insert_ne (Ne.symm hname)
  · intro o
    rw [filterMap_concat_none rfl]
    exact h.observed o

theorem Tells.observe (h : Tells id es result) {observationId : Option String}
    {batches : List (List OwnedRequest)} (hrepeat : Repeats id (es ++ [.observation observationId batches])) :
    Tells id (es ++ [.observation observationId batches]) (result.observe id observationId batches) := by
  have hrest (result' : Result) (htokens : result'.tokenCount = result.tokenCount)
      (hstages : result'.stages = result.stages) :
      result'.tokenCount = tokensOf (es ++ [.observation observationId batches]) ∧
      ∀ node, result'.stages.lookup node = rowsOf (es ++ [.observation observationId batches]) node := by
    refine ⟨?_, fun node => ?_⟩
    · rw [tokensOf_concat, htokens, h.tokens]
      rfl
    · rw [rowsOf_concat_none rfl, hstages, h.rows node]
  cases ho : truthy observationId with
  | none =>
    have hanonymous : (Event.observation observationId batches).anonymous id =
        some (prefillRows id batches) := by
      rw [Event.anonymous, ho]
      rfl
    have hnamed : (Event.observation observationId batches).named id = none := by
      rw [Event.named, ho]
      rfl
    have hobserve : result.observe id observationId batches =
        { result with promptTokens := result.promptTokens + prefillRows id batches } := by
      rw [Result.observe, ho]
    rw [hobserve]
    obtain ⟨htokens, hrows⟩ := hrest
      { result with promptTokens := result.promptTokens + prefillRows id batches } rfl rfl
    refine ⟨htokens, ?_, hrows, fun o => ?_⟩
    · rw [promptOf_concat_anonymous hanonymous hnamed, ← h.prompt]
    · rw [filterMap_concat_none hnamed]
      exact h.observed o
  | some o =>
    have hanonymous : (Event.observation observationId batches).anonymous id = none := by
      rw [Event.anonymous, ho]
      rfl
    have hnamed : (Event.observation observationId batches).named id =
        some (o, prefillRows id batches) := by
      rw [Event.named, ho]
      rfl
    rw [Repeats, filterMap_concat_some hnamed] at hrepeat
    by_cases hold : o ∈ result.observations
    · have hobserve : result.observe id observationId batches = result := by
        rw [Result.observe, ho]
        exact if_pos hold
      -- it was counted with these very rows
      have hcounted : (o, prefillRows id batches) ∈ es.filterMap (Event.named id) := by
        obtain ⟨rows, hrows⟩ := (h.observed o).mp hold
        rw [← hrepeat o rows _ (List.mem_append_left _ hrows)
          (List.mem_append_right _ List.mem_cons_self)]
        exact hrows
      rw [hobserve]
      obtain ⟨htokens, hrows⟩ := hrest result rfl rfl
      refine ⟨htokens, ?_, hrows, fun o' => ?_⟩
      · rw [promptOf_concat_named hanonymous hnamed, if_pos hcounted, h.prompt, Nat.add_zero]
      · rw [filterMap_concat_some hnamed, h.observed o']
        constructor
        · rintro ⟨rows, hmem⟩
          exact ⟨rows, List.mem_append_left _ hmem⟩
        · rintro ⟨rows, hmem⟩
          rcases List.mem_append.mp hmem with hmem | hmem
          · exact ⟨rows, hmem⟩
          · rw [(Prod.mk.inj (List.mem_singleton.mp hmem)).1]
            exact ⟨_, hcounted⟩
    · have hobserve : result.observe id observationId batches =
          { result with
            observations := result.observations ++ [o]
            promptTokens := result.promptTokens + prefillRows id batches } := by
        rw [Result.observe, ho]
        exact if_neg hold
      have hnew : (o, prefillRows id batches) ∉ es.filterMap (Event.named id) :=
        fun hmem => hold ((h.observed o).mpr ⟨_, hmem⟩)
      rw [hobserve]
      obtain ⟨htokens, hrows⟩ := hrest
        { result with
          observations := result.observations ++ [o]
          promptTokens := result.promptTokens + prefillRows id batches } rfl rfl
      refine ⟨htokens, ?_, hrows, fun o' => ?_⟩
      · rw [promptOf_concat_named hanonymous hnamed, if_neg hnew, ← h.prompt]
      · rw [filterMap_concat_some hnamed, List.mem_append, List.mem_singleton, h.observed o']
        constructor
        · rintro (⟨rows, hmem⟩ | rfl)
          · exact ⟨rows, List.mem_append_left _ hmem⟩
          · exact ⟨_, List.mem_append_right _ List.mem_cons_self⟩
        · rintro ⟨rows, hmem⟩
          rcases List.mem_append.mp hmem with hmem | hmem
          · exact Or.inl ⟨rows, hmem⟩
          · exact Or.inr (Prod.mk.inj (List.mem_singleton.mp hmem)).1

theorem tells_gathered (hrepeat : Repeats id es) : Tells id es (gathered id es) := by
  induction es using List.reverseRecOn with
  | nil =>
    refine ⟨rfl, rfl, fun node => rfl, fun o => iff_of_false List.not_mem_nil ?_⟩
    rintro ⟨rows, hmem⟩
    exact List.not_mem_nil hmem
  | append_singleton es e ih =>
    have htells := ih (hrepeat.subset (List.subset_append_left _ _))
    rw [gathered_concat]
    cases e with
    | output text stop => exact htells.output text stop
    | observation observationId batches => exact htells.observe hrepeat
    | span node rows => exact htells.addSpan node rows
    | release => exact htells.silent rfl rfl rfl fun _ => rfl
    | refused message => exact htells.silent rfl rfl rfl fun _ => rfl
    | other => exact htells.silent rfl rfl rfl fun _ => rfl

theorem gathered_usage (hrepeat : Repeats id es) :
    (gathered id es).usage = usageOf id es := by
  have htells := tells_gathered hrepeat
  have hrows : (fun node => (gathered id es).stages.lookup node) = rowsOf es :=
    funext htells.rows
  rw [Result.usage, htells.tokens, htells.prompt, hrows]
  rfl

/-! ### Events that add nothing -/

/-- Whether an event changes the usage that some events have come to. -/
def Adds (id : String) (p : List Event) : Event → Prop
  | .output text _ => truthy text ≠ none
  | .observation observationId batches =>
    prefillRows id batches ≠ 0 ∧
      ∀ o rows, truthy observationId = some o → (o, rows) ∉ p.filterMap (Event.named id)
  | .span node rows => rows.getD 0 ≠ 0 ∨ rowsOf p (node.getD "unknown") = none
  | _ => False

variable {p r : List Event}

theorem tokensOf_append : tokensOf (p ++ r) = tokensOf p ↔ ∀ e ∈ r, e.speaks = false := by
  rw [tokensOf, tokensOf, List.countP_append, Nat.add_eq_left, List.countP_eq_zero]
  simp only [Bool.not_eq_true]

theorem total_append_eq {l r : List ℕ} :
    total (l ++ r) = total l ↔ r = [] ∨ total l ≠ none ∧ ∀ n ∈ r, n = 0 := by
  by_cases hr : r = []
  · rw [hr, List.append_nil]
    exact iff_of_true rfl (Or.inl rfl)
  · rw [total_append hr]
    cases hl : total l with
    | none =>
      refine iff_of_false (fun h => nomatch h) ?_
      rintro (h | ⟨h, -⟩)
      · exact hr h
      · exact h rfl
    | some n =>
      rw [Option.getD_some, Option.some_inj, Nat.add_eq_left, List.sum_eq_zero_iff]
      constructor
      · intro h
        exact Or.inr ⟨Option.some_ne_none n, h⟩
      · rintro (h | ⟨-, h⟩)
        · exact absurd h hr
        · exact h

theorem rowsOf_append (hrows : rowsOf (p ++ r) = rowsOf p) {node : Option String}
    {rows : Option ℕ} (hmem : .span node rows ∈ r) : ¬ Adds id p (.span node rows) := by
  have hnode := congrFun hrows (node.getD "unknown")
  have hthere : rows.getD 0 ∈ r.filterMap (Event.rowsFor (node.getD "unknown")) :=
    List.mem_filterMap.mpr ⟨_, hmem, if_pos rfl⟩
  rw [rowsOf, List.filterMap_append, rowsOf] at hnode
  rcases total_append_eq.mp hnode with hnil | ⟨hsome, hzero⟩
  · rw [hnil] at hthere
    exact absurd hthere List.not_mem_nil
  · rintro (hrows | hnone)
    · exact hrows (hzero _ hthere)
    · exact hsome hnone

theorem rowsOf_append_of (h : ∀ e ∈ r, ¬ Adds id p e) : rowsOf (p ++ r) = rowsOf p := by
  funext node
  rw [rowsOf, List.filterMap_append, rowsOf, total_append_eq]
  by_cases hnil : r.filterMap (Event.rowsFor node) = []
  · exact Or.inl hnil
  · right
    -- every row is of a span that adds nothing
    have hspan {n : ℕ} (hn : n ∈ r.filterMap (Event.rowsFor node)) : n = 0 ∧ rowsOf p node ≠ none := by
      obtain ⟨e, he, hrows⟩ := List.mem_filterMap.mp hn
      obtain ⟨name, rows, rfl, rfl, rfl⟩ := rowsFor_eq_some hrows
      have hadds := h _ he
      rw [Adds, not_or, not_not] at hadds
      exact hadds
    obtain ⟨n, hn⟩ := List.exists_mem_of_ne_nil _ hnil
    exact ⟨(hspan hn).2, fun n hn => (hspan hn).1⟩

theorem promptOf_append : promptOf id (p ++ r) = promptOf id p ↔
    (∀ n ∈ r.filterMap (Event.anonymous id), n = 0) ∧
      ∀ x ∈ r.filterMap (Event.named id), x ∉ p.filterMap (Event.named id) → x.2 = 0 := by
  have hset : ((p ++ r).filterMap (Event.named id)).toFinset =
      (p.filterMap (Event.named id)).toFinset ∪
        ((r.filterMap (Event.named id)).toFinset \ (p.filterMap (Event.named id)).toFinset) := by
    rw [List.filterMap_append, List.toFinset_append, Finset.union_sdiff_self_eq_union]
  unfold promptOf
  rw [hset, Finset.sum_union Finset.disjoint_sdiff, List.filterMap_append, List.sum_append]
  have hsplit (a b c d : ℕ) : a + b + (c + d) = a + c ↔ b = 0 ∧ d = 0 := by omega
  rw [hsplit, List.sum_eq_zero_iff, Finset.sum_eq_zero_iff]
  simp only [Finset.mem_sdiff, List.mem_toFinset, and_imp]

theorem usageOf_append_iff (hrepeat : Repeats id (p ++ r)) :
    usageOf id (p ++ r) = usageOf id p ↔ ∀ e ∈ r, ¬ Adds id p e := by
  have hprompt : (usageOf id (p ++ r)).promptTokens = (usageOf id p).promptTokens ↔
      promptOf id (p ++ r) = promptOf id p := by
    constructor
    · intro h
      by_cases hzero : promptOf id (p ++ r) = 0
      · by_cases hzero' : promptOf id p = 0
        · rw [hzero, hzero']
        · rw [usageOf, usageOf, if_pos hzero, if_neg hzero'] at h
          cases h
      · by_cases hzero' : promptOf id p = 0
        · rw [usageOf, usageOf, if_neg hzero, if_pos hzero'] at h
          cases h
        · rw [usageOf, usageOf, if_neg hzero, if_neg hzero'] at h
          exact Option.some.inj h
    · intro h
      rw [usageOf, usageOf, h]
  -- what has been observed under an id has these rows
  have hobserved {o : String} {rows rows' : ℕ} (hr : (o, rows) ∈ r.filterMap (Event.named id))
      (hp : (o, rows') ∈ p.filterMap (Event.named id)) : rows = rows' := by
    apply hrepeat o rows rows'
    · rw [List.filterMap_append]
      exact List.mem_append_right _ hr
    · rw [List.filterMap_append]
      exact List.mem_append_left _ hp
  constructor
  · intro h e he hadds
    obtain ⟨hanonymous, hnamed⟩ := promptOf_append.mp (hprompt.mp (congrArg Usage.promptTokens h))
    cases e with
    | output text stop =>
      have hspeaks := tokensOf_append.mp (congrArg Usage.completionTokens h) _ he
      rw [Event.speaks, Option.isSome_eq_false_iff, Option.isNone_iff_eq_none] at hspeaks
      exact hadds hspeaks
    | observation observationId batches =>
      obtain ⟨hrows, hnew⟩ := hadds
      cases ho : truthy observationId with
      | none =>
        apply hrows
        apply hanonymous
        refine List.mem_filterMap.mpr ⟨_, he, ?_⟩
        rw [Event.anonymous, ho]
        rfl
      | some o =>
        apply hrows
        apply hnamed (o, prefillRows id batches) _ (hnew o _ ho)
        refine List.mem_filterMap.mpr ⟨_, he, ?_⟩
        rw [Event.named, ho]
        rfl
    | span node rows => exact rowsOf_append (congrArg Usage.stageRows h) he hadds
    | release => exact hadds
    | refused message => exact hadds
    | other => exact hadds
  · intro h
    have htokens : tokensOf (p ++ r) = tokensOf p := by
      apply tokensOf_append.mpr
      intro e he
      cases e with
      | output text stop =>
        have htext : truthy text = none := not_not.mp (h _ he)
        rw [Event.speaks, htext]
        rfl
      | observation observationId batches => rfl
      | span node rows => rfl
      | release => rfl
      | refused message => rfl
      | other => rfl
    have hprompts : promptOf id (p ++ r) = promptOf id p := by
      apply promptOf_append.mpr
      constructor
      · intro n hn
        obtain ⟨e, he, hrows⟩ := List.mem_filterMap.mp hn
        obtain ⟨observationId, batches, rfl, ho, rfl⟩ := anonymous_eq_some hrows
        have hadds := h _ he
        rw [Adds, not_and_or, not_not] at hadds
        rcases hadds with hzero | hadds
        · exact hzero
        · exact absurd (fun o rows ho' => nomatch ho.symm.trans ho') hadds
      · intro x hx hnew
        obtain ⟨e, he, hrows⟩ := List.mem_filterMap.mp hx
        obtain ⟨o, observationId, batches, rfl, ho, rfl⟩ := named_eq_some hrows
        have hadds := h _ he
        rw [Adds, not_and_or, not_not] at hadds
        rcases hadds with hzero | hadds
        · exact hzero
        · exfalso
          apply hadds
          intro o' rows ho' hmem
          obtain rfl := Option.some.inj (ho.symm.trans ho')
          rw [← hobserved hx hmem] at hmem
          exact hnew hmem
    unfold usageOf
    rw [htokens, hprompts, rowsOf_append_of h]

end KvasirNet.Generate
