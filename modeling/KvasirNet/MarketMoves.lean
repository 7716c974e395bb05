import KvasirNet.MarketSystem

/-! What a step of the market can do to its tables, one case for each effect. -/
namespace KvasirNet.Market

variable {cfg : Config} {s : State} {now : ℕ}

/-! ## Eviction -/

@[simp]
theorem lookup_evict_workers (s : State) (now : ℕ) (id : WorkerId) :
    (s.evict now).workers.lookup id = (s.workers.lookup id).filter fun w => !w.stale now :=
  Table.lookup_keep _ _ _

@[simp]
theorem lookup_evict_ports (s : State) (now : ℕ) (id : WorkerId) :
    (s.evict now).ports.lookup id = (s.ports.lookup id).filter fun _ => !s.staleWorker now id :=
  Table.lookup_keep _ _ _

@[simp]
theorem lookup_evict_targets (s : State) (now : ℕ) (session : Session) :
    (s.evict now).relayTargets.lookup session =
      (s.relayTargets.lookup session).filter fun t => !s.staleWorker now t.nodeId :=
  Table.lookup_keep _ _ _

@[simp]
theorem lookup_evict_stats (s : State) (now : ℕ) (session : Session) :
    (s.evict now).relayStats.lookup session = (s.relayStats.lookup session).filter fun _ =>
      !(s.relayTargets.lookup session).any fun t => s.staleWorker now t.nodeId :=
  Table.lookup_keep _ _ _

theorem any_filter_not {α : Type*} (p : α → Bool) (o : Option α) :
    (o.filter fun x => !p x).any p = false := by
  cases o with
  | none => rfl
  | some x => cases hp : p x <;> simp [Option.filter, hp]

@[simp]
theorem staleWorker_evict (s : State) (now : ℕ) (id : WorkerId) :
    (s.evict now).staleWorker now id = false := by
  unfold State.staleWorker
  rw [lookup_evict_workers]
  exact any_filter_not (Worker.stale now) _

theorem keep_true {κ ν : Type*} (p : κ → ν → Bool) (t : Table κ ν)
    (h : ∀ e ∈ t.entries, p e.1 e.2 = true) : t.keep p = t := by
  apply AList.ext
  exact List.filter_eq_self.mpr h

theorem stale_of_lookup {id : WorkerId} {w : Worker} (h : s.workers.lookup id = some w) :
    s.staleWorker now id = w.stale now := by
  unfold State.staleWorker
  rw [h, Option.any_some]

theorem evict_eq_self (h : ∀ id, s.staleWorker now id = false) : s.evict now = s := by
  have hworkers : (s.workers.keep fun _ w => !w.stale now) = s.workers := by
    apply keep_true
    intro e he
    have hrow := (Table.mem_entries_iff s.workers e.1 e.2).mp he
    rw [← stale_of_lookup hrow, h, Bool.not_false]
  have hports : (s.ports.keep fun id _ => !s.staleWorker now id) = s.ports :=
    keep_true _ _ fun e _ => by rw [h, Bool.not_false]
  have htargets : (s.relayTargets.keep fun _ t => !s.staleWorker now t.nodeId) = s.relayTargets :=
    keep_true _ _ fun e _ => by rw [h, Bool.not_false]
  have hstats : (s.relayStats.keep fun session _ =>
      !(s.relayTargets.lookup session).any fun t => s.staleWorker now t.nodeId) = s.relayStats :=
    keep_true _ _ fun e _ => by simp only [h, Option.any_false, Bool.not_false]
  unfold State.evict
  rw [hworkers, hports, htargets, hstats]

/-- `liveWorkers` and `livePending`, as every poll of the coverage runs them. -/
def State.sweep (s : State) (now : ℕ) : State := (s.evict now).dropClaims now

@[simp]
theorem sweep_sweep (s : State) (now : ℕ) : (s.sweep now).sweep now = s.sweep now := by
  have hstale (id : WorkerId) : (s.sweep now).staleWorker now id = false := staleWorker_evict s now id
  have hpending : ((s.sweep now).pending.keep fun _ ts => decide (now ≤ ts + pendingAssignmentMs)) =
      (s.sweep now).pending := by
    apply keep_true
    intro e he
    exact (List.mem_filter.mp he).2
  calc (s.sweep now).sweep now = (s.sweep now).dropClaims now := by
        rw [State.sweep, evict_eq_self hstale]
    _ = s.sweep now := by rw [State.dropClaims, hpending]

theorem coverage_state (cfg : Config) (now : ℕ) (s : State) (model : String) :
    (s.coverage cfg now model).1 = s ∨ (s.coverage cfg now model).1 = s.sweep now := by
  unfold State.coverage
  split
  · exact Or.inl rfl
  · exact Or.inr rfl

theorem foldl_state {β α : Type*} {f : State × β → α → State × β}
    (hf : ∀ x m, (f x m).1 = x.1 ∨ (f x m).1 = x.1.sweep now) (l : List α) (x : State × β) :
    (l.foldl f x).1 = x.1 ∨ (l.foldl f x).1 = x.1.sweep now := by
  induction l generalizing x with
  | nil => exact Or.inl rfl
  | cons m l ih =>
    rw [List.foldl_cons]
    rcases ih (f x m) with h | h <;> rcases hf x m with hm | hm
    · exact Or.inl (h.trans hm)
    · exact Or.inr (h.trans hm)
    · exact Or.inr (by rw [h, hm])
    · exact Or.inr (by rw [h, hm, sweep_sweep])

theorem foldl_wanted {β : Type*} {f : State × β → ModelInfo → State × β} (want : String)
    (hf : ∀ x m, (f x m).1 = x.1 ∨ (f x m).1 = x.1.sweep now) (x : State × β) :
    ((cfg.models.filter (ModelInfo.wanted want)).foldl f x).1 = x.1 ∨
      ((cfg.models.filter (ModelInfo.wanted want)).foldl f x).1 = x.1.sweep now ∧
        cfg.models.any (ModelInfo.wanted want) = true := by
  cases hany : cfg.models.any (ModelInfo.wanted want) with
  | true =>
    rcases foldl_state hf (cfg.models.filter (ModelInfo.wanted want)) x with h | h
    · exact Or.inl h
    · exact Or.inr ⟨h, rfl⟩
  | false =>
    have hnone : cfg.models.filter (ModelInfo.wanted want) = [] := by
      rw [List.filter_eq_nil_iff]
      exact List.any_eq_false.mp hany
    rw [hnone]
    exact Or.inl rfl

theorem expertDemand_state (cfg : Config) (s : State) (now : ℕ) (want : String) :
    (expertDemand cfg s now want).1 = s ∨
      (expertDemand cfg s now want).1 = s.sweep now ∧
        cfg.models.any (ModelInfo.wanted want) = true := by
  unfold expertDemand
  apply foldl_wanted
  intro x m
  exact coverage_state cfg now x.1 m.id

theorem volunteerBest_state (cfg : Config) (s : State) (now : ℕ) (want : String) :
    (volunteerBest cfg s now want).1 = s ∨
      (volunteerBest cfg s now want).1 = s.sweep now ∧
        cfg.models.any (ModelInfo.wanted want) = true := by
  unfold volunteerBest
  apply foldl_wanted
  intro x m
  exact coverage_state cfg now x.1 m.id

/-! ## Reports -/

theorem settle_tables (cfg : Config) (s : State) (owner : Wallet) (model : String)
    (segments : List Segment) :
    (s.settle cfg owner model segments).workers = s.workers ∧
    (s.settle cfg owner model segments).ports = s.ports ∧
    (s.settle cfg owner model segments).relayTargets = s.relayTargets ∧
    (s.settle cfg owner model segments).relayStats = s.relayStats ∧
    (s.settle cfg owner model segments).credits = s.credits := by
  unfold State.settle
  split_ifs
  · exact ⟨rfl, rfl, rfl, rfl, rfl⟩
  · exact ⟨rfl, rfl, rfl, rfl, rfl⟩

theorem portFor_cases (s : State) (id : WorkerId) :
    (∃ port, s.ports.lookup id = some port ∧ s.portFor id = (s, some port)) ∨
    (∃ port, s.ports.lookup id = none ∧ s.freePort = some port ∧
      s.portFor id = ({ s with ports := s.ports.insert id port }, some port)) ∨
    s.portFor id = (s, none) := by
  unfold State.portFor
  cases hid : s.ports.lookup id with
  | some port => exact Or.inl ⟨port, rfl, rfl⟩
  | none =>
    cases hfree : s.freePort with
    | some port => exact Or.inr (Or.inl ⟨port, rfl, rfl, rfl⟩)
    | none => exact Or.inr (Or.inr rfl)

/-- A report of the worker puts the target of this session in its name. -/
def State.rewires (s : State) (id : WorkerId) (url : String) (session : Session) : Bool :=
  decide (relaySession url id = some session) && (s.portFor id).2.isSome

theorem wire_spec (s : State) (id : WorkerId) (w : Worker) :
    (s.wire id w).1.workers = s.workers ∧ (s.wire id w).1.pending = s.pending ∧
    (s.wire id w).1.relayStats = s.relayStats ∧ (s.wire id w).1.credits = s.credits ∧
    (∀ id', id' ≠ id → (s.wire id w).1.ports.lookup id' = s.ports.lookup id') ∧
    ∀ session, (s.wire id w).1.relayTargets.lookup session =
      if s.rewires id w.url session then
        some (relayTarget w id ((s.portFor id).2.getD 0) (s.relayTargets.lookup session))
      else s.relayTargets.lookup session := by
  unfold State.wire State.rewires
  cases hnamed : relaySession w.url id with
  | none => simp
  | some named =>
    -- under its own name the target is new, under any other it is the old one
    have hinsert (s₁ : State) (port : ℕ) (hs₁ : s₁.relayTargets = s.relayTargets) (x : Session) :
        (s₁.relayTargets.insert named
          (relayTarget w id port (s₁.relayTargets.lookup named))).lookup x =
        if named = x then some (relayTarget w id port (s.relayTargets.lookup x))
        else s.relayTargets.lookup x := by
      rw [hs₁]
      split_ifs with hx
      · subst hx
        rw [AList.lookup_insert]
      · rw [AList.lookup_insert_ne (Ne.symm hx)]
    rcases portFor_cases s id with ⟨port, -, he⟩ | ⟨port, -, -, he⟩ | he
    · rw [he]
      refine ⟨rfl, rfl, rfl, rfl, fun _ _ => rfl, fun x => ?_⟩
      simpa using hinsert s port rfl x
    · rw [he]
      refine ⟨rfl, rfl, rfl, rfl, fun id' hid' => AList.lookup_insert_ne hid', fun x => ?_⟩
      simpa using hinsert { s with ports := s.ports.insert id port } port rfl x
    · rw [he]
      simp

theorem portFor_congr {s₁ s₂ : State} (h : s₁.ports = s₂.ports) (id : WorkerId) :
    (s₁.portFor id).2 = (s₂.portFor id).2 := by
  have hfree : s₁.freePort = s₂.freePort := by rw [State.freePort, State.freePort, h]
  unfold State.portFor
  rw [h, hfree]
  cases s₂.ports.lookup id with
  | some port => rfl
  | none => cases s₂.freePort <;> rfl

theorem rewires_congr {s₁ s₂ : State} (h : s₁.ports = s₂.ports) (id : WorkerId) (url : String)
    (session : Session) : s₁.rewires id url session = s₂.rewires id url session := by
  rw [State.rewires, State.rewires, portFor_congr h]

theorem record_spec (cfg : Config) (s : State) (who : Who) (id : WorkerId) (w : Worker) :
    (s.record cfg who id w).1.workers = s.workers.insert id w ∧
    (s.record cfg who id w).1.pending =
      (s.settle cfg (who.wallet.getD w.owner) w.model w.segments).pending ∧
    (s.record cfg who id w).1.relayStats = s.relayStats ∧
    (s.record cfg who id w).1.credits = s.credits ∧
    (∀ id', id' ≠ id → (s.record cfg who id w).1.ports.lookup id' = s.ports.lookup id') ∧
    ∀ session, (s.record cfg who id w).1.relayTargets.lookup session =
      if s.rewires id w.url session then
        some (relayTarget w id ((s.portFor id).2.getD 0) (s.relayTargets.lookup session))
      else s.relayTargets.lookup session := by
  obtain ⟨hworkers, hports, htargets, hstats, hcredits⟩ :=
    settle_tables cfg s (who.wallet.getD w.owner) w.model w.segments
  unfold State.record
  generalize hs₁ : s.settle cfg (who.wallet.getD w.owner) w.model w.segments = s₁ at *
  obtain ⟨hw, hp, hst, hc, hport, ht⟩ := wire_spec { s₁ with workers := s₁.workers.insert id w } id w
  refine ⟨by rw [hw, hworkers], hp, by rw [hst, hstats], by rw [hc, hcredits], fun id' hid' => ?_,
    fun session => ?_⟩
  · rw [hport id' hid', hports]
  · have hrewires : State.rewires { s₁ with workers := s₁.workers.insert id w } id w.url session =
        s.rewires id w.url session := by
      apply rewires_congr
      exact hports
    have hgiven : (State.portFor { s₁ with workers := s₁.workers.insert id w } id).2 =
        (s.portFor id).2 := by
      apply portFor_congr
      exact hports
    rw [ht session, hrewires, hgiven, htargets]

theorem staleWorker_record (cfg : Config) (s : State) (who : Who) {id : WorkerId} {w : Worker}
    {now : ℕ} (hfresh : w.stale now = false) (id' : WorkerId) :
    (s.record cfg who id w).1.staleWorker now id' = (id' != id && s.staleWorker now id') := by
  unfold State.staleWorker
  rw [(record_spec cfg s who id w).1]
  by_cases hid : id' = id
  · subst hid
    rw [AList.lookup_insert, Option.any_some, hfresh, bne_self_eq_false, Bool.false_and]
  · rw [AList.lookup_insert_ne hid, bne_iff_ne.mpr hid, Bool.true_and]

theorem reportedWorker_fresh (previous : Option Worker) (b : CoverageBody) (now : ℕ) :
    (reportedWorker previous b now).stale now = false := by
  apply decide_eq_false
  exact Nat.not_lt.mpr (Nat.le_add_right _ _)

/-! ## Moves -/

/-- When the request reads the coverage: it is admitted, and some model answers
to what it wants. -/
def Action.polls (cfg : Config) : Action → Option ℕ
  | .demand who allowed want now =>
    if (needsNode who allowed).toBool && cfg.models.any (ModelInfo.wanted want) then some now
    else none
  | .volunteer who allowed isFrozen want _ now =>
    if (needsNode who allowed).toBool && !isFrozen && cfg.models.any (ModelInfo.wanted want) then
      some now
    else none
  | _ => none

def Action.flushes : Action → Bool
  | .relayClosed .. | .flush => true
  | _ => false

inductive Move (cfg : Config) (s : State) : Action → State → Prop
  | refused (a : Action) (quiet : a.flushes = false) : Move cfg s a s
  | polled (a : Action) (now : ℕ) (polls : a.polls cfg = some now) : Move cfg s a (s.sweep now)
  | volunteered (who : Who) (allowed : Bool) (want : String) (maxExperts : ℚ) (now : ℕ)
      (s₁ : State) (model : String) (layer : ℕ) (experts : ℚ × ℚ)
      (passed : needsNode who allowed = .ok ())
      (swept : s₁ = s ∨ s₁ = s.sweep now ∧
        (Action.volunteer who allowed false want maxExperts now).polls cfg = some now) :
      Move cfg s (.volunteer who allowed false want maxExperts now)
        (s₁.claim cfg now (who.wallet.getD "") model layer experts)
  | full (who : Who) (allowed : Bool) (b : CoverageBody) (now : ℕ)
      (passed : needsNode who allowed = .ok ()) (complete : ¬ (b.workerId = "" ∨ b.model = ""))
      (unknown : s.workers.lookup b.workerId = none) :
      Move cfg s (.coverage who allowed b now) (s.evict now)
  | reported (who : Who) (allowed : Bool) (b : CoverageBody) (now : ℕ)
      (passed : needsNode who allowed = .ok ()) (complete : ¬ (b.workerId = "" ∨ b.model = "")) :
      Move cfg s (.coverage who allowed b now)
        (((s.census now b.workerId).record cfg who b.workerId
          (reportedWorker (s.workers.lookup b.workerId) b now)).1.evict now)
  | dialled (who : Who) (path : Path) (t : Target) (known : who ≠ .none)
      (target : s.relayTargets.lookup path.session = some t) :
      Move cfg s (.upgrade who path)
        { s with
          relayTargets := s.relayTargets.insert path.session
            { t with owner := orText t.owner (who.wallet.getD "") } }
  | carried (session : Session) (dir : Direction) (bytes : ℕ) :
      Move cfg s (.relayBytes session dir bytes) (noteRelayBytes s session dir bytes)
  | closed (session : Session) (now : ℕ) :
      Move cfg s (.relayClosed session now) (noteRelayClosed s session now)
  | flushed : Move cfg s .flush (flushContributions s)

theorem volunteer_move (cfg : Config) (s : State) (who : Who) (allowed : Bool) (want : String)
    (maxExperts : ℚ) (now : ℕ) (passed : needsNode who allowed = .ok ()) :
    Move cfg s (.volunteer who allowed false want maxExperts now)
      (volunteer cfg s now who want maxExperts).1 := by
  have hpolls (h : cfg.models.any (ModelInfo.wanted want) = true) :
      (Action.volunteer who allowed false want maxExperts now).polls cfg = some now := by
    simp [Action.polls, passed, h, Except.toBool]
  have hbase := volunteerBest_state cfg s now want
  unfold volunteer
  generalize volunteerBest cfg s now want = r at hbase
  obtain ⟨s₁, best⟩ := r
  cases best with
  | none =>
    rcases hbase with rfl | ⟨rfl, hany⟩
    · exact .refused _ rfl
    · exact .polled _ now (hpolls hany)
  | some b =>
    exact .volunteered who allowed want maxExperts now s₁ _ _ _ passed
      (hbase.imp id (And.imp id hpolls))

theorem coverageReport_move (cfg : Config) (s : State) (who : Who) (allowed : Bool)
    (b : CoverageBody) (now : ℕ) (passed : needsNode who allowed = .ok ()) :
    Move cfg s (.coverage who allowed b now) (coverageReport cfg s now who b).1 := by
  unfold coverageReport
  split_ifs with hrequired
  · exact .refused _ rfl
  · dsimp only
    split_ifs with hfull
    · have hnew : (s.workers.lookup b.workerId).isSome = false := by simpa using hfull.1
      simp only [State.census, hnew, Bool.false_eq_true, if_false]
      exact .full who allowed b now passed hrequired (Option.isNone_iff_eq_none.mp hfull.1)
    · exact .reported who allowed b now passed hrequired

theorem resolveUpgrade_move (cfg : Config) (s : State) (who : Who) (path : Path) :
    Move cfg s (.upgrade who path) (resolveUpgrade s who path).1 := by
  unfold resolveUpgrade
  split_ifs with hwho
  · exact .refused _ rfl
  · cases ht : s.relayTargets.lookup path.session with
    | none =>
      simp only [State.dial, ht, Option.map_none]
      cases path with
      | expertRelay | ringRelay => exact .refused _ rfl
    | some t =>
      simp only [State.dial, ht, Option.map_some]
      exact .dialled who path t hwho ht

theorem react_move (cfg : Config) (s : State) (a : Action) : Move cfg s a (react cfg s a).1 := by
  cases a with
  | demand who allowed want now =>
    simp only [react]
    split
    · exact .refused _ rfl
    · rename_i hpassed
      rcases expertDemand_state cfg s now want with h | ⟨h, hany⟩
      · rw [h]
        exact .refused _ rfl
      · rw [h]
        exact .polled _ now (by simp [Action.polls, hpassed, hany, Except.toBool])
  | volunteer who allowed isFrozen want maxExperts now =>
    simp only [react]
    split
    · exact .refused _ rfl
    · rename_i hpassed
      cases isFrozen with
      | true => exact .refused _ rfl
      | false => exact volunteer_move cfg s who allowed want maxExperts now hpassed
  | coverage who allowed b now =>
    simp only [react]
    split
    · exact .refused _ rfl
    · rename_i hpassed
      exact coverageReport_move cfg s who allowed b now hpassed
  | upgrade who path => exact resolveUpgrade_move cfg s who path
  | relayBytes session dir bytes => exact .carried session dir bytes
  | relayClosed session now => exact .closed session now
  | flush => exact .flushed

theorem step_move {s' : State} {a : Action} (h : step cfg s a = some s') : Move cfg s a s' := by
  obtain rfl := Option.some.inj h
  exact react_move cfg s a

end KvasirNet.Market
