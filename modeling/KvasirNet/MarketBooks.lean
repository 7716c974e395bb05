import KvasirNet.MarketMoves
import Mathlib.Data.List.Perm.Subperm

/-! The books a participant can make the bridge keep: workers, their ports, and
the relay targets under names that the participant chooses. -/
namespace KvasirNet.Market

variable {cfg : Config} {s s' : State} {a : Action}

/-! ## Ports -/

theorem freePort_spec {port : ℕ} (h : s.freePort = some port) :
    (portBase ≤ port ∧ port < portBase + portSpan) ∧ ∀ id, s.ports.lookup id ≠ some port := by
  have hmem := List.mem_of_find?_eq_some h
  have hfree := List.find?_some h
  constructor
  · obtain ⟨i, hi, rfl⟩ := List.mem_map.mp hmem
    have hlt : i < portSpan := List.mem_range.mp hi
    omega
  · intro id hid
    have hentry := (Table.mem_entries_iff s.ports id port).mpr hid
    simp only [Bool.not_eq_true', List.any_eq_false, beq_iff_eq] at hfree
    exact hfree _ hentry rfl

/-! ## The invariant -/

structure Booked (s : State) : Prop where
  held : ∀ id port, s.ports.lookup id = some port → (s.workers.lookup id).isSome = true
  span : ∀ id port, s.ports.lookup id = some port → portBase ≤ port ∧ port < portBase + portSpan
  distinct : ∀ id id' port, s.ports.lookup id = some port → s.ports.lookup id' = some port → id = id'
  assigned : ∀ session t, s.relayTargets.lookup session = some t →
    s.ports.lookup t.nodeId = some t.port

def OneTarget (s : State) : Prop :=
  ∀ session session' t t', s.relayTargets.lookup session = some t →
    s.relayTargets.lookup session' = some t' → t.nodeId = t'.nodeId → session = session'

theorem Booked.empty : Booked State.empty := by
  constructor <;> intros <;> simp_all [State.empty]

theorem OneTarget.empty : OneTarget State.empty := by
  intro session session' t t' h
  simp [State.empty] at h

theorem Booked.evict (hb : Booked s) (now : ℕ) : Booked (s.evict now) := by
  have hport {id : WorkerId} {port : ℕ} (h : (s.evict now).ports.lookup id = some port) :
      s.ports.lookup id = some port ∧ s.staleWorker now id = false := by
    rw [lookup_evict_ports, Option.filter_eq_some_iff] at h
    exact ⟨h.1, by simpa using h.2⟩
  constructor
  · intro id port h
    obtain ⟨hid, hfresh⟩ := hport h
    obtain ⟨w, hw⟩ := Option.isSome_iff_exists.mp (hb.held id port hid)
    rw [stale_of_lookup hw] at hfresh
    rw [lookup_evict_workers, hw, Option.filter_some, hfresh]
    rfl
  · intro id port h
    exact hb.span id port (hport h).1
  · intro id id' port h h'
    exact hb.distinct id id' port (hport h).1 (hport h').1
  · intro session t h
    rw [lookup_evict_targets, Option.filter_eq_some_iff] at h
    have hfresh : s.staleWorker now t.nodeId = false := by simpa using h.2
    rw [lookup_evict_ports, hb.assigned session t h.1, Option.filter_some, hfresh]
    rfl

theorem OneTarget.evict (ho : OneTarget s) (now : ℕ) : OneTarget (s.evict now) := by
  intro session session' t t' h h' hsame
  rw [lookup_evict_targets, Option.filter_eq_some_iff] at h h'
  exact ho session session' t t' h.1 h'.1 hsame

theorem Booked.congr (hb : Booked s) (hw : s'.workers = s.workers) (hp : s'.ports = s.ports)
    (ht : s'.relayTargets = s.relayTargets) : Booked s' := by
  constructor
  · rw [hw, hp]
    exact hb.held
  · rw [hp]
    exact hb.span
  · rw [hp]
    exact hb.distinct
  · rw [hp, ht]
    exact hb.assigned

theorem OneTarget.congr (ho : OneTarget s) (ht : s'.relayTargets = s.relayTargets) :
    OneTarget s' := by
  unfold OneTarget
  rw [ht]
  exact ho

variable {session : Session} {t : Target}

theorem Booked.adopt (hb : Booked s)
    (ht : s.relayTargets.lookup session = some t) (owner : Wallet) :
    Booked { s with relayTargets := s.relayTargets.insert session { t with owner := owner } } := by
  refine ⟨hb.held, hb.span, hb.distinct, fun session' t' h => ?_⟩
  by_cases hs : session' = session
  · subst hs
    obtain rfl : { t with owner := owner } = t' := by simpa using h
    exact hb.assigned session' t ht
  · rw [AList.lookup_insert_ne hs] at h
    exact hb.assigned session' t' h

theorem OneTarget.adopt (ho : OneTarget s)
    (ht : s.relayTargets.lookup session = some t) (owner : Wallet) :
    OneTarget { s with relayTargets := s.relayTargets.insert session { t with owner := owner } } := by
  -- the target under a name before the dial has the same worker
  have hback {x : Session} {u : Target}
      (h : (s.relayTargets.insert session { t with owner := owner }).lookup x = some u) :
      ∃ v, s.relayTargets.lookup x = some v ∧ v.nodeId = u.nodeId := by
    by_cases hx : x = session
    · subst hx
      obtain rfl : { t with owner := owner } = u := by simpa using h
      exact ⟨t, ht, rfl⟩
    · rw [AList.lookup_insert_ne hx] at h
      exact ⟨u, h, rfl⟩
  intro x x' u u' h h' hsame
  obtain ⟨v, hv, hvu⟩ := hback h
  obtain ⟨v', hv', hvu'⟩ := hback h'
  exact ho x x' v v' hv hv' (by rw [hvu, hvu', hsame])

/-! ## Reports -/

variable {id : WorkerId} {w : Worker}

theorem Booked.wire (hb : Booked s)
    (hid : (s.workers.lookup id).isSome = true) : Booked (s.wire id w).1 := by
  unfold State.wire
  split
  · exact hb
  · rename_i session hsession
    -- a fresh port is in the span and nobody's
    have hgiven (s₁ : State) (port : ℕ) (hb₁ : Booked s₁) (hport : s₁.ports.lookup id = some port) :
        Booked { s₁ with
          relayTargets := s₁.relayTargets.insert session
            (relayTarget w id port (s₁.relayTargets.lookup session)) } := by
      refine ⟨hb₁.held, hb₁.span, hb₁.distinct, fun x t h => ?_⟩
      by_cases hx : x = session
      · subst hx
        rw [AList.lookup_insert] at h
        obtain rfl := Option.some.inj h
        exact hport
      · rw [AList.lookup_insert_ne hx] at h
        exact hb₁.assigned x t h
    rcases portFor_cases s id with ⟨port, hport, he⟩ | ⟨port, hnone, hfree, he⟩ | he
    · rw [he]
      exact hgiven s port hb hport
    · rw [he]
      refine hgiven _ port ?_ (AList.lookup_insert _)
      obtain ⟨hspan, hnew⟩ := freePort_spec hfree
      have hcases {x : WorkerId} {q : ℕ} (h : (s.ports.insert id port).lookup x = some q) :
          (x = id ∧ q = port) ∨ s.ports.lookup x = some q := by
        by_cases hx : x = id
        · subst hx
          rw [AList.lookup_insert] at h
          exact Or.inl ⟨rfl, (Option.some.inj h).symm⟩
        · rw [AList.lookup_insert_ne hx] at h
          exact Or.inr h
      constructor
      · intro x q h
        rcases hcases h with ⟨rfl, -⟩ | h
        · exact hid
        · exact hb.held x q h
      · intro x q h
        rcases hcases h with ⟨-, rfl⟩ | h
        · exact hspan
        · exact hb.span x q h
      · intro x y q h h'
        rcases hcases h with ⟨hx, hq⟩ | hold <;> rcases hcases h' with ⟨hy, hq'⟩ | hold'
        · exact hx.trans hy.symm
        · exact absurd (hq ▸ hold') (hnew y)
        · exact absurd (hq' ▸ hold) (hnew x)
        · exact hb.distinct x y q hold hold'
      · intro x t h
        have hne : t.nodeId ≠ id := by
          intro hx
          rw [← hx, hb.assigned x t h] at hnone
          cases hnone
        exact (AList.lookup_insert_ne hne).trans (hb.assigned x t h)
    · rw [he]
      exact hb

theorem Booked.record {who : Who} (hb : Booked s) :
    Booked (s.record cfg who id w).1 := by
  obtain ⟨hworkers, hports, htargets, -⟩ :=
    settle_tables cfg s (who.wallet.getD w.owner) w.model w.segments
  have hs := hb.congr hworkers hports htargets
  unfold State.record
  generalize s.settle cfg (who.wallet.getD w.owner) w.model w.segments = s₁ at hs
  apply Booked.wire
  · refine ⟨fun x port h => ?_, hs.span, hs.distinct, hs.assigned⟩
    by_cases hx : x = id
    · subst hx
      rw [AList.lookup_insert]
      rfl
    · rw [AList.lookup_insert_ne hx]
      exact hs.held x port h
  · rw [AList.lookup_insert]
    rfl

/-- The report names the session that its worker already has a target under, if
it has one. -/
def sessionKept (s : State) : Action → Bool
  | .coverage _ _ b _ =>
    match relaySession b.url b.workerId with
    | none => true
    | some session => s.relayTargets.entries.all fun e => e.2.nodeId != b.workerId || e.1 == session
  | _ => true

theorem sessionKept_coverage {who : Who} {allowed : Bool} {b : CoverageBody} {now : ℕ}
    {x : Session} (hk : sessionKept s (.coverage who allowed b now) = true)
    (hs : relaySession b.url b.workerId = some session)
    (ht : s.relayTargets.lookup x = some t) (hid : t.nodeId = b.workerId) : x = session := by
  simp only [sessionKept, hs, List.all_eq_true] at hk
  have hentry := hk ⟨x, t⟩ ((Table.mem_entries_iff s.relayTargets x t).mpr ht)
  simpa [hid] using hentry

theorem OneTarget.wire (ho : OneTarget s)
    (hkept : ∀ session x t, relaySession w.url id = some session →
      s.relayTargets.lookup x = some t → t.nodeId = id → x = session) :
    OneTarget (s.wire id w).1 := by
  unfold State.wire
  split
  · exact ho
  · rename_i session hsession
    have hgiven (s₁ : State) (port : ℕ) (hs₁ : s₁.relayTargets = s.relayTargets) :
        OneTarget { s₁ with
          relayTargets := s₁.relayTargets.insert session
            (relayTarget w id port (s₁.relayTargets.lookup session)) } := by
      rw [hs₁]
      -- under another name the table is the old one
      have hold {x : Session} {t : Target} (hx : x ≠ session)
          (h : (s.relayTargets.insert session
            (relayTarget w id port (s.relayTargets.lookup session))).lookup x = some t) :
          s.relayTargets.lookup x = some t := by
        rwa [AList.lookup_insert_ne hx] at h
      have hnew {t : Target}
          (h : (s.relayTargets.insert session
            (relayTarget w id port (s.relayTargets.lookup session))).lookup session = some t) :
          t.nodeId = id := by
        rw [AList.lookup_insert] at h
        obtain rfl := Option.some.inj h
        rfl
      intro x x' t t' h h' hsame
      by_cases hx : x = session <;> by_cases hx' : x' = session
      · exact hx.trans hx'.symm
      · subst hx
        exact (hkept x x' t' hsession (hold hx' h') (hsame ▸ hnew h)).symm
      · subst hx'
        exact hkept x' x t hsession (hold hx h) (hsame ▸ hnew h')
      · exact ho x x' t t' (hold hx h) (hold hx' h') hsame
    rcases portFor_cases s id with ⟨port, hport, he⟩ | ⟨port, hnone, hfree, he⟩ | he
    · rw [he]
      exact hgiven s port rfl
    · rw [he]
      exact hgiven _ port rfl
    · rw [he]
      exact ho

theorem census_targets {x : Session} {now : ℕ}
    (h : (s.census now id).relayTargets.lookup x = some t) : s.relayTargets.lookup x = some t := by
  unfold State.census at h
  split_ifs at h
  · exact h
  · rw [lookup_evict_targets, Option.filter_eq_some_iff] at h
    exact h.1

theorem OneTarget.record {who : Who} (ho : OneTarget s)
    (hkept : ∀ session x t, relaySession w.url id = some session →
      s.relayTargets.lookup x = some t → t.nodeId = id → x = session) :
    OneTarget (s.record cfg who id w).1 := by
  obtain ⟨-, -, htargets, -⟩ := settle_tables cfg s (who.wallet.getD w.owner) w.model w.segments
  unfold State.record
  apply OneTarget.wire
  · exact ho.congr htargets
  · intro session x t hs ht
    exact hkept session x t hs (htargets ▸ ht)

/-! ## Steps and runs -/

theorem flush_tables (s : State) :
    (flushContributions s).workers = s.workers ∧ (flushContributions s).ports = s.ports ∧
      (flushContributions s).relayTargets = s.relayTargets := ⟨rfl, rfl, rfl⟩

theorem closed_tables (s : State) (session : Session) (now : ℕ) :
    (noteRelayClosed s session now).workers = s.workers ∧
      (noteRelayClosed s session now).ports = s.ports ∧
      (noteRelayClosed s session now).relayTargets = s.relayTargets := by
  unfold noteRelayClosed
  cases s.relayStats.lookup session with
  | none => exact flush_tables s
  | some st => exact ⟨rfl, rfl, rfl⟩

theorem claim_tables (cfg : Config) (s : State) (now : ℕ) (owner : Wallet) (model : String)
    (layer : ℕ) (experts : ℚ × ℚ) :
    (s.claim cfg now owner model layer experts).workers = s.workers ∧
      (s.claim cfg now owner model layer experts).ports = s.ports ∧
      (s.claim cfg now owner model layer experts).relayTargets = s.relayTargets := by
  unfold State.claim
  split_ifs
  · exact ⟨rfl, rfl, rfl⟩
  · exact ⟨rfl, rfl, rfl⟩

theorem Booked.sweep (hb : Booked s) (now : ℕ) : Booked (s.sweep now) :=
  (hb.evict now).congr rfl rfl rfl

theorem Booked.census (hb : Booked s) (now : ℕ) (id : WorkerId) : Booked (s.census now id) := by
  unfold State.census
  split_ifs
  · exact hb
  · exact hb.evict now

theorem Booked.move (hb : Booked s) (hm : Move cfg s a s') : Booked s' := by
  cases hm with
  | refused => exact hb
  | polled _ now => exact hb.sweep now
  | volunteered who allowed want maxExperts now s₁ model layer experts passed swept =>
    have hb₁ : Booked s₁ := by
      rcases swept with rfl | ⟨rfl, -⟩
      · exact hb
      · exact hb.sweep now
    obtain ⟨hworkers, hports, htargets⟩ :=
      claim_tables cfg s₁ now (who.wallet.getD "") model layer experts
    exact hb₁.congr hworkers hports htargets
  | full who allowed b now => exact hb.evict now
  | reported who allowed b now passed complete => exact (hb.census now b.workerId).record.evict now
  | dialled who path t known target => exact hb.adopt target _
  | carried => exact hb.congr rfl rfl rfl
  | closed session now =>
    obtain ⟨hworkers, hports, htargets⟩ := closed_tables s session now
    exact hb.congr hworkers hports htargets
  | flushed => exact hb.congr rfl rfl rfl

theorem OneTarget.census (ho : OneTarget s) (now : ℕ) (id : WorkerId) :
    OneTarget (s.census now id) := by
  intro x x' t t' h h' hsame
  exact ho x x' t t' (census_targets h) (census_targets h') hsame

theorem OneTarget.move (ho : OneTarget s) (hk : sessionKept s a = true) (hm : Move cfg s a s') :
    OneTarget s' := by
  cases hm with
  | refused => exact ho
  | polled _ now => exact (ho.evict now).congr rfl
  | volunteered who allowed want maxExperts now s₁ model layer experts passed swept =>
    have ho₁ : OneTarget s₁ := by
      rcases swept with rfl | ⟨rfl, -⟩
      · exact ho
      · exact (ho.evict now).congr rfl
    exact ho₁.congr (claim_tables cfg s₁ now (who.wallet.getD "") model layer experts).2.2
  | full who allowed b now => exact ho.evict now
  | reported who allowed b now passed complete =>
    have hcensus := ho.census now b.workerId
    refine (hcensus.record fun session x t hs ht hid => ?_).evict now
    exact sessionKept_coverage hk hs (census_targets ht) hid
  | dialled who path t known target => exact ho.adopt target _
  | carried => exact ho.congr rfl
  | closed session now => exact ho.congr (closed_tables s session now).2.2
  | flushed => exact ho.congr rfl

theorem OneTarget.length_le (ho : OneTarget s) (hb : Booked s) :
    s.relayTargets.entries.length ≤ s.workers.entries.length := by
  have hnodup : (s.relayTargets.entries.map fun e => e.2.nodeId).Nodup := by
    apply List.Nodup.map_on
    · rintro ⟨x, t⟩ hx ⟨x', t'⟩ hx' hsame
      have ht := (Table.mem_entries_iff s.relayTargets x t).mp hx
      have ht' := (Table.mem_entries_iff s.relayTargets x' t').mp hx'
      obtain rfl := ho x x' t t' ht ht' hsame
      obtain rfl : t = t' := Option.some.inj (ht.symm.trans ht')
      rfl
    · exact s.relayTargets.nodupKeys.nodup
  have hsub : (s.relayTargets.entries.map fun e => e.2.nodeId) ⊆ s.workers.entries.map Sigma.fst := by
    intro id hid
    obtain ⟨⟨x, t⟩, hx, rfl⟩ := List.mem_map.mp hid
    have ht := (Table.mem_entries_iff s.relayTargets x t).mp hx
    obtain ⟨w, hw⟩ := Option.isSome_iff_exists.mp (hb.held _ _ (hb.assigned x t ht))
    exact List.mem_map.mpr ⟨_, (Table.mem_entries_iff s.workers t.nodeId w).mpr hw, rfl⟩
  have hle := (hnodup.subperm hsub).length_le
  simpa using hle

theorem Booked.freed (hb : Booked s) {now : ℕ} {port : ℕ}
    (hstale : s.staleWorker now id = true) (hport : s.ports.lookup id = some port) (id' : WorkerId) :
    (s.liveWorkers now).1.ports.lookup id' ≠ some port := by
  intro h
  have hkept : (s.ports.lookup id').filter (fun _ => !s.staleWorker now id') = some port :=
    (lookup_evict_ports s now id').symm.trans h
  rw [Option.filter_eq_some_iff] at hkept
  obtain rfl := hb.distinct id id' port hport hkept.1
  simp [hstale] at hkept

theorem books_bounded (cfg : Config) (as : List Action) (s : State)
    (hrun : runs (step cfg) State.empty as = some s) :
    (∀ id port, s.ports.lookup id = some port →
      (portBase ≤ port ∧ port < portBase + portSpan) ∧ (s.workers.lookup id).isSome = true) ∧
    (∀ id id' port, s.ports.lookup id = some port → s.ports.lookup id' = some port → id = id') ∧
    (∀ session t, s.relayTargets.lookup session = some t → s.ports.lookup t.nodeId = some t.port) ∧
    (∀ now id port, s.staleWorker now id = true → s.ports.lookup id = some port →
      ∀ id', (s.liveWorkers now).1.ports.lookup id' ≠ some port) ∧
    (Along (step cfg) (fun s a => sessionKept s a = true) State.empty as →
      s.relayTargets.entries.length ≤ s.workers.entries.length ∧
      ∀ now, (s.liveWorkers now).1.relayTargets.entries.length ≤ (s.liveWorkers now).2.length) := by
  have hb : Booked s :=
    runs_invariant (P := fun _ _ => True) (I := Booked)
      (fun s a s' _ hb h => hb.move (step_move h)) (along_of_forall (fun _ _ => trivial) _ as) hrun
      Booked.empty
  refine ⟨fun id port h => ⟨hb.span id port h, hb.held id port h⟩, hb.distinct, hb.assigned,
    fun now id port hstale hport => hb.freed hstale hport, fun hkept => ?_⟩
  have ho : OneTarget s :=
    runs_invariant (I := OneTarget) (fun s a s' hk ho h => ho.move hk (step_move h)) hkept hrun
      OneTarget.empty
  refine ⟨ho.length_le hb, fun now => ?_⟩
  have hlive := (ho.evict now).length_le (hb.evict now)
  simpa [State.liveWorkers] using hlive

def sampleConfig : Config := ⟨[⟨"m", "m", 8, 4, 2, [3]⟩], 2, 1⟩

def sampleBody (id : WorkerId) (url : String) (owner : Wallet) : CoverageBody :=
  ⟨id, "m", [[some 3, some 0, some 2]], url, owner, Platform.unsaid⟩

/-- Two wallets report a worker each, and the first one reports again. -/
def twoReporters : List Action :=
  [.coverage (.node "W") true (sampleBody "w1" "relay:a" "W") 1000,
    .coverage (.node "V") true (sampleBody "w2" "relay:b" "V") 2000,
    .coverage (.node "W") true (sampleBody "w1" "relay:a" "W") 3000]

theorem books_bounded_two :
    ∃ s, runs (step sampleConfig) State.empty twoReporters = some s ∧
      s.ports.lookup "w1" = some 52970 ∧ s.ports.lookup "w2" = some 52971 ∧
      s.relayTargets.entries.length ≤ s.workers.entries.length ∧
      ∀ id, (s.liveWorkers 122500).1.ports.lookup id ≠ some 52971 := by
  obtain ⟨s, hrun, hp⟩ := runs_exists (step sampleConfig) State.empty twoReporters
    (fun s => decide (s.ports.lookup "w1" = some 52970 ∧ s.ports.lookup "w2" = some 52971 ∧
      s.staleWorker 122500 "w2" = true)) (by decide +kernel)
  obtain ⟨h1, h2, hstale⟩ := of_decide_eq_true hp
  obtain ⟨-, -, -, hfreed, hcount⟩ := books_bounded sampleConfig twoReporters s hrun
  exact ⟨s, hrun, h1, h2, (hcount (by decide +kernel)).1, hfreed 122500 "w2" 52971 hstale h2⟩

/-- One worker, reported under two session names. -/
def renamedSession : List Action :=
  [.coverage (.node "W") true (sampleBody "w1" "relay:a" "W") 1000,
    .coverage (.node "W") true (sampleBody "w1" "relay:b" "W") 2000]

theorem renamed_session_overbooks :
    ∃ s, runs (step sampleConfig) State.empty renamedSession = some s ∧
      (s.liveWorkers 2000).2.length = 1 ∧
      (s.liveWorkers 2000).1.relayTargets.entries.length = 2 ∧
      ¬ (s.liveWorkers 2000).1.relayTargets.entries.length ≤ (s.liveWorkers 2000).2.length := by
  obtain ⟨s, hrun, hp⟩ := runs_exists (step sampleConfig) State.empty renamedSession
    (fun s => decide ((s.liveWorkers 2000).2.length = 1 ∧
      (s.liveWorkers 2000).1.relayTargets.entries.length = 2)) (by decide +kernel)
  obtain ⟨hlive, htargets⟩ := of_decide_eq_true hp
  exact ⟨s, hrun, hlive, htargets, by omega⟩

end KvasirNet.Market
