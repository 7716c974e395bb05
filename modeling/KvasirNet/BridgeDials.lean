import KvasirNet.BridgeHolding

/-! The guard of an agent's connection slots: how many dials the bridge makes,
how close together, and how many connections they open. -/
namespace KvasirNet.Bridge

variable {cat : Catalog} {cfg : Config} {now : ℕ} {s s' : State} {action : Action} {a : Agent}

/-! ## What the log says of an agent -/

def Entry.agent : Entry → Agent
  | .dialed a _ | .failed a _ _ | .opened a => a

/-- When the bridge dialled the agent, oldest first. -/
def dialTimes (a : Agent) (log : List Entry) : List ℕ :=
  log.filterMap fun
    | .dialed b t => if b = a then some t else none
    | _ => none

/-- How many TCP connections to the agent have opened. -/
def openings (a : Agent) (log : List Entry) : ℕ := log.count (.opened a)

/-- A dial that failed is followed by no dial before its backoff has passed. -/
def Spaced (a : Agent) (earlier later : Entry) : Prop :=
  ∀ f u t, earlier = .failed a f u → later = .dialed a t → f + backoffAt dialBackoffMs u ≤ t

variable {es : List Entry}

theorem dialTimes_append_other {log : List Entry} (h : ∀ t, .dialed a t ∉ es) :
    dialTimes a (log ++ es) = dialTimes a log := by
  have hnone : dialTimes a es = [] := by
    apply List.filterMap_eq_nil_iff.mpr
    intro e he
    cases e with
    | dialed b t =>
      have hne : b ≠ a := by
        rintro rfl
        exact h t he
      simp [hne]
    | failed | opened => rfl
  rw [dialTimes, List.filterMap_append]
  exact (congrArg _ hnone).trans (List.append_nil _)

theorem dialTimes_append_dialed (log : List Entry) (t : ℕ) :
    dialTimes a (log ++ [.dialed a t]) = dialTimes a log ++ [t] := by
  simp [dialTimes, List.filterMap_append]

/-! ## What a move does to a guard -/

/-- A call has an answer to its INSPECT of the agent and has not gone on yet. -/
def Replied (s : State) (a : Agent) : Prop :=
  ∃ (i : ℕ) (rest : List Agent) (k : ℕ), s.tasks[i]? = some (.replied a rest k)

/-- The guard of an agent after a move, and what the move adds to the log. -/
inductive GuardMove (cfg : Config) (now : ℕ) (s s' : State) (a : Agent) : List Entry → Guard → Prop
  | kept (es : List Entry) (other : ∀ e ∈ es, e.agent = a → e = .opened a) :
      GuardMove cfg now s s' a es (s.guardFor a)
  | refused (why : DialRefusal) (h : ((s.guardFor a).admitDial cfg now).2 = some why) :
      GuardMove cfg now s s' a [] ((s.guardFor a).admitDial cfg now).1
  | admitted (h : ((s.guardFor a).admitDial cfg now).2 = none) :
      GuardMove cfg now s s' a [.dialed a now] ((s.guardFor a).admitDial cfg now).1
  | unhealthy : GuardMove cfg now s s' a [] (s.guardFor a).unhealthy
  | failed (was : Pending s a) (settled : ¬Pending s' a) :
      GuardMove cfg now s s' a [.failed a now ((s.guardFor a).unproductive + 1)]
        ((s.guardFor a).noteUnproductive now)
  | steady (was : Replied s a) (gone : ¬Replied s' a) :
      GuardMove cfg now s s' a [] ((s.guardFor a).noteSteady now)

theorem not_replied_inspectDone (w : Wired s) {i : ℕ} {rest : List Agent} {k : ℕ}
    (task : s.tasks[i]? = some (.replied a rest k)) :
    ¬Replied (inspectDone now s i a rest) a := by
  rintro ⟨j, rest', k', hj⟩
  rcases getElem?_set_eq_some hj with ⟨-, hj⟩ | ⟨hne, hj⟩
  · cases hj
  · have hi := w.inspecting i _ a rest k task rfl
    have hj' := w.inspecting j _ a rest' k' hj rfl
    exact hne (Option.some.inj (hi.symm.trans hj'))

theorem not_pending_dialFailed (w : Wired s) {d : ℕ} {x : Dial} (dial : s.dials[d]? = some x)
    (phase : x.phase = .failed) : ¬Pending (dialFailed now s d x.agent) x.agent := by
  rintro ⟨e, y, hy, ha, hp⟩
  rcases getElem?_modify_eq_some hy with ⟨rfl, z, hz, rfl⟩ | ⟨hne, hy⟩
  · cases hp
  · have hd : InFlightAt s x.agent d := ⟨x, dial, rfl, by rw [phase]; rfl⟩
    have he : InFlightAt s x.agent e := ⟨y, hy, ha, DialPhase.inFlight_of_pending hp⟩
    exact hne (w.inFlight_unique hd he)

theorem Move.guard (w : Wired s) (h : Move cat cfg now s action s') (a : Agent) :
    ∃ es, s'.log = s.log ++ es ∧ GuardMove cfg now s s' a es (s'.guardFor a) := by
  -- a move that touches the guard of another agent only
  have hother : ∀ {b : Agent} {g : Guard} (es : List Entry), a ≠ b →
      (∀ e ∈ es, e.agent = b) →
      s'.guards = s.guards.insert b g → s'.log = s.log ++ es →
      ∃ es, s'.log = s.log ++ es ∧ GuardMove cfg now s s' a es (s'.guardFor a) := by
    intro b g es hab hes hguards hlog
    refine ⟨es, hlog, ?_⟩
    have hg : s'.guardFor a = s.guardFor a := by
      unfold State.guardFor
      rw [hguards, AList.lookup_insert_ne hab]
    rw [hg]
    exact .kept es fun e he ha => absurd (ha.symm.trans (hes e he)) hab
  have hself : ∀ {g : Guard} {es : List Entry}, GuardMove cfg now s s' a es g →
      s'.guards = s.guards.insert a g → s'.log = s.log ++ es →
      ∃ es, s'.log = s.log ++ es ∧ GuardMove cfg now s s' a es (s'.guardFor a) := by
    intro g es hmove hguards hlog
    refine ⟨es, hlog, ?_⟩
    have hg : s'.guardFor a = g := by
      unfold State.guardFor
      rw [hguards, AList.lookup_insert]
      rfl
    rw [hg]
    exact hmove
  cases h with
  | refresh | pipelineFor | pipelineKnown | turn | inspect | cache | releaseClients | finishSettled
  | releaseDone | helloAcked | fellBack | attemptFailed | dialSettled | protocolError
  | socketLost => exact ⟨[], (List.append_nil _).symm, .kept [] (by simp)⟩
  | refused _ i t t' b why task asks refuses =>
    by_cases hab : a = b
    · subst hab
      exact hself (.refused why refuses) rfl (List.append_nil _).symm
    · exact hother [] hab (by simp) rfl (List.append_nil _).symm
  | dial i t t' b task asks asked lost free running admits =>
    by_cases hab : a = b
    · subst hab
      exact hself (.admitted admits) rfl rfl
    · exact hother [.dialed b now] hab (by simp [Entry.agent]) rfl rfl
  | inspectDone i b rest k task =>
    by_cases hab : a = b
    · subst hab
      exact hself (.steady ⟨i, rest, k, task⟩ (not_replied_inspectDone w task)) rfl
        (List.append_nil _).symm
    · exact hother [] hab (by simp) rfl (List.append_nil _).symm
  | unreachable _ i t b =>
    by_cases hab : a = b
    · subst hab
      exact hself .unhealthy rfl (List.append_nil _).symm
    · exact hother [] hab (by simp) rfl (List.append_nil _).symm
  | socketOpened d x => exact ⟨[.opened x.agent], rfl, .kept _ (by simp [Entry.agent, eq_comm])⟩
  | dialSucceeded d x k =>
    by_cases hab : a = x.agent
    · subst hab
      exact hself .unhealthy rfl (List.append_nil _).symm
    · exact hother [] hab (by simp) rfl (List.append_nil _).symm
  | dialFailed d x dial phase =>
    by_cases hab : a = x.agent
    · subst hab
      have was : Pending s x.agent := ⟨d, x, dial, rfl, by rw [phase]; rfl⟩
      exact hself (.failed was (not_pending_dialFailed w dial phase)) rfl rfl
    · exact hother [.failed x.agent now _] hab (by simp [Entry.agent]) rfl rfl

/-! ## The caps -/

/-- The guard counts every dial of the agent and keeps both caps. -/
structure Slots (cfg : Config) (s : State) (a : Agent) : Prop where
  window : WindowKept hourMs cfg.dialHourlyCap s.clock (s.guardFor a).recent (dialTimes a s.log)
  spent : (s.guardFor a).spent = (dialTimes a s.log).length
  lifetime : (s.guardFor a).spent ≤ cfg.dialLifetimeCap

theorem slots_initial (cfg : Config) (a : Agent) : Slots cfg .initial a where
  window := WindowKept.empty _ _ _
  spent := rfl
  lifetime := Nat.zero_le _

theorem Slots.tick (h : Slots cfg s a) (hle : s.clock ≤ now) :
    Slots cfg { s with clock := now } a where
  window := h.window.later hle
  spent := h.spent
  lifetime := h.lifetime

variable {g : Guard}

theorem admitDial_eq_none (h : (g.admitDial cfg now).2 = none) :
    g.spent < cfg.dialLifetimeCap ∧ (inWindow hourMs now g.recent).length < cfg.dialHourlyCap ∧
      g.nextDialAt ≤ now ∧
      (g.admitDial cfg now).1 = { g with
        spent := g.spent + 1
        recent := inWindow hourMs now g.recent ++ [now]
        stoppedWhy := none } := by
  unfold Guard.admitDial at h ⊢
  dsimp only at h ⊢
  split_ifs at h with hlife hhour hwait
  simp only [hlife, hhour, hwait, if_false]
  exact ⟨by omega, by omega, by omega, trivial⟩

theorem admitDial_refused {why : DialRefusal} (h : (g.admitDial cfg now).2 = some why) :
    ∃ stopped, (g.admitDial cfg now).1 =
      { g with recent := inWindow hourMs now g.recent, stoppedWhy := stopped } := by
  unfold Guard.admitDial at h ⊢
  dsimp only at h ⊢
  split_ifs at h ⊢
  · exact ⟨_, rfl⟩
  · exact ⟨_, rfl⟩
  · exact ⟨_, rfl⟩

theorem noteSteady_spent (g : Guard) :
    (g.noteSteady now).spent = g.spent ∧ (g.noteSteady now).recent = g.recent := by
  unfold Guard.noteSteady
  split_ifs
  · exact ⟨rfl, rfl⟩
  · exact ⟨rfl, rfl⟩
  · exact ⟨rfl, rfl⟩

theorem Move.clock (h : Move cat cfg now s action s') : s'.clock = s.clock := by
  cases h <;> rfl

theorem Slots.move (h : Slots cfg s a) (w : Wired s) (hnow : s.clock = now)
    (m : Move cat cfg now s action s') : Slots cfg s' a := by
  obtain ⟨es, hlog, hguard⟩ := m.guard w a
  -- a move that neither dials the agent nor touches the two counts
  have hsame : (s'.guardFor a).recent = (s.guardFor a).recent →
      (s'.guardFor a).spent = (s.guardFor a).spent →
      dialTimes a s'.log = dialTimes a s.log → Slots cfg s' a := by
    intro hrecent hspent htimes
    refine ⟨?_, ?_, ?_⟩
    · rw [hrecent, htimes, m.clock]
      exact h.window
    · rw [hspent, htimes]
      exact h.spent
    · rw [hspent]
      exact h.lifetime
  generalize hg : s'.guardFor a = g' at hguard
  cases hguard with
  | kept _ other =>
    apply hsame
    · rw [hg]
    · rw [hg]
    · rw [hlog]
      exact dialTimes_append_other fun t ht => by cases other _ ht rfl
  | refused why hwhy =>
    obtain ⟨stopped, hadmits⟩ := admitDial_refused hwhy
    rw [hadmits] at hg
    rw [List.append_nil] at hlog
    refine ⟨?_, ?_, ?_⟩
    · rw [hg, hlog, m.clock, hnow]
      exact h.window.pruned hnow.le
    · rw [hg, hlog]
      exact h.spent
    · rw [hg]
      exact h.lifetime
  | admitted hnone =>
    obtain ⟨hlife, hhour, -, hadmits⟩ := admitDial_eq_none hnone
    rw [hadmits] at hg
    refine ⟨?_, ?_, ?_⟩
    · rw [hg, hlog, m.clock, hnow, dialTimes_append_dialed]
      exact h.window.admitted hnow.le hhour
    · rw [hg, hlog, dialTimes_append_dialed, List.length_append, ← h.spent]
      rfl
    · rw [hg]
      exact hlife
  | unhealthy =>
    rw [List.append_nil] at hlog
    apply hsame
    · rw [hg]
      rfl
    · rw [hg]
      rfl
    · rw [hlog]
  | failed =>
    apply hsame
    · rw [hg]
      rfl
    · rw [hg]
      rfl
    · rw [hlog]
      exact dialTimes_append_other fun t ht => by simp at ht
  | steady =>
    rw [List.append_nil] at hlog
    apply hsame
    · rw [hg]
      exact (noteSteady_spent _).2
    · rw [hg]
      exact (noteSteady_spent _).1
    · rw [hlog]

/-! ## The backoff -/

/-- The backoff of a failed dial is still running. -/
def Owed (s : State) (a : Agent) (f u : ℕ) : Prop :=
  .failed a f u ∈ s.log ∧ s.clock < f + backoffAt dialBackoffMs u

/-- While a backoff runs, the guard knows of it, and nothing can end it early: no
dial is pending, no client can answer an INSPECT, and the one answer that may
still be under way does not find the guard healthy. -/
structure Backoff (s : State) (a : Agent) : Prop where
  waits : ∀ f u, Owed s a f u →
    ¬Pending s a ∧ f + backoffAt dialBackoffMs u ≤ (s.guardFor a).nextDialAt
  quiet : ∀ f u, Owed s a f u → Idle s a ∧ ((s.guardFor a).healthySince = 0 ∨ ¬Replied s a)
  spaced : s.log.Pairwise (Spaced a)

theorem backoff_initial (a : Agent) : Backoff .initial a where
  waits _ _ h := nomatch h.1
  quiet _ _ h := nomatch h.1
  spaced := List.Pairwise.nil

theorem Backoff.tick (h : Backoff s a) (hle : s.clock ≤ now) :
    Backoff { s with clock := now } a where
  waits f u hf := h.waits f u ⟨hf.1, hle.trans_lt hf.2⟩
  quiet f u hf := h.quiet f u ⟨hf.1, hle.trans_lt hf.2⟩
  spaced := h.spaced

theorem Move.replied_from (w : Wired s) (h : Move cat cfg now s action s') (hr : Replied s' a) :
    Replied s a ∨ ∃ (k : ℕ) (c : Conn),
      s.conns[k]? = some c ∧ c.agent = a ∧ c.stored = true ∧ c.closed = false := by
  obtain ⟨i, rest, k, ht⟩ := hr
  have hold : s.tasks[i]? = some (.replied a rest k) → Replied s a := fun ht => ⟨i, rest, k, ht⟩
  cases h with
  | refresh | pipelineFor | pipelineKnown | releaseClients =>
    rcases getElem?_concat_eq_some ht with ⟨-, ht⟩ | ht
    · cases ht
    · exact Or.inl (hold ht)
  | turn _ j t t' task turn =>
    rcases getElem?_set_eq_some ht with ⟨-, ht⟩ | ⟨-, ht⟩
    · subst ht
      cases turn with
      | asked b on _ _ asks known => cases asks
      | replied _ _ _ live =>
        obtain ⟨c, hc, hagent, hstored⟩ := w.tasks j _ task
        exact Or.inr ⟨k, c, hc, hagent, hstored, by simpa [State.closedAt, hc] using live⟩
    · exact Or.inl (hold ht)
  | refused _ j t t' b why task asks =>
    rcases getElem?_set_eq_some ht with ⟨-, ht⟩ | ⟨-, ht⟩
    · subst ht
      cases asks
    · exact Or.inl (hold ht)
  | dial j t t' b task asks =>
    rcases getElem?_set_eq_some ht with ⟨-, ht⟩ | ⟨-, ht⟩
    · subst ht
      cases asks
    · exact Or.inl (hold ht)
  | inspect | inspectDone | unreachable | cache | finishSettled | releaseDone =>
    rcases getElem?_set_eq_some ht with ⟨-, ht⟩ | ⟨-, ht⟩
    · cases ht
    · exact Or.inl (hold ht)
  | socketOpened | helloAcked | fellBack | attemptFailed | dialSucceeded | dialFailed | dialSettled
  | protocolError | socketLost => exact Or.inl (hold ht)

theorem Backoff.not_pending (h : Backoff s a) (hnow : s.clock = now)
    (m : Move cat cfg now s action s') {f u : ℕ} (hf : Owed s a f u) : ¬Pending s' a := by
  obtain ⟨hidle, hnext⟩ := h.waits f u hf
  intro hp
  rcases m.pending_from hp with hp | ⟨-, -, hadmits, -⟩
  · exact hidle hp
  · have hwait := (admitDial_eq_none hadmits).2.2.1
    have hrunning := hf.2
    omega

theorem Backoff.idle (h : Backoff s a) (w : Wired s) (m : Move cat cfg now s action s') {f u : ℕ}
    (hf : Owed s a f u) : Idle s' a := by
  intro k c' hk hagent' hstored
  by_contra hopen
  rw [Bool.not_eq_true] at hopen
  rcases m.stored_from w hk hstored hopen with ⟨c, hc, hagent, hst, hcl⟩ |
    ⟨d, x, hx, hphase, hagent, -⟩
  · have hclosed := (h.quiet f u hf).1 k c hc (hagent.trans hagent') hst
    exact absurd (hcl.symm.trans hclosed) (by simp)
  · exact (h.waits f u hf).1 ⟨d, x, hx, hagent.trans hagent', by rw [hphase]; rfl⟩

theorem Backoff.replied (h : Backoff s a) (w : Wired s) (m : Move cat cfg now s action s')
    {f u : ℕ} (hf : Owed s a f u) (hr : Replied s' a) : Replied s a := by
  rcases m.replied_from w hr with hr | ⟨k, c, hc, hagent, hstored, hopen⟩
  · exact hr
  · have hclosed := (h.quiet f u hf).1 k c hc hagent hstored
    exact absurd (hopen.symm.trans hclosed) (by simp)

theorem noteSteady_of_unset (h : g.healthySince = 0) :
    (g.noteSteady now).nextDialAt = g.nextDialAt := by
  simp [Guard.noteSteady, h]

theorem Backoff.move_owed (h : Backoff s a) (w : Wired s) (hnow : s.clock = now)
    (m : Move cat cfg now s action s') {f u : ℕ} (hf : Owed s a f u) :
    f + backoffAt dialBackoffMs u ≤ (s'.guardFor a).nextDialAt ∧
      ((s'.guardFor a).healthySince = 0 ∨ ¬Replied s' a) := by
  obtain ⟨hnot, hnext⟩ := h.waits f u hf
  have hquiet := (h.quiet f u hf).2
  obtain ⟨es, -, hguard⟩ := m.guard w a
  generalize hg : s'.guardFor a = g' at hguard
  have hkept : (s.guardFor a).healthySince = 0 ∨ ¬Replied s' a :=
    hquiet.imp_right fun hno hr => hno (h.replied w m hf hr)
  cases hguard with
  | kept => exact ⟨hnext, hkept⟩
  | refused why hwhy =>
    obtain ⟨stopped, hadmits⟩ := admitDial_refused hwhy
    rw [hadmits]
    exact ⟨hnext, hkept⟩
  | admitted hnone =>
    -- the guard admits no dial before its `nextDialAt`
    have hwait := (admitDial_eq_none hnone).2.2.1
    have hrunning := hf.2
    omega
  | unhealthy => exact ⟨hnext, Or.inl rfl⟩
  | failed was => exact absurd was hnot
  | steady was gone =>
    have hunset : (s.guardFor a).healthySince = 0 := hquiet.resolve_right fun hno => hno was
    rw [noteSteady_of_unset hunset]
    exact ⟨hnext, Or.inr gone⟩

theorem idle_of_failed (w : Wired s) (hd : Holds s) (m : Move cat cfg now s action s')
    (hlog : s'.log = s.log ++ es) (hes : es ≠ []) (hp : Pending s a) :
    Idle s' a := by
  intro k c' hk hagent' hstored
  by_contra hopen
  rw [Bool.not_eq_true] at hopen
  rcases m.stored_from w hk hstored hopen with ⟨c, hc, hagent, hst, hcl⟩ | ⟨d, x, -, -, -, rfl⟩
  · have hclosed := hd.idle a hp k c hc (hagent.trans hagent') hst
    exact absurd (hcl.symm.trans hclosed) (by simp)
  · exact hes (List.self_eq_append_right.mp hlog)

theorem GuardMove.spaced (h : GuardMove cfg now s s' a es g) :
    es.Pairwise (Spaced a) := by
  cases h with
  | kept _ other =>
    apply List.pairwise_of_forall_mem_list
    intro earlier hearlier later _ f u t he
    subst he
    cases other _ hearlier rfl
  | refused | unhealthy | steady => exact List.Pairwise.nil
  | admitted | failed => exact List.pairwise_singleton _ _

theorem Backoff.spaced_admitted (h : Backoff s a) (hnow : s.clock = now)
    (hguard : GuardMove cfg now s s' a es g) {earlier later : Entry}
    (hearlier : earlier ∈ s.log) (hlater : later ∈ es) : Spaced a earlier later := by
  rintro f u t rfl rfl
  cases hguard with
  | kept _ other => cases other _ hlater rfl
  | refused | unhealthy | steady => cases hlater
  | failed => simp at hlater
  | admitted hnone =>
    obtain rfl : t = now := by simpa using hlater
    have hwait := (admitDial_eq_none hnone).2.2.1
    by_contra hrun
    have hnext := (h.waits f u ⟨hearlier, by omega⟩).2
    omega

theorem Backoff.move (h : Backoff s a) (w : Wired s) (hd : Holds s) (hnow : s.clock = now)
    (m : Move cat cfg now s action s') : Backoff s' a := by
  obtain ⟨es, hlog, hguard⟩ := m.guard w a
  have hclock := m.clock
  -- a failure in the log is an old one, or the move has just noted it
  have hcases : ∀ f u, Owed s' a f u → Owed s a f u ∨
      (.failed a f u ∈ es ∧ Pending s a ∧ ¬Pending s' a ∧
        f + backoffAt dialBackoffMs u ≤ (s'.guardFor a).nextDialAt ∧
        (s'.guardFor a).healthySince = 0) := by
    rintro f u ⟨hmem, hrun⟩
    rw [hlog] at hmem
    rw [hclock] at hrun
    rcases List.mem_append.mp hmem with hmem | hmem
    · exact Or.inl ⟨hmem, hrun⟩
    · right
      generalize hg : s'.guardFor a = g' at hguard ⊢
      cases hguard with
      | kept _ other => cases other _ hmem rfl
      | refused | unhealthy | steady => cases hmem
      | admitted => simp at hmem
      | failed was settled =>
        obtain ⟨rfl, rfl⟩ : f = now ∧ u = (s.guardFor a).unproductive + 1 := by simpa using hmem
        exact ⟨hmem, was, settled, le_rfl, rfl⟩
  refine ⟨fun f u hf => ?_, fun f u hf => ?_, ?_⟩
  · rcases hcases f u hf with hf | ⟨-, -, hnot, hnext, -⟩
    · exact ⟨h.not_pending hnow m hf, (h.move_owed w hnow m hf).1⟩
    · exact ⟨hnot, hnext⟩
  · rcases hcases f u hf with hf | ⟨hmem, hpend, -, -, hunset⟩
    · exact ⟨h.idle w m hf, (h.move_owed w hnow m hf).2⟩
    · refine ⟨?_, Or.inl hunset⟩
      exact idle_of_failed w hd m hlog (List.ne_nil_of_mem hmem) hpend
  · rw [hlog]
    exact List.pairwise_append.mpr ⟨h.spaced, hguard.spaced, fun earlier he later hl =>
      h.spaced_admitted hnow hguard he hl⟩

/-! ## The connections that open -/

def DialPhase.attempting : DialPhase → Bool
  | .attempt _ _ => true
  | _ => false

/-- The dial has opened no socket yet, and may still open one. -/
def Dial.unopened (x : Dial) : Bool := !x.opened && x.phase.attempting

/-- No dial opens a second socket: `wire.connect` falls back to bare events only
when the socket of its first attempt never opened. -/
def opensOnce (s : State) (e : Event) : Bool :=
  match e.action with
  | .socketOpened d => (s.dials[d]?).all fun x => !x.opened
  | _ => true

/-- Every connection that opened has its slot, and so has the dial that may still
open one. -/
structure Counted (s : State) (a : Agent) : Prop where
  opened : openings a s.log ≤ (s.guardFor a).spent
  reserved : ∀ (d : ℕ) (x : Dial), s.dials[d]? = some x → x.agent = a → x.unopened = true →
    openings a s.log < (s.guardFor a).spent

theorem DialPhase.inFlight_of_attempting {p : DialPhase} (h : p.attempting = true) :
    p.inFlight = true := by
  cases p with
  | attempt => rfl
  | resolved | failed | stored | noted | done => cases h

theorem counted_initial (a : Agent) : Counted .initial a where
  opened := Nat.zero_le _
  reserved d x h := by simp [State.initial] at h

theorem GuardMove.spent_le (h : GuardMove cfg now s s' a es g) :
    (s.guardFor a).spent ≤ g.spent := by
  cases h with
  | kept | unhealthy | failed => exact le_rfl
  | refused why hwhy =>
    obtain ⟨stopped, hadmits⟩ := admitDial_refused hwhy
    rw [hadmits]
  | admitted hnone =>
    rw [(admitDial_eq_none hnone).2.2.2]
    exact Nat.le_succ _
  | steady => exact (noteSteady_spent _).1.ge

theorem openings_append (log : List Entry) (e : Entry) :
    openings a (log ++ [e]) = openings a log + if e = .opened a then 1 else 0 := by
  unfold openings
  rw [List.count_append, List.count_singleton]
  simp only [beq_iff_eq]

theorem unopened_modify {d e : ℕ} {x x' : Dial} {f : Dial → Dial} (dial : s.dials[d]? = some x)
    (hf : (f x).unopened = true → x.unopened = true) (hagent : (f x).agent = x.agent)
    (hx' : (s.dials.modify d f)[e]? = some x') (hu : x'.unopened = true) :
    ∃ y, s.dials[e]? = some y ∧ y.agent = x'.agent ∧ y.unopened = true := by
  rcases getElem?_modify_eq_some hx' with ⟨rfl, y, hy, rfl⟩ | ⟨-, hx'⟩
  · obtain rfl : y = x := Option.some.inj (hy.symm.trans dial)
    exact ⟨y, hy, hagent.symm, hf hu⟩
  · exact ⟨x', hx', rfl, hu⟩

theorem Counted.move {e : Event} (h : Counted s a) (w : Wired s) (honce : opensOnce s e = true)
    (m : Move cat cfg e.now s e.action s') : Counted s' a := by
  obtain ⟨es, -, hguard⟩ := m.guard w a
  have hspent := hguard.spent_le
  have hrest : openings a s'.log = openings a s.log →
      (∀ (d : ℕ) (x' : Dial), s'.dials[d]? = some x' → x'.unopened = true →
        ∃ x, s.dials[d]? = some x ∧ x.agent = x'.agent ∧ x.unopened = true) → Counted s' a := by
    intro hopen hfrom
    refine ⟨?_, ?_⟩
    · rw [hopen]
      exact h.opened.trans hspent
    · intro d x' hx' ha hu
      obtain ⟨x, hx, hagent, hux⟩ := hfrom d x' hx' hu
      rw [hopen]
      exact (h.reserved d x hx (hagent.trans ha) hux).trans_le hspent
  generalize haction : e.action = action at m
  cases m with
  | refresh | pipelineFor | pipelineKnown | turn | refused | inspect | inspectDone | unreachable
  | cache | releaseClients | finishSettled | releaseDone | protocolError | socketLost =>
    exact hrest rfl fun d x hx hu => ⟨x, hx, rfl, hu⟩
  | dial i t t' b task asks asked lost free running admits =>
    generalize hg : ((s.guardFor b).admitDial cfg e.now).1 = g at hguard hspent hrest ⊢
    have hopen : openings a ((dial cfg e.now (s.setGuard b g) b).setTask i t').log =
        openings a s.log := (openings_append s.log _).trans (by simp)
    by_cases hab : a = b
    · -- the new dial has just been given a slot of its own
      subst hab
      have hmore : (((dial cfg e.now (s.setGuard a g) a).setTask i t').guardFor a).spent =
          (s.guardFor a).spent + 1 := by
        rw [(admitDial_eq_none admits).2.2.2] at hg
        simp [State.guardFor, State.setTask, State.setGuard, dial, ← hg]
      have hle := h.opened
      refine ⟨?_, fun d x' _ _ _ => ?_⟩
      · rw [hopen, hmore]
        omega
      · rw [hopen, hmore]
        omega
    · refine ⟨hopen ▸ h.opened.trans hspent, fun d x' hx' ha hu => ?_⟩
      rcases getElem?_concat_eq_some hx' with ⟨-, rfl⟩ | hx'
      · exact absurd ha.symm hab
      · exact hopen ▸ (h.reserved d x' hx' ha hu).trans_le hspent
  | socketOpened d x k fallback c dial phase conn socket =>
    have hfresh : x.opened = false := by simpa [opensOnce, haction, dial] using honce
    have hunopened : x.unopened = true := by simp [Dial.unopened, DialPhase.attempting, hfresh, phase]
    have hfrom : ∀ (d' : ℕ) (x' : Dial),
        (socketOpened s d x.agent k fallback c).dials[d']? = some x' → x'.unopened = true →
          d' ≠ d ∧ s.dials[d']? = some x' := by
      intro d' x' hx' hu
      rcases getElem?_modify_eq_some hx' with ⟨rfl, y, hy, rfl⟩ | ⟨hne, hx'⟩
      · simp [Dial.unopened] at hu
      · exact ⟨hne.symm, hx'⟩
    by_cases ha : x.agent = a
    · have hroom := h.reserved d x dial ha hunopened
      have hopen : openings a (socketOpened s d x.agent k fallback c).log = openings a s.log + 1 :=
        (openings_append s.log _).trans (by simp [ha])
      refine ⟨hopen ▸ Nat.succ_le_of_lt (hroom.trans_le hspent), fun d' x' hx' ha' hu => ?_⟩
      -- another dial of the agent would be in flight beside this one
      obtain ⟨hne, hx'⟩ := hfrom d' x' hx' hu
      have hattempt : x'.phase.attempting = true := (Bool.and_eq_true_iff.mp hu).2
      have hflight : InFlightAt s a d := ⟨x, dial, ha, by rw [phase]; rfl⟩
      have hflight' : InFlightAt s a d' := ⟨x', hx', ha', DialPhase.inFlight_of_attempting hattempt⟩
      exact absurd (w.inFlight_unique hflight' hflight) hne
    · have hopen : openings a (socketOpened s d x.agent k fallback c).log = openings a s.log :=
        (openings_append s.log _).trans (by simp [ha])
      exact hrest hopen fun d' x' hx' hu => ⟨x', (hfrom d' x' hx' hu).2, rfl, hu⟩
  | fellBack d x k c why dial phase =>
    refine hrest rfl fun d' x' hx' hu => unopened_modify dial (fun h => ?_) rfl hx' hu
    simpa [Dial.unopened, DialPhase.attempting, phase] using h
  | helloAcked d x k fallback c dial phase | attemptFailed d x k fallback c why dial phase
  | dialSucceeded d x k dial phase | dialSettled d x result dial phase =>
    refine hrest rfl fun d' x' hx' hu => unopened_modify dial (fun h => ?_) rfl hx' hu
    simp [Dial.unopened, DialPhase.attempting] at h
  | dialFailed d x dial phase =>
    have hopen := openings_append (a := a) s.log
      (.failed x.agent e.now ((s.guardFor x.agent).noteUnproductive e.now).unproductive)
    refine hrest (hopen.trans (by simp)) fun d' x' hx' hu =>
      unopened_modify dial (fun h => ?_) rfl hx' hu
    simp [Dial.unopened, DialPhase.attempting] at h

/-! ## Every run -/

/-- What every run keeps, whatever the dials come to. -/
structure Guarded (cfg : Config) (s : State) : Prop where
  wired : Wired s
  holds : Holds s
  slots : ∀ a, Slots cfg s a
  backoff : ∀ a, Backoff s a

theorem guarded_initial (cfg : Config) : Guarded cfg .initial where
  wired := wired_initial
  holds := holds_initial
  slots := slots_initial cfg
  backoff := backoff_initial

theorem Guarded.step {e : Event} (h : Guarded cfg s) (hs : step cat cfg s e = some s') :
    Guarded cfg s' := by
  obtain ⟨hle, m⟩ := step_move hs
  have w := h.wired.tick e.now
  have hd := h.holds.tick e.now
  exact ⟨w.move m, hd.move w m, fun a => ((h.slots a).tick hle).move w rfl m,
    fun a => ((h.backoff a).tick hle).move w hd rfl m⟩

theorem guarded_run {es : List Event} (h : runs (step cat cfg) .initial es = some s) :
    Guarded cfg s :=
  runs_invariant (P := fun _ _ => True) (fun _ _ _ _ hi hs => hi.step hs)
    (along_of_forall (fun _ _ => trivial) _ es) h (guarded_initial cfg)

theorem counted_run {es : List Event}
    (honce : Along (step cat cfg) (fun s e => opensOnce s e = true) .initial es)
    (h : runs (step cat cfg) .initial es = some s) (a : Agent) : Counted s a := by
  have hrun := runs_invariant (I := fun s => Wired s ∧ Counted s a)
    (fun s e s' honce hi hs => ?_) honce h ⟨wired_initial, counted_initial a⟩
  · exact hrun.2
  · obtain ⟨-, m⟩ := step_move hs
    have w := hi.1.tick e.now
    have hc : Counted { s with clock := e.now } a := ⟨hi.2.opened, hi.2.reserved⟩
    exact ⟨w.move m, hc.move w honce m⟩

/-- The bridge keeps the limits on an agent's connection slots in every run: one
dial at a time, the hourly and the lifetime cap, and the backoff after a failed
dial. The slots it counts cover the connections that opened as long as no dial
opens two sockets. -/
theorem dial_limits {es : List Event} (h : runs (step cat cfg) .initial es = some s) (a : Agent) :
    (∀ d e, InFlightAt s a d → InFlightAt s a e → d = e) ∧
    (∀ start, (windowFrom hourMs start (dialTimes a s.log)).length ≤ cfg.dialHourlyCap) ∧
    (dialTimes a s.log).length ≤ cfg.dialLifetimeCap ∧
    s.log.Pairwise (Spaced a) ∧
    (Along (step cat cfg) (fun s e => opensOnce s e = true) .initial es →
      openings a s.log ≤ (s.guardFor a).spent) := by
  have hg := guarded_run h
  refine ⟨fun d e hd he => hg.wired.inFlight_unique hd he, (hg.slots a).window.capped, ?_,
    (hg.backoff a).spaced, fun honce => (counted_run honce h a).opened⟩
  rw [← (hg.slots a).spent]
  exact (hg.slots a).lifetime

theorem dial_limits_connected :
    ∃ s, runs (step loneCatalog defaultConfig) .initial
        [⟨1, .refresh⟩, ⟨1, .advance 0⟩, ⟨2, .socketOpened 0⟩] = some s ∧
      openings "a" s.log = 1 ∧ openings "a" s.log ≤ (s.guardFor "a").spent := by
  obtain ⟨s, hs, hp⟩ := runs_exists (step loneCatalog defaultConfig) .initial
    [⟨1, .refresh⟩, ⟨1, .advance 0⟩, ⟨2, .socketOpened 0⟩]
    (fun s => decide (openings "a" s.log = 1)) (by decide +kernel)
  refine ⟨s, hs, of_decide_eq_true hp, ?_⟩
  exact (dial_limits hs "a").2.2.2.2 (by decide +kernel)

def hopConfig : Config := { defaultConfig with hop := true }

/-- The agent accepts the socket and answers the hello by closing it; the second
attempt, without hop framing, is accepted too. -/
def refusedHello : List Event :=
  [⟨1, .refresh⟩, ⟨1, .advance 0⟩, ⟨2, .socketOpened 0⟩, ⟨3, .attemptFailed 0 .network⟩,
    ⟨4, .socketOpened 0⟩]

/-- Two connections opened for one slot. -/
theorem dial_opens_twice :
    ∃ s, runs (step loneCatalog hopConfig) .initial refusedHello = some s ∧
      ¬openings "a" s.log ≤ (s.guardFor "a").spent := by
  obtain ⟨s, hs, hp⟩ := runs_exists (step loneCatalog hopConfig) .initial refusedHello
    (fun s => decide ((s.guardFor "a").spent < openings "a" s.log)) (by decide +kernel)
  exact ⟨s, hs, Nat.not_le.mpr (of_decide_eq_true hp)⟩

end KvasirNet.Bridge
