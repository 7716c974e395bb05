import KvasirNet.BridgeWiring

/-! Cached pipelines. A pipeline's session lives on the connections it was
installed over, so an entry of the cache is good only while `clients` still holds
exactly these for the agents of the model. -/
namespace KvasirNet.Bridge

variable {cat : Catalog} {cfg : Config} {now : ℕ} {s s' : State} {action : Action}

/-- The session runs over the clients that `clients` holds for the model's stages. -/
def OverCurrent (s : State) (m : Model) (used : Used) : Prop :=
  used.map (fun u => (u.1, some u.2)) =
    m.stages.map fun st => (st.agent, s.clients.lookup st.agent)

/-- The model a call of `pipelineFor` is for. -/
def Task.model : Task → Option Model
  | .pipeline m _ | .pipelineAwait m _ _ | .installing m _ _ | .installed m _ => some m
  | _ => none

/-- The session a call of `pipelineFor` has opened and not cached yet. -/
def Task.session : Task → Option (Model × Used)
  | .installing m used _ | .installed m used => some (m, used)
  | _ => none

/-- Some call is installing a session that spans the agent. -/
def State.installsOver (s : State) (a : Agent) : Bool :=
  s.tasks.any fun t => t.session.any fun p => p.1.spans a

/-- The step changes no agent's client while a session that spans the agent is
being installed. -/
def undisturbed (s : State) (e : Event) : Bool :=
  match e.action with
  | .dialHandled d =>
    (s.dials[d]?).all fun x =>
      match x.phase with
      | .resolved _ => !s.installsOver x.agent
      | _ => true
  | .releaseDone _ => s.tasks.all fun t => t.session.isNone
  | action =>
    (unreached s action).all fun a =>
      !((s.clients.lookup a).isSome && (s.openClient a).isNone && s.installsOver a)

/-! ## Sessions and clients -/

variable {m : Model} {used : Used}

theorem OverCurrent.congr (h : OverCurrent s m used)
    (hs : ∀ st ∈ m.stages, s'.clients.lookup st.agent = s.clients.lookup st.agent) :
    OverCurrent s' m used := by
  unfold OverCurrent at h ⊢
  rw [h]
  apply List.map_congr_left
  intro st hst
  rw [hs st hst]

theorem spans_of_mem {st : Stage} (h : st ∈ m.stages) : m.spans st.agent = true :=
  List.any_eq_true.mpr ⟨st, h, by simp⟩

variable {a : Agent}

theorem OverCurrent.of_not_spans (h : OverCurrent s m used)
    (hm : m.spans a = false) (hs : ∀ b, b ≠ a → s'.clients.lookup b = s.clients.lookup b) :
    OverCurrent s' m used := by
  refine h.congr fun st hst => hs _ ?_
  rintro rfl
  exact absurd ((spans_of_mem hst).symm.trans hm) (by simp)

theorem sessionClients_map {stages : List Stage}
    (h : sessionClients s stages = some used) :
    used.map (fun u => (u.1, some u.2)) =
      stages.map fun st => (st.agent, s.clients.lookup st.agent) := by
  induction stages generalizing used with
  | nil =>
    cases h
    rfl
  | cons st rest ih =>
    unfold sessionClients at h
    split at h
    · rename_i k used' hk hrest
      split_ifs at h
      cases h
      rw [List.map_cons, List.map_cons, ih hrest, hk]
    · cases h

variable {t : Task}

theorem not_spans_of_installs {i : ℕ}
    (h : s.installsOver a = false) (ht : s.tasks[i]? = some t)
    (hs : t.session = some (m, used)) : m.spans a = false := by
  cases hm : m.spans a with
  | false => rfl
  | true =>
    have hany : s.installsOver a = true :=
      List.any_eq_true.mpr ⟨t, List.mem_of_getElem? ht, by simp [hs, hm]⟩
    exact absurd (hany.symm.trans h) (by simp)

/-! ## What a move does to sessions, models and the cache -/

theorem Asks.model {on : Wait} {t' : Task} (h : Asks a on t t') :
    t'.model = t.model ∧ t'.session = none := by
  cases h <;> exact ⟨rfl, rfl⟩

theorem Turn.model {t' : Task} (h : Turn s t t') (hm : t'.model = some m) :
    t.model = some m := by
  cases h with
  | asked a on _ _ asks known => exact asks.model.1 ▸ hm
  | refreshed | skipped | taken | replied | gaveUp => cases hm
  | connected | install | ready | installed => exact hm

theorem Turn.session {t' : Task} (h : Turn s t t')
    (hm : t'.session = some (m, used)) : t.session = some (m, used) ∨ OverCurrent s m used := by
  cases h with
  | asked a on _ _ asks known => exact absurd (asks.model.2.symm.trans hm) (by simp)
  | refreshed | skipped | taken | replied | gaveUp | connected => cases hm
  | install _ _ clients =>
    cases hm
    exact Or.inr (sessionClients_map clients)
  | ready | installed => exact Or.inl hm

theorem Move.model_from (h : Move cat cfg now s action s') {i : ℕ}
    (ht : s'.tasks[i]? = some t) (hm : t.model = some m) :
    m ∈ cat.models ∨ ∃ (j : ℕ) (u : Task), s.tasks[j]? = some u ∧ u.model = some m := by
  have hold : s.tasks[i]? = some t →
      m ∈ cat.models ∨ ∃ (j : ℕ) (u : Task), s.tasks[j]? = some u ∧ u.model = some m :=
    fun ht => Or.inr ⟨i, t, ht, hm⟩
  cases h with
  | refresh | pipelineKnown | releaseClients =>
    rcases getElem?_concat_eq_some ht with ⟨-, rfl⟩ | ht
    · cases hm
    · exact hold ht
  | pipelineFor m' hm' =>
    rcases getElem?_concat_eq_some ht with ⟨-, rfl⟩ | ht
    · cases hm
      exact Or.inl hm'
    · exact hold ht
  | turn _ j u u' task turn =>
    rcases getElem?_set_eq_some ht with ⟨-, rfl⟩ | ⟨-, ht⟩
    · exact Or.inr ⟨j, u, task, turn.model hm⟩
    · exact hold ht
  | refused _ j u u' a why task asks | dial j u u' a task asks =>
    rcases getElem?_set_eq_some ht with ⟨-, rfl⟩ | ⟨-, ht⟩
    · exact Or.inr ⟨j, u, task, asks.model.1 ▸ hm⟩
    · exact hold ht
  | inspect | inspectDone | unreachable | cache | finishSettled | releaseDone =>
    rcases getElem?_set_eq_some ht with ⟨-, rfl⟩ | ⟨-, ht⟩
    · cases hm
    · exact hold ht
  | socketOpened | helloAcked | fellBack | attemptFailed | dialSucceeded | dialFailed | dialSettled
  | protocolError | socketLost => exact hold ht

theorem Move.session_from (h : Move cat cfg now s action s') {i : ℕ}
    (ht : s'.tasks[i]? = some t) (hm : t.session = some (m, used)) :
    (∃ (j : ℕ) (u : Task), s.tasks[j]? = some u ∧ u.session = some (m, used)) ∨
      OverCurrent s' m used := by
  have hold : s.tasks[i]? = some t →
      (∃ (j : ℕ) (u : Task), s.tasks[j]? = some u ∧ u.session = some (m, used)) ∨
        OverCurrent s' m used := fun ht => Or.inl ⟨i, t, ht, hm⟩
  cases h with
  | refresh | pipelineFor | pipelineKnown | releaseClients =>
    rcases getElem?_concat_eq_some ht with ⟨-, rfl⟩ | ht
    · cases hm
    · exact hold ht
  | turn _ j u u' task turn =>
    rcases getElem?_set_eq_some ht with ⟨-, rfl⟩ | ⟨-, ht⟩
    · exact (turn.session hm).imp_left fun hu => ⟨j, u, task, hu⟩
    · exact hold ht
  | refused _ j u u' a why task asks | dial j u u' a task asks =>
    rcases getElem?_set_eq_some ht with ⟨-, rfl⟩ | ⟨-, ht⟩
    · exact absurd (asks.model.2.symm.trans hm) (by simp)
    · exact hold ht
  | inspect | inspectDone | unreachable | cache | finishSettled | releaseDone =>
    rcases getElem?_set_eq_some ht with ⟨-, rfl⟩ | ⟨-, ht⟩
    · cases hm
    · exact hold ht
  | socketOpened | helloAcked | fellBack | attemptFailed | dialSucceeded | dialFailed | dialSettled
  | protocolError | socketLost => exact hold ht

theorem Move.pipeline_from (h : Move cat cfg now s action s') {id : String} {p : Pipeline}
    (hp : s'.pipelines.lookup id = some p) :
    s.pipelines.lookup id = some p ∨
      (s'.clients = s.clients ∧ p.model.id = id ∧
        ∃ i : ℕ, s.tasks[i]? = some (.installed p.model p.used)) := by
  cases h with
  | refresh | pipelineFor | pipelineKnown | turn | refused | dial | inspect | inspectDone
  | releaseClients | finishSettled | socketOpened | helloAcked | fellBack | attemptFailed
  | dialFailed | dialSettled | protocolError | socketLost => exact Or.inl hp
  | unreachable _ i t a rest inspecting probe pipelines clients conns missed task awaited left
      dropped => exact Or.inl (left id p hp).1
  | cache i m used task =>
    by_cases hid : id = m.id
    · subst hid
      obtain rfl : ⟨m, used⟩ = p := Option.some.inj ((AList.lookup_insert s.pipelines).symm.trans hp)
      exact Or.inr ⟨rfl, rfl, i, task⟩
    · exact Or.inl ((AList.lookup_insert_ne hid).symm.trans hp)
  | releaseDone => cases hp
  | dialSucceeded d x k =>
    exact Or.inl (lookup_deletePipelines (s := { s with
      clients := s.clients.insert x.agent k
      conns := s.conns.modify k fun c => { c with stored := true } }) hp).1

/-! ## The cache stays current -/

theorem installsOver_of_unreached {e : Event} {k : ℕ} (hu : undisturbed s e = true)
    (missed : unreached s e.action = some a) (hclient : s.clients.lookup a = some k)
    (hlost : s.openClient a = none) : s.installsOver a = false := by
  obtain ⟨now, action⟩ := e
  cases action with
  | resume i => simpa [undisturbed, missed, hclient, hlost] using hu
  | inspectFailed i => simpa [undisturbed, missed, hclient, hlost] using hu
  | _ => cases missed

/-- How a move changes `clients`: not at all, for one agent whose pipelines it
deletes, or for all agents when it empties the cache too. -/
theorem Move.clients_change {e : Event} (h : Move cat cfg e.now s e.action s')
    (hu : undisturbed s e = true) :
    (∀ a, s'.clients.lookup a = s.clients.lookup a) ∨
    (∃ a, (∀ b, b ≠ a → s'.clients.lookup b = s.clients.lookup b) ∧
      (∀ id p, s'.pipelines.lookup id = some p → ∀ m ∈ cat.models, m.spans a = true → m.id ≠ id) ∧
      s.installsOver a = false) ∨
    (s'.pipelines = ∅ ∧ ∀ t ∈ s.tasks, t.session = none) := by
  generalize haction : e.action = action at h
  cases h with
  | refresh | pipelineFor | pipelineKnown | turn | refused | dial | inspect | inspectDone | cache
  | releaseClients | finishSettled | socketOpened | helloAcked | fellBack | attemptFailed
  | dialFailed | dialSettled | protocolError | socketLost => exact Or.inl fun _ => rfl
  | unreachable _ i t a rest inspecting probe pipelines clients conns missed task awaited left
      dropped =>
    rcases dropped with ⟨rfl, -⟩ | ⟨hlost, rfl, -⟩
    · exact Or.inl fun _ => rfl
    · cases hclient : s.clients.lookup a with
      | none =>
        -- there was no client to drop
        left
        intro b
        by_cases hba : b = a
        · subst hba
          exact (AList.lookup_erase b s.clients).trans hclient.symm
        · exact AList.lookup_erase_ne hba
      | some k =>
        right
        left
        refine ⟨a, fun b hb => AList.lookup_erase_ne hb, fun id p hp => (left id p hp).2, ?_⟩
        exact installsOver_of_unreached hu (haction ▸ missed) hclient hlost
  | releaseDone i task =>
    right
    right
    refine ⟨rfl, fun t ht => ?_⟩
    simp only [undisturbed, haction, List.all_eq_true] at hu
    exact Option.isNone_iff_eq_none.mp (hu t ht)
  | dialSucceeded d x k dial phase =>
    right
    left
    refine ⟨x.agent, fun b hb => AList.lookup_insert_ne hb, fun id p hp => ?_, ?_⟩
    · exact (lookup_deletePipelines (s := { s with
        clients := s.clients.insert x.agent k
        conns := s.conns.modify k fun c => { c with stored := true } }) hp).2
    · simpa [undisturbed, haction, dial, phase] using hu

/-- The sessions being installed and the cached ones run over the current clients. -/
structure Fresh (cat : Catalog) (s : State) : Prop where
  models : ∀ (i : ℕ) (t : Task) (m : Model), s.tasks[i]? = some t → t.model = some m →
    m ∈ cat.models
  sessions : ∀ (i : ℕ) (t : Task) (m : Model) (used : Used), s.tasks[i]? = some t →
    t.session = some (m, used) → OverCurrent s m used
  pipelines : ∀ (id : String) (p : Pipeline), s.pipelines.lookup id = some p →
    p.model ∈ cat.models ∧ p.model.id = id ∧ OverCurrent s p.model p.used

theorem fresh_initial (cat : Catalog) : Fresh cat .initial where
  models i t m h := by simp [State.initial] at h
  sessions i t m used h := by simp [State.initial] at h
  pipelines id p h := by simp [State.initial] at h

theorem Fresh.move {e : Event} (h : Fresh cat s) (hu : undisturbed s e = true)
    (m : Move cat cfg e.now s e.action s') : Fresh cat s' := by
  have hchange := m.clients_change hu
  -- a session that a call is installing is over current clients after the move
  have hsession : ∀ (j : ℕ) (u : Task) (md : Model) (used : Used), s.tasks[j]? = some u →
      u.session = some (md, used) → OverCurrent s' md used := by
    intro j u md used hj hs
    have hold := h.sessions j u md used hj hs
    rcases hchange with hsame | ⟨a, hother, -, hfree⟩ | ⟨-, hnone⟩
    · exact hold.congr fun st _ => hsame st.agent
    · exact hold.of_not_spans (not_spans_of_installs hfree hj hs) hother
    · exact absurd ((hnone u (List.mem_of_getElem? hj)).symm.trans hs) (by simp)
  refine ⟨fun i t md ht hm => ?_, fun i t md used ht hs => ?_, fun id p hp => ?_⟩
  · rcases m.model_from ht hm with hmem | ⟨j, u, hj, hum⟩
    · exact hmem
    · exact h.models j u md hj hum
  · rcases m.session_from ht hs with ⟨j, u, hj, hus⟩ | hnew
    · exact hsession j u md used hj hus
    · exact hnew
  · rcases m.pipeline_from hp with hold | ⟨-, hid, i, hi⟩
    · obtain ⟨hmem, hid, hover⟩ := h.pipelines id p hold
      refine ⟨hmem, hid, ?_⟩
      rcases hchange with hsame | ⟨a, hother, hdeleted, -⟩ | ⟨hempty, -⟩
      · exact hover.congr fun st _ => hsame st.agent
      · have hspans : p.model.spans a = false := by
          cases hspans : p.model.spans a with
          | false => rfl
          | true => exact absurd hid (hdeleted id p hp p.model hmem hspans)
        exact hover.of_not_spans hspans hother
      · rw [hempty] at hp
        cases hp
    · exact ⟨h.models i _ p.model hi rfl, hid, hsession i _ p.model p.used hi rfl⟩

theorem Fresh.tick (h : Fresh cat s) (now : ℕ) : Fresh cat { s with clock := now } where
  models := h.models
  sessions := h.sessions
  pipelines := h.pipelines

/-- A cached pipeline belongs to the current connections, in every run in which no
agent's client changes while a session that spans the agent is being installed. -/
theorem pipelines_current {es : List Event}
    (hu : Along (step cat cfg) (fun s e => undisturbed s e = true) .initial es)
    (h : runs (step cat cfg) .initial es = some s) (id : String) (p : Pipeline)
    (hp : s.pipelines.lookup id = some p) :
    p.model ∈ cat.models ∧ p.model.id = id ∧
      p.used.map (fun u => (u.1, some u.2)) =
        p.model.stages.map fun st => (st.agent, s.clients.lookup st.agent) := by
  have hrun := runs_invariant (I := fun s => Fresh cat s) (fun s e s' hu hi hs => ?_) hu h
    (fresh_initial cat)
  · exact hrun.pipelines id p hp
  · obtain ⟨-, m⟩ := step_move hs
    have hu' : undisturbed { s with clock := e.now } e = true := hu
    exact (hi.tick e.now).move hu' m

/-- A model whose two stages run on two agents. -/
def twoStages : Model := ⟨"m", [⟨"a"⟩, ⟨"b"⟩]⟩

def twoAgents : Catalog := ⟨"a", [twoStages]⟩

/-- Both agents are connected and the session is being installed. -/
def installRun : List Event :=
  [⟨1, .pipelineFor twoStages⟩, ⟨1, .advance 0⟩, ⟨2, .socketOpened 0⟩, ⟨2, .dialHandled 0⟩,
    ⟨2, .dialSettled 0⟩, ⟨2, .resume 0⟩, ⟨2, .advance 0⟩, ⟨3, .socketOpened 1⟩,
    ⟨3, .dialHandled 1⟩, ⟨3, .dialSettled 1⟩, ⟨3, .resume 0⟩, ⟨3, .advance 0⟩,
    ⟨4, .sessionReady 0 0 (some "n1")⟩]

theorem pipelines_current_installed :
    ∃ s p, runs (step twoAgents defaultConfig) .initial
        (installRun ++ [⟨5, .sessionReady 0 1 (some "n2")⟩, ⟨5, .installed 0⟩]) = some s ∧
      s.pipelines.lookup "m" = some p ∧
      p.used.map (fun u => (u.1, some u.2)) =
        p.model.stages.map fun st => (st.agent, s.clients.lookup st.agent) := by
  obtain ⟨s, hs, hp⟩ := runs_exists (step twoAgents defaultConfig) .initial
    (installRun ++ [⟨5, .sessionReady 0 1 (some "n2")⟩, ⟨5, .installed 0⟩])
    (fun s : State => (s.pipelines.lookup "m").isSome) (by decide +kernel)
  obtain ⟨p, hp⟩ := Option.isSome_iff_exists.mp hp
  exact ⟨s, p, hs, hp, (pipelines_current (by decide +kernel) hs "m" p hp).2.2⟩

/-- The first agent's connection is lost and made again before the second stage
reports ready. -/
def reconnectRun : List Event :=
  installRun ++ [⟨5, .socketLost 0⟩, ⟨6, .refresh⟩, ⟨6, .advance 1⟩, ⟨7, .socketOpened 2⟩,
    ⟨7, .dialHandled 2⟩, ⟨8, .sessionReady 0 1 (some "n2")⟩, ⟨8, .installed 0⟩]

/-- The pipeline is cached with the session of the lost connection. -/
theorem pipelines_stale :
    ∃ s p, runs (step twoAgents defaultConfig) .initial reconnectRun = some s ∧
      s.pipelines.lookup "m" = some p ∧
      ¬p.used.map (fun u => (u.1, some u.2)) =
        p.model.stages.map fun st => (st.agent, s.clients.lookup st.agent) := by
  obtain ⟨s, hs, hp⟩ := runs_exists (step twoAgents defaultConfig) .initial reconnectRun
    (fun s : State => (s.pipelines.lookup "m").any fun p : Pipeline =>
      decide (¬p.used.map (fun u => (u.1, some u.2)) =
        p.model.stages.map fun st => (st.agent, s.clients.lookup st.agent))) (by decide +kernel)
  obtain ⟨p, hlook, hp⟩ := (Option.any_eq_true _ _).mp hp
  exact ⟨s, p, hs, hlook, of_decide_eq_true hp⟩

end KvasirNet.Bridge
