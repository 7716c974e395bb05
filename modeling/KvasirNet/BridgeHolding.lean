import KvasirNet.BridgeWiring

/-! Which clients may still be in use. While the bridge runs, a client that has
been stored and is not closed is the one `clients` holds for its agent; and while
an agent is being dialled, every client stored for it is closed. -/
namespace KvasirNet.Bridge

variable {cat : Catalog} {cfg : Config} {now : ℕ} {s s' : State} {action : Action}

/-- The dial has neither succeeded nor been noted as failed. -/
def DialPhase.pending : DialPhase → Bool
  | .attempt _ _ | .resolved _ | .failed => true
  | _ => false

theorem DialPhase.inFlight_of_pending {p : DialPhase} (h : p.pending = true) : p.inFlight = true := by
  cases p with
  | attempt | resolved | failed => rfl
  | stored | noted | done => cases h

/-- Every client ever stored for the agent is closed. -/
def Idle (s : State) (a : Agent) : Prop :=
  ∀ (k : ℕ) (c : Conn), s.conns[k]? = some c → c.agent = a → c.stored = true → c.closed = true

def Pending (s : State) (a : Agent) : Prop :=
  ∃ (d : ℕ) (x : Dial), s.dials[d]? = some x ∧ x.agent = a ∧ x.phase.pending = true

/-- A call of `releaseClients`. -/
def Task.releases : Task → Bool
  | .releasing _ | .released => true
  | _ => false

structure Holds (s : State) : Prop where
  held : s.stopping = false → ∀ (k : ℕ) (c : Conn), s.conns[k]? = some c → c.stored = true →
    c.closed = false → s.clients.lookup c.agent = some k
  idle : ∀ a, Pending s a → Idle s a
  releasing : ∀ (i : ℕ) (t : Task), s.tasks[i]? = some t → t.releases = true → s.stopping = true

theorem holds_initial : Holds .initial where
  held _ k c h := by simp [State.initial] at h
  idle a h := by
    obtain ⟨d, x, hx, -⟩ := h
    simp [State.initial] at hx
  releasing i t h := by simp [State.initial] at h

/-! ## What a move does to a client, to a dial and to the maps -/

theorem Move.stored_from (w : Wired s) (h : Move cat cfg now s action s') {k : ℕ} {c' : Conn}
    (hk : s'.conns[k]? = some c') (hstored : c'.stored = true) (hopen : c'.closed = false) :
    (∃ c, s.conns[k]? = some c ∧ c.agent = c'.agent ∧ c.stored = true ∧ c.closed = false) ∨
      ∃ (d : ℕ) (x : Dial), s.dials[d]? = some x ∧ x.phase = .resolved k ∧ x.agent = c'.agent ∧
        s' = Bridge.dialSucceeded cat s d x.agent k := by
  have hrewrite : ∀ {j : ℕ} {f : Conn → Conn}, (s.conns.modify j f)[k]? = some c' →
      (∀ c, (f c).agent = c.agent) → (∀ c, (f c).stored = true → c.stored = true) →
      (∀ c, (f c).closed = false → c.closed = false) →
        ∃ c, s.conns[k]? = some c ∧ c.agent = c'.agent ∧ c.stored = true ∧ c.closed = false := by
    intro j f hk hagent hst hcl
    rcases getElem?_modify_eq_some hk with ⟨rfl, c, hc, rfl⟩ | ⟨-, hk⟩
    · exact ⟨c, hc, (hagent c).symm, hst c hstored, hcl c hopen⟩
    · exact ⟨c', hk, rfl, hstored, hopen⟩
  have hfail : ∀ {j : ℕ} {closes : Bool},
      (s.conns.modify j fun c => c.connectFailed closes)[k]? = some c' →
        ∃ c, s.conns[k]? = some c ∧ c.agent = c'.agent ∧ c.stored = true ∧ c.closed = false := by
    intro j closes hk
    apply hrewrite hk
    · exact fun c => (c.later_connectFailed closes).agent
    · intro c
      unfold Conn.connectFailed
      split <;> exact id
    · intro c hc
      have hlater := (c.later_connectFailed closes).closed
      cases hclosed : c.closed with
      | false => rfl
      | true => exact absurd (hc.symm.trans (hlater hclosed)) (by simp)
  have hclose : ∀ {j : ℕ}, (s.conns.modify j Conn.close)[k]? = some c' →
      ∃ c, s.conns[k]? = some c ∧ c.agent = c'.agent ∧ c.stored = true ∧ c.closed = false :=
    fun hk => hrewrite hk (fun _ => rfl) (fun _ h => h) fun _ h => by cases h
  cases h with
  | refresh | pipelineFor | pipelineKnown | turn | refused | inspect | inspectDone | cache
  | releaseDone | dialFailed | dialSettled => exact Or.inl ⟨c', hk, rfl, hstored, hopen⟩
  | dial =>
    rcases getElem?_concat_eq_some hk with ⟨-, rfl⟩ | hk
    · cases hstored
    · exact Or.inl ⟨c', hk, rfl, hstored, hopen⟩
  | unreachable _ i t a rest inspecting probe pipelines clients conns missed task awaited left dropped =>
    left
    rcases dropped with ⟨-, rfl⟩ | ⟨-, -, rfl⟩
    · exact ⟨c', hk, rfl, hstored, hopen⟩
    · change (closeClient s a)[k]? = some c' at hk
      unfold closeClient at hk
      split at hk
      · exact hclose hk
      · exact ⟨c', hk, rfl, hstored, hopen⟩
  | releaseClients =>
    left
    obtain ⟨c, hc, rfl⟩ := Option.map_eq_some_iff.mp (List.getElem?_mapIdx.symm.trans hk)
    split_ifs at hstored hopen ⊢
    · exact ⟨c, hc, rfl, hstored, hopen⟩
    · exact ⟨c, hc, rfl, hstored, hopen⟩
  | finishSettled | socketLost => exact Or.inl (hclose hk)
  | protocolError =>
    exact Or.inl (hrewrite hk (fun _ => rfl) (fun _ h => h) fun _ h => by cases h)
  | socketOpened | helloAcked =>
    exact Or.inl (hrewrite hk (fun _ => rfl) (fun _ h => h) fun _ h => h)
  | fellBack =>
    rcases getElem?_concat_eq_some hk with ⟨-, rfl⟩ | hk
    · cases hstored
    · exact Or.inl (hfail hk)
  | attemptFailed => exact Or.inl (hfail hk)
  | dialSucceeded d x j dial phase =>
    rcases getElem?_modify_eq_some hk with ⟨rfl, c, hc, rfl⟩ | ⟨-, hk⟩
    · have hw := w.dials d x dial
      rw [phase] at hw
      obtain ⟨c₁, hc₁, hagent⟩ := hw
      obtain rfl : c₁ = c := Option.some.inj (hc₁.symm.trans hc)
      exact Or.inr ⟨d, x, dial, phase, hagent.symm, rfl⟩
    · exact Or.inl ⟨c', hk, rfl, hstored, hopen⟩

theorem Move.pending_from (h : Move cat cfg now s action s') {a : Agent} (hp : Pending s' a) :
    Pending s a ∨ (s.openClient a = none ∧ s.stopping = false ∧
      ((s.guardFor a).admitDial cfg now).2 = none ∧
      ∃ i, action = .advance i ∧ asksFor now s i = some a ∧ dialsNow cfg now s a = true) := by
  obtain ⟨e, x', hx, ha, hphase⟩ := hp
  have hrewrite : ∀ {d : ℕ} {x : Dial} {f : Dial → Dial}, (s.dials.modify d f)[e]? = some x' →
      s.dials[d]? = some x → (f x).agent = x.agent →
      ((f x).phase.pending = true → x.phase.pending = true) → Pending s a := by
    intro d x f hx dial hagent hpend
    rcases getElem?_modify_eq_some hx with ⟨rfl, y, hy, rfl⟩ | ⟨-, hx⟩
    · obtain rfl : y = x := Option.some.inj (hy.symm.trans dial)
      exact ⟨d, y, dial, hagent.symm.trans ha, hpend hphase⟩
    · exact ⟨e, x', hx, ha, hphase⟩
  cases h with
  | refresh | pipelineFor | pipelineKnown | turn | refused | inspect | inspectDone | unreachable
  | cache | releaseClients | finishSettled | releaseDone | protocolError | socketLost =>
    exact Or.inl ⟨e, x', hx, ha, hphase⟩
  | dial i t t' b task asks asked lost free running admits =>
    rcases getElem?_concat_eq_some hx with ⟨-, rfl⟩ | hx
    · subst ha
      refine Or.inr ⟨lost, running, admits, i, rfl, asked, ?_⟩
      simp [dialsNow, lost, free, running, admits]
    · exact Or.inl ⟨e, x', hx, ha, hphase⟩
  | socketOpened d x k fallback c dial phase | helloAcked d x k fallback c dial phase
  | attemptFailed d x k fallback c why dial phase | fellBack d x k c why dial phase =>
    exact Or.inl (hrewrite hx dial rfl fun _ => by rw [phase]; rfl)
  | dialSucceeded d x k dial phase | dialFailed d x dial phase
  | dialSettled d x result dial phase =>
    exact Or.inl (hrewrite hx dial rfl fun hfalse => by cases hfalse)

/-- A client leaves `clients` when it is closed, when another is stored for its
agent, or when all are released. -/
theorem Move.clients_kept (h : Move cat cfg now s action s') {a : Agent} {k : ℕ}
    (hk : s.clients.lookup a = some k) :
    s'.clients.lookup a = some k ∨ s.openClient a = none ∨
      (∃ (d : ℕ) (x : Dial) (j : ℕ), s.dials[d]? = some x ∧ x.phase = .resolved j ∧ x.agent = a) ∨
      ∃ i : ℕ, s.tasks[i]? = some (.releasing []) := by
  cases h with
  | refresh | pipelineFor | pipelineKnown | turn | refused | dial | inspect | inspectDone | cache
  | releaseClients | finishSettled | socketOpened | helloAcked | fellBack | attemptFailed
  | dialFailed | dialSettled | protocolError | socketLost => exact Or.inl hk
  | unreachable _ i t b rest inspecting probe pipelines clients conns missed task awaited left dropped =>
    rcases dropped with ⟨rfl, -⟩ | ⟨hlost, rfl, -⟩
    · exact Or.inl hk
    · by_cases hab : a = b
      · subst hab
        exact Or.inr (Or.inl hlost)
      · exact Or.inl ((AList.lookup_erase_ne hab).trans hk)
  | releaseDone i task => exact Or.inr (Or.inr (Or.inr ⟨i, task⟩))
  | dialSucceeded d x j dial phase =>
    by_cases hab : a = x.agent
    · exact Or.inr (Or.inr (Or.inl ⟨d, x, j, dial, phase, hab.symm⟩))
    · exact Or.inl ((AList.lookup_insert_ne hab).trans hk)

theorem Move.stopping_from (h : Move cat cfg now s action s') (hs : s'.stopping = false) :
    s.stopping = false := by
  cases h with
  | releaseClients => cases hs
  | _ => exact hs

theorem Asks.releases {a : Agent} {on : Wait} {t t' : Task} (h : Asks a on t t') :
    t'.releases = false := by
  cases h <;> rfl

theorem Turn.releases {t t' : Task} (h : Turn s t t') : t'.releases = false := by
  cases h with
  | asked a on _ _ asks known => exact asks.releases
  | _ => rfl

theorem Holds.move_releasing (h : Holds s) (m : Move cat cfg now s action s') (i : ℕ) (t : Task)
    (ht : s'.tasks[i]? = some t) (hr : t.releases = true) : s'.stopping = true := by
  have hold : s.tasks[i]? = some t → s.stopping = true := fun ht => h.releasing i t ht hr
  cases m with
  | refresh | pipelineFor | pipelineKnown =>
    rcases getElem?_concat_eq_some ht with ⟨-, rfl⟩ | ht
    · cases hr
    · exact hold ht
  | turn _ j u u' task turn =>
    rcases getElem?_set_eq_some ht with ⟨-, rfl⟩ | ⟨-, ht⟩
    · exact absurd (hr.symm.trans turn.releases) (by simp)
    · exact hold ht
  | refused _ j u u' a why task asks | dial j u u' a task asks =>
    rcases getElem?_set_eq_some ht with ⟨-, rfl⟩ | ⟨-, ht⟩
    · exact absurd (hr.symm.trans asks.releases) (by simp)
    · exact hold ht
  | inspect | inspectDone | unreachable | cache =>
    rcases getElem?_set_eq_some ht with ⟨-, rfl⟩ | ⟨-, ht⟩
    · cases hr
    · exact hold ht
  | releaseClients => rfl
  | finishSettled j k pending task =>
    rcases getElem?_set_eq_some ht with ⟨-, -⟩ | ⟨-, ht⟩
    · exact h.releasing j _ task rfl
    · exact hold ht
  | releaseDone j task =>
    rcases getElem?_set_eq_some ht with ⟨-, -⟩ | ⟨-, ht⟩
    · exact h.releasing j _ task rfl
    · exact hold ht
  | socketOpened | helloAcked | fellBack | attemptFailed | dialSucceeded | dialFailed | dialSettled
  | protocolError | socketLost => exact hold ht

theorem openClient_of_lookup {a : Agent} {k : ℕ} {c : Conn} (hk : s.clients.lookup a = some k)
    (hc : s.conns[k]? = some c) (hopen : c.closed = false) : s.openClient a = some k := by
  simp [State.openClient, hk, hc, hopen]

theorem not_pending_dialSucceeded (w : Wired s) {d k : ℕ} {x : Dial} (dial : s.dials[d]? = some x)
    (phase : x.phase = .resolved k) : ¬Pending (dialSucceeded cat s d x.agent k) x.agent := by
  rintro ⟨e, y, hy, ha, hp⟩
  rcases getElem?_modify_eq_some hy with ⟨rfl, z, hz, rfl⟩ | ⟨hne, hy⟩
  · cases hp
  · have hd : InFlightAt s x.agent d := ⟨x, dial, rfl, by rw [phase]; rfl⟩
    have he : InFlightAt s x.agent e := ⟨y, hy, ha, DialPhase.inFlight_of_pending hp⟩
    exact hne (w.inFlight_unique hd he)

theorem Holds.move_held (h : Holds s) (w : Wired s) (m : Move cat cfg now s action s')
    (hs : s'.stopping = false) (k : ℕ) (c' : Conn) (hk : s'.conns[k]? = some c')
    (hstored : c'.stored = true) (hopen : c'.closed = false) :
    s'.clients.lookup c'.agent = some k := by
  have hrun := m.stopping_from hs
  rcases m.stored_from w hk hstored hopen with ⟨c, hc, hagent, hst, hcl⟩ | ⟨d, x, -, -, hagent, rfl⟩
  · have hlook := h.held hrun k c hc hst hcl
    rw [hagent] at hlook
    rcases m.clients_kept hlook with hkept | hlost | ⟨d, x, j, hx, hphase, ha⟩ | ⟨i, hi⟩
    · exact hkept
    · exact absurd (hlost.symm.trans (openClient_of_lookup hlook hc hcl)) (by simp)
    · have hidle := h.idle c'.agent ⟨d, x, hx, ha, by rw [hphase]; rfl⟩ k c hc hagent hst
      exact absurd (hcl.symm.trans hidle) (by simp)
    · exact absurd (hrun.symm.trans (h.releasing i _ hi rfl)) (by simp)
  · rw [← hagent]
    exact AList.lookup_insert s.clients

theorem Holds.move_idle (h : Holds s) (w : Wired s) (m : Move cat cfg now s action s') (a : Agent)
    (hp : Pending s' a) : Idle s' a := by
  intro k c' hk hagent' hstored
  by_contra hopen
  rw [Bool.not_eq_true] at hopen
  rcases m.stored_from w hk hstored hopen with ⟨c, hc, hagent, hst, hcl⟩ |
    ⟨d, x, hx, hphase, hagent, rfl⟩
  · rw [hagent'] at hagent
    rcases m.pending_from hp with hp | ⟨hlost, hrun, -, -⟩
    · have hidle := h.idle a hp k c hc hagent hst
      exact absurd (hcl.symm.trans hidle) (by simp)
    · have hlook := h.held hrun k c hc hst hcl
      rw [hagent] at hlook
      exact absurd (hlost.symm.trans (openClient_of_lookup hlook hc hcl)) (by simp)
  · rw [hagent'] at hagent
    subst hagent
    exact not_pending_dialSucceeded w hx hphase hp

theorem Holds.move (h : Holds s) (w : Wired s) (m : Move cat cfg now s action s') : Holds s' where
  held := h.move_held w m
  idle := h.move_idle w m
  releasing := h.move_releasing m

theorem Holds.tick (h : Holds s) (now : ℕ) : Holds { s with clock := now } where
  held := h.held
  idle := h.idle
  releasing := h.releasing

end KvasirNet.Bridge
