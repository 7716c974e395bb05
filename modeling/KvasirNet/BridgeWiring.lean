import KvasirNet.Arena
import KvasirNet.BridgeMoves

/-! Who holds what. Clients, dials and calls are referred to by their place; a
client keeps its agent, a stored client stays stored and a closed one closed. On
top of this stands the bookkeeping of the two maps of pending promises. -/
namespace KvasirNet.Bridge

variable {cat : Catalog} {cfg : Config} {now : ℕ} {s s' : State} {action : Action}

/-! ## Clients and dials go forward -/

/-- The socket is not destroyed and no FINISH has been sent on it. -/
def Conn.held (c : Conn) : Prop := c.socket = .connecting ∨ c.socket = .opened

structure Conn.Later (c c' : Conn) : Prop where
  agent : c'.agent = c.agent
  stored : c.stored = true → c'.stored = true
  closed : c.closed = true → c'.closed = true
  held : c'.held → c.held

namespace Conn

theorem Later.refl (c : Conn) : c.Later c := ⟨rfl, id, id, id⟩

theorem Later.trans (c c' c'' : Conn) (h : c.Later c') (h' : c'.Later c'') : c.Later c'' :=
  ⟨h'.agent.trans h.agent, h'.stored ∘ h.stored, h'.closed ∘ h.closed, h.held ∘ h'.held⟩

theorem later_close (c : Conn) : c.Later c.close where
  agent := rfl
  stored := id
  closed _ := rfl
  held h := by cases h <;> contradiction

theorem later_fail (c : Conn) : c.Later c.fail := ⟨rfl, id, fun _ => rfl, id⟩

theorem later_settle (c : Conn) : c.Later { c with settled := true } := ⟨rfl, id, id, id⟩

theorem later_store (c : Conn) : c.Later { c with stored := true } :=
  ⟨rfl, fun _ => rfl, id, id⟩

theorem later_finish (c : Conn) : c.Later c.finish where
  agent := rfl
  stored := id
  closed := id
  held h := by
    unfold held finish at *
    dsimp only at h
    split_ifs at h with ho
    · exact Or.inr ho
    · exact h

theorem later_connectFailed (c : Conn) (closes : Bool) : c.Later (c.connectFailed closes) := by
  unfold connectFailed
  split
  · exact ⟨rfl, id, fun _ => rfl, fun h => by cases h <;> contradiction⟩
  · exact ⟨rfl, id, fun _ => rfl, id⟩
  · exact ⟨rfl, id, id, fun h => by cases h <;> contradiction⟩

end Conn

def Dial.Later (x x' : Dial) : Prop := x'.agent = x.agent

theorem Dial.Later.refl (x : Dial) : x.Later x := rfl

/-- The clients and the dials of a state, some time later. -/
structure Grown (s s' : State) : Prop where
  conns : Grows Conn.Later s.conns s'.conns
  dials : Grows Dial.Later s.dials s'.dials

theorem closeClient_grows (s : State) (a : Agent) :
    Grows Conn.Later s.conns (closeClient s a) := by
  unfold closeClient
  split
  · exact Grows.modify Conn.Later.refl fun c _ => c.later_close
  · exact Grows.refl Conn.Later.refl _

theorem Move.grown (h : Move cat cfg now s action s') : Grown s s' := by
  have hconns : Grows Conn.Later s.conns s.conns := Grows.refl Conn.Later.refl _
  have hdials : Grows Dial.Later s.dials s.dials := Grows.refl Dial.Later.refl _
  have hrewrite : ∀ {d : ℕ} {f : Dial → Dial}, (∀ x, (f x).agent = x.agent) →
      Grows Dial.Later s.dials (s.dials.modify d f) :=
    fun hf => Grows.modify Dial.Later.refl fun x _ => hf x
  have hfail : ∀ {k : ℕ} {closes : Bool}, Grows Conn.Later s.conns
      (s.conns.modify k fun c => c.connectFailed closes) :=
    Grows.modify Conn.Later.refl fun c _ => c.later_connectFailed _
  cases h with
  | refresh | pipelineFor | pipelineKnown | turn | refused | inspect | inspectDone | cache
  | releaseDone => exact ⟨hconns, hdials⟩
  | dial => exact ⟨Grows.append Conn.Later.refl _ _, Grows.append Dial.Later.refl _ _⟩
  | unreachable _ i t a rest inspecting probe pipelines clients conns missed task awaited left dropped =>
    rcases dropped with ⟨-, rfl⟩ | ⟨-, -, rfl⟩
    · exact ⟨hconns, hdials⟩
    · exact ⟨closeClient_grows s a, hdials⟩
  | releaseClients =>
    refine ⟨Grows.mapIdx fun k c => ?_, hdials⟩
    split_ifs
    · exact c.later_finish
    · exact Conn.Later.refl c
  | finishSettled | socketLost =>
    exact ⟨Grows.modify Conn.Later.refl fun c _ => c.later_close, hdials⟩
  | protocolError => exact ⟨Grows.modify Conn.Later.refl fun c _ => c.later_fail, hdials⟩
  | socketOpened d x k fallback c dial phase conn socket =>
    refine ⟨Grows.modify Conn.Later.refl fun c' hc' => ?_, hrewrite fun _ => rfl⟩
    obtain rfl : c' = c := Option.some.inj (hc'.symm.trans conn)
    exact ⟨rfl, id, id, fun _ => Or.inl socket⟩
  | helloAcked =>
    exact ⟨Grows.modify Conn.Later.refl fun c _ => c.later_settle, hrewrite fun _ => rfl⟩
  | fellBack =>
    exact ⟨hfail.trans Conn.Later.trans (Grows.append Conn.Later.refl _ _), hrewrite fun _ => rfl⟩
  | attemptFailed => exact ⟨hfail, hrewrite fun _ => rfl⟩
  | dialSucceeded =>
    exact ⟨Grows.modify Conn.Later.refl fun c _ => c.later_store, hrewrite fun _ => rfl⟩
  | dialFailed | dialSettled => exact ⟨hconns, hrewrite fun _ => rfl⟩

/-! ## References -/

/-- Client `k` is a client of the agent. -/
def ConnOf (s : State) (a : Agent) (k : ℕ) : Prop := ∃ c, s.conns[k]? = some c ∧ c.agent = a

/-- Client `k` is a client of the agent that has been put into `clients`. -/
def StoredAt (s : State) (a : Agent) (k : ℕ) : Prop :=
  ∃ c, s.conns[k]? = some c ∧ c.agent = a ∧ c.stored = true

def DialOf (s : State) (a : Agent) (d : ℕ) : Prop := ∃ x, s.dials[d]? = some x ∧ x.agent = a

/-- Dial `d` of the agent is in flight. -/
def InFlightAt (s : State) (a : Agent) (d : ℕ) : Prop :=
  ∃ x, s.dials[d]? = some x ∧ x.agent = a ∧ x.phase.inFlight = true

variable {a : Agent} {k : ℕ}

theorem ConnOf.grown (h : ConnOf s a k) (g : Grown s s') : ConnOf s' a k := by
  obtain ⟨c, hc, rfl⟩ := h
  obtain ⟨c', hc', hl⟩ := g.conns k c hc
  exact ⟨c', hc', hl.agent⟩

theorem StoredAt.grown (h : StoredAt s a k) (g : Grown s s') :
    StoredAt s' a k := by
  obtain ⟨c, hc, rfl, hs⟩ := h
  obtain ⟨c', hc', hl⟩ := g.conns k c hc
  exact ⟨c', hc', hl.agent, hl.stored hs⟩

theorem DialOf.grown {d : ℕ} (h : DialOf s a d) (g : Grown s s') : DialOf s' a d := by
  obtain ⟨x, hx, rfl⟩ := h
  obtain ⟨x', hx', hl⟩ := g.dials d x hx
  exact ⟨x', hx', hl⟩

def DialPhase.wired (s : State) (a : Agent) : DialPhase → Prop
  | .attempt k _ | .resolved k => ConnOf s a k
  | .stored k | .done (some k) => StoredAt s a k
  | _ => True

def Task.wired (s : State) : Task → Prop
  | .refreshAwait a _ (.client k) => StoredAt s a k
  | .refreshAwait a _ (.dial d) => DialOf s a d
  | .inspecting a _ k _ | .replied a _ k => StoredAt s a k
  | .releasing pending => ∀ k ∈ pending, ∃ a, StoredAt s a k
  | _ => True

theorem DialPhase.wired_grown {p : DialPhase} (h : p.wired s a) (g : Grown s s') :
    p.wired s' a := by
  unfold DialPhase.wired at h ⊢
  split at h
  · exact h.grown g
  · exact h.grown g
  · exact h.grown g
  · exact h.grown g
  · trivial

theorem Task.wired_grown {t : Task} (h : t.wired s) (g : Grown s s') : t.wired s' := by
  unfold Task.wired at h ⊢
  split at h
  · exact h.grown g
  · exact h.grown g
  · exact h.grown g
  · exact h.grown g
  · intro k hk
    obtain ⟨a, ha⟩ := h k hk
    exact ⟨a, ha.grown g⟩
  · trivial

/-- The references of a state are good, and the two maps of pending promises say
what is pending. -/
structure Wired (s : State) : Prop where
  connecting : ∀ (a : Agent) (d : ℕ), s.connecting.lookup a = some d ↔ InFlightAt s a d
  dials : ∀ (d : ℕ) (x : Dial), s.dials[d]? = some x → x.phase.wired s x.agent
  clients : ∀ (a : Agent) (k : ℕ), s.clients.lookup a = some k → StoredAt s a k
  tasks : ∀ (i : ℕ) (t : Task), s.tasks[i]? = some t → t.wired s
  inspecting : ∀ (i : ℕ) (t : Task) (a : Agent) (rest : List Agent) (k : ℕ),
    s.tasks[i]? = some t → t.inspects = some (a, rest, k) → s.inspecting.lookup a = some i

theorem wired_initial : Wired .initial where
  connecting a d := by simp [State.initial, InFlightAt]
  dials d x h := by simp [State.initial] at h
  clients a k h := by simp [State.initial] at h
  tasks i t h := by simp [State.initial] at h
  inspecting i t a rest k h := by simp [State.initial] at h

theorem Wired.inFlight_unique (h : Wired s) {d e : ℕ} (hd : InFlightAt s a d)
    (he : InFlightAt s a e) : d = e := by
  have hd' := (h.connecting a d).mpr hd
  have he' := (h.connecting a e).mpr he
  exact Option.some.inj (hd'.symm.trans he')

theorem Wired.outcome_stored (h : Wired s) {i : ℕ} {rest : List Agent} {on : Wait}
    (task : s.tasks[i]? = some (.refreshAwait a rest on))
    (hk : outcome s on = some (some k)) : StoredAt s a k := by
  have ht := h.tasks i _ task
  cases on with
  | client k' =>
    obtain rfl : k' = k := by simpa [outcome] using hk
    exact ht
  | refused why => simp [outcome] at hk
  | dial d =>
    obtain ⟨x, hx, rfl⟩ := ht
    have hphase : x.phase = .done (some k) := by
      simp only [outcome, hx] at hk
      split at hk
      · rename_i a' o result heq
        obtain rfl := Option.some.inj heq
        rw [Option.some.inj hk]
      · cases hk
    have hw := h.dials d x hx
    rw [hphase] at hw
    exact hw

/-! ## The references stay good -/

theorem openClient_eq_some (h : s.openClient a = some k) :
    s.clients.lookup a = some k ∧ ∃ c, s.conns[k]? = some c ∧ c.closed = false := by
  unfold State.openClient at h
  obtain ⟨hk, hc⟩ := Option.filter_eq_some_iff.mp h
  cases hconn : s.conns[k]? with
  | none => simp [hconn] at hc
  | some c => exact ⟨hk, c, rfl, by simpa [hconn] using hc⟩

theorem Move.clients_from (h : Move cat cfg now s action s')
    (hk : s'.clients.lookup a = some k) :
    s.clients.lookup a = some k ∨ ∃ (d : ℕ) (x : Dial), s.dials[d]? = some x ∧
      x.phase = .resolved k ∧ x.agent = a ∧ s' = Bridge.dialSucceeded cat s d x.agent k := by
  cases h with
  | refresh | pipelineFor | pipelineKnown | turn | refused | dial | inspect | inspectDone | cache
  | releaseClients | finishSettled | socketOpened | helloAcked | fellBack | attemptFailed
  | dialFailed | dialSettled | protocolError | socketLost => exact Or.inl hk
  | unreachable _ i t b rest inspecting probe pipelines clients conns missed task awaited left
      dropped =>
    left
    rcases dropped with ⟨rfl, -⟩ | ⟨-, rfl, -⟩
    · exact hk
    · by_cases hab : a = b
      · subst hab
        exact absurd (hk.symm.trans (AList.lookup_erase a s.clients)) (by simp)
      · exact (hk.symm.trans (AList.lookup_erase_ne hab)).symm
  | releaseDone => cases hk
  | dialSucceeded d x k' dial phase =>
    by_cases hab : a = x.agent
    · subst hab
      obtain rfl : k' = k := Option.some.inj ((AList.lookup_insert s.clients).symm.trans hk)
      exact Or.inr ⟨d, x, dial, phase, rfl, rfl⟩
    · exact Or.inl ((AList.lookup_insert_ne hab).symm.trans hk)

theorem Wired.dialSucceeded_stored (w : Wired s) {d : ℕ} {x : Dial} (dial : s.dials[d]? = some x)
    (phase : x.phase = .resolved k) : StoredAt (dialSucceeded cat s d x.agent k) x.agent k := by
  have hw := w.dials d x dial
  rw [phase] at hw
  obtain ⟨c, hc, hagent⟩ := hw
  exact ⟨{ c with stored := true }, by simp [dialSucceeded, State.modifyConn, State.setPhase,
    State.setGuard, deletePipelines, hc], hagent, rfl⟩

theorem Wired.move_clients (w : Wired s) (h : Move cat cfg now s action s') (a : Agent) (k : ℕ)
    (hk : s'.clients.lookup a = some k) : StoredAt s' a k := by
  rcases h.clients_from hk with hold | ⟨d, x, dial, phase, rfl, rfl⟩
  · exact (w.clients a k hold).grown h.grown
  · exact w.dialSucceeded_stored dial phase

theorem Wired.move_dials (w : Wired s) (h : Move cat cfg now s action s') (d : ℕ) (x : Dial)
    (hx : s'.dials[d]? = some x) : x.phase.wired s' x.agent := by
  have hgrown := h.grown
  have hold : s.dials[d]? = some x → x.phase.wired s' x.agent :=
    fun hx => DialPhase.wired_grown (w.dials d x hx) hgrown
  cases h with
  | refresh | pipelineFor | pipelineKnown | turn | refused | inspect | inspectDone | unreachable
  | cache | releaseClients | finishSettled | releaseDone | protocolError | socketLost =>
    exact hold hx
  | dial i t t' a =>
    rcases getElem?_concat_eq_some hx with ⟨-, rfl⟩ | hx
    · exact ⟨.create a cfg.hop, by simp [dial, State.setTask, State.setGuard], rfl⟩
    · exact hold hx
  | socketOpened e y k fallback c dial phase conn =>
    rcases getElem?_modify_eq_some hx with ⟨rfl, y', hy', rfl⟩ | ⟨-, hx⟩
    · have hw := DialPhase.wired_grown (w.dials e y dial) hgrown
      rw [phase] at hw
      obtain rfl : y' = y := Option.some.inj (hy'.symm.trans dial)
      dsimp only
      split_ifs
      · exact hw
      · exact hw
    · exact hold hx
  | helloAcked e y k fallback c dial phase =>
    rcases getElem?_modify_eq_some hx with ⟨rfl, y', hy', rfl⟩ | ⟨-, hx⟩
    · have hw := DialPhase.wired_grown (w.dials e y dial) hgrown
      rw [phase] at hw
      obtain rfl : y' = y := Option.some.inj (hy'.symm.trans dial)
      exact hw
    · exact hold hx
  | fellBack e y k c why dial phase =>
    rcases getElem?_modify_eq_some hx with ⟨rfl, y', hy', rfl⟩ | ⟨-, hx⟩
    · obtain rfl : y' = y := Option.some.inj (hy'.symm.trans dial)
      refine ⟨.create y'.agent false, ?_, rfl⟩
      simp [State.setPhase]
    · exact hold hx
  | attemptFailed | dialFailed =>
    rcases getElem?_modify_eq_some hx with ⟨rfl, y', hy', rfl⟩ | ⟨-, hx⟩
    · trivial
    · exact hold hx
  | dialSucceeded e y k dial phase =>
    rcases getElem?_modify_eq_some hx with ⟨rfl, y', hy', rfl⟩ | ⟨-, hx⟩
    · obtain rfl : y' = y := Option.some.inj (hy'.symm.trans dial)
      exact w.dialSucceeded_stored dial phase
    · exact hold hx
  | dialSettled e y result dial phase =>
    rcases getElem?_modify_eq_some hx with ⟨rfl, y', hy', rfl⟩ | ⟨-, hx⟩
    · obtain rfl : y' = y := Option.some.inj (hy'.symm.trans dial)
      have hw := DialPhase.wired_grown (w.dials e y' dial) hgrown
      rw [phase] at hw
      cases result with
      | none => trivial
      | some k => exact hw
    · exact hold hx

theorem inFlightAt_modify {d e : ℕ} {x : Dial} {f : Dial → Dial}
    (dial : s.dials[d]? = some x) (hs : s'.dials = s.dials.modify d f) (hagent : (f x).agent = x.agent)
    (hflight : (f x).phase.inFlight = x.phase.inFlight) :
    InFlightAt s' a e ↔ InFlightAt s a e := by
  unfold InFlightAt
  rw [hs]
  constructor
  · rintro ⟨y, hy, hya, hyf⟩
    rcases getElem?_modify_eq_some hy with ⟨rfl, x', hx', rfl⟩ | ⟨-, hy⟩
    · obtain rfl : x' = x := Option.some.inj (hx'.symm.trans dial)
      exact ⟨x', dial, hagent.symm.trans hya, hflight.symm.trans hyf⟩
    · exact ⟨y, hy, hya, hyf⟩
  · rintro ⟨y, hy, hya, hyf⟩
    by_cases hde : d = e
    · subst hde
      obtain rfl : y = x := Option.some.inj (hy.symm.trans dial)
      exact ⟨f y, by simp [hy], hagent.trans hya, hflight.trans hyf⟩
    · exact ⟨y, by simp [hde, hy], hya, hyf⟩

theorem Wired.move_connecting (w : Wired s) (h : Move cat cfg now s action s') (a : Agent) (d : ℕ) :
    s'.connecting.lookup a = some d ↔ InFlightAt s' a d := by
  have hold := w.connecting a d
  cases h with
  | refresh | pipelineFor | pipelineKnown | turn | refused | inspect | inspectDone | unreachable
  | cache | releaseClients | finishSettled | releaseDone | protocolError | socketLost => exact hold
  | dial i t t' b task asks asked lost free =>
    have hnew : ∀ g, InFlightAt ((dial cfg now (s.setGuard b g) b).setTask i t') a d ↔
        (d = s.dials.length ∧ a = b) ∨ InFlightAt s a d := by
      intro g
      constructor
      · rintro ⟨y, hy, hya, hyf⟩
        rcases getElem?_concat_eq_some hy with ⟨hd, rfl⟩ | hy
        · exact Or.inl ⟨hd, hya.symm⟩
        · exact Or.inr ⟨y, hy, hya, hyf⟩
      · rintro (⟨rfl, rfl⟩ | ⟨y, hy, hya, hyf⟩)
        · exact ⟨⟨a, false, .attempt s.conns.length false⟩, by
            simp [dial, State.setTask, State.setGuard], rfl, rfl⟩
        · have hd : d < s.dials.length := (List.getElem?_eq_some_iff.mp hy).1
          exact ⟨y, (List.getElem?_append_left hd).trans hy, hya, hyf⟩
    rw [hnew, ← hold]
    change (s.connecting.insert b s.dials.length).lookup a = some d ↔ _
    by_cases hab : a = b
    · subst hab
      rw [AList.lookup_insert, free]
      simp [eq_comm]
    · rw [AList.lookup_insert_ne hab]
      simp [hab]
  | socketOpened e y k fallback c dial phase =>
    refine hold.trans (inFlightAt_modify dial rfl rfl ?_).symm
    dsimp only
    rw [phase]
    split_ifs
    · rfl
    · rfl
  | helloAcked e y k fallback c dial phase | attemptFailed e y k fallback c why dial phase
  | fellBack e y k c why dial phase | dialSucceeded e y k dial phase
  | dialFailed e y dial phase =>
    refine hold.trans (inFlightAt_modify dial rfl rfl ?_).symm
    rw [phase]
    rfl
  | dialSettled e y result dial phase =>
    have hy : InFlightAt s y.agent e := by
      refine ⟨y, dial, rfl, ?_⟩
      rw [phase]
      cases result <;> rfl
    have hgone : InFlightAt (dialSettled s e y.agent result) a d ↔ d ≠ e ∧ InFlightAt s a d := by
      constructor
      · rintro ⟨z, hz, hza, hzf⟩
        rcases getElem?_modify_eq_some hz with ⟨rfl, z', hz', rfl⟩ | ⟨hne, hz⟩
        · cases hzf
        · exact ⟨hne.symm, z, hz, hza, hzf⟩
      · rintro ⟨hne, z, hz, hza, hzf⟩
        exact ⟨z, by simpa [dialSettled, State.setPhase, hne.symm] using hz, hza, hzf⟩
    rw [hgone, ← hold]
    change (s.connecting.erase y.agent).lookup a = some d ↔ _
    by_cases hab : a = y.agent
    · subst hab
      rw [AList.lookup_erase, (w.connecting _ e).mpr hy]
      constructor
      · intro h
        cases h
      · rintro ⟨hne, heq⟩
        exact absurd (Option.some.inj heq).symm hne
    · rw [AList.lookup_erase_ne hab]
      constructor
      · intro hd
        refine ⟨?_, hd⟩
        rintro rfl
        -- dial `e` is a dial of one agent only
        obtain ⟨z, hz, hza, -⟩ := (w.connecting a d).mp hd
        obtain rfl : z = y := Option.some.inj (hz.symm.trans dial)
        exact hab hza.symm
      · exact And.right

theorem Known.wired (w : Wired s) {on : Wait} (h : Known s a on) (rest : List Agent) :
    (Task.refreshAwait a rest on).wired s := by
  cases h with
  | client k hk => exact w.clients a k (openClient_eq_some hk).1
  | dial d hd =>
    obtain ⟨x, hx, hxa, -⟩ := (w.connecting a d).mp hd
    exact ⟨x, hx, hxa⟩
  | refused => trivial

theorem Turn.wired (w : Wired s) {t t' : Task} (h : Turn s t t') (ht : t.wired s) : t'.wired s := by
  cases h with
  | refreshed | skipped | taken | connected | gaveUp | install | ready | installed => trivial
  | asked a on _ _ asks known =>
    cases asks with
    | refresh a rest on => exact known.wired w rest
    | pipeline => trivial
  | replied => exact ht

theorem mem_toFinish (h : k ∈ toFinish s) :
    (∃ a, s.clients.lookup a = some k) ∧ ∃ c, s.conns[k]? = some c ∧ c.canSend = true := by
  obtain ⟨hk, hc⟩ := List.mem_filter.mp h
  obtain ⟨⟨a, k'⟩, he, rfl⟩ := List.mem_map.mp hk
  refine ⟨⟨a, (Table.mem_entries_iff s.clients a k').mp he⟩, ?_⟩
  cases hconn : s.conns[k']? with
  | none => simp [hconn] at hc
  | some c => exact ⟨c, rfl, by simpa [hconn] using hc⟩

theorem Wired.move_tasks (w : Wired s) (h : Move cat cfg now s action s') (i : ℕ) (t : Task)
    (ht : s'.tasks[i]? = some t) : t.wired s' := by
  have hgrown := h.grown
  have hold : s.tasks[i]? = some t → t.wired s' :=
    fun ht => Task.wired_grown (w.tasks i t ht) hgrown
  cases h with
  | refresh | pipelineFor | pipelineKnown =>
    rcases getElem?_concat_eq_some ht with ⟨-, rfl⟩ | ht
    · trivial
    · exact hold ht
  | turn _ j u u' task turn =>
    rcases getElem?_set_eq_some ht with ⟨-, rfl⟩ | ⟨-, ht⟩
    · exact Task.wired_grown (turn.wired w (w.tasks j u task)) hgrown
    · exact hold ht
  | refused _ j u u' a why task asks =>
    rcases getElem?_set_eq_some ht with ⟨-, rfl⟩ | ⟨-, ht⟩
    · cases asks <;> trivial
    · exact hold ht
  | dial j u u' a task asks =>
    rcases getElem?_set_eq_some ht with ⟨-, rfl⟩ | ⟨-, ht⟩
    · cases asks with
      | refresh a rest =>
        exact ⟨⟨a, false, .attempt s.conns.length false⟩, by
          simp [dial, State.setTask, State.setGuard], rfl⟩
      | pipeline => trivial
    · exact hold ht
  | inspect _ j a rest on k sent task client =>
    rcases getElem?_set_eq_some ht with ⟨-, rfl⟩ | ⟨-, ht⟩
    · exact (w.outcome_stored task client).grown hgrown
    · exact hold ht
  | inspectDone | unreachable | cache | releaseDone =>
    rcases getElem?_set_eq_some ht with ⟨-, rfl⟩ | ⟨-, ht⟩
    · trivial
    · exact hold ht
  | releaseClients =>
    rcases getElem?_concat_eq_some ht with ⟨-, rfl⟩ | ht
    · intro k hk
      obtain ⟨⟨a, ha⟩, -⟩ := mem_toFinish hk
      exact ⟨a, (w.clients a k ha).grown hgrown⟩
    · exact hold ht
  | finishSettled j k pending task =>
    rcases getElem?_set_eq_some ht with ⟨-, rfl⟩ | ⟨-, ht⟩
    · intro k' hk'
      obtain ⟨a, ha⟩ := w.tasks j _ task k' (List.mem_of_mem_erase hk')
      exact ⟨a, ha.grown hgrown⟩
    · exact hold ht
  | socketOpened | helloAcked | fellBack | attemptFailed | dialSucceeded | dialFailed | dialSettled
  | protocolError | socketLost => exact hold ht

theorem Turn.inspects {t t' : Task} (h : Turn s t t') {rest : List Agent}
    (ht : t'.inspects = some (a, rest, k)) : t.inspects = some (a, rest, k) := by
  cases h with
  | refreshed | skipped | taken | connected | gaveUp | install | ready | installed => cases ht
  | asked a on _ _ asks known => cases asks <;> cases ht
  | replied => exact ht

theorem Wired.move_inspecting (w : Wired s) (h : Move cat cfg now s action s') (i : ℕ) (t : Task)
    (a : Agent) (rest : List Agent) (k : ℕ) (ht : s'.tasks[i]? = some t)
    (hi : t.inspects = some (a, rest, k)) : s'.inspecting.lookup a = some i := by
  have hold : s.tasks[i]? = some t → s.inspecting.lookup a = some i :=
    fun ht => w.inspecting i t a rest k ht hi
  have herase : ∀ {j : ℕ} {u : Task} {b : Agent} {rest' : List Agent} {k' : ℕ},
      s.tasks[j]? = some u → u.inspects = some (b, rest', k') → j ≠ i → s.tasks[i]? = some t →
        (s.inspecting.erase b).lookup a = some i := by
    intro j u b rest' k' hu hub hne ht
    have hab : a ≠ b := by
      rintro rfl
      exact hne (Option.some.inj ((w.inspecting j u a rest' k' hu hub).symm.trans (hold ht)))
    rw [AList.lookup_erase_ne hab]
    exact hold ht
  cases h with
  | refresh | pipelineFor | pipelineKnown | releaseClients =>
    rcases getElem?_concat_eq_some ht with ⟨-, rfl⟩ | ht
    · cases hi
    · exact hold ht
  | turn _ j u u' task turn =>
    rcases getElem?_set_eq_some ht with ⟨rfl, rfl⟩ | ⟨-, ht⟩
    · exact w.inspecting j u a rest k task (turn.inspects hi)
    · exact hold ht
  | refused _ j u u' b why task asks =>
    rcases getElem?_set_eq_some ht with ⟨-, rfl⟩ | ⟨-, ht⟩
    · cases asks <;> cases hi
    · exact hold ht
  | dial j u u' b task asks =>
    rcases getElem?_set_eq_some ht with ⟨-, rfl⟩ | ⟨-, ht⟩
    · cases asks <;> cases hi
    · exact hold ht
  | inspect _ j b rest' on k' sent task client free =>
    rcases getElem?_set_eq_some ht with ⟨rfl, rfl⟩ | ⟨hne, ht⟩
    · cases hi
      exact AList.lookup_insert s.inspecting
    · have hab : a ≠ b := by
        rintro rfl
        exact absurd ((hold ht).symm.trans free) (by simp)
      exact (AList.lookup_insert_ne hab).trans (hold ht)
  | inspectDone j b rest' k' task =>
    rcases getElem?_set_eq_some ht with ⟨-, rfl⟩ | ⟨hne, ht⟩
    · cases hi
    · exact herase task rfl hne ht
  | unreachable _ j u b rest' inspecting probe pipelines clients conns missed task awaited =>
    rcases getElem?_set_eq_some ht with ⟨-, rfl⟩ | ⟨hne, ht⟩
    · cases hi
    · rcases awaited with ⟨on, -, rfl⟩ | ⟨k', hu, rfl⟩
      · exact hold ht
      · exact herase task hu hne ht
  | cache | releaseDone | finishSettled =>
    rcases getElem?_set_eq_some ht with ⟨-, rfl⟩ | ⟨-, ht⟩
    · cases hi
    · exact hold ht
  | socketOpened | helloAcked | fellBack | attemptFailed | dialSucceeded | dialFailed | dialSettled
  | protocolError | socketLost => exact hold ht

theorem Wired.move (w : Wired s) (h : Move cat cfg now s action s') : Wired s' where
  connecting := w.move_connecting h
  dials := w.move_dials h
  clients := w.move_clients h
  tasks := w.move_tasks h
  inspecting := w.move_inspecting h

theorem Wired.tick (w : Wired s) (now : ℕ) : Wired { s with clock := now } where
  connecting := w.connecting
  dials := w.dials
  clients := w.clients
  tasks := w.tasks
  inspecting := w.inspecting

theorem Wired.step {e : Event} (w : Wired s) (h : step cat cfg s e = some s') : Wired s' :=
  (w.tick e.now).move (step_move h).2

end KvasirNet.Bridge
