import KvasirNet.BridgeHolding

/-! Who owns a socket. A client that is closed may leave its socket open, so the
sockets are followed on their own: one that is neither destroyed nor FINISHed
belongs to the client stored for its agent or to the dial in flight. -/
namespace KvasirNet.Bridge

variable {cat : Catalog} {cfg : Config} {now : ℕ} {s s' : State} {action : Action}

instance (c : Conn) : Decidable c.held := inferInstanceAs (Decidable (_ ∨ _))

/-- The client stored for the agent still has its socket. -/
def State.heldClient (s : State) (a : Agent) : Bool :=
  (s.clients.lookup a).any fun k => (s.conns[k]?).any fun c => decide c.held

/-- The step gives up no socket that is still open: no dial replaces a closed
client whose socket is open, no hello is refused by a frame the client rejects,
`releaseClients` finds no closed client with an open socket, and no dial succeeds
after it. -/
def handsBack (cfg : Config) (s : State) (e : Event) : Bool :=
  match e.action with
  | .advance i => (asksFor e.now s i).all fun a => !(dialsNow cfg e.now s a && s.heldClient a)
  | .attemptFailed _ why => why ≠ .protocol
  | .releaseClients =>
    s.clients.entries.all fun en => (s.conns[en.2]?).all fun c => !(c.closed && decide c.held)
  | .dialHandled d =>
    !s.stopping || (s.dials[d]?).all fun x =>
      match x.phase with
      | .resolved k => (s.conns[k]?).all fun c => !decide c.held
      | _ => true
  | _ => true

/-! ## The invariant -/

/-- What the flags of a client say of its socket. -/
structure Conn.Sound (c : Conn) : Prop where
  settled : c.stored = true → c.settled = true
  connected : c.settled = true → c.socket ≠ .connecting
  finished : c.finishing = true → ¬c.held

/-- The client whose connection the dial is making, or has made and not stored. -/
def DialPhase.conn : DialPhase → Option ℕ
  | .attempt k _ | .resolved k => some k
  | _ => none

theorem DialPhase.pending_of_conn {p : DialPhase} {k : ℕ} (h : p.conn = some k) :
    p.pending = true := by
  cases p with
  | attempt | resolved => rfl
  | failed | stored | noted | done => cases h

/-- Client `k` is the one that a dial to the agent is connecting. -/
def Current (s : State) (a : Agent) (k : ℕ) : Prop :=
  ∃ (d : ℕ) (x : Dial), s.dials[d]? = some x ∧ x.agent = a ∧ x.phase.conn = some k

structure Owned (s : State) : Prop where
  sound : ∀ (k : ℕ) (c : Conn), s.conns[k]? = some c → c.Sound
  resolved : ∀ (d : ℕ) (x : Dial) (k : ℕ), s.dials[d]? = some x → x.phase = .resolved k →
    ∃ c, s.conns[k]? = some c ∧ c.settled = true
  current : ∀ (k : ℕ) (c : Conn), s.conns[k]? = some c → c.held →
    (s.stopping = false ∧ s.clients.lookup c.agent = some k) ∨ Current s c.agent k
  exclusive : ∀ (a : Agent) (k : ℕ) (c : Conn), Pending s a → s.clients.lookup a = some k →
    s.conns[k]? = some c → ¬c.held

theorem owned_initial : Owned .initial where
  sound k c h := by simp [State.initial] at h
  resolved d x k h := by simp [State.initial] at h
  current k c h := by simp [State.initial] at h
  exclusive a k c h hk := by simp [State.initial] at hk

namespace Conn.Sound

variable {c : Conn}

theorem create (a : Agent) (hop : Bool) : (Conn.create a hop).Sound where
  settled h := nomatch h
  connected h := nomatch h
  finished h := nomatch h

theorem close (h : c.Sound) : c.close.Sound where
  settled := h.settled
  connected _ hc := nomatch hc
  finished _ hc := by cases hc <;> contradiction

theorem fail (h : c.Sound) : c.fail.Sound := ⟨h.settled, h.connected, h.finished⟩

theorem finish (h : c.Sound) (hstored : c.stored = true) : c.finish.Sound where
  settled := h.settled
  connected hs := by
    have hne := h.connected hs
    unfold Conn.finish
    dsimp only
    split_ifs
    · exact nofun
    · exact hne
  finished _ := by
    have hne := h.connected (h.settled hstored)
    unfold Conn.held Conn.finish
    dsimp only
    split_ifs with ho
    · rintro (hc | hc) <;> cases hc
    · rintro (hc | hc)
      · exact hne hc
      · exact ho hc

theorem connectFailed (h : c.Sound) (closes : Bool) : (c.connectFailed closes).Sound := by
  unfold Conn.connectFailed
  split
  · exact ⟨fun _ => rfl, fun _ hc => (nomatch hc), fun _ hc => by cases hc <;> contradiction⟩
  · rename_i ho
    exact ⟨fun _ => rfl, fun _ hc => (nomatch ho.symm.trans hc), h.finished⟩
  · exact ⟨fun _ => rfl, fun _ hc => (nomatch hc), fun _ hc => by cases hc <;> contradiction⟩

end Conn.Sound

/-! ## What a move does to a socket -/

theorem forall_modify {P : Conn → Prop} {l : List Conn} {k : ℕ} {f : Conn → Conn}
    (hl : ∀ (j : ℕ) (c : Conn), l[j]? = some c → P c)
    (hf : ∀ c, l[k]? = some c → P c → P (f c)) (j : ℕ) (c : Conn)
    (hc : (l.modify k f)[j]? = some c) : P c := by
  rcases getElem?_modify_eq_some hc with ⟨rfl, c₀, hc₀, rfl⟩ | ⟨-, hc⟩
  · exact hf c₀ hc₀ (hl k c₀ hc₀)
  · exact hl j c hc

theorem forall_concat {P : Conn → Prop} {l : List Conn} {c₀ : Conn}
    (hl : ∀ (j : ℕ) (c : Conn), l[j]? = some c → P c) (h₀ : P c₀) (j : ℕ) (c : Conn)
    (hc : (l ++ [c₀])[j]? = some c) : P c := by
  rcases getElem?_concat_eq_some hc with ⟨-, rfl⟩ | hc
  · exact h₀
  · exact hl j c hc

theorem Owned.move_sound (o : Owned s) (w : Wired s) (m : Move cat cfg now s action s') :
    ∀ (k : ℕ) (c : Conn), s'.conns[k]? = some c → c.Sound := by
  cases m with
  | refresh | pipelineFor | pipelineKnown | turn | refused | inspect | inspectDone | cache
  | releaseDone | dialFailed | dialSettled => exact o.sound
  | dial => exact forall_concat o.sound (.create _ _)
  | unreachable _ i t a rest inspecting probe pipelines clients conns missed task awaited left
      dropped =>
    rcases dropped with ⟨-, rfl⟩ | ⟨-, -, rfl⟩
    · exact o.sound
    · change ∀ (k : ℕ) (c : Conn), (closeClient s a)[k]? = some c → c.Sound
      unfold closeClient
      split
      · exact forall_modify o.sound fun _ _ h => h.close
      · exact o.sound
  | releaseClients =>
    intro k c hc
    obtain ⟨c₀, hc₀, rfl⟩ := Option.map_eq_some_iff.mp (List.getElem?_mapIdx.symm.trans hc)
    split_ifs with hk
    · obtain ⟨⟨a, ha⟩, -⟩ := mem_toFinish hk
      obtain ⟨c₁, hc₁, -, hstored⟩ := w.clients a k ha
      obtain rfl : c₁ = c₀ := Option.some.inj (hc₁.symm.trans hc₀)
      exact (o.sound k c₁ hc₁).finish hstored
    · exact o.sound k c₀ hc₀
  | finishSettled | socketLost => exact forall_modify o.sound fun _ _ h => h.close
  | protocolError => exact forall_modify o.sound fun _ _ h => h.fail
  | socketOpened d x k fallback c dial phase conn socket =>
    refine forall_modify o.sound fun c' hc' h => ?_
    obtain rfl : c' = c := Option.some.inj (hc'.symm.trans conn)
    -- a client that still connects is neither settled nor finishing
    have hheld : c'.held := Or.inl socket
    refine ⟨fun hs => ?_, fun _ hc => (nomatch hc), fun hf => absurd hheld (h.finished hf)⟩
    exact absurd socket (h.connected (h.settled hs))
  | helloAcked d x k fallback c dial phase conn socket =>
    refine forall_modify o.sound fun c' hc' h => ?_
    obtain rfl : c' = c := Option.some.inj (hc'.symm.trans conn)
    exact ⟨fun _ => rfl, fun _ hc => (nomatch socket.symm.trans hc), h.finished⟩
  | fellBack =>
    exact forall_concat (forall_modify o.sound fun _ _ h => h.connectFailed _) (.create _ _)
  | attemptFailed => exact forall_modify o.sound fun _ _ h => h.connectFailed _
  | dialSucceeded d x k dial phase =>
    refine forall_modify o.sound fun c hc h => ?_
    obtain ⟨c', hc', hsettled⟩ := o.resolved d x k dial phase
    obtain rfl : c' = c := Option.some.inj (hc'.symm.trans hc)
    exact ⟨fun _ => hsettled, h.connected, h.finished⟩

theorem Owned.move_settled (o : Owned s) (m : Move cat cfg now s action s') {k : ℕ} {c : Conn}
    (hc : s.conns[k]? = some c) (hs : c.settled = true) :
    ∃ c', s'.conns[k]? = some c' ∧ c'.settled = true := by
  have hmodify : ∀ {j : ℕ} {f : Conn → Conn},
      (j = k → (f c).settled = true) → ∃ c', (s.conns.modify j f)[k]? = some c' ∧
        c'.settled = true := by
    intro j f hf
    by_cases hjk : j = k
    · subst hjk
      exact ⟨f c, by simp [hc], hf rfl⟩
    · exact ⟨c, by simp [hjk, hc], hs⟩
  have happend : ∀ {l new : List Conn}, (∃ c', l[k]? = some c' ∧ c'.settled = true) →
      ∃ c', (l ++ new)[k]? = some c' ∧ c'.settled = true := by
    rintro l new ⟨c', hc', hs'⟩
    have hk : k < l.length := (List.getElem?_eq_some_iff.mp hc').1
    exact ⟨c', (List.getElem?_append_left hk).trans hc', hs'⟩
  have hfail : ∀ {closes : Bool}, (c.connectFailed closes).settled = true := by
    intro closes
    unfold Conn.connectFailed
    split <;> rfl
  cases m with
  | refresh | pipelineFor | pipelineKnown | turn | refused | inspect | inspectDone | cache
  | releaseDone | dialFailed | dialSettled => exact ⟨c, hc, hs⟩
  | dial => exact happend ⟨c, hc, hs⟩
  | unreachable _ i t a rest inspecting probe pipelines clients conns missed task awaited left
      dropped =>
    rcases dropped with ⟨-, rfl⟩ | ⟨-, -, rfl⟩
    · exact ⟨c, hc, hs⟩
    · change ∃ c', (closeClient s a)[k]? = some c' ∧ c'.settled = true
      unfold closeClient
      split
      · exact hmodify fun _ => hs
      · exact ⟨c, hc, hs⟩
  | releaseClients =>
    refine ⟨if k ∈ toFinish s then c.finish else c, ?_, ?_⟩
    · exact List.getElem?_mapIdx.trans (by rw [hc]; rfl)
    · split_ifs
      · exact hs
      · exact hs
  | finishSettled | socketLost | protocolError | dialSucceeded => exact hmodify fun _ => hs
  | socketOpened d x j fallback c₀ dial phase conn socket =>
    apply hmodify
    rintro rfl
    obtain rfl : c₀ = c := Option.some.inj (conn.symm.trans hc)
    exact absurd socket ((o.sound j c₀ hc).connected hs)
  | helloAcked => exact hmodify fun _ => rfl
  | fellBack => exact happend (hmodify fun _ => hfail)
  | attemptFailed => exact hmodify fun _ => hfail

theorem Owned.move_resolved (o : Owned s) (m : Move cat cfg now s action s') (d : ℕ) (x : Dial)
    (k : ℕ) (hx : s'.dials[d]? = some x) (hp : x.phase = .resolved k) :
    ∃ c, s'.conns[k]? = some c ∧ c.settled = true := by
  have hold : s.dials[d]? = some x → ∃ c, s'.conns[k]? = some c ∧ c.settled = true := by
    intro hx
    obtain ⟨c, hc, hs⟩ := o.resolved d x k hx hp
    exact o.move_settled m hc hs
  cases m with
  | refresh | pipelineFor | pipelineKnown | turn | refused | inspect | inspectDone | unreachable
  | cache | releaseClients | finishSettled | releaseDone | protocolError | socketLost =>
    exact hold hx
  | dial =>
    rcases getElem?_concat_eq_some hx with ⟨-, rfl⟩ | hx
    · cases hp
    · exact hold hx
  | socketOpened e y j fallback c dial phase conn =>
    rcases getElem?_modify_eq_some hx with ⟨-, y', -, rfl⟩ | ⟨-, hx⟩
    · dsimp only at hp
      split_ifs at hp with hhop
      obtain rfl : j = k := by simpa using hp
      refine ⟨{ c with socket := .opened, settled := !c.hop }, ?_, by simp [hhop]⟩
      simp [socketOpened, State.record, conn]
    · exact hold hx
  | helloAcked e y j fallback c dial phase conn =>
    rcases getElem?_modify_eq_some hx with ⟨-, y', -, rfl⟩ | ⟨-, hx⟩
    · obtain rfl : j = k := by simpa using hp
      exact ⟨{ c with settled := true }, by simp [State.modifyConn, State.setPhase, conn], rfl⟩
    · exact hold hx
  | fellBack | attemptFailed | dialSucceeded | dialFailed | dialSettled =>
    rcases getElem?_modify_eq_some hx with ⟨-, y', -, rfl⟩ | ⟨-, hx⟩
    · cases hp
    · exact hold hx

theorem current_modify {a : Agent} {d k : ℕ} {x : Dial} {f : Dial → Dial}
    (dial : s.dials[d]? = some x) (hs : s'.dials = s.dials.modify d f)
    (hagent : (f x).agent = x.agent)
    (hkeep : x.phase.conn = some k → (f x).phase.conn = some k) (h : Current s a k) :
    Current s' a k := by
  obtain ⟨e, y, hy, ha, hk⟩ := h
  unfold Current
  rw [hs]
  by_cases hde : d = e
  · subst hde
    obtain rfl : y = x := Option.some.inj (hy.symm.trans dial)
    exact ⟨d, f y, by simp [hy], hagent.trans ha, hkeep hk⟩
  · exact ⟨e, y, by simp [hde, hy], ha, hk⟩

theorem connectFailed_not_held (c : Conn) : ¬(c.connectFailed true).held := by
  unfold Conn.connectFailed
  split
  · rintro (hc | hc) <;> cases hc
  · rename_i heq
    cases heq
  · rintro (hc | hc) <;> cases hc

theorem Move.held_from (h : Move cat cfg now s action s') {k : ℕ} {c' : Conn}
    (hk : s'.conns[k]? = some c') (hheld : c'.held) :
    (∃ c, s.conns[k]? = some c ∧ c.agent = c'.agent ∧ c.held) ∨ Current s' c'.agent k := by
  have hgrown := h.grown
  -- a client that was there before has kept its agent, and its socket was there
  have hold : ∀ c, s.conns[k]? = some c → ∃ c, s.conns[k]? = some c ∧ c.agent = c'.agent ∧ c.held := by
    intro c hc
    obtain ⟨c'', hc'', hlater⟩ := hgrown.conns k c hc
    obtain rfl : c'' = c' := Option.some.inj (hc''.symm.trans hk)
    exact ⟨c, hc, hlater.agent.symm, hlater.held hheld⟩
  cases hc : s.conns[k]? with
  | some c => exact Or.inl (hc ▸ hold c hc)
  | none =>
    right
    have hmodify : ∀ {j : ℕ} {f : Conn → Conn}, (s.conns.modify j f)[k]? ≠ some c' := by
      intro j f hk
      rw [List.getElem?_modify, hc] at hk
      cases hk
    cases h with
    | refresh | pipelineFor | pipelineKnown | turn | refused | inspect | inspectDone | cache
    | releaseDone | dialFailed | dialSettled => exact absurd (hc.symm.trans hk) (by simp)
    | dial i t t' a =>
      rcases getElem?_concat_eq_some hk with ⟨rfl, rfl⟩ | hk
      · exact ⟨s.dials.length, ⟨a, false, .attempt s.conns.length false⟩, by
          simp [Bridge.dial, State.setTask, State.setGuard], rfl, rfl⟩
      · exact absurd (hc.symm.trans hk) (by simp)
    | unreachable _ i t a rest inspecting probe pipelines clients conns missed task awaited left
        dropped =>
      rcases dropped with ⟨-, rfl⟩ | ⟨-, -, rfl⟩
      · exact absurd (hc.symm.trans hk) (by simp)
      · change (closeClient s a)[k]? = some c' at hk
        unfold closeClient at hk
        split at hk
        · exact absurd hk hmodify
        · exact absurd (hc.symm.trans hk) (by simp)
    | releaseClients =>
      have hnone := List.getElem?_mapIdx.symm.trans hk
      rw [hc] at hnone
      cases hnone
    | fellBack d x j c why dial phase conn =>
      rcases getElem?_concat_eq_some hk with ⟨rfl, rfl⟩ | hk
      · refine ⟨d, { x with phase := .attempt s.conns.length true }, ?_, rfl, by simp [DialPhase.conn]⟩
        simp [State.setPhase, dial]
      · exact absurd hk hmodify
    | finishSettled | socketLost | protocolError | socketOpened | helloAcked | attemptFailed
    | dialSucceeded => exact absurd hk hmodify

/-! ## The sockets stay owned -/

theorem eq_of_modify {l : List Conn} {k : ℕ} {f : Conn → Conn} {c c' : Conn}
    (hc : l[k]? = some c) (hc' : (l.modify k f)[k]? = some c') : c' = f c := by
  rcases getElem?_modify_eq_some hc' with ⟨-, c₀, hc₀, rfl⟩ | ⟨hne, -⟩
  · rw [Option.some.inj (hc₀.symm.trans hc)]
  · exact absurd rfl hne

theorem Owned.move_current {e : Event} (o : Owned s) (w : Wired s) (hd : Holds s)
    (hb : handsBack cfg s e = true) (m : Move cat cfg e.now s e.action s') (k : ℕ) (c' : Conn)
    (hk : s'.conns[k]? = some c') (hheld : c'.held) :
    (s'.stopping = false ∧ s'.clients.lookup c'.agent = some k) ∨ Current s' c'.agent k := by
  rcases m.held_from hk hheld with ⟨c, hc, hagent, hch⟩ | hcur
  swap
  · exact Or.inr hcur
  have hold := o.current k c hc hch
  rw [hagent] at hold
  have hdials : ∀ {d : ℕ} {x : Dial} {f : Dial → Dial}, s.dials[d]? = some x →
      s'.dials = s.dials.modify d f → (f x).agent = x.agent →
      (x.phase.conn = some k → (f x).phase.conn = some k) → s'.stopping = s.stopping →
      s'.clients = s.clients →
      (s'.stopping = false ∧ s'.clients.lookup c'.agent = some k) ∨ Current s' c'.agent k := by
    intro d x f dial hs ha hkeep hstop hclients
    rw [hstop, hclients]
    exact hold.imp_right (current_modify dial hs ha hkeep)
  -- an attempt that fails destroys its socket, unless it fails on a frame
  have hgone : ∀ {d : ℕ} {why : Failure},
      (s.conns.modify k fun c => c.connectFailed (why ≠ .protocol))[k]? = some c' →
      e.action = .attemptFailed d why → ¬c'.held := by
    intro d why hk haction
    have hwhy : decide (why ≠ .protocol) = true := by simpa [handsBack, haction] using hb
    rw [eq_of_modify hc hk, hwhy]
    exact connectFailed_not_held c
  generalize haction : e.action = action at m
  cases m with
  | refresh | pipelineFor | pipelineKnown | turn | refused | inspect | inspectDone | cache
  | finishSettled | protocolError | socketLost => exact hold
  | dial =>
    refine hold.imp_right ?_
    rintro ⟨d, x, hx, ha, hconn⟩
    have hd : d < s.dials.length := (List.getElem?_eq_some_iff.mp hx).1
    exact ⟨d, x, (List.getElem?_append_left hd).trans hx, ha, hconn⟩
  | unreachable _ i t a rest inspecting probe pipelines clients conns missed task awaited left
      dropped =>
    rcases dropped with ⟨rfl, -⟩ | ⟨-, rfl, rfl⟩
    · exact hold
    · refine hold.imp_left fun ⟨hstop, hlook⟩ => ⟨hstop, ?_⟩
      have hne : c'.agent ≠ a := by
        -- the client of the agent itself has just been closed
        rintro rfl
        change (closeClient s c'.agent)[k]? = some c' at hk
        simp only [closeClient, hlook] at hk
        rw [eq_of_modify hc hk] at hheld
        rcases hheld with hh | hh <;> cases hh
      exact (AList.lookup_erase_ne hne).trans hlook
  | releaseClients =>
    right
    rcases hold with ⟨-, hlook⟩ | hcur
    · exfalso
      have hopen : c.closed = false := by
        simp only [handsBack, haction, List.all_eq_true] at hb
        have hen := hb ⟨c'.agent, k⟩ ((Table.mem_entries_iff s.clients _ _).mpr hlook)
        simpa [hc, hch] using hen
      have hfin : c.finishing = false := by
        cases hf : c.finishing with
        | false => rfl
        | true => exact absurd hch ((o.sound k c hc).finished hf)
      have hmem : k ∈ toFinish s := by
        refine List.mem_filter.mpr ⟨List.mem_map.mpr ⟨⟨c'.agent, k⟩, ?_, rfl⟩, ?_⟩
        · exact (Table.mem_entries_iff s.clients _ _).mpr hlook
        · simp [hc, Conn.canSend, hfin, hopen]
      -- FINISH has been sent on it
      obtain ⟨c₁, hc₁, -, hstored⟩ := w.clients _ k hlook
      obtain rfl : c₁ = c := Option.some.inj (hc₁.symm.trans hc)
      have hfinish := List.getElem?_mapIdx.symm.trans hk
      rw [hc, Option.map_some, if_pos hmem] at hfinish
      rw [← Option.some.inj hfinish] at hheld
      exact ((o.sound k c₁ hc).finish hstored).finished rfl hheld
    · exact hcur
  | releaseDone i task =>
    have hstop := hd.releasing i _ task rfl
    rcases hold with ⟨hrun, -⟩ | hcur
    · exact absurd (hrun.symm.trans hstop) (by simp)
    · exact Or.inr hcur
  | socketOpened d x j fallback c₀ dial phase conn socket =>
    refine hdials dial rfl rfl (fun hconn => ?_) rfl rfl
    rw [phase] at hconn
    dsimp only
    split_ifs
    · exact hconn
    · exact hconn
  | helloAcked d x j fallback c₀ dial phase =>
    refine hdials dial rfl rfl (fun hconn => ?_) rfl rfl
    rw [phase] at hconn
    exact hconn
  | fellBack d x j c₀ why dial phase conn socket hop =>
    refine hdials dial rfl rfl (fun hconn => ?_) rfl rfl
    rw [phase] at hconn
    obtain rfl : j = k := Option.some.inj hconn
    have hlt : j < (s.conns.modify j fun c => c.connectFailed (why ≠ .protocol)).length := by
      rw [List.length_modify]
      exact (List.getElem?_eq_some_iff.mp hc).1
    exact absurd hheld (hgone ((List.getElem?_append_left hlt).symm.trans hk) haction)
  | attemptFailed d x j fallback c₀ why dial phase conn socket last =>
    refine hdials dial rfl rfl (fun hconn => ?_) rfl rfl
    rw [phase] at hconn
    obtain rfl : j = k := Option.some.inj hconn
    exact absurd hheld (hgone hk haction)
  | dialSucceeded d x j dial phase =>
    have hpend : Pending s x.agent := ⟨d, x, dial, rfl, by rw [phase]; rfl⟩
    by_cases hjk : j = k
    · subst hjk
      left
      have hw := w.dials d x dial
      rw [phase] at hw
      obtain ⟨c₁, hc₁, ha⟩ := hw
      obtain rfl : c₁ = c := Option.some.inj (hc₁.symm.trans hc)
      have hrun : s.stopping = false := by
        simpa [handsBack, haction, dial, phase, hc, hch] using hb
      refine ⟨hrun, ?_⟩
      rw [← hagent, ha]
      exact AList.lookup_insert s.clients
    · rcases hold with ⟨hrun, hlook⟩ | hcur
      · have hne : c'.agent ≠ x.agent := by
          -- the client that is replaced has no socket any more
          intro ha
          exact o.exclusive x.agent k c hpend (ha ▸ hlook) hc hch
        exact Or.inl ⟨hrun, (AList.lookup_insert_ne hne).trans hlook⟩
      · refine Or.inr (current_modify dial rfl rfl (fun hconn => ?_) hcur)
        rw [phase] at hconn
        exact absurd (Option.some.inj hconn) hjk
  | dialFailed d x dial phase =>
    refine hdials dial rfl rfl (fun hconn => ?_) rfl rfl
    rw [phase] at hconn
    cases hconn
  | dialSettled d x result dial phase =>
    refine hdials dial rfl rfl (fun hconn => ?_) rfl rfl
    rw [phase] at hconn
    cases result <;> cases hconn

theorem Owned.move_exclusive {e : Event} (o : Owned s) (w : Wired s)
    (hb : handsBack cfg s e = true) (m : Move cat cfg e.now s e.action s') (a : Agent) (k : ℕ)
    (c' : Conn) (hp : Pending s' a) (hk : s'.clients.lookup a = some k)
    (hc' : s'.conns[k]? = some c') : ¬c'.held := by
  intro hheld
  rcases m.clients_from hk with hlook | ⟨d, x, dial, phase, rfl, rfl⟩
  · obtain ⟨c, hc, -, -⟩ := w.clients a k hlook
    have hch : c.held := by
      obtain ⟨c'', hc'', hlater⟩ := m.grown.conns k c hc
      obtain rfl : c'' = c' := Option.some.inj (hc''.symm.trans hc')
      exact hlater.held hheld
    rcases m.pending_from hp with hp | ⟨-, -, -, i, haction, hasked, hdials⟩
    · exact o.exclusive a k c hp hlook hc hch
    · simp [handsBack, haction, hasked, hdials, State.heldClient, hlook, hc, hch] at hb
  · exact not_pending_dialSucceeded w dial phase hp

theorem Owned.move {e : Event} (o : Owned s) (w : Wired s) (hd : Holds s)
    (hb : handsBack cfg s e = true) (m : Move cat cfg e.now s e.action s') : Owned s' where
  sound := o.move_sound w m
  resolved := o.move_resolved m
  current := o.move_current w hd hb m
  exclusive := o.move_exclusive w hb m

theorem Owned.tick (o : Owned s) (now : ℕ) : Owned { s with clock := now } where
  sound := o.sound
  resolved := o.resolved
  current := o.current
  exclusive := o.exclusive

theorem owned_run {es : List Event}
    (hb : Along (step cat cfg) (fun s e => handsBack cfg s e = true) .initial es)
    (h : runs (step cat cfg) .initial es = some s) : (Wired s ∧ Holds s) ∧ Owned s := by
  refine runs_invariant (I := fun s => (Wired s ∧ Holds s) ∧ Owned s) (fun s e s' hb hi hs => ?_)
    hb h ⟨⟨wired_initial, holds_initial⟩, owned_initial⟩
  obtain ⟨-, m⟩ := step_move hs
  have w := hi.1.1.tick e.now
  have hd := hi.1.2.tick e.now
  have hb' : handsBack cfg { s with clock := e.now } e = true := hb
  exact ⟨⟨w.move m, hd.move w m⟩, (hi.2.tick e.now).move w hd hb' m⟩

theorem Owned.held_unique (o : Owned s) (w : Wired s) {k k' : ℕ} {c c' : Conn}
    (hc : s.conns[k]? = some c) (hc' : s.conns[k']? = some c') (hh : c.held) (hh' : c'.held)
    (ha : c.agent = c'.agent) : k = k' := by
  have hflight : ∀ {a : Agent} {d : ℕ} {x : Dial} {j : ℕ}, s.dials[d]? = some x → x.agent = a →
      x.phase.conn = some j → InFlightAt s a d ∧ Pending s a := by
    intro a d x j hx hxa hj
    have hp := DialPhase.pending_of_conn hj
    exact ⟨⟨x, hx, hxa, DialPhase.inFlight_of_pending hp⟩, ⟨d, x, hx, hxa, hp⟩⟩
  rcases o.current k c hc hh with ⟨-, hlook⟩ | ⟨d, x, hx, hxa, hk⟩
  · rcases o.current k' c' hc' hh' with ⟨-, hlook'⟩ | ⟨d', x', hx', hxa', hk'⟩
    · rw [ha] at hlook
      exact Option.some.inj (hlook.symm.trans hlook')
    · have hpend := (hflight hx' hxa' hk').2
      exact absurd hh (o.exclusive c'.agent k c hpend (ha ▸ hlook) hc)
  · rcases o.current k' c' hc' hh' with ⟨-, hlook'⟩ | ⟨d', x', hx', hxa', hk'⟩
    · have hpend := (hflight hx hxa hk).2
      exact absurd hh' (o.exclusive c.agent k' c' hpend (ha ▸ hlook') hc')
    · obtain rfl := w.inFlight_unique (hflight hx hxa hk).1 (hflight hx' (hxa'.trans ha.symm) hk').1
      obtain rfl : x = x' := Option.some.inj (hx.symm.trans hx')
      exact Option.some.inj (hk.symm.trans hk')

/-- No socket is abandoned in a run whose steps hand every open socket over: an
agent has at most one that is neither destroyed nor FINISHed, and once
`releaseClients` has completed and no dial is in flight there is none. -/
theorem sockets_owned {es : List Event}
    (hb : Along (step cat cfg) (fun s e => handsBack cfg s e = true) .initial es)
    (h : runs (step cat cfg) .initial es = some s) :
    (∀ (k k' : ℕ) (c c' : Conn), s.conns[k]? = some c → s.conns[k']? = some c' →
      c.socket = .opened → c'.socket = .opened → c.agent = c'.agent → k = k') ∧
    ((∃ i : ℕ, s.tasks[i]? = some .released) → (∀ a d, ¬InFlightAt s a d) →
      ∀ (k : ℕ) (c : Conn), s.conns[k]? = some c → c.socket ≠ .opened) := by
  obtain ⟨⟨w, hd⟩, o⟩ := owned_run hb h
  refine ⟨fun k k' c c' hc hc' ho ho' ha => o.held_unique w hc hc' (Or.inr ho) (Or.inr ho') ha, ?_⟩
  rintro ⟨i, hi⟩ hnone k c hc ho
  have hstop := hd.releasing i _ hi rfl
  rcases o.current k c hc (Or.inr ho) with ⟨hrun, -⟩ | ⟨d, x, hx, hxa, hk⟩
  · exact absurd (hrun.symm.trans hstop) (by simp)
  · have hp := DialPhase.pending_of_conn hk
    exact hnone x.agent d ⟨x, hx, rfl, DialPhase.inFlight_of_pending hp⟩

/-- The agent's connection is opened, released and FINISHed. -/
def releasedRun : List Event :=
  [⟨1, .refresh⟩, ⟨1, .advance 0⟩, ⟨2, .socketOpened 0⟩, ⟨2, .dialHandled 0⟩, ⟨2, .dialSettled 0⟩,
    ⟨3, .releaseClients⟩, ⟨4, .finishSettled 1 0⟩, ⟨4, .releaseDone 1⟩]

theorem sockets_owned_released :
    ∃ s, runs (step loneCatalog defaultConfig) .initial releasedRun = some s ∧
      s.tasks[1]? = some .released ∧ s.conns.length = 1 ∧
      ∀ (k : ℕ) (c : Conn), s.conns[k]? = some c → c.socket ≠ .opened := by
  obtain ⟨s, hs, hp⟩ := runs_exists (step loneCatalog defaultConfig) .initial releasedRun
    (fun s : State => decide (s.tasks[1]? = some Task.released ∧ s.conns.length = 1 ∧
      ∀ x ∈ s.dials, x.phase.inFlight = false)) (by decide +kernel)
  obtain ⟨htask, hlen, hdials⟩ := of_decide_eq_true hp
  refine ⟨s, hs, htask, hlen, (sockets_owned (by decide +kernel) hs).2 ⟨1, htask⟩ ?_⟩
  rintro a d ⟨x, hx, -, hflight⟩
  have hsettled := hdials x (List.mem_of_getElem? hx)
  exact absurd (hflight.symm.trans hsettled) (by simp)

/-- A frame the client rejects closes the idle client and leaves its socket open;
the next `refresh` dials again. -/
def replacedRun : List Event :=
  [⟨1, .refresh⟩, ⟨1, .advance 0⟩, ⟨2, .socketOpened 0⟩, ⟨2, .dialHandled 0⟩, ⟨2, .dialSettled 0⟩,
    ⟨3, .resume 0⟩, ⟨4, .inspectReplied 0⟩, ⟨4, .inspectDone 0⟩, ⟨4, .advance 0⟩,
    ⟨5, .protocolError 0⟩, ⟨6, .refresh⟩, ⟨6, .advance 1⟩, ⟨7, .socketOpened 1⟩]

/-- Then two sockets to the agent are open, and `clients` will know of one. -/
theorem sockets_abandoned :
    ∃ s, runs (step loneCatalog defaultConfig) .initial replacedRun = some s ∧
      ¬∀ (k k' : ℕ) (c c' : Conn), s.conns[k]? = some c → s.conns[k']? = some c' →
        c.socket = .opened → c'.socket = .opened → c.agent = c'.agent → k = k' := by
  obtain ⟨s, hs, hp⟩ := runs_exists (step loneCatalog defaultConfig) .initial replacedRun
    (fun s : State => decide (
      (s.conns[0]?.map fun c : Conn => (c.agent, c.socket)) = some ("a", Socket.opened) ∧
      (s.conns[1]?.map fun c : Conn => (c.agent, c.socket)) = some ("a", Socket.opened)))
    (by decide +kernel)
  obtain ⟨h₀, h₁⟩ := of_decide_eq_true hp
  obtain ⟨c₀, hc₀, he₀⟩ := Option.map_eq_some_iff.mp h₀
  obtain ⟨c₁, hc₁, he₁⟩ := Option.map_eq_some_iff.mp h₁
  refine ⟨s, hs, fun hunique => ?_⟩
  obtain ⟨ha₀, hs₀⟩ := Prod.mk.inj he₀
  obtain ⟨ha₁, hs₁⟩ := Prod.mk.inj he₁
  exact absurd (hunique 0 1 c₀ c₁ hc₀ hc₁ hs₀ hs₁ (ha₀.trans ha₁.symm)) (by decide)

end KvasirNet.Bridge
