import KvasirNet.Runs
import KvasirNet.TableSum
import Mathlib.Tactic.Common
import Mathlib.Tactic.SplitIfs

/-! The relay's register of the nodes that hold a tunnel: their ids, and the public
ports on which they can be dialled. -/
namespace KvasirNet.Tunnel

/-- The node id of a HELLO, which is any JSON value: a string, or another value with the
text that `String` makes of it. -/
inductive JsonId
  | text (s : String)
  | other (s : String)
  deriving DecidableEq, Repr

def JsonId.string : JsonId → String
  | .text s | .other s => s

/-- A HELLO, with what `verify` says of it. -/
inductive Hello
  | malformed
  | hello (nodeId : JsonId) (verified : Bool)
  deriving DecidableEq, Repr

/-- What the relay holds of a connection. `opening` is the port claimed for a listener
that is not open yet, `rejects` counts the teardowns that `reject` has put off. -/
structure Conn where
  nodeId : Option String
  publicPort : Option ℕ
  opening : Option ℕ
  listening : Bool
  rejects : ℕ
  destroyed : Bool
  closed : Bool
  deriving DecidableEq, Repr

def Conn.new : Conn := ⟨none, none, none, false, 0, false, false⟩

structure Relay where
  conns : List Conn
  nodes : Table String ℕ
  taken : List ℕ
  deriving DecidableEq

def Relay.initial : Relay := ⟨[], ∅, []⟩

structure Config where
  portFrom : ℕ
  portTo : ℕ

inductive Action
  | connect
  | hello (i : ℕ) (hello : Hello)
  -- a frame that `onFrame` or the parser refuses
  | refused (i : ℕ)
  | listening (i : ℕ)
  | openFailed (i : ℕ)
  | listenerError (i : ℕ)
  | rejected (i : ℕ)
  | idle (nodeId : String)
  | socketError (i : ℕ)
  | socketClose (i : ℕ)
  deriving DecidableEq, Repr

def claimPort (cfg : Config) (taken : List ℕ) : Option ℕ :=
  (List.range' cfg.portFrom (cfg.portTo + 1 - cfg.portFrom)).find? (· ∉ taken)

/-- `nodes.has`: the keys are strings. -/
def Relay.has (s : Relay) : JsonId → Bool
  | .text x => (s.nodes.lookup x).isSome
  | .other _ => false

def Conn.reject (c : Conn) : Conn := { c with rejects := c.rejects + 1 }

/-- The HELLO of a connection, up to the wait for its listener. -/
def Relay.hello (cfg : Config) (s : Relay) (i : ℕ) (c : Conn) : Hello → Relay
  | .malformed => { s with conns := s.conns.set i c.reject }
  | .hello id verified =>
    if c.nodeId.isSome || !verified || s.has id then { s with conns := s.conns.set i c.reject }
    else
      let c' := { c with nodeId := some id.string }
      match claimPort cfg s.taken with
      | none => { s with conns := s.conns.set i c'.reject }
      | some port =>
        { s with conns := s.conns.set i { c' with opening := some port }, taken := port :: s.taken }

/-- The listener is open, and the node registered. -/
def Relay.register (s : Relay) (i : ℕ) (c : Conn) (port : ℕ) : Relay :=
  { s with
    conns := s.conns.set i { c with publicPort := some port, opening := none, listening := true }
    nodes := match c.nodeId with
      | some x => s.nodes.insert x i
      | none => s.nodes }

/-- `Node.teardown`. -/
def Relay.teardown (s : Relay) (i : ℕ) (c : Conn) : Relay where
  conns := s.conns.set i { c with listening := false, destroyed := true }
  taken := match c.publicPort with
    | some port => s.taken.filter (· ≠ port)
    | none => s.taken
  nodes := match c.nodeId with
    | some x => s.nodes.erase x
    | none => s.nodes

/-- The connection that an action tears down, as the action finds it. -/
def Relay.torn (s : Relay) : Action → Option (ℕ × Conn)
  | .rejected i => (s.conns[i]?.filter (0 < ·.rejects)).map fun c => (i, { c with rejects := c.rejects - 1 })
  | .idle x => (s.nodes.lookup x).bind fun i => s.conns[i]?.map fun c => (i, c)
  | .socketError i => (s.conns[i]?.filter (!·.closed)).map fun c => (i, c)
  | .socketClose i => (s.conns[i]?.filter (!·.closed)).map fun c => (i, { c with closed := true })
  | _ => none

def step (cfg : Config) (s : Relay) : Action → Option Relay
  | .connect => some { s with conns := s.conns ++ [.new] }
  | .hello i h => (s.conns[i]?.filter (!·.destroyed)).map fun c => s.hello cfg i c h
  | .refused i => (s.conns[i]?.filter (!·.destroyed)).map fun c =>
    { s with conns := s.conns.set i c.reject }
  | .listening i => s.conns[i]?.bind fun c => c.opening.map fun port => s.register i c port
  | .openFailed i => s.conns[i]?.bind fun c => c.opening.map fun port =>
    { s with
      conns := s.conns.set i { c with opening := none, rejects := c.rejects + 1 }
      taken := s.taken.filter (· ≠ port) }
  | .listenerError i => (s.conns[i]?.filter (·.listening)).bind fun c => c.publicPort.map fun port =>
    { s with taken := s.taken.filter (· ≠ port) }
  | .rejected i => (s.torn (.rejected i)).map fun (i, c) => s.teardown i c
  | .idle x => (s.torn (.idle x)).map fun (i, c) => s.teardown i c
  | .socketError i => (s.torn (.socketError i)).map fun (i, c) => s.teardown i c
  | .socketClose i => (s.torn (.socketClose i)).map fun (i, c) => s.teardown i c

/-- The port of a connection that is listening or opening. -/
def Conn.holds (c : Conn) (port : ℕ) : Bool :=
  c.opening = some port ∨ (c.listening ∧ c.publicPort = some port)

/-- The node is registered, or about to be, under an id. -/
def Conn.claims (c : Conn) (x : String) : Bool :=
  c.nodeId = some x ∧ (c.opening.isSome ∨ c.listening)

/-- What the register rests on: a HELLO takes no id that another connection is opening or
listening under, a connection that is not listening is torn down only where its port and
its id are no other's by then, and no listener fails once it is open. -/
def orderly (s : Relay) (a : Action) : Bool :=
  match a with
  | .hello i (.hello id verified) =>
    (s.conns[i]?.any fun c => c.nodeId.isSome) || !verified || s.has id ||
      s.conns.all fun c => !c.claims id.string
  | .listenerError _ => false
  | a => (s.torn a).all fun (_, c) => c.listening ||
    (c.publicPort.all fun port => s.conns.all fun d => !d.holds port) &&
      (c.nodeId.all fun x => (s.nodes.lookup x).isNone)

structure Consistent (s : Relay) : Prop where
  ids : ∀ (i j : ℕ) (c d : Conn), s.conns[i]? = some c → s.conns[j]? = some d →
    c.listening = true → d.listening = true → c.nodeId = d.nodeId → i = j
  ports : ∀ (i j : ℕ) (c d : Conn) (port : ℕ), s.conns[i]? = some c → s.conns[j]? = some d →
    c.holds port = true → d.holds port = true → i = j
  taken : ∀ port, port ∈ s.taken ↔ ∃ c ∈ s.conns, c.holds port = true
  registered : ∀ (i : ℕ) (c : Conn), s.conns[i]? = some c → c.listening = true →
    ∃ x, c.nodeId = some x ∧ s.nodes.lookup x = some i

/-- A teardown of one node leaves the others registered, and their ports taken. -/
def OthersKept (cfg : Config) (s : Relay) (a : Action) : Prop :=
  ∀ i c s', s.torn a = some (i, c) → step cfg s a = some s' →
    (∀ (x : String) (j : ℕ), j ≠ i → s.nodes.lookup x = some j → s'.nodes.lookup x = some j) ∧
      ∀ (j : ℕ) (d : Conn) (port : ℕ), j ≠ i → s.conns[j]? = some d → d.holds port = true →
        port ∈ s'.taken

/-! ### One connection at a time -/

/-- What the fields of a connection say together: it opens once, under an id, and has a
public port from then on. -/
structure Conn.Shape (c : Conn) : Prop where
  fresh : c.nodeId = none → c.opening = none ∧ c.publicPort = none ∧ c.listening = false
  opening : c.opening.isSome = true → c.publicPort = none ∧ c.listening = false

structure Sound (s : Relay) : Prop where
  ids : ∀ (i j : ℕ) (c d : Conn) (x : String), s.conns[i]? = some c → s.conns[j]? = some d →
    c.claims x = true → d.claims x = true → i = j
  ports : ∀ (i j : ℕ) (c d : Conn) (port : ℕ), s.conns[i]? = some c → s.conns[j]? = some d →
    c.holds port = true → d.holds port = true → i = j
  taken : ∀ port, port ∈ s.taken ↔ ∃ c ∈ s.conns, c.holds port = true
  entry : ∀ (x : String) (i : ℕ), s.nodes.lookup x = some i →
    ∃ c, s.conns[i]? = some c ∧ c.nodeId = some x ∧ c.listening = true
  registered : ∀ (i : ℕ) (c : Conn), s.conns[i]? = some c → c.listening = true →
    ∃ x, c.nodeId = some x ∧ s.nodes.lookup x = some i
  shape : ∀ c ∈ s.conns, c.Shape

variable {x : String}

theorem claims_of_listening {c : Conn} (h : c.listening = true)
    (hx : c.nodeId = some x) : c.claims x = true := by
  simp [Conn.claims, h, hx]

theorem Sound.consistent {s : Relay} (h : Sound s) : Consistent s where
  ids i j c d hi hj hc hd hid := by
    obtain ⟨x, hx, -⟩ := h.registered i c hi hc
    exact h.ids i j c d x hi hj (claims_of_listening hc hx) (claims_of_listening hd (hid ▸ hx))
  ports := h.ports
  taken := h.taken
  registered := h.registered

theorem sound_initial : Sound .initial where
  ids i j c d x hi := by simp [Relay.initial] at hi
  ports i j c d port hi := by simp [Relay.initial] at hi
  taken port := by simp [Relay.initial]
  entry x i hx := by simp [Relay.initial] at hx
  registered i c hi := by simp [Relay.initial] at hi
  shape c hc := by simp [Relay.initial] at hc

theorem getElem?_set_cases {l : List Conn} {i j : ℕ} {c d : Conn}
    (h : (l.set i c)[j]? = some d) : (i = j ∧ d = c) ∨ (j ≠ i ∧ l[j]? = some d) := by
  rw [List.getElem?_set] at h
  split_ifs at h with hij hlt
  · exact Or.inl ⟨hij, (Option.some.inj h).symm⟩
  · exact Or.inr ⟨Ne.symm hij, h⟩

variable {cfg : Config} {s s' : Relay} {i : ℕ} {c c' : Conn}

/-- The connections other than `i`. -/
def Relay.Other (s : Relay) (i j : ℕ) (d : Conn) : Prop := j ≠ i ∧ s.conns[j]? = some d

theorem Sound.mem_taken (h : Sound s) (hi : s.conns[i]? = some c) (port : ℕ) :
    port ∈ s.taken ↔ c.holds port = true ∨ ∃ j d, s.Other i j d ∧ d.holds port = true := by
  rw [h.taken port]
  constructor
  · rintro ⟨d, hd, hholds⟩
    obtain ⟨j, hj⟩ := List.mem_iff_getElem?.mp hd
    by_cases hij : j = i
    · subst hij
      obtain rfl := Option.some.inj (hi.symm.trans hj)
      exact Or.inl hholds
    · exact Or.inr ⟨j, d, ⟨hij, hj⟩, hholds⟩
  · rintro (hholds | ⟨j, d, ⟨-, hj⟩, hholds⟩)
    · exact ⟨c, List.mem_of_getElem? hi, hholds⟩
    · exact ⟨d, List.mem_of_getElem? hj, hholds⟩

/-- One connection takes another's place in the register, with the ports and the entries
that go with it. -/
theorem Sound.set (h : Sound s) (hi : s.conns[i]? = some c) {taken : List ℕ}
    {nodes : Table String ℕ}
    (hclaims : ∀ x, c'.claims x = true → ∀ j d, s.Other i j d → d.claims x = false)
    (hports : ∀ port, c'.holds port = true → ∀ j d, s.Other i j d → d.holds port = false)
    (htaken : ∀ port, port ∈ taken ↔
      c'.holds port = true ∨ ∃ j d, s.Other i j d ∧ d.holds port = true)
    (hentry : ∀ x j, nodes.lookup x = some j →
      (j = i ∧ c'.nodeId = some x ∧ c'.listening = true) ∨ (j ≠ i ∧ s.nodes.lookup x = some j))
    (hregistered : c'.listening = true → ∃ x, c'.nodeId = some x ∧ nodes.lookup x = some i)
    (hothers : ∀ x j, j ≠ i → s.nodes.lookup x = some j → nodes.lookup x = some j)
    (hshape : c'.Shape) : Sound ⟨s.conns.set i c', nodes, taken⟩ where
  ids j k d e x hj hk hd he := by
    rcases getElem?_set_cases hj with ⟨rfl, rfl⟩ | hjold
    · rcases getElem?_set_cases hk with ⟨rfl, rfl⟩ | hkold
      · rfl
      · exact absurd he (by simp [hclaims x hd k e hkold])
    · rcases getElem?_set_cases hk with ⟨rfl, rfl⟩ | hkold
      · exact absurd hd (by simp [hclaims x he j d hjold])
      · exact h.ids j k d e x hjold.2 hkold.2 hd he
  ports j k d e port hj hk hd he := by
    rcases getElem?_set_cases hj with ⟨rfl, rfl⟩ | hjold
    · rcases getElem?_set_cases hk with ⟨rfl, rfl⟩ | hkold
      · rfl
      · exact absurd he (by simp [hports port hd k e hkold])
    · rcases getElem?_set_cases hk with ⟨rfl, rfl⟩ | hkold
      · exact absurd hd (by simp [hports port he j d hjold])
      · exact h.ports j k d e port hjold.2 hkold.2 hd he
  taken port := by
    have hlt := (List.getElem?_eq_some_iff.mp hi).1
    rw [htaken port]
    constructor
    · rintro (hholds | ⟨j, d, ⟨hji, hj⟩, hholds⟩)
      · exact ⟨c', List.mem_iff_getElem?.mpr ⟨i, List.getElem?_set_self hlt⟩, hholds⟩
      · refine ⟨d, List.mem_iff_getElem?.mpr ⟨j, ?_⟩, hholds⟩
        rw [List.getElem?_set_ne (Ne.symm hji), hj]
    · rintro ⟨d, hd, hholds⟩
      obtain ⟨j, hj⟩ := List.mem_iff_getElem?.mp hd
      rcases getElem?_set_cases hj with ⟨rfl, rfl⟩ | hj
      · exact Or.inl hholds
      · exact Or.inr ⟨j, d, hj, hholds⟩
  entry x j hx := by
    have hlt := (List.getElem?_eq_some_iff.mp hi).1
    rcases hentry x j hx with ⟨rfl, hid, hlistening⟩ | ⟨hji, hold⟩
    · exact ⟨c', List.getElem?_set_self hlt, hid, hlistening⟩
    · obtain ⟨d, hj, hd⟩ := h.entry x j hold
      exact ⟨d, (List.getElem?_set_ne (Ne.symm hji)).trans hj, hd⟩
  registered j d hj hd := by
    rcases getElem?_set_cases hj with ⟨rfl, rfl⟩ | hj
    · exact hregistered hd
    · obtain ⟨x, hx, hlookup⟩ := h.registered j d hj.2 hd
      exact ⟨x, hx, hothers x j hj.1 hlookup⟩
  shape d hd := by
    rcases List.mem_or_eq_of_mem_set hd with hold | rfl
    · exact h.shape d hold
    · exact hshape

structure Conn.Same (c c' : Conn) : Prop where
  nodeId : c'.nodeId = c.nodeId
  publicPort : c'.publicPort = c.publicPort
  opening : c'.opening = c.opening
  listening : c'.listening = c.listening

theorem Conn.Same.holds (h : c.Same c') (port : ℕ) : c'.holds port = c.holds port := by
  simp only [Conn.holds, h.opening, h.listening, h.publicPort]

theorem Conn.Same.claims (h : c.Same c') (x : String) : c'.claims x = c.claims x := by
  simp only [Conn.claims, h.opening, h.listening, h.nodeId]

theorem Conn.Same.shape (h : c.Same c') (hc : c.Shape) : c'.Shape := by
  refine ⟨fun hid => ?_, fun hopen => ?_⟩
  · rw [h.opening, h.publicPort, h.listening]
    exact hc.fresh (h.nodeId ▸ hid)
  · rw [h.publicPort, h.listening]
    exact hc.opening (h.opening ▸ hopen)

theorem Sound.same (h : Sound s) (hi : s.conns[i]? = some c) (hsame : c.Same c') :
    Sound { s with conns := s.conns.set i c' } := by
  refine h.set hi (fun x hx j d hj => ?_) (fun port hp j d hj => ?_) (fun port => ?_)
    (fun x j hx => ?_) (fun hl => ?_) (fun x j _ hx => hx)
    (hsame.shape (h.shape c (List.mem_of_getElem? hi)))
  · cases hd : d.claims x with
    | false => rfl
    | true => exact absurd (h.ids j i d c x hj.2 hi hd (hsame.claims x ▸ hx)) hj.1
  · cases hd : d.holds port with
    | false => rfl
    | true => exact absurd (h.ports j i d c port hj.2 hi hd (hsame.holds port ▸ hp)) hj.1
  · rw [hsame.holds port]
    exact h.mem_taken hi port
  · by_cases hji : j = i
    · subst hji
      obtain ⟨d, hj, hid, hl⟩ := h.entry x j hx
      obtain rfl := Option.some.inj (hi.symm.trans hj)
      exact Or.inl ⟨rfl, hsame.nodeId.trans hid, hsame.listening.trans hl⟩
    · exact Or.inr ⟨hji, hx⟩
  · obtain ⟨x, hx, hlookup⟩ := h.registered i c hi (hsame.listening ▸ hl)
    exact ⟨x, hsame.nodeId.trans hx, hlookup⟩

theorem same_reject (c : Conn) : c.Same c.reject := ⟨rfl, rfl, rfl, rfl⟩

theorem Sound.entry_ne (h : Sound s) (hi : s.conns[i]? = some c) (hc : c.listening = false)
    {j : ℕ} (hx : s.nodes.lookup x = some j) : j ≠ i := by
  rintro rfl
  obtain ⟨d, hj, -, hd⟩ := h.entry x j hx
  obtain rfl := Option.some.inj (hi.symm.trans hj)
  exact absurd hd (by simp [hc])

/-! ### What the relay does -/

variable {port : ℕ}

theorem claimPort_free {taken : List ℕ} (h : claimPort cfg taken = some port) :
    port ∉ taken := by
  simpa using List.find?_some h

theorem sound_hello (h : Sound s) (hi : s.conns[i]? = some c) (hello : Hello)
    (hclear : ∀ id, hello = .hello id true → c.nodeId = none → s.has id = false →
      ∀ d ∈ s.conns, d.claims id.string = false) : Sound (s.hello cfg i c hello) := by
  unfold Relay.hello
  split
  · exact h.same hi (same_reject c)
  · rename_i id verified
    split_ifs with hrefused
    · exact h.same hi (same_reject c)
    · simp only [Bool.or_eq_true, not_or, Bool.not_eq_true, Option.isSome_eq_false_iff,
        Option.isNone_iff_eq_none, Bool.not_eq_false'] at hrefused
      obtain ⟨⟨hnew, rfl⟩, hfree⟩ := hrefused
      have hother := hclear id rfl hnew hfree
      obtain ⟨hopening, hport, hlistening⟩ := (h.shape c (List.mem_of_getElem? hi)).fresh hnew
      have hnone : ∀ port, c.holds port = false := by simp [Conn.holds, hopening, hlistening]
      dsimp only
      split
      · -- there is no free port
        refine h.set hi (fun x hx => ?_) (fun port hp => ?_) (fun port => ?_) (fun x j hx => ?_)
          (fun hl => ?_) (fun x j _ hx => hx) ⟨fun hid => ?_, fun hopen => ?_⟩
        · simp [Conn.claims, Conn.reject, hopening, hlistening] at hx
        · simp [Conn.holds, Conn.reject, hopening, hlistening] at hp
        · have hstill := h.mem_taken hi port
          simpa [hnone, Conn.holds, Conn.reject, hopening, hlistening] using hstill
        · exact Or.inr ⟨h.entry_ne hi hlistening hx, hx⟩
        · simp [Conn.reject, hlistening] at hl
        · cases hid
        · simp [Conn.reject, hopening] at hopen
      · -- a port is claimed, and the listener on its way
        rename_i port hclaim
        have huntaken := claimPort_free hclaim
        have hheld : ∀ j d, s.Other i j d → d.holds port = false := by
          intro j d hj
          cases hd : d.holds port with
          | false => rfl
          | true => exact absurd ((h.taken port).mpr ⟨d, List.mem_of_getElem? hj.2, hd⟩) huntaken
        refine h.set hi (fun x hx j d hj => ?_) (fun q hq j d hj => ?_) (fun q => ?_)
          (fun x j hx => ?_) (fun hl => ?_) (fun x j _ hx => hx) ⟨fun hid => ?_, fun _ => ?_⟩
        · obtain rfl : id.string = x := by
            simp only [Conn.claims, decide_eq_true_eq] at hx
            exact Option.some.inj hx.1
          exact hother d (List.mem_of_getElem? hj.2)
        · obtain rfl : port = q := by simpa [Conn.holds, hlistening] using hq
          exact hheld j d hj
        · have hown : (Conn.holds { c with nodeId := some id.string, opening := some port } q = true) ↔
              q = port := by
            simp only [Conn.holds, hlistening, decide_eq_true_eq, Option.some.injEq,
              Bool.false_eq_true, false_and, or_false]
            exact eq_comm
          rw [List.mem_cons, h.mem_taken hi q, hown]
          simp [hnone]
        · exact Or.inr ⟨h.entry_ne hi hlistening hx, hx⟩
        · simp [hlistening] at hl
        · cases hid
        · exact ⟨hport, hlistening⟩

theorem sound_register (h : Sound s) (hi : s.conns[i]? = some c)
    (hopening : c.opening = some port) : Sound (s.register i c port) := by
  have hshape := h.shape c (List.mem_of_getElem? hi)
  obtain ⟨-, hquiet⟩ := hshape.opening (by simp [hopening])
  obtain ⟨x, hx⟩ : ∃ x, c.nodeId = some x := by
    cases hid : c.nodeId with
    | some x => exact ⟨x, rfl⟩
    | none =>
      have hnone := (hshape.fresh hid).1
      simp [hopening] at hnone
  have hclaims : c.claims x = true := by simp [Conn.claims, hx, hopening]
  have hholds : c.holds port = true := by simp [Conn.holds, hopening]
  -- no other connection is registered under the id
  have hnone : s.nodes.lookup x = none := by
    cases hlookup : s.nodes.lookup x with
    | none => rfl
    | some j =>
      obtain ⟨d, hj, hid, hd⟩ := h.entry x j hlookup
      have hji := h.ids j i d c x hj hi (claims_of_listening hd hid) hclaims
      exact absurd hji (h.entry_ne hi hquiet hlookup)
  unfold Relay.register
  simp only [hx]
  refine h.set hi (fun y hy j d hj => ?_) (fun q hq j d hj => ?_) (fun q => ?_) (fun y j hy => ?_)
    (fun _ => ⟨x, rfl, AList.lookup_insert _⟩) (fun y j _ hy => ?_) ⟨fun hid => ?_, fun hopen => ?_⟩
  · obtain rfl : x = y := by simpa [Conn.claims] using hy
    cases hd : d.claims x with
    | false => rfl
    | true => exact absurd (h.ids j i d c x hj.2 hi hd hclaims) hj.1
  · obtain rfl : port = q := by simpa [Conn.holds] using hq
    cases hd : d.holds port with
    | false => rfl
    | true => exact absurd (h.ports j i d c port hj.2 hi hd hholds) hj.1
  · rw [h.mem_taken hi q]
    simp [Conn.holds, hopening, hquiet]
  · by_cases hyx : y = x
    · subst hyx
      rw [AList.lookup_insert] at hy
      exact Or.inl ⟨(Option.some.inj hy).symm, rfl, rfl⟩
    · rw [AList.lookup_insert_ne hyx] at hy
      exact Or.inr ⟨h.entry_ne hi hquiet hy, hy⟩
  · have hyx : y ≠ x := by
      rintro rfl
      cases hnone.symm.trans hy
    rwa [AList.lookup_insert_ne hyx]
  · cases hid
  · cases hopen

theorem mem_taken_filter (h : Sound s) (hi : s.conns[i]? = some c)
    (hc : ∀ q, c.holds q = true → q = port)
    (hothers : ∀ j d, s.Other i j d → d.holds port = false) (q : ℕ) :
    q ∈ s.taken.filter (· ≠ port) ↔ ∃ j d, s.Other i j d ∧ d.holds q = true := by
  rw [List.mem_filter, h.mem_taken hi q]
  constructor
  · rintro ⟨hq | hq, hne⟩
    · simp [hc q hq] at hne
    · exact hq
  · rintro ⟨j, d, hj, hd⟩
    refine ⟨Or.inr ⟨j, d, hj, hd⟩, ?_⟩
    have hne : q ≠ port := by
      rintro rfl
      simp [hothers j d hj] at hd
    simpa using hne

theorem others_of_holds (h : Sound s) (hi : s.conns[i]? = some c)
    (hc : c.holds port = true) : ∀ j d, s.Other i j d → d.holds port = false := by
  intro j d hj
  cases hd : d.holds port with
  | false => rfl
  | true => exact absurd (h.ports j i d c port hj.2 hi hd hc) hj.1

theorem sound_openFailed (h : Sound s) (hi : s.conns[i]? = some c)
    (hopening : c.opening = some port) :
    Sound { s with
      conns := s.conns.set i { c with opening := none, rejects := c.rejects + 1 }
      taken := s.taken.filter (· ≠ port) } := by
  have hshape := h.shape c (List.mem_of_getElem? hi)
  obtain ⟨hport, hquiet⟩ := hshape.opening (by simp [hopening])
  have hholds : c.holds port = true := by simp [Conn.holds, hopening]
  have honly : ∀ q, c.holds q = true → q = port := by
    intro q hq
    simpa [Conn.holds, hopening, hquiet, eq_comm] using hq
  refine h.set hi (fun y hy => ?_) (fun q hq => ?_) (fun q => ?_) (fun y j hy => ?_)
    (fun hl => ?_) (fun y j _ hy => hy) ⟨fun hid => ⟨rfl, hport, hquiet⟩, fun hopen => ?_⟩
  · simp [Conn.claims, hquiet] at hy
  · simp [Conn.holds, hquiet] at hq
  · rw [mem_taken_filter h hi honly (others_of_holds h hi hholds)]
    simp [Conn.holds, hquiet]
  · exact Or.inr ⟨h.entry_ne hi hquiet hy, hy⟩
  · simp [hquiet] at hl
  · cases hopen

/-- What a teardown may take away without harm: what the connection has itself, or what
nobody has. -/
def Relay.Tearable (s : Relay) (c : Conn) : Prop :=
  c.listening = true ∨
    ((∀ port, c.publicPort = some port → ∀ d ∈ s.conns, d.holds port = false) ∧
      ∀ x, c.nodeId = some x → s.nodes.lookup x = none)

theorem lookup_erase_cases {t : Table String ℕ} {y : String} {j : ℕ}
    (h : (t.erase x).lookup y = some j) : y ≠ x ∧ t.lookup y = some j := by
  by_cases hyx : y = x
  · subst hyx
    rw [AList.lookup_erase] at h
    cases h
  · exact ⟨hyx, by rwa [AList.lookup_erase_ne hyx] at h⟩

theorem lookup_teardown (h : Sound s) (hi : s.conns[i]? = some c) (hclear : s.Tearable c)
    (hx : c.nodeId = some x) {y : String} {j : ℕ} (hji : j ≠ i)
    (hy : s.nodes.lookup y = some j) : (s.nodes.erase x).lookup y = some j := by
  have hyx : y ≠ x := by
    rintro rfl
    rcases hclear with hlistening | ⟨-, hfree⟩
    · obtain ⟨z, hz, hlookup⟩ := h.registered i c hi hlistening
      obtain rfl := Option.some.inj (hx.symm.trans hz)
      exact hji (Option.some.inj (hy.symm.trans hlookup))
    · cases (hfree y hx).symm.trans hy
  rw [AList.lookup_erase_ne hyx, hy]

theorem sound_teardown (h : Sound s) (hi : s.conns[i]? = some c) (hsame : c.Same c')
    (hclear : s.Tearable c) : Sound (s.teardown i c') := by
  have hshape := h.shape c (List.mem_of_getElem? hi)
  obtain ⟨nodeId, publicPort, opening, listening, rejects, destroyed, closed⟩ := c'
  obtain ⟨rfl, rfl, rfl, rfl⟩ := hsame
  -- what is left of the connection is a listener on its way
  have hleft : ∀ q, Conn.holds ⟨c.nodeId, c.publicPort, c.opening, false, rejects, true, closed⟩ q =
      decide (c.opening = some q) := by
    intro q
    simp [Conn.holds]
  have hholds : ∀ q, c.opening = some q → c.holds q = true := by
    intro q hq
    simp [Conn.holds, hq]
  unfold Relay.teardown
  refine h.set hi (fun y hy j d hj => ?_) (fun q hq => ?_) (fun q => ?_) (fun y j hy => ?_)
    (fun hl => by cases hl) (fun y j hji hy => ?_) ⟨fun hid => ?_, fun hopen => ?_⟩
  · have hc : c.claims y = true := by
      simp only [Conn.claims, decide_eq_true_eq, Bool.false_eq_true, or_false] at hy
      simp [Conn.claims, hy.1, hy.2]
    cases hd : d.claims y with
    | false => rfl
    | true => exact absurd (h.ids j i d c y hj.2 hi hd hc) hj.1
  · exact others_of_holds h hi (hholds q (of_decide_eq_true (hleft q ▸ hq)))
  · rw [hleft q, decide_eq_true_eq]
    cases hport : c.publicPort with
    | none =>
      have hown : c.holds q = true ↔ c.opening = some q := by simp [Conn.holds, hport]
      rw [← hown]
      exact h.mem_taken hi q
    | some port =>
      have hopening : c.opening = none := by
        cases hopen : c.opening with
        | none => rfl
        | some p =>
          have hnone := (hshape.opening (by simp [hopen])).1
          cases hport.symm.trans hnone
      have honly : ∀ q, c.holds q = true → q = port := by
        intro q hq
        have hlistens : c.listening = true ∧ port = q := by
          simpa [Conn.holds, hopening, hport] using hq
        exact hlistens.2.symm
      have hothers : ∀ j d, s.Other i j d → d.holds port = false := by
        rcases hclear with hlistening | ⟨hfree, -⟩
        · exact others_of_holds h hi (by simp [Conn.holds, hlistening, hport])
        · exact fun j d hj => hfree port hport d (List.mem_of_getElem? hj.2)
      dsimp only
      rw [mem_taken_filter h hi honly hothers q, hopening]
      simp
  · cases hid : c.nodeId with
    | none =>
      rw [hid] at hy
      exact Or.inr ⟨h.entry_ne hi (hshape.fresh hid).2.2 hy, hy⟩
    | some x =>
      rw [hid] at hy
      obtain ⟨hyx, hold⟩ := lookup_erase_cases hy
      refine Or.inr ⟨?_, hold⟩
      rintro rfl
      obtain ⟨d, hj, hdid, -⟩ := h.entry y j hold
      obtain rfl := Option.some.inj (hi.symm.trans hj)
      exact hyx (Option.some.inj (hdid.symm.trans hid))
  · cases hid : c.nodeId with
    | none => exact hy
    | some x => exact lookup_teardown h hi hclear hid hji hy
  · obtain ⟨hopening, hport, -⟩ := hshape.fresh hid
    exact ⟨hopening, hport, rfl⟩
  · exact ⟨(hshape.opening hopen).1, rfl⟩

variable {a : Action}

theorem torn_cases (h : s.torn a = some (i, c')) :
    ∃ c, s.conns[i]? = some c ∧ c.Same c' := by
  cases a with
  | rejected j =>
    obtain ⟨c, hc, heq⟩ := Option.map_eq_some_iff.mp h
    obtain ⟨rfl, rfl⟩ := Prod.mk.inj heq
    exact ⟨c, (Option.filter_eq_some_iff.mp hc).1, ⟨rfl, rfl, rfl, rfl⟩⟩
  | idle x =>
    obtain ⟨j, -, hj⟩ := Option.bind_eq_some_iff.mp h
    obtain ⟨c, hc, heq⟩ := Option.map_eq_some_iff.mp hj
    obtain ⟨rfl, rfl⟩ := Prod.mk.inj heq
    exact ⟨c, hc, ⟨rfl, rfl, rfl, rfl⟩⟩
  | socketError j =>
    obtain ⟨c, hc, heq⟩ := Option.map_eq_some_iff.mp h
    obtain ⟨rfl, rfl⟩ := Prod.mk.inj heq
    exact ⟨c, (Option.filter_eq_some_iff.mp hc).1, ⟨rfl, rfl, rfl, rfl⟩⟩
  | socketClose j =>
    obtain ⟨c, hc, heq⟩ := Option.map_eq_some_iff.mp h
    obtain ⟨rfl, rfl⟩ := Prod.mk.inj heq
    exact ⟨c, (Option.filter_eq_some_iff.mp hc).1, ⟨rfl, rfl, rfl, rfl⟩⟩
  | connect | hello | refused | listening | openFailed | listenerError => cases h

theorem step_torn (h : s.torn a = some (i, c')) :
    step cfg s a = some (s.teardown i c') := by
  cases a with
  | rejected | idle | socketError | socketClose => simp only [step, h, Option.map_some]
  | connect | hello | refused | listening | openFailed | listenerError => cases h

theorem tearable_of_orderly (hclear : orderly s a = true)
    (h : s.torn a = some (i, c')) (hsame : c.Same c') : s.Tearable c := by
  have hcases : c'.listening = true ∨
      ((∀ port, c'.publicPort = some port → ∀ d ∈ s.conns, d.holds port = false) ∧
        ∀ x, c'.nodeId = some x → s.nodes.lookup x = none) := by
    cases a with
    | rejected | idle | socketError | socketClose =>
      simpa [orderly, h, Option.all_eq_true] using hclear
    | connect | hello | refused | listening | openFailed | listenerError => cases h
  rwa [hsame.listening, hsame.publicPort, hsame.nodeId] at hcases

theorem sound_connect (h : Sound s) : Sound { s with conns := s.conns ++ [.new] } := by
  have hold : ∀ {j : ℕ} {d : Conn}, (s.conns ++ [Conn.new])[j]? = some d →
      s.conns[j]? = some d ∨ (j = s.conns.length ∧ d = .new) := by
    intro j d hj
    rcases Nat.lt_or_ge j s.conns.length with hlt | hge
    · exact Or.inl (by rwa [List.getElem?_append_left hlt] at hj)
    · rw [List.getElem?_append_right hge] at hj
      obtain ⟨hk, hd⟩ := List.getElem?_eq_some_iff.mp hj
      have hone : j - s.conns.length < 1 := hk
      exact Or.inr ⟨by omega, by simpa using hd.symm⟩
  have hkept : ∀ {j : ℕ} {d : Conn}, s.conns[j]? = some d → (s.conns ++ [Conn.new])[j]? = some d := by
    intro j d hj
    rw [List.getElem?_append_left (List.getElem?_eq_some_iff.mp hj).1, hj]
  have hclaims : ∀ x, Conn.new.claims x = false := fun x => rfl
  have hholds : ∀ port, Conn.new.holds port = false := fun port => rfl
  constructor
  · intro j k c d x hj hk hc hd
    rcases hold hj with hj | ⟨-, rfl⟩
    · rcases hold hk with hk | ⟨-, rfl⟩
      · exact h.ids j k c d x hj hk hc hd
      · cases (hclaims x).symm.trans hd
    · cases (hclaims x).symm.trans hc
  · intro j k c d port hj hk hc hd
    rcases hold hj with hj | ⟨-, rfl⟩
    · rcases hold hk with hk | ⟨-, rfl⟩
      · exact h.ports j k c d port hj hk hc hd
      · cases (hholds port).symm.trans hd
    · cases (hholds port).symm.trans hc
  · intro port
    rw [h.taken port]
    simp [hholds port]
  · intro x j hx
    obtain ⟨d, hj, hd⟩ := h.entry x j hx
    exact ⟨d, hkept hj, hd⟩
  · intro j d hj hd
    rcases hold hj with hj | ⟨-, rfl⟩
    · exact h.registered j d hj hd
    · cases hd
  · intro d hd
    rcases List.mem_append.mp hd with hd | hd
    · exact h.shape d hd
    · obtain rfl := List.mem_singleton.mp hd
      exact ⟨fun _ => ⟨rfl, rfl, rfl⟩, fun hopen => by cases hopen⟩

theorem sound_step (h : Sound s) (hclear : orderly s a = true)
    (hstep : step cfg s a = some s') : Sound s' := by
  have hteardown : ∀ j d, s.torn a = some (j, d) → Sound s' := by
    intro j d htorn
    obtain ⟨c, hj, hsame⟩ := torn_cases htorn
    obtain rfl := Option.some.inj ((step_torn htorn).symm.trans hstep)
    exact sound_teardown h hj hsame (tearable_of_orderly hclear htorn hsame)
  cases a with
  | connect =>
    obtain rfl := Option.some.inj hstep
    exact sound_connect h
  | hello i hello =>
    obtain ⟨c, hc, rfl⟩ := Option.map_eq_some_iff.mp hstep
    have hi := (Option.filter_eq_some_iff.mp hc).1
    refine sound_hello h hi hello fun id hid hnew hfree => ?_
    subst hid
    have hall : ∀ d ∈ s.conns, d.claims id.string = false := by
      simpa [orderly, hi, hnew, hfree] using hclear
    exact hall
  | refused i =>
    obtain ⟨c, hc, rfl⟩ := Option.map_eq_some_iff.mp hstep
    exact h.same (Option.filter_eq_some_iff.mp hc).1 (same_reject c)
  | listening i =>
    obtain ⟨c, hi, hmap⟩ := Option.bind_eq_some_iff.mp hstep
    obtain ⟨port, hport, rfl⟩ := Option.map_eq_some_iff.mp hmap
    exact sound_register h hi hport
  | openFailed i =>
    obtain ⟨c, hi, hmap⟩ := Option.bind_eq_some_iff.mp hstep
    obtain ⟨port, hport, rfl⟩ := Option.map_eq_some_iff.mp hmap
    exact sound_openFailed h hi hport
  | listenerError i => cases hclear
  | rejected i =>
    obtain ⟨⟨j, d⟩, htorn, -⟩ := Option.map_eq_some_iff.mp hstep
    exact hteardown j d htorn
  | idle x =>
    obtain ⟨⟨j, d⟩, htorn, -⟩ := Option.map_eq_some_iff.mp hstep
    exact hteardown j d htorn
  | socketError i =>
    obtain ⟨⟨j, d⟩, htorn, -⟩ := Option.map_eq_some_iff.mp hstep
    exact hteardown j d htorn
  | socketClose i =>
    obtain ⟨⟨j, d⟩, htorn, -⟩ := Option.map_eq_some_iff.mp hstep
    exact hteardown j d htorn

theorem othersKept_step (h : Sound s) (hclear : orderly s a = true) :
    OthersKept cfg s a := by
  intro i c' s' htorn hstep
  obtain ⟨c, hi, hsame⟩ := torn_cases htorn
  have htearable := tearable_of_orderly hclear htorn hsame
  obtain rfl := Option.some.inj ((step_torn htorn).symm.trans hstep)
  have hafter : Sound (s.teardown i c') := sound_teardown h hi hsame htearable
  refine ⟨fun x j hji hx => ?_, fun j d port hji hj hd => ?_⟩
  · unfold Relay.teardown
    rw [hsame.nodeId]
    cases hid : c.nodeId with
    | none => exact hx
    | some y => exact lookup_teardown h hi htearable hid hji hx
  · refine (hafter.taken port).mpr ⟨d, List.mem_iff_getElem?.mpr ⟨j, ?_⟩, hd⟩
    exact (List.getElem?_set_ne (Ne.symm hji)).trans hj

/-- The register stays consistent, and a teardown leaves the other nodes alone, in every
run whose steps are orderly. -/
theorem registry_consistent (cfg : Config) (as : List Action) (s : Relay)
    (hrun : runs (step cfg) .initial as = some s)
    (hclear : Along (step cfg) (fun t a => orderly t a = true) .initial as) :
    Consistent s ∧ Along (step cfg) (OthersKept cfg) .initial as :=
  ⟨(runs_invariant (fun _ _ _ hP hI hstep => sound_step hI hP hstep) hclear hrun
      sound_initial).consistent,
    Along.of_invariant (I := Sound) (fun _ _ _ hP hI hstep =>
      ⟨othersKept_step hI hP, sound_step hI hP hstep⟩) hclear hrun sound_initial⟩

def tenPorts : Config := ⟨43100, 43109⟩

/-- Two nodes, one of which goes away and comes back. -/
def comesBack : List Action :=
  [.connect, .hello 0 (.hello (.text "x") true), .listening 0, .connect,
    .hello 1 (.hello (.text "y") true), .listening 1, .socketClose 0, .connect,
    .hello 2 (.hello (.text "x") true), .listening 2]

theorem registry_consistent_comesBack :
    ∃ s, runs (step tenPorts) .initial comesBack = some s ∧ Consistent s := by
  obtain ⟨s, hrun, -⟩ := runs_exists (step tenPorts) .initial comesBack (fun _ => true) (by decide)
  exact ⟨s, hrun, (registry_consistent tenPorts comesBack s hrun (by decide)).1⟩

/-- Two nodes register under one id while the first waits for its listener; and the close
event of a node that was torn down for being idle frees the port that another node has
claimed meanwhile. -/
theorem registry_inconsistent :
    (∃ s, runs (step tenPorts) .initial [.connect, .connect,
        .hello 0 (.hello (.text "x") true), .hello 1 (.hello (.text "x") true), .listening 0,
        .listening 1] = some s ∧
      s.conns.map (fun c => (c.nodeId, c.listening)) = [(some "x", true), (some "x", true)]) ∧
    (∃ s, runs (step tenPorts) .initial [.connect, .hello 0 (.hello (.text "x") true),
        .listening 0, .connect, .idle "x", .hello 1 (.hello (.text "y") true), .listening 1,
        .socketClose 0] = some s ∧ s.taken = [] ∧ ∃ c ∈ s.conns, c.holds 43100 = true) := by
  constructor
  · obtain ⟨s, hrun, hs⟩ := runs_exists (step tenPorts) .initial [.connect, .connect,
      .hello 0 (.hello (.text "x") true), .hello 1 (.hello (.text "x") true), .listening 0,
      .listening 1]
      (fun s => s.conns.map (fun c => (c.nodeId, c.listening)) =
        [(some "x", true), (some "x", true)]) (by decide)
    exact ⟨s, hrun, of_decide_eq_true hs⟩
  · obtain ⟨s, hrun, hs⟩ := runs_exists (step tenPorts) .initial [.connect,
      .hello 0 (.hello (.text "x") true), .listening 0, .connect, .idle "x",
      .hello 1 (.hello (.text "y") true), .listening 1, .socketClose 0]
      (fun s => s.taken = [] ∧ ∃ c ∈ s.conns, c.holds 43100 = true) (by decide)
    exact ⟨s, hrun, of_decide_eq_true hs⟩

end KvasirNet.Tunnel
