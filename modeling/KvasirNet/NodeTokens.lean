import KvasirNet.Runs
import Mathlib.Data.Option.Basic
import Mathlib.Tactic.Common
import Mathlib.Tactic.SplitIfs

/-! The node token of a machine: in memory, in the store and with the calls under way, while
the wallet changes. -/
namespace KvasirNet.NodeTokens

abbrev Wallet := String

/-- A token, with the wallet that the bridge issued it to. -/
structure Token where
  serial : ℕ
  wallet : Wallet
  deriving DecidableEq, Repr

structure Saved where
  token : Token
  expiresAt : ℕ
  wallet : Wallet
  deriving DecidableEq, Repr

inductive Kind
  | volunteer
  | coverage (owner : Wallet) (worker : String)
  | demand
  | shard
  | relay
  deriving DecidableEq, Repr

/-- The calls that `authed` makes, which answer a 401 with a new token. -/
def Kind.authed : Kind → Bool
  | .volunteer | .coverage _ _ | .demand => true
  | .shard | .relay => false

/-- What a call awaits: the challenge, the token, the answer, or nothing more. -/
inductive Stage
  | challenge (wallet : Wallet)
  | proof (wallet signer : Wallet)
  | answer
  | done
  deriving DecidableEq, Repr

/-- `again` says that the token was minted after a 401. -/
structure Call where
  kind : Kind
  again : Bool
  stage : Stage
  deriving DecidableEq, Repr

/-- A request that carried a token, with what `walletFn` returned at that moment. -/
structure Sent where
  kind : Kind
  token : Token
  wallet : Wallet
  deriving DecidableEq, Repr

/-- `address` is that of the configuration, `session` the key that signs while unlocked,
`reports` the worker ids that the running tick has still to report. -/
structure Node where
  address : Wallet
  session : Option Wallet
  token : Option Token
  tokenExpiresAt : ℕ
  store : Option Saved
  reports : List String
  calls : List Call
  sent : List Sent
  deriving DecidableEq, Repr

def Node.initial : Node := ⟨"", none, none, 0, none, [], [], []⟩

/-- What a call asks for, before it takes anything of the wallet. -/
inductive Want
  | volunteer
  | coverage (modelKnown : Bool)
  | demand
  | shard
  | relay
  deriving DecidableEq, Repr

inductive Action
  -- create, commit, import, unlock, upgrade and changePassphrase
  | wallet (w : Wallet)
  | lock
  | clear
  -- the desktop starts locked with the address it had, the server with the key of its file
  | restart (key : Option Wallet)
  | status
  | reports (busy : List ℕ)
  | call (want : Want) (now : ℕ)
  | challenged (i : ℕ)
  | granted (i serial : ℕ) (expiresIn : ℕ) (now : ℕ) (persists : Bool)
  | answered (i : ℕ) (unauthorized erases : Bool)
  | failed (i : ℕ)
  deriving DecidableEq, Repr

/-- `load` of both stores. -/
def Node.load (s : Node) : Option Saved := s.store.filter fun saved => saved.wallet = s.address

/-- The first half of `cachedToken`: a token in memory stays, whosever it is. -/
def Node.recall (s : Node) : Node :=
  match s.token, s.load with
  | none, some saved =>
    { s with
      token := some saved.token
      tokenExpiresAt := saved.expiresAt }
  | _, _ => s

/-- The second half, with a skew of a minute; 0 is an expiry that was not stated. -/
def Node.cachedToken (s : Node) (now : ℕ) : Option Token :=
  s.token.filter fun _ => s.tokenExpiresAt = 0 ∨ now + 60000 < s.tokenExpiresAt

def maxWalletLen : ℕ := 44

/-- `mintToken` up to its first await. -/
def Node.mintToken (s : Node) : Stage :=
  if s.address = "" ∨ maxWalletLen < s.address.length then .done else .challenge s.address

/-- An `expires_in` that is missing or 0 states no expiry. -/
def expiry (expiresIn now : ℕ) : ℕ := if 0 < expiresIn then now + expiresIn * 1000 else 0

/-- The end of `mintToken`; a store without a keystore leaves its file as it is. -/
def Node.minted (s : Node) (t : Token) (expiresAt : ℕ) (persists : Bool) : Node :=
  { s with
    token := some t
    tokenExpiresAt := expiresAt
    store := if persists then some ⟨t, expiresAt, t.wallet⟩ else s.store }

def Node.forgetToken (s : Node) (erases : Bool) : Node :=
  { s with
    token := none
    tokenExpiresAt := 0
    store := if erases then none else s.store }

def Node.at (s : Node) (i : ℕ) (c : Call) : Node := { s with calls := s.calls.set i c }

/-- `fn(token)` of the `i`-th call. -/
def Node.send (s : Node) (i : ℕ) (k : Kind) (again : Bool) (t : Token) : Node :=
  { s with
    calls := s.calls.set i ⟨k, again, .answer⟩
    sent := s.sent ++ [⟨k, t, s.address⟩] }

/-- `ensureToken`, and the request when there is a token. -/
def Node.ensureToken (s : Node) (k : Kind) (now : ℕ) : Node :=
  let s := s.recall
  match s.cachedToken now with
  | some t =>
    { s with
      calls := s.calls ++ [⟨k, false, .answer⟩]
      sent := s.sent ++ [⟨k, t, s.address⟩] }
  | none => { s with calls := s.calls ++ [⟨k, false, s.mintToken⟩] }

def slotId (base : String) (i : ℕ) : String := if i = 0 then base else s!"{base}-{i + 1}"

section
-- `workerIdFn`, by the wallet it reads
variable (workerId : Wallet → String)

/-- `reportCoverage` of the first report that is left. -/
def Node.reportCoverage (s : Node) (modelKnown : Bool) (now : ℕ) : Option Node :=
  match s.reports with
  | [] => none
  | r :: rest =>
    let worker := if r = "" then workerId s.address else r
    let s := { s with reports := rest }
    if modelKnown ∧ worker ≠ "" then some (s.ensureToken (.coverage s.address worker) now)
    else some s

def step (s : Node) : Action → Option Node
  | .wallet w => some { s with
      address := w
      session := some w }
  | .lock => some { s with session := none }
  | .clear => some { s with
      address := ""
      session := none }
  | .restart key => some { s with
      address := key.getD s.address
      session := key
      token := none
      tokenExpiresAt := 0
      reports := []
      calls := [] }
  | .status => some s.recall
  | .reports busy => some { s with reports := busy.map (slotId (workerId s.address)) }
  | .call .volunteer now => some (s.ensureToken .volunteer now)
  | .call (.coverage modelKnown) now => s.reportCoverage workerId modelKnown now
  | .call .demand now => some (s.ensureToken .demand now)
  | .call .shard now => some (s.ensureToken .shard now)
  | .call .relay now => some (s.ensureToken .relay now)
  | .challenged i =>
    match s.calls[i]? with
    | some ⟨k, again, .challenge w⟩ =>
      -- signing throws while the wallet is locked
      match s.session with
      | some signer => some (s.at i ⟨k, again, .proof w signer⟩)
      | none => some (s.at i ⟨k, again, .done⟩)
    | _ => none
  | .granted i serial expiresIn now persists =>
    match s.calls[i]? with
    | some ⟨k, again, .proof w signer⟩ =>
      -- the bridge gives a token to the wallet that has signed, and to no other
      if w = signer then
        some ((s.minted ⟨serial, w⟩ (expiry expiresIn now) persists).send i k again ⟨serial, w⟩)
      else none
    | _ => none
  | .answered i unauthorized erases =>
    match s.calls[i]? with
    | some ⟨k, again, .answer⟩ =>
      if unauthorized ∧ k.authed ∧ again = false then
        some ((s.forgetToken erases).at i ⟨k, true, (s.forgetToken erases).mintToken⟩)
      else some (s.at i ⟨k, again, .done⟩)
    | _ => none
  | .failed i => s.calls[i]?.map fun c => s.at i { c with stage := .done }

/-! ### Whose token it is -/

/-- The owner and the worker of a report are of this wallet. -/
def Kind.Of (w : Wallet) : Kind → Prop
  | .coverage owner worker => owner = w ∧ ∃ i, worker = slotId (workerId w) i
  | _ => True

/-- The token is of the wallet of that moment, and the report with it. -/
structure Sent.Own (x : Sent) : Prop where
  token : x.token.wallet = x.wallet
  kind : x.kind.Of workerId x.token.wallet

def Kind.report : Kind → Bool
  | .coverage _ _ => true
  | _ => false

/-- The call may send something that it has taken from the wallet already: the wallet of a
challenge, or the owner of a report that a 401 makes it send again. -/
def Call.bound (c : Call) : Bool :=
  match c.stage with
  | .challenge _ | .proof _ _ => true
  | .answer => c.kind.report && !c.again
  | .done => false

/-- Nothing of the wallet is held anywhere but in the store. -/
structure Node.Quiet (s : Node) : Prop where
  token : s.token = none
  reports : s.reports = []
  calls : ∀ c ∈ s.calls, c.bound = false

instance (s : Node) : Decidable s.Quiet :=
  decidable_of_iff (s.token = none ∧ s.reports = [] ∧ ∀ c ∈ s.calls, c.bound = false)
    ⟨fun h => ⟨h.1, h.2.1, h.2.2⟩, fun h => ⟨h.token, h.reports, h.calls⟩⟩

/-- Another wallet comes only while nothing of the one before is held. -/
def Orderly (s : Node) : Action → Prop
  | .wallet w => w = s.address ∨ s.Quiet
  | .clear => s.address = "" ∨ s.Quiet
  | _ => True

instance (s : Node) : ∀ a, Decidable (Orderly s a)
  | .wallet w => inferInstanceAs (Decidable (w = s.address ∨ s.Quiet))
  | .clear => inferInstanceAs (Decidable (s.address = "" ∨ s.Quiet))
  | .lock | .restart _ | .status | .reports _ | .call _ _ | .challenged _ | .granted _ _ _ _ _
  | .answered _ _ _ | .failed _ => .isTrue trivial

/-- What a call under way has of the wallet is of wallet `w`. -/
def Stage.Of (w : Wallet) : Stage → Prop
  | .challenge v | .proof v _ => v = w
  | .answer | .done => True

structure Call.Of (w : Wallet) (c : Call) : Prop where
  stage : c.stage.Of w
  kind : c.bound = true → c.kind.Of workerId w

structure Sound (s : Node) : Prop where
  token : ∀ t, s.token = some t → t.wallet = s.address
  store : ∀ saved, s.store = some saved → saved.token.wallet = saved.wallet
  reports : ∀ r ∈ s.reports, ∃ i, r = slotId (workerId s.address) i
  calls : ∀ c ∈ s.calls, c.Of workerId s.address
  sent : ∀ x ∈ s.sent, x.Own workerId

variable {workerId} {s s' : Node}

theorem sound_initial : Sound workerId .initial where
  token t h := by cases h
  store saved h := by cases h
  reports r h := by cases h
  calls c h := by cases h
  sent x h := by cases h

theorem Call.of_unbound {c : Call} {w : Wallet} (h : c.bound = false) : c.Of workerId w where
  stage := by
    unfold Call.bound at h
    cases hc : c.stage with
    | challenge v => rw [hc] at h; cases h
    | proof v signer => rw [hc] at h; cases h
    | answer => trivial
    | done => trivial
  kind hb := by rw [h] at hb; cases hb

theorem Sound.other (h : Sound workerId s) (hs : s.Quiet) (w : Wallet) (session : Option Wallet) :
    Sound workerId { s with
      address := w
      session := session } where
  token t ht := by
    have ht : s.token = some t := ht
    rw [hs.token] at ht
    cases ht
  store := h.store
  reports r hr := by
    have hr : r ∈ s.reports := hr
    rw [hs.reports] at hr
    cases hr
  calls c hc := Call.of_unbound (hs.calls c hc)
  sent := h.sent

theorem Sound.session (h : Sound workerId s) (session : Option Wallet) :
    Sound workerId { s with session := session } :=
  ⟨h.token, h.store, h.reports, h.calls, h.sent⟩

theorem Sound.restarted (h : Sound workerId s) (w : Wallet) (session : Option Wallet) :
    Sound workerId { s with
      address := w
      session := session
      token := none
      tokenExpiresAt := 0
      reports := []
      calls := [] } where
  token t ht := by cases ht
  store := h.store
  reports r hr := by cases hr
  calls c hc := by cases hc
  sent := h.sent

theorem Sound.wallet {w : Wallet} (h : Sound workerId s) (hw : w = s.address ∨ s.Quiet)
    (session : Option Wallet) : Sound workerId { s with
      address := w
      session := session } := by
  rcases hw with rfl | hs
  · exact h.session session
  · exact h.other hs w session

theorem Sound.recall (h : Sound workerId s) : Sound workerId s.recall := by
  unfold Node.recall
  split
  next _ _ saved _ hload =>
    -- the store gives only what is of the wallet now
    obtain ⟨hstore, hw⟩ := Option.filter_eq_some_iff.mp hload
    refine ⟨fun t ht => ?_, h.store, h.reports, h.calls, h.sent⟩
    obtain rfl : saved.token = t := Option.some.inj ht
    exact (h.store saved hstore).trans (of_decide_eq_true hw)
  · exact h

theorem recall_address (s : Node) : s.recall.address = s.address := by
  unfold Node.recall
  split
  · rfl
  · rfl

theorem Sound.cachedToken (h : Sound workerId s) {now : ℕ} {t : Token}
    (ht : s.cachedToken now = some t) : t.wallet = s.address :=
  h.token t (Option.filter_eq_some_iff.mp ht).1

theorem mintToken_of (s : Node) : s.mintToken.Of s.address := by
  unfold Node.mintToken
  split_ifs
  · trivial
  · rfl

theorem Sound.sends (h : Sound workerId s) {k : Kind} {t : Token} {calls : List Call}
    (hk : k.Of workerId s.address) (ht : t.wallet = s.address)
    (hcalls : ∀ c ∈ calls, c ∈ s.calls ∨ ∃ again, c = ⟨k, again, .answer⟩) :
    Sound workerId { s with
      calls := calls
      sent := s.sent ++ [⟨k, t, s.address⟩] } where
  token := h.token
  store := h.store
  reports := h.reports
  calls c hc := by
    rcases hcalls c hc with hold | ⟨again, rfl⟩
    · exact h.calls c hold
    · exact ⟨trivial, fun _ => hk⟩
  sent x hx := by
    rcases List.mem_append.mp hx with hold | hnew
    · exact h.sent x hold
    · obtain rfl := List.mem_singleton.mp hnew
      exact ⟨ht, by rw [ht]; exact hk⟩

theorem Sound.withCalls (h : Sound workerId s) {calls : List Call}
    (hcalls : ∀ c ∈ calls, c.Of workerId s.address) : Sound workerId { s with calls := calls } :=
  ⟨h.token, h.store, h.reports, hcalls, h.sent⟩

theorem Sound.at (h : Sound workerId s) (i : ℕ) {c : Call} (hc : c.Of workerId s.address) :
    Sound workerId (s.at i c) := by
  apply h.withCalls
  intro d hd
  rcases List.mem_or_eq_of_mem_set hd with hold | rfl
  · exact h.calls d hold
  · exact hc

theorem Sound.ensureToken (h : Sound workerId s) {k : Kind} (hk : k.Of workerId s.address)
    (now : ℕ) : Sound workerId (s.ensureToken k now) := by
  have hr := h.recall
  rw [← recall_address] at hk
  unfold Node.ensureToken
  dsimp only
  split
  next t ht =>
    apply hr.sends hk (hr.cachedToken ht)
    intro c hc
    rcases List.mem_append.mp hc with hold | hnew
    · exact .inl hold
    · exact .inr ⟨false, List.mem_singleton.mp hnew⟩
  next =>
    apply hr.withCalls
    intro c hc
    rcases List.mem_append.mp hc with hold | hnew
    · exact hr.calls c hold
    · obtain rfl := List.mem_singleton.mp hnew
      exact ⟨mintToken_of _, fun _ => hk⟩

theorem Sound.reportCoverage (h : Sound workerId s) {modelKnown : Bool} {now : ℕ}
    (hs : s.reportCoverage workerId modelKnown now = some s') : Sound workerId s' := by
  unfold Node.reportCoverage at hs
  split at hs
  · cases hs
  next r rest hreports =>
    have hmem : r ∈ s.reports := by rw [hreports]; exact List.mem_cons_self
    have hrest : Sound workerId { s with reports := rest } := by
      refine ⟨h.token, h.store, fun x hx => h.reports x ?_, h.calls, h.sent⟩
      rw [hreports]
      exact List.mem_cons_of_mem r hx
    have hworker : ∃ i, (if r = "" then workerId s.address else r) = slotId (workerId s.address) i := by
      -- a report without an id takes the machine's own, which is that of slot 0
      split_ifs
      · exact ⟨0, rfl⟩
      · exact h.reports r hmem
    dsimp only at hs
    generalize (if r = "" then workerId s.address else r) = worker at hs hworker
    split_ifs at hs
    · obtain rfl := Option.some.inj hs
      exact hrest.ensureToken (k := .coverage s.address worker) ⟨rfl, hworker⟩ now
    · obtain rfl := Option.some.inj hs
      exact hrest

theorem Sound.forgetToken (h : Sound workerId s) (erases : Bool) :
    Sound workerId (s.forgetToken erases) where
  token t ht := by cases ht
  store saved hsaved := by
    cases erases with
    | true => cases hsaved
    | false => exact h.store saved hsaved
  reports := h.reports
  calls := h.calls
  sent := h.sent

theorem Sound.call (h : Sound workerId s) {i : ℕ} {c : Call} (hc : s.calls[i]? = some c) :
    c.Of workerId s.address :=
  h.calls c (List.mem_of_getElem? hc)

theorem Sound.minted (h : Sound workerId s) {t : Token} (ht : t.wallet = s.address)
    (expiresAt : ℕ) (persists : Bool) : Sound workerId (s.minted t expiresAt persists) where
  token u hu := by
    obtain rfl : t = u := Option.some.inj hu
    exact ht
  store saved hsaved := by
    cases persists with
    | true =>
      obtain rfl := Option.some.inj hsaved
      rfl
    | false => exact h.store saved hsaved
  reports := h.reports
  calls := h.calls
  sent := h.sent

theorem Sound.send (h : Sound workerId s) {k : Kind} {t : Token} (hk : k.Of workerId s.address)
    (ht : t.wallet = s.address) (i : ℕ) (again : Bool) : Sound workerId (s.send i k again t) := by
  apply h.sends hk ht
  intro c hc
  rcases List.mem_or_eq_of_mem_set hc with hold | hnew
  · exact .inl hold
  · exact .inr ⟨again, hnew⟩

theorem sound_granted (h : Sound workerId s) {i serial expiresIn now : ℕ} {persists : Bool}
    (hs : step workerId s (.granted i serial expiresIn now persists) = some s') :
    Sound workerId s' := by
  simp only [step] at hs
  split at hs
  next k again w signer hc =>
    have hof := h.call hc
    have hw : w = s.address := hof.stage
    split_ifs at hs with hsigner
    obtain rfl := Option.some.inj hs
    exact (h.minted (t := ⟨serial, w⟩) hw _ persists).send (hof.kind rfl) hw i again
  · cases hs

theorem sound_answered (h : Sound workerId s) {i : ℕ} {unauthorized erases : Bool}
    (hs : step workerId s (.answered i unauthorized erases) = some s') : Sound workerId s' := by
  simp only [step] at hs
  split at hs
  next k again hc =>
    have hof := h.call hc
    split_ifs at hs with hagain
    · obtain rfl := Option.some.inj hs
      apply (h.forgetToken erases).at
      refine ⟨mintToken_of _, fun _ => ?_⟩
      cases k with
      | coverage owner worker => exact hof.kind (by rw [hagain.2.2]; rfl)
      | volunteer => trivial
      | demand => trivial
      | shard => trivial
      | relay => trivial
    · obtain rfl := Option.some.inj hs
      exact h.at i (Call.of_unbound rfl)
  · cases hs

theorem sound_challenged (h : Sound workerId s) {i : ℕ}
    (hs : step workerId s (.challenged i) = some s') : Sound workerId s' := by
  simp only [step] at hs
  split at hs
  next k again w hc =>
    have hof := h.call hc
    split at hs
    · obtain rfl := Option.some.inj hs
      exact h.at i ⟨hof.stage, fun _ => hof.kind rfl⟩
    · obtain rfl := Option.some.inj hs
      exact h.at i (Call.of_unbound rfl)
  · cases hs

theorem sound_step {a : Action} (h : Sound workerId s) (ha : Orderly s a)
    (hs : step workerId s a = some s') : Sound workerId s' := by
  cases a with
  | wallet w =>
    obtain rfl := Option.some.inj hs
    exact h.wallet ha (some w)
  | lock =>
    obtain rfl := Option.some.inj hs
    exact h.session none
  | clear =>
    obtain rfl := Option.some.inj hs
    exact h.wallet (ha.imp_left Eq.symm) none
  | restart key =>
    obtain rfl := Option.some.inj hs
    exact h.restarted _ key
  | status =>
    obtain rfl := Option.some.inj hs
    exact h.recall
  | reports busy =>
    obtain rfl := Option.some.inj hs
    refine ⟨h.token, h.store, fun r hr => ?_, h.calls, h.sent⟩
    obtain ⟨i, -, rfl⟩ := List.mem_map.mp hr
    exact ⟨i, rfl⟩
  | call want now =>
    cases want with
    | coverage modelKnown => exact h.reportCoverage hs
    | volunteer =>
      obtain rfl := Option.some.inj hs
      exact h.ensureToken (k := .volunteer) trivial now
    | demand =>
      obtain rfl := Option.some.inj hs
      exact h.ensureToken (k := .demand) trivial now
    | shard =>
      obtain rfl := Option.some.inj hs
      exact h.ensureToken (k := .shard) trivial now
    | relay =>
      obtain rfl := Option.some.inj hs
      exact h.ensureToken (k := .relay) trivial now
  | challenged i => exact sound_challenged h hs
  | granted i serial expiresIn now persists => exact sound_granted h hs
  | answered i unauthorized erases => exact sound_answered h hs
  | failed i =>
    obtain ⟨c, -, rfl⟩ := Option.map_eq_some_iff.mp hs
    exact h.at i (Call.of_unbound rfl)

/-- Every token is sent for its own wallet, as long as another wallet comes only while no
token, report or mint of the one before is held. -/
theorem token_of_its_wallet (as : List Action) (hrun : runs (step workerId) .initial as = some s)
    (horderly : Along (step workerId) Orderly .initial as) : ∀ x ∈ s.sent, x.Own workerId :=
  (runs_invariant (fun _ _ _ ha h hs => sound_step h ha hs) horderly hrun sound_initial).sent

end

/-- The desktop's `workerIdFn`. -/
def desktopId (w : Wallet) : String := if w = "" then "" else s!"desktop-{w.take 8}"

/-- Another wallet is imported after a restart: the token of the one before stays in the store. -/
theorem token_of_its_wallet_restarted : ∃ s, runs (step desktopId) .initial
      [.wallet "A", .call .volunteer 0, .challenged 0, .granted 0 1 0 0 true, .restart none,
        .wallet "B", .reports [0, 1], .call (.coverage true) 1, .challenged 0,
        .granted 0 2 0 1 true] = some s ∧ s.sent.length = 2 ∧ ∀ x ∈ s.sent, x.Own desktopId := by
  obtain ⟨s, hrun, hs⟩ := runs_exists (step desktopId) .initial
    [.wallet "A", .call .volunteer 0, .challenged 0, .granted 0 1 0 0 true, .restart none,
      .wallet "B", .reports [0, 1], .call (.coverage true) 1, .challenged 0,
      .granted 0 2 0 1 true] (fun s => s.sent.length = 2) (by decide)
  exact ⟨s, hrun, of_decide_eq_true hs, token_of_its_wallet _ hrun (by decide)⟩

/-- A wallet is imported after the node has minted its token for another. -/
def imported : List Action :=
  [.wallet "A", .call .volunteer 0, .challenged 0, .granted 0 1 0 0 true, .answered 0 false false,
    .wallet "B", .reports [0], .call (.coverage true) 1]

/-- The report for wallet B goes out with the token of A. -/
theorem token_of_another_wallet : ∃ s, runs (step desktopId) .initial imported = some s ∧
    ¬ ∀ x ∈ s.sent, x.Own desktopId := by
  obtain ⟨s, hrun, hs⟩ := runs_exists (step desktopId) .initial imported
    (fun s => s.sent.any fun x => x.token.wallet ≠ x.wallet) (by decide)
  refine ⟨s, hrun, fun hall => ?_⟩
  obtain ⟨x, hx, hne⟩ := List.any_eq_true.mp hs
  exact of_decide_eq_true hne (hall x hx).token

end KvasirNet.NodeTokens
