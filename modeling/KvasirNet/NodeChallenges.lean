import KvasirNet.MarketTokens
import KvasirNet.Runs
import KvasirNet.SignedTexts

/-! `/api/auth/challenge` and `/api/auth/node-token`: a wallet asks for a nonce, signs the text that
comes with it, and gets a token for the signature. The endpoint is open to anyone. -/
namespace KvasirNet.Challenges

open Market Signing
open KvasirNet.Gateway (trimText utf16Length)

/-- `NONCE_TTL_MS`. -/
def nonceTtlMs : ℕ := 5 * 60 * 1000

/-- `MAX_OUTSTANDING_NONCES`. -/
def maxOutstandingNonces : ℕ := 10000

/-- `MAX_WALLET_LENGTH`. -/
def maxWalletLength : ℕ := 64

/-! ## The endpoint -/

/-- What the endpoint did: a nonce issued, a challenge taken up (with the token that was made for
it), or a request for a token that was refused before. -/
inductive Event
  | issued (nonce wallet : String) (now : ℕ)
  | tried (nonce wallet signature : String) (now : ℕ) (token : Option String)
  | refused (nonce : String) (status : ℕ)
  deriving DecidableEq, Repr

structure State where
  nonces : Nonces
  log : List Event

def State.initial : State := ⟨∅, []⟩

def sweep (nonces : Nonces) (now : ℕ) : Nonces :=
  ⟨nonces.entries.filter fun entry => now ≤ entry.2.expiry,
    nonces.nodupKeys.sublist List.filter_sublist⟩

/-- `newChallenge`, with the nonce that is drawn; the table may be full. -/
def newChallenge (nonces : Nonces) (now : ℕ) (wallet nonce : String) : Bool × Nonces :=
  let nonces := sweep nonces now
  if maxOutstandingNonces ≤ nonces.entries.length then (false, nonces)
  else (true, nonces.insert nonce ⟨wallet, now + nonceTtlMs⟩)

/-- `POST /api/auth/challenge`; `allowed` is what the list says of the wallet. -/
def State.challenge (s : State) (now : ℕ) (allowed : Bool) (wallet nonce : String) : State :=
  let wallet := trimText wallet
  if wallet = "" then s
  else if maxWalletLength < utf16Length wallet then s
  else if allowed = false then s
  else
    let (issued, nonces) := newChallenge s.nonces now wallet nonce
    ⟨nonces, if issued then .issued nonce wallet now :: s.log else s.log⟩

def readSignature (text : String) : Option Bytes :=
  let bytes := ofBase64url text
  if bytes.length = 64 then some bytes else none

section
variable {κ : Type*} (S : Scheme κ Bytes) (hmac : Hmac) (auth : Market.NodeAuth) (ttlDays : ℚ)

/-- `POST /api/auth/node-token`. -/
def State.nodeToken (s : State) (now : ℕ) (allowed : Bool) (wallet nonce signature : String) : State :=
  let wallet := trimText wallet
  let nonce := trimText nonce
  if wallet = "" ∨ nonce = "" ∨ signature = "" then { s with log := .refused nonce 400 :: s.log }
  else if allowed = false then { s with log := .refused nonce 403 :: s.log }
  else
    let (message, nonces) := NodeAuth.consumeChallenge s.nonces now wallet nonce
    let verified := message.any fun message =>
      NodeAuth.verifyWalletSignature S wallet message (readSignature signature)
    ⟨nonces, .tried nonce wallet signature now
      (if verified then some (auth.makeToken hmac wallet ttlDays now) else none) :: s.log⟩

inductive Action
  | challenge (now : ℕ) (allowed : Bool) (wallet nonce : String)
  | nodeToken (now : ℕ) (allowed : Bool) (wallet nonce signature : String)
  deriving DecidableEq, Repr

def step (s : State) : Action → Option State
  | .challenge now allowed wallet nonce => some (s.challenge now allowed wallet nonce)
  | .nodeToken now allowed wallet nonce signature =>
    some (s.nodeToken S hmac auth ttlDays now allowed wallet nonce signature)

end

/-! ## What is meant -/

/-- A nonce is random, and was not issued before. -/
def Fresh (s : State) : Action → Prop
  | .challenge _ _ _ nonce => ∀ wallet now, Event.issued nonce wallet now ∉ s.log
  | .nodeToken _ _ _ _ _ => True

def Event.Tries (nonce : String) (e : Event) : Prop :=
  ∃ wallet signature now token, e = .tried nonce wallet signature now token

def Event.Mints (nonce : String) (e : Event) : Prop :=
  ∃ wallet signature now token, e = .tried nonce wallet signature now (some token)

section
variable {κ : Type*} (S : Scheme κ Bytes) (hmac : Hmac) (auth : Market.NodeAuth) (ttlDays : ℚ)

/-- What is so of a token: its nonce was issued to its wallet, had not run out, and had not been
taken up since it was issued; the signature is the wallet's over the text of the challenge; and no
other token is made for the nonce. -/
structure Earned (after before : List Event) (nonce wallet signature : String) (now : ℕ)
    (token : String) : Prop where
  issued : ∃ between earlier t, before = between ++ .issued nonce wallet t :: earlier ∧
    now ≤ t + nonceTtlMs ∧ ∀ e ∈ between, ¬ e.Tries nonce
  signed : NodeAuth.verifyWalletSignature S wallet (NodeAuth.messageFor wallet nonce)
    (readSignature signature) = true
  token : token = auth.makeToken hmac wallet ttlDays now
  single : ∀ e ∈ after ++ before, ¬ e.Mints nonce

def SingleUse (log : List Event) : Prop :=
  ∀ after before nonce wallet signature now token,
    log = after ++ .tried nonce wallet signature now (some token) :: before →
    Earned S hmac auth ttlDays after before nonce wallet signature now token

/-! ## The invariant -/

/-- The entries of the table are the nonces issued and not taken up. -/
structure Sound (s : State) : Prop where
  room : s.nonces.entries.length ≤ maxOutstandingNonces
  standing : ∀ nonce entry, s.nonces.lookup nonce = some entry →
    ∃ between earlier t, s.log = between ++ .issued nonce entry.wallet t :: earlier ∧
      entry.expiry = t + nonceTtlMs ∧ ∀ e ∈ between, ¬ e.Tries nonce
  unused : ∀ nonce entry, s.nonces.lookup nonce = some entry → ∀ e ∈ s.log, ¬ e.Mints nonce
  known : ∀ nonce, ∀ e ∈ s.log, e.Mints nonce → ∃ wallet t, Event.issued nonce wallet t ∈ s.log
  earned : SingleUse S hmac auth ttlDays s.log

variable {S hmac auth ttlDays}

variable {nonce : String} {nonces : Nonces}

theorem lookup_sweep {now : ℕ} {entry : Signing.Entry}
    (h : (sweep nonces now).lookup nonce = some entry) : nonces.lookup nonce = some entry := by
  rw [← Option.mem_def, AList.mem_lookup_iff] at h ⊢
  exact List.mem_of_mem_filter h

theorem length_sweep (nonces : Nonces) (now : ℕ) :
    (sweep nonces now).entries.length ≤ nonces.entries.length := List.length_filter_le _ _

theorem length_erase (nonces : Nonces) (nonce : String) :
    (nonces.erase nonce).entries.length ≤ nonces.entries.length :=
  List.Sublist.length_le (List.kerase_sublist nonce nonces.entries)

theorem length_insert (nonces : Nonces) (nonce : String) (entry : Signing.Entry) :
    (nonces.insert nonce entry).entries.length ≤ nonces.entries.length + 1 :=
  Nat.succ_le_succ (length_erase nonces nonce)

theorem consumeChallenge_some {now : ℕ} {wallet message : String}
    (h : (NodeAuth.consumeChallenge nonces now wallet nonce).1 = some message) :
    ∃ entry, nonces.lookup nonce = some entry ∧ now ≤ entry.expiry ∧ entry.wallet = wallet ∧
      message = NodeAuth.messageFor wallet nonce := by
  unfold NodeAuth.consumeChallenge at h
  cases hentry : nonces.lookup nonce with
  | none => simp [hentry] at h
  | some entry =>
    simp only [hentry] at h
    split_ifs at h with hlate hother
    exact ⟨entry, rfl, Nat.le_of_not_lt hlate, not_not.mp hother, (Option.some.inj h).symm⟩

theorem lookup_consumeChallenge {now : ℕ} {wallet n : String} {entry : Signing.Entry}
    (h : (NodeAuth.consumeChallenge nonces now wallet nonce).2.lookup n = some entry) :
    n ≠ nonce ∧ nonces.lookup n = some entry := by
  unfold NodeAuth.consumeChallenge at h
  cases hentry : nonces.lookup nonce with
  | none =>
    simp only [hentry] at h
    refine ⟨?_, h⟩
    rintro rfl
    rw [hentry] at h
    cases h
  | some e =>
    simp only [hentry] at h
    by_cases hn : n = nonce
    · rw [hn, AList.lookup_erase] at h
      cases h
    · rw [AList.lookup_erase_ne hn] at h
      exact ⟨hn, h⟩

theorem length_consumeChallenge (nonces : Nonces) (now : ℕ) (wallet nonce : String) :
    (NodeAuth.consumeChallenge nonces now wallet nonce).2.entries.length ≤ nonces.entries.length := by
  unfold NodeAuth.consumeChallenge
  cases nonces.lookup nonce with
  | none => exact Nat.le_refl _
  | some e => exact length_erase nonces nonce

theorem Event.Mints.tries {e : Event} (h : e.Mints nonce) : e.Tries nonce := by
  obtain ⟨wallet, signature, now, token, rfl⟩ := h
  exact ⟨wallet, signature, now, some token, rfl⟩

theorem SingleUse.cons {log : List Event} {e : Event} (h : SingleUse S hmac auth ttlDays log)
    (hfirst : ∀ nonce wallet signature now token, e = .tried nonce wallet signature now (some token) →
      Earned S hmac auth ttlDays [] log nonce wallet signature now token)
    (hother : ∀ nonce, e.Mints nonce → ∀ e' ∈ log, ¬ e'.Mints nonce) :
    SingleUse S hmac auth ttlDays (e :: log) := by
  intro after before nonce wallet signature now token hlog
  cases after with
  | nil =>
    rw [List.nil_append] at hlog
    obtain ⟨rfl, rfl⟩ := List.cons.inj hlog
    exact hfirst nonce wallet signature now token rfl
  | cons e' after =>
    rw [List.cons_append] at hlog
    obtain ⟨rfl, hrest⟩ := List.cons.inj hlog
    have hearned := h after before nonce wallet signature now token hrest
    refine ⟨hearned.issued, hearned.signed, hearned.token, fun x hx => ?_⟩
    rcases List.mem_cons.mp hx with rfl | hx
    · intro hmints
      have hmem : Event.tried nonce wallet signature now (some token) ∈ log := by
        rw [hrest]
        exact List.mem_append_right after List.mem_cons_self
      exact hother nonce hmints _ hmem ⟨wallet, signature, now, token, rfl⟩
    · exact hearned.single x hx

variable {s : State}

theorem Sound.extend (h : Sound S hmac auth ttlDays s) {e : Event}
    (he : ∀ nonce, ¬ e.Tries nonce) (hroom : nonces.entries.length ≤ maxOutstandingNonces)
    (hsub : ∀ nonce entry, nonces.lookup nonce = some entry → s.nonces.lookup nonce = some entry) :
    Sound S hmac auth ttlDays ⟨nonces, e :: s.log⟩ where
  room := hroom
  standing := fun nonce entry hentry => by
    obtain ⟨between, earlier, t, hlog, hexpiry, hnone⟩ := h.standing nonce entry (hsub _ _ hentry)
    refine ⟨e :: between, earlier, t, by rw [hlog, List.cons_append], hexpiry, fun x hx => ?_⟩
    rcases List.mem_cons.mp hx with rfl | hx
    · exact he nonce
    · exact hnone x hx
  unused := fun nonce entry hentry x hx => by
    rcases List.mem_cons.mp hx with rfl | hx
    · exact fun hmints => he nonce hmints.tries
    · exact h.unused nonce entry (hsub _ _ hentry) x hx
  known := fun nonce x hx hmints => by
    rcases List.mem_cons.mp hx with rfl | hx
    · exact absurd hmints.tries (he nonce)
    · obtain ⟨wallet, t, hissued⟩ := h.known nonce x hx hmints
      exact ⟨wallet, t, List.mem_cons_of_mem e hissued⟩
  earned := h.earned.cons
    (fun nonce wallet signature now token htried =>
      absurd ⟨wallet, signature, now, some token, htried⟩ (he nonce))
    fun nonce hmints => absurd hmints.tries (he nonce)

theorem Sound.swept (h : Sound S hmac auth ttlDays s) (now : ℕ) :
    Sound S hmac auth ttlDays ⟨sweep s.nonces now, s.log⟩ where
  room := (length_sweep s.nonces now).trans h.room
  standing := fun nonce entry hentry => h.standing nonce entry (lookup_sweep hentry)
  unused := fun nonce entry hentry => h.unused nonce entry (lookup_sweep hentry)
  known := h.known
  earned := h.earned

theorem Sound.issue (h : Sound S hmac auth ttlDays s) (now : ℕ) (wallet : String)
    (hfresh : ∀ wallet now, Event.issued nonce wallet now ∉ s.log)
    (hroom : s.nonces.entries.length < maxOutstandingNonces) :
    Sound S hmac auth ttlDays
      ⟨s.nonces.insert nonce ⟨wallet, now + nonceTtlMs⟩, .issued nonce wallet now :: s.log⟩ := by
  have htries : ∀ n, ¬ (Event.issued nonce wallet now).Tries n := by
    rintro n ⟨_, _, _, _, he⟩
    cases he
  have hold := h.extend htries h.room fun _ _ h => h
  have hunused : ∀ e ∈ Event.issued nonce wallet now :: s.log, ¬ e.Mints nonce := by
    intro e he hmints
    rcases List.mem_cons.mp he with rfl | he
    · exact htries nonce hmints.tries
    · obtain ⟨w, t, hissued⟩ := h.known nonce e he hmints
      exact hfresh w t hissued
  refine ⟨(length_insert _ _ _).trans hroom, fun n entry hentry => ?_, fun n entry hentry => ?_,
    hold.known, hold.earned⟩
  · by_cases hn : n = nonce
    · subst hn
      rw [AList.lookup_insert] at hentry
      obtain rfl := Option.some.inj hentry
      exact ⟨[], s.log, now, rfl, rfl, fun e he => absurd he List.not_mem_nil⟩
    · rw [AList.lookup_insert_ne hn] at hentry
      exact hold.standing n entry hentry
  · by_cases hn : n = nonce
    · subst hn
      exact hunused
    · rw [AList.lookup_insert_ne hn] at hentry
      exact hold.unused n entry hentry

theorem Sound.takeUp (h : Sound S hmac auth ttlDays s) (now : ℕ)
    (wallet nonce signature : String) {token : Option String}
    (htoken : ∀ t, token = some t → t = auth.makeToken hmac wallet ttlDays now ∧ ∃ message,
      (NodeAuth.consumeChallenge s.nonces now wallet nonce).1 = some message ∧
        NodeAuth.verifyWalletSignature S wallet message (readSignature signature) = true) :
    Sound S hmac auth ttlDays ⟨(NodeAuth.consumeChallenge s.nonces now wallet nonce).2,
      .tried nonce wallet signature now token :: s.log⟩ := by
  have hmints : ∀ n, (Event.tried nonce wallet signature now token).Mints n →
      n = nonce ∧ ∃ entry, s.nonces.lookup nonce = some entry := by
    rintro n ⟨_, _, _, t, he⟩
    injection he with hn _ _ _ hsome
    obtain ⟨-, message, hmessage, -⟩ := htoken t hsome
    obtain ⟨entry, hentry, -⟩ := consumeChallenge_some hmessage
    exact ⟨hn.symm, entry, hentry⟩
  have htries : ∀ n, (Event.tried nonce wallet signature now token).Tries n → n = nonce := by
    rintro n ⟨_, _, _, _, he⟩
    injection he with hn
    exact hn.symm
  refine ⟨(length_consumeChallenge _ _ _ _).trans h.room, fun n entry hentry => ?_,
    fun n entry hentry e he => ?_, fun n e he hmint => ?_, h.earned.cons ?_ fun n hmint => ?_⟩
  · obtain ⟨hne, hold⟩ := lookup_consumeChallenge hentry
    obtain ⟨between, earlier, t, hlog, hexpiry, hnone⟩ := h.standing n entry hold
    refine ⟨_ :: between, earlier, t, by rw [hlog, List.cons_append], hexpiry, fun x hx => ?_⟩
    rcases List.mem_cons.mp hx with rfl | hx
    · exact fun htry => hne (htries n htry)
    · exact hnone x hx
  · obtain ⟨hne, hold⟩ := lookup_consumeChallenge hentry
    rcases List.mem_cons.mp he with rfl | he
    · exact fun hmint => hne (hmints n hmint).1
    · exact h.unused n entry hold e he
  · rcases List.mem_cons.mp he with rfl | he
    · obtain ⟨rfl, entry, hentry⟩ := hmints n hmint
      obtain ⟨between, earlier, t, hlog, -⟩ := h.standing n entry hentry
      refine ⟨entry.wallet, t, List.mem_cons_of_mem _ ?_⟩
      rw [hlog]
      exact List.mem_append_right between List.mem_cons_self
    · obtain ⟨w, t, hissued⟩ := h.known n e he hmint
      exact ⟨w, t, List.mem_cons_of_mem _ hissued⟩
  · intro n w sig time t he
    injection he with hn hw hsig htime hsome
    subst hn hw hsig htime
    obtain ⟨hmade, message, hmessage, hverified⟩ := htoken t hsome
    obtain ⟨entry, hentry, hdue, rfl, rfl⟩ := consumeChallenge_some hmessage
    obtain ⟨between, earlier, t₀, hlog, hexpiry, hnone⟩ := h.standing _ entry hentry
    exact ⟨⟨between, earlier, t₀, hlog, hexpiry ▸ hdue, hnone⟩, hverified, hmade,
      h.unused _ entry hentry⟩
  · obtain ⟨rfl, entry, hentry⟩ := hmints n hmint
    exact h.unused n entry hentry

theorem sound_initial : Sound S hmac auth ttlDays .initial where
  room := Nat.zero_le _
  standing := fun _ _ h => by cases h
  unused := fun _ _ h => by cases h
  known := fun _ _ h => by cases h
  earned := fun after before nonce wallet signature now token h => by
    have hlength := congrArg List.length h
    simp [State.initial] at hlength

theorem Sound.challenge (h : Sound S hmac auth ttlDays s) (now : ℕ) (allowed : Bool)
    (wallet : String) (hfresh : ∀ wallet now, Event.issued nonce wallet now ∉ s.log) :
    Sound S hmac auth ttlDays (s.challenge now allowed wallet nonce) := by
  by_cases hempty : trimText wallet = ""
  · simpa only [State.challenge, if_pos hempty] using h
  by_cases hlong : maxWalletLength < utf16Length (trimText wallet)
  · simpa only [State.challenge, if_neg hempty, if_pos hlong] using h
  by_cases hallowed : allowed = false
  · simpa only [State.challenge, if_neg hempty, if_neg hlong, if_pos hallowed] using h
  rw [State.challenge]
  simp only [if_neg hempty, if_neg hlong, if_neg hallowed]
  have hswept := h.swept now
  by_cases hfull : maxOutstandingNonces ≤ (sweep s.nonces now).entries.length
  · simpa only [newChallenge, if_pos hfull, Bool.false_eq_true, if_false] using hswept
  · have hissued := hswept.issue now (trimText wallet) hfresh (Nat.lt_of_not_le hfull)
    simpa only [newChallenge, if_neg hfull, if_true] using hissued

theorem Sound.nodeToken (h : Sound S hmac auth ttlDays s) (now : ℕ) (allowed : Bool)
    (wallet nonce signature : String) :
    Sound S hmac auth ttlDays (s.nodeToken S hmac auth ttlDays now allowed wallet nonce signature) := by
  have hrefused (status : ℕ) :
      Sound S hmac auth ttlDays { s with log := .refused (trimText nonce) status :: s.log } :=
    h.extend (fun n ⟨_, _, _, _, he⟩ => by cases he) h.room fun _ _ h => h
  unfold State.nodeToken
  dsimp only
  by_cases hmissing : trimText wallet = "" ∨ trimText nonce = "" ∨ signature = ""
  · rw [if_pos hmissing]
    exact hrefused 400
  · rw [if_neg hmissing]
    by_cases hallowed : allowed = false
    · rw [if_pos hallowed]
      exact hrefused 403
    · rw [if_neg hallowed]
      refine h.takeUp now _ _ signature fun t ht => ?_
      split_ifs at ht with hverified
      obtain ⟨message, hmessage, hsigned⟩ := (Option.any_eq_true _ _).mp hverified
      exact ⟨(Option.some.inj ht).symm, message, hmessage, hsigned⟩

theorem sound_step {s' : State} {a : Action} (hfresh : Fresh s a)
    (h : Sound S hmac auth ttlDays s) (hstep : step S hmac auth ttlDays s a = some s') :
    Sound S hmac auth ttlDays s' := by
  cases a with
  | challenge now allowed wallet nonce =>
    obtain rfl := Option.some.inj hstep
    exact h.challenge now allowed wallet hfresh
  | nodeToken now allowed wallet nonce signature =>
    obtain rfl := Option.some.inj hstep
    exact h.nodeToken now allowed wallet nonce signature

end

section
variable {κ : Type*} (S : Scheme κ Bytes) (hmac : Hmac) (auth : Market.NodeAuth) (ttlDays : ℚ)

/-- Every token is earned, and the table stays within its bound. -/
theorem challenge_single_use (as : List Action) (s : State)
    (hfresh : Along (step S hmac auth ttlDays) Fresh .initial as)
    (hrun : runs (step S hmac auth ttlDays) .initial as = some s) :
    SingleUse S hmac auth ttlDays s.log ∧ s.nonces.entries.length ≤ maxOutstandingNonces := by
  have hsound := runs_invariant (fun _ _ _ hfresh h hstep => sound_step hfresh h hstep) hfresh hrun
    (sound_initial (S := S))
  exact ⟨hsound.earned, hsound.room⟩

end

/-! ## One nonce -/

/-- One key, whose signature of a message is the first 64 bytes of the message. -/
def headScheme : Scheme Unit Bytes where
  publicKey _ := List.replicate 31 0 ++ [1]
  sign _ msg := msg.take 64
  verify pub msg sig := pub = List.replicate 31 0 ++ [1] && msg.take 64 = sig

def plainSignature : String :=
  base64url ((utf8 (NodeAuth.messageFor plainWallet "ab")).take 64)

def sampleStep : State → Action → Option State := step headScheme sampleHmac emptyList 30

/-- A challenge, and its signature sent twice. -/
def signedTwice : List Action :=
  [.challenge 0 true plainWallet "ab", .nodeToken 1 true plainWallet "ab" plainSignature,
    .nodeToken 2 true plainWallet "ab" plainSignature]

def Event.minted : Event → Bool
  | .tried _ _ _ _ token => token.isSome
  | _ => false

theorem challenge_single_use_twice :
    ∃ s, runs sampleStep .initial signedTwice = some s ∧
      s.log.map Event.minted = [false, true, false] ∧
      SingleUse headScheme sampleHmac emptyList 30 s.log ∧
      s.nonces.entries.length ≤ maxOutstandingNonces := by
  obtain ⟨s, hrun, hminted⟩ := runs_exists sampleStep .initial signedTwice
    (fun s => decide (s.log.map Event.minted = [false, true, false])) (by decide +kernel)
  have hfresh : Along sampleStep Fresh .initial signedTwice :=
    ⟨fun _ _ h => (by cases h), fun _ _ => ⟨trivial, fun _ _ => ⟨trivial, fun _ _ => trivial⟩⟩⟩
  exact ⟨s, hrun, of_decide_eq_true hminted, challenge_single_use headScheme sampleHmac emptyList 30
    signedTwice s hfresh hrun⟩

/-- A challenge, a request without a signature, and one with it. -/
def unsignedFirst : List Action :=
  [.challenge 0 true plainWallet "ab", .nodeToken 1 true plainWallet "ab" "",
    .nodeToken 2 true plainWallet "ab" plainSignature]

/-- A request that is refused before the challenge is looked at leaves it. -/
theorem refused_request_spends_nothing :
    ¬ ∀ as s, Along sampleStep Fresh .initial as → runs sampleStep .initial as = some s →
      ∀ after before nonce status, s.log = after ++ .refused nonce status :: before →
        (∃ wallet t, Event.issued nonce wallet t ∈ before) → ∀ e ∈ after, ¬ e.Mints nonce := by
  intro h
  let token := emptyList.makeToken sampleHmac plainWallet 30 2
  obtain ⟨s, hrun, hlog⟩ := runs_exists sampleStep .initial unsignedFirst
    (fun s => decide (s.log = [.tried "ab" plainWallet plainSignature 2 (some token),
      .refused "ab" 400, .issued "ab" plainWallet 0])) (by decide +kernel)
  have hfresh : Along sampleStep Fresh .initial unsignedFirst :=
    ⟨fun _ _ h => (by cases h), fun _ _ => ⟨trivial, fun _ _ => ⟨trivial, fun _ _ => trivial⟩⟩⟩
  exact h unsignedFirst s hfresh hrun [_] [_] "ab" 400 (of_decide_eq_true hlog)
    ⟨plainWallet, 0, List.mem_singleton.mpr rfl⟩ _ (List.mem_singleton.mpr rfl)
    ⟨plainWallet, plainSignature, 2, token, rfl⟩

end KvasirNet.Challenges
