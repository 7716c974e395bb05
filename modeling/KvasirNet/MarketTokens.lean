import KvasirNet.MarketOwners
import KvasirNet.TextCodec

/-! Node tokens, and what a wallet that has been taken off the list can still do
with one. A token is a signed text that says which wallet it speaks for and until
when; nothing about it is stored. -/
namespace KvasirNet.Market

/-- `createHmac('sha256', key).update(text).digest('hex')`: hexadecimal digits. -/
structure Hmac where
  sha256 : String → String → String
  hex : ∀ key text, ∀ c ∈ (sha256 key text).toList, c.isDigit = true ∨ ('a' ≤ c ∧ c ≤ 'f')

/-- `eligible` answers for a wallet, or throws. -/
structure NodeAuth where
  secret : String
  serviceToken : String
  eligible : Option (Wallet → Except Unit Bool)

/-- The headers of a request, each after `trim`; an absent one is empty. -/
structure Headers where
  authorization : String
  service : String
  deriving DecidableEq, Repr

/-- `replace(/^Bearer\s+/i, '')`. -/
def Headers.bearer (h : Headers) : String :=
  let cs := h.authorization.toList
  if (cs.take 6).map Char.toLower = "bearer".toList ∧ ((cs.drop 6).head?.any isBlank) = true then
    String.ofList ((cs.drop 6).dropWhile isBlank)
  else h.authorization

namespace NodeAuth
variable (hmac : Hmac) (auth : NodeAuth)

def allows (wallet : Wallet) : Bool :=
  match auth.eligible with
  | none => true
  | some eligible =>
    match eligible wallet with
    | .ok answer => answer
    | .error () => false

/-- The second at which a token made now runs out. -/
def expiry (nowMs : ℕ) (ttlDays : ℚ) : ℤ := (nowMs / 1000 : ℕ) + jsRound (ttlDays * 86400)

def makeToken (wallet : Wallet) (ttlDays : ℚ) (nowMs : ℕ) : String :=
  let body := "node|" ++ wallet ++ "|" ++ toString (expiry nowMs ttlDays)
  base64url (utf8 (body ++ "|" ++ hmac.sha256 auth.secret body))

/-- The fields of a decoded token, checked in this order. -/
def verifyFields (nowMs : ℕ) : List String → Option Wallet
  | [kind, wallet, expText, mac] =>
    if kind ≠ "node" ∨ wallet = "" then none
    else
      match jsNumber expText with
      | none => none
      | some exp =>
        if isFinite exp = false ∨ exp < (nowMs / 1000 : ℕ) then none
        else if mac = hmac.sha256 auth.secret (kind ++ "|" ++ wallet ++ "|" ++ expText) then
          some wallet
        else none
  | _ => none

def verifyToken (nowMs : ℕ) (token : String) : Option Wallet :=
  if token = "" then none
  else auth.verifyFields hmac nowMs (splitFields '|' (ofUtf8 (ofBase64url token)))

def identify (nowMs : ℕ) (h : Headers) : Who :=
  if auth.serviceToken ≠ "" ∧ h.service ≠ "" ∧ h.service = auth.serviceToken then .service
  else
    match [h.bearer, h.service].findSome? (auth.verifyToken hmac nowMs) with
    | some wallet => .node wallet
    | none => .none

/-- Who dials, from the token of the query: no list is asked. -/
def identifyDial (nowMs : ℕ) (token : String) : Who :=
  match auth.verifyToken hmac nowMs token with
  | some wallet => .node wallet
  | none =>
    if auth.serviceToken ≠ "" ∧ token = auth.serviceToken then .service else .none

end NodeAuth

/-! ## Requests -/

inductive Request
  | demand (headers : Headers) (want : String)
  | volunteer (headers : Headers) (isFrozen : Bool) (want : String) (maxExperts : ℚ)
  | coverage (headers : Headers) (body : CoverageBody)
  | shard (headers : Headers) (model : String) (layer expertBegin expertEnd : Option String)
  | relay (token : String) (path : Path)
  deriving DecidableEq

inductive Answer
  | market (r : Reply)
  /-- The query that goes to the reader beside the file. -/
  | forwarded (query : List (String × String))
  | failed (status : ℕ) (text : String)
  deriving DecidableEq

def Answer.succeeded : Answer → Bool
  | market (.refused _) => false
  | market _ => true
  | forwarded _ => true
  | failed .. => false

/-- The parameters that a shard download needs, the first missing one named. -/
def shardQuery (model : String) : List (String × Option String) → Except String (List (String × String))
  | [] => .ok [("model", model)]
  | (key, none) :: _ => .error (key ++ " is required")
  | (key, some value) :: rest => (shardQuery model rest).map fun q => q ++ [(key, value)]

section Handle
variable (hmac : Hmac) (auth : NodeAuth) (cfg : Config)

def shardDownload (offered : Bool) (who : Who) (allowed : Bool) (model : String)
    (layer expertBegin expertEnd : Option String) : Answer :=
  match needsNode who allowed with
  | .error e => .market (.refused e)
  | .ok () =>
    if offered = false then .failed 503 "this bridge serves no expert shards"
    else
      match shardQuery model
        [("layer", layer), ("expert_begin", expertBegin), ("expert_end", expertEnd)] with
      | .error text => .failed 400 text
      | .ok query => .forwarded query

/-- What the list says of the caller now; a caller without a wallet is not asked about. -/
def Who.allowed (who : Who) : Bool := (who.wallet.map auth.allows).getD true

/-- A request over HTTP or an upgrade, with the bridge as it is now. -/
def handle (offered : Bool) (s : State) (nowMs : ℕ) : Request → State × Answer
  | .demand h want =>
    let who := auth.identify hmac nowMs h
    (react cfg s (.demand who (who.allowed auth) want nowMs)).map id .market
  | .volunteer h isFrozen want maxExperts =>
    let who := auth.identify hmac nowMs h
    (react cfg s (.volunteer who (who.allowed auth) isFrozen want maxExperts nowMs)).map id .market
  | .coverage h body =>
    let who := auth.identify hmac nowMs h
    (react cfg s (.coverage who (who.allowed auth) body nowMs)).map id .market
  | .shard h model layer expertBegin expertEnd =>
    let who := auth.identify hmac nowMs h
    (s, shardDownload offered who (who.allowed auth) model layer expertBegin expertEnd)
  | .relay token path =>
    (react cfg s (.upgrade (auth.identifyDial hmac nowMs token) path)).map id .market

end Handle

def Headers.presents (token : String) (h : Headers) : Bool :=
  (h.service == "" || h.service == token) && (h.bearer == "" || h.bearer == token)

def Request.presents (token : String) : Request → Bool
  | demand h _ | volunteer h _ _ _ | coverage h _ | shard h _ _ _ _ => h.presents token
  | relay t _ => t == token

def Request.dials (s : State) : Request → Bool
  | relay _ path => (s.relayTargets.lookup path.session).isSome
  | _ => false

/-! ## Tokens -/

variable {hmac : Hmac} {auth : NodeAuth}

theorem toString_int_chars (n : ℤ) : '|' ∉ (toString n).toList := by
  have hdigits (m : ℕ) : '|' ∉ Nat.toDigits 10 m := by
    intro h
    have hdigit := Nat.isDigit_of_mem_toDigits (by decide) (by decide) h
    revert hdigit
    decide
  cases n with
  | ofNat m =>
    have htext : (toString (Int.ofNat m)).toList = Nat.toDigits 10 m := Nat.toList_repr
    rw [htext]
    exact hdigits m
  | negSucc m =>
    have htext : (toString (Int.negSucc m)).toList = '-' :: Nat.toDigits 10 (m + 1) := by
      change ("-" ++ Nat.repr (m + 1)).toList = _
      rw [String.toList_append, Nat.toList_repr]
      rfl
    rw [htext, List.mem_cons, not_or]
    exact ⟨by decide, hdigits (m + 1)⟩

theorem hmac_chars (hmac : Hmac) (key text : String) : '|' ∉ (hmac.sha256 key text).toList := by
  intro h
  have hhex := hmac.hex key text '|' h
  revert hhex
  decide

theorem splitFields_token (wallet exp mac : String) (hexp : '|' ∉ exp.toList)
    (hmac : '|' ∉ mac.toList) :
    splitFields '|' ("node|" ++ wallet ++ "|" ++ exp ++ "|" ++ mac) =
      "node" :: (splitFields '|' wallet ++ [exp, mac]) := by
  have hlist : ("node|" ++ wallet ++ "|" ++ exp ++ "|" ++ mac).toList =
      "node".toList ++ '|' :: (wallet.toList ++ '|' :: (exp.toList ++ '|' :: mac.toList)) := by
    simp [String.toList_append]
  unfold splitFields
  rw [hlist, List.splitOn_append_cons_self, List.splitOn_append_cons_self,
    List.splitOn_append_cons_self, List.splitOn_eq_singleton hexp, List.splitOn_eq_singleton hmac,
    List.splitOn_eq_singleton (show '|' ∉ "node".toList by decide)]
  simp [String.ofList_toList]

theorem verifyFields_length {nowMs : ℕ} {fields : List String} (h : fields.length ≠ 4) :
    auth.verifyFields hmac nowMs fields = none := by
  unfold NodeAuth.verifyFields
  split
  · exact absurd rfl h
  · rfl

theorem makeToken_ne_empty (hmac : Hmac) (auth : NodeAuth) (wallet : Wallet) (ttlDays : ℚ)
    (mintedMs : ℕ) : auth.makeToken hmac wallet ttlDays mintedMs ≠ "" := by
  apply base64url_ne_empty
  intro hnil
  have htext := congrArg ofUtf8 hnil
  rw [ofUtf8_utf8] at htext
  have hchars := congrArg String.toList htext
  simp [String.toList_append, ofUtf8, decodeChars] at hchars

theorem verifyToken_makeToken (hmac : Hmac) (auth : NodeAuth) (wallet : Wallet) (ttlDays : ℚ)
    (mintedMs nowMs : ℕ) :
    auth.verifyToken hmac nowMs (auth.makeToken hmac wallet ttlDays mintedMs) =
      if wallet ≠ "" ∧ '|' ∉ wallet.toList ∧
        isFinite (NodeAuth.expiry mintedMs ttlDays) = true ∧
        (nowMs / 1000 : ℕ) ≤ NodeAuth.expiry mintedMs ttlDays then some wallet else none := by
  generalize hexp : NodeAuth.expiry mintedMs ttlDays = exp
  have hne := makeToken_ne_empty hmac auth wallet ttlDays mintedMs
  rw [NodeAuth.verifyToken, if_neg hne, NodeAuth.makeToken, ofBase64url_base64url, ofUtf8_utf8, hexp,
    splitFields_token wallet (toString exp) _ (toString_int_chars exp) (hmac_chars hmac _ _)]
  by_cases hbar : '|' ∈ wallet.toList
  · -- one field too many
    rw [if_neg fun h => h.2.1 hbar]
    apply verifyFields_length
    have hlen := length_splitOn_of_mem hbar
    simp only [splitFields, List.length_cons, List.length_append, List.length_map, List.length_nil]
    omega
  · have hone : splitFields '|' wallet = [wallet] := by
      rw [splitFields, List.splitOn_eq_singleton hbar, List.map_singleton, String.ofList_toList]
    rw [hone]
    have hlt : (exp : ℚ) < (nowMs / 1000 : ℕ) ↔ ¬ ((nowMs / 1000 : ℕ) : ℤ) ≤ exp := by
      rw [not_le, ← Int.cast_natCast, Int.cast_lt]
    simp only [List.cons_append, List.nil_append, NodeAuth.verifyFields, ne_eq, not_true_eq_false,
      false_or, jsNumber_toString, hbar, not_false_eq_true, true_and, hlt]
    generalize nowMs / 1000 = second
    by_cases hw : wallet = ""
    · rw [if_pos hw, if_neg fun h => h.1 hw]
    · rw [if_neg hw]
      cases hfin : isFinite (exp : ℚ) with
      | false =>
        rw [if_pos (Or.inl rfl), if_neg fun h => Bool.false_ne_true h.2.1]
      | true =>
        by_cases hlive : (second : ℤ) ≤ exp
        · have hdue : ¬ (true = false ∨ ¬ (second : ℤ) ≤ exp) :=
            not_or.mpr ⟨Bool.false_ne_true ∘ Eq.symm, not_not.mpr hlive⟩
          have hmac : hmac.sha256 auth.secret ("node|" ++ wallet ++ "|" ++ toString exp) =
              hmac.sha256 auth.secret ("node" ++ "|" ++ wallet ++ "|" ++ toString exp) := rfl
          rw [if_neg hdue, if_pos hmac, if_pos ⟨hw, rfl, hlive⟩]
        · rw [if_pos (Or.inr hlive), if_neg fun h => hlive h.2.2]

/-! ## A wallet off the list -/

theorem refused_of_not_allowed {who : Who} (hservice : who ≠ .service)
    (hnode : ∀ w, who = .node w → auth.allows w = false) :
    ∃ e, needsNode who (who.allowed auth) = .error e := by
  cases who with
  | service => exact absurd rfl hservice
  | none => exact ⟨_, rfl⟩
  | node w =>
    refine ⟨.notAdmitted, ?_⟩
    simp [needsNode, Who.allowed, Who.wallet, hnode w rfl]

theorem identify_presents {wallet : Wallet} {nowMs : ℕ} {token : String} {h : Headers}
    (hverify : auth.verifyToken hmac nowMs token = some wallet ∨
      auth.verifyToken hmac nowMs token = none)
    (hpresents : h.presents token = true) (hservice : token ≠ auth.serviceToken) :
    auth.identify hmac nowMs h = .node wallet ∨ auth.identify hmac nowMs h = .none := by
  have hempty : auth.verifyToken hmac nowMs "" = none := if_pos rfl
  simp only [Headers.presents, Bool.and_eq_true, Bool.or_eq_true, beq_iff_eq] at hpresents
  have hnot : ¬ (auth.serviceToken ≠ "" ∧ h.service ≠ "" ∧ h.service = auth.serviceToken) := by
    rintro ⟨-, hne, he⟩
    rcases hpresents.1 with h0 | h1
    · exact hne h0
    · exact hservice (h1.symm.trans he)
  have hcandidate {c : String} (hc : c = "" ∨ c = token) :
      auth.verifyToken hmac nowMs c = some wallet ∨ auth.verifyToken hmac nowMs c = none := by
    rcases hc with rfl | rfl
    · exact Or.inr hempty
    · exact hverify
  unfold NodeAuth.identify
  rw [if_neg hnot]
  simp only [List.findSome?_cons, List.findSome?_nil]
  rcases hcandidate hpresents.2 with hb | hb
  · rw [hb]
    exact Or.inl rfl
  · rw [hb]
    rcases hcandidate hpresents.1 with hs | hs
    · rw [hs]
      exact Or.inl rfl
    · rw [hs]
      exact Or.inr rfl

theorem handle_refused {cfg : Config} {offered : Bool} {s : State} {nowMs : ℕ} {r : Request}
    {h : Headers} {e : Refusal} (hdoor : needsNode (auth.identify hmac nowMs h)
      ((auth.identify hmac nowMs h).allowed auth) = .error e)
    (hr : (∃ want, r = .demand h want) ∨ (∃ f want m, r = .volunteer h f want m) ∨
      (∃ b, r = .coverage h b) ∨ ∃ m l x y, r = .shard h m l x y) :
    (handle hmac auth cfg offered s nowMs r).2.succeeded = false := by
  rcases hr with ⟨want, rfl⟩ | ⟨f, want, m, rfl⟩ | ⟨b, rfl⟩ | ⟨m, l, x, y, rfl⟩
  · simp [handle, react, hdoor, Answer.succeeded]
  · simp [handle, react, hdoor, Answer.succeeded]
  · simp [handle, react, hdoor, Answer.succeeded]
  · simp [handle, shardDownload, hdoor, Answer.succeeded]

theorem dial_succeeds {cfg : Config} {s : State} {who : Who} {path : Path} :
    (Answer.market (react cfg s (.upgrade who path)).2).succeeded = true ↔
      who ≠ .none ∧ (s.relayTargets.lookup path.session).isSome = true := by
  simp only [react]
  rcases resolveUpgrade_cases s who path with ⟨e, he⟩ | ⟨t, ht, hwho, he⟩
  · rw [he]
    simp only [Answer.succeeded, Bool.false_eq_true, ne_eq, false_iff, not_and]
    intro hwho htarget
    obtain ⟨t, ht⟩ := Option.isSome_iff_exists.mp htarget
    simp only [resolveUpgrade, if_neg hwho, State.dial, ht, Option.map_some] at he
    exact Reply.noConfusion (congrArg Prod.snd he)
  · rw [he, ht]
    simp [Answer.succeeded, hwho]

theorem removal_stops_token_iff (hmac : Hmac) (auth : NodeAuth) (cfg : Config) (offered : Bool)
    (s : State) (wallet : Wallet) (ttlDays : ℚ) (mintedMs nowMs : ℕ) (r : Request)
    (hremoved : auth.allows wallet = false)
    (hpresents : r.presents (auth.makeToken hmac wallet ttlDays mintedMs) = true)
    (hservice : auth.makeToken hmac wallet ttlDays mintedMs ≠ auth.serviceToken) :
    (handle hmac auth cfg offered s nowMs r).2.succeeded = false ↔
      ¬ (r.dials s = true ∧ wallet ≠ "" ∧ '|' ∉ wallet.toList ∧
        isFinite (NodeAuth.expiry mintedMs ttlDays) = true ∧
        (nowMs / 1000 : ℕ) ≤ NodeAuth.expiry mintedMs ttlDays) := by
  have hverify := verifyToken_makeToken hmac auth wallet ttlDays mintedMs nowMs
  generalize auth.makeToken hmac wallet ttlDays mintedMs = token at hverify hpresents hservice
  have hspeaks : auth.verifyToken hmac nowMs token = some wallet ∨
      auth.verifyToken hmac nowMs token = none := by
    rw [hverify]
    split_ifs
    · exact Or.inl rfl
    · exact Or.inr rfl
  have hdoor {h : Headers} (hp : h.presents token = true) :
      ∃ e, needsNode (auth.identify hmac nowMs h)
        ((auth.identify hmac nowMs h).allowed auth) = .error e := by
    apply refused_of_not_allowed
    · rcases identify_presents hspeaks hp hservice with hid | hid <;> rw [hid] <;> simp
    · intro w hw
      rcases identify_presents hspeaks hp hservice with hid | hid
      · rw [hid] at hw
        obtain rfl := Who.node.inj hw
        exact hremoved
      · rw [hid] at hw
        cases hw
  cases r with
  | demand h want =>
    obtain ⟨e, he⟩ := hdoor hpresents
    simp [handle_refused he (Or.inl ⟨want, rfl⟩), Request.dials]
  | volunteer h isFrozen want maxExperts =>
    obtain ⟨e, he⟩ := hdoor hpresents
    simp [handle_refused he (Or.inr (Or.inl ⟨isFrozen, want, maxExperts, rfl⟩)), Request.dials]
  | coverage h body =>
    obtain ⟨e, he⟩ := hdoor hpresents
    simp [handle_refused he (Or.inr (Or.inr (Or.inl ⟨body, rfl⟩))), Request.dials]
  | shard h model layer expertBegin expertEnd =>
    obtain ⟨e, he⟩ := hdoor hpresents
    simp [handle_refused he (Or.inr (Or.inr (Or.inr ⟨model, layer, expertBegin, expertEnd, rfl⟩))),
      Request.dials]
  | relay t path =>
    obtain rfl : t = token := by simpa [Request.presents] using hpresents
    -- the list is not asked: a live token is enough
    have hwho : auth.identifyDial hmac nowMs t ≠ .none ↔
        auth.verifyToken hmac nowMs t = some wallet := by
      unfold NodeAuth.identifyDial
      rcases hspeaks with hv | hv
      · simp [hv]
      · simp [hv, hservice]
    have hlive : auth.verifyToken hmac nowMs t = some wallet ↔ wallet ≠ "" ∧
        '|' ∉ wallet.toList ∧ isFinite (NodeAuth.expiry mintedMs ttlDays) = true ∧
        (nowMs / 1000 : ℕ) ≤ NodeAuth.expiry mintedMs ttlDays := by
      rw [hverify]
      split_ifs with hcond
      · exact ⟨fun _ => hcond, fun _ => rfl⟩
      · constructor
        · intro h
          cases h
        · intro h
          exact absurd h hcond
    change (Answer.market (react cfg s (.upgrade (auth.identifyDial hmac nowMs t) path)).2).succeeded =
      false ↔ _
    rw [← Bool.not_eq_true, dial_succeeds, hwho, hlive, Request.dials, and_comm]

def sampleWallet : Wallet := "11111111111111111111111111111111"

/-- The digest of the one text that is signed here. -/
def sampleDigest : String :=
  "e30b2c3e91437e224a842c7c1a0f56166834ad8c2fae6ae116f08cc80b3cebe0"

def sampleHmac : Hmac where
  sha256 key text :=
    if key = "s3cret" ∧ text = "node|11111111111111111111111111111111|1702592000" then sampleDigest else ""
  hex key text c hc := by
    have hall : (sampleDigest.toList.all fun d => d.isDigit || ('a' ≤ d && d ≤ 'f')) = true := by
      decide +kernel
    split_ifs at hc
    · simpa using List.all_eq_true.mp hall c hc
    · cases hc

def emptyList : NodeAuth := ⟨"s3cret", "", some fun _ => .ok false⟩

def sampleToken : String := emptyList.makeToken sampleHmac sampleWallet 30 1700000000000

theorem removal_stops_token_demand :
    emptyList.allows sampleWallet = false ∧
      (handle sampleHmac emptyList sampleConfig true State.empty 1700000100000
        (.demand ⟨"", sampleToken⟩ "")).2.succeeded = false := by
  refine ⟨rfl, ?_⟩
  have hpresents : (Request.demand ⟨"", sampleToken⟩ "").presents
      (emptyList.makeToken sampleHmac sampleWallet 30 1700000000000) = true := by
    simp [Request.presents, Headers.presents, Headers.bearer, sampleToken]
  have hiff := removal_stops_token_iff sampleHmac emptyList sampleConfig true State.empty sampleWallet
    30 1700000000000 1700000100000 (.demand ⟨"", sampleToken⟩ "") rfl hpresents
    (makeToken_ne_empty _ _ _ _ _)
  exact hiff.mpr fun h => Bool.false_ne_true h.1

/-- A worker reports a session; then its wallet is taken off the list, and dials. -/
def reportedOnce : List Action :=
  [.coverage (.node sampleWallet) true (sampleBody "w1" "relay:a" sampleWallet) 1700000001000]

theorem removed_wallet_dials :
    ∃ s, runs (step sampleConfig) State.empty reportedOnce = some s ∧
      emptyList.allows sampleWallet = false ∧
      emptyList.verifyToken sampleHmac 1700000100000 sampleToken = some sampleWallet ∧
      (handle sampleHmac emptyList sampleConfig true s 1700000100000
        (.relay sampleToken (.expertRelay "a"))).2.succeeded = true := by
  obtain ⟨s, hrun, htarget⟩ := runs_exists (step sampleConfig) State.empty reportedOnce
    (fun s => (s.relayTargets.lookup "a").isSome) (by decide +kernel)
  have hverify : emptyList.verifyToken sampleHmac 1700000100000 sampleToken = some sampleWallet := by
    rw [sampleToken, verifyToken_makeToken]
    exact if_pos (by decide +kernel)
  have hwho : emptyList.identifyDial sampleHmac 1700000100000 sampleToken = .node sampleWallet := by
    rw [NodeAuth.identifyDial, hverify]
  have hdial : (Answer.market (react sampleConfig s
      (.upgrade (.node sampleWallet) (.expertRelay "a"))).2).succeeded = true :=
    dial_succeeds.mpr ⟨Who.noConfusion, htarget⟩
  refine ⟨s, hrun, rfl, hverify, ?_⟩
  rw [handle, hwho]
  exact hdial

end KvasirNet.Market
