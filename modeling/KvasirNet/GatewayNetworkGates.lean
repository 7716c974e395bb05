import KvasirNet.GatewayCredits
import KvasirNet.GatewaySessions
import KvasirNet.GatewayTwoFactor

/-! How the gateway tells the network path of a request, and the gates that stand on it: the
address an unmetered key is used from, and the writes that only the host's own desktop may make. -/
namespace KvasirNet.Gateway

/-- All that the sender of a request chooses; header names are in lower case. -/
structure Sent where
  headers : String → Option String
  /-- `String((req.body || {}).totp || '')`. -/
  totp : String

/-- A request on a connection that came straight to the port of the gateway. -/
structure HttpRequest extends Sent where
  remoteAddress : Option String

structure Refused where
  status : ℕ
  message : String
  deriving DecidableEq

def HttpRequest.header (req : HttpRequest) (name : String) : Option String :=
  (req.headers name).filter (· ≠ "")

/-! ### The address of the caller -/

/-- `KVR_CREDIT_UNMETERED_ALLOW_IPS`, one address after each comma. -/
def unmeteredAllowIps (env : String) : List String :=
  ((splitFields ',' env).map trimText).filter (· ≠ "")

/-- `replace(/^::ffff:/, '')`. -/
def unmapped (address : String) : String :=
  if address.toList.take 7 = "::ffff:".toList then String.ofList (address.toList.drop 7)
  else address

def callerIp (req : HttpRequest) : String :=
  let direct := unmapped (req.remoteAddress.getD "")
  trimText ((req.header "cf-connecting-ip").getD direct)

def unmeteredIpAllowed (env : String) (req : HttpRequest) : Bool :=
  if unmeteredAllowIps env = [] then true
  else decide (callerIp req ∈ unmeteredAllowIps env)

/-! ### The gates of a governed write -/

def requireLocalDesktop (req : HttpRequest) : Except Refused Unit :=
  if (req.header "x-forwarded-for").isSome || (req.header "x-forwarded-host").isSome then
    .error ⟨403, "pricing changes are only allowed from the gateway desktop app"⟩
  else .ok ()

def hexValue (c : Char) : Option ℕ :=
  if 48 ≤ c.toNat ∧ c.toNat ≤ 57 then some (c.toNat - 48)
  else if 65 ≤ c.toNat ∧ c.toNat ≤ 70 then some (c.toNat - 55)
  else if 97 ≤ c.toNat ∧ c.toNat ≤ 102 then some (c.toNat - 87)
  else none

def unescape : List Char → Option Bytes
  | [] => some []
  | '%' :: a :: b :: cs =>
    match hexValue a, hexValue b with
    | some x, some y => (unescape cs).map (UInt8.ofNat (16 * x + y) :: ·)
    | _, _ => none
  | '%' :: _ => none
  | c :: cs => (unescape cs).map (String.utf8EncodeChar c ++ ·)

/-- `none` stands for the `URIError`. -/
def decodeURIComponent (text : String) : Option String :=
  (unescape text.toList).bind fun bytes =>
    if utf8 (ofUtf8 bytes) = bytes then some (ofUtf8 bytes) else none

/-- One part of the header; without `=` it is passed over. -/
def cookiePart (part : String) : Option (List (String × String)) :=
  let name := part.toList.takeWhile (· ≠ '=')
  if name.length = part.toList.length then some []
  else
    (decodeURIComponent (trimText (String.ofList (part.toList.drop (name.length + 1))))).map
      fun value => [(trimText (String.ofList name), value)]

def parseCookies (req : HttpRequest) : Option (List (String × String)) :=
  ((splitFields ';' ((req.headers "cookie").getD "")).mapM cookiePart).map List.flatten

/-- The last cookie of a name is the one that counts. -/
def cookie (name : String) (cookies : List (String × String)) : String :=
  (cookies.reverse.lookup name).getD ""

def requireAdmin (hmac : Market.Hmac) (auth : AdminAuth) (nowMs : ℕ) (req : HttpRequest) :
    Except Refused Wallet :=
  if auth.adminWallets = [] then .error ⟨503, "admin auth not configured"⟩
  else
    match parseCookies req with
    | none => .error ⟨500, "internal gateway error; retry shortly"⟩
    | some cookies =>
      match auth.adminWallet hmac nowMs (cookie "kvr_admin_session" cookies) with
      | none => .error ⟨401, "admin sign-in required"⟩
      | some w => .ok w

def requireGenesis (cfg : Config) (adminWallet : Wallet) : Except Refused Unit :=
  if adminWallet ≠ cfg.genesisWallet then
    .error ⟨403, "pricing can only be changed by the genesis wallet"⟩
  else .ok ()

/-- The gates before a pricing, relay, grant or whitelist write; what comes back is what the check
of the code says, when it is reached. -/
def governedGates (p : Platform) (hmac : Market.Hmac) (auth : AdminAuth) (cfg : Config) (db : DB)
    (nowMs : ℕ) (req : HttpRequest) : Except Refused FreshTotp :=
  match requireAdmin hmac auth nowMs req with
  | .error refused => .error refused
  | .ok adminWallet =>
    match requireLocalDesktop req with
    | .error refused => .error refused
    | .ok () =>
      match requireGenesis cfg adminWallet with
      | .error refused => .error refused
      | .ok () => .ok (requireFreshTotp p cfg db nowMs req.totp)

/-! ### The gates of the API -/

/-- What `.` does not match. -/
def isLineEnd (c : Char) : Bool := c.toNat ∈ [0x0A, 0x0D, 0x2028, 0x2029]

/-- The key that `/^Bearer\s+(.+)$/i` takes out of the header, trimmed. -/
def bearerKey (authorization : String) : Option String :=
  let cs := authorization.toList
  let blanks := (cs.drop 6).takeWhile isJsSpace
  let rest := (cs.drop 6).dropWhile isJsSpace
  if (cs.take 6).map Char.toLower ≠ "bearer".toList ∨ blanks = [] then none
  else if rest = [] then
    -- the last blank is left for the group
    if blanks.length < 2 ∨ (blanks.getLast?.any isLineEnd) = true then none else some ""
  else if rest.any isLineEnd then none
  else some (trimText (String.ofList rest))

def bearerOf (p : Platform) (db : DB) (req : HttpRequest) : Option Wallet :=
  (bearerKey ((req.headers "authorization").getD "")).bind fun key => bearerWallet db (p.sha256 key)

def unauthenticated (req : HttpRequest) : Refused :=
  let cs := ((req.headers "authorization").getD "").toList
  let supplied := decide ((cs.take 6).map Char.toLower = "bearer".toList) &&
      (cs.drop 6).head?.any isJsSpace && (cs.drop 6).any (!isJsSpace ·) ||
    (req.header "x-api-key").isSome
  ⟨401, if supplied then "invalid API key"
    else "this endpoint needs an API key: send Authorization: Bearer <key>. " ++
      "A wallet can issue one for itself — see https://kvasir-ai.net/docs/api"⟩

def addressRefused : Refused := ⟨403, "key not permitted from this address"⟩

/-- The gate of `GET /v1/models`. -/
def modelsGate (p : Platform) (env : String) (cfg : Config) (db : DB) (req : HttpRequest) :
    Except Refused Wallet :=
  match bearerOf p db req with
  | none => .error (unauthenticated req)
  | some w =>
    if cfg.creditUnmetered.contains w && !unmeteredIpAllowed env req then .error addressRefused
    else .ok w

/-- The gate of `POST /v1/chat/completions`. -/
def chatGate (p : Platform) (env : String) (cfg : Config) (db : DB) (now : ℕ) (req : HttpRequest) :
    Except Refused Wallet :=
  match bearerOf p db req with
  | none => .error (unauthenticated req)
  | some w =>
    if !creditWhitelisted cfg db w then .error ⟨403, "wallet is not whitelisted"⟩
    else if cfg.creditUnmetered.contains w then
      if !unmeteredIpAllowed env req then .error addressRefused else .ok w
    else if (creditAcct db w now).balance ≤ cfg.creditMinBalance then
      .error ⟨402, "insufficient credit balance; top up"⟩
    else .ok w

/-! ### What the gates are for -/

/-- The address of the other end of the connection. -/
def HttpRequest.socketIp (req : HttpRequest) : String :=
  trimText (unmapped (req.remoteAddress.getD ""))

/-- The list lets the address in; a list that is not set lets in all of them. -/
def HttpRequest.Listed (env : String) (req : HttpRequest) : Prop :=
  unmeteredAllowIps env ≠ [] → req.socketIp ∈ unmeteredAllowIps env

/-- Two requests on connections from one address: the gates do not tell them apart, and stand
before the addresses that they are for. `hosts` are the addresses that the gateway host has for
itself. -/
structure DisbelieveCallers (env : String) (hosts : List String) (r r' : HttpRequest) : Prop where
  unmetered_same : unmeteredIpAllowed env r = unmeteredIpAllowed env r'
  local_same : requireLocalDesktop r = requireLocalDesktop r'
  unmetered_listed : ∀ x ∈ [r, r'], unmeteredIpAllowed env x = true → x.Listed env
  local_host : ∀ x ∈ [r, r'], requireLocalDesktop x = .ok () → x.socketIp ∈ hosts
  /-- An unmetered key is of no use from another address. -/
  key_refused : ∀ x ∈ [r, r'], ¬ x.Listed env → ∀ p cfg db now w, bearerOf p db x = some w →
    cfg.creditUnmetered.contains w = true →
      modelsGate p env cfg db x = .error addressRefused ∧
        ∃ refused, chatGate p env cfg db now x = .error refused
  /-- A write from another host does not get as far as the code. -/
  write_refused : ∀ x ∈ [r, r'], x.socketIp ∉ hosts → ∀ p hmac auth cfg db nowMs,
    ∃ refused, governedGates p hmac auth cfg db nowMs x = .error refused

/-- The address that a request names for itself in the header of the tunnel. -/
def HttpRequest.namedIp (req : HttpRequest) : Option String :=
  (req.header "cf-connecting-ip").map trimText

/-- A request says of itself that it came through a proxy. -/
def HttpRequest.forwarded (req : HttpRequest) : Bool :=
  (req.header "x-forwarded-for").isSome || (req.header "x-forwarded-host").isSome

/-- The headers of two requests from one address leave the gates to the connection. -/
structure NothingForged (env : String) (hosts : List String) (r r' : HttpRequest) : Prop where
  listed : unmeteredAllowIps env ≠ [] → r.socketIp ∈ unmeteredAllowIps env →
    ((∀ ip ∈ r.namedIp, ip ∈ unmeteredAllowIps env) ↔ ∀ ip ∈ r'.namedIp, ip ∈ unmeteredAllowIps env)
  unlisted : unmeteredAllowIps env ≠ [] → r.socketIp ∉ unmeteredAllowIps env →
    ∀ x ∈ [r, r'], ∀ ip ∈ x.namedIp, ip ∉ unmeteredAllowIps env
  at_host : r.socketIp ∈ hosts → r.forwarded = r'.forwarded
  elsewhere : r.socketIp ∉ hosts → r.forwarded = true ∧ r'.forwarded = true

/-! ### What the gates go by -/

variable {env : String} {hosts : List String} {req r r' : HttpRequest}

theorem callerIp_eq (req : HttpRequest) : callerIp req = req.namedIp.getD req.socketIp := by
  unfold callerIp HttpRequest.namedIp HttpRequest.socketIp
  cases req.header "cf-connecting-ip" with
  | none => rfl
  | some _ => rfl

theorem unmeteredIpAllowed_iff :
    unmeteredIpAllowed env req = true ↔
      unmeteredAllowIps env = [] ∨ callerIp req ∈ unmeteredAllowIps env := by
  unfold unmeteredIpAllowed
  by_cases hunset : unmeteredAllowIps env = []
  · rw [if_pos hunset]
    exact ⟨fun _ => .inl hunset, fun _ => rfl⟩
  · rw [if_neg hunset, decide_eq_true_iff]
    exact ⟨.inr, fun h => h.resolve_left hunset⟩

theorem allowed_iff_of_listed (hset : unmeteredAllowIps env ≠ [])
    (hip : req.socketIp ∈ unmeteredAllowIps env) :
    unmeteredIpAllowed env req = true ↔ ∀ ip ∈ req.namedIp, ip ∈ unmeteredAllowIps env := by
  rw [unmeteredIpAllowed_iff, callerIp_eq]
  cases hnamed : req.namedIp with
  | none => simp [hip]
  | some ip => simp [hset]

theorem allowed_iff_of_unlisted (hset : unmeteredAllowIps env ≠ [])
    (hip : req.socketIp ∉ unmeteredAllowIps env) :
    unmeteredIpAllowed env req = true ↔ ∃ ip ∈ req.namedIp, ip ∈ unmeteredAllowIps env := by
  rw [unmeteredIpAllowed_iff, callerIp_eq]
  cases hnamed : req.namedIp with
  | none => simp [hip, hset]
  | some ip => simp [hset]

theorem requireLocalDesktop_eq (req : HttpRequest) :
    requireLocalDesktop req = if req.forwarded = true then
      .error ⟨403, "pricing changes are only allowed from the gateway desktop app"⟩ else .ok () :=
  rfl

theorem requireLocalDesktop_ok_iff : requireLocalDesktop req = .ok () ↔ req.forwarded = false := by
  rw [requireLocalDesktop_eq]
  cases req.forwarded <;> simp

theorem requireLocalDesktop_same_iff :
    requireLocalDesktop r = requireLocalDesktop r' ↔ r.forwarded = r'.forwarded := by
  rw [requireLocalDesktop_eq, requireLocalDesktop_eq]
  cases r.forwarded <;> cases r'.forwarded <;> simp

/-! ### What a shut gate means -/

theorem keys_refused (hshut : unmeteredIpAllowed env req = false) (p : Platform) (cfg : Config)
    (db : DB) (now : ℕ) {w : Wallet} (hkey : bearerOf p db req = some w)
    (hunmetered : cfg.creditUnmetered.contains w = true) :
    modelsGate p env cfg db req = .error addressRefused ∧
      ∃ refused, chatGate p env cfg db now req = .error refused := by
  constructor
  · unfold modelsGate
    rw [hkey]
    dsimp only
    rw [hunmetered, hshut]
    rfl
  · unfold chatGate
    rw [hkey]
    dsimp only
    by_cases hlisted : creditWhitelisted cfg db w = true
    · rw [hlisted, hunmetered, hshut]
      exact ⟨addressRefused, rfl⟩
    · have hoff : creditWhitelisted cfg db w = false := Bool.eq_false_iff.mpr hlisted
      rw [hoff]
      exact ⟨_, rfl⟩

theorem governedGates_of_forwarded (hforwarded : req.forwarded = true) (p : Platform)
    (hmac : Market.Hmac) (auth : AdminAuth) (cfg : Config) (db : DB) (nowMs : ℕ) :
    ∃ refused, governedGates p hmac auth cfg db nowMs req = .error refused := by
  unfold governedGates
  cases requireAdmin hmac auth nowMs req with
  | error refused => exact ⟨refused, rfl⟩
  | ok adminWallet =>
    dsimp only
    rw [requireLocalDesktop_eq, if_pos hforwarded]
    exact ⟨_, rfl⟩

/-! ### When the gates do not believe the caller -/

theorem DisbelieveCallers.of_nothingForged (hip : r.socketIp = r'.socketIp)
    (h : NothingForged env hosts r r') : DisbelieveCallers env hosts r r' := by
  have hsame_ip : ∀ x ∈ [r, r'], x.socketIp = r.socketIp := by
    intro x hx
    rcases List.mem_pair.mp hx with rfl | rfl
    · rfl
    · exact hip.symm
  -- a connection that is not listed is let in by neither request
  have hshut : ∀ x ∈ [r, r'], ¬ x.Listed env → unmeteredIpAllowed env x = false := by
    intro x hx hlisted
    obtain ⟨hset, hout⟩ := Classical.not_imp.mp hlisted
    have hr_out : r.socketIp ∉ unmeteredAllowIps env := by rwa [← hsame_ip x hx]
    have hnamed := h.unlisted hset hr_out x hx
    apply Bool.eq_false_iff.mpr
    intro hallowed
    obtain ⟨ip, hnames, hin⟩ := (allowed_iff_of_unlisted hset hout).mp hallowed
    exact hnamed ip hnames hin
  have hstopped : ∀ x ∈ [r, r'], x.socketIp ∉ hosts → x.forwarded = true := by
    intro x hx hout
    have hr_out : r.socketIp ∉ hosts := by rwa [← hsame_ip x hx]
    have hboth := h.elsewhere hr_out
    rcases List.mem_pair.mp hx with rfl | rfl
    · exact hboth.1
    · exact hboth.2
  refine ⟨?_, ?_, ?_, ?_, ?_, ?_⟩
  · by_cases hset : unmeteredAllowIps env = []
    · rw [unmeteredIpAllowed, unmeteredIpAllowed, if_pos hset, if_pos hset]
    · apply Bool.eq_iff_iff.mpr
      by_cases hin : r.socketIp ∈ unmeteredAllowIps env
      · have hin' : r'.socketIp ∈ unmeteredAllowIps env := by rwa [← hip]
        rw [allowed_iff_of_listed hset hin, allowed_iff_of_listed hset hin']
        exact h.listed hset hin
      · have hout' : r'.socketIp ∉ unmeteredAllowIps env := by rwa [← hip]
        have hr := hshut r List.mem_cons_self fun hlisted => hin (hlisted hset)
        have hr' := hshut r' (List.mem_cons_of_mem _ List.mem_cons_self)
          fun hlisted => hout' (hlisted hset)
        rw [hr, hr']
  · apply requireLocalDesktop_same_iff.mpr
    by_cases hin : r.socketIp ∈ hosts
    · exact h.at_host hin
    · rw [(h.elsewhere hin).1, (h.elsewhere hin).2]
  · intro x hx hallowed
    by_contra hlisted
    rw [hshut x hx hlisted] at hallowed
    cases hallowed
  · intro x hx hlocal
    by_contra hout
    have hdirect := requireLocalDesktop_ok_iff.mp hlocal
    rw [hstopped x hx hout] at hdirect
    cases hdirect
  · intro x hx hlisted p cfg db now w hkey hunmetered
    exact keys_refused (hshut x hx hlisted) p cfg db now hkey hunmetered
  · intro x hx hout p hmac auth cfg db nowMs
    exact governedGates_of_forwarded (hstopped x hx hout) p hmac auth cfg db nowMs

theorem NothingForged.of_disbelieveCallers (hip : r.socketIp = r'.socketIp)
    (h : DisbelieveCallers env hosts r r') : NothingForged env hosts r r' := by
  refine ⟨?_, ?_, ?_, ?_⟩
  · intro hset hin
    have hin' : r'.socketIp ∈ unmeteredAllowIps env := by rwa [← hip]
    rw [← allowed_iff_of_listed hset hin, ← allowed_iff_of_listed hset hin', h.unmetered_same]
  · intro hset hout x hx ip hnames hin
    have hx_out : x.socketIp ∉ unmeteredAllowIps env := by
      rcases List.mem_pair.mp hx with rfl | rfl
      · exact hout
      · rwa [← hip]
    have hallowed := (allowed_iff_of_unlisted hset hx_out).mpr ⟨ip, hnames, hin⟩
    exact hx_out (h.unmetered_listed x hx hallowed hset)
  · intro _
    exact requireLocalDesktop_same_iff.mp h.local_same
  · intro hout
    -- an open gate would be open for another host
    have hforwarded : ∀ x ∈ [r, r'], x.socketIp ∉ hosts → x.forwarded = true := by
      intro x hx hx_out
      by_contra hdirect
      exact hx_out (h.local_host x hx
        (requireLocalDesktop_ok_iff.mpr (Bool.eq_false_iff.mpr hdirect)))
    have hout' : r'.socketIp ∉ hosts := by rwa [← hip]
    exact ⟨hforwarded r List.mem_cons_self hout,
      hforwarded r' (List.mem_cons_of_mem _ List.mem_cons_self) hout'⟩

/-- Whatever two senders on one address put into their requests. -/
theorem gates_disbelieve_iff (env : String) (hosts : List String) (address : Option String)
    (sent sent' : Sent) :
    DisbelieveCallers env hosts ⟨sent, address⟩ ⟨sent', address⟩ ↔
      NothingForged env hosts ⟨sent, address⟩ ⟨sent', address⟩ :=
  ⟨NothingForged.of_disbelieveCallers rfl, DisbelieveCallers.of_nothingForged rfl⟩

/-- A sender abroad that names an address of the list and does not say that it was forwarded. -/
def impostor : Sent where
  headers name := if name = "cf-connecting-ip" then some "198.51.100.7" else none
  totp := ""

def plainSender : Sent := ⟨fun _ => none, ""⟩

theorem impostor_believed :
    unmeteredIpAllowed "198.51.100.7" ⟨impostor, some "203.0.113.9"⟩ = true ∧
      unmeteredIpAllowed "198.51.100.7" ⟨plainSender, some "203.0.113.9"⟩ = false ∧
      requireLocalDesktop ⟨impostor, some "203.0.113.9"⟩ = .ok () ∧
      ¬ DisbelieveCallers "198.51.100.7" ["127.0.0.1"] ⟨impostor, some "203.0.113.9"⟩
        ⟨plainSender, some "203.0.113.9"⟩ := by
  have hin : unmeteredIpAllowed "198.51.100.7" ⟨impostor, some "203.0.113.9"⟩ = true := by decide
  have hout : unmeteredIpAllowed "198.51.100.7" ⟨plainSender, some "203.0.113.9"⟩ = false := by
    decide
  refine ⟨hin, hout, by decide, ?_⟩
  intro h
  have hsame := h.unmetered_same
  rw [hin, hout] at hsame
  cases hsame

end KvasirNet.Gateway
