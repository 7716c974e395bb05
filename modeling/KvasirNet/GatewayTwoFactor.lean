import KvasirNet.ByteFormat
import KvasirNet.GatewayDurability

/-! The second factor of an admin: authenticator codes, backup codes, and the
requests that write an admin's record or ask for a fresh code. -/
namespace KvasirNet.Gateway

/-! ## Codes -/

/-- What the runtime computes: HMAC-SHA1, the hexadecimal SHA-256 of a text, and
the case mappings of Unicode. -/
structure Platform where
  hmacSha1 : Bytes → Bytes → Bytes
  sha256 : String → String
  toUpperCase : String → String
  toLowerCase : String → String

section Codes
variable (p : Platform)

/-- What `trim` and `\s` take for white space. -/
def isJsSpace (c : Char) : Bool :=
  c.toNat ∈ [0x09, 0x0A, 0x0B, 0x0C, 0x0D, 0x20, 0xA0, 0x1680, 0x2028, 0x2029, 0x202F, 0x205F,
    0x3000, 0xFEFF] || (0x2000 ≤ c.toNat && c.toNat ≤ 0x200A)

def dropEnd (q : Char → Bool) (cs : List Char) : List Char := (cs.reverse.dropWhile q).reverse

def trimText (s : String) : String := String.ofList (dropEnd isJsSpace (s.toList.dropWhile isJsSpace))

def b32Alphabet : List Char := "ABCDEFGHIJKLMNOPQRSTUVWXYZ234567".toList

/-- The low `width` bits of a number, most significant first. -/
def bitsOf (width n : ℕ) : List Bool := (List.range width).reverse.map fun i => n.testBit i

def b32Bits : List Char → Option (List Bool)
  | [] => some []
  | c :: cs =>
    match b32Alphabet.findIdx? (· == c) with
    | none => none
    | some idx => (b32Bits cs).map fun bits => bitsOf 5 idx ++ bits

/-- Whole bytes only; what is left over is dropped. -/
def packBytes : List Bool → Bytes
  | b₇ :: b₆ :: b₅ :: b₄ :: b₃ :: b₂ :: b₁ :: b₀ :: rest =>
    UInt8.ofNat ([b₇, b₆, b₅, b₄, b₃, b₂, b₁, b₀].foldl (fun n b => 2 * n + b.toNat) 0) ::
      packBytes rest
  | _ => []

/-- `none` stands for the exception. -/
def b32decode (s : String) : Option Bytes :=
  let clean := (dropEnd (· == '=') s.toList).filter fun c => !isJsSpace c
  (b32Bits (p.toUpperCase (String.ofList clean)).toList).map packBytes

def padStart (width : ℕ) (s : String) : String :=
  String.ofList (List.replicate (width - s.length) '0') ++ s

/-- The six digits for one counter; `none` when a step of it throws. -/
def hotp (secret : String) (counter : ℤ) : Option String :=
  match b32decode p secret with
  | none => none
  | some key =>
    if counter < 0 ∨ 2 ^ 64 ≤ counter then none
    else
      let h := p.hmacSha1 key (leBytes 8 counter.toNat).reverse
      let o := (h.getLastD 0).toNat % 16
      if h.length < o + 4 then none
      else
        let code := leValue ((h.drop o).take 4).reverse % 2 ^ 31 % 10 ^ 6
        some (padStart 6 (toString code))

/-- The loop of `verifyCode` over the counters of its window. -/
def codeAmong (secret c : String) : List ℤ → Option Bool
  | [] => some false
  | counter :: rest =>
    match hotp p secret counter with
    | none => none
    | some good => if good = c then some true else codeAmong secret c rest

/-- One step of thirty seconds before and after is let through. -/
def verifyCode (nowMs : ℕ) (secret code : String) : Option Bool :=
  let c := trimText code
  if c.length ≠ 6 ∨ ¬c.toList.all Char.isDigit then some false
  else
    let counter : ℤ := (nowMs / 1000 / 30 : ℕ)
    codeAmong p secret c [counter - 1, counter, counter + 1]

def hashBackup (code : String) : String :=
  p.sha256 (String.ofList ((p.toLowerCase (trimText code)).toList.filter fun c => c ≠ '-'))

/-- The code proves the second factor of the record: the authenticator shows it
now, or it is a backup code that has not been used. -/
def secondFactor (nowMs : ℕ) (ent : TwoFactor) (code : String) : Bool :=
  verifyCode p nowMs ent.secret code == some true ||
    (consumeBackup ent.backup (hashBackup p code)).isSome

end Codes

/-! ## Requests -/

inductive FreshTotp
  | passed
  | notEnabled
  | invalidCode
  /-- `verifyCode` threw. -/
  | threw
  deriving DecidableEq, Repr

def FreshTotp.answer : FreshTotp → Option (ℕ × String)
  | passed => none
  | notEnabled => some (403, "2FA must be enabled for the genesis wallet")
  | invalidCode => some (401, "invalid 2FA code")
  | threw => some (500, "")

def requireFreshTotp (p : Platform) (cfg : Config) (db : DB) (nowMs : ℕ) (totp : String) :
    FreshTotp :=
  match db.adminAuth.lookup cfg.genesisWallet with
  | none => .notEnabled
  | some ent =>
    if !ent.enabled then .notEnabled
    else
      match verifyCode p nowMs ent.secret totp with
      | none => .threw
      | some false => .invalidCode
      | some true => .passed

/-- The requests behind `requireFreshTotp`. -/
inductive Governed
  | pricing (c : PriceChange)
  | relayPut (url secret : String) (label : Option String)
  | relayRemove (url : String)
  | creditGrant (wallet : Wallet) (amount : JsNumber)
  | whitelistAdd (wallet : Wallet)
  | whitelistRemove (wallet : Wallet)
  deriving DecidableEq

def Governed.sync : Governed → SyncRequest
  | pricing c => .adminPricing none c
  | relayPut url secret label => .relayPut none url secret label
  | relayRemove url => .relayRemove none url
  | creditGrant w amount => .creditGrant none w amount
  | whitelistAdd w => .whitelistAdd none w
  | whitelistRemove w => .whitelistRemove none w

inductive AdminRequest
  /-- The wallet is the one of the `pre2fa` token. -/
  | login (preAuth : Option Wallet) (code : String)
  /-- The secret and the backup codes are fresh random values. -/
  | enroll (secret : String) (codes : List String)
  | confirm (code : String)
  | disable (code : String)
  | governed (isLocal : Bool) (totp : String) (r : Governed)
  deriving DecidableEq

/-- A request that carries a valid session of `wallet`. -/
structure AdminCall where
  now : ℕ
  wallet : Wallet
  request : AdminRequest
  deriving DecidableEq

inductive AdminAction
  | call (c : AdminCall)
  /-- Every other step of the gateway. -/
  | system (a : Action)

/-- The request only arrives as an `AdminCall`. -/
def SyncRequest.adminOnly : SyncRequest → Bool
  | .twoFactorLogin _ _ _ | .twoFactorEnroll _ _ _ | .twoFactorConfirm _ _
  | .twoFactorDisable _ _ _ | .adminPricing _ _ | .relayPut _ _ _ _ | .relayRemove _ _
  | .creditGrant _ _ _ | .whitelistAdd _ _ | .whitelistRemove _ _ => true
  | _ => false

def Action.adminOnly : Action → Bool
  | .sync r _ => r.adminOnly
  | _ => false

section Requests
variable (p : Platform) (cfg : Config) (chain : Chain)

/-- `verifyCode` against the secret the file holds for the wallet. -/
def checkCode (nowMs : ℕ) (db : DB) (w : Wallet) (code : String) : Option Bool :=
  match db.adminAuth.lookup w with
  | none => some false
  | some ent => verifyCode p nowMs ent.secret code

/-- The handler that runs; `none` when a middleware refuses or a check throws. -/
def AdminCall.sync (db : DB) (c : AdminCall) : Option SyncRequest :=
  match c.request with
  | .login none code => some (.twoFactorLogin none false (hashBackup p code))
  | .login (some w) code =>
    (checkCode p c.now db w code).map fun ok => .twoFactorLogin (some w) ok (hashBackup p code)
  | .enroll secret codes =>
    some (.twoFactorEnroll c.wallet secret (codes.map (hashBackup p)))
  | .confirm code =>
    (checkCode p c.now db c.wallet code).map fun ok => .twoFactorConfirm c.wallet ok
  | .disable code =>
    (checkCode p c.now db c.wallet code).map fun ok =>
      .twoFactorDisable c.wallet ok (hashBackup p code)
  | .governed isLocal totp r =>
    if isLocal ∧ c.wallet = cfg.genesisWallet ∧
      requireFreshTotp p cfg db c.now totp = .passed then some r.sync else none

/-- A step of the gateway, with the admin's requests as they arrive. -/
def adminStep (s : State) : AdminAction → Option State
  | .call c =>
    match c.sync p cfg (loadDB s.disk) with
    | none => some s
    | some r => step cfg chain s (.sync r c.now)
  | .system a => if a.adminOnly then none else step cfg chain s a

def AdminCall.codes (c : AdminCall) : List String :=
  match c.request with
  | .login _ code | .confirm code | .disable code | .governed _ code _ => [code]
  | .enroll _ _ => []

/-- The request presents a code that proves the second factor of the record. -/
def AdminAction.proves (ent : TwoFactor) : AdminAction → Bool
  | .call c => c.codes.any fun code => secondFactor p c.now ent code
  | .system _ => false

/-- The record of a wallet whose second factor is on. -/
def DB.enabledRow (db : DB) (w : Wallet) : Option TwoFactor :=
  (db.adminAuth.lookup w).filter fun ent => ent.enabled

/-- `enroll` does not ask for the second factor it replaces, and a save after an
await brings the records back that it loaded. The step does neither to a record
that is on. -/
def authKept (s : State) : AdminAction → Bool
  | .call c =>
    match c.request with
    | .enroll _ _ => (s.disk.enabledRow c.wallet).isNone
    | _ => true
  | .system a => (commit cfg chain s a).all fun c =>
      s.disk.adminAuth.entries.all fun e => !e.2.enabled || c.2.1.adminAuth.lookup e.1 == some e.2

end Requests

/-! ## What a step does to a record -/

variable {p : Platform} {cfg : Config} {chain : Chain} {s s' : State} {a : AdminAction}

variable {ent : TwoFactor}

theorem enabledRow_eq_some {d : DB} {w : Wallet} :
    d.enabledRow w = some ent ↔ d.adminAuth.lookup w = some ent ∧ ent.enabled = true := by
  simp [DB.enabledRow, Option.filter_eq_some_iff]

variable {r : SyncRequest}

theorem AdminCall.sync_cases {c : AdminCall} {db : DB}
    (h : c.sync p cfg db = some r) :
    (∃ w code ok, c.request = .login w code ∧ r = .twoFactorLogin w ok (hashBackup p code)) ∨
    (∃ secret codes, c.request = .enroll secret codes ∧
      r = .twoFactorEnroll c.wallet secret (codes.map (hashBackup p))) ∨
    (∃ code ok, c.request = .confirm code ∧ r = .twoFactorConfirm c.wallet ok) ∨
    (∃ code ok, c.request = .disable code ∧ checkCode p c.now db c.wallet code = some ok ∧
      r = .twoFactorDisable c.wallet ok (hashBackup p code)) ∨
    ∃ isLocal totp g, c.request = .governed isLocal totp g ∧ r = g.sync := by
  obtain ⟨now, w, req⟩ := c
  cases req with
  | login preAuth code =>
    left
    cases preAuth with
    | none => exact ⟨none, code, false, rfl, (Option.some.inj h).symm⟩
    | some w' =>
      obtain ⟨ok, -, rfl⟩ := Option.map_eq_some_iff.mp h
      exact ⟨some w', code, ok, rfl, rfl⟩
  | enroll secret codes => exact Or.inr (Or.inl ⟨secret, codes, rfl, (Option.some.inj h).symm⟩)
  | confirm code =>
    obtain ⟨ok, -, rfl⟩ := Option.map_eq_some_iff.mp h
    exact Or.inr (Or.inr (Or.inl ⟨code, ok, rfl, rfl⟩))
  | disable code =>
    obtain ⟨ok, hok, rfl⟩ := Option.map_eq_some_iff.mp h
    exact Or.inr (Or.inr (Or.inr (Or.inl ⟨code, ok, rfl, hok, rfl⟩)))
  | governed isLocal totp g =>
    simp only [AdminCall.sync] at h
    split_ifs at h
    exact Or.inr (Or.inr (Or.inr (Or.inr ⟨isLocal, totp, g, rfl, (Option.some.inj h).symm⟩)))

theorem secondFactor_of_checkCode {now : ℕ} {d : DB} {w : Wallet} {code : String} {ok : Bool}
    (hrow : d.adminAuth.lookup w = some ent)
    (hcode : checkCode p now d w code = some ok)
    (h : ok = true ∨ (consumeBackup ent.backup (hashBackup p code)).isSome = true) :
    secondFactor p now ent code = true := by
  have hverify : verifyCode p now ent.secret code = some ok := by simpa [checkCode, hrow] using hcode
  rcases h with rfl | hbackup
  · simp [secondFactor, hverify]
  · simp [secondFactor, hbackup]

theorem apply_twoFactorDisable {now : ℕ} {d : DB} {w : Wallet} {ok : Bool} {hash : String}
    {out : Saved}
    (h : (SyncRequest.twoFactorDisable w ok hash).apply cfg now d = .ok out)
    (hrow : d.adminAuth.lookup w = some ent) :
    ok = true ∨ (consumeBackup ent.backup hash).isSome = true := by
  simp only [SyncRequest.apply, hrow] at h
  split_ifs at h with hon hproof
  simpa using hproof

/-- What a step may do to a record that is on. -/
inductive RowMove (p : Platform) (w : Wallet) (ent : TwoFactor) :
    AdminAction → Option TwoFactor → Prop
  | kept (a : AdminAction) : RowMove p w ent a (some ent)
  | used (c : AdminCall) (code : String) (rest : List String)
      (request : c.request = .login (some w) code)
      (spent : consumeBackup ent.backup (hashBackup p code) = some rest) :
      RowMove p w ent (.call c) (some { ent with backup := rest })
  | off (c : AdminCall) (code : String) (session : c.wallet = w)
      (request : c.request = .disable code) (proof : secondFactor p c.now ent code = true) :
      RowMove p w ent (.call c) none

theorem Commits.adminAuth {r : Request} {ph : Phase} {base db : DB} {evs : List Event}
    (hc : Commits cfg chain r ph db evs) (hs : ph.snapshot = some base) :
    db.adminAuth = base.adminAuth := by
  cases hc with
  | failed rid sig ph base r usedAt error row unused phase =>
    rcases phase with rfl | rfl <;> (cases hs; rfl)
  | _ =>
    cases hs
    rfl

theorem step_sync_writes {now : ℕ}
    (h : step cfg chain s (.sync r now) = some s') :
    s'.disk = s.disk ∨ ∃ out evs, r.apply cfg now (loadDB s.disk) = .ok out ∧
      Writes cfg now (loadDB s.disk) r s'.disk evs := by
  cases hr : r.apply cfg now (loadDB s.disk) with
  | error e =>
    simp only [step, hr, Option.some.injEq] at h
    exact Or.inl (congrArg State.disk h.symm)
  | ok out =>
    simp only [step, hr, Option.some.injEq] at h
    subst h
    cases hdb : out.db with
    | none => exact Or.inl rfl
    | some db => exact Or.inr ⟨out, out.events, rfl, apply_writes hr hdb⟩

theorem names_of_adminOnly (h : r.adminOnly = false) (d : DB) (w : Wallet) :
    r.names d (.twoFactor w) = false := by
  cases r <;> first | rfl | cases h

theorem Governed.names (g : Governed) (d : DB) (w : Wallet) :
    g.sync.names d (.twoFactor w) = false := by
  cases g <;> rfl

section Row
variable {w : Wallet} {ent : TwoFactor}

theorem call_row {c : AdminCall} (hk : authKept cfg chain s (.call c) = true)
    (hrow : s.disk.enabledRow w = some ent) (h : adminStep p cfg chain s (.call c) = some s') :
    RowMove p w ent (.call c) (s'.disk.adminAuth.lookup w) := by
  obtain ⟨hlook, hon⟩ := enabledRow_eq_some.mp hrow
  have hsame (he : s'.disk.adminAuth.lookup w = s.disk.adminAuth.lookup w) :
      RowMove p w ent (.call c) (s'.disk.adminAuth.lookup w) := by
    rw [he, hlook]
    exact .kept _
  cases hsync : c.sync p cfg (loadDB s.disk) with
  | none =>
    simp only [adminStep, hsync, Option.some.injEq] at h
    exact hsame (by rw [h])
  | some r =>
    simp only [adminStep, hsync] at h
    rcases step_sync_writes h with hd | ⟨out, evs, hout, hwrite⟩
    · exact hsame (by rw [hd])
    · by_cases hn : r.names (loadDB s.disk) (.twoFactor w) = false
      · exact hsame (hwrite.kept_twoFactor w hn)
      · -- the request is about the record itself
        rcases c.sync_cases hsync with ⟨w', code, ok, hreq, rfl⟩ | ⟨secret, codes, hreq, rfl⟩ |
          ⟨code, ok, hreq, rfl⟩ | ⟨code, ok, hreq, hcode, rfl⟩ | ⟨isLocal, totp, g, -, rfl⟩
        · obtain rfl : w' = some w := by simpa [SyncRequest.names] using hn
          generalize s'.disk = d' at hwrite
          cases hwrite with
          | twoFactorLogin _ _ ent' rest row used =>
            obtain rfl : ent = ent' := Option.some.inj (hlook.symm.trans row)
            rw [AList.lookup_insert]
            exact .used c code rest hreq used
        · obtain rfl : c.wallet = w := by simpa [SyncRequest.names] using hn
          simp [authKept, hreq, hrow] at hk
        · obtain rfl : c.wallet = w := by simpa [SyncRequest.names] using hn
          generalize s'.disk = d' at hwrite
          cases hwrite with
          | twoFactorConfirm _ ent' row =>
            obtain rfl : ent = ent' := Option.some.inj (hlook.symm.trans row)
            rw [AList.lookup_insert, ← hon]
            exact .kept _
        · obtain rfl : c.wallet = w := by simpa [SyncRequest.names] using hn
          have hproof := apply_twoFactorDisable hout hlook
          generalize s'.disk = d' at hwrite
          cases hwrite with
          | twoFactorDisable =>
            rw [AList.lookup_erase]
            exact .off c code rfl hreq (secondFactor_of_checkCode hlook hcode hproof)
        · exact absurd (g.names _ w) hn

theorem system_row {b : Action} (hs : s.WellFormed cfg)
    (hk : authKept cfg chain s (.system b) = true) (hrow : s.disk.enabledRow w = some ent)
    (h : adminStep p cfg chain s (.system b) = some s') :
    s'.disk.adminAuth.lookup w = some ent := by
  obtain ⟨hlook, hon⟩ := enabledRow_eq_some.mp hrow
  simp only [adminStep] at h
  split_ifs at h with hadmin
  cases step_moves hs.coherent h with
  | refused | submit | enter | await | lands | stop => exact hlook
  | commit _ i r ph base db evs ans task held save made =>
    have hall : (s.disk.adminAuth.entries.all fun e =>
        !e.2.enabled || base.adminAuth.lookup e.1 == some e.2) = true := by
      simpa only [authKept, made, Option.all_some] using hk
    have hentry := List.all_eq_true.mp hall ⟨w, ent⟩ ((Table.mem_entries_iff _ w ent).mpr hlook)
    show db.adminAuth.lookup w = some ent
    rw [save.adminAuth held]
    simpa [hon] using hentry
  | completed i w' ip m u now task =>
    cases u with
    | none => exact hlook
    | some u => exact hlook
  | sync r now db evs write saved =>
    have hn := names_of_adminOnly (by simpa [Action.adminOnly] using hadmin) (loadDB s.disk) w
    have hkept : db.adminAuth.lookup w = (loadDB s.disk).adminAuth.lookup w :=
      write.kept_twoFactor w hn
    exact hkept.trans hlook

theorem adminStep_row (hs : s.WellFormed cfg) (hk : authKept cfg chain s a = true)
    (hrow : s.disk.enabledRow w = some ent) (h : adminStep p cfg chain s a = some s') :
    RowMove p w ent a (s'.disk.adminAuth.lookup w) := by
  cases a with
  | call c => exact call_row hk hrow h
  | system b =>
    rw [system_row hs hk hrow h]
    exact .kept _

theorem RowMove.unproved {row : Option TwoFactor} (hm : RowMove p w ent a row)
    (hnot : a.proves p ent = false) : row = some ent := by
  cases hm with
  | kept => rfl
  | used c code rest request spent =>
    have hproof : secondFactor p c.now ent code = true := by simp [secondFactor, spent]
    simp [AdminAction.proves, AdminCall.codes, request, hproof] at hnot
  | off c code session request proof =>
    simp [AdminAction.proves, AdminCall.codes, request, proof] at hnot

end Row

theorem adminStep_wellFormed (hs : s.WellFormed cfg) (h : adminStep p cfg chain s a = some s') :
    s'.WellFormed cfg := by
  cases a with
  | call c =>
    simp only [adminStep] at h
    split at h
    · obtain rfl := Option.some.inj h
      exact hs
    · exact step_wellFormed hs h
  | system b =>
    simp only [adminStep] at h
    split_ifs at h
    exact step_wellFormed hs h

/-! ## Runs -/

/-- A record that is on stays on with its secret, or its wallet turns it off and
presents its second factor. -/
def factorGuarded (p : Platform) (cfg : Config) (chain : Chain) (s : State) (a : AdminAction) :
    Prop :=
  ∀ s' w ent, adminStep p cfg chain s a = some s' → s.disk.enabledRow w = some ent →
    (∃ ent', s'.disk.enabledRow w = some ent' ∧ ent'.secret = ent.secret) ∨
    ∃ c code, a = .call c ∧ c.wallet = w ∧ c.request = .disable code ∧
      secondFactor p c.now ent code = true

/-- `requireFreshTotp` lets no request through. -/
def gateShut (p : Platform) (cfg : Config) (s : State) (a : AdminAction) : Prop :=
  ∀ c isLocal totp g, a = .call c → c.request = .governed isLocal totp g →
    requireFreshTotp p cfg (loadDB s.disk) c.now totp ≠ .passed

theorem step_factorGuarded (hs : s.WellFormed cfg) (hk : authKept cfg chain s a = true) :
    factorGuarded p cfg chain s a := by
  intro s' w ent h hrow
  have hon : ent.enabled = true := (enabledRow_eq_some.mp hrow).2
  have hm := adminStep_row hs hk hrow h
  generalize hrow' : s'.disk.adminAuth.lookup w = row at hm
  cases hm with
  | kept => exact Or.inl ⟨ent, enabledRow_eq_some.mpr ⟨hrow', hon⟩, rfl⟩
  | used c code rest request spent => exact Or.inl ⟨_, enabledRow_eq_some.mpr ⟨hrow', hon⟩, rfl⟩
  | off c code session request proof => exact Or.inr ⟨c, code, rfl, session, request, proof⟩

theorem gateShut_of_unproved
    (hrow : s.disk.enabledRow cfg.genesisWallet = some ent) (hnot : a.proves p ent = false) :
    gateShut p cfg s a := by
  rintro c isLocal totp g rfl hreq hpass
  obtain ⟨hlook, hon⟩ := enabledRow_eq_some.mp hrow
  have hload : (loadDB s.disk).adminAuth.lookup cfg.genesisWallet = some ent := hlook
  have hcode : verifyCode p c.now ent.secret totp = some true := by
    simp only [requireFreshTotp, hload, hon] at hpass
    split at hpass
    · cases hpass
    · split at hpass
      · cases hpass
      · cases hpass
      · rename_i hverify
        exact hverify
  simp [AdminAction.proves, AdminCall.codes, hreq, secondFactor, hcode] at hnot

theorem second_factor_guarded (p : Platform) (cfg : Config) (chain : Chain) (s₀ s₁ s₂ : State)
    (as bs : List AdminAction) (h₀ : s₀.Initial)
    (hpast : runs (adminStep p cfg chain) s₀ as = some s₁)
    (hlater : runs (adminStep p cfg chain) s₁ bs = some s₂)
    (hkept : Along (adminStep p cfg chain) (fun s a => authKept cfg chain s a = true) s₁ bs) :
    Along (adminStep p cfg chain) (factorGuarded p cfg chain) s₁ bs ∧
    ∀ ent, s₁.disk.enabledRow cfg.genesisWallet = some ent → (∀ a ∈ bs, a.proves p ent = false) →
      Along (adminStep p cfg chain) (gateShut p cfg) s₁ bs := by
  have hwf : s₁.WellFormed cfg :=
    runs_invariant (P := fun _ _ => True) (I := fun s => s.WellFormed cfg)
      (fun s a s' _ hi h => adminStep_wellFormed hi h)
      (along_of_forall (fun _ _ => trivial) s₀ as) hpast h₀.wellFormed
  constructor
  · exact hkept.of_invariant (I := fun s => s.WellFormed cfg)
      (fun s a s' hk hs h => ⟨step_factorGuarded hs hk, adminStep_wellFormed hs h⟩) hlater hwf
  · intro ent hrow hnot
    -- nobody presents a code, so the genesis wallet's record does not even lose a backup code
    have hboth := hkept.and (along_of_mem hnot s₁)
    refine hboth.of_invariant
      (I := fun s => s.WellFormed cfg ∧ s.disk.enabledRow cfg.genesisWallet = some ent)
      (fun s a s' hp hs h => ?_) hlater ⟨hwf, hrow⟩
    have hon : ent.enabled = true := (enabledRow_eq_some.mp hs.2).2
    have hrow' : s'.disk.adminAuth.lookup cfg.genesisWallet = some ent :=
      (adminStep_row hs.1 hp.1 hs.2 h).unproved hp.2
    exact ⟨gateShut_of_unproved hs.2 hp.2, adminStep_wellFormed hs.1 h,
      enabledRow_eq_some.mpr ⟨hrow', hon⟩⟩

/-! Two secrets, the digests of the counters around the first minute, and ten
backup codes. -/

/-- HMAC-SHA1 of the counters 0, 1 and 2 under two keys. -/
def sampleDigests (key msg : Bytes) : Bytes :=
  if key = "abcdefghijklmnopqrst".toUTF8.toList then
    match msg with
    | [0, 0, 0, 0, 0, 0, 0, 0] =>
      [20, 102, 116, 54, 72, 128, 106, 25, 49, 117, 66, 142, 231, 233, 151, 101, 204, 112, 221, 21]
    | [0, 0, 0, 0, 0, 0, 0, 1] =>
      [109, 35, 129, 88, 8, 56, 123, 9, 209, 167, 102, 144, 172, 1, 84, 39, 48, 168, 197, 86]
    | _ => [100, 233, 94, 112, 157, 50, 160, 59, 23, 92, 210, 219, 245, 228, 187, 163, 26, 156, 64, 229]
  else
    match msg with
    | [0, 0, 0, 0, 0, 0, 0, 0] =>
      [204, 147, 207, 24, 80, 141, 148, 147, 76, 100, 182, 93, 139, 167, 102, 127, 183, 205, 228, 176]
    | [0, 0, 0, 0, 0, 0, 0, 1] =>
      [117, 164, 138, 25, 212, 203, 225, 0, 100, 78, 138, 193, 57, 126, 234, 116, 122, 45, 51, 171]
    | _ => [11, 172, 183, 250, 8, 47, 239, 48, 120, 34, 17, 147, 139, 193, 197, 231, 4, 22, 255, 68]

def sampleHashes : List (String × String) :=
  [
    ("3f9ac01d72", "dd9c6be74b547d266b8055805759b29aae9a6cf7ac588242ca64f1ba03928643"),
    ("b84e05c6f1", "d62ea9e2431b03f2e500636928abf11b44398431a14e0a1d46eb1f5ca22ec0bf"),
    ("07d2e9a3b8", "a2c9f89774903bae87565698d2c93af5d1de4691e117bf79588ff843f719a170"),
    ("c61f5e0248", "7b4c9aacc72a081255bc2de1799abde4276172b1702a3dfaff396cf67e9c62bd"),
    ("92ab74d13f", "7c918ebd18e9a357fa0f2b3633369447e6e9f01a04c221e46189c26fbd17eae9"),
    ("e50837bc96", "cfe6799a68c51c5eaab83e7c2a72e1d6addf589c276f153f75362a186ca0cb09"),
    ("1d4f8a2e05", "4b2edff82f0ff8897ae1fd6c570c44ca3620bc3ba3ef1f0300bcc1754248a4f1"),
    ("6ac90f37b1", "69c03a8f934b893ab9c09fa668f59e155d3aec3dad3a1297af87943d0b2ed5e0"),
    ("fb21786d4e", "6695f46c96668b77a5abed9a4b8f7a076047afc8ef08c388e37fa9b941f6e07c"),
    ("480e619cda", "81bfaaa92b87c489535f2fb9a2997e281aead36705fead5c227d8ac51a47e167"),
    ("287082", "5c24358901dcc3ea3408b50a701fa317e3dfec80ede2422fbd91318beb847843")]

def samplePlatform : Platform where
  hmacSha1 := sampleDigests
  sha256 t := (sampleHashes.lookup t).getD ""
  toUpperCase := id
  toLowerCase := id

def sampleCodes : List String :=
  ["3f9ac-01d72", "b84e0-5c6f1", "07d2e-9a3b8", "c61f5-e0248", "92ab7-4d13f",
    "e5083-7bc96", "1d4f8-a2e05", "6ac90-f37b1", "fb217-86d4e", "480e6-19cda"]

def genesisCall (r : AdminRequest) : AdminAction := .call ⟨59000, defaultConfig.genesisWallet, r⟩

/-- The record the genesis wallet has after `enroll` and `confirm`. -/
def genesisRecord : TwoFactor :=
  ⟨"MFRGGZDFMZTWQ2LKNNWG23TPOBYXE43U", (sampleHashes.take 10).map Prod.snd, true⟩

/-- The service starts with the record in its file. -/
def genesisEnrolled : State :=
  ⟨{ DB.empty with adminAuth := AList.insert defaultConfig.genesisWallet genesisRecord ∅ }, [], []⟩

theorem genesisEnrolled_row :
    genesisEnrolled.disk.enabledRow defaultConfig.genesisWallet = some genesisRecord :=
  enabledRow_eq_some.mpr ⟨AList.lookup_insert _, rfl⟩

/-- A session without the authenticator guesses a code. -/
def genesisGuesses : List AdminAction :=
  [genesisCall (.governed true "287082" (.whitelistAdd "A")), genesisCall (.disable "287082")]

theorem second_factor_guarded_guess :
    ∃ s₂, runs (adminStep samplePlatform defaultConfig idleChain) genesisEnrolled genesisGuesses =
        some s₂ ∧
      genesisEnrolled.disk.enabledRow defaultConfig.genesisWallet = some genesisRecord ∧
      Along (adminStep samplePlatform defaultConfig idleChain)
        (factorGuarded samplePlatform defaultConfig idleChain) genesisEnrolled genesisGuesses ∧
      Along (adminStep samplePlatform defaultConfig idleChain)
        (gateShut samplePlatform defaultConfig) genesisEnrolled genesisGuesses := by
  obtain ⟨s₂, h₂, -⟩ := runs_exists (adminStep samplePlatform defaultConfig idleChain)
    genesisEnrolled genesisGuesses (fun _ => true) (by decide +kernel)
  obtain ⟨hguard, hshut⟩ := second_factor_guarded samplePlatform defaultConfig idleChain
    genesisEnrolled genesisEnrolled s₂ [] genesisGuesses ⟨rfl, rfl⟩ rfl h₂
    ⟨rfl, fun _ _ => ⟨rfl, fun _ _ => trivial⟩⟩
  exact ⟨s₂, h₂, genesisEnrolled_row, hguard,
    hshut genesisRecord genesisEnrolled_row (by decide +kernel)⟩

/-- The session enrolls anew, confirms with a code of its own secret and passes
for the wallet. -/
def genesisTakeover : List AdminAction :=
  [genesisCall (.enroll "GEZDGNBVGY3TQOJQGEZDGNBVGY3TQOJQ" sampleCodes),
    genesisCall (.confirm "287082"),
    genesisCall (.governed true "287082" (.whitelistAdd "A"))]

theorem enroll_replaces_second_factor :
    ∃ s₂, runs (adminStep samplePlatform defaultConfig idleChain) genesisEnrolled genesisTakeover =
        some s₂ ∧
      genesisEnrolled.disk.enabledRow defaultConfig.genesisWallet = some genesisRecord ∧
      (∀ a ∈ genesisTakeover, a.proves samplePlatform genesisRecord = false) ∧
      ¬ Along (adminStep samplePlatform defaultConfig idleChain)
        (factorGuarded samplePlatform defaultConfig idleChain) genesisEnrolled genesisTakeover ∧
      ¬ Along (adminStep samplePlatform defaultConfig idleChain)
        (gateShut samplePlatform defaultConfig) genesisEnrolled genesisTakeover := by
  obtain ⟨t₁, ht₁, hoff⟩ := runs_exists (adminStep samplePlatform defaultConfig idleChain)
    genesisEnrolled (genesisTakeover.take 1)
    (fun t => (t.disk.enabledRow defaultConfig.genesisWallet).isNone) (by decide +kernel)
  obtain ⟨t₂, ht₂, hpass⟩ := runs_exists (adminStep samplePlatform defaultConfig idleChain)
    genesisEnrolled (genesisTakeover.take 2)
    (fun t => requireFreshTotp samplePlatform defaultConfig (loadDB t.disk) 59000 "287082" == .passed)
    (by decide +kernel)
  obtain ⟨s₂, h₂, -⟩ := runs_exists (adminStep samplePlatform defaultConfig idleChain)
    genesisEnrolled genesisTakeover (fun _ => true) (by decide +kernel)
  refine ⟨s₂, h₂, genesisEnrolled_row, by decide +kernel, fun hguard => ?_, fun hshut => ?_⟩
  · -- the enrollment alone turns the record off
    obtain ⟨t, ht, hnil⟩ := runs_cons ht₁
    obtain rfl : t = t₁ := Option.some.inj hnil
    rcases hguard.1 t defaultConfig.genesisWallet genesisRecord ht genesisEnrolled_row with
      ⟨ent, hrow, -⟩ | ⟨c, code, hc, -, hreq, -⟩
    · simp [hrow] at hoff
    · obtain rfl := AdminAction.call.inj hc
      cases hreq
  · exact hshut.after (genesisTakeover.take 2) ht₂ _ true "287082" (.whitelistAdd "A") rfl rfl
      (eq_of_beq hpass)

end KvasirNet.Gateway
