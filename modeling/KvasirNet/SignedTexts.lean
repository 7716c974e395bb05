import KvasirNet.GatewayTwoFactor
import KvasirNet.Utf8Text
import Mathlib.Data.List.AList

/-! The texts that a wallet signs for the gateway, the bridge, the admissions service and the
tunnel relay, the client that signs the text it is given, and the services that check it. -/
namespace KvasirNet.Signing

open KvasirNet.Gateway (trimText utf16Length)

/-! ### The texts -/

def walletText (heading wallet nonce : String) : String :=
  heading ++ "\nwallet: " ++ wallet ++ "\nnonce: " ++ nonce

def GatewayAuth.signInMessage : String → String → String := walletText "Kvasir gateway admin sign-in"

def NodeAuth.messageFor : String → String → String :=
  walletText "Kvasir bridge — prove you operate this node."

def Admissions.messageFor : String → String → String :=
  walletText "Kvasir admissions — ask to join the ring."

def Relay.heading (relayHost nodeId : String) : String :=
  "kvasir p4 relay\nrelay: " ++ relayHost ++ "\nnode: " ++ nodeId

def Relay.message (relayHost nodeId owner nonce : String) : String :=
  walletText (Relay.heading relayHost nodeId) owner nonce

def OneLine (s : String) : Prop := '\n' ∉ s.toList

instance (s : String) : Decidable (OneLine s) := inferInstanceAs (Decidable ('\n' ∉ s.toList))

theorem toList_walletText (heading wallet nonce : String) :
    (walletText heading wallet nonce).toList =
      (heading.toList ++ '\n' :: ("wallet: ".toList ++ wallet.toList)) ++
        '\n' :: ("nonce: ".toList ++ nonce.toList) := by
  have hwallet : "\nwallet: ".toList = '\n' :: "wallet: ".toList := by decide
  have hnonce : "\nnonce: ".toList = '\n' :: "nonce: ".toList := by decide
  simp only [walletText, String.toList_append, hwallet, hnonce, List.append_assoc, List.cons_append]

theorem toList_relayLine :
    "kvasir p4 relay\nrelay: ".toList = "kvasir p4 relay".toList ++ '\n' :: "relay: ".toList := by
  decide

theorem toList_heading (relayHost nodeId : String) :
    (Relay.heading relayHost nodeId).toList = "kvasir p4 relay".toList ++
      '\n' :: (("relay: ".toList ++ relayHost.toList) ++ '\n' :: ("node: ".toList ++ nodeId.toList)) := by
  have hnode : "\nnode: ".toList = '\n' :: "node: ".toList := by decide
  unfold Relay.heading
  rw [String.toList_append, String.toList_append, String.toList_append, toList_relayLine, hnode]
  simp only [List.append_assoc, List.cons_append]

theorem oneLine_label {label s : String} (hlabel : OneLine label) (h : OneLine s) :
    '\n' ∉ label.toList ++ s.toList := by
  rw [List.mem_append, not_or]
  exact ⟨hlabel, h⟩

theorem toList_append_inj {label s s' : String}
    (h : label.toList ++ s.toList = label.toList ++ s'.toList) : s = s' :=
  String.toList_injective (List.append_cancel_left h)

theorem walletText_inj {heading heading' wallet wallet' nonce nonce' : String}
    (hw : OneLine wallet) (hw' : OneLine wallet') (hn : OneLine nonce) (hn' : OneLine nonce')
    (h : walletText heading wallet nonce = walletText heading' wallet' nonce') :
    heading = heading' ∧ wallet = wallet' ∧ nonce = nonce' := by
  have hlist := congrArg String.toList h
  rw [toList_walletText, toList_walletText] at hlist
  obtain ⟨habove, hnonce⟩ := lastCut_inj (oneLine_label (by decide) hn)
    (oneLine_label (by decide) hn') hlist
  obtain ⟨hheading, hwallet⟩ := lastCut_inj (oneLine_label (by decide) hw)
    (oneLine_label (by decide) hw') habove
  exact ⟨String.toList_injective hheading, toList_append_inj hwallet, toList_append_inj hnonce⟩

theorem heading_inj {host host' id id' : String} (hh : OneLine host) (hh' : OneLine host')
    (h : Relay.heading host id = Relay.heading host' id') : host = host' ∧ id = id' := by
  have hlist := congrArg String.toList h
  rw [toList_heading, toList_heading] at hlist
  obtain ⟨-, hrest⟩ := firstCut_inj (c := '\n') (by decide) (by decide) hlist
  obtain ⟨hhost, hid⟩ := firstCut_inj (oneLine_label (by decide) hh)
    (oneLine_label (by decide) hh') hrest
  exact ⟨toList_append_inj hhost, toList_append_inj hid⟩

theorem walletText_ne {heading heading' : String} (hh : OneLine heading) (hh' : OneLine heading')
    (hne : heading ≠ heading') (wallet wallet' nonce nonce' : String) :
    walletText heading wallet nonce ≠ walletText heading' wallet' nonce' := by
  intro h
  have hlist := congrArg String.toList h
  rw [toList_walletText, toList_walletText, List.append_assoc, List.append_assoc,
    List.cons_append, List.cons_append] at hlist
  obtain ⟨heq, -⟩ := firstCut_inj hh hh' hlist
  exact hne (String.toList_injective heq)

theorem walletText_ne_message {heading : String} (hh : OneLine heading)
    (hne : heading ≠ "kvasir p4 relay") (wallet nonce host id owner nonce' : String) :
    walletText heading wallet nonce ≠ Relay.message host id owner nonce' := by
  intro h
  have hlist := congrArg String.toList h
  simp only [Relay.message, toList_walletText, toList_heading, List.append_assoc,
    List.cons_append] at hlist
  obtain ⟨heq, -⟩ := firstCut_inj hh (by decide) hlist
  exact hne (String.toList_injective heq)

/-- The texts tell their fields, and no service's text is another's. -/
structure TextsApart : Prop where
  gateway_inj : ∀ w w' n n', OneLine w → OneLine w' → OneLine n → OneLine n' →
    GatewayAuth.signInMessage w n = GatewayAuth.signInMessage w' n' → w = w' ∧ n = n'
  bridge_inj : ∀ w w' n n', OneLine w → OneLine w' → OneLine n → OneLine n' →
    NodeAuth.messageFor w n = NodeAuth.messageFor w' n' → w = w' ∧ n = n'
  relay_inj : ∀ h h' id id' w w' n n', OneLine h → OneLine h' → OneLine w → OneLine w' →
    OneLine n → OneLine n' → Relay.message h id w n = Relay.message h' id' w' n' →
    h = h' ∧ id = id' ∧ w = w' ∧ n = n'
  gateway_bridge : ∀ w w' n n', GatewayAuth.signInMessage w n ≠ NodeAuth.messageFor w' n'
  gateway_relay : ∀ h id w w' n n', GatewayAuth.signInMessage w n ≠ Relay.message h id w' n'
  bridge_relay : ∀ h id w w' n n', NodeAuth.messageFor w n ≠ Relay.message h id w' n'

theorem textsApart : TextsApart where
  gateway_inj _ _ _ _ hw hw' hn hn' h := (walletText_inj hw hw' hn hn' h).2
  bridge_inj _ _ _ _ hw hw' hn hn' h := (walletText_inj hw hw' hn hn' h).2
  relay_inj _ _ _ _ _ _ _ _ hh hh' hw hw' hn hn' h := by
    obtain ⟨hheading, hwallet, hnonce⟩ := walletText_inj hw hw' hn hn' h
    obtain ⟨hhost, hid⟩ := heading_inj hh hh' hheading
    exact ⟨hhost, hid, hwallet, hnonce⟩
  gateway_bridge w w' n n' := walletText_ne (by decide) (by decide) (by decide) w w' n n'
  gateway_relay h id w w' n n' := walletText_ne_message (by decide) (by decide) w n h id w' n'
  bridge_relay h id w w' n n' := walletText_ne_message (by decide) (by decide) w n h id w' n'

/-! ### Signatures and addresses -/

/-- A signature scheme; `σ` is what 64 bytes of base64 stand for. -/
structure Scheme (κ σ : Type*) where
  publicKey : κ → Bytes
  sign : κ → Bytes → σ
  verify : Bytes → Bytes → σ → Bool

/-- A signature verifies for its own key and message and for no others. -/
structure Scheme.Ideal {κ σ : Type*} (S : Scheme κ σ) : Prop where
  length_publicKey : ∀ k, (S.publicKey k).length = 32
  verify_sign : ∀ k pub msg msg', S.verify pub msg (S.sign k msg') = true ↔
    pub = S.publicKey k ∧ msg = msg'

def base58 : List Char := "123456789ABCDEFGHJKLMNPQRSTUVWXYZabcdefghijkmnopqrstuvwxyz".toList

/-- `while (carry > 0)`, least significant byte first. -/
def pushCarry : ℕ → ℕ → List ℕ
  | 0, _ => []
  | fuel + 1, carry => if carry = 0 then [] else carry % 256 :: pushCarry fuel (carry / 256)

def addDigit : List ℕ → ℕ → List ℕ
  | [], carry => pushCarry carry carry
  | b :: bs, carry => (carry + b * 58) % 256 :: addDigit bs ((carry + b * 58) / 256)

/-- The loop that the gateway runs from `[0]` and the relay from `[]`. -/
def b58decode (start : List ℕ) (s : String) : Option Bytes := do
  let digits ← s.toList.mapM fun c => base58.idxOf? c
  let bytes := digits.foldl addDigit start ++ List.replicate (s.toList.takeWhile (· = '1')).length 0
  return bytes.reverse.map UInt8.ofNat

def GatewayAuth.b58decode : String → Option Bytes := Signing.b58decode [0]

def Relay.b58decode : String → Option Bytes := Signing.b58decode []

/-- The bridge reads the digits as one number. -/
def NodeAuth.base58Decode (s : String) : Option Bytes := do
  if s = "" ∨ 64 < utf16Length s then none else
  let digits ← s.toList.mapM fun c => base58.idxOf? c
  let bytes := pushCarry s.length (digits.foldl (fun big digit => big * 58 + digit) 0) ++
    List.replicate (s.toList.takeWhile (· = '1')).length 0
  return bytes.reverse.map UInt8.ofNat

variable {κ σ : Type*} (S : Scheme κ σ)

/-! ### The client -/

/-- A field of a reply: a string, bytes that `Buffer.from` takes as they are, or any other
value, with its truth value. -/
inductive Field
  | text (s : String)
  | bytes (b : Bytes)
  | other (truthy : Bool)
  deriving DecidableEq, Repr

def Field.truthy : Field → Bool
  | .text s => s ≠ ""
  | .bytes _ => true
  | .other truthy => truthy

/-- `Buffer.from(field, 'utf8')`, which throws on what is neither text nor bytes. -/
def Field.buffer : Field → Option Bytes
  | .text s => some (utf8 s)
  | .bytes b => some b
  | .other _ => none

structure Reply where
  message : Field
  nonce : Field
  deriving DecidableEq, Repr

/-- What the client posts to prove its wallet. -/
structure Proof (σ : Type*) where
  wallet : String
  nonce : Field
  signature : σ
  deriving DecidableEq

/-- `mintToken` until it posts its proof; `reply` is none when the challenge did not come. -/
def mintToken (key : κ) (unlocked : Bool) (wallet : String) (reply : Option Reply) :
    Except String (Proof σ) :=
  if wallet = "" then .error "wallet is locked"
  else if 44 < utf16Length wallet then
    .error s!"wallet address is {utf16Length wallet} chars; the bridge accepts at most 44"
  else
    match reply with
    | none => .error "the bridge issued no challenge"
    | some ch =>
      if ch.message.truthy && ch.nonce.truthy then
        match ch.message.buffer with
        | none => .error "TypeError"
        | some bytes =>
          if unlocked then .ok ⟨wallet, ch.nonce, S.sign key bytes⟩ else .error "locked"
      else .error "the bridge issued no challenge"

/-- `requestAdmission` until it posts its proof; `due` says that the last one is old enough. -/
def requestAdmission (key : κ) (unlocked : Bool) (admissionsBase : String) (due : Bool)
    (wallet : String) (reply : Option Reply) : Option (Proof σ) :=
  if admissionsBase = "" ∨ due = false ∨ wallet = "" then none
  else reply.bind fun ch =>
    if ch.message.truthy && ch.nonce.truthy && unlocked then
      ch.message.buffer.map fun bytes => ⟨wallet, ch.nonce, S.sign key bytes⟩
    else none

/-- A signature that the client hands back on a reply. -/
def HandsBack (key : κ) (reply : Reply) (sig : σ) : Prop :=
  (∃ unlocked wallet proof, mintToken S key unlocked wallet (some reply) = .ok proof ∧
    proof.signature = sig) ∨
  ∃ unlocked base due wallet proof,
    requestAdmission S key unlocked base due wallet (some reply) = some proof ∧ proof.signature = sig

/-! ### The services -/

structure Entry where
  wallet : String
  expiry : ℕ
  deriving DecidableEq, Repr

abbrev Nonces := AList fun _ : String => Entry

def GatewayAuth.consumeChallenge (nonces : Nonces) (now : ℕ) (nonce : String) :
    Option String × Nonces :=
  match nonces.lookup nonce with
  | none => (none, nonces)
  | some e => (if e.expiry < now then none else some e.wallet, nonces.erase nonce)

/-- `signature` is none where the text is not 64 bytes of base64. -/
def GatewayAuth.verifyLogin (nonces : Nonces) (now : ℕ) (wallet nonce : String)
    (signature : Option σ) : Bool × Nonces :=
  let w := trimText wallet
  let (owner, nonces) := GatewayAuth.consumeChallenge nonces now (trimText nonce)
  (owner.any (fun owner => owner ≠ "" && owner = w) && signature.any fun sig =>
    (GatewayAuth.b58decode w).any fun pub =>
      pub.length = 32 && S.verify pub (utf8 (GatewayAuth.signInMessage w nonce)) sig, nonces)

/-- The relay keeps the expiry of a nonce only; a nonce is taken whether it verifies or not. -/
def Relay.verify (nonces : AList fun _ : String => ℕ) (now : ℕ)
    (relayHost nodeId owner nonce : String) (signature : Option σ) :
    Bool × AList fun _ : String => ℕ :=
  ((nonces.lookup nonce).any (fun expiry => expiry ≠ 0 && now ≤ expiry) && nodeId ≠ "" &&
    owner ≠ "" && signature.any fun sig => (Relay.b58decode owner).any fun pub =>
      pub.length = 32 && S.verify pub (utf8 (Relay.message relayHost nodeId owner nonce)) sig,
    nonces.erase nonce)

def NodeAuth.consumeChallenge (nonces : Nonces) (now : ℕ) (wallet nonce : String) :
    Option String × Nonces :=
  match nonces.lookup nonce with
  | none => (none, nonces)
  | some e =>
    (if e.expiry < now then none else if e.wallet ≠ wallet then none
      else some (NodeAuth.messageFor wallet nonce), nonces.erase nonce)

def NodeAuth.verifyWalletSignature (wallet message : String) (signature : Option σ) : Bool :=
  (NodeAuth.base58Decode wallet).any fun raw =>
    raw.length = 32 && signature.any fun sig => S.verify raw (utf8 message) sig

/-- `POST /api/auth/node-token`: whether it makes a token (a body without a signature is
refused before this). -/
def NodeAuth.nodeToken (nonces : Nonces) (now : ℕ) (allowed : Bool) (wallet nonce : String)
    (signature : Option σ) : Bool × Nonces :=
  let wallet := trimText wallet
  let nonce := trimText nonce
  if wallet = "" ∨ nonce = "" then (false, nonces)
  else if allowed = false then (false, nonces)
  else
    let (message, nonces) := NodeAuth.consumeChallenge nonces now wallet nonce
    (message.any fun message => NodeAuth.verifyWalletSignature S wallet message signature, nonces)

/-- The challenge is one of the gateway's, for this wallet, and has not run out. -/
def GatewayAuth.Challenged (nonces : Nonces) (now : ℕ) (wallet nonce : String) : Prop :=
  ∃ e, nonces.lookup (trimText nonce) = some e ∧ now ≤ e.expiry ∧ e.wallet ≠ "" ∧
    e.wallet = trimText wallet

def Relay.Challenged (nonces : AList fun _ : String => ℕ) (now : ℕ) (nodeId owner nonce : String) :
    Prop :=
  ∃ expiry, nonces.lookup nonce = some expiry ∧ expiry ≠ 0 ∧ now ≤ expiry ∧ nodeId ≠ "" ∧ owner ≠ ""

def NodeAuth.Challenged (nonces : Nonces) (now : ℕ) (wallet nonce : String) : Prop :=
  ∃ e, nonces.lookup (trimText nonce) = some e ∧ now ≤ e.expiry ∧ e.wallet = trimText wallet ∧
    trimText wallet ≠ "" ∧ trimText nonce ≠ ""

/-! ### What a signature opens -/

variable {S} (hS : S.Ideal) {key : κ} {bytes : Bytes}
include hS

/-- A service that decodes an address and verifies a text takes the signature of exactly its
own text, for the key that the address names. -/
theorem Scheme.Ideal.any_verify (key : κ) (bytes : Bytes) (pub : Option Bytes) (text : String) :
    (pub.any fun pub => pub.length = 32 && S.verify pub (utf8 text) (S.sign key bytes)) = true ↔
      pub = some (S.publicKey key) ∧ bytes = utf8 text := by
  cases pub with
  | none => simp
  | some pub =>
    simp only [Option.any_some, Bool.and_eq_true, decide_eq_true_eq, hS.verify_sign,
      Option.some.injEq]
    constructor
    · rintro ⟨-, hpub, hmsg⟩
      exact ⟨hpub, hmsg.symm⟩
    · rintro ⟨rfl, hmsg⟩
      exact ⟨hS.length_publicKey key, rfl, hmsg.symm⟩

theorem verifyLogin_iff (nonces : Nonces) (now : ℕ) (wallet nonce : String) :
    (GatewayAuth.verifyLogin S nonces now wallet nonce (some (S.sign key bytes))).1 = true ↔
      GatewayAuth.Challenged nonces now wallet nonce ∧
      GatewayAuth.b58decode (trimText wallet) = some (S.publicKey key) ∧
      bytes = utf8 (GatewayAuth.signInMessage (trimText wallet) nonce) := by
  have howner : ((GatewayAuth.consumeChallenge nonces now (trimText nonce)).1.any
      (fun owner => owner ≠ "" && owner = trimText wallet)) = true ↔
      GatewayAuth.Challenged nonces now wallet nonce := by
    unfold GatewayAuth.consumeChallenge GatewayAuth.Challenged
    cases nonces.lookup (trimText nonce) with
    | none => simp
    | some e =>
      by_cases hexp : e.expiry < now
      · simp [hexp]
      · simp [hexp, Nat.le_of_not_lt hexp]
  simp only [GatewayAuth.verifyLogin, Option.any_some]
  rw [Bool.and_eq_true, howner, hS.any_verify]

theorem relayVerify_iff (nonces : AList fun _ : String => ℕ) (now : ℕ)
    (relayHost nodeId owner nonce : String) :
    (Relay.verify S nonces now relayHost nodeId owner nonce (some (S.sign key bytes))).1 = true ↔
      Relay.Challenged nonces now nodeId owner nonce ∧
      Relay.b58decode owner = some (S.publicKey key) ∧
      bytes = utf8 (Relay.message relayHost nodeId owner nonce) := by
  have hopen : ((nonces.lookup nonce).any (fun expiry => expiry ≠ 0 && now ≤ expiry) &&
      nodeId ≠ "" && owner ≠ "") = true ↔ Relay.Challenged nonces now nodeId owner nonce := by
    unfold Relay.Challenged
    cases nonces.lookup nonce with
    | none => simp
    | some expiry => simp [and_assoc]
  simp only [Relay.verify, Option.any_some]
  rw [Bool.and_eq_true, hopen, hS.any_verify]

theorem nodeToken_iff (nonces : Nonces) (now : ℕ) (allowed : Bool) (wallet nonce : String) :
    (NodeAuth.nodeToken S nonces now allowed wallet nonce (some (S.sign key bytes))).1 = true ↔
      NodeAuth.Challenged nonces now wallet nonce ∧ allowed = true ∧
      NodeAuth.base58Decode (trimText wallet) = some (S.publicKey key) ∧
      bytes = utf8 (NodeAuth.messageFor (trimText wallet) (trimText nonce)) := by
  simp only [NodeAuth.nodeToken]
  by_cases hempty : trimText wallet = "" ∨ trimText nonce = ""
  · rw [if_pos hempty]
    constructor
    · intro h
      cases h
    · rintro ⟨⟨e, -, -, -, hw, hn⟩, -⟩
      exact absurd hempty (not_or.mpr ⟨hw, hn⟩)
  rw [if_neg hempty]
  cases allowed with
  | false => simp
  | true =>
    have hmessage : (NodeAuth.consumeChallenge nonces now (trimText wallet) (trimText nonce)).1.any
        (fun message => NodeAuth.verifyWalletSignature S (trimText wallet) message
          (some (S.sign key bytes))) = true ↔
        NodeAuth.Challenged nonces now wallet nonce ∧
        NodeAuth.verifyWalletSignature S (trimText wallet)
          (NodeAuth.messageFor (trimText wallet) (trimText nonce)) (some (S.sign key bytes)) = true := by
      unfold NodeAuth.consumeChallenge NodeAuth.Challenged
      cases nonces.lookup (trimText nonce) with
      | none => simp
      | some e =>
        by_cases hexp : e.expiry < now
        · simp [hexp]
        · by_cases hwallet : e.wallet = trimText wallet
          · simp [hexp, hwallet, Nat.le_of_not_lt hexp, not_or.mp hempty]
          · simp [hexp, hwallet]
    have hverify := hS.any_verify key bytes
      (NodeAuth.base58Decode (trimText wallet)) (NodeAuth.messageFor (trimText wallet) (trimText nonce))
    rw [if_neg Bool.noConfusion]
    refine hmessage.trans (and_congr_right fun _ => ?_)
    simp only [NodeAuth.verifyWalletSignature, Option.any_some, true_and]
    exact hverify

omit hS in
theorem signed_of_handsBack {reply : Reply} {sig : σ} (h : HandsBack S key reply sig) :
    ∃ bytes, reply.message.buffer = some bytes ∧ sig = S.sign key bytes := by
  rcases h with ⟨unlocked, wallet, proof, hmint, rfl⟩ | ⟨unlocked, base, due, wallet, proof, hask, rfl⟩
  · unfold mintToken at hmint
    cases hbuffer : reply.message.buffer with
    | none =>
      simp only [hbuffer] at hmint
      split_ifs at hmint
    | some bytes =>
      simp only [hbuffer] at hmint
      split_ifs at hmint
      obtain rfl := Except.ok.inj hmint
      exact ⟨bytes, rfl, rfl⟩
  · obtain ⟨-, hbind⟩ := Option.ite_none_left_eq_some.mp hask
    obtain ⟨-, hmap⟩ := Option.ite_none_right_eq_some.mp hbind
    obtain ⟨bytes, hbuffer, rfl⟩ := Option.map_eq_some_iff.mp hmap
    exact ⟨bytes, hbuffer, rfl⟩

/-- The doors that a signature handed back on a reply opens: those whose text the reply was. -/
structure OpensAsSigned (S : Scheme κ σ) (key : κ) (reply : Reply) (sig : σ) : Prop where
  gateway : ∀ nonces now wallet nonce,
    (GatewayAuth.verifyLogin S nonces now wallet nonce (some sig)).1 = true ↔
      GatewayAuth.Challenged nonces now wallet nonce ∧
      GatewayAuth.b58decode (trimText wallet) = some (S.publicKey key) ∧
      reply.message.buffer = some (utf8 (GatewayAuth.signInMessage (trimText wallet) nonce))
  relay : ∀ nonces now relayHost nodeId owner nonce,
    (Relay.verify S nonces now relayHost nodeId owner nonce (some sig)).1 = true ↔
      Relay.Challenged nonces now nodeId owner nonce ∧
      Relay.b58decode owner = some (S.publicKey key) ∧
      reply.message.buffer = some (utf8 (Relay.message relayHost nodeId owner nonce))
  bridge : ∀ nonces now allowed wallet nonce,
    (NodeAuth.nodeToken S nonces now allowed wallet nonce (some sig)).1 = true ↔
      NodeAuth.Challenged nonces now wallet nonce ∧ allowed = true ∧
      NodeAuth.base58Decode (trimText wallet) = some (S.publicKey key) ∧
      reply.message.buffer = some (utf8 (NodeAuth.messageFor (trimText wallet) (trimText nonce)))

/-- A signature of a text that a bridge or the admissions service issues opens no other
service, and another bridge for the same wallet and nonce only. -/
structure OpensOneDoor (S : Scheme κ σ) (reply : Reply) (sig : σ) : Prop where
  gateway : ∀ w n, reply.message = .text (NodeAuth.messageFor w n) ∨
    reply.message = .text (Admissions.messageFor w n) → ∀ nonces now wallet nonce,
    (GatewayAuth.verifyLogin S nonces now wallet nonce (some sig)).1 = false
  relay : ∀ w n, reply.message = .text (NodeAuth.messageFor w n) ∨
    reply.message = .text (Admissions.messageFor w n) → ∀ nonces now relayHost nodeId owner nonce,
    (Relay.verify S nonces now relayHost nodeId owner nonce (some sig)).1 = false
  bridge : ∀ w n, reply.message = .text (NodeAuth.messageFor w n) → OneLine w → OneLine n →
    ∀ nonces now allowed wallet nonce, OneLine (trimText wallet) → OneLine (trimText nonce) →
    (NodeAuth.nodeToken S nonces now allowed wallet nonce (some sig)).1 = true →
    trimText wallet = w ∧ trimText nonce = n
  admissions : ∀ w n, reply.message = .text (Admissions.messageFor w n) →
    ∀ nonces now allowed wallet nonce,
    (NodeAuth.nodeToken S nonces now allowed wallet nonce (some sig)).1 = false

theorem opensAsSigned {reply : Reply} {sig : σ} (h : HandsBack S key reply sig) :
    OpensAsSigned S key reply sig := by
  obtain ⟨bytes, hbuffer, rfl⟩ := signed_of_handsBack h
  have hsame : ∀ text, reply.message.buffer = some (utf8 text) ↔ bytes = utf8 text := by
    intro text
    rw [hbuffer, Option.some.injEq]
  refine ⟨?_, ?_, ?_⟩
  · intro nonces now wallet nonce
    rw [hsame]
    exact verifyLogin_iff hS nonces now wallet nonce
  · intro nonces now relayHost nodeId owner nonce
    rw [hsame]
    exact relayVerify_iff hS nonces now relayHost nodeId owner nonce
  · intro nonces now allowed wallet nonce
    rw [hsame]
    exact nodeToken_iff hS nonces now allowed wallet nonce

omit hS in
theorem text_of_buffer {reply : Reply} {text text' : String} (hreply : reply.message = .text text)
    (hbuffer : reply.message.buffer = some (utf8 text')) : text = text' := by
  rw [hreply] at hbuffer
  exact utf8_injective (Option.some.inj hbuffer)

omit hS in
theorem opensOneDoor {reply : Reply} {sig : σ} (h : OpensAsSigned S key reply sig) :
    OpensOneDoor S reply sig := by
  refine ⟨?_, ?_, ?_, ?_⟩
  · intro w n hreply nonces now wallet nonce
    by_contra hopen
    obtain ⟨-, -, hbuffer⟩ := (h.gateway nonces now wallet nonce).mp (Bool.of_not_eq_false hopen)
    rcases hreply with hreply | hreply
    · exact textsApart.gateway_bridge _ _ _ _ (text_of_buffer hreply hbuffer).symm
    · exact walletText_ne (by decide) (by decide) (by decide) _ _ _ _ (text_of_buffer hreply hbuffer)
  · intro w n hreply nonces now relayHost nodeId owner nonce
    by_contra hopen
    obtain ⟨-, -, hbuffer⟩ :=
      (h.relay nonces now relayHost nodeId owner nonce).mp (Bool.of_not_eq_false hopen)
    rcases hreply with hreply | hreply
    · exact textsApart.bridge_relay _ _ _ _ _ _ (text_of_buffer hreply hbuffer)
    · exact walletText_ne_message (by decide) (by decide) _ _ _ _ _ _ (text_of_buffer hreply hbuffer)
  · intro w n hreply hw hn nonces now allowed wallet nonce hwallet hnonce hopen
    obtain ⟨-, -, -, hbuffer⟩ := (h.bridge nonces now allowed wallet nonce).mp hopen
    obtain ⟨hw', hn'⟩ :=
      textsApart.bridge_inj _ _ _ _ hw hwallet hn hnonce (text_of_buffer hreply hbuffer)
    exact ⟨hw'.symm, hn'.symm⟩
  · intro w n hreply nonces now allowed wallet nonce
    by_contra hopen
    obtain ⟨-, -, -, hbuffer⟩ :=
      (h.bridge nonces now allowed wallet nonce).mp (Bool.of_not_eq_false hopen)
    exact walletText_ne (by decide) (by decide) (by decide) _ _ _ _ (text_of_buffer hreply hbuffer)

/-- The texts are told apart, and a signature handed back opens the doors whose text the reply
was, which for an honest reply is its own. -/
theorem signature_opens_one_door :
    TextsApart ∧ ∀ key reply sig, HandsBack S key reply sig →
      OpensAsSigned S key reply sig ∧ OpensOneDoor S reply sig := by
  refine ⟨textsApart, fun key reply sig h => ?_⟩
  have hsigned := opensAsSigned hS h
  exact ⟨hsigned, opensOneDoor hsigned⟩

omit hS

/-- One key, whose signature of a message is the message. -/
def plainScheme : Scheme Unit Bytes where
  publicKey _ := List.replicate 31 0 ++ [1]
  sign _ msg := msg
  verify pub msg sig := pub = List.replicate 31 0 ++ [1] && msg = sig

theorem ideal_plainScheme : plainScheme.Ideal where
  length_publicKey _ := rfl
  verify_sign _ pub msg msg' := by
    simp only [plainScheme, Bool.and_eq_true, decide_eq_true_eq]

def plainWallet : String := "11111111111111111111111111111112"

theorem signature_opens_own_door :
    ∃ proof, mintToken plainScheme () true plainWallet
        (some ⟨.text (NodeAuth.messageFor plainWallet "ab"), .text "ab"⟩) = .ok proof ∧
      (NodeAuth.nodeToken plainScheme (AList.singleton "ab" ⟨plainWallet, 9⟩) 5 true plainWallet "ab"
        (some proof.signature)).1 = true ∧
      ∀ nonces now wallet nonce,
        (GatewayAuth.verifyLogin plainScheme nonces now wallet nonce (some proof.signature)).1 = false := by
  have hmint : mintToken plainScheme () true plainWallet
      (some ⟨.text (NodeAuth.messageFor plainWallet "ab"), .text "ab"⟩) =
      .ok ⟨plainWallet, .text "ab", utf8 (NodeAuth.messageFor plainWallet "ab")⟩ := by decide
  obtain ⟨hsigned, hdoor⟩ := (signature_opens_one_door ideal_plainScheme).2 () _ _
    (.inl ⟨true, plainWallet, _, hmint, rfl⟩)
  refine ⟨_, hmint, ?_, fun nonces now wallet nonce =>
    hdoor.gateway plainWallet "ab" (.inl rfl) nonces now wallet nonce⟩
  have hchallenged : NodeAuth.Challenged (AList.singleton "ab" ⟨plainWallet, 9⟩) 5 plainWallet "ab" :=
    ⟨⟨plainWallet, 9⟩, by decide, by decide, by decide, by decide, by decide⟩
  exact (hsigned.bridge _ _ _ _ _).mpr ⟨hchallenged, rfl, by decide, by decide⟩

/-- A bridge that replies with the gateway's text gets a signature that signs in there. -/
theorem signature_opens_gateway :
    ∃ proof, mintToken plainScheme () true plainWallet
        (some ⟨.text (GatewayAuth.signInMessage plainWallet "ab"), .text "ab"⟩) = .ok proof ∧
      (GatewayAuth.verifyLogin plainScheme (AList.singleton "ab" ⟨plainWallet, 9⟩) 5 plainWallet "ab"
        (some proof.signature)).1 = true :=
  ⟨⟨plainWallet, .text "ab", utf8 (GatewayAuth.signInMessage plainWallet "ab")⟩, by decide, by decide⟩

end KvasirNet.Signing
