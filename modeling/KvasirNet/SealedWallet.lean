import KvasirNet.GatewayTwoFactor
import Mathlib.Data.List.AList

/-! The wallet that the desktop keeps on disk: `wallet.enc`, the address in `config.json` and
the unlocked session, under handlers whose file writes may be refused or stop half way. -/
namespace KvasirNet.SealedWallet

open KvasirNet.Gateway (isJsSpace trimText utf16Length)

/-- What the handlers call: scrypt and AES-256-GCM under `sealMnemonic` and `openMnemonic`,
`safeStorage`, `bip39`, `bs58`, and the address of a derived key (none where deriving it
throws). `stringify` is the text of an envelope, `secretOfJson` the bytes of a JSON array. -/
structure Keys (ε : Type*) where
  sealMnemonic : String → String → ℕ → ε
  openMnemonic : ε → String → Option String
  stringify : ε → String
  isEncryptionAvailable : Bool
  decryptString : String → Option String
  validateMnemonic : String → Bool
  addressOf : String → Option String
  secretOfJson : String → Option (List UInt8)
  bs58encode : List UInt8 → String
  bs58decode : String → Option (List UInt8)

variable {ε : Type*} (k : Keys ε)

/-- An envelope opens under its own passphrase, and under no passphrase to a second phrase;
and a phrase that validates has an address. -/
structure Keys.Lawful : Prop where
  open_seal : ∀ m p salt, k.openMnemonic (k.sealMnemonic m p salt) p = some m
  open_one : ∀ e p q m m', k.openMnemonic e p = some m → k.openMnemonic e q = some m' → m = m'
  address_valid : ∀ m, k.validateMnemonic m = true → ∃ a, k.addressOf m = some a

/-! ### Files -/

/-- `wallet.enc`: an envelope whole, or any other text (a legacy wallet, a torn envelope). -/
inductive WalletFile (ε : Type*)
  | envelope (env : ε)
  | other (text : String)
  deriving DecidableEq

inductive Setting
  | null
  | text (s : String)
  | number (n : ℤ)
  deriving DecidableEq, Repr

abbrev Config := AList fun _ : String => Setting

/-- `config.json`: whole, or a text that does not parse. -/
inductive ConfigFile
  | whole (cfg : Config)
  | torn
  deriving DecidableEq

/-- How a `writeFileSync` ends: whole; stopped before the file is opened; after `n`
characters; or after the last one. A stop is a crash, or else an exception. -/
inductive Outcome
  | done
  | refused (crash : Bool)
  | torn (n : ℕ) (crash : Bool)
  | late (crash : Bool)
  deriving DecidableEq, Repr

/-- Whether the write stops its handler, and by a crash or not. -/
def Outcome.stop : Outcome → Option Bool
  | .done => none
  | .refused crash | .torn _ crash | .late crash => some crash

structure Vault (ε : Type*) where
  wallet : Option (WalletFile ε)
  config : Option ConfigFile
  session : Option (String × String)
  deriving DecidableEq

inductive Result
  | returned
  | threw
  | crashed
  deriving DecidableEq, Repr

/-- A handler that stops: a crash takes the session with it. -/
def Vault.stopped (s : Vault ε) (crash : Bool) : Vault ε × Result :=
  if crash then ({ s with session := none }, .crashed) else (s, .threw)

def writeWallet (old : Option (WalletFile ε)) (env : ε) : Outcome → Option (WalletFile ε)
  | .done | .late _ => some (.envelope env)
  | .refused _ => old
  | .torn n _ =>
    if n < (k.stringify env).length then some (.other (String.ofList ((k.stringify env).toList.take n)))
    else some (.envelope env)

def Vault.readConfig (s : Vault ε) : Config :=
  match s.config with
  | some (.whole cfg) => cfg
  | _ => ∅

/-- `{ ...config, ...patch }`, as `JSON.stringify` writes it: what is undefined goes. -/
def mergeConfig (cfg : Config) (patch : List (String × Option Setting)) : Config :=
  patch.foldl (fun c kv => match kv.2 with
    | some v => c.insert kv.1 v
    | none => c.erase kv.1) cfg

def Vault.writeConfig (s : Vault ε) (patch : List (String × Option Setting)) (o : Outcome) :
    Vault ε × Result :=
  let config := match o with
    | .done | .late _ => some (.whole (mergeConfig s.readConfig patch))
    | .refused _ => s.config
    | .torn _ _ => some .torn
  match o.stop with
  | none => ({ s with config }, .returned)
  | some crash => ({ s with config }.stopped crash)

def addressPatch (a : Setting) : List (String × Option Setting) := [("address", some a)]

/-! ### Reading and sealing -/

def Vault.readEnvelope (s : Vault ε) : Option ε :=
  match s.wallet with
  | some (.envelope env) => some env
  | _ => none

def Vault.loadLegacyMnemonic (s : Vault ε) : Option String :=
  match s.wallet with
  | some (.other text) =>
    some (if k.isEncryptionAvailable then (k.decryptString text).getD text else text)
  | _ => none

def saveEncrypted (s : Vault ε) (mnemonic passphrase : String) (salt : ℕ) (w c : Outcome) :
    Vault ε × Result :=
  if utf16Length passphrase < 8 then (s, .threw) else
  let s := { s with wallet := writeWallet k s.wallet (k.sealMnemonic mnemonic passphrase salt) w }
  match w.stop with
  | some crash => s.stopped crash
  | none =>
    -- `setSession` derives the address before it assigns
    match k.addressOf mnemonic with
    | none => (s, .threw)
    | some address =>
      { s with session := some (mnemonic, address) }.writeConfig (addressPatch (.text address)) c

def rawPrefix : String := "raw:"

def parseRawSecret (input : String) : Option String :=
  let s := trimText input
  if s.startsWith "[" then
    (k.secretOfJson s).bind fun arr =>
      if arr.length = 64 then some (rawPrefix ++ k.bs58encode arr) else none
  else if s.toList.any isJsSpace = false ∧ 80 ≤ utf16Length s then
    (k.bs58decode s).bind fun arr => if arr.length = 64 then some (rawPrefix ++ s) else none
  else none

/-- `replace(/\s+/g, ' ')`; `inside` says that the run of blanks has been replaced already. -/
def squeeze (inside : Bool) : List Char → List Char
  | [] => []
  | c :: cs =>
    if isJsSpace c then (if inside then squeeze true cs else ' ' :: squeeze true cs)
    else c :: squeeze false cs

def collapse (s : String) : String := String.ofList (squeeze false (trimText s).toList)

/-! ### Handlers -/

/-- The handlers that end in `saveEncrypted`: `wallet:create` with the phrase that `bip39`
generated, `wallet:commit`, `wallet:import`, `wallet:upgrade` and `wallet:changePassphrase`. -/
inductive Handler
  | create (mnemonic : String)
  | commit (mnemonic : String)
  | imports (text : String)
  | upgrade
  | changePassphrase (oldPass : String)
  deriving DecidableEq

/-- The phrase that the handler seals, unless it throws before. -/
def Vault.phrase (s : Vault ε) : Handler → Option String
  | .create mnemonic => some mnemonic
  | .commit mnemonic => if k.validateMnemonic mnemonic then some mnemonic else none
  | .imports text =>
    match parseRawSecret k text with
    | some raw => (k.addressOf raw).map fun _ => raw
    | none => if k.validateMnemonic (collapse text) then some (collapse text) else none
  | .upgrade =>
    (s.loadLegacyMnemonic k).bind fun legacy =>
      if legacy ≠ "" ∧ k.validateMnemonic (collapse legacy) then some (collapse legacy) else none
  | .changePassphrase oldPass => s.readEnvelope.bind fun env => k.openMnemonic env oldPass

/-- `clear` passes over an `unlink` that fails. -/
inductive Unlink
  | removed
  | failed
  | crashed
  deriving DecidableEq

inductive Action
  | save (h : Handler) (passphrase : String) (salt : ℕ) (w c : Outcome)
  | unlock (passphrase : String) (c : Outcome)
  | lock
  | setConfig (patch : List (String × Option Setting)) (c : Outcome)
  | clear (u : Unlink) (c : Outcome)

def Vault.clear (s : Vault ε) (u : Unlink) (c : Outcome) : Vault ε × Result :=
  match u with
  | .crashed => s.stopped true
  | .failed => { s with session := none }.writeConfig (addressPatch .null) c
  | .removed => { s with wallet := none, session := none }.writeConfig (addressPatch .null) c

/-- The phrase and the address that `unlock` gives the session. -/
def Vault.opened (s : Vault ε) (passphrase : String) : Option (String × String) :=
  s.readEnvelope.bind fun env => (k.openMnemonic env passphrase).bind fun m =>
    (k.addressOf m).map fun a => (m, a)

def Vault.handle (s : Vault ε) : Action → Vault ε × Result
  | .save h passphrase salt w c =>
    match s.phrase k h with
    | none => (s, .threw)
    | some m => saveEncrypted k s m passphrase salt w c
  | .unlock passphrase c =>
    match s.opened k passphrase with
    | none => (s, .threw)
    | some (m, a) => { s with session := some (m, a) }.writeConfig (addressPatch (.text a)) c
  | .lock => ({ s with session := none }, .returned)
  | .setConfig patch c => s.writeConfig patch c
  | .clear u c => s.clear u c

/-- `bip39` generates phrases that validate. -/
def enabled : Action → Bool
  | .save (.create m) _ _ _ _ => k.validateMnemonic m
  | _ => true

def step (s : Vault ε) (a : Action) : Option (Vault ε) :=
  if enabled k a then some (s.handle k a).1 else none

/-! ### What the wallet owes -/

/-- The disk holds an envelope or a legacy file that gives `m` to who knows `p`. -/
def Recoverable (s : Vault ε) (m p : String) : Prop :=
  (∃ env, s.readEnvelope = some env ∧ k.openMnemonic env p = some m) ∨
    s.phrase k .upgrade = some m

/-- The phrase on disk is one that a key derives from. -/
def Addressed (s : Vault ε) : Prop := ∀ m p, Recoverable k s m p → ∃ a, k.addressOf m = some a

/-- The configuration names the address of the stored phrase. -/
def Consistent (s : Vault ε) : Prop := ∀ m p, Recoverable k s m p →
  ∃ a, k.addressOf m = some a ∧ s.readConfig.lookup "address" = some (.text a)

/-- The action gives up the phrase `m` by what it is for. -/
def GivesUp (s : Vault ε) (m : String) (a : Action) : Prop :=
  match a with
  | .clear _ _ => True
  | .save (.imports text) _ _ _ _ =>
    (s.handle k a).2 = .returned ∧ s.phrase k (.imports text) ≠ some m
  | _ => False

/-- The passphrase that the phrase is under after an action. -/
def passphraseAfter (s : Vault ε) (a : Action) (_ : Vault ε) (p : String) : String :=
  match a with
  | .save _ passphrase _ _ _ => if (s.handle k a).2 = .returned then passphrase else p
  | _ => p

/-- An action that fails leaves the files and the session, which only a crash takes. -/
def FailedLeaves (s : Vault ε) (a : Action) : Prop :=
  (s.handle k a).2 ≠ .returned → (s.handle k a).1.wallet = s.wallet ∧
    (s.handle k a).1.config = s.config ∧
    ((s.handle k a).1.session = s.session ∨
      ((s.handle k a).2 = .crashed ∧ (s.handle k a).1.session = none))

/-- `create` and `commit` look at no wallet that is there. -/
def Handler.unguarded : Handler → Bool
  | .create _ | .commit _ => true
  | _ => false

/-- What the wallet rests on: a handler that has begun to write ends all its writes; a new
phrase is sealed over no other; and no patch of the configuration names the address. -/
def Spared (s : Vault ε) : Action → Prop
  | .save h passphrase _ w c => ∀ m, s.phrase k h = some m → 8 ≤ utf16Length passphrase →
      (∃ crash, w = .refused crash) ∨ (w = .done ∧ c = .done ∧
        (h.unguarded = true → ∀ m' q, Recoverable k s m' q → m' = m))
  | .unlock passphrase c => ∀ m a, s.opened k passphrase = some (m, a) →
      c = .done ∨ c = .refused true ∨ (c = .refused false ∧ s.session = some (m, a))
  | .lock => True
  | .setConfig patch c => (∃ crash, c = .refused crash) ∨
      (c = .done ∧ "address" ∉ patch.map Prod.fst)
  | .clear u c => u = .crashed ∨ (c = .done ∧ (u = .failed → ∀ m p, ¬ Recoverable k s m p))

variable {k} {s s' : Vault ε} {m m' p q : String}

/-! ### What a disk gives -/

theorem recoverable_congr (hw : s'.wallet = s.wallet) :
    Recoverable k s' m p ↔ Recoverable k s m p := by
  simp only [Recoverable, Vault.readEnvelope, Vault.phrase, Vault.loadLegacyMnemonic, hw]

theorem recoverable_envelope {env : ε} (hw : s.wallet = some (.envelope env)) :
    Recoverable k s m p ↔ k.openMnemonic env p = some m := by
  simp [Recoverable, Vault.readEnvelope, Vault.phrase, Vault.loadLegacyMnemonic, hw]

theorem not_recoverable (hw : s.wallet = none) : ¬ Recoverable k s m p := by
  simp [Recoverable, Vault.readEnvelope, Vault.phrase, Vault.loadLegacyMnemonic, hw]

theorem phrase_upgrade_of_envelope {env : ε} (henv : s.readEnvelope = some env) :
    s.phrase k .upgrade = none := by
  have hwallet : s.wallet = some (.envelope env) := by
    unfold Vault.readEnvelope at henv
    split at henv
    · next hw => rw [hw, Option.some.inj henv]
    · cases henv
  simp [Vault.phrase, Vault.loadLegacyMnemonic, hwallet]

theorem Keys.Lawful.recover_one (hk : k.Lawful) (h : Recoverable k s m p)
    (h' : Recoverable k s m' q) : m = m' := by
  rcases h with ⟨env, henv, hopen⟩ | hup
  · rcases h' with ⟨env', henv', hopen'⟩ | hup'
    · obtain rfl := Option.some.inj (henv.symm.trans henv')
      exact hk.open_one env p q m m' hopen hopen'
    · rw [phrase_upgrade_of_envelope henv] at hup'
      cases hup'
  · rcases h' with ⟨env', henv', _⟩ | hup'
    · rw [phrase_upgrade_of_envelope henv'] at hup
      cases hup
    · exact Option.some.inj (hup.symm.trans hup')

theorem recoverable_phrase {old : String} (hphrase : s.phrase k (.changePassphrase old) = some m) :
    Recoverable k s m old := by
  obtain ⟨env, henv, hopen⟩ := Option.bind_eq_some_iff.mp hphrase
  exact .inl ⟨env, henv, hopen⟩

theorem Keys.Lawful.address_phrase (hk : k.Lawful) (haddr : Addressed k s) {h : Handler}
    {pass : String} {salt : ℕ} {w c : Outcome} (hen : enabled k (.save h pass salt w c) = true)
    (hphrase : s.phrase k h = some m) : ∃ a, k.addressOf m = some a := by
  cases h with
  | create mnemonic =>
    obtain rfl := Option.some.inj hphrase
    exact hk.address_valid _ hen
  | commit mnemonic =>
    obtain ⟨hvalid, hm⟩ := Option.ite_none_right_eq_some.mp hphrase
    obtain rfl := Option.some.inj hm
    exact hk.address_valid _ hvalid
  | imports text =>
    simp only [Vault.phrase] at hphrase
    split at hphrase
    · next raw _ =>
      obtain ⟨a, ha, rfl⟩ := Option.map_eq_some_iff.mp hphrase
      exact ⟨a, ha⟩
    · obtain ⟨hvalid, hm⟩ := Option.ite_none_right_eq_some.mp hphrase
      obtain rfl := Option.some.inj hm
      exact hk.address_valid _ hvalid
  | upgrade => exact haddr m "" (.inr hphrase)
  | changePassphrase old => exact haddr m old (recoverable_phrase hphrase)

/-! ### Configuration writes -/

theorem lookup_mergeConfig (patch : List (String × Option Setting)) (cfg : Config)
    (hpatch : "address" ∉ patch.map Prod.fst) :
    (mergeConfig cfg patch).lookup "address" = cfg.lookup "address" := by
  induction patch generalizing cfg with
  | nil => rfl
  | cons kv patch ih =>
    obtain ⟨key, v⟩ := kv
    rw [List.map_cons, List.mem_cons, not_or] at hpatch
    obtain ⟨hkey, hrest⟩ := hpatch
    cases v with
    | some v => exact (ih (cfg.insert key v) hrest).trans (AList.lookup_insert_ne hkey)
    | none => exact (ih (cfg.erase key) hrest).trans (AList.lookup_erase_ne hkey)

theorem lookup_addressPatch (cfg : Config) (a : Setting) :
    (mergeConfig cfg (addressPatch a)).lookup "address" = some a :=
  AList.lookup_insert _

theorem writeConfig_refused (patch : List (String × Option Setting)) (crash : Bool) :
    s.writeConfig patch (.refused crash) = s.stopped crash := rfl

/-! ### What a spared action does -/

variable (k) in
/-- All that a handler can do: stop before it has written, seal a phrase, leave the wallet
with the address it has, or clear it. -/
inductive Effect (s : Vault ε) : Action → Vault ε × Result → Prop
  | stopped (a : Action) (crash : Bool) : Effect s a (s.stopped crash)
  | saved (h : Handler) (pass : String) (salt : ℕ) (w c : Outcome) (m addr : String)
      (hphrase : s.phrase k h = some m) (haddr : k.addressOf m = some addr)
      (hown : h.unguarded = true → ∀ m' q, Recoverable k s m' q → m' = m) :
      Effect s (.save h pass salt w c)
        ({ wallet := some (.envelope (k.sealMnemonic m pass salt))
           config := some (.whole (mergeConfig s.readConfig (addressPatch (.text addr))))
           session := some (m, addr) }, .returned)
  | kept (a : Action) (s' : Vault ε) (hsave : ∀ p, passphraseAfter k s a s' p = p)
      (hwallet : s'.wallet = s.wallet)
      (haddress : s'.readConfig.lookup "address" = s.readConfig.lookup "address" ∨
        ∃ p m addr, s.opened k p = some (m, addr) ∧
          s'.readConfig.lookup "address" = some (.text addr)) : Effect s a (s', .returned)
  | cleared (u : Unlink) (c : Outcome) (s' : Vault ε) (hgone : ∀ m p, ¬ Recoverable k s' m p) :
      Effect s (.clear u c) (s', .returned)

theorem effect_threw (s : Vault ε) (a : Action) : Effect k s a (s, .threw) := .stopped a false

theorem effect_save (hk : k.Lawful) (haddr : Addressed k s) {h : Handler} {pass : String}
    {salt : ℕ} {w c : Outcome} (hen : enabled k (.save h pass salt w c) = true)
    (hsp : Spared k s (.save h pass salt w c)) :
    Effect k s (.save h pass salt w c) (s.handle k (.save h pass salt w c)) := by
  simp only [Vault.handle]
  cases hphrase : s.phrase k h with
  | none => exact effect_threw s _
  | some m =>
    obtain ⟨addr, ha⟩ := hk.address_phrase haddr hen hphrase
    show Effect k s _ (saveEncrypted k s m pass salt w c)
    by_cases hlen : utf16Length pass < 8
    · rw [saveEncrypted, if_pos hlen]
      exact effect_threw s _
    · rw [saveEncrypted, if_neg hlen]
      rcases hsp m hphrase (Nat.le_of_not_lt hlen) with ⟨crash, rfl⟩ | ⟨rfl, rfl, hown⟩
      · exact .stopped _ crash
      · simp only [Outcome.stop, ha]
        exact .saved h pass salt .done .done m addr hphrase ha hown

theorem effect_unlock {pass : String} {c : Outcome} (hsp : Spared k s (.unlock pass c)) :
    Effect k s (.unlock pass c) (s.handle k (.unlock pass c)) := by
  simp only [Vault.handle]
  cases hopened : s.opened k pass with
  | none => exact effect_threw s _
  | some ma =>
    obtain ⟨m, a⟩ := ma
    rcases hsp m a hopened with rfl | rfl | ⟨rfl, hsession⟩
    · exact .kept _ _ (fun _ => rfl) rfl (.inr ⟨pass, m, a, hopened, lookup_addressPatch _ _⟩)
    · exact .stopped _ true
    · have hsame : { s with session := some (m, a) } = s := by rw [← hsession]
      simp only [hsame, writeConfig_refused]
      exact .stopped _ false

theorem effect_clear {u : Unlink} {c : Outcome} (hsp : Spared k s (.clear u c)) :
    Effect k s (.clear u c) (s.handle k (.clear u c)) := by
  rcases hsp with rfl | ⟨rfl, hnone⟩
  · exact .stopped _ true
  · cases u with
    | crashed => exact .stopped _ true
    | failed =>
      exact .cleared _ _ _ fun m p hrec => hnone rfl m p ((recoverable_congr rfl).mp hrec)
    | removed => exact .cleared _ _ _ fun m p => not_recoverable rfl

theorem effect_handle (hk : k.Lawful) (haddr : Addressed k s) {a : Action}
    (hen : enabled k a = true) (hsp : Spared k s a) : Effect k s a (s.handle k a) := by
  cases a with
  | save h pass salt w c => exact effect_save hk haddr hen hsp
  | unlock pass c => exact effect_unlock hsp
  | lock => exact .kept _ _ (fun _ => rfl) rfl (.inl rfl)
  | setConfig patch c =>
    rcases hsp with ⟨crash, rfl⟩ | ⟨rfl, hpatch⟩
    · exact .stopped _ crash
    · exact .kept _ _ (fun _ => rfl) rfl (.inl (lookup_mergeConfig patch _ hpatch))
  | clear u c => exact effect_clear hsp

theorem recoverable_stopped (crash : Bool) :
    Recoverable k (s.stopped crash).1 m p ↔ Recoverable k s m p := by
  cases crash <;> exact recoverable_congr rfl

theorem readConfig_stopped (crash : Bool) : (s.stopped crash).1.readConfig = s.readConfig := by
  cases crash <;> rfl

theorem stopped_ne_returned (crash : Bool) : (s.stopped crash).2 ≠ .returned := by
  cases crash <;> exact Result.noConfusion

section Effects

variable {a : Action} (he : Effect k s a (s.handle k a))
include he

theorem Effect.failedLeaves : FailedLeaves k s a := by
  intro hfailed
  generalize hr : s.handle k a = r at he hfailed ⊢
  cases he with
  | stopped a crash =>
    cases crash with
    | false => exact ⟨rfl, rfl, .inl rfl⟩
    | true => exact ⟨rfl, rfl, .inr ⟨rfl, rfl⟩⟩
  | saved | kept | cleared => exact absurd rfl hfailed

theorem Effect.recoverable (hk : k.Lawful) (hrec : Recoverable k s m p)
    (hkeep : ¬ GivesUp k s m a) :
    Recoverable k (s.handle k a).1 m (passphraseAfter k s a (s.handle k a).1 p) := by
  generalize hr : s.handle k a = r at he ⊢
  cases he with
  | stopped a crash =>
    have hpass : passphraseAfter k s a (s.stopped crash).1 p = p := by
      cases a with
      | save h pass salt w c => exact if_neg (by rw [hr]; exact stopped_ne_returned crash)
      | unlock | lock | setConfig | clear => rfl
    rw [hpass]
    exact (recoverable_stopped crash).mpr hrec
  | saved h pass salt w c m' addr hphrase haddr hown =>
    have hreturned : (s.handle k (.save h pass salt w c)).2 = .returned := by rw [hr]
    have hsame : m' = m := by
      cases h with
      | create mnemonic | commit mnemonic => exact (hown rfl m p hrec).symm
      | imports text =>
        by_contra hne
        exact hkeep ⟨hreturned, by rw [hphrase]; exact fun h => hne (Option.some.inj h)⟩
      | upgrade => exact hk.recover_one (p := "") (.inr hphrase) hrec
      | changePassphrase old => exact hk.recover_one (recoverable_phrase hphrase) hrec
    subst hsame
    rw [passphraseAfter, if_pos hreturned]
    exact (recoverable_envelope rfl).mpr (hk.open_seal m' pass salt)
  | kept a s' hsave hwallet haddress =>
    rw [hsave]
    exact (recoverable_congr hwallet).mpr hrec
  | cleared u c s' hgone => exact absurd trivial hkeep

theorem Effect.origin (hk : k.Lawful) (hrec : Recoverable k (s.handle k a).1 m p) :
    Recoverable k s m p ∨ ∃ addr, k.addressOf m = some addr ∧
      (s.handle k a).1.readConfig.lookup "address" = some (.text addr) := by
  generalize hr : s.handle k a = r at he hrec ⊢
  cases he with
  | stopped a crash => exact .inl ((recoverable_stopped crash).mp hrec)
  | saved h pass salt w c m' addr hphrase haddr hown =>
    have hopen := (recoverable_envelope rfl).mp hrec
    have hsame : m' = m := hk.open_one _ pass p m' m (hk.open_seal m' pass salt) hopen
    subst hsame
    exact .inr ⟨addr, haddr, lookup_addressPatch _ _⟩
  | kept a s' hsave hwallet haddress => exact .inl ((recoverable_congr hwallet).mp hrec)
  | cleared u c s' hgone => exact absurd hrec (hgone m p)

theorem Effect.addressed (hk : k.Lawful) (haddr : Addressed k s) :
    Addressed k (s.handle k a).1 := by
  intro m p hrec
  rcases he.origin hk hrec with hbefore | ⟨addr, ha, _⟩
  · exact haddr m p hbefore
  · exact ⟨addr, ha⟩

theorem Effect.consistent (hk : k.Lawful) (hcon : Consistent k s) :
    Consistent k (s.handle k a).1 := by
  intro m p hrec
  rcases he.origin hk hrec with hbefore | hsealed
  · obtain ⟨addr, ha, hcfg⟩ := hcon m p hbefore
    refine ⟨addr, ha, ?_⟩
    generalize hr : s.handle k a = r at he hrec ⊢
    cases he with
    | stopped a crash => rw [readConfig_stopped]; exact hcfg
    | saved h pass salt w c m' addr' hphrase haddr hown =>
      have hopen := (recoverable_envelope rfl).mp hrec
      have hsame : m' = m := hk.open_one _ pass p m' m (hk.open_seal m' pass salt) hopen
      subst hsame
      obtain rfl := Option.some.inj (haddr.symm.trans ha)
      exact lookup_addressPatch _ _
    | kept a s' hsave hwallet haddress =>
      rcases haddress with hsame | ⟨p', m', addr', hopened, hnew⟩
      · exact hsame.trans hcfg
      · -- what is unlocked is the phrase on disk
        obtain ⟨env, henv, hrest⟩ := Option.bind_eq_some_iff.mp hopened
        obtain ⟨m'', hopen, hmap⟩ := Option.bind_eq_some_iff.mp hrest
        obtain ⟨addr'', haddr'', heq⟩ := Option.map_eq_some_iff.mp hmap
        obtain ⟨rfl, rfl⟩ := Prod.mk.inj heq
        have hsame : m'' = m := hk.recover_one (.inl ⟨env, henv, hopen⟩) hbefore
        subst hsame
        rw [hnew, Option.some.inj (haddr''.symm.trans ha)]
    | cleared u c s' hgone => exact absurd hrec (hgone m p)
  · exact hsealed

end Effects

/-! ### Runs -/

theorem step_handle {a : Action} (h : step k s a = some s') :
    enabled k a = true ∧ s' = (s.handle k a).1 := by
  obtain ⟨hen, hs⟩ := Option.ite_none_right_eq_some.mp h
  exact ⟨hen, (Option.some.inj hs).symm⟩

theorem addressed_step (hk : k.Lawful) {a : Action} (hsp : Spared k s a) (haddr : Addressed k s)
    (h : step k s a = some s') : FailedLeaves k s a ∧ Addressed k s' := by
  obtain ⟨hen, rfl⟩ := step_handle h
  have he := effect_handle hk haddr hen hsp
  exact ⟨he.failedLeaves, he.addressed hk haddr⟩

theorem consistent_step (hk : k.Lawful) {a : Action} (hsp : Spared k s a) (hcon : Consistent k s)
    (h : step k s a = some s') : Consistent k s' := by
  obtain ⟨hen, rfl⟩ := step_handle h
  have haddr : Addressed k s := fun m p hrec => (hcon m p hrec).imp fun _ ha => ha.1
  exact (effect_handle hk haddr hen hsp).consistent hk hcon

theorem recoverable_runs (hk : k.Lawful) (as : List Action) (haddr : Addressed k s)
    (hrec : Recoverable k s m p) (hrun : runs (step k) s as = some s')
    (hspared : Along (step k) (Spared k) s as)
    (hkeep : Along (step k) (fun t a => ¬ GivesUp k t m a) s as) :
    Recoverable k s' m (recorded (step k) (passphraseAfter k) s as p) := by
  induction as generalizing s p with
  | nil =>
    obtain rfl := Option.some.inj hrun
    exact hrec
  | cons a as ih =>
    obtain ⟨t, ht, hrest⟩ := runs_cons hrun
    have haddr' : Addressed k t := (addressed_step hk hspared.1 haddr ht).2
    have hnext : recorded (step k) (passphraseAfter k) s (a :: as) p =
        recorded (step k) (passphraseAfter k) t as (passphraseAfter k s a t p) := by
      simp only [recorded, ht]
    rw [hnext]
    obtain ⟨hen, heq⟩ := step_handle ht
    have hone := (effect_handle hk haddr hen hspared.1).recoverable hk hrec hkeep.1
    rw [← heq] at hone
    exact ih haddr' hone hrest (hspared.2 t ht) (hkeep.2 t ht)

/-- In every run of spared actions the phrase stays on the disk, under the passphrase of the
last save that went through; what fails leaves everything; and the configuration keeps naming
the address of the stored phrase. -/
theorem sealed_wallet_kept (hk : k.Lawful) (as : List Action) (s s' : Vault ε)
    (haddr : Addressed k s) (hrun : runs (step k) s as = some s')
    (hspared : Along (step k) (Spared k) s as) :
    (∀ m p, Recoverable k s m p → Along (step k) (fun t a => ¬ GivesUp k t m a) s as →
      Recoverable k s' m (recorded (step k) (passphraseAfter k) s as p)) ∧
    Along (step k) (FailedLeaves k) s as ∧ (Consistent k s → Consistent k s') :=
  ⟨fun _ _ hrec hkeep => recoverable_runs hk as haddr hrec hrun hspared hkeep,
    Along.of_invariant (fun _ _ _ hsp hI h => addressed_step hk hsp hI h) hspared hrun haddr,
    runs_invariant (fun _ _ _ hsp hI h => consistent_step hk hsp hI h) hspared hrun⟩

/-- Sealing in the clear, with one phrase that validates. -/
def plainKeys : Keys (String × String) where
  sealMnemonic m p _ := (m, p)
  openMnemonic env p := if p = env.2 then some env.1 else none
  stringify env := "\x7b\"kvasir\":1,\"ct\":\"" ++ env.1 ++ "\"\x7d"
  isEncryptionAvailable := false
  decryptString _ := none
  validateMnemonic m := m = "legal winner"
  addressOf m := some ("address of " ++ m)
  secretOfJson _ := none
  bs58encode _ := ""
  bs58decode _ := none

theorem lawful_plainKeys : plainKeys.Lawful where
  open_seal m p salt := if_pos rfl
  open_one e p q m m' h h' := by
    obtain ⟨-, hm⟩ := Option.ite_none_right_eq_some.mp h
    obtain ⟨-, hm'⟩ := Option.ite_none_right_eq_some.mp h'
    exact Option.some.inj (hm.symm.trans hm')
  address_valid m _ := ⟨_, rfl⟩

def sealedVault : Vault (String × String) where
  wallet := some (.envelope ("legal winner", "passphrase"))
  config := some (.whole (AList.singleton "address" (.text "address of legal winner")))
  session := none

def reseal (w c : Outcome) : Action :=
  .save (.changePassphrase "passphrase") "new passphrase" 0 w c

theorem sealed_wallet_kept_reseal :
    ∃ s, runs (step plainKeys) sealedVault [.unlock "passphrase" .done, reseal .done .done] = some s ∧
      Recoverable plainKeys s "legal winner" "new passphrase" := by
  obtain ⟨s, hrun, -⟩ := runs_exists (step plainKeys) sealedVault
    [.unlock "passphrase" .done, reseal .done .done] (fun _ => true) (by decide)
  have hspared : Along (step plainKeys) (Spared plainKeys) sealedVault
      [.unlock "passphrase" .done, reseal .done .done] :=
    ⟨fun _ _ _ => .inl rfl, fun _ _ => ⟨fun _ _ _ => .inr ⟨rfl, rfl, fun h => by cases h⟩,
      fun _ _ => trivial⟩⟩
  have hkeep : Along (step plainKeys) (fun t a => ¬ GivesUp plainKeys t "legal winner" a) sealedVault
      [.unlock "passphrase" .done, reseal .done .done] :=
    ⟨fun h => h, fun _ _ => ⟨fun h => h, fun _ _ => trivial⟩⟩
  have hkept := (sealed_wallet_kept lawful_plainKeys _ sealedVault s (fun _ _ _ => ⟨_, rfl⟩) hrun
    hspared).1 "legal winner" "passphrase" (.inl ⟨_, rfl, rfl⟩) hkeep
  exact ⟨s, hrun, hkept⟩

/-- A change of the passphrase that is stopped in the middle of the write: the disk gives no
phrase under any passphrase, and the file is not what it was. -/
theorem sealed_wallet_lost : ∃ s, runs (step plainKeys) sealedVault [reseal (.torn 9 true) .done] = some s ∧
    Recoverable plainKeys sealedVault "legal winner" "passphrase" ∧
    ∀ m p, ¬ Recoverable plainKeys s m p := by
  refine ⟨_, rfl, .inl ⟨_, rfl, rfl⟩, ?_⟩
  rintro m p (⟨env, henv, _⟩ | hup)
  · cases henv
  · cases hup

end KvasirNet.SealedWallet
