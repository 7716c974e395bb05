import KvasirNet.GatewayConfig
import KvasirNet.MarketTokens
import Mathlib.Logic.Equiv.List

/-! The admin session of a gateway and the token between its two factors: one key signs both, and
only the way their text is taken apart tells them from each other. -/
namespace KvasirNet.Gateway

open Market (Hmac)

/-- The key and the allowlist of `KVR_SESSION_SECRET` and `KVR_ADMIN_WALLETS`. -/
structure AdminAuth where
  secret : String
  adminWallets : List Wallet

namespace AdminAuth
variable (hmac : Hmac) (auth : AdminAuth)

/-- The second at which a token made now runs out. -/
def expiry (nowMs : ℕ) (ttlSec : ℤ) : ℤ := (nowMs / 1000 : ℕ) + ttlSec

def sealed (payload : String) : String :=
  base64url (utf8 (payload ++ "|" ++ hmac.sha256 auth.secret payload))

def makeSession (wallet : Wallet) (ttlSec : ℤ) (nowMs : ℕ) : String :=
  auth.sealed hmac (wallet ++ "|" ++ toString (expiry nowMs ttlSec))

def makeToken (wallet : Wallet) (scope : String) (ttlSec : ℤ) (nowMs : ℕ) : String :=
  auth.sealed hmac (scope ++ "|" ++ wallet ++ "|" ++ toString (expiry nowMs ttlSec))

/-- `Number(exp) < Math.floor(Date.now() / 1000)`; nothing is less than a time when it is no
number. -/
def expired (nowMs : ℕ) (exp : String) : Bool :=
  match jsNumber exp with
  | some x => decide (x < (nowMs / 1000 : ℕ))
  | none => trimBlanks exp.toList == "-Infinity".toList

/-- The wallet is all text up to the last but one bar. -/
def verifySession (nowMs : ℕ) (token : String) : Option Wallet :=
  let raw := (ofUtf8 (ofBase64url token)).toList
  let i2 := lastIndexOf '|' raw
  let i1 := lastIndexFrom '|' raw (i2 - 1)
  let wallet := String.ofList (slice raw 0 i1)
  let exp := String.ofList (slice raw (i1 + 1) i2)
  let sig := String.ofList (slice raw (i2 + 1) raw.length)
  if hmac.sha256 auth.secret (wallet ++ "|" ++ exp) ≠ sig then none
  else if expired nowMs exp then none
  else some wallet

def verifyToken (nowMs : ℕ) (token scope : String) : Option Wallet :=
  match splitFields '|' (ofUtf8 (ofBase64url token)) with
  | [sc, wallet, exp, sig] =>
    if sc ≠ scope then none
    else if hmac.sha256 auth.secret (sc ++ "|" ++ wallet ++ "|" ++ exp) ≠ sig then none
    else if expired nowMs exp then none
    else some wallet
  | _ => none

def isAdmin (wallet : Wallet) : Bool :=
  decide (String.ofList (trimBlanks wallet.toList) ∈ auth.adminWallets)

/-- The admin that the session cookie of a request speaks for. -/
def adminWallet (nowMs : ℕ) (cookie : String) : Option Wallet :=
  (if cookie = "" then none else auth.verifySession hmac nowMs cookie).filter fun w =>
    w != "" && auth.isAdmin w

/-! ### Reading a signed text -/

variable {hmac : Hmac} {auth : AdminAuth}

theorem expired_toString (nowMs : ℕ) (exp : ℤ) :
    expired nowMs (toString exp) = decide (exp < (nowMs / 1000 : ℕ)) := by
  unfold expired
  rw [jsNumber_toString]
  have hcast : ((exp : ℚ) < ((nowMs / 1000 : ℕ) : ℚ)) ↔ exp < ((nowMs / 1000 : ℕ) : ℤ) := by
    rw [← Int.cast_natCast, Int.cast_lt]
  exact decide_eq_decide.mpr hcast

theorem decoded_sealed (payload : String) :
    ofUtf8 (ofBase64url (auth.sealed hmac payload)) =
      payload ++ "|" ++ hmac.sha256 auth.secret payload := by
  rw [sealed, ofBase64url_base64url, ofUtf8_utf8]

theorem verifySession_sealed (body : String) (exp : ℤ) (nowMs : ℕ) :
    auth.verifySession hmac nowMs (auth.sealed hmac (body ++ "|" ++ toString exp)) =
      if (nowMs / 1000 : ℕ) ≤ exp then some body else none := by
  unfold verifySession
  rw [decoded_sealed]
  generalize hmacEq : hmac.sha256 auth.secret (body ++ "|" ++ toString exp) = mac
  have hbars : '|' ∉ mac.toList := hmacEq ▸ Market.hmac_chars hmac _ _
  have hlist : (body ++ "|" ++ toString exp ++ "|" ++ mac).toList =
      body.toList ++ '|' :: ((toString exp).toList ++ '|' :: mac.toList) := by
    simp [String.toList_append]
  obtain ⟨hwallet, hexp, hsig⟩ :=
    slice_lastTwo body.toList (Market.toString_int_chars exp) hbars
  rw [← hlist] at hwallet hexp hsig
  dsimp only
  rw [hwallet, hexp, hsig, String.ofList_toList, String.ofList_toList, String.ofList_toList,
    hmacEq, if_neg (not_not.mpr rfl), expired_toString]
  by_cases hlive : ((nowMs / 1000 : ℕ) : ℤ) ≤ exp
  · rw [if_pos hlive, decide_eq_false (not_lt.mpr hlive)]
    rfl
  · rw [if_neg hlive, decide_eq_true (not_le.mp hlive)]
    rfl

theorem splitFields_sealed (body : String) (exp : ℤ) :
    splitFields '|' (ofUtf8 (ofBase64url (auth.sealed hmac (body ++ "|" ++ toString exp)))) =
      splitFields '|' body ++ [toString exp, hmac.sha256 auth.secret (body ++ "|" ++ toString exp)] := by
  have hmac_field : splitFields '|' (hmac.sha256 auth.secret (body ++ "|" ++ toString exp)) =
      [hmac.sha256 auth.secret (body ++ "|" ++ toString exp)] :=
    splitFields_of_notMem (Market.hmac_chars hmac _ _)
  have hexp_field : splitFields '|' (toString exp) = [toString exp] :=
    splitFields_of_notMem (Market.toString_int_chars exp)
  have hbar : "|" = String.singleton '|' := rfl
  rw [decoded_sealed]
  generalize hmac.sha256 auth.secret (body ++ "|" ++ toString exp) = mac at hmac_field ⊢
  rw [hbar, splitFields_append, splitFields_append, hmac_field, hexp_field, List.append_assoc]
  rfl

theorem length_splitFields_bar {text : String} (h : '|' ∈ text.toList) :
    2 ≤ (splitFields '|' text).length := by
  unfold splitFields
  rw [List.length_map]
  exact length_splitOn_of_mem h

theorem verifyToken_length {nowMs : ℕ} {token scope : String}
    (h : (splitFields '|' (ofUtf8 (ofBase64url token))).length ≠ 4) :
    auth.verifyToken hmac nowMs token scope = none := by
  unfold verifyToken
  split
  · rename_i hfields
    rw [hfields] at h
    exact absurd rfl h
  · rfl

/-! ### Sessions and tokens -/

theorem verifySession_makeSession (wallet : Wallet) (ttlSec : ℤ) (madeMs nowMs : ℕ) :
    auth.verifySession hmac nowMs (auth.makeSession hmac wallet ttlSec madeMs) =
      if (nowMs / 1000 : ℕ) ≤ expiry madeMs ttlSec then some wallet else none :=
  verifySession_sealed wallet _ nowMs

theorem verifySession_makeToken (wallet : Wallet) (scope : String) (ttlSec : ℤ)
    (madeMs nowMs : ℕ) :
    auth.verifySession hmac nowMs (auth.makeToken hmac wallet scope ttlSec madeMs) =
      if (nowMs / 1000 : ℕ) ≤ expiry madeMs ttlSec then some (scope ++ "|" ++ wallet) else none :=
  verifySession_sealed (scope ++ "|" ++ wallet) _ nowMs

theorem verifyToken_makeSession {wallet : Wallet} (hwallet : '|' ∉ wallet.toList) (scope : String)
    (ttlSec : ℤ) (madeMs nowMs : ℕ) :
    auth.verifyToken hmac nowMs (auth.makeSession hmac wallet ttlSec madeMs) scope = none := by
  apply verifyToken_length
  rw [makeSession, splitFields_sealed, splitFields_of_notMem hwallet]
  exact (by decide : (3 : ℕ) ≠ 4)

theorem verifyToken_makeToken {wallet : Wallet} (hwallet : '|' ∉ wallet.toList)
    (scope asked : String) (ttlSec : ℤ) (madeMs nowMs : ℕ) :
    auth.verifyToken hmac nowMs (auth.makeToken hmac wallet scope ttlSec madeMs) asked =
      if asked = scope ∧ '|' ∉ scope.toList ∧ (nowMs / 1000 : ℕ) ≤ expiry madeMs ttlSec then
        some wallet
      else none := by
  have hbar : "|" = String.singleton '|' := rfl
  have hbody : splitFields '|' (scope ++ "|" ++ wallet) = splitFields '|' scope ++ [wallet] := by
    rw [hbar, splitFields_append, splitFields_of_notMem hwallet]
  have hfields := @splitFields_sealed hmac auth (scope ++ "|" ++ wallet) (expiry madeMs ttlSec)
  rw [hbody] at hfields
  by_cases hscope : '|' ∈ scope.toList
  · -- one part too many
    rw [if_neg fun h => h.2.1 hscope]
    apply verifyToken_length
    have hlen := length_splitFields_bar hscope
    rw [makeToken, hfields, List.length_append, List.length_append]
    simp only [List.length_cons, List.length_nil]
    omega
  · rw [splitFields_of_notMem hscope] at hfields
    unfold verifyToken
    rw [makeToken, hfields]
    simp only [List.cons_append, List.nil_append, hscope, not_false_eq_true, true_and,
      expired_toString, ne_eq]
    generalize nowMs / 1000 = second
    by_cases hasked : asked = scope
    · rw [if_neg fun h => h hasked.symm, if_neg (not_not.mpr trivial)]
      by_cases hlive : (second : ℤ) ≤ expiry madeMs ttlSec
      · rw [decide_eq_false (not_lt.mpr hlive), if_neg Bool.false_ne_true, if_pos ⟨hasked, hlive⟩]
      · rw [decide_eq_true (not_le.mp hlive), if_pos rfl, if_neg fun h => hlive h.2]
    · rw [if_pos (Ne.symm hasked), if_neg fun h => hasked h.1]

theorem mem_dropWhile {p : Char → Bool} {c : Char} {cs : List Char} (hc : c ∈ cs)
    (hp : p c = false) : c ∈ cs.dropWhile p := by
  rw [← List.takeWhile_append_dropWhile (p := p) (l := cs), List.mem_append] at hc
  refine hc.resolve_left fun htake => ?_
  rw [List.mem_takeWhile_imp htake] at hp
  cases hp

theorem isAdmin_bar (hadmins : ∀ a ∈ auth.adminWallets, '|' ∉ a.toList) {wallet : Wallet}
    (hbar : '|' ∈ wallet.toList) : auth.isAdmin wallet = false := by
  unfold isAdmin
  rw [decide_eq_false_iff_not]
  intro hmem
  refine hadmins _ hmem ?_
  rw [String.toList_ofList]
  unfold trimBlanks
  have hblank : isBlank '|' = false := by decide
  have hfront := mem_dropWhile hbar hblank
  exact List.mem_reverse.mpr (mem_dropWhile (List.mem_reverse.mpr hfront) hblank)

theorem adminWallet_makeToken (hadmins : ∀ a ∈ auth.adminWallets, '|' ∉ a.toList)
    (wallet : Wallet) (scope : String) (ttlSec : ℤ) (madeMs nowMs : ℕ) :
    auth.adminWallet hmac nowMs (auth.makeToken hmac wallet scope ttlSec madeMs) = none := by
  have hbar : '|' ∈ (scope ++ "|" ++ wallet).toList := by
    simp [String.toList_append]
  unfold adminWallet
  rw [verifySession_makeToken]
  split_ifs
  · rfl
  · rw [Option.filter_some, isAdmin_bar hadmins hbar, Bool.and_false]
    rfl
  · rfl

/-- Sessions and tokens of admin wallets are taken for what they are until they run out, and for
nothing else: a token not for a session, nor under another scope, and a session not for a token. -/
theorem sessions_tokens_apart (hmac : Hmac) (auth : AdminAuth)
    (hadmins : ∀ a ∈ auth.adminWallets, '|' ∉ a.toList) {wallet : Wallet}
    (hwallet : wallet ∈ auth.adminWallets) (scope asked : String) (ttlSec : ℤ)
    (madeMs nowMs : ℕ) :
    auth.verifySession hmac nowMs (auth.makeSession hmac wallet ttlSec madeMs) =
        (if (nowMs / 1000 : ℕ) ≤ expiry madeMs ttlSec then some wallet else none) ∧
      auth.verifyToken hmac nowMs (auth.makeToken hmac wallet scope ttlSec madeMs) scope =
        (if '|' ∉ scope.toList ∧ (nowMs / 1000 : ℕ) ≤ expiry madeMs ttlSec then some wallet
          else none) ∧
      (∀ anyWallet, auth.adminWallet hmac nowMs
        (auth.makeToken hmac anyWallet scope ttlSec madeMs) = none) ∧
      auth.verifyToken hmac nowMs (auth.makeSession hmac wallet ttlSec madeMs) asked = none ∧
      (asked ≠ scope →
        auth.verifyToken hmac nowMs (auth.makeToken hmac wallet scope ttlSec madeMs) asked =
          none) := by
  have hbar : '|' ∉ wallet.toList := hadmins wallet hwallet
  refine ⟨verifySession_makeSession wallet ttlSec madeMs nowMs, ?_,
    fun anyWallet => adminWallet_makeToken hadmins anyWallet scope ttlSec madeMs nowMs,
    verifyToken_makeSession hbar asked ttlSec madeMs nowMs, fun hasked => ?_⟩
  · rw [verifyToken_makeToken hbar]
    simp only [true_and]
  · rw [verifyToken_makeToken hbar, if_neg fun h => hasked h.1]

/-! ### A keyed function without collisions -/

def textCode (text : String) : ℕ := Encodable.encode ((utf8 text).map UInt8.toNat)

/-- The key and the text as one decimal number. -/
def numberedHmac : Hmac where
  sha256 key text := toString (Nat.pair (textCode key) (textCode text))
  hex key text c hc := by
    have htext : (toString (Nat.pair (textCode key) (textCode text))).toList =
        Nat.toDigits 10 (Nat.pair (textCode key) (textCode text)) := Nat.toList_repr
    rw [htext] at hc
    exact Or.inl (Nat.isDigit_of_mem_toDigits (by decide) (by decide) hc)

def oneAdmin : AdminAuth := ⟨"s3cret", [Market.sampleWallet]⟩

theorem oneAdmin_plain : ∀ a ∈ oneAdmin.adminWallets, '|' ∉ a.toList := by
  decide

theorem sessions_tokens_apart_admin :
    oneAdmin.verifyToken numberedHmac 1700000000000
        (oneAdmin.makeToken numberedHmac Market.sampleWallet "pre2fa" 300 1700000000000) "pre2fa" =
      some Market.sampleWallet :=
  (sessions_tokens_apart numberedHmac oneAdmin oneAdmin_plain List.mem_cons_self "pre2fa" "pre2fa" 300
    1700000000000 1700000000000).2.1.trans (if_pos (by decide))

/-- A token whose scope has a bar has five parts, and is refused under its own scope. -/
theorem barred_scope_refused :
    (1700000000000 / 1000 : ℕ) ≤ expiry 1700000000000 300 ∧
      oneAdmin.verifyToken numberedHmac 1700000000000
        (oneAdmin.makeToken numberedHmac Market.sampleWallet "a|b" 300 1700000000000) "a|b" =
      none := by
  refine ⟨by decide, ?_⟩
  have hwallet : '|' ∉ Market.sampleWallet.toList := by decide
  rw [verifyToken_makeToken hwallet]
  exact if_neg fun h => h.2.1 (by decide)

end AdminAuth
end KvasirNet.Gateway
