import Mathlib.Data.List.Basic

/-! How the wallets send SOL and tokens: a transaction is signed and submitted, and on the
phones signed again with a new blockhash when anything throws. -/
namespace KvasirNet.Sends

variable {α H σ : Type*}

inductive Instruction (α : Type*)
  | transfer (dest : α) (lamports : ℕ)
  | createAssociatedTokenAccount (owner : α)
  | transferChecked (dest : α) (raw : ℕ)
  deriving DecidableEq, Repr

/-- The same instructions with the same blockhash are the same transaction. -/
structure Tx (α H : Type*) where
  instructions : List (Instruction α)
  recentBlockhash : H
  deriving DecidableEq, Repr

/-- An exception, and the signature that its text names. -/
structure Fault (σ : Type*) where
  names : Option σ
  deriving DecidableEq, Repr

/-- What the calls of one attempt come to. `unsent` is no blockhash or no signature. A
transaction that was sent lands or not, whatever `sendTransaction` and the confirmation say. -/
inductive Attempt (H σ : Type*)
  | unsent (e : Fault σ)
  | sent (blockhash : H) (lands : Bool) (reply : Except (Fault σ) σ)
    (confirmed : Except (Fault σ) Unit)

/-- What a send has done when it returns or throws. -/
structure Sent (α H σ : Type*) where
  submitted : List (Tx α H)
  landed : List (Tx α H)
  result : Except (Fault σ) σ

def Sent.failed (e : Fault σ) : Sent α H σ := ⟨[], [], .error e⟩

namespace Attempt

def submits : Attempt H σ → Option H
  | .unsent _ => none
  | .sent h _ _ _ => some h

def lands : Attempt H σ → Option H
  | .sent h true _ _ => some h
  | _ => none

def txs (ixs : List (Instruction α)) (h : Option H) : List (Tx α H) := (h.map (⟨ixs, ·⟩)).toList

end Attempt

/-- Attempts until one returns; `last` is what is thrown after the last of them. -/
def attempts (outcome : Attempt H σ → Except (Fault σ) σ) (ixs : List (Instruction α)) :
    List (Attempt H σ) → Fault σ → Sent α H σ
  | [], last => .failed last
  | a :: as, _ =>
    match outcome a with
    | .ok sig => ⟨Attempt.txs ixs a.submits, Attempt.txs ixs a.lands, .ok sig⟩
    | .error e =>
      let later := attempts outcome ixs as e
      ⟨Attempt.txs ixs a.submits ++ later.submitted, Attempt.txs ixs a.lands ++ later.landed,
        later.result⟩

inductive Client
  | android
  | ios
  | browser
  deriving DecidableEq, Repr

/-- The phones return what `sendTransaction` returns; the confirmation of iOS never throws. -/
def replied : Attempt H σ → Except (Fault σ) σ
  | .unsent e => .error e
  | .sent _ _ reply _ => reply

/-- `confirmTransaction` may throw after `sendRawTransaction` has returned. -/
def confirmed : Attempt H σ → Except (Fault σ) σ
  | .unsent e => .error e
  | .sent _ _ reply confirmed => reply.bind fun sig => confirmed.map fun _ => sig

def Client.outcome : Client → Attempt H σ → Except (Fault σ) σ
  | .android | .ios => replied
  | .browser => confirmed

def Client.tries : Client → ℕ
  | .android | .ios => 4
  | .browser => 1

/-- `submit` of Android, with what is thrown when nothing was. -/
def Android.submit (ixs : List (Instruction α)) (calls : ℕ → Attempt H σ) : Sent α H σ :=
  attempts replied ixs ((List.range 4).map calls) ⟨none⟩

def Ios.signAndSend (ixs : List (Instruction α)) (calls : ℕ → Attempt H σ) : Sent α H σ :=
  attempts replied ixs ((List.range 4).map calls) ⟨none⟩

/-- The end of `sendSol` and `sendToken` in the browser. -/
def Browser.submit (ixs : List (Instruction α)) (calls : ℕ → Attempt H σ) : Sent α H σ :=
  attempts confirmed ixs ((List.range 1).map calls) ⟨none⟩

def Client.submit : Client → List (Instruction α) → (ℕ → Attempt H σ) → Sent α H σ
  | .android => Android.submit
  | .ios => Ios.signAndSend
  | .browser => Browser.submit

/-- What is sent; of a token, also what the look at the recipient's account came to. -/
inductive Transfer (α σ : Type*)
  | sol (dest : α) (lamports : ℕ)
  | token (dest : α) (raw : ℕ) (account : Except (Fault σ) Bool)

def Transfer.instructions : Transfer α σ → Except (Fault σ) (List (Instruction α))
  | .sol dest lamports => .ok [.transfer dest lamports]
  | .token dest raw account => account.map fun found =>
    (if found then [] else [.createAssociatedTokenAccount dest]) ++ [.transferChecked dest raw]

/-- `sendSol` and `sendToken`. -/
def Client.send (c : Client) (t : Transfer α σ) (calls : ℕ → Attempt H σ) : Sent α H σ :=
  match t.instructions with
  | .error e => .failed e
  | .ok ixs => c.submit ixs calls

/-- A payment to the gateway: the transfer, the gateway's answer, and the signature that the
screen still has. -/
structure Paid (α H σ : Type*) where
  sent : Sent α H σ
  result : Except (Fault σ) Unit
  kept : Option σ

def Sent.paid (r : Sent α H σ) (keeps : Bool) (settle : σ → Except (Fault σ) Unit) : Paid α H σ :=
  match r.result with
  | .error e => ⟨r, .error e, none⟩
  | .ok sig => ⟨r, settle sig, if keeps then some sig else none⟩

/-- `topUpCredits`: the signature is a local variable. -/
def Client.topUp (c : Client) (apiKey : Except (Fault σ) Unit) (t : Transfer α σ)
    (calls : ℕ → Attempt H σ) (deposit : σ → Except (Fault σ) Unit) : Paid α H σ :=
  match apiKey with
  | .error e => ⟨.failed e, .error e, none⟩
  | .ok () => (c.send t calls).paid false deposit

/-- Whether the stake screen has the signature in its state (`lastSig`, `lastSignature`). -/
def Client.keeps : Client → Bool
  | .android | .ios => true
  | .browser => false

def Client.stake (c : Client) (t : Transfer α σ) (calls : ℕ → Attempt H σ)
    (settle : σ → Except (Fault σ) Unit) : Paid α H σ :=
  (c.send t calls).paid c.keeps settle

/-! ### What is asked of a send -/

variable (sign : Tx α H → σ)

/-- At most one transfer lands, a signature that is returned is of a transaction that was
submitted, and what is thrown names the transaction that landed, if one has. -/
structure MovesOnce (r : Sent α H σ) : Prop where
  once : ∀ tx ∈ r.landed, ∀ tx' ∈ r.landed, tx = tx'
  own : ∀ sig, r.result = .ok sig → ∃ tx ∈ r.submitted, sig = sign tx
  told : ∀ e, r.result = .error e → ∀ tx ∈ r.landed, e.names = some (sign tx)

/-- When the gateway's call fails, the signature of what has landed is not lost. -/
def Claimable (p : Paid α H σ) : Prop :=
  ∀ sig e, p.sent.result = .ok sig → p.result = .error e → ∀ tx ∈ p.sent.landed,
    p.kept = some (sign tx) ∨ e.names = some (sign tx)

/-- `sendTransaction` returns the signature of the transaction. -/
def Honest (ixs : List (Instruction α)) (a : Attempt H σ) : Prop :=
  ∀ h lands sig answer, a = .sent h lands (.ok sig) answer → sig = sign ⟨ixs, h⟩

/-! ### The attempts that are made -/

variable (outcome : Attempt H σ → Except (Fault σ) σ)

def returns (a : Attempt H σ) : Bool :=
  match outcome a with
  | .ok _ => true
  | .error _ => false

/-- The attempts up to the first that returns. -/
def made : List (Attempt H σ) → List (Attempt H σ)
  | [] => []
  | a :: as => if returns outcome a then [a] else a :: made as

def lastFault : List (Attempt H σ) → Fault σ → Fault σ
  | [], last => last
  | a :: as, last =>
    match outcome a with
    | .ok _ => last
    | .error e => lastFault as e

/-- An attempt whose transaction lands although it throws. -/
def lost (a : Attempt H σ) : Option H := if returns outcome a then none else a.lands

/-- The condition on the calls of a send. An attempt that throws after its transaction has
landed is harmless when every other that lands is the same transaction, and when, if none
returns, the last exception names it. -/
structure Sure (ixs : List (Instruction α)) (as : List (Attempt H σ)) (last : Fault σ) : Prop where
  same : ∀ a ∈ made outcome as, ∀ b ∈ made outcome as, ∀ h h', lost outcome a = some h →
    b.lands = some h' → h = h'
  named : (∀ a ∈ as, ¬ returns outcome a = true) → ∀ a ∈ as, ∀ h, lost outcome a = some h →
    (lastFault outcome as last).names = some (sign ⟨ixs, h⟩)

/-- The condition on the gateway's call. It fails after a transfer has landed only when its
exception names the transfer, or when the screen keeps the signature and it is that one's. -/
def Settled (keeps : Bool) (settle : σ → Except (Fault σ) Unit) (ixs : List (Instruction α))
    (as : List (Attempt H σ)) : Prop :=
  ∀ a ∈ made outcome as, ∀ sig, outcome a = .ok sig → ∀ e, settle sig = .error e →
    ∀ b ∈ made outcome as, ∀ h, b.lands = some h →
      (keeps = true ∧ sig = sign ⟨ixs, h⟩) ∨ e.names = some (sign ⟨ixs, h⟩)

variable {sign} {outcome} {ixs : List (Instruction α)} {as : List (Attempt H σ)} {last : Fault σ}

variable {a : Attempt H σ}

theorem returns_of_ok {sig : σ} (h : outcome a = .ok sig) :
    returns outcome a = true := by
  rw [returns, h]

variable {e : Fault σ}

theorem returns_of_error (h : outcome a = .error e) :
    ¬ returns outcome a = true := by
  rw [returns, h]
  exact Bool.noConfusion

theorem made_of_ok {sig : σ} (h : outcome a = .ok sig) :
    made outcome (a :: as) = [a] := if_pos (returns_of_ok h)

theorem made_of_error (h : outcome a = .error e) :
    made outcome (a :: as) = a :: made outcome as := if_neg (returns_of_error h)

theorem mem_txs {h : Option H} {tx : Tx α H} :
    tx ∈ Attempt.txs ixs h ↔ ∃ b, h = some b ∧ tx = ⟨ixs, b⟩ := by
  cases h with
  | none => simp [Attempt.txs]
  | some b => simp [Attempt.txs]

theorem attempts_sent (outcome : Attempt H σ → Except (Fault σ) σ) (ixs : List (Instruction α))
    (as : List (Attempt H σ)) (last : Fault σ) :
    (attempts outcome ixs as last).submitted =
        (made outcome as).flatMap (fun a => Attempt.txs ixs a.submits) ∧
      (attempts outcome ixs as last).landed =
        (made outcome as).flatMap fun a => Attempt.txs ixs a.lands := by
  induction as generalizing last with
  | nil => exact ⟨rfl, rfl⟩
  | cons a as ih =>
    cases h : outcome a with
    | ok sig =>
      rw [made_of_ok h, List.flatMap_singleton, List.flatMap_singleton]
      simp only [attempts, h, and_self]
    | error e =>
      obtain ⟨hsubmitted, hlanded⟩ := ih e
      rw [made_of_error h, List.flatMap_cons, List.flatMap_cons, ← hsubmitted,
        ← hlanded]
      simp only [attempts, h, and_self]

theorem mem_landed {tx : Tx α H} : tx ∈ (attempts outcome ixs as last).landed ↔
    ∃ a ∈ made outcome as, ∃ h, a.lands = some h ∧ tx = ⟨ixs, h⟩ := by
  rw [(attempts_sent outcome ixs as last).2, List.mem_flatMap]
  simp only [mem_txs]

theorem attempts_ok {sig : σ} : (attempts outcome ixs as last).result = .ok sig ↔
    ∃ a ∈ made outcome as, outcome a = .ok sig := by
  induction as generalizing last with
  | nil => simp [attempts, made, Sent.failed]
  | cons a as ih =>
    cases h : outcome a with
    | ok sig' => simp [attempts, made_of_ok h, h]
    | error e => simp [attempts, made_of_error h, h, ih]

theorem attempts_error : (attempts outcome ixs as last).result = .error e ↔
    (∀ a ∈ as, ¬ returns outcome a = true) ∧ lastFault outcome as last = e := by
  induction as generalizing last with
  | nil => simp [attempts, lastFault, Sent.failed]
  | cons a as ih =>
    cases h : outcome a with
    | ok sig => simp [attempts, h, returns_of_ok h]
    | error e' => simp [attempts, lastFault, h, returns_of_error h, ih]

theorem made_eq (h : ∀ a ∈ as, ¬ returns outcome a = true) : made outcome as = as := by
  induction as with
  | nil => rfl
  | cons a as ih =>
    rw [made, if_neg (h a List.mem_cons_self), ih fun b hb => h b (List.mem_cons_of_mem a hb)]

theorem made_unique {b : Attempt H σ} (ha : a ∈ made outcome as) (hb : b ∈ made outcome as)
    (hoka : returns outcome a = true) (hokb : returns outcome b = true) : a = b := by
  induction as with
  | nil => cases ha
  | cons c as ih =>
    rw [made] at ha hb
    split_ifs at ha hb with hc
    · rw [List.mem_singleton.mp ha, List.mem_singleton.mp hb]
    · have hne : ∀ x, returns outcome x = true → x ≠ c := by
        rintro x hx rfl
        exact hc hx
      have ha := (List.mem_cons.mp ha).resolve_left (hne a hoka)
      have hb := (List.mem_cons.mp hb).resolve_left (hne b hokb)
      exact ih ha hb

theorem lost_of_lands {h : H} (hlands : a.lands = some h)
    (hok : ¬ returns outcome a = true) : lost outcome a = some h := by
  rw [lost, if_neg hok, hlands]

theorem lands_of_lost {h : H} (hlost : lost outcome a = some h) :
    a.lands = some h ∧ ¬ returns outcome a = true := by
  unfold lost at hlost
  split_ifs at hlost with hok
  exact ⟨hlost, hok⟩

/-- An attempt whose outcome is a signature has submitted its transaction. -/
def Answers (outcome : Attempt H σ → Except (Fault σ) σ) : Prop :=
  ∀ a sig, outcome a = .ok sig → ∃ h lands answer, a = .sent h lands (.ok sig) answer

theorem mem_of_made (h : a ∈ made outcome as) : a ∈ as := by
  induction as with
  | nil => cases h
  | cons b as ih =>
    rw [made] at h
    split_ifs at h
    · rw [List.mem_singleton.mp h]
      exact List.mem_cons_self
    · rcases List.mem_cons.mp h with rfl | h
      · exact List.mem_cons_self
      · exact List.mem_cons_of_mem b (ih h)

theorem answers_outcome (c : Client) : Answers (c.outcome : Attempt H σ → Except (Fault σ) σ) := by
  intro a sig h
  cases a with
  | unsent e => cases c <;> cases h
  | sent hash lands reply answer =>
    cases reply with
    | error e => cases c <;> cases h
    | ok sig' =>
      cases c with
      | android | ios =>
        obtain rfl := Except.ok.inj h
        exact ⟨hash, lands, answer, rfl⟩
      | browser =>
        cases answer with
        | error e => cases h
        | ok u =>
          obtain rfl := Except.ok.inj h
          exact ⟨hash, lands, .ok u, rfl⟩

theorem MovesOnce.sure (h : MovesOnce sign (attempts outcome ixs as last)) :
    Sure sign outcome ixs as last where
  same a ha b hb hash hash' hlost hlands := by
    have hmem : (⟨ixs, hash⟩ : Tx α H) ∈ (attempts outcome ixs as last).landed :=
      mem_landed.mpr ⟨a, ha, hash, (lands_of_lost hlost).1, rfl⟩
    have hmem' : (⟨ixs, hash'⟩ : Tx α H) ∈ (attempts outcome ixs as last).landed :=
      mem_landed.mpr ⟨b, hb, hash', hlands, rfl⟩
    exact (Tx.mk.inj (h.once _ hmem _ hmem')).2
  named hall a ha hash hlost := by
    have hresult : (attempts outcome ixs as last).result = .error (lastFault outcome as last) :=
      attempts_error.mpr ⟨hall, rfl⟩
    have hmade : a ∈ made outcome as := by rwa [made_eq hall]
    exact h.told _ hresult _ (mem_landed.mpr ⟨a, hmade, hash, (lands_of_lost hlost).1, rfl⟩)

theorem Sure.movesOnce (h : Sure sign outcome ixs as last) (hanswers : Answers outcome)
    (hhonest : ∀ a ∈ as, Honest sign ixs a) : MovesOnce sign (attempts outcome ixs as last) where
  once tx htx tx' htx' := by
    obtain ⟨a, ha, hash, hlands, rfl⟩ := mem_landed.mp htx
    obtain ⟨b, hb, hash', hlands', rfl⟩ := mem_landed.mp htx'
    -- only the last attempt made may have returned; any other that lands is lost
    by_cases hra : returns outcome a = true
    · by_cases hrb : returns outcome b = true
      · obtain rfl := made_unique ha hb hra hrb
        rw [Option.some.inj (hlands.symm.trans hlands')]
      · rw [h.same b hb a ha hash' hash (lost_of_lands hlands' hrb) hlands]
    · rw [h.same a ha b hb hash hash' (lost_of_lands hlands hra) hlands']
  own sig hsig := by
    obtain ⟨a, ha, hok⟩ := attempts_ok.mp hsig
    obtain ⟨hash, lands, answer, rfl⟩ := hanswers a sig hok
    refine ⟨⟨ixs, hash⟩, ?_, hhonest _ (mem_of_made ha) hash lands sig answer rfl⟩
    rw [(attempts_sent outcome ixs as last).1, List.mem_flatMap]
    exact ⟨_, ha, List.mem_singleton_self _⟩
  told e he tx htx := by
    obtain ⟨hall, rfl⟩ := attempts_error.mp he
    obtain ⟨a, ha, hash, hlands, rfl⟩ := mem_landed.mp htx
    have ha := mem_of_made ha
    exact h.named hall a ha hash (lost_of_lands hlands (hall a ha))

theorem paid_sent (r : Sent α H σ) (keeps : Bool) (settle : σ → Except (Fault σ) Unit) :
    (r.paid keeps settle).sent = r := by
  unfold Sent.paid
  split <;> rfl

theorem paid_of_ok {r : Sent α H σ} {sig : σ} (h : r.result = .ok sig) {keeps : Bool}
    {settle : σ → Except (Fault σ) Unit} :
    r.paid keeps settle = ⟨r, settle sig, if keeps then some sig else none⟩ := by
  unfold Sent.paid
  rw [h]

theorem paid_claimable (keeps : Bool) (settle : σ → Except (Fault σ) Unit) :
    Claimable sign ((attempts outcome ixs as last).paid keeps settle) ↔
      Settled sign outcome keeps settle ixs as := by
  constructor
  · intro h a ha sig hsig e he b hb hash hlands
    have hresult : (attempts outcome ixs as last).result = .ok sig := attempts_ok.mpr ⟨a, ha, hsig⟩
    rw [paid_of_ok hresult] at h
    rcases h sig e hresult he _ (mem_landed.mpr ⟨b, hb, hash, hlands, rfl⟩) with hkept | hnamed
    · left
      cases keeps with
      | false => cases hkept
      | true => exact ⟨rfl, Option.some.inj hkept⟩
    · exact .inr hnamed
  · intro h sig e hresult he tx htx
    rw [paid_sent] at hresult htx
    rw [paid_of_ok hresult] at he ⊢
    obtain ⟨a, ha, hsig⟩ := attempts_ok.mp hresult
    obtain ⟨b, hb, hash, hlands, rfl⟩ := mem_landed.mp htx
    rcases h a ha sig hsig e he b hb hash hlands with ⟨hkeeps, hsame⟩ | hnamed
    · left
      show (if keeps then some sig else none) = _
      rw [if_pos hkeeps, hsame]
    · exact .inr hnamed

theorem claimable_failed {p : Paid α H σ} (h : p.sent.result = .error e) :
    Claimable sign p := by
  intro sig e' hsig
  rw [h] at hsig
  cases hsig

/-! ### The three wallets -/

def Client.calls (c : Client) (calls : ℕ → Attempt H σ) : List (Attempt H σ) :=
  (List.range c.tries).map calls

theorem submit_eq (c : Client) (ixs : List (Instruction α)) (calls : ℕ → Attempt H σ) :
    c.submit ixs calls = attempts c.outcome ixs (c.calls calls) ⟨none⟩ := by
  cases c <;> rfl

theorem send_of_ok {c : Client} {t : Transfer α σ} {calls : ℕ → Attempt H σ}
    (h : t.instructions = .ok ixs) :
    c.send t calls = attempts c.outcome ixs (c.calls calls) ⟨none⟩ := by
  rw [Client.send, h, ← submit_eq]

theorem send_of_error {c : Client} {t : Transfer α σ} {calls : ℕ → Attempt H σ}
    (h : t.instructions = .error e) : c.send t calls = .failed e := by
  rw [Client.send, h]

theorem send_claimable (c : Client) (t : Transfer α σ) (calls : ℕ → Attempt H σ) (keeps : Bool)
    (settle : σ → Except (Fault σ) Unit) :
    Claimable sign ((c.send t calls).paid keeps settle) ↔
      ∀ ixs, t.instructions = .ok ixs → Settled sign c.outcome keeps settle ixs (c.calls calls) := by
  cases ht : t.instructions with
  | error e =>
    have hfailed : ((c.send t calls).paid keeps settle).sent.result = .error e := by
      rw [paid_sent, send_of_error ht]
      rfl
    exact ⟨fun _ ixs h => (by cases h), fun _ => claimable_failed hfailed⟩
  | ok ixs =>
    rw [send_of_ok ht, paid_claimable]
    constructor
    · rintro h ixs' hixs
      obtain rfl := Except.ok.inj hixs
      exact h
    · intro h
      exact h ixs rfl

/-- A send moves the money once when no attempt throws after its transaction has landed, or
when such an attempt does no harm; a payment can be claimed when the gateway's call does not
fail after the transfer has landed, or when its signature is still known. -/
theorem send_moves_once (sign : Tx α H → σ) (c : Client) (t : Transfer α σ)
    (calls : ℕ → Attempt H σ) (apiKey : Except (Fault σ) Unit) (settle : σ → Except (Fault σ) Unit)
    (hhonest : ∀ ixs, t.instructions = .ok ixs → ∀ i, Honest sign ixs (calls i)) :
    (MovesOnce sign (c.send t calls) ↔
      ∀ ixs, t.instructions = .ok ixs → Sure sign c.outcome ixs (c.calls calls) ⟨none⟩) ∧
    (Claimable sign (c.topUp apiKey t calls settle) ↔ (apiKey = .ok () →
      ∀ ixs, t.instructions = .ok ixs → Settled sign c.outcome false settle ixs (c.calls calls))) ∧
    (Claimable sign (c.stake t calls settle) ↔
      ∀ ixs, t.instructions = .ok ixs → Settled sign c.outcome c.keeps settle ixs (c.calls calls)) := by
  refine ⟨?_, ?_, send_claimable c t calls c.keeps settle⟩
  · cases ht : t.instructions with
    | error e =>
      rw [send_of_error ht]
      refine ⟨fun _ ixs h => (by cases h), fun _ => ⟨?_, ?_, ?_⟩⟩
      · intro tx htx
        cases htx
      · intro sig hsig
        cases hsig
      · intro e' _ tx htx
        cases htx
    | ok ixs =>
      rw [send_of_ok ht]
      have hcalls : ∀ a ∈ c.calls calls, Honest sign ixs a := by
        intro a ha
        obtain ⟨i, -, rfl⟩ := List.mem_map.mp ha
        exact hhonest ixs ht i
      constructor
      · rintro h ixs' hixs
        obtain rfl := Except.ok.inj hixs
        exact h.sure
      · intro h
        exact (h ixs rfl).movesOnce (answers_outcome c) hcalls
  · cases apiKey with
    | error e =>
      have hfailed : (c.topUp (.error e) t calls settle).sent.result = .error e := rfl
      exact ⟨fun _ h => (by cases h), fun _ => claimable_failed hfailed⟩
    | ok u =>
      have htopUp : c.topUp (.ok u) t calls settle = (c.send t calls).paid false settle := rfl
      rw [htopUp, send_claimable]
      exact ⟨fun h _ => h, fun h => h rfl⟩

/-- The first blockhash is not found, the second transaction is sent. -/
def secondSends (i : ℕ) : Attempt ℕ ℕ :=
  if i = 0 then .unsent ⟨none⟩ else .sent i true (.ok i) (.ok ())

theorem send_moves_once_second : MovesOnce (fun tx => tx.recentBlockhash)
      (Client.android.send (.sol "vault" 5) secondSends) ∧
    Claimable (fun tx => tx.recentBlockhash)
      (Client.android.topUp (.ok ()) (.sol "vault" 5) secondSends fun _ => .ok ()) := by
  have hhonest : ∀ ixs : List (Instruction String),
      Transfer.instructions (.sol "vault" 5 : Transfer String ℕ) = .ok ixs →
      ∀ i, Honest (fun tx => tx.recentBlockhash) ixs (secondSends i) := by
    intro ixs _ i h lands sig answer heq
    unfold secondSends at heq
    split_ifs at heq
    cases heq
    rfl
  have hlost : ∀ a ∈ made replied (Client.android.calls secondSends), lost replied a = none := by
    intro a ha
    have hmade : made replied (Client.android.calls secondSends) =
      [.unsent ⟨none⟩, .sent 1 true (.ok 1) (.ok ())] := rfl
    rw [hmade] at ha
    rcases List.mem_pair.mp ha with rfl | rfl <;> rfl
  obtain ⟨honce, htopUp, -⟩ := send_moves_once (fun tx => tx.recentBlockhash) .android
    (.sol "vault" 5) secondSends (.ok ()) (fun _ => .ok ()) hhonest
  refine ⟨honce.mpr fun ixs _ => ⟨?_, ?_⟩, htopUp.mpr fun _ ixs _ => ?_⟩
  · intro a ha b _ h h' hl
    rw [show Client.android.outcome = replied from rfl] at ha hl
    rw [hlost a ha] at hl
    cases hl
  · intro hall
    exact absurd rfl (hall (secondSends 1) (List.mem_map.mpr ⟨1, by decide, rfl⟩))
  · intro a _ sig _ e he
    cases he

/-- Every send times out after the network has taken the transaction. -/
def timesOut (i : ℕ) : Attempt ℕ ℕ := .sent i true (.error ⟨none⟩) (.ok ())

/-- One `sendSol` moves the money four times and throws; and a top-up whose deposit call fails
leaves nobody with the signature. -/
theorem send_moves_four_times :
    (Client.android.send (.sol "vault" 5) timesOut).landed =
        [0, 1, 2, 3].map (fun h => ⟨[.transfer "vault" 5], h⟩) ∧
      ¬ MovesOnce (fun tx => tx.recentBlockhash)
        (Client.android.send (.sol "vault" 5) timesOut) ∧
      ¬ Claimable (fun tx => tx.recentBlockhash)
        (Client.android.topUp (.ok ()) (.sol "vault" 5) secondSends fun _ => .error ⟨none⟩) := by
  refine ⟨rfl, fun h => ?_, fun h => ?_⟩
  · have hsame := h.once ⟨[.transfer "vault" 5], 0⟩ (List.mem_cons_self)
      ⟨[.transfer "vault" 5], 1⟩ (List.mem_cons_of_mem _ List.mem_cons_self)
    cases hsame
  · rcases h 1 ⟨none⟩ rfl rfl ⟨[.transfer "vault" 5], 1⟩ List.mem_cons_self with hkept | hnamed
    · cases hkept
    · cases hnamed

end KvasirNet.Sends
