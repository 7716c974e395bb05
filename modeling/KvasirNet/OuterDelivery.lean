import KvasirNet.OuterFraming

/-! Hop delivery. The abstract side is a ledger of the peer's frames: which
attempts were taken in, under which digest, and which of them the peer has
acknowledged. The client's `received` table is the ledger's open part. -/
namespace KvasirNet.Wire

/-- The attempts that reached `_deliver`, in order. -/
def deliveries (log : List Output) : List ℕ :=
  log.filterMap fun
    | .deliver via _ _ => via
    | _ => none

/-- What the peer's frames say, without looking at the client. -/
structure Ledger where
  peer : Option (String × ℕ)
  taken : List (ℕ × Bytes)
  acked : List ℕ

namespace Ledger

def empty : Ledger := ⟨none, [], []⟩

def attempts (L : Ledger) : List ℕ := L.taken.map Prod.fst

def Open (L : Ledger) (attempt : ℕ) (digest : Bytes) : Prop :=
  (attempt, digest) ∈ L.taken ∧ attempt ∉ L.acked

def step (generation : ℕ) (L : Ledger) : Hop → Ledger
  | .helloAck acceptedGeneration senderId peerGeneration _ _ =>
    if acceptedGeneration = generation then { L with peer := some (senderId, peerGeneration) } else L
  | .data attempt digest _ =>
    if attempt ∈ L.attempts then L else { L with taken := L.taken ++ [(attempt, digest)] }
  | .receiptAck senderId peerGeneration attempt digest =>
    if L.peer = some (senderId, peerGeneration) ∧ (attempt, digest) ∈ L.taken then
      { L with acked := attempt :: L.acked }
    else L
  | _ => L

/-- The peer sends no Data frame for an attempt it has acknowledged. -/
def Allows (L : Ledger) : Hop → Prop
  | .data attempt _ _ => attempt ∉ L.acked
  | _ => True

end Ledger

inductive HopAction
  | frame (hop : Hop)
  /-- Something on our side of the connection, other than `_onData`. -/
  | act (a : ClientAction)

def Ledger.after (generation : ℕ) : Ledger → List HopAction → Ledger
  | L, [] => L
  | L, .frame hop :: as => Ledger.after generation (L.step generation hop) as
  | L, .act _ :: as => Ledger.after generation L as

/-- Every frame of the sequence is one the peer may send. -/
def PeerOrder (generation : ℕ) : Ledger → List HopAction → Prop
  | _, [] => True
  | L, .frame hop :: as => L.Allows hop ∧ PeerOrder generation (L.step generation hop) as
  | L, .act _ :: as => PeerOrder generation L as

section
variable {σ : Type} (H : Handlers σ) (sha256 : Bytes → Bytes)

open OuterClient

def hopStep (c : OuterClient σ) : HopAction → Option (OuterClient σ)
  | .frame hop => some (settle H (c.onHop H hop)).1
  | .act (.data _) => none
  | .act a => (Outer.step H sha256 ⟨c, []⟩ a).map Outer.client

/-! ### What leaves the table alone -/

/-- The same table, the same peer and the same deliveries. -/
structure SameTable (c c' : OuterClient σ) : Prop where
  received : c'.received = c.received
  peerSenderId : c'.peerSenderId = c.peerSenderId
  peerGeneration : c'.peerGeneration = c.peerGeneration
  generation : c'.connectionGeneration = c.connectionGeneration
  deliveries : deliveries c'.log = deliveries c.log

theorem SameTable.refl (c : OuterClient σ) : SameTable c c := ⟨rfl, rfl, rfl, rfl, rfl⟩

variable {c : OuterClient σ}

theorem SameTable.trans {a b : OuterClient σ} (h : SameTable a b) (h' : SameTable b c) :
    SameTable a c :=
  ⟨h'.received.trans h.received, h'.peerSenderId.trans h.peerSenderId,
    h'.peerGeneration.trans h.peerGeneration, h'.generation.trans h.generation,
    h'.deliveries.trans h.deliveries⟩

theorem deliveries_append (log out : List Output) :
    deliveries (log ++ out) = deliveries log ++ deliveries out :=
  List.filterMap_append

variable {c' : OuterClient σ}

theorem SameTable.of_append (out : List Output)
    (hout : Wire.deliveries out = []) (hlog : c'.log = c.log ++ out)
    (hreceived : c'.received = c.received) (hsender : c'.peerSenderId = c.peerSenderId)
    (hpeer : c'.peerGeneration = c.peerGeneration)
    (hgeneration : c'.connectionGeneration = c.connectionGeneration) : SameTable c c' :=
  ⟨hreceived, hsender, hpeer, hgeneration, by rw [hlog, deliveries_append, hout, List.append_nil]⟩

theorem sendFrame_sameTable (c : OuterClient σ) (frame : Except WireError Bytes) :
    SameTable c (c.sendFrame frame).1 := by
  cases frame with
  | error e => exact .refl c
  | ok frame =>
    simp only [sendFrame]
    split
    · split
      · exact .refl c
      · exact .of_append [.sent frame] rfl rfl rfl rfl rfl rfl
    · exact .refl c

theorem callListeners_sameTable (msg : Message) (ls : List ℕ) (c : OuterClient σ) :
    SameTable c (callListeners H msg ls c).1 := by
  induction ls generalizing c with
  | nil => exact .refl c
  | cons l ls ih =>
    have hreact : SameTable c (c.react (.listenerCalled l msg) (H.listener l msg c.env)) :=
      .of_append [.listenerCalled l msg] rfl rfl rfl rfl rfl rfl
    simp only [callListeners]
    split
    · exact hreact
    · exact hreact.trans (ih _)

theorem deliveries_rejections (c : OuterClient σ) (e : ClientError) :
    deliveries (c.waiters.entries.map (fun w => .waiterRejected w.1 w.2 e) ++
      if c.hello then [.helloRejected e] else []) = [] := by
  apply List.filterMap_eq_nil_iff.mpr
  intro o ho
  rcases List.mem_append.mp ho with ho | ho
  · obtain ⟨w, _, rfl⟩ := List.mem_map.mp ho
    rfl
  · split at ho
    · obtain rfl := List.mem_singleton.mp ho
      rfl
    · cases ho

theorem fail_sameTable (c : OuterClient σ) (e : ClientError) : SameTable c (c.fail H e) := by
  have hrecord : SameTable c (c.record (.failed e)) :=
    .of_append [.failed e] rfl rfl rfl rfl rfl rfl
  simp only [fail]
  split
  · exact hrecord
  · refine hrecord.trans (SameTable.trans ?_ (callListeners_sameTable H _ _ _))
    exact .of_append _ (deliveries_rejections (c.record (.failed e)) e) (List.append_assoc _ _ _)
      rfl rfl rfl rfl

theorem refuse_sameTable (pending : Pending) (e : ClientError) (c : OuterClient σ) :
    SameTable c (refuse H pending e c).1 := by
  simp only [refuse]
  split
  · rename_i w _
    exact .of_append [.waiterRejected pending.correlationId w e] rfl rfl rfl rfl rfl rfl
  · exact callListeners_sameTable H _ _ _

theorem deliver_table (attempt : ℕ) (m : EventMeta) (payload : Bytes) (c : OuterClient σ) :
    ∃ c₁, SameTable c₁ (deliver H (some attempt) m payload c).1 ∧ c₁.received = c.received ∧
      c₁.peerSenderId = c.peerSenderId ∧ c₁.peerGeneration = c.peerGeneration ∧
      c₁.connectionGeneration = c.connectionGeneration ∧
      deliveries c₁.log = deliveries c.log ++ [attempt] := by
  refine ⟨c.record (.deliver (some attempt) m payload), ?_, rfl, rfl, rfl, rfl, ?_⟩
  · simp only [deliver]
    split
    · rename_i h _
      exact .of_append [.subscriptionCalled m.correlationId h (.event m payload)]
        rfl rfl rfl rfl rfl rfl
    · split
      · rename_i w _
        exact .of_append [.waiterResolved m.correlationId w m payload] rfl rfl rfl rfl rfl rfl
      · exact callListeners_sameTable H _ _ _
  · rw [OuterClient.record, deliveries_append]
    rfl

theorem settle_sameTable (r : Effect σ) : SameTable r.1 (settle H r).1 := by
  obtain ⟨c, e⟩ := r
  cases e with
  | none => exact .refl c
  | some e => exact fail_sameTable H c e

theorem settle_unfailed {r : Effect σ} (h : (settle H r).1.hasFailed = false) :
    r.2 = none := by
  obtain ⟨c, e⟩ := r
  cases e with
  | none => rfl
  | some e =>
    have hfailed := fail_hasFailed H c e
    simp only [settle] at h
    rw [hfailed] at h
    cases h

theorem send_sameTable (c : OuterClient σ) (target : Endpoint) (contentType : String)
    (payload : Bytes) (options : SendOptions) (now : ℕ) :
    SameTable c (c.send sha256 target contentType payload options now).1 := by
  obtain ⟨s, a, out, h⟩ := send_cases sha256 c target contentType payload options now
  have hcount : SameTable c { c with sequence := s, attempt := a, outstanding := out } :=
    ⟨rfl, rfl, rfl, rfl, rfl⟩
  rcases h with h | ⟨frame, h⟩
  · rw [h]
    exact hcount
  · rw [h]
    exact hcount.trans (sendFrame_sameTable _ (.ok frame))

theorem act_sameTable {a : ClientAction}
    (h : hopStep H sha256 c (.act a) = some c') : SameTable c c' := by
  cases a with
  | connected =>
    cases h
    simp only [OuterClient.connected]
    have hopen : ∀ hello, SameTable c { c with socket := true, hello := hello } := fun hello =>
      ⟨rfl, rfl, rfl, rfl, rfl⟩
    split
    · exact (hopen true).trans (sendFrame_sameTable _ _)
    · exact hopen _
  | data chunk => cases h
  | socketError => cases h; exact fail_sameTable H _ _
  | socketClosed => cases h; exact fail_sameTable H _ _
  | subscribe id handler => cases h; exact ⟨rfl, rfl, rfl, rfl, rfl⟩
  | unsubscribe id => cases h; exact ⟨rfl, rfl, rfl, rfl, rfl⟩
  | listen l => cases h; exact ⟨rfl, rfl, rfl, rfl, rfl⟩
  | unlisten l => cases h; exact ⟨rfl, rfl, rfl, rfl, rfl⟩
  | send target contentType payload options now =>
    cases h
    exact send_sameTable sha256 _ _ _ _ _ _
  | exchange w target contentType payload options now =>
    cases h
    have hsend := send_sameTable sha256 c target contentType payload options now
    simp only [OuterClient.exchange]
    split
    · rename_i hresult
      rwa [hresult] at hsend
    · rename_i hresult
      rw [hresult] at hsend
      exact hsend.trans ⟨rfl, rfl, rfl, rfl, rfl⟩
  | expire id => cases h; exact ⟨rfl, rfl, rfl, rfl, rfl⟩
  | finish =>
    cases h
    simp only [OuterClient.finish]
    split
    · exact .refl c
    · have hmark : SameTable c { c with finishing := true, finishAck := true } :=
        ⟨rfl, rfl, rfl, rfl, rfl⟩
      exact hmark.trans (sendFrame_sameTable _ _)
  | close => cases h; exact ⟨rfl, rfl, rfl, rfl, rfl⟩

/-! ### The client refines the ledger -/

/-- The table is the ledger's open part; no attempt is delivered twice, and
until a failure every attempt taken in was delivered. -/
structure Refines (g : ℕ) (c : OuterClient σ) (L : Ledger) : Prop where
  generation : c.connectionGeneration = g
  sender : c.peerSenderId = L.peer.map Prod.fst
  peer : c.peerGeneration = L.peer.map Prod.snd
  table : ∀ a d, c.received.lookup a = some d ↔ L.Open a d
  attempts : L.attempts.Nodup
  delivered : (deliveries c.log).Nodup
  taken : ∀ a ∈ deliveries c.log, a ∈ L.attempts
  complete : c.hasFailed = false → deliveries c.log = L.attempts

variable {g : ℕ} {L : Ledger}

theorem hasFailed_of_later (h : Later c c') (hc : c'.hasFailed = false) :
    c.hasFailed = false := by
  obtain ⟨out, hout⟩ := h.log
  rw [hasFailed, ← hout, List.any_append, Bool.or_eq_false_iff] at hc
  exact hc.1

theorem Refines.of_sameTable (hr : Refines g c L) (hs : SameTable c c')
    (hl : Later c c') : Refines g c' L where
  generation := hs.generation.trans hr.generation
  sender := hs.peerSenderId.trans hr.sender
  peer := hs.peerGeneration.trans hr.peer
  table a d := by rw [hs.received]; exact hr.table a d
  attempts := hr.attempts
  delivered := by rw [hs.deliveries]; exact hr.delivered
  taken a ha := by rw [hs.deliveries] at ha; exact hr.taken a ha
  complete hc := by rw [hs.deliveries]; exact hr.complete (hasFailed_of_later hl hc)

theorem Refines.settle_same (hr : Refines g c L) {r : Effect σ}
    (hs : SameTable c r.1) (hl : Later c r.1) : Refines g (settle H r).1 L :=
  hr.of_sameTable (hs.trans (settle_sameTable H r)) (settle_later H hl)

theorem refines_helloAck (hr : Refines g c L) (acceptedGeneration : ℕ)
    (senderId : String) (generation maxOutstanding maxReceiptBytes : ℕ) :
    Refines g (settle H (c.onHop H (.helloAck acceptedGeneration senderId generation maxOutstanding
        maxReceiptBytes))).1
      (L.step g (.helloAck acceptedGeneration senderId generation maxOutstanding
        maxReceiptBytes)) := by
  have hlater := onHop_later H c (.helloAck acceptedGeneration senderId generation maxOutstanding
    maxReceiptBytes)
  simp only [onHop, Ledger.step] at hlater ⊢
  by_cases hg : acceptedGeneration = g
  · have hsame : ¬acceptedGeneration ≠ c.connectionGeneration := by
      rw [hr.generation]
      exact not_not.mpr hg
    rw [if_neg hsame] at hlater ⊢
    rw [if_pos hg]
    have hlog : deliveries (c.log ++ if c.hello then [Output.helloResolved] else []) =
        deliveries c.log := by
      rw [deliveries_append]
      split <;> exact List.append_nil _
    exact
      { generation := hr.generation
        sender := rfl
        peer := rfl
        table := hr.table
        attempts := hr.attempts
        delivered := by rw [settle, hlog]; exact hr.delivered
        taken := by rw [settle, hlog]; exact hr.taken
        complete := by
          intro hc
          rw [settle, hlog]
          exact hr.complete (hasFailed_of_later hlater hc) }
  · have hother : acceptedGeneration ≠ c.connectionGeneration := by
      rw [hr.generation]
      exact hg
    rw [if_pos hother, if_neg hg]
    exact hr.settle_same H (r := (c, some .helloMismatch)) (.refl c) (.refl c)

theorem refines_receipt (hr : Refines g c L) (attempt : ℕ) (digest : Bytes)
    (status : UInt8) (detail : String) :
    Refines g (settle H (c.onHop H (.receipt attempt digest status detail))).1 L := by
  apply hr.settle_same H _ (onHop_later H c _)
  simp only [onHop]
  split
  · exact .refl c
  · split
    · exact .refl c
    · have herase : SameTable c { c with outstanding := c.outstanding.erase attempt } :=
        ⟨rfl, rfl, rfl, rfl, rfl⟩
      split
      · exact herase.trans (refuse_sameTable H _ _ _)
      · exact herase.trans (sendFrame_sameTable _ _)

theorem refines_query (hr : Refines g c L) (senderId : String)
    (generation attempt : ℕ) (digest : Bytes) :
    Refines g (settle H (c.onHop H (.query senderId generation attempt digest))).1 L := by
  apply hr.settle_same H _ (onHop_later H c _)
  simp only [onHop]
  split
  · exact sendFrame_sameTable c _
  · split
    · exact sendFrame_sameTable c _
    · exact sendFrame_sameTable c _

theorem refines_receiptAck (hr : Refines g c L) (senderId : String)
    (generation attempt : ℕ) (digest : Bytes) :
    Refines g (settle H (c.onHop H (.receiptAck senderId generation attempt digest))).1
      (L.step g (.receiptAck senderId generation attempt digest)) := by
  have hpeer : (c.peerSenderId = some senderId ∧ c.peerGeneration = some generation) ↔
      L.peer = some (senderId, generation) := by
    rw [hr.sender, hr.peer]
    cases L.peer with
    | none => simp
    | some p => obtain ⟨s, n⟩ := p; simp
  have hopen : ∀ a d, ({ L with acked := attempt :: L.acked } : Ledger).Open a d ↔
      L.Open a d ∧ a ≠ attempt := by
    intro a d
    simp only [Ledger.Open, List.mem_cons, not_or]
    tauto
  simp only [onHop, Ledger.step]
  by_cases hknown : L.peer = some (senderId, generation) ∧ (attempt, digest) ∈ L.taken
  · rw [if_pos hknown]
    obtain ⟨hsender, hgeneration⟩ := hpeer.mpr hknown.1
    by_cases hseen : c.received.lookup attempt = some digest
    · rw [if_pos ⟨hsender, hgeneration, hseen⟩]
      refine { hr with table := ?_ }
      intro a d
      rw [hopen, settle]
      by_cases ha : a = attempt
      · subst ha
        simp [AList.lookup_erase]
      · rw [AList.lookup_erase_ne ha, hr.table a d]
        simp [ha]
    · -- acknowledged once more: the entry went with the first acknowledgement
      rw [if_neg (fun h => hseen h.2.2)]
      refine { hr with table := ?_ }
      intro a d
      rw [hopen, settle, hr.table a d]
      constructor
      · intro h
        refine ⟨h, ?_⟩
        rintro rfl
        exact hseen ((hr.table a digest).mpr ⟨hknown.2, h.2⟩)
      · intro h
        exact h.1
  · have hseen : ¬(c.peerSenderId = some senderId ∧ c.peerGeneration = some generation ∧
        c.received.lookup attempt = some digest) := by
      rintro ⟨hsender, hgeneration, hseen⟩
      exact hknown ⟨hpeer.mp ⟨hsender, hgeneration⟩, ((hr.table _ _).mp hseen).1⟩
    rw [if_neg hknown, if_neg hseen]
    exact hr

variable {attempt : ℕ}

theorem onHop_data_first (digest event : Bytes)
    (hseen : c.received.lookup attempt = none) :
    ∃ c₁, SameTable c₁ (c.onHop H (.data attempt digest event)).1 ∧
      c₁.received = c.received.insert attempt digest ∧ c₁.peerSenderId = c.peerSenderId ∧
      c₁.peerGeneration = c.peerGeneration ∧ c₁.connectionGeneration = c.connectionGeneration ∧
      (deliveries c₁.log = deliveries c.log ++ [attempt] ∨
        deliveries c₁.log = deliveries c.log ∧
          (c.onHop H (.data attempt digest event)).2 ≠ none) := by
  have hsend := sendFrame_sameTable
    { c with received := c.received.insert attempt digest } (hopReceipt true attempt digest 1 "")
  simp only [onHop, hseen]
  split
  · rename_i c' e hresult
    rw [hresult] at hsend
    exact ⟨_, hsend, rfl, rfl, rfl, rfl, .inr ⟨rfl, by simp⟩⟩
  · rename_i c' hresult
    rw [hresult] at hsend
    simp only [deliverFrame]
    split
    · exact ⟨_, hsend, rfl, rfl, rfl, rfl, .inr ⟨rfl, by simp⟩⟩
    · rename_i m payload _
      obtain ⟨c₁, hsame, h₁, h₂, h₃, h₄, h₅⟩ := deliver_table H attempt m payload c'
      exact ⟨c₁, hsame, h₁.trans hsend.received, h₂.trans hsend.peerSenderId,
        h₃.trans hsend.peerGeneration, h₄.trans hsend.generation,
        .inl (h₅.trans (by rw [hsend.deliveries]))⟩

theorem mem_attempts {a : ℕ} : a ∈ L.attempts ↔ ∃ d, (a, d) ∈ L.taken := by
  simp [Ledger.attempts]

theorem refines_data (hr : Refines g c L) (attempt : ℕ) (digest event : Bytes)
    (hallowed : attempt ∉ L.acked) :
    Refines g (settle H (c.onHop H (.data attempt digest event))).1
      (L.step g (.data attempt digest event)) := by
  have hlater := onHop_later H c (.data attempt digest event)
  cases hseen : c.received.lookup attempt with
  | some seen =>
    have htaken : attempt ∈ L.attempts := mem_attempts.mpr ⟨seen, ((hr.table _ _).mp hseen).1⟩
    rw [Ledger.step, if_pos htaken]
    apply hr.settle_same H _ hlater
    simp only [onHop, hseen]
    split
    · exact sendFrame_sameTable c _
    · exact sendFrame_sameTable c _
  | none =>
    have hfresh : attempt ∉ L.attempts := by
      intro hmem
      obtain ⟨d, hd⟩ := mem_attempts.mp hmem
      have hopen := (hr.table attempt d).mpr ⟨hd, hallowed⟩
      rw [hseen] at hopen
      cases hopen
    rw [Ledger.step, if_neg hfresh]
    have hopen : ∀ a d, (c.received.insert attempt digest).lookup a = some d ↔
        ({ L with taken := L.taken ++ [(attempt, digest)] } : Ledger).Open a d := by
      intro a d
      simp only [Ledger.Open, List.mem_append, List.mem_singleton, Prod.mk.injEq]
      by_cases ha : a = attempt
      · subst ha
        have hnot : (a, d) ∉ L.taken := fun h => hfresh (mem_attempts.mpr ⟨d, h⟩)
        simp [AList.lookup_insert, hnot, hallowed, eq_comm]
      · rw [AList.lookup_insert_ne ha, hr.table a d]
        simp [Ledger.Open, ha]
    have hattempts : ({ L with taken := L.taken ++ [(attempt, digest)] } : Ledger).attempts =
        L.attempts ++ [attempt] := by
      simp [Ledger.attempts]
    have hnodup : (L.attempts ++ [attempt]).Nodup := by
      rw [List.nodup_append]
      refine ⟨hr.attempts, List.nodup_singleton _, ?_⟩
      intro a ha b hb
      obtain rfl := List.mem_singleton.mp hb
      rintro rfl
      exact hfresh ha
    obtain ⟨c₁, hsame, hreceived, hsender, hpeer, hgeneration, hdeliver⟩ :=
      onHop_data_first H digest event hseen
    have hsettled := hsame.trans (settle_sameTable H (c.onHop H (.data attempt digest event)))
    have hsettledLater := settle_later H hlater
    refine
      { generation := (hsettled.generation.trans hgeneration).trans hr.generation
        sender := (hsettled.peerSenderId.trans hsender).trans hr.sender
        peer := (hsettled.peerGeneration.trans hpeer).trans hr.peer
        table := by rw [hsettled.received, hreceived]; exact hopen
        attempts := by rw [hattempts]; exact hnodup
        delivered := ?_
        taken := ?_
        complete := ?_ }
    · rw [hsettled.deliveries]
      rcases hdeliver with hdeliver | ⟨hdeliver, _⟩
      · rw [hdeliver, List.nodup_append]
        refine ⟨hr.delivered, List.nodup_singleton _, ?_⟩
        intro a ha b hb
        obtain rfl := List.mem_singleton.mp hb
        rintro rfl
        exact hfresh (hr.taken a ha)
      · rw [hdeliver]
        exact hr.delivered
    · intro a ha
      rw [hattempts]
      rw [hsettled.deliveries] at ha
      rcases hdeliver with hdeliver | ⟨hdeliver, _⟩
      · rw [hdeliver] at ha
        rcases List.mem_append.mp ha with ha | ha
        · exact List.mem_append_left _ (hr.taken a ha)
        · exact List.mem_append_right _ ha
      · rw [hdeliver] at ha
        exact List.mem_append_left _ (hr.taken a ha)
    · intro hc
      have hnone := settle_unfailed H hc
      have hcomplete := hr.complete (hasFailed_of_later hsettledLater hc)
      rw [hsettled.deliveries, hattempts]
      rcases hdeliver with hdeliver | ⟨_, hthrew⟩
      · rw [hdeliver, hcomplete]
      · exact absurd hnone hthrew

theorem refines_frame (hr : Refines g c L) (hop : Hop) (h : L.Allows hop) :
    Refines g (settle H (c.onHop H hop)).1 (L.step g hop) := by
  cases hop with
  | helloAck acceptedGeneration senderId generation maxOutstanding maxReceiptBytes =>
    exact refines_helloAck H hr _ _ _ _ _
  | data attempt digest event => exact refines_data H hr _ _ _ h
  | receipt attempt digest status detail => exact refines_receipt H hr _ _ _ _
  | queryResult attempt digest status detail =>
    exact hr.settle_same H (r := (c, some .unexpectedQueryResult)) (.refl c) (.refl c)
  | receiptAck senderId generation attempt digest => exact refines_receiptAck H hr _ _ _ _
  | query senderId generation attempt digest => exact refines_query H hr _ _ _ _

theorem act_later {a : ClientAction}
    (h : hopStep H sha256 c (.act a) = some c') : Later c c' := by
  have hstep : ∃ o', Outer.step H sha256 ⟨c, []⟩ a = some o' ∧ o'.client = c' := by
    cases a with
    | data chunk => cases h
    | _ => exact ⟨_, rfl, Option.some.inj h⟩
  obtain ⟨o', ho', rfl⟩ := hstep
  exact step_later H sha256 ho'

theorem runs_refines {as : List HopAction} (hr : Refines g c L)
    (hpeer : PeerOrder g L as) (hrun : runs (hopStep H sha256) c as = some c') :
    Refines g c' (Ledger.after g L as) := by
  induction as generalizing c L with
  | nil =>
    obtain rfl := Option.some.inj hrun
    exact hr
  | cons a as ih =>
    obtain ⟨t, ht, hrest⟩ := runs_cons hrun
    cases a with
    | frame hop =>
      obtain rfl := Option.some.inj ht
      exact ih (refines_frame H hr hop hpeer.1) hpeer.2 hrest
    | act a => exact ih (hr.of_sameTable (act_sameTable H sha256 ht) (act_later H sha256 ht)) hpeer hrest

/-! ### Answers -/

variable {digest : Bytes}

theorem sendFrame_hopReceipt (isReceipt : Bool)
    (status : UInt8) {detail : String} (hsocket : c.socket = true) (hattempt : attempt < 2 ^ 64)
    (hdigest : digest.length = 32) (hdetail : (utf8 detail).length < 64) :
    ∃ frame, hopReceipt isReceipt attempt digest status detail = .ok frame ∧
      c.sendFrame (hopReceipt isReceipt attempt digest status detail) =
        (c.record (.sent frame), none) := by
  have hnumber : u64 attempt = .ok (leBytes 8 attempt) := if_pos hattempt
  have hlength : u32 (utf8 detail).length = .ok (leBytes 4 (utf8 detail).length) :=
    if_pos (by omega)
  have hframe : hopReceipt isReceipt attempt digest status detail =
      .ok (hopHeader (if isReceipt then .receipt else .queryResult) ++ leBytes 8 attempt ++ digest ++
        [status] ++ (leBytes 4 (utf8 detail).length ++ utf8 detail)) := by
    simp only [hopReceipt, text, hnumber, hlength]
    rfl
  refine ⟨_, hframe, ?_⟩
  have hfit : ∀ n, n < 256 ^ 4 → u32 n = .ok (leBytes 4 n) := fun n hn => if_pos hn
  rw [hframe, sendFrame, if_pos hsocket, hfit]
  simp only [List.length_append, length_leBytes, hdigest, hopHeader, hopMagic,
    List.length_cons, List.length_nil]
  omega

theorem repeat_answered (hr : Refines g c L)
    {seen : Bytes} (event : Bytes) (hopen : L.Open attempt seen) (hsocket : c.socket = true)
    (hattempt : attempt < 2 ^ 64) (hdigest : digest.length = 32) :
    ∃ frame, hopReceipt true attempt digest (if seen = digest then 1 else 3)
        (if seen = digest then "" else "attempt digest differs") = .ok frame ∧
      c.onHop H (.data attempt digest event) = (c.record (.sent frame), none) := by
  have hseen := (hr.table _ _).mpr hopen
  simp only [onHop, hseen]
  split
  · exact sendFrame_hopReceipt true 1 hsocket hattempt hdigest (by decide)
  · exact sendFrame_hopReceipt true 3 hsocket hattempt hdigest (by decide)

theorem query_answered (hr : Refines g c L) (senderId : String)
    (generation : ℕ) (hsocket : c.socket = true)
    (hattempt : attempt < 2 ^ 64) (hdigest : digest.length = 32) :
    ∃ status detail frame, hopReceipt false attempt digest status detail = .ok frame ∧
      c.onHop H (.query senderId generation attempt digest) = (c.record (.sent frame), none) ∧
      (status = 1 ↔ L.Open attempt digest) ∧
      (status = 3 ↔ ∃ seen, L.Open attempt seen ∧ seen ≠ digest) ∧
      (status = 4 ↔ ¬∃ seen, L.Open attempt seen) := by
  have hopen : ∀ d, L.Open attempt d ↔ c.received.lookup attempt = some d := fun d =>
    (hr.table attempt d).symm
  simp only [onHop, hopen]
  cases hseen : c.received.lookup attempt with
  | none =>
    obtain ⟨frame, hframe, hsend⟩ := sendFrame_hopReceipt false 4 hsocket hattempt hdigest
      (show (utf8 "receipt is not pinned").length < 64 by decide)
    exact ⟨4, _, frame, hframe, hsend, by simp, by simp, by simp⟩
  | some seen =>
    by_cases hsame : seen = digest
    · obtain ⟨frame, hframe, hsend⟩ := sendFrame_hopReceipt false 1 hsocket hattempt hdigest
        (show (utf8 "").length < 64 by decide)
      refine ⟨1, _, frame, hframe, by simp only [hsame, if_true]; exact hsend, ?_, ?_, ?_⟩
      · simp [hsame]
      · simp [hsame]
      · simp
    · obtain ⟨frame, hframe, hsend⟩ := sendFrame_hopReceipt false 3 hsocket hattempt hdigest
        (show (utf8 "attempt digest differs").length < 64 by decide)
      refine ⟨3, _, frame, hframe, by simp only [hsame, if_false]; exact hsend, ?_, ?_, ?_⟩
      · simp [hsame]
      · simp [hsame]
      · simp

/-- A peer that sends no Data frame after its acknowledgement: no attempt is
delivered twice, repeats and queries are answered from the table, and until a
frame makes the connection fail the table holds what was delivered and not yet
acknowledged. -/
theorem hop_delivery (address channel : String) (generation maxOutstanding deadlineMs : ℕ)
    (hop : Bool) (env : σ) (as : List HopAction) (c : OuterClient σ)
    (hpeer : PeerOrder generation .empty as)
    (hrun : runs (hopStep H sha256)
      (create address channel generation maxOutstanding deadlineMs hop env) as = some c) :
    (deliveries c.log).Nodup ∧
    (∀ attempt seen digest event, (Ledger.after generation .empty as).Open attempt seen →
      c.socket = true → attempt < 2 ^ 64 → digest.length = 32 →
      ∃ frame, hopReceipt true attempt digest (if seen = digest then 1 else 3)
          (if seen = digest then "" else "attempt digest differs") = .ok frame ∧
        c.onHop H (.data attempt digest event) = (c.record (.sent frame), none)) ∧
    (∀ senderId peerGeneration attempt digest, c.socket = true → attempt < 2 ^ 64 →
      digest.length = 32 →
      ∃ status detail frame, hopReceipt false attempt digest status detail = .ok frame ∧
        c.onHop H (.query senderId peerGeneration attempt digest) = (c.record (.sent frame), none) ∧
        (status = 1 ↔ (Ledger.after generation .empty as).Open attempt digest) ∧
        (status = 3 ↔
          ∃ seen, (Ledger.after generation .empty as).Open attempt seen ∧ seen ≠ digest) ∧
        (status = 4 ↔ ¬∃ seen, (Ledger.after generation .empty as).Open attempt seen)) ∧
    (c.hasFailed = false →
      deliveries c.log = (Ledger.after generation .empty as).attempts ∧
        ∀ attempt digest, c.received.lookup attempt = some digest ↔
          (Ledger.after generation .empty as).Open attempt digest) := by
  have hstart : Refines generation
      (create address channel generation maxOutstanding deadlineMs hop env) Ledger.empty :=
    { generation := rfl
      sender := rfl
      peer := rfl
      table := by simp [create, Ledger.empty, Ledger.Open]
      attempts := List.nodup_nil
      delivered := List.nodup_nil
      taken := by simp [create, deliveries]
      complete := fun _ => rfl }
  have hr := runs_refines H sha256 hstart hpeer hrun
  refine ⟨hr.delivered, ?_, ?_, ?_⟩
  · intro attempt seen digest event hopen hsocket hattempt hdigest
    exact repeat_answered H hr event hopen hsocket hattempt hdigest
  · intro senderId peerGeneration attempt digest hsocket hattempt hdigest
    exact query_answered H hr senderId peerGeneration hsocket hattempt hdigest
  · intro hc
    exact ⟨hr.complete hc, hr.table⟩

end

def flatDigest (_ : Bytes) : Bytes := List.replicate 32 0

/-- Attempt 1 arrives, arrives again, and is acknowledged. -/
def onceAndAgain : List HopAction :=
  [.act .connected, .frame (.helloAck 1 "peer" 5 256 0),
   .frame (.data 1 (flatDigest []) (sampleFrame 1)), .frame (.data 1 (flatDigest []) (sampleFrame 1)),
   .frame (.receiptAck "peer" 5 1 (flatDigest []))]

theorem onceAndAgain_delivered :
    ∃ c, runs (hopStep quietHandlers flatDigest)
        (OuterClient.create "tcp://a:1" "c" 1 256 120000 true ()) onceAndAgain = some c ∧
      c.hasFailed = false ∧ (deliveries c.log).Nodup ∧ deliveries c.log = [1] ∧
      ∀ attempt, c.received.lookup attempt = none := by
  obtain ⟨c, hrun, hopen⟩ := runs_exists (hopStep quietHandlers flatDigest)
    (OuterClient.create "tcp://a:1" "c" 1 256 120000 true ()) onceAndAgain
    (fun c => !c.hasFailed) (by decide +kernel)
  have hopen : c.hasFailed = false := by simpa using hopen
  have hpeer : PeerOrder 1 .empty onceAndAgain := by
    simp [onceAndAgain, PeerOrder, Ledger.Allows, Ledger.step, Ledger.empty, Ledger.attempts]
  obtain ⟨hnodup, _, _, htable⟩ := hop_delivery quietHandlers flatDigest "tcp://a:1" "c" 1 256 120000
    true () onceAndAgain c hpeer hrun
  obtain ⟨hdelivered, hreceived⟩ := htable hopen
  refine ⟨c, hrun, hopen, hnodup, hdelivered, ?_⟩
  intro attempt
  apply Option.eq_none_iff_forall_ne_some.mpr
  intro digest hdigest
  obtain ⟨htaken, hunacked⟩ := (hreceived attempt digest).mp hdigest
  simp [onceAndAgain, Ledger.after, Ledger.step, Ledger.empty, Ledger.attempts] at htaken hunacked
  exact hunacked htaken.1

/-- An attempt whose event does not decode is pinned and acknowledged, and never
delivered. -/
theorem undecodable_attempt_pinned :
    PeerOrder 1 .empty [.act .connected, .frame (.data 1 (flatDigest []) [0])] ∧
    ∃ c, runs (hopStep quietHandlers flatDigest)
        (OuterClient.create "tcp://a:1" "c" 1 256 120000 true ())
        [.act .connected, .frame (.data 1 (flatDigest []) [0])] = some c ∧
      deliveries c.log = [] ∧ c.received.lookup 1 = some (flatDigest []) := by
  refine ⟨by simp [PeerOrder, Ledger.Allows, Ledger.empty], _, rfl, ?_, ?_⟩
  · decide +kernel
  · decide +kernel

end KvasirNet.Wire
