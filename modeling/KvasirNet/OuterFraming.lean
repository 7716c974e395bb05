import KvasirNet.Runs
import KvasirNet.OuterClient

/-! Framing and TCP chunks. Up to the first failure the log depends on the bytes
alone. A client that has failed stays silent as long as no complete frame is at
the head of what it has buffered; the loop does not look at `closed`, so a
complete one is handled as before. -/
namespace KvasirNet.Wire

def Output.isFailure : Output → Bool
  | failed _ => true
  | _ => false

def upToFailure (log : List Output) : List Output := log.takeWhile fun o => !o.isFailure

theorem takeWhile_append_of_mem {α : Type} {p : α → Bool} {l : List α}
    (h : ∃ x ∈ l, p x = false) (r : List α) : (l ++ r).takeWhile p = l.takeWhile p := by
  induction l with
  | nil => obtain ⟨x, hx, _⟩ := h; cases hx
  | cons y l ih =>
    rw [List.cons_append, List.takeWhile_cons, List.takeWhile_cons]
    cases hy : p y with
    | false => rfl
    | true =>
      obtain ⟨x, hx, hpx⟩ := h
      have hxl : x ∈ l := by
        rcases List.mem_cons.mp hx with rfl | hxl
        · rw [hpx] at hy; cases hy
        · exact hxl
      rw [ih ⟨x, hxl, hpx⟩]

section
variable {σ : Type}

def OuterClient.hasFailed (c : OuterClient σ) : Bool := c.log.any Output.isFailure

theorem upToFailure_of_prefix {c c' : OuterClient σ} (hfailed : c.hasFailed = true)
    (hlog : c.log <+: c'.log) : upToFailure c'.log = upToFailure c.log := by
  obtain ⟨rest, hrest⟩ := hlog
  rw [← hrest]
  apply takeWhile_append_of_mem
  obtain ⟨o, ho, hfail⟩ := List.any_eq_true.mp hfailed
  exact ⟨o, ho, by simp [hfail]⟩

variable (H : Handlers σ) (sha256 : Bytes → Bytes)

namespace OuterClient

/-! ### The log only grows, and a closed client stays closed -/

/-- What every method keeps of a client: a new failure also closes it. -/
structure Later (c c' : OuterClient σ) : Prop where
  log : c.log <+: c'.log
  closed : c.closed = true → c'.closed = true
  failed : c'.hasFailed = true → c.hasFailed = true ∨ c'.closed = true

theorem Later.refl (c : OuterClient σ) : Later c c := ⟨List.prefix_rfl, id, .inl⟩

theorem Later.trans {a b c : OuterClient σ} (h : Later a b) (h' : Later b c) : Later a c where
  log := h.log.trans h'.log
  closed hc := h'.closed (h.closed hc)
  failed hc := by
    rcases h'.failed hc with hb | hclosed
    · rcases h.failed hb with ha | hclosed
      · exact .inl ha
      · exact .inr (h'.closed hclosed)
    · exact .inr hclosed

theorem Later.of_append {c c' : OuterClient σ} (out : List Output)
    (hout : out.any Output.isFailure = false) (hlog : c'.log = c.log ++ out)
    (hclosed : c'.closed = c.closed) : Later c c' where
  log := ⟨out, hlog.symm⟩
  closed hc := by rw [hclosed]; exact hc
  failed hc := by
    rw [hasFailed, hlog, List.any_append, hout, Bool.or_false] at hc
    exact .inl hc

theorem sendFrame_later (c : OuterClient σ) (frame : Except WireError Bytes) :
    Later c (c.sendFrame frame).1 := by
  cases frame with
  | error e => exact .refl c
  | ok frame =>
    simp only [sendFrame]
    split
    · split
      · exact .refl c
      · exact .of_append [.sent frame] rfl rfl rfl
    · exact .refl c

theorem callListeners_later (msg : Message) (ls : List ℕ) (c : OuterClient σ) :
    Later c (callListeners H msg ls c).1 := by
  induction ls generalizing c with
  | nil => exact .refl c
  | cons l ls ih =>
    have hreact : Later c (c.react (.listenerCalled l msg) (H.listener l msg c.env)) :=
      .of_append [.listenerCalled l msg] rfl rfl rfl
    simp only [callListeners]
    split
    · exact hreact
    · exact hreact.trans (ih _)

theorem fail_closed (c : OuterClient σ) (e : ClientError) : (c.fail H e).closed = true := by
  simp only [fail]
  split
  · assumption
  · exact (callListeners_later H _ _ _).closed rfl

theorem fail_log (c : OuterClient σ) (e : ClientError) :
    c.log ++ [.failed e] <+: (c.fail H e).log := by
  simp only [fail]
  split
  · exact List.prefix_rfl
  · refine List.IsPrefix.trans ?_ (callListeners_later H _ _ _).log
    exact ⟨_, (List.append_assoc _ _ _).symm⟩

theorem fail_later (c : OuterClient σ) (e : ClientError) : Later c (c.fail H e) where
  log := List.IsPrefix.trans ⟨_, rfl⟩ (fail_log H c e)
  closed _ := fail_closed H c e
  failed _ := .inr (fail_closed H c e)

theorem deliver_later (via : Option ℕ) (m : EventMeta) (payload : Bytes) (c : OuterClient σ) :
    Later c (deliver H via m payload c).1 := by
  have hrecord : Later c (c.record (.deliver via m payload)) :=
    .of_append [.deliver via m payload] rfl rfl rfl
  simp only [deliver]
  split
  · rename_i h _
    exact hrecord.trans (.of_append [.subscriptionCalled m.correlationId h (.event m payload)] rfl rfl rfl)
  · split
    · rename_i w _
      exact hrecord.trans (.of_append [.waiterResolved m.correlationId w m payload] rfl rfl rfl)
    · exact hrecord.trans (callListeners_later H _ _ _)

theorem deliverFrame_later (via : Option ℕ) (frame : Bytes) (c : OuterClient σ) :
    Later c (deliverFrame H via frame c).1 := by
  simp only [deliverFrame]
  split
  · exact .refl c
  · exact deliver_later H _ _ _ c

theorem refuse_later (pending : Pending) (e : ClientError) (c : OuterClient σ) :
    Later c (refuse H pending e c).1 := by
  simp only [refuse]
  split
  · rename_i w _
    exact .of_append [.waiterRejected pending.correlationId w e] rfl rfl rfl
  · exact callListeners_later H _ _ _

theorem onHop_later (c : OuterClient σ) (hop : Hop) : Later c (c.onHop H hop).1 := by
  cases hop with
  | helloAck acceptedGeneration senderId generation maxOutstanding maxReceiptBytes =>
    simp only [onHop]
    split
    · exact .refl c
    · have hout : (if c.hello then [Output.helloResolved] else []).any Output.isFailure = false := by
        split <;> rfl
      exact .of_append _ hout rfl rfl
  | receipt attempt digest status detail =>
    simp only [onHop]
    split
    · exact .refl c
    · split
      · exact .refl c
      · -- the outstanding entry goes before anything is reported
        have herase : Later c { c with outstanding := c.outstanding.erase attempt } :=
          .of_append [] rfl (List.append_nil _).symm rfl
        split
        · exact herase.trans (refuse_later H _ _ _)
        · exact herase.trans (sendFrame_later _ _)
  | data attempt digest event =>
    simp only [onHop]
    split
    · split
      · exact sendFrame_later c _
      · exact sendFrame_later c _
    · have hinsert : Later c { c with received := c.received.insert attempt digest } :=
        .of_append [] rfl (List.append_nil _).symm rfl
      have hsend := hinsert.trans (sendFrame_later _ (hopReceipt true attempt digest 1 ""))
      split
      · rename_i hresult
        rwa [hresult] at hsend
      · rename_i hresult
        rw [hresult] at hsend
        exact hsend.trans (deliverFrame_later H _ _ _)
  | queryResult attempt digest status detail => exact .refl c
  | receiptAck senderId generation attempt digest =>
    simp only [onHop]
    split
    · exact .of_append [] rfl (List.append_nil _).symm rfl
    · exact .refl c
  | query senderId generation attempt digest =>
    simp only [onHop]
    split
    · exact sendFrame_later c _
    · split
      · exact sendFrame_later c _
      · exact sendFrame_later c _

theorem settle_later {c : OuterClient σ} {r : Effect σ} (h : Later c r.1) :
    Later c (settle H r).1 := by
  obtain ⟨c', e⟩ := r
  cases e with
  | none => exact h
  | some e => exact h.trans (fail_later H c' e)

end OuterClient

open OuterClient

theorem onItem_later (c : OuterClient σ) (i : Item) : Later c (onItem H sha256 c i).1 := by
  cases i with
  | finish =>
    simp only [onItem]
    split
    · exact ⟨⟨[.finishAcked], rfl⟩, fun _ => rfl, fun _ => .inr rfl⟩
    · exact .refl c
  | frame bytes =>
    apply settle_later H
    split
    · simp only [onFrame]
      split
      · exact .refl c
      · exact onHop_later H c _
    · exact deliverFrame_later H none bytes c

theorem drain_later (c : OuterClient σ) (b : Bytes) :
    Later c (drain framing (consumer H sha256) c b).state := by
  apply drain_invariant framing (consumer H sha256) (I := Later c)
  · intro s i hs
    exact hs.trans (onItem_later H sha256 s i)
  · intro s e hs
    exact hs.trans (fail_later H s _)
  · exact .refl c

/-! ### A stop is a failure in the log -/

theorem fail_hasFailed (c : OuterClient σ) (e : ClientError) : (c.fail H e).hasFailed = true := by
  obtain ⟨rest, hrest⟩ := fail_log H c e
  rw [hasFailed, ← hrest]
  simp [Output.isFailure]

theorem hasFailed_of_stopped (c : OuterClient σ) (b : Bytes)
    (h : (drain framing (consumer H sha256) c b).stopped = true) :
    (drain framing (consumer H sha256) c b).state.hasFailed = true := by
  induction c, b using drain_induction framing (consumer H sha256) with
  | more c b hnext => simp [drain_more _ _ hnext] at h
  | stuck c b e hnext =>
    rw [drain_stuck _ _ hnext]
    exact fail_hasFailed H c _
  | stop c b i rest c' hnext hact =>
    rw [drain_stop _ _ hnext hact]
    cases i with
    | finish =>
      simp only [consumer, onItem] at hact
      split at hact <;> cases hact
    | frame bytes =>
      simp only [consumer, onItem, settle] at hact
      split at hact
      · cases hact
      · cases hact
        exact fail_hasFailed H _ _
  | item c b i rest c' hnext hact ih =>
    rw [drain_item _ _ hnext hact] at h ⊢
    exact ih h

/-! ### Chunks -/

def Outer.onChunks (o : Outer σ) : List Bytes → Outer σ
  | [] => o
  | chunk :: chunks => (o.onData H sha256 chunk).onChunks chunks

theorem onChunks_eq_feed (o : Outer σ) (chunks : List Bytes) :
    (o.onChunks H sha256 chunks).client =
      (feed framing (consumer H sha256) o.client o.buffer chunks).1 := by
  induction chunks generalizing o with
  | nil => rfl
  | cons chunk chunks ih => exact ih _

theorem feed_later (c : OuterClient σ) (b : Bytes) (chunks : List Bytes) :
    Later c (feed framing (consumer H sha256) c b chunks).1 := by
  apply feed_invariant framing (consumer H sha256) (I := Later c)
  · intro s i hs
    exact hs.trans (onItem_later H sha256 s i)
  · intro s e hs
    exact hs.trans (fail_later H s _)
  · exact .refl c

theorem upToFailure_onChunks (c : OuterClient σ) (chunks : List Bytes) :
    upToFailure ((⟨c, []⟩ : Outer σ).onChunks H sha256 chunks).client.log =
      upToFailure (drain framing (consumer H sha256) c chunks.flatten).state.log := by
  rw [onChunks_eq_feed]
  apply feed_observe framing (consumer H sha256) (fun c => upToFailure c.log)
  · intro s b hstop b' cs
    exact upToFailure_of_prefix (hasFailed_of_stopped H sha256 s b hstop)
      (feed_later H sha256 _ b' cs).log
  · rfl

/-! ### After a failure -/

def CompleteHead (buffer : Bytes) : Prop := ∃ i rest, nextFrame buffer = .item i rest

instance (buffer : Bytes) : Decidable (CompleteHead buffer) :=
  match h : nextFrame buffer with
  | .more => .isFalse (by simp [CompleteHead, h])
  | .stuck _ => .isFalse (by simp [CompleteHead, h])
  | .item i rest => .isTrue ⟨i, rest, h⟩

/-- An `_onData` on a failed client finds no complete frame at the head. -/
def HeadIncomplete (o : Outer σ) : ClientAction → Prop
  | .data chunk => o.client.hasFailed = true → ¬CompleteHead (o.buffer ++ chunk)
  | _ => True

instance (o : Outer σ) : ∀ a, Decidable (HeadIncomplete o a)
  | .data chunk => inferInstanceAs (Decidable (_ → ¬CompleteHead (o.buffer ++ chunk)))
  | .connected => .isTrue trivial
  | .socketError => .isTrue trivial
  | .socketClosed => .isTrue trivial
  | .subscribe .. => .isTrue trivial
  | .unsubscribe _ => .isTrue trivial
  | .listen _ => .isTrue trivial
  | .unlisten _ => .isTrue trivial
  | .send .. => .isTrue trivial
  | .exchange .. => .isTrue trivial
  | .expire _ => .isTrue trivial
  | .finish => .isTrue trivial
  | .close => .isTrue trivial

/-- An `_onData` on a failed client does nothing but fail again: no event is
delivered, no frame sent and nothing resolved. -/
def SilentAfterFailure (o : Outer σ) : ClientAction → Prop
  | .data chunk => o.client.hasFailed = true →
    ∃ out, (o.onData H sha256 chunk).client.log = o.client.log ++ out ∧
      ∀ x ∈ out, x.isFailure = true
  | _ => True

def Outer.Fresh (o : Outer σ) : Prop :=
  o.buffer = [] ∧ ∃ address channel generation maxOutstanding deadlineMs hop env,
    o.client = OuterClient.create address channel generation maxOutstanding deadlineMs hop env

theorem send_cases (c : OuterClient σ) (target : Endpoint) (contentType : String) (payload : Bytes)
    (options : SendOptions) (now : ℕ) :
    ∃ s a out, (c.send sha256 target contentType payload options now).1 =
        { c with sequence := s, attempt := a, outstanding := out } ∨
      ∃ frame, (c.send sha256 target contentType payload options now).1 =
        ({ c with sequence := s, attempt := a, outstanding := out }.sendFrame (.ok frame)).1 := by
  simp only [OuterClient.send]
  split
  · exact ⟨_, _, _, .inl rfl⟩
  · split
    · exact ⟨_, _, _, .inl rfl⟩
    · split
      · exact ⟨_, _, _, .inl rfl⟩
      · split
        · split
          · exact ⟨_, _, _, .inl rfl⟩
          · split
            · rename_i hresult
              exact ⟨_, _, _, .inr ⟨_, (congrArg Prod.fst hresult).symm⟩⟩
            · rename_i hresult
              exact ⟨_, _, _, .inr ⟨_, (congrArg Prod.fst hresult).symm⟩⟩
        · split
          · rename_i hresult
            exact ⟨_, _, _, .inr ⟨_, (congrArg Prod.fst hresult).symm⟩⟩
          · rename_i hresult
            exact ⟨_, _, _, .inr ⟨_, (congrArg Prod.fst hresult).symm⟩⟩

theorem send_later (c : OuterClient σ) (target : Endpoint) (contentType : String) (payload : Bytes)
    (options : SendOptions) (now : ℕ) :
    Later c (c.send sha256 target contentType payload options now).1 := by
  obtain ⟨s, a, out, h⟩ := send_cases sha256 c target contentType payload options now
  have hcount : Later c { c with sequence := s, attempt := a, outstanding := out } :=
    .of_append [] rfl (List.append_nil _).symm rfl
  rcases h with h | ⟨frame, h⟩
  · rw [h]
    exact hcount
  · rw [h]
    exact hcount.trans (sendFrame_later _ (.ok frame))

theorem exchange_later (c : OuterClient σ) (w : ℕ) (target : Endpoint) (contentType : String)
    (payload : Bytes) (options : SendOptions) (now : ℕ) :
    Later c (c.exchange sha256 w target contentType payload options now) := by
  have hsend := send_later sha256 c target contentType payload options now
  simp only [OuterClient.exchange]
  split
  · rename_i hresult
    rwa [hresult] at hsend
  · rename_i hresult
    rw [hresult] at hsend
    exact hsend.trans (.of_append [] rfl (List.append_nil _).symm rfl)

theorem connected_later (c : OuterClient σ) : Later c c.connected := by
  have hopen : ∀ hello, Later c { c with socket := true, hello := hello } := fun hello =>
    .of_append [] rfl (List.append_nil _).symm rfl
  simp only [OuterClient.connected]
  split
  · exact (hopen true).trans (sendFrame_later _ _)
  · exact hopen _

theorem finish_later (c : OuterClient σ) : Later c c.finish := by
  simp only [OuterClient.finish]
  split
  · exact .refl c
  · have hmark : Later c { c with finishing := true, finishAck := true } :=
      .of_append [] rfl (List.append_nil _).symm rfl
    exact hmark.trans (sendFrame_later _ _)

theorem step_later {o o' : Outer σ} {a : ClientAction} (h : o.step H sha256 a = some o') :
    Later o.client o'.client := by
  have hkeep : ∀ c' : OuterClient σ, c'.log = o.client.log → c'.closed = o.client.closed →
      Later o.client c' := fun c' hlog hclosed =>
    .of_append [] rfl (hlog.trans (List.append_nil _).symm) hclosed
  cases a with
  | connected => cases h; exact connected_later _
  | data chunk => cases h; exact drain_later H sha256 _ _
  | socketError => cases h; exact fail_later H _ _
  | socketClosed => cases h; exact fail_later H _ _
  | subscribe id handler => cases h; exact hkeep _ rfl rfl
  | unsubscribe id => cases h; exact hkeep _ rfl rfl
  | listen l => cases h; exact hkeep _ rfl rfl
  | unlisten l => cases h; exact hkeep _ rfl rfl
  | send target contentType payload options now => cases h; exact send_later sha256 _ _ _ _ _ _
  | exchange w target contentType payload options now =>
    cases h
    exact exchange_later sha256 _ _ _ _ _ _ _
  | expire id => cases h; exact hkeep _ rfl rfl
  | finish => cases h; exact finish_later _
  | close => cases h; exact ⟨List.prefix_rfl, fun _ => rfl, .inl⟩

/-- On a failed client every failure found it closed. -/
def FailedClosed (o : Outer σ) : Prop := o.client.hasFailed = true → o.client.closed = true

theorem step_failedClosed {o o' : Outer σ} {a : ClientAction} (ho : FailedClosed o)
    (h : o.step H sha256 a = some o') : FailedClosed o' := by
  intro hfailed
  have hlater := step_later H sha256 h
  rcases hlater.failed hfailed with hbefore | hclosed
  · exact hlater.closed (ho hbefore)
  · exact hclosed

theorem onData_silent {o : Outer σ} {chunk : Bytes} (ho : FailedClosed o)
    (hhead : HeadIncomplete o (.data chunk)) : SilentAfterFailure H sha256 o (.data chunk) := by
  intro hfailed
  have hhead := hhead hfailed
  have hclosed := ho hfailed
  cases hnext : nextFrame (o.buffer ++ chunk) with
  | more =>
    refine ⟨[], ?_, by simp⟩
    simp only [Outer.onData, drain_more framing _ hnext, List.append_nil]
  | stuck size =>
    -- the bound is exceeded once more, and `_fail` returns at once
    refine ⟨[.failed (.oversized size)], ?_, by simp [Output.isFailure]⟩
    simp only [Outer.onData, drain_stuck framing _ hnext, consumer, OuterClient.fail,
      OuterClient.record, hclosed, if_true]
  | item i rest => exact absurd ⟨i, rest, hnext⟩ hhead

/-- Framing does not depend on how the stream is cut, up to the first failure;
and in a run in which a failed client is never left with a complete frame at the
head of its buffer, it stays silent. -/
theorem framing_independent_of_chunks :
    (∀ (c : OuterClient σ) (chunks chunks' : List Bytes), chunks.flatten = chunks'.flatten →
      upToFailure ((⟨c, []⟩ : Outer σ).onChunks H sha256 chunks).client.log =
        upToFailure ((⟨c, []⟩ : Outer σ).onChunks H sha256 chunks').client.log) ∧
    ∀ (o o' : Outer σ) (as : List ClientAction), o.Fresh →
      runs (Outer.step H sha256) o as = some o' →
      Along (Outer.step H sha256) HeadIncomplete o as →
      Along (Outer.step H sha256) (SilentAfterFailure H sha256) o as := by
  constructor
  · intro c chunks chunks' hflat
    rw [upToFailure_onChunks, upToFailure_onChunks, hflat]
  · rintro o o' as ⟨_, _, _, _, _, _, _, _, hcreate⟩ hrun hquiet
    have hstart : FailedClosed o := by
      intro hfailed
      rw [hasFailed, hcreate] at hfailed
      cases hfailed
    apply Along.of_invariant (I := FailedClosed) _ hquiet hrun hstart
    intro s a s' hhead hs hstep
    refine ⟨?_, step_failedClosed H sha256 hs hstep⟩
    cases a with
    | data chunk => exact onData_silent H sha256 hs hhead
    | _ => trivial

end

/-- Handlers that note nothing and never throw. -/
def quietHandlers : Handlers Unit where
  subscription _ _ _ := ⟨(), [], false⟩
  listener _ _ _ := ⟨(), [], false⟩

/-- A direct connection to an agent, just constructed. -/
def directClient : Outer Unit :=
  ⟨OuterClient.create "tcp://a:1" "c" 1 256 120000 false (), []⟩

theorem directClient_fresh : directClient.Fresh := ⟨rfl, _, _, _, _, _, _, _, rfl⟩

def sampleChunk : Bytes := leBytes 4 54 ++ sampleFrame 1

/-- An oversized frame blocks the buffer, and whatever follows stays unread. -/
def oversizedThenGood : List ClientAction :=
  [.connected, .data [0xFF, 0xFF, 0xFF, 0xFF], .data sampleChunk]

theorem oversized_stays_silent :
    (∃ o', runs (Outer.step quietHandlers id) directClient oversizedThenGood = some o' ∧
      o'.client.hasFailed = true) ∧
    Along (Outer.step quietHandlers id) (SilentAfterFailure quietHandlers id) directClient
      oversizedThenGood := by
  obtain ⟨o', hrun, hfailed⟩ := runs_exists (Outer.step quietHandlers id) directClient
    oversizedThenGood (fun o => o.client.hasFailed) (by decide +kernel)
  refine ⟨⟨o', hrun, hfailed⟩, ?_⟩
  exact (framing_independent_of_chunks quietHandlers id).2 directClient o' oversizedThenGood
    directClient_fresh hrun (by decide +kernel)

/-- A frame of one byte is no event. The client has failed on it, and the next
chunk is still delivered. -/
theorem delivers_after_failure : directClient.Fresh ∧
    ∃ o o', runs (Outer.step quietHandlers id) directClient
        [.connected, .data [1, 0, 0, 0, 0xFF]] = some o ∧
      o.client.hasFailed = true ∧
      Outer.step quietHandlers id o (.data sampleChunk) = some o' ∧
      o'.client.log = o.client.log ++ [.deliver none (sampleMeta (some .data)) []] := by
  refine ⟨directClient_fresh, _, _, rfl, ?_, rfl, ?_⟩
  · decide +kernel
  · decide +kernel

end KvasirNet.Wire
