import KvasirNet.OuterFraming

/-! Who hears of a lost connection. `_fail` rejects the waiters and calls the
listeners, and a refusal goes to the waiter of the request or else to the
listeners; neither calls a subscription. -/
namespace KvasirNet.Wire

def Output.isErrorTo (id : String) (waiter : ℕ) : Output → Bool
  | waiterRejected id' waiter' _ => id' = id ∧ waiter' = waiter
  | _ => false

def Output.isErrorToSubscription (id : String) (handler : ℕ) : Output → Bool
  | subscriptionCalled id' handler' (.error _ _) => id' = id ∧ handler' = handler
  | _ => false

/-- Neither a rejection nor a call of a subscription. -/
def Output.isElsewhere : Output → Bool
  | waiterRejected .. => false
  | subscriptionCalled .. => false
  | _ => true

section
variable {σ : Type}

/-- What the client did between two points of its log. -/
def newOutputs (c c' : OuterClient σ) : List Output := c'.log.drop c.log.length

theorem newOutputs_of_append {c c' : OuterClient σ} {out : List Output}
    (h : c'.log = c.log ++ out) : newOutputs c c' = out := by
  rw [newOutputs, h, List.drop_left]

/-- The waiter under `id`, and the subscription under `id`, each heard of an
error exactly once. -/
def ReportedTo (c c' : OuterClient σ) (id : String) : Prop :=
  (∀ w, c.waiters.lookup id = some w →
    (newOutputs c c').countP (Output.isErrorTo id w) = 1) ∧
  ∀ h, c.subscriptions.lookup id = some h →
    (newOutputs c c').countP (Output.isErrorToSubscription id h) = 1

theorem countP_errorTo_elsewhere {out : List Output} (h : ∀ o ∈ out, o.isElsewhere = true)
    (id : String) (w : ℕ) : out.countP (Output.isErrorTo id w) = 0 := by
  apply List.countP_eq_zero.mpr
  intro o ho
  have helse := h o ho
  cases o <;> simp [Output.isElsewhere, Output.isErrorTo] at *

theorem countP_errorToSubscription_elsewhere {out : List Output}
    (h : ∀ o ∈ out, o.isElsewhere = true) (id : String) (w : ℕ) :
    out.countP (Output.isErrorToSubscription id w) = 0 := by
  apply List.countP_eq_zero.mpr
  intro o ho
  have helse := h o ho
  cases o <;> simp [Output.isElsewhere, Output.isErrorToSubscription] at *

theorem countP_rejections (t : Table String ℕ) (e : ClientError) {id : String} {w : ℕ}
    (h : t.lookup id = some w) :
    (t.entries.map fun x => Output.waiterRejected x.1 x.2 e).countP (Output.isErrorTo id w) = 1 := by
  have hmem : (⟨id, w⟩ : Σ _ : String, ℕ) ∈ t.entries := (Table.mem_entries_iff t id w).mpr h
  have hnodup : t.entries.Nodup := t.nodupKeys.nodup
  rw [List.countP_map]
  calc
    t.entries.countP (Output.isErrorTo id w ∘ fun x => .waiterRejected x.1 x.2 e)
        = t.entries.count ⟨id, w⟩ := by
      apply List.countP_congr
      rintro ⟨id', w'⟩ _
      simp [Output.isErrorTo]
    _ = 1 := List.count_eq_one_of_mem hnodup hmem

theorem countP_rejections_subscription (t : Table String ℕ) (e : ClientError) (id : String)
    (h : ℕ) :
    (t.entries.map fun x => Output.waiterRejected x.1 x.2 e).countP
      (Output.isErrorToSubscription id h) = 0 := by
  apply List.countP_eq_zero.mpr
  intro o ho
  obtain ⟨x, _, rfl⟩ := List.mem_map.mp ho
  simp [Output.isErrorToSubscription]

variable (H : Handlers σ)

theorem callListeners_log (msg : Message) (ls : List ℕ) (c : OuterClient σ) :
    ∃ out, (OuterClient.callListeners H msg ls c).1.log = c.log ++ out ∧
      ∀ o ∈ out, o.isElsewhere = true := by
  induction ls generalizing c with
  | nil => exact ⟨[], (List.append_nil _).symm, by simp⟩
  | cons l ls ih =>
    simp only [OuterClient.callListeners]
    split
    · exact ⟨[.listenerCalled l msg], rfl, by simp [Output.isElsewhere]⟩
    · obtain ⟨out, hlog, hout⟩ := ih (c.react (.listenerCalled l msg) (H.listener l msg c.env))
      refine ⟨.listenerCalled l msg :: out, ?_, ?_⟩
      · rw [hlog, OuterClient.react, List.append_assoc]
        rfl
      · intro o ho
        rcases List.mem_cons.mp ho with rfl | ho
        · rfl
        · exact hout o ho

/-- `_fail` on a client that is still open: the mark, the waiters, and then
nothing that concerns a subscription. -/
theorem newOutputs_fail (c : OuterClient σ) (e : ClientError) (h : c.closed = false) :
    ∃ out, newOutputs c (c.fail H e) =
        .failed e :: (c.waiters.entries.map (fun x => .waiterRejected x.1 x.2 e) ++ out) ∧
      ∀ o ∈ out, o.isElsewhere = true := by
  have hrecord : (c.record (.failed e)).closed ≠ true := by
    rw [OuterClient.record, h]
    decide
  obtain ⟨out, hlog, hout⟩ := callListeners_log H (.error e none) c.listeners
    { c.record (.failed e) with
      closed := true
      waiters := ∅
      outstanding := ∅
      hello := false
      log := (c.record (.failed e)).log ++
        c.waiters.entries.map (fun w => .waiterRejected w.1 w.2 e) ++
          if c.hello then [.helloRejected e] else [] }
  refine ⟨(if c.hello then [.helloRejected e] else []) ++ out, ?_, ?_⟩
  · apply newOutputs_of_append
    simp only [OuterClient.fail, if_neg hrecord]
    refine hlog.trans ?_
    simp [OuterClient.record]
  · intro o ho
    rcases List.mem_append.mp ho with ho | ho
    · split at ho
      · obtain rfl := List.mem_singleton.mp ho
        rfl
      · cases ho
    · exact hout o ho

theorem newOutputs_fail_closed (c : OuterClient σ) (e : ClientError) (h : c.closed = true) :
    newOutputs c (c.fail H e) = [.failed e] := by
  apply newOutputs_of_append
  simp only [OuterClient.fail, OuterClient.record, h, if_true]

/-- Every waiter and every subscription of the client hears of the failure. -/
def FailReported (c : OuterClient σ) (e : ClientError) : Prop :=
  ∀ id, ReportedTo c (c.fail H e) id

theorem failReported_iff (c : OuterClient σ) (e : ClientError) :
    FailReported H c e ↔ c.subscriptions = ∅ ∧ (c.closed = true → c.waiters = ∅) := by
  have hempty : ∀ t : Table String ℕ, (∀ id, t.lookup id = none) → t = ∅ := by
    intro t ht
    apply AList.ext
    apply List.eq_nil_iff_forall_not_mem.mpr
    rintro ⟨id, w⟩ hmem
    have hsome := (Table.mem_entries_iff t id w).mp hmem
    rw [ht id] at hsome
    cases hsome
  cases hclosed : c.closed with
  | true =>
    -- `_fail` returned at once
    have hnew := newOutputs_fail_closed H c e hclosed
    simp only [FailReported, ReportedTo, hnew]
    constructor
    · intro h
      refine ⟨hempty _ fun id => ?_, fun _ => hempty _ fun id => ?_⟩
      · cases hs : c.subscriptions.lookup id with
        | none => rfl
        | some handler =>
          have hcount := (h id).2 handler hs
          simp [Output.isErrorToSubscription] at hcount
      · cases hw : c.waiters.lookup id with
        | none => rfl
        | some w =>
          have hcount := (h id).1 w hw
          simp [Output.isErrorTo] at hcount
    · rintro ⟨hsubs, hwaiters⟩ id
      rw [hsubs, hwaiters trivial]
      exact ⟨by simp, by simp⟩
  | false =>
    obtain ⟨out, hnew, hout⟩ := newOutputs_fail H c e hclosed
    simp only [FailReported, ReportedTo, hnew, List.countP_cons, List.countP_append,
      countP_errorTo_elsewhere hout, countP_errorToSubscription_elsewhere hout,
      countP_rejections_subscription, Output.isErrorTo, Output.isErrorToSubscription]
    constructor
    · intro h
      refine ⟨hempty _ fun id => ?_, fun hf => absurd hf (by decide)⟩
      cases hs : c.subscriptions.lookup id with
      | none => rfl
      | some handler =>
        have hcount := (h id).2 handler hs
        simp at hcount
    · rintro ⟨hsubs, _⟩ id
      refine ⟨fun w hw => ?_, by simp [hsubs]⟩
      have hcount := countP_rejections c.waiters e hw
      simpa using hcount

/-- The waiter and the subscription of a refused request hear of it. -/
def RefusalReported (c : OuterClient σ) (attempt : ℕ) (digest : Bytes) (status : UInt8)
    (detail : String) (pending : Pending) : Prop :=
  ReportedTo c (c.onHop H (.receipt attempt digest status detail)).1 pending.correlationId

theorem refusalReported_iff (c : OuterClient σ) (attempt : ℕ) (digest : Bytes) (status : UInt8)
    (detail : String) (pending : Pending) (hpending : c.outstanding.lookup attempt = some pending)
    (hdigest : pending.digest = digest) (hstatus : status ≠ 1) :
    RefusalReported H c attempt digest status detail pending ↔
      c.subscriptions.lookup pending.correlationId = none := by
  -- the refusal is one rejection, or the listeners hear of it
  obtain ⟨out, hnew, hwaiter, hsubs⟩ : ∃ out,
      newOutputs c (c.onHop H (.receipt attempt digest status detail)).1 = out ∧
      (∀ w, c.waiters.lookup pending.correlationId = some w →
        out.countP (Output.isErrorTo pending.correlationId w) = 1) ∧
      ∀ h, out.countP (Output.isErrorToSubscription pending.correlationId h) = 0 := by
    simp only [OuterClient.onHop, hpending, ne_eq, hdigest, not_true_eq_false, if_false, hstatus,
      not_false_eq_true, if_true, OuterClient.refuse]
    cases hw : c.waiters.lookup pending.correlationId with
    | some w =>
      refine ⟨[.waiterRejected pending.correlationId w (.refused status detail)],
        newOutputs_of_append rfl, ?_, by simp [Output.isErrorToSubscription]⟩
      intro w' hw'
      obtain rfl := Option.some.inj hw'
      simp [Output.isErrorTo]
    | none =>
      obtain ⟨out, hlog, hout⟩ := callListeners_log H
        (.error (.refused status detail) (some pending.correlationId)) c.listeners
        { c with outstanding := c.outstanding.erase attempt }
      exact ⟨out, newOutputs_of_append hlog, by simp,
        fun h => countP_errorToSubscription_elsewhere hout _ h⟩
  rw [RefusalReported, ReportedTo, hnew]
  constructor
  · intro h
    cases hs : c.subscriptions.lookup pending.correlationId with
    | none => rfl
    | some handler =>
      have hcount := h.2 handler hs
      rw [hsubs] at hcount
      cases hcount
  · intro hnone
    exact ⟨hwaiter, by simp [hnone]⟩

/-- `_fail` reaches everyone exactly when nobody subscribed, and no waiter is
left on a client that was closed before; a refusal, exactly when the request has
no subscription. -/
theorem failure_reported_iff :
    (∀ (c : OuterClient σ) (e : ClientError),
      FailReported H c e ↔ c.subscriptions = ∅ ∧ (c.closed = true → c.waiters = ∅)) ∧
    ∀ (c : OuterClient σ) (attempt : ℕ) (digest : Bytes) (status : UInt8) (detail : String)
      (pending : Pending), c.outstanding.lookup attempt = some pending → pending.digest = digest →
      status ≠ 1 →
      (RefusalReported H c attempt digest status detail pending ↔
        c.subscriptions.lookup pending.correlationId = none) :=
  ⟨failReported_iff H, refusalReported_iff H⟩

end

/-- A hop connection with one send outstanding and a waiter for it. -/
def waitingClient : OuterClient Unit :=
  { OuterClient.create "tcp://a:1" "c" 1 256 120000 true () with
    socket := true
    outstanding := AList.singleton 1 ⟨[1, 2], "c:1"⟩
    waiters := AList.singleton "c:1" 9 }

theorem waiter_hears_refusal :
    RefusalReported quietHandlers waitingClient 1 [1, 2] 2 "full" ⟨[1, 2], "c:1"⟩ :=
  ((failure_reported_iff quietHandlers).2 waitingClient 1 [1, 2] 2 "full" ⟨[1, 2], "c:1"⟩ rfl rfl
    (by decide)).mpr rfl

/-- A request of the pipeline: subscribed, sent, and then the connection goes. -/
def subscribedRequest : List ClientAction :=
  [.connected, .subscribe "req-1" 7,
   .send (.node "tcp://a:1" "n" 1) "prefill" [] ⟨none, .data, none, some "req-1"⟩ 1000]

/-- The subscription of a request in flight is not told. -/
theorem subscription_not_told : directClient.Fresh ∧
    ∃ o, runs (Outer.step quietHandlers id) directClient subscribedRequest = some o ∧
      o.client.subscriptions.lookup "req-1" = some 7 ∧
      newOutputs o.client (o.client.fail quietHandlers .connectionClosed) =
        [.failed .connectionClosed] ∧
      ¬FailReported quietHandlers o.client .connectionClosed := by
  refine ⟨directClient_fresh, _, rfl, by decide +kernel, by decide +kernel, ?_⟩
  rw [failReported_iff]
  intro h
  have hlookup : (∅ : Table String ℕ).lookup "req-1" = some 7 := by
    rw [← h.1]
    decide +kernel
  cases hlookup

end KvasirNet.Wire
