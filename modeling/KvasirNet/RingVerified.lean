import KvasirNet.RingExecutor
import Mathlib.Data.List.Induction
import Mathlib.Data.List.Infix

/-! The coordinator works on rings it verified, as long as no call comes upon edges that an earlier
call left half made or half used. -/
namespace KvasirNet.RingExecutor
open KvasirNet.Ring

/-! ## What is to hold -/

/-- The frames that ask the stages for something. -/
def Works : FrameKind → Bool
  | .execute | .memory | .stateGet | .stateSetBegin | .stateSetChunk | .stateSetCommit => true
  | _ => false

/-- A matching hello came in over these edges. -/
def Verified (o : Options) (trace : List Event) (next prev : ℕ) : Prop :=
  ∃ f, Event.received (some next) (some prev) f ∈ trace ∧ o.matches f = true

def answers (asked f : Frame) : Bool :=
  match asked.kind with
  | .hello => f.kind = .hello
  | .execute => f.kind = .executeResult ∧ f.requestId = asked.requestId
  | .memory => f.kind = .ack ∧ f.requestId = asked.requestId
  | .stateGet => f.kind = .stateDone ∧ f.requestId = asked.requestId
  | _ => f.kind = .stateAck ∧ f.requestId = asked.requestId

def awaited : List Event → Option Frame
  | [] => none
  | .sent _ _ f :: _ => some f
  | .received _ _ f :: before => (awaited before).filter fun asked => !answers asked f
  | .obtained _ :: before => awaited before
  | .captured :: before => awaited before
  | .returned _ _ _ :: before => awaited before

/-- A call failed in the middle of an exchange over these edges. -/
def Broken (trace : List Event) (next prev : ℕ) : Prop :=
  ∃ before, Event.returned false (some next) (some prev) :: before <:+ trace ∧
    (awaited before).isSome = true

structure Sound (o : Options) (c : Coordinator) : Prop where
  verified : ∀ next prev f before, Event.sent next prev f :: before <:+ c.trace →
    Works f.kind = true → ∃ n p, next = some n ∧ prev = some p ∧ Verified o before n p
  unbroken : ∀ next prev before, Event.returned true (some next) (some prev) :: before <:+ c.trace →
    ¬ Broken before next prev
  kept : ∀ fd, Event.obtained fd ∈ c.trace → c.next = some fd ∨ c.prev = some fd

/-! ## When it holds -/

/-- Each socket that is accepted finds its edge free. -/
def AcceptsFit : ℕ → List Accepted → Bool → Bool → Prop
  | 0, _, _, _ => True
  | _ + 1, [], _, _ => True
  | _ + 1, .failed :: _, _, _ => True
  | _ + 1, .silent :: _, _, _ => False
  | n + 1, .role byte :: rest, next, prev =>
    if byte = rolePred then prev = false ∧ AcceptsFit n rest next true
    else next = false ∧ AcceptsFit n rest true prev

/-- An attempt to connect that finds every edge free that it fills. -/
def Fits (o : Options) (net : Net) (c : Coordinator) : Prop :=
  (o.acceptNext = false → c.next = none) ∧
  (o.acceptNext = true ∨ net.dialNext = true ∧ net.roleNext = true →
    (o.dialPrev = true → c.prev = none) ∧
    (o.dialPrev = false ∨ net.dialPrev = true ∧ net.rolePrev = true →
      AcceptsFit o.accepts net.accepts (!o.acceptNext || c.next.isSome)
        (o.dialPrev || c.prev.isSome)))

/-- The invocation is not refused for what it says. -/
def Callback.admitted : Callback → Bool
  | .execute _ (some inv) => inv.version = 1
  | .memory (some op) => memoryOk op
  | .state (some inv) => inv.ok && (inv.op ≠ 3 || inv.input.any (· ≠ []))
  | _ => false

def Callback.connects (c : Coordinator) : Callback → Bool
  | .execute _ _ => true
  | .memory _ => false
  | .state (some inv) => inv.op ≠ 2 || !c.cacheMatches inv
  | .state none => false

/-- The call finds edges that were verified and that no exchange was left on, or it fills free ones. -/
def Careful (o : Options) (net : Net) (c : Coordinator) (f : Callback) : Prop :=
  f.admitted = true →
    (∀ n p, c.next = some n → c.prev = some p → Verified o c.trace n p ∧ ¬ Broken c.trace n p) ∧
    (c.next = none ∨ c.prev = none → f.connects c = true →
      (0 < o.accepts → c.listener = true) → Fits o net c)

inductive Reached (o : Options) : Coordinator → Prop
  | start (listener : Bool) : Reached o (.start listener)
  | call {c : Coordinator} (net : Net) (f : Callback) (h : Reached o c)
      (hcareful : Careful o net c f) : Reached o (c.call o net f).2

/-! ## Traces -/

variable {o : Options} {net : Net} {c : Coordinator} {s : Session} {n p : ℕ} {e : Event}
  {trace : List Event}

def Event.sockets : Event → List ℕ
  | .obtained fd => [fd]
  | .sent next prev _ => next.toList ++ prev.toList
  | .received next prev _ => next.toList ++ prev.toList
  | .captured => []
  | .returned _ next prev => next.toList ++ prev.toList

theorem Verified.cons (h : Verified o trace n p) (e : Event) : Verified o (e :: trace) n p := by
  obtain ⟨f, hf, hmatches⟩ := h
  exact ⟨f, List.mem_cons_of_mem e hf, hmatches⟩

theorem suffix_cons_cases {x : Event} {before : List Event} (h : x :: before <:+ e :: trace) :
    x = e ∧ before = trace ∨ x :: before <:+ trace := by
  rcases List.suffix_cons_iff.mp h with hhere | hthere
  · exact .inl (List.cons.inj hhere)
  · exact .inr hthere

theorem Broken.of_cons (h : Broken (e :: trace) n p) (he : e ≠ .returned false (some n) (some p)) :
    Broken trace n p := by
  obtain ⟨before, hbefore, hawaited⟩ := h
  rcases suffix_cons_cases hbefore with ⟨hhere, -⟩ | hthere
  · exact absurd hhere.symm he
  · exact ⟨before, hthere, hawaited⟩

structure Inv (o : Options) (c : Coordinator) : Prop extends Sound o c where
  known : ∀ e ∈ c.trace, ∀ fd ∈ e.sockets, fd < c.obtained
  next_lt : ∀ fd, c.next = some fd → fd < c.obtained
  prev_lt : ∀ fd, c.prev = some fd → fd < c.obtained

theorem Broken.lt (h : Inv o c) (hbroken : Broken c.trace n p) : n < c.obtained ∧ p < c.obtained := by
  obtain ⟨before, hbefore, -⟩ := hbroken
  have hmem : Event.returned false (some n) (some p) ∈ c.trace := hbefore.subset List.mem_cons_self
  exact ⟨h.known _ hmem n List.mem_cons_self,
    h.known _ hmem p (List.mem_cons_of_mem n List.mem_cons_self)⟩

theorem Inv.edges_lt (h : Inv o c) : ∀ fd ∈ c.next.toList ++ c.prev.toList, fd < c.obtained := by
  intro fd hfd
  rcases List.mem_append.mp hfd with hnext | hprev
  · exact h.next_lt fd (Option.mem_toList.mp hnext)
  · exact h.prev_lt fd (Option.mem_toList.mp hprev)

theorem Inv.note (h : Inv o s.toCoordinator)
    (hsent : ∀ next prev f, e = .sent next prev f → Works f.kind = true →
      ∃ n p, next = some n ∧ prev = some p ∧ Verified o s.trace n p)
    (hreturned : ∀ n p, e = .returned true (some n) (some p) → ¬ Broken s.trace n p)
    (hobtained : ∀ fd, e ≠ .obtained fd) (hknown : ∀ fd ∈ e.sockets, fd < s.obtained) :
    Inv o (s.note e).toCoordinator where
  verified next prev f before hbefore hworks := by
    rcases suffix_cons_cases hbefore with ⟨hhere, rfl⟩ | hthere
    · exact hsent next prev f hhere.symm hworks
    · exact h.verified next prev f before hthere hworks
  unbroken n p before hbefore := by
    rcases suffix_cons_cases hbefore with ⟨hhere, rfl⟩ | hthere
    · exact hreturned n p hhere.symm
    · exact h.unbroken n p before hthere
  kept fd hfd := by
    rcases List.mem_cons.mp hfd with hhere | hthere
    · exact absurd hhere.symm (hobtained fd)
    · exact h.kept fd hthere
  known x hx := by
    rcases List.mem_cons.mp hx with rfl | hx
    · exact hknown
    · exact h.known x hx
  next_lt := h.next_lt
  prev_lt := h.prev_lt

theorem Inv.note_received (h : Inv o s.toCoordinator) (f : Frame) :
    Inv o (s.note (.received s.next s.prev f)).toCoordinator := by
  apply h.note
  · intro next prev g hg
    cases hg
  · intro n p hreturned
    cases hreturned
  · intro fd hobtained
    cases hobtained
  · exact h.edges_lt

theorem Inv.note_sent (h : Inv o s.toCoordinator) (f : Frame)
    (hworks : Works f.kind = true →
      ∃ n p, s.next = some n ∧ s.prev = some p ∧ Verified o s.trace n p) :
    Inv o (s.note (.sent s.next s.prev f)).toCoordinator := by
  apply h.note
  · intro next prev g hg
    cases hg
    exact hworks
  · intro n p hreturned
    cases hreturned
  · intro fd hobtained
    cases hobtained
  · exact h.edges_lt

/-! ## A ring that works -/

/-- Over the edges of the coordinator a matching hello came in, and no exchange was left on them. -/
structure Working (o : Options) (n p : ℕ) (s : Session) : Prop where
  inv : Inv o s.toCoordinator
  next : s.next = some n
  prev : s.prev = some p
  verified : Verified o s.trace n p
  unbroken : ¬ Broken s.trace n p

theorem Working.send (h : Working o n p s) (kind : FrameKind) (id : Word 8) (payload : Bytes) :
    Working o n p (s.send kind id payload).2 where
  inv := h.inv.note_sent _ fun _ => ⟨n, p, h.next, h.prev, h.verified⟩
  next := h.next
  prev := h.prev
  verified := h.verified.cons _
  unbroken hbroken := h.unbroken (hbroken.of_cons fun he => by cases he)

theorem Working.received (h : Working o n p s) (f : Frame) :
    Working o n p (s.note (.received s.next s.prev f)) where
  inv := h.inv.note_received f
  next := h.next
  prev := h.prev
  verified := h.verified.cons _
  unbroken hbroken := h.unbroken (hbroken.of_cons fun he => by cases he)

theorem Working.captured (h : Working o n p s) : Working o n p (s.note .captured) where
  inv := by
    apply h.inv.note
    · intro next prev g hg
      cases hg
    · intro n p hreturned
      cases hreturned
    · intro fd hobtained
      cases hobtained
    · exact fun fd hfd => absurd hfd List.not_mem_nil
  next := h.next
  prev := h.prev
  verified := h.verified.cons _
  unbroken hbroken := h.unbroken (hbroken.of_cons fun he => by cases he)

theorem Working.congr {t : Session} (h : Working o n p s) (hnext : t.next = s.next)
    (hprev : t.prev = s.prev) (hobtained : t.obtained = s.obtained) (htrace : t.trace = s.trace) :
    Working o n p t := by
  refine ⟨⟨⟨?_, ?_, ?_⟩, ?_, ?_, ?_⟩, hnext.trans h.next, hprev.trans h.prev, ?_, ?_⟩
  · rw [htrace]
    exact h.inv.verified
  · rw [htrace]
    exact h.inv.unbroken
  · rw [htrace, hnext, hprev]
    exact h.inv.kept
  · rw [htrace, hobtained]
    exact h.inv.known
  · rw [hnext, hobtained]
    exact h.inv.next_lt
  · rw [hprev, hobtained]
    exact h.inv.prev_lt
  · rw [htrace]
    exact h.verified
  · rw [htrace]
    exact h.unbroken

theorem Working.recv (h : Working o n p s) : Working o n p s.recv.2 := by
  unfold Session.recv
  cases s.frames with
  | nil => exact h
  | cons f fs => exact (h.received f).congr rfl rfl rfl rfl

theorem Working.took (h : Working o n p s) (left : List Frame) : Working o n p (s.took left) := by
  have hall : ∀ fs : List Frame, Working o n p
      { s with trace := (fs.map (Event.received s.next s.prev)).reverse ++ s.trace } := by
    intro fs
    induction fs using List.reverseRecOn with
    | nil => exact h
    | append_singleton fs f ih =>
      rw [List.map_append, List.reverse_append]
      exact (ih.received f).congr rfl rfl rfl rfl
  exact (hall _).congr rfl rfl rfl rfl

variable {k : Session → Result} {r : Result}

theorem andThen_cases {I : Session → Prop}
    (hstop : r.1 = false → I r.2) (hgo : r.1 = true → I (k r.2).2) : I (r.andThen k).2 := by
  unfold Result.andThen
  by_cases hr : r.1 = true
  · rw [if_pos hr]
    exact hgo hr
  · rw [if_neg hr]
    exact hstop (Bool.eq_false_iff.mpr hr)

theorem Working.sendAll (h : Working o n p s) (fs : List Frame) :
    Working o n p (RingExecutor.sendAll fs s).2 := by
  induction fs generalizing s with
  | nil => exact h
  | cons f fs ih =>
    have hsend := h.send f.kind f.requestId f.payload
    exact andThen_cases (fun _ => hsend) fun _ => ih hsend

theorem Working.restoreEntries (h : Working o n p s) (seqId flags : Word 4)
    (entries : List StateEntry) :
    Working o n p (RingExecutor.restoreEntries seqId flags entries s).2 := by
  induction entries generalizing s with
  | nil => exact h
  | cons e es ih =>
    have htake : Working o n p s.takeId := h.congr rfl rfl rfl rfl
    have hsent := htake.sendAll (setFrames s.nextRequestId seqId flags e)
    apply andThen_cases (fun _ => hsent)
    intro _
    have hrecv := hsent.recv
    revert hrecv
    cases (RingExecutor.sendAll (setFrames s.nextRequestId seqId flags e) s.takeId).2.recv with
    | mk answer t =>
      intro hrecv
      cases answer with
      | none => exact hrecv
      | some f =>
        by_cases hack : f.kind = .stateAck ∧ f.requestId = s.nextRequestId ∧ ackOk e f
        · show Working o n p (ite _ _ _ : Result).2
          rw [if_pos hack]
          exact ih hrecv
        · show Working o n p (ite _ _ _ : Result).2
          rw [if_neg hack]
          exact hrecv

theorem Working.restoreRemoteState (h : Working o n p s) (seqId flags : Word 4) (data : Bytes) :
    Working o n p (RingExecutor.restoreRemoteState o seqId flags data s).2 := by
  unfold RingExecutor.restoreRemoteState
  cases decodeStateBundle data with
  | none => exact h
  | some entries =>
    dsimp only
    by_cases hbad : entries = [] ∨ ¬ Contiguous o.layerEnd entries
    · rw [if_pos hbad]
      exact h
    · rw [if_neg hbad]
      have hrestored := h.restoreEntries seqId flags entries
      exact andThen_cases (fun _ => hrestored) fun _ => hrestored.congr rfl rfl rfl rfl

/-! ## An attempt to connect -/

/-- No exchange was left on the edges, if there are two. -/
def NoneBroken (s : Session) : Prop :=
  ∀ n p, s.next = some n → s.prev = some p → ¬ Broken s.trace n p

structure Attempt (o : Options) (s : Session) : Prop where
  inv : Inv o s.toCoordinator
  unbroken : NoneBroken s

theorem Attempt.assign {t : Session} (h : Attempt o s)
    (htrace : t.trace = .obtained s.obtained :: s.trace) (hobtained : t.obtained = s.obtained + 1)
    (hedges : ∀ fd, t.next = some fd ∨ t.prev = some fd ↔
      fd = s.obtained ∨ s.next = some fd ∨ s.prev = some fd)
    (hnew : t.next = some s.obtained ∨ t.prev = some s.obtained) : Attempt o t := by
  have hlt : ∀ fd, t.next = some fd ∨ t.prev = some fd → fd < t.obtained := by
    intro fd hfd
    rw [hobtained]
    rcases (hedges fd).mp hfd with rfl | hnext | hprev
    · exact Nat.lt_succ_self _
    · exact Nat.lt_succ_of_lt (h.inv.next_lt fd hnext)
    · exact Nat.lt_succ_of_lt (h.inv.prev_lt fd hprev)
  refine ⟨⟨⟨?_, ?_, ?_⟩, ?_, fun fd hfd => hlt fd (.inl hfd), fun fd hfd => hlt fd (.inr hfd)⟩, ?_⟩
  · intro next prev f before hbefore
    rw [htrace] at hbefore
    rcases suffix_cons_cases hbefore with ⟨hhere, -⟩ | hthere
    · cases hhere
    · exact h.inv.verified next prev f before hthere
  · intro n p before hbefore
    rw [htrace] at hbefore
    rcases suffix_cons_cases hbefore with ⟨hhere, -⟩ | hthere
    · cases hhere
    · exact h.inv.unbroken n p before hthere
  · intro fd hfd
    rw [htrace] at hfd
    apply (hedges fd).mpr
    rcases List.mem_cons.mp hfd with hhere | hthere
    · exact .inl (Event.obtained.inj hhere)
    · exact .inr (h.inv.kept fd hthere)
  · intro e he fd hfd
    rw [htrace] at he
    rw [hobtained]
    rcases List.mem_cons.mp he with rfl | he
    · rw [List.mem_singleton.mp hfd]
      exact Nat.lt_succ_self _
    · exact Nat.lt_succ_of_lt (h.inv.known e he fd hfd)
  · -- one of two edges is new, so no call can have failed on them
    intro n p hn hp hbroken
    rw [htrace] at hbroken
    obtain ⟨hn', hp'⟩ := Broken.lt h.inv (hbroken.of_cons fun he => by cases he)
    rcases hnew with hnew | hnew
    · rw [hn] at hnew
      exact absurd hn' (Option.some.inj hnew ▸ Nat.lt_irrefl _)
    · rw [hp] at hnew
      exact absurd hp' (Option.some.inj hnew ▸ Nat.lt_irrefl _)

theorem Attempt.next (h : Attempt o s) (hfree : s.next = none) :
    Attempt o { s.obtain with next := some s.obtained } := by
  apply h.assign rfl rfl _ (.inl rfl)
  intro fd
  rw [hfree]
  show some s.obtained = some fd ∨ s.prev = some fd ↔ _
  simp [eq_comm]

theorem Attempt.prev (h : Attempt o s) (hfree : s.prev = none) :
    Attempt o { s.obtain with prev := some s.obtained } := by
  apply h.assign rfl rfl _ (.inr rfl)
  intro fd
  rw [hfree]
  show s.next = some fd ∨ some s.obtained = some fd ↔ _
  simp [eq_comm, or_comm]

theorem Attempt.accept {k : ℕ} {accepts : List Accepted} (h : Attempt o s)
    (hfit : AcceptsFit k accepts s.next.isSome s.prev.isSome) :
    Attempt o (RingExecutor.accept k accepts s).2 := by
  induction k generalizing accepts s with
  | zero =>
    unfold RingExecutor.accept
    exact h
  | succ k ih =>
    cases accepts with
    | nil => exact h
    | cons a rest =>
      cases a with
      | failed => exact h
      | silent => exact hfit.elim
      | role byte =>
        unfold RingExecutor.accept
        unfold AcceptsFit at hfit
        by_cases hbyte : byte = rolePred
        · rw [if_pos hbyte] at hfit ⊢
          have hfree : s.prev = none :=
            Option.isNone_iff_eq_none.mp (Option.isSome_eq_false_iff.mp hfit.1)
          exact ih (h.prev hfree) hfit.2
        · rw [if_neg hbyte] at hfit ⊢
          have hfree : s.next = none :=
            Option.isNone_iff_eq_none.mp (Option.isSome_eq_false_iff.mp hfit.1)
          exact ih (h.next hfree) hfit.2

/-- What connecting gives: a ring that works, or a failure that loses no socket. -/
structure Connects (o : Options) (r : Result) : Prop where
  inv : Inv o r.2.toCoordinator
  working : r.1 = true → ∃ n p, Working o n p r.2

theorem Connects.fail (h : Inv o s.toCoordinator) : Connects o (false, s) :=
  ⟨h, fun hr => by cases hr⟩

theorem connects_andThen
    (hstop : r.1 = false → Inv o r.2.toCoordinator) (hgo : r.1 = true → Connects o (k r.2)) : Connects o (r.andThen k) := by
  unfold Result.andThen
  by_cases hr : r.1 = true
  · rw [if_pos hr]
    exact hgo hr
  · rw [if_neg hr]
    exact ⟨hstop (Bool.eq_false_iff.mpr hr), fun h => absurd h hr⟩

theorem connects_exchangeHello (h : Attempt o s) (hn : s.next = some n) (hp : s.prev = some p) :
    Connects o (exchangeHello o s) := by
  have hsent : Inv o (s.send .hello 0 o.hello.bytes).2.toCoordinator :=
    h.inv.note_sent _ fun hworks => by cases hworks
  apply connects_andThen (fun _ => hsent)
  intro _
  unfold Session.recv
  cases (s.send .hello 0 o.hello.bytes).2.frames with
  | nil => exact Connects.fail hsent
  | cons f fs =>
    have hreceived := Inv.note_received hsent f
    refine ⟨hreceived, fun hmatches => ⟨n, p, hreceived, hn, hp, ⟨f, ?_, hmatches⟩, ?_⟩⟩
    · rw [← hn, ← hp]
      exact List.mem_cons_self
    · intro hbroken
      have hbefore := (hbroken.of_cons fun he => by cases he).of_cons fun he => by cases he
      exact h.unbroken n p hn hp hbefore

theorem connects_finishRing (h : Attempt o s) : Connects o (finishRing o s) := by
  have hclosed : Attempt o { s with listener := false } :=
    ⟨⟨⟨h.inv.verified, h.inv.unbroken, h.inv.kept⟩, h.inv.known, h.inv.next_lt, h.inv.prev_lt⟩,
      h.unbroken⟩
  unfold finishRing
  dsimp only
  by_cases hmissing : s.prev = none ∨ s.next = none
  · rw [if_pos hmissing]
    exact Connects.fail hclosed.inv
  · rw [if_neg hmissing]
    obtain ⟨hprev, hnext⟩ := not_or.mp hmissing
    obtain ⟨p, hp⟩ := Option.ne_none_iff_exists'.mp hprev
    obtain ⟨n, hn⟩ := Option.ne_none_iff_exists'.mp hnext
    exact connects_exchangeHello hclosed hn hp

theorem connects_attempt (h : Attempt o s) (hfit : Fits o net s.toCoordinator) :
    Connects o ((dialNext o net s).andThen fun s => (dialPrev o net s).andThen fun s =>
      (accept o.accepts net.accepts s).andThen fun s => finishRing o s) := by
  obtain ⟨hnext, hrest⟩ := hfit
  -- the first dial
  have hdialNext : Attempt o (dialNext o net s).2 ∧ (dialNext o net s).2.prev = s.prev ∧
      ((dialNext o net s).1 = true →
        (o.acceptNext = true ∨ net.dialNext = true ∧ net.roleNext = true) ∧
          (dialNext o net s).2.next.isSome = (!o.acceptNext || s.next.isSome)) := by
    unfold dialNext
    by_cases haccept : o.acceptNext = true
    · rw [if_pos haccept]
      refine ⟨h, rfl, fun _ => ⟨.inl haccept, ?_⟩⟩
      rw [haccept]
      rfl
    · rw [if_neg haccept]
      have hfree := hnext (Bool.eq_false_iff.mpr haccept)
      by_cases hdial : net.dialNext = true
      · rw [if_pos hdial]
        refine ⟨h.next hfree, rfl, fun hrole => ⟨.inr ⟨hdial, hrole⟩, ?_⟩⟩
        rw [Bool.eq_false_iff.mpr haccept]
        rfl
      · rw [if_neg hdial]
        have hsame : ({ s with next := none } : Session) = s := by rw [← hfree]
        rw [hsame]
        exact ⟨h, rfl, fun hfalse => by cases hfalse⟩
  obtain ⟨hattempt, hprevSame, hgo⟩ := hdialNext
  apply connects_andThen (fun _ => hattempt.inv)
  intro hdialed
  obtain ⟨hreached, hnextSome⟩ := hgo hdialed
  obtain ⟨hprev, haccepts⟩ := hrest hreached
  generalize (dialNext o net s).2 = t at *
  -- the second
  have hdialPrev : Attempt o (dialPrev o net t).2 ∧ (dialPrev o net t).2.next = t.next ∧
      ((dialPrev o net t).1 = true →
        (o.dialPrev = false ∨ net.dialPrev = true ∧ net.rolePrev = true) ∧
          (dialPrev o net t).2.prev.isSome = (o.dialPrev || t.prev.isSome)) := by
    unfold dialPrev
    by_cases hdials : o.dialPrev = true
    · rw [if_pos hdials]
      have hfree := hprevSame.trans (hprev hdials)
      by_cases hdial : net.dialPrev = true
      · rw [if_pos hdial]
        refine ⟨hattempt.prev hfree, rfl, fun hrole => ⟨.inr ⟨hdial, hrole⟩, ?_⟩⟩
        rw [hdials]
        rfl
      · rw [if_neg hdial]
        have hsame : ({ t with prev := none } : Session) = t := by rw [← hfree]
        rw [hsame]
        exact ⟨hattempt, rfl, fun hfalse => by cases hfalse⟩
    · rw [if_neg hdials]
      refine ⟨hattempt, rfl, fun _ => ⟨.inl (Bool.eq_false_iff.mpr hdials), ?_⟩⟩
      rw [Bool.eq_false_iff.mpr hdials]
      rfl
  obtain ⟨hattempt', hnextSame, hgo'⟩ := hdialPrev
  apply connects_andThen (fun _ => hattempt'.inv)
  intro hdialed'
  obtain ⟨hreached', hprevSome⟩ := hgo' hdialed'
  have hfit' := haccepts hreached'
  generalize (dialPrev o net t).2 = u at *
  -- the sockets that come in
  have hboth : AcceptsFit o.accepts net.accepts u.next.isSome u.prev.isSome := by
    rw [hnextSame, hnextSome, hprevSome, hprevSame]
    exact hfit'
  have haccepted := hattempt'.accept hboth
  exact connects_andThen (fun _ => haccepted.inv) fun _ => connects_finishRing haccepted

theorem connects_connectRing (h : Inv o s.toCoordinator)
    (hheld : ∀ n p, s.next = some n → s.prev = some p → Verified o s.trace n p ∧ ¬ Broken s.trace n p)
    (hfit : s.next = none ∨ s.prev = none → (0 < o.accepts → s.listener = true) →
      Fits o net s.toCoordinator) : Connects o (connectRing o net s) := by
  unfold connectRing
  by_cases hset : s.prev ≠ none ∧ s.next ≠ none
  · rw [if_pos hset]
    obtain ⟨p, hp⟩ := Option.ne_none_iff_exists'.mp hset.1
    obtain ⟨n, hn⟩ := Option.ne_none_iff_exists'.mp hset.2
    obtain ⟨hverified, hunbroken⟩ := hheld n p hn hp
    exact ⟨h, fun _ => ⟨n, p, h, hn, hp, hverified, hunbroken⟩⟩
  · rw [if_neg hset]
    by_cases hlistener : 0 < o.accepts ∧ s.listener = false
    · rw [if_pos hlistener]
      exact Connects.fail h
    · rw [if_neg hlistener]
      have hmissing : s.next = none ∨ s.prev = none := by
        by_contra hnot
        obtain ⟨hn, hp⟩ := not_or.mp hnot
        exact hset ⟨hp, hn⟩
      have hlistens : 0 < o.accepts → s.listener = true := fun hpos =>
        Bool.not_eq_false _ ▸ fun hfalse => hlistener ⟨hpos, hfalse⟩
      apply connects_attempt ⟨h, fun n p hn hp => (hheld n p hn hp).2⟩ (hfit hmissing hlistens)

/-! ## The callbacks -/

/-- What a call is to leave, with what it returns. -/
structure Leaves (o : Options) (r : Result) : Prop where
  inv : Inv o r.2.toCoordinator
  unbroken : r.1 = true → NoneBroken r.2

theorem Working.noneBroken (h : Working o n p s) : NoneBroken s := by
  intro n' p' hn hp
  obtain rfl := Option.some.inj (h.next.symm.trans hn)
  obtain rfl := Option.some.inj (h.prev.symm.trans hp)
  exact h.unbroken

theorem Working.leaves (h : Working o n p r.2) : Leaves o r :=
  ⟨h.inv, fun _ => h.noneBroken⟩

theorem leaves_fail (h : Inv o s.toCoordinator) : Leaves o (false, s) := ⟨h, fun hr => by cases hr⟩

theorem Connects.andThen (h : Connects o r)
    (hk : ∀ {n p : ℕ} {t : Session}, Working o n p t → Working o n p (k t).2) :
    Leaves o (r.andThen k) := by
  unfold Result.andThen
  by_cases hr : r.1 = true
  · rw [if_pos hr]
    obtain ⟨n, p, hworking⟩ := h.working hr
    exact (hk hworking).leaves
  · rw [if_neg hr]
    exact ⟨h.inv, fun htrue => absurd htrue hr⟩

theorem Leaves.andThen_same {b : Session → Bool} (h : Leaves o r) :
    Leaves o (r.andThen fun s => (b s, s)) := by
  unfold Result.andThen
  by_cases hr : r.1 = true
  · rw [if_pos hr]
    exact ⟨h.inv, fun _ => h.unbroken hr⟩
  · rw [if_neg hr]
    exact h

theorem Working.exchange (h : Working o n p s) (kind : FrameKind) (id : Word 8) (payload : Bytes)
    (ok : Frame → Bool) : Working o n p ((s.takeId.send kind id payload).andThen fun s =>
      match s.recv with
      | (none, s) => (false, s)
      | (some f, s) => (ok f, s)).2 := by
  have htake : Working o n p s.takeId := h.congr rfl rfl rfl rfl
  have hsent := htake.send kind id payload
  apply andThen_cases (fun _ => hsent)
  intro _
  have hrecv := hsent.recv
  cases hanswer : (s.takeId.send kind id payload).2.recv with
  | mk answer t =>
    rw [hanswer] at hrecv
    cases answer with
    | none => exact hrecv
    | some f => exact hrecv

theorem leaves_collectRemoteState (h : Connects o (connectRing o net s)) (seqId flags : Word 4) :
    Leaves o (collectRemoteState o net seqId flags s) := by
  unfold collectRemoteState
  apply h.andThen
  intro n p t hworking
  dsimp only
  by_cases hdevice : onDevice flags = true
  · rw [if_pos hdevice]
    exact hworking
  rw [if_neg hdevice]
  have htake : Working o n p t.takeId := hworking.congr rfl rfl rfl rfl
  have hsent := htake.send .stateGet t.nextRequestId (Op.getWire seqId flags).bytes
  apply andThen_cases (fun _ => hsent)
  intro _
  cases collect o.layerEnd t.nextRequestId []
      (t.takeId.send .stateGet t.nextRequestId (Op.getWire seqId flags).bytes).2.frames with
  | mk entries left =>
    have htook := hsent.took left
    cases entries with
    | none => exact htook
    | some entries =>
      dsimp only
      cases encodeStateBundle entries with
      | none => exact htook
      | some data => exact htook.captured.congr rfl rfl rfl rfl

theorem leaves_execute (h : Inv o s.toCoordinator) {ctx : Context} {inv : Invocation}
    (hconnect : inv.version = 1 → Connects o (connectRing o net s)) :
    Leaves o (execute o net ctx inv s) := by
  unfold execute
  by_cases hversion : inv.version ≠ 1
  · rw [if_pos hversion]
    exact leaves_fail h
  rw [if_neg hversion]
  apply (hconnect (not_not.mp hversion)).andThen
  intro n p t hworking
  dsimp only
  cases ctx.boundary.bind fun b => (inv.request b).toOption with
  | none => exact hworking
  | some payload =>
    exact hworking.exchange .execute t.nextRequestId payload fun f =>
      decide (f.kind = .executeResult ∧ f.requestId = t.nextRequestId) && ctx.take f.payload

theorem leaves_memory (h : Inv o s.toCoordinator) {op : MemoryOp}
    (hheld : memoryOk op = true → ∀ n p, s.next = some n → s.prev = some p →
      Verified o s.trace n p ∧ ¬ Broken s.trace n p) : Leaves o (memory op s) := by
  unfold memory
  by_cases hok : memoryOk op = false
  · rw [if_pos hok]
    exact leaves_fail h
  rw [if_neg hok]
  by_cases hmissing : s.next = none ∨ s.prev = none
  · rw [if_pos hmissing]
    refine ⟨h, fun _ n p hn hp => ?_⟩
    rcases hmissing with hnone | hnone
    · rw [hnone] at hn
      cases hn
    · rw [hnone] at hp
      cases hp
  · rw [if_neg hmissing]
    obtain ⟨hnext, hprev⟩ := not_or.mp hmissing
    obtain ⟨n, hn⟩ := Option.ne_none_iff_exists'.mp hnext
    obtain ⟨p, hp⟩ := Option.ne_none_iff_exists'.mp hprev
    obtain ⟨hverified, hunbroken⟩ := hheld (Bool.eq_true_of_not_eq_false hok) n p hn hp
    have hworking : Working o n p s := ⟨h, hn, hp, hverified, hunbroken⟩
    exact (hworking.exchange .memory s.nextRequestId op.bytes fun f =>
      decide (f.kind = .ack ∧ f.requestId = s.nextRequestId ∧ f.payload = [])).leaves

theorem leaves_state (h : Inv o s.toCoordinator) {inv : StateInvocation}
    (hnone : (Callback.state (some inv)).admitted = true → NoneBroken s)
    (hconnect : (Callback.state (some inv)).admitted = true →
      (Callback.state (some inv)).connects s.toCoordinator = true → Connects o (connectRing o net s)) :
    Leaves o (state o net inv s) := by
  unfold state
  by_cases hok : inv.ok = false
  · rw [if_pos hok]
    exact leaves_fail h
  rw [if_neg hok]
  have hok' : inv.ok = true := Bool.eq_true_of_not_eq_false hok
  have hgets : inv.op ≠ 3 → (Callback.state (some inv)).admitted = true := by
    intro hop
    rw [Callback.admitted, hok', decide_eq_true hop]
    rfl
  by_cases hsize : inv.op = 1
  · rw [if_pos hsize]
    refine leaves_collectRemoteState (hconnect (hgets ?_) ?_) inv.seqId inv.flags
    · rw [hsize]
      decide
    · rw [Callback.connects, hsize]
      rfl
  rw [if_neg hsize]
  by_cases hdata : inv.op = 2
  · rw [if_pos hdata]
    have hadmitted := hgets (by
      rw [hdata]
      decide)
    unfold getData
    apply Leaves.andThen_same
    by_cases hcache : s.cacheMatches inv = true
    · rw [if_pos hcache]
      exact ⟨h, fun _ => hnone hadmitted⟩
    · rw [if_neg hcache]
      apply leaves_collectRemoteState (hconnect hadmitted _) inv.seqId inv.flags
      rw [Callback.connects, Bool.eq_false_iff.mpr hcache]
      exact Bool.or_true _
  · rw [if_neg hdata]
    unfold setData
    cases hinput : inv.input with
    | none => exact leaves_fail h
    | some data =>
      dsimp only
      by_cases hempty : data = []
      · rw [if_pos hempty]
        exact leaves_fail h
      · rw [if_neg hempty]
        have hadmitted : (Callback.state (some inv)).admitted = true := by
          rw [Callback.admitted, hok', hinput]
          show (true && (_ || decide (data ≠ []))) = true
          rw [decide_eq_true hempty, Bool.or_true, Bool.and_true]
        have hconnects : (Callback.state (some inv)).connects s.toCoordinator = true := by
          rw [Callback.connects, decide_eq_true hdata]
          rfl
        exact (hconnect hadmitted hconnects).andThen fun hworking =>
          hworking.restoreRemoteState inv.seqId inv.flags data

theorem leaves_body {f : Callback} (h : Inv o s.toCoordinator)
    (hcareful : Careful o net s.toCoordinator f) : Leaves o (f.body o net s) := by
  have hconnect : f.admitted = true → f.connects s.toCoordinator = true →
      Connects o (connectRing o net s) := by
    intro hadmitted hconnects
    obtain ⟨hheld, hfit⟩ := hcareful hadmitted
    exact connects_connectRing h hheld fun hmissing hlistens => hfit hmissing hconnects hlistens
  match f with
  | .execute _ none => exact leaves_fail h
  | .execute ctx (some inv) =>
    exact leaves_execute h fun hversion => hconnect (decide_eq_true hversion) rfl
  | .memory none => exact leaves_fail h
  | .memory (some op) => exact leaves_memory h fun hok => (hcareful hok).1
  | .state none => exact leaves_fail h
  | .state (some inv) =>
    apply leaves_state h _ hconnect
    intro hadmitted n p hn hp
    exact ((hcareful hadmitted).1 n p hn hp).2

theorem Inv.call {f : Callback} (h : Inv o c) (hcareful : Careful o net c f) :
    Inv o (c.call o net f).2 := by
  have hbody : Leaves o (c.run o net f) :=
    leaves_body (s := c.begin net) h hcareful
  apply hbody.inv.note
  · intro next prev g hg
    cases hg
  · intro n p hreturned
    obtain ⟨hok, hn, hp⟩ := Event.returned.inj hreturned
    exact hbody.unbroken hok n p hn hp
  · intro fd hobtained
    cases hobtained
  · exact hbody.inv.edges_lt

theorem inv_start (o : Options) (listener : Bool) : Inv o (.start listener) where
  verified _ _ _ _ hbefore := absurd (List.suffix_nil.mp hbefore) (List.cons_ne_nil _ _)
  unbroken _ _ _ hbefore := absurd (List.suffix_nil.mp hbefore) (List.cons_ne_nil _ _)
  kept _ hfd := absurd hfd List.not_mem_nil
  known _ he := absurd he List.not_mem_nil
  next_lt _ hfd := by cases hfd
  prev_lt _ hfd := by cases hfd

/-- The successor is dialed, the predecessor is accepted. -/
def plainOptions : Options := ⟨false, false, 0, 2, 8, 7⟩

/-- A network where both edges are made and all frames go out. -/
def plainNet (frames : List Frame) : Net :=
  ⟨true, true, false, false, [.role rolePred], [true, true], frames⟩

def helloFrame (nEmbd : Word 4) : Frame :=
  ⟨.hello, 0, 0, 0, HelloPayload.bytes { plainOptions.hello with nEmbd := nEmbd }⟩

/-- An operation without outputs: it connects, and is not done. -/
def connectOnly : Callback :=
  .execute ⟨none, 0, fun _ => none, fun _ _ => false⟩ (some (plainInvocation 0 (by decide)))

def clearMemory : MemoryOp := ⟨1, 1, 0, 0, 0, 0, 0, 0⟩

def clearFrame (id : Word 8) : Frame := ⟨.memory, id, 0, 0, clearMemory.bytes⟩

def ackFrame (id : Word 8) : Frame := ⟨.ack, id, 0, 0, []⟩

def helloed (nEmbd : Word 4) : Coordinator :=
  ((Coordinator.start true).call plainOptions (plainNet [helloFrame nEmbd]) connectOnly).2

def helloedTrace (nEmbd : Word 4) : List Event :=
  [.returned false (some 0) (some 1), .received (some 0) (some 1) (helloFrame nEmbd),
    .sent (some 0) (some 1) (helloFrame 8), .obtained 1, .obtained 0]

end KvasirNet.RingExecutor
