import KvasirNet.PromiseJobs

/-! `withLock` of the gateway: the calls of one key, each behind the promise of the one before it.
What the functions come to, and when, is left open; so is how many jobs lie between the promise that
a function gave back and the one its caller got. -/
namespace KvasirNet.KeyLock
open PromiseJobs

variable {κ α : Type*}

/-! ## Calls -/

inductive Outcome (α : Type*)
  | fulfilled (value : α)
  | rejected (reason : α)
  deriving DecidableEq

/-- The promises of a call: `Promise.resolve()`, `next` and `guard`. -/
inductive Name
  | start (i : ℕ)
  | next (i : ℕ)
  | guard (i : ℕ)
  deriving DecidableEq

/-- What is registered for a call: to run its function, to settle `guard`, what `finally` does. -/
inductive Reaction
  | run (i : ℕ)
  | guard (i : ℕ)
  | cleanup (i : ℕ)
  deriving DecidableEq

def Reaction.call : Reaction → ℕ
  | .run i => i
  | .guard i => i
  | .cleanup i => i

def Reaction.started : Reaction → Option ℕ
  | .run i => some i
  | _ => none

/-- A call under its key in the map, with what its function came to. -/
structure Call (κ α : Type*) where
  key : κ
  prev : Name
  outcome : Option (Outcome α)

structure Lock (κ α : Type*) where
  loop : Loop Name Reaction (Outcome α)
  lockTail : κ → Option Name
  calls : List (Call κ α)

def Lock.start : Lock κ α := ⟨.start, fun _ => none, []⟩

/-! ## Steps -/

/-- `key || '*'`. -/
def lockKey (truthy : κ → Bool) (star key : κ) : κ := if truthy key then key else star

/-- `undefined` is the default value. -/
def undefined [Inhabited α] : Outcome α := .fulfilled default

/-- The function of a call has come to something. -/
def Lock.settle (s : Lock κ α) (i : ℕ) (c : Call κ α) (o : Outcome α) : Lock κ α :=
  { s with calls := s.calls.set i { c with outcome := some o } }

def Lock.adopt (s : Lock κ α) (i : ℕ) (o : Outcome α) : Lock κ α :=
  { s with loop := s.loop.settle (.next i) o }

section
variable [DecidableEq κ] [Inhabited α]

namespace Lock

def withLock (truthy : κ → Bool) (star : κ) (s : Lock κ α) (key : κ) : Lock κ α :=
  let k := lockKey truthy star key
  let i := s.calls.length
  let prev := (s.lockTail k).getD (.start i)
  let loop := if s.lockTail k = none then s.loop.settle (.start i) undefined else s.loop
  { loop := ((loop.react prev (.run i)).react (.next i) (.guard i)).react (.guard i) (.cleanup i)
    lockTail := Function.update s.lockTail k (some (.guard i))
    calls := s.calls ++ [⟨k, prev, none⟩] }

/-- What a job does. That a function was started is seen in the jobs that are done. -/
def perform (s : Lock κ α) : Reaction → Lock κ α
  | .run _ => s
  | .guard i => { s with loop := s.loop.settle (.guard i) undefined }
  | .cleanup i =>
    match s.calls[i]? with
    | none => s
    | some c =>
      if s.lockTail c.key = some (.guard i) then
        { s with lockTail := Function.update s.lockTail c.key none }
      else s

def turn (s : Lock κ α) : Lock κ α :=
  match s.loop.jobs with
  | [] => s
  | (r, _) :: rest => { s with loop := s.loop.pop r rest }.perform r

end Lock

inductive Step (truthy : κ → Bool) (star : κ) : Lock κ α → Lock κ α → Prop
  | call (s : Lock κ α) (key : κ) : Step truthy star s (s.withLock truthy star key)
  | job {s : Lock κ α} (h : s.loop.jobs ≠ []) : Step truthy star s s.turn
  | settle {s : Lock κ α} {i : ℕ} {c : Call κ α} (o : Outcome α) (h : s.calls[i]? = some c)
      (hrun : .run i ∈ s.loop.done) (hnone : c.outcome = none) :
      Step truthy star s (s.settle i c o)
  | adopt {s : Lock κ α} {i : ℕ} {c : Call κ α} {o : Outcome α} (h : s.calls[i]? = some c)
      (ho : c.outcome = some o) : Step truthy star s (s.adopt i o)

end

/-! ## What a lock is -/

namespace Lock

variable (s : Lock κ α)

def keyAt (i : ℕ) : Option κ := s.calls[i]?.map Call.key

/-- The calls whose functions were started, in this order. -/
def starts : List ℕ := s.loop.done.filterMap Reaction.started

/-- The function was started and has not come to anything. -/
def Running (i : ℕ) : Prop := i ∈ s.starts ∧ ∃ c, s.calls[i]? = some c ∧ c.outcome = none

/-- Every function of the key has come to something, its caller's promise too, and no job of such a
call is queued. -/
def Quiet (k : κ) : Prop :=
  (∀ i c, s.calls[i]? = some c → c.key = k → c.outcome ≠ none ∧ s.loop.Settled (.next i)) ∧
    ∀ r o, (r, o) ∈ s.loop.jobs → s.keyAt r.call ≠ some k

end Lock

structure Locked (s : Lock κ α) : Prop where
  exclusive : ∀ i j, s.Running i → s.Running j → s.keyAt i = s.keyAt j → i = j
  once : s.starts.Nodup
  ordered : s.starts.Pairwise fun i j => s.keyAt i = s.keyAt j → i < j
  called : ∀ i ∈ s.starts, i < s.calls.length
  own : ∀ i o, s.loop.promise (.next i) = .settled o →
    ∃ c, s.calls[i]? = some c ∧ c.outcome = some o
  cleaned : ∀ k, s.Quiet k → s.lockTail k = none

/-! ## The invariant -/

section
variable {s : Lock κ α}

namespace Lock

variable (s)

def on : Reaction → Option Name
  | .run i => s.calls[i]?.map Call.prev
  | .guard i => if i < s.calls.length then some (.next i) else none
  | .cleanup i => if i < s.calls.length then some (.guard i) else none

/-- The call is over: the next one of its key may run. -/
def Opened (i : ℕ) : Prop := s.loop.Settled (.guard i)

/-- What a call waits for: nothing, as all calls of its key were over, or the call of its key just
before it. -/
def Waits (i : ℕ) (prev : Name) : Prop :=
  (prev = .start i ∧ s.loop.Settled (.start i) ∧ ∀ j < i, s.keyAt j = s.keyAt i → s.Opened j) ∨
    ∃ m < i, prev = .guard m ∧ s.keyAt m = s.keyAt i ∧
      ∀ j, m < j → j < i → s.keyAt j ≠ s.keyAt i

/-- The entry of a key is the last call's; without one all calls are over. -/
def Entry (k : κ) : Option Name → Prop
  | none => ∀ i, s.keyAt i = some k → s.Opened i
  | some n => ∃ m, n = .guard m ∧ s.keyAt m = some k ∧ .cleanup m ∉ s.loop.done ∧
      ∀ j, s.keyAt j = some k → j ≤ m

end Lock

variable {i : ℕ}

theorem Lock.mem_starts : i ∈ s.starts ↔ .run i ∈ s.loop.done := by
  rw [Lock.starts, List.mem_filterMap]
  constructor
  · rintro ⟨r, hr, hi⟩
    cases r with
    | run j =>
      obtain rfl := Option.some.inj hi
      exact hr
    | guard j => cases hi
    | cleanup j => cases hi
  · exact fun hi => ⟨_, hi, rfl⟩

structure Inv (s : Lock κ α) : Prop where
  tracked : Tracked s.loop s.on
  ended : ∀ i c, s.calls[i]? = some c → c.outcome ≠ none → .run i ∈ s.loop.done
  own : ∀ i o, s.loop.promise (.next i) = .settled o →
    ∃ c, s.calls[i]? = some c ∧ c.outcome = some o
  opened : ∀ i, s.Opened i ↔ .guard i ∈ s.loop.done
  waits : ∀ i c, s.calls[i]? = some c → s.Waits i c.prev
  entry : ∀ k, s.Entry k (s.lockTail k)

namespace Inv

variable (h : Inv s)
include h

theorem lt_of_done {r : Reaction} (hr : r ∈ s.loop.done) : r.call < s.calls.length := by
  obtain ⟨p, hp, -⟩ := h.tracked.ran r hr
  cases r with
  | run i =>
    obtain ⟨c, hc, -⟩ := Option.map_eq_some_iff.mp hp
    exact (List.getElem?_eq_some_iff.mp hc).1
  | guard i =>
    by_contra hlt
    exact Option.some_ne_none p (hp.symm.trans (if_neg hlt))
  | cleanup i =>
    by_contra hlt
    exact Option.some_ne_none p (hp.symm.trans (if_neg hlt))

theorem ended_of_opened {i : ℕ} (hi : s.Opened i) :
    ∃ c o, s.calls[i]? = some c ∧ c.outcome = some o ∧ s.loop.promise (.next i) = .settled o ∧
      .run i ∈ s.loop.done := by
  have hguard := (h.opened i).mp hi
  have hlt : i < s.calls.length := h.lt_of_done hguard
  obtain ⟨p, hp, o, ho⟩ := h.tracked.ran _ hguard
  rw [Lock.on, if_pos hlt] at hp
  obtain rfl := Option.some.inj hp
  obtain ⟨c, hc, houtcome⟩ := h.own i o ho
  exact ⟨c, o, hc, houtcome, ho, h.ended i c hc (houtcome ▸ Option.some_ne_none o)⟩

theorem due_of_ran {i : ℕ} {c : Call κ α} (hc : s.calls[i]? = some c)
    (hi : .run i ∈ s.loop.done) : s.loop.Settled c.prev := by
  obtain ⟨p, hp, hsettled⟩ := h.tracked.ran _ hi
  rw [Lock.on, hc] at hp
  exact Option.some.inj hp ▸ hsettled

theorem opened_of_due {i : ℕ} {c : Call κ α} (hc : s.calls[i]? = some c)
    (hdue : s.loop.Settled c.prev) : ∀ j < i, s.keyAt j = s.keyAt i → s.Opened j := by
  -- along the calls of the key, each behind the one before it
  induction i using Nat.strongRecOn generalizing c with
  | ind i ih =>
    intro j hj hkey
    rcases h.waits i c hc with ⟨-, -, hall⟩ | ⟨m, hm, hprev, hmkey, hbetween⟩
    · exact hall j hj hkey
    · have hopened : s.Opened m := by
        rw [hprev] at hdue
        exact hdue
      rcases Nat.lt_trichotomy j m with hlt | rfl | hlt
      · obtain ⟨d, -, hd, -, -, hran⟩ := h.ended_of_opened hopened
        exact ih m hm hd (h.due_of_ran hd hran) j hlt (hkey.trans hmkey.symm)
      · exact hopened
      · exact absurd hkey (hbetween j hlt hj)

theorem opened_of_ran {i j : ℕ} (hi : .run i ∈ s.loop.done) (hj : j < i)
    (hkey : s.keyAt j = s.keyAt i) : s.Opened j := by
  have hc := List.getElem?_eq_getElem (h.lt_of_done hi)
  exact h.opened_of_due hc (h.due_of_ran hc hi) j hj hkey

theorem running_eq {i j : ℕ} (hi : s.Running i) (hj : s.Running j)
    (hkey : s.keyAt i = s.keyAt j) : i = j := by
  have hnot : ∀ {i j : ℕ}, s.Running i → s.Running j → s.keyAt i = s.keyAt j → ¬ i < j := by
    intro i j ⟨_, c, hc, hnone⟩ ⟨hj, _⟩ hkey hlt
    obtain ⟨d, o, hd, houtcome, -, -⟩ :=
      h.ended_of_opened (h.opened_of_ran (Lock.mem_starts.mp hj) hlt hkey)
    obtain rfl : c = d := Option.some.inj (hc.symm.trans hd)
    exact Option.some_ne_none o (houtcome.symm.trans hnone)
  have hij := hnot hi hj hkey
  have hji := hnot hj hi hkey.symm
  omega

theorem tail_of_quiet {k : κ} (hquiet : s.Quiet k) : s.lockTail k = none := by
  have hentry := h.entry k
  cases htail : s.lockTail k with
  | none => rfl
  | some n =>
    rw [htail] at hentry
    obtain ⟨m, -, hkey, hcleanup, -⟩ := hentry
    obtain ⟨c, hc, hck⟩ := Option.map_eq_some_iff.mp hkey
    have hlt : m < s.calls.length := (List.getElem?_eq_some_iff.mp hc).1
    obtain ⟨-, o, ho⟩ := hquiet.1 m c hc hck
    have hguard : .guard m ∈ s.loop.done := by
      refine (h.tracked.settled (.guard m) _ o (if_pos hlt) ho).resolve_right fun hjob => ?_
      exact hquiet.2 _ o hjob hkey
    obtain ⟨o', ho'⟩ := (h.opened m).mpr hguard
    rcases h.tracked.settled (.cleanup m) _ o' (if_pos hlt) ho' with hdone | hjob
    · exact absurd hdone hcleanup
    · exact absurd hkey (hquiet.2 _ o' hjob)

end Inv

/-! ### What keeps it -/

variable {t : Lock κ α}

theorem Lock.Waits.mono {prev : Name} (h : s.Waits i prev)
    (hkeys : ∀ j ≤ i, t.keyAt j = s.keyAt j) (hsettled : ∀ p, s.loop.Settled p → t.loop.Settled p) :
    t.Waits i prev := by
  rcases h with ⟨hprev, hstart, hall⟩ | ⟨m, hm, hprev, hkey, hbetween⟩
  · refine .inl ⟨hprev, hsettled _ hstart, fun j hj hkey => hsettled _ (hall j hj ?_)⟩
    rw [← hkeys j (Nat.le_of_lt hj), ← hkeys i (Nat.le_refl i)]
    exact hkey
  · refine .inr ⟨m, hm, hprev, ?_, fun j hmj hji => ?_⟩
    · rw [hkeys m (Nat.le_of_lt hm), hkeys i (Nat.le_refl i)]
      exact hkey
    · rw [hkeys j (Nat.le_of_lt hji), hkeys i (Nat.le_refl i)]
      exact hbetween j hmj hji

theorem Lock.Entry.mono {k : κ} {e : Option Name} (h : s.Entry k e)
    (hkeys : ∀ j, t.keyAt j = some k ↔ s.keyAt j = some k)
    (hsettled : ∀ p, s.loop.Settled p → t.loop.Settled p)
    (hcleanup : ∀ m, e = some (.guard m) → .cleanup m ∈ t.loop.done → .cleanup m ∈ s.loop.done) :
    t.Entry k e := by
  cases e with
  | none => exact fun i hi => hsettled _ (h i ((hkeys i).mp hi))
  | some n =>
    obtain ⟨m, hn, hkey, hnot, hlast⟩ := h
    refine ⟨m, hn, (hkeys m).mpr hkey, fun hdone => hnot (hcleanup m (hn ▸ rfl) hdone), ?_⟩
    exact fun j hj => hlast j ((hkeys j).mp hj)

variable {c : Call κ α}

theorem getElem?_settle {β : Type*} {f : Call κ α → β} {o : Outcome α}
    (h : s.calls[i]? = some c) (hf : f { c with outcome := some o } = f c) (j : ℕ) :
    (s.settle i c o).calls[j]?.map f = s.calls[j]?.map f := by
  rw [Lock.settle, List.getElem?_set]
  by_cases hij : i = j
  · subst hij
    rw [if_pos rfl, if_pos (List.getElem?_eq_some_iff.mp h).1, h]
    exact congrArg some hf
  · rw [if_neg hij]

theorem Inv.settle (h : Inv s) (o : Outcome α) (hc : s.calls[i]? = some c)
    (hrun : .run i ∈ s.loop.done) (hnone : c.outcome = none) : Inv (s.settle i c o) := by
  have hkeys : ∀ j, (s.settle i c o).keyAt j = s.keyAt j := getElem?_settle hc rfl
  have hlength : (s.settle i c o).calls.length = s.calls.length := List.length_set
  have hon : (s.settle i c o).on = s.on := by
    funext r
    cases r with
    | run j => exact getElem?_settle hc rfl j
    | guard j => rw [Lock.on, Lock.on, hlength]
    | cleanup j => rw [Lock.on, Lock.on, hlength]
  have hcalls : ∀ j d, (s.settle i c o).calls[j]? = some d →
      (j = i ∧ d = { c with outcome := some o }) ∨ s.calls[j]? = some d := by
    intro j d hd
    rw [Lock.settle, List.getElem?_set] at hd
    by_cases hij : i = j
    · rw [if_pos hij, if_pos (hij ▸ (List.getElem?_eq_some_iff.mp hc).1)] at hd
      exact .inl ⟨hij.symm, (Option.some.inj hd).symm⟩
    · rw [if_neg hij] at hd
      exact .inr hd
  refine ⟨?_, fun j d hd hne => ?_, fun j o' hj => ?_, h.opened, fun j d hd => ?_, fun k => ?_⟩
  · rw [hon]
    exact h.tracked
  · rcases hcalls j d hd with ⟨rfl, -⟩ | hd
    · exact hrun
    · exact h.ended j d hd hne
  · obtain ⟨d, hd, houtcome⟩ := h.own j o' hj
    have hji : i ≠ j := by
      rintro rfl
      obtain rfl : c = d := Option.some.inj (hc.symm.trans hd)
      rw [hnone] at houtcome
      cases houtcome
    refine ⟨d, ?_, houtcome⟩
    rw [Lock.settle, List.getElem?_set, if_neg hji]
    exact hd
  · have hwaits : s.Waits j d.prev := by
      rcases hcalls j d hd with ⟨rfl, rfl⟩ | hd
      · exact h.waits j c hc
      · exact h.waits j d hd
    exact hwaits.mono (fun l _ => hkeys l) fun p hp => hp
  · exact (h.entry k).mono (fun j => by rw [hkeys j]) (fun p hp => hp) fun m _ hm => hm

theorem settled_settle_of {l : Loop Name Reaction (Outcome α)} {p : Name} (q : Name) (o : Outcome α)
    (h : l.Settled p) : (l.settle q o).Settled p := by
  obtain ⟨o', ho'⟩ := h
  exact ⟨o', (l.promise_settle q p o o').mpr (.inl ho')⟩

theorem Inv.adopt (h : Inv s) {o : Outcome α} (hc : s.calls[i]? = some c)
    (ho : c.outcome = some o) : Inv (s.adopt i o) := by
  have hmono : ∀ p, s.loop.Settled p → (s.adopt i o).loop.Settled p :=
    fun p hp => settled_settle_of _ _ hp
  have hdone : (s.adopt i o).loop.done = s.loop.done := s.loop.done_settle _ _
  refine ⟨h.tracked.settle _ _, fun j d hd hne => ?_, fun j o' hj => ?_, fun j => ?_,
    fun j d hd => ?_, fun k => ?_⟩
  · rw [hdone]
    exact h.ended j d hd hne
  · rcases (s.loop.promise_settle _ _ _ _).mp hj with hj | ⟨hname, rfl, -⟩
    · exact h.own j o' hj
    · obtain rfl := Name.next.inj hname
      exact ⟨c, hc, ho⟩
  · rw [hdone, ← h.opened j]
    constructor
    · rintro ⟨o', ho'⟩
      rcases (s.loop.promise_settle _ _ _ _).mp ho' with ho' | ⟨hname, -⟩
      · exact ⟨o', ho'⟩
      · cases hname
    · exact hmono _
  · exact (h.waits j d hd).mono (fun l _ => rfl) hmono
  · exact (h.entry k).mono (fun j => Iff.rfl) hmono fun m _ hm => hdone ▸ hm

theorem Inv.turn [DecidableEq κ] [Inhabited α] (h : Inv s) : Inv s.turn := by
  unfold Lock.turn
  cases hjobs : s.loop.jobs with
  | nil => exact h
  | cons job rest =>
    obtain ⟨r, o⟩ := job
    dsimp only
    have htracked := h.tracked.pop hjobs
    have hmem : ∀ {r' : Reaction}, r' ∈ s.loop.done ++ [r] → r' ≠ r → r' ∈ s.loop.done := by
      intro r' hr' hne
      exact (List.mem_append.mp hr').resolve_right fun hlast => hne (List.mem_singleton.mp hlast)
    have hold : ∀ {r' : Reaction}, r' ∈ s.loop.done → r' ∈ s.loop.done ++ [r] :=
      fun hr' => List.mem_append_left _ hr'
    cases r with
    | run i =>
      refine ⟨htracked, fun j d hd hne => hold (h.ended j d hd hne), h.own, fun j => ?_, h.waits,
        fun k => ?_⟩
      · refine (h.opened j).trans ⟨hold, fun hj => hmem hj fun heq => by cases heq⟩
      · exact (h.entry k).mono (fun j => Iff.rfl) (fun p hp => hp)
          fun m _ hm => hmem hm fun heq => by cases heq
    | guard i =>
      set l := s.loop.pop (.guard i) rest with hl
      have hmono : ∀ p, s.loop.Settled p → (l.settle (.guard i) undefined).Settled p :=
        fun p hp => settled_settle_of _ _ hp
      have hdone : (l.settle (.guard i) (undefined : Outcome α)).done = s.loop.done ++ [.guard i] :=
        l.done_settle _ _
      refine ⟨htracked.settle _ _, fun j d hd hne => ?_, fun j o' hj => ?_, fun j => ?_,
        fun j d hd => (h.waits j d hd).mono (fun _ _ => rfl) hmono, fun k => ?_⟩
      · exact hdone ▸ hold (h.ended j d hd hne)
      · rcases (l.promise_settle _ _ _ _).mp hj with hj | ⟨hname, -⟩
        · exact h.own j o' hj
        · cases hname
      · show (l.settle (.guard i) undefined).Settled (.guard j) ↔
          .guard j ∈ (l.settle (.guard i) (undefined : Outcome α)).done
        rw [hdone]
        by_cases hji : j = i
        · subst hji
          exact ⟨fun _ => List.mem_append_right _ List.mem_cons_self,
            fun _ => l.settled_settle _ _⟩
        · constructor
          · rintro ⟨o', ho'⟩
            rcases (l.promise_settle _ _ _ _).mp ho' with ho' | ⟨hname, -⟩
            · exact hold ((h.opened j).mp ⟨o', ho'⟩)
            · exact absurd (Name.guard.inj hname) hji
          · intro hj
            have hj' := hmem hj fun heq => hji (Reaction.guard.inj heq)
            exact hmono _ ((h.opened j).mpr hj')
      · exact (h.entry k).mono (fun j => Iff.rfl) hmono
          fun m _ hm => hmem (hdone ▸ hm) fun heq => by cases heq
    | cleanup i =>
      -- the promise that this job is for is settled, so the call is over
      obtain ⟨p, hp, hsettled⟩ := h.tracked.queued (.cleanup i) o (hjobs ▸ List.mem_cons_self)
      have hlt : i < s.calls.length := by
        by_contra hlt
        exact Option.some_ne_none p (hp.symm.trans (if_neg hlt))
      rw [Lock.on, if_pos hlt] at hp
      obtain rfl := Option.some.inj hp
      have hopened : s.Opened i := ⟨o, hsettled⟩
      obtain ⟨c, -, hc, -, -, hran⟩ := h.ended_of_opened hopened
      have hkey : s.keyAt i = some c.key := by rw [Lock.keyAt, hc, Option.map_some]
      have hguard : ∀ j, s.Opened j ↔ .guard j ∈ s.loop.done ++ [.cleanup i] := fun j =>
        (h.opened j).trans ⟨hold, fun hj => hmem hj fun heq => by cases heq⟩
      unfold Lock.perform
      dsimp only
      rw [hc]
      dsimp only
      by_cases htail : s.lockTail c.key = some (.guard i)
      · rw [if_pos htail]
        refine ⟨htracked, fun j d hd hne => hold (h.ended j d hd hne), h.own, hguard, h.waits,
          fun k => ?_⟩
        dsimp only
        by_cases hk : k = c.key
        · -- it is the last call of its key, so all of them are over
          subst hk
          rw [Function.update_self]
          intro j hj
          have hentry := h.entry c.key
          rw [htail] at hentry
          obtain ⟨m, hm, -, -, hlast⟩ := hentry
          obtain rfl := Name.guard.inj hm
          rcases Nat.lt_or_eq_of_le (hlast j hj) with hlt | rfl
          · exact h.opened_of_ran hran hlt (Eq.trans hj hkey.symm)
          · exact hopened
        · rw [Function.update_of_ne hk]
          refine (h.entry k).mono (fun j => Iff.rfl) (fun p hp => hp) fun m hm hdone => ?_
          refine hmem hdone fun heq => ?_
          obtain rfl := Reaction.cleanup.inj heq
          have hentry := h.entry k
          rw [hm] at hentry
          obtain ⟨m', hm', hkey', -⟩ := hentry
          obtain rfl := Name.guard.inj hm'
          exact hk (Option.some.inj (hkey'.symm.trans hkey))
      · rw [if_neg htail]
        refine ⟨htracked, fun j d hd hne => hold (h.ended j d hd hne), h.own, hguard, h.waits,
          fun k => ?_⟩
        refine (h.entry k).mono (fun j => Iff.rfl) (fun p hp => hp) fun m hm hdone => ?_
        refine hmem hdone fun heq => ?_
        obtain rfl := Reaction.cleanup.inj heq
        have hentry := h.entry k
        rw [hm] at hentry
        obtain ⟨m', hm', hkey', -⟩ := hentry
        obtain rfl := Name.guard.inj hm'
        obtain rfl := Option.some.inj (hkey'.symm.trans hkey)
        exact htail hm

section Call
variable [DecidableEq κ] [Inhabited α] (truthy : κ → Bool) (star : κ) (s : Lock κ α) (key : κ)

theorem loop_withLock : ∃ l : Loop Name Reaction (Outcome α),
    (s.withLock truthy star key).loop =
      ((l.react ((s.lockTail (lockKey truthy star key)).getD (.start s.calls.length))
        (.run s.calls.length)).react (.next s.calls.length) (.guard s.calls.length)).react
          (.guard s.calls.length) (.cleanup s.calls.length) ∧
    l.done = s.loop.done ∧ (∀ on, Tracked s.loop on → Tracked l on) ∧
    (∀ q o, l.promise q = .settled o →
      s.loop.promise q = .settled o ∨ q = .start s.calls.length) ∧
    (∀ p, s.loop.Settled p → l.Settled p) ∧
    (s.lockTail (lockKey truthy star key) = none → l.Settled (.start s.calls.length)) ∧
    ∃ more, l.jobs = s.loop.jobs ++ more := by
  refine ⟨_, rfl, ?_⟩
  by_cases htail : s.lockTail (lockKey truthy star key) = none
  · rw [if_pos htail]
    refine ⟨Loop.done_settle .., fun on h => h.settle _ _, fun q o hq => ?_,
      fun p hp => settled_settle_of _ _ hp, fun _ => Loop.settled_settle .., Loop.jobs_settle ..⟩
    rcases (s.loop.promise_settle _ _ _ _).mp hq with hq | ⟨hq, -⟩
    · exact .inl hq
    · exact .inr hq
  · rw [if_neg htail]
    exact ⟨rfl, fun on h => h, fun q o hq => .inl hq, fun p hp => hp, fun h => absurd h htail, [],
      (List.append_nil _).symm⟩

theorem done_withLock : (s.withLock truthy star key).loop.done = s.loop.done := by
  obtain ⟨l, hloop, hdone, -⟩ := loop_withLock truthy star s key
  rw [hloop, Loop.done_react, Loop.done_react, Loop.done_react, hdone]

theorem promise_withLock {q : Name} {o : Outcome α}
    (h : (s.withLock truthy star key).loop.promise q = .settled o) :
    s.loop.promise q = .settled o ∨ q = .start s.calls.length := by
  obtain ⟨l, hloop, -, -, hold, -⟩ := loop_withLock truthy star s key
  rw [hloop, Loop.promise_react, Loop.promise_react, Loop.promise_react] at h
  exact hold q o h

theorem settled_withLock {p : Name} (h : s.loop.Settled p) :
    (s.withLock truthy star key).loop.Settled p := by
  obtain ⟨l, hloop, -, -, -, hmono, -⟩ := loop_withLock truthy star s key
  obtain ⟨o, ho⟩ := hmono p h
  exact ⟨o, by rwa [hloop, Loop.promise_react, Loop.promise_react, Loop.promise_react]⟩

theorem settled_start_withLock (h : s.lockTail (lockKey truthy star key) = none) :
    (s.withLock truthy star key).loop.Settled (.start s.calls.length) := by
  obtain ⟨l, hloop, -, -, -, -, hstart, -⟩ := loop_withLock truthy star s key
  obtain ⟨o, ho⟩ := hstart h
  exact ⟨o, by rwa [hloop, Loop.promise_react, Loop.promise_react, Loop.promise_react]⟩

theorem jobs_withLock : ∃ more, (s.withLock truthy star key).loop.jobs = s.loop.jobs ++ more := by
  obtain ⟨l, hloop, -, -, -, -, -, more, hjobs⟩ := loop_withLock truthy star s key
  have hreact : ∀ (l : Loop Name Reaction (Outcome α)) p r,
      (∃ more, l.jobs = s.loop.jobs ++ more) →
        ∃ more, (l.react p r).jobs = s.loop.jobs ++ more := by
    rintro l p r ⟨more, hjobs⟩
    obtain ⟨more', hjobs'⟩ := l.jobs_react p r
    exact ⟨more ++ more', by rw [hjobs', hjobs, List.append_assoc]⟩
  rw [hloop]
  exact hreact _ _ _ (hreact _ _ _ (hreact _ _ _ ⟨more, hjobs⟩))

theorem calls_withLock {j : ℕ} {c : Call κ α}
    (hc : (s.withLock truthy star key).calls[j]? = some c) : s.calls[j]? = some c ∨
      j = s.calls.length ∧ c = ⟨lockKey truthy star key,
        (s.lockTail (lockKey truthy star key)).getD (.start s.calls.length), none⟩ := by
  have hcalls : (s.calls ++ [⟨lockKey truthy star key,
    (s.lockTail (lockKey truthy star key)).getD (.start s.calls.length), none⟩])[j]? = some c := hc
  rcases Nat.lt_trichotomy j s.calls.length with hlt | rfl | hlt
  · rw [List.getElem?_append_left hlt] at hcalls
    exact .inl hcalls
  · rw [List.getElem?_concat_length] at hcalls
    exact .inr ⟨rfl, (Option.some.inj hcalls).symm⟩
  · have hout := (List.getElem?_eq_some_iff.mp hcalls).1
    rw [List.length_append, List.length_singleton] at hout
    omega

theorem keyAt_withLock {j : ℕ} (hj : j < s.calls.length) :
    (s.withLock truthy star key).keyAt j = s.keyAt j :=
  congrArg (Option.map Call.key) (List.getElem?_append_left hj)

theorem keyAt_withLock_self :
    (s.withLock truthy star key).keyAt s.calls.length = some (lockKey truthy star key) :=
  congrArg (Option.map Call.key) List.getElem?_concat_length

theorem keyAt_withLock_cases {j : ℕ} {k : κ} (hj : (s.withLock truthy star key).keyAt j = some k) :
    s.keyAt j = some k ∨ j = s.calls.length ∧ k = lockKey truthy star key := by
  obtain ⟨c, hc, rfl⟩ := Option.map_eq_some_iff.mp hj
  rcases calls_withLock truthy star s key hc with hc | ⟨rfl, rfl⟩
  · exact .inl (by rw [Lock.keyAt, hc, Option.map_some])
  · exact .inr ⟨rfl, rfl⟩

theorem on_withLock : (s.withLock truthy star key).on =
    Function.update (Function.update (Function.update s.on (.run s.calls.length)
      (some ((s.lockTail (lockKey truthy star key)).getD (.start s.calls.length))))
        (.guard s.calls.length) (some (.next s.calls.length)))
          (.cleanup s.calls.length) (some (.guard s.calls.length)) := by
  have hlength : (s.withLock truthy star key).calls.length = s.calls.length + 1 :=
    List.length_append
  funext r
  cases r with
  | run j =>
    rw [Function.update_of_ne (by simp), Function.update_of_ne (by simp)]
    by_cases hj : j = s.calls.length
    · subst hj
      rw [Function.update_self]
      exact congrArg (Option.map Call.prev) List.getElem?_concat_length
    · rw [Function.update_of_ne fun heq => hj (Reaction.run.inj heq), Lock.on, Lock.on]
      rcases Nat.lt_or_gt_of_ne hj with hlt | hlt
      · exact congrArg (Option.map Call.prev) (List.getElem?_append_left hlt)
      · rw [List.getElem?_eq_none (by omega), List.getElem?_eq_none (by omega)]
  | guard j =>
    rw [Function.update_of_ne (by simp)]
    by_cases hj : j = s.calls.length
    · rw [hj, Function.update_self]
      exact if_pos (by omega)
    · rw [Function.update_of_ne fun heq => hj (Reaction.guard.inj heq),
        Function.update_of_ne (by simp), Lock.on, Lock.on]
      by_cases hlt : j < s.calls.length
      · rw [if_pos (by omega), if_pos hlt]
      · rw [if_neg (by omega), if_neg hlt]
  | cleanup j =>
    by_cases hj : j = s.calls.length
    · rw [hj, Function.update_self]
      exact if_pos (by omega)
    · rw [Function.update_of_ne fun heq => hj (Reaction.cleanup.inj heq),
        Function.update_of_ne (by simp), Function.update_of_ne (by simp), Lock.on, Lock.on]
      by_cases hlt : j < s.calls.length
      · rw [if_pos (by omega), if_pos hlt]
      · rw [if_neg (by omega), if_neg hlt]

variable {s}

theorem Inv.tracked_withLock (h : Inv s) :
    Tracked (s.withLock truthy star key).loop (s.withLock truthy star key).on := by
  obtain ⟨l, hloop, -, htracked, -⟩ := loop_withLock truthy star s key
  have hrun : s.on (.run s.calls.length) = none := by
    rw [Lock.on, List.getElem?_eq_none (Nat.le_refl _), Option.map_none]
  have hguard : s.on (.guard s.calls.length) = none := if_neg (Nat.lt_irrefl _)
  have hcleanup : s.on (.cleanup s.calls.length) = none := if_neg (Nat.lt_irrefl _)
  rw [on_withLock, hloop]
  refine (((htracked _ h.tracked).react _ hrun).react _ ?_).react _ ?_
  · rw [Function.update_of_ne (by simp)]
    exact hguard
  · rw [Function.update_of_ne (by simp), Function.update_of_ne (by simp)]
    exact hcleanup

theorem Inv.waits_withLock (h : Inv s) : (s.withLock truthy star key).Waits s.calls.length
    ((s.lockTail (lockKey truthy star key)).getD (.start s.calls.length)) := by
  have hself := keyAt_withLock_self truthy star s key
  have hentry := h.entry (lockKey truthy star key)
  cases htail : s.lockTail (lockKey truthy star key) with
  | none =>
    rw [htail] at hentry
    refine .inl ⟨rfl, settled_start_withLock truthy star s key htail, fun i hi hkey => ?_⟩
    rw [hself, keyAt_withLock truthy star s key hi] at hkey
    exact settled_withLock truthy star s key (hentry i hkey)
  | some x =>
    rw [htail] at hentry
    obtain ⟨m, rfl, hkey, -, hlast⟩ := hentry
    obtain ⟨c, hc, -⟩ := Option.map_eq_some_iff.mp hkey
    have hm : m < s.calls.length := (List.getElem?_eq_some_iff.mp hc).1
    refine .inr ⟨m, hm, rfl, ?_, fun i hmi hin hi => ?_⟩
    · rw [hself, keyAt_withLock truthy star s key hm]
      exact hkey
    · rw [hself, keyAt_withLock truthy star s key hin] at hi
      have hle := hlast i hi
      omega

theorem Inv.withLock (h : Inv s) : Inv (s.withLock truthy star key) := by
  have hmono : ∀ p, s.loop.Settled p → (s.withLock truthy star key).loop.Settled p :=
    fun p hp => settled_withLock truthy star s key hp
  have hdone := done_withLock truthy star s key
  refine ⟨h.tracked_withLock truthy star key, fun j c hc hne => ?_, fun j o ho => ?_, fun j => ?_,
    fun j c hc => ?_, fun k => ?_⟩
  · rcases calls_withLock truthy star s key hc with hc | ⟨-, rfl⟩
    · rw [hdone]
      exact h.ended j c hc hne
    · exact absurd rfl hne
  · rcases promise_withLock truthy star s key ho with ho | hname
    · obtain ⟨c, hc, houtcome⟩ := h.own j o ho
      refine ⟨c, ?_, houtcome⟩
      exact (List.getElem?_append_left (List.getElem?_eq_some_iff.mp hc).1).trans hc
    · cases hname
  · rw [hdone, ← h.opened j]
    refine ⟨fun ⟨o, ho⟩ => ?_, hmono _⟩
    rcases promise_withLock truthy star s key ho with ho | hname
    · exact ⟨o, ho⟩
    · cases hname
  · rcases calls_withLock truthy star s key hc with hc | ⟨rfl, rfl⟩
    · have hlt : j < s.calls.length := (List.getElem?_eq_some_iff.mp hc).1
      exact (h.waits j c hc).mono (fun i hi => keyAt_withLock truthy star s key (by omega)) hmono
    · exact h.waits_withLock truthy star key
  · have hlt : ∀ {j : ℕ}, s.keyAt j = some k → j < s.calls.length := by
      intro j hj
      obtain ⟨c, hc, -⟩ := Option.map_eq_some_iff.mp hj
      exact (List.getElem?_eq_some_iff.mp hc).1
    show (s.withLock truthy star key).Entry k (Function.update s.lockTail
      (lockKey truthy star key) (some (.guard s.calls.length)) k)
    by_cases hk : k = lockKey truthy star key
    · rw [hk, Function.update_self]
      refine ⟨_, rfl, keyAt_withLock_self truthy star s key, ?_, fun j hj => ?_⟩
      · rw [hdone]
        exact fun hmem => Nat.lt_irrefl _ (h.lt_of_done hmem)
      · rcases keyAt_withLock_cases truthy star s key hj with hj | ⟨rfl, -⟩
        · exact Nat.le_of_lt (hlt (hk ▸ hj))
        · exact Nat.le_refl _
    · rw [Function.update_of_ne hk]
      refine (h.entry k).mono (fun j => ⟨fun hj => ?_, fun hj => ?_⟩) hmono
        fun m _ hm => hdone ▸ hm
      · exact (keyAt_withLock_cases truthy star s key hj).resolve_right fun hnew => hk hnew.2
      · rw [keyAt_withLock truthy star s key (hlt hj)]
        exact hj

end Call

end

/-! ## Runs -/

theorem inv_start : Inv (Lock.start : Lock κ α) where
  tracked := by
    have hon : (Lock.start : Lock κ α).on = fun _ => none := by
      funext r
      cases r <;> rfl
    rw [hon]
    exact tracked_start
  ended i c hc := by cases hc
  own i o ho := by cases ho
  opened i := ⟨fun ⟨o, ho⟩ => (by cases ho), fun hi => absurd hi List.not_mem_nil⟩
  waits i c hc := by cases hc
  entry k i hi := by cases hi

def Lock.Ordered (s : Lock κ α) : Prop :=
  s.starts.Pairwise fun i j => s.keyAt i = s.keyAt j → i < j

theorem Inv.locked {s : Lock κ α} (h : Inv s) (ho : s.Ordered) : Locked s where
  exclusive i j := h.running_eq
  once := by
    have honce : s.loop.done.Nodup := h.tracked.once.of_append_left
    refine List.Nodup.filterMap (fun r r' i hr hr' => ?_) honce
    cases r <;> cases hr
    cases r' <;> cases hr'
    rfl
  ordered := ho
  called i hi := h.lt_of_done (Lock.mem_starts.mp hi)
  own := h.own
  cleaned k := h.tail_of_quiet

section
variable [DecidableEq κ] [Inhabited α] {truthy : κ → Bool} {star : κ} {s t : Lock κ α}

theorem Inv.step (h : Inv s) (hstep : Step truthy star s t) : Inv t := by
  cases hstep with
  | call key => exact h.withLock truthy star key
  | job _ => exact h.turn
  | settle o hc hrun hnone => exact h.settle o hc hrun hnone
  | adopt hc ho => exact h.adopt hc ho

variable {r : Reaction}

theorem turn_jobs {o : Outcome α} {rest : List (Reaction × Outcome α)}
    (h : s.loop.jobs = (r, o) :: rest) : s.turn.loop.done = s.loop.done ++ [r] ∧
      ∃ more, s.turn.loop.jobs = rest ++ more := by
  have hturn : s.turn = ({ s with loop := s.loop.pop r rest } : Lock κ α).perform r := by
    rw [Lock.turn, h]
  rw [hturn]
  cases r with
  | run i => exact ⟨rfl, [], (List.append_nil _).symm⟩
  | guard i => exact ⟨Loop.done_settle .., Loop.jobs_settle ..⟩
  | cleanup i =>
    unfold Lock.perform
    dsimp only
    cases s.calls[i]? with
    | none => exact ⟨rfl, [], (List.append_nil _).symm⟩
    | some c =>
      dsimp only
      split_ifs <;> exact ⟨rfl, [], (List.append_nil _).symm⟩

theorem Step.jobs (hstep : Step truthy star s t) :
    (t.loop.done = s.loop.done ∧ ∃ more, t.loop.jobs = s.loop.jobs ++ more) ∨
      ∃ r o rest more, s.loop.jobs = (r, o) :: rest ∧ t.loop.done = s.loop.done ++ [r] ∧
        t.loop.jobs = rest ++ more := by
  cases hstep with
  | settle => exact .inl ⟨rfl, [], (List.append_nil _).symm⟩
  | adopt => exact .inl ⟨Loop.done_settle .., Loop.jobs_settle ..⟩
  | call key => exact .inl ⟨done_withLock truthy star s key, jobs_withLock truthy star s key⟩
  | job hne =>
    obtain ⟨⟨r, o⟩, rest, hjobs⟩ := List.exists_cons_of_ne_nil hne
    obtain ⟨hdone, more, hmore⟩ := turn_jobs hjobs
    exact .inr ⟨r, o, rest, more, hjobs, hdone, hmore⟩

theorem Step.calls (hstep : Step truthy star s t) {i : ℕ} {c : Call κ α}
    (hc : s.calls[i]? = some c) : ∃ d, t.calls[i]? = some d ∧ d.key = c.key ∧
      d.prev = c.prev := by
  cases hstep with
  | adopt => exact ⟨c, hc, rfl, rfl⟩
  | call key =>
    refine ⟨c, ?_, rfl, rfl⟩
    exact (List.getElem?_append_left (List.getElem?_eq_some_iff.mp hc).1).trans hc
  | @settle j c' o hc' _ _ =>
    rw [Lock.settle, List.getElem?_set]
    by_cases hj : j = i
    · subst hj
      obtain rfl : c' = c := Option.some.inj (hc'.symm.trans hc)
      rw [if_pos rfl, if_pos (List.getElem?_eq_some_iff.mp hc).1]
      exact ⟨_, rfl, rfl, rfl⟩
    · rw [if_neg hj]
      exact ⟨c, hc, rfl, rfl⟩
  | job _ =>
    have hsame : s.turn.calls = s.calls := by
      unfold Lock.turn
      cases s.loop.jobs with
      | nil => rfl
      | cons job rest =>
        obtain ⟨r, o⟩ := job
        cases r with
        | run j => rfl
        | guard j => rfl
        | cleanup j =>
          unfold Lock.perform
          dsimp only
          cases s.calls[j]? with
          | none => rfl
          | some d =>
            dsimp only
            split_ifs <;> rfl
    exact ⟨c, hsame ▸ hc, rfl, rfl⟩

theorem Step.ordered (h : Inv s) (ho : s.Ordered) (hstep : Step truthy star s t) : t.Ordered := by
  have hkey : ∀ i < s.calls.length, t.keyAt i = s.keyAt i := by
    intro i hi
    obtain ⟨d, hd, hsame, -⟩ := hstep.calls (List.getElem?_eq_getElem hi)
    rw [Lock.keyAt, Lock.keyAt, hd, List.getElem?_eq_getElem hi, Option.map_some, Option.map_some,
      hsame]
  have hlt : ∀ i ∈ s.starts, i < s.calls.length := fun i hi =>
    h.lt_of_done (Lock.mem_starts.mp hi)
  have hold : s.starts.Pairwise fun i j => t.keyAt i = t.keyAt j → i < j := by
    refine List.Pairwise.imp_of_mem (fun hi hj hij hsame => hij ?_) ho
    rw [← hkey _ (hlt _ hi), ← hkey _ (hlt _ hj)]
    exact hsame
  unfold Lock.Ordered
  rcases hstep.jobs with ⟨hdone, -⟩ | ⟨r, o, rest, -, hjobs, hdone, -⟩
  · rw [Lock.starts, hdone]
    exact hold
  · rw [Lock.starts, hdone, List.filterMap_append]
    cases r with
    | guard j => exact (List.append_nil s.starts).symm ▸ hold
    | cleanup j => exact (List.append_nil s.starts).symm ▸ hold
    | run j =>
      refine List.pairwise_append.mpr ⟨hold, List.pairwise_singleton _ _,
        fun i hi j' hj' hsame => ?_⟩
      obtain rfl : j' = j := List.mem_singleton.mp hj'
      -- a function that was started before this one has no earlier call than this
      have hnot : .run j' ∉ s.loop.done := by
        intro hmem
        have honce := h.tracked.once
        rw [hjobs, List.map_cons] at honce
        exact (List.disjoint_of_nodup_append honce) hmem List.mem_cons_self
      have hran : .run i ∈ s.loop.done := Lock.mem_starts.mp hi
      have hcall : j' < s.calls.length := by
        obtain ⟨p, hp, -⟩ := h.tracked.queued (.run j') o (hjobs ▸ List.mem_cons_self)
        obtain ⟨c, hc, -⟩ := Option.map_eq_some_iff.mp hp
        exact (List.getElem?_eq_some_iff.mp hc).1
      rw [hkey i (hlt i hi), hkey j' hcall] at hsame
      rcases Nat.lt_trichotomy i j' with hlt' | rfl | hlt'
      · exact hlt'
      · exact absurd hran hnot
      · obtain ⟨-, -, -, -, -, hran'⟩ := h.ended_of_opened (h.opened_of_ran hran hlt' hsame.symm)
        exact absurd hran' hnot

/-- Calls are made, jobs are run and functions come to their end, in whatever order. -/
structure Runs (truthy : κ → Bool) (star : κ) (run : ℕ → Lock κ α) : Prop where
  start : run 0 = Lock.start
  step : ∀ n, run (n + 1) = run n ∨ Step truthy star (run n) (run (n + 1))

/-- The queue is worked on, and every function comes to something, which its caller gets. -/
structure Fair (run : ℕ → Lock κ α) : Prop where
  jobs : ∀ n, (run n).loop.jobs ≠ [] → ∃ m, n ≤ m ∧ (run m).loop.jobs ≠ [] ∧
    run (m + 1) = (run m).turn
  ends : ∀ n, ∀ i ∈ (run n).starts, ∃ m c, n ≤ m ∧ (run m).calls[i]? = some c ∧ c.outcome ≠ none
  adopts : ∀ n i c, (run n).calls[i]? = some c → c.outcome ≠ none →
    ∃ m, n ≤ m ∧ (run m).loop.Settled (.next i)

variable {run : ℕ → Lock κ α}

theorem Runs.inv (h : Runs truthy star run) (n : ℕ) : Inv (run n) ∧ (run n).Ordered := by
  induction n with
  | zero =>
    rw [h.start]
    exact ⟨inv_start, List.Pairwise.nil⟩
  | succ n ih =>
    rcases h.step n with hsame | hstep
    · exact hsame ▸ ih
    · exact ⟨ih.1.step hstep, hstep.ordered ih.1 ih.2⟩

/-! ### Every function is run -/

variable {n : ℕ}

theorem Runs.done_mono (h : Runs truthy star run) {m : ℕ} (hnm : n ≤ m)
    (hr : r ∈ (run n).loop.done) : r ∈ (run m).loop.done := by
  induction hnm with
  | refl => exact hr
  | @step m _ ih =>
    rcases h.step m with hsame | hstep
    · exact hsame ▸ ih
    · rcases hstep.jobs with ⟨hdone, -⟩ | ⟨r', _, _, _, _, hdone, -⟩
      · exact hdone ▸ ih
      · exact hdone ▸ List.mem_append_left _ ih

theorem Runs.calls_mono (h : Runs truthy star run) {m : ℕ} (hnm : n ≤ m) {i : ℕ} {c : Call κ α}
    (hc : (run n).calls[i]? = some c) :
    ∃ d, (run m).calls[i]? = some d ∧ d.key = c.key ∧ d.prev = c.prev := by
  induction hnm with
  | refl => exact ⟨c, hc, rfl, rfl⟩
  | @step m _ ih =>
    obtain ⟨d, hd, hkey, hprev⟩ := ih
    rcases h.step m with hsame | hstep
    · exact hsame ▸ ⟨d, hd, hkey, hprev⟩
    · obtain ⟨e, he, hkey', hprev'⟩ := hstep.calls hd
      exact ⟨e, he, hkey'.trans hkey, hprev'.trans hprev⟩

theorem job_runs (h : Runs truthy star run) (hfair : Fair run) {o : Outcome α}
    (p : ℕ) (hjob : (run n).loop.jobs[p]? = some (r, o)) :
    ∃ m, n ≤ m ∧ r ∈ (run m).loop.done := by
  induction p using Nat.strongRecOn generalizing n with
  | ind p ih =>
    have hnear : ∀ m, n ≤ m →
        r ∈ (run m).loop.done ∨ ∃ q ≤ p, (run m).loop.jobs[q]? = some (r, o) := by
      intro m hnm
      induction hnm with
      | refl => exact .inr ⟨p, Nat.le_refl p, hjob⟩
      | @step m _ ihm =>
        rcases ihm with hdone | ⟨q, hq, hat⟩
        · exact .inl (h.done_mono (Nat.le_succ m) hdone)
        rcases h.step m with hsame | hstep
        · exact .inr ⟨q, hq, hsame ▸ hat⟩
        rcases hstep.jobs with ⟨-, more, hjobs⟩ | ⟨r', o', rest, more, hfirst, hdone, hjobs⟩
        · refine .inr ⟨q, hq, ?_⟩
          rw [hjobs, List.getElem?_append_left (List.getElem?_eq_some_iff.mp hat).1]
          exact hat
        · rw [hfirst] at hat
          cases q with
          | zero =>
            obtain ⟨rfl, -⟩ := Prod.mk.inj (Option.some.inj hat)
            exact .inl (hdone ▸ List.mem_append_right _ List.mem_cons_self)
          | succ q =>
            rw [List.getElem?_cons_succ] at hat
            refine .inr ⟨q, by omega, ?_⟩
            rw [hjobs, List.getElem?_append_left (List.getElem?_eq_some_iff.mp hat).1]
            exact hat
    have hne : (run n).loop.jobs ≠ [] := by
      intro hnil
      rw [hnil] at hjob
      cases hjob
    obtain ⟨m, hnm, hnem, hturn⟩ := hfair.jobs n hne
    rcases hnear m hnm with hdone | ⟨q, hq, hat⟩
    · exact ⟨m, hnm, hdone⟩
    obtain ⟨⟨r', o'⟩, rest, hfirst⟩ := List.exists_cons_of_ne_nil hnem
    obtain ⟨hdone, more, hjobs⟩ := turn_jobs hfirst
    rw [← hturn] at hdone hjobs
    rw [hfirst] at hat
    cases q with
    | zero =>
      obtain ⟨rfl, -⟩ := Prod.mk.inj (Option.some.inj hat)
      exact ⟨m + 1, by omega, hdone ▸ List.mem_append_right _ List.mem_cons_self⟩
    | succ q =>
      rw [List.getElem?_cons_succ] at hat
      have hat' : (run (m + 1)).loop.jobs[q]? = some (r, o) := by
        rw [hjobs, List.getElem?_append_left (List.getElem?_eq_some_iff.mp hat).1]
        exact hat
      obtain ⟨m', hm', hdone'⟩ := ih q (by omega) hat'
      exact ⟨m', by omega, hdone'⟩

theorem reaction_runs (h : Runs truthy star run) (hfair : Fair run)
    {p : Name} (hon : (run n).on r = some p) (hp : (run n).loop.Settled p) :
    ∃ m, n ≤ m ∧ r ∈ (run m).loop.done := by
  obtain ⟨o, ho⟩ := hp
  rcases (h.inv n).1.tracked.settled r p o hon ho with hdone | hjob
  · exact ⟨n, Nat.le_refl n, hdone⟩
  · obtain ⟨q, hq⟩ := List.getElem?_of_mem hjob
    exact job_runs h hfair q hq

theorem call_opened (h : Runs truthy star run) (hfair : Fair run) (i : ℕ)
    (hi : i < (run n).calls.length) : ∃ m, n ≤ m ∧ (run m).Opened i := by
  -- along the calls of the key: the one that this one waits for is over some day
  induction i using Nat.strongRecOn generalizing n with
  | ind i ih =>
    have hc := List.getElem?_eq_getElem hi
    obtain ⟨m₁, h₁, hdue⟩ : ∃ m, n ≤ m ∧ (run m).loop.Settled (run n).calls[i].prev := by
      rcases (h.inv n).1.waits i _ hc with ⟨hprev, hstart, -⟩ | ⟨j, hj, hprev, -, -⟩
      · exact ⟨n, Nat.le_refl n, hprev ▸ hstart⟩
      · rw [hprev]
        exact ih j hj (by omega)
    obtain ⟨d, hd, -, hprev⟩ := h.calls_mono h₁ hc
    have hon : (run m₁).on (.run i) = some (run n).calls[i].prev := by
      rw [Lock.on, hd, Option.map_some, hprev]
    obtain ⟨m₂, h₂, hran⟩ := reaction_runs h hfair hon hdue
    obtain ⟨m₃, e, h₃, he, hne⟩ := hfair.ends m₂ i (Lock.mem_starts.mpr hran)
    obtain ⟨m₄, h₄, hnext⟩ := hfair.adopts m₃ i e he hne
    have hlt : i < (run m₄).calls.length := by
      obtain ⟨e', he', -⟩ := h.calls_mono h₄ he
      exact (List.getElem?_eq_some_iff.mp he').1
    obtain ⟨m₅, h₅, hguard⟩ := reaction_runs (r := .guard i) h hfair (if_pos hlt) hnext
    exact ⟨m₅, by omega, ((h.inv m₅).1.opened i).mpr hguard⟩

theorem entry_removed (h : Runs truthy star run) (hfair : Fair run) {k : κ}
    (hlast : ∀ m i, n ≤ m → (run m).keyAt i = some k → i < (run n).calls.length) :
    ∃ m, n ≤ m ∧ (run m).lockTail k = none := by
  cases htail : (run n).lockTail k with
  | none => exact ⟨n, Nat.le_refl n, htail⟩
  | some x =>
    have hentry := (h.inv n).1.entry k
    rw [htail] at hentry
    obtain ⟨i, -, hkey, -, hmax⟩ := hentry
    have hi := hlast n i (Nat.le_refl n) hkey
    obtain ⟨m₁, h₁, hopened⟩ := call_opened h hfair i hi
    have hlt := (h.inv m₁).1.lt_of_done (((h.inv m₁).1.opened i).mp hopened)
    obtain ⟨m₂, h₂, hcleanup⟩ := reaction_runs (r := .cleanup i) h hfair (if_pos hlt) hopened
    refine ⟨m₂, by omega, ?_⟩
    have hentry' := (h.inv m₂).1.entry k
    cases htail' : (run m₂).lockTail k with
    | none => rfl
    | some y =>
      rw [htail'] at hentry'
      obtain ⟨j, -, hkey', hnot, hmax'⟩ := hentry'
      -- the last call of the key is still the same, and what `finally` does was done
      have hkeys : ∀ l < (run n).calls.length, (run m₂).keyAt l = (run n).keyAt l := by
        intro l hl
        obtain ⟨d, hd, hsame, -⟩ := h.calls_mono (by omega : n ≤ m₂) (List.getElem?_eq_getElem hl)
        rw [Lock.keyAt, Lock.keyAt, hd, List.getElem?_eq_getElem hl, Option.map_some,
          Option.map_some, hsame]
      have hj := hlast m₂ j (by omega) hkey'
      have hji : j ≤ i := hmax j ((hkeys j hj).symm.trans hkey')
      have hij : i ≤ j := hmax' i ((hkeys i hi).trans hkey)
      obtain rfl : i = j := Nat.le_antisymm hij hji
      exact absurd hcleanup hnot

/-- Whatever calls are made, and however their functions end: the functions of a key run one at a
time, each once and in the order of the calls, every caller gets what its function came to, and a
key of which nothing is left to do has no entry. If all functions end, all are run, and a key that is
not called any more loses its entry. -/
theorem withLock_locks (h : Runs truthy star run) : (∀ n, Locked (run n)) ∧
    (Fair run → (∀ n i, i < (run n).calls.length → ∃ m c o, n ≤ m ∧ i ∈ (run m).starts ∧
      (run m).calls[i]? = some c ∧ c.outcome = some o ∧
        (run m).loop.promise (.next i) = .settled o) ∧
      ∀ n k, (∀ m i, n ≤ m → (run m).keyAt i = some k → i < (run n).calls.length) →
        ∃ m, n ≤ m ∧ (run m).lockTail k = none) := by
  refine ⟨fun n => (h.inv n).1.locked (h.inv n).2,
    fun hfair => ⟨fun n i hi => ?_, fun n k hlast => ?_⟩⟩
  · obtain ⟨m, hnm, hopened⟩ := call_opened h hfair i hi
    obtain ⟨c, o, hc, houtcome, ho, hran⟩ := (h.inv m).1.ended_of_opened hopened
    exact ⟨m, c, o, hnm, Lock.mem_starts.mpr hran, hc, houtcome, ho⟩
  · exact entry_removed h hfair hlast

end

/-! ### One call -/

def textTruthy (key : String) : Bool := key ≠ ""

/-- The states of a run in which one function is called, and fulfilled with 7. -/
def oneCall : ℕ → Lock String ℕ
  | 0 => .start
  | 1 => Lock.start.withLock textTruthy "*" "k"
  | 2 => (Lock.start.withLock textTruthy "*" "k").turn
  | 3 => (Lock.start.withLock textTruthy "*" "k").turn.settle 0 ⟨"k", .start 0, none⟩ (.fulfilled 7)
  | 4 => ((Lock.start.withLock textTruthy "*" "k").turn.settle 0 ⟨"k", .start 0, none⟩
      (.fulfilled 7)).adopt 0 (.fulfilled 7)
  | 5 => (((Lock.start.withLock textTruthy "*" "k").turn.settle 0 ⟨"k", .start 0, none⟩
      (.fulfilled 7)).adopt 0 (.fulfilled 7)).turn
  | _ => (((Lock.start.withLock textTruthy "*" "k").turn.settle 0 ⟨"k", .start 0, none⟩
      (.fulfilled 7)).adopt 0 (.fulfilled 7)).turn.turn

theorem runs_oneCall : Runs textTruthy "*" oneCall where
  start := rfl
  step n :=
    match n with
    | 0 => .inr (.call _ "k")
    | 1 => .inr (.job (List.cons_ne_nil _ _))
    | 2 => .inr (.settle (c := ⟨"k", .start 0, none⟩) (.fulfilled 7) rfl List.mem_cons_self rfl)
    | 3 => .inr (.adopt (c := ⟨"k", .start 0, some (.fulfilled 7)⟩) rfl rfl)
    | 4 => .inr (.job (List.cons_ne_nil _ _))
    | 5 => .inr (.job (List.cons_ne_nil _ _))
    | _ + 6 => .inl rfl

theorem calls_oneCall (n : ℕ) : (oneCall (n + 6)).calls = [⟨"k", .start 0, some (.fulfilled 7)⟩] ∧
    (oneCall (n + 6)).loop.promise (.next 0) = .settled (.fulfilled 7) := ⟨rfl, rfl⟩

theorem fair_oneCall : Fair oneCall where
  jobs n hne :=
    match n with
    | 0 => absurd rfl hne
    | 1 => ⟨1, Nat.le_refl 1, hne, rfl⟩
    | 2 => absurd rfl hne
    | 3 => absurd rfl hne
    | 4 => ⟨4, Nat.le_refl 4, hne, rfl⟩
    | 5 => ⟨5, Nat.le_refl 5, hne, rfl⟩
    | _ + 6 => absurd rfl hne
  ends n i hi := by
    have hlt := ((runs_oneCall.inv n).1.locked (runs_oneCall.inv n).2).called i hi
    have hone : i < (oneCall (n + 6)).calls.length := by
      obtain ⟨d, hd, -⟩ :=
        runs_oneCall.calls_mono (Nat.le_add_right n 6) (List.getElem?_eq_getElem hlt)
      exact (List.getElem?_eq_some_iff.mp hd).1
    obtain rfl : i = 0 := Nat.lt_one_iff.mp hone
    exact ⟨n + 6, _, Nat.le_add_right n 6, rfl, Option.some_ne_none _⟩
  adopts n i c hc _ := by
    have hone : i < (oneCall (n + 6)).calls.length := by
      obtain ⟨d, hd, -⟩ := runs_oneCall.calls_mono (Nat.le_add_right n 6) hc
      exact (List.getElem?_eq_some_iff.mp hd).1
    obtain rfl : i = 0 := Nat.lt_one_iff.mp hone
    exact ⟨n + 6, Nat.le_add_right n 6, _, (calls_oneCall n).2⟩

theorem withLock_locks_oneCall : Locked (oneCall 6) ∧ ∃ m c o, 1 ≤ m ∧ 0 ∈ (oneCall m).starts ∧
    (oneCall m).calls[0]? = some c ∧ c.outcome = some o ∧
      (oneCall m).loop.promise (.next 0) = .settled o := by
  obtain ⟨hlocked, hruns⟩ := withLock_locks runs_oneCall
  exact ⟨hlocked 6, (hruns fair_oneCall).1 1 0 Nat.zero_lt_one⟩

/-- The function has come to something and its caller has got that, but the entry is still there. -/
theorem entry_outlives_call : ∃ run : ℕ → Lock String ℕ, Runs textTruthy "*" run ∧
    ∃ n, (∀ i c, (run n).calls[i]? = some c → c.outcome ≠ none ∧ (run n).loop.Settled (.next i)) ∧
      (run n).lockTail "k" ≠ none := by
  refine ⟨oneCall, runs_oneCall, 4, fun i c hc => ?_, Option.some_ne_none (Name.guard 0)⟩
  cases i with
  | zero =>
    obtain rfl := Option.some.inj hc
    exact ⟨Option.some_ne_none _, _, rfl⟩
  | succ i => cases hc

end KvasirNet.KeyLock
