import Mathlib.Data.List.Nodup
import Mathlib.Logic.Function.Basic

/-! Promises and the queue of their jobs. A reaction waits at its promise until this is settled;
then it is queued, and the jobs are run one after the other. Whatever is created, settled and run, and in
whatever order: no reaction is run twice, and none before its promise is settled. -/
namespace KvasirNet.PromiseJobs

variable {ι ρ α : Type*}

inductive Promise (ρ α : Type*)
  | pending (reactions : List ρ)
  | settled (outcome : α)

/-- The promises by their names, the reactions that are queued with what they are given, and those
that were run. -/
structure Loop (ι ρ α : Type*) where
  promise : ι → Promise ρ α
  jobs : List (ρ × α)
  done : List ρ

namespace Loop

def start : Loop ι ρ α := ⟨fun _ => .pending [], [], []⟩

def pop (l : Loop ι ρ α) (r : ρ) (rest : List (ρ × α)) : Loop ι ρ α :=
  { l with jobs := rest, done := l.done ++ [r] }

def Settled (l : Loop ι ρ α) (p : ι) : Prop := ∃ o, l.promise p = .settled o

variable [DecidableEq ι]

/-- `then`. -/
def react (l : Loop ι ρ α) (p : ι) (r : ρ) : Loop ι ρ α :=
  match l.promise p with
  | .pending rs => { l with promise := Function.update l.promise p (.pending (rs ++ [r])) }
  | .settled o => { l with jobs := l.jobs ++ [(r, o)] }

def settle (l : Loop ι ρ α) (p : ι) (o : α) : Loop ι ρ α :=
  match l.promise p with
  | .pending rs =>
    { l with
      promise := Function.update l.promise p (.settled o)
      jobs := l.jobs ++ rs.map fun r => (r, o) }
  | .settled _ => l

variable (l : Loop ι ρ α) (p q : ι) (r : ρ) (o o' : α)

@[simp]
theorem done_react : (l.react p r).done = l.done := by
  unfold react
  cases l.promise p <;> rfl

@[simp]
theorem done_settle : (l.settle p o).done = l.done := by
  unfold settle
  cases l.promise p <;> rfl

theorem promise_react : (l.react p r).promise q = .settled o ↔ l.promise q = .settled o := by
  unfold react
  cases hp : l.promise p with
  | settled o' => rfl
  | pending rs =>
    by_cases hq : q = p
    · subst hq
      simp [hp]
    · simp [Function.update_of_ne hq]

theorem promise_settle : (l.settle p o).promise q = .settled o' ↔
    l.promise q = .settled o' ∨ q = p ∧ o = o' ∧ ∃ rs, l.promise p = .pending rs := by
  unfold settle
  cases hp : l.promise p with
  | settled o₁ => simp
  | pending rs =>
    by_cases hq : q = p
    · subst hq
      simp [hp]
    · simp [hq]

theorem settled_settle : (l.settle p o).Settled p := by
  unfold settle
  cases hp : l.promise p with
  | settled o' => exact ⟨o', hp⟩
  | pending rs => exact ⟨o, Function.update_self ..⟩

theorem jobs_react : ∃ more, (l.react p r).jobs = l.jobs ++ more := by
  unfold react
  cases l.promise p with
  | pending rs => exact ⟨[], (List.append_nil _).symm⟩
  | settled o => exact ⟨_, rfl⟩

theorem jobs_settle : ∃ more, (l.settle p o).jobs = l.jobs ++ more := by
  unfold settle
  cases l.promise p with
  | pending rs => exact ⟨_, rfl⟩
  | settled o => exact ⟨[], (List.append_nil _).symm⟩

end Loop

/-! ## Where a reaction is -/

/-- Each reaction waits at the promise it is on, or it is queued or was run, once, with what the
promise was settled with. -/
structure Tracked (l : Loop ι ρ α) (on : ρ → Option ι) : Prop where
  waiting : ∀ p rs, l.promise p = .pending rs → rs.Nodup ∧ ∀ r, r ∈ rs ↔ on r = some p
  queued : ∀ r o, (r, o) ∈ l.jobs → ∃ p, on r = some p ∧ l.promise p = .settled o
  ran : ∀ r ∈ l.done, ∃ p, on r = some p ∧ l.Settled p
  once : (l.done ++ l.jobs.map Prod.fst).Nodup
  settled : ∀ r p o, on r = some p → l.promise p = .settled o → r ∈ l.done ∨ (r, o) ∈ l.jobs

variable {l : Loop ι ρ α} {on : ρ → Option ι}

theorem tracked_start : Tracked (Loop.start : Loop ι ρ α) fun _ => none where
  waiting p rs h := by
    obtain rfl : [] = rs := Promise.pending.inj h
    exact ⟨List.nodup_nil, fun r => by simp⟩
  queued r o h := absurd h List.not_mem_nil
  ran r h := absurd h List.not_mem_nil
  once := List.nodup_nil
  settled r p o h := by cases h

theorem Tracked.pop (h : Tracked l on) {r : ρ} {o : α} {rest : List (ρ × α)}
    (hjobs : l.jobs = (r, o) :: rest) : Tracked (l.pop r rest) on where
  waiting := h.waiting
  queued r' o' hmem := h.queued r' o' (hjobs ▸ List.mem_cons_of_mem _ hmem)
  ran r' hmem := by
    rcases List.mem_append.mp hmem with hmem | hmem
    · exact h.ran r' hmem
    · obtain ⟨p, hp, hsettled⟩ := h.queued r o (hjobs ▸ List.mem_cons_self)
      rw [List.mem_singleton.mp hmem]
      exact ⟨p, hp, o, hsettled⟩
  once := by
    have honce := h.once
    rw [hjobs, List.map_cons, List.append_cons] at honce
    exact honce
  settled r' p o' hon hp := by
    rcases h.settled r' p o' hon hp with hmem | hmem
    · exact .inl (List.mem_append_left _ hmem)
    · rw [hjobs] at hmem
      rcases List.mem_cons.mp hmem with heq | hmem
      · rw [(Prod.mk.inj heq).1]
        exact .inl (List.mem_append_right _ List.mem_cons_self)
      · exact .inr hmem

variable [DecidableEq ι]

theorem Tracked.settle (h : Tracked l on) (p : ι) (o : α) : Tracked (l.settle p o) on := by
  unfold Loop.settle
  cases hp : l.promise p with
  | settled o' => exact h
  | pending rs =>
    obtain ⟨hnodup, hrs⟩ := h.waiting p rs hp
    have hother : ∀ q o', l.promise q = .settled o' → q ≠ p := by
      intro q o' hq heq
      rw [heq, hp] at hq
      cases hq
    -- what waited here was neither queued nor run
    have hnew : ∀ r ∈ rs, r ∉ l.done ++ l.jobs.map Prod.fst := by
      intro r hr hmem
      have hon := (hrs r).mp hr
      rcases List.mem_append.mp hmem with hmem | hmem
      · obtain ⟨q, hq, o', ho'⟩ := h.ran r hmem
        exact hother q o' ho' (Option.some.inj (hq.symm.trans hon))
      · obtain ⟨⟨r', o'⟩, hjob, rfl⟩ := List.mem_map.mp hmem
        obtain ⟨q, hq, ho'⟩ := h.queued r' o' hjob
        exact hother q o' ho' (Option.some.inj (hq.symm.trans hon))
    refine ⟨fun q rs' hq => ?_, fun r o' hmem => ?_, fun r hmem => ?_, ?_, fun r q o' hon hq => ?_⟩
    · dsimp only at hq
      by_cases heq : q = p
      · rw [heq, Function.update_self] at hq
        cases hq
      · rw [Function.update_of_ne heq] at hq
        exact h.waiting q rs' hq
    · dsimp only
      rcases List.mem_append.mp hmem with hmem | hmem
      · obtain ⟨q, hon, hq⟩ := h.queued r o' hmem
        exact ⟨q, hon, by rw [Function.update_of_ne (hother q o' hq)]; exact hq⟩
      · obtain ⟨r', hr', heq⟩ := List.mem_map.mp hmem
        obtain ⟨rfl, rfl⟩ := Prod.mk.inj heq
        exact ⟨p, (hrs r').mp hr', Function.update_self ..⟩
    · obtain ⟨q, hon, o', hq⟩ := h.ran r hmem
      exact ⟨q, hon, o', by dsimp only; rw [Function.update_of_ne (hother q o' hq)]; exact hq⟩
    · have hfst : (rs.map fun r => (r, o)).map Prod.fst = rs := by
        rw [List.map_map]
        exact List.map_id rs
      dsimp only
      rw [List.map_append, hfst, ← List.append_assoc]
      refine h.once.append hnodup fun r hmem hr => hnew r hr hmem
    · dsimp only at hq ⊢
      by_cases heq : q = p
      · rw [heq, Function.update_self] at hq
        obtain rfl := Promise.settled.inj hq
        have hr : r ∈ rs := (hrs r).mpr (heq ▸ hon)
        exact .inr (List.mem_append_right _ (List.mem_map_of_mem hr))
      · rw [Function.update_of_ne heq] at hq
        rcases h.settled r q o' hon hq with hmem | hmem
        · exact .inl hmem
        · exact .inr (List.mem_append_left _ hmem)

theorem Tracked.react [DecidableEq ρ] (h : Tracked l on) (p : ι) {r : ρ} (hr : on r = none) :
    Tracked (l.react p r) (Function.update on r (some p)) := by
  have hne : ∀ {r' : ρ} {q : ι}, on r' = some q → r' ≠ r := by
    intro r' q hon heq
    rw [heq, hr] at hon
    cases hon
  have hon : ∀ {r' : ρ} {q : ι}, on r' = some q → Function.update on r (some p) r' = some q :=
    fun hq => (Function.update_of_ne (hne hq) _ _).trans hq
  have hnot : r ∉ l.done ++ l.jobs.map Prod.fst := by
    intro hmem
    rcases List.mem_append.mp hmem with hmem | hmem
    · obtain ⟨q, hq, -⟩ := h.ran r hmem
      exact hne hq rfl
    · obtain ⟨⟨r', o'⟩, hjob, rfl⟩ := List.mem_map.mp hmem
      obtain ⟨q, hq, -⟩ := h.queued r' o' hjob
      exact hne hq rfl
  unfold Loop.react
  cases hp : l.promise p with
  | pending rs =>
    have hother : ∀ q o', l.promise q = .settled o' → q ≠ p := by
      intro q o' hq heq
      rw [heq, hp] at hq
      cases hq
    have hstays : ∀ q o', l.promise q = .settled o' →
        Function.update l.promise p (.pending (rs ++ [r])) q = .settled o' :=
      fun q o' hq => (Function.update_of_ne (hother q o' hq) _ _).trans hq
    refine ⟨fun q rs' hq => ?_, fun r' o' hmem => ?_, fun r' hmem => ?_, h.once,
      fun r' q o' hr' hq => ?_⟩
    · dsimp only at hq
      by_cases heq : q = p
      · rw [heq, Function.update_self] at hq
        obtain rfl := Promise.pending.inj hq
        obtain ⟨hnodup, hrs⟩ := h.waiting p rs hp
        have hfresh : r ∉ rs := fun hmem => hne ((hrs r).mp hmem) rfl
        refine ⟨hnodup.append (List.nodup_singleton r) ?_, fun r' => ?_⟩
        · intro x hx hx'
          exact hfresh (List.mem_singleton.mp hx' ▸ hx)
        · by_cases hr' : r' = r
          · rw [hr', heq, Function.update_self]
            exact ⟨fun _ => rfl, fun _ => List.mem_append_right _ List.mem_cons_self⟩
          · rw [Function.update_of_ne hr', heq, ← hrs r', List.mem_append, List.mem_singleton]
            exact ⟨fun hmem => hmem.resolve_right hr', .inl⟩
      · rw [Function.update_of_ne heq] at hq
        obtain ⟨hnodup, hrs⟩ := h.waiting q rs' hq
        refine ⟨hnodup, fun r' => ?_⟩
        by_cases hr' : r' = r
        · rw [hr', Function.update_self, hrs r, hr]
          exact ⟨fun hnone => absurd hnone (Option.some_ne_none q).symm,
            fun hsome => absurd (Option.some.inj hsome).symm heq⟩
        · rw [Function.update_of_ne hr']
          exact hrs r'
    · obtain ⟨q, hq, ho'⟩ := h.queued r' o' hmem
      exact ⟨q, hon hq, hstays q o' ho'⟩
    · obtain ⟨q, hq, o', ho'⟩ := h.ran r' hmem
      exact ⟨q, hon hq, o', hstays q o' ho'⟩
    · dsimp only at hq
      have hqp : q ≠ p := by
        intro heq
        rw [heq, Function.update_self] at hq
        cases hq
      rw [Function.update_of_ne hqp] at hq
      have hr'' : r' ≠ r := by
        intro heq
        rw [heq, Function.update_self] at hr'
        exact hqp (Option.some.inj hr').symm
      rw [Function.update_of_ne hr''] at hr'
      exact h.settled r' q o' hr' hq
  | settled o =>
    refine ⟨fun q rs' hq => ?_, fun r' o' hmem => ?_, fun r' hmem => ?_, ?_,
      fun r' q o' hr' hq => ?_⟩
    · obtain ⟨hnodup, hrs⟩ := h.waiting q rs' hq
      have hqp : q ≠ p := by
        intro heq
        dsimp only at hq
        rw [heq, hp] at hq
        cases hq
      refine ⟨hnodup, fun r' => ?_⟩
      by_cases hr' : r' = r
      · rw [hr', Function.update_self, hrs r, hr]
        exact ⟨fun hnone => absurd hnone (Option.some_ne_none q).symm,
          fun hsome => absurd (Option.some.inj hsome).symm hqp⟩
      · rw [Function.update_of_ne hr']
        exact hrs r'
    · rcases List.mem_append.mp hmem with hmem | hmem
      · obtain ⟨q, hq, ho'⟩ := h.queued r' o' hmem
        exact ⟨q, hon hq, ho'⟩
      · obtain ⟨rfl, rfl⟩ := Prod.mk.inj (List.mem_singleton.mp hmem)
        exact ⟨p, Function.update_self .., hp⟩
    · obtain ⟨q, hq, ho'⟩ := h.ran r' hmem
      exact ⟨q, hon hq, ho'⟩
    · dsimp only
      rw [List.map_append, ← List.append_assoc]
      refine h.once.append (List.nodup_singleton r) fun x hx hx' => ?_
      obtain rfl : x = r := List.mem_singleton.mp hx'
      exact hnot hx
    · dsimp only at hq ⊢
      by_cases heq : r' = r
      · rw [heq, Function.update_self] at hr'
        obtain rfl := Option.some.inj hr'
        obtain rfl := Promise.settled.inj (hp.symm.trans hq)
        rw [heq]
        exact .inr (List.mem_append_right _ List.mem_cons_self)
      · rw [Function.update_of_ne heq] at hr'
        rcases h.settled r' q o' hr' hq with hmem | hmem
        · exact .inl hmem
        · exact .inr (List.mem_append_left _ hmem)

end KvasirNet.PromiseJobs
