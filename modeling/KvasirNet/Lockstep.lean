import KvasirNet.Pipeline

/-! A party that gives a line of stages one task after the other: it puts the items of a
task in at the front, and takes items off the end until one of them completes the task.
Where every task, settled in order, is answered by what the party waits for, it is so
answered in every order of steps, and leaves nothing in the line. -/
namespace KvasirNet.Pipeline

variable {σ φ : Type}

/-- What the party makes of an item it takes off the end. -/
inductive Verdict
  | more
  | done
  | wrong
  deriving DecidableEq, Repr

structure Task (φ : Type) where
  frames : List φ
  verdict : φ → Verdict

/-- The replies complete the task with the last of them. -/
def Task.Answers (t : Task φ) (replies : List φ) : Prop :=
  ∃ before last, replies = before ++ [last] ∧ (∀ x ∈ before, t.verdict x = .more) ∧
    t.verdict last = .done

inductive Phase (φ : Type)
  | idle
  | sending (t : Task φ) (unsent : List φ)
  | waiting (t : Task φ) (got : List φ)
  | failed

/-- The line with the party at both of its ends; `answered` are the replies to the
tasks that are complete. -/
structure Net (σ φ : Type) where
  line : Line σ φ
  todo : List (Task φ)
  phase : Phase φ
  answered : List (List φ)

inductive Move
  | start
  | send
  | sent
  | stage (k : ℕ)
  | read
  deriving DecidableEq, Repr

namespace Net

def step (n : Net σ φ) : Move → Option (Net σ φ)
  | .start =>
    match n.phase, n.todo with
    | .idle, t :: rest => some { n with todo := rest, phase := .sending t t.frames }
    | _, _ => none
  | .send =>
    match n.phase with
    | .sending t (x :: xs) => some { n with line := n.line.push [x], phase := .sending t xs }
    | _ => none
  | .sent =>
    match n.phase with
    | .sending t [] => some { n with phase := .waiting t [] }
    | _ => none
  | .stage k => (Line.stepAt n.line.cells n.line.out k).map fun l => { n with line := l }
  | .read =>
    match n.phase, n.line.out with
    | .waiting t got, x :: rest =>
      let line : Line σ φ := ⟨n.line.cells, rest⟩
      match t.verdict x with
      | .more => some { n with line := line, phase := .waiting t (got ++ [x]) }
      | .done => some { n with line := line, phase := .idle, answered := n.answered ++ [got ++ [x]] }
      | .wrong => some { n with line := line, phase := .failed }
    | _, _ => none

def init (cells : List (Cell σ φ)) (tasks : List (Task φ)) : Net σ φ := ⟨⟨cells, []⟩, tasks, .idle, []⟩

end Net

/-- One task after the other, each settled before the next. -/
def serve : List (Cell σ φ) → List (Task φ) → Option (List (Cell σ φ) × List (List φ))
  | cells, [] => some (cells, [])
  | cells, t :: ts => do
    let (cells', replies) ← settle cells t.frames
    let (cells'', rest) ← serve cells' ts
    pure (cells'', replies :: rest)

def Closes (closing : φ → Prop) (xs : List φ) : Prop := ∀ x ∈ xs.getLast?, closing x

/-- Every task settles with an answer, and its last item is one that is answered. -/
def Served (closing : φ → Prop) : List (Cell σ φ) → List (Task φ) → Prop
  | _, [] => True
  | cells, t :: ts => Closes closing t.frames ∧ ∃ cells' replies,
    settle cells t.frames = some (cells', replies) ∧ t.Answers replies ∧ Served closing cells' ts

/-- A cell that reads an item to be answered sends items on, the last of them one to be
answered again. -/
def Productive (closing : φ → Prop) (cells : List (Cell σ φ)) : Prop :=
  ∀ c ∈ cells, ∀ s x s' sent, c.step s x = some (s', sent) → closing x →
    sent ≠ [] ∧ Closes closing sent

/-- The items that wait, those nearest to the end first. -/
def pending : List (Cell σ φ) → List φ
  | [] => []
  | c :: cs => pending cs ++ c.inbox

section
variable {closing : φ → Prop}

theorem closes_append {xs ys : List φ} :
    Closes closing (xs ++ ys) ↔ Closes closing ys ∧ (ys = [] → Closes closing xs) := by
  rcases List.eq_nil_or_concat ys with rfl | ⟨zs, y, rfl⟩
  · simp [Closes]
  · simp [Closes, ← List.append_assoc]

variable {cells : List (Cell σ φ)}

theorem quiet_of_pending (h : pending cells = []) : Line.Quiet cells := by
  induction cells with
  | nil => exact fun c hc => absurd hc List.not_mem_nil
  | cons c cs ih =>
    obtain ⟨htail, hinbox⟩ := List.append_eq_nil_iff.mp h
    intro d hd
    rcases List.mem_cons.mp hd with rfl | hd
    · exact hinbox
    · exact ih htail d hd

theorem pending_of_quiet (h : Line.Quiet cells) : pending cells = [] := by
  induction cells with
  | nil => rfl
  | cons c cs ih =>
    rw [pending, ih fun d hd => h d (List.mem_cons_of_mem c hd), h c List.mem_cons_self]
    rfl

theorem pending_push (l : Line σ φ) (xs : List φ) :
    pending (l.push xs).cells = pending l.cells ++ (if l.cells = [] then [] else xs) := by
  obtain ⟨cells, out⟩ := l
  cases cells with
  | nil => rfl
  | cons c cs => simp [Line.push, pending, List.append_assoc]

theorem readAll_closes {step : σ → φ → Option (σ × List φ)}
    (hstep : ∀ s x s' sent, step s x = some (s', sent) → closing x → sent ≠ [] ∧ Closes closing sent)
    {s s' : σ} {xs sent : List φ} (h : readAll step s xs = some (s', sent)) (hne : xs ≠ [])
    (hlast : Closes closing xs) : sent ≠ [] ∧ Closes closing sent := by
  induction xs generalizing s sent with
  | nil => exact absurd rfl hne
  | cons x xs ih =>
    simp only [readAll, Option.bind_eq_bind, Option.bind_eq_some_iff] at h
    obtain ⟨⟨t, first⟩, hx, ⟨u, more⟩, hxs, heq⟩ := h
    obtain ⟨rfl, rfl⟩ := Prod.mk.inj (Option.some.inj heq)
    cases xs with
    | nil =>
      obtain ⟨-, rfl⟩ := Prod.mk.inj (Option.some.inj hxs)
      rw [List.append_nil]
      exact hstep s x t first hx (hlast x rfl)
    | cons y ys =>
      have hrest : Closes closing (y :: ys) := by
        simpa [Closes, List.getLast?_cons_cons] using hlast
      obtain ⟨hmore, hclose⟩ := ih hxs (List.cons_ne_nil y ys) hrest
      exact ⟨by simp [hmore], closes_append.mpr ⟨hclose, fun hnil => absurd hnil hmore⟩⟩

theorem settle_closes {cells' : List (Cell σ φ)} {xs out : List φ}
    (hcells : Productive closing cells) (h : settle cells xs = some (cells', out))
    (hne : pending cells ++ xs ≠ []) (hlast : Closes closing (pending cells ++ xs)) :
    out ≠ [] := by
  suffices hboth : out ≠ [] ∧ Closes closing out from hboth.1
  induction cells generalizing xs cells' out with
  | nil =>
    obtain ⟨-, rfl⟩ := Prod.mk.inj (Option.some.inj h)
    exact ⟨hne, hlast⟩
  | cons c cs ih =>
    simp only [settle, Option.bind_eq_bind, Option.bind_eq_some_iff] at h
    obtain ⟨⟨s, sent⟩, hread, ⟨cs', o⟩, hcs, heq⟩ := h
    obtain ⟨-, rfl⟩ := Prod.mk.inj (Option.some.inj heq)
    have htail : Productive closing cs := fun d hd => hcells d (List.mem_cons_of_mem c hd)
    simp only [pending, List.append_assoc] at hne hlast
    by_cases hempty : c.inbox ++ xs = []
    · rw [hempty] at hread hne hlast
      obtain ⟨-, rfl⟩ := Prod.mk.inj (Option.some.inj hread)
      exact ih htail hcs hne hlast
    · obtain ⟨hclose, -⟩ := closes_append.mp hlast
      obtain ⟨hsent, hsentclose⟩ :=
        readAll_closes (hcells c List.mem_cons_self) hread hempty hclose
      exact ih htail hcs (by simp [hsent])
        (closes_append.mpr ⟨hsentclose, fun hnil => absurd hnil hsent⟩)

theorem stepAt_closes {out : List φ} {k : ℕ} {l : Line σ φ}
    (hcells : Productive closing cells) (h : Line.stepAt cells out k = some l)
    (hlast : Closes closing (pending cells)) : Closes closing (pending l.cells) := by
  induction cells generalizing k l with
  | nil => simp [Line.stepAt] at h
  | cons c cs ih =>
    obtain ⟨hinbox, htail⟩ := closes_append.mp hlast
    cases k with
    | zero =>
      cases hc : c.inbox with
      | nil => simp [Line.stepAt, hc] at h
      | cons x rest =>
        simp only [Line.stepAt, hc, Option.map_eq_some_iff] at h
        obtain ⟨⟨s, sent⟩, hstep, rfl⟩ := h
        rw [hc] at hinbox
        show Closes closing (pending _ ++ rest)
        rw [pending_push]
        refine closes_append.mpr ⟨?_, ?_⟩
        · have hsplit : Closes closing ([x] ++ rest) := hinbox
          exact (closes_append.mp hsplit).1
        · rintro rfl
          have hx : closing x := hinbox x rfl
          obtain ⟨hne, hclose⟩ := hcells c List.mem_cons_self _ _ _ _ hstep hx
          by_cases hcs : cs = []
          · subst hcs
            simp [pending, Closes]
          · rw [if_neg hcs]
            exact closes_append.mpr ⟨hclose, fun hnil => absurd hnil hne⟩
    | succ k =>
      simp only [Line.stepAt, Option.map_eq_some_iff] at h
      obtain ⟨l', hl', rfl⟩ := h
      have hrest : Productive closing cs := fun d hd => hcells d (List.mem_cons_of_mem c hd)
      exact closes_append.mpr ⟨hinbox, fun hnil => ih hrest hl' (htail hnil)⟩

theorem stepAt_steps {out : List φ} {k : ℕ} {l : Line σ φ}
    (h : Line.stepAt cells out k = some l) : l.cells.map Cell.step = cells.map Cell.step := by
  induction cells generalizing k l with
  | nil => simp [Line.stepAt] at h
  | cons c cs ih =>
    cases k with
    | zero =>
      cases hc : c.inbox with
      | nil => simp [Line.stepAt, hc] at h
      | cons x rest =>
        simp only [Line.stepAt, hc, Option.map_eq_some_iff] at h
        obtain ⟨⟨s, sent⟩, -, rfl⟩ := h
        cases cs with
        | nil => rfl
        | cons d cs => rfl
    | succ k =>
      simp only [Line.stepAt, Option.map_eq_some_iff] at h
      obtain ⟨l', hl', rfl⟩ := h
      exact congrArg (c.step :: ·) (ih hl')

theorem push_steps (l : Line σ φ) (xs : List φ) :
    (l.push xs).cells.map Cell.step = l.cells.map Cell.step := by
  obtain ⟨cells, out⟩ := l
  cases cells <;> rfl

theorem Productive.of_steps {cells' : List (Cell σ φ)} (h : Productive closing cells)
    (heq : cells'.map Cell.step = cells.map Cell.step) : Productive closing cells' := by
  intro c hc
  have hmem : c.step ∈ cells.map Cell.step := heq ▸ List.mem_map_of_mem hc
  obtain ⟨d, hd, hstep⟩ := List.mem_map.mp hmem
  rw [← hstep]
  exact h d hd

end

/-! ### The invariant -/

section
variable {closing : φ → Prop}

variable {cells : List (Cell σ φ)}

theorem serve_concat {fin cells' : List (Cell σ φ)} {before : List (Task φ)} {t : Task φ}
    {answers : List (List φ)} {replies : List φ} (h : serve cells before = some (cells', answers))
    (ht : settle cells' t.frames = some (fin, replies)) :
    serve cells (before ++ [t]) = some (fin, answers ++ [replies]) := by
  induction before generalizing cells answers with
  | nil =>
    obtain ⟨rfl, rfl⟩ := Prod.mk.inj (Option.some.inj h)
    simp only [List.nil_append, serve, ht]
    rfl
  | cons b before ih =>
    simp only [serve, Option.bind_eq_bind, Option.bind_eq_some_iff] at h
    obtain ⟨⟨mid, first⟩, hb, ⟨last, rest⟩, hrest, heq⟩ := h
    obtain ⟨rfl, rfl⟩ := Prod.mk.inj (Option.some.inj heq)
    simp only [List.cons_append, serve, hb, Option.bind_eq_bind, Option.bind_some, ih hrest]
    rfl

theorem effort_quiet (h : Line.Quiet cells) : effort cells [] = 0 := by
  induction cells with
  | nil => rfl
  | cons c cs ih =>
    have htail := ih fun d hd => h d (List.mem_cons_of_mem c hd)
    have hc : c.inbox = [] := h c List.mem_cons_self
    simp only [effort, hc, List.append_nil, readAll, List.length_nil, htail]

/-- The tasks that are complete were served in order, and the one under way comes to
what it would have come to had it been settled in one go. -/
def Net.Sound (closing : φ → Prop) (cells : List (Cell σ φ)) (tasks : List (Task φ))
    (n : Net σ φ) : Prop :=
  Productive closing n.line.cells ∧ ∃ before quiet, serve cells before = some (quiet, n.answered) ∧
    match n.phase with
    | .idle => tasks = before ++ n.todo ∧ n.line = ⟨quiet, []⟩ ∧ Line.Quiet quiet ∧
        Served closing quiet n.todo
    | .sending t unsent => tasks = before ++ t :: n.todo ∧
        Closes closing (pending n.line.cells ++ unsent) ∧
        ∃ fin replies, settle quiet t.frames = some (fin, replies) ∧
          n.line.outcome unsent = some (fin, replies) ∧ t.Answers replies ∧
          Served closing fin n.todo
    | .waiting t got => tasks = before ++ t :: n.todo ∧ Closes closing (pending n.line.cells) ∧
        ∃ fin rest, settle quiet t.frames = some (fin, got ++ rest) ∧
          n.line.outcome [] = some (fin, rest) ∧ t.Answers (got ++ rest) ∧
          (∀ x ∈ got, t.verdict x = .more) ∧ Served closing fin n.todo
    | .failed => False

/-- The moves still to come for tasks not yet begun. -/
def cost : List (Cell σ φ) → List (Task φ) → ℕ
  | _, [] => 0
  | cells, t :: ts =>
    match settle cells t.frames with
    | none => 0
    | some (fin, replies) =>
      2 + t.frames.length + effort cells t.frames + replies.length + cost fin ts

def Net.remaining (n : Net σ φ) : ℕ :=
  match n.phase with
  | .idle => cost n.line.cells n.todo
  | .sending _ unsent =>
    match n.line.outcome unsent with
    | none => 0
    | some (fin, replies) =>
      1 + unsent.length + effort n.line.cells unsent + replies.length + cost fin n.todo
  | .waiting _ _ =>
    match n.line.outcome [] with
    | none => 0
    | some (fin, rest) => effort n.line.cells [] + rest.length + cost fin n.todo
  | .failed => 0

variable {tasks : List (Task φ)}

theorem Net.sound_init
    (hproductive : Productive closing cells) (hquiet : Line.Quiet cells)
    (hserved : Served closing cells tasks) : (Net.init cells tasks).Sound closing cells tasks :=
  ⟨hproductive, [], cells, rfl, rfl, rfl, hquiet, hserved⟩

theorem Task.Answers.verdicts {t : Task φ} {got rest : List φ} {x : φ}
    (h : t.Answers (got ++ x :: rest)) :
    t.verdict x ≠ .wrong ∧ (t.verdict x = .done → rest = []) := by
  obtain ⟨before, last, heq, hmore, hdone⟩ := h
  rcases List.eq_nil_or_concat rest with rfl | ⟨init, y, rfl⟩
  · obtain ⟨-, hx⟩ := List.append_inj' heq rfl
    obtain rfl := List.singleton_inj.mp hx
    exact ⟨by rw [hdone]; simp, fun _ => rfl⟩
  · have hsplit : (got ++ x :: init) ++ [y] = before ++ [last] := by
      rw [← heq]
      simp
    obtain ⟨hbefore, -⟩ := List.append_inj' hsplit rfl
    have hx : t.verdict x = .more := hmore x (by rw [← hbefore]; simp)
    exact ⟨by rw [hx]; simp, fun h => by rw [hx] at h; cases h⟩

theorem Net.sound_step {n n' : Net σ φ}
    {m : Move} (hn : n.Sound closing cells tasks) (h : n.step m = some n') :
    n'.Sound closing cells tasks ∧ n.remaining = n'.remaining + 1 := by
  obtain ⟨hproductive, before, quiet, hserve, hphase⟩ := hn
  obtain ⟨line, todo, phase, answered⟩ := n
  cases m with
  | start =>
    cases phase <;> cases todo <;> simp only [Net.step, reduceCtorEq, Option.some.injEq] at h
    rename_i t rest
    subst h
    obtain ⟨htasks, rfl, hquiet, hclose, fin, replies, hsettle, hanswers, hserved⟩ := hphase
    refine ⟨⟨hproductive, before, quiet, hserve, htasks, ?_, fin, replies, hsettle, ?_, hanswers,
      hserved⟩, ?_⟩
    · rw [pending_of_quiet hquiet]
      exact hclose
    · simp [Line.outcome, hsettle]
    · simp only [Net.remaining, Line.outcome, cost, hsettle, Option.map_some, List.nil_append]
      omega
  | send =>
    cases phase with
    | sending t unsent =>
      cases unsent with
      | nil => simp [Net.step] at h
      | cons x xs =>
        obtain rfl := Option.some.inj h
        obtain ⟨htasks, hclose, fin, replies, hsettle, hout, hanswers, hserved⟩ := hphase
        have hpush : (line.push [x]).outcome xs = some (fin, replies) := by
          rw [Line.outcome_push]
          exact hout
        refine ⟨⟨hproductive.of_steps (push_steps line [x]), before, quiet, hserve, htasks, ?_,
          fin, replies, hsettle, hpush, hanswers, hserved⟩, ?_⟩
        · show Closes closing (pending (line.push [x]).cells ++ xs)
          rw [pending_push]
          by_cases hcells : line.cells = []
          · rw [if_pos hcells, hcells]
            rw [hcells] at hclose
            have hsplit : Closes closing ([x] ++ xs) := hclose
            obtain ⟨hlast, -⟩ := closes_append.mp hsplit
            exact closes_append.mpr ⟨hlast, fun _ => by simp [pending, Closes]⟩
          · rw [if_neg hcells, List.append_assoc]
            exact hclose
        · have heffort := Line.effort_pushed line [x] xs
          simp only [Net.remaining, hout, hpush, heffort, List.length_cons, List.singleton_append]
          omega
    | _ => simp [Net.step] at h
  | sent =>
    cases phase with
    | sending t unsent =>
      cases unsent with
      | cons x xs => simp [Net.step] at h
      | nil =>
        obtain rfl := Option.some.inj h
        obtain ⟨htasks, hclose, fin, replies, hsettle, hout, hanswers, hserved⟩ := hphase
        rw [List.append_nil] at hclose
        refine ⟨⟨hproductive, before, quiet, hserve, htasks, hclose, fin, replies, hsettle, hout,
          hanswers, fun x hx => absurd hx List.not_mem_nil, hserved⟩, ?_⟩
        simp only [Net.remaining, hout, List.length_nil]
        omega
    | _ => simp [Net.step] at h
  | stage k =>
    simp only [Net.step, Option.map_eq_some_iff] at h
    obtain ⟨l, hl, rfl⟩ := h
    have hsteps := hproductive.of_steps (stepAt_steps hl)
    cases phase with
    | idle =>
      obtain ⟨-, hline, hquiet, -⟩ := hphase
      have hcells : line.cells = quiet := congrArg Line.cells hline
      -- a quiet line has nothing to do
      have hless := (Line.stepAt_outcome hl []).2
      rw [hcells, effort_quiet hquiet, Line.settle_quiet hquiet] at hless
      exact absurd (hless rfl) (by omega)
    | sending t unsent =>
      obtain ⟨htasks, hclose, fin, replies, hsettle, hout, hanswers, hserved⟩ := hphase
      obtain ⟨hsame, hless⟩ := Line.stepAt_outcome hl unsent
      have hout' : l.outcome unsent = some (fin, replies) := hsame.trans hout
      have hsome : (settle line.cells unsent).isSome := by
        unfold Line.outcome at hout
        cases hcells : settle line.cells unsent with
        | none => simp [hcells] at hout
        | some r => rfl
      obtain ⟨hunsent, hwaiting⟩ := closes_append.mp hclose
      refine ⟨⟨hsteps, before, quiet, hserve, htasks, closes_append.mpr ⟨hunsent, fun hnil =>
        stepAt_closes hproductive hl (hwaiting hnil)⟩, fin, replies, hsettle, hout', hanswers,
        hserved⟩, ?_⟩
      have := hless hsome
      simp only [Net.remaining, hout, hout']
      omega
    | waiting t got =>
      obtain ⟨htasks, hclose, fin, rest, hsettle, hout, hanswers, hgot, hserved⟩ := hphase
      obtain ⟨hsame, hless⟩ := Line.stepAt_outcome hl []
      have hout' : l.outcome [] = some (fin, rest) := hsame.trans hout
      have hsome : (settle line.cells []).isSome := by
        unfold Line.outcome at hout
        cases hcells : settle line.cells [] with
        | none => simp [hcells] at hout
        | some r => rfl
      refine ⟨⟨hsteps, before, quiet, hserve, htasks, stepAt_closes hproductive hl hclose, fin,
        rest, hsettle, hout', hanswers, hgot, hserved⟩, ?_⟩
      have := hless hsome
      simp only [Net.remaining, hout, hout']
      omega
    | failed => exact hphase.elim
  | read =>
    cases phase with
    | waiting t got =>
      obtain ⟨cells', out⟩ := line
      cases out with
      | nil => simp [Net.step] at h
      | cons x out =>
        obtain ⟨htasks, hclose, fin, rest, hsettle, hout, hanswers, hgot, hserved⟩ := hphase
        simp only [Line.outcome, Option.map_eq_some_iff] at hout
        obtain ⟨⟨fin', more⟩, hcells, heq⟩ := hout
        obtain ⟨rfl, rfl⟩ := Prod.mk.inj heq
        have hassoc : got ++ (x :: out ++ more) = got ++ [x] ++ (out ++ more) := by simp
        have hout' : (⟨cells', out⟩ : Line σ φ).outcome [] = some (fin', out ++ more) := by
          simp [Line.outcome, hcells]
        have hbefore : (⟨cells', x :: out⟩ : Line σ φ).outcome [] = some (fin', x :: out ++ more) := by
          simp [Line.outcome, hcells]
        obtain ⟨hnotwrong, hdone⟩ := hanswers.verdicts
        simp only [Net.step] at h
        cases hverdict : t.verdict x with
        | wrong => exact absurd hverdict hnotwrong
        | more =>
          simp only [hverdict, Option.some.injEq] at h
          subst h
          refine ⟨⟨hproductive, before, quiet, hserve, htasks, hclose, fin', out ++ more, ?_, hout',
            hassoc ▸ hanswers, ?_, hserved⟩, ?_⟩
          · rw [← hassoc]
            exact hsettle
          · intro y hy
            rcases List.mem_append.mp hy with hy | hy
            · exact hgot y hy
            · rw [List.mem_singleton.mp hy]
              exact hverdict
          · simp only [Net.remaining, hbefore, hout', List.length_append, List.length_cons]
            omega
        | done =>
          simp only [hverdict, Option.some.injEq] at h
          subst h
          obtain ⟨rfl, rfl⟩ := List.append_eq_nil_iff.mp (hdone hverdict)
          -- the answer is complete, so that nothing can still wait
          have hempty : pending cells' = [] := by
            by_contra hne
            exact settle_closes hproductive hcells (by simpa using hne) (by simpa using hclose) rfl
          have hquiet := quiet_of_pending hempty
          rw [Line.settle_quiet hquiet] at hcells
          obtain ⟨rfl, -⟩ := Prod.mk.inj (Option.some.inj hcells)
          have hserve' := serve_concat hserve hsettle
          refine ⟨⟨hproductive, before ++ [t], cells', hserve', by simp [htasks], rfl, hquiet,
            hserved⟩, ?_⟩
          simp only [Net.remaining, hbefore, effort_quiet hquiet, List.length_append,
            List.length_cons, List.length_nil]
          omega
    | _ => simp [Net.step] at h

theorem Net.sound_progress {n : Net σ φ}
    (hn : n.Sound closing cells tasks) :
    (n.phase = .idle ∧ n.todo = []) ∨ ∃ m, (n.step m).isSome := by
  obtain ⟨-, before, quiet, -, hphase⟩ := hn
  obtain ⟨line, todo, phase, answered⟩ := n
  cases phase with
  | idle =>
    cases todo with
    | nil => exact Or.inl ⟨rfl, rfl⟩
    | cons t rest => exact Or.inr ⟨.start, rfl⟩
  | sending t unsent =>
    cases unsent with
    | nil => exact Or.inr ⟨.sent, rfl⟩
    | cons x xs => exact Or.inr ⟨.send, rfl⟩
  | waiting t got =>
    right
    obtain ⟨-, -, fin, rest, -, hout, hanswers, hgot, -⟩ := hphase
    obtain ⟨cells', out⟩ := line
    simp only [Line.outcome, Option.map_eq_some_iff] at hout
    obtain ⟨⟨fin', more⟩, hcells, heq⟩ := hout
    obtain ⟨rfl, rfl⟩ := Prod.mk.inj heq
    cases out with
    | cons x out =>
      refine ⟨.read, ?_⟩
      simp only [Net.step]
      cases t.verdict x <;> rfl
    | nil =>
      rcases Line.stepAt_progress [] [] (by rw [hcells]; rfl) with hquiet | ⟨k, hk⟩
      · -- a quiet line has sent all it will, the completing item too
        rw [Line.settle_quiet hquiet] at hcells
        obtain ⟨-, rfl⟩ := Prod.mk.inj (Option.some.inj hcells)
        obtain ⟨init, last, heq, -, hdone⟩ := hanswers
        have hlast : last ∈ got := by
          have : got = init ++ [last] := by simpa using heq
          rw [this]
          simp
        rw [hgot last hlast] at hdone
        cases hdone
      · refine ⟨.stage k, ?_⟩
        simpa [Net.step] using hk
  | failed => exact hphase.elim

theorem Net.sound_run {n n' : Net σ φ}
    {ms : List Move} (hn : n.Sound closing cells tasks) (h : runs Net.step n ms = some n') :
    n'.Sound closing cells tasks ∧ n.remaining = n'.remaining + ms.length := by
  induction ms generalizing n with
  | nil =>
    obtain rfl := Option.some.inj h
    exact ⟨hn, rfl⟩
  | cons m ms ih =>
    obtain ⟨mid, hstep, hrun⟩ := runs_cons h
    obtain ⟨hmid, hone⟩ := Net.sound_step hn hstep
    obtain ⟨hsound, hrest⟩ := ih hmid hrun
    refine ⟨hsound, ?_⟩
    rw [List.length_cons]
    omega

end

end KvasirNet.Pipeline
