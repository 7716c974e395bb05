import KvasirNet.Runs
import Mathlib.Data.List.Basic
import Mathlib.Tactic.Common

/-! Stages in a line, each with a queue in front of it. The order in which they take
their steps changes nothing: a line that settles does so to one result, after one
number of steps, whichever stage goes first. -/
namespace KvasirNet.Pipeline

/-- A stage and what waits in front of it. `step` reads one item; it fails, or changes
the state and sends some items on. -/
structure Cell (σ φ : Type) where
  step : σ → φ → Option (σ × List φ)
  state : σ
  inbox : List φ

/-- The cells in order, and what came out of the last one. -/
structure Line (σ φ : Type) where
  cells : List (Cell σ φ)
  out : List φ

variable {σ φ : Type}

namespace Line

def cons (c : Cell σ φ) (l : Line σ φ) : Line σ φ := ⟨c :: l.cells, l.out⟩

def push (l : Line σ φ) (xs : List φ) : Line σ φ :=
  match l with
  | ⟨[], out⟩ => ⟨[], out ++ xs⟩
  | ⟨c :: cs, out⟩ => ⟨{ c with inbox := c.inbox ++ xs } :: cs, out⟩

def stepAt : List (Cell σ φ) → List φ → ℕ → Option (Line σ φ)
  | [], _, _ => none
  | c :: cs, out, 0 =>
    match c.inbox with
    | [] => none
    | x :: rest => (c.step c.state x).map fun (state, sent) =>
      cons { c with state := state, inbox := rest } (push ⟨cs, out⟩ sent)
  | c :: cs, out, k + 1 => (stepAt cs out k).map (cons c)

end Line

def readAll (step : σ → φ → Option (σ × List φ)) : σ → List φ → Option (σ × List φ)
  | s, [] => some (s, [])
  | s, x :: xs => do
    let (s', sent) ← step s x
    let (s'', more) ← readAll step s' xs
    pure (s'', sent ++ more)

variable {step : σ → φ → Option (σ × List φ)}

theorem readAll_single {s s' : σ} {x : φ} {sent : List φ}
    (h : step s x = some (s', sent)) : readAll step s [x] = some (s', sent) := by
  simp [readAll, h]

theorem readAll_cons {s t u : σ} {x : φ}
    {xs first more : List φ} (hx : step s x = some (t, first))
    (hxs : readAll step t xs = some (u, more)) :
    readAll step s (x :: xs) = some (u, first ++ more) := by
  simp [readAll, hx, hxs]

theorem readAll_append {s t u : σ}
    {xs ys first more : List φ} (hxs : readAll step s xs = some (t, first))
    (hys : readAll step t ys = some (u, more)) :
    readAll step s (xs ++ ys) = some (u, first ++ more) := by
  induction xs generalizing s first with
  | nil =>
    obtain ⟨rfl, rfl⟩ := Prod.mk.inj (Option.some.inj hxs)
    exact hys
  | cons x xs ih =>
    simp only [readAll, Option.bind_eq_bind, Option.bind_eq_some_iff] at hxs
    obtain ⟨⟨v, a⟩, hx, ⟨w, b⟩, hrest, heq⟩ := hxs
    obtain ⟨rfl, rfl⟩ := Prod.mk.inj (Option.some.inj heq)
    rw [List.cons_append, List.append_assoc]
    exact readAll_cons hx (ih hrest)

/-- Each cell in turn reads all there is for it; what comes out at the end. -/
def settle : List (Cell σ φ) → List φ → Option (List (Cell σ φ) × List φ)
  | [], xs => some ([], xs)
  | c :: cs, xs => do
    let (s, sent) ← readAll c.step c.state (c.inbox ++ xs)
    let (cs', out) ← settle cs sent
    pure ({ c with state := s, inbox := [] } :: cs', out)

theorem settle_cons {s s' : σ} {cs cs' : List (Cell σ φ)}
    {xs sent out : List φ} (hread : readAll step s xs = some (s', sent))
    (hsettle : settle cs sent = some (cs', out)) :
    settle (⟨step, s, []⟩ :: cs) xs = some (⟨step, s', []⟩ :: cs', out) := by
  simp only [settle, List.nil_append, hread, hsettle, Option.bind_eq_bind, Option.bind_some]
  rfl

def effort : List (Cell σ φ) → List φ → ℕ
  | [], _ => 0
  | c :: cs, xs => (c.inbox ++ xs).length +
    match readAll c.step c.state (c.inbox ++ xs) with
    | none => 0
    | some (_, sent) => effort cs sent

namespace Line

/-- What a line comes to when more items arrive, with all that came out. -/
def outcome (l : Line σ φ) (xs : List φ) : Option (List (Cell σ φ) × List φ) :=
  (settle l.cells xs).map fun r => (r.1, l.out ++ r.2)

theorem outcome_push (l : Line σ φ) (xs ys : List φ) :
    (l.push xs).outcome ys = l.outcome (xs ++ ys) := by
  obtain ⟨cells, out⟩ := l
  cases cells with
  | nil => simp [push, outcome, settle]
  | cons c cs => simp only [push, outcome, settle, List.append_assoc]

theorem effort_push {c : Cell σ φ} {cs : List (Cell σ φ)} {out xs ys : List φ} :
    effort (push ⟨c :: cs, out⟩ xs).cells ys = effort (c :: cs) (xs ++ ys) := by
  simp only [push, effort, List.append_assoc]

theorem effort_pushed (l : Line σ φ) (xs ys : List φ) :
    effort (l.push xs).cells ys = effort l.cells (xs ++ ys) := by
  obtain ⟨cells, out⟩ := l
  cases cells with
  | nil => rfl
  | cons c cs => exact effort_push

variable {cells : List (Cell σ φ)}

theorem stepAt_outcome {out : List φ} {k : ℕ} {l : Line σ φ}
    (h : stepAt cells out k = some l) (xs : List φ) :
    l.outcome xs = (⟨cells, out⟩ : Line σ φ).outcome xs ∧
      ((settle cells xs).isSome → effort cells xs = effort l.cells xs + 1) := by
  induction cells generalizing k l xs with
  | nil => simp [stepAt] at h
  | cons c cs ih =>
    cases k with
    | zero =>
      cases hinbox : c.inbox with
      | nil => simp [stepAt, hinbox] at h
      | cons x rest =>
        simp only [stepAt, hinbox, Option.map_eq_some_iff] at h
        obtain ⟨⟨s, sent⟩, hstep, rfl⟩ := h
        have hread : readAll c.step c.state (c.inbox ++ xs) =
            (readAll c.step s (rest ++ xs)).map fun r => (r.1, sent ++ r.2) := by
          rw [hinbox, List.cons_append, readAll, hstep]
          simp only [Option.bind_eq_bind, Option.bind_some]
          cases readAll c.step s (rest ++ xs) <;> rfl
        cases hrest : readAll c.step s (rest ++ xs) with
        | none =>
          rw [hrest, Option.map_none] at hread
          simp [outcome, settle, cons, hrest, hread]
        | some r =>
          obtain ⟨t, more⟩ := r
          rw [hrest, Option.map_some] at hread
          -- what the cell sent now stands in front of what it will send
          have hpush := outcome_push ⟨cs, out⟩ sent more
          have heffort := effort_pushed ⟨cs, out⟩ sent more
          simp only [outcome] at hpush
          constructor
          · simp only [outcome, settle, cons, hrest, hread, Option.bind_eq_bind, Option.bind_some]
            cases hleft : settle (push ⟨cs, out⟩ sent).cells more <;>
              cases hright : settle cs (sent ++ more) <;>
                simp [hleft, hright] at hpush ⊢
            exact hpush
          · intro _
            simp only [effort, cons, hrest, hread, heffort]
            rw [hinbox, List.cons_append, List.length_cons]
            omega
    | succ k =>
      simp only [stepAt, Option.map_eq_some_iff] at h
      obtain ⟨l', hl', rfl⟩ := h
      cases hread : readAll c.step c.state (c.inbox ++ xs) with
      | none => simp [outcome, settle, cons, hread]
      | some r =>
        obtain ⟨s, sent⟩ := r
        obtain ⟨hout, heffort⟩ := ih hl' sent
        simp only [outcome] at hout
        constructor
        · simp only [outcome, settle, cons, hread, Option.bind_eq_bind, Option.bind_some]
          cases hleft : settle l'.cells sent <;> cases hright : settle cs sent <;>
            simp [hleft, hright] at hout ⊢
          exact hout
        · intro hsome
          have htail : (settle cs sent).isSome := by
            simp only [settle, hread, Option.bind_eq_bind, Option.bind_some] at hsome
            cases hcs : settle cs sent with
            | none => simp [hcs] at hsome
            | some r => rfl
          have hless := heffort htail
          simp only [effort, cons, hread]
          omega

def Quiet (cells : List (Cell σ φ)) : Prop := ∀ c ∈ cells, c.inbox = []

theorem stepAt_progress (out xs : List φ)
    (h : (settle cells xs).isSome) : Quiet cells ∨ ∃ k, (stepAt cells out k).isSome := by
  induction cells generalizing xs with
  | nil => exact Or.inl fun c hc => absurd hc List.not_mem_nil
  | cons c cs ih =>
    cases hread : readAll c.step c.state (c.inbox ++ xs) with
    | none => simp [settle, hread] at h
    | some r =>
      cases hinbox : c.inbox with
      | cons x rest =>
        right
        refine ⟨0, ?_⟩
        rw [hinbox, List.cons_append, readAll] at hread
        cases hstep : c.step c.state x with
        | none => simp [hstep] at hread
        | some r => simp [stepAt, hinbox, hstep]
      | nil =>
        have htail : (settle cs r.2).isSome := by
          simp only [settle, hread, Option.bind_eq_bind, Option.bind_some] at h
          cases hcs : settle cs r.2 with
          | none => simp [hcs] at h
          | some r => rfl
        rcases ih r.2 htail with hquiet | ⟨k, hk⟩
        · left
          intro d hd
          rcases List.mem_cons.mp hd with rfl | hd
          · exact hinbox
          · exact hquiet d hd
        · right
          refine ⟨k + 1, ?_⟩
          simpa [stepAt] using hk

theorem settle_quiet (h : Quiet cells) :
    settle cells [] = some (cells, []) := by
  induction cells with
  | nil => rfl
  | cons c cs ih =>
    have hc : c.inbox = [] := h c List.mem_cons_self
    have htail := ih fun d hd => h d (List.mem_cons_of_mem c hd)
    have hcell : ({ c with state := c.state, inbox := [] } : Cell σ φ) = c := by rw [← hc]
    simp only [settle, hc, List.append_nil, readAll, htail, Option.bind_eq_bind, Option.bind_some]
    rw [hcell]
    rfl

end Line

end KvasirNet.Pipeline
