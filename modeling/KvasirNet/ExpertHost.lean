import KvasirNet.Runs
import Mathlib.Data.List.Basic
import Mathlib.Tactic.Common
import Mathlib.Tactic.SplitIfs

/-! One slot of a machine that holds experts: an assignment is downloaded, a worker started
on it, and the segment reported while the worker serves. An assignment that is replaced
leaves its asynchronous work behind, which looks at the generation before it goes on. -/
namespace KvasirNet.Expert

structure Want where
  model : String
  layer : ℕ
  first : ℕ
  last : ℕ
  deriving DecidableEq, Repr

inductive Phase
  | idle
  | downloading
  | starting
  | serving
  | failed
  deriving DecidableEq, Repr

/-- Where the work of an assignment is suspended: for the token, the response or the body
of a download attempt, for a free port, for a connection to the worker, or in its sleep. -/
inductive Point
  | token (attempt : ℕ)
  | response (attempt : ℕ)
  | body (attempt : ℕ)
  | port
  | connecting
  | sleeping
  | done
  deriving DecidableEq, Repr

structure Task where
  gen : ℕ
  point : Point
  deriving DecidableEq, Repr

/-- A worker process, and the generation that it was spawned for. -/
structure Proc where
  gen : ℕ
  alive : Bool
  killed : Bool
  deriving DecidableEq, Repr

def Proc.loose (p : Proc) : Bool := p.alive && !p.killed

structure Held where
  want : Want
  path : Bool
  deriving DecidableEq, Repr

/-- The slot. `progress` names the task whose download is shown, `released` says that a
release came after the last assignment. -/
structure Host where
  phase : Phase
  held : Option Held
  proc : Option ℕ
  port : Option ℕ
  generation : ℕ
  lastError : Bool
  progress : Option ℕ
  procs : List Proc
  tasks : List Task
  released : Bool
  deriving DecidableEq, Repr

def Host.initial : Host := ⟨.idle, none, none, none, 0, false, none, [], [], false⟩

namespace Host

def busy (s : Host) : Bool :=
  s.phase = .downloading || s.phase = .starting || s.phase = .serving

def heldSegments (s : Host) : List (ℕ × ℕ × ℕ) :=
  match s.phase, s.held with
  | .serving, some h => [(h.want.layer, h.want.first, h.want.last)]
  | _, _ => []

def stopWorker (s : Host) : Host :=
  match s.proc with
  | some p =>
    { s with proc := none, procs := s.procs.modify p fun q => { q with killed := true } }
  | none => s

def release (s : Host) : Host :=
  if s.phase = .idle ∧ s.proc = none then { s with released := true }
  else { s.stopWorker with
    generation := s.generation + 1
    held := none
    port := none
    phase := .idle
    released := true }

def goTo (s : Host) (i : ℕ) (t : Task) (point : Point) : Host :=
  { s with tasks := s.tasks.set i { t with point := point } }

/-- The `catch` of `provision`. -/
def fail (s : Host) (i : ℕ) (t : Task) : Host :=
  if t.gen = s.generation then
    { s.stopWorker.goTo i t .done with lastError := true, phase := .failed }
  else s.goTo i t .done

/-- A download attempt that failed, and the check before the next one. -/
def attemptFailed (s : Host) (i : ℕ) (t : Task) (attempt : ℕ) : Host :=
  if attempt + 1 < 3 then
    if t.gen = s.generation then s.goTo i t (.token (attempt + 1)) else s.fail i t
  else s.fail i t

/-- From the shard on, up to the wait for a port. The shard may not be `valid` after all;
`worker` says that a worker binary is installed. -/
def downloaded (s : Host) (i : ℕ) (t : Task) (valid worker : Bool) : Host :=
  if t.gen = s.generation then
    let s' : Host := { s with held := s.held.map fun h => { h with path := true } }
    if valid then
      let s'' : Host := { s' with phase := .starting }
      if worker then s''.goTo i t .port else s''.fail i t
    else s'.fail i t
  else s.goTo i t .done

/-- From the port on: `this.held` is read and the worker spawned. -/
def allocated (s : Host) (i : ℕ) (t : Task) (port : ℕ) : Host :=
  let s' : Host := { s with port := some port }
  match s'.held with
  | none => s'.fail i t
  | some _ =>
    let s'' : Host := { s' with
      procs := s'.procs ++ [⟨t.gen, true, false⟩]
      proc := some s'.procs.length }
    if t.gen = s''.generation then s''.goTo i t .connecting else s''.fail i t

def tried (s : Host) (i : ℕ) (t : Task) (connected : Bool) : Host :=
  if connected then
    if t.gen = s.generation then { s.goTo i t .done with phase := .serving }
    else s.goTo i t .done
  else s.goTo i t .sleeping

/-- The loop of `startWorker`, after its sleep. -/
def slept (s : Host) (i : ℕ) (t : Task) (expired : Bool) : Host :=
  if expired then s.fail i t
  else if t.gen = s.generation then
    if s.proc.isSome then s.goTo i t .connecting else s.fail i t
  else s.fail i t

/-- `provision`, up to its first await. `cached` says that the shard is on disk. -/
def provision (s : Host) (want : Want) (cached worker : Bool) : Host :=
  if s.busy && s.held.any (·.want = want) then s
  else
    let r := s.release
    let t : Task := ⟨r.generation + 1, .token 0⟩
    let s' := { r with
      generation := r.generation + 1
      held := some ⟨want, false⟩
      phase := .downloading
      lastError := false
      tasks := r.tasks ++ [t]
      released := false }
    if cached then s'.downloaded r.tasks.length t true worker else s'

end Host

inductive Outcome
  | resolved
  | rejected
  | saved (valid worker : Bool)
  | allocated (port : ℕ)
  | tried (connected : Bool)
  | slept (expired : Bool)
  deriving DecidableEq, Repr

inductive Action
  | provision (want : Want) (cached worker : Bool)
  | release
  | exit (p : ℕ)
  | resume (i : ℕ) (outcome : Outcome)
  deriving DecidableEq, Repr

/-- A worker exits, and its `exit` handler runs. -/
def Host.exited (s : Host) (p : ℕ) (q : Proc) : Host :=
  let s' := { s with procs := s.procs.set p { q with alive := false } }
  if s.proc ≠ some p then s'
  else if q.gen = s.generation ∧ s.phase = .serving then
    { s' with proc := none, lastError := true, phase := .failed }
  else { s' with proc := none }

def Host.resumed (s : Host) (i : ℕ) (t : Task) : Outcome → Option Host
  | .resolved => match t.point with
    | .token attempt => some (s.goTo i t (.response attempt))
    | .response attempt => some ({ s with progress := some i }.goTo i t (.body attempt))
    | _ => none
  | .rejected => match t.point with
    | .token attempt | .response attempt => some (s.attemptFailed i t attempt)
    | .body attempt =>
      let s' := if s.progress = some i then { s with progress := none } else s
      some (s'.attemptFailed i t attempt)
    | .port => some (s.fail i t)
    | _ => none
  | .saved valid worker => match t.point with
    | .body _ =>
      let s' := if s.progress = some i then { s with progress := none } else s
      some (s'.downloaded i t valid worker)
    | _ => none
  | .allocated port => match t.point with
    | .port => some (s.allocated i t port)
    | _ => none
  | .tried connected => match t.point with
    | .connecting => some (s.tried i t connected)
    | _ => none
  | .slept expired => match t.point with
    | .sleeping => some (s.slept i t expired)
    | _ => none

def step (s : Host) : Action → Option Host
  | .provision want cached worker => some (s.provision want cached worker)
  | .release => some s.release
  | .exit p => (s.procs[p]?.filter (·.alive)).map fun q => s.exited p q
  | .resume i outcome => s.tasks[i]?.bind fun t => s.resumed i t outcome

/-- A task of an assignment that was replaced by another one. -/
def Host.stale (s : Host) (t : Task) : Bool := t.gen ≠ s.generation && s.held.isSome

/-- What the slot rests on: no port and no response comes back to an assignment that was
replaced by another one, and none is connected to whose worker has exited. -/
def attended (s : Host) : Action → Bool
  | .resume i (.allocated _) => s.tasks[i]?.all fun t => !s.stale t
  | .resume i .resolved => s.tasks[i]?.all fun t =>
    match t.point with
    | .response _ => !s.stale t
    | _ => true
  | .resume i (.tried true) => s.tasks[i]?.all fun t => t.gen ≠ s.generation || s.proc.isSome
  | _ => true

/-- What the slot owes: at most one worker is loose, none after a release, and a segment is
reported only while the worker of the assignment lives. -/
structure Honest (s : Host) : Prop where
  one : ∀ (p q : ℕ) (x y : Proc), s.procs[p]? = some x → s.procs[q]? = some y →
    x.loose = true → y.loose = true → p = q
  released : s.released = true → ∀ x ∈ s.procs, x.loose = false
  reported : s.heldSegments ≠ [] →
    ∃ p x, s.proc = some p ∧ s.procs[p]? = some x ∧ x.gen = s.generation ∧ x.alive = true

/-- What is recorded about the assignment of the day. -/
structure SameRecord (s s' : Host) : Prop where
  phase : s'.phase = s.phase
  held : s'.held = s.held
  proc : s'.proc = s.proc
  port : s'.port = s.port
  generation : s'.generation = s.generation
  lastError : s'.lastError = s.lastError
  procs : s'.procs = s.procs

/-- Work that is stale changes nothing of what is recorded, and shows no progress but to
take its own away. -/
def LeavesNewer (s : Host) (a : Action) : Prop :=
  ∀ i outcome t s', a = .resume i outcome → s.tasks[i]? = some t → s.stale t = true →
    step s a = some s' → SameRecord s s' ∧ (s'.progress = s.progress ∨ s.progress = some i)

/-! ### What a slot keeps -/

/-- A point of the current assignment, by the phase that goes with it. -/
def Point.Fits (s : Host) : Point → Prop
  | .token _ | .response _ | .body _ => s.phase = .downloading
  | .port => s.phase = .starting ∧ s.proc = none
  | .connecting | .sleeping => s.phase = .starting
  | .done => True

/-- Each generation has one task, and a worker that is loose is the one of the handle. -/
structure Base (s : Host) : Prop where
  gens : ∀ (i : ℕ) (t : Task), s.tasks[i]? = some t → t.gen ≤ s.generation
  unique : ∀ (i j : ℕ) (t u : Task), s.tasks[i]? = some t → s.tasks[j]? = some u →
    t.gen = u.gen → i = j
  tracked : ∀ (p : ℕ) (x : Proc), s.procs[p]? = some x → x.loose = true → s.proc = some p

structure Sound (s : Host) : Prop extends Base s where
  worker : ∀ p, s.proc = some p → (s.phase = .starting ∨ s.phase = .serving) ∧
    ∃ x, s.procs[p]? = some x ∧ x.gen = s.generation ∧ x.alive = true
  idle : s.phase = .idle → s.held = none
  held : s.phase = .downloading ∨ s.phase = .starting ∨ s.phase = .serving → s.held.isSome = true
  serving : s.phase = .serving → s.proc.isSome = true
  current : ∀ (i : ℕ) (t : Task), s.tasks[i]? = some t → t.gen = s.generation → t.point.Fits s
  released : s.released = true → s.phase = .idle

theorem sound_initial : Sound .initial where
  gens i t h := by simp [Host.initial] at h
  unique i j t u h := by simp [Host.initial] at h
  tracked p x h := by simp [Host.initial] at h
  worker p h := by cases h
  idle _ := rfl
  held h := by rcases h with h | h | h <;> cases h
  serving h := by cases h
  current i t h := by simp [Host.initial] at h
  released h := by cases h

variable {s s' : Host} {i : ℕ} {t : Task}

theorem Sound.quiet (h : Sound s) (hnone : s.proc = none) : ∀ x ∈ s.procs, x.loose = false := by
  intro x hx
  obtain ⟨p, hp⟩ := List.mem_iff_getElem?.mp hx
  cases hloose : x.loose with
  | false => rfl
  | true => cases hnone.symm.trans (h.tracked p x hp hloose)

theorem Sound.honest (h : Sound s) : Honest s where
  one p q x y hp hq hx hy :=
    Option.some.inj ((h.tracked p x hp hx).symm.trans (h.tracked q y hq hy))
  released hs := by
    refine h.quiet ?_
    cases hproc : s.proc with
    | none => rfl
    | some p =>
      have hidle := h.released hs
      rcases (h.worker p hproc).1 with hphase | hphase <;> cases hidle.symm.trans hphase
  reported hs := by
    have hserving : s.phase = .serving := by
      unfold Host.heldSegments at hs
      split at hs
      · assumption
      · exact absurd rfl hs
    obtain ⟨p, hp⟩ := Option.isSome_iff_exists.mp (h.serving hserving)
    obtain ⟨-, x, hx, hgen, halive⟩ := h.worker p hp
    exact ⟨p, x, hp, hx, hgen, halive⟩

variable {point : Point}

theorem getElem?_goTo {j : ℕ} {u : Task}
    (hj : (s.tasks.set i { t with point := point })[j]? = some u) :
    (i = j ∧ u = { t with point := point }) ∨ (i ≠ j ∧ s.tasks[j]? = some u) := by
  rw [List.getElem?_set] at hj
  split_ifs at hj with hij hlt
  · exact Or.inl ⟨hij, (Option.some.inj hj).symm⟩
  · exact Or.inr ⟨hij, hj⟩

theorem Base.goTo (h : Base s) (ht : s.tasks[i]? = some t) (point : Point) :
    Base (s.goTo i t point) where
  gens j u hj := by
    rcases getElem?_goTo hj with ⟨rfl, rfl⟩ | ⟨-, hold⟩
    · exact h.gens i t ht
    · exact h.gens j u hold
  unique j k u v hj hk huv := by
    rcases getElem?_goTo hj with ⟨rfl, rfl⟩ | ⟨-, hold⟩
    · rcases getElem?_goTo hk with ⟨rfl, rfl⟩ | ⟨-, hold'⟩
      · rfl
      · exact h.unique i k t v ht hold' huv
    · rcases getElem?_goTo hk with ⟨rfl, rfl⟩ | ⟨-, hold'⟩
      · exact h.unique j i u t hold ht huv
      · exact h.unique j k u v hold hold' huv
  tracked := h.tracked

theorem Base.current_goTo (h : Base s) (ht : s.tasks[i]? = some t) (hgen : t.gen = s.generation)
    (hfits : point.Fits s) :
    ∀ (j : ℕ) (u : Task), (s.goTo i t point).tasks[j]? = some u →
      u.gen = s.generation → u.point.Fits s := by
  intro j u hj hu
  rcases getElem?_goTo hj with ⟨rfl, rfl⟩ | ⟨hij, hold⟩
  · exact hfits
  · exact absurd (h.unique i j t u ht hold (hgen.trans hu.symm)) hij

theorem Sound.goTo_stale (h : Sound s) (ht : s.tasks[i]? = some t) (hgen : t.gen ≠ s.generation)
    (point : Point) : Sound (s.goTo i t point) where
  toBase := h.toBase.goTo ht point
  worker := h.worker
  idle := h.idle
  held := h.held
  serving := h.serving
  current j u hj hu := by
    rcases getElem?_goTo hj with ⟨rfl, rfl⟩ | ⟨-, hold⟩
    · exact absurd hu hgen
    · exact h.current j u hold hu
  released := h.released

theorem stopWorker_spec (h : Base s) : s.stopWorker.proc = none ∧
    (∀ x ∈ s.stopWorker.procs, x.loose = false) ∧ s.stopWorker.tasks = s.tasks ∧
    s.stopWorker.generation = s.generation ∧ s.stopWorker.released = s.released := by
  unfold Host.stopWorker
  split
  · rename_i p hp
    refine ⟨rfl, fun x hx => ?_, rfl, rfl, rfl⟩
    obtain ⟨q, hq⟩ := List.mem_iff_getElem?.mp hx
    dsimp only at hq
    rw [List.getElem?_modify] at hq
    obtain ⟨y, hy, hxy⟩ := Option.map_eq_some_iff.mp hq
    cases hloose : x.loose with
    | false => rfl
    | true =>
      by_cases hpq : p = q
      · rw [if_pos hpq] at hxy
        subst hxy
        simp [Proc.loose] at hloose
      · rw [if_neg hpq] at hxy
        subst hxy
        exact absurd (Option.some.inj (hp.symm.trans (h.tracked q y hy hloose))) hpq
  · rename_i hp
    refine ⟨hp, fun x hx => ?_, rfl, rfl, rfl⟩
    obtain ⟨q, hq⟩ := List.mem_iff_getElem?.mp hx
    cases hloose : x.loose with
    | false => rfl
    | true => cases hp.symm.trans (h.tracked q x hq hloose)

theorem sound_fail_current (h : Base s) (ht : s.tasks[i]? = some t) (hgen : t.gen = s.generation)
    (hreleased : s.released = false) : Sound (s.fail i t) := by
  obtain ⟨hproc, hquiet, htasks, hgeneration, hrel⟩ := stopWorker_spec h
  have hstopped : Base s.stopWorker := by
    refine ⟨fun j u hj => ?_, fun j k u v hj hk => ?_, fun p x hp hx => ?_⟩
    · rw [hgeneration]
      exact h.gens j u (htasks ▸ hj)
    · exact h.unique j k u v (htasks ▸ hj) (htasks ▸ hk)
    · exact absurd hx (by simp [hquiet x (List.mem_of_getElem? hp)])
  have ht' : s.stopWorker.tasks[i]? = some t := htasks ▸ ht
  have hgone := hstopped.goTo ht' .done
  unfold Host.fail
  rw [if_pos hgen]
  refine ⟨⟨hgone.gens, hgone.unique, hgone.tracked⟩, fun p hp => ?_, fun hs => (by cases hs),
    fun hs => ?_, fun hs => (by cases hs), fun j u hj hu => ?_, fun hs => ?_⟩
  · cases hproc.symm.trans hp
  · rcases hs with hs | hs | hs <;> cases hs
  · rcases getElem?_goTo hj with ⟨rfl, rfl⟩ | ⟨hij, hold⟩
    · trivial
    · exact absurd (hstopped.unique i j t u ht' hold
        (hgen.trans (hgeneration.symm.trans hu.symm))) hij
  · exact absurd hs (by simp [Host.goTo, hrel, hreleased])

theorem fail_stale (hgen : t.gen ≠ s.generation) : s.fail i t = s.goTo i t .done := if_neg hgen

theorem Sound.unreleased (h : Sound s) (hphase : s.phase ≠ .idle) : s.released = false := by
  cases hrel : s.released with
  | false => rfl
  | true => exact absurd (h.released hrel) hphase

theorem sound_fail (h : Sound s) (ht : s.tasks[i]? = some t) (hphase : t.gen = s.generation →
    s.phase ≠ .idle) : Sound (s.fail i t) := by
  by_cases hgen : t.gen = s.generation
  · exact sound_fail_current h.toBase ht hgen (h.unreleased (hphase hgen))
  · rw [fail_stale hgen]
    exact h.goTo_stale ht hgen .done

/-! ### The moves of an assignment -/

theorem Sound.goTo_current (h : Sound s) (ht : s.tasks[i]? = some t)
    (hgen : t.gen = s.generation) (hfits : point.Fits s) :
    Sound (s.goTo i t point) where
  toBase := h.toBase.goTo ht point
  worker := h.worker
  idle := h.idle
  held := h.held
  serving := h.serving
  current := h.toBase.current_goTo ht hgen hfits
  released := h.released

theorem Sound.goTo (h : Sound s) (ht : s.tasks[i]? = some t)
    (hfits : t.gen = s.generation → point.Fits s) : Sound (s.goTo i t point) := by
  by_cases hgen : t.gen = s.generation
  · exact h.goTo_current ht hgen (hfits hgen)
  · exact h.goTo_stale ht hgen point

theorem sound_progress (h : Sound s) (progress : Option ℕ) :
    Sound { s with progress := progress } :=
  ⟨⟨h.gens, h.unique, h.tracked⟩, h.worker, h.idle, h.held, h.serving, h.current, h.released⟩

theorem sound_attemptFailed (h : Sound s) (ht : s.tasks[i]? = some t)
    (hphase : t.gen = s.generation → s.phase = .downloading) (attempt : ℕ) :
    Sound (s.attemptFailed i t attempt) := by
  have hfail : Sound (s.fail i t) := sound_fail h ht fun hgen => by simp [hphase hgen]
  unfold Host.attemptFailed
  split_ifs with hmore hgen
  · exact h.goTo_current ht hgen (hphase hgen)
  · exact hfail
  · exact hfail

theorem sound_downloaded (h : Sound s) (ht : s.tasks[i]? = some t)
    (hphase : t.gen = s.generation → s.phase = .downloading) (valid worker : Bool) :
    Sound (s.downloaded i t valid worker) := by
  unfold Host.downloaded
  split_ifs with hgen hvalid hworker
  · -- the phase of the port
    have hdownloading := hphase hgen
    have hnone : s.proc = none := by
      cases hproc : s.proc with
      | none => rfl
      | some p => rcases (h.worker p hproc).1 with hp | hp <;> cases hdownloading.symm.trans hp
    have hheld : (s.held.map fun h : Held => ({ h with path := true } : Held)).isSome = true := by
      simpa using h.held (Or.inl hdownloading)
    have hgone := h.toBase.goTo ht .port
    refine ⟨⟨hgone.gens, hgone.unique, hgone.tracked⟩, fun p hp => ?_, fun hs => (by cases hs),
      fun _ => hheld, fun hs => (by cases hs), fun j u hj hu => ?_, fun hs => ?_⟩
    · cases hnone.symm.trans hp
    · rcases getElem?_goTo hj with ⟨rfl, rfl⟩ | ⟨hij, hold⟩
      · exact ⟨rfl, hnone⟩
      · exact absurd (h.unique i j t u ht hold (hgen.trans hu.symm)) hij
    · cases hdownloading.symm.trans (h.released hs)
  · have hrel := h.unreleased (by simp [hphase hgen])
    refine sound_fail_current ⟨h.gens, h.unique, h.tracked⟩ ht hgen ?_
    exact hrel
  · have hrel := h.unreleased (by simp [hphase hgen])
    refine sound_fail_current ⟨h.gens, h.unique, h.tracked⟩ ht hgen ?_
    exact hrel
  · exact h.goTo_stale ht hgen .done

theorem sound_allocated (h : Sound s) (ht : s.tasks[i]? = some t) (hpoint : t.point = .port)
    (hstale : s.stale t = false) (port : ℕ) : Sound (s.allocated i t port) := by
  have hport : Sound { s with port := some port } :=
    ⟨⟨h.gens, h.unique, h.tracked⟩, h.worker, h.idle, h.held, h.serving, h.current, h.released⟩
  have hstarting : t.gen = s.generation → s.phase = .starting ∧ s.proc = none := by
    intro hgen
    have hfits := h.current i t ht hgen
    rwa [hpoint] at hfits
  unfold Host.allocated
  dsimp only
  split
  · exact sound_fail hport ht fun hgen => by simp [hstarting hgen]
  · rename_i hd hheld
    have hgen : t.gen = s.generation := by simpa [Host.stale, hheld] using hstale
    obtain ⟨hphase, hnone⟩ := hstarting hgen
    have hquiet := h.quiet hnone
    rw [if_pos hgen]
    have hgone := h.toBase.goTo ht .connecting
    have hlast : (s.procs ++ [(⟨t.gen, true, false⟩ : Proc)])[s.procs.length]? =
        some ⟨t.gen, true, false⟩ := by simp
    refine ⟨⟨hgone.gens, hgone.unique, fun p x hp hx => ?_⟩, fun p hp => ⟨Or.inl hphase, ?_⟩,
      fun hs => (by cases hphase.symm.trans hs), fun _ => h.held (Or.inr (Or.inl hphase)),
      fun _ => rfl, fun j u hj hu => ?_, fun hs => (by cases hphase.symm.trans (h.released hs))⟩
    · -- no worker was loose before
      rcases Nat.lt_or_ge p s.procs.length with hlt | hge
      · have hold : s.procs[p]? = some x := by
          have happ : (s.procs ++ [(⟨t.gen, true, false⟩ : Proc)])[p]? = some x := hp
          rwa [List.getElem?_append_left hlt] at happ
        exact absurd hx (by simp [hquiet x (List.mem_of_getElem? hold)])
      · have hple : p < s.procs.length + 1 := by
          have hlt := (List.getElem?_eq_some_iff.mp hp).1
          simpa [Host.goTo] using hlt
        have hpe : p = s.procs.length := by omega
        exact congrArg some hpe.symm
    · obtain rfl := Option.some.inj hp
      exact ⟨_, hlast, hgen, rfl⟩
    · rcases getElem?_goTo hj with ⟨rfl, rfl⟩ | ⟨hij, hold⟩
      · exact hphase
      · exact absurd (h.unique i j t u ht hold (hgen.trans hu.symm)) hij

theorem sound_tried (h : Sound s) (ht : s.tasks[i]? = some t) (hpoint : t.point = .connecting)
    {connected : Bool}
    (hworker : connected = true → t.gen = s.generation → s.proc.isSome = true) :
    Sound (s.tried i t connected) := by
  have hstarting : t.gen = s.generation → s.phase = .starting := by
    intro hgen
    have hfits := h.current i t ht hgen
    rwa [hpoint] at hfits
  unfold Host.tried
  split_ifs with hconnected hgen
  · have hphase := hstarting hgen
    have hgone := h.toBase.goTo ht .done
    refine ⟨⟨hgone.gens, hgone.unique, hgone.tracked⟩, fun p hp => ?_, fun hs => (by cases hs),
      fun _ => h.held (Or.inr (Or.inl hphase)), fun _ => hworker hconnected hgen,
      fun j u hj hu => ?_, fun hs => (by cases hphase.symm.trans (h.released hs))⟩
    · obtain ⟨-, x, hx⟩ := h.worker p hp
      exact ⟨Or.inr rfl, x, hx⟩
    · rcases getElem?_goTo hj with ⟨rfl, rfl⟩ | ⟨hij, hold⟩
      · trivial
      · exact absurd (h.unique i j t u ht hold (hgen.trans hu.symm)) hij
  · exact h.goTo_stale ht hgen .done
  · exact h.goTo ht hstarting

theorem sound_slept (h : Sound s) (ht : s.tasks[i]? = some t) (hpoint : t.point = .sleeping)
    (expired : Bool) : Sound (s.slept i t expired) := by
  have hstarting : t.gen = s.generation → s.phase = .starting := by
    intro hgen
    have hfits := h.current i t ht hgen
    rwa [hpoint] at hfits
  have hfail : Sound (s.fail i t) := sound_fail h ht fun hgen => by simp [hstarting hgen]
  unfold Host.slept
  split_ifs with hexpired hgen hproc
  · exact hfail
  · exact h.goTo_current ht hgen (hstarting hgen)
  · exact hfail
  · exact hfail

/-! ### The calls from outside -/

theorem sound_release (h : Sound s) : Sound s.release ∧ s.release.phase = .idle ∧
    s.release.proc = none := by
  unfold Host.release
  split_ifs with hidle
  · exact ⟨⟨⟨h.gens, h.unique, h.tracked⟩, h.worker, h.idle, h.held, h.serving, h.current,
      fun _ => hidle.1⟩, hidle⟩
  · obtain ⟨hproc, hquiet, htasks, -, -⟩ := stopWorker_spec h.toBase
    have hgens : ∀ (j : ℕ) (u : Task), s.stopWorker.tasks[j]? = some u → u.gen ≤ s.generation :=
      fun j u hj => h.gens j u (htasks ▸ hj)
    refine ⟨⟨⟨fun j u hj => Nat.le_succ_of_le (hgens j u hj), fun j k u v hj hk => ?_,
      fun p x hp hx => ?_⟩, fun p hp => ?_, fun _ => rfl, fun hs => ?_, fun hs => (by cases hs),
      fun j u hj hu => ?_, fun _ => rfl⟩, rfl, hproc⟩
    · exact h.unique j k u v (htasks ▸ hj) (htasks ▸ hk)
    · exact absurd hx (by simp [hquiet x (List.mem_of_getElem? hp)])
    · cases hproc.symm.trans hp
    · rcases hs with hs | hs | hs <;> cases hs
    · have hle := hgens j u hj
      have hu' : u.gen = s.generation + 1 := hu
      omega

theorem sound_provision (h : Sound s) (want : Want) (cached worker : Bool) :
    Sound (s.provision want cached worker) := by
  unfold Host.provision
  split
  · exact h
  · obtain ⟨hreleased, hphase, hproc⟩ := sound_release h
    have hquiet := hreleased.quiet hproc
    dsimp only
    -- the new task is the only one of the new generation
    have hcases : ∀ {j : ℕ} {u : Task},
        (s.release.tasks ++ [⟨s.release.generation + 1, .token 0⟩])[j]? = some u →
        (s.release.tasks[j]? = some u ∧ u.gen ≤ s.release.generation) ∨
          (j = s.release.tasks.length ∧ u = ⟨s.release.generation + 1, .token 0⟩) := by
      intro j u hj
      rcases Nat.lt_or_ge j s.release.tasks.length with hlt | hge
      · rw [List.getElem?_append_left hlt] at hj
        exact Or.inl ⟨hj, hreleased.gens j u hj⟩
      · rw [List.getElem?_append_right hge] at hj
        obtain ⟨hk, hu⟩ := List.getElem?_eq_some_iff.mp hj
        have hone : j - s.release.tasks.length < 1 := hk
        exact Or.inr ⟨by omega, by simpa using hu.symm⟩
    have hnew : Sound { s.release with
        generation := s.release.generation + 1
        held := some ⟨want, false⟩
        phase := .downloading
        lastError := false
        tasks := s.release.tasks ++ [⟨s.release.generation + 1, .token 0⟩]
        released := false } := by
      refine ⟨⟨fun j u hj => ?_, fun j k u v hj hk huv => ?_, fun p x hp hx => ?_⟩, fun p hp => ?_,
        fun hs => (by cases hs), fun _ => rfl, fun hs => (by cases hs), fun j u hj hu => ?_,
        fun hs => (by cases hs)⟩
      · rcases hcases hj with ⟨-, hle⟩ | ⟨-, rfl⟩
        · exact Nat.le_succ_of_le hle
        · exact Nat.le_refl _
      · rcases hcases hj with ⟨hold, hle⟩ | ⟨rfl, rfl⟩
        · rcases hcases hk with ⟨hold', -⟩ | ⟨rfl, rfl⟩
          · exact hreleased.unique j k u v hold hold' huv
          · have hlt : u.gen = s.release.generation + 1 := huv
            omega
        · rcases hcases hk with ⟨-, hle⟩ | ⟨rfl, rfl⟩
          · have hlt : s.release.generation + 1 = v.gen := huv
            omega
          · rfl
      · exact absurd hx (by simp [hquiet x (List.mem_of_getElem? hp)])
      · cases hproc.symm.trans hp
      · rcases hcases hj with ⟨-, hle⟩ | ⟨-, rfl⟩
        · have hu' : u.gen = s.release.generation + 1 := hu
          omega
        · rfl
    split_ifs
    · exact sound_downloaded hnew (by simp) (fun _ => rfl) true worker
    · exact hnew

theorem sound_exited (h : Sound s) {p : ℕ} {q : Proc} (hp : s.procs[p]? = some q) :
    Sound (s.exited p q) := by
  have hset : ∀ {r : ℕ} {x : Proc}, (s.procs.set p { q with alive := false })[r]? = some x →
      (p = r ∧ x = { q with alive := false }) ∨ (p ≠ r ∧ s.procs[r]? = some x) := by
    intro r x hr
    rw [List.getElem?_set] at hr
    split_ifs at hr with hpr hlt
    · exact Or.inl ⟨hpr, (Option.some.inj hr).symm⟩
    · exact Or.inr ⟨hpr, hr⟩
  have htracked : ∀ (r : ℕ) (x : Proc), (s.procs.set p { q with alive := false })[r]? = some x →
      x.loose = true → s.proc = some r ∧ p ≠ r := by
    intro r x hr hx
    rcases hset hr with ⟨-, rfl⟩ | ⟨hpr, hold⟩
    · cases hx
    · exact ⟨h.tracked r x hold hx, hpr⟩
  unfold Host.exited
  dsimp only
  split_ifs with hother hserving
  · -- not the worker of the handle
    refine ⟨⟨h.gens, h.unique, fun r x hr hx => (htracked r x hr hx).1⟩, fun r hr => ?_, h.idle,
      h.held, h.serving, h.current, h.released⟩
    obtain ⟨hphase, x, hx, hrest⟩ := h.worker r hr
    have hpr : p ≠ r := by
      rintro rfl
      exact hother hr
    exact ⟨hphase, x, (List.getElem?_set_ne hpr).trans hx, hrest⟩
  · rw [not_not] at hother
    refine ⟨⟨h.gens, h.unique, fun r x hr hx => ?_⟩, fun r hr => (by cases hr),
      fun hs => (by cases hs), fun hs => ?_, fun hs => (by cases hs), fun j u hj hu => ?_,
      fun hs => ?_⟩
    · obtain ⟨hr', hpr⟩ := htracked r x hr hx
      exact absurd (Option.some.inj (hother.symm.trans hr')) hpr
    · rcases hs with hs | hs | hs <;> cases hs
    · -- the task of an assignment that serves is done
      have hfits := h.current j u hj hu
      cases hpoint : u.point with
      | done => trivial
      | token | response | body =>
        rw [hpoint] at hfits
        cases hserving.2.symm.trans hfits
      | port =>
        rw [hpoint] at hfits
        cases hserving.2.symm.trans hfits.1
      | connecting | sleeping =>
        rw [hpoint] at hfits
        cases hserving.2.symm.trans hfits
    · cases hserving.2.symm.trans (h.released hs)
  · rw [not_not] at hother
    obtain ⟨hphase, x, hx, hgen, -⟩ := h.worker p hother
    obtain rfl := Option.some.inj (hp.symm.trans hx)
    have hstarting : s.phase = .starting := by
      rcases hphase with hphase | hphase
      · exact hphase
      · exact absurd ⟨hgen, hphase⟩ hserving
    refine ⟨⟨h.gens, h.unique, fun r x hr hx => ?_⟩, fun r hr => (by cases hr), h.idle, h.held,
      fun hs => (by cases hstarting.symm.trans hs), fun j u hj hu => ?_, h.released⟩
    · obtain ⟨hr', hpr⟩ := htracked r x hr hx
      exact absurd (Option.some.inj (hother.symm.trans hr')) hpr
    · have hfits := h.current j u hj hu
      cases hpoint : u.point with
      | done => trivial
      | token | response | body =>
        rw [hpoint] at hfits
        cases hstarting.symm.trans hfits
      | port => exact ⟨hstarting, rfl⟩
      | connecting | sleeping => exact hstarting

/-! ### Runs -/

theorem sound_resumed (h : Sound s) (ht : s.tasks[i]? = some t) {outcome : Outcome}
    (hclear : attended s (.resume i outcome) = true) (hstep : s.resumed i t outcome = some s') :
    Sound s' := by
  have hcurrent : t.gen = s.generation → t.point.Fits s := h.current i t ht
  have hfree : ∀ progress, Sound (if s.progress = some i then { s with progress := progress } else s) := by
    intro progress
    split_ifs
    · exact sound_progress h progress
    · exact h
  cases outcome with
  | resolved =>
    simp only [Host.resumed] at hstep
    cases hpoint : t.point with
    | token attempt =>
      rw [hpoint] at hstep hcurrent
      obtain rfl := Option.some.inj hstep
      exact h.goTo ht hcurrent
    | response attempt =>
      rw [hpoint] at hstep hcurrent
      obtain rfl := Option.some.inj hstep
      exact (sound_progress h (some i)).goTo ht hcurrent
    | body | port | connecting | sleeping | done =>
      rw [hpoint] at hstep
      cases hstep
  | rejected =>
    simp only [Host.resumed] at hstep
    cases hpoint : t.point with
    | token attempt | response attempt =>
      rw [hpoint] at hstep hcurrent
      obtain rfl := Option.some.inj hstep
      exact sound_attemptFailed h ht hcurrent attempt
    | body attempt =>
      rw [hpoint] at hstep hcurrent
      obtain rfl := Option.some.inj hstep
      refine sound_attemptFailed (hfree none) ?_ ?_ attempt
      · split_ifs <;> exact ht
      · split_ifs <;> exact hcurrent
    | port =>
      rw [hpoint] at hstep hcurrent
      obtain rfl := Option.some.inj hstep
      exact sound_fail h ht fun hgen => by simp [(hcurrent hgen).1]
    | connecting | sleeping | done =>
      rw [hpoint] at hstep
      cases hstep
  | saved valid worker =>
    simp only [Host.resumed] at hstep
    cases hpoint : t.point with
    | body attempt =>
      rw [hpoint] at hstep hcurrent
      obtain rfl := Option.some.inj hstep
      refine sound_downloaded (hfree none) ?_ ?_ valid worker
      · split_ifs <;> exact ht
      · split_ifs <;> exact hcurrent
    | token | response | port | connecting | sleeping | done =>
      rw [hpoint] at hstep
      cases hstep
  | allocated port =>
    simp only [Host.resumed] at hstep
    cases hpoint : t.point with
    | port =>
      rw [hpoint] at hstep
      obtain rfl := Option.some.inj hstep
      have hstale : s.stale t = false := by simpa [attended, ht] using hclear
      exact sound_allocated h ht hpoint hstale port
    | token | response | body | connecting | sleeping | done =>
      rw [hpoint] at hstep
      cases hstep
  | tried connected =>
    simp only [Host.resumed] at hstep
    cases hpoint : t.point with
    | connecting =>
      rw [hpoint] at hstep
      obtain rfl := Option.some.inj hstep
      refine sound_tried h ht hpoint fun hconnected hgen => ?_
      subst hconnected
      simpa [attended, ht, hgen] using hclear
    | token | response | body | port | sleeping | done =>
      rw [hpoint] at hstep
      cases hstep
  | slept expired =>
    simp only [Host.resumed] at hstep
    cases hpoint : t.point with
    | sleeping =>
      rw [hpoint] at hstep
      obtain rfl := Option.some.inj hstep
      exact sound_slept h ht hpoint expired
    | token | response | body | port | connecting | done =>
      rw [hpoint] at hstep
      cases hstep

theorem sound_step {a : Action} (h : Sound s) (hclear : attended s a = true)
    (hstep : step s a = some s') : Sound s' := by
  cases a with
  | provision want cached worker =>
    obtain rfl := Option.some.inj hstep
    exact sound_provision h want cached worker
  | release =>
    obtain rfl := Option.some.inj hstep
    exact (sound_release h).1
  | exit p =>
    obtain ⟨q, hq, rfl⟩ := Option.map_eq_some_iff.mp hstep
    exact sound_exited h (Option.filter_eq_some_iff.mp hq).1
  | resume i outcome =>
    obtain ⟨t, ht, hres⟩ := Option.bind_eq_some_iff.mp hstep
    exact sound_resumed h ht hclear hres

theorem sameRecord_goTo (s : Host) (i : ℕ) (t : Task) (point : Point) :
    SameRecord s (s.goTo i t point) := ⟨rfl, rfl, rfl, rfl, rfl, rfl, rfl⟩

theorem leaves_goTo :
    SameRecord s ((if s.progress = some i then { s with progress := none } else s).goTo i t point) ∧
      (((if s.progress = some i then { s with progress := none } else s).goTo i t point).progress =
        s.progress ∨ s.progress = some i) := by
  split_ifs with hown
  · exact ⟨⟨rfl, rfl, rfl, rfl, rfl, rfl, rfl⟩, Or.inr hown⟩
  · exact ⟨sameRecord_goTo s i t point, Or.inl rfl⟩

theorem attemptFailed_stale (hgen : t.gen ≠ s.generation) (attempt : ℕ) :
    s.attemptFailed i t attempt = s.goTo i t .done := by
  unfold Host.attemptFailed
  rw [if_neg hgen, fail_stale hgen, ite_self]

theorem leavesNewer_step {a : Action} (hclear : attended s a = true) : LeavesNewer s a := by
  rintro i outcome t s' rfl ht hstale hstep
  obtain ⟨t', ht', hres⟩ := Option.bind_eq_some_iff.mp hstep
  obtain rfl := Option.some.inj (ht.symm.trans ht')
  have hgen : t.gen ≠ s.generation := by
    simp only [Host.stale, Bool.and_eq_true, decide_eq_true_eq] at hstale
    exact hstale.1
  have hmoved : ∀ point, SameRecord s (s.goTo i t point) ∧
      ((s.goTo i t point).progress = s.progress ∨ s.progress = some i) :=
    fun point => ⟨sameRecord_goTo s i t point, Or.inl rfl⟩
  have hgen' : ∀ progress : Option ℕ,
      t.gen ≠ (if s.progress = some i then { s with progress := progress } else s).generation := by
    intro progress
    split_ifs <;> exact hgen
  cases outcome with
  | resolved =>
    simp only [Host.resumed] at hres
    cases hpoint : t.point with
    | token attempt =>
      rw [hpoint] at hres
      obtain rfl := Option.some.inj hres
      exact hmoved _
    | response attempt => simp [attended, ht, hpoint, hstale] at hclear
    | body | port | connecting | sleeping | done =>
      rw [hpoint] at hres
      cases hres
  | rejected =>
    simp only [Host.resumed] at hres
    cases hpoint : t.point with
    | token attempt | response attempt =>
      rw [hpoint] at hres
      obtain rfl := Option.some.inj hres
      rw [attemptFailed_stale hgen]
      exact hmoved _
    | body attempt =>
      rw [hpoint] at hres
      obtain rfl := Option.some.inj hres
      rw [attemptFailed_stale (hgen' none)]
      exact leaves_goTo
    | port =>
      rw [hpoint] at hres
      obtain rfl := Option.some.inj hres
      rw [fail_stale hgen]
      exact hmoved _
    | connecting | sleeping | done =>
      rw [hpoint] at hres
      cases hres
  | saved valid worker =>
    simp only [Host.resumed] at hres
    cases hpoint : t.point with
    | body attempt =>
      rw [hpoint] at hres
      obtain rfl := Option.some.inj hres
      unfold Host.downloaded
      rw [if_neg (hgen' none)]
      exact leaves_goTo
    | token | response | port | connecting | sleeping | done =>
      rw [hpoint] at hres
      cases hres
  | allocated port => simp [attended, ht, hstale] at hclear
  | tried connected =>
    simp only [Host.resumed] at hres
    cases hpoint : t.point with
    | connecting =>
      rw [hpoint] at hres
      obtain rfl := Option.some.inj hres
      unfold Host.tried
      split_ifs <;> exact hmoved _
    | token | response | body | port | sleeping | done =>
      rw [hpoint] at hres
      cases hres
  | slept expired =>
    simp only [Host.resumed] at hres
    cases hpoint : t.point with
    | sleeping =>
      rw [hpoint] at hres
      obtain rfl := Option.some.inj hres
      unfold Host.slept
      rw [if_neg hgen, fail_stale hgen, ite_self]
      exact hmoved _
    | token | response | body | port | connecting | done =>
      rw [hpoint] at hres
      cases hres

def layerFour : Want := ⟨"m", 4, 0, 8⟩

def layerFive : Want := ⟨"m", 5, 0, 8⟩

def serves : List Action :=
  [.provision layerFour false true, .resume 0 .resolved, .resume 0 .resolved,
    .resume 0 (.saved true true), .resume 0 (.allocated 50000), .resume 0 (.tried false),
    .resume 0 (.slept false), .resume 0 (.tried true)]

end KvasirNet.Expert
