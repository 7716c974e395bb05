import KvasirNet.Runs
import Mathlib.Data.List.Basic
import Mathlib.Tactic.Common
import Mathlib.Tactic.SplitIfs

/-! The admission requests of one JSON file. A handler loads the file, may wait for the
mail or for the ring, and writes the rows back that it loaded. -/
namespace KvasirNet.Admissions

inductive RequestState
  | pending
  | approved
  | mailFailed
  deriving DecidableEq, Repr

structure Request where
  id : ℕ
  wallet : String
  token : String
  createdAt : ℕ
  expiresAt : ℕ
  state : RequestState
  approvedAt : Option ℕ
  deriving DecidableEq, Repr

structure Config where
  ttlMs : ℕ
  maxPending : ℕ
  keepApprovedMs : ℕ

abbrev Rows := List Request

/-- What `prune` keeps. -/
def kept (cfg : Config) (t : ℕ) (r : Request) : Bool :=
  match r.state with
  | .approved => t - r.approvedAt.getD r.createdAt ≤ cfg.keepApprovedMs
  | .mailFailed => false
  | .pending => t ≤ r.expiresAt

/-- `prune`: the rows that are still live, and how many of them are pending. -/
def prune (cfg : Config) (t : ℕ) (db : Rows) : Rows × ℕ :=
  let live := db.filter (kept cfg t)
  (live, live.countP fun r => r.state ≠ .approved)

def update (db : Rows) (id : ℕ) (f : Request → Request) : Rows :=
  db.map fun r => if r.id = id then f r else r

/-- Where a handler is suspended, with the snapshot that it holds. -/
inductive Task
  | mailing (db : Rows) (id expiresAt : ℕ)
  | reading (db : Rows) (id : ℕ)
  | admitting (db : Rows) (id : ℕ)
  | done
  deriving DecidableEq, Repr

/-- The state file and the handlers. Beside them: the ids handed out, the latest time
read, the requests answered ok with their expiry, and the requests approved. -/
structure State where
  file : Rows
  tasks : List Task
  ids : ℕ
  latest : ℕ
  answered : List (ℕ × ℕ)
  approved : List ℕ
  deriving DecidableEq, Repr

def State.initial : State := ⟨[], [], 0, 0, [], []⟩

inductive Action
  | post (wallet token : String) (now : ℕ)
  | mailed (task : ℕ) (ok : Bool) (now : ℕ)
  | opened (id : ℕ)
  | body (task : ℕ) (token : String) (now : ℕ)
  | admitted (task : ℕ) (ok : Bool) (now : ℕ)
  deriving DecidableEq, Repr

/-- `POST /requests`, up to the mail. -/
def post (cfg : Config) (s : State) (wallet token : String) (now : ℕ) : State :=
  let (db, pending) := prune cfg now s.file
  match db.find? fun r => r.state = .pending ∧ r.wallet = wallet ∧ now ≤ r.expiresAt with
  | some waiting => { s with file := db, answered := (waiting.id, waiting.expiresAt) :: s.answered }
  | none =>
    if cfg.maxPending ≤ pending then { s with file := db }
    else
      let request : Request := ⟨s.ids, wallet, token, now, now + cfg.ttlMs, .pending, none⟩
      { s with
        file := db ++ [request]
        tasks := s.tasks ++ [.mailing (db ++ [request]) s.ids (now + cfg.ttlMs)]
        ids := s.ids + 1 }

/-- `POST /requests` after the mail. -/
def mailed (s : State) (i : ℕ) (db : Rows) (id expiresAt : ℕ) (ok : Bool) : State :=
  if ok then
    { s with tasks := s.tasks.set i .done, answered := (id, expiresAt) :: s.answered }
  else
    { s with
      file := update db id fun r => { r with state := .mailFailed }
      tasks := s.tasks.set i .done }

/-- `POST /a/<id>` up to its body. -/
def opened (s : State) (id : ℕ) : State :=
  match s.file.find? fun r => r.id = id with
  | none => s
  | some _ => { s with tasks := s.tasks ++ [.reading s.file id] }

/-- `POST /a/<id>` from its body up to the ring. -/
def body (s : State) (i : ℕ) (db : Rows) (id : ℕ) (token : String) (now : ℕ) : State :=
  let go : Bool := (db.find? fun r => r.id = id).any fun r =>
    r.token = token ∧ r.state ≠ .approved ∧ now ≤ r.expiresAt
  { s with tasks := s.tasks.set i (if go then .admitting db id else .done) }

/-- `POST /a/<id>` after the ring. -/
def admitted (s : State) (i : ℕ) (db : Rows) (id now : ℕ) (ok : Bool) : State :=
  if ok then
    { s with
      file := update db id fun r => { r with state := .approved, approvedAt := some now }
      tasks := s.tasks.set i .done
      approved := id :: s.approved }
  else { s with tasks := s.tasks.set i .done }

def Action.time : Action → ℕ
  | .post _ _ now | .mailed _ _ now | .body _ _ now | .admitted _ _ now => now
  | .opened _ => 0

def perform (cfg : Config) (s : State) : Action → Option State
  | .post wallet token now => some (post cfg s wallet token now)
  | .mailed i ok _ =>
    match s.tasks[i]? with
    | some (.mailing db id expiresAt) => some (mailed s i db id expiresAt ok)
    | _ => none
  | .opened id => some (opened s id)
  | .body i token now =>
    match s.tasks[i]? with
    | some (.reading db id) => some (body s i db id token now)
    | _ => none
  | .admitted i ok now =>
    match s.tasks[i]? with
    | some (.admitting db id) => some (admitted s i db id now ok)
    | _ => none

/-- One step, at the time that the handler reads. -/
def step (cfg : Config) (s : State) (a : Action) : Option State :=
  perform cfg { s with latest := max s.latest a.time } a

def State.Waits (s : State) (id expiresAt : ℕ) : Prop :=
  ∃ r ∈ s.file, r.id = id ∧ r.state = .pending ∧ r.expiresAt = expiresAt

/-- A request that was answered ok is pending in the file, until it expires or is
approved; and one that was approved is not pending. -/
structure Accounted (s : State) : Prop where
  answered : ∀ e ∈ s.answered, s.Waits e.1 e.2 ∨ e.1 ∈ s.approved ∨ e.2 < s.latest
  approved : ∀ id ∈ s.approved, ∀ r ∈ s.file, r.id = id → r.state ≠ .pending

/-- A snapshot misses no live request of the file other than its own, and holds no request
as pending that was approved since. -/
def current (s : State) (db : Rows) (id now : ℕ) : Bool :=
  (s.file.all fun r => r.state = .pending ∧ r.id ≠ id ∧ now ≤ r.expiresAt → r ∈ db) ∧
    (db.all fun r => r.state = .pending ∧ r.id ≠ id → r.id ∉ s.approved)

/-- What the file rests on: a handler that writes back what it loaded writes a current
snapshot, and no mail fails whose request somebody was answered with meanwhile. -/
def careful (s : State) : Action → Bool
  | .mailed i false now =>
    match s.tasks[i]? with
    | some (.mailing db id _) => current s db id now && s.answered.all fun e => e.1 ≠ id
    | _ => true
  | .admitted i true now =>
    match s.tasks[i]? with
    | some (.admitting db id) => current s db id now
    | _ => true
  | _ => true

/-! ### Rows -/

variable {cfg : Config} {s s' : State} {a : Action}

variable {db : Rows} {r : Request}

theorem mem_prune {t : ℕ} :
    r ∈ (prune cfg t db).1 ↔ r ∈ db ∧ kept cfg t r = true := by
  simp [prune]

theorem kept_of_pending {t : ℕ} (h : r.state = .pending) :
    kept cfg t r = true ↔ t ≤ r.expiresAt := by
  simp [kept, h]

variable {f : Request → Request} {id : ℕ}

theorem mem_update :
    r ∈ update db id f ↔ (∃ q ∈ db, q.id = id ∧ f q = r) ∨ (r ∈ db ∧ r.id ≠ id) := by
  simp only [update, List.mem_map]
  constructor
  · rintro ⟨q, hq, rfl⟩
    by_cases hid : q.id = id
    · exact Or.inl ⟨q, hq, hid, by rw [if_pos hid]⟩
    · rw [if_neg hid]
      exact Or.inr ⟨hq, hid⟩
  · rintro (⟨q, hq, hid, rfl⟩ | ⟨hr, hid⟩)
    · exact ⟨q, hq, by rw [if_pos hid]⟩
    · exact ⟨r, hr, by rw [if_neg hid]⟩

/-- The requests that are waited for: answered, or with their mail under way. -/
def State.Awaited (s : State) (id expiresAt : ℕ) : Prop :=
  (id, expiresAt) ∈ s.answered ∨ ∃ db, Task.mailing db id expiresAt ∈ s.tasks

def Task.snapshot : Task → Rows
  | .mailing db _ _ | .reading db _ | .admitting db _ => db
  | .done => []

def Task.ids : Task → List ℕ
  | .mailing _ id _ | .reading _ id | .admitting _ id => [id]
  | .done => []

structure Fresh (s : State) : Prop where
  file : ∀ r ∈ s.file, r.id < s.ids
  tasks : ∀ t ∈ s.tasks, (∀ r ∈ t.snapshot, r.id < s.ids) ∧ ∀ id ∈ t.ids, id < s.ids
  approved : ∀ id ∈ s.approved, id < s.ids

structure Sound (s : State) : Prop where
  awaited : ∀ id expiresAt, s.Awaited id expiresAt →
    s.Waits id expiresAt ∨ id ∈ s.approved ∨ expiresAt < s.latest
  approved : ∀ id ∈ s.approved, ∀ r ∈ s.file, r.id = id → r.state ≠ .pending
  mails : ∀ (i j : ℕ) (db db' : Rows) (id e e' : ℕ), s.tasks[i]? = some (.mailing db id e) →
    s.tasks[j]? = some (.mailing db' id e') → i = j
  fresh : Fresh s

theorem Sound.accounted (h : Sound s) : Accounted s :=
  ⟨fun e he => h.awaited e.1 e.2 (Or.inl he), h.approved⟩

theorem sound_initial : Sound .initial where
  awaited id e h := by
    rcases h with h | ⟨db, h⟩ <;> cases h
  approved id h := by cases h
  mails i j db db' id e e' h := by simp [State.initial] at h
  fresh := ⟨by simp [State.initial], by simp [State.initial], by simp [State.initial]⟩

theorem Sound.later (h : Sound s) (t : ℕ) : Sound { s with latest := max s.latest t } where
  awaited id e hid := by
    rcases h.awaited id e hid with hwaits | happroved | hpast
    · exact Or.inl hwaits
    · exact Or.inr (Or.inl happroved)
    · exact Or.inr (Or.inr (Nat.lt_of_lt_of_le hpast (Nat.le_max_left _ _)))
  approved := h.approved
  mails := h.mails
  fresh := ⟨h.fresh.file, h.fresh.tasks, h.fresh.approved⟩

/-! ### Tasks -/

variable {i : ℕ}

theorem mem_set_cases {t u : Task} (h : u ∈ s.tasks.set i t) : u ∈ s.tasks ∨ u = t :=
  (List.mem_or_eq_of_mem_set h)

theorem mails_set (h : Sound s) {t : Task} (ht : ∀ db id e, t ≠ .mailing db id e) :
    ∀ (j k : ℕ) (db db' : Rows) (id e e' : ℕ), (s.tasks.set i t)[j]? = some (.mailing db id e) →
      (s.tasks.set i t)[k]? = some (.mailing db' id e') → j = k := by
  have hold : ∀ (j : ℕ) (db : Rows) (id e : ℕ), (s.tasks.set i t)[j]? = some (.mailing db id e) →
      s.tasks[j]? = some (.mailing db id e) := by
    intro j db id e hj
    rw [List.getElem?_set] at hj
    split_ifs at hj with hij hlt
    · exact absurd (Option.some.inj hj) (ht db id e)
    · exact hj
  intro j k db db' id e e' hj hk
  exact h.mails j k db db' id e e' (hold j db id e hj) (hold k db' id e' hk)

theorem mailing_ne (h : Sound s) {db' : Rows} {id' e e' : ℕ}
    (ht : s.tasks[i]? = some (.mailing db id e))
    (hmem : Task.mailing db' id' e' ∈ s.tasks.set i .done) : id' ≠ id := by
  rintro rfl
  obtain ⟨j, hj⟩ := List.mem_iff_getElem?.mp hmem
  rw [List.getElem?_set] at hj
  split_ifs at hj with hij hlt
  · cases hj
  · exact hij (h.mails i j db db' id' e e' ht hj)

theorem fresh_set (h : Fresh s) {t : Task} (hrows : ∀ r ∈ t.snapshot, r.id < s.ids)
    (hids : ∀ id ∈ t.ids, id < s.ids) :
    ∀ u ∈ s.tasks.set i t, (∀ r ∈ u.snapshot, r.id < s.ids) ∧ ∀ id ∈ u.ids, id < s.ids := by
  intro u hu
  rcases mem_set_cases hu with hold | rfl
  · exact h.tasks u hold
  · exact ⟨hrows, hids⟩

/-! ### Saves -/

variable {now : ℕ}

theorem current_iff : current s db id now = true ↔
    (∀ r ∈ s.file, r.state = .pending → r.id ≠ id → now ≤ r.expiresAt → r ∈ db) ∧
      ∀ r ∈ db, r.state = .pending → r.id ≠ id → r.id ∉ s.approved := by
  simp only [current, List.all_eq_true, decide_eq_true_eq, and_imp, ne_eq]

theorem waits_update {id' e : ℕ}
    (hcurrent : current s db id now = true) (hw : s.Waits id' e) (hid : id' ≠ id) :
    (∃ r ∈ update db id f, r.id = id' ∧ r.state = .pending ∧ r.expiresAt = e) ∨ e < now := by
  obtain ⟨r, hr, rfl, hpending, rfl⟩ := hw
  by_cases hlive : now ≤ r.expiresAt
  · have hdb : r ∈ db := (current_iff.mp hcurrent).1 r hr hpending hid hlive
    exact Or.inl ⟨r, mem_update.mpr (Or.inr ⟨hdb, hid⟩), rfl, hpending, rfl⟩
  · exact Or.inr (Nat.lt_of_not_le hlive)

theorem approved_update
    (hcurrent : current s db id now = true) (hf : ∀ q, (f q).state ≠ .pending) {id' : ℕ}
    (hid' : id' = id ∨ id' ∈ s.approved) (hr : r ∈ update db id f)
    (hrid : r.id = id') : r.state ≠ .pending := by
  rcases mem_update.mp hr with ⟨q, -, -, rfl⟩ | ⟨hdb, hne⟩
  · exact hf q
  · intro hpending
    have hnot : r.id ∉ s.approved := (current_iff.mp hcurrent).2 r hdb hpending hne
    rcases hid' with rfl | happroved
    · exact hne hrid
    · exact hnot (hrid ▸ happroved)

theorem fresh_update {n : ℕ} (hdb : ∀ r ∈ db, r.id < n)
    (hf : ∀ q, (f q).id = q.id) : ∀ r ∈ update db id f, r.id < n := by
  intro r hr
  rcases mem_update.mp hr with ⟨q, hq, -, rfl⟩ | ⟨hr, -⟩
  · rw [hf]
    exact hdb q hq
  · exact hdb r hr

/-! ### The handlers -/

theorem sound_mailed (h : Sound s) {e : ℕ} {ok : Bool}
    (ht : s.tasks[i]? = some (.mailing db id e)) (hnow : now ≤ s.latest)
    (hclear : ok = false → current s db id now = true ∧ ∀ x ∈ s.answered, x.1 ≠ id) :
    Sound (mailed s i db id e ok) := by
  have hmem : Task.mailing db id e ∈ s.tasks := List.mem_of_getElem? ht
  have hfresh := h.fresh.tasks _ hmem
  have hset : ∀ u ∈ s.tasks.set i .done,
      (∀ r ∈ u.snapshot, r.id < s.ids) ∧ ∀ id ∈ u.ids, id < s.ids :=
    fresh_set h.fresh (by simp [Task.snapshot]) (by simp [Task.ids])
  have hmails := mails_set h (i := i) (t := .done) (by simp)
  cases ok with
  | true =>
    refine ⟨fun id' e' hid => ?_, h.approved, hmails, h.fresh.file, hset, h.fresh.approved⟩
    refine h.awaited id' e' ?_
    rcases hid with hanswered | ⟨db', hother⟩
    · rcases List.mem_cons.mp hanswered with heq | hold
      · obtain ⟨rfl, rfl⟩ := Prod.mk.inj heq
        exact Or.inr ⟨db, hmem⟩
      · exact Or.inl hold
    · rcases mem_set_cases hother with hold | hdone
      · exact Or.inr ⟨db', hold⟩
      · cases hdone
  | false =>
    obtain ⟨hcurrent, hnot⟩ := hclear rfl
    refine ⟨fun id' e' hid => ?_, fun id' hid' r hr hrid => ?_, hmails, ?_, hset,
      h.fresh.approved⟩
    · -- another request than the one whose mail failed
      have hne : id' ≠ id := by
        rcases hid with hanswered | ⟨db', hother⟩
        · exact hnot _ hanswered
        · exact mailing_ne h ht hother
      have hbefore : s.Awaited id' e' := by
        rcases hid with hanswered | ⟨db', hother⟩
        · exact Or.inl hanswered
        · rcases mem_set_cases hother with hold | hdone
          · exact Or.inr ⟨db', hold⟩
          · cases hdone
      rcases h.awaited id' e' hbefore with hwaits | happroved | hpast
      · rcases waits_update hcurrent hwaits hne with hstill | hpast
        · exact Or.inl hstill
        · exact Or.inr (Or.inr (Nat.lt_of_lt_of_le hpast hnow))
      · exact Or.inr (Or.inl happroved)
      · exact Or.inr (Or.inr hpast)
    · exact approved_update hcurrent (by simp) (Or.inr hid') hr hrid
    · exact fresh_update hfresh.1 fun q => rfl

theorem sound_admitted (h : Sound s) {ok : Bool}
    (ht : s.tasks[i]? = some (.admitting db id)) (hnow : now ≤ s.latest)
    (hclear : ok = true → current s db id now = true) : Sound (admitted s i db id now ok) := by
  have hfresh := h.fresh.tasks _ (List.mem_of_getElem? ht)
  have hset : ∀ u ∈ s.tasks.set i .done,
      (∀ r ∈ u.snapshot, r.id < s.ids) ∧ ∀ id ∈ u.ids, id < s.ids :=
    fresh_set h.fresh (by simp [Task.snapshot]) (by simp [Task.ids])
  have hmails := mails_set h (i := i) (t := .done) (by simp)
  have hbefore : ∀ {id' e'} {answered : List (ℕ × ℕ)}, answered = s.answered →
      ((id', e') ∈ answered ∨ ∃ db', Task.mailing db' id' e' ∈ s.tasks.set i .done) →
      s.Awaited id' e' := by
    rintro id' e' _ rfl (hanswered | ⟨db', hother⟩)
    · exact Or.inl hanswered
    · rcases mem_set_cases hother with hold | hdone
      · exact Or.inr ⟨db', hold⟩
      · cases hdone
  cases ok with
  | false =>
    exact ⟨fun id' e' hid => h.awaited id' e' (hbefore rfl hid), h.approved, hmails,
      h.fresh.file, hset, h.fresh.approved⟩
  | true =>
    have hcurrent := hclear rfl
    refine ⟨fun id' e' hid => ?_, fun id' hid' r hr hrid => ?_, hmails, ?_, hset, ?_⟩
    · by_cases hne : id' = id
      · exact Or.inr (Or.inl (hne ▸ List.mem_cons_self))
      · rcases h.awaited id' e' (hbefore rfl hid) with hwaits | happroved | hpast
        · rcases waits_update hcurrent hwaits hne with hstill | hpast
          · exact Or.inl hstill
          · exact Or.inr (Or.inr (Nat.lt_of_lt_of_le hpast hnow))
        · exact Or.inr (Or.inl (List.mem_cons_of_mem id happroved))
        · exact Or.inr (Or.inr hpast)
    · exact approved_update hcurrent (by simp) (List.mem_cons.mp hid') hr hrid
    · exact fresh_update hfresh.1 fun q => rfl
    · intro id' hid'
      rcases List.mem_cons.mp hid' with rfl | hold
      · exact hfresh.2 id' List.mem_cons_self
      · exact h.fresh.approved id' hold

theorem sound_opened (h : Sound s) (id : ℕ) : Sound (opened s id) := by
  unfold opened
  split
  · exact h
  · rename_i r hr
    have hid : r.id = id := by simpa using List.find?_some hr
    have hlt : id < s.ids := hid ▸ h.fresh.file r (List.mem_of_find?_eq_some hr)
    have hold : ∀ (j : ℕ) (db : Rows) (id' e : ℕ),
        (s.tasks ++ [.reading s.file id])[j]? = some (.mailing db id' e) →
        s.tasks[j]? = some (.mailing db id' e) := by
      intro j db id' e hj
      rcases Nat.lt_or_ge j s.tasks.length with hlt | hge
      · rwa [List.getElem?_append_left hlt] at hj
      · rw [List.getElem?_append_right hge] at hj
        have hmem := List.mem_of_getElem? hj
        simp at hmem
    refine ⟨fun id' e hid' => h.awaited id' e ?_, h.approved,
      fun j k db db' id' e e' hj hk => h.mails j k db db' id' e e' (hold _ _ _ _ hj) (hold _ _ _ _ hk),
      h.fresh.file, fun t ht => ?_, h.fresh.approved⟩
    · rcases hid' with hanswered | ⟨db, hmem⟩
      · exact Or.inl hanswered
      · refine Or.inr ⟨db, ?_⟩
        simpa using hmem
    · rcases List.mem_append.mp ht with hin | hnew
      · exact h.fresh.tasks t hin
      · obtain rfl := List.mem_singleton.mp hnew
        exact ⟨h.fresh.file, by simpa [Task.ids] using hlt⟩

theorem sound_body (h : Sound s)
    (ht : s.tasks[i]? = some (.reading db id)) (token : String) (now : ℕ) :
    Sound (body s i db id token now) := by
  have hfresh := h.fresh.tasks _ (List.mem_of_getElem? ht)
  have hset : ∀ t : Task, (t = .admitting db id ∨ t = .done) →
      Sound { s with tasks := s.tasks.set i t } := by
    intro t hcases
    have hnot : ∀ db' id' e, t ≠ .mailing db' id' e := by
      rintro db' id' e rfl
      simp at hcases
    have hbounded : (∀ r ∈ t.snapshot, r.id < s.ids) ∧ ∀ id ∈ t.ids, id < s.ids := by
      rcases hcases with rfl | rfl
      · exact hfresh
      · exact ⟨by simp [Task.snapshot], by simp [Task.ids]⟩
    refine ⟨fun id' e hid => h.awaited id' e ?_, h.approved, mails_set h hnot, h.fresh.file,
      fresh_set h.fresh hbounded.1 hbounded.2, h.fresh.approved⟩
    rcases hid with hanswered | ⟨db', hmem⟩
    · exact Or.inl hanswered
    · rcases mem_set_cases hmem with hold | heq
      · exact Or.inr ⟨db', hold⟩
      · exact absurd heq.symm (hnot db' id' e)
  unfold body
  apply hset
  split_ifs
  · exact Or.inl rfl
  · exact Or.inr rfl

theorem waits_prune {e : ℕ} (h : s.Waits id e) (hnow : now ≤ s.latest) :
    (∃ r ∈ (prune cfg now s.file).1, r.id = id ∧ r.state = .pending ∧ r.expiresAt = e) ∨
      e < s.latest := by
  obtain ⟨r, hr, rfl, hpending, rfl⟩ := h
  by_cases hlive : now ≤ r.expiresAt
  · exact Or.inl ⟨r, mem_prune.mpr ⟨hr, (kept_of_pending hpending).mpr hlive⟩, rfl, hpending, rfl⟩
  · exact Or.inr (by omega)

theorem sound_prune (h : Sound s) (hnow : now ≤ s.latest) :
    Sound { s with file := (prune cfg now s.file).1 } where
  awaited id e hid := by
    rcases h.awaited id e hid with hwaits | happroved | hpast
    · exact (waits_prune hwaits hnow).imp_right Or.inr
    · exact Or.inr (Or.inl happroved)
    · exact Or.inr (Or.inr hpast)
  approved id hid r hr := h.approved id hid r (mem_prune.mp hr).1
  mails := h.mails
  fresh := ⟨fun r hr => h.fresh.file r (mem_prune.mp hr).1, h.fresh.tasks, h.fresh.approved⟩

theorem sound_post (h : Sound s) (wallet token : String) (hnow : now ≤ s.latest) :
    Sound (post cfg s wallet token now) := by
  have hpruned : Sound { s with file := (prune cfg now s.file).1 } := sound_prune h hnow
  unfold post
  dsimp only
  split
  · -- the request that is waiting already
    rename_i waiting hfind
    have hpending : waiting.state = .pending := by
      have hboth := List.find?_some hfind
      simp only [decide_eq_true_eq] at hboth
      exact hboth.1
    refine ⟨fun id e hid => ?_, hpruned.approved, h.mails, hpruned.fresh.file, h.fresh.tasks,
      h.fresh.approved⟩
    rcases hid with hanswered | hmailing
    · rcases List.mem_cons.mp hanswered with heq | hold
      · obtain ⟨rfl, rfl⟩ := Prod.mk.inj heq
        exact Or.inl ⟨waiting, List.mem_of_find?_eq_some hfind, rfl, hpending, rfl⟩
      · exact hpruned.awaited id e (Or.inl hold)
    · exact hpruned.awaited id e (Or.inr hmailing)
  · split_ifs with hfull
    · exact hpruned
    · -- a new request, under an id that nothing has
      have hids : ∀ {n : ℕ}, n < s.ids → n < s.ids + 1 := fun hn => Nat.lt_succ_of_lt hn
      have hnew : ∀ (j : ℕ) (db' : Rows) (id e : ℕ), (s.tasks ++
          [.mailing ((prune cfg now s.file).1 ++
            [⟨s.ids, wallet, token, now, now + cfg.ttlMs, .pending, none⟩]) s.ids
              (now + cfg.ttlMs)])[j]? = some (.mailing db' id e) →
          (s.tasks[j]? = some (.mailing db' id e) ∧ id ≠ s.ids) ∨
            (j = s.tasks.length ∧ id = s.ids) := by
        intro j db' id e hj
        rcases Nat.lt_or_ge j s.tasks.length with hlt | hge
        · rw [List.getElem?_append_left hlt] at hj
          have hid := (h.fresh.tasks _ (List.mem_of_getElem? hj)).2 id List.mem_cons_self
          exact Or.inl ⟨hj, Nat.ne_of_lt hid⟩
        · rw [List.getElem?_append_right hge] at hj
          obtain ⟨hk, htask⟩ := List.getElem?_eq_some_iff.mp hj
          have hj' : j = s.tasks.length := by
            simp at hk
            omega
          subst hj'
          simp at htask
          exact Or.inr ⟨rfl, htask.2.1.symm⟩
      refine ⟨fun id e hid => ?_, fun id hid r hr hrid => ?_, ?_, ?_, ?_, ?_⟩
      · have hcases : s.Awaited id e ∨ (id = s.ids ∧ e = now + cfg.ttlMs) := by
          rcases hid with hanswered | ⟨db', hmem⟩
          · exact Or.inl (Or.inl hanswered)
          · rcases List.mem_append.mp hmem with hold | hlast
            · exact Or.inl (Or.inr ⟨db', hold⟩)
            · have heq := List.mem_singleton.mp hlast
              obtain ⟨-, rfl, rfl⟩ := Task.mailing.inj heq
              exact Or.inr ⟨rfl, rfl⟩
        rcases hcases with hold | ⟨rfl, rfl⟩
        · rcases hpruned.awaited id e hold with ⟨r, hr, hrest⟩ | hother
          · exact Or.inl ⟨r, List.mem_append_left _ hr, hrest⟩
          · exact Or.inr hother
        · exact Or.inl ⟨_, List.mem_append_right _ List.mem_cons_self, rfl, rfl, rfl⟩
      · rcases List.mem_append.mp hr with hold | hlast
        · exact hpruned.approved id hid r hold hrid
        · obtain rfl := List.mem_singleton.mp hlast
          have hlt := h.fresh.approved id hid
          exact absurd hrid.symm (Nat.ne_of_lt hlt)
      · intro j k db' db'' id e e' hj hk
        rcases hnew j db' id e hj with ⟨hj', hne⟩ | ⟨hj', hid⟩
        · rcases hnew k db'' id e' hk with ⟨hk', -⟩ | ⟨-, hid⟩
          · exact h.mails j k db' db'' id e e' hj' hk'
          · exact absurd hid hne
        · rcases hnew k db'' id e' hk with ⟨-, hne⟩ | ⟨hk', -⟩
          · exact absurd hid hne
          · rw [hj', hk']
      · intro r hr
        rcases List.mem_append.mp hr with hold | hlast
        · exact hids (hpruned.fresh.file r hold)
        · obtain rfl := List.mem_singleton.mp hlast
          exact Nat.lt_succ_self s.ids
      · intro t ht
        rcases List.mem_append.mp ht with hold | hlast
        · exact ⟨fun r hr => hids ((h.fresh.tasks t hold).1 r hr),
            fun id hid => hids ((h.fresh.tasks t hold).2 id hid)⟩
        · obtain rfl := List.mem_singleton.mp hlast
          refine ⟨fun r hr => ?_, fun id hid => ?_⟩
          · rcases List.mem_append.mp hr with hold | hlast
            · exact hids (hpruned.fresh.file r hold)
            · obtain rfl := List.mem_singleton.mp hlast
              exact Nat.lt_succ_self s.ids
          · obtain rfl : id = s.ids := by simpa [Task.ids] using hid
            exact Nat.lt_succ_self s.ids
      · exact fun id hid => hids (h.fresh.approved id hid)

theorem sound_step (h : Sound s) (hclear : careful s a = true) (hstep : step cfg s a = some s') :
    Sound s' := by
  have hlater : Sound { s with latest := max s.latest a.time } := h.later a.time
  have htime : a.time ≤ max s.latest a.time := Nat.le_max_right _ _
  unfold step perform at hstep
  cases a with
  | post wallet token now =>
    obtain rfl := Option.some.inj hstep
    exact sound_post hlater wallet token htime
  | mailed i ok now =>
    dsimp only at hstep
    split at hstep
    · rename_i db id e ht
      obtain rfl := Option.some.inj hstep
      refine sound_mailed hlater ht htime fun hok => ?_
      subst hok
      have hboth : current s db id now = true ∧ ∀ x ∈ s.answered, x.1 ≠ id := by
        have htask : s.tasks[i]? = some (.mailing db id e) := ht
        simpa [careful, htask] using hclear
      exact hboth
    · cases hstep
  | opened id =>
    obtain rfl := Option.some.inj hstep
    exact sound_opened hlater id
  | body i token now =>
    dsimp only at hstep
    split at hstep
    · rename_i db id ht
      obtain rfl := Option.some.inj hstep
      exact sound_body hlater ht token now
    · cases hstep
  | admitted i ok now =>
    dsimp only at hstep
    split at hstep
    · rename_i db id ht
      obtain rfl := Option.some.inj hstep
      refine sound_admitted hlater ht htime fun hok => ?_
      subst hok
      have hcurrent : current s db id now = true := by
        have htask : s.tasks[i]? = some (.admitting db id) := ht
        simpa [careful, htask] using hclear
      exact hcurrent
    · cases hstep

/-- No admission request is lost, and none that was approved comes back, in a run whose
saves after an await write current snapshots, and in which no mail fails after somebody was
answered with its request. -/
theorem requests_kept (cfg : Config) (as : List Action) (s : State)
    (hrun : runs (step cfg) .initial as = some s)
    (hclear : Along (step cfg) (fun t a => careful t a = true) .initial as) : Accounted s :=
  (runs_invariant (I := Sound) (fun _ _ _ hP hI hstep => sound_step hI hP hstep) hclear hrun
    sound_initial).accounted

/-- Two requests and an approval, one handler after the other. -/
def inTurn : List Action :=
  [.post "w" "t" 0, .mailed 0 true 1, .post "v" "u" 2, .mailed 1 true 3, .opened 0, .body 2 "t" 4,
    .admitted 2 true 5]

def threeDays : Config := ⟨1000, 50, 10000⟩

theorem requests_kept_in_turn :
    ∃ s, runs (step threeDays) .initial inTurn = some s ∧ Accounted s := by
  obtain ⟨s, hrun, -⟩ := runs_exists (step threeDays) .initial inTurn (fun _ => true) (by decide)
  exact ⟨s, hrun, requests_kept threeDays inTurn s hrun (by decide)⟩

/-- A mail fails after another request was answered; and two requests are approved by
handlers that both loaded them pending. -/
theorem requests_lost :
    (∃ s, runs (step threeDays) .initial
        [.post "w" "t" 0, .post "v" "u" 1, .mailed 1 true 2, .mailed 0 false 3] = some s ∧
      s.answered = [(1, 1001)] ∧ s.approved = [] ∧ s.latest = 3 ∧ ∀ r ∈ s.file, r.id ≠ 1) ∧
    (∃ s, runs (step threeDays) .initial
        [.post "w" "t" 0, .mailed 0 true 1, .post "v" "u" 2, .mailed 1 true 3, .opened 0,
          .opened 1, .body 2 "t" 4, .body 3 "u" 4, .admitted 2 true 5, .admitted 3 true 6] = some s ∧
      0 ∈ s.approved ∧ ∃ r ∈ s.file, r.id = 0 ∧ r.state = .pending) := by
  constructor
  · obtain ⟨s, hrun, hs⟩ := runs_exists (step threeDays) .initial
      [.post "w" "t" 0, .post "v" "u" 1, .mailed 1 true 2, .mailed 0 false 3]
      (fun s => s.answered = [(1, 1001)] ∧ s.approved = [] ∧ s.latest = 3 ∧ ∀ r ∈ s.file, r.id ≠ 1)
      (by decide)
    exact ⟨s, hrun, of_decide_eq_true hs⟩
  · obtain ⟨s, hrun, hs⟩ := runs_exists (step threeDays) .initial
      [.post "w" "t" 0, .mailed 0 true 1, .post "v" "u" 2, .mailed 1 true 3, .opened 0,
        .opened 1, .body 2 "t" 4, .body 3 "u" 4, .admitted 2 true 5, .admitted 3 true 6]
      (fun s => 0 ∈ s.approved ∧ ∃ r ∈ s.file, r.id = 0 ∧ r.state = .pending) (by decide)
    exact ⟨s, hrun, of_decide_eq_true hs⟩

end KvasirNet.Admissions
