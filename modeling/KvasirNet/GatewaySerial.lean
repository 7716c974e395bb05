import KvasirNet.GatewayPurses

/-! Requests served one at a time. The next request is admitted when every
earlier one has been answered; then a task always works on the file as it is,
and no save puts back a balance that was spent. -/
namespace KvasirNet.Gateway

variable {cfg : Config} {chain : Chain} {o : Wallet} {s s' : State} {a : Action}

def State.allDone (s : State) : Bool := s.tasks.all fun t => t.phase.isDone

/-- A request arrives only while no other is being served. -/
def serial (s : State) : Action → Bool
  | .submit _ | .sync _ _ => s.allDone
  | _ => true

structure State.Serial (s : State) : Prop where
  one : ∀ (i j : ℕ) t u, s.tasks[i]? = some t → s.tasks[j]? = some u → t.phase.isDone = false →
    u.phase.isDone = false → i = j
  current : ∀ (i : ℕ) r ph db, s.tasks[i]? = some ⟨r, ph⟩ → ph.snapshot = some db →
    db = loadDB s.disk

theorem State.Initial.serial (h : s.Initial) : s.Serial := by
  refine ⟨fun i j t u hi => ?_, fun i r ph db hi => ?_⟩
  · simp [h.tasks_nil] at hi
  · simp [h.tasks_nil] at hi

theorem State.allDone_phase (h : s.allDone = true) {i : ℕ} {t : Task} (hi : s.tasks[i]? = some t) :
    t.phase.isDone = true :=
  List.all_eq_true.mp h t (List.mem_of_getElem? hi)

theorem Phase.snapshot_of_isDone {ph : Phase} (h : ph.isDone = true) : ph.snapshot = none := by
  cases ph <;> first | rfl | cases h

theorem State.Serial.set (h : s.Serial) {i : ℕ} {r : Request} {ph ph' : Phase} {d : DB}
    {log : List Event} (task : s.tasks[i]? = some ⟨r, ph⟩) (active : ph.isDone = false)
    (hsnap : ∀ db, ph'.snapshot = some db → db = loadDB d) :
    ({ disk := d, tasks := s.tasks.set i ⟨r, ph'⟩, log := log } : State).Serial := by
  have hother {j : ℕ} {t : Task} (hj : s.tasks[j]? = some t) (hji : j ≠ i) :
      t.phase.isDone = true := by
    by_contra hactive
    exact hji (h.one j i t _ hj task (by simpa using hactive) active)
  refine ⟨fun j k t u hj hk ht hu => ?_, fun j r₁ ph₁ db hj hdb => ?_⟩
  · rw [getElem?_setTask task] at hj hk
    have hi {l : ℕ} {v : Task} (hl : (if l = i then some ⟨r, ph'⟩ else s.tasks[l]?) = some v)
        (hv : v.phase.isDone = false) : l = i := by
      by_contra hli
      rw [if_neg hli] at hl
      simp [hother hl hli] at hv
    exact (hi hj ht).trans (hi hk hu).symm
  · rw [getElem?_setTask task] at hj
    split_ifs at hj with hji
    · cases hj
      exact hsnap db hdb
    · have hnone := Phase.snapshot_of_isDone (hother hj hji)
      cases hnone.symm.trans hdb

theorem moves_serial (hser : serial s a = true) (hs : s.Serial) (h : Moves cfg chain s a s') :
    s'.Serial := by
  have hdone (db d : DB) (ans : Response) (hd : (Phase.done ans).snapshot = some db) :
      db = loadDB d := by cases hd
  cases h with
  | refused => exact hs
  | submit r pre =>
    -- every earlier task is done, so only the new one is not
    refine ⟨fun i j t u hi hj ht hu => ?_, fun i r₁ ph db hi hdb => ?_⟩
    · rcases getElem?_append_task hi with hi | ⟨rfl, -⟩
      · simp [State.allDone_phase hser hi] at ht
      · rcases getElem?_append_task hj with hj | ⟨rfl, -⟩
        · simp [State.allDone_phase hser hj] at hu
        · rfl
    · rcases getElem?_append_task hi with hi | ⟨-, he⟩
      · exact hs.current i r₁ ph db hi hdb
      · cases he
        cases hdb
  | enter i now r ph task free entered next unpaid =>
    refine hs.set task rfl fun db hdb => ?_
    rcases next.2 with hsnap | rfl
    · exact Option.some.inj (hdb.symm.trans hsnap)
    · cases hdb
  | await _ i r ph ph' db task held next unpaid unpaid' =>
    refine hs.set task (Phase.active_of_running (Phase.running_of_snapshot held)).1 fun db' hdb => ?_
    cases next.symm.trans hdb
    exact hs.current i r ph db task held
  | lands i r db p task can =>
    refine hs.set task rfl fun db' hdb => ?_
    cases hdb
    exact hs.current i r _ db task rfl
  -- the save changes the file, but no other task holds a snapshot of it
  | commit _ i r ph base db evs ans task held save made =>
    exact hs.set task (Phase.active_of_running (Phase.running_of_snapshot held)).1
      fun db' => hdone db' _ ans
  | stop _ i r ph ans task active free thrown =>
    exact hs.set task (Phase.active_of_resumed active) fun db' => hdone db' _ ans
  | completed i w ip m u now task => exact hs.set task rfl fun db' => hdone db' _ .ok
  | sync r now db evs write saved =>
    refine ⟨hs.one, fun i r₁ ph db' hi hdb => ?_⟩
    have hnone := Phase.snapshot_of_isDone (State.allDone_phase hser hi)
    cases hnone.symm.trans hdb

theorem commit_held (hc : ∀ t ∈ s.tasks, Coherent cfg t.request t.phase) {r : Request} {base db : DB}
    (h : commit cfg chain s a = some (r, base, db)) :
    ∃ (i : ℕ) (ph : Phase), s.tasks[i]? = some ⟨r, ph⟩ ∧ ph.snapshot = some base := by
  unfold commit at h
  split at h
  · rename_i i r' base' db' evs ans hρ
    cases h
    obtain ⟨ph, ht, hsnap, -⟩ := resumption_save hc hρ rfl
    exact ⟨i, ph, ht, hsnap⟩
  · cases h

theorem State.Serial.commit_current (hs : s.Serial)
    (hc : ∀ t ∈ s.tasks, Coherent cfg t.request t.phase) {r : Request} {base db : DB}
    (h : commit cfg chain s a = some (r, base, db)) : base = loadDB s.disk := by
  obtain ⟨i, ph, ht, hsnap⟩ := commit_held hc h
  exact hs.current i r ph base ht hsnap

theorem step_serial (hser : serial s a = true) (hi : s.WellFormed cfg ∧ s.Serial)
    (h : step cfg chain s a = some s') : s'.WellFormed cfg ∧ s'.Serial :=
  ⟨step_wellFormed hi.1 h, moves_serial hser hi.2 (step_moves hi.1.coherent h)⟩

theorem State.Serial.kept (hs : s.Serial) (hc : ∀ t ∈ s.tasks, Coherent cfg t.request t.phase)
    (P : Purse cfg chain o) : P.Kept s a := by
  intro r base db hm _
  obtain rfl := hs.commit_current hc hm
  exact (P.held_loadDB s.disk).le

theorem Purse.run_serial_paid_le (P : Purse cfg chain o) {s₀ : State} {as : List Action}
    (h₀ : s₀.Initial) (hn : s₀.disk.NonNeg)
    (hser : Along (step cfg chain) (fun s a => serial s a = true ∧ P.admits s a = true) s₀ as)
    (hrun : runs (step cfg chain) s₀ as = some s) :
    tally P.paid s.log ≤ P.held s₀.disk + tally P.put s.log := by
  apply P.run_paid_le h₀ hn _ hrun
  apply hser.of_invariant (I := fun s => s.WellFormed cfg ∧ s.Serial) _ hrun
    ⟨h₀.wellFormed, h₀.serial⟩
  intro s a s' hp hi h
  exact ⟨⟨hp.2, hi.2.kept hi.1.coherent P⟩, step_serial hp.1 hi h⟩

end KvasirNet.Gateway
