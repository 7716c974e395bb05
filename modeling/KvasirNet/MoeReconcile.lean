import KvasirNet.MoeSockets
import Mathlib.Data.Finset.Card

/-! What a poll makes of the endpoints: a row whose worker has no live endpoint gets one while there
is room, and the endpoints of workers without a row are marked dead. Endpoints are never removed,
so what a poll can do depends on all polls before it. -/
namespace KvasirNet.Moe

def liveOf (eps : List Worker) (id : String) : List Worker :=
  eps.filter fun w => w.workerId == id && !w.dead

/-- The endpoint has the row's range and port. -/
def Worker.Serves (w : Worker) (r : MapRow) : Prop :=
  w.expertBegin = r.a ∧ w.expertEnd = r.b ∧ w.port = r.port

instance (w : Worker) (r : MapRow) : Decidable (w.Serves r) :=
  inferInstanceAs (Decidable (w.expertBegin = r.a ∧ w.expertEnd = r.b ∧ w.port = r.port))

structure Reconciled (rows : List MapRow) (eps : List Worker) : Prop where
  one : ∀ r ∈ rows, ∃ w, liveOf eps r.workerId = [w] ∧ w.Serves r
  gone : ∀ w ∈ eps, (∀ r ∈ rows, r.workerId ≠ w.workerId) → w.dead = true

/-- The workers of the map that have no live endpoint. -/
def newWorkers (rows : List MapRow) (eps : List Worker) : Finset String :=
  (rows.map MapRow.workerId).toFinset.filter fun id => liveOf eps id = []

/-- What a poll needs of its map and of the endpoints that it finds. -/
structure Fits (rows : List MapRow) (eps : List Worker) : Prop where
  agree : ∀ r ∈ rows, ∀ r' ∈ rows, r.workerId = r'.workerId → r.a = r'.a ∧ r.b = r'.b ∧ r.port = r'.port
  held : ∀ r ∈ rows, liveOf eps r.workerId = [] ∨ ∃ w, liveOf eps r.workerId = [w] ∧ w.Serves r
  room : (newWorkers rows eps).card ≤ epsCapacity - eps.length

/-! ### Adding rows -/

def MapRow.worker (r : MapRow) : Worker := ⟨r.workerId, r.a, r.b, r.port, none, false, .bind⟩

section Rows
variable {rows : List MapRow} {eps : List Worker} {r : MapRow} {id : String}

theorem any_live : (eps.any fun w => w.workerId == r.workerId && !w.dead) = true ↔
    liveOf eps r.workerId ≠ [] := by
  unfold liveOf
  rw [ne_eq, List.filter_eq_nil_iff, List.any_eq_true]
  push Not
  rfl

theorem addRow_held (h : liveOf eps r.workerId ≠ []) : addRow eps r = eps := by
  unfold addRow
  rw [if_pos (any_live.mpr h)]

theorem addRow_full (h : epsCapacity ≤ eps.length) : addRow eps r = eps := by
  unfold addRow
  split_ifs
  · rfl
  · rfl

theorem addRow_new (h : liveOf eps r.workerId = []) (hroom : eps.length < epsCapacity) :
    addRow eps r = eps ++ [r.worker] := by
  have hnone : ¬ (eps.any fun w => w.workerId == r.workerId && !w.dead) = true :=
    fun hany => any_live.mp hany h
  unfold addRow
  rw [if_neg hnone, if_neg (Nat.not_le_of_lt hroom)]
  rfl

theorem liveOf_append (w : Worker) : liveOf (eps ++ [w]) id =
    liveOf eps id ++ if w.workerId = id ∧ w.dead = false then [w] else [] := by
  unfold liveOf
  rw [List.filter_append, List.filter_cons, List.filter_nil]
  by_cases h : w.workerId = id ∧ w.dead = false
  · rw [if_pos h, if_pos (by simp [h.1, h.2])]
  · rw [if_neg h, if_neg (by simpa using h)]

theorem rows_full (h : epsCapacity ≤ eps.length) : rows.foldl addRow eps = eps := by
  induction rows with
  | nil => rfl
  | cons r rows ih => rw [List.foldl_cons, addRow_full h, ih]

theorem liveOf_rows (h : liveOf eps id ≠ []) :
    liveOf (rows.foldl addRow eps) id = liveOf eps id := by
  induction rows generalizing eps with
  | nil => rfl
  | cons r rows ih =>
    rw [List.foldl_cons]
    by_cases hheld : liveOf eps r.workerId ≠ []
    · rw [addRow_held hheld]
      exact ih h
    · by_cases hroom : eps.length < epsCapacity
      · have hother : r.workerId ≠ id := fun he => hheld (he ▸ h)
        have hsame : liveOf (eps ++ [r.worker]) id = liveOf eps id := by
          rw [liveOf_append, if_neg fun hw => hother hw.1, List.append_nil]
        rw [addRow_new (not_not.mp hheld) hroom, ih (by rw [hsame]; exact h), hsame]
      · rw [addRow_full (Nat.le_of_not_lt hroom)]
        exact ih h

theorem liveOf_rows_new (h : liveOf eps id = []) (hsome : liveOf (rows.foldl addRow eps) id ≠ []) :
    ∃ r ∈ rows, r.workerId = id ∧ liveOf (rows.foldl addRow eps) id = [r.worker] := by
  induction rows generalizing eps with
  | nil => exact absurd h hsome
  | cons r rows ih =>
    rw [List.foldl_cons] at hsome ⊢
    have hlater : liveOf (addRow eps r) id = [] →
        ∃ r' ∈ r :: rows, r'.workerId = id ∧
          liveOf (rows.foldl addRow (addRow eps r)) id = [r'.worker] := by
      intro hnone
      obtain ⟨r', hmem, hid, hlive⟩ := ih hnone hsome
      exact ⟨r', List.mem_cons_of_mem r hmem, hid, hlive⟩
    by_cases hheld : liveOf eps r.workerId ≠ []
    · exact hlater (by rw [addRow_held hheld, h])
    · by_cases hroom : eps.length < epsCapacity
      · have hnew := addRow_new (not_not.mp hheld) hroom
        by_cases hid : r.workerId = id
        · have hone : liveOf (addRow eps r) id = [r.worker] := by
            rw [hnew, liveOf_append, h, if_pos ⟨hid, rfl⟩, List.nil_append]
          refine ⟨r, List.mem_cons_self, hid, ?_⟩
          rw [liveOf_rows (by rw [hone]; exact List.cons_ne_nil _ _), hone]
        · apply hlater
          rw [hnew, liveOf_append, h, if_neg fun hw => hid hw.1, List.nil_append]
      · exact hlater (by rw [addRow_full (Nat.le_of_not_lt hroom), h])

theorem newWorkers_cons_held (h : liveOf eps r.workerId ≠ []) :
    newWorkers (r :: rows) eps = newWorkers rows eps := by
  unfold newWorkers
  rw [List.map_cons, List.toFinset_cons, Finset.filter_insert, if_neg h]

theorem card_newWorkers_cons (h : liveOf eps r.workerId = []) :
    (newWorkers (r :: rows) eps).card = (newWorkers rows (eps ++ [r.worker])).card + 1 := by
  have hinsert : newWorkers (r :: rows) eps =
      insert r.workerId (newWorkers rows (eps ++ [r.worker])) := by
    ext id
    unfold newWorkers
    rw [Finset.mem_filter, Finset.mem_insert, Finset.mem_filter, List.map_cons, List.toFinset_cons,
      Finset.mem_insert, liveOf_append]
    by_cases hid : id = r.workerId
    · subst hid
      simp [h]
    · have hother : ¬ (r.worker.workerId = id ∧ r.worker.dead = false) := fun hw => hid hw.1.symm
      rw [if_neg hother, List.append_nil]
      simp [hid]
  have hout : r.workerId ∉ newWorkers rows (eps ++ [r.worker]) := by
    intro hmem
    have hnone := (Finset.mem_filter.mp hmem).2
    rw [liveOf_append, if_pos ⟨rfl, rfl⟩] at hnone
    exact List.append_ne_nil_of_right_ne_nil _ (List.cons_ne_nil _ _) hnone
  rw [hinsert, Finset.card_insert_of_notMem hout]

theorem placed_iff : (∀ r ∈ rows, liveOf (rows.foldl addRow eps) r.workerId ≠ []) ↔
    (newWorkers rows eps).card ≤ epsCapacity - eps.length := by
  induction rows generalizing eps with
  | nil => exact ⟨fun _ => Nat.zero_le _, fun _ r hr => absurd hr List.not_mem_nil⟩
  | cons r rows ih =>
    rw [List.forall_mem_cons, List.foldl_cons]
    by_cases hheld : liveOf eps r.workerId ≠ []
    · rw [addRow_held hheld, newWorkers_cons_held hheld, ← ih, liveOf_rows hheld]
      exact and_iff_right hheld
    · have hnone := not_not.mp hheld
      rw [card_newWorkers_cons hnone]
      by_cases hroom : eps.length < epsCapacity
      · have hone : liveOf (eps ++ [r.worker]) r.workerId ≠ [] := by
          rw [liveOf_append, if_pos ⟨rfl, rfl⟩]
          exact List.append_ne_nil_of_right_ne_nil _ (List.cons_ne_nil _ _)
        rw [addRow_new hnone hroom, ih, List.length_append, List.length_singleton, liveOf_rows hone,
          and_iff_right hone]
        omega
      · have hfull := Nat.le_of_not_lt hroom
        rw [addRow_full hfull, rows_full hfull]
        constructor
        · intro hall
          exact absurd hnone hall.1
        · intro hle
          omega

end Rows

/-! ### The sweep -/

/-- A worker after the sweep, up to its descriptor. -/
def Worker.swept (rows : List MapRow) (w : Worker) : Worker :=
  { w with dead := w.dead || w.vanished rows }

def Worker.face (w : Worker) : MapRow × Bool := (⟨w.expertBegin, w.expertEnd, w.port, w.workerId⟩, w.dead)

section Sweep
variable {rows : List MapRow} {eps eps' E : List Worker} {s s' : Proc} {m : Move}

theorem Worker.Serves.of_face {w w' : Worker} {r : MapRow} (h : w.Serves r) (hf : w'.face = w.face) :
    w'.Serves r := by
  obtain ⟨ha, hb, hp⟩ := h
  have hrow := congrArg Prod.fst hf
  exact ⟨(congrArg MapRow.a hrow).trans ha, (congrArg MapRow.b hrow).trans hb,
    (congrArg MapRow.port hrow).trans hp⟩

theorem map_face_liveOf (id : String) : (liveOf eps id).map Worker.face =
    (eps.map Worker.face).filter fun f => f.1.workerId == id && !f.2 := by
  rw [List.filter_map]
  rfl

theorem Reconciled.of_faces (h : Reconciled rows eps) (hf : eps.map Worker.face = eps'.map Worker.face) :
    Reconciled rows eps' where
  one := by
    intro r hr
    obtain ⟨w, hlive, hw⟩ := h.one r hr
    have hsame : (liveOf eps' r.workerId).map Worker.face = [w.face] := by
      rw [map_face_liveOf, ← hf, ← map_face_liveOf, hlive, List.map_singleton]
    obtain ⟨w', hw', hface⟩ := List.map_eq_singleton_iff.mp hsame
    exact ⟨w', hw', hw.of_face hface⟩
  gone := by
    intro w' hw' hout
    have hmem : w'.face ∈ eps.map Worker.face := by
      rw [hf]
      exact List.mem_map_of_mem hw'
    obtain ⟨w, hw, hface⟩ := List.mem_map.mp hmem
    have hid : w.workerId = w'.workerId := congrArg (fun f => f.1.workerId) hface
    have hdead : w.dead = w'.dead := congrArg Prod.snd hface
    rw [← hdead]
    apply h.gone w hw
    rw [hid]
    exact hout

theorem Worker.vanished_eq_false {w : Worker} (h : ∃ r ∈ rows, r.workerId = w.workerId) :
    w.vanished rows = false := by
  obtain ⟨r, hr, hid⟩ := h
  have hany : (rows.any fun r => r.workerId == w.workerId) = true :=
    List.any_eq_true.mpr ⟨r, hr, beq_iff_eq.mpr hid⟩
  rw [Worker.vanished, hany, Bool.not_true, Bool.and_false]

theorem liveOf_swept {id : String} (h : ∃ r ∈ rows, r.workerId = id) :
    liveOf (eps.map (Worker.swept rows)) id = liveOf eps id := by
  induction eps with
  | nil => rfl
  | cons w eps ih =>
    unfold liveOf at ih ⊢
    rw [List.map_cons, List.filter_cons, List.filter_cons, ih]
    by_cases hid : w.workerId = id
    · have hkept : w.swept rows = w := by
        rw [Worker.swept, Worker.vanished_eq_false (hid ▸ h), Bool.or_false]
      rw [hkept]
    · have hother : (w.workerId == id) = false := beq_eq_false_iff_ne.mpr hid
      have hother' : ((w.swept rows).workerId == id) = false := hother
      rw [hother, hother']
      rfl

theorem reconciled_swept_iff : Reconciled rows (E.map (Worker.swept rows)) ↔
    ∀ r ∈ rows, ∃ w, liveOf E r.workerId = [w] ∧ w.Serves r := by
  constructor
  · intro h r hr
    have hone := h.one r hr
    rwa [liveOf_swept ⟨r, hr, rfl⟩] at hone
  · intro h
    constructor
    · intro r hr
      rw [liveOf_swept ⟨r, hr, rfl⟩]
      exact h r hr
    · intro w' hw' hout
      obtain ⟨w, -, rfl⟩ := List.mem_map.mp hw'
      have hnone : (rows.any fun r => r.workerId == w.workerId) = false := by
        rw [List.any_eq_false]
        intro r hr
        exact fun he => hout r hr (beq_iff_eq.mp he)
      show (w.dead || w.vanished rows) = true
      rw [Worker.vanished, hnone]
      cases w.dead <;> rfl

theorem rows_serve_iff : (∀ r ∈ rows, ∃ w, liveOf (rows.foldl addRow eps) r.workerId = [w] ∧ w.Serves r) ↔
    Fits rows eps := by
  constructor
  · intro h
    constructor
    · intro r hr r' hr' hid
      obtain ⟨w, hw, ha, hb, hp⟩ := h r hr
      obtain ⟨w', hw', ha', hb', hp'⟩ := h r' hr'
      rw [hid] at hw
      obtain rfl : w = w' := List.singleton_inj.mp (hw.symm.trans hw')
      exact ⟨ha.symm.trans ha', hb.symm.trans hb', hp.symm.trans hp'⟩
    · intro r hr
      by_cases hnone : liveOf eps r.workerId = []
      · exact Or.inl hnone
      · have hserved := h r hr
        rw [liveOf_rows hnone] at hserved
        exact Or.inr hserved
    · rw [← placed_iff]
      intro r hr
      obtain ⟨w, hw, -⟩ := h r hr
      rw [hw]
      exact List.cons_ne_nil _ _
  · intro h r hr
    by_cases hnone : liveOf eps r.workerId = []
    · obtain ⟨r', hr', hid, hlive⟩ := liveOf_rows_new hnone (placed_iff.mpr h.room r hr)
      exact ⟨r'.worker, hlive, h.agree r' hr' r hr hid⟩
    · rw [liveOf_rows hnone]
      exact (h.held r hr).resolve_left hnone

theorem listenerStep_locked {i : ℕ} {w : Worker} (hlock : s.lock ≠ .free)
    (h : listenerStep s w i w.listener m = some s') :
    s'.lock = s.lock ∧ ∃ l, s'.eps = s.eps.set i { w with listener := l } := by
  unfold listenerStep at h
  split at h
  · obtain rfl := Option.some.inj h
    exact ⟨rfl, _, rfl⟩
  · obtain rfl := Option.some.inj h
    exact ⟨rfl, _, rfl⟩
  · obtain rfl := Option.some.inj h
    exact ⟨rfl, _, rfl⟩
  · split_ifs at h
    obtain rfl := Option.some.inj h
    exact ⟨rfl, _, rfl⟩
  · -- attaching takes the lock
    rw [if_neg hlock] at h
    cases h
  · split_ifs at h
    · obtain rfl := Option.some.inj h
      exact ⟨rfl, _, rfl⟩
    · obtain rfl := Option.some.inj h
      exact ⟨rfl, _, rfl⟩
  · obtain rfl := Option.some.inj h
    exact ⟨rfl, _, rfl⟩
  · rw [if_neg hlock] at h
    cases h
  · obtain rfl := Option.some.inj h
    exact ⟨rfl, _, rfl⟩
  · cases h

/-- During a sweep the first `k` endpoints are swept, the others as the rows left them. -/
structure Sweeping (rows : List MapRow) (E : List Worker) (k : ℕ) (s : Proc) : Prop where
  lock : s.lock = .poll rows k
  faces : ∀ i : ℕ, (s.eps[i]?).map Worker.face =
    (E[i]?).map fun w => if i < k then (w.swept rows).face else w.face

theorem Sweeping.start (hlock : s.lock = .poll rows 0) (heps : s.eps = E) :
    Sweeping rows E 0 s where
  lock := hlock
  faces := by
    intro i
    rw [heps]
    rfl

theorem Sweeping.of_set {k i : ℕ} {w w' : Worker} (h : Sweeping rows E k s)
    (hw : s.eps[i]? = some w) (hface : w'.face = w.face) (hlock : s'.lock = s.lock)
    (heps : s'.eps = s.eps.set i w') : Sweeping rows E k s' where
  lock := hlock.trans h.lock
  faces := by
    intro j
    rw [heps, ← h.faces j]
    by_cases hij : j = i
    · subst hij
      rw [List.getElem?_set_self (List.getElem?_eq_some_iff.mp hw).1, hw, Option.map_some,
        Option.map_some, hface]
    · rw [List.getElem?_set_ne (Ne.symm hij)]

theorem closeSome_eps (s : Proc) (d : Option Desc) : (s.closeSome d).eps = s.eps := by
  cases d with
  | none => rfl
  | some d => rfl

theorem Sweeping.sweep {k : ℕ} {w : Worker} (h : Sweeping rows E k s) (hw : s.eps[k]? = some w) :
    Sweeping rows E (k + 1) (sweepStep s rows k w) := by
  have hk := h.faces k
  rw [hw, Option.map_some] at hk
  obtain ⟨v, hv, hface⟩ := Option.map_eq_some_iff.mp hk.symm
  rw [if_neg (Nat.lt_irrefl k)] at hface
  have hid : v.workerId = w.workerId := congrArg (fun f => f.1.workerId) hface
  have hdead : v.dead = w.dead := congrArg Prod.snd hface
  have hvanished : v.vanished rows = w.vanished rows := by
    rw [Worker.vanished, Worker.vanished, hdead, hid]
  -- the faces of the other places are as before
  have hother : ∀ (j : ℕ) (u : Option (MapRow × Bool)), j ≠ k →
      (u = (E[j]?).map fun w => if j < k then (w.swept rows).face else w.face) →
      u = (E[j]?).map fun w => if j < k + 1 then (w.swept rows).face else w.face := by
    intro j u hjk hu
    have hiff : j < k + 1 ↔ j < k := by omega
    simpa only [hiff] using hu
  have hself : ∀ b, (w.dead || w.vanished rows) = b →
      some { w with dead := b }.face =
        (E[k]?).map fun w => if k < k + 1 then (w.swept rows).face else w.face := by
    intro b hb
    rw [hv, Option.map_some, if_pos (Nat.lt_succ_self k)]
    have hrow := congrArg Prod.fst hface
    have hswept : (v.swept rows).dead = b := by
      rw [← hb, ← hdead, ← hvanished]
      rfl
    refine congrArg some (Prod.ext ?_ ?_)
    · exact hrow.symm
    · exact hswept.symm
  unfold sweepStep
  split_ifs with hgone
  · refine ⟨rfl, ?_⟩
    intro j
    show ((((s.closeSome w.fd).eps.set k { w with dead := true, fd := none })[j]?).map Worker.face) = _
    rw [closeSome_eps]
    by_cases hjk : j = k
    · subst hjk
      rw [List.getElem?_set_self (List.getElem?_eq_some_iff.mp hw).1]
      exact hself true (by rw [hgone, Bool.or_true])
    · rw [List.getElem?_set_ne (Ne.symm hjk)]
      exact hother j _ hjk (h.faces j)
  · refine ⟨rfl, ?_⟩
    intro j
    by_cases hjk : j = k
    · subst hjk
      have hkept : (w.dead || w.vanished rows) = w.dead := by
        rw [Bool.eq_false_of_not_eq_true hgone, Bool.or_false]
      have hgoal := hself w.dead hkept
      rwa [← Option.map_some, ← hw] at hgoal
    · exact hother j _ hjk (h.faces j)

theorem Sweeping.move {k : ℕ} (h : Sweeping rows E k s) (hm : m ≠ .pollDone)
    (hs : socketStep s m = some s') : ∃ k, Sweeping rows E k s' := by
  unfold socketStep at hs
  cases hl : m.listener with
  | some i =>
    rw [hl] at hs
    obtain ⟨w, hw, hstep⟩ := Option.bind_eq_some_iff.mp hs
    have hlock : s.lock ≠ .free := by
      rw [h.lock]
      exact Lock.noConfusion
    obtain ⟨hsame, l, heps⟩ := listenerStep_locked hlock hstep
    exact ⟨k, h.of_set hw (show { w with listener := l }.face = w.face from rfl) hsame heps⟩
  | none =>
    rw [hl, h.lock] at hs
    cases m with
    | sweep =>
      obtain ⟨w, hw, rfl⟩ := Option.map_eq_some_iff.mp hs
      exact ⟨k + 1, h.sweep hw⟩
    | pollDone => exact absurd rfl hm
    | bound i ok => cases hl
    | turn i => cases hl
    | accept i num => cases hl
    | attach i => cases hl
    | probe i ended => cases hl
    | look i => cases hl
    | detach i => cases hl
    | close i => cases hl
    | poll rows => cases hs
    | enter => cases hs
    | ask r done => cases hs
    | hold i => cases hs
    | io i d => cases hs
    | join failed => cases hs
    | bury => cases hs
    | settled => cases hs
    | leave => cases hs

theorem Sweeping.done {k : ℕ} (h : Sweeping rows E k s) (hs : socketStep s .pollDone = some s') :
    s'.eps.map Worker.face = (E.map (Worker.swept rows)).map Worker.face := by
  have hdone : (if s.eps.length ≤ k then some { s with lock := .free } else none) = some s' := by
    have hstep : sharedStep s s.lock .pollDone = some s' := hs
    rwa [h.lock] at hstep
  split_ifs at hdone with hk
  obtain rfl := Option.some.inj hdone
  apply List.ext_getElem?
  intro i
  rw [List.getElem?_map, List.getElem?_map, List.getElem?_map, Option.map_map]
  refine (h.faces i).trans ?_
  by_cases hi : i < k
  · simp only [if_pos hi]
    rfl
  · have hend : s.eps[i]? = none := List.getElem?_eq_none (by omega)
    have hnone := h.faces i
    rw [hend, Option.map_none] at hnone
    rw [Option.map_eq_none_iff.mp hnone.symm]
    rfl

theorem polled_faces {mid : List Move} {t : Proc} (hmid : Move.pollDone ∉ mid)
    (hs : socketStep s (.poll rows) = some t)
    (hrun : runs socketStep t (mid ++ [.pollDone]) = some s') :
    s'.eps.map Worker.face =
      ((rows.foldl addRow s.eps).map (Worker.swept rows)).map Worker.face := by
  have hstart : Sweeping rows (rows.foldl addRow s.eps) 0 t := by
    have hstep : sharedStep s s.lock (.poll rows) = some t := hs
    cases hlock : s.lock with
    | poll rows' k =>
      rw [hlock] at hstep
      cases hstep
    | dispatch phase =>
      rw [hlock] at hstep
      cases phase with
      | idle => cases hstep
      | asking subs held => cases hstep
      | settling failed => cases failed <;> cases hstep
    | free =>
      rw [hlock] at hstep
      have hpoll : (if s.polls then some { s with
          eps := rows.foldl addRow s.eps, lock := .poll rows 0 } else none) = some t := hstep
      split_ifs at hpoll
      obtain rfl := Option.some.inj hpoll
      exact Sweeping.start rfl rfl
  obtain ⟨u, hu, hlast⟩ := runs_append mid hrun
  obtain ⟨v, hv, hnil⟩ := runs_cons hlast
  obtain rfl : v = s' := Option.some.inj hnil
  have hsweep : ∃ k, Sweeping rows (rows.foldl addRow s.eps) k u := by
    apply runs_invariant (I := fun s => ∃ k, Sweeping rows (rows.foldl addRow _) k s) _
      (along_of_mem (P := fun m => m ≠ Move.pollDone) _ t) hu ⟨0, hstart⟩
    · intro s m s' hm hsweep hs
      obtain ⟨k, hk⟩ := hsweep
      exact hk.move hm hs
    · intro m hm he
      exact hmid (he ▸ hm)
  obtain ⟨k, hk⟩ := hsweep
  exact hk.done hv

end Sweep

/-! ### Every poll of a run -/

/-- After a poll the endpoints are those of its map exactly when the map and the endpoints before
it fit together. -/
theorem poll_reconciles_iff {past mid : List Move} {rows : List MapRow} {s' : Proc}
    (hmid : Move.pollDone ∉ mid)
    (hrun : runs socketStep activateDynamic (past ++ .poll rows :: (mid ++ [.pollDone])) = some s') :
    ∃ s, runs socketStep activateDynamic past = some s ∧
      (Reconciled rows s'.eps ↔ Fits rows s.eps) := by
  obtain ⟨s, hpast, hpoll⟩ := runs_append past hrun
  obtain ⟨t, ht, hrest⟩ := runs_cons hpoll
  have hfaces := polled_faces hmid ht hrest
  refine ⟨s, hpast, ?_⟩
  rw [← rows_serve_iff, ← reconciled_swept_iff]
  constructor
  · intro h
    exact h.of_faces hfaces
  · intro h
    exact h.of_faces hfaces.symm

/-- A worker with the experts 0 to 128, and the same worker after it moved to the upper half. -/
def lowerHalf : MapRow := ⟨0, 128, 52910, "w"⟩

def upperHalf : MapRow := ⟨128, 256, 52911, "w"⟩

theorem poll_reconciles_lower : ∃ s', runs socketStep activateDynamic
      [.poll [lowerHalf], .sweep, .pollDone] = some s' ∧ Reconciled [lowerHalf] s'.eps := by
  obtain ⟨s', hrun, -⟩ := runs_exists socketStep activateDynamic
    [.poll [lowerHalf], .sweep, .pollDone] (fun _ => true) (by decide +kernel)
  have hmid : Move.pollDone ∉ [Move.sweep] := by
    intro hmem
    cases List.mem_singleton.mp hmem
  have hfits : Fits [lowerHalf] activateDynamic.eps := by
    refine ⟨?_, ?_, by decide⟩
    · intro r hr r' hr' _
      rw [List.mem_singleton.mp hr, List.mem_singleton.mp hr']
      exact ⟨rfl, rfl, rfl⟩
    · exact fun _ _ => Or.inl rfl
  obtain ⟨s, hs, hiff⟩ := poll_reconciles_iff (show Move.pollDone ∉ [Move.sweep] from hmid)
    (show runs socketStep activateDynamic ([] ++ .poll [lowerHalf] :: ([.sweep] ++ [.pollDone])) =
      some s' from hrun)
  obtain rfl : activateDynamic = s := Option.some.inj hs
  exact ⟨s', hrun, hiff.mpr hfits⟩

/-- A worker whose row changed keeps the endpoint of its old row. -/
theorem moved_worker_not_followed : ∃ s', runs socketStep activateDynamic
      [.poll [lowerHalf], .sweep, .pollDone, .poll [upperHalf], .sweep, .pollDone] = some s' ∧
      ¬ Reconciled [upperHalf] s'.eps := by
  obtain ⟨s', hrun, heps⟩ := runs_exists socketStep activateDynamic
    [.poll [lowerHalf], .sweep, .pollDone, .poll [upperHalf], .sweep, .pollDone]
    (fun s => s.eps == [lowerHalf.worker]) (by decide +kernel)
  refine ⟨s', hrun, ?_⟩
  intro h
  obtain ⟨w, hlive, hbegin, -⟩ := h.one upperHalf List.mem_cons_self
  rw [beq_iff_eq.mp heps] at hlive
  obtain rfl : lowerHalf.worker = w := List.singleton_inj.mp hlive
  exact absurd hbegin (by decide)

end KvasirNet.Moe
