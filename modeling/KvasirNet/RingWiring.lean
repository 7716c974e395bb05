import KvasirNet.Runs
import Mathlib.Algebra.Group.Fin.Basic
import Mathlib.Logic.Function.Basic

/-! The wiring of a ring of stages, as `run_ring` does it (and `connect_ring` for the coordinator): a
stage dials its successor and, where it is told to, its predecessor, announcing its role in one byte,
and then accepts the edges that it has not dialed. -/
namespace KvasirNet.RingWiring

/-! ## One stage -/

/-- `P`: I am your predecessor. -/
def rolePred : UInt8 := 0x50

/-- `N`: I am your successor. -/
def roleSucc : UInt8 := 0x4E

/-- `accept_next`, and whether there is a `dial_prev`. -/
structure Options where
  acceptNext : Bool
  dialPrev : Bool
  deriving DecidableEq, Repr

def Options.doDialNext (o : Options) : Bool := !o.acceptNext

def Options.doDialPrev (o : Options) : Bool := o.dialPrev

def Options.accepts (o : Options) : ℕ :=
  (if o.doDialNext then 0 else 1) + if o.doDialPrev then 0 else 1

/-- `sayPred` and `saySucc` stand between `connect_to` and `send_role`, `reading` between `accept`
and `recv_role`. -/
inductive Phase
  | starting
  | dialNext
  | sayPred
  | dialPrev
  | saySucc
  | accepting (left : ℕ)
  | reading (left c : ℕ)
  | ready
  | failed
  deriving DecidableEq, Repr

/-- The two sockets are told by the connections they are ends of. -/
structure Wiring where
  phase : Phase
  prevFd : Option ℕ
  nextFd : Option ℕ
  deriving DecidableEq, Repr

/-- The listener is bound first, if there is anything to accept, and closed when all is accepted. -/
def Wiring.listens (o : Options) (w : Wiring) : Bool :=
  decide (0 < o.accepts ∧ w.phase ≠ .starting ∧ w.phase ≠ .ready ∧ w.phase ≠ .failed)

/-- What is accepted is the predecessor's if it says so, and the successor's otherwise. -/
def Wiring.assign (w : Wiring) (role : UInt8) (c : ℕ) : Wiring :=
  if role = rolePred then { w with prevFd := some c } else { w with nextFd := some c }

/-- `fail_wiring` closes both edges. -/
def Wiring.fail : Wiring := ⟨.failed, none, none⟩

/-- After the last accept: a missing edge fails the wiring. -/
def Wiring.finish (w : Wiring) : Wiring :=
  if w.nextFd = none ∨ w.prevFd = none then .fail else { w with phase := .ready }

/-! ## The ring -/

variable {m : ℕ}

/-- A connection that some stage has dialed, or someone else, with the byte it is to announce. -/
structure Connection (n : ℕ) where
  dialer : Option (Fin n)
  target : Fin n
  role : UInt8
  deriving DecidableEq, Repr

/-- At least two stages; for every edge, whether it is the successor that dials. -/
structure Ring (m : ℕ) where
  acceptNext : Fin (m + 2) → Bool

def Ring.options (r : Ring m) (j : Fin (m + 2)) : Options := ⟨r.acceptNext j, r.acceptNext (j - 1)⟩

/-- The connections so far, those that have announced themselves, and those that were accepted. -/
structure State (n : ℕ) where
  stages : Fin n → Wiring
  connections : List (Connection n)
  announced : List ℕ
  taken : List ℕ

def State.start (n : ℕ) : State n := ⟨fun _ => ⟨.starting, none, none⟩, [], [], []⟩

def State.put {n : ℕ} (s : State n) (j : Fin n) (w : Wiring) : State n :=
  { s with stages := Function.update s.stages j w }

def State.add {n : ℕ} (s : State n) (conn : Connection n) : State n :=
  { s with connections := s.connections ++ [conn] }

def State.say {n : ℕ} (s : State n) (fd : Option ℕ) : State n :=
  { s with announced := fd.toList ++ s.announced }

def State.take {n : ℕ} (s : State n) (c : ℕ) : State n := { s with taken := c :: s.taken }

/-- `connect` and `speak` are those of someone who is no stage of the ring. -/
inductive Action (n : ℕ)
  | listen (j : Fin n)
  | dialNext (j : Fin n)
  | sayPred (j : Fin n)
  | dialPrev (j : Fin n)
  | saySucc (j : Fin n)
  | connect (target : Fin n) (role : UInt8)
  | speak (c : ℕ)
  | accept (j : Fin n) (c : ℕ)
  | read (j : Fin n)
  | finish (j : Fin n)
  | fail (j : Fin n)
  deriving DecidableEq, Repr

def step (r : Ring m) (s : State (m + 2)) : Action (m + 2) → Option (State (m + 2))
  | .listen j =>
    if (s.stages j).phase = .starting then some (s.put j { s.stages j with phase := .dialNext })
    else none
  | .dialNext j =>
    if (s.stages j).phase = .dialNext then
      if (r.options j).doDialNext then
        if (s.stages (j + 1)).listens (r.options (j + 1)) then
          some ((s.add ⟨some j, j + 1, rolePred⟩).put j
            { s.stages j with phase := .sayPred, nextFd := some s.connections.length })
        else none
      else some (s.put j { s.stages j with phase := .dialPrev })
    else none
  | .sayPred j =>
    if (s.stages j).phase = .sayPred then
      some ((s.say (s.stages j).nextFd).put j { s.stages j with phase := .dialPrev })
    else none
  | .dialPrev j =>
    if (s.stages j).phase = .dialPrev then
      if (r.options j).doDialPrev then
        if (s.stages (j - 1)).listens (r.options (j - 1)) then
          some ((s.add ⟨some j, j - 1, roleSucc⟩).put j
            { s.stages j with phase := .saySucc, prevFd := some s.connections.length })
        else none
      else some (s.put j { s.stages j with phase := .accepting (r.options j).accepts })
    else none
  | .saySucc j =>
    if (s.stages j).phase = .saySucc then
      some ((s.say (s.stages j).prevFd).put j
        { s.stages j with phase := .accepting (r.options j).accepts })
    else none
  | .connect j role =>
    if (s.stages j).listens (r.options j) then some (s.add ⟨none, j, role⟩) else none
  | .speak c =>
    match s.connections[c]? with
    | some conn => if conn.dialer = none then some (s.say (some c)) else none
    | none => none
  | .accept j c =>
    match (s.stages j).phase, s.connections[c]? with
    | .accepting (left + 1), some conn =>
      if conn.target = j ∧ c ∉ s.taken then
        some ((s.take c).put j { s.stages j with phase := .reading left c })
      else none
    | _, _ => none
  | .read j =>
    match (s.stages j).phase with
    | .reading left c =>
      match s.connections[c]? with
      | some conn =>
        if c ∈ s.announced then
          some (s.put j { (s.stages j).assign conn.role c with phase := .accepting left })
        else none
      | none => none
    | _ => none
  | .finish j =>
    if (s.stages j).phase = .accepting 0 then some (s.put j (s.stages j).finish) else none
  | .fail j =>
    if (s.stages j).phase = .ready ∨ (s.stages j).phase = .failed then none
    else some (s.put j .fail)

/-! ## What is meant -/

/-- The connection of the edge from a stage to its successor. -/
def Ring.edge (r : Ring m) (j : Fin (m + 2)) : Connection (m + 2) :=
  if r.acceptNext j then ⟨some (j + 1), j, roleSucc⟩ else ⟨some j, j + 1, rolePred⟩

structure Wired (r : Ring m) (s : State (m + 2)) : Prop where
  /-- When all wirings are complete, the two sockets of an edge are the ends of one connection,
  between the two. -/
  joined : (∀ j, (s.stages j).phase = .ready) → ∀ j, ∃ c,
    (s.stages j).nextFd = some c ∧ (s.stages (j + 1)).prevFd = some c ∧
      s.connections[c]? = some (r.edge j)
  /-- What a stage has accepted announces a role that it was waiting for, and is that edge. -/
  announced : ∀ c ∈ s.taken, ∀ conn, s.connections[c]? = some conn →
    (s.stages conn.target).phase ≠ .failed →
    (∀ left, (s.stages conn.target).phase ≠ .reading left c) →
    conn.role = rolePred ∧ (r.options conn.target).doDialPrev = false ∧
        (s.stages conn.target).prevFd = some c ∨
      conn.role = roleSucc ∧ (r.options conn.target).doDialNext = false ∧
        (s.stages conn.target).nextFd = some c

/-- A stage accepts only what a stage has dialed. -/
def fromRing (s : State (m + 2)) : Action (m + 2) → Bool
  | .accept _ c => s.connections[c]?.all fun conn => conn.dialer.isSome
  | _ => true

/-! ## The edges -/

section Edges
variable {r : Ring m} {j : Fin (m + 2)}

theorem edge_of_accepts (h : r.acceptNext j = true) : r.edge j = ⟨some (j + 1), j, roleSucc⟩ :=
  if_pos h

theorem edge_of_dials (h : r.acceptNext j = false) : r.edge j = ⟨some j, j + 1, rolePred⟩ :=
  if_neg (by rw [h]; exact Bool.false_ne_true)

theorem edge_dialer (r : Ring m) (j : Fin (m + 2)) : (r.edge j).dialer ≠ none := by
  rcases hj : r.acceptNext j with _ | _
  · rw [edge_of_dials hj]
    exact Option.some_ne_none j
  · rw [edge_of_accepts hj]
    exact Option.some_ne_none (j + 1)

end Edges

/-! ## The invariant -/

section Invariant
variable {r : Ring m} {conns : List (Connection (m + 2))} {taken : List ℕ} {j : Fin (m + 2)}
  {w : Wiring}

/-- How far the dialing has come: nobody, at most the successor, or all that it is to dial. -/
def Phase.dialed : Phase → ℕ
  | .starting | .dialNext => 0
  | .sayPred | .dialPrev => 1
  | _ => 2

/-- The edges are what they were told to be, and no byte is waited for. -/
def Phase.quiet : Phase → Bool
  | .failed | .reading _ _ => false
  | _ => true

def Held (r : Ring m) (j : Fin (m + 2)) (w : Wiring) (c : ℕ) (conn : Connection (m + 2)) : Prop :=
  conn = r.edge (j - 1) ∧ r.acceptNext (j - 1) = false ∧ w.prevFd = some c ∨
    conn = r.edge j ∧ r.acceptNext j = true ∧ w.nextFd = some c

/-- The sockets of a stage, among the connections there are. -/
structure Fits (r : Ring m) (conns : List (Connection (m + 2))) (taken : List ℕ) (j : Fin (m + 2))
    (w : Wiring) : Prop where
  early : ∀ conn ∈ conns, conn.dialer = some j →
    0 < w.phase.dialed ∧ (w.phase.dialed = 1 → conn.role = rolePred)
  next : ∀ c, w.nextFd = some c → conns[c]? = some (r.edge j)
  prev : ∀ c, w.prevFd = some c → conns[c]? = some (r.edge (j - 1))
  full : w.phase = .ready → w.nextFd ≠ none ∧ w.prevFd ≠ none
  reading : ∀ left c, w.phase = .reading left c → c ∈ taken ∧
    ∃ i, conns[c]? = some (r.edge i) ∧ (r.edge i).target = j
  held : ∀ c ∈ taken, ∃ i, conns[c]? = some (r.edge i) ∧ ((r.edge i).target = j →
    w.phase ≠ .failed → (∀ left, w.phase ≠ .reading left c) → Held r j w c (r.edge i))

structure Inv (r : Ring m) (s : State (m + 2)) : Prop where
  /-- What a stage of the ring has dialed is an edge. -/
  kind : ∀ conn ∈ s.connections, conn.dialer ≠ none → ∃ i, conn = r.edge i
  /-- It is dialed once. -/
  once : ∀ (i : Fin (m + 2)) (c c' : ℕ), s.connections[c]? = some (r.edge i) →
    s.connections[c']? = some (r.edge i) → c = c'
  stages : ∀ j, Fits r s.connections s.taken j (s.stages j)

variable {conn last : Connection (m + 2)} {c : ℕ}

theorem getElem?_add_of_some (h : conns[c]? = some conn) :
    (conns ++ [last])[c]? = some conn := by
  rw [List.getElem?_append_left (List.getElem?_eq_some_iff.mp h).1, h]

theorem getElem?_add (h : (conns ++ [last])[c]? = some conn) :
    conns[c]? = some conn ∨ c = conns.length ∧ conn = last := by
  rcases Nat.lt_trichotomy c conns.length with hlt | rfl | hgt
  · rw [List.getElem?_append_left hlt] at h
    exact Or.inl h
  · rw [List.getElem?_concat_length] at h
    exact Or.inr ⟨rfl, (Option.some.inj h).symm⟩
  · rw [List.getElem?_eq_none (by rw [List.length_append, List.length_singleton]; omega)] at h
    cases h

theorem quiet_ne_failed {phase : Phase} (h : phase.quiet = true) : phase ≠ .failed := by
  rintro rfl
  cases h

theorem quiet_ne_reading {phase : Phase} (h : phase.quiet = true) (left c : ℕ) :
    phase ≠ .reading left c := by
  rintro rfl
  cases h

theorem Fits.add (h : Fits r conns taken j w)
    (hother : last.dialer ≠ some j) : Fits r (conns ++ [last]) taken j w where
  early := fun conn hconn hdialer => by
    rcases List.mem_append.mp hconn with hconn | hconn
    · exact h.early conn hconn hdialer
    · rw [List.mem_singleton.mp hconn] at hdialer
      exact absurd hdialer hother
  next := fun c hc => getElem?_add_of_some (h.next c hc)
  prev := fun c hc => getElem?_add_of_some (h.prev c hc)
  full := h.full
  reading := fun left c hc => by
    obtain ⟨hmem, i, hi, htarget⟩ := h.reading left c hc
    exact ⟨hmem, i, getElem?_add_of_some hi, htarget⟩
  held := fun c hc => by
    obtain ⟨i, hi, hheld⟩ := h.held c hc
    exact ⟨i, getElem?_add_of_some hi, hheld⟩

theorem Fits.take (h : Fits r conns taken j w) {i : Fin (m + 2)}
    (hc : conns[c]? = some (r.edge i)) (hother : (r.edge i).target ≠ j) :
    Fits r conns (c :: taken) j w where
  early := h.early
  next := h.next
  prev := h.prev
  full := h.full
  reading := fun left c' hphase =>
    ⟨List.mem_cons_of_mem c (h.reading left c' hphase).1, (h.reading left c' hphase).2⟩
  held := fun c' hc' => by
    rcases List.mem_cons.mp hc' with rfl | hc'
    · exact ⟨i, hc, fun htarget => absurd htarget hother⟩
    · exact h.held c' hc'

theorem Fits.held_of_quiet (h : Fits r conns taken j w) (hquiet : w.phase.quiet = true)
    (hc : c ∈ taken) :
    ∃ i, conns[c]? = some (r.edge i) ∧ ((r.edge i).target = j → Held r j w c (r.edge i)) := by
  obtain ⟨i, hi, hheld⟩ := h.held c hc
  exact ⟨i, hi, fun htarget => hheld htarget (quiet_ne_failed hquiet)
    fun left => quiet_ne_reading hquiet left c⟩

theorem Fits.fail (h : Fits r conns taken j w) : Fits r conns taken j .fail where
  early := fun _ _ _ => ⟨Nat.zero_lt_two, fun h => by cases h⟩
  next := fun _ h => by cases h
  prev := fun _ h => by cases h
  full := fun h => by cases h
  reading := fun _ _ h => by cases h
  held := fun c hc => by
    obtain ⟨i, hi, -⟩ := h.held c hc
    exact ⟨i, hi, fun _ hphase => absurd rfl hphase⟩

theorem Fits.advance (h : Fits r conns taken j w) {phase : Phase} (hold : w.phase.quiet = true)
    (hearly : ∀ conn ∈ conns, conn.dialer = some j →
      0 < phase.dialed ∧ (phase.dialed = 1 → conn.role = rolePred))
    (hquiet : phase.quiet = true) (hready : phase ≠ .ready) :
    Fits r conns taken j { w with phase := phase } where
  early := hearly
  next := h.next
  prev := h.prev
  full := fun h => absurd h hready
  reading := fun left c hc => absurd hc (quiet_ne_reading hquiet left c)
  held := fun c hc => by
    obtain ⟨i, hi, hheld⟩ := h.held_of_quiet hold hc
    exact ⟨i, hi, fun htarget _ _ => hheld htarget⟩

theorem Fits.none_dialed (h : Fits r conns taken j w) (hphase : w.phase.dialed = 0)
    (hconn : conn ∈ conns) : conn.dialer ≠ some j := by
  intro hdialer
  have hpos := (h.early conn hconn hdialer).1
  omega

theorem Fits.dialNext (h : Fits r conns taken j w) (hphase : w.phase = .dialNext)
    (hdials : r.acceptNext j = false) :
    Fits r (conns ++ [r.edge j]) taken j
      { w with phase := .sayPred, nextFd := some conns.length } where
  early := fun conn hconn hdialer => by
    rcases List.mem_append.mp hconn with hconn | hconn
    · exact absurd hdialer (h.none_dialed (by rw [hphase]; rfl) hconn)
    · rw [List.mem_singleton.mp hconn, edge_of_dials hdials]
      exact ⟨Nat.one_pos, fun _ => rfl⟩
  next := fun c hc => by
    obtain rfl := Option.some.inj hc
    exact List.getElem?_concat_length
  prev := fun c hc => getElem?_add_of_some (h.prev c hc)
  full := fun h => by cases h
  reading := fun _ _ h => by cases h
  held := fun c hc => by
    obtain ⟨i, hi, hheld⟩ := h.held_of_quiet (by rw [hphase]; rfl) hc
    refine ⟨i, getElem?_add_of_some hi, fun htarget _ _ => ?_⟩
    -- the edge that it dials is not one that it waits for
    rcases hheld htarget with hprev | ⟨-, haccept, -⟩
    · exact Or.inl hprev
    · rw [hdials] at haccept
      cases haccept

theorem Fits.dialPrev (h : Fits r conns taken j w) (hphase : w.phase = .dialPrev)
    (hdials : r.acceptNext (j - 1) = true) :
    Fits r (conns ++ [r.edge (j - 1)]) taken j
      { w with phase := .saySucc, prevFd := some conns.length } where
  early := fun _ _ _ => ⟨Nat.zero_lt_two, fun h => by cases h⟩
  next := fun c hc => getElem?_add_of_some (h.next c hc)
  prev := fun c hc => by
    obtain rfl := Option.some.inj hc
    exact List.getElem?_concat_length
  full := fun h => by cases h
  reading := fun _ _ h => by cases h
  held := fun c hc => by
    obtain ⟨i, hi, hheld⟩ := h.held_of_quiet (by rw [hphase]; rfl) hc
    refine ⟨i, getElem?_add_of_some hi, fun htarget _ _ => ?_⟩
    rcases hheld htarget with ⟨-, haccept, -⟩ | hnext
    · rw [hdials] at haccept
      cases haccept
    · exact Or.inr hnext

theorem Fits.prev_not_dialed (h : Fits r conns taken j w) (hphase : w.phase = .dialPrev)
    (hdials : r.acceptNext (j - 1) = true) : r.edge (j - 1) ∉ conns := by
  intro hmem
  rw [edge_of_accepts hdials, sub_add_cancel] at hmem
  have hrole := (h.early _ hmem rfl).2 (by rw [hphase]; rfl)
  exact absurd hrole (show roleSucc ≠ rolePred by decide)

theorem Fits.accept (h : Fits r conns taken j w) {left : ℕ} {i : Fin (m + 2)}
    (hphase : w.phase = .accepting (left + 1)) (hc : conns[c]? = some (r.edge i))
    (htarget : (r.edge i).target = j) :
    Fits r conns (c :: taken) j { w with phase := .reading left c } where
  early := fun _ _ _ => ⟨Nat.zero_lt_two, fun h => by cases h⟩
  next := h.next
  prev := h.prev
  full := fun h => by cases h
  reading := fun left' c' hread => by
    obtain ⟨rfl, rfl⟩ := Phase.reading.inj hread
    exact ⟨List.mem_cons_self, i, hc, htarget⟩
  held := fun c' hc' => by
    rcases List.mem_cons.mp hc' with rfl | hc'
    · exact ⟨i, hc, fun _ _ hnot => absurd rfl (hnot left)⟩
    · obtain ⟨i', hi', hheld⟩ := h.held_of_quiet (by rw [hphase]; rfl) hc'
      exact ⟨i', hi', fun htarget' _ _ => hheld htarget'⟩

theorem Fits.read (h : Fits r conns taken j w)
    (honce : ∀ (i : Fin (m + 2)) (c c' : ℕ), conns[c]? = some (r.edge i) →
      conns[c']? = some (r.edge i) → c = c')
    {left : ℕ} (hphase : w.phase = .reading left c)
    (hconn : conns[c]? = some conn) :
    Fits r conns taken j { w.assign conn.role c with phase := .accepting left } := by
  obtain ⟨-, i, hi, htarget⟩ := h.reading left c hphase
  obtain rfl : r.edge i = conn := Option.some.inj (hi.symm.trans hconn)
  -- what was accepted before is held, and is not this connection
  have hbefore : ∀ c' ∈ taken, c' ≠ c → ∃ i', conns[c']? = some (r.edge i') ∧
      ((r.edge i').target = j → Held r j w c' (r.edge i')) := by
    intro c' hc' hne
    obtain ⟨i', hi', hheld⟩ := h.held c' hc'
    refine ⟨i', hi', fun htarget' => hheld htarget' (by rw [hphase]; exact Phase.noConfusion) ?_⟩
    intro left' hread
    rw [hphase] at hread
    exact hne (Phase.reading.inj hread).2.symm
  rcases haccept : r.acceptNext i with _ | _
  · have hedge := edge_of_dials haccept
    obtain rfl : i = j - 1 := by
      rw [hedge] at htarget
      exact eq_sub_of_add_eq htarget
    have hassign : w.assign (r.edge (j - 1)).role c = { w with prevFd := some c } := by
      rw [hedge]
      exact if_pos rfl
    rw [hassign]
    refine ⟨fun _ _ _ => ⟨Nat.zero_lt_two, fun h => by cases h⟩, h.next, fun c' hc' => ?_,
      (fun h => by cases h), (fun _ _ h => by cases h), fun c' hc' => ?_⟩
    · obtain rfl := Option.some.inj hc'
      exact hi
    · by_cases hcc : c' = c
      · subst hcc
        exact ⟨j - 1, hi, fun _ _ _ => Or.inl ⟨rfl, haccept, rfl⟩⟩
      · obtain ⟨i', hi', hheld⟩ := hbefore c' hc' hcc
        refine ⟨i', hi', fun htarget' _ _ => ?_⟩
        rcases hheld htarget' with ⟨hprev, -, -⟩ | hnext
        · rw [hprev] at hi'
          exact absurd (honce _ c' c hi' hi) hcc
        · exact Or.inr hnext
  · have hedge := edge_of_accepts haccept
    obtain rfl : i = j := by
      rw [hedge] at htarget
      exact htarget
    have hassign : w.assign (r.edge i).role c = { w with nextFd := some c } := by
      rw [hedge]
      exact if_neg (show roleSucc ≠ rolePred by decide)
    rw [hassign]
    refine ⟨fun _ _ _ => ⟨Nat.zero_lt_two, fun h => by cases h⟩, fun c' hc' => ?_, h.prev,
      (fun h => by cases h), (fun _ _ h => by cases h), fun c' hc' => ?_⟩
    · obtain rfl := Option.some.inj hc'
      exact hi
    · by_cases hcc : c' = c
      · subst hcc
        exact ⟨i, hi, fun _ _ _ => Or.inr ⟨rfl, haccept, rfl⟩⟩
      · obtain ⟨i', hi', hheld⟩ := hbefore c' hc' hcc
        refine ⟨i', hi', fun htarget' _ _ => ?_⟩
        rcases hheld htarget' with hprev | ⟨hnext, -, -⟩
        · exact Or.inl hprev
        · rw [hnext] at hi'
          exact absurd (honce _ c' c hi' hi) hcc

theorem Fits.finish (h : Fits r conns taken j w) (hphase : w.phase = .accepting 0) :
    Fits r conns taken j w.finish := by
  by_cases hmissing : w.nextFd = none ∨ w.prevFd = none
  · rw [Wiring.finish, if_pos hmissing]
    exact h.fail
  · rw [Wiring.finish, if_neg hmissing]
    refine ⟨fun _ _ _ => ⟨Nat.zero_lt_two, fun h => by cases h⟩, h.next, h.prev,
      fun _ => not_or.mp hmissing, (fun _ _ h => by cases h), fun c hc => ?_⟩
    obtain ⟨i, hi, hheld⟩ := h.held_of_quiet (by rw [hphase]; rfl) hc
    exact ⟨i, hi, fun htarget _ _ => hheld htarget⟩

end Invariant

/-! ## The steps -/

section Steps
variable {r : Ring m} {s s' : State (m + 2)} {a : Action (m + 2)} {j : Fin (m + 2)} {w : Wiring}

theorem put_stages (i : Fin (m + 2)) :
    (s.put j w).stages i = if i = j then w else s.stages i :=
  Function.update_apply s.stages j w i

theorem Inv.put (h : Inv r s) (hw : Fits r s.connections s.taken j w) : Inv r (s.put j w) := by
  refine ⟨h.kind, h.once, fun i => ?_⟩
  rw [put_stages]
  split_ifs with hi
  · subst hi
    exact hw
  · exact h.stages i

theorem Inv.say (h : Inv r s) (fd : Option ℕ) : Inv r (s.say fd) := ⟨h.kind, h.once, h.stages⟩

theorem Inv.once_add (h : Inv r s) {last : Connection (m + 2)} (hnew : ∀ i, last = r.edge i →
    r.edge i ∉ s.connections) (i : Fin (m + 2)) (c c' : ℕ)
    (hc : (s.connections ++ [last])[c]? = some (r.edge i))
    (hc' : (s.connections ++ [last])[c']? = some (r.edge i)) : c = c' := by
  rcases getElem?_add hc with hold | ⟨rfl, hlast⟩
  · rcases getElem?_add hc' with hold' | ⟨-, hlast⟩
    · exact h.once i c c' hold hold'
    · exact absurd (List.mem_of_getElem? hold) (hnew i hlast.symm)
  · rcases getElem?_add hc' with hold' | ⟨rfl, -⟩
    · exact absurd (List.mem_of_getElem? hold') (hnew i hlast.symm)
    · rfl

theorem Inv.kind_add (h : Inv r s) {last : Connection (m + 2)}
    (hlast : last.dialer ≠ none → ∃ i, last = r.edge i) :
    ∀ conn ∈ s.connections ++ [last], conn.dialer ≠ none → ∃ i, conn = r.edge i := by
  intro conn hconn
  rcases List.mem_append.mp hconn with hconn | hconn
  · exact h.kind conn hconn
  · rw [List.mem_singleton.mp hconn]
    exact hlast

theorem Inv.connect (h : Inv r s) (j : Fin (m + 2)) (role : UInt8) :
    Inv r (s.add ⟨none, j, role⟩) where
  kind := h.kind_add fun hdialer => absurd rfl hdialer
  once := h.once_add fun i hi => absurd (congrArg Connection.dialer hi).symm (edge_dialer r i)
  stages := fun i => (h.stages i).add fun hi => by cases hi

theorem Inv.dial (h : Inv r s) {i : Fin (m + 2)} (hdialer : (r.edge i).dialer = some j)
    (hnew : r.edge i ∉ s.connections) (hw : Fits r (s.connections ++ [r.edge i]) s.taken j w) :
    Inv r ((s.add (r.edge i)).put j w) := by
  have hsame : ∀ i', r.edge i = r.edge i' → r.edge i' ∉ s.connections := fun i' hi' => hi' ▸ hnew
  refine ⟨h.kind_add fun _ => ⟨i, rfl⟩, h.once_add hsame, fun k => ?_⟩
  rw [put_stages]
  split_ifs with hk
  · subst hk
    exact hw
  · refine (h.stages k).add fun hother => hk ?_
    exact (Option.some.inj (hdialer.symm.trans hother)).symm

theorem Inv.take (h : Inv r s) {c : ℕ} {i : Fin (m + 2)} (hc : s.connections[c]? = some (r.edge i))
    (htarget : (r.edge i).target = j) (hw : Fits r s.connections (c :: s.taken) j w) :
    Inv r ((s.take c).put j w) := by
  refine ⟨h.kind, h.once, fun k => ?_⟩
  rw [put_stages]
  split_ifs with hk
  · subst hk
    exact hw
  · refine (h.stages k).take hc fun hother => hk ?_
    exact hother.symm.trans htarget

theorem inv_start (r : Ring m) : Inv r (State.start (m + 2)) where
  kind := fun _ h => by cases h
  once := fun _ _ _ h => by cases h
  stages := fun _ => ⟨(fun _ h => by cases h), (fun _ h => by cases h), (fun _ h => by cases h),
    (fun h => by cases h), (fun _ _ h => by cases h), fun _ h => by cases h⟩

theorem inv_step (hours : fromRing s a = true) (h : Inv r s) (hstep : step r s a = some s') : Inv r s' := by
  cases a with
  | listen j =>
    simp only [step, Option.ite_none_right_eq_some, Option.some.injEq] at hstep
    obtain ⟨hphase, rfl⟩ := hstep
    refine h.put ((h.stages j).advance (by rw [hphase]; rfl) (fun conn hconn hdialer => ?_) rfl
      Phase.noConfusion)
    exact absurd hdialer ((h.stages j).none_dialed (by rw [hphase]; rfl) hconn)
  | dialNext j =>
    simp only [step, Option.ite_none_right_eq_some] at hstep
    obtain ⟨hphase, hstep⟩ := hstep
    have hnone : ∀ conn ∈ s.connections, conn.dialer ≠ some j := fun conn hconn =>
      (h.stages j).none_dialed (by rw [hphase]; rfl) hconn
    by_cases hdoes : (r.options j).doDialNext = true
    · have hdials : r.acceptNext j = false := (Bool.not_eq_true' _).mp hdoes
      rw [if_pos hdoes, Option.ite_none_right_eq_some, Option.some.injEq] at hstep
      obtain ⟨-, rfl⟩ := hstep
      rw [← edge_of_dials hdials]
      have hdialer : (r.edge j).dialer = some j := by rw [edge_of_dials hdials]
      exact h.dial hdialer (fun hmem => hnone _ hmem hdialer) ((h.stages j).dialNext hphase hdials)
    · rw [if_neg hdoes] at hstep
      obtain rfl := Option.some.inj hstep
      refine h.put ((h.stages j).advance (by rw [hphase]; rfl) (fun conn hconn hdialer => ?_) rfl
        Phase.noConfusion)
      exact absurd hdialer (hnone conn hconn)
  | sayPred j =>
    simp only [step, Option.ite_none_right_eq_some, Option.some.injEq] at hstep
    obtain ⟨hphase, rfl⟩ := hstep
    refine (h.say _).put ((h.stages j).advance (by rw [hphase]; rfl) (fun conn hconn hdialer => ?_) rfl
      Phase.noConfusion)
    have hearly := (h.stages j).early conn hconn hdialer
    rw [hphase] at hearly
    exact hearly
  | dialPrev j =>
    simp only [step, Option.ite_none_right_eq_some] at hstep
    obtain ⟨hphase, hstep⟩ := hstep
    by_cases hdoes : (r.options j).doDialPrev = true
    · have hdials : r.acceptNext (j - 1) = true := hdoes
      rw [if_pos hdoes, Option.ite_none_right_eq_some, Option.some.injEq] at hstep
      obtain ⟨-, rfl⟩ := hstep
      have hedge : r.edge (j - 1) = ⟨some j, j - 1, roleSucc⟩ := by
        rw [edge_of_accepts hdials, sub_add_cancel]
      rw [← hedge]
      exact h.dial (by rw [hedge]) ((h.stages j).prev_not_dialed hphase hdials)
        ((h.stages j).dialPrev hphase hdials)
    · rw [if_neg hdoes] at hstep
      obtain rfl := Option.some.inj hstep
      exact h.put ((h.stages j).advance (by rw [hphase]; rfl)
        (fun _ _ _ => ⟨Nat.zero_lt_two, fun h => by cases h⟩) rfl Phase.noConfusion)
  | saySucc j =>
    simp only [step, Option.ite_none_right_eq_some, Option.some.injEq] at hstep
    obtain ⟨hphase, rfl⟩ := hstep
    exact (h.say _).put ((h.stages j).advance (by rw [hphase]; rfl)
      (fun _ _ _ => ⟨Nat.zero_lt_two, fun h => by cases h⟩) rfl Phase.noConfusion)
  | connect j role =>
    simp only [step, Option.ite_none_right_eq_some, Option.some.injEq] at hstep
    obtain ⟨-, rfl⟩ := hstep
    exact h.connect j role
  | speak c =>
    simp only [step] at hstep
    split at hstep
    · obtain ⟨-, hsay⟩ := Option.ite_none_right_eq_some.mp hstep
      obtain rfl := Option.some.inj hsay
      exact h.say _
    · cases hstep
  | accept j c =>
    simp only [step] at hstep
    split at hstep
    case h_1 left conn hphase hconn =>
      obtain ⟨⟨htarget, -⟩, htake⟩ := Option.ite_none_right_eq_some.mp hstep
      obtain rfl := Option.some.inj htake
      -- it comes from the ring, and so is an edge
      have hdialer : conn.dialer ≠ none := by
        simp only [fromRing, hconn, Option.all_some] at hours
        exact Option.isSome_iff_ne_none.mp hours
      obtain ⟨i, rfl⟩ := h.kind conn (List.mem_of_getElem? hconn) hdialer
      exact h.take hconn htarget ((h.stages j).accept hphase hconn htarget)
    case h_2 => cases hstep
  | read j =>
    simp only [step] at hstep
    split at hstep
    case h_1 left c hphase =>
      split at hstep
      case h_1 conn hconn =>
        obtain ⟨-, hread⟩ := Option.ite_none_right_eq_some.mp hstep
        obtain rfl := Option.some.inj hread
        exact h.put ((h.stages j).read h.once hphase hconn)
      case h_2 => cases hstep
    case h_2 => cases hstep
  | finish j =>
    simp only [step, Option.ite_none_right_eq_some, Option.some.injEq] at hstep
    obtain ⟨hphase, rfl⟩ := hstep
    exact h.put ((h.stages j).finish hphase)
  | fail j =>
    simp only [step, Option.ite_none_left_eq_some, Option.some.injEq] at hstep
    obtain ⟨-, rfl⟩ := hstep
    exact h.put (h.stages j).fail

theorem Inv.wired (h : Inv r s) : Wired r s where
  joined := fun hready j => by
    obtain ⟨c, hc⟩ := Option.ne_none_iff_exists'.mp ((h.stages j).full (hready j)).1
    obtain ⟨c', hc'⟩ := Option.ne_none_iff_exists'.mp ((h.stages (j + 1)).full (hready (j + 1))).2
    have hnext := (h.stages j).next c hc
    have hprev := (h.stages (j + 1)).prev c' hc'
    rw [add_sub_cancel_right] at hprev
    obtain rfl := h.once j c c' hnext hprev
    exact ⟨c, hc, hc', hnext⟩
  announced := fun c hc conn hconn hfailed hreading => by
    obtain ⟨i, hi, hheld⟩ := (h.stages conn.target).held c hc
    obtain rfl : r.edge i = conn := Option.some.inj (hi.symm.trans hconn)
    rcases hheld rfl hfailed hreading with ⟨hedge, hdials, hprev⟩ | ⟨hedge, haccepts, hnext⟩
    · refine Or.inl ⟨?_, hdials, hprev⟩
      rw [hedge, edge_of_dials hdials]
    · refine Or.inr ⟨?_, by rw [Options.doDialNext, Ring.options, haccepts]; rfl, hnext⟩
      rw [hedge, edge_of_accepts haccepts]

end Steps

/-! ## The ring is wired -/

/-- Where the stages accept only what stages have dialed, the right neighbours are joined. -/
theorem ring_wired (r : Ring m) (as : List (Action (m + 2))) (s : State (m + 2))
    (hours : Along (step r) (fun s a => fromRing s a = true) (State.start (m + 2)) as)
    (hrun : runs (step r) (State.start (m + 2)) as = some s) : Wired r s :=
  (runs_invariant (fun _ _ _ hours h hstep => inv_step hours h hstep) hours hrun (inv_start r)).wired

/-- Two stages of which the second dials both edges. -/
def behindNat : Ring 0 := ⟨fun j => j = 0⟩

/-- The first stage accepts the two connections of the second in the other order. -/
def bothAccepted : List (Action 2) :=
  [.listen 0, .listen 1, .dialNext 0, .dialPrev 0, .dialNext 1, .sayPred 1, .dialPrev 1, .saySucc 1,
    .accept 0 1, .read 0, .accept 0 0, .read 0, .finish 0, .finish 1]

def allReady (s : State 2) : Bool :=
  decide ((s.stages 0).phase = .ready ∧ (s.stages 1).phase = .ready)

theorem ring_wired_two : ∃ s, runs (step behindNat) (State.start 2) bothAccepted = some s ∧
    Wired behindNat s ∧ allReady s = true := by
  obtain ⟨s, hrun, hready⟩ := runs_exists (step behindNat) (State.start 2) bothAccepted allReady
    (by decide +kernel)
  exact ⟨s, hrun, ring_wired behindNat bothAccepted s (by decide +kernel) hrun, hready⟩

/-- Someone else connects first and announces `X`. -/
def strangerFirst : List (Action 2) :=
  [.listen 0, .listen 1, .dialNext 0, .dialPrev 0, .connect 0 0x58, .speak 0, .accept 0 0, .read 0,
    .dialNext 1, .sayPred 1, .dialPrev 1, .saySucc 1, .accept 0 1, .read 0, .finish 0, .finish 1]

def stranger : Connection 2 := ⟨none, 0, 0x58⟩

def strangerIsNext (s : State 2) : Bool :=
  decide ((s.stages 0).nextFd = some 0 ∧ s.connections[0]? = some stranger)

/-- What announces no role becomes the successor, and all wirings complete. -/
theorem stranger_becomes_successor : ∃ s,
    runs (step behindNat) (State.start 2) strangerFirst = some s ∧ allReady s = true ∧
      (s.stages 0).nextFd = some 0 ∧ s.connections[0]? = some stranger ∧
      ¬ Wired behindNat s := by
  obtain ⟨s, hrun, hp⟩ := runs_exists (step behindNat) (State.start 2) strangerFirst
    (fun s => allReady s && strangerIsNext s) (by decide +kernel)
  obtain ⟨hready, hstranger⟩ := Bool.and_eq_true_iff.mp hp
  obtain ⟨hnext, hconn⟩ := of_decide_eq_true hstranger
  refine ⟨s, hrun, hready, hnext, hconn, fun hwired => ?_⟩
  have hall : ∀ j : Fin 2, (s.stages j).phase = .ready :=
    Fin.forall_fin_two.mpr (of_decide_eq_true hready)
  obtain ⟨c, hc, -, hedge⟩ := hwired.joined hall 0
  obtain rfl : 0 = c := Option.some.inj (hnext.symm.trans hc)
  exact absurd (hconn.symm.trans hedge) (by decide)

end KvasirNet.RingWiring
