import KvasirNet.Runs
import KvasirNet.MoeWire

/-! The sockets of a dispatching process. A listener thread for each worker
accepts and holds a connection, the poll thread drops workers that the hub no
longer names, and the dispatch callbacks drop workers that fail. All three close
descriptors; a move is one locked section, one system call or one read of
`dead`. -/
namespace KvasirNet.Moe

/-- A descriptor: its number, which the kernel gives again once it is closed, and
the accept that returned it. -/
structure Desc where
  num : ℤ
  accept : ℕ
  deriving DecidableEq, Repr

/-- The calls on descriptors that `accept` returned. -/
inductive Call
  | accepted (d : Desc)
  | used (d : Desc)
  | closed (d : Desc)
  deriving DecidableEq, Repr

/-- Where `ep_listener` is; `c` is its local variable. -/
inductive Listener
  | absent
  | bind
  | top
  | accepting
  | attach (c : Desc)
  | probe (c : Desc)
  | look (c : Desc)
  | detach (c : Desc)
  | close (c : Desc)
  | exited
  deriving DecidableEq, Repr

structure Worker where
  workerId : String
  expertBegin : ℤ
  expertEnd : ℤ
  port : ℤ
  fd : Option Desc
  dead : Bool
  listener : Listener
  deriving DecidableEq, Repr

def Worker.endpoint (w : Worker) : Endpoint :=
  ⟨w.expertBegin, w.expertEnd, w.fd.elim (-1) Desc.num, w.dead⟩

structure MapRow where
  a : ℤ
  b : ℤ
  port : ℤ
  workerId : String
  deriving DecidableEq, Repr

/-- Where a callback is: between rounds, with requests in flight (`held` is the
argument of a send or receive that is under way), or going over the answers. -/
inductive Phase
  | idle
  | asking (subs : List ℕ) (held : List (ℕ × Desc))
  | settling (failed : List ℕ)
  deriving DecidableEq, Repr

/-- Who has `eps_mu`. A listener's sections are single moves. -/
inductive Lock
  | free
  | poll (rows : List MapRow) (next : ℕ)
  | dispatch (phase : Phase)
  deriving DecidableEq, Repr

structure Proc where
  eps : List Worker
  lock : Lock
  polls : Bool
  /-- Descriptor numbers that are open. -/
  opened : List ℤ
  accepts : ℕ
  /-- The calls so far, the last one first. -/
  log : List Call
  deriving DecidableEq, Repr

namespace Proc

def put (s : Proc) (i : ℕ) (w : Worker) : Proc := { s with eps := s.eps.set i w }

def use (s : Proc) (d : Desc) : Proc := { s with log := .used d :: s.log }

/-- `close` on a number that is not open does nothing. -/
def close (s : Proc) (d : Desc) : Proc :=
  { s with opened := s.opened.erase d.num, log := .closed d :: s.log }

def closeSome (s : Proc) : Option Desc → Proc
  | some d => s.close d
  | none => s

/-- The descriptor that an accept returns next. -/
def fresh (s : Proc) (num : ℤ) : Desc := ⟨num, s.accepts⟩

def accept (s : Proc) (num : ℤ) : Proc :=
  { s with opened := num :: s.opened, accepts := s.accepts + 1,
           log := .accepted (s.fresh num) :: s.log }

end Proc

/-! ## Starting -/

/-- `activate_dynamic`: no worker, and a poll thread. -/
def activateDynamic : Proc := ⟨[], .free, true, [], 0, []⟩

/-- A worker of a static map, whose connection has the given number if there is
one. No thread waits on it. -/
def activateOne (s : Proc) (x : MapRow × Option ℤ) : Proc :=
  let w : Worker := ⟨x.1.workerId, x.1.a, x.1.b, x.1.port, none, true, .absent⟩
  match x.2 with
  | some num => { s.accept num with eps := s.eps ++ [{ w with fd := some (s.fresh num), dead := false }] }
  | none => { s with eps := s.eps ++ [w] }

/-- `activate`: the workers of a static map, and no poll thread. -/
def activate (map : List (MapRow × Option ℤ)) : Proc :=
  map.foldl activateOne { activateDynamic with polls := false }

/-! ## Moves -/

def epsCapacity : ℕ := 64

/-- A row that no live worker has gets a worker and a listener thread. -/
def addRow (eps : List Worker) (r : MapRow) : List Worker :=
  if eps.any fun w => w.workerId == r.workerId && !w.dead then eps
  else if epsCapacity ≤ eps.length then eps
  else eps ++ [⟨r.workerId, r.a, r.b, r.port, none, false, .bind⟩]

def Worker.vanished (w : Worker) (rows : List MapRow) : Bool :=
  !w.dead && !rows.any fun r => r.workerId == w.workerId

def asked (eps : List Worker) (r : Routing UInt32 Row) (done : ℕ → Bool) : List ℕ :=
  (assign r done 0 (fun _ => false) (eps.map Worker.endpoint)).map Prod.fst

inductive Move
  | bound (i : ℕ) (ok : Bool)
  | turn (i : ℕ)
  | accept (i : ℕ) (num : Option ℤ)
  | attach (i : ℕ)
  | probe (i : ℕ) (ended : Bool)
  | look (i : ℕ)
  | detach (i : ℕ)
  | close (i : ℕ)
  | poll (rows : List MapRow)
  | sweep
  | pollDone
  | enter
  | ask (r : Routing UInt32 Row) (done : ℕ → Bool)
  | hold (i : ℕ)
  | io (i : ℕ) (d : Desc)
  | join (failed : List ℕ)
  | bury
  | settled
  | leave

/-- The listener of the worker at a place, before and after. -/
def listenerStep (s : Proc) (w : Worker) (i : ℕ) : Listener → Move → Option Proc
  | .bind, .bound _ ok => some (s.put i { w with listener := if ok then .top else .exited })
  | .top, .turn _ => some (s.put i { w with listener := if w.dead then .exited else .accepting })
  | .accepting, .accept _ none =>
    some (s.put i { w with listener := if w.dead then .exited else .top })
  | .accepting, .accept _ (some num) =>
    if 0 ≤ num ∧ num ∉ s.opened then
      some ((s.accept num).put i { w with listener := .attach (s.fresh num) })
    else none
  | .attach c, .attach _ =>
    if s.lock = .free then
      some (s.put i { w with fd := some c, dead := false, listener := .probe c })
    else none
  | .probe c, .probe _ ended =>
    -- a descriptor that is not open never reads as ended
    if ended = true then
      if c.num ∈ s.opened then some ((s.use c).put i { w with listener := .detach c }) else none
    else some ((s.use c).put i { w with listener := .look c })
  | .look c, .look _ => some (s.put i { w with listener := if w.dead then .detach c else .probe c })
  | .detach c, .detach _ =>
    if s.lock = .free then
      some (s.put i { w with
        fd := if w.fd.map Desc.num = some c.num then none else w.fd, listener := .close c })
    else none
  | .close c, .close _ => some ((s.close c).put i { w with listener := .top })
  | _, _ => none

def Move.listener : Move → Option ℕ
  | .bound i _ | .turn i | .accept i _ | .attach i | .probe i _ | .look i | .detach i | .close i => some i
  | _ => none

def sweepStep (s : Proc) (rows : List MapRow) (k : ℕ) (w : Worker) : Proc :=
  if w.vanished rows then
    { (s.closeSome w.fd).put k { w with dead := true, fd := none } with lock := .poll rows (k + 1) }
  else { s with lock := .poll rows (k + 1) }

def buryStep (s : Proc) (i : ℕ) (w : Worker) (rest : List ℕ) : Proc :=
  { (s.closeSome w.fd).put i { w with dead := true, fd := none } with
    lock := .dispatch (.settling rest) }

def sharedStep (s : Proc) : Lock → Move → Option Proc
  | .free, .poll rows =>
    if s.polls then some { s with eps := rows.foldl addRow s.eps, lock := .poll rows 0 } else none
  | .poll rows k, .sweep => (s.eps[k]?).map (sweepStep s rows k)
  | .poll _ k, .pollDone => if s.eps.length ≤ k then some { s with lock := .free } else none
  | .free, .enter => some { s with lock := .dispatch .idle }
  | .dispatch .idle, .ask r done => some { s with lock := .dispatch (.asking (asked s.eps r done) []) }
  | .dispatch (.asking subs held), .hold i =>
    if i ∈ subs then
      (s.eps[i]?).bind fun w => w.fd.map fun d =>
        { s with lock := .dispatch (.asking subs ((i, d) :: held)) }
    else none
  | .dispatch (.asking _ held), .io i d => if (i, d) ∈ held then some (s.use d) else none
  | .dispatch (.asking subs _), .join failed =>
    if failed ⊆ subs then some { s with lock := .dispatch (.settling failed) } else none
  | .dispatch (.settling (i :: rest)), .bury => (s.eps[i]?).map fun w => buryStep s i w rest
  | .dispatch (.settling []), .settled => some { s with lock := .dispatch .idle }
  | .dispatch .idle, .leave => some { s with lock := .free }
  | _, _ => none

def socketStep (s : Proc) (m : Move) : Option Proc :=
  match m.listener with
  | some i => (s.eps[i]?).bind fun w => listenerStep s w i w.listener m
  | none => sharedStep s s.lock m

/-! ## Safety -/

/-- A descriptor is closed at most once, and after that it is not used. -/
structure ClosedOnce (log : List Call) : Prop where
  once : ∀ d, log.count (.closed d) ≤ 1
  quiet : ∀ d late early, log = late ++ .closed d :: early → .used d ∉ late

theorem closedOnce_nil : ClosedOnce [] where
  once := fun _ => Nat.zero_le 1
  quiet := fun _ late early h => by simp at h

theorem ClosedOnce.cons {log : List Call} {x : Call} (h : ClosedOnce log)
    (hx : ∀ d, x = .closed d ∨ x = .used d → .closed d ∉ log) : ClosedOnce (x :: log) where
  once := by
    intro d
    rw [List.count_cons]
    split_ifs with hd
    · have hnew : x = .closed d := by simpa using hd
      rw [List.count_eq_zero.mpr (hx d (Or.inl hnew))]
    · exact h.once d
  quiet := by
    intro d late early hlog hused
    cases late with
    | nil => exact absurd hused List.not_mem_nil
    | cons y late =>
      obtain ⟨hxy, hrest⟩ := List.cons.inj hlog
      rcases List.mem_cons.mp hused with hnew | hold
      · have hold : .closed d ∈ log := by
          rw [hrest]
          exact List.mem_append_right _ List.mem_cons_self
        exact hx d (Or.inr (hxy.trans hnew.symm)) hold
      · exact h.quiet d late early hrest hold

def Listener.conn : Listener → Option Desc
  | .attach c | .probe c | .look c | .detach c | .close c => some c
  | _ => none

/-- A worker holds at most one descriptor: its listener's, or that of a static
connection. -/
def Worker.desc (w : Worker) : Option Desc :=
  match w.listener with
  | .absent => w.fd
  | l => l.conn

/-- While a listener has attached its connection and not yet taken it back, `fd`
is that connection or nothing; else it is nothing. -/
def Worker.Tied (w : Worker) : Prop :=
  match w.listener with
  | .absent => True
  | .probe c | .look c | .detach c => w.fd = none ∨ w.fd = some c
  | _ => w.fd = none

variable {w : Worker}

theorem Worker.Tied.desc_eq {d : Desc} (h : w.Tied) (hd : w.fd = some d) :
    w.desc = some d := by
  unfold Worker.Tied at h
  unfold Worker.desc
  cases hl : w.listener with
  | absent => exact hd
  | probe c | look c | detach c =>
    rw [hl] at h
    rcases h with hn | hs
    · rw [hd] at hn
      cases hn
    · exact hs.symm.trans hd
  | bind | top | accepting | attach c | close c | exited =>
    rw [hl] at h
    rw [hd] at h
    cases h

structure Sound (s : Proc) : Prop where
  safe : ClosedOnce s.log
  past : ∀ d, .closed d ∈ s.log → d.accept < s.accepts
  tied : ∀ (i : ℕ) (w : Worker), s.eps[i]? = some w → w.Tied
  isOpen : ∀ (i : ℕ) (w : Worker) (d : Desc), s.eps[i]? = some w → w.desc = some d →
    d.accept < s.accepts ∧ .closed d ∉ s.log
  apart : ∀ (i j : ℕ) (w v : Worker) (d : Desc), s.eps[i]? = some w → s.eps[j]? = some v →
    w.desc = some d → v.desc = some d → i = j
  /-- The lock keeps what a send was called with. -/
  held : ∀ subs held, s.lock = .dispatch (.asking subs held) → ∀ i d, (i, d) ∈ held →
    ∃ w, s.eps[i]? = some w ∧ w.fd = some d

variable {s : Proc}

theorem get_put {i j : ℕ} {w' v : Worker} (hw : s.eps[i]? = some w)
    (hv : (s.put i w').eps[j]? = some v) : j = i ∧ v = w' ∨ j ≠ i ∧ s.eps[j]? = some v := by
  have hlt : i < s.eps.length := (List.getElem?_eq_some_iff.mp hw).1
  by_cases hij : j = i
  · subst hij
    rw [Proc.put, List.getElem?_set_self hlt] at hv
    exact Or.inl ⟨rfl, (Option.some.inj hv).symm⟩
  · rw [Proc.put, List.getElem?_set_ne (Ne.symm hij)] at hv
    exact Or.inr ⟨hij, hv⟩

structure Spare (s : Proc) (d : Desc) : Prop where
  past : d.accept < s.accepts
  isOpen : .closed d ∉ s.log
  free : ∀ (i : ℕ) (w : Worker), s.eps[i]? = some w → w.desc ≠ some d

namespace Sound
variable {s : Proc}

/-- A worker changes; if it has a descriptor then its own or a spare one. Its `fd`
may only change while no request is in flight. -/
theorem put {i : ℕ} {w w' : Worker} (h : Sound s) (hw : s.eps[i]? = some w) (htied : w'.Tied)
    (hdesc : ∀ d, w'.desc = some d → w.desc = some d ∨ Spare s d)
    (hfd : w'.fd = w.fd ∨ ∀ subs held, s.lock ≠ .dispatch (.asking subs held)) :
    Sound (s.put i w') where
  safe := h.safe
  past := h.past
  tied := by
    intro j v hv
    rcases get_put hw hv with ⟨-, rfl⟩ | ⟨-, hv⟩
    · exact htied
    · exact h.tied j v hv
  isOpen := by
    intro j v d hv hd
    rcases get_put hw hv with ⟨-, rfl⟩ | ⟨-, hv⟩
    · rcases hdesc d hd with hown | hspare
      · exact h.isOpen i w d hw hown
      · exact ⟨hspare.past, hspare.isOpen⟩
    · exact h.isOpen j v d hv hd
  apart := by
    -- no other worker has what the changed one has now
    have hother : ∀ (k : ℕ) (u : Worker) (d : Desc), s.eps[k]? = some u → u.desc = some d →
        w'.desc = some d → k = i := by
      intro k u d hu hdu hd
      rcases hdesc d hd with hown | hspare
      · exact h.apart k i u w d hu hw hdu hown
      · exact absurd hdu (hspare.free k u hu)
    intro j k v u d hv hu hdv hdu
    rcases get_put hw hv with ⟨hj, hv'⟩ | ⟨-, hv'⟩
    · rcases get_put hw hu with ⟨hk, -⟩ | ⟨-, hu'⟩
      · exact hj.trans hk.symm
      · rw [hv'] at hdv
        exact hj.trans (hother k u d hu' hdu hdv).symm
    · rcases get_put hw hu with ⟨hk, hu'⟩ | ⟨-, hu'⟩
      · rw [hu'] at hdu
        exact (hother j v d hv' hdv hdu).trans hk.symm
      · exact h.apart j k v u d hv' hu' hdv hdu
  held := by
    intro subs held hlock j d hmem
    obtain ⟨v, hv, hd⟩ := h.held subs held hlock j d hmem
    rcases hfd with hsame | hno
    · by_cases hij : j = i
      · subst hij
        obtain rfl : v = w := Option.some.inj (hv.symm.trans hw)
        refine ⟨w', ?_, hsame.trans hd⟩
        rw [Proc.put, List.getElem?_set_self (List.getElem?_eq_some_iff.mp hw).1]
      · refine ⟨v, ?_, hd⟩
        rw [Proc.put, List.getElem?_set_ne (Ne.symm hij)]
        exact hv
    · exact absurd hlock (hno subs held)

theorem push {w : Worker} (h : Sound s) (htied : w.Tied)
    (hdesc : ∀ d, w.desc = some d → Spare s d) : Sound { s with eps := s.eps ++ [w] } := by
  have hget : ∀ (j : ℕ) (v : Worker), (s.eps ++ [w])[j]? = some v →
      s.eps[j]? = some v ∨ j = s.eps.length ∧ v = w := by
    intro j v hv
    rcases Nat.lt_trichotomy j s.eps.length with hlt | rfl | hgt
    · rw [List.getElem?_append_left hlt] at hv
      exact Or.inl hv
    · rw [List.getElem?_concat_length] at hv
      exact Or.inr ⟨rfl, (Option.some.inj hv).symm⟩
    · have hnone : (s.eps ++ [w])[j]? = none := by simpa using hgt
      rw [hnone] at hv
      cases hv
  refine ⟨h.safe, h.past, ?_, ?_, ?_, ?_⟩
  · intro j v hv
    rcases hget j v hv with hv | ⟨-, rfl⟩
    · exact h.tied j v hv
    · exact htied
  · intro j v d hv hd
    rcases hget j v hv with hv | ⟨-, rfl⟩
    · exact h.isOpen j v d hv hd
    · exact ⟨(hdesc d hd).past, (hdesc d hd).isOpen⟩
  · intro j k v u d hv hu hdv hdu
    rcases hget j v hv with hv' | ⟨hj, hv'⟩
    · rcases hget k u hu with hu' | ⟨-, hu'⟩
      · exact h.apart j k v u d hv' hu' hdv hdu
      · rw [hu'] at hdu
        exact absurd hdv ((hdesc d hdu).free j v hv')
    · rcases hget k u hu with hu' | ⟨hk, -⟩
      · rw [hv'] at hdv
        exact absurd hdu ((hdesc d hdv).free k u hu')
      · exact hj.trans hk.symm
  · intro subs held hlock j d hmem
    obtain ⟨v, hv, hd⟩ := h.held subs held hlock j d hmem
    refine ⟨v, ?_, hd⟩
    rw [List.getElem?_append_left (List.getElem?_eq_some_iff.mp hv).1]
    exact hv

theorem use {d : Desc} (h : Sound s) (hd : .closed d ∉ s.log) : Sound (s.use d) := by
  have hmem : ∀ e, .closed e ∈ (s.use d).log → .closed e ∈ s.log := by
    intro e he
    rcases List.mem_cons.mp he with hx | he
    · cases hx
    · exact he
  refine ⟨?_, fun e he => h.past e (hmem e he), h.tied, fun i w e hw he => ?_, h.apart, h.held⟩
  · apply h.safe.cons
    intro e hx
    rcases hx with hx | hx <;> cases hx
    exact hd
  · obtain ⟨hlt, hopen⟩ := h.isOpen i w e hw he
    exact ⟨hlt, fun hc => hopen (hmem e hc)⟩

theorem accept (h : Sound s) (num : ℤ) : Sound (s.accept num) ∧ Spare (s.accept num) (s.fresh num) := by
  have hmem : ∀ e, .closed e ∈ (s.accept num).log → .closed e ∈ s.log := by
    intro e he
    rcases List.mem_cons.mp he with hx | he
    · cases hx
    · exact he
  refine ⟨⟨?_, fun e he => Nat.lt_succ_of_lt (h.past e (hmem e he)), h.tied, fun i w e hw he => ?_,
    h.apart, h.held⟩, Nat.lt_succ_self _, fun hc => ?_, fun i w hw hd => ?_⟩
  · apply h.safe.cons
    intro e hx
    rcases hx with hx | hx <;> cases hx
  · obtain ⟨hlt, hopen⟩ := h.isOpen i w e hw he
    exact ⟨Nat.lt_succ_of_lt hlt, fun hc => hopen (hmem e hc)⟩
  · exact absurd (h.past _ (hmem _ hc)) (Nat.lt_irrefl _)
  · exact absurd (h.isOpen i w _ hw hd).1 (Nat.lt_irrefl _)

theorem close {d : Desc} (h : Sound s) (hd : Spare s d) : Sound (s.close d) where
  safe := by
    apply h.safe.cons
    intro e hx
    rcases hx with hx | hx <;> cases hx
    exact hd.isOpen
  past := by
    intro e he
    rcases List.mem_cons.mp he with hx | he
    · cases hx
      exact hd.past
    · exact h.past e he
  tied := h.tied
  isOpen := by
    intro i w e hw he
    obtain ⟨hlt, hopen⟩ := h.isOpen i w e hw he
    refine ⟨hlt, fun hmem => ?_⟩
    rcases List.mem_cons.mp hmem with hx | hmem
    · cases hx
      exact hd.free i w hw he
    · exact hopen hmem
  apart := h.apart
  held := h.held

theorem relock {l : Lock} (h : Sound s)
    (hl : ∀ subs held, l = .dispatch (.asking subs held) → ∀ i d, (i, d) ∈ held →
      ∃ w, s.eps[i]? = some w ∧ w.fd = some d) :
    Sound { s with lock := l } where
  safe := h.safe
  past := h.past
  tied := h.tied
  isOpen := h.isOpen
  apart := h.apart
  held := hl

/-- A descriptor leaves its worker and is closed, by the listener that held it or
from a worker without one. -/
theorem drop {i : ℕ} {w w' : Worker} {d : Desc} (h : Sound s) (hw : s.eps[i]? = some w)
    (hd : w.desc = some d) (htied : w'.Tied) (hnone : w'.desc = none)
    (hfd : w'.fd = w.fd ∨ ∀ subs held, s.lock ≠ .dispatch (.asking subs held)) :
    Sound ((s.close d).put i w') := by
  obtain ⟨hlt, hopen⟩ := h.isOpen i w d hw hd
  have hput : Sound (s.put i w') := by
    refine h.put hw htied (fun e he => ?_) hfd
    rw [hnone] at he
    cases he
  have hspare : Spare (s.put i w') d := by
    refine ⟨hlt, hopen, fun j v hv hdv => ?_⟩
    rcases get_put hw hv with ⟨-, rfl⟩ | ⟨hne, hv⟩
    · rw [hnone] at hdv
      cases hdv
    · exact hne (h.apart j i v w d hv hw hdv hd)
  exact hput.close hspare

end Sound

/-! ## Starting -/

theorem sound_activateDynamic (polls : Bool) : Sound { activateDynamic with polls := polls } where
  safe := closedOnce_nil
  past := fun _ h => absurd h List.not_mem_nil
  tied := fun i w h => by simp [activateDynamic] at h
  isOpen := fun i w d h => by simp [activateDynamic] at h
  apart := fun i j w v d h => by simp [activateDynamic] at h
  held := fun _ _ h => by cases h

theorem Sound.activateOne (h : Sound s) (x : MapRow × Option ℤ) :
    Sound (activateOne s x) := by
  obtain ⟨row, num⟩ := x
  cases num with
  | none => exact h.push trivial fun d hd => by cases hd
  | some num =>
    obtain ⟨hacc, hspare⟩ := h.accept num
    refine hacc.push trivial fun d hd => ?_
    obtain rfl : s.fresh num = d := Option.some.inj hd
    exact hspare

theorem sound_activate (map : List (MapRow × Option ℤ)) : Sound (activate map) := by
  have hfold : ∀ s, Sound s → Sound (map.foldl activateOne s) := by
    induction map with
    | nil => exact fun s hs => hs
    | cons x map ih => exact fun s hs => ih _ (hs.activateOne x)
  exact hfold _ (sound_activateDynamic false)

/-! ## One move -/

theorem Sound.relisten {i : ℕ} {l : Listener} (h : Sound s)
    (hw : s.eps[i]? = some w) (htied : ({ w with listener := l } : Worker).Tied)
    (hdesc : ({ w with listener := l } : Worker).desc = w.desc) :
    Sound (s.put i { w with listener := l }) :=
  h.put hw htied (fun _ hd => Or.inl (hdesc.symm.trans hd)) (Or.inl rfl)

theorem Sound.listenerStep {s' : Proc} {i : ℕ} {m : Move} (h : Sound s)
    (hw : s.eps[i]? = some w) (hs : listenerStep s w i w.listener m = some s') : Sound s' := by
  have htied := h.tied i w hw
  unfold Worker.Tied at htied
  cases hl : w.listener with
  | absent | exited =>
    rw [hl] at hs
    cases m <;> cases hs
  | bind =>
    rw [hl] at hs htied
    cases m with
    | bound j ok =>
      obtain rfl := Option.some.inj hs
      cases ok with
      | true | false =>
        refine h.relisten hw ?_ ?_
        · exact htied
        · simp [Worker.desc, hl, Listener.conn]
    | _ => cases hs
  | top =>
    rw [hl] at hs htied
    cases m with
    | turn j =>
      obtain rfl := Option.some.inj hs
      split_ifs with hdead
      all_goals
        refine h.relisten hw ?_ ?_
        · exact htied
        · simp [Worker.desc, hl, Listener.conn]
    | _ => cases hs
  | accepting =>
    rw [hl] at hs htied
    cases m with
    | accept j num =>
      cases num with
      | none =>
        obtain rfl := Option.some.inj hs
        split_ifs with hdead
        all_goals
          refine h.relisten hw ?_ ?_
          · exact htied
          · simp [Worker.desc, hl, Listener.conn]
      | some num =>
        simp only [KvasirNet.Moe.listenerStep] at hs
        split_ifs at hs
        obtain rfl := Option.some.inj hs
        obtain ⟨hacc, hspare⟩ := h.accept num
        refine hacc.put hw htied (fun d hd => Or.inr ?_) (Or.inl rfl)
        obtain rfl : s.fresh num = d := Option.some.inj hd
        exact hspare
    | _ => cases hs
  | attach c =>
    rw [hl] at hs htied
    cases m with
    | attach j =>
      simp only [KvasirNet.Moe.listenerStep] at hs
      split_ifs at hs with hfree
      obtain rfl := Option.some.inj hs
      refine h.put hw (Or.inr rfl) (fun d hd => Or.inl ?_) (Or.inr fun subs held => ?_)
      · rw [Worker.desc, hl]
        exact hd
      · rw [hfree]
        exact fun hx => by cases hx
    | _ => cases hs
  | probe c =>
    have hopen := (h.isOpen i w c hw (by rw [Worker.desc, hl]; rfl)).2
    rw [hl] at hs htied
    cases m with
    | probe j ended =>
      simp only [KvasirNet.Moe.listenerStep] at hs
      split_ifs at hs
      all_goals
        obtain rfl := Option.some.inj hs
        refine (h.use hopen).relisten hw ?_ ?_
        · exact htied
        · simp [Worker.desc, hl, Listener.conn]
    | _ => cases hs
  | look c =>
    rw [hl] at hs htied
    cases m with
    | look j =>
      obtain rfl := Option.some.inj hs
      split_ifs with hdead
      all_goals
        refine h.relisten hw ?_ ?_
        · exact htied
        · simp [Worker.desc, hl, Listener.conn]
    | _ => cases hs
  | detach c =>
    rw [hl] at hs htied
    cases m with
    | detach j =>
      -- the comparison is of numbers, but `fd` is this connection or nothing
      have hcleared : (if w.fd.map Desc.num = some c.num then none else w.fd) = none := by
        rcases htied with hn | hc
        · rw [hn, ite_self]
        · rw [hc, Option.map_some, if_pos rfl]
      simp only [KvasirNet.Moe.listenerStep, hcleared] at hs
      split_ifs at hs with hfree
      obtain rfl := Option.some.inj hs
      refine h.put hw rfl (fun d hd => Or.inl ?_) (Or.inr fun subs held => ?_)
      · rw [Worker.desc, hl]
        exact hd
      · rw [hfree]
        exact fun hx => by cases hx
    | _ => cases hs
  | close c =>
    rw [hl] at hs htied
    cases m with
    | close j =>
      obtain rfl := Option.some.inj hs
      exact h.drop hw (by rw [Worker.desc, hl]; rfl) htied rfl (Or.inl rfl)
    | _ => cases hs

/-- A worker loses its connection to the poll thread or to a failed request, and
no listener thread waits on that connection. -/
theorem Sound.removed {i : ℕ} (h : Sound s) (hw : s.eps[i]? = some w)
    (hlock : ∀ subs held, s.lock ≠ .dispatch (.asking subs held))
    (hspared : w.fd ≠ none → w.listener = .absent) :
    Sound ((s.closeSome w.fd).put i { w with dead := true, fd := none }) := by
  have htied : ({ w with dead := true, fd := none } : Worker).Tied := by
    unfold Worker.Tied
    cases hl : w.listener with
    | absent => trivial
    | probe c | look c | detach c => exact Or.inl rfl
    | bind | top | accepting | attach c | close c | exited => rfl
  cases hfd : w.fd with
  | none =>
    refine h.put hw htied (fun d hd => Or.inl ?_) (Or.inr hlock)
    unfold Worker.desc at hd ⊢
    cases hl : w.listener with
    | absent =>
      rw [hl] at hd
      cases hd
    | _ =>
      rw [hl] at hd
      exact hd
  | some d =>
    have habsent : w.listener = .absent := hspared (by rw [hfd]; exact Option.some_ne_none d)
    have hdesc : w.desc = some d := by rw [Worker.desc, habsent, hfd]
    have hnone : ({ w with dead := true, fd := none } : Worker).desc = none := by
      simp only [Worker.desc, habsent]
    exact h.drop hw hdesc htied hnone (Or.inr hlock)

/-- The worker that the poll thread would close next, if it is to go. -/
def Proc.swept (s : Proc) : Option Worker :=
  match s.lock with
  | .poll rows k => (s.eps[k]?).filter fun w => w.vanished rows
  | _ => none

/-- The worker that a callback would close next. -/
def Proc.buried (s : Proc) : Option Worker :=
  match s.lock with
  | .dispatch (.settling (i :: _)) => s.eps[i]?
  | _ => none

/-- The poll thread and the callbacks close no connection that a listener thread
waits on. -/
def Spares (s : Proc) : Move → Prop
  | .sweep => ∀ w ∈ s.swept, w.fd ≠ none → w.listener = .absent
  | .bury => ∀ w ∈ s.buried, w.fd ≠ none → w.listener = .absent
  | _ => True

instance sparesDecidable (s : Proc) : ∀ m, Decidable (Spares s m)
  | .sweep => inferInstanceAs (Decidable (∀ w ∈ s.swept, w.fd ≠ none → w.listener = .absent))
  | .bury => inferInstanceAs (Decidable (∀ w ∈ s.buried, w.fd ≠ none → w.listener = .absent))
  | .bound _ _ | .turn _ | .accept _ _ | .attach _ | .probe _ _ | .look _ | .detach _ | .close _
  | .poll _ | .pollDone | .enter | .ask _ _ | .hold _ | .io _ _ | .join _ | .settled | .leave =>
    .isTrue trivial

theorem Sound.addRows (h : Sound s) (rows : List MapRow) :
    Sound { s with eps := rows.foldl addRow s.eps } := by
  induction rows generalizing s with
  | nil => exact h
  | cons r rows ih =>
    have hone : Sound { s with eps := addRow s.eps r } := by
      unfold addRow
      split_ifs
      · exact h
      · exact h
      · exact h.push rfl fun d hd => by cases hd
    exact ih hone

theorem Sound.sharedStep {s' : Proc} {m : Move} (h : Sound s) (hm : Spares s m)
    (hs : sharedStep s s.lock m = some s') : Sound s' := by
  unfold KvasirNet.Moe.sharedStep at hs
  split at hs
  · split_ifs at hs
    obtain rfl := Option.some.inj hs
    exact (h.addRows _).relock fun _ _ hx => by cases hx
  · rename_i rows k hlock
    obtain ⟨w, hw, rfl⟩ := Option.map_eq_some_iff.mp hs
    unfold sweepStep
    split_ifs with hgone
    · have hspared : w.fd ≠ none → w.listener = .absent := by
        apply hm w
        rw [Proc.swept, hlock]
        exact Option.filter_eq_some_iff.mpr ⟨hw, hgone⟩
      have hremoved := h.removed hw (fun _ _ hx => by rw [hlock] at hx; cases hx) hspared
      exact hremoved.relock fun _ _ hx => by cases hx
    · exact h.relock fun _ _ hx => by cases hx
  · split_ifs at hs
    obtain rfl := Option.some.inj hs
    exact h.relock fun _ _ hx => by cases hx
  · obtain rfl := Option.some.inj hs
    exact h.relock fun _ _ hx => by cases hx
  · obtain rfl := Option.some.inj hs
    refine h.relock fun subs held hx i d hmem => ?_
    cases hx
    cases hmem
  · rename_i subs held i hlock
    split_ifs at hs
    obtain ⟨w, hw, hs⟩ := Option.bind_eq_some_iff.mp hs
    obtain ⟨d, hd, rfl⟩ := Option.map_eq_some_iff.mp hs
    refine h.relock fun subs' held' hx j e hmem => ?_
    cases hx
    rcases List.mem_cons.mp hmem with hnew | hold
    · cases hnew
      exact ⟨w, hw, hd⟩
    · exact h.held subs held hlock j e hold
  · rename_i subs held i d hlock
    split_ifs at hs with hmem
    obtain rfl := Option.some.inj hs
    obtain ⟨w, hw, hd⟩ := h.held subs held hlock i d hmem
    exact h.use (h.isOpen i w d hw ((h.tied i w hw).desc_eq hd)).2
  · split_ifs at hs
    obtain rfl := Option.some.inj hs
    exact h.relock fun _ _ hx => by cases hx
  · rename_i i rest hlock
    obtain ⟨w, hw, rfl⟩ := Option.map_eq_some_iff.mp hs
    have hspared : w.fd ≠ none → w.listener = .absent := by
      apply hm w
      rw [Proc.buried, hlock]
      exact hw
    have hremoved := h.removed hw (fun _ _ hx => by rw [hlock] at hx; cases hx) hspared
    exact hremoved.relock fun _ _ hx => by cases hx
  · obtain rfl := Option.some.inj hs
    exact h.relock fun _ _ hx => by cases hx
  · obtain rfl := Option.some.inj hs
    exact h.relock fun _ _ hx => by cases hx
  · cases hs

theorem Sound.step {s' : Proc} {m : Move} (h : Sound s) (hm : Spares s m)
    (hs : socketStep s m = some s') : Sound s' := by
  unfold socketStep at hs
  split at hs
  · obtain ⟨w, hw, hs⟩ := Option.bind_eq_some_iff.mp hs
    exact h.listenerStep hw hs
  · exact h.sharedStep hm hs

/-- A process as it is started, with a static map or with a hub to poll. -/
def Started (s : Proc) : Prop := s = activateDynamic ∨ ∃ map, s = activate map

/-- As long as the poll thread and the callbacks close no connection that a
listener thread waits on, a descriptor is closed at most once and never used
after that, whatever the order of the moves. -/
theorem sockets_closed_once {s₀ s : Proc} {ms : List Move} (hstart : Started s₀)
    (hspares : Along socketStep Spares s₀ ms) (hrun : runs socketStep s₀ ms = some s) :
    ClosedOnce s.log := by
  have hsound₀ : Sound s₀ := by
    rcases hstart with rfl | ⟨map, rfl⟩
    · exact sound_activateDynamic true
    · exact sound_activate map
  have hsound : Sound s :=
    runs_invariant (fun _ _ _ hm h hs => h.step hm hs) hspares hrun hsound₀
  exact hsound.safe

/-- Two workers of the hub, each of the same eight experts. -/
def twoRows : List MapRow := [⟨0, 8, 52910, "a"⟩, ⟨0, 8, 52911, "b"⟩]

/-- The hub names both, and the first dials in. -/
def firstAttached : List Move :=
  [.poll twoRows, .sweep, .sweep, .pollDone, .bound 0 true, .turn 0, .accept 0 (some 7), .attach 0]

/-- A round is served, the worker hangs up, and its listener closes. -/
def servedRun : List Move :=
  firstAttached ++ [.enter, .ask (prompt 1) (fun _ => false), .hold 0, .io 0 ⟨7, 0⟩, .join [],
    .settled, .leave, .probe 0 true, .detach 0, .close 0]

theorem sockets_closed_once_served :
    ∃ s, runs socketStep activateDynamic servedRun = some s ∧ .closed ⟨7, 0⟩ ∈ s.log ∧
      ClosedOnce s.log := by
  obtain ⟨s, hrun, hs⟩ := runs_exists socketStep activateDynamic servedRun
    (fun s => decide (.closed ⟨7, 0⟩ ∈ s.log)) (by decide +kernel)
  have hspares : Along socketStep Spares activateDynamic servedRun := by decide +kernel
  exact ⟨s, hrun, of_decide_eq_true hs, sockets_closed_once (Or.inl rfl) hspares hrun⟩

/-- A request to the first worker fails and the callback closes its connection;
the second worker's connection gets the number; then the first listener reads
from the number once more and closes it. -/
def failedRun : List Move :=
  firstAttached ++ [.bound 1 true, .turn 1, .enter, .ask (prompt 1) (fun _ => false), .join [0],
    .bury, .settled, .leave, .accept 1 (some 7), .attach 1, .probe 0 false, .look 0, .detach 0,
    .close 0]

theorem failed_request_closes_twice :
    ∃ s, runs socketStep activateDynamic failedRun = some s ∧
      s.log.count (.closed ⟨7, 0⟩) = 2 ∧ ¬ ClosedOnce s.log ∧
      (s.eps[1]?).bind Worker.fd = some ⟨7, 1⟩ ∧ 7 ∉ s.opened := by
  obtain ⟨s, hrun, hs⟩ := runs_exists socketStep activateDynamic failedRun
    (fun s => decide (s.log.count (.closed ⟨7, 0⟩) = 2 ∧
      (s.eps[1]?).bind Worker.fd = some ⟨7, 1⟩ ∧ 7 ∉ s.opened)) (by decide +kernel)
  obtain ⟨hcount, hfd, hopened⟩ := of_decide_eq_true hs
  refine ⟨s, hrun, hcount, fun hclosed => ?_, hfd, hopened⟩
  have honce := hclosed.once ⟨7, 0⟩
  omega

end KvasirNet.Moe
