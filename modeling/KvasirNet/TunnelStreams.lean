import KvasirNet.ByteFormat
import KvasirNet.Runs
import Mathlib.Data.List.AList

/-! The streams of one tunnel: the relay's dialers and the sockets to the agent, each side with
a table of its own, and the frames between them in order. -/
namespace KvasirNet.TunnelStreams

/-- The socket of a stream, at the relay to a dialer and at the node to the agent. `sent` is
what was read from it before either side closed, `out` what was written to it and not yet
sent, `got` what its peer has received. `gone` says that its `end`, `error` or `close` event
has come, `closed` that the last one has. -/
structure Socket where
  id : ℕ
  sent : Bytes
  out : Bytes
  got : Bytes
  gone : Bool
  destroyed : Bool
  closed : Bool
  deriving DecidableEq, Repr

def Socket.fresh (id : ℕ) : Socket := ⟨id, [], [], [], false, false, false⟩

inductive Event
  | ended
  | errored
  | closed
  deriving DecidableEq, Repr

def Socket.may (x : Socket) : Event → Bool
  | .ended => !x.gone && !x.destroyed
  | .errored => !x.destroyed
  | .closed => !x.closed

def Socket.destroy (x : Socket) : Socket := { x with destroyed := true, out := [] }

def Socket.after (x : Socket) : Event → Socket
  | .ended => { x with gone := true }
  | .errored => { x.destroy with gone := true }
  | .closed => { x.destroy with gone := true, closed := true }

inductive Message
  | opens
  | data (chunk : Bytes)
  | closes
  deriving DecidableEq, Repr

/-- A frame on the control connection. `of` tells which dialer it is about; nothing reads it. -/
structure Frame where
  stream : ℕ
  of : ℕ
  msg : Message
  deriving DecidableEq, Repr

structure Side where
  sockets : List Socket
  streams : AList fun _ : ℕ => ℕ

def Side.put (S : Side) (j : ℕ) (x : Socket) : Side := { S with sockets := S.sockets.set j x }

/-- A new socket in the table, of `attach` and `openStream`. -/
def Side.opened (S : Side) (id : ℕ) : Side :=
  { sockets := S.sockets ++ [Socket.fresh id], streams := S.streams.insert id S.sockets.length }

/-- A chunk read from a socket goes out whether or not its stream is in the table. `counted`
says that the other side has not closed. -/
def Side.data (S : Side) (j : ℕ) (chunk : Bytes) (counted : Bool) : Option (Side × List Frame) :=
  (S.sockets[j]?.filter fun x => !x.gone && !x.destroyed).map fun x =>
    (S.put j { x with sent := if counted then x.sent ++ chunk else x.sent },
      [⟨x.id, j, .data chunk⟩])

/-- The events of a socket all end in `finish`. -/
def Side.event (S : Side) (j : ℕ) (e : Event) : Option (Side × List Frame) :=
  (S.sockets[j]?.filter fun x => x.may e).map fun x =>
    match S.streams.lookup x.id with
    | none => (S.put j (x.after e), [])
    | some _ =>
      ({ S.put j (x.after e).destroy with streams := S.streams.erase x.id }, [⟨x.id, j, .closes⟩])

/-- `n` bytes of what was written reach the peer. -/
def Side.flush (S : Side) (j n : ℕ) : Option Side :=
  (S.sockets[j]?.filter fun x => !x.destroyed).map fun x =>
    S.put j { x with
      got := x.got ++ x.out.take n
      out := x.out.drop n }

/-- `toDialer` and `toAgent`, and a CLOSE from the other side (`closeStream`), which ends the
socket when what was written has been sent. -/
def Side.receive (S : Side) (f : Frame) : Side :=
  match S.streams.lookup f.stream with
  | none => S
  | some j =>
    match f.msg with
    | .opens => S
    | .closes => { S with streams := S.streams.erase f.stream }
    | .data chunk =>
      match S.sockets[j]? with
      | none => S
      | some x => if x.destroyed then S else S.put j { x with out := x.out ++ chunk }

structure Tunnel where
  relay : Side
  agent : Side
  nextStream : ℕ
  down : List Frame
  up : List Frame

def Tunnel.initial : Tunnel := ⟨⟨[], ∅⟩, ⟨[], ∅⟩, 1, [], []⟩

/-- `(this.nextStream + 1) >>> 0 || 1` -/
def nextId (id : ℕ) : ℕ := if (id + 1) % 2 ^ 32 = 0 then 1 else (id + 1) % 2 ^ 32

def Tunnel.attach (s : Tunnel) : Tunnel where
  relay := s.relay.opened s.nextStream
  agent := s.agent
  nextStream := nextId s.nextStream
  down := s.down ++ [⟨s.nextStream, s.relay.sockets.length, .opens⟩]
  up := s.up

/-- The tunnel's handler of a frame of the relay. -/
def Tunnel.toAgent (s : Tunnel) (f : Frame) : Side :=
  match f.msg with
  | .opens => s.agent.opened f.stream
  | _ => s.agent.receive f

inductive Place
  | relay
  | agent
  deriving DecidableEq, Repr

inductive Action
  | dial
  | data (p : Place) (j : ℕ) (chunk : Bytes)
  | event (p : Place) (j : ℕ) (e : Event)
  | flush (p : Place) (j n : ℕ)
  | deliver (p : Place)
  deriving DecidableEq, Repr

/-- Whether the socket of a stream at this side has closed. -/
def Side.gone (S : Side) (j : ℕ) : Bool := S.sockets[j]?.any (·.gone)

def step (s : Tunnel) : Action → Option Tunnel
  | .dial => some s.attach
  | .data .relay j chunk => (s.relay.data j chunk (!s.agent.gone j)).map fun r =>
    { s with relay := r.1, down := s.down ++ r.2 }
  | .data .agent j chunk => (s.agent.data j chunk (!s.relay.gone j)).map fun r =>
    { s with agent := r.1, up := s.up ++ r.2 }
  | .event .relay j e => (s.relay.event j e).map fun r => { s with relay := r.1, down := s.down ++ r.2 }
  | .event .agent j e => (s.agent.event j e).map fun r => { s with agent := r.1, up := s.up ++ r.2 }
  | .flush .relay j n => (s.relay.flush j n).map fun r => { s with relay := r }
  | .flush .agent j n => (s.agent.flush j n).map fun r => { s with agent := r }
  | .deliver .agent =>
    match s.down with
    | [] => none
    | f :: rest => some { s with agent := s.toAgent f, down := rest }
  | .deliver .relay =>
    match s.up with
    | [] => none
    | f :: rest => some { s with relay := s.relay.receive f, up := rest }

/-! ### One direction of one stream -/

def msgsOf (j : ℕ) (ch : List Frame) : List Message :=
  ch.filterMap fun f => if f.of = j then some f.msg else none

def Message.bytes : Message → Bytes
  | .data chunk => chunk
  | .opens | .closes => []

def dataOf (ms : List Message) : Bytes := ms.flatMap Message.bytes

def CloseLast (ms : List Message) : Prop := ∀ pre post, ms = pre ++ .closes :: post → post = []

/-- The bytes from the writer `w` to the reader `r`, who has an entry or not, with `ms` under
way between them. -/
structure Flow (w r : Socket) (entry : Bool) (ms : List Message) : Prop where
  quiet : .closes ∈ ms → w.gone = true
  settled : r.gone = true → w.sent = r.got ++ r.out
  flowing : r.gone = false → w.sent = r.got ++ r.out ++ dataOf ms
  reading : r.gone = false → (entry = true ∧ r.destroyed = false ∧ CloseLast ms) ∨
    (entry = false ∧ ms = [] ∧ w.gone = true)

structure Live (x : Socket) (entry : Bool) : Prop where
  entered : entry = true → x.gone = false ∧ x.destroyed = false
  closed : x.closed = true → x.gone = true ∧ x.destroyed = true

theorem dataOf_append (ms ms' : List Message) : dataOf (ms ++ ms') = dataOf ms ++ dataOf ms' :=
  List.flatMap_append

@[simp]
theorem dataOf_data (chunk : Bytes) (ms : List Message) :
    dataOf (.data chunk :: ms) = chunk ++ dataOf ms := List.flatMap_cons

@[simp]
theorem dataOf_closes (ms : List Message) : dataOf (.closes :: ms) = dataOf ms := List.flatMap_cons

@[simp]
theorem dataOf_nil : dataOf [] = [] := rfl

variable {ms : List Message}

theorem closeLast_append {m : Message} (h : .closes ∉ ms) :
    CloseLast (ms ++ [m]) := by
  intro pre post heq
  rcases List.eq_nil_or_concat post with hnil | ⟨front, last, rfl⟩
  · exact hnil
  · have hsplit : ms ++ [m] = (pre ++ .closes :: front) ++ [last] := by
      rw [heq, List.concat_eq_append, List.append_assoc, List.cons_append]
    have hms := (List.append_inj' hsplit rfl).1
    exact absurd (hms ▸ List.mem_append_right pre List.mem_cons_self) h

theorem CloseLast.tail {m : Message} (h : CloseLast (m :: ms)) : CloseLast ms :=
  fun pre post heq => h (m :: pre) post (by rw [heq, List.cons_append])

namespace Flow

variable {w w' r r' : Socket} {entry entry' : Bool} {ms : List Message}

theorem fresh (id id' : ℕ) : Flow (Socket.fresh id) (Socket.fresh id') true [] where
  quiet h := by cases h
  settled h := by cases h
  flowing _ := rfl
  reading _ := .inl ⟨rfl, rfl, fun pre post h => by
    have := congrArg List.length h
    simp at this⟩

theorem writer (h : Flow w r entry ms) (hsent : w'.sent = w.sent) (hover : w'.gone = w.gone) :
    Flow w' r entry ms where
  quiet hc := by rw [hover]; exact h.quiet hc
  settled hr := by rw [hsent]; exact h.settled hr
  flowing hr := by rw [hsent]; exact h.flowing hr
  reading hr := by rw [hover]; exact h.reading hr

theorem reader (h : Flow w r entry ms) (hgot : r'.got = r.got) (hout : r'.out = r.out)
    (hover : r'.gone = r.gone) (hdestroyed : r'.destroyed = r.destroyed) :
    Flow w r' entry ms where
  quiet := h.quiet
  settled hr := by rw [hgot, hout]; exact h.settled (hover ▸ hr)
  flowing hr := by rw [hgot, hout]; exact h.flowing (hover ▸ hr)
  reading hr := by rw [hdestroyed]; exact h.reading (hover ▸ hr)

theorem sends (h : Flow w r entry ms) (hw : w.gone = false) (chunk : Bytes)
    (hsent : w'.sent = if r.gone then w.sent else w.sent ++ chunk) :
    Flow w' r entry (ms ++ [.data chunk]) := by
  have hopen : .closes ∉ ms := by
    intro hc
    rw [h.quiet hc] at hw
    cases hw
  refine ⟨?_, ?_, ?_, ?_⟩
  · intro hc
    rcases List.mem_append.mp hc with hc | hc
    · exact absurd hc hopen
    · cases List.mem_singleton.mp hc
  · intro hr
    rw [hsent, if_pos hr]
    exact h.settled hr
  · intro hr
    rw [hsent, if_neg (by rw [hr]; exact Bool.noConfusion), h.flowing hr, dataOf_append, dataOf_data,
      dataOf_nil, List.append_nil, List.append_assoc]
  · intro hr
    rcases h.reading hr with ⟨hentry, hdestroyed, -⟩ | ⟨-, -, hover⟩
    · exact .inl ⟨hentry, hdestroyed, closeLast_append hopen⟩
    · rw [hover] at hw
      cases hw

theorem finishes (h : Flow w r entry ms) (hsent : w'.sent = w.sent) (hover : w'.gone = true)
    {had : Bool} (hlive : had = true → w.gone = false) :
    Flow w' r entry (ms ++ if had then [.closes] else []) := by
  cases had with
  | false =>
    simp only [Bool.false_eq_true, if_false, List.append_nil]
    refine ⟨fun _ => hover, fun hr => hsent ▸ h.settled hr, fun hr => hsent ▸ h.flowing hr, fun hr => ?_⟩
    rcases h.reading hr with hin | ⟨hentry, hms, -⟩
    · exact .inl hin
    · exact .inr ⟨hentry, hms, hover⟩
  | true =>
    have hw := hlive rfl
    have hopen : .closes ∉ ms := by
      intro hc
      rw [h.quiet hc] at hw
      cases hw
    simp only [if_true]
    refine ⟨fun _ => hover, fun hr => hsent ▸ h.settled hr, fun hr => ?_, fun hr => ?_⟩
    · rw [hsent, h.flowing hr, dataOf_append, dataOf_closes, dataOf_nil, List.append_nil]
    · rcases h.reading hr with ⟨hentry, hdestroyed, -⟩ | ⟨-, -, hover'⟩
      · exact .inl ⟨hentry, hdestroyed, closeLast_append hopen⟩
      · rw [hover'] at hw
        cases hw

theorem leaves (h : Flow w r entry ms) (hover : r'.gone = true) (hgot : r'.got = r.got)
    (hout : (r'.out = [] ∧ w.sent = r.got) ∨ (r'.out = r.out ∧ entry = false)) :
    Flow w r' entry' ms where
  quiet := h.quiet
  settled _ := by
    rw [hgot]
    rcases hout with ⟨hnil, hall⟩ | ⟨hsame, hentry⟩
    · rw [hnil, List.append_nil, hall]
    · rw [hsame]
      by_cases hr : r.gone = true
      · exact h.settled hr
      · have hr := Bool.eq_false_iff.mpr hr
        have hflow := h.flowing hr
        rcases h.reading hr with ⟨hin, -, -⟩ | ⟨-, hms, -⟩
        · rw [hentry] at hin
          cases hin
        · rwa [hms, dataOf_nil, List.append_nil] at hflow
  flowing hr := by rw [hover] at hr; cases hr
  reading hr := by rw [hover] at hr; cases hr

theorem takes (chunk : Bytes) (h : Flow w r entry (.data chunk :: ms)) (hlive : Live r entry) :
    Flow w (if entry then { r with out := r.out ++ chunk } else r) entry ms := by
  by_cases hover : r.gone = true
  · have hentry : ¬ entry = true := by
      intro hin
      have hlive := (hlive.entered hin).1
      rw [hover] at hlive
      cases hlive
    rw [if_neg hentry]
    exact ⟨fun hc => h.quiet (List.mem_cons_of_mem _ hc), h.settled,
      fun hr => absurd hover (Bool.eq_false_iff.mp hr), fun hr => absurd hover (Bool.eq_false_iff.mp hr)⟩
  · have hover := Bool.eq_false_iff.mpr hover
    rcases h.reading hover with ⟨rfl, hdestroyed, hlast⟩ | ⟨-, hnil, -⟩
    · rw [if_pos rfl]
      refine ⟨fun hc => h.quiet (List.mem_cons_of_mem _ hc), fun hr => ?_, fun _ => ?_, fun _ => ?_⟩
      · exact absurd hr (Bool.eq_false_iff.mp hover)
      · rw [h.flowing hover, dataOf_data]
        simp only [List.append_assoc]
      · exact .inl ⟨rfl, hdestroyed, hlast.tail⟩
    · cases hnil

theorem told (h : Flow w r entry (.closes :: ms)) : Flow w r false ms := by
  have hw := h.quiet List.mem_cons_self
  refine ⟨fun _ => hw, h.settled, fun hr => ?_, fun hr => ?_⟩
  · exact h.flowing hr
  · rcases h.reading hr with ⟨-, -, hlast⟩ | ⟨-, hnil, -⟩
    · exact .inr ⟨rfl, hlast [] ms rfl, hw⟩
    · cases hnil

theorem skips (h : Flow w r entry (.opens :: ms)) : Flow w r entry ms where
  quiet hc := h.quiet (List.mem_cons_of_mem _ hc)
  settled := h.settled
  flowing := h.flowing
  reading hr := by
    rcases h.reading hr with ⟨hentry, hdestroyed, hlast⟩ | ⟨-, hnil, -⟩
    · exact .inl ⟨hentry, hdestroyed, hlast.tail⟩
    · cases hnil

theorem flushes (h : Flow w r entry ms) (n : ℕ) :
    Flow w { r with
      got := r.got ++ r.out.take n
      out := r.out.drop n } entry ms where
  quiet := h.quiet
  settled hr := by
    have hr : r.gone = true := hr
    rw [h.settled hr, List.append_assoc, List.take_append_drop]
  flowing hr := by
    have hr : r.gone = false := hr
    simp only [List.append_assoc, h.flowing hr]
    rw [← List.append_assoc (r.out.take n), List.take_append_drop]
  reading hr := h.reading hr

theorem got_of_fresh {id : ℕ} (h : Flow (Socket.fresh id) r entry ms) : r.got = [] := by
  by_cases hr : r.gone = true
  · have hsettled : [] = r.got ++ r.out := h.settled hr
    exact (List.append_eq_nil_iff.mp hsettled.symm).1
  · have hflow : [] = r.got ++ r.out ++ dataOf ms := h.flowing (Bool.eq_false_iff.mpr hr)
    rw [List.append_assoc] at hflow
    exact (List.append_eq_nil_iff.mp hflow.symm).1

end Flow

/-! ### Streams of a tunnel -/

/-- The id of the dialer that came after `n` others: the counter goes round after 2^32 - 1. -/
def idOf (n : ℕ) : ℕ := n % (2 ^ 32 - 1) + 1

theorem nextId_idOf (n : ℕ) : nextId (idOf n) = idOf (n + 1) := by
  unfold nextId idOf
  split_ifs with h
  · omega
  · omega

theorem idOf_eq_iff {m n : ℕ} : idOf m = idOf n ↔ m % (2 ^ 32 - 1) = n % (2 ^ 32 - 1) := by
  unfold idOf
  omega

def Tunnel.side (s : Tunnel) : Place → Side
  | .relay => s.relay
  | .agent => s.agent

/-- Nothing of the stream is left: both its sockets have closed and no frame is under way. -/
structure Over (s : Tunnel) (j : ℕ) : Prop where
  sockets : ∀ p, ∃ x, (s.side p).sockets[j]? = some x ∧ x.closed = true
  down : msgsOf j s.down = []
  up : msgsOf j s.up = []

def Side.entry (S : Side) (j : ℕ) : Bool := S.streams.lookup (idOf j) = some j

/-- The event ends in a socket that is destroyed: of its own, or by `finish`. -/
def Side.drops (S : Side) (j : ℕ) (e : Event) : Bool := e ≠ .ended || S.entry j

/-- What the streams rest on: the counter comes round to an id only when nothing of the
stream that had it is left, and a socket is destroyed only when its peer has received all that
the other side has sent. -/
def Orderly (s : Tunnel) : Action → Prop
  | .dial => ∀ m < s.relay.sockets.length,
      m % (2 ^ 32 - 1) = s.relay.sockets.length % (2 ^ 32 - 1) → Over s m
  | .event .relay j e => s.relay.drops j e = true → ∀ d l, s.relay.sockets[j]? = some d →
      s.agent.sockets[j]? = some l → l.sent = d.got
  | .event .agent j e => s.agent.drops j e = true → ∀ d l, s.relay.sockets[j]? = some d →
      s.agent.sockets[j]? = some l → d.sent = l.got
  | _ => True

instance (s : Tunnel) (j : ℕ) : Decidable (Over s j) :=
  decidable_of_iff ((∀ p ∈ [Place.relay, .agent], (s.side p).sockets[j]?.any (·.closed) = true) ∧
      msgsOf j s.down = [] ∧ msgsOf j s.up = [])
    ⟨fun ⟨hsockets, hdown, hup⟩ => ⟨fun p => by
        apply (Option.any_eq_true _ _).mp
        apply hsockets p
        cases p <;> decide, hdown, hup⟩,
      fun h => ⟨fun p _ => (Option.any_eq_true _ _).mpr (h.sockets p), h.down, h.up⟩⟩

instance (s : Tunnel) : ∀ a, Decidable (Orderly s a)
  | .dial => inferInstanceAs (Decidable (∀ m < s.relay.sockets.length,
      m % (2 ^ 32 - 1) = s.relay.sockets.length % (2 ^ 32 - 1) → Over s m))
  | .event .relay j e => decidable_of_iff (s.relay.drops j e = true →
      ∀ d ∈ s.relay.sockets[j]?, ∀ l ∈ s.agent.sockets[j]?, l.sent = d.got)
    ⟨fun h he d l hd hl => h he d hd l hl, fun h he d hd l hl => h he d l hd hl⟩
  | .event .agent j e => decidable_of_iff (s.agent.drops j e = true →
      ∀ d ∈ s.relay.sockets[j]?, ∀ l ∈ s.agent.sockets[j]?, d.sent = l.got)
    ⟨fun h he d l hd hl => h he d hd l hl, fun h he d hd l hl => h he d l hd hl⟩
  | .data _ _ _ | .flush _ _ _ | .deliver _ => .isTrue trivial

/-- What each peer has received and what is under way to it is what was sent. -/
structure Carried (s : Tunnel) : Prop where
  toAgent : ∀ (j : ℕ) (d l : Socket), s.relay.sockets[j]? = some d → s.agent.sockets[j]? = some l →
    (l.gone = true → d.sent = l.got ++ l.out) ∧
      (l.gone = false → d.sent = l.got ++ l.out ++ dataOf (msgsOf j s.down))
  toDialer : ∀ (j : ℕ) (d l : Socket), s.relay.sockets[j]? = some d → s.agent.sockets[j]? = some l →
    (d.gone = true → l.sent = d.got ++ d.out) ∧
      (d.gone = false → l.sent = d.got ++ d.out ++ dataOf (msgsOf j s.up))
  unopened : ∀ (j : ℕ) (d : Socket), s.relay.sockets[j]? = some d → s.agent.sockets[j]? = none →
    d.sent = dataOf (msgsOf j s.down) ∧ d.got = []

/-- The id that the next dialer is given is in no table, and no socket that has it is open. -/
structure Free (s : Tunnel) : Prop where
  table : ∀ p, (s.side p).streams.lookup s.nextStream = none
  sockets : ∀ (p : Place) (j : ℕ) (x : Socket), (s.side p).sockets[j]? = some x →
    x.id = s.nextStream → x.closed = true

/-- The socket to the agent, as it will be when the OPEN under way has arrived. -/
def Tunnel.far (s : Tunnel) (j : ℕ) : Socket := (s.agent.sockets[j]?).getD (Socket.fresh (idOf j))

def Tunnel.farEntry (s : Tunnel) (j : ℕ) : Bool :=
  decide (s.agent.sockets.length ≤ j) || s.agent.entry j

def carried (ms : List Message) : List Message := ms.filter fun m => m ≠ .opens

structure Stream (s : Tunnel) (j : ℕ) (d : Socket) : Prop where
  near : Live d (s.relay.entry j)
  far : Live (s.far j) (s.farEntry j)
  down : Flow d (s.far j) (s.farEntry j) (carried (msgsOf j s.down))
  up : Flow (s.far j) d (s.relay.entry j) (msgsOf j s.up)

/-- The dialers whose OPEN is under way, in order. -/
def opensOf (ch : List Frame) : List ℕ :=
  ch.filterMap fun f => if f.msg = .opens then some f.of else none

structure Sound (s : Tunnel) : Prop where
  next : s.nextStream = idOf s.relay.sockets.length
  fewer : s.agent.sockets.length ≤ s.relay.sockets.length
  ids : ∀ (p : Place) (j : ℕ) (x : Socket), (s.side p).sockets[j]? = some x → x.id = idOf j
  table : ∀ (p : Place) (id j : ℕ), (s.side p).streams.lookup id = some j →
    id = idOf j ∧ j < (s.side p).sockets.length
  frames : ∀ f ∈ s.down ++ s.up, f.stream = idOf f.of ∧ f.of < s.relay.sockets.length
  opens : opensOf s.down =
    List.range' s.agent.sockets.length (s.relay.sockets.length - s.agent.sockets.length)
  unopened : ∀ j, s.agent.sockets.length ≤ j → j < s.relay.sockets.length →
    ∃ rest, msgsOf j s.down = .opens :: rest
  past : ∀ i j, i < j → j < s.relay.sockets.length → idOf i = idOf j → Over s i
  stream : ∀ (j : ℕ) (d : Socket), s.relay.sockets[j]? = some d → Stream s j d

theorem sound_initial : Sound .initial where
  next := rfl
  fewer := Nat.le_refl 0
  ids p j x h := by cases p <;> cases h
  table p id j h := by cases p <;> cases h
  frames f h := by cases h
  opens := rfl
  unopened j _ h := by cases h
  past i j _ h := by cases h
  stream j d h := by cases h

/-! ### Messages of one stream -/

theorem msgsOf_append (j : ℕ) (ch ch' : List Frame) : msgsOf j (ch ++ ch') = msgsOf j ch ++ msgsOf j ch' :=
  List.filterMap_append

variable {f : Frame}

theorem msgsOf_self (ch : List Frame) : msgsOf f.of (f :: ch) = f.msg :: msgsOf f.of ch := by
  simp [msgsOf]

theorem msgsOf_other {j : ℕ} (h : f.of ≠ j) (ch : List Frame) :
    msgsOf j (f :: ch) = msgsOf j ch := by
  simp [msgsOf, h]

theorem msgsOf_eq_nil {j : ℕ} {ch : List Frame} (h : ∀ f ∈ ch, f.of ≠ j) : msgsOf j ch = [] := by
  apply List.filterMap_eq_nil_iff.mpr
  intro f hf
  exact if_neg (h f hf)

theorem carried_append (ms ms' : List Message) : carried (ms ++ ms') = carried ms ++ carried ms' :=
  List.filter_append ms ms'

theorem carried_cons {m : Message} (h : m ≠ .opens) (ms : List Message) :
    carried (m :: ms) = m :: carried ms := by
  simp [carried, h]

theorem carried_opens (ms : List Message) : carried (.opens :: ms) = carried ms := rfl

theorem dataOf_carried (ms : List Message) : dataOf (carried ms) = dataOf ms := by
  induction ms with
  | nil => rfl
  | cons m ms ih =>
    cases m with
    | opens => exact ih
    | data chunk => rw [carried_cons Message.noConfusion, dataOf_data, dataOf_data, ih]
    | closes => rw [carried_cons Message.noConfusion, dataOf_closes, dataOf_closes, ih]

/-! ### The tables -/

variable {s s' : Tunnel} {i j : ℕ}

theorem Over.not_entry (h : Sound s) (hover : Over s i) (p : Place) : (s.side p).entry i = false := by
  obtain ⟨d, hd, -⟩ := hover.sockets .relay
  obtain ⟨x, hx, hclosed⟩ := hover.sockets p
  have hstream := h.stream i d hd
  by_contra hin
  have hin := Bool.of_not_eq_false hin
  cases p with
  | relay =>
    obtain rfl := Option.some.inj (hd.symm.trans hx)
    have hlive := (hstream.near.entered hin).1
    rw [(hstream.near.closed hclosed).1] at hlive
    cases hlive
  | agent =>
    have hx : s.agent.sockets[i]? = some x := hx
    have hfar : s.far i = x := by rw [Tunnel.far, hx, Option.getD_some]
    have hfarEntry : s.farEntry i = true := by
      have hin : s.agent.entry i = true := hin
      rw [Tunnel.farEntry, hin, Bool.or_true]
    have hlive := (hstream.far.entered hfarEntry).1
    rw [(hstream.far.closed (hfar ▸ hclosed)).1] at hlive
    cases hlive

variable {p : Place}

theorem lookup_self (h : Sound s) (hj : ¬ Over s j) (hlen : j < s.relay.sockets.length)
    (hi : (s.side p).streams.lookup (idOf j) = some i) : i = j := by
  obtain ⟨hid, hilen⟩ := h.table p _ i hi
  have hi' : i < s.relay.sockets.length := by
    cases p with
    | relay => exact hilen
    | agent => exact Nat.lt_of_lt_of_le hilen h.fewer
  rcases Nat.lt_trichotomy i j with hlt | heq | hgt
  · have hover := h.past i j hlt hlen hid.symm
    have hentry : (s.side p).entry i = true := by
      rw [Side.entry, ← hid, hi]
      exact decide_eq_true rfl
    rw [hover.not_entry h p] at hentry
    cases hentry
  · exact heq
  · exact absurd (h.past j i hgt hi' hid) hj

theorem entry_of_lookup (h : Sound s) (hj : ¬ Over s j) (hlen : j < s.relay.sockets.length)
    (hi : (s.side p).streams.lookup (idOf j) = some i) : (s.side p).entry j = true := by
  obtain rfl := lookup_self h hj hlen hi
  rw [Side.entry, hi]
  exact decide_eq_true rfl

variable {S : Side}

theorem not_entry_of_lookup (hi : S.streams.lookup (idOf j) = none) : S.entry j = false := by
  rw [Side.entry, hi]
  exact decide_eq_false fun h => by cases h

/-- A socket that changes, with its entry kept or taken out of the table. -/
structure Change (S S' : Side) (j : ℕ) (x x' : Socket) : Prop where
  before : S.sockets[j]? = some x
  sockets : S'.sockets = S.sockets.set j x'
  streams : S'.streams = S.streams ∨ S'.streams = S.streams.erase (idOf j)
  id : x'.id = x.id

namespace Change

variable {S S' : Side} {x x' : Socket}

theorem length (h : Change S S' j x x') : S'.sockets.length = S.sockets.length := by
  rw [h.sockets, List.length_set]

theorem lt (h : Change S S' j x x') : j < S.sockets.length := by
  by_contra hlt
  have := h.before
  rw [List.getElem?_eq_none (Nat.le_of_not_lt hlt)] at this
  cases this

theorem self (h : Change S S' j x x') : S'.sockets[j]? = some x' := by
  rw [h.sockets, List.getElem?_set_self h.lt]

theorem other (h : Change S S' j x x') (hi : i ≠ j) : S'.sockets[i]? = S.sockets[i]? := by
  rw [h.sockets, List.getElem?_set_ne (Ne.symm hi)]

theorem lookup (h : Change S S' j x x') {id k : ℕ} (hk : S'.streams.lookup id = some k) :
    S.streams.lookup id = some k := by
  rcases h.streams with hs | hs
  · rwa [hs] at hk
  · rw [hs] at hk
    by_cases hid : id = idOf j
    · subst hid
      rw [AList.lookup_erase] at hk
      cases hk
    · rwa [AList.lookup_erase_ne hid] at hk

end Change

variable {x : Socket}

theorem entry_other (h : Sound s) (hj : ¬ Over s j) (hlen : j < s.relay.sockets.length)
    {S' : Side} {x' : Socket} (hc : Change (s.side p) S' j x x') (hi : i ≠ j) :
    S'.entry i = (s.side p).entry i := by
  rcases hc.streams with hs | hs
  · rw [Side.entry, Side.entry, hs]
  · by_cases hid : idOf i = idOf j
    · have hafter : S'.entry i = false := by
        apply not_entry_of_lookup
        rw [hs, hid, AList.lookup_erase]
      have hbefore : (s.side p).entry i = false := by
        by_contra hin
        have hlook : (s.side p).streams.lookup (idOf i) = some i :=
          of_decide_eq_true (Bool.of_not_eq_false hin)
        rw [hid] at hlook
        exact hi (lookup_self h hj hlen hlook)
      rw [hafter, hbefore]
    · rw [Side.entry, Side.entry, hs, AList.lookup_erase_ne hid]

theorem Stream.congr {d d' : Socket} (h : Stream s j d) (hd : d' = d)
    (hnear : s'.relay.entry j = s.relay.entry j) (hfar : s'.far j = s.far j)
    (hentry : s'.farEntry j = s.farEntry j)
    (hdown : carried (msgsOf j s'.down) = carried (msgsOf j s.down))
    (hup : msgsOf j s'.up = msgsOf j s.up) : Stream s' j d' := by
  subst hd
  constructor
  · rw [hnear]; exact h.near
  · rw [hfar, hentry]; exact h.far
  · rw [hfar, hentry, hdown]; exact h.down
  · rw [hfar, hnear, hup]; exact h.up

theorem Over.congr (h : Over s i) (hrelay : s'.relay.sockets[i]? = s.relay.sockets[i]?)
    (hagent : s'.agent.sockets[i]? = s.agent.sockets[i]?) (hdown : msgsOf i s'.down = msgsOf i s.down)
    (hup : msgsOf i s'.up = msgsOf i s.up) : Over s' i where
  sockets p := by
    obtain ⟨x, hx, hclosed⟩ := h.sockets p
    refine ⟨x, ?_, hclosed⟩
    cases p with
    | relay => exact hrelay.trans hx
    | agent => exact hagent.trans hx
  down := by rw [hdown]; exact h.down
  up := by rw [hup]; exact h.up

/-- A step that concerns the socket `j` of one side and the messages about it. -/
structure Touched (s s' : Tunnel) (p : Place) (j : ℕ) (x x' : Socket) : Prop where
  change : Change (s.side p) (s'.side p) j x x'
  others : ∀ q, q ≠ p → s'.side q = s.side q
  next : s'.nextStream = s.nextStream
  frames : ∀ f ∈ s'.down ++ s'.up, f ∈ s.down ++ s.up ∨ (f.of = j ∧ f.stream = idOf j)
  down : ∀ i, i ≠ j → msgsOf i s'.down = msgsOf i s.down
  up : ∀ i, i ≠ j → msgsOf i s'.up = msgsOf i s.up
  opens : opensOf s'.down = opensOf s.down
  unopened : s.agent.sockets.length ≤ j → ∃ rest, msgsOf j s'.down = .opens :: rest

namespace Touched

variable {p : Place} {x x' : Socket} (ht : Touched s s' p j x x')
include ht

theorem lengths (q : Place) : (s'.side q).sockets.length = (s.side q).sockets.length := by
  by_cases hq : q = p
  · subst hq
    exact ht.change.length
  · rw [ht.others q hq]

theorem other (q : Place) (hi : i ≠ j) : (s'.side q).sockets[i]? = (s.side q).sockets[i]? := by
  by_cases hq : q = p
  · subst hq
    exact ht.change.other hi
  · rw [ht.others q hq]

theorem entry (h : Sound s) (hj : ¬ Over s j) (hlen : j < s.relay.sockets.length) (q : Place)
    (hi : i ≠ j) : (s'.side q).entry i = (s.side q).entry i := by
  by_cases hq : q = p
  · subst hq
    exact entry_other h hj hlen ht.change hi
  · rw [ht.others q hq]

theorem far (hi : i ≠ j) : s'.far i = s.far i := by
  have hsocket : s'.agent.sockets[i]? = s.agent.sockets[i]? := ht.other .agent hi
  rw [Tunnel.far, Tunnel.far, hsocket]

theorem farEntry (h : Sound s) (hj : ¬ Over s j) (hlen : j < s.relay.sockets.length) (hi : i ≠ j) :
    s'.farEntry i = s.farEntry i := by
  have hentry : s'.agent.entry i = s.agent.entry i := ht.entry h hj hlen .agent hi
  have hlength : s'.agent.sockets.length = s.agent.sockets.length := ht.lengths .agent
  rw [Tunnel.farEntry, Tunnel.farEntry, hentry, hlength]

theorem sound (h : Sound s) (hj : ¬ Over s j) (hlen : j < s.relay.sockets.length)
    (hstream : ∀ d, s'.relay.sockets[j]? = some d → Stream s' j d) : Sound s' := by
  have hrelay : s'.relay.sockets.length = s.relay.sockets.length := ht.lengths .relay
  have hagent : s'.agent.sockets.length = s.agent.sockets.length := ht.lengths .agent
  refine ⟨?_, ?_, ?_, ?_, ?_, ?_, ?_, ?_, ?_⟩
  · rw [ht.next, hrelay]
    exact h.next
  · rw [hrelay, hagent]
    exact h.fewer
  · intro q i y hy
    by_cases hi : i = j
    · subst hi
      by_cases hq : q = p
      · subst hq
        obtain rfl := Option.some.inj (ht.change.self.symm.trans hy)
        rw [ht.change.id]
        exact h.ids q i x ht.change.before
      · rw [ht.others q hq] at hy
        exact h.ids q i y hy
    · rw [ht.other q hi] at hy
      exact h.ids q i y hy
  · intro q id i hi
    have hbefore : (s.side q).streams.lookup id = some i := by
      by_cases hq : q = p
      · subst hq
        exact ht.change.lookup hi
      · rwa [ht.others q hq] at hi
    rw [ht.lengths q]
    exact h.table q id i hbefore
  · intro f hf
    rw [hrelay]
    rcases ht.frames f hf with hold | ⟨hof, hid⟩
    · exact h.frames f hold
    · rw [hof]
      exact ⟨hid, hlen⟩
  · rw [ht.opens, hrelay, hagent]
    exact h.opens
  · intro i hk hi
    rw [hagent] at hk
    rw [hrelay] at hi
    by_cases hij : i = j
    · subst hij
      exact ht.unopened hk
    · rw [ht.down i hij]
      exact h.unopened i hk hi
  · intro i m hlt hm hid
    rw [hrelay] at hm
    have hover := h.past i m hlt hm hid
    have hij : i ≠ j := by
      rintro rfl
      exact hj hover
    exact hover.congr (ht.other .relay hij) (ht.other .agent hij) (ht.down i hij) (ht.up i hij)
  · intro i d hd
    by_cases hij : i = j
    · subst hij
      exact hstream d hd
    · have hd' : s.relay.sockets[i]? = some d := (ht.other .relay hij).symm.trans hd
      exact (h.stream i d hd').congr rfl (ht.entry h hj hlen .relay hij) (ht.far hij)
        (ht.farEntry h hj hlen hij) (by rw [ht.down i hij]) (ht.up i hij)

end Touched

/-! ### What the operations of a side do -/

section Sides

variable {S : Side} {r : Side × List Frame}

theorem Side.data_spec {chunk : Bytes} {counted : Bool} (h : S.data j chunk counted = some r) :
    ∃ x, S.sockets[j]? = some x ∧ x.gone = false ∧ x.destroyed = false ∧
      r = (S.put j { x with sent := if counted then x.sent ++ chunk else x.sent },
        [⟨x.id, j, .data chunk⟩]) := by
  obtain ⟨x, hx, rfl⟩ := Option.map_eq_some_iff.mp h
  obtain ⟨hj, hopen⟩ := Option.filter_eq_some_iff.mp hx
  rw [Bool.and_eq_true, Bool.not_eq_true', Bool.not_eq_true'] at hopen
  exact ⟨x, hj, hopen.1, hopen.2, rfl⟩

theorem Side.event_spec {e : Event} (h : S.event j e = some r) :
    ∃ x, S.sockets[j]? = some x ∧ x.may e = true ∧
      ((S.streams.lookup x.id = none ∧ r = (S.put j (x.after e), [])) ∨
        ∃ i, S.streams.lookup x.id = some i ∧
          r = ({ S.put j (x.after e).destroy with streams := S.streams.erase x.id },
            [⟨x.id, j, .closes⟩])) := by
  obtain ⟨x, hx, rfl⟩ := Option.map_eq_some_iff.mp h
  obtain ⟨hj, hmay⟩ := Option.filter_eq_some_iff.mp hx
  refine ⟨x, hj, hmay, ?_⟩
  cases hlook : S.streams.lookup x.id with
  | none => exact .inl ⟨rfl, rfl⟩
  | some i => exact .inr ⟨i, rfl, rfl⟩

theorem Side.flush_spec {n : ℕ} {S' : Side} (h : S.flush j n = some S') :
    ∃ x, S.sockets[j]? = some x ∧ x.destroyed = false ∧
      S' = S.put j { x with
        got := x.got ++ x.out.take n
        out := x.out.drop n } := by
  obtain ⟨x, hx, rfl⟩ := Option.map_eq_some_iff.mp h
  obtain ⟨hj, hopen⟩ := Option.filter_eq_some_iff.mp hx
  rw [Bool.not_eq_true'] at hopen
  exact ⟨x, hj, hopen, rfl⟩

theorem change_put {x x' : Socket} (hx : S.sockets[j]? = some x) (hid : x'.id = x.id) :
    Change S (S.put j x') j x x' := ⟨hx, rfl, .inl rfl, hid⟩

theorem after_spec (x : Socket) (e : Event) :
    (x.after e).id = x.id ∧ (x.after e).sent = x.sent ∧ (x.after e).got = x.got ∧
      (x.after e).gone = true ∧ (x.after e).out = (if e ≠ .ended then [] else x.out) ∧
      ((x.after e).closed = true → x.closed = true ∨ (x.after e).destroyed = true) := by
  cases e with
  | ended => exact ⟨rfl, rfl, rfl, rfl, rfl, fun h => .inl h⟩
  | errored => exact ⟨rfl, rfl, rfl, rfl, rfl, fun _ => .inr rfl⟩
  | closed => exact ⟨rfl, rfl, rfl, rfl, rfl, fun _ => .inr rfl⟩

/-- The socket after an event, destroyed when the stream was in the table. -/
def Socket.finished (x : Socket) (e : Event) (entry : Bool) : Socket :=
  if entry then (x.after e).destroy else x.after e

theorem finished_spec (x : Socket) (e : Event) (entry : Bool) :
    (x.finished e entry).id = x.id ∧ (x.finished e entry).sent = x.sent ∧
      (x.finished e entry).got = x.got ∧ (x.finished e entry).gone = true ∧
      (x.finished e entry).out = (if e ≠ .ended || entry then [] else x.out) ∧
      ((x.finished e entry).closed = true → x.closed = true ∨ (x.finished e entry).destroyed = true) := by
  cases entry with
  | false =>
    rw [Bool.or_false]
    simp only [decide_eq_true_eq]
    exact after_spec x e
  | true =>
    obtain ⟨hid, hsent, hgot, hover, -, -⟩ := after_spec x e
    exact ⟨hid, hsent, hgot, hover, (if_pos (Bool.or_true _)).symm, fun _ => .inr rfl⟩

end Sides

theorem live_side (h : Sound s) (hx : (s.side p).sockets[j]? = some x) :
    Live x ((s.side p).entry j) := by
  cases p with
  | relay => exact (h.stream j x hx).near
  | agent =>
    have hx : s.agent.sockets[j]? = some x := hx
    have hlt : j < s.agent.sockets.length := by
      by_contra hlt
      rw [List.getElem?_eq_none (Nat.le_of_not_lt hlt)] at hx
      cases hx
    obtain ⟨d, hd⟩ : ∃ d, s.relay.sockets[j]? = some d :=
      ⟨_, List.getElem?_eq_getElem (Nat.lt_of_lt_of_le hlt h.fewer)⟩
    have hlive := (h.stream j d hd).far
    rwa [Tunnel.far, hx, Option.getD_some, Tunnel.farEntry,
      decide_eq_false (Nat.not_le_of_lt hlt), Bool.false_or] at hlive

theorem not_over_of_open (hx : (s.side p).sockets[j]? = some x)
    (hclosed : x.closed = false) : ¬ Over s j := by
  intro hover
  obtain ⟨y, hy, hc⟩ := hover.sockets p
  obtain rfl := Option.some.inj (hx.symm.trans hy)
  rw [hclosed] at hc
  cases hc

variable {e : Event}

theorem Live.open_of_may {entry : Bool} (h : Live x entry)
    (hmay : x.may e = true) : x.closed = false := by
  by_contra hc
  have hc := Bool.of_not_eq_false hc
  obtain ⟨hover, hdestroyed⟩ := h.closed hc
  cases e <;> simp [Socket.may, hc, hover, hdestroyed] at hmay

theorem Live.open_of_not_over {entry : Bool} (h : Live x entry) (hx : x.gone = false) :
    x.closed = false := by
  by_contra hc
  rw [(h.closed (Bool.of_not_eq_false hc)).1] at hx
  cases hx

theorem Live.open_of_not_destroyed {entry : Bool} (h : Live x entry)
    (hx : x.destroyed = false) : x.closed = false := by
  by_contra hc
  rw [(h.closed (Bool.of_not_eq_false hc)).2] at hx
  cases hx

theorem lt_of_socket (h : Sound s) (hx : (s.side p).sockets[j]? = some x) :
    j < s.relay.sockets.length := by
  have hlt : j < (s.side p).sockets.length := by
    by_contra hlt
    rw [List.getElem?_eq_none (Nat.le_of_not_lt hlt)] at hx
    cases hx
  cases p with
  | relay => exact hlt
  | agent => exact Nat.lt_of_lt_of_le hlt h.fewer

variable {r : Side × List Frame}

theorem event_change (h : Sound s)
    (hev : (s.side p).event j e = some r) :
    ∃ x, (s.side p).sockets[j]? = some x ∧ x.closed = false ∧
      Change (s.side p) r.1 j x (x.finished e ((s.side p).entry j)) ∧ r.1.entry j = false ∧
      r.2 = if (s.side p).entry j then [⟨idOf j, j, .closes⟩] else [] := by
  obtain ⟨x, hx, hmay, hcase⟩ := Side.event_spec hev
  have hclosed := (live_side h hx).open_of_may hmay
  have hid := h.ids p j x hx
  refine ⟨x, hx, hclosed, ?_⟩
  rcases hcase with ⟨hnone, rfl⟩ | ⟨i, hi, rfl⟩
  · rw [hid] at hnone
    have hentry := not_entry_of_lookup hnone
    rw [hentry]
    exact ⟨change_put hx (after_spec x e).1, hentry, rfl⟩
  · rw [hid] at hi
    have hentry := entry_of_lookup h (not_over_of_open hx hclosed) (lt_of_socket h hx) hi
    rw [hentry, hid]
    refine ⟨⟨hx, rfl, .inr rfl, (after_spec x e).1⟩, ?_, rfl⟩
    apply not_entry_of_lookup
    exact AList.lookup_erase _ _

/-! ### The sides of a step -/

/-- The state after one side has changed and sent its frames. -/
def Tunnel.after (s : Tunnel) (S : Side) (fs : List Frame) : Place → Tunnel
  | .relay => { s with relay := S, down := s.down ++ fs }
  | .agent => { s with agent := S, up := s.up ++ fs }

theorem opensOf_append (ch ch' : List Frame) : opensOf (ch ++ ch') = opensOf ch ++ opensOf ch' :=
  List.filterMap_append

theorem opensOf_eq_nil {fs : List Frame} (h : ∀ f ∈ fs, f.msg ≠ .opens) : opensOf fs = [] :=
  List.filterMap_eq_nil_iff.mpr fun f hf => if_neg (h f hf)

theorem touched_after (h : Sound s) {x' : Socket}
    (hc : Change (s.side p) S j x x') (fs : List Frame)
    (hfs : ∀ f ∈ fs, f.of = j ∧ f.stream = idOf j ∧ f.msg ≠ .opens) :
    Touched s (s.after S fs p) p j x x' := by
  have hnil : ∀ i, i ≠ j → msgsOf i fs = [] := by
    intro i hi
    apply msgsOf_eq_nil
    intro f hf hof
    exact hi (hof.symm.trans (hfs f hf).1)
  cases p with
  | relay =>
    refine ⟨hc, ?_, rfl, ?_, ?_, fun i _ => rfl, ?_, ?_⟩
    · intro q hq
      cases q with
      | relay => exact absurd rfl hq
      | agent => rfl
    · intro f hf
      rcases List.mem_append.mp hf with hf | hf
      · rcases List.mem_append.mp hf with hf | hf
        · exact .inl (List.mem_append_left _ hf)
        · exact .inr ⟨(hfs f hf).1, (hfs f hf).2.1⟩
      · exact .inl (List.mem_append_right _ hf)
    · intro i hi
      rw [Tunnel.after, msgsOf_append, hnil i hi, List.append_nil]
    · rw [Tunnel.after, opensOf_append, opensOf_eq_nil (fun f hf => (hfs f hf).2.2), List.append_nil]
    · intro hk
      obtain ⟨rest, hrest⟩ := h.unopened j hk (lt_of_socket h hc.before)
      exact ⟨rest ++ msgsOf j fs, by rw [Tunnel.after, msgsOf_append, hrest, List.cons_append]⟩
  | agent =>
    refine ⟨hc, ?_, rfl, ?_, fun i _ => rfl, ?_, rfl, ?_⟩
    · intro q hq
      cases q with
      | relay => rfl
      | agent => exact absurd rfl hq
    · intro f hf
      rcases List.mem_append.mp hf with hf | hf
      · exact .inl (List.mem_append_left _ hf)
      · rcases List.mem_append.mp hf with hf | hf
        · exact .inl (List.mem_append_right _ hf)
        · exact .inr ⟨(hfs f hf).1, (hfs f hf).2.1⟩
    · intro i hi
      rw [Tunnel.after, msgsOf_append, hnil i hi, List.append_nil]
    · intro hk
      exact h.unopened j hk (lt_of_socket h hc.before)

/-- The state after a frame has been taken from the other side. -/
def Tunnel.taken (s : Tunnel) (S : Side) (rest : List Frame) : Place → Tunnel
  | .relay => { s with relay := S, up := rest }
  | .agent => { s with agent := S, down := rest }

def Tunnel.inbound (s : Tunnel) : Place → List Frame
  | .relay => s.up
  | .agent => s.down

variable {rest : List Frame}

theorem not_over_of_frame (hf : s.inbound p = f :: rest) :
    ¬ Over s f.of := by
  intro hover
  have hmsgs : msgsOf f.of (s.inbound p) = [] := by
    cases p with
    | relay => exact hover.up
    | agent => exact hover.down
  rw [hf, msgsOf_self] at hmsgs
  cases hmsgs

theorem frame_spec (h : Sound s)
    (hf : s.inbound p = f :: rest) : f.stream = idOf f.of ∧ f.of < s.relay.sockets.length := by
  apply h.frames f
  cases p with
  | relay =>
    have hf : s.up = f :: rest := hf
    rw [hf]
    exact List.mem_append_right _ List.mem_cons_self
  | agent =>
    have hf : s.down = f :: rest := hf
    rw [hf]
    exact List.mem_append_left _ List.mem_cons_self

theorem opened_of_frame (h : Sound s) (hf : s.down = f :: rest)
    (hmsg : f.msg ≠ .opens) : f.of < s.agent.sockets.length := by
  by_contra hk
  obtain ⟨-, hlt⟩ := frame_spec h (p := .agent) hf
  obtain ⟨ms, hms⟩ := h.unopened f.of (Nat.le_of_not_lt hk) hlt
  rw [hf, msgsOf_self] at hms
  exact hmsg (List.cons.inj hms).1

theorem touched_taken (h : Sound s)
    (hf : s.inbound p = f :: rest) (hmsg : p = .agent → f.msg ≠ .opens) {x' : Socket}
    (hc : Change (s.side p) S f.of x x') : Touched s (s.taken S rest p) p f.of x x' := by
  cases p with
  | relay =>
    have hf : s.up = f :: rest := hf
    refine ⟨hc, ?_, rfl, ?_, fun i _ => rfl, ?_, rfl, ?_⟩
    · intro q hq
      cases q with
      | relay => exact absurd rfl hq
      | agent => rfl
    · intro g hg
      rcases List.mem_append.mp hg with hg | hg
      · exact .inl (List.mem_append_left _ hg)
      · exact .inl (List.mem_append_right _ (by rw [hf]; exact List.mem_cons_of_mem f hg))
    · intro i hi
      rw [Tunnel.taken, hf, msgsOf_other (Ne.symm hi)]
    · intro hk
      exact h.unopened f.of hk (lt_of_socket h hc.before)
  | agent =>
    have hf : s.down = f :: rest := hf
    have hne := hmsg rfl
    refine ⟨hc, ?_, rfl, ?_, ?_, fun i _ => rfl, ?_, ?_⟩
    · intro q hq
      cases q with
      | relay => rfl
      | agent => exact absurd rfl hq
    · intro g hg
      rcases List.mem_append.mp hg with hg | hg
      · exact .inl (List.mem_append_left _ (by rw [hf]; exact List.mem_cons_of_mem f hg))
      · exact .inl (List.mem_append_right _ hg)
    · intro i hi
      rw [Tunnel.taken, hf, msgsOf_other (Ne.symm hi)]
    · rw [Tunnel.taken, hf]
      simp [opensOf, hne]
    · intro hk
      exact absurd (opened_of_frame h hf hne) (Nat.not_lt.mpr hk)

theorem far_of_some {l : Socket} (hl : s.agent.sockets[j]? = some l) :
    s.far j = l ∧ s.farEntry j = s.agent.entry j := by
  have hlt : j < s.agent.sockets.length := by
    by_contra hlt
    rw [List.getElem?_eq_none (Nat.le_of_not_lt hlt)] at hl
    cases hl
  refine ⟨by rw [Tunnel.far, hl, Option.getD_some], ?_⟩
  rw [Tunnel.farEntry, decide_eq_false (Nat.not_le_of_lt hlt), Bool.false_or]

theorem over_far (s : Tunnel) (j : ℕ) : s.agent.gone j = (s.far j).gone := by
  rw [Side.gone, Tunnel.far]
  cases s.agent.sockets[j]? <;> rfl

theorem over_of_some (hx : S.sockets[j]? = some x) : S.gone j = x.gone := by
  rw [Side.gone, hx, Option.any_some]

theorem exists_near (h : Sound s) {l : Socket} (hl : s.agent.sockets[j]? = some l) :
    ∃ d, s.relay.sockets[j]? = some d :=
  ⟨_, List.getElem?_eq_getElem (lt_of_socket h (p := .agent) hl)⟩

theorem agent_stream (h : Sound s) (hx : s.agent.sockets[j]? = some x) :
    ∃ d, s.relay.sockets[j]? = some d ∧ Flow d x (s.agent.entry j) (carried (msgsOf j s.down)) ∧
      Flow x d (s.relay.entry j) (msgsOf j s.up) := by
  obtain ⟨d, hd⟩ := exists_near h hx
  have hstream := h.stream j d hd
  obtain ⟨hfar, hentry⟩ := far_of_some hx
  have hdown := hstream.down
  have hup := hstream.up
  rw [hfar] at hup
  rw [hfar, hentry] at hdown
  exact ⟨d, hd, hdown, hup⟩

theorem sound_relay (h : Sound s) {d d' : Socket} (hd : s.relay.sockets[j]? = some d)
    (hj : ¬ Over s j) (ht : Touched s s' .relay j d d') (hnear : Live d' (s'.relay.entry j))
    (hdown : Flow d' (s.far j) (s.farEntry j) (carried (msgsOf j s'.down)))
    (hup : Flow (s.far j) d' (s'.relay.entry j) (msgsOf j s'.up)) : Sound s' := by
  have hagent : s'.agent = s.agent := ht.others .agent (by decide)
  have hfar : s'.far j = s.far j := by rw [Tunnel.far, Tunnel.far, hagent]
  have hentry : s'.farEntry j = s.farEntry j := by rw [Tunnel.farEntry, Tunnel.farEntry, hagent]
  refine ht.sound h hj (lt_of_socket h (p := .relay) hd) fun y hy => ?_
  obtain rfl := Option.some.inj (ht.change.self.symm.trans hy)
  refine ⟨hnear, ?_, ?_, ?_⟩
  · rw [hfar, hentry]
    exact (h.stream j d hd).far
  · rw [hfar, hentry]
    exact hdown
  · rw [hfar]
    exact hup

theorem sound_agent (h : Sound s) {d l l' : Socket} (hd : s.relay.sockets[j]? = some d)
    (hj : ¬ Over s j) (ht : Touched s s' .agent j l l') (hfar : Live l' (s'.agent.entry j))
    (hdown : Flow d l' (s'.agent.entry j) (carried (msgsOf j s'.down)))
    (hup : Flow l' d (s.relay.entry j) (msgsOf j s'.up)) : Sound s' := by
  have hrelay : s'.relay = s.relay := ht.others .relay (by decide)
  obtain ⟨hl', hentry'⟩ := far_of_some (s := s') ht.change.self
  refine ht.sound h hj (lt_of_socket h (p := .relay) hd) fun y hy => ?_
  rw [hrelay] at hy
  obtain rfl := Option.some.inj (hd.symm.trans hy)
  refine ⟨?_, ?_, ?_, ?_⟩
  · rw [hrelay]
    exact (h.stream j _ hd).near
  · rw [hl', hentry']
    exact hfar
  · rw [hl', hentry']
    exact hdown
  · rw [hl', hrelay]
    exact hup

/-! ### Steps -/

theorem msgsOf_single (m : Message) : msgsOf j [⟨idOf j, j, m⟩] = [m] := by
  simp [msgsOf]

theorem sound_data (h : Sound s) {chunk : Bytes} {counted : Bool}
    (hcounted : counted = match p with
      | .relay => !s.agent.gone j
      | .agent => !s.relay.gone j)
    (hr : (s.side p).data j chunk counted = some r) :
    Sound (s.after r.1 r.2 p) := by
  obtain ⟨x, hx, hover, hdestroyed, rfl⟩ := Side.data_spec hr
  have hlive := live_side h hx
  have hj := not_over_of_open hx (hlive.open_of_not_over hover)
  let x' : Socket := { x with sent := if counted then x.sent ++ chunk else x.sent }
  have hid : x.id = idOf j := h.ids p j x hx
  show Sound (s.after ((s.side p).put j x') [⟨x.id, j, .data chunk⟩] p)
  rw [hid]
  have hc : Change (s.side p) ((s.side p).put j x') j x x' := change_put hx rfl
  have ht := touched_after h hc [⟨idOf j, j, .data chunk⟩] (by
    intro f hf
    obtain rfl := List.mem_singleton.mp hf
    exact ⟨rfl, rfl, Message.noConfusion⟩)
  have hlive' : Live x' ((s.side p).entry j) := ⟨hlive.entered, hlive.closed⟩
  cases p with
  | relay =>
    have hstream := h.stream j x hx
    refine sound_relay h hx hj ht hlive' ?_ (hstream.up.reader rfl rfl rfl rfl)
    show Flow x' _ _ (carried (msgsOf j (s.down ++ [⟨idOf j, j, .data chunk⟩])))
    rw [msgsOf_append, msgsOf_single, carried_append]
    apply hstream.down.sends hover chunk
    simp only [x', hcounted, over_far]
    cases (s.far j).gone <;> rfl
  | agent =>
    have hx : s.agent.sockets[j]? = some x := hx
    obtain ⟨d, hd, hdown, hup⟩ := agent_stream h hx
    refine sound_agent h hd hj ht hlive' (hdown.reader rfl rfl rfl rfl) ?_
    show Flow x' _ _ (msgsOf j (s.up ++ [⟨idOf j, j, .data chunk⟩]))
    rw [msgsOf_append, msgsOf_single]
    apply hup.sends hover chunk
    simp only [x', hcounted, over_of_some hd]
    cases d.gone <;> rfl

theorem left_spec {out out' sent got : Bytes}
    (hout : out' = if e ≠ .ended || S.entry j then [] else out)
    (hall : S.drops j e = true → sent = got) :
    (out' = [] ∧ sent = got) ∨ (out' = out ∧ S.entry j = false) := by
  by_cases hdrops : S.drops j e = true
  · have hnil : out' = [] := hout.trans (if_pos hdrops)
    exact .inl ⟨hnil, hall hdrops⟩
  · have hsame : out' = out := hout.trans (if_neg hdrops)
    exact .inr ⟨hsame, (Bool.or_eq_false_iff.mp (Bool.eq_false_iff.mpr hdrops)).2⟩

theorem sound_event (h : Sound s) (hok : Orderly s (.event p j e))
    (hr : (s.side p).event j e = some r) : Sound (s.after r.1 r.2 p) := by
  obtain ⟨x, hx, hclosed, hc, hentry', hfs⟩ := event_change h hr
  obtain ⟨hid, hsent, hgot, hover, hout, hdone⟩ := finished_spec x e ((s.side p).entry j)
  have hlive := live_side h hx
  have hj := not_over_of_open hx hclosed
  have ht := touched_after h hc r.2 (by
    intro f hf
    rw [hfs] at hf
    split_ifs at hf
    · obtain rfl := List.mem_singleton.mp hf
      exact ⟨rfl, rfl, Message.noConfusion⟩
    · cases hf)
  have hmsgs : msgsOf j r.2 = if (s.side p).entry j then [.closes] else [] := by
    rw [hfs]
    split_ifs
    · exact msgsOf_single _
    · rfl
  have hlive' : Live (x.finished e ((s.side p).entry j)) (r.1.entry j) := by
    refine ⟨fun hin => ?_, fun hc' => ⟨hover, ?_⟩⟩
    · rw [hentry'] at hin
      cases hin
    · rcases hdone hc' with hold | hd
      · rw [hclosed] at hold
        cases hold
      · exact hd
  cases p with
  | relay =>
    have hx : s.relay.sockets[j]? = some x := hx
    have hstream := h.stream j x hx
    have hall : s.relay.drops j e = true → (s.far j).sent = x.got := by
      intro hdrops
      cases hl : s.agent.sockets[j]? with
      | some l =>
        rw [(far_of_some hl).1]
        exact hok hdrops x l hx hl
      | none =>
        -- nothing has come up from a stream that is not open yet
        have hnil : s.far j = Socket.fresh (idOf j) := by rw [Tunnel.far, hl, Option.getD_none]
        have hup := hstream.up
        rw [hnil] at hup ⊢
        exact hup.got_of_fresh.symm
    refine sound_relay h hx hj ht hlive' ?_ (hstream.up.leaves hover hgot (left_spec hout hall))
    show Flow _ _ _ (carried (msgsOf j (s.down ++ r.2)))
    have hcar : carried (msgsOf j r.2) = if s.relay.entry j then [.closes] else [] := by
      have hm : msgsOf j r.2 = if s.relay.entry j then [.closes] else [] := hmsgs
      rw [hm]
      split_ifs <;> rfl
    rw [msgsOf_append, carried_append, hcar]
    exact hstream.down.finishes hsent hover fun hin => (hlive.entered hin).1
  | agent =>
    have hx : s.agent.sockets[j]? = some x := hx
    obtain ⟨d, hd, hdown, hup⟩ := agent_stream h hx
    have hall : s.agent.drops j e = true → d.sent = x.got := fun hdrops => hok hdrops d x hd hx
    refine sound_agent h hd hj ht hlive' (hdown.leaves hover hgot (left_spec hout hall)) ?_
    show Flow _ _ _ (msgsOf j (s.up ++ r.2))
    have hm : msgsOf j r.2 = if s.agent.entry j then [.closes] else [] := hmsgs
    rw [msgsOf_append, hm]
    exact hup.finishes hsent hover fun hin => (hlive.entered hin).1

theorem sound_flush (h : Sound s) {n : ℕ} {S' : Side}
    (hr : (s.side p).flush j n = some S') : Sound (s.after S' [] p) := by
  obtain ⟨x, hx, hdestroyed, rfl⟩ := Side.flush_spec hr
  have hlive := live_side h hx
  have hj := not_over_of_open hx (hlive.open_of_not_destroyed hdestroyed)
  let x' : Socket := { x with
    got := x.got ++ x.out.take n
    out := x.out.drop n }
  have hc : Change (s.side p) ((s.side p).put j x') j x x' := change_put hx rfl
  have ht := touched_after h hc [] (fun f hf => by cases hf)
  have hlive' : Live x' ((s.side p).entry j) := ⟨hlive.entered, hlive.closed⟩
  cases p with
  | relay =>
    have hstream := h.stream j x hx
    refine sound_relay h hx hj ht hlive' ?_ (hstream.up.flushes n)
    show Flow x' _ _ (carried (msgsOf j (s.down ++ [])))
    rw [List.append_nil]
    exact hstream.down.writer rfl rfl
  | agent =>
    have hx : s.agent.sockets[j]? = some x := hx
    obtain ⟨d, hd, hdown, hup⟩ := agent_stream h hx
    refine sound_agent h hd hj ht hlive' (hdown.flushes n) ?_
    show Flow x' _ _ (msgsOf j (s.up ++ []))
    rw [List.append_nil]
    exact hup.writer rfl rfl

theorem change_same (hx : S.sockets[j]? = some x) : Change S S j x x := by
  refine ⟨hx, ?_, .inl rfl, rfl⟩
  apply List.ext_getElem?
  intro i
  by_cases hi : j = i
  · subst hi
    have hlt : j < S.sockets.length := by
      by_contra hlt
      rw [List.getElem?_eq_none (Nat.le_of_not_lt hlt)] at hx
      cases hx
    rw [hx, List.getElem?_set_self hlt]
  · rw [List.getElem?_set_ne hi]

theorem receive_spec (h : Sound s) (hj : ¬ Over s f.of)
    (hid : f.stream = idOf f.of) (hx : (s.side p).sockets[f.of]? = some x) :
    (∀ chunk, f.msg = .data chunk →
      Change (s.side p) ((s.side p).receive f) f.of x
        (if (s.side p).entry f.of then { x with out := x.out ++ chunk } else x) ∧
      ((s.side p).receive f).entry f.of = (s.side p).entry f.of) ∧
    (f.msg = .closes → Change (s.side p) ((s.side p).receive f) f.of x x ∧
      ((s.side p).receive f).entry f.of = false) ∧
    (f.msg = .opens → (s.side p).receive f = s.side p) := by
  have hlen := lt_of_socket h hx
  cases hlook : (s.side p).streams.lookup f.stream with
  | none =>
    have hsame : (s.side p).receive f = s.side p := by
      unfold Side.receive
      rw [hlook]
    have hentry : (s.side p).entry f.of = false := not_entry_of_lookup (by rw [← hid]; exact hlook)
    refine ⟨fun chunk hmsg => ?_, fun hmsg => ?_, fun _ => hsame⟩
    · rw [hsame, hentry, if_neg Bool.noConfusion]
      exact ⟨change_same hx, rfl⟩
    · rw [hsame]
      exact ⟨change_same hx, hentry⟩
  | some i =>
    have hlook' := hlook
    rw [hid] at hlook'
    have hentry := entry_of_lookup h hj hlen hlook'
    obtain rfl := lookup_self h hj hlen hlook'
    refine ⟨fun chunk hmsg => ?_, fun hmsg => ?_, fun hmsg => ?_⟩
    · have hdestroyed := ((live_side h hx).entered hentry).2
      have hrec : (s.side p).receive f = (s.side p).put f.of { x with out := x.out ++ chunk } := by
        simp only [Side.receive, hlook, hmsg, hx, hdestroyed, Bool.false_eq_true, if_false]
      rw [hrec, hentry, if_pos rfl]
      exact ⟨change_put hx rfl, hentry⟩
    · have hrec : (s.side p).receive f =
          { s.side p with streams := (s.side p).streams.erase f.stream } := by
        simp only [Side.receive, hlook, hmsg]
      rw [hrec]
      refine ⟨⟨hx, (change_same hx).sockets, .inr (by rw [hid]), rfl⟩, ?_⟩
      apply not_entry_of_lookup
      rw [hid]
      exact AList.lookup_erase _ _
    · simp only [Side.receive, hlook, hmsg]

theorem Live.takes {entry : Bool} (h : Live x entry) (chunk : Bytes) :
    Live (if entry then { x with out := x.out ++ chunk } else x) entry := by
  split_ifs
  · exact ⟨h.entered, h.closed⟩
  · exact h

theorem takes_writer {entry b : Bool} {chunk : Bytes} {r : Socket}
    (h : Flow x r b ms) : Flow (if entry then { x with out := x.out ++ chunk } else x) r b ms := by
  split_ifs
  · exact h.writer rfl rfl
  · exact h

theorem sound_deliverRelay (h : Sound s) (hf : s.up = f :: rest) :
    Sound (s.taken (s.relay.receive f) rest .relay) := by
  have hj := not_over_of_frame (p := .relay) hf
  obtain ⟨hid, hlt⟩ := frame_spec h (p := .relay) hf
  obtain ⟨d, hd⟩ : ∃ d, s.relay.sockets[f.of]? = some d := ⟨_, List.getElem?_eq_getElem hlt⟩
  have hstream := h.stream f.of d hd
  have hup := hstream.up
  rw [hf, msgsOf_self] at hup
  obtain ⟨hdata, hcloses, hopens⟩ := receive_spec h (p := .relay) hj hid hd
  cases hmsg : f.msg with
  | data chunk =>
    obtain ⟨hc, hentry⟩ := hdata chunk hmsg
    rw [hmsg] at hup
    refine sound_relay h hd hj (touched_taken h (p := .relay) hf (fun hp => by cases hp) hc) ?_ ?_ ?_
    · show Live _ ((s.relay.receive f).entry f.of)
      have hentry : (s.relay.receive f).entry f.of = s.relay.entry f.of := hentry
      rw [hentry]
      exact hstream.near.takes chunk
    · exact takes_writer hstream.down
    · show Flow _ _ ((s.relay.receive f).entry f.of) (msgsOf f.of rest)
      have hentry : (s.relay.receive f).entry f.of = s.relay.entry f.of := hentry
      rw [hentry]
      exact hup.takes chunk hstream.near
  | closes =>
    obtain ⟨hc, hentry⟩ := hcloses hmsg
    have hentry : (s.relay.receive f).entry f.of = false := hentry
    rw [hmsg] at hup
    refine sound_relay h hd hj (touched_taken h (p := .relay) hf (fun hp => by cases hp) hc) ?_
      hstream.down ?_
    · show Live d ((s.relay.receive f).entry f.of)
      rw [hentry]
      exact ⟨fun hin => (by cases hin), hstream.near.closed⟩
    · show Flow _ _ ((s.relay.receive f).entry f.of) (msgsOf f.of rest)
      rw [hentry]
      exact hup.told
  | opens =>
    have hsame : s.relay.receive f = s.relay := hopens hmsg
    rw [hmsg] at hup
    rw [hsame]
    exact sound_relay h hd hj
      (touched_taken h (p := .relay) hf (fun hp => by cases hp) (change_same hd)) hstream.near
      hstream.down hup.skips

theorem sound_deliverAgent (h : Sound s) (hf : s.down = f :: rest)
    (hmsg : f.msg ≠ .opens) : Sound (s.taken (s.agent.receive f) rest .agent) := by
  have hj := not_over_of_frame (p := .agent) hf
  obtain ⟨hid, hlt⟩ := frame_spec h (p := .agent) hf
  obtain ⟨d, hd⟩ : ∃ d, s.relay.sockets[f.of]? = some d := ⟨_, List.getElem?_eq_getElem hlt⟩
  obtain ⟨l, hl⟩ : ∃ l, s.agent.sockets[f.of]? = some l :=
    ⟨_, List.getElem?_eq_getElem (opened_of_frame h hf hmsg)⟩
  have hstream := h.stream f.of d hd
  obtain ⟨hfar, hfarEntry⟩ := far_of_some hl
  have hdown := hstream.down
  have hup := hstream.up
  have hlive := hstream.far
  rw [hfar, hfarEntry] at hlive
  rw [hfar] at hup
  rw [hfar, hfarEntry, hf, msgsOf_self, carried_cons hmsg] at hdown
  obtain ⟨hdata, hcloses, -⟩ := receive_spec h (p := .agent) hj hid hl
  cases hm : f.msg with
  | data chunk =>
    obtain ⟨hc, hentry⟩ := hdata chunk hm
    have hentry : (s.agent.receive f).entry f.of = s.agent.entry f.of := hentry
    rw [hm] at hdown
    refine sound_agent h hd hj (touched_taken h (p := .agent) hf (fun _ => hmsg) hc) ?_ ?_ ?_
    · show Live _ ((s.agent.receive f).entry f.of)
      rw [hentry]
      exact hlive.takes chunk
    · show Flow _ _ ((s.agent.receive f).entry f.of) (carried (msgsOf f.of rest))
      rw [hentry]
      exact hdown.takes chunk hlive
    · exact takes_writer hup
  | closes =>
    obtain ⟨hc, hentry⟩ := hcloses hm
    have hentry : (s.agent.receive f).entry f.of = false := hentry
    rw [hm] at hdown
    refine sound_agent h hd hj (touched_taken h (p := .agent) hf (fun _ => hmsg) hc) ?_ ?_ hup
    · show Live _ ((s.agent.receive f).entry f.of)
      rw [hentry]
      exact ⟨fun hin => (by cases hin), hlive.closed⟩
    · show Flow _ _ ((s.agent.receive f).entry f.of) (carried (msgsOf f.of rest))
      rw [hentry]
      exact hdown.told
  | opens => exact absurd hm hmsg

/-! ### New streams -/

theorem opened_get (S : Side) (id i : ℕ) : (S.opened id).sockets[i]? =
    if i = S.sockets.length then some (Socket.fresh id) else S.sockets[i]? := by
  show (S.sockets ++ [Socket.fresh id])[i]? = _
  rcases Nat.lt_trichotomy i S.sockets.length with hlt | rfl | hgt
  · rw [if_neg (Nat.ne_of_lt hlt), List.getElem?_append_left hlt]
  · rw [if_pos rfl, List.getElem?_append_right (Nat.le_refl _), Nat.sub_self]
    rfl
  · rw [if_neg (Nat.ne_of_gt hgt), List.getElem?_eq_none, List.getElem?_eq_none (Nat.le_of_lt hgt)]
    rw [List.length_append, List.length_singleton]
    exact hgt

theorem opened_length (S : Side) (id : ℕ) : (S.opened id).sockets.length = S.sockets.length + 1 := by
  show (S.sockets ++ [Socket.fresh id]).length = _
  rw [List.length_append, List.length_singleton]

theorem opened_lookup (S : Side) {id k : ℕ} (i : ℕ)
    (h : (S.opened id).streams.lookup k = some i) :
    (k = id ∧ i = S.sockets.length) ∨ S.streams.lookup k = some i := by
  have h : (S.streams.insert id S.sockets.length).lookup k = some i := h
  by_cases hk : k = id
  · subst hk
    rw [AList.lookup_insert] at h
    exact .inl ⟨rfl, (Option.some.inj h).symm⟩
  · rw [AList.lookup_insert_ne hk] at h
    exact .inr h

theorem opened_entry (S : Side) {n : ℕ} (hn : n = S.sockets.length)
    (hold : idOf i = idOf n → S.entry i = false) :
    (S.opened (idOf n)).entry i = if i = n then true else S.entry i := by
  have hlook : (S.opened (idOf n)).streams = S.streams.insert (idOf n) S.sockets.length := rfl
  by_cases hi : i = n
  · subst hi
    rw [if_pos rfl, Side.entry, hlook, AList.lookup_insert, hn]
    exact decide_eq_true rfl
  · rw [if_neg hi]
    by_cases hid : idOf i = idOf n
    · rw [hold hid, Side.entry, hlook, hid, AList.lookup_insert]
      apply decide_eq_false
      intro heq
      exact hi ((Option.some.inj heq).symm.trans hn.symm)
    · rw [Side.entry, Side.entry, hlook, AList.lookup_insert_ne hid]

theorem msgsOf_new (h : Sound s) {j : ℕ} (hj : s.relay.sockets.length ≤ j) :
    msgsOf j s.down = [] ∧ msgsOf j s.up = [] := by
  constructor
  · apply msgsOf_eq_nil
    intro f hf hof
    have := (h.frames f (List.mem_append_left _ hf)).2
    omega
  · apply msgsOf_eq_nil
    intro f hf hof
    have := (h.frames f (List.mem_append_right _ hf)).2
    omega

theorem sound_dial (h : Sound s) (hok : Orderly s .dial) : Sound s.attach := by
  have hfresh : ∀ i < s.relay.sockets.length, idOf i = idOf s.relay.sockets.length → Over s i :=
    fun i hi hid => hok i hi (idOf_eq_iff.mp hid)
  have hlen : s.attach.relay.sockets.length = s.relay.sockets.length + 1 := opened_length _ _
  have hget : ∀ i, s.attach.relay.sockets[i]? = if i = s.relay.sockets.length
      then some (Socket.fresh s.nextStream) else s.relay.sockets[i]? := opened_get _ _
  have hdown : ∀ i, i ≠ s.relay.sockets.length → msgsOf i s.attach.down = msgsOf i s.down := by
    intro i hi
    have hnone : msgsOf i [⟨s.nextStream, s.relay.sockets.length, .opens⟩] = [] :=
      msgsOf_other (Ne.symm hi) []
    show msgsOf i (s.down ++ [_]) = _
    rw [msgsOf_append, hnone, List.append_nil]
  have hself : msgsOf s.relay.sockets.length s.attach.down = [.opens] := by
    show msgsOf _ (s.down ++ [_]) = _
    rw [msgsOf_append, (msgsOf_new h (Nat.le_refl _)).1, List.nil_append]
    exact msgsOf_self []
  have hover : ∀ i, Over s i → Over s.attach i := by
    intro i hi
    obtain ⟨x, hx, -⟩ := hi.sockets .relay
    have hne : i ≠ s.relay.sockets.length := Nat.ne_of_lt (lt_of_socket h hx)
    refine hi.congr ?_ rfl (hdown i hne) rfl
    rw [hget, if_neg hne]
  refine ⟨?_, ?_, ?_, ?_, ?_, ?_, ?_, ?_, ?_⟩
  · show nextId s.nextStream = _
    rw [h.next, nextId_idOf, hlen]
  · rw [hlen]
    exact Nat.le_succ_of_le h.fewer
  · intro p i x hx
    cases p with
    | relay =>
      have hx : s.attach.relay.sockets[i]? = some x := hx
      rw [hget] at hx
      split_ifs at hx with hi
      · obtain rfl := Option.some.inj hx
        rw [hi]
        exact h.next
      · exact h.ids .relay i x hx
    | agent => exact h.ids .agent i x hx
  · intro p id i hi
    cases p with
    | relay =>
      show _ ∧ i < s.attach.relay.sockets.length
      rw [hlen]
      rcases opened_lookup s.relay i hi with ⟨rfl, rfl⟩ | hold
      · exact ⟨h.next, Nat.lt_succ_self _⟩
      · obtain ⟨hid, hlt⟩ := h.table .relay id i hold
        exact ⟨hid, Nat.lt_succ_of_lt hlt⟩
    | agent => exact h.table .agent id i hi
  · intro f hf
    rw [hlen]
    have hcase : f ∈ s.down ++ s.up ∨ f = ⟨s.nextStream, s.relay.sockets.length, .opens⟩ := by
      rcases List.mem_append.mp hf with hf | hf
      · rcases List.mem_append.mp hf with hf | hf
        · exact .inl (List.mem_append_left _ hf)
        · exact .inr (List.mem_singleton.mp hf)
      · exact .inl (List.mem_append_right _ hf)
    rcases hcase with hold | rfl
    · obtain ⟨hid, hlt⟩ := h.frames f hold
      exact ⟨hid, Nat.lt_succ_of_lt hlt⟩
    · exact ⟨h.next, Nat.lt_succ_self _⟩
  · have hcount : s.relay.sockets.length + 1 - s.agent.sockets.length =
        s.relay.sockets.length - s.agent.sockets.length + 1 := Nat.succ_sub h.fewer
    show opensOf (s.down ++ [_]) = List.range' s.agent.sockets.length
      (s.attach.relay.sockets.length - s.agent.sockets.length)
    rw [hlen, hcount, List.range'_1_concat, opensOf_append, h.opens,
      Nat.add_sub_cancel' h.fewer]
    rfl
  · intro j hk hj
    rw [hlen] at hj
    by_cases hn : j = s.relay.sockets.length
    · subst hn
      exact ⟨[], hself⟩
    · rw [hdown j hn]
      exact h.unopened j hk (by omega)
  · intro i j hij hj hid
    rw [hlen] at hj
    apply hover
    by_cases hn : j = s.relay.sockets.length
    · subst hn
      exact hfresh i hij hid
    · exact h.past i j hij (by omega) hid
  · intro i d hd
    rw [hget] at hd
    have hentry := opened_entry s.relay (i := i) rfl fun hid => by
      by_cases hi : i < s.relay.sockets.length
      · exact (hfresh i hi hid).not_entry h .relay
      · by_contra hin
        have hlook := of_decide_eq_true (Bool.of_not_eq_false hin)
        exact hi (h.table .relay _ i hlook).2
    rw [← h.next] at hentry
    split_ifs at hd with hi
    · obtain rfl := Option.some.inj hd
      rw [if_pos hi] at hentry
      have hentry : s.attach.relay.entry i = true := hentry
      have hnone : s.agent.sockets[i]? = none :=
        List.getElem?_eq_none (by rw [hi]; exact h.fewer)
      have hfar : s.attach.far i = Socket.fresh (idOf i) := by
        show (s.agent.sockets[i]?).getD _ = _
        rw [hnone, Option.getD_none]
      have hfarEntry : s.attach.farEntry i = true := by
        show (decide (s.agent.sockets.length ≤ i) || _) = true
        rw [decide_eq_true (by rw [hi]; exact h.fewer), Bool.true_or]
      have hlive : ∀ id, Live (Socket.fresh id) true :=
        fun id => ⟨fun _ => ⟨rfl, rfl⟩, fun hc => by cases hc⟩
      constructor
      · rw [hentry]
        exact hlive _
      · rw [hfar, hfarEntry]
        exact hlive _
      · rw [hfar, hfarEntry, hi, hself]
        exact Flow.fresh _ _
      · rw [hfar, hentry]
        show Flow _ _ _ (msgsOf i s.up)
        rw [(msgsOf_new h (Nat.le_of_eq hi.symm)).2]
        exact Flow.fresh _ _
    · rw [if_neg hi] at hentry
      exact (h.stream i d hd).congr rfl hentry rfl rfl (by rw [hdown i hi]) rfl

theorem opens_head (h : Sound s) (hf : s.down = f :: rest)
    (hmsg : f.msg = .opens) : f.of = s.agent.sockets.length ∧
      s.agent.sockets.length < s.relay.sockets.length ∧
      opensOf rest = List.range' (s.agent.sockets.length + 1)
        (s.relay.sockets.length - (s.agent.sockets.length + 1)) := by
  have hopens := h.opens
  have hcons : opensOf (f :: rest) = f.of :: opensOf rest := by simp [opensOf, hmsg]
  rw [hf, hcons] at hopens
  cases hn : s.relay.sockets.length - s.agent.sockets.length with
  | zero =>
    rw [hn] at hopens
    cases hopens
  | succ n =>
    rw [hn, List.range'_succ] at hopens
    obtain ⟨hof, hrest⟩ := List.cons.inj hopens
    have hn' : s.relay.sockets.length - (s.agent.sockets.length + 1) = n := by omega
    rw [hn']
    exact ⟨hof, by omega, hrest⟩

theorem sound_open (h : Sound s) (hf : s.down = f :: rest)
    (hmsg : f.msg = .opens) : Sound (s.taken (s.agent.opened f.stream) rest .agent) := by
  obtain ⟨hof, hlt, hrest⟩ := opens_head h hf hmsg
  obtain ⟨hid, -⟩ := frame_spec h (p := .agent) hf
  have hj := not_over_of_frame (p := .agent) hf
  rw [hof] at hid hj
  rw [hid]
  have hself : msgsOf s.agent.sockets.length s.down =
      .opens :: msgsOf s.agent.sockets.length rest := by
    rw [hf, ← hof, msgsOf_self, hmsg]
  have hother : ∀ i, i ≠ s.agent.sockets.length → msgsOf i rest = msgsOf i s.down := by
    intro i hi
    rw [hf, msgsOf_other (by rw [hof]; exact Ne.symm hi)]
  have hget := opened_get s.agent (idOf s.agent.sockets.length)
  have hlen := opened_length s.agent (idOf s.agent.sockets.length)
  have hentry : ∀ i, (s.agent.opened (idOf s.agent.sockets.length)).entry i =
      if i = s.agent.sockets.length then true else s.agent.entry i := by
    intro i
    apply opened_entry s.agent rfl
    intro hi
    by_contra hin
    have hlook := of_decide_eq_true (Bool.of_not_eq_false hin)
    have hlt' : i < s.agent.sockets.length := (h.table .agent _ i hlook).2
    -- the socket that had this id is over, and an entry is of one that is not
    have hout := (h.past i _ hlt' hlt hi).not_entry h .agent
    exact hin hout
  generalize hS : s.agent.opened (idOf s.agent.sockets.length) = S at hget hlen hentry ⊢
  refine ⟨h.next, ?_, ?_, ?_, ?_, ?_, ?_, ?_, ?_⟩
  · show S.sockets.length ≤ s.relay.sockets.length
    rw [hlen]
    exact hlt
  · intro p i x hx
    cases p with
    | relay => exact h.ids .relay i x hx
    | agent =>
      have hx : S.sockets[i]? = some x := hx
      rw [hget] at hx
      split_ifs at hx with hi
      · obtain rfl := Option.some.inj hx
        rw [hi]
        rfl
      · exact h.ids .agent i x hx
  · intro p id i hi
    cases p with
    | relay => exact h.table .relay id i hi
    | agent =>
      show _ ∧ i < S.sockets.length
      rw [hlen]
      have hi : S.streams.lookup id = some i := hi
      rw [← hS] at hi
      rcases opened_lookup s.agent i hi with ⟨rfl, rfl⟩ | hold
      · exact ⟨rfl, Nat.lt_succ_self _⟩
      · obtain ⟨hid, hlt⟩ := h.table .agent id i hold
        exact ⟨hid, Nat.lt_succ_of_lt hlt⟩
  · intro g hg
    apply h.frames g
    rw [hf]
    rcases List.mem_append.mp hg with hg | hg
    · exact List.mem_append_left _ (List.mem_cons_of_mem f hg)
    · exact List.mem_append_right _ hg
  · show opensOf rest = List.range' S.sockets.length (s.relay.sockets.length - S.sockets.length)
    rw [hlen]
    exact hrest
  · intro j hk hj'
    have hk : S.sockets.length ≤ j := hk
    rw [hlen] at hk
    show ∃ ms, msgsOf j rest = .opens :: ms
    rw [hother j (by omega)]
    exact h.unopened j (by omega) hj'
  · intro i j hij hj' hid'
    have hover := h.past i j hij hj' hid'
    have hne : i ≠ s.agent.sockets.length := by
      rintro rfl
      exact hj hover
    refine hover.congr rfl ?_ (hother i hne) rfl
    show S.sockets[i]? = _
    rw [hget, if_neg hne]
  · intro i d hd
    have hstream := h.stream i d hd
    have hfarEntry : (s.taken S rest .agent).farEntry i = s.farEntry i := by
      show (decide (S.sockets.length ≤ i) || S.entry i) = (decide (_ ≤ i) || s.agent.entry i)
      rw [hlen, hentry i]
      rcases Nat.lt_trichotomy i s.agent.sockets.length with hlt' | heq | hgt
      · rw [if_neg (Nat.ne_of_lt hlt'), decide_eq_false (by omega), decide_eq_false (by omega)]
      · rw [if_pos heq, Bool.or_true, decide_eq_true (Nat.le_of_eq heq.symm), Bool.true_or]
      · rw [decide_eq_true (by omega), decide_eq_true (by omega), Bool.true_or, Bool.true_or]
    have hfar : (s.taken S rest .agent).far i = s.far i := by
      show (S.sockets[i]?).getD _ = (s.agent.sockets[i]?).getD _
      rw [hget]
      split_ifs with hi
      · rw [List.getElem?_eq_none (Nat.le_of_eq hi.symm), hi]
        rfl
      · rfl
    refine hstream.congr rfl rfl hfar hfarEntry ?_ rfl
    show carried (msgsOf i rest) = carried (msgsOf i s.down)
    by_cases hi : i = s.agent.sockets.length
    · rw [hi, hself, carried_opens]
    · rw [hother i hi]

theorem sound_step {a : Action} (hok : Orderly s a) (h : Sound s) (hs : step s a = some s') :
    Sound s' := by
  cases a with
  | dial =>
    obtain rfl := Option.some.inj hs
    exact sound_dial h hok
  | data p j chunk =>
    cases p <;> (obtain ⟨r, hr, rfl⟩ := Option.map_eq_some_iff.mp hs)
    · exact sound_data (p := .relay) h rfl hr
    · exact sound_data (p := .agent) h rfl hr
  | event p j e =>
    cases p <;> (obtain ⟨r, hr, rfl⟩ := Option.map_eq_some_iff.mp hs)
    · exact sound_event (p := .relay) h hok hr
    · exact sound_event (p := .agent) h hok hr
  | flush p j n =>
    cases p <;> (obtain ⟨r, hr, rfl⟩ := Option.map_eq_some_iff.mp hs)
    · have hsound := sound_flush (p := .relay) h hr
      simpa only [Tunnel.after, List.append_nil] using hsound
    · have hsound := sound_flush (p := .agent) h hr
      simpa only [Tunnel.after, List.append_nil] using hsound
  | deliver p =>
    cases p with
    | relay =>
      cases hup : s.up with
      | nil =>
        simp only [step, hup] at hs
        cases hs
      | cons f rest =>
        simp only [step, hup] at hs
        obtain rfl := Option.some.inj hs
        exact sound_deliverRelay h hup
    | agent =>
      cases hdown : s.down with
      | nil =>
        simp only [step, hdown] at hs
        cases hs
      | cons f rest =>
        simp only [step, hdown] at hs
        obtain rfl := Option.some.inj hs
        by_cases hmsg : f.msg = .opens
        · have hto : s.toAgent f = s.agent.opened f.stream := by rw [Tunnel.toAgent, hmsg]
          rw [hto]
          exact sound_open h hdown hmsg
        · have hto : s.toAgent f = s.agent.receive f := by
            unfold Tunnel.toAgent
            split
            · exact absurd ‹_› hmsg
            · rfl
          rw [hto]
          exact sound_deliverAgent h hdown hmsg

/-! ### Whole runs -/

theorem Sound.carried (h : Sound s) : Carried s where
  toAgent j d l hd hl := by
    obtain ⟨hfar, -⟩ := far_of_some hl
    have hdown := (h.stream j d hd).down
    rw [hfar] at hdown
    refine ⟨hdown.settled, fun hover => ?_⟩
    rw [hdown.flowing hover, dataOf_carried]
  toDialer j d l hd hl := by
    obtain ⟨hfar, -⟩ := far_of_some hl
    have hup := (h.stream j d hd).up
    rw [hfar] at hup
    exact ⟨hup.settled, hup.flowing⟩
  unopened j d hd hl := by
    have hstream := h.stream j d hd
    have hfar : s.far j = Socket.fresh (idOf j) := by rw [Tunnel.far, hl, Option.getD_none]
    have hdown := hstream.down
    have hup := hstream.up
    rw [hfar] at hdown hup
    constructor
    · have hflow := hdown.flowing rfl
      rwa [dataOf_carried] at hflow
    · exact hup.got_of_fresh

theorem free_of_orderly (h : Sound s) (hok : Orderly s .dial) : Free s where
  table p := by
    by_contra hsome
    obtain ⟨i, hi⟩ := Option.ne_none_iff_exists'.mp hsome
    obtain ⟨hid, hlen⟩ := h.table p _ i hi
    have hlt : i < s.relay.sockets.length := by
      cases p with
      | relay => exact hlen
      | agent => exact Nat.lt_of_lt_of_le hlen h.fewer
    have hsame : idOf i = idOf s.relay.sockets.length := hid.symm.trans h.next
    have hout := (hok i hlt (idOf_eq_iff.mp hsame)).not_entry h p
    rw [Side.entry, ← hid, hi, decide_eq_true rfl] at hout
    cases hout
  sockets p j x hx hid := by
    have hlt := lt_of_socket h hx
    have hsame : idOf j = idOf s.relay.sockets.length :=
      ((h.ids p j x hx).symm.trans hid).trans h.next
    obtain ⟨y, hy, hclosed⟩ := (hok j hlt (idOf_eq_iff.mp hsame)).sockets p
    obtain rfl := Option.some.inj (hx.symm.trans hy)
    exact hclosed

/-- Along an orderly run a dialer is given an id that no open stream has, and what each peer
receives is what the other side has sent, in order. -/
theorem streams_do_not_cross (as : List Action) (s : Tunnel)
    (hrun : runs step .initial as = some s) (hok : Along step Orderly .initial as) :
    Carried s ∧ Along step (fun t a => a = .dial → Free t) .initial as := by
  constructor
  · have hsound : Sound s :=
      runs_invariant (fun _ _ _ hok h hs => sound_step hok h hs) hok hrun sound_initial
    exact hsound.carried
  · refine Along.of_invariant (I := Sound) (fun t a t' hok h hs => ?_) hok hrun sound_initial
    refine ⟨?_, sound_step hok h hs⟩
    rintro rfl
    exact free_of_orderly h hok

/-- Two dialers at once, the one answered and closed by the agent and the other still open. -/
theorem streams_do_not_cross_two : ∃ s, runs step .initial
    [.dial, .dial, .data .relay 1 [9], .data .relay 0 [1, 2], .deliver .agent, .deliver .agent,
      .deliver .agent, .deliver .agent, .flush .agent 0 2, .data .agent 0 [3],
      .deliver .relay, .flush .relay 0 1, .event .agent 0 .ended, .deliver .relay] = some s ∧
    (s.relay.sockets.map (·.got), s.agent.sockets.map (·.got)) = ([[3], []], [[1, 2], []]) ∧
    Carried s := by
  obtain ⟨s, hrun, hp⟩ := runs_exists step .initial
    [.dial, .dial, .data .relay 1 [9], .data .relay 0 [1, 2], .deliver .agent, .deliver .agent,
      .deliver .agent, .deliver .agent, .flush .agent 0 2, .data .agent 0 [3],
      .deliver .relay, .flush .relay 0 1, .event .agent 0 .ended, .deliver .relay]
    (fun s => (s.relay.sockets.map (·.got), s.agent.sockets.map (·.got)) =
      ([[3], []], [[1, 2], []])) (by decide)
  exact ⟨s, hrun, of_decide_eq_true hp, (streams_do_not_cross _ s hrun (by decide)).1⟩

theorem attach_relay (s : Tunnel) : s.attach.relay = s.relay.opened s.nextStream := rfl

/-- `n` more dialers after the first `k`, each gone at once. -/
def passing : ℕ → ℕ → List Action
  | _, 0 => []
  | k, n + 1 => .dial :: .event .relay k .closed :: passing (k + 1) n

/-- The first of `k` dialers is still there. -/
structure Held (s : Tunnel) (k : ℕ) : Prop where
  next : s.nextStream = idOf k
  length : s.relay.sockets.length = k
  first : s.relay.sockets[0]? = some (Socket.fresh 1)
  entry : s.relay.streams.lookup 1 = some 0

theorem Held.passes {k : ℕ} (h : Held s k) (hk : 0 < k) (hlt : k < 2 ^ 32 - 1) :
    ∃ s', step s.attach (.event .relay k .closed) = some s' ∧ Held s' (k + 1) := by
  have hid : s.nextStream = k + 1 := by
    rw [h.next, idOf, Nat.mod_eq_of_lt hlt]
  have hne : (1 : ℕ) ≠ s.nextStream := by omega
  have hsocket : s.attach.relay.sockets[k]? = some (Socket.fresh s.nextStream) := by
    rw [attach_relay, opened_get, if_pos h.length.symm]
  have hlook : s.attach.relay.streams.lookup s.nextStream = some s.relay.sockets.length :=
    AList.lookup_insert _
  have hev : s.attach.relay.event k .closed = some
      ({ s.attach.relay.put k ((Socket.fresh s.nextStream).after .closed).destroy with
        streams := s.attach.relay.streams.erase s.nextStream }, [⟨s.nextStream, k, .closes⟩]) := by
    unfold Side.event
    rw [hsocket]
    have hlook : s.attach.relay.streams.lookup (Socket.fresh s.nextStream).id =
      some s.relay.sockets.length := hlook
    simp only [Option.filter, Socket.may, Socket.fresh, Bool.not_false, if_true, Option.map_some]
    simp only [Socket.fresh] at hlook
    rw [hlook]
  refine ⟨_, by rw [step, hev, Option.map_some], ?_, ?_, ?_, ?_⟩
  · show nextId s.nextStream = _
    rw [h.next, nextId_idOf]
  · show (s.attach.relay.sockets.set k _).length = k + 1
    rw [List.length_set, attach_relay, opened_length,
      h.length]
  · show (s.attach.relay.sockets.set k _)[0]? = _
    rw [List.getElem?_set_ne (Nat.ne_of_gt hk),
      attach_relay, opened_get,
      if_neg (by rw [h.length]; exact Nat.ne_of_lt hk), h.first]
  · show (s.attach.relay.streams.erase s.nextStream).lookup 1 = some 0
    rw [AList.lookup_erase_ne hne]
    show (s.relay.streams.insert s.nextStream _).lookup 1 = some 0
    rw [AList.lookup_insert_ne hne, h.entry]

theorem passing_held (n : ℕ) {k : ℕ} (h : Held s k) (hk : 0 < k) (hlt : k + n ≤ 2 ^ 32 - 1) :
    ∃ s', runs step s (passing k n) = some s' ∧ Held s' (k + n) := by
  induction n generalizing s k with
  | zero => exact ⟨s, rfl, h⟩
  | succ n ih =>
    obtain ⟨t, ht, hheld⟩ := h.passes hk (by omega)
    obtain ⟨s', hrun, hs'⟩ := ih hheld (Nat.succ_pos k) (by omega)
    refine ⟨s', ?_, ?_⟩
    · show (some s.attach).bind _ = _
      rw [Option.bind_some, runs, ht, Option.bind_some, hrun]
    · rwa [show k + (n + 1) = k + 1 + n by omega]

theorem first_held (n : ℕ) (hn : n + 1 ≤ 2 ^ 32 - 1) :
    ∃ s, runs step .initial (.dial :: passing 1 n) = some s ∧ Held s (1 + n) := by
  have hheld : Held Tunnel.initial.attach 1 := ⟨rfl, rfl, rfl, rfl⟩
  exact passing_held n hheld Nat.one_pos (by omega)

/-- A dialer that half-closes before its answer has come never gets it; and after 2^32 - 1
dialers the next is given the id of the first, still open. -/
theorem streams_cross :
    (∃ s, runs step .initial [.dial, .deliver .agent, .data .relay 0 [63], .deliver .agent,
        .flush .agent 0 1, .data .agent 0 [104, 105], .event .relay 0 .ended, .deliver .relay,
        .deliver .agent] = some s ∧
      (s.relay.sockets, s.agent.sockets, s.down, s.up) =
        ([⟨1, [63], [], [], true, true, false⟩],
          [⟨1, [104, 105], [], [63], false, false, false⟩], [], []) ∧ ¬ Carried s) ∧
    ∃ s, runs step .initial (.dial :: passing 1 (2 ^ 32 - 2)) = some s ∧ ¬ Free s := by
  constructor
  · obtain ⟨s, hrun, hp⟩ := runs_exists step .initial [.dial, .deliver .agent,
      .data .relay 0 [63], .deliver .agent, .flush .agent 0 1, .data .agent 0 [104, 105],
      .event .relay 0 .ended, .deliver .relay, .deliver .agent]
      (fun s => (s.relay.sockets, s.agent.sockets, s.down, s.up) =
        ([⟨1, [63], [], [], true, true, false⟩],
          [⟨1, [104, 105], [], [63], false, false, false⟩], [], [])) (by decide)
    have hend := of_decide_eq_true hp
    refine ⟨s, hrun, hend, fun hcarried => ?_⟩
    obtain ⟨hrelay, hrest⟩ := Prod.mk.inj hend
    obtain ⟨hagent, -⟩ := Prod.mk.inj hrest
    have hall := (hcarried.toDialer 0 _ _ (by rw [hrelay]; rfl) (by rw [hagent]; rfl)).1 rfl
    cases hall
  · obtain ⟨s, hrun, hs⟩ := first_held (2 ^ 32 - 2) (by omega)
    refine ⟨s, hrun, fun hfree => ?_⟩
    have hnone := hfree.table .relay
    have hnext : s.nextStream = 1 := hs.next.trans (by decide)
    rw [hnext] at hnone
    have hsome : (s.side .relay).streams.lookup 1 = some 0 := hs.entry
    rw [hsome] at hnone
    cases hnone

end KvasirNet.TunnelStreams
