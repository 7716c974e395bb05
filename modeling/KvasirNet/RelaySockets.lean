import KvasirNet.ByteFormat
import KvasirNet.Runs
import Mathlib.Data.List.AList

/-! The app's tunnel to the relay: one outbound connection at a time, kept by a retry timer. Its
socket's events come when they come, and the close of a socket that was destroyed comes later. -/
namespace KvasirNet.RelayTunnel

def retryMin : ℕ := 1000

def retryMax : ℕ := 60000

/-- What `start` is given. -/
structure Options where
  relayHost : String
  relayPort : ℕ
  nodeId : String
  owner : String
  agentPort : ℕ
  deriving DecidableEq, Repr

structure State where
  enabled : Bool
  connected : Bool
  registered : Bool
  advertise : Option String
  lastError : Option String
  deriving DecidableEq, Repr

inductive Phase
  | connecting
  | connected
  | destroyed
  | closed
  deriving DecidableEq, Repr

/-- `destroy()` -/
def Phase.destroy : Phase → Phase
  | .connecting | .connected | .destroyed => .destroyed
  | .closed => .closed

def Phase.live : Phase → Bool
  | .connecting | .connected => true
  | .destroyed | .closed => false

/-- A socket of `_connect`, with the options that its handlers keep. -/
structure Socket where
  options : Options
  phase : Phase
  deriving DecidableEq, Repr

/-- A signature that is awaited, for a challenge of the socket `socket`. -/
structure Signing where
  socket : ℕ
  text : String
  pending : Bool
  deriving DecidableEq, Repr

/-- What is written; a HELLO says which socket's challenge it answers. -/
inductive Frame
  | hello (challenge : ℕ) (nodeId owner signature : String) (agentPort : ℕ)
  | data (stream : ℕ) (payload : Bytes)
  | close (stream : ℕ) (why : String)
  | pong (payload : Bytes)
  deriving DecidableEq, Repr

/-- What is read; `none` is a payload that is not JSON. -/
inductive Received
  | challenge (parsed : Option (String × String))
  | welcome (parsed : Option (Bool × String × Option String))
  | opened (stream : ℕ)
  | data (stream : ℕ) (payload : Bytes)
  | closed (stream : ℕ)
  | ping (payload : Bytes)
  deriving DecidableEq, Repr

/-- `streams` gives the local socket of an id; `locals` the id of a local socket. A timer is
`true` until it has fired or is cleared. -/
structure Tunnel where
  socket : Option ℕ
  streams : AList fun _ : ℕ => ℕ
  retry : ℕ
  timer : Option ℕ
  stopped : Bool
  options : Options
  state : State
  sockets : List Socket
  timers : List Bool
  locals : List ℕ
  signing : List Signing
  sent : List (ℕ × Frame)

/-- `new RelayTunnel`; its options are those of the first start. -/
def Tunnel.initial (options : Options) : Tunnel :=
  ⟨none, ∅, retryMin, none, true, options, ⟨false, false, false, none, none⟩, [], [], [], [], []⟩

namespace Tunnel

/-- A socket that was never made counts as closed. -/
def phaseOf (s : Tunnel) (i : ℕ) : Phase := (s.sockets[i]?).elim .closed Socket.phase

def setPhase (s : Tunnel) (i : ℕ) (f : Phase → Phase) : Tunnel :=
  { s with sockets := s.sockets.modify i fun x => { x with phase := f x.phase } }

def destroy (s : Tunnel) (i : ℕ) : Tunnel := s.setPhase i Phase.destroy

def dropStreams (s : Tunnel) : Tunnel := { s with streams := ∅ }

/-- The current socket, when it takes a write. -/
def sendable (s : Tunnel) : Option ℕ := s.socket.filter fun i => (s.phaseOf i).live

def send (s : Tunnel) (frame : Frame) : Tunnel :=
  match s.sendable with
  | none => s
  | some i => { s with sent := s.sent ++ [(i, frame)] }

def connect (s : Tunnel) : Tunnel :=
  if s.stopped then s
  else
    { s with
      socket := some s.sockets.length
      sockets := s.sockets ++ [⟨s.options, .connecting⟩] }

def clearTimer (s : Tunnel) : Tunnel :=
  { s with
    timers := s.timer.elim s.timers fun k => s.timers.set k false
    timer := none }

def stop (s : Tunnel) : Tunnel :=
  let s := { s with
    stopped := true
    state := { s.state with
      enabled := false
      connected := false
      registered := false
      advertise := none } }
  let s := s.clearTimer.dropStreams
  { s with
    sockets := (s.socket.elim s s.destroy).sockets
    socket := none }

def start (s : Tunnel) (options : Options) : Tunnel :=
  let s := s.stop
  connect { s with
    stopped := false
    options := options
    state := { s.state with enabled := true }
    retry := retryMin }

def setError (s : Tunnel) (error : String) : Tunnel :=
  { s with state := { s.state with lastError := some error } }

def openStream (s : Tunnel) (id : ℕ) : Tunnel :=
  { s with
    streams := s.streams.insert id s.locals.length
    locals := s.locals ++ [id] }

/-- An end, a close or an error of a local socket. -/
def finish (s : Tunnel) (id : ℕ) (why : String) : Tunnel :=
  if id ∈ s.streams then send { s with streams := s.streams.erase id } (.close id why) else s

/-- What the relay's challenge is answered with. -/
def helloText (options : Options) (relayHost nonce : String) : String :=
  s!"kvasir p4 relay\nrelay: {relayHost}\nnode: {options.nodeId}\nwallet: {options.owner}\nnonce: {nonce}"

/-- The frame handler of the socket `i`; what an `await` comes after is in `signed`. Data goes to
a local socket and changes nothing here. -/
def onFrame (i : ℕ) (s : Tunnel) : Received → Tunnel
  | .challenge none => s
  | .challenge (some (relayHost, nonce)) =>
    let options := (s.sockets[i]?).elim s.options Socket.options
    { s with signing := s.signing ++ [⟨i, helloText options relayHost nonce, true⟩] }
  | .welcome none => s
  | .welcome (some (true, advertise, _)) =>
    { s with
      state := { s.state with
        registered := true
        advertise := some advertise }
      retry := retryMin }
  | .welcome (some (false, _, error)) =>
    (s.setError (if error.getD "" = "" then "refused" else error.getD "")).destroy i
  | .opened stream => s.openStream stream
  | .data _ _ => s
  | .closed stream => { s with streams := s.streams.erase stream }
  | .ping payload => s.send (.pong payload)

/-- The `data` handler: the frames that the chunk completes, and the framing error that ends it. -/
def onData (s : Tunnel) (i : ℕ) (frames : List Received) (broken : Option String) : Tunnel :=
  let s := frames.foldl (onFrame i) s
  match broken with
  | none => s
  | some error => (s.setError error).destroy i

/-- After `await sign(text)`. -/
def signed (s : Tunnel) (i : ℕ) : Except String String → Tunnel
  | .error error => (s.setError s!"cannot sign: {error}").destroy i
  | .ok signature =>
    let options := (s.sockets[i]?).elim s.options Socket.options
    s.send (.hello i options.nodeId options.owner signature s.options.agentPort)

/-- The `close` handler. -/
def onClose (s : Tunnel) (i : ℕ) : Tunnel :=
  let s := dropStreams { s with
    socket := if s.socket = some i then none else s.socket
    state := { s.state with
      connected := false
      registered := false
      advertise := none } }
  if s.stopped then s
  else
    { s with
      timer := some s.timers.length
      timers := s.timers ++ [true]
      retry := min (s.retry * 2) retryMax }

end Tunnel

/-- `lost` is a socket that the other end has ended. -/
inductive Action
  | start (options : Options)
  | stop
  | connected (i : ℕ)
  | data (i : ℕ) (frames : List Received) (broken : Option String)
  | error (i : ℕ) (message : String)
  | lost (i : ℕ)
  | closed (i : ℕ)
  | signed (k : ℕ) (result : Except String String)
  | fire (k : ℕ)
  | localData (l : ℕ) (chunk : Bytes)
  | finished (l : ℕ) (why : String)

/-- A step; an event is possible while its socket, its timer or its signature is in the phase
for it. -/
def step (s : Tunnel) : Action → Option Tunnel
  | .start options => some (s.start options)
  | .stop => some s.stop
  | .connected i =>
    if s.phaseOf i = .connecting then
      some { s.setPhase i fun _ => .connected with
        state := { s.state with
          connected := true
          lastError := none } }
    else none
  | .data i frames broken => if s.phaseOf i = .connected then some (s.onData i frames broken) else none
  | .error i message =>
    if (s.phaseOf i).live then some ((s.destroy i).setError message) else none
  | .lost i => if (s.phaseOf i).live then some (s.destroy i) else none
  | .closed i =>
    if s.phaseOf i = .destroyed then some ((s.setPhase i fun _ => .closed).onClose i) else none
  | .signed k result =>
    match s.signing[k]? with
    | some ⟨i, _, true⟩ =>
      some (({ s with signing := s.signing.modify k fun x => { x with pending := false } }).signed
        i result)
    | _ => none
  | .fire k =>
    if s.timers[k]? = some true then some { s with timers := s.timers.set k false }.connect else none
  | .localData l chunk => (s.locals[l]?).map fun id => s.send (.data id chunk)
  | .finished l why => (s.locals[l]?).map fun id => s.finish id why

/-- The socket whose event, or whose signature, the action is. -/
def Action.of (s : Tunnel) : Action → Option ℕ
  | .connected i | .data i _ _ | .error i _ | .lost i | .closed i => some i
  | .signed k _ => (s.signing[k]?).map Signing.socket
  | .start _ | .stop | .fire _ | .localData _ _ | .finished _ _ => none

/-- A close that comes while the tunnel is not stopped is that of its last socket, and so is a
signature that it sends or an error that it records. -/
def Orderly (s : Tunnel) (a : Action) : Prop :=
  match a with
  | .closed i => i + 1 = s.sockets.length ∨ s.stopped = true
  | .signed k (.ok _) =>
    (s.signing[k]?).all fun x => x.socket + 1 = s.sockets.length ∨ s.sendable = none
  | .signed k (.error _) =>
    (s.signing[k]?).all fun x => x.socket + 1 = s.sockets.length ∨ s.socket = none
  | _ => True

instance (s : Tunnel) (a : Action) : Decidable (Orderly s a) := by
  cases a with
  | signed k result =>
    cases result with
    | ok _ | error _ => exact inferInstanceAs (Decidable (_ = true))
  | closed i => exact inferInstanceAs (Decidable (_ ∨ _))
  | _ => exact inferInstanceAs (Decidable True)

/-- A HELLO went to the socket whose challenge it answers. -/
def Answers : ℕ × Frame → Prop
  | (j, .hello i _ _ _ _) => j = i
  | _ => True

/-- The last socket is the current one until it is closed, and then a timer waits. -/
structure Sound (s : Tunnel) : Prop where
  current : ∀ i, s.socket = some i →
    i + 1 = s.sockets.length ∧ s.stopped = false ∧ s.phaseOf i ≠ .closed
  live : ∀ i, (s.phaseOf i).live = true → s.socket = some i
  newest : ∀ i, s.stopped = false → i + 1 = s.sockets.length → s.phaseOf i ≠ .closed →
    s.socket = some i
  timer : ∀ k : ℕ, s.timers[k]? = some true → s.timer = some k ∧ s.stopped = false ∧ s.socket = none
  idle : s.stopped = true → s.streams = ∅
  answers : ∀ x ∈ s.sent, Answers x
  waits : s.stopped = false → s.socket = none → ∃ k : ℕ, s.timers[k]? = some true

theorem sound_initial (options : Options) : Sound (.initial options) where
  current i hi := by cases hi
  live i hi := by cases hi
  newest i hi := by cases hi
  timer k hk := by cases hk
  idle _ := rfl
  answers x hx := by cases hx
  waits h := by cases h

variable {s s' : Tunnel} {i j : ℕ}

theorem Sound.socket_none (h : Sound s) (hs : s.stopped = true) : s.socket = none := by
  cases hsocket : s.socket with
  | none => rfl
  | some j =>
    have hon := (h.current j hsocket).2.1
    rw [hs] at hon
    cases hon

/-! ### Sockets -/

theorem phaseOf_setPhase_ne (f : Phase → Phase) (h : j ≠ i) :
    (s.setPhase i f).phaseOf j = s.phaseOf j := by
  unfold Tunnel.phaseOf Tunnel.setPhase
  dsimp only
  rw [List.getElem?_modify_ne _ _ h.symm]

theorem phaseOf_setPhase_self (f : Phase → Phase) (h : s.phaseOf i ≠ .closed ∨ f .closed = .closed) :
    (s.setPhase i f).phaseOf i = f (s.phaseOf i) := by
  unfold Tunnel.phaseOf Tunnel.setPhase at *
  dsimp only
  rw [List.getElem?_modify_eq]
  cases hi : s.sockets[i]? with
  | some x => rfl
  | none =>
    rw [hi] at h
    rcases h with h | h
    · exact absurd rfl h
    · exact h.symm

theorem length_setPhase (f : Phase → Phase) :
    (s.setPhase i f).sockets.length = s.sockets.length := List.length_modify ..

theorem destroy_live (p : Phase) : p.destroy.live = false := by
  cases p with
  | _ => rfl

theorem destroy_closed (p : Phase) (h : p ≠ .closed) : p.destroy ≠ .closed := by
  cases p with
  | closed => exact absurd rfl h
  | _ => exact Phase.noConfusion

theorem Sound.setPhase (h : Sound s) (f : Phase → Phase) (hi : s.phaseOf i ≠ .closed)
    (hf : f (s.phaseOf i) ≠ .closed)
    (hlive : (f (s.phaseOf i)).live = true → (s.phaseOf i).live = true) : Sound (s.setPhase i f) := by
  have hself := phaseOf_setPhase_self f (.inl hi)
  have hclosed : ∀ j, (s.setPhase i f).phaseOf j = .closed ↔ s.phaseOf j = .closed := by
    intro j
    by_cases hj : j = i
    · subst hj
      rw [hself]
      exact ⟨fun h => absurd h hf, fun h => absurd h hi⟩
    · rw [phaseOf_setPhase_ne f hj]
  refine ⟨fun j hj => ?_, fun j hj => ?_, fun j hs hj hne => ?_, h.timer, h.idle, h.answers, h.waits⟩
  · obtain ⟨hlast, hs, hne⟩ := h.current j hj
    refine ⟨?_, hs, fun hc => hne ((hclosed j).mp hc)⟩
    rw [length_setPhase]
    exact hlast
  · by_cases hji : j = i
    · subst hji
      rw [hself] at hj
      exact h.live j (hlive hj)
    · rw [phaseOf_setPhase_ne f hji] at hj
      exact h.live j hj
  · rw [length_setPhase] at hj
    exact h.newest j hs hj fun hc => hne ((hclosed j).mpr hc)

theorem Sound.destroy (h : Sound s) : Sound (s.destroy i) := by
  by_cases hi : s.phaseOf i = .closed
  · have hsame : ∀ j, (s.destroy i).phaseOf j = s.phaseOf j := by
      intro j
      by_cases hj : j = i
      · subst hj
        unfold Tunnel.destroy
        rw [phaseOf_setPhase_self _ (.inr rfl), hi]
        rfl
      · exact phaseOf_setPhase_ne _ hj
    refine ⟨fun j hj => ?_, fun j hj => ?_, fun j hs hj hne => ?_, h.timer, h.idle, h.answers,
      h.waits⟩
    · rw [hsame, show (s.destroy i).sockets.length = _ from length_setPhase _]
      exact h.current j hj
    · rw [hsame] at hj
      exact h.live j hj
    · rw [hsame] at hne
      rw [show (s.destroy i).sockets.length = _ from length_setPhase _] at hj
      exact h.newest j hs hj hne
  · refine h.setPhase _ hi (destroy_closed _ hi) fun hl => ?_
    rw [destroy_live] at hl
    cases hl

/-! ### Frames -/

theorem sendable_eq_some (h : s.sendable = some i) : s.socket = some i :=
  (Option.filter_eq_some_iff.mp h).1

theorem Sound.send (h : Sound s) {frame : Frame} (hans : ∀ j, s.sendable = some j → Answers (j, frame)) :
    Sound (s.send frame) := by
  unfold Tunnel.send
  cases hj : s.sendable with
  | none => exact h
  | some j =>
    refine ⟨h.current, h.live, h.newest, h.timer, h.idle, fun x hx => ?_, h.waits⟩
    rcases List.mem_append.mp hx with hx | hx
    · exact h.answers x hx
    · obtain rfl := List.mem_singleton.mp hx
      exact hans j hj

theorem Sound.setStreams (h : Sound s) (streams : AList fun _ : ℕ => ℕ) (locals : List ℕ)
    (hon : s.stopped = true → streams = ∅) : Sound { s with
      streams := streams
      locals := locals } :=
  ⟨h.current, h.live, h.newest, h.timer, hon, h.answers, h.waits⟩

theorem Sound.setState (h : Sound s) (state : State) (retry : ℕ) (signing : List Signing) :
    Sound { s with
      state := state
      retry := retry
      signing := signing } :=
  ⟨h.current, h.live, h.newest, h.timer, h.idle, h.answers, h.waits⟩

theorem Sound.setError (h : Sound s) (error : String) : Sound (s.setError error) :=
  h.setState _ s.retry s.signing

theorem socket_send (s : Tunnel) (frame : Frame) : (s.send frame).socket = s.socket := by
  unfold Tunnel.send
  cases s.sendable with
  | none | some j => rfl

theorem Sound.onFrame (h : Sound s) (hi : s.socket = some i) (f : Received) :
    Sound (Tunnel.onFrame i s f) ∧ (Tunnel.onFrame i s f).socket = some i := by
  have hon : s.stopped = true → False := by
    rw [(h.current i hi).2.1]
    exact Bool.noConfusion
  cases f with
  | challenge parsed =>
    cases parsed with
    | none => exact ⟨h, hi⟩
    | some c => exact ⟨h.setState s.state s.retry _, hi⟩
  | welcome parsed =>
    match parsed with
    | none => exact ⟨h, hi⟩
    | some (true, advertise, _) => exact ⟨h.setState _ _ s.signing, hi⟩
    | some (false, _, error) => exact ⟨(h.setError _).destroy, hi⟩
  | opened stream => exact ⟨h.setStreams _ _ fun hs => (hon hs).elim, hi⟩
  | data stream payload => exact ⟨h, hi⟩
  | closed stream => exact ⟨h.setStreams _ s.locals fun hs => (hon hs).elim, hi⟩
  | ping payload => exact ⟨h.send fun _ _ => trivial, (socket_send s _).trans hi⟩

theorem Sound.onFrames (h : Sound s) (hi : s.socket = some i) (frames : List Received) :
    Sound (frames.foldl (Tunnel.onFrame i) s) := by
  induction frames generalizing s with
  | nil => exact h
  | cons f frames ih =>
    obtain ⟨hf, hi'⟩ := h.onFrame hi f
    exact ih hf hi'

theorem Sound.onData (h : Sound s) (hi : s.socket = some i) (frames : List Received)
    (broken : Option String) : Sound (s.onData i frames broken) := by
  have hframes := h.onFrames hi frames
  cases broken with
  | none => exact hframes
  | some error => exact (hframes.setError error).destroy

theorem Sound.finish (h : Sound s) (id : ℕ) (why : String) : Sound (s.finish id why) := by
  unfold Tunnel.finish
  split_ifs with hmem
  · have hon : s.stopped = true → s.streams.erase id = ∅ := by
      intro hs
      rw [h.idle hs] at hmem
      exact absurd hmem (AList.notMem_empty id)
    exact (h.setStreams _ s.locals hon).send fun _ _ => trivial
  · exact h

/-! ### Start, stop and the timer -/

structure Quiet (s : Tunnel) : Prop where
  sockets : ∀ i, (s.phaseOf i).live = false
  timers : ∀ k : ℕ, s.timers[k]? ≠ some true
  answers : ∀ x ∈ s.sent, Answers x

theorem Quiet.connect (h : Quiet s) (hon : s.stopped = false) : Sound s.connect := by
  have hconnect : s.connect = { s with
      socket := some s.sockets.length
      sockets := s.sockets ++ [⟨s.options, .connecting⟩] } :=
    if_neg (by rw [hon]; exact Bool.false_ne_true)
  have hlast : s.connect.phaseOf s.sockets.length = .connecting := by
    rw [hconnect]
    unfold Tunnel.phaseOf
    dsimp only
    rw [List.getElem?_concat_length]
    rfl
  have hothers : ∀ i, i ≠ s.sockets.length → s.connect.phaseOf i = s.phaseOf i := by
    intro i hi
    rw [hconnect]
    unfold Tunnel.phaseOf
    dsimp only
    rcases Nat.lt_or_gt_of_ne hi with hlt | hgt
    · rw [List.getElem?_append_left hlt]
    · rw [List.getElem?_eq_none (by rw [List.length_append, List.length_singleton]; omega),
        List.getElem?_eq_none (by omega)]
  have hsocket : s.connect.socket = some s.sockets.length := by rw [hconnect]
  have hlength : s.connect.sockets.length = s.sockets.length + 1 := by
    rw [hconnect]
    exact List.length_append
  have hstopped : s.connect.stopped = false := by rw [hconnect, hon]
  refine ⟨fun i hi => ?_, fun i hi => ?_, fun i _ hi _ => ?_, fun k hk => ?_, fun hs => ?_,
    fun x hx => ?_, fun _ hs => ?_⟩
  · obtain rfl := Option.some.inj (hsocket.symm.trans hi)
    refine ⟨hlength.symm, hstopped, ?_⟩
    rw [hlast]
    exact Phase.noConfusion
  · by_cases hne : i = s.sockets.length
    · rw [hne, hsocket]
    · rw [hothers i hne, h.sockets i] at hi
      cases hi
  · rw [hlength] at hi
    rw [hsocket, Nat.succ.inj hi]
  · rw [hconnect] at hk
    exact absurd hk (h.timers k)
  · rw [hstopped] at hs
    cases hs
  · rw [hconnect] at hx
    exact h.answers x hx
  · rw [hsocket] at hs
    cases hs

theorem clearTimer_timers (h : Sound s) (k : ℕ) : s.clearTimer.timers[k]? ≠ some true := by
  intro hk
  unfold Tunnel.clearTimer at hk
  dsimp only at hk
  cases htimer : s.timer with
  | none =>
    rw [htimer] at hk
    have hother := (h.timer k hk).1
    rw [htimer] at hother
    cases hother
  | some j =>
    rw [htimer] at hk
    dsimp only [Option.elim] at hk
    by_cases hj : j = k
    · subst hj
      rw [List.getElem?_set_self'] at hk
      obtain ⟨_, -, hf⟩ := Option.map_eq_some_iff.mp hk
      cases hf
    · rw [List.getElem?_set_ne hj] at hk
      have hother := (h.timer k hk).1
      rw [htimer] at hother
      exact hj (Option.some.inj hother)

/-- What `stop` leaves. -/
structure Stopped (s s' : Tunnel) : Prop where
  stopped : s'.stopped = true
  socket : s'.socket = none
  streams : s'.streams = ∅
  timers : s'.timers = s.clearTimer.timers
  sent : s'.sent = s.sent
  phases : ∀ j, s'.phaseOf j = if s.socket = some j then (s.phaseOf j).destroy else s.phaseOf j

theorem stop_spec (s : Tunnel) : Stopped s s.stop := by
  refine ⟨rfl, rfl, rfl, rfl, rfl, fun j => ?_⟩
  have hsockets : s.stop.sockets = (s.socket.elim s s.destroy).sockets := by
    unfold Tunnel.stop
    dsimp only [Tunnel.clearTimer, Tunnel.dropStreams]
    cases s.socket with
    | none | some i => rfl
  have hphase : s.stop.phaseOf j = (s.socket.elim s s.destroy).phaseOf j := by
    unfold Tunnel.phaseOf
    rw [hsockets]
  rw [hphase]
  cases s.socket with
  | none => exact (if_neg (by rintro ⟨⟩)).symm
  | some i =>
    by_cases hij : i = j
    · subst hij
      rw [if_pos rfl]
      exact phaseOf_setPhase_self _ (.inr rfl)
    · rw [if_neg fun h => hij (Option.some.inj h)]
      exact phaseOf_setPhase_ne _ (Ne.symm hij)

theorem Sound.quiet_stop (h : Sound s) : Quiet s.stop := by
  have hstop := stop_spec s
  refine ⟨fun i => ?_, fun k => ?_, fun x hx => ?_⟩
  · rw [hstop.phases]
    split_ifs with hi
    · exact destroy_live _
    · by_contra hlive
      exact hi (h.live i (Bool.not_eq_false _ ▸ hlive))
  · rw [hstop.timers]
    exact clearTimer_timers h k
  · rw [hstop.sent] at hx
    exact h.answers x hx

theorem Sound.stop (h : Sound s) : Sound s.stop := by
  have hstop := stop_spec s
  have hquiet := h.quiet_stop
  have hoff : s.stop.stopped = false → False := by
    rw [hstop.stopped]
    exact Bool.noConfusion
  refine ⟨fun i hi => ?_, fun i hi => ?_, fun i hs => (hoff hs).elim,
    fun k hk => absurd hk (hquiet.timers k), fun _ => hstop.streams, hquiet.answers,
    fun hs => (hoff hs).elim⟩
  · rw [hstop.socket] at hi
    cases hi
  · rw [hquiet.sockets i] at hi
    cases hi

theorem Sound.start (h : Sound s) (options : Options) : Sound (s.start options) := by
  have hquiet := h.quiet_stop
  exact Quiet.connect ⟨hquiet.sockets, hquiet.timers, hquiet.answers⟩ rfl

theorem Sound.fire (h : Sound s) {k : ℕ} (hk : s.timers[k]? = some true) :
    Sound { s with timers := s.timers.set k false }.connect := by
  obtain ⟨htimer, hon, hnone⟩ := h.timer k hk
  refine Quiet.connect ⟨fun i => ?_, fun j hj => ?_, h.answers⟩ hon
  · by_contra hlive
    have hcurrent := h.live i (Bool.not_eq_false _ ▸ hlive)
    rw [hnone] at hcurrent
    cases hcurrent
  · by_cases hkj : k = j
    · subst hkj
      dsimp only at hj
      rw [List.getElem?_set_self'] at hj
      obtain ⟨_, -, hf⟩ := Option.map_eq_some_iff.mp hj
      cases hf
    · dsimp only at hj
      rw [List.getElem?_set_ne hkj] at hj
      have hother := (h.timer j hj).1
      rw [htimer] at hother
      exact hkj (Option.some.inj hother)

/-! ### Events -/

theorem Sound.closed (h : Sound s) (hi : s.phaseOf i = .destroyed)
    (hlast : i + 1 = s.sockets.length ∨ s.stopped = true) :
    Sound ((s.setPhase i fun _ => .closed).onClose i) := by
  have hborn : s.phaseOf i ≠ .closed := by
    rw [hi]
    exact Phase.noConfusion
  have hself : (s.setPhase i fun _ => .closed).phaseOf i = .closed :=
    phaseOf_setPhase_self _ (.inl hborn)
  have hnotlive : ∀ j, ((s.setPhase i fun _ => .closed).phaseOf j).live = true →
      (s.phaseOf j).live = true ∧ j ≠ i := by
    intro j hj
    by_cases hji : j = i
    · subst hji
      rw [hself] at hj
      cases hj
    · rw [phaseOf_setPhase_ne _ hji] at hj
      exact ⟨hj, hji⟩
  have hlength : (s.setPhase i fun _ => .closed).sockets.length = s.sockets.length := length_setPhase _
  by_cases hs : s.stopped = true
  · have hnone := h.socket_none hs
    have hclose : (s.setPhase i fun _ => .closed).onClose i = Tunnel.dropStreams
        { (s.setPhase i fun _ => .closed) with
          socket := none
          state := { s.state with
            connected := false
            registered := false
            advertise := none } } := by
      simp [Tunnel.onClose, Tunnel.dropStreams, Tunnel.setPhase, hs, hnone]
    rw [hclose]
    refine ⟨fun j hj => (by cases hj), fun j hj => ?_, fun j hon => ?_, fun k hk => ?_, fun _ => rfl,
      h.answers, fun hon => ?_⟩
    · have := h.live j (hnotlive j hj).1
      rw [hnone] at this
      cases this
    · exact absurd (hs.symm.trans hon) Bool.noConfusion
    · have := (h.timer k hk).2.1
      exact absurd (hs.symm.trans this) Bool.noConfusion
    · exact absurd (hs.symm.trans hon) Bool.noConfusion
  · have hon : s.stopped = false := Bool.not_eq_true _ ▸ hs
    have hcurrent : s.socket = some i := by
      rcases hlast with hlast | hs'
      · exact h.newest i hon hlast hborn
      · exact absurd hs' hs
    have hlast' := (h.current i hcurrent).1
    have hclose : (s.setPhase i fun _ => .closed).onClose i = Tunnel.dropStreams
        { (s.setPhase i fun _ => .closed) with
          socket := none
          state := { s.state with
            connected := false
            registered := false
            advertise := none }
          timer := some s.timers.length
          timers := s.timers ++ [true]
          retry := min (s.retry * 2) retryMax } := by
      simp [Tunnel.onClose, Tunnel.dropStreams, Tunnel.setPhase, hon, hcurrent]
    rw [hclose]
    have hidle : ∀ k : ℕ, s.timers[k]? ≠ some true := by
      intro k hk
      have := (h.timer k hk).2.2
      rw [hcurrent] at this
      cases this
    refine ⟨fun j hj => (by cases hj), fun j hj => ?_, fun j _ hj hne => ?_, fun k hk => ?_,
      fun _ => rfl, h.answers, fun _ _ => ⟨s.timers.length, List.getElem?_concat_length⟩⟩
    · obtain ⟨hlive, hne⟩ := hnotlive j hj
      have := h.live j hlive
      rw [hcurrent] at this
      exact absurd (Option.some.inj this).symm hne
    · have hji : j = i := by
        have : j + 1 = s.sockets.length := hj.trans hlength
        omega
      subst hji
      exact absurd hself hne
    · have hk' : (s.timers ++ [true])[k]? = some true := hk
      rcases Nat.lt_trichotomy k s.timers.length with hlt | rfl | hgt
      · rw [List.getElem?_append_left hlt] at hk'
        exact absurd hk' (hidle k)
      · exact ⟨rfl, hon, rfl⟩
      · rw [List.getElem?_eq_none (by rw [List.length_append, List.length_singleton]; omega)] at hk'
        cases hk'

theorem Sound.connected (h : Sound s) (hi : s.phaseOf i = .connecting) :
    Sound (s.setPhase i fun _ => .connected) := by
  refine h.setPhase _ ?_ Phase.noConfusion fun _ => ?_
  · rw [hi]
    exact Phase.noConfusion
  · rw [hi]
    rfl

theorem Sound.signed (h : Sound s) {k : ℕ} {x : Signing} (hk : s.signing[k]? = some x)
    {result : Except String String} (horderly : Orderly s (.signed k result)) :
    Sound (({ s with
      signing := s.signing.modify k fun x => { x with pending := false } } : Tunnel).signed x.socket
        result) := by
  have hbefore : Sound { s with
      signing := s.signing.modify k fun x => { x with pending := false } } :=
    h.setState s.state s.retry _
  cases result with
  | error error => exact (hbefore.setError _).destroy
  | ok signature =>
    refine hbefore.send fun j hj => ?_
    have hj' : s.sendable = some j := hj
    have hlast : x.socket + 1 = s.sockets.length ∨ s.sendable = none := by
      simpa [Orderly, hk] using horderly
    rcases hlast with hlast | hnone
    · have := (h.current j (sendable_eq_some hj')).1
      change j = x.socket
      omega
    · rw [hnone] at hj'
      cases hj'

theorem of_phase {c : Prop} [Decidable c] {x y : Tunnel} (h : (if c then some x else none) = some y) :
    c ∧ x = y := by
  split_ifs at h with hc
  exact ⟨hc, Option.some.inj h⟩

theorem signed_inv {k : ℕ} {result : Except String String} (h : step s (.signed k result) = some s') :
    ∃ x, s.signing[k]? = some x ∧ s' = ({ s with
      signing := s.signing.modify k fun x => { x with pending := false } } : Tunnel).signed x.socket
        result := by
  unfold step at h
  dsimp only at h
  split at h
  next i text hk => exact ⟨_, hk, (Option.some.inj h).symm⟩
  next => cases h

theorem sound_step (h : Sound s) {a : Action} (horderly : Orderly s a) (hstep : step s a = some s') :
    Sound s' := by
  cases a with
  | start options =>
    obtain rfl := Option.some.inj hstep
    exact h.start options
  | stop =>
    obtain rfl := Option.some.inj hstep
    exact h.stop
  | connected i =>
    obtain ⟨hi, rfl⟩ := of_phase hstep
    exact (h.connected hi).setState _ s.retry s.signing
  | data i frames broken =>
    obtain ⟨hi, rfl⟩ := of_phase hstep
    exact h.onData (h.live i (by rw [hi]; rfl)) frames broken
  | error i message =>
    obtain ⟨-, rfl⟩ := of_phase hstep
    exact h.destroy.setError message
  | lost i =>
    obtain ⟨-, rfl⟩ := of_phase hstep
    exact h.destroy
  | closed i =>
    obtain ⟨hi, rfl⟩ := of_phase hstep
    exact h.closed hi horderly
  | signed k result =>
    obtain ⟨x, hk, rfl⟩ := signed_inv hstep
    exact h.signed hk horderly
  | fire k =>
    obtain ⟨hk, rfl⟩ := of_phase hstep
    exact h.fire hk
  | localData l chunk =>
    obtain ⟨id, -, rfl⟩ := Option.map_eq_some_iff.mp hstep
    exact h.send fun _ _ => trivial
  | finished l why =>
    obtain ⟨id, -, rfl⟩ := Option.map_eq_some_iff.mp hstep
    exact h.finish id why

/-- An event of a socket that has been replaced schedules no connect, and changes neither the
streams nor the state of the one that replaced it. -/
def LeavesNewer (s : Tunnel) (a : Action) : Prop :=
  ∀ i s', a.of s = some i → i + 1 < s.sockets.length → step s a = some s' →
    s'.streams = s.streams ∧ s'.timers = s.timers ∧ s'.sockets.length = s.sockets.length ∧
      s'.socket = s.socket ∧ ∀ j, s.socket = some j →
        s'.state = s.state ∧ s'.phaseOf j = s.phaseOf j

theorem leavesNewer (h : Sound s) {a : Action} (horderly : Orderly s a) : LeavesNewer s a := by
  intro i s' hof hreplaced hstep
  have hnotlive : (s.phaseOf i).live = true → False := fun hlive =>
    absurd (h.current i (h.live i hlive)).1 (Nat.ne_of_lt hreplaced)
  cases a with
  | connected i' =>
    obtain rfl := Option.some.inj hof
    obtain ⟨hi, -⟩ := of_phase hstep
    exact (hnotlive (by rw [hi]; rfl)).elim
  | data i' frames broken =>
    obtain rfl := Option.some.inj hof
    obtain ⟨hi, -⟩ := of_phase hstep
    exact (hnotlive (by rw [hi]; rfl)).elim
  | error i' message =>
    obtain rfl := Option.some.inj hof
    exact (hnotlive (of_phase hstep).1).elim
  | lost i' =>
    obtain rfl := Option.some.inj hof
    exact (hnotlive (of_phase hstep).1).elim
  | closed i' =>
    obtain rfl := Option.some.inj hof
    obtain ⟨hi, rfl⟩ := of_phase hstep
    have hs : s.stopped = true := horderly.resolve_left (Nat.ne_of_lt hreplaced)
    have hnone := h.socket_none hs
    have hidle := h.idle hs
    refine ⟨?_, ?_, ?_, ?_, fun j hj => ?_⟩
    · simp [Tunnel.onClose, Tunnel.dropStreams, Tunnel.setPhase, hs, hidle]
    · simp [Tunnel.onClose, Tunnel.dropStreams, Tunnel.setPhase, hs]
    · simp [Tunnel.onClose, Tunnel.dropStreams, Tunnel.setPhase, hs]
    · simp [Tunnel.onClose, Tunnel.dropStreams, Tunnel.setPhase, hs, hnone]
    · rw [hnone] at hj
      cases hj
  | signed k result =>
    obtain ⟨x, hk, rfl⟩ := signed_inv hstep
    have hx : x.socket = i := by
      have hsocket : (s.signing[k]?).map Signing.socket = some i := hof
      rw [hk] at hsocket
      exact Option.some.inj hsocket
    subst hx
    cases result with
    | error error =>
      have hnone : s.socket = none := by
        have hcases : x.socket + 1 = s.sockets.length ∨ s.socket = none := by
          simpa [Orderly, hk] using horderly
        exact hcases.resolve_left (Nat.ne_of_lt hreplaced)
      refine ⟨rfl, rfl, length_setPhase _, rfl, fun j hj => ?_⟩
      rw [hnone] at hj
      cases hj
    | ok signature =>
      have hnone : s.sendable = none := by
        have hcases : x.socket + 1 = s.sockets.length ∨ s.sendable = none := by
          simpa [Orderly, hk] using horderly
        exact hcases.resolve_left (Nat.ne_of_lt hreplaced)
      have hsend : ∀ frame, ({ s with
          signing := s.signing.modify k fun x => { x with pending := false } } : Tunnel).send frame =
          { s with signing := s.signing.modify k fun x => { x with pending := false } } := by
        intro frame
        have hnone' : ({ s with
          signing := s.signing.modify k fun x => { x with pending := false } } : Tunnel).sendable =
            none := hnone
        unfold Tunnel.send
        rw [hnone']
      unfold Tunnel.signed
      dsimp only
      rw [hsend]
      exact ⟨rfl, rfl, rfl, rfl, fun j _ => ⟨rfl, rfl⟩⟩
  | start _ | stop | fire _ | localData _ _ | finished _ _ => cases hof

/-- One socket at most is connected or connecting, and it is the current one; one retry at most
is pending; each HELLO answers its own socket's challenge; and nothing is held once stopped. -/
structure OneTunnel (s : Tunnel) : Prop where
  one : ∀ i, (s.phaseOf i).live = true → s.socket = some i
  retry : ∀ j k : ℕ, s.timers[j]? = some true → s.timers[k]? = some true → j = k
  hello : ∀ i j nodeId owner signature port,
    (j, Frame.hello i nodeId owner signature port) ∈ s.sent → j = i
  stopped : s.stopped = true →
    s.socket = none ∧ (∀ i, (s.phaseOf i).live = false) ∧ s.streams = ∅ ∧
      ∀ k : ℕ, s.timers[k]? ≠ some true

theorem Sound.oneTunnel (h : Sound s) : OneTunnel s := by
  refine ⟨h.live, fun j k hj hk => ?_, fun i j n o g p hmem => h.answers _ hmem, fun hs => ?_⟩
  · have := (h.timer j hj).1
    rw [(h.timer k hk).1] at this
    exact (Option.some.inj this).symm
  · refine ⟨h.socket_none hs, fun i => ?_, h.idle hs, fun k hk => ?_⟩
    · by_contra hlive
      have := h.live i (Bool.not_eq_false _ ▸ hlive)
      rw [h.socket_none hs] at this
      cases this
    · have := (h.timer k hk).2.1
      rw [hs] at this
      cases this

/-- While no socket that has been replaced is closed before a stop, and no signature for one is
sent or fails beside another, there is one tunnel at a time. -/
theorem one_tunnel (options : Options) (as : List Action)
    (horderly : Along step Orderly (.initial options) as) {s : Tunnel}
    (hrun : runs step (.initial options) as = some s) :
    OneTunnel s ∧ Along step LeavesNewer (.initial options) as := by
  constructor
  · exact (runs_invariant (fun t a t' ha ht hstep => sound_step ht ha hstep) horderly hrun
      (sound_initial options)).oneTunnel
  · exact Along.of_invariant (fun t a t' ha ht hstep => ⟨leavesNewer ht ha, sound_step ht ha hstep⟩)
      horderly hrun (sound_initial options)

def someOptions : Options := ⟨"relay", 9443, "desktop-A", "A", 52415⟩

/-- A challenge is answered, the socket is lost, and the next one is stopped. -/
def retriedOnce : List Action :=
  [.start someOptions, .connected 0, .data 0 [.challenge (some ("relay", "n"))] none,
    .signed 0 (.ok "s"), .data 0 [.welcome (some (true, "a:1", none)), .opened 7] none, .lost 0,
    .closed 0, .fire 0, .connected 1, .stop, .closed 1]

theorem one_tunnel_retried : ∃ s, runs step (.initial someOptions) retriedOnce = some s ∧
    OneTunnel s := by
  obtain ⟨s, hrun, -⟩ := runs_exists step (.initial someOptions) retriedOnce (fun _ => true)
    (by decide)
  exact ⟨s, hrun, (one_tunnel someOptions retriedOnce (by decide) hrun).1⟩

/-- Started again, the first socket's close makes a third one beside the second; and a signature
that comes after a retry is sent on the socket of another challenge. -/
theorem two_tunnels :
    (∃ s, runs step (.initial someOptions) [.start someOptions, .connected 0, .start someOptions,
        .connected 1, .closed 0, .fire 0, .connected 2] = some s ∧
      s.sockets.map Socket.phase = [.closed, .connected, .connected]) ∧
    (∃ s, runs step (.initial someOptions) [.start someOptions, .connected 0,
        .data 0 [.challenge (some ("relay", "n"))] none, .lost 0, .closed 0, .fire 0, .connected 1,
        .signed 0 (.ok "s")] = some s ∧
      s.sent = [(1, .hello 0 "desktop-A" "A" "s" 52415)]) := by
  constructor
  · obtain ⟨s, hrun, hs⟩ := runs_exists step (.initial someOptions) [.start someOptions,
      .connected 0, .start someOptions, .connected 1, .closed 0, .fire 0, .connected 2]
      (fun s => s.sockets.map Socket.phase = [.closed, .connected, .connected]) (by decide)
    exact ⟨s, hrun, of_decide_eq_true hs⟩
  · obtain ⟨s, hrun, hs⟩ := runs_exists step (.initial someOptions) [.start someOptions,
      .connected 0, .data 0 [.challenge (some ("relay", "n"))] none, .lost 0, .closed 0, .fire 0,
      .connected 1, .signed 0 (.ok "s")]
      (fun s => s.sent = [(1, .hello 0 "desktop-A" "A" "s" 52415)]) (by decide)
    exact ⟨s, hrun, of_decide_eq_true hs⟩

end KvasirNet.RelayTunnel
