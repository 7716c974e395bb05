import KvasirNet.MoeWire
import Mathlib.Tactic.Ring

/-! The passive observer of a relay: it follows the requests and the responses of a worker's
connection by their framing alone, and records the rows of each request that is answered. -/
namespace KvasirNet.Observer

open Moe

def maxPending : ℕ := 128

/-- A request whose header has been seen; `left` is what is missing of its response. -/
structure Pending where
  rows : ℕ
  started : ℚ
  left : ℕ
  complete : Bool
  deriving DecidableEq, Repr

/-- What `metrics.record` is given. -/
structure Sample where
  rows : ℕ
  latencyMs : ℚ
  deriving DecidableEq, Repr

/-- `header` is the part of the buffer that is used, `current` the last of `pending` while it
is not complete. -/
structure Frames where
  header : Bytes
  started : ℚ
  bodyLeft : ℕ
  pending : List Pending
  disabled : Bool
  samples : List Sample
  deriving DecidableEq, Repr

def Frames.disable (f : Frames) : Frames :=
  { f with
    disabled := true
    pending := [] }

inductive Verdict
  | more
  | refuse
  | frame (rows body response : ℕ)
  deriving DecidableEq, Repr

/-- What the used part of the header says, from its eighth byte on. -/
def verdict (nEmbd count : ℕ) (header : Bytes) : Verdict :=
  let mode := i32Value (header.take 4)
  let rows := i32Value ((header.drop 4).take 4)
  if rows < 1 ∨ 8192 < rows ∨ ¬ ((1 ≤ mode ∧ mode ≤ 64) ∨ mode = -2 ∨ mode = -3) then .refuse
  else if mode < 0 ∧ header.length < 12 then .more
  else
    let pairs := if mode < 0 then i32Value ((header.drop 8).take 4) else mode * rows
    if pairs < 1 ∨ (mode < 0 ∧ 65536 < pairs) ∨ maxPending ≤ count then .refuse
    else
      let width := if mode = -3 then 2 else 4
      .frame rows.toNat
        (nEmbd * rows.toNat * width + if mode < 0 then pairs.toNat * (8 + width) else pairs.toNat * 4)
        (nEmbd * width * if mode < 0 then rows.toNat else pairs.toNat)

/-- The last of the requests has been received whole. -/
def completeLast : List Pending → List Pending
  | [] => []
  | [p] => [{ p with complete := true }]
  | p :: rest => p :: completeLast rest

section
variable (nEmbd : ℕ)

/-- `new ExpertFrames` -/
def Frames.initial : Frames := ⟨[], 0, 0, [], !(1 ≤ nEmbd && nEmbd ≤ 65536), []⟩

/-- One turn of the loop of `request`, with what it leaves of the data. -/
def Frames.pull (f : Frames) (now : ℚ) (data : Bytes) : Frames × Bytes :=
  if 0 < f.bodyLeft then
    let size := min f.bodyLeft data.length
    if f.bodyLeft = size then
      ({ f with
        bodyLeft := 0
        header := []
        pending := completeLast f.pending }, data.drop size)
    else ({ f with bodyLeft := f.bodyLeft - size }, data.drop size)
  else
    let started := if f.header = [] then now else f.started
    let need := if f.header.length < 8 then 8 else 12
    let size := min (need - f.header.length) data.length
    let header := f.header ++ data.take size
    let f := { f with
      header := header
      started := started }
    if header.length < 8 then (f, data.drop size)
    else
      match verdict nEmbd f.pending.length header with
      | .more => (f, data.drop size)
      | .refuse => (f.disable, [])
      | .frame rows body response =>
        ({ f with
          bodyLeft := body
          pending := f.pending ++ [⟨rows, started, response, false⟩] }, data.drop size)

/-- The loop; each turn takes at least a byte. -/
def Frames.requestN : ℕ → Frames → ℚ → Bytes → Frames
  | 0, f, _, _ => f
  | fuel + 1, f, now, data =>
    if data = [] then f
    else requestN fuel (f.pull nEmbd now data).1 now (f.pull nEmbd now data).2

def Frames.request (f : Frames) (now : ℚ) (data : Bytes) : Frames :=
  if f.disabled then f else f.requestN nEmbd data.length now data

/-- The loop of `response` over what is pending. -/
def Frames.respond (f : Frames) (now : ℚ) : ℕ → List Pending → Frames
  | left, [] => if left = 0 then { f with pending := [] } else f.disable
  | left, item :: rest =>
    if left = 0 then { f with pending := item :: rest }
    else if item.complete = false then f.disable
    else if item.left ≤ left then
      respond { f with samples := f.samples ++ [⟨item.rows, max 0 (now - item.started)⟩] } now
        (left - item.left) rest
    else { f with pending := { item with left := item.left - left } :: rest }

def Frames.response (f : Frames) (now : ℚ) (size : ℕ) : Frames :=
  if f.disabled then f else f.respond now size f.pending

/-- What the observer is given, at what time of its clock; of a response it reads the length. -/
inductive Event
  | request (now : ℚ) (data : Bytes)
  | response (now : ℚ) (size : ℕ)
  deriving DecidableEq, Repr

def Frames.see (f : Frames) : Event → Frames
  | .request now data => f.request nEmbd now data
  | .response now size => f.response now size

def observe (es : List Event) : Frames := es.foldl (Frames.see nEmbd) (Frames.initial nEmbd)

end

def Event.asked : Event → Bytes
  | .request _ data => data
  | .response _ _ => []

def Event.told : Event → ℕ
  | .request _ _ => 0
  | .response _ size => size

def asked (es : List Event) : Bytes := es.flatMap Event.asked

def told (es : List Event) : ℕ := (es.map Event.told).sum

/-! ### The requests of a connection -/

structure Accepted (nEmbd : ℕ) (nLocal : ℤ) where
  bytes : Bytes
  held : WorkerReq
  reads : readRequest nEmbd nLocal bytes = .ok (held, [])

namespace Accepted
variable {nEmbd : ℕ} {nLocal : ℤ}

def rows (q : Accepted nEmbd nLocal) : ℕ := q.held.nRows

def replyBytes (q : Accepted nEmbd nLocal) : ℕ := q.held.wire.width * q.held.outWords nEmbd

end Accepted

/-- A header and a body, as the observer takes them. -/
structure Framed (nEmbd : ℕ) (header body : Bytes) (rows response : ℕ) : Prop where
  size : header.length = 8 ∨ header.length = 12
  early : ∀ k, 8 ≤ k → k < header.length → ∀ count, verdict nEmbd count (header.take k) = .more
  whole : ∀ count < maxPending, verdict nEmbd count header = .frame rows body.length response
  body_ne : body ≠ []
  response_pos : 0 < response

/-- A header that the observer refuses by its last byte. -/
structure Refused (nEmbd : ℕ) (header : Bytes) : Prop where
  size : header.length = 8 ∨ header.length = 12
  early : ∀ k, 8 ≤ k → k < header.length → ∀ count, verdict nEmbd count (header.take k) = .more
  whole : ∀ count, verdict nEmbd count header = .refuse

variable {nEmbd : ℕ} {nLocal : ℤ}

variable {rest bs : Bytes}

theorem i32_eq_ok {ε : Type} {short : ε} {x : ℤ}
    (h : Reader.i32 short bs = .ok (x, rest)) : ∃ w, bs = w ++ rest ∧ w.length = 4 ∧ x = i32Value w := by
  obtain ⟨w, mid, htake, hpure⟩ := Reader.bind_eq_ok h
  obtain ⟨rfl, rfl⟩ := Reader.pure_eq_ok hpure
  obtain ⟨hbs, hlen⟩ := Reader.take_eq_ok htake
  exact ⟨w, hbs, hlen, rfl⟩

theorem many_i32_length {n : ℕ} {xs : List ℤ}
    (h : Reader.many (Reader.i32 Drop.short) n bs = .ok (xs, rest)) :
    ∃ w, bs = w ++ rest ∧ w.length = 4 * n := by
  induction n generalizing bs xs with
  | zero =>
    obtain ⟨-, rfl⟩ := Prod.mk.inj (Except.ok.inj h)
    exact ⟨[], rfl, rfl⟩
  | succ n ih =>
    obtain ⟨x, mid, hx, hrest⟩ := Reader.bind_eq_ok h
    obtain ⟨ys, last, hys, hpure⟩ := Reader.bind_eq_ok hrest
    obtain ⟨rfl, -⟩ := Reader.pure_eq_ok hpure
    obtain ⟨w, rfl, hw, -⟩ := i32_eq_ok hx
    obtain ⟨v, rfl, hv⟩ := ih hys
    exact ⟨w ++ v, (List.append_assoc w v last).symm, by rw [List.length_append, hw, hv]; omega⟩

variable {b a : Bytes}

theorem verdict_header (ha : a.length = 4) (hb : b.length = 4) (rest : Bytes) :
    ((a ++ (b ++ rest)).take 4 = a) ∧ (((a ++ (b ++ rest)).drop 4).take 4 = b) ∧
      ((a ++ (b ++ rest)).drop 8 = rest) := by
  refine ⟨?_, ?_, ?_⟩
  · rw [← ha, List.take_left]
  · rw [← ha, List.drop_left, ha, ← hb, List.take_left]
  · rw [show 8 = a.length + b.length by rw [ha, hb], ← List.append_assoc, ← List.length_append,
      List.drop_left]

theorem readDispatch_ok {u v : ℤ} {q : WorkerReq}
    (h : readDispatch nEmbd nLocal u v bs = .ok (q, rest)) :
    (1 ≤ u ∧ u ≤ 64) ∧ (1 ≤ v ∧ v ≤ 8192) ∧ q.wire = .v1 ∧ q.nRows = v.toNat ∧
      q.nPairs = u.toNat * v.toNat ∧
      ∃ body, bs = body ++ rest ∧ body.length = 4 * nEmbd * v.toNat + 4 * (u.toNat * v.toNat) := by
  unfold readDispatch at h
  split_ifs at h with hrange
  · obtain ⟨hu, hv⟩ := Bool.and_eq_true_iff.mp hrange
    obtain ⟨rows, mid, hrows, h⟩ := Reader.bind_eq_ok h
    obtain ⟨sel, last, hsel, h⟩ := Reader.bind_eq_ok h
    split_ifs at h
    · obtain ⟨rfl, rfl⟩ := Reader.pure_eq_ok h
      obtain ⟨hbs, hlen⟩ := Reader.take_eq_ok hrows
      obtain ⟨w, hmid, hw⟩ := many_i32_length hsel
      refine ⟨inRange_iff.mp hu, inRange_iff.mp hv, rfl, rfl, rfl, rows ++ w, ?_, ?_⟩
      · rw [hbs, hmid, List.append_assoc]
      · rw [List.length_append, hlen, hw]
    · cases h
    · cases h
  · cases h

theorem readReduce_ok {wire : Wire} {v : ℤ} {q : WorkerReq}
    (h : readReduce nEmbd nLocal wire v bs = .ok (q, rest)) :
    ∃ word body, bs = word ++ (body ++ rest) ∧ word.length = 4 ∧ (1 ≤ v ∧ v ≤ 8192) ∧
      (1 ≤ i32Value word ∧ i32Value word ≤ 65536) ∧ q.wire = wire ∧ q.nRows = v.toNat ∧
      body.length = wire.width * nEmbd * v.toNat + 4 * (i32Value word).toNat +
        4 * (i32Value word).toNat + wire.width * (i32Value word).toNat := by
  obtain ⟨n, mid, hn, h⟩ := Reader.bind_eq_ok h
  obtain ⟨word, rfl, hword, rfl⟩ := i32_eq_ok hn
  split_ifs at h with hrange
  · obtain ⟨hv, hpairs⟩ := Bool.and_eq_true_iff.mp hrange
    obtain ⟨rows, mid₁, hrows, h⟩ := Reader.bind_eq_ok h
    obtain ⟨rowIdx, mid₂, hidx, h⟩ := Reader.bind_eq_ok h
    obtain ⟨ids, mid₃, hids, h⟩ := Reader.bind_eq_ok h
    obtain ⟨probs, last, hprobs, h⟩ := Reader.bind_eq_ok h
    split_ifs at h
    · obtain ⟨rfl, rfl⟩ := Reader.pure_eq_ok h
      obtain ⟨rfl, hrowsLen⟩ := Reader.take_eq_ok hrows
      obtain ⟨a, rfl, ha⟩ := many_i32_length hidx
      obtain ⟨b, rfl, hb⟩ := many_i32_length hids
      obtain ⟨rfl, hprobsLen⟩ := Reader.take_eq_ok hprobs
      refine ⟨word, rows ++ (a ++ (b ++ probs)), ?_, hword, inRange_iff.mp hv, inRange_iff.mp hpairs,
        rfl, rfl, ?_⟩
      · simp only [List.append_assoc]
      · simp only [List.length_append, hrowsLen, ha, hb, hprobsLen]
        omega
    · cases h
  · cases h

theorem framed_dispatch (hEmbd : 1 ≤ nEmbd) {body : Bytes} (ha : a.length = 4)
    (hb : b.length = 4) (hu : 1 ≤ i32Value a ∧ i32Value a ≤ 64)
    (hv : 1 ≤ i32Value b ∧ i32Value b ≤ 8192)
    (hbody : body.length = 4 * nEmbd * (i32Value b).toNat +
      4 * ((i32Value a).toNat * (i32Value b).toNat)) :
    Framed nEmbd (a ++ b) body (i32Value b).toNat
      (4 * (nEmbd * ((i32Value a).toNat * (i32Value b).toNat))) where
  size := .inl (by rw [List.length_append, ha, hb])
  early k hk hlt := by
    rw [List.length_append, ha, hb] at hlt
    omega
  whole count hcount := by
    obtain ⟨hmode, hrows, -⟩ := verdict_header ha hb []
    rw [List.append_nil] at hmode hrows
    have hmul : (i32Value a * i32Value b).toNat = (i32Value a).toNat * (i32Value b).toNat :=
      Int.toNat_mul (by omega) (by omega)
    have hpos : 1 ≤ i32Value a * i32Value b := Int.mul_pos (by omega) (by omega)
    unfold verdict
    simp only [hmode, hrows]
    rw [if_neg (by omega), if_neg (by omega), if_neg (by omega), if_neg (by omega),
      if_neg (by omega), if_neg (by omega), if_neg (by omega), hmul, hbody]
    congr 1
    · ring
    · ring
  body_ne h := by
    rw [h, List.length_nil] at hbody
    have := Nat.mul_pos (Nat.mul_pos (by omega : 0 < 4) hEmbd) (by omega : 0 < (i32Value b).toNat)
    omega
  response_pos := by
    apply Nat.mul_pos (by omega)
    apply Nat.mul_pos hEmbd
    apply Nat.mul_pos (by omega) (by omega)

theorem verdict_early {word : Bytes} (ha : a.length = 4) (hb : b.length = 4)
    (hword : word.length = 4) (hmodes : i32Value a = -2 ∨ i32Value a = -3)
    (hv : 1 ≤ i32Value b ∧ i32Value b ≤ 8192) {k : ℕ} (hk : 8 ≤ k) (hlt : k < 12) (count : ℕ) :
    verdict nEmbd count ((a ++ (b ++ word)).take k) = .more := by
  have hcut : (a ++ (b ++ word)).take k = a ++ (b ++ word.take (k - 8)) := by
    rw [List.take_append, List.take_append, ha, hb, List.take_of_length_le (by omega),
      List.take_of_length_le (by omega), Nat.sub_sub]
  obtain ⟨hmode, hrows, -⟩ := verdict_header ha hb (word.take (k - 8))
  have hshort : (a ++ (b ++ word.take (k - 8))).length < 12 := by
    rw [List.length_append, List.length_append, List.length_take, ha, hb, hword]
    omega
  unfold verdict
  rw [hcut]
  simp only [hmode, hrows]
  rw [if_neg (by omega), if_pos ⟨by omega, hshort⟩]

theorem framed_reduce (hEmbd : 1 ≤ nEmbd) {wire : Wire} {word body : Bytes} (ha : a.length = 4)
    (hb : b.length = 4) (hword : word.length = 4)
    (hwire : (wire = .v2 ∧ i32Value a = -2) ∨ (wire = .v2f16 ∧ i32Value a = -3))
    (hv : 1 ≤ i32Value b ∧ i32Value b ≤ 8192) (hn : 1 ≤ i32Value word ∧ i32Value word ≤ 65536)
    (hbody : body.length = wire.width * nEmbd * (i32Value b).toNat + 4 * (i32Value word).toNat +
      4 * (i32Value word).toNat + wire.width * (i32Value word).toNat) :
    Framed nEmbd (a ++ (b ++ word)) body (i32Value b).toNat
      (wire.width * (nEmbd * (i32Value b).toNat)) := by
  have hmodes : i32Value a = -2 ∨ i32Value a = -3 := hwire.imp And.right And.right
  have hwidth : (if i32Value a = -3 then 2 else 4) = wire.width := by
    rcases hwire with ⟨rfl, hm⟩ | ⟨rfl, hm⟩
    · rw [hm]
      rfl
    · rw [hm]
      rfl
  have hpos : 1 ≤ wire.width := by
    cases wire with
    | v1 | v2 | v2f16 => decide
  have hlen : (a ++ (b ++ word)).length = 12 := by
    rw [List.length_append, List.length_append, ha, hb, hword]
  refine ⟨.inr hlen, ?_, ?_, ?_, ?_⟩
  · intro k hk hlt count
    rw [hlen] at hlt
    exact verdict_early ha hb hword hmodes hv hk hlt count
  · intro count hcount
    obtain ⟨hmode, hrows, hrest⟩ := verdict_header ha hb word
    have hpairs : i32Value (((a ++ (b ++ word)).drop 8).take 4) = i32Value word := by
      rw [hrest, List.take_of_length_le hword.le]
    have hneg : i32Value a < 0 := by omega
    unfold verdict
    simp only [hmode, hrows, hpairs, hwidth, if_pos hneg]
    rw [if_neg (by omega), if_neg (by omega), if_neg (by omega), hbody]
    congr 1
    · ring
    · ring
  · intro h
    rw [h, List.length_nil] at hbody
    omega
  · apply Nat.mul_pos hpos
    apply Nat.mul_pos hEmbd
    omega

theorem framed_of_accepted (hEmbd : 1 ≤ nEmbd) (q : Accepted nEmbd nLocal) :
    ∃ header body, q.bytes = header ++ body ∧ Framed nEmbd header body q.rows q.replyBytes := by
  obtain ⟨first, mid, hfirst, h⟩ := Reader.bind_eq_ok q.reads
  obtain ⟨second, rest, hsecond, h⟩ := Reader.bind_eq_ok h
  obtain ⟨a, hbytes, ha, rfl⟩ := i32_eq_ok hfirst
  obtain ⟨b, rfl, hb, rfl⟩ := i32_eq_ok hsecond
  have hreduce : ∀ wire, (wire = Wire.v2 ∧ i32Value a = -2) ∨ (wire = .v2f16 ∧ i32Value a = -3) →
      readReduce nEmbd nLocal wire (i32Value b) rest = .ok (q.held, []) →
      ∃ header body, q.bytes = header ++ body ∧ Framed nEmbd header body q.rows q.replyBytes := by
    intro wire hwire h
    obtain ⟨word, body, rfl, hword, hv, hn, hw, hrows, hbody⟩ := readReduce_ok h
    refine ⟨a ++ (b ++ word), body, ?_, ?_⟩
    · rw [hbytes, List.append_nil]
      simp only [List.append_assoc]
    · have hframed := framed_reduce hEmbd ha hb hword hwire hv hn hbody
      have hreply : q.replyBytes = wire.width * (nEmbd * (i32Value b).toNat) := by
        unfold Accepted.replyBytes WorkerReq.outWords
        rw [hw, hrows]
        rcases hwire with ⟨rfl, -⟩ | ⟨rfl, -⟩
        · rfl
        · rfl
      rw [Accepted.rows, hrows, hreply]
      exact hframed
  split_ifs at h with h3 h2
  · exact hreduce .v2f16 (.inr ⟨rfl, h3⟩) h
  · exact hreduce .v2 (.inl ⟨rfl, h2⟩) h
  · obtain ⟨hu, hv, hw, hrows, hpairs, body, rfl, hbody⟩ := readDispatch_ok h
    refine ⟨a ++ b, body, ?_, ?_⟩
    · rw [hbytes, List.append_nil, List.append_assoc]
    · have hreply : q.replyBytes = 4 * (nEmbd * ((i32Value a).toNat * (i32Value b).toNat)) := by
        unfold Accepted.replyBytes WorkerReq.outWords
        rw [hw, hpairs]
        rfl
      rw [Accepted.rows, hrows, hreply]
      exact framed_dispatch hEmbd ha hb hu hv hbody

/-! ### Headers that are refused -/

variable {α : Type}

theorem bind_eq_error {ε β : Type} {r : Reader ε α} {f : α → Reader ε β} {e : ε}
    (h : (r >>= f) bs = .error e) :
    r bs = .error e ∨ ∃ a mid, r bs = .ok (a, mid) ∧ f a mid = .error e := by
  simp only [bind, StateT.bind, Except.bind] at h
  split at h
  next e' heq => exact .inl (heq.trans (congrArg _ (Except.error.inj h)))
  next x heq => exact .inr ⟨x.1, x.2, heq, h⟩

def OnlyShort {α : Type} (r : Reader Drop α) : Prop := ∀ bs e, r bs = .error e → e = .short

theorem onlyShort_take (n : ℕ) : OnlyShort (Reader.take Drop.short n) := by
  intro bs e h
  unfold Reader.take at h
  split_ifs at h
  exact (Except.error.inj h).symm

theorem onlyShort_i32 : OnlyShort (Reader.i32 Drop.short) := by
  intro bs e h
  rcases bind_eq_error h with h | ⟨a, mid, -, h⟩
  · exact onlyShort_take 4 bs e h
  · cases h

theorem onlyShort_many (n : ℕ) : OnlyShort (Reader.many (Reader.i32 Drop.short) n) := by
  induction n with
  | zero =>
    intro bs e h
    cases h
  | succ n ih =>
    intro bs e h
    rcases bind_eq_error h with h | ⟨x, mid, -, h⟩
    · exact onlyShort_i32 bs e h
    · rcases bind_eq_error h with h | ⟨xs, rest, -, h⟩
      · exact ih mid e h
      · cases h

theorem onlyShort_bind {β : Type} {r : Reader Drop α} {f : α → Reader Drop β}
    (hr : OnlyShort r) (h : (r >>= f) bs = .error .caps) : ∃ a mid, f a mid = .error .caps := by
  rcases bind_eq_error h with h | ⟨a, mid, -, h⟩
  · cases hr bs _ h
  · exact ⟨a, mid, h⟩

theorem readDispatch_caps {u v : ℤ} (h : readDispatch nEmbd nLocal u v bs = .error .caps) :
    ¬ ((1 ≤ u ∧ u ≤ 64) ∧ (1 ≤ v ∧ v ≤ 8192)) := by
  intro hin
  unfold readDispatch at h
  have hrange : (inRange u 1 maxReqExperts && inRange v 1 maxReqTokens) = true :=
    Bool.and_eq_true_iff.mpr ⟨inRange_iff.mpr hin.1, inRange_iff.mpr hin.2⟩
  rw [if_pos hrange] at h
  obtain ⟨rows, mid, h⟩ := onlyShort_bind (onlyShort_take _) h
  obtain ⟨sel, rest, h⟩ := onlyShort_bind (onlyShort_many _) h
  split_ifs at h <;> cases h

theorem readReduce_caps {wire : Wire} {v : ℤ}
    (h : readReduce nEmbd nLocal wire v bs = .error .caps) :
    ∃ word rest, bs = word ++ rest ∧ word.length = 4 ∧
      ¬ ((1 ≤ v ∧ v ≤ 8192) ∧ (1 ≤ i32Value word ∧ i32Value word ≤ 65536)) := by
  unfold readReduce at h
  rcases bind_eq_error h with h | ⟨n, rest, hn, h⟩
  · cases onlyShort_i32 bs _ h
  · obtain ⟨word, hbs, hword, rfl⟩ := i32_eq_ok hn
    refine ⟨word, rest, hbs, hword, fun hin => ?_⟩
    have hrange : (inRange v 1 maxReqRows && inRange (i32Value word) 1 maxReqPairs) = true :=
      Bool.and_eq_true_iff.mpr ⟨inRange_iff.mpr hin.1, inRange_iff.mpr hin.2⟩
    rw [if_pos hrange] at h
    obtain ⟨rows, mid₁, h⟩ := onlyShort_bind (onlyShort_take _) h
    obtain ⟨rowIdx, mid₂, h⟩ := onlyShort_bind (onlyShort_many _) h
    obtain ⟨ids, mid₃, h⟩ := onlyShort_bind (onlyShort_many _) h
    obtain ⟨probs, mid₄, h⟩ := onlyShort_bind (onlyShort_take _) h
    split_ifs at h <;> cases h

theorem refused_eight (ha : a.length = 4) (hb : b.length = 4)
    (hno : i32Value b < 1 ∨ 8192 < i32Value b ∨
      ¬ ((1 ≤ i32Value a ∧ i32Value a ≤ 64) ∨ i32Value a = -2 ∨ i32Value a = -3)) :
    Refused nEmbd (a ++ b) where
  size := .inl (by rw [List.length_append, ha, hb])
  early k hk hlt := by
    rw [List.length_append, ha, hb] at hlt
    omega
  whole count := by
    obtain ⟨hmode, hrows, -⟩ := verdict_header ha hb []
    rw [List.append_nil] at hmode hrows
    unfold verdict
    simp only [hmode, hrows]
    rw [if_pos hno]

theorem refused_twelve {word : Bytes} (ha : a.length = 4) (hb : b.length = 4)
    (hword : word.length = 4) (hmodes : i32Value a = -2 ∨ i32Value a = -3)
    (hv : 1 ≤ i32Value b ∧ i32Value b ≤ 8192)
    (hno : ¬ (1 ≤ i32Value word ∧ i32Value word ≤ 65536)) : Refused nEmbd (a ++ (b ++ word)) := by
  have hlen : (a ++ (b ++ word)).length = 12 := by
    rw [List.length_append, List.length_append, ha, hb, hword]
  refine ⟨.inr hlen, fun k hk hlt count => ?_, fun count => ?_⟩
  · rw [hlen] at hlt
    exact verdict_early ha hb hword hmodes hv hk hlt count
  · obtain ⟨hmode, hrows, hrest⟩ := verdict_header ha hb word
    have hpairs : i32Value (((a ++ (b ++ word)).drop 8).take 4) = i32Value word := by
      rw [hrest, List.take_of_length_le hword.le]
    have hneg : i32Value a < 0 := by omega
    unfold verdict
    simp only [hmode, hrows, hpairs, if_pos hneg]
    rw [if_neg (by omega), if_neg (by omega), if_pos (by omega)]

variable {tail : Bytes}

theorem refused_of_caps (h : readRequest nEmbd nLocal tail = .error .caps) :
    ∃ header junk, tail = header ++ junk ∧ Refused nEmbd header := by
  unfold readRequest at h
  rcases bind_eq_error h with h | ⟨first, mid, hfirst, h⟩
  · cases onlyShort_i32 tail _ h
  · rcases bind_eq_error h with h | ⟨second, rest, hsecond, h⟩
    · cases onlyShort_i32 mid _ h
    · obtain ⟨a, rfl, ha, rfl⟩ := i32_eq_ok hfirst
      obtain ⟨b, rfl, hb, rfl⟩ := i32_eq_ok hsecond
      have hreduce : ∀ wire, (i32Value a = -2 ∨ i32Value a = -3) →
          readReduce nEmbd nLocal wire (i32Value b) rest = .error .caps →
          ∃ header junk, a ++ (b ++ rest) = header ++ junk ∧ Refused nEmbd header := by
        intro wire hmodes h
        obtain ⟨word, junk, rfl, hword, hno⟩ := readReduce_caps h
        by_cases hv : 1 ≤ i32Value b ∧ i32Value b ≤ 8192
        · exact ⟨a ++ (b ++ word), junk, by simp only [List.append_assoc],
            refused_twelve ha hb hword hmodes hv fun hn => hno ⟨hv, hn⟩⟩
        · exact ⟨a ++ b, word ++ junk, by simp only [List.append_assoc],
            refused_eight ha hb (by omega)⟩
      split_ifs at h with h3 h2
      · exact hreduce .v2f16 (.inr h3) h
      · exact hreduce .v2 (.inl h2) h
      · have hno := readDispatch_caps h
        exact ⟨a ++ b, rest, (List.append_assoc a b rest).symm, refused_eight ha hb (by omega)⟩

/-! ### The loop of the worker -/

/-- What is read does not depend on what comes after it. -/
def Grows {α : Type} (r : Reader Drop α) : Prop :=
  ∀ bs a mid, r bs = .ok (a, mid) → ∀ x, r (bs ++ x) = .ok (a, mid ++ x)

theorem grows_pure (a : α) : Grows (pure a : Reader Drop α) := by
  intro bs b mid h x
  obtain ⟨rfl, rfl⟩ := Reader.pure_eq_ok h
  rfl

theorem grows_throw (e : Drop) : Grows (throw e : Reader Drop α) := by
  intro bs b mid h
  cases h

theorem grows_take (n : ℕ) : Grows (Reader.take Drop.short n) := by
  intro bs a mid h x
  obtain ⟨rfl, rfl⟩ := Reader.take_eq_ok h
  rw [List.append_assoc]
  exact Reader.take_append _ a (mid ++ x)

theorem Grows.bind {β : Type} {r : Reader Drop α} {f : α → Reader Drop β} (hr : Grows r)
    (hf : ∀ a, Grows (f a)) : Grows (r >>= f) := by
  intro bs b rest h x
  obtain ⟨a, mid, ha, hb⟩ := Reader.bind_eq_ok h
  rw [Reader.bind_of_ok (hr bs a mid ha x)]
  exact hf a mid b rest hb x

theorem grows_i32 : Grows (Reader.i32 Drop.short) := (grows_take 4).bind fun _ => grows_pure _

theorem grows_many (n : ℕ) : Grows (Reader.many (Reader.i32 Drop.short) n) := by
  induction n with
  | zero => exact grows_pure []
  | succ n ih => exact grows_i32.bind fun a => ih.bind fun rest => grows_pure _

theorem grows_ite {c : Prop} [Decidable c] {r s : Reader Drop α} (hr : Grows r)
    (hs : Grows s) : Grows (if c then r else s) := by
  split_ifs
  · exact hr
  · exact hs

theorem grows_readRequest : Grows (readRequest nEmbd nLocal) := by
  have hreduce : ∀ wire v, Grows (readReduce nEmbd nLocal wire v) := by
    intro wire v
    refine grows_i32.bind fun n => grows_ite ?_ (grows_throw _)
    refine (grows_take _).bind fun rows => (grows_many _).bind fun rowIdx =>
      (grows_many _).bind fun ids => (grows_take _).bind fun probs => ?_
    exact grows_ite (grows_pure _) (grows_throw _)
  have hdispatch : ∀ u v, Grows (readDispatch nEmbd nLocal u v) := by
    intro u v
    refine grows_ite ((grows_take _).bind fun rows => (grows_many _).bind fun sel => ?_)
      (grows_throw _)
    exact grows_ite (grows_ite (grows_pure _) (grows_throw _)) (grows_throw _)
  refine grows_i32.bind fun first => grows_i32.bind fun second => ?_
  exact grows_ite (hreduce _ _) (grows_ite (hreduce _ _) (hdispatch _ _))

theorem handleConn_accepted (compute : WorkerReq → ℕ → ℕ) (reqs : List (Accepted nEmbd nLocal))
    {e : Drop} (htail : readRequest nEmbd nLocal tail = .error e) :
    handleConn nEmbd nLocal (fun q => some (compute q)) (reqs.length + 1)
        (reqs.flatMap Accepted.bytes ++ tail) =
      (reqs.map Accepted.held, reqs.flatMap fun q => q.held.reply nEmbd (compute q.held), tail) := by
  induction reqs with
  | nil =>
    rw [List.flatMap_nil, List.nil_append, handleConn, htail]
    rfl
  | cons q reqs ih =>
    have hread := grows_readRequest q.bytes q.held [] q.reads (reqs.flatMap Accepted.bytes ++ tail)
    rw [List.flatMap_cons, List.append_assoc, List.length_cons, handleConn, hread]
    dsimp only
    rw [List.nil_append, ih]
    rfl

theorem length_replies (compute : WorkerReq → ℕ → ℕ) (reqs : List (Accepted nEmbd nLocal)) :
    (reqs.flatMap fun q => q.held.reply nEmbd (compute q.held)).length =
      (reqs.map Accepted.replyBytes).sum := by
  rw [List.length_flatMap]
  exact congrArg _ (List.map_congr_left fun q _ => length_reply q.held _)

/-! ### The observer within a stream -/

/-- Where the observer is in the stream: `T` has not come whole, `ps` has, and `rest` is still
to come. -/
inductive Mid (nEmbd : ℕ) (nLocal : ℤ) (tail : Bytes) :
    List (Accepted nEmbd nLocal) → List Pending → Bytes → Frames → Prop
  | header {q : Accepted nEmbd nLocal} {T : List (Accepted nEmbd nLocal)} {f : Frames} {h body : Bytes}
      (bytes : q.bytes = f.header ++ (h ++ body))
      (framed : Framed nEmbd (f.header ++ h) body q.rows q.replyBytes) (ne : h ≠ [])
      (left : f.bodyLeft = 0) :
      Mid nEmbd nLocal tail (q :: T) f.pending (h ++ (body ++ (T.flatMap Accepted.bytes ++ tail))) f
  | body {q : Accepted nEmbd nLocal} {T : List (Accepted nEmbd nLocal)} {f : Frames} {b : Bytes}
      {ps : List Pending} {started : ℚ} (left : f.bodyLeft = b.length) (ne : b ≠ [])
      (short : b.length ≤ q.bytes.length)
      (pending : f.pending = ps ++ [⟨q.rows, started, q.replyBytes, false⟩]) :
      Mid nEmbd nLocal tail (q :: T) ps (b ++ (T.flatMap Accepted.bytes ++ tail)) f
  | idle {f : Frames} (none : tail = []) (header : f.header = []) (left : f.bodyLeft = 0) :
      Mid nEmbd nLocal tail [] f.pending [] f
  | refusing {f : Frames} {h junk : Bytes} (bytes : tail = f.header ++ (h ++ junk))
      (refused : Refused nEmbd (f.header ++ h)) (ne : h ≠ []) (left : f.bodyLeft = 0) :
      Mid nEmbd nLocal tail [] f.pending (h ++ junk) f

/-- What ends a stream: nothing, or a header that is refused. -/
def Ends (nEmbd : ℕ) (tail : Bytes) : Prop :=
  tail = [] ∨ ∃ header junk, tail = header ++ junk ∧ Refused nEmbd header

theorem Refused.ne {header : Bytes} (h : Refused nEmbd header) : header ≠ [] := by
  rintro rfl
  rcases h.size with h | h
  · cases h
  · cases h

theorem Framed.ne {header body : Bytes} {rows response : ℕ}
    (h : Framed nEmbd header body rows response) : header ≠ [] := by
  rintro rfl
  rcases h.size with h | h
  · cases h
  · cases h

variable {f : Frames}

theorem mid_between (hEmbd : 1 ≤ nEmbd) (htail : Ends nEmbd tail)
    (T : List (Accepted nEmbd nLocal)) (hheader : f.header = []) (hleft : f.bodyLeft = 0) :
    Mid nEmbd nLocal tail T f.pending (T.flatMap Accepted.bytes ++ tail) f := by
  cases T with
  | nil =>
    rcases htail with rfl | ⟨header, junk, rfl, hrefused⟩
    · exact .idle rfl hheader hleft
    · rw [List.flatMap_nil, List.nil_append]
      refine .refusing ?_ ?_ hrefused.ne hleft
      · rw [hheader, List.nil_append]
      · rw [hheader, List.nil_append]
        exact hrefused
  | cons q T =>
    obtain ⟨header, body, hbytes, hframed⟩ := framed_of_accepted hEmbd q
    rw [List.flatMap_cons, hbytes, List.append_assoc, List.append_assoc]
    refine .header ?_ ?_ hframed.ne hleft
    · rw [hheader, List.nil_append, hbytes]
    · rw [hheader, List.nil_append]
      exact hframed

variable {data more : Bytes}

theorem cut_both {xs ys : Bytes} (h : data ++ more = xs ++ ys) {n : ℕ}
    (hdata : n ≤ data.length) (hxs : n ≤ xs.length) :
    data.take n = xs.take n ∧ data.drop n ++ more = xs.drop n ++ ys := by
  constructor
  · have htake : (data ++ more).take n = data.take n := List.take_append_of_le_length hdata
    rw [← htake, h, List.take_append_of_le_length hxs]
  · rw [← List.drop_append_of_le_length hdata, h, List.drop_append_of_le_length hxs]

theorem pull_header {now : ℚ} {h : Bytes}
    (hsize : (f.header ++ h).length = 8 ∨ (f.header ++ h).length = 12) (hh : h ≠ [])
    (hleft : f.bodyLeft = 0) (hdata : data ++ more = h ++ rest) (hne : data ≠ []) :
    ∃ h₁ h₂ data' started, h = h₁ ++ h₂ ∧ data'.length < data.length ∧ data' ++ more = h₂ ++ rest ∧
      ((f.header ++ h₁).length < 8 →
        f.pull nEmbd now data = ({ f with
          header := f.header ++ h₁
          started := started }, data')) ∧
      (8 ≤ (f.header ++ h₁).length → f.pull nEmbd now data =
        match verdict nEmbd f.pending.length (f.header ++ h₁) with
        | .more => ({ f with
          header := f.header ++ h₁
          started := started }, data')
        | .refuse => (Frames.disable { f with
          header := f.header ++ h₁
          started := started }, [])
        | .frame rows body response => ({ f with
          header := f.header ++ h₁
          started := started
          bodyLeft := body
          pending := f.pending ++ [⟨rows, started, response, false⟩] }, data')) := by
  have hhpos : 0 < h.length := List.length_pos_iff.mpr hh
  have hdpos : 0 < data.length := List.length_pos_iff.mpr hne
  rw [List.length_append] at hsize
  set size := min ((if f.header.length < 8 then 8 else 12) - f.header.length) data.length with hn
  have hle : size ≤ h.length := by
    rw [hn]
    split_ifs <;> omega
  have hpos : 0 < size := by
    rw [hn]
    split_ifs <;> omega
  obtain ⟨htake, hdrop⟩ := cut_both hdata (Nat.min_le_right _ _ : size ≤ data.length) hle
  refine ⟨h.take size, h.drop size, data.drop size, if f.header = [] then now else f.started,
    (List.take_append_drop size h).symm, ?_, hdrop, fun hshort => ?_, fun hlong => ?_⟩
  · rw [List.length_drop]
    omega
  · unfold Frames.pull
    rw [if_neg (by omega)]
    dsimp only
    rw [← hn, htake, if_pos hshort]
  · unfold Frames.pull
    rw [if_neg (by omega)]
    dsimp only
    rw [← hn, htake, if_neg (Nat.not_lt.mpr hlong)]

theorem pull_body {now : ℚ} (hb : b ≠ [])
    (hleft : f.bodyLeft = b.length) (hdata : data ++ more = b ++ rest) (hne : data ≠ []) :
    (∃ data', data'.length < data.length ∧ data' ++ more = rest ∧
      f.pull nEmbd now data = ({ f with
        bodyLeft := 0
        header := []
        pending := completeLast f.pending }, data')) ∨
    ∃ b₂, b₂ ≠ [] ∧ b₂.length < b.length ∧ more = b₂ ++ rest ∧
      f.pull nEmbd now data = ({ f with bodyLeft := b₂.length }, []) := by
  have hbpos : 0 < b.length := List.length_pos_iff.mpr hb
  have hdpos : 0 < data.length := List.length_pos_iff.mpr hne
  by_cases hall : b.length ≤ data.length
  · obtain ⟨-, hdrop⟩ := cut_both hdata hall (Nat.le_refl _)
    rw [List.drop_length, List.nil_append] at hdrop
    refine .inl ⟨data.drop b.length, ?_, hdrop, ?_⟩
    · rw [List.length_drop]
      omega
    · unfold Frames.pull
      rw [if_pos (by omega)]
      dsimp only
      rw [hleft, Nat.min_eq_left hall, if_pos rfl]
  · have hlt : data.length < b.length := Nat.lt_of_not_le hall
    obtain ⟨-, hdrop⟩ := cut_both hdata (Nat.le_refl _) hlt.le
    rw [List.drop_length, List.nil_append] at hdrop
    refine .inr ⟨b.drop data.length, ?_, ?_, hdrop, ?_⟩
    · apply List.length_pos_iff.mp
      rw [List.length_drop]
      omega
    · rw [List.length_drop]
      omega
    · unfold Frames.pull
      rw [if_pos (by omega)]
      dsimp only
      rw [hleft, Nat.min_eq_right hlt.le, if_neg (by omega), List.drop_length, List.length_drop]

theorem completeLast_concat (ps : List Pending) (p : Pending) :
    completeLast (ps ++ [p]) = ps ++ [{ p with complete := true }] := by
  induction ps with
  | nil => rfl
  | cons q ps ih =>
    cases ps with
    | nil => rfl
    | cons r ps => exact congrArg _ ih

inductive Pulled (nEmbd : ℕ) (nLocal : ℤ) (tail : Bytes) (T : List (Accepted nEmbd nLocal))
    (ps : List Pending) (f : Frames) (data more : Bytes) : Frames × Bytes → Prop
  | goes {g : Frames} {data' : Bytes} (samples : g.samples = f.samples) (on : g.disabled = false)
      (shorter : data'.length < data.length) (mid : Mid nEmbd nLocal tail T ps (data' ++ more) g) :
      Pulled nEmbd nLocal tail T ps f data more (g, data')
  | completes {q : Accepted nEmbd nLocal} {T' : List (Accepted nEmbd nLocal)} {g : Frames}
      {data' : Bytes} {started : ℚ} (first : T = q :: T') (samples : g.samples = f.samples)
      (on : g.disabled = false) (shorter : data'.length < data.length)
      (mid : Mid nEmbd nLocal tail T' (ps ++ [⟨q.rows, started, q.replyBytes, true⟩])
        (data' ++ more) g) : Pulled nEmbd nLocal tail T ps f data more (g, data')
  | refuses {g : Frames} (none : T = []) (samples : g.samples = f.samples)
      (off : g.disabled = true) : Pulled nEmbd nLocal tail T ps f data more (g, [])

variable {T : List (Accepted nEmbd nLocal)} {ps : List Pending}

theorem pulled_mid (hEmbd : 1 ≤ nEmbd) (htail : Ends nEmbd tail)
   
    (h : Mid nEmbd nLocal tail T ps rest f) (hon : f.disabled = false)
    (hdata : data ++ more = rest) (hne : data ≠ []) (hroom : T ≠ [] → ps.length < maxPending)
    (now : ℚ) : Pulled nEmbd nLocal tail T ps f data more (f.pull nEmbd now data) := by
  cases h with
  | @header q T f h body hbytes hframed hh hleft =>
    obtain ⟨h₁, h₂, data', started, rfl, hshorter, hrest, hshort, hlong⟩ :=
      @pull_header nEmbd _ f _ _ now _ hframed.size hh hleft hdata hne
    rw [← List.append_assoc f.header] at hframed
    have hsize := hframed.size
    have hstill : h₂ ≠ [] → Mid nEmbd nLocal tail (q :: T) f.pending (data' ++ more) { f with
        header := f.header ++ h₁
        started := started } := by
      intro hh₂
      rw [hrest]
      refine .header (f := { f with
        header := f.header ++ h₁
        started := started }) ?_ hframed hh₂ hleft
      rw [hbytes]
      simp only [List.append_assoc]
    by_cases hlen : (f.header ++ h₁).length < 8
    · rw [hshort hlen]
      refine .goes rfl hon hshorter (hstill ?_)
      rintro rfl
      rw [List.append_nil] at hsize
      omega
    · rw [hlong (Nat.le_of_not_lt hlen)]
      by_cases hh₂ : h₂ = []
      · subst hh₂
        rw [List.append_nil] at hframed
        rw [hframed.whole _ (hroom (List.cons_ne_nil q T))]
        refine .goes rfl hon hshorter ?_
        rw [hrest, List.nil_append]
        refine @Mid.body _ _ _ _ _ _ _ _ started rfl hframed.body_ne ?_ rfl
        rw [hbytes]
        simp only [List.length_append]
        omega
      · have hearly := hframed.early _ (Nat.le_of_not_lt hlen) (by
          rw [@List.length_append _ _ h₂]
          exact Nat.lt_add_of_pos_right (List.length_pos_iff.mpr hh₂)) f.pending.length
        rw [List.take_left] at hearly
        rw [hearly]
        exact .goes rfl hon hshorter (hstill hh₂)
  | @body q T f b ps started hleft hb hshort hpending =>
    rcases @pull_body nEmbd _ _ f _ _ now hb hleft hdata hne with
      ⟨data', hshorter, hrest, hpull⟩ | ⟨b₂, hb₂, hlt, hrest, hpull⟩
    · rw [hpull]
      have hlast : completeLast f.pending = ps ++ [⟨q.rows, started, q.replyBytes, true⟩] := by
        rw [hpending, completeLast_concat]
      refine @Pulled.completes _ _ _ _ _ _ _ _ q T _ _ started rfl rfl hon hshorter ?_
      rw [hrest, ← hlast]
      exact mid_between hEmbd htail T (f := { f with
        bodyLeft := 0
        header := []
        pending := completeLast f.pending }) rfl rfl
    · rw [hpull]
      refine .goes rfl hon (List.length_pos_iff.mpr hne) ?_
      rw [List.nil_append, hrest]
      exact .body rfl hb₂ (hlt.le.trans hshort) hpending
  | @idle f hnone hheader hleft => exact absurd (List.append_eq_nil_iff.mp hdata).1 hne
  | @refusing f h junk hbytes hrefused hh hleft =>
    obtain ⟨h₁, h₂, data', started, rfl, hshorter, hrest, hshort, hlong⟩ :=
      @pull_header nEmbd _ f _ _ now _ hrefused.size hh hleft hdata hne
    rw [← List.append_assoc f.header] at hrefused
    have hsize := hrefused.size
    have hstill : h₂ ≠ [] → Mid nEmbd nLocal tail [] f.pending (data' ++ more) { f with
        header := f.header ++ h₁
        started := started } := by
      intro hh₂
      rw [hrest]
      refine .refusing (f := { f with
        header := f.header ++ h₁
        started := started }) ?_ hrefused hh₂ hleft
      rw [hbytes]
      simp only [List.append_assoc]
    by_cases hlen : (f.header ++ h₁).length < 8
    · rw [hshort hlen]
      refine .goes rfl hon hshorter (hstill ?_)
      rintro rfl
      rw [List.append_nil] at hsize
      omega
    · rw [hlong (Nat.le_of_not_lt hlen)]
      by_cases hh₂ : h₂ = []
      · subst hh₂
        rw [List.append_nil] at hrefused
        rw [hrefused.whole]
        exact .refuses rfl rfl rfl
      · have hearly := hrefused.early _ (Nat.le_of_not_lt hlen) (by
          rw [@List.length_append _ _ h₂]
          exact Nat.lt_add_of_pos_right (List.length_pos_iff.mpr hh₂)) f.pending.length
        rw [List.take_left] at hearly
        rw [hearly]
        exact .goes rfl hon hshorter (hstill hh₂)

/-- A request that waits for its whole response. -/
def Owed (q : Accepted nEmbd nLocal) (p : Pending) : Prop :=
  p.rows = q.rows ∧ p.left = q.replyBytes ∧ p.complete = true

/-- There is room for each request that the data reaches. -/
def Room (tail : Bytes) (T : List (Accepted nEmbd nLocal)) (waiting : ℕ) (more : Bytes) : Prop :=
  ∀ D q T', T = D ++ q :: T' → more.length < ((q :: T').flatMap Accepted.bytes ++ tail).length →
    waiting + D.length < maxPending

theorem Mid.length_le
    (h : Mid nEmbd nLocal tail T ps rest f) :
    rest.length ≤ (T.flatMap Accepted.bytes ++ tail).length := by
  cases h with
  | header hbytes =>
    simp only [List.flatMap_cons, hbytes, List.length_append]
    omega
  | body hleft hne hshort =>
    simp only [List.flatMap_cons, List.length_append] at hshort ⊢
    omega
  | idle => exact Nat.zero_le _
  | refusing hbytes =>
    simp only [hbytes, List.length_append, List.flatMap_nil, List.length_nil]
    omega

theorem requestN_mid (hEmbd : 1 ≤ nEmbd) (htail : Ends nEmbd tail) (now : ℚ)
    (fuel : ℕ)
    (h : Mid nEmbd nLocal tail T ps (data ++ more) f) (hon : f.disabled = false)
    (hfuel : data.length ≤ fuel) (hroom : Room tail T ps.length more) :
    (f.requestN nEmbd fuel now data).samples = f.samples ∧
    (((f.requestN nEmbd fuel now data).disabled = false ∧ ∃ D T' ps', T = D ++ T' ∧
        List.Forall₂ Owed D ps' ∧ Mid nEmbd nLocal tail T' (ps ++ ps') more (f.requestN nEmbd fuel now data)) ∨
      ((f.requestN nEmbd fuel now data).disabled = true ∧ more.length < tail.length)) := by
  induction fuel generalizing T ps data f with
  | zero =>
    obtain rfl : data = [] := List.length_eq_zero_iff.mp (Nat.le_zero.mp hfuel)
    refine ⟨rfl, .inl ⟨hon, [], T, [], rfl, .nil, ?_⟩⟩
    rw [List.append_nil]
    exact h
  | succ fuel ih =>
    by_cases hne : data = []
    · subst hne
      rw [Frames.requestN, if_pos rfl]
      refine ⟨rfl, .inl ⟨hon, [], T, [], rfl, .nil, ?_⟩⟩
      rw [List.append_nil]
      exact h
    · rw [Frames.requestN, if_neg hne]
      have hlt : more.length < (data ++ more).length := by
        rw [List.length_append]
        exact Nat.lt_add_of_pos_left (List.length_pos_iff.mpr hne)
      have hnow : T ≠ [] → ps.length < maxPending := by
        intro hT
        obtain ⟨q, T', rfl⟩ := List.exists_cons_of_ne_nil hT
        exact hroom [] q T' rfl (hlt.trans_le h.length_le)
      have hpulled := pulled_mid hEmbd htail h hon rfl hne hnow now
      generalize f.pull nEmbd now data = x at hpulled ⊢
      cases hpulled with
      | goes hsamples hon' hshorter hmid =>
        obtain ⟨hs, hrest⟩ := ih hmid hon' (by omega) hroom
        exact ⟨hs.trans hsamples, hrest⟩
      | @completes q T' g data' started hfirst hsamples hon' hshorter hmid =>
        subst hfirst
        have hroom' : Room tail T'
            (ps ++ [(⟨q.rows, started, q.replyBytes, true⟩ : Pending)]).length more := by
          intro D r T'' hT hmore
          have := hroom (q :: D) r T'' (by rw [hT, List.cons_append]) hmore
          rw [List.length_append, List.length_cons, List.length_nil]
          rw [List.length_cons] at this
          omega
        obtain ⟨hs, hrest⟩ := ih hmid hon' (by omega) hroom'
        refine ⟨hs.trans hsamples, ?_⟩
        rcases hrest with ⟨hon'', D, T'', ps', rfl, howed, hmid'⟩ | hoff
        · rw [List.append_assoc, List.singleton_append] at hmid'
          exact .inl ⟨hon'', q :: D, T'', _, rfl, .cons ⟨rfl, rfl, rfl⟩ howed, hmid'⟩
        · exact .inr hoff
      | refuses hnone hsamples hoff =>
        subst hnone
        have hstop : ∀ (n : ℕ) (g : Frames), g.requestN nEmbd n now [] = g := by
          intro n g
          cases n with
          | zero => rfl
          | succ n => exact if_pos rfl
        rw [hstop]
        have hle := h.length_le
        rw [List.flatMap_nil, List.nil_append] at hle
        exact ⟨hsamples, .inr ⟨hoff, hlt.trans_le hle⟩⟩

/-- What waits for its response, of which `paid` bytes have come for the first. -/
def Waits : List (Accepted nEmbd nLocal) → ℕ → List Pending → Prop
  | [], paid, [] => paid = 0
  | q :: W, paid, p :: ps => p.rows = q.rows ∧ p.left + paid = q.replyBytes ∧ 0 < p.left ∧
      p.complete = true ∧ List.Forall₂ Owed W ps
  | _, _, _ => False

theorem replyBytes_pos (hEmbd : 1 ≤ nEmbd) (q : Accepted nEmbd nLocal) : 0 < q.replyBytes := by
  obtain ⟨header, body, -, hframed⟩ := framed_of_accepted hEmbd q
  exact hframed.response_pos

variable {W : List (Accepted nEmbd nLocal)}

theorem waits_of_owed (hEmbd : 1 ≤ nEmbd)
    (h : List.Forall₂ Owed W ps) : Waits W 0 ps := by
  cases h with
  | nil => rfl
  | @cons q p W ps hqp hrest =>
    exact ⟨hqp.1, hqp.2.1, hqp.2.1 ▸ replyBytes_pos hEmbd q, hqp.2.2, hrest⟩

variable {paid : ℕ}

theorem Waits.append {D : List (Accepted nEmbd nLocal)} {ps' : List Pending}
    (hEmbd : 1 ≤ nEmbd) (h : Waits W paid ps) (hD : List.Forall₂ Owed D ps') :
    Waits (W ++ D) paid (ps ++ ps') := by
  match W, ps, h with
  | [], [], h =>
    obtain rfl : paid = 0 := h
    exact waits_of_owed hEmbd hD
  | q :: W, p :: ps, ⟨hrows, hleft, hpos, hcomplete, howed⟩ =>
    exact ⟨hrows, hleft, hpos, hcomplete, List.rel_append howed hD⟩

theorem Waits.length
    (h : Waits W paid ps) : ps.length = W.length := by
  match W, ps, h with
  | [], [], _ => rfl
  | q :: W, p :: ps, ⟨_, _, _, _, howed⟩ => exact congrArg Nat.succ howed.length_eq.symm

def replies (W : List (Accepted nEmbd nLocal)) : ℕ := (W.map Accepted.replyBytes).sum

theorem respond_waits (hEmbd : 1 ≤ nEmbd) (now : ℚ) (extra : List Pending)
    {size : ℕ} (f : Frames)
    (h : Waits W paid ps) (hsize : paid + size ≤ replies W) :
    ∃ D W' paid' ps' new, W = D ++ W' ∧ Waits W' paid' ps' ∧ paid + size = replies D + paid' ∧
      new.map Sample.rows = D.map Accepted.rows ∧
      f.respond now size (ps ++ extra) = { f with
        pending := ps' ++ extra
        samples := f.samples ++ new } := by
  have hstop : ∀ xs : List Pending, f.respond now 0 xs = { f with
      pending := xs
      samples := f.samples ++ [] } := by
    intro xs
    rw [List.append_nil]
    cases xs with
    | nil => rfl
    | cons x xs => exact if_pos rfl
  induction ps generalizing W paid size f with
  | nil =>
    match W, h with
    | [], h =>
      obtain rfl : paid = 0 := h
      obtain rfl : size = 0 := Nat.le_zero.mp (Nat.zero_add size ▸ hsize)
      exact ⟨[], [], 0, [], [], rfl, rfl, rfl, rfl, hstop _⟩
  | cons p ps ih =>
    match W, h with
    | q :: W, ⟨hrows, hleft, hpos, hcomplete, howed⟩ =>
      by_cases hzero : size = 0
      · subst hzero
        exact ⟨[], q :: W, paid, p :: ps, [], rfl, ⟨hrows, hleft, hpos, hcomplete, howed⟩,
          (Nat.zero_add paid).symm, rfl, hstop _⟩
      · have hcomplete' : ¬ p.complete = false := by rw [hcomplete]; exact Bool.noConfusion
        by_cases hall : p.left ≤ size
        · -- the first response is complete; what is left of the chunk goes on to the next
          have hreplies : replies (q :: W) = q.replyBytes + replies W := List.sum_cons
          have hrest : 0 + (size - p.left) ≤ replies W := by omega
          obtain ⟨D, W', paid', ps', new, rfl, hwaits, hsum, hnew, hrespond⟩ :=
            ih { f with samples := f.samples ++ [⟨p.rows, max 0 (now - p.started)⟩] }
              (waits_of_owed hEmbd howed) hrest (fun xs => by
                rw [List.append_nil]
                cases xs with
                | nil => rfl
                | cons x xs => exact if_pos rfl)
          refine ⟨q :: D, W', paid', ps', ⟨p.rows, max 0 (now - p.started)⟩ :: new, rfl, hwaits, ?_,
            ?_, ?_⟩
          · have hD : replies (q :: D) = q.replyBytes + replies D := List.sum_cons
            omega
          · rw [List.map_cons, List.map_cons, hnew, hrows]
          · rw [List.cons_append, Frames.respond, if_neg hzero, if_neg hcomplete', if_pos hall,
              hrespond, List.append_assoc, List.singleton_append]
        · refine ⟨[], q :: W, paid + size, { p with left := p.left - size } :: ps, [], rfl,
            ⟨hrows, ?_, ?_, hcomplete, howed⟩, (Nat.zero_add _).symm, rfl, ?_⟩
          · dsimp only
            omega
          · dsimp only
            omega
          · rw [List.cons_append, Frames.respond, if_neg hzero, if_neg hcomplete', if_neg hall,
              List.append_nil]
            rfl

/-! ### Both directions -/

theorem Mid.repend
    (h : Mid nEmbd nLocal tail T ps rest f) :
    ∃ extra, f.pending = ps ++ extra ∧ ∀ ps' samples, Mid nEmbd nLocal tail T ps' rest { f with
      pending := ps' ++ extra
      samples := samples } := by
  cases h with
  | @header q T f h body hbytes hframed hh hleft =>
    refine ⟨[], (List.append_nil _).symm, fun ps' samples => ?_⟩
    rw [List.append_nil]
    exact .header (f := { f with
      pending := ps'
      samples := samples }) hbytes hframed hh hleft
  | @body q T f b ps started hleft hb hshort hpending =>
    exact ⟨_, hpending, fun ps' samples => @Mid.body _ _ _ _ _ _ _ _ started hleft hb hshort rfl⟩
  | @idle f hnone hheader hleft =>
    refine ⟨[], (List.append_nil _).symm, fun ps' samples => ?_⟩
    rw [List.append_nil]
    exact .idle (f := { f with
      pending := ps'
      samples := samples }) hnone hheader hleft
  | @refusing f h junk hbytes hrefused hh hleft =>
    refine ⟨[], (List.append_nil _).symm, fun ps' samples => ?_⟩
    rw [List.append_nil]
    exact .refusing (f := { f with
      pending := ps'
      samples := samples }) hbytes hrefused hh hleft

/-- Where the first `k` requests end. -/
def requestEnd (reqs : List (Accepted nEmbd nLocal)) (k : ℕ) : ℕ :=
  ((reqs.take k).flatMap Accepted.bytes).length

def replyEnd (reqs : List (Accepted nEmbd nLocal)) (k : ℕ) : ℕ := replies (reqs.take k)

/-- When `n` bytes have been asked and `m` told, each response follows its request, and no more
than `maxPending` requests have begun without being answered. -/
structure Paced (reqs : List (Accepted nEmbd nLocal)) (n m : ℕ) : Prop where
  follows : ∀ k < reqs.length, replyEnd reqs k < m → requestEnd reqs (k + 1) ≤ n
  outstanding : ∀ k, k + maxPending < reqs.length → requestEnd reqs (k + maxPending) < n →
    replyEnd reqs (k + 1) ≤ m
  within : m ≤ replies reqs

/-- The requests that so many bytes of responses answer. -/
def answered : List (Accepted nEmbd nLocal) → ℕ → List (Accepted nEmbd nLocal)
  | [], _ => []
  | q :: rest, m => if q.replyBytes ≤ m then q :: answered rest (m - q.replyBytes) else []

theorem replies_append (xs ys : List (Accepted nEmbd nLocal)) :
    replies (xs ++ ys) = replies xs + replies ys := by
  unfold replies
  rw [List.map_append, List.sum_append]

/-- What has been paid is less than the response that is due. -/
def Due (W : List (Accepted nEmbd nLocal)) (paid : ℕ) : Prop :=
  match W with
  | [] => paid = 0
  | q :: _ => paid < q.replyBytes

theorem Waits.due (hEmbd : 1 ≤ nEmbd)
    (h : Waits W paid ps) : Due (W ++ T) paid := by
  match W, ps, h with
  | [], [], h =>
    obtain rfl : paid = 0 := h
    cases T with
    | nil => rfl
    | cons q T => exact replyBytes_pos hEmbd q
  | q :: W, p :: ps, ⟨_, hleft, hpos, _, _⟩ =>
    change paid < q.replyBytes
    omega

theorem answered_due (A : List (Accepted nEmbd nLocal))
    (h : Due W paid) : answered (A ++ W) (replies A + paid) = A := by
  induction A with
  | nil =>
    rw [List.nil_append, show replies ([] : List (Accepted nEmbd nLocal)) + paid = paid from Nat.zero_add _]
    cases W with
    | nil => rfl
    | cons q W => exact if_neg (Nat.not_le.mpr h)
  | cons q A ih =>
    have hsum : replies (q :: A) = q.replyBytes + replies A := List.sum_cons
    rw [List.cons_append, answered, if_pos (by omega), hsum,
      show q.replyBytes + replies A + paid - q.replyBytes = replies A + paid by omega, ih]

theorem answered_mono (reqs : List (Accepted nEmbd nLocal)) {m m' : ℕ} (h : m ≤ m') :
    answered reqs m <+: answered reqs m' := by
  induction reqs generalizing m m' with
  | nil => exact List.prefix_rfl
  | cons q reqs ih =>
    unfold answered
    split_ifs with h₁ h₂
    · exact (List.prefix_cons_inj q).mpr (ih (Nat.sub_le_sub_right h _))
    · omega
    · exact List.nil_prefix
    · exact List.nil_prefix

variable {q : Accepted nEmbd nLocal}

theorem Mid.length_gt
    (h : Mid nEmbd nLocal tail (q :: T) ps rest f) :
    (T.flatMap Accepted.bytes ++ tail).length < rest.length := by
  cases h with
  | @header _ _ _ h body _ _ hh =>
    have := List.length_pos_iff.mpr hh
    simp only [List.length_append]
    omega
  | body _ hb =>
    have := List.length_pos_iff.mpr hb
    simp only [List.length_append]
    omega

/-- Where the observer is when `taken` has come of the stream and `m` bytes of responses have:
the requests `A` are answered, `W` wait and `T` have not come whole; or it has stopped. -/
inductive View (reqs : List (Accepted nEmbd nLocal)) (tail taken : Bytes) (m : ℕ) (f : Frames) : Prop
  | on {A W T : List (Accepted nEmbd nLocal)} {ps : List Pending} {rest : Bytes} {paid : ℕ}
      (enabled : f.disabled = false) (split : reqs = A ++ (W ++ T))
      (stream : taken ++ rest = reqs.flatMap Accepted.bytes ++ tail) (told : m = replies A + paid)
      (waits : Waits W paid ps) (mid : Mid nEmbd nLocal tail T ps rest f)
      (samples : f.samples.map Sample.rows = A.map Accepted.rows)
  | off (disabled : f.disabled = true) (reached : (reqs.flatMap Accepted.bytes).length < taken.length)
      (samples : f.samples.map Sample.rows <+: (answered reqs m).map Accepted.rows)

variable {reqs A : List (Accepted nEmbd nLocal)}

theorem length_lt_split
    (h : reqs = A ++ q :: T) : A.length < reqs.length := by
  rw [h, List.length_append, List.length_cons]
  omega

theorem requestEnd_split (h : reqs = A ++ T) :
    requestEnd reqs A.length = (A.flatMap Accepted.bytes).length := by
  unfold requestEnd
  rw [h, List.take_left]

theorem replyEnd_split (h : reqs = A ++ T) :
    replyEnd reqs A.length = replies A := by
  unfold replyEnd
  rw [h, List.take_left]

theorem replyEnd_mono (reqs : List (Accepted nEmbd nLocal)) {j k : ℕ} (h : j ≤ k) :
    replyEnd reqs j ≤ replyEnd reqs k := by
  unfold replyEnd
  obtain ⟨d, rfl⟩ := Nat.exists_eq_add_of_le h
  rw [List.take_add, replies_append]
  exact Nat.le_add_right _ _

theorem room_of_paced {taken : Bytes}
    (hsplit : reqs = A ++ (W ++ T)) (hstream : taken ++ more = reqs.flatMap Accepted.bytes ++ tail)
    (hdue : Due (W ++ T) paid) (hpaced : Paced reqs taken.length (replies A + paid)) :
    Room tail T W.length more := by
  rintro D q T' rfl hmore
  by_contra hfull
  obtain ⟨k, hk⟩ : ∃ k, k + maxPending = A.length + W.length + D.length :=
    ⟨A.length + W.length + D.length - maxPending, by omega⟩
  have hD : reqs = (A ++ W ++ D) ++ (q :: T') := by
    rw [hsplit]
    simp only [List.append_assoc]
  have hlen : (A ++ W ++ D).length = k + maxPending := by
    rw [List.length_append, List.length_append, hk]
  have hbegun : requestEnd reqs (k + maxPending) < taken.length := by
    rw [← hlen, requestEnd_split hD]
    have htotal := congrArg List.length hstream
    rw [hD, List.flatMap_append, List.append_assoc, List.length_append, List.length_append] at htotal
    omega
  have hlt : k + maxPending < reqs.length := hlen ▸ length_lt_split hD
  have hanswered := hpaced.outstanding k hlt hbegun
  -- the first of the requests that wait is not answered yet
  have hfirst : replies A + paid < replyEnd reqs (A.length + 1) := by
    cases hW : W ++ (D ++ q :: T') with
    | nil =>
      have := (List.append_eq_nil_iff.mp (List.append_eq_nil_iff.mp hW).2).2
      cases this
    | cons r R =>
      rw [hW] at hdue hsplit
      have hr : reqs = (A ++ [r]) ++ R := by
        rw [hsplit, List.append_assoc, List.singleton_append]
      have hend := replyEnd_split hr
      rw [List.length_append, List.length_singleton, replies_append] at hend
      rw [hend]
      have hone : replies [r] = r.replyBytes := Nat.add_zero _
      have : paid < r.replyBytes := hdue
      omega
  have hmono := replyEnd_mono reqs (show A.length + 1 ≤ k + 1 by omega)
  omega

theorem view_request (hEmbd : 1 ≤ nEmbd) {taken : Bytes}
    {m : ℕ} (htail : Ends nEmbd tail) (hview : View reqs tail taken m f)
    (hnext : Paced reqs (taken ++ data).length m)
    (hstream : taken ++ data <+: reqs.flatMap Accepted.bytes ++ tail) (now : ℚ) :
    View reqs tail (taken ++ data) m (f.request nEmbd now data) := by
  cases hview with
  | @on A W T ps rest paid hon hsplit htaken htold hwaits hmid hsamples =>
    obtain ⟨more, hmore⟩ := hstream
    obtain rfl : data ++ more = rest := by
      rw [← htaken, List.append_assoc] at hmore
      exact List.append_cancel_left hmore
    have hroom : Room tail T ps.length more := by
      rw [hwaits.length]
      rw [htold] at hnext
      exact room_of_paced hsplit hmore (hwaits.due hEmbd) hnext
    have hrequest : f.request nEmbd now data = f.requestN nEmbd data.length now data :=
      if_neg (by rw [hon]; exact Bool.false_ne_true)
    rw [hrequest]
    obtain ⟨hs, ⟨hon', D, T', ps', rfl, howed, hmid'⟩ | ⟨hoff, hpast⟩⟩ :=
      requestN_mid hEmbd htail now data.length hmid hon (Nat.le_refl _) hroom
    · refine .on (A := A) (W := W ++ D) (T := T') hon' ?_ hmore htold
        (hwaits.append hEmbd howed) hmid' (by rw [hs, hsamples])
      rw [hsplit, List.append_assoc]
    · refine .off hoff ?_ ?_
      · have hlen : (taken ++ data).length + more.length =
            (reqs.flatMap Accepted.bytes).length + tail.length := by
          rw [← List.length_append, hmore, List.length_append]
        omega
      · rw [hs, hsamples, htold, hsplit, answered_due A (hwaits.due hEmbd)]
  | off hoff hreached hsamples =>
    have hrequest : f.request nEmbd now data = f := if_pos hoff
    rw [hrequest]
    refine .off hoff (hreached.trans_le ?_) hsamples
    rw [List.length_append]
    exact Nat.le_add_right _ _

theorem view_response (hEmbd : 1 ≤ nEmbd) {taken : Bytes}
    {m size : ℕ} (hview : View reqs tail taken m f)
    (hnext : Paced reqs taken.length (m + size)) (now : ℚ) :
    View reqs tail taken (m + size) (f.response now size) := by
  cases hview with
  | @on A W T ps rest paid hon hsplit htaken htold hwaits hmid hsamples =>
    have hsize : paid + size ≤ replies W := by
      by_contra hbeyond
      have hAW : reqs = (A ++ W) ++ T := by rw [hsplit, List.append_assoc]
      cases T with
      | nil =>
        have := hnext.within
        rw [hAW, List.append_nil, replies_append, htold] at this
        omega
      | cons q T =>
        -- the response would be that of a request that has not come whole
        have hAWq : reqs = (A ++ W ++ [q]) ++ T := by
          rw [hAW, List.append_assoc _ [q], List.singleton_append]
        have hbefore := hnext.follows _ (length_lt_split hAW) (by
          rw [replyEnd_split hAW, replies_append, htold]
          omega)
        have hend := requestEnd_split hAWq
        rw [List.length_append, List.length_singleton] at hend
        rw [hend] at hbefore
        have htotal := congrArg List.length htaken
        rw [hAWq, List.flatMap_append, List.append_assoc, List.length_append, List.length_append]
          at htotal
        have := hmid.length_gt
        omega
    have hresponse : f.response now size = f.respond now size f.pending :=
      if_neg (by rw [hon]; exact Bool.false_ne_true)
    obtain ⟨extra, hpending, hrepend⟩ := hmid.repend
    obtain ⟨D, W', paid', ps', new, rfl, hwaits', hsum, hnew, hrespond⟩ :=
      respond_waits hEmbd now extra f hwaits hsize
    rw [hresponse, hpending, hrespond]
    refine .on (A := A ++ D) (W := W') (T := T) hon ?_ htaken ?_ hwaits' (hrepend ps' _) ?_
    · rw [hsplit]
      simp only [List.append_assoc]
    · rw [replies_append, htold]
      omega
    · rw [List.map_append, List.map_append, hsamples, hnew]
  | off hoff hreached hsamples =>
    have hresponse : f.response now size = f := if_pos hoff
    rw [hresponse]
    exact .off hoff hreached (hsamples.trans
      ((answered_mono reqs (Nat.le_add_right m size)).map Accepted.rows))

theorem asked_concat (es : List Event) (e : Event) : asked (es ++ [e]) = asked es ++ e.asked := by
  unfold asked
  rw [List.flatMap_append, List.flatMap_singleton]

theorem told_concat (es : List Event) (e : Event) : told (es ++ [e]) = told es + e.told := by
  unfold told
  rw [List.map_append, List.sum_append, List.map_singleton, List.sum_singleton]

theorem view_observe (hsize : 1 ≤ nEmbd ∧ nEmbd ≤ 65536)
    (htail : Ends nEmbd tail) (es : List Event)
    (hstream : asked es <+: reqs.flatMap Accepted.bytes ++ tail)
    (hpaced : ∀ past, past <+: es → Paced reqs (asked past).length (told past)) :
    View reqs tail (asked es) (told es) (observe nEmbd es) := by
  induction es using List.reverseRecOn with
  | nil =>
    have henabled : (Frames.initial nEmbd).disabled = false := by
      have h := Bool.and_eq_true_iff.mpr ⟨decide_eq_true hsize.1, decide_eq_true hsize.2⟩
      change (!(decide (1 ≤ nEmbd) && decide (nEmbd ≤ 65536))) = false
      rw [h]
      rfl
    exact @View.on _ _ _ _ _ _ _ [] [] _ [] _ 0 henabled rfl rfl rfl rfl
      (mid_between hsize.1 htail reqs (f := Frames.initial nEmbd) rfl rfl) rfl
  | append_singleton es e ih =>
    have hbefore := ih ((by rw [asked_concat]; exact List.prefix_append _ _ :
      asked es <+: asked (es ++ [e])).trans hstream)
      fun past h => hpaced past (h.trans (List.prefix_append es [e]))
    have hnext := hpaced _ List.prefix_rfl
    have hstep : observe nEmbd (es ++ [e]) = (observe nEmbd es).see nEmbd e := by
      unfold observe
      rw [List.foldl_append]
      rfl
    rw [asked_concat, told_concat] at hnext
    rw [asked_concat] at hstream
    rw [hstep, asked_concat, told_concat]
    cases e with
    | request now data => exact view_request hsize.1 htail hbefore hnext hstream now
    | response now size =>
      change Paced reqs (asked es ++ []).length (told es + size) at hnext
      rw [List.append_nil] at hnext
      change View reqs tail (asked es ++ []) (told es + size) _
      rw [List.append_nil]
      exact view_response hsize.1 hbefore hnext now

/-- The observer sees the requests that the worker takes: each that is answered is a sample, in
order, and none that comes with or after a header that the worker refuses. -/
theorem sees_requests (hsize : 1 ≤ nEmbd ∧ nEmbd ≤ 65536) (compute : WorkerReq → ℕ → ℕ)
    (reqs : List (Accepted nEmbd nLocal)) (tail : Bytes)
    (htail : tail = [] ∨ readRequest nEmbd nLocal tail = .error .caps) (es : List Event)
    (hstream : asked es <+: reqs.flatMap Accepted.bytes ++ tail)
    (hpaced : ∀ past, past <+: es → Paced reqs (asked past).length (told past)) :
    handleConn nEmbd nLocal (fun q => some (compute q)) (reqs.length + 1)
        (reqs.flatMap Accepted.bytes ++ tail) =
      (reqs.map Accepted.held, reqs.flatMap fun q => q.held.reply nEmbd (compute q.held), tail) ∧
    (reqs.flatMap fun q => q.held.reply nEmbd (compute q.held)).length = replies reqs ∧
    ((asked es).length ≤ (reqs.flatMap Accepted.bytes).length →
      (observe nEmbd es).disabled = false ∧
      (observe nEmbd es).samples.map Sample.rows = (answered reqs (told es)).map Accepted.rows) ∧
    (observe nEmbd es).samples.map Sample.rows <+: (answered reqs (told es)).map Accepted.rows := by
  have hends : Ends nEmbd tail := htail.imp_right refused_of_caps
  have herror : ∃ e, readRequest nEmbd nLocal tail = .error e := by
    rcases htail with rfl | h
    · exact ⟨.short, rfl⟩
    · exact ⟨.caps, h⟩
  obtain ⟨e, he⟩ := herror
  have hview := view_observe hsize hends es hstream hpaced
  refine ⟨handleConn_accepted compute reqs he, length_replies compute reqs, fun hwithin => ?_, ?_⟩
  · cases hview with
    | on henabled hsplit _ htold hwaits _ hsamples =>
      refine ⟨henabled, ?_⟩
      rw [hsamples, htold, hsplit, answered_due _ (hwaits.due hsize.1)]
    | off _ hreached _ => exact absurd hreached (Nat.not_lt.mpr hwithin)
  · cases hview with
    | on _ hsplit _ htold hwaits _ hsamples =>
      rw [hsamples, htold, hsplit, answered_due _ (hwaits.due hsize.1)]
    | off _ _ hsamples => exact hsamples

def zeroToken (nEmbd : ℕ) : Accepted nEmbd 1 where
  bytes := i32Bytes 1 ++ (i32Bytes 1 ++ (List.replicate (4 * nEmbd) 0 ++ ([0].flatMap i32Bytes ++ [])))
  held := ⟨.v1, 1, 1, List.replicate (4 * nEmbd) 0, [], [0], []⟩
  reads := by
    have hrows : (List.replicate (4 * nEmbd) (0 : UInt8)).length = 4 * nEmbd * 1 := by
      rw [List.length_replicate, Nat.mul_one]
    unfold readRequest
    rw [Reader.bind_of_ok (Reader.i32_append _ (by decide) _),
      Reader.bind_of_ok (Reader.i32_append _ (by decide) _), if_neg (by decide), if_neg (by decide)]
    have hread := @readDispatch_sent nEmbd 1 _ [0] 1 (Nat.le_refl 1) hrows rfl (by decide)
      (by decide) []
    exact hread.trans (if_pos (by decide))

theorem paced_one {n m : ℕ} (hfollows : 0 < m → q.bytes.length ≤ n)
    (hwithin : m ≤ q.replyBytes) : Paced [q] n m where
  follows k hk hm := by
    obtain rfl : k = 0 := Nat.lt_one_iff.mp hk
    have hend : requestEnd [q] 1 = q.bytes.length := by
      unfold requestEnd
      rw [List.take_of_length_le (Nat.le_refl 1), List.flatMap_singleton]
    rw [hend]
    exact hfollows hm
  outstanding k hk := absurd hk (by
    rw [List.length_singleton, maxPending]
    omega)
  within := hwithin

theorem sees_requests_one : (observe 1 [.request 0 ((zeroToken 1).bytes.take 5),
    .request 1 ((zeroToken 1).bytes.drop 5), .response 3 4,
    .request 4 (List.replicate 8 0)]).samples.map Sample.rows <+: [1] := by
  refine (@sees_requests 1 1 (by decide) (fun _ _ => 0) [zeroToken 1] (List.replicate 8 0)
    (.inr (by rfl)) _ (by decide) fun past hpast => ?_).2.2.2
  have hmem := (List.mem_inits _ _).mpr hpast
  clear hpast
  apply paced_one
  · revert past
    decide
  · revert past
    decide

theorem samples_unfollowed (hsize : ¬ (1 ≤ nEmbd ∧ nEmbd ≤ 65536)) (es : List Event) :
    (observe nEmbd es).samples = [] := by
  have hinitial : (Frames.initial nEmbd).disabled = true := by
    have hguard : (decide (1 ≤ nEmbd) && decide (nEmbd ≤ 65536)) = false := by
      rw [← Bool.decide_and]
      exact decide_eq_false hsize
    exact congrArg not hguard
  have hstays : observe nEmbd es = Frames.initial nEmbd := by
    induction es using List.reverseRecOn with
    | nil => rfl
    | append_singleton es e ih =>
      unfold observe at ih ⊢
      rw [List.foldl_append, ih]
      cases e with
      | request now data => exact if_pos hinitial
      | response now size => exact if_pos hinitial
  rw [hstays]
  rfl

/-- A model that is wider than the observer follows. -/
theorem wide_model_unseen : ¬ ∀ (nEmbd : ℕ) (nLocal : ℤ) (reqs : List (Accepted nEmbd nLocal))
    (es : List Event), 1 ≤ nEmbd → asked es <+: reqs.flatMap Accepted.bytes →
    (∀ past, past <+: es → Paced reqs (asked past).length (told past)) →
    (observe nEmbd es).samples.map Sample.rows = (answered reqs (told es)).map Accepted.rows := by
  intro h
  obtain ⟨q⟩ : Nonempty (Accepted 65537 1) := ⟨zeroToken 65537⟩
  have hasked : asked [.request 0 q.bytes, .response 1 q.replyBytes] = q.bytes := by
    simp [asked, Event.asked]
  have htold : told [.request 0 q.bytes, .response 1 q.replyBytes] = q.replyBytes := by
    simp [told, Event.told]
  have hseen := h _ _ [q] [.request 0 q.bytes, .response 1 q.replyBytes] (by decide)
    (by rw [hasked, List.flatMap_singleton]) fun past hpast => ?_
  · have hnone : (observe 65537 [.request 0 q.bytes, .response 1 q.replyBytes]).samples = [] :=
      samples_unfollowed (by decide) _
    have hone : answered [q] q.replyBytes = [q] := if_pos (Nat.le_refl _)
    rw [htold, hnone, hone] at hseen
    cases hseen
  · have hmem := (List.mem_inits _ _).mpr hpast
    simp only [List.inits, List.map_cons, List.map_nil, List.mem_cons, List.not_mem_nil, or_false]
      at hmem
    rcases hmem with rfl | rfl | rfl
    · exact paced_one (fun h => absurd h (Nat.lt_irrefl 0)) (Nat.zero_le _)
    · exact paced_one (fun h => absurd h (Nat.lt_irrefl 0)) (Nat.zero_le _)
    · rw [hasked, htold]
      exact paced_one (fun _ => Nat.le_refl _) (Nat.le_refl _)

end KvasirNet.Observer
