import Mathlib.Data.List.Basic
import Mathlib.Tactic.Common

/-! A consumer behind a rolling buffer. Bytes arrive in chunks; whatever is
complete at the head of the buffer is taken off and acted on, until more bytes
are needed or the consumer stops. How the bytes were cut into chunks cannot be
seen up to the first stop. -/
namespace KvasirNet

inductive Head (β ι ε : Type)
  | more
  | stuck (e : ε)
  | item (i : ι) (rest : List β)

/-- A division of the buffer that later bytes do not change. -/
structure Framing (β ι ε : Type) where
  next : List β → Head β ι ε
  stuck_append : ∀ {b e}, next b = .stuck e → ∀ x, next (b ++ x) = .stuck e
  item_append : ∀ {b i rest}, next b = .item i rest → ∀ x, next (b ++ x) = .item i (rest ++ x)
  item_shorter : ∀ {b i rest}, next b = .item i rest → rest.length < b.length

/-- What is done with an item, and with a head that can never be taken off.
`act` also says whether to stop. -/
structure Consumer (σ ι ε : Type) where
  act : σ → ι → σ × Bool
  jam : σ → ε → σ

structure Drained (σ β : Type) where
  state : σ
  buffer : List β
  stopped : Bool

variable {σ β ι ε : Type} (F : Framing β ι ε) (C : Consumer σ ι ε)

def drainN : ℕ → σ → List β → Drained σ β
  | 0, s, b => ⟨s, b, false⟩
  | fuel + 1, s, b =>
    match F.next b with
    | .more => ⟨s, b, false⟩
    | .stuck e => ⟨C.jam s e, b, true⟩
    | .item i rest =>
      match C.act s i with
      | (s', true) => ⟨s', rest, true⟩
      | (s', false) => drainN fuel s' rest

/-- Every item shortens the buffer, so its length bounds the loop. -/
def drain (s : σ) (b : List β) : Drained σ β := drainN F C (b.length + 1) s b

theorem drainN_fuel {m n : ℕ} (s : σ) (b : List β) (hm : b.length < m) (hn : b.length < n) :
    drainN F C m s b = drainN F C n s b := by
  induction m generalizing n s b with
  | zero => omega
  | succ m ih =>
    obtain ⟨n, rfl⟩ : ∃ k, n = k + 1 := ⟨n - 1, by omega⟩
    cases hnext : F.next b with
    | more => simp only [drainN, hnext]
    | stuck e => simp only [drainN, hnext]
    | item i rest =>
      have hlt := F.item_shorter hnext
      simp only [drainN, hnext]
      cases C.act s i with
      | mk s' stop => cases stop with
        | true => rfl
        | false => exact ih s' rest (by omega) (by omega)

theorem drain_more {s : σ} {b : List β} (h : F.next b = .more) : drain F C s b = ⟨s, b, false⟩ := by
  simp only [drain, drainN, h]

theorem drain_stuck {s : σ} {b : List β} {e : ε} (h : F.next b = .stuck e) :
    drain F C s b = ⟨C.jam s e, b, true⟩ := by
  simp only [drain, drainN, h]

theorem drain_stop {s s' : σ} {b rest : List β} {i : ι} (h : F.next b = .item i rest)
    (ha : C.act s i = (s', true)) : drain F C s b = ⟨s', rest, true⟩ := by
  simp only [drain, drainN, h, ha]

theorem drain_item {s s' : σ} {b rest : List β} {i : ι} (h : F.next b = .item i rest)
    (ha : C.act s i = (s', false)) : drain F C s b = drain F C s' rest := by
  have hlt := F.item_shorter h
  simp only [drain]
  rw [drainN]
  simp only [h, ha]
  exact drainN_fuel F C s' rest (by omega) (by omega)

theorem drain_induction {motive : σ → List β → Prop}
    (more : ∀ s b, F.next b = .more → motive s b)
    (stuck : ∀ s b e, F.next b = .stuck e → motive s b)
    (stop : ∀ s b i rest s', F.next b = .item i rest → C.act s i = (s', true) → motive s b)
    (item : ∀ s b i rest s', F.next b = .item i rest → C.act s i = (s', false) →
      motive s' rest → motive s b)
    (s : σ) (b : List β) : motive s b := by
  induction hlen : b.length using Nat.strongRecOn generalizing s b with
  | _ n ih =>
    cases hnext : F.next b with
    | more => exact more s b hnext
    | stuck e => exact stuck s b e hnext
    | item i rest =>
      have hlt := F.item_shorter hnext
      cases hact : C.act s i with
      | mk s' stopped => cases stopped with
        | true => exact stop s b i rest s' hnext hact
        | false => exact item s b i rest s' hnext hact (ih rest.length (by omega) s' rest rfl)

theorem drain_append_of_stopped (s : σ) (b x : List β) (h : (drain F C s b).stopped = true) :
    drain F C s (b ++ x) = ⟨(drain F C s b).state, (drain F C s b).buffer ++ x, true⟩ := by
  induction s, b using drain_induction F C with
  | more s b hnext => simp [drain_more F C hnext] at h
  | stuck s b e hnext => rw [drain_stuck F C hnext, drain_stuck F C (F.stuck_append hnext x)]
  | stop s b i rest s' hnext hact =>
    rw [drain_stop F C hnext hact, drain_stop F C (F.item_append hnext x) hact]
  | item s b i rest s' hnext hact ih =>
    rw [drain_item F C hnext hact] at h ⊢
    rw [drain_item F C (F.item_append hnext x) hact, ih h]

theorem drain_append_of_open (s : σ) (b x : List β) (h : (drain F C s b).stopped = false) :
    drain F C s (b ++ x) = drain F C (drain F C s b).state ((drain F C s b).buffer ++ x) := by
  induction s, b using drain_induction F C with
  | more s b hnext => rw [drain_more F C hnext]
  | stuck s b e hnext => simp [drain_stuck F C hnext] at h
  | stop s b i rest s' hnext hact => simp [drain_stop F C hnext hact] at h
  | item s b i rest s' hnext hact ih =>
    rw [drain_item F C hnext hact] at h ⊢
    rw [drain_item F C (F.item_append hnext x) hact, ih h]

theorem next_of_open (s : σ) (b : List β) (h : (drain F C s b).stopped = false) :
    F.next (drain F C s b).buffer = .more := by
  induction s, b using drain_induction F C with
  | more s b hnext => rw [drain_more F C hnext]; exact hnext
  | stuck s b e hnext => simp [drain_stuck F C hnext] at h
  | stop s b i rest s' hnext hact => simp [drain_stop F C hnext hact] at h
  | item s b i rest s' hnext hact ih =>
    rw [drain_item F C hnext hact] at h ⊢
    exact ih h

theorem drain_invariant {I : σ → Prop} (hact : ∀ s i, I s → I (C.act s i).1)
    (hjam : ∀ s e, I s → I (C.jam s e)) (s : σ) (b : List β) (hs : I s) :
    I (drain F C s b).state := by
  induction s, b using drain_induction F C with
  | more s b hnext => rw [drain_more F C hnext]; exact hs
  | stuck s b e hnext => rw [drain_stuck F C hnext]; exact hjam s e hs
  | stop s b i rest s' hnext h =>
    rw [drain_stop F C hnext h]
    simpa only [h] using hact s i hs
  | item s b i rest s' hnext h ih =>
    rw [drain_item F C hnext h]
    apply ih
    simpa only [h] using hact s i hs

/-- One chunk after the other, whether or not the consumer has stopped. -/
def feed : σ → List β → List (List β) → σ × List β
  | s, b, [] => (s, b)
  | s, b, c :: cs => feed (drain F C s (b ++ c)).state (drain F C s (b ++ c)).buffer cs

theorem feed_invariant {I : σ → Prop} (hact : ∀ s i, I s → I (C.act s i).1)
    (hjam : ∀ s e, I s → I (C.jam s e)) (s : σ) (b : List β) (cs : List (List β)) (hs : I s) :
    I (feed F C s b cs).1 := by
  induction cs generalizing s b with
  | nil => exact hs
  | cons c cs ih => exact ih _ _ (drain_invariant F C hact hjam s (b ++ c) hs)

theorem feed_of_open (s : σ) (b : List β) (cs : List (List β)) (hb : F.next b = .more)
    (h : (drain F C s (b ++ cs.flatten)).stopped = false) :
    feed F C s b cs =
      ((drain F C s (b ++ cs.flatten)).state, (drain F C s (b ++ cs.flatten)).buffer) := by
  induction cs generalizing s b with
  | nil => rw [List.flatten_nil, List.append_nil, drain_more F C hb]; rfl
  | cons c cs ih =>
    rw [List.flatten_cons, ← List.append_assoc] at h ⊢
    cases hstop : (drain F C s (b ++ c)).stopped with
    | true =>
      rw [drain_append_of_stopped F C s (b ++ c) _ hstop] at h
      cases h
    | false =>
      have hnext := next_of_open F C s (b ++ c) hstop
      rw [drain_append_of_open F C s (b ++ c) _ hstop] at h ⊢
      exact ih _ _ hnext h

theorem feed_observe {τ : Type} (observe : σ → τ)
    (hsettled : ∀ s b, (drain F C s b).stopped = true → ∀ b' cs,
      observe (feed F C (drain F C s b).state b' cs).1 = observe (drain F C s b).state)
    (s : σ) (b : List β) (cs : List (List β)) (hb : F.next b = .more) :
    observe (feed F C s b cs).1 = observe (drain F C s (b ++ cs.flatten)).state := by
  induction cs generalizing s b with
  | nil => rw [List.flatten_nil, List.append_nil, drain_more F C hb]; rfl
  | cons c cs ih =>
    rw [feed, List.flatten_cons, ← List.append_assoc]
    cases hstop : (drain F C s (b ++ c)).stopped with
    | true =>
      rw [hsettled s (b ++ c) hstop, drain_append_of_stopped F C s (b ++ c) _ hstop]
    | false =>
      rw [ih _ _ (next_of_open F C s (b ++ c) hstop), drain_append_of_open F C s (b ++ c) _ hstop]

/-! ### A reader that stops for good -/

/-- A chunk that comes after a stop is left unread. -/
def Drained.push (d : Drained σ β) (c : List β) : Drained σ β :=
  if d.stopped then d else drain F C d.state (d.buffer ++ c)

theorem push_open {s : σ} {b c : List β} :
    Drained.push F C ⟨s, b, false⟩ c = drain F C s (b ++ c) := rfl

theorem pushes_stopped {d : Drained σ β} (h : d.stopped = true) (cs : List (List β)) :
    cs.foldl (Drained.push F C) d = d := by
  induction cs with
  | nil => rfl
  | cons c cs ih =>
    have hstay : Drained.push F C d c = d := if_pos h
    rw [List.foldl_cons, hstay, ih]

/-- The reader has done on its chunks what it does on all the bytes at once; what a stop leaves in
the buffer is never looked at again. -/
theorem pushes_eq (s : σ) (b : List β) (cs : List (List β)) (hb : F.next b = .more) :
    (cs.foldl (Drained.push F C) ⟨s, b, false⟩).state = (drain F C s (b ++ cs.flatten)).state ∧
      (cs.foldl (Drained.push F C) ⟨s, b, false⟩).stopped =
        (drain F C s (b ++ cs.flatten)).stopped ∧
      ((drain F C s (b ++ cs.flatten)).stopped = false →
        (cs.foldl (Drained.push F C) ⟨s, b, false⟩).buffer =
          (drain F C s (b ++ cs.flatten)).buffer) := by
  induction cs generalizing s b with
  | nil =>
    rw [List.flatten_nil, List.append_nil, drain_more F C hb]
    exact ⟨rfl, rfl, fun _ => rfl⟩
  | cons c cs ih =>
    rw [List.foldl_cons, List.flatten_cons, ← List.append_assoc, push_open]
    cases hstop : (drain F C s (b ++ c)).stopped with
    | true =>
      rw [pushes_stopped F C hstop, drain_append_of_stopped F C s (b ++ c) _ hstop]
      exact ⟨rfl, hstop, fun h => absurd h Bool.true_eq_false.mp⟩
    | false =>
      have hopen : drain F C s (b ++ c) =
          ⟨(drain F C s (b ++ c)).state, (drain F C s (b ++ c)).buffer, false⟩ := by
        rw [← hstop]
      rw [hopen, drain_append_of_open F C s (b ++ c) _ hstop]
      exact ih _ _ (next_of_open F C s (b ++ c) hstop)

/-! ### Two consumers of the same items -/

section Related
variable {σ' : Type} {C} {C' : Consumer σ' ι ε} {R : σ → σ' → Prop}

/-- Two consumers go through the same bytes alike. -/
structure Drained.Alike (R : σ → σ' → Prop) (d : Drained σ β) (d' : Drained σ' β) : Prop where
  state : R d.state d'.state
  buffer : d.buffer = d'.buffer
  stopped : d.stopped = d'.stopped

theorem drain_alike
    (hact : ∀ s s' i, R s s' → R (C.act s i).1 (C'.act s' i).1 ∧ (C.act s i).2 = (C'.act s' i).2)
    (hjam : ∀ s s' e, R s s' → R (C.jam s e) (C'.jam s' e)) (s : σ) (s' : σ') (b : List β)
    (h : R s s') : (drain F C s b).Alike R (drain F C' s' b) := by
  induction s, b using drain_induction F C generalizing s' with
  | more s b hnext =>
    rw [drain_more F C hnext, drain_more F C' hnext]
    exact ⟨h, rfl, rfl⟩
  | stuck s b e hnext =>
    rw [drain_stuck F C hnext, drain_stuck F C' hnext]
    exact ⟨hjam s s' e h, rfl, rfl⟩
  | stop s b i rest t hnext ha =>
    obtain ⟨hr, hstop⟩ := hact s s' i h
    rw [ha] at hr hstop
    have ha' : C'.act s' i = ((C'.act s' i).1, true) := Prod.ext rfl hstop.symm
    rw [drain_stop F C hnext ha, drain_stop F C' hnext ha']
    exact ⟨hr, rfl, rfl⟩
  | item s b i rest t hnext ha ih =>
    obtain ⟨hr, hstop⟩ := hact s s' i h
    rw [ha] at hr hstop
    have ha' : C'.act s' i = ((C'.act s' i).1, false) := Prod.ext rfl hstop.symm
    rw [drain_item F C hnext ha, drain_item F C' hnext ha']
    exact ih _ hr

theorem pushes_alike
    (hact : ∀ s s' i, R s s' → R (C.act s i).1 (C'.act s' i).1 ∧ (C.act s i).2 = (C'.act s' i).2)
    (hjam : ∀ s s' e, R s s' → R (C.jam s e) (C'.jam s' e)) {d : Drained σ β} {d' : Drained σ' β}
    (h : d.Alike R d') (cs : List (List β)) :
    (cs.foldl (Drained.push F C) d).Alike R (cs.foldl (Drained.push F C') d') := by
  induction cs generalizing d d' with
  | nil => exact h
  | cons c cs ih =>
    rw [List.foldl_cons, List.foldl_cons]
    apply ih
    unfold Drained.push
    rw [← h.stopped, ← h.buffer]
    split_ifs
    · exact h
    · exact drain_alike F hact hjam _ _ _ h.state

end Related

end KvasirNet
