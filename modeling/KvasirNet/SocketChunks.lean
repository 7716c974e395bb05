import KvasirNet.ByteFormat

/-! Blocking reads on a socket whose bytes arrive in chunks. A reader that asks for `n` bytes
until it has them cannot see how they were cut. -/
namespace KvasirNet

/-- The chunks that arrive before the stream ends. -/
abbrev Arrivals := List Bytes

/-- `recv(n)`: at most `n` bytes of the next chunk that has any. -/
def recv (n : ℕ) : Arrivals → Option (Bytes × Arrivals)
  | [] => none
  | [] :: cs => recv n cs
  | (b :: bs) :: cs => some ((b :: bs).take n, (b :: bs).drop n :: cs)

theorem recv_eq_none {n : ℕ} {cs : Arrivals} : recv n cs = none ↔ cs.flatten = [] := by
  induction cs with
  | nil => simp [recv]
  | cons c cs ih =>
    cases c with
    | nil => simpa [recv] using ih
    | cons b bs => simp [recv]

theorem recv_spec {n : ℕ} {cs cs' : Arrivals} {got : Bytes} (h : recv n cs = some (got, cs')) :
    got ++ cs'.flatten = cs.flatten ∧ got.length ≤ n ∧ (0 < n → 0 < got.length) := by
  induction cs with
  | nil => cases h
  | cons c cs ih =>
    cases c with
    | nil => exact ih h
    | cons b bs =>
      obtain ⟨rfl, rfl⟩ := Prod.mk.inj (Option.some.inj h)
      refine ⟨?_, List.length_take_le n _, fun hn => ?_⟩
      · rw [List.flatten_cons, List.flatten_cons, ← List.append_assoc, List.take_append_drop]
      · rw [List.length_take, List.length_cons]
        omega

/-- `while (off < n)`: what is still wanted is asked for again. -/
def readLoop : ℕ → ℕ → Arrivals → Option (Bytes × Arrivals)
  | _, 0, cs => some ([], cs)
  | 0, _ + 1, _ => none
  | fuel + 1, want + 1, cs =>
    match recv (want + 1) cs with
    | none => none
    | some (got, cs) => (readLoop fuel (want + 1 - got.length) cs).map fun (more, cs) => (got ++ more, cs)

/-- Every `recv` brings a byte, so `n` of them are enough. -/
def readExact (n : ℕ) (cs : Arrivals) : Option (Bytes × Arrivals) := readLoop n n cs

theorem readLoop_of_le {fuel : ℕ} (want : ℕ) (cs : Arrivals) (hfuel : want ≤ fuel)
    (h : want ≤ cs.flatten.length) : ∃ cs', readLoop fuel want cs = some (cs.flatten.take want, cs') ∧
      cs'.flatten = cs.flatten.drop want := by
  induction fuel generalizing want cs with
  | zero =>
    obtain rfl : want = 0 := Nat.le_zero.mp hfuel
    exact ⟨cs, rfl, rfl⟩
  | succ fuel ih =>
    cases want with
    | zero => exact ⟨cs, rfl, rfl⟩
    | succ want =>
      cases hrecv : recv (want + 1) cs with
      | none =>
        rw [recv_eq_none.mp hrecv] at h
        cases h
      | some r =>
        obtain ⟨got, rest⟩ := r
        obtain ⟨hflat, hle, hpos⟩ := recv_spec hrecv
        have hpos := hpos (Nat.succ_pos want)
        have hlen : got.length + rest.flatten.length = cs.flatten.length := by
          rw [← hflat, List.length_append]
        obtain ⟨cs', hread, hrest⟩ := ih (want + 1 - got.length) rest (by omega)
          (by omega)
        refine ⟨cs', ?_, ?_⟩
        · simp only [readLoop, hrecv, hread, Option.map_some]
          rw [← hflat, List.take_append, List.take_of_length_le hle]
        · rw [hrest, ← hflat, List.drop_append, List.drop_eq_nil_of_le hle, List.nil_append]

theorem readLoop_of_lt {fuel : ℕ} (want : ℕ) (cs : Arrivals) (h : cs.flatten.length < want) :
    readLoop fuel want cs = none := by
  induction fuel generalizing want cs with
  | zero =>
    cases want with
    | zero => cases h
    | succ want => rfl
  | succ fuel ih =>
    cases want with
    | zero => cases h
    | succ want =>
      cases hrecv : recv (want + 1) cs with
      | none => simp only [readLoop, hrecv]
      | some r =>
        obtain ⟨got, rest⟩ := r
        obtain ⟨hflat, hle, -⟩ := recv_spec hrecv
        have hlen : got.length + rest.flatten.length = cs.flatten.length := by
          rw [← hflat, List.length_append]
        simp only [readLoop, hrecv, ih (want + 1 - got.length) rest (by omega),
          Option.map_none]

theorem readExact_append {bs rest : Bytes} {cs : Arrivals} (h : cs.flatten = bs ++ rest) :
    ∃ cs', readExact bs.length cs = some (bs, cs') ∧ cs'.flatten = rest := by
  obtain ⟨cs', hread, hrest⟩ := readLoop_of_le bs.length cs (Nat.le_refl _)
    (by rw [h, List.length_append]; omega)
  refine ⟨cs', ?_, ?_⟩
  · rw [readExact, hread, h, List.take_left']
    rfl
  · rw [hrest, h, List.drop_left']
    rfl

theorem readExact_eq_some {n : ℕ} {bs : Bytes} {cs cs' : Arrivals}
    (h : readExact n cs = some (bs, cs')) : bs.length = n ∧ cs.flatten = bs ++ cs'.flatten := by
  by_cases hn : n ≤ cs.flatten.length
  · obtain ⟨cs'', hread, hrest⟩ := readLoop_of_le n _ (Nat.le_refl n) hn
    obtain ⟨rfl, rfl⟩ := Prod.mk.inj (Option.some.inj (h.symm.trans hread))
    refine ⟨List.length_take_of_le hn, ?_⟩
    rw [hrest, List.take_append_drop]
  · rw [readExact, readLoop_of_lt _ _ (Nat.lt_of_not_le hn)] at h
    cases h

/-- Bytes cut into chunks of given sizes, with a last chunk for what is left. -/
def cut : List ℕ → Bytes → Arrivals
  | [], bs => [bs]
  | n :: ns, bs => bs.take n :: cut ns (bs.drop n)

@[simp]
theorem flatten_cut (ns : List ℕ) (bs : Bytes) : (cut ns bs).flatten = bs := by
  induction ns generalizing bs with
  | nil => simp [cut]
  | cons n ns ih => rw [cut, List.flatten_cons, ih, List.take_append_drop]

end KvasirNet
