import KvasirNet.ByteFormat

/-! Fixed-width words in little-endian order, the way a packed C structure holds
its fields: the word in the first bytes of what is left, then the rest. -/
namespace KvasirNet

abbrev Word (k : ℕ) := BitVec (8 * k)

def wordBytes {k : ℕ} (x : Word k) : Bytes := leBytes k x.toNat

/-- The word in the first `k` bytes. -/
def word (k : ℕ) (bs : Bytes) : Word k := BitVec.ofNat _ (leValue (bs.take k))

variable {k : ℕ}

@[simp]
theorem length_wordBytes (x : Word k) : (wordBytes x).length = k := length_leBytes k _

theorem toNat_lt_pow (x : Word k) : x.toNat < 256 ^ k := by
  have h : x.toNat < 2 ^ (8 * k) := x.isLt
  rwa [Nat.pow_mul] at h

@[simp]
theorem word_append (x : Word k) (rest : Bytes) : word k (wordBytes x ++ rest) = x := by
  have htake : (wordBytes x ++ rest).take k = wordBytes x := List.take_left' (length_wordBytes x)
  rw [word, htake, wordBytes, leValue_leBytes (toNat_lt_pow x), BitVec.ofNat_toNat,
    BitVec.setWidth_eq]

@[simp]
theorem drop_wordBytes (x : Word k) (rest : Bytes) : (wordBytes x ++ rest).drop k = rest :=
  List.drop_left' (length_wordBytes x)

@[simp]
theorem drop_wordBytes_of_le {n : ℕ} (x : Word k) (h : k ≤ n) : (wordBytes x).drop n = [] :=
  List.drop_of_length_le (by rwa [length_wordBytes])

/-- Four words in a row, an array of a structure. -/
def fourBytes {k : ℕ} (f : Fin 4 → Word k) : Bytes :=
  wordBytes (f 0) ++ (wordBytes (f 1) ++ (wordBytes (f 2) ++ wordBytes (f 3)))

def four (k : ℕ) (bs : Bytes) : Fin 4 → Word k := fun i => word k (bs.drop (k * i))

@[simp]
theorem length_fourBytes (f : Fin 4 → Word k) : (fourBytes f).length = 4 * k := by
  simp only [fourBytes, List.length_append, length_wordBytes]
  omega

@[simp]
theorem drop_fourBytes_of_le {n : ℕ} (f : Fin 4 → Word k) (h : 4 * k ≤ n) :
    (fourBytes f).drop n = [] :=
  List.drop_of_length_le (by rwa [length_fourBytes])

@[simp]
theorem four_append (f : Fin 4 → Word k) (rest : Bytes) :
    four k (fourBytes f ++ rest) = f := by
  have hstep (x : Word k) (r : Bytes) (n : ℕ) : (wordBytes x ++ r).drop (k + n) = r.drop n := by
    rw [← List.drop_drop, drop_wordBytes]
  funext i
  simp only [four, fourBytes, List.append_assoc]
  match i with
  | 0 => exact word_append _ _
  | 1 =>
    have hk : k * ((1 : Fin 4) : ℕ) = k + 0 := by simp
    rw [hk, hstep]
    exact word_append _ _
  | 2 =>
    have hk : k * ((2 : Fin 4) : ℕ) = k + (k + 0) := by
      show k * 2 = _
      omega
    rw [hk, hstep, hstep]
    exact word_append _ _
  | 3 =>
    have hk : k * ((3 : Fin 4) : ℕ) = k + (k + (k + 0)) := by
      show k * 3 = _
      omega
    rw [hk, hstep, hstep, hstep]
    exact word_append _ _

def words (k : ℕ) : ℕ → Bytes → List (Word k)
  | 0, _ => []
  | n + 1, bs => word k bs :: words k n (bs.drop k)

def wordsBytes {k : ℕ} (xs : List (Word k)) : Bytes := xs.flatMap wordBytes

@[simp]
theorem length_wordsBytes (xs : List (Word k)) : (wordsBytes xs).length = k * xs.length := by
  induction xs with
  | nil => rfl
  | cons x xs ih =>
    have hcons : wordsBytes (x :: xs) = wordBytes x ++ wordsBytes xs := rfl
    rw [hcons, List.length_append, length_wordBytes, ih, List.length_cons, Nat.mul_succ, Nat.add_comm]

theorem words_append (xs : List (Word k)) (rest : Bytes) :
    words k xs.length (wordsBytes xs ++ rest) = xs := by
  induction xs with
  | nil => rfl
  | cons x xs ih =>
    have hcons : wordsBytes (x :: xs) ++ rest = wordBytes x ++ (wordsBytes xs ++ rest) := by
      simp [wordsBytes]
    rw [List.length_cons, words, hcons, word_append, drop_wordBytes, ih]

end KvasirNet
