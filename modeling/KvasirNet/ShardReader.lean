import KvasirNet.ShardServer

/-! The desktop's own reader of a shard's metadata. It looks at the first MiB of the file, keeps
what stands under each key and skips arrays; the shard server is what writes these files. -/
namespace KvasirNet.ShardReader
open Gguf Shard

/-! ## The reader -/

/-- Where the reader stands. `steps` counts its accesses to the buffer and the rounds of its loops. -/
structure Cursor where
  o : ℕ
  steps : ℕ
  deriving DecidableEq, Repr

/-- The cursor is kept when a reader throws; every exception leaves as `bad_shard`. -/
def Scan (α : Type) := Cursor → Except Fault α × Cursor

instance : Monad Scan where
  pure a := fun c => (.ok a, c)
  bind r f := fun c =>
    match r c with
    | (.ok a, c') => f a c'
    | (.error e, c') => (.error e, c')

def Scan.throw {α : Type} (e : Fault) : Scan α := fun c => (.error e, c)

def tick : Scan Unit := fun c => (.ok (), ⟨c.o, c.steps + 1⟩)

/-- What is kept of the metadata. An assignment to `__proto__` makes no property while the object
has its prototype; a `null` takes that away (`bare`). -/
structure Meta where
  properties : List (String × Option Value)
  bare : Bool

def Meta.empty : Meta := ⟨[], false⟩

/-- `meta[key] = v`; `none` is `null`. -/
def Meta.put (m : Meta) (key : String) (v : Option Value) : Meta :=
  if key = "__proto__" ∧ m.bare = false then { m with bare := v.isNone }
  else { m with properties := (key, v) :: m.properties }

/-- `meta[key]`, where `null` and `undefined` are not told apart. -/
def Meta.get (m : Meta) (key : String) : Option Value :=
  (m.properties.find? fun e => e.1 == key).bind Prod.snd

/-- `GGUF_TYPE_SIZE[t] || 0`. -/
def elementSize : ℕ → ℕ
  | 0 => 1
  | 1 => 1
  | 2 => 2
  | 3 => 2
  | 4 => 4
  | 5 => 4
  | 6 => 4
  | 7 => 1
  | 10 => 8
  | 11 => 8
  | 12 => 8
  | _ => 0

section
-- `round` is the double that a number becomes; a reader in exact integers takes `id`
variable (round : ℕ → ℕ) (buf : Bytes)

/-- `buf.readX(o)`, of so many bytes; out of range it throws. -/
def read (width : ℕ) : Scan Bytes := fun c =>
  if buf.length < c.o + width then (.error .short, ⟨c.o, c.steps + 1⟩)
  else (.ok ((buf.drop c.o).take width), ⟨c.o + width, c.steps + 1⟩)

def u32 : Scan ℕ := do
  let bs ← read buf 4
  pure (leValue bs)

/-- `u64()` -/
def u64 : Scan ℕ := do
  let bs ← read buf 8
  pure (round (leValue bs))

/-- `buf.toString('utf8', o, o + len)`, which ends with the buffer, and `o += len`. -/
def text (len : ℕ) : Scan String := fun c =>
  (.ok (ofUtf8 ((buf.drop c.o).take len)), ⟨round (c.o + len), c.steps + 1⟩)

/-- `str()` -/
def str : Scan String := do
  let len ← u64 round buf
  text round buf len

/-- `o += n` -/
def skip (n : ℕ) : Scan Unit := fun c => (.ok (), ⟨round (c.o + n), c.steps⟩)

def strings : ℕ → Scan Unit
  | 0 => pure ()
  | n + 1 => do
    tick
    let _ ← str round buf
    strings n

/-- The types whose values have a fixed size: the size, and the value of the bytes. -/
def plain : ℕ → Option (ℕ × (Bytes → Value))
  | 0 => some (1, fun bs => .int (leValue bs))
  | 1 => some (1, fun bs => .int (signed 1 (leValue bs)))
  | 2 => some (2, fun bs => .int (leValue bs))
  | 3 => some (2, fun bs => .int (signed 2 (leValue bs)))
  | 4 => some (4, fun bs => .int (leValue bs))
  | 5 => some (4, fun bs => .int (signed 4 (leValue bs)))
  | 6 => some (4, fun bs => .float (floatValue 8 23 (leValue bs)))
  | 7 => some (1, fun bs => .bool (leValue bs != 0))
  | 10 => some (8, fun bs => .int (round (leValue bs)))
  | 11 => some (8, fun bs =>
    let n := signed 8 (leValue bs)
    .int (if 0 ≤ n then round n.toNat else -round (-n).toNat))
  | 12 => some (8, fun bs => .float (floatValue 11 52 (leValue bs)))
  | _ => none

/-- `value(type)` -/
def value (type : ℕ) : Scan (Option Value) :=
  if type = 8 then do
    let s ← str round buf
    pure (some (.str s))
  else if type = 9 then do
    let t ← u32 buf
    let len ← u64 round buf
    if t = 8 then strings round buf len
    else skip round (len * elementSize t)
    pure none
  else
    match plain round type with
    | some (width, decode) => do
      let bs ← read buf width
      pure (some (decode bs))
    | none => Scan.throw .valueType

def entries : ℕ → Meta → Scan Meta
  | 0, m => pure m
  | n + 1, m => do
    tick
    let key ← str round buf
    let type ← u32 buf
    let v ← value round buf type
    entries n (m.put key v)

def body : Scan Meta := do
  let _ ← u64 round buf
  let nKv ← u64 round buf
  entries round buf nKv .empty

def metadataOf : Except Fault Meta × Cursor :=
  if buf.length < 24 ∨ buf.take 4 ≠ magic then (.error .magic, ⟨0, 0⟩)
  else body round buf ⟨8, 0⟩

end

/-- `head`, the bytes that are read of a file. -/
def mebibyte : ℕ := 1 <<< 20

/-- `readGgufMetadata`, and where it stood at the end. -/
def readGgufMetadata (file : Bytes) : Except Fault Meta × Cursor :=
  metadataOf toNumber (file.take mebibyte)

structure Want where
  layer : Num
  beg : Num
  stop : Num
  deriving DecidableEq

/-- `v === w` for a number `w`. -/
def strictlyEquals (v : Option Value) (w : Num) : Bool :=
  match v with
  | some (.int n) => w = .fin n
  | some (.float x) => x = w ∧ w ≠ .nan
  | _ => false

/-- `checkShard`; `none` where the file is refused. -/
def checkShard (file : Bytes) (want : Want) : Option Meta :=
  match (readGgufMetadata file).1 with
  | .error _ => none
  | .ok m =>
    let layer := m.get "kvasir.expert_shard.layer"
    let beg := (m.get "kvasir.expert_shard.expert_begin").or (m.get "linkcpp.expert_shard.expert_begin")
    let stop := (m.get "kvasir.expert_shard.expert_end").or (m.get "linkcpp.expert_shard.expert_end")
    if layer.isSome ∧ strictlyEquals layer want.layer = false ∨
        strictlyEquals beg want.beg = false ∨ strictlyEquals stop want.stop = false then none
    else some m

/-! ## Bounds -/

/-- Up to `bound`, rounding neither adds to what is at most a number nor takes from what is above. -/
def Faithful (round : ℕ → ℕ) (bound : ℕ) : Prop := ∀ k ≤ bound, ∀ n, round n ≤ k ↔ n ≤ k

theorem faithful_id (bound : ℕ) : Faithful id bound := fun _ _ _ => Iff.rfl

theorem le_toNumber {n : ℕ} (h : 2 ^ 53 ≤ n) : 2 ^ 53 ≤ toNumber n := by
  have hn : n ≠ 0 := by omega
  have hlog : 53 ≤ n.log2 := (Nat.le_log2 hn).mpr h
  have hsplit : 52 + droppedBits n = n.log2 := by
    unfold droppedBits
    omega
  have hpow : 2 ^ 52 * 2 ^ droppedBits n = 2 ^ n.log2 := by rw [← pow_add, hsplit]
  have hq : 2 ^ 52 ≤ n / 2 ^ droppedBits n :=
    (Nat.le_div_iff_mul_le (Nat.two_pow_pos _)).mpr (hpow ▸ Nat.log2_self_le hn)
  have hlow : 2 ^ 53 ≤ n / 2 ^ droppedBits n * 2 ^ droppedBits n :=
    calc
      2 ^ 53 ≤ 2 ^ n.log2 := Nat.pow_le_pow_right (by decide) hlog
      _ = 2 ^ 52 * 2 ^ droppedBits n := hpow.symm
      _ ≤ n / 2 ^ droppedBits n * 2 ^ droppedBits n := Nat.mul_le_mul_right _ hq
  unfold toNumber
  dsimp only
  split_ifs
  · exact hlow.trans (Nat.mul_le_mul_right _ (Nat.le_succ _))
  · exact hlow

variable {bound : ℕ}

theorem faithful_toNumber (h : bound < 2 ^ 53) : Faithful toNumber bound := by
  intro k hk n
  by_cases hn : n < 2 ^ 53
  · rw [toNumber_of_lt hn]
  · have hle := le_toNumber (Nat.le_of_not_lt hn)
    omega

variable {round : ℕ → ℕ}

theorem Faithful.le (h : Faithful round bound) {k n : ℕ}
    (hk : k ≤ bound) (hn : k ≤ n) : k ≤ round n := by
  cases k with
  | zero => exact Nat.zero_le _
  | succ k =>
    by_contra hlt
    have hle := (h k (by omega) n).mp (by omega)
    omega

theorem Faithful.eq {n : ℕ} (h : Faithful round bound) (hn : n ≤ bound) :
    round n = n :=
  Nat.le_antisymm ((h n hn n).mpr (Nat.le_refl n)) (h.le hn (Nat.le_refl n))

theorem Faithful.lt {n : ℕ} (h : Faithful round bound) (hn : bound < n) :
    bound < round n := by
  by_contra hle
  exact absurd ((h bound (Nat.le_refl _) n).mp (Nat.le_of_not_lt hle)) (Nat.not_le_of_lt hn)

namespace Scan

variable {α β : Type}

variable {f : α → Scan β}

theorem bind_of_ok {r : Scan α} {c c' : Cursor} {a : α} (h : r c = (.ok a, c')) :
    (r >>= f) c = f a c' := by
  show (match r c with
    | (.ok a, c') => f a c'
    | (.error e, c') => (.error e, c')) = _
  rw [h]

theorem bind_of_error {r : Scan α} {c c' : Cursor} {e : Fault}
    (h : r c = (.error e, c')) : (r >>= f) c = (.error e, c') := by
  show (match r c with
    | (.ok a, c') => f a c'
    | (.error e, c') => (.error e, c')) = _
  rw [h]

theorem bind_eq_ok {r : Scan α} {c c' : Cursor} {b : β}
    (h : (r >>= f) c = (.ok b, c')) : ∃ a mid, r c = (.ok a, mid) ∧ f a mid = (.ok b, c') := by
  match hr : r c with
  | (.ok a, mid) =>
    rw [bind_of_ok hr] at h
    exact ⟨a, mid, rfl, h⟩
  | (.error e, mid) =>
    rw [bind_of_error hr] at h
    cases h

end Scan

/-! ## Steps -/

/-- The steps so far, `slack` of them not yet paid for by bytes. -/
def Paid (buf : Bytes) (slack : ℕ) (c : Cursor) : Prop :=
  c.steps + 8 ≤ c.o + slack ∧ c.steps + 8 ≤ buf.length + slack

/-- From any cursor with this slack, the reader pays for its steps or stops within the bytes. -/
def Paced {α : Type} (buf : Bytes) (slack : ℕ) (r : Scan α) : Prop :=
  ∀ c, Paid buf slack c →
    match r c with
    | (.ok _, c') => Paid buf 0 c'
    | (.error _, c') => c'.steps ≤ buf.length

namespace Paced

variable {buf : Bytes} {α β : Type} {slack : ℕ}

theorem bind {r : Scan α} {f : α → Scan β} (h : Paced buf slack r) (hf : ∀ a, Paced buf 0 (f a)) :
    Paced buf slack (r >>= f) := by
  intro c hc
  have hr := h c hc
  match hrun : r c with
  | (.ok a, mid) =>
    rw [hrun] at hr
    rw [Scan.bind_of_ok hrun]
    exact hf a mid hr
  | (.error e, mid) =>
    rw [hrun] at hr
    rw [Scan.bind_of_error hrun]
    exact hr

theorem pure (a : α) : Paced buf 0 (Pure.pure a : Scan α) := fun _ hc => hc

theorem throw {e : Fault} : Paced buf 0 (Scan.throw e : Scan α) := fun c hc => by
  show c.steps ≤ buf.length
  have := hc.2
  omega

theorem read {width : ℕ} (h : slack < width) (hslack : slack ≤ 7) :
    Paced buf slack (ShardReader.read buf width) := by
  intro c hc
  obtain ⟨hsteps, hlength⟩ := hc
  unfold ShardReader.read
  by_cases hshort : buf.length < c.o + width
  · rw [if_pos hshort]
    show c.steps + 1 ≤ buf.length
    omega
  · rw [if_neg hshort]
    show c.steps + 1 + 8 ≤ c.o + width + 0 ∧ c.steps + 1 + 8 ≤ buf.length + 0
    omega

theorem tick {f : Unit → Scan β} (h : Paced buf 1 (f ())) : Paced buf 0 (ShardReader.tick >>= f) := by
  intro c hc
  obtain ⟨hsteps, hlength⟩ := hc
  apply h ⟨c.o, c.steps + 1⟩
  show c.steps + 1 + 8 ≤ c.o + 1 ∧ c.steps + 1 + 8 ≤ buf.length + 1
  omega

variable {round : ℕ → ℕ}

theorem u32 : Paced buf 0 (ShardReader.u32 buf) := (read (by decide) (by decide)).bind fun _ => pure _

theorem u64 : Paced buf 0 (ShardReader.u64 round buf) :=
  (read (by decide) (by decide)).bind fun _ => pure _

theorem str (hround : Faithful round buf.length) (hslack : slack ≤ 1) :
    Paced buf slack (ShardReader.str round buf) := by
  intro c hc
  obtain ⟨hsteps, hlength⟩ := hc
  by_cases hshort : buf.length < c.o + 8
  · have hread : ShardReader.read buf 8 c = (.error .short, ⟨c.o, c.steps + 1⟩) := if_pos hshort
    have hrun : ShardReader.str round buf c = (.error .short, ⟨c.o, c.steps + 1⟩) :=
      Scan.bind_of_error (Scan.bind_of_error hread)
    rw [hrun]
    show c.steps + 1 ≤ buf.length
    omega
  · have hread : ShardReader.read buf 8 c =
        (.ok ((buf.drop c.o).take 8), ⟨c.o + 8, c.steps + 1⟩) := if_neg hshort
    have hlen : ShardReader.u64 round buf c =
        (.ok (round (leValue ((buf.drop c.o).take 8))), ⟨c.o + 8, c.steps + 1⟩) :=
      Scan.bind_of_ok hread
    have hrun : ShardReader.str round buf c = _ := Scan.bind_of_ok hlen
    rw [hrun]
    have hpast := hround.le (Nat.le_of_not_lt hshort)
      (Nat.le_add_right (c.o + 8) (round (leValue ((buf.drop c.o).take 8))))
    show c.steps + 1 + 1 + 8 ≤ round (c.o + 8 + _) + 0 ∧ c.steps + 1 + 1 + 8 ≤ buf.length + 0
    omega

theorem skip (hround : Faithful round buf.length) (n : ℕ) : Paced buf 0 (ShardReader.skip round n) := by
  intro c hc
  obtain ⟨hsteps, hlength⟩ := hc
  have hpast : c.steps + 8 ≤ round (c.o + n) := hround.le hlength (hsteps.trans (Nat.le_add_right _ _))
  exact ⟨hpast, hlength⟩

theorem strings (hround : Faithful round buf.length) (n : ℕ) :
    Paced buf 0 (ShardReader.strings round buf n) := by
  induction n with
  | zero => exact pure ()
  | succ n ih => exact tick ((str hround (Nat.le_refl 1)).bind fun _ => ih)

theorem plain_pos {type width : ℕ} {decode : Bytes → Value}
    (h : plain round type = some (width, decode)) : 0 < width := by
  unfold plain at h
  split at h
  all_goals cases h
  all_goals decide

theorem value (hround : Faithful round buf.length) (type : ℕ) :
    Paced buf 0 (ShardReader.value round buf type) := by
  unfold ShardReader.value
  by_cases htext : type = 8
  · rw [if_pos htext]
    exact (str hround (Nat.zero_le 1)).bind fun _ => pure _
  rw [if_neg htext]
  by_cases harray : type = 9
  · rw [if_pos harray]
    refine u32.bind fun t => u64.bind fun len => ?_
    by_cases hstrings : t = 8
    · rw [if_pos hstrings]
      exact (strings hround len).bind fun _ => pure _
    · rw [if_neg hstrings]
      exact (skip hround _).bind fun _ => pure _
  rw [if_neg harray]
  match hplain : plain round type with
  | some (width, decode) => exact (read (plain_pos hplain) (by decide)).bind fun _ => pure _
  | none => exact throw

theorem entries (hround : Faithful round buf.length) (n : ℕ) (m : Meta) :
    Paced buf 0 (ShardReader.entries round buf n m) := by
  induction n generalizing m with
  | zero => exact pure m
  | succ n ih =>
    exact tick ((str hround (Nat.le_refl 1)).bind fun key => u32.bind fun type =>
      (value hround type).bind fun v => ih _)

end Paced

theorem steps_le {buf : Bytes} (hround : Faithful round buf.length) :
    (metadataOf round buf).2.steps ≤ buf.length := by
  unfold metadataOf
  by_cases hrefused : buf.length < 24 ∨ buf.take 4 ≠ magic
  · rw [if_pos hrefused]
    exact Nat.zero_le _
  · rw [if_neg hrefused]
    have hlength : 24 ≤ buf.length := by
      by_contra hshort
      exact hrefused (.inl (Nat.lt_of_not_le hshort))
    have hbody : Paced buf 0 (body round buf) :=
      Paced.u64.bind fun _ => Paced.u64.bind fun n => Paced.entries hround n _
    have hpaced := hbody ⟨8, 0⟩ ⟨by decide, by show 0 + 8 ≤ buf.length + 0; omega⟩
    match hrun : body round buf ⟨8, 0⟩ with
    | (.ok m, c) =>
      rw [hrun] at hpaced
      have := hpaced.2
      show c.steps ≤ buf.length
      omega
    | (.error e, c) =>
      rw [hrun] at hpaced
      exact hpaced

/-! ## What a file holds -/

/-- How a value is stored up to its last bytes: a plain value is nothing but these, and before them
stand the length of a text, the type and the count of an array, or all the strings of an array
but the last, and the length of that one. -/
inductive Kind
  | plain (type : ℕ)
  | text (n : ℕ)
  | run (elem n : ℕ)
  | texts (xs : List Bytes) (n : ℕ)

def stored (x : Bytes) : Bytes := leBytes 8 x.length ++ x

namespace Kind

def type : Kind → ℕ
  | plain type => type
  | text _ => 8
  | run _ _ => 9
  | texts _ _ => 9

def head : Kind → Bytes
  | plain _ => []
  | text n => leBytes 8 n
  | run elem n => leBytes 4 elem ++ leBytes 8 n
  | texts xs n => leBytes 4 8 ++ (leBytes 8 (xs.length + 1) ++ (xs.flatMap stored ++ leBytes 8 n))

def need : Kind → ℕ
  | plain type => ((ShardReader.plain id type).map Prod.fst).getD 0
  | text n => n
  | run elem n => n * elementSize elem
  | texts _ n => n

def Formed : Kind → Prop
  | plain type => (ShardReader.plain id type).isSome = true
  | text n => n < 256 ^ 8
  | run elem n => elem < 256 ^ 4 ∧ n < 256 ^ 8 ∧ (elem = 8 → n = 0)
  | texts xs n => xs.length + 1 < 256 ^ 8 ∧ (∀ x ∈ xs, x.length < 256 ^ 8) ∧ n < 256 ^ 8

/-- The file says how many last bytes there are. -/
def Sized : Kind → Prop
  | plain _ => False
  | _ => True

def value (round : ℕ → ℕ) : Kind → Bytes → Option Value
  | plain type, bs => (ShardReader.plain round type).map fun p => p.2 bs
  | text _, bs => some (.str (ofUtf8 bs))
  | run _ _, _ => none
  | texts _ _, _ => none

end Kind

section
variable {round : ℕ → ℕ} {buf : Bytes}

def At (buf : Bytes) (c : Cursor) (bs : Bytes) : Prop := c.o ≤ buf.length ∧ buf.drop c.o = bs

def Past (buf : Bytes) (c : Cursor) : Prop := buf.length < c.o

variable {c : Cursor} {bs : Bytes}

theorem At.length (h : At buf c bs) : c.o + bs.length = buf.length := by
  rw [← h.2, List.length_drop]
  exact Nat.add_sub_cancel' h.1

variable {c' : Cursor} {rest : Bytes}

theorem At.advance {xs : Bytes} (h : At buf c (xs ++ rest))
    (ho : c'.o = c.o + xs.length) : At buf c' rest := by
  have hlength := h.length
  rw [List.length_append] at hlength
  refine ⟨by omega, ?_⟩
  rw [ho, ← List.drop_drop, h.2, List.drop_left]

theorem read_at {xs : Bytes} {width : ℕ} (h : At buf c (xs ++ rest))
    (hwidth : xs.length = width) : ∃ c', read buf width c = (.ok xs, c') ∧ At buf c' rest := by
  have hlength := h.length
  rw [List.length_append] at hlength
  refine ⟨⟨c.o + width, c.steps + 1⟩, ?_, h.advance (by rw [hwidth])⟩
  rw [read, if_neg (by omega), h.2, ← hwidth, List.take_left]

variable {n : ℕ}

theorem u32_at (h : At buf c (leBytes 4 n ++ rest))
    (hn : n < 256 ^ 4) : ∃ c', u32 buf c = (.ok n, c') ∧ At buf c' rest := by
  obtain ⟨c', hread, hat⟩ := read_at h (length_leBytes 4 n)
  refine ⟨c', (Scan.bind_of_ok hread).trans ?_, hat⟩
  rw [leValue_leBytes hn]
  rfl

variable (round) in
theorem u64_at (h : At buf c (leBytes 8 n ++ rest))
    (hn : n < 256 ^ 8) : ∃ c', u64 round buf c = (.ok (round n), c') ∧ At buf c' rest := by
  obtain ⟨c', hread, hat⟩ := read_at h (length_leBytes 8 n)
  refine ⟨c', (Scan.bind_of_ok hread).trans ?_, hat⟩
  rw [leValue_leBytes hn]
  rfl

theorem str_at (hround : Faithful round buf.length) {x : Bytes}
    (h : At buf c (stored x ++ rest)) (hx : x.length < 256 ^ 8) :
    ∃ c', str round buf c = (.ok (ofUtf8 x), c') ∧ At buf c' rest := by
  rw [stored, List.append_assoc] at h
  obtain ⟨mid, hlen, hmid⟩ := u64_at round h hx
  have hlength := hmid.length
  rw [List.length_append] at hlength
  have hexact : round x.length = x.length := hround.eq (by omega)
  have ho : round (mid.o + x.length) = mid.o + x.length := hround.eq (by omega)
  refine ⟨⟨mid.o + x.length, mid.steps + 1⟩, (Scan.bind_of_ok hlen).trans ?_, hmid.advance rfl⟩
  rw [text, hexact, ho, hmid.2, List.take_left]

theorem str_cut (hround : Faithful round buf.length) {x : Bytes}
    (h : At buf c (leBytes 8 n ++ x)) (hn : n < 256 ^ 8) (hx : x.length < n) :
    ∃ c', str round buf c = (.ok (ofUtf8 x), c') ∧ Past buf c' := by
  obtain ⟨mid, hlen, hmid⟩ := u64_at round h hn
  have hlength := hmid.length
  have hlong : x.length < round n := by
    by_contra hle
    exact absurd ((hround x.length (by omega) n).mp (Nat.le_of_not_lt hle)) (Nat.not_le_of_lt hx)
  refine ⟨⟨round (mid.o + round n), mid.steps + 1⟩, (Scan.bind_of_ok hlen).trans ?_, ?_⟩
  · rw [text, hmid.2, List.take_of_length_le (Nat.le_of_lt hlong)]
  · exact hround.lt (by omega)

theorem strings_at (hround : Faithful round buf.length) (xs : List Bytes)
    (h : At buf c (xs.flatMap stored ++ rest)) (hxs : ∀ x ∈ xs, x.length < 256 ^ 8) :
    ∃ c', At buf c' rest ∧
      ∀ more, strings round buf (xs.length + more) c = strings round buf more c' := by
  induction xs generalizing c with
  | nil => exact ⟨c, h, fun more => by rw [List.length_nil, Nat.zero_add]⟩
  | cons x xs ih =>
    rw [List.flatMap_cons, List.append_assoc] at h
    obtain ⟨mid, hstr, hmid⟩ := str_at hround (c := ⟨c.o, c.steps + 1⟩) h (hxs x List.mem_cons_self)
    obtain ⟨c', hc', hrun⟩ := ih hmid fun y hy => hxs y (List.mem_cons_of_mem x hy)
    refine ⟨c', hc', fun more => ?_⟩
    rw [List.length_cons, Nat.add_right_comm, strings]
    exact (Scan.bind_of_ok hstr).trans (hrun more)

theorem length_le_flatMap_stored (xs : List Bytes) : xs.length ≤ (xs.flatMap stored).length := by
  induction xs with
  | nil => exact Nat.le_refl _
  | cons x xs ih =>
    rw [List.flatMap_cons, List.length_append, List.length_cons, stored, List.length_append,
      length_leBytes]
    omega

theorem Faithful.mul_le_iff {bound : ℕ} (h : Faithful round bound) {k : ℕ} (hk : k ≤ bound)
    (n s : ℕ) : round n * s ≤ k ↔ n * s ≤ k := by
  rcases Nat.eq_zero_or_pos s with rfl | hs
  · simp only [Nat.mul_zero]
  · rw [← Nat.le_div_iff_mul_le hs, ← Nat.le_div_iff_mul_le hs]
    exact h _ ((Nat.div_le_self k s).trans hk) n

theorem Faithful.mul_eq {bound : ℕ} (h : Faithful round bound) {s : ℕ} (hn : n * s ≤ bound) :
    round n * s = n * s := by
  rcases Nat.eq_zero_or_pos s with rfl | hs
  · simp only [Nat.mul_zero]
  · rw [h.eq ((Nat.le_mul_of_pos_right n hs).trans hn)]

theorem plain_fst (round : ℕ → ℕ) (type : ℕ) :
    (plain round type).map Prod.fst = (plain id type).map Prod.fst := by
  unfold plain
  split <;> rfl

theorem plain_isSome {type : ℕ} (h : (plain id type).isSome = true) :
    type ≠ 8 ∧ type ≠ 9 ∧ type < 256 ^ 4 := by
  unfold plain at h
  split at h
  all_goals first | exact absurd h Bool.false_ne_true | decide

theorem Kind.Formed.type_lt {k : Kind} (h : k.Formed) : k.type < 256 ^ 4 := by
  cases k with
  | plain type => exact (plain_isSome h).2.2
  | text n => exact (by decide : 8 < 256 ^ 4)
  | run elem n => exact (by decide : 9 < 256 ^ 4)
  | texts xs n => exact (by decide : 9 < 256 ^ 4)

theorem value_text (round : ℕ → ℕ) (buf : Bytes) :
    ShardReader.value round buf 8 = str round buf >>= fun s => pure (some (.str s)) := if_pos rfl

theorem value_array (round : ℕ → ℕ) (buf : Bytes) :
    ShardReader.value round buf 9 = u32 buf >>= fun t => u64 round buf >>= fun len =>
      (if t = 8 then strings round buf len else skip round (len * elementSize t)) >>= fun _ =>
        pure none := by
  rw [ShardReader.value, if_neg (by decide), if_pos rfl]
  congr 1
  funext t
  congr 1
  funext len
  split_ifs <;> rfl

theorem value_plain {type width : ℕ} {decode : Bytes → Value}
    (h : plain round type = some (width, decode)) : ShardReader.value round buf type =
      read buf width >>= fun bs => pure (some (decode bs)) := by
  have hsome : (plain id type).isSome = true := by
    have hfst := plain_fst round type
    rw [h] at hfst
    cases hid : plain id type with
    | none => rw [hid] at hfst; cases hfst
    | some p => rfl
  obtain ⟨h8, h9, -⟩ := plain_isSome hsome
  rw [ShardReader.value, if_neg h8, if_neg h9, h]

theorem value_at (hround : Faithful round buf.length) {k : Kind} (hk : k.Formed)
    (h : At buf c (k.head ++ (bs ++ rest))) (hbs : bs.length = k.need) :
    ∃ c', ShardReader.value round buf k.type c = (.ok (k.value round bs), c') ∧ At buf c' rest := by
  cases k with
  | plain type =>
    obtain ⟨⟨width, decode⟩, hplain⟩ : ∃ p, plain round type = some p := by
      have hfst := plain_fst round type
      cases hp : plain round type with
      | some p => exact ⟨p, rfl⟩
      | none =>
        obtain ⟨p, hid⟩ := Option.isSome_iff_exists.mp hk
        rw [hp, hid] at hfst
        cases hfst
    have hwidth : bs.length = width := by
      rw [hbs, Kind.need, ← plain_fst round type, hplain]
      rfl
    rw [Kind.head, List.nil_append] at h
    obtain ⟨c', hread, hat⟩ := read_at h hwidth
    refine ⟨c', ?_, hat⟩
    rw [Kind.type, value_plain hplain, Scan.bind_of_ok hread, Kind.value, hplain]
    rfl
  | text n =>
    obtain rfl : bs.length = n := hbs
    rw [← List.append_assoc] at h
    obtain ⟨c', hstr, hat⟩ := str_at hround h hk
    refine ⟨c', ?_, hat⟩
    rw [Kind.type, value_text, Scan.bind_of_ok hstr]
    rfl
  | run elem n =>
    obtain ⟨helem, hn, hstrings⟩ := hk
    rw [Kind.head, List.append_assoc] at h
    obtain ⟨c₁, helemRead, hat₁⟩ := u32_at h helem
    obtain ⟨c₂, hnRead, hat₂⟩ := u64_at round hat₁ hn
    have hlength := hat₂.length
    rw [List.length_append, hbs, Kind.need] at hlength
    rw [Kind.type, value_array, Scan.bind_of_ok helemRead, Scan.bind_of_ok hnRead]
    by_cases htext : elem = 8
    · -- no strings at all
      obtain rfl := hstrings htext
      obtain rfl : bs = [] := List.length_eq_zero_iff.mp (hbs.trans (Nat.zero_mul _))
      refine ⟨c₂, ?_, hat₂⟩
      rw [if_pos htext, hround.eq (Nat.zero_le _)]
      rfl
    · rw [if_neg htext]
      refine ⟨⟨c₂.o + bs.length, c₂.steps⟩, ?_, hat₂.advance rfl⟩
      have ho : round (c₂.o + round n * elementSize elem) = c₂.o + bs.length := by
        rw [hround.mul_eq (by omega), hbs]
        exact hround.eq (by show c₂.o + n * elementSize elem ≤ _; omega)
      show (Except.ok none, (⟨round (c₂.o + round n * elementSize elem), c₂.steps⟩ : Cursor)) = _
      rw [ho]
      rfl
  | texts xs n =>
    obtain ⟨hcount, hxs, hn⟩ := hk
    obtain rfl : bs.length = n := hbs
    simp only [Kind.head, List.append_assoc] at h
    obtain ⟨c₁, helemRead, hat₁⟩ := u32_at h (by decide)
    obtain ⟨c₂, hnRead, hat₂⟩ := u64_at round hat₁ hcount
    have hlength := hat₂.length
    have hfew := length_le_flatMap_stored xs
    simp only [List.length_append, length_leBytes] at hlength
    obtain ⟨c₃, hat₃, hrun⟩ := strings_at hround xs hat₂ hxs
    rw [← List.append_assoc] at hat₃
    obtain ⟨c₄, hlast, hat₄⟩ := str_at hround (c := ⟨c₃.o, c₃.steps + 1⟩) hat₃ hn
    refine ⟨c₄, ?_, hat₄⟩
    rw [Kind.type, value_array, Scan.bind_of_ok helemRead, Scan.bind_of_ok hnRead, if_pos rfl,
      hround.eq (by omega)]
    have hall : strings round buf (xs.length + 1) c₂ = (.ok (), c₄) := by
      rw [hrun 1, strings]
      exact (Scan.bind_of_ok hlast).trans rfl
    rw [Scan.bind_of_ok hall]
    rfl

theorem value_cut (hround : Faithful round buf.length) {k : Kind} (hk : k.Formed) (hsized : k.Sized)
    (h : At buf c (k.head ++ bs)) (hbs : bs.length < k.need) :
    ∃ c', ShardReader.value round buf k.type c = (.ok (k.value round bs), c') ∧ Past buf c' := by
  cases k with
  | plain type => exact absurd hsized id
  | text n =>
    obtain ⟨c', hstr, hpast⟩ := str_cut hround h hk hbs
    refine ⟨c', ?_, hpast⟩
    rw [Kind.type, value_text, Scan.bind_of_ok hstr]
    rfl
  | run elem n =>
    obtain ⟨helem, hn, hstrings⟩ := hk
    rw [Kind.head, List.append_assoc] at h
    obtain ⟨c₁, helemRead, hat₁⟩ := u32_at h helem
    obtain ⟨c₂, hnRead, hat₂⟩ := u64_at round hat₁ hn
    have hlength := hat₂.length
    have htext : elem ≠ 8 := by
      intro htext
      rw [Kind.need, hstrings htext, Nat.zero_mul] at hbs
      exact absurd hbs (Nat.not_lt_zero _)
    rw [Kind.type, value_array, Scan.bind_of_ok helemRead, Scan.bind_of_ok hnRead, if_neg htext]
    refine ⟨⟨round (c₂.o + round n * elementSize elem), c₂.steps⟩, rfl, ?_⟩
    have hlong : bs.length < round n * elementSize elem := by
      by_contra hle
      exact absurd ((hround.mul_le_iff (by omega) n _).mp (Nat.le_of_not_lt hle))
        (Nat.not_le_of_lt hbs)
    exact hround.lt (by omega)
  | texts xs n =>
    obtain ⟨hcount, hxs, hn⟩ := hk
    simp only [Kind.head, List.append_assoc] at h
    obtain ⟨c₁, helemRead, hat₁⟩ := u32_at h (by decide)
    obtain ⟨c₂, hnRead, hat₂⟩ := u64_at round hat₁ hcount
    have hlength := hat₂.length
    have hfew := length_le_flatMap_stored xs
    simp only [List.length_append, length_leBytes] at hlength
    obtain ⟨c₃, hat₃, hrun⟩ := strings_at hround xs hat₂ hxs
    obtain ⟨c₄, hlast, hpast⟩ := str_cut hround (c := ⟨c₃.o, c₃.steps + 1⟩) hat₃ hn hbs
    refine ⟨c₄, ?_, hpast⟩
    rw [Kind.type, value_array, Scan.bind_of_ok helemRead, Scan.bind_of_ok hnRead, if_pos rfl,
      hround.eq (by omega)]
    have hall : strings round buf (xs.length + 1) c₂ = (.ok (), c₄) := by
      rw [hrun 1, strings]
      exact (Scan.bind_of_ok hlast).trans rfl
    rw [Scan.bind_of_ok hall]
    rfl

/-! ### Backwards -/

theorem read_inv {width : ℕ} (h : read buf width c = (.ok bs, c')) :
    At buf c (bs ++ buf.drop c'.o) ∧ c'.o ≤ buf.length ∧ bs.length = width := by
  unfold read at h
  by_cases hshort : buf.length < c.o + width
  · rw [if_pos hshort] at h
    cases (Prod.mk.inj h).1
  rw [if_neg hshort] at h
  obtain ⟨hbs, rfl⟩ := Prod.mk.inj h
  obtain rfl := Except.ok.inj hbs
  refine ⟨⟨by omega, ?_⟩, by show c.o + width ≤ _; omega, ?_⟩
  · rw [← List.drop_drop, List.take_append_drop]
  · rw [List.length_take, List.length_drop]
    omega

theorem u32_inv (h : u32 buf c = (.ok n, c')) :
    n < 256 ^ 4 ∧ At buf c (leBytes 4 n ++ buf.drop c'.o) ∧ c'.o ≤ buf.length := by
  obtain ⟨bs, mid, hread, hpure⟩ := Scan.bind_eq_ok h
  obtain ⟨hn, rfl⟩ := Prod.mk.inj hpure
  obtain rfl := Except.ok.inj hn
  obtain ⟨hat, hle, hwidth⟩ := read_inv hread
  rw [← hwidth, leBytes_leValue]
  exact ⟨leValue_lt bs, hat, hle⟩

theorem u64_inv (h : u64 round buf c = (.ok n, c')) :
    ∃ m < 256 ^ 8, n = round m ∧ At buf c (leBytes 8 m ++ buf.drop c'.o) ∧ c'.o ≤ buf.length := by
  obtain ⟨bs, mid, hread, hpure⟩ := Scan.bind_eq_ok h
  obtain ⟨hn, rfl⟩ := Prod.mk.inj hpure
  obtain rfl := Except.ok.inj hn
  obtain ⟨hat, hle, hwidth⟩ := read_inv hread
  refine ⟨leValue bs, hwidth ▸ leValue_lt bs, rfl, ?_, hle⟩
  rwa [← hwidth, leBytes_leValue]

theorem str_inv (hround : Faithful round buf.length) {s : String}
    (h : str round buf c = (.ok s, c')) : ∃ n x, n < 256 ^ 8 ∧ s = ofUtf8 x ∧
      ((x.length = n ∧ At buf c (leBytes 8 n ++ (x ++ buf.drop c'.o)) ∧ c'.o ≤ buf.length) ∨
        (x.length < n ∧ At buf c (leBytes 8 n ++ x) ∧ Past buf c')) := by
  obtain ⟨len, mid, hlen, htext⟩ := Scan.bind_eq_ok h
  obtain ⟨n, hn, rfl, hat, hle⟩ := u64_inv hlen
  obtain ⟨hs, rfl⟩ := Prod.mk.inj htext
  obtain rfl := (Except.ok.inj hs).symm
  by_cases hfit : mid.o + n ≤ buf.length
  · have hexact : round n = n := hround.eq (by omega)
    have ho : round (mid.o + round n) = mid.o + n := by rw [hexact, hround.eq hfit]
    refine ⟨n, (buf.drop mid.o).take n, hn, by rw [hexact], .inl ⟨?_, ?_, ?_⟩⟩
    · rw [List.length_take, List.length_drop]
      omega
    · show At buf c (leBytes 8 n ++ (_ ++ buf.drop (round (mid.o + round n))))
      rwa [ho, ← List.drop_drop, List.take_append_drop]
    · show round (mid.o + round n) ≤ _
      rwa [ho]
  · have hrest : (buf.drop mid.o).length < n := by
      rw [List.length_drop]
      omega
    have hlong : (buf.drop mid.o).length < round n := by
      by_contra hno
      refine absurd ((hround _ ?_ n).mp (Nat.le_of_not_lt hno)) (Nat.not_le_of_lt hrest)
      rw [List.length_drop]
      exact Nat.sub_le _ _
    refine ⟨n, buf.drop mid.o, hn, by rw [List.take_of_length_le (Nat.le_of_lt hlong)],
      .inr ⟨hrest, hat, hround.lt ?_⟩⟩
    rw [List.length_drop] at hlong
    omega

theorem str_of_past {s : String} (hpast : Past buf c) :
    str round buf c ≠ (.ok s, c') := by
  intro h
  obtain ⟨len, mid, hlen, -⟩ := Scan.bind_eq_ok h
  obtain ⟨m, -, -, hat, -⟩ := u64_inv hlen
  exact absurd hat.1 (Nat.not_le_of_lt hpast)

theorem strings_inv (hround : Faithful round buf.length)
    (hc : c.o ≤ buf.length) (h : strings round buf n c = (.ok (), c')) :
    (∃ xs : List Bytes, xs.length = n ∧ (∀ x ∈ xs, x.length < 256 ^ 8) ∧
      At buf c (xs.flatMap stored ++ buf.drop c'.o) ∧ c'.o ≤ buf.length) ∨
    ∃ (xs : List Bytes) (m : ℕ) (x : Bytes), xs.length + 1 = n ∧ (∀ x ∈ xs, x.length < 256 ^ 8) ∧
      m < 256 ^ 8 ∧ x.length < m ∧ At buf c (xs.flatMap stored ++ (leBytes 8 m ++ x)) ∧
      Past buf c' := by
  induction n generalizing c with
  | zero =>
    obtain ⟨-, rfl⟩ := Prod.mk.inj h
    exact .inl ⟨[], rfl, fun x hx => absurd hx List.not_mem_nil, ⟨hc, rfl⟩, hc⟩
  | succ n ih =>
    obtain ⟨s, mid, hstr, hrest⟩ := Scan.bind_eq_ok (r := str round buf) (c := ⟨c.o, c.steps + 1⟩) h
    obtain ⟨m, x, hm, -, ⟨hx, hat, hle⟩ | ⟨hx, hat, hpast⟩⟩ := str_inv hround hstr
    · have hstored : At buf c (stored x ++ buf.drop mid.o) := by
        rw [stored, List.append_assoc, hx]
        exact hat
      rcases ih hle hrest with ⟨xs, hlen, hxs, hat', hle'⟩ | ⟨xs, m', y, hlen, hxs, hm', hy, hat', hpast⟩
      · refine .inl ⟨x :: xs, congrArg Nat.succ hlen, List.forall_mem_cons.mpr ⟨hx ▸ hm, hxs⟩, ?_, hle'⟩
        rw [List.flatMap_cons, List.append_assoc, ← hat'.2]
        exact hstored
      · refine .inr ⟨x :: xs, m', y, congrArg Nat.succ hlen,
          List.forall_mem_cons.mpr ⟨hx ▸ hm, hxs⟩, hm', hy, ?_, hpast⟩
        rw [List.flatMap_cons, List.append_assoc, ← hat'.2]
        exact hstored
    · -- the bytes end in this string, so it is the last
      cases n with
      | zero =>
        obtain ⟨-, rfl⟩ := Prod.mk.inj hrest
        exact .inr ⟨[], m, x, rfl, fun x hx => absurd hx List.not_mem_nil, hm, hx, hat, hpast⟩
      | succ n =>
        obtain ⟨s', mid', hstr', -⟩ :=
          Scan.bind_eq_ok (r := str round buf) (c := ⟨mid.o, mid.steps + 1⟩) hrest
        exact absurd hstr' (str_of_past (c := ⟨mid.o, mid.steps + 1⟩) hpast)

theorem Faithful.of_eq {bound : ℕ} (h : Faithful round bound) {m : ℕ} (hn : n ≤ bound)
    (hmn : n = round m) : m = n := by
  have hm : m ≤ n := (h n hn m).mp (Nat.le_of_eq hmn.symm)
  rw [hmn, h.eq (hm.trans hn)]

theorem value_inv (hround : Faithful round buf.length) {type : ℕ} {v : Option Value}
    (h : ShardReader.value round buf type c = (.ok v, c')) :
    ∃ (k : Kind) (bs : Bytes), k.Formed ∧ k.type = type ∧ v = k.value round bs ∧
      ((bs.length = k.need ∧ At buf c (k.head ++ (bs ++ buf.drop c'.o)) ∧ c'.o ≤ buf.length) ∨
        (k.Sized ∧ bs.length < k.need ∧ At buf c (k.head ++ bs) ∧ Past buf c')) := by
  by_cases htext : type = 8
  · subst htext
    rw [value_text] at h
    obtain ⟨s, mid, hstr, hpure⟩ := Scan.bind_eq_ok h
    obtain ⟨hv, rfl⟩ := Prod.mk.inj hpure
    obtain ⟨n, x, hn, rfl, hread⟩ := str_inv hround hstr
    refine ⟨.text n, x, hn, rfl, (Except.ok.inj hv).symm, hread.imp_right fun hcut => ⟨trivial, hcut⟩⟩
  by_cases harray : type = 9
  · subst harray
    rw [value_array] at h
    obtain ⟨elem, c₁, helem, h⟩ := Scan.bind_eq_ok h
    obtain ⟨len, c₂, hlen, h⟩ := Scan.bind_eq_ok h
    obtain ⟨u, c₃, hskip, hpure⟩ := Scan.bind_eq_ok h
    obtain ⟨hv, rfl⟩ := Prod.mk.inj hpure
    obtain ⟨helemLt, hat₁, hle₁⟩ := u32_inv helem
    obtain ⟨n, hn, rfl, hat₂, hle₂⟩ := u64_inv hlen
    have hhead : At buf c (leBytes 4 elem ++ (leBytes 8 n ++ buf.drop c₂.o)) := by
      rwa [← hat₂.2]
    have hroom := hhead.length
    simp only [List.length_append, length_leBytes] at hroom
    by_cases hstrings : elem = 8
    · subst hstrings
      rw [if_pos rfl] at hskip
      rcases strings_inv hround hle₂ hskip with ⟨xs, hlength, hxs, hat₃, hle₃⟩ |
        ⟨xs, m, x, hlength, hxs, hm, hx, hat₃, hpast⟩
      · have hbytes := hat₃.length
        have hfew := length_le_flatMap_stored xs
        rw [List.length_append] at hbytes
        obtain rfl := hround.of_eq (by omega) hlength
        rcases List.eq_nil_or_concat xs with rfl | ⟨ys, y, rfl⟩
        · refine ⟨.run 8 0, [], ⟨by decide, by decide, fun _ => rfl⟩, rfl, (Except.ok.inj hv).symm,
            .inl ⟨rfl, ?_, hle₃⟩⟩
          rw [hat₃.2] at hhead
          rw [Kind.head, List.append_assoc]
          exact hhead
        · rw [List.concat_eq_append] at hn hxs hat₃ hhead
          rw [List.length_append, List.length_singleton] at hn hhead
          refine ⟨.texts ys y.length, y, ⟨hn, fun x hx => hxs x (List.mem_append_left _ hx),
            hxs y (List.mem_append_right _ (List.mem_singleton.mpr rfl))⟩, rfl,
            (Except.ok.inj hv).symm, .inl ⟨rfl, ?_, hle₃⟩⟩
          rw [hat₃.2, List.flatMap_append, List.flatMap_singleton] at hhead
          simpa only [Kind.head, stored, List.append_assoc] using hhead
      · have hbytes := hat₃.length
        have hfew := length_le_flatMap_stored xs
        simp only [List.length_append, length_leBytes] at hbytes
        obtain rfl := hround.of_eq (by omega) hlength
        refine ⟨.texts xs m, x, ⟨hn, hxs, hm⟩, rfl, (Except.ok.inj hv).symm,
          .inr ⟨trivial, hx, ?_, hpast⟩⟩
        rw [hat₃.2] at hhead
        simpa only [Kind.head, List.append_assoc] using hhead
    · rw [if_neg hstrings] at hskip
      obtain ⟨-, rfl⟩ := Prod.mk.inj hskip
      refine ⟨.run elem n, (buf.drop c₂.o).take (n * elementSize elem),
        ⟨helemLt, hn, fun he => absurd he hstrings⟩, rfl, (Except.ok.inj hv).symm, ?_⟩
      by_cases hfit : c₂.o + n * elementSize elem ≤ buf.length
      · have ho : round (c₂.o + round n * elementSize elem) = c₂.o + n * elementSize elem := by
          rw [hround.mul_eq (by omega), hround.eq hfit]
        refine .inl ⟨?_, ?_, ?_⟩
        · rw [List.length_take, List.length_drop]
          show min (n * elementSize elem) _ = n * elementSize elem
          omega
        · show At buf c (_ ++ (_ ++ buf.drop (round (c₂.o + round n * elementSize elem))))
          rwa [ho, ← List.drop_drop, List.take_append_drop, Kind.head, List.append_assoc]
        · show round (c₂.o + round n * elementSize elem) ≤ _
          rwa [ho]
      · have hrest : (buf.drop c₂.o).length < n * elementSize elem := by
          rw [List.length_drop]
          omega
        rw [List.take_of_length_le (Nat.le_of_lt hrest)]
        refine .inr ⟨trivial, hrest, by rwa [Kind.head, List.append_assoc], hround.lt ?_⟩
        by_contra hno
        rw [Nat.not_lt, Nat.add_comm, ← Nat.le_sub_iff_add_le hle₂,
          hround.mul_le_iff (Nat.sub_le _ _)] at hno
        omega
  · cases hplain : plain round type with
    | none =>
      rw [ShardReader.value, if_neg htext, if_neg harray, hplain] at h
      cases h
    | some p =>
      rw [value_plain hplain] at h
      obtain ⟨bs, mid, hread, hpure⟩ := Scan.bind_eq_ok h
      obtain ⟨hv, rfl⟩ := Prod.mk.inj hpure
      obtain ⟨hat, hle, hwidth⟩ := read_inv hread
      have hfst := plain_fst round type
      rw [hplain] at hfst
      refine ⟨.plain type, bs, ?_, rfl, ?_, .inl ⟨?_, hat, hle⟩⟩
      · show (plain id type).isSome = true
        cases hid : plain id type with
        | none => rw [hid] at hfst; cases hfst
        | some q => rfl
      · rw [Kind.value, hplain]
        exact (Except.ok.inj hv).symm
      · rw [Kind.need, ← hfst, hwidth]
        rfl

end

end KvasirNet.ShardReader
