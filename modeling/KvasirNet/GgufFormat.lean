import KvasirNet.Binary64
import KvasirNet.DoubleNat
import KvasirNet.Utf8Text

/-! The header of a GGUF file: metadata, then a directory of tensors. The two
programs that read it differ in what they make of a 64-bit integer, so one reader
is written for both and the integers are a parameter. -/
namespace KvasirNet.Gguf

inductive Value
  | int (n : ℤ)
  | float (x : Num)
  | bool (b : Bool)
  | str (s : String)
  | list (xs : List Value)

structure RawTensor where
  name : String
  dims : List ℕ
  type : ℕ
  offset : ℕ
  deriving DecidableEq, Repr

/-- What a reader holds once the header is read: `headerEnd` bytes of it. -/
structure Header where
  version : ℕ
  metadata : List (String × Value)
  tensors : List RawTensor
  headerEnd : ℕ

/-- The last entry of a key is the one that is kept. -/
def Header.get (h : Header) (key : String) : Option Value :=
  (h.metadata.reverse.find? fun e => e.1 == key).map Prod.snd

/-- Why a header is refused; `inexact` is only of the reader that checks. -/
inductive Fault
  | short
  | magic
  | valueType
  | depth
  | inexact
  deriving DecidableEq, Repr

structure Integers where
  u64 : ℕ → Except Fault ℕ
  i64 : ℤ → Except Fault ℤ

/-- `Number(readBigUInt64LE)` and `Number(readBigInt64LE)`. -/
def numbers : Integers where
  u64 := fun n => .ok (toNumber n)
  i64 := fun n => .ok (if 0 ≤ n then toNumber n.toNat else -toNumber (-n).toNat)

/-- `struct.unpack`. -/
def unbounded : Integers where
  u64 := .ok
  i64 := .ok

def checked : Integers where
  u64 := fun n => if n < 2 ^ 53 then .ok n else .error .inexact
  i64 := fun n => if |n| < 2 ^ 53 then .ok n else .error .inexact

/-! ## Reading -/

/-- A number of so many bytes in two's complement. -/
def signed (width n : ℕ) : ℤ := if n < 2 ^ (8 * width - 1) then n else (n : ℤ) - 2 ^ (8 * width)

/-- The value of the bits of a float with so many bits of exponent and fraction. -/
def floatValue (expBits fracBits bits : ℕ) : Num :=
  let frac := bits % 2 ^ fracBits
  let exp := bits / 2 ^ fracBits % 2 ^ expBits
  let negative := bits / 2 ^ (fracBits + expBits) % 2 = 1
  let bias : ℤ := 2 ^ (expBits - 1) - 1
  if exp = 2 ^ expBits - 1 then
    if frac ≠ 0 then .nan else if negative then .negInf else .posInf
  else
    let q : ℚ := if exp = 0 then frac * 2 ^ (1 - bias - fracBits)
      else (2 ^ fracBits + frac) * 2 ^ ((exp : ℤ) - bias - fracBits)
    .fin (if negative then -q else q)

def uint (width : ℕ) : Reader Fault ℕ := do
  let bs ← Reader.take .short width
  pure (leValue bs)

def sint (width : ℕ) : Reader Fault ℤ := do
  let n ← uint width
  pure (signed width n)

section Parser
variable (k : Integers)

def u64 : Reader Fault ℕ := do
  let n ← uint 8
  (k.u64 n : Except Fault ℕ)

def i64 : Reader Fault ℤ := do
  let n ← sint 8
  (k.i64 n : Except Fault ℤ)

def str : Reader Fault String := do
  let n ← u64 k
  let bs ← Reader.take .short n
  pure (ofUtf8 bs)

def scalar : ℕ → Reader Fault Value
  | 0 => do let n ← uint 1; pure (.int n)
  | 1 => do let n ← sint 1; pure (.int n)
  | 2 => do let n ← uint 2; pure (.int n)
  | 3 => do let n ← sint 2; pure (.int n)
  | 4 => do let n ← uint 4; pure (.int n)
  | 5 => do let n ← sint 4; pure (.int n)
  | 6 => do let n ← uint 4; pure (.float (floatValue 8 23 n))
  | 7 => do let n ← uint 1; pure (.bool (n != 0))
  | 8 => do let s ← str k; pure (.str s)
  | 10 => do let n ← u64 k; pure (.int n)
  | 11 => do let n ← i64 k; pure (.int n)
  | 12 => do let n ← uint 8; pure (.float (floatValue 11 52 n))
  | _ => throw .valueType

/-- A value of a type. Arrays nest, each level at least twelve bytes further on. -/
def value : ℕ → ℕ → Reader Fault Value
  | 0, type => if type = 9 then throw .depth else scalar k type
  | fuel + 1, type =>
    if type = 9 then do
      let elem ← uint 4
      let n ← u64 k
      let xs ← Reader.many (value fuel elem) n
      pure (.list xs)
    else scalar k type

def entry (fuel : ℕ) : Reader Fault (String × Value) := do
  let key ← str k
  let type ← uint 4
  let v ← value k fuel type
  pure (key, v)

def tensor : Reader Fault RawTensor := do
  let name ← str k
  let nDims ← uint 4
  let dims ← Reader.many (u64 k) nDims
  let type ← uint 4
  let offset ← u64 k
  pure ⟨name, dims, type, offset⟩

def magic : Bytes := [71, 71, 85, 70]

def directory (fuel : ℕ) : Reader Fault (ℕ × List (String × Value) × List RawTensor) := do
  let start ← Reader.take .short 4
  if start = magic then do
    let version ← uint 4
    let tensorCount ← u64 k
    let kvCount ← u64 k
    let metadata ← Reader.many (entry k fuel) kvCount
    let tensors ← Reader.many (tensor k) tensorCount
    pure (version, metadata, tensors)
  else throw .magic

def readHeader (file : Bytes) : Except Fault Header :=
  match directory k file.length file with
  | .ok (d, rest) => .ok ⟨d.1, d.2.1, d.2.2, file.length - rest.length⟩
  | .error e => .error e

end Parser

/-! ## Walking through the readers

The parser is built of few readers. What these have and binding keeps, the parser has. -/

/-- A relation of the readers of `k` to those of `k'`. -/
structure Walk (k k' : Integers) (R : ∀ {α : Type}, Reader Fault α → Reader Fault α → Prop) :
    Prop where
  pure : ∀ {α : Type} (a : α), R (Pure.pure a) (Pure.pure a)
  throw : ∀ {α : Type} {e : Fault}, e ≠ .depth →
    R (MonadExcept.throw e : Reader Fault α) (MonadExcept.throw e)
  take : ∀ n, R (Reader.take .short n) (Reader.take .short n)
  bind : ∀ {α β : Type} {r r' : Reader Fault α} {f f' : α → Reader Fault β}, R r r' →
    (∀ a, R (f a) (f' a)) → R (r >>= f) (r' >>= f')
  u64 : ∀ n, R (liftM (k.u64 n) : Reader Fault ℕ) (liftM (k'.u64 n))
  i64 : ∀ n, R (liftM (k.i64 n) : Reader Fault ℤ) (liftM (k'.i64 n))

/-- The directory behind the four bytes of its magic. -/
def behindMagic (k : Integers) (fuel : ℕ) (start : Bytes) :
    Reader Fault (ℕ × List (String × Value) × List RawTensor) :=
  if start = magic then do
    let version ← uint 4
    let tensorCount ← u64 k
    let kvCount ← u64 k
    let metadata ← Reader.many (entry k fuel) kvCount
    let tensors ← Reader.many (tensor k) tensorCount
    pure (version, metadata, tensors)
  else throw .magic

theorem directory_eq (k : Integers) (fuel : ℕ) :
    directory k fuel = Reader.take .short 4 >>= behindMagic k fuel := rfl

namespace Walk

variable {k k' : Integers} {R : ∀ {α : Type}, Reader Fault α → Reader Fault α → Prop}
  (h : Walk k k' R) {fuel fuel' : ℕ}
include h

theorem many {α : Type} {r r' : Reader Fault α} (hr : R r r') (n : ℕ) :
    R (Reader.many r n) (Reader.many r' n) := by
  induction n with
  | zero => exact h.pure []
  | succ n ih => exact h.bind hr fun a => h.bind ih fun xs => h.pure _

theorem uint (width : ℕ) : R (Gguf.uint width) (Gguf.uint width) :=
  h.bind (h.take width) fun _ => h.pure _

theorem sint (width : ℕ) : R (Gguf.sint width) (Gguf.sint width) :=
  h.bind (h.uint width) fun _ => h.pure _

theorem word : R (Gguf.u64 k) (Gguf.u64 k') := h.bind (h.uint 8) h.u64

theorem str : R (Gguf.str k) (Gguf.str k') :=
  h.bind h.word fun n => h.bind (h.take n) fun _ => h.pure _

theorem scalar : ∀ type, R (Gguf.scalar k type) (Gguf.scalar k' type)
  | 0 | 2 | 4 | 6 | 7 | 12 => h.bind (h.uint _) fun _ => h.pure _
  | 1 | 3 | 5 => h.bind (h.sint _) fun _ => h.pure _
  | 8 => h.bind h.str fun _ => h.pure _
  | 10 => h.bind h.word fun _ => h.pure _
  | 11 => h.bind (h.bind (h.sint 8) h.i64) fun _ => h.pure _
  | 9 | _ + 13 => h.throw (by decide)

theorem value_zero (hdepth : R (value k 0 9) (value k' fuel 9)) (type : ℕ) :
    R (value k 0 type) (value k' fuel type) := by
  by_cases harray : type = 9
  · rw [harray]
    exact hdepth
  · have hscalar (k : Integers) (n : ℕ) : value k n type = Gguf.scalar k type := by
      cases n <;> exact if_neg harray
    rw [hscalar, hscalar]
    exact h.scalar type

theorem value_succ (ih : ∀ type, R (value k fuel type) (value k' fuel' type)) (type : ℕ) :
    R (value k (fuel + 1) type) (value k' (fuel' + 1) type) := by
  rw [value, value]
  split_ifs
  · apply h.bind (h.uint 4)
    intro elem
    apply h.bind h.word
    intro n
    exact h.bind (h.many (ih elem) n) fun _ => h.pure _
  · exact h.scalar type

theorem entry (hvalue : ∀ type, R (value k fuel type) (value k' fuel' type)) :
    R (Gguf.entry k fuel) (Gguf.entry k' fuel') := by
  apply h.bind h.str
  intro key
  apply h.bind (h.uint 4)
  intro type
  exact h.bind (hvalue type) fun _ => h.pure _

theorem tensor : R (Gguf.tensor k) (Gguf.tensor k') := by
  apply h.bind h.str
  intro name
  apply h.bind (h.uint 4)
  intro nDims
  apply h.bind (h.many h.word nDims)
  intro dims
  apply h.bind (h.uint 4)
  intro type
  exact h.bind h.word fun _ => h.pure _

theorem behindMagic (hvalue : ∀ type, R (value k fuel type) (value k' fuel' type))
    (start : Bytes) : R (Gguf.behindMagic k fuel start) (Gguf.behindMagic k' fuel' start) := by
  unfold Gguf.behindMagic
  split_ifs
  · apply h.bind (h.uint 4)
    intro version
    apply h.bind h.word
    intro tensorCount
    apply h.bind h.word
    intro kvCount
    apply h.bind (h.many (h.entry hvalue) kvCount)
    intro metadata
    exact h.bind (h.many h.tensor tensorCount) fun _ => h.pure _
  · exact h.throw (by decide)

end Walk

/-! ## Nesting

A file is long enough for every depth that it can nest to. -/

/-- On less than `limit` bytes the reader does not run out of depth, and it
leaves no more than it got. -/
def Shallow {α : Type} (limit : ℕ) (r : Reader Fault α) : Prop :=
  ∀ bs, bs.length < limit →
    r bs ≠ .error .depth ∧ ∀ a rest, r bs = .ok (a, rest) → rest.length ≤ bs.length

namespace Shallow
variable {α β : Type} {limit : ℕ}

theorem pure (a : α) : Shallow limit (Pure.pure a : Reader Fault α) := by
  intro bs _
  refine ⟨fun h => (nomatch h), fun b rest h => ?_⟩
  obtain ⟨rfl, rfl⟩ := Prod.mk.inj (Except.ok.inj h)
  exact le_rfl

theorem throw {e : Fault} (he : e ≠ .depth) : Shallow limit (MonadExcept.throw e : Reader Fault α) := by
  intro bs _
  refine ⟨fun h => he (Except.error.inj h), fun b rest h => by cases h⟩

theorem take (n : ℕ) : Shallow limit (Reader.take Fault.short n) := by
  intro bs _
  refine ⟨fun h => ?_, fun xs rest h => ?_⟩
  · unfold Reader.take at h
    split_ifs at h
    cases h
  · obtain ⟨rfl, -⟩ := Reader.take_eq_ok h
    simp

theorem bind {r : Reader Fault α} {f : α → Reader Fault β} (h : Shallow limit r)
    (hf : ∀ a, Shallow limit (f a)) : Shallow limit (r >>= f) := by
  intro bs hbs
  obtain ⟨hdepth, hrest⟩ := h bs hbs
  cases hr : r bs with
  | error e =>
    have hall : (r >>= f) bs = .error e := by
      simp only [Bind.bind, StateT.bind, Except.bind, hr]
    rw [hall]
    rw [hr] at hdepth
    exact ⟨fun he => hdepth (by rw [Except.error.inj he]), fun b rest he => by cases he⟩
  | ok x =>
    obtain ⟨a, mid⟩ := x
    rw [Reader.bind_of_ok hr]
    have hmid := hrest a mid hr
    obtain ⟨hdepth', hrest'⟩ := hf a mid (lt_of_le_of_lt hmid hbs)
    exact ⟨hdepth', fun b rest he => (hrest' b rest he).trans hmid⟩

theorem take_bind {n : ℕ} {f : Bytes → Reader Fault β} (hn : 0 < n) (hf : ∀ a, Shallow limit (f a)) :
    Shallow (limit + 1) (Reader.take Fault.short n >>= f) := by
  intro bs hbs
  by_cases hlen : bs.length < n
  · have hall : (Reader.take Fault.short n >>= f) bs = .error .short := by
      simp [Bind.bind, StateT.bind, Except.bind, Reader.take, hlen]
    rw [hall]
    refine ⟨fun he => ?_, fun b rest he => ?_⟩
    · cases he
    · cases he
  · have htake : Reader.take Fault.short n bs = .ok (bs.take n, bs.drop n) := if_neg hlen
    rw [Reader.bind_of_ok htake]
    have hdrop : (bs.drop n).length < limit := by
      rw [List.length_drop]
      omega
    obtain ⟨hdepth, hrest⟩ := hf (bs.take n) (bs.drop n) hdrop
    refine ⟨hdepth, fun b rest he => (hrest b rest he).trans ?_⟩
    rw [List.length_drop]
    omega

end Shallow

/-- Integers that are held or refused, but not for their depth. -/
structure Integers.Flat (k : Integers) : Prop where
  u64 : ∀ n, k.u64 n ≠ .error .depth
  i64 : ∀ n, k.i64 n ≠ .error .depth

theorem numbers_flat : numbers.Flat := ⟨fun _ h => (nomatch h), fun _ h => (nomatch h)⟩

theorem shallow_lift {α : Type} {limit : ℕ} {x : Except Fault α} (hx : x ≠ .error .depth) :
    Shallow limit (liftM x : Reader Fault α) := by
  cases x with
  | error e => exact Shallow.throw fun he => hx (by rw [he])
  | ok a => exact Shallow.pure a

section
variable {k : Integers} (hk : k.Flat)
include hk

theorem shallow_walk (limit : ℕ) : Walk k k (fun {_} r _ => Shallow limit r) where
  pure := Shallow.pure
  throw := Shallow.throw
  take := Shallow.take
  bind := Shallow.bind
  u64 n := shallow_lift (hk.u64 n)
  i64 n := shallow_lift (hk.i64 n)

theorem value_shallow (fuel type : ℕ) : Shallow fuel (value k fuel type) := by
  induction fuel generalizing type with
  | zero => exact fun bs hbs => absurd hbs (Nat.not_lt_zero _)
  | succ fuel ih =>
    unfold value
    split_ifs
    · rw [uint, bind_assoc]
      apply Shallow.take_bind (by decide)
      intro bs
      rw [pure_bind]
      apply (shallow_walk hk fuel).word.bind
      intro n
      have hmany : Shallow fuel (Reader.many (value k fuel (leValue bs)) n) :=
        @Walk.many _ _ _ (shallow_walk hk fuel) _ _ (value k fuel 0) (ih _) n
      exact hmany.bind fun _ => Shallow.pure _
    · exact (shallow_walk hk _).scalar type

theorem readHeader_ne_depth (file : Bytes) : readHeader k file ≠ .error .depth := by
  have hdirectory : Shallow (file.length + 1) (directory k file.length) :=
    Shallow.take_bind (by decide) fun start =>
      @Walk.behindMagic _ _ _ (shallow_walk hk _) _ file.length (value_shallow hk file.length) start
  have hfile := (hdirectory file (Nat.lt_succ_self _)).1
  unfold readHeader
  cases hd : directory k file.length file with
  | ok x => exact fun he => (nomatch he)
  | error e =>
    rw [hd] at hfile
    exact fun he => hfile (by rw [Except.error.inj he])

end

/-! ## Readers of exact integers -/

/-- What the checking reader takes, `k` holds as it is. -/
structure Integers.Exact (k : Integers) : Prop where
  u64 : ∀ n, n < 2 ^ 53 → k.u64 n = .ok n
  i64 : ∀ n, |n| < 2 ^ 53 → k.i64 n = .ok n

theorem unbounded_exact : unbounded.Exact := ⟨fun _ _ => rfl, fun _ _ => rfl⟩

theorem numbers_exact : numbers.Exact where
  u64 := by
    intro n h
    simp only [numbers, toNumber_of_lt h]
  i64 := by
    intro n h
    obtain ⟨hlo, hhi⟩ := abs_lt.mp h
    simp only [numbers]
    split_ifs with hn
    · rw [toNumber_of_lt (by omega), Int.toNat_of_nonneg hn]
    · rw [toNumber_of_lt (by omega), Int.toNat_of_nonneg (by omega), neg_neg]

/-- `r` does what `c` does, unless `c` finds an integer too large. -/
def Follows {α : Type} (r c : Reader Fault α) : Prop :=
  ∀ bs, c bs = .error .inexact ∨ r bs = c bs

namespace Follows
variable {α β : Type}

theorem refl (r : Reader Fault α) : Follows r r := fun _ => Or.inr rfl

theorem bind {r c : Reader Fault α} {f g : α → Reader Fault β} (h : Follows r c)
    (hf : ∀ a, Follows (f a) (g a)) : Follows (r >>= f) (c >>= g) := by
  intro bs
  rcases h bs with hbad | heq
  · left
    simp only [Bind.bind, StateT.bind, Except.bind, hbad]
  · cases hc : c bs with
    | error e =>
      right
      simp only [Bind.bind, StateT.bind, Except.bind, heq, hc]
    | ok x =>
      obtain ⟨a, mid⟩ := x
      rw [Reader.bind_of_ok hc, Reader.bind_of_ok (heq.trans hc)]
      exact hf a mid

end Follows

section
variable {k : Integers} (hk : k.Exact)
include hk

theorem follows_walk : Walk k checked @Follows where
  pure _ := Follows.refl _
  throw _ := Follows.refl _
  take _ := Follows.refl _
  bind := Follows.bind
  u64 n bs := by
    by_cases hn : n < 2 ^ 53
    · right
      have hc : checked.u64 n = .ok n := if_pos hn
      rw [hk.u64 n hn, hc]
    · left
      have hc : checked.u64 n = .error .inexact := if_neg hn
      rw [hc]
      rfl
  i64 n bs := by
    by_cases hn : |n| < 2 ^ 53
    · right
      have hc : checked.i64 n = .ok n := if_pos hn
      rw [hk.i64 n hn, hc]
    · left
      have hc : checked.i64 n = .error .inexact := if_neg hn
      rw [hc]
      rfl

theorem value_follows (fuel type : ℕ) : Follows (value k fuel type) (value checked fuel type) := by
  induction fuel generalizing type with
  | zero => exact (follows_walk hk).value_zero (Follows.refl _) type
  | succ fuel ih => exact (follows_walk hk).value_succ ih type

theorem directory_follows (fuel : ℕ) : Follows (directory k fuel) (directory checked fuel) :=
  (Follows.refl (Reader.take Fault.short 4)).bind
    ((follows_walk hk).behindMagic (value_follows hk fuel))

theorem readHeader_eq {file : Bytes} (h : readHeader checked file ≠ .error .inexact) :
    readHeader k file = readHeader checked file := by
  rcases directory_follows hk file.length file with hbad | heq
  · apply absurd _ h
    rw [readHeader, hbad]
  · rw [readHeader, heq, readHeader]

end

/-! ## The fields of a tensor -/

theorem uint_lt {width n : ℕ} {bs rest : Bytes} (h : uint width bs = .ok (n, rest)) :
    n < 256 ^ width := by
  obtain ⟨xs, mid, hxs, hn⟩ := Reader.bind_eq_ok h
  obtain ⟨rfl, -⟩ := Prod.mk.inj (Except.ok.inj hn)
  rw [← (Reader.take_eq_ok hxs).2]
  exact leValue_lt xs

theorem u64_lt {n : ℕ} {bs rest : Bytes} (h : u64 unbounded bs = .ok (n, rest)) : n < 256 ^ 8 := by
  obtain ⟨m, mid, hm, hn⟩ := Reader.bind_eq_ok h
  obtain ⟨rfl, -⟩ := Prod.mk.inj (Except.ok.inj hn)
  exact uint_lt hm

/-- A tensor whose fields have the widths of the directory. -/
structure RawTensor.Sized (t : RawTensor) : Prop where
  nDims : t.dims.length < 256 ^ 4
  dims : ∀ d ∈ t.dims, d < 256 ^ 8
  type : t.type < 256 ^ 4

theorem tensor_sized {bs rest : Bytes} {t : RawTensor} (h : tensor unbounded bs = .ok (t, rest)) :
    t.Sized := by
  obtain ⟨name, _, -, h⟩ := Reader.bind_eq_ok h
  obtain ⟨nDims, _, hn, h⟩ := Reader.bind_eq_ok h
  obtain ⟨dims, _, hdims, h⟩ := Reader.bind_eq_ok h
  obtain ⟨type, _, htype, h⟩ := Reader.bind_eq_ok h
  obtain ⟨offset, _, -, h⟩ := Reader.bind_eq_ok h
  obtain ⟨rfl, -⟩ := Prod.mk.inj (Except.ok.inj h)
  obtain ⟨hlen, hall⟩ := Reader.many_eq_ok (fun _ _ _ => u64_lt) hdims
  exact ⟨hlen ▸ uint_lt hn, hall, uint_lt htype⟩

theorem readHeader_sized {file : Bytes} {h : Header} (hread : readHeader unbounded file = .ok h) :
    ∀ t ∈ h.tensors, t.Sized := by
  unfold readHeader at hread
  cases hd : directory unbounded file.length file with
  | error e =>
    rw [hd] at hread
    cases hread
  | ok x =>
    obtain ⟨d, rest⟩ := x
    rw [hd] at hread
    obtain rfl := Except.ok.inj hread
    obtain ⟨start, _, -, hd⟩ := Reader.bind_eq_ok hd
    split_ifs at hd with hmagic
    · obtain ⟨version, _, -, hd⟩ := Reader.bind_eq_ok hd
      obtain ⟨tensorCount, _, -, hd⟩ := Reader.bind_eq_ok hd
      obtain ⟨kvCount, _, -, hd⟩ := Reader.bind_eq_ok hd
      obtain ⟨metadata, _, -, hd⟩ := Reader.bind_eq_ok hd
      obtain ⟨tensors, _, htensors, hd⟩ := Reader.bind_eq_ok hd
      obtain ⟨rfl, -⟩ := Prod.mk.inj (Except.ok.inj hd)
      exact (Reader.many_eq_ok (fun _ _ _ => tensor_sized) htensors).2
    · cases hd

end KvasirNet.Gguf
