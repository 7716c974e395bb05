import KvasirNet.GgufTopology

/-! `readHeader` of `gguf-topology.mjs`: the header is parsed from longer and longer beginnings of
the file. A beginning that is long enough gives what the whole file gives; one that is not is known
by its error. -/
namespace KvasirNet.Gguf

/-! ## Longer inputs -/

/-- With more bytes behind, `r'` does what `r` does, unless that came to the end of the bytes or of
the depth. -/
def Extends {α : Type} (r r' : Reader Fault α) : Prop :=
  ∀ bs more, (∀ a rest, r bs = .ok (a, rest) → r' (bs ++ more) = .ok (a, rest ++ more)) ∧
    ∀ e, r bs = .error e → e ≠ .depth → (e = .short → more = []) → r' (bs ++ more) = .error e

namespace Extends
variable {α β : Type}

theorem pure (a : α) : Extends (Pure.pure a) (Pure.pure a) := by
  intro bs more
  refine ⟨fun b rest h => ?_, fun e h => absurd h (by rintro ⟨⟩)⟩
  obtain ⟨rfl, rfl⟩ := Reader.pure_eq_ok h
  rfl

theorem throw (e : Fault) :
    Extends (MonadExcept.throw e : Reader Fault α) (MonadExcept.throw e) := by
  intro bs more
  refine ⟨fun b rest h => absurd h (by rintro ⟨⟩), fun e' h _ _ => ?_⟩
  obtain rfl := Except.error.inj h
  rfl

theorem take (n : ℕ) : Extends (Reader.take .short n) (Reader.take .short n) := by
  intro bs more
  refine ⟨fun a rest h => ?_, fun e h _ hmore => ?_⟩
  · obtain ⟨hbs, hlen⟩ := Reader.take_eq_ok h
    rw [hbs, List.append_assoc, ← hlen]
    exact Reader.take_append _ _ _
  · unfold Reader.take at h
    split_ifs at h with hn
    obtain rfl := Except.error.inj h
    rw [hmore rfl, List.append_nil]
    exact if_pos hn

theorem bind {r r' : Reader Fault α} {f f' : α → Reader Fault β} (h : Extends r r')
    (hf : ∀ a, Extends (f a) (f' a)) : Extends (r >>= f) (r' >>= f') := by
  intro bs more
  cases hr : r bs with
  | error e =>
    have hall : (r >>= f) bs = .error e := by simp only [Bind.bind, StateT.bind, Except.bind, hr]
    rw [hall]
    refine ⟨fun b rest hb => absurd hb (by rintro ⟨⟩), fun e' he hdepth hmore => ?_⟩
    obtain rfl := Except.error.inj he
    have hr' := (h bs more).2 e hr hdepth hmore
    simp only [Bind.bind, StateT.bind, Except.bind, hr']
  | ok x =>
    obtain ⟨a, mid⟩ := x
    rw [Reader.bind_of_ok hr, Reader.bind_of_ok ((h bs more).1 a mid hr)]
    exact hf a mid more

end Extends

theorem extends_lift {α : Type} (x : Except Fault α) :
    Extends (liftM x : Reader Fault α) (liftM x) := by
  cases x with
  | error e => exact Extends.throw e
  | ok a => exact Extends.pure a

section
variable (k : Integers)

theorem extends_walk : Walk k k @Extends where
  pure := Extends.pure
  throw _ := Extends.throw _
  take := Extends.take
  bind := Extends.bind
  u64 n := extends_lift (k.u64 n)
  i64 n := extends_lift (k.i64 n)

theorem extends_value {fuel fuel' : ℕ} (h : fuel ≤ fuel') (type : ℕ) :
    Extends (value k fuel type) (value k fuel' type) := by
  induction fuel generalizing fuel' type with
  | zero =>
    apply (extends_walk k).value_zero
    intro bs more
    refine ⟨fun a rest hbs => absurd hbs (by rintro ⟨⟩), fun e he hdepth _ => ?_⟩
    exact absurd (Except.error.inj he).symm hdepth
  | succ fuel ih =>
    cases fuel' with
    | zero => omega
    | succ fuel' => exact (extends_walk k).value_succ (ih (by omega)) type

theorem extends_directory {fuel fuel' : ℕ} (h : fuel ≤ fuel') :
    Extends (directory k fuel) (directory k fuel') :=
  (Extends.take 4).bind ((extends_walk k).behindMagic (extends_value k h))

theorem readHeader_append (hk : k.Flat) {file : Bytes} {r : Except Fault Header}
    (h : readHeader k file = r) (hshort : r ≠ .error .short) (more : Bytes) :
    readHeader k (file ++ more) = r := by
  have hfuel : file.length ≤ (file ++ more).length := by
    rw [List.length_append]
    omega
  obtain ⟨hok, herror⟩ := extends_directory k hfuel file more
  have hdepth := readHeader_ne_depth hk file
  rw [h] at hdepth
  unfold readHeader at h ⊢
  cases hd : directory k file.length file with
  | ok x =>
    obtain ⟨d, rest⟩ := x
    rw [hok d rest hd]
    rw [hd] at h
    dsimp only at h ⊢
    rw [← h, List.length_append, List.length_append, Nat.add_sub_add_right]
  | error e =>
    rw [hd] at h
    subst h
    rw [herror e hd (fun he => hdepth (by rw [he])) fun he => absurd (by rw [he]) hshort]

end

/-! ## The bytes that are used -/

/-- A reader that ends well has used at least so many bytes, and looked at no others. -/
def Uses {α : Type} (n : ℕ) (r : Reader Fault α) : Prop :=
  ∀ bs a rest, r bs = .ok (a, rest) → ∃ used, bs = used ++ rest ∧ n ≤ used.length ∧
    ∀ more, r (used ++ more) = .ok (a, more)

namespace Uses
variable {α β : Type} {m n : ℕ}

theorem pure (a : α) : Uses 0 (Pure.pure a) := by
  intro bs b rest h
  obtain ⟨rfl, rfl⟩ := Reader.pure_eq_ok h
  exact ⟨[], rfl, Nat.zero_le _, fun more => rfl⟩

theorem throw (e : Fault) : Uses n (MonadExcept.throw e : Reader Fault α) :=
  fun bs a rest h => absurd h (by rintro ⟨⟩)

theorem take (n : ℕ) : Uses 0 (Reader.take .short n) := by
  intro bs xs rest h
  obtain ⟨rfl, rfl⟩ := Reader.take_eq_ok h
  exact ⟨xs, rfl, Nat.zero_le _, Reader.take_append _ xs⟩

theorem pos {r : Reader Fault α} {e : Fault} (h : Uses 0 r) (hnil : r [] = .error e) :
    Uses 1 r := by
  intro bs a rest hr
  obtain ⟨used, hbs, -, hmore⟩ := h bs a rest hr
  refine ⟨used, hbs, Nat.pos_of_ne_zero fun hlen => ?_, hmore⟩
  have hused := hmore []
  rw [List.length_eq_zero_iff.mp hlen] at hused
  exact absurd (hused.symm.trans hnil) (by rintro ⟨⟩)

theorem bind {r : Reader Fault α} {f : α → Reader Fault β} (h : Uses 0 r)
    (hf : ∀ a, Uses 0 (f a)) : Uses 0 (r >>= f) := by
  intro bs b rest hb
  obtain ⟨a, mid, ha, hrest⟩ := Reader.bind_eq_ok hb
  obtain ⟨used, rfl, hlen, hmore⟩ := h bs a mid ha
  obtain ⟨used', rfl, -, hmore'⟩ := hf a mid b rest hrest
  refine ⟨used ++ used', (List.append_assoc ..).symm, Nat.zero_le _, fun more => ?_⟩
  rw [List.append_assoc, Reader.bind_of_ok (hmore _), hmore' more]

end Uses

theorem uses_lift {α : Type} (x : Except Fault α) : Uses 0 (liftM x : Reader Fault α) := by
  cases x with
  | error e => exact Uses.throw e
  | ok a => exact Uses.pure a

section
variable (k : Integers)

theorem uses_walk : Walk k k (fun {_} r _ => Uses 0 r) where
  pure := Uses.pure
  throw _ := Uses.throw _
  take := Uses.take
  bind := Uses.bind
  u64 n := uses_lift (k.u64 n)
  i64 n := uses_lift (k.i64 n)

theorem uses_value (fuel type : ℕ) : Uses 0 (value k fuel type) := by
  induction fuel generalizing type with
  | zero => exact @Walk.value_zero _ _ _ (uses_walk k) 0 (Uses.throw _) type
  | succ fuel ih => exact @Walk.value_succ _ _ _ (uses_walk k) fuel fuel ih type

theorem uses_directory (fuel : ℕ) : Uses 0 (directory k fuel) :=
  (Uses.take 4).bind (@Walk.behindMagic _ _ _ (uses_walk k) fuel fuel (uses_value k fuel))

theorem value_nil (fuel type : ℕ) : ∃ e, value k fuel type [] = .error e := by
  have hscalar : ∀ type, ∃ e, scalar k type [] = .error e
    | 0 | 1 | 2 | 3 | 4 | 5 | 6 | 7 | 8 | 9 | 10 | 11 | 12 | _ + 13 => ⟨_, rfl⟩
  cases fuel <;> rw [value] <;> split_ifs
  · exact ⟨_, rfl⟩
  · exact hscalar type
  · exact ⟨_, rfl⟩
  · exact hscalar type

theorem readHeader_take (hk : k.Flat) {file : Bytes} {h : Header}
    (hread : readHeader k file = .ok h) : readHeader k (file.take h.headerEnd) = .ok h := by
  have hfile := hread
  unfold readHeader at hread
  cases hd : directory k file.length file with
  | error e =>
    rw [hd] at hread
    cases hread
  | ok x =>
    obtain ⟨d, rest⟩ := x
    rw [hd] at hread
    obtain rfl := Except.ok.inj hread
    obtain ⟨used, hused, -, hmore⟩ := uses_directory k file.length file d rest hd
    have hend : file.length - rest.length = used.length := by
      rw [hused, List.length_append, Nat.add_sub_cancel]
    have hfirst : file.take (file.length - rest.length) = used := by
      rw [hend, hused, List.take_left]
    dsimp only
    rw [hfirst]
    -- on these bytes alone it could only come to their end, but it does not need more
    by_contra hne
    by_cases hshort : readHeader k used = .error .short
    · have hlen : used.length ≤ file.length := by
        rw [hused, List.length_append]
        omega
      obtain ⟨-, herror⟩ := extends_directory k hlen used []
      unfold readHeader at hshort
      cases hdir : directory k used.length used with
      | ok x =>
        rw [hdir] at hshort
        cases hshort
      | error e =>
        rw [hdir] at hshort
        obtain rfl := Except.error.inj hshort
        have hlong := herror .short hdir (by decide) fun _ => rfl
        rw [hmore []] at hlong
        cases hlong
    · have hall := readHeader_append k hk rfl hshort rest
      rw [← hused, hfile] at hall
      exact hne hall.symm

end

/-! ## Loops -/

def turns {α : Type} (r : Reader Fault α) : ℕ → Bytes → ℕ
  | 0, _ => 0
  | n + 1, bs =>
    match r bs with
    | .error _ => 1
    | .ok (_, rest) => 1 + turns r n rest

theorem turns_le {α : Type} {r : Reader Fault α} (h : Uses 1 r) (n : ℕ) (bs : Bytes) :
    turns r n bs ≤ bs.length + 1 := by
  induction n generalizing bs with
  | zero => exact Nat.zero_le _
  | succ n ih =>
    rw [turns]
    cases hr : r bs with
    | error e => exact Nat.le_add_left 1 _
    | ok x =>
      obtain ⟨a, rest⟩ := x
      obtain ⟨used, rfl, hlen, -⟩ := h bs a rest hr
      have hrest := ih rest
      rw [List.length_append]
      dsimp only
      omega

/-! ## `readHeader` -/

/-- `parseHeader`; where the data begin is `Header.dataStart`. -/
def parseHeader (buf : Bytes) : Except Fault Header := readHeader numbers buf

inductive HeaderFault
  | parse (e : Fault)
  | tooLarge
  deriving DecidableEq

def headerLimit : ℕ := 512 <<< 20

theorem quadruple_pos {size : ℕ} (hsize : 0 < size) : 0 < size * 4 := by
  omega

/-- The loop of `readHeader`; a read gives the bytes up to the size, or to the end of the file. -/
def readFrom (file : Bytes) (size : ℕ) (hsize : 0 < size) : Except HeaderFault Header :=
  let slice := file.take size
  match parseHeader slice with
  | .ok h => .ok h
  | .error e =>
    if e ≠ .short ∨ slice.length < size then .error (.parse e)
    else if headerLimit < size * 4 then .error .tooLarge
    else readFrom file (size * 4) (quadruple_pos hsize)
  termination_by headerLimit + 1 - size
  decreasing_by omega

def readHeaderFile (file : Bytes) : Except HeaderFault Header :=
  readFrom file (8 <<< 20) (by decide)

def parsed (file : Bytes) : Except HeaderFault Header :=
  match parseHeader file with
  | .ok h => .ok h
  | .error e => .error (.parse e)

theorem parseHeader_take {file : Bytes} {n m : ℕ} (hnm : n ≤ m)
    (hshort : parseHeader (file.take n) ≠ .error .short) :
    parseHeader (file.take m) = parseHeader (file.take n) ∧
      parseHeader file = parseHeader (file.take n) := by
  obtain ⟨d, rfl⟩ := Nat.exists_eq_add_of_le hnm
  constructor
  · rw [List.take_add]
    exact readHeader_append numbers numbers_flat rfl hshort _
  · have hfile := readHeader_append numbers numbers_flat rfl hshort (file.drop n)
    rw [List.take_append_drop] at hfile
    exact hfile

/-- The file is known to end, or the header to be what it is, within the limit. -/
def Within (file : Bytes) : Prop :=
  parseHeader (file.take headerLimit) ≠ .error .short ∨ file.length < headerLimit

theorem readFrom_step (file : Bytes) {size : ℕ} (hsize : 0 < size) (hle : size ≤ headerLimit) :
    (Within file ∧ readFrom file size hsize = parsed file) ∨
      (parseHeader (file.take size) = .error .short ∧ size ≤ file.length ∧
        readFrom file size hsize = if headerLimit < size * 4 then .error .tooLarge
          else readFrom file (size * 4) (quadruple_pos hsize)) := by
  have hsame : ∀ r, parseHeader (file.take size) = r → r ≠ .error .short →
      Within file ∧ parseHeader file = r := by
    intro r hr hshort
    obtain ⟨hlimit, hfile⟩ := parseHeader_take hle (hr ▸ hshort)
    exact ⟨.inl (by rw [hlimit, hr]; exact hshort), hfile.trans hr⟩
  rw [readFrom]
  cases hparse : parseHeader (file.take size) with
  | ok h =>
    obtain ⟨hwithin, hfile⟩ := hsame _ hparse (by rintro ⟨⟩)
    exact .inl ⟨hwithin, by rw [parsed, hfile]⟩
  | error e =>
    dsimp only
    by_cases hstop : e ≠ .short ∨ (file.take size).length < size
    · -- the bytes are no header, or the file ends here
      have hend : Within file ∧ parseHeader file = .error e := by
        rcases hstop with he | hlen
        · exact hsame _ hparse fun h => he (Except.error.inj h)
        · rw [List.length_take] at hlen
          rw [List.take_of_length_le (by omega)] at hparse
          exact ⟨.inr (by omega), hparse⟩
      rw [if_pos hstop]
      exact .inl ⟨hend.1, by rw [parsed, hend.2]⟩
    · rw [if_neg hstop]
      obtain ⟨he, hlen⟩ := not_or.mp hstop
      obtain rfl := not_not.mp he
      rw [List.length_take] at hlen
      exact .inr ⟨rfl, by omega, rfl⟩

theorem readFrom_eq (file : Bytes) (k : ℕ) {size : ℕ} (hsize : 0 < size)
    (hk : size * 4 ^ k = headerLimit) :
    (Within file → readFrom file size hsize = parsed file) ∧
      (¬ Within file → readFrom file size hsize = .error .tooLarge) := by
  have hle : size ≤ headerLimit := by
    rw [← hk]
    exact Nat.le_mul_of_pos_right _ (Nat.pow_pos (by decide))
  induction k generalizing size with
  | zero =>
    obtain rfl : size = headerLimit := by
      rw [← hk, Nat.pow_zero, Nat.mul_one]
    rcases readFrom_step file hsize hle with ⟨hwithin, heq⟩ | ⟨hshort, hlen, heq⟩
    · exact ⟨fun _ => heq, fun hnot => absurd hwithin hnot⟩
    · rw [heq, if_pos (by omega)]
      refine ⟨fun hwithin => ?_, fun _ => rfl⟩
      rcases hwithin with hwithin | hwithin
      · exact absurd hshort hwithin
      · omega
  | succ k ih =>
    have hnext : size * 4 * 4 ^ k = headerLimit := by
      rw [← hk, Nat.pow_succ, Nat.mul_assoc, Nat.mul_comm 4]
    have hnextLe : size * 4 ≤ headerLimit := by
      rw [← hnext]
      exact Nat.le_mul_of_pos_right _ (Nat.pow_pos (by decide))
    rcases readFrom_step file hsize hle with ⟨hwithin, heq⟩ | ⟨-, -, heq⟩
    · exact ⟨fun _ => heq, fun hnot => absurd hwithin hnot⟩
    · rw [heq, if_neg (by omega)]
      exact ih _ hnext hnextLe

/-- A header that a beginning of the file gives is what every longer one and the whole file give;
the loop of `readHeader` ends with what the whole file gives, when that is found within the limit;
and the body of every loop of the parser uses bytes each time, whatever the counts say. -/
theorem header_prefix_stable :
    (∀ file n m h, n ≤ m → parseHeader (file.take n) = .ok h →
      parseHeader (file.take m) = .ok h ∧ parseHeader file = .ok h) ∧
    (∀ file h, parseHeader file = .ok h → h.headerEnd ≤ headerLimit → readHeaderFile file = .ok h) ∧
    (∀ file, (Within file → readHeaderFile file = parsed file) ∧
      (¬ Within file → readHeaderFile file = .error .tooLarge)) ∧
    ∀ fuel type n bs, turns (value numbers fuel type) n bs ≤ bs.length + 1 ∧
      turns (entry numbers fuel) n bs ≤ bs.length + 1 ∧
      turns (tensor numbers) n bs ≤ bs.length + 1 ∧ turns (u64 numbers) n bs ≤ bs.length + 1 := by
  have hall : ∀ file, (Within file → readHeaderFile file = parsed file) ∧
      (¬ Within file → readHeaderFile file = .error .tooLarge) :=
    fun file => readFrom_eq file 3 _ (by decide)
  refine ⟨fun file n m h hnm hread => ?_, fun file h hread hend => ?_, hall,
    fun fuel type n bs => ?_⟩
  · obtain ⟨hm, hfile⟩ := parseHeader_take hnm (by rw [hread]; rintro ⟨⟩)
    exact ⟨hm.trans hread, hfile.trans hread⟩
  · have hfirst := readHeader_take numbers numbers_flat hread
    obtain ⟨hlimit, -⟩ := parseHeader_take (n := h.headerEnd) hend (by
      unfold parseHeader
      rw [hfirst]
      rintro ⟨⟩)
    have hwithin : Within file := by
      left
      rw [hlimit]
      unfold parseHeader
      rw [hfirst]
      rintro ⟨⟩
    rw [(hall file).1 hwithin, parsed, hread]
  · obtain ⟨e, hnil⟩ := value_nil numbers fuel type
    have hentry : Uses 0 (entry numbers fuel) :=
      @Walk.entry _ _ _ (uses_walk numbers) fuel fuel (uses_value numbers fuel)
    exact ⟨turns_le ((uses_value numbers fuel type).pos hnil) n bs,
      turns_le (hentry.pos (e := .short) rfl) n bs,
      turns_le ((uses_walk numbers).tensor.pos (e := .short) rfl) n bs,
      turns_le ((uses_walk numbers).word.pos (e := .short) rfl) n bs⟩

end KvasirNet.Gguf
