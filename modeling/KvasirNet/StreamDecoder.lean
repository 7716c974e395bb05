import KvasirNet.Utf8Text

/-! A decoder of UTF-8 that is fed in chunks and keeps the beginning of a character until the rest
of it comes; a byte order mark at the very start is taken away. However the bytes of a text are cut,
the texts it gives make up this text. -/
namespace KvasirNet

def following (b : UInt8) : ℕ :=
  if 0xC2 ≤ b ∧ b ≤ 0xDF then 1
  else if 0xE0 ≤ b ∧ b ≤ 0xEF then 2
  else if 0xF0 ≤ b ∧ b ≤ 0xF4 then 3
  else 0

/-- The bytes are the beginning of a character, all of them, and more are to come. -/
def unfinished : Bytes → Bool
  | [] => false
  | b :: bs => decide (bs.length < following b ∧ malformedLength (b :: bs) = bs.length + 1)

/-- The characters, and the unfinished one at the end. -/
def takeChars : ℕ → Bytes → List Char × Bytes
  | 0, bs => ([], bs)
  | _ + 1, [] => ([], [])
  | fuel + 1, b :: bs =>
    if unfinished (b :: bs) then ([], b :: bs)
    else match ByteArray.utf8DecodeChar? (b :: bs).toByteArray 0 with
      | some c =>
        let r := takeChars fuel ((b :: bs).drop c.utf8Size)
        (c :: r.1, r.2)
      | none =>
        let r := takeChars fuel ((b :: bs).drop (malformedLength (b :: bs)))
        ('\uFFFD' :: r.1, r.2)

structure Decoder where
  bomSeen : Bool
  pending : Bytes
  deriving DecidableEq, Repr

/-- The byte order mark is looked for at the first character only. -/
def dropBom : Bool → List Char → List Char
  | false, c :: cs => if c = '\uFEFF' then cs else c :: cs
  | _, cs => cs

/-- `decode` with `stream: true`. -/
def Decoder.decode (d : Decoder) (chunk : Bytes) : List Char × Decoder :=
  let r := takeChars (d.pending ++ chunk).length (d.pending ++ chunk)
  (dropBom d.bomSeen r.1, ⟨d.bomSeen || !r.1.isEmpty, r.2⟩)

def Decoder.start : Decoder := ⟨false, []⟩

def Decoder.texts : Decoder → List Bytes → List (List Char)
  | _, [] => []
  | d, chunk :: chunks => (d.decode chunk).1 :: Decoder.texts (d.decode chunk).2 chunks

def encodeText (l : List Char) : Bytes := l.flatMap String.utf8EncodeChar

theorem utf8_toList (s : String) : utf8 s = encodeText s.toList := by
  rw [encodeText, ← utf8_ofList, String.ofList_toList]

theorem encodeText_eq_nil {l : List Char} (h : encodeText l = []) : l = [] := by
  cases l with
  | nil => rfl
  | cons c l => exact absurd (List.append_eq_nil_iff.mp h).1 String.utf8EncodeChar_ne_nil

/-! ### A character that is cut -/

theorem following_eq (b : UInt8) : following b =
    if 0xC2 ≤ b.toNat ∧ b.toNat ≤ 0xDF then 1
    else if 0xE0 ≤ b.toNat ∧ b.toNat ≤ 0xEF then 2
    else if 0xF0 ≤ b.toNat ∧ b.toNat ≤ 0xF4 then 3
    else 0 := by
  simp only [following, UInt8.le_iff_toNat_le]
  rfl

theorem continuations_cons {needed : ℕ} {lower upper b : UInt8} {bs : Bytes}
    (h : lower.toNat ≤ b.toNat ∧ b.toNat ≤ upper.toNat) :
    continuations (needed + 1) lower upper (b :: bs) = 1 + continuations needed 0x80 0xBF bs := by
  rw [continuations, if_pos]
  rwa [UInt8.le_iff_toNat_le, UInt8.le_iff_toNat_le]

/-- The bounds of the first byte after this one. -/
def lowest (b : UInt8) : UInt8 := if b = 0xE0 then 0xA0 else if b = 0xF0 then 0x90 else 0x80

def highest (b : UInt8) : UInt8 := if b = 0xED then 0x9F else if b = 0xF4 then 0x8F else 0xBF

theorem malformedLength_eq {b : UInt8} (bs : Bytes) (h : following b ≠ 0) :
    malformedLength (b :: bs) = 1 + continuations (following b) (lowest b) (highest b) bs := by
  unfold malformedLength lowest highest
  rw [following_eq] at h ⊢
  simp only [UInt8.le_iff_toNat_le, ← UInt8.toNat_inj, UInt8.reduceToNat] at h ⊢
  split_ifs at h ⊢ <;> first | rfl | omega

theorem continuations_take {cs : Bytes} (h : ∀ x ∈ cs, 0x80 ≤ x.toNat ∧ x.toNat ≤ 0xBF) {k n : ℕ}
    (hk : k ≤ cs.length) (hn : k ≤ n) : continuations n 0x80 0xBF (cs.take k) = k := by
  induction k generalizing cs n with
  | zero =>
    rw [List.take_zero]
    cases n with
    | zero => rfl
    | succ n => rfl
  | succ k ih =>
    cases cs with
    | nil => exact absurd hk (Nat.not_succ_le_zero k)
    | cons x cs =>
      obtain ⟨n, rfl⟩ : ∃ m, n = m + 1 := ⟨n - 1, by omega⟩
      have hrest := ih (fun y hy => h y (List.mem_cons_of_mem x hy)) (Nat.le_of_succ_le_succ hk)
        (Nat.le_of_succ_le_succ hn)
      have hx : (0x80 : UInt8).toNat ≤ x.toNat ∧ x.toNat ≤ (0xBF : UInt8).toNat :=
        h x List.mem_cons_self
      rw [List.take_succ_cons, continuations_cons hx, hrest, Nat.add_comm]

theorem malformedLength_take {b x : UInt8} {cs : Bytes} (hb : following b = cs.length + 1)
    (hx : (lowest b).toNat ≤ x.toNat ∧ x.toNat ≤ (highest b).toNat)
    (hcs : ∀ y ∈ cs, 0x80 ≤ y.toNat ∧ y.toNat ≤ 0xBF) {k : ℕ} (hk : k < cs.length + 1) :
    malformedLength (b :: (x :: cs).take k) = k + 1 := by
  rw [malformedLength_eq _ (by omega), hb]
  cases k with
  | zero => rfl
  | succ k =>
    rw [List.take_succ_cons, continuations_cons hx, continuations_take hcs (by omega) (by omega)]
    omega

theorem encodeChar_spec (c : Char) : ∃ b cs, String.utf8EncodeChar c = b :: cs ∧
    following b = cs.length ∧ ∀ k < cs.length, malformedLength (b :: cs.take k) = k + 1 := by
  have hvalid : c.val.toNat < 0xD800 ∨ 0xDFFF < c.val.toNat ∧ c.val.toNat < 0x110000 := c.valid
  have hbyte {n : ℕ} (hn : n < 256) : (UInt8.ofNat n).toNat = n := by
    rw [UInt8.toNat_ofNat', Nat.mod_eq_of_lt hn]
  have hlast (w : ℕ) : 0x80 ≤ (UInt8.ofNat (w % 0x40 + 0x80)).toNat ∧
      (UInt8.ofNat (w % 0x40 + 0x80)).toNat ≤ 0xBF := by
    rw [hbyte (by omega)]
    omega
  unfold String.utf8EncodeChar
  generalize c.val.toNat = v at hvalid
  by_cases h1 : v ≤ 0x7f
  · simp only [h1, if_true]
    refine ⟨_, _, rfl, ?_, fun k hk => absurd hk (Nat.not_lt_zero k)⟩
    rw [following_eq, hbyte (by omega), if_neg (by omega), if_neg (by omega), if_neg (by omega)]
    rfl
  · by_cases h2 : v ≤ 0x7ff
    · simp only [h1, h2, if_true, if_false]
      have hfirst : (UInt8.ofNat (v / 64 % 0x20 + 0xc0)).toNat = v / 64 % 0x20 + 0xc0 := hbyte (by omega)
      have hfollow : following (UInt8.ofNat (v / 64 % 0x20 + 0xc0)) = 1 := by
        rw [following_eq, hfirst, if_pos (by omega)]
      have hbounds : lowest (UInt8.ofNat (v / 64 % 0x20 + 0xc0)) = 0x80 ∧
          highest (UInt8.ofNat (v / 64 % 0x20 + 0xc0)) = 0xBF := by
        unfold lowest highest
        simp only [← UInt8.toNat_inj, hfirst, UInt8.reduceToNat]
        rw [if_neg (by omega), if_neg (by omega), if_neg (by omega), if_neg (by omega)]
        exact ⟨rfl, rfl⟩
      refine ⟨_, _, rfl, hfollow, fun k hk => malformedLength_take hfollow ?_ ?_ hk⟩
      · rw [hbounds.1, hbounds.2]
        exact hlast v
      · exact fun y hy => absurd hy List.not_mem_nil
    · by_cases h3 : v ≤ 0xffff
      · simp only [h1, h2, h3, if_true, if_false]
        have hfirst : (UInt8.ofNat (v / 4096 % 0x10 + 0xe0)).toNat = v / 4096 % 0x10 + 0xe0 :=
          hbyte (by omega)
        have hsecond : (UInt8.ofNat (v / 64 % 0x40 + 0x80)).toNat = v / 64 % 0x40 + 0x80 :=
          hbyte (by omega)
        have hfollow : following (UInt8.ofNat (v / 4096 % 0x10 + 0xe0)) = 2 := by
          rw [following_eq, hfirst, if_neg (by omega), if_pos (by omega)]
        refine ⟨_, _, rfl, hfollow, fun k hk => malformedLength_take hfollow ?_ ?_ hk⟩
        · -- neither overlong nor a surrogate
          unfold lowest highest
          simp only [← UInt8.toNat_inj, hfirst, hsecond, UInt8.reduceToNat]
          split_ifs <;> simp only [UInt8.reduceToNat] <;> omega
        · intro y hy
          rw [List.mem_singleton.mp hy]
          exact hlast v
      · simp only [h1, h2, h3, if_false]
        have hfirst : (UInt8.ofNat (v / 262144 % 0x08 + 0xf0)).toNat = v / 262144 % 0x08 + 0xf0 :=
          hbyte (by omega)
        have hsecond : (UInt8.ofNat (v / 4096 % 0x40 + 0x80)).toNat = v / 4096 % 0x40 + 0x80 :=
          hbyte (by omega)
        have hfollow : following (UInt8.ofNat (v / 262144 % 0x08 + 0xf0)) = 3 := by
          rw [following_eq, hfirst, if_neg (by omega), if_neg (by omega), if_pos (by omega)]
        refine ⟨_, _, rfl, hfollow, fun k hk => malformedLength_take hfollow ?_ ?_ hk⟩
        · -- neither overlong nor above the last character
          unfold lowest highest
          simp only [← UInt8.toNat_inj, hfirst, hsecond, UInt8.reduceToNat]
          split_ifs <;> simp only [UInt8.reduceToNat] <;> omega
        · intro y hy
          rcases List.mem_cons.mp hy with rfl | hy
          · exact hlast (v / 64)
          · rw [List.mem_singleton.mp hy]
            exact hlast v

/-! ### A text that is cut -/

theorem encodeText_cons (c : Char) (l : List Char) :
    encodeText (c :: l) = String.utf8EncodeChar c ++ encodeText l := rfl

theorem takeChars_unfinished {c : Char} {bs rest : Bytes} (h : bs ++ rest = String.utf8EncodeChar c)
    (hrest : rest ≠ []) {fuel : ℕ} : takeChars fuel bs = ([], bs) := by
  cases fuel with
  | zero => rfl
  | succ fuel =>
    cases bs with
    | nil => rfl
    | cons b bs =>
      obtain ⟨b', cs, hchar, hfollow, hcut⟩ := encodeChar_spec c
      rw [hchar] at h
      obtain ⟨rfl, hcs⟩ := List.cons.inj h
      have hlt : bs.length < cs.length := by
        have hpos := List.length_pos_of_ne_nil hrest
        have hlength := congrArg List.length hcs
        rw [List.append_eq, List.length_append] at hlength
        omega
      have htake : cs.take bs.length = bs := by
        rw [← hcs]
        exact List.take_left
      have hunfinished : unfinished (b :: bs) = true := by
        have hlength := hcut bs.length hlt
        rw [htake] at hlength
        exact decide_eq_true ⟨hfollow ▸ hlt, hlength⟩
      rw [takeChars, if_pos hunfinished]

theorem takeChars_char (c : Char) (bs : Bytes) (fuel : ℕ) :
    takeChars (fuel + 1) (String.utf8EncodeChar c ++ bs) =
      (c :: (takeChars fuel bs).1, (takeChars fuel bs).2) := by
  have hdecode : ByteArray.utf8DecodeChar? (String.utf8EncodeChar c ++ bs).toByteArray 0 = some c := by
    rw [List.toByteArray_append]
    exact ByteArray.utf8DecodeChar?_utf8EncodeChar_append
  have hdrop : (String.utf8EncodeChar c ++ bs).drop c.utf8Size = bs := by
    rw [← String.length_utf8EncodeChar, List.drop_left]
  obtain ⟨b, cs, hchar, hfollow, -⟩ := encodeChar_spec c
  have hfinished : unfinished (b :: (cs ++ bs)) = false := by
    apply decide_eq_false
    rintro ⟨hlt, -⟩
    rw [hfollow, List.length_append] at hlt
    omega
  rw [hchar, List.cons_append] at hdecode hdrop ⊢
  rw [takeChars, if_neg (Bool.eq_false_iff.mp hfinished), hdecode]
  simp only [hdrop]

theorem takeChars_begin {l : List Char} {bs rest : Bytes} (h : bs ++ rest = encodeText l) {fuel : ℕ}
    (hfuel : bs.length ≤ fuel) : ∃ l₁ l₂ pending, l = l₁ ++ l₂ ∧ takeChars fuel bs = (l₁, pending) ∧
      bs = encodeText l₁ ++ pending ∧ pending ++ rest = encodeText l₂ ∧ (rest = [] → l₂ = []) := by
  induction l generalizing bs fuel with
  | nil =>
    obtain ⟨rfl, rfl⟩ := List.append_eq_nil_iff.mp h
    have htake : takeChars fuel [] = ([], []) := by
      cases fuel with
      | zero => rfl
      | succ fuel => rfl
    exact ⟨[], [], [], rfl, htake, rfl, rfl, fun _ => rfl⟩
  | cons c l ih =>
    rw [encodeText_cons] at h
    have hprefix : bs <+: String.utf8EncodeChar c ++ encodeText l := ⟨rest, h⟩
    have hchar : String.utf8EncodeChar c <+: String.utf8EncodeChar c ++ encodeText l :=
      List.prefix_append _ _
    by_cases hlt : bs.length < (String.utf8EncodeChar c).length
    · obtain ⟨x, hx⟩ := List.prefix_of_prefix_length_le hprefix hchar hlt.le
      have hxne : x ≠ [] := by
        rintro rfl
        rw [List.append_nil] at hx
        rw [hx] at hlt
        exact lt_irrefl _ hlt
      refine ⟨[], c :: l, bs, rfl, takeChars_unfinished hx hxne, rfl, h, ?_⟩
      rintro rfl
      rw [List.append_nil] at h
      rw [h, List.length_append] at hlt
      exact absurd hlt (Nat.not_lt.mpr (Nat.le_add_right _ _))
    · obtain ⟨bs', rfl⟩ := List.prefix_of_prefix_length_le hchar hprefix (Nat.le_of_not_lt hlt)
      rw [List.append_assoc] at h
      have hpos : 0 < (String.utf8EncodeChar c).length :=
        List.length_pos_of_ne_nil String.utf8EncodeChar_ne_nil
      rw [List.length_append] at hfuel
      obtain ⟨fuel, rfl⟩ : ∃ k, fuel = k + 1 := ⟨fuel - 1, by omega⟩
      have hfuel' : bs'.length ≤ fuel := by omega
      obtain ⟨l₁, l₂, pending, rfl, htake, hbs', hrest, hend⟩ :=
        ih (List.append_cancel_left h) hfuel'
      refine ⟨c :: l₁, l₂, pending, rfl, ?_, ?_, hrest, hend⟩
      · rw [takeChars_char, htake]
      · rw [encodeText_cons, List.append_assoc, ← hbs']

theorem dropBom_append (seen : Bool) (l l' : List Char) :
    dropBom seen l ++ dropBom (seen || !l.isEmpty) l' = dropBom seen (l ++ l') := by
  cases seen with
  | true => rfl
  | false =>
    cases l with
    | nil => rfl
    | cons c l =>
      by_cases hc : c = '\uFEFF'
      · rw [List.cons_append, dropBom, dropBom, if_pos hc, if_pos hc]
        rfl
      · rw [List.cons_append, dropBom, dropBom, if_neg hc, if_neg hc]
        rfl

theorem decode_begin {d : Decoder} {l : List Char} {chunk rest : Bytes}
    (h : d.pending ++ (chunk ++ rest) = encodeText l) :
    ∃ l', (d.decode chunk).2.pending ++ rest = encodeText l' ∧ (rest = [] → l' = []) ∧
      (d.decode chunk).1 ++ dropBom (d.decode chunk).2.bomSeen l' = dropBom d.bomSeen l := by
  rw [← List.append_assoc] at h
  obtain ⟨l₁, l₂, pending, rfl, htake, -, hrest, hend⟩ := takeChars_begin h (le_refl _)
  refine ⟨l₂, ?_, hend, ?_⟩
  · unfold Decoder.decode
    rw [htake]
    exact hrest
  · unfold Decoder.decode
    rw [htake]
    exact dropBom_append d.bomSeen l₁ l₂

theorem texts_flatten {d : Decoder} {l : List Char} {chunks : List Bytes}
    (h : d.pending ++ chunks.flatten = encodeText l) (hnil : chunks = [] → l = []) :
    (d.texts chunks).flatten = dropBom d.bomSeen l := by
  induction chunks generalizing d l with
  | nil =>
    rw [hnil rfl]
    cases d.bomSeen with
    | true => rfl
    | false => rfl
  | cons chunk chunks ih =>
    rw [List.flatten_cons] at h
    obtain ⟨l', hrest, hend, htext⟩ := decode_begin h
    have hlater := ih hrest fun hchunks => hend (by rw [hchunks]; rfl)
    rw [Decoder.texts, List.flatten_cons, hlater, htext]

theorem decode_encodeText (l : List Char) :
    (Decoder.start.decode (encodeText l)).1 = dropBom false l := by
  have hwhole : Decoder.start.pending ++ (encodeText l ++ []) = encodeText l := List.append_nil _
  obtain ⟨l', -, hend, htext⟩ := decode_begin hwhole
  rw [hend rfl] at htext
  have hnil (seen : Bool) : dropBom seen [] = [] := by
    cases seen with
    | true => rfl
    | false => rfl
  rw [hnil, List.append_nil] at htext
  exact htext

theorem takeChars_length (fuel : ℕ) (bs : Bytes) : (takeChars fuel bs).1.length ≤ fuel := by
  induction fuel generalizing bs with
  | zero => exact le_refl 0
  | succ fuel ih =>
    cases bs with
    | nil => exact Nat.zero_le _
    | cons b bs =>
      rw [takeChars]
      by_cases h : unfinished (b :: bs) = true
      · rw [if_pos h]
        exact Nat.zero_le _
      · rw [if_neg h]
        cases ByteArray.utf8DecodeChar? (b :: bs).toByteArray 0 with
        | some c => exact Nat.succ_le_succ (ih _)
        | none => exact Nat.succ_le_succ (ih _)

theorem dropBom_length (seen : Bool) (l : List Char) : (dropBom seen l).length ≤ l.length := by
  cases seen with
  | true => exact le_refl _
  | false =>
    cases l with
    | nil => exact le_refl _
    | cons c l =>
      rw [dropBom]
      by_cases hc : c = '\uFEFF'
      · rw [if_pos hc]
        exact Nat.le_succ _
      · rw [if_neg hc]

theorem decode_start_length (chunk : Bytes) : (Decoder.start.decode chunk).1.length ≤ chunk.length :=
  (dropBom_length _ _).trans (takeChars_length _ _)

theorem dropBom_prefix {l q : List Char} (h : q <+: dropBom false l) :
    ∃ l₁ l₂, l = l₁ ++ l₂ ∧ dropBom false l₁ = q := by
  cases l with
  | nil =>
    obtain rfl := List.prefix_nil.mp h
    exact ⟨[], [], rfl, rfl⟩
  | cons c l =>
    rw [dropBom] at h
    by_cases hc : c = '\uFEFF'
    · rw [if_pos hc] at h
      obtain ⟨l₂, rfl⟩ := h
      exact ⟨c :: q, l₂, rfl, if_pos hc⟩
    · rw [if_neg hc] at h
      obtain ⟨l₂, hl⟩ := h
      refine ⟨q, l₂, hl.symm, ?_⟩
      cases q with
      | nil => rfl
      | cons c' q =>
        obtain ⟨rfl, -⟩ := List.cons.inj hl
        exact if_neg hc

end KvasirNet
