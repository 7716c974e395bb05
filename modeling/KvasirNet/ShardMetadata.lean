import KvasirNet.ShardFile
import KvasirNet.ShardReader

/-! A shard that the server builds, as the desktop reads its metadata, and what the desktop makes of
any other file. -/
namespace KvasirNet.ShardReader
open Gguf Shard

/-! ## Entries -/

structure Entry where
  key : Bytes
  kind : Kind
  last : Bytes

namespace Entry

def head (e : Entry) : Bytes := stored e.key ++ (leBytes 4 e.kind.type ++ e.kind.head)

def bytes (e : Entry) : Bytes := e.head ++ e.last

structure Formed (e : Entry) : Prop where
  key : e.key.length < 256 ^ 8
  kind : e.kind.Formed

structure Complete (e : Entry) : Prop extends e.Formed where
  last : e.last.length = e.kind.need

/-- The length that the entry states runs past its bytes. -/
structure Cut (e : Entry) : Prop extends e.Formed where
  sized : e.kind.Sized
  last : e.last.length < e.kind.need

def put (round : ℕ → ℕ) (m : Meta) (e : Entry) : Meta :=
  m.put (ofUtf8 e.key) (e.kind.value round e.last)

end Entry

section
variable {round : ℕ → ℕ} {buf : Bytes}

variable {c : Cursor}

theorem entries_key (hround : Faithful round buf.length) {e : Entry} (he : e.Formed)
    {rest : Bytes} (h : At buf c (e.head ++ rest)) :
    ∃ c', At buf c' (e.kind.head ++ rest) ∧ ∀ n m, entries round buf (n + 1) m c =
      (ShardReader.value round buf e.kind.type >>= fun v =>
        entries round buf n (m.put (ofUtf8 e.key) v)) c' := by
  simp only [Entry.head, List.append_assoc] at h
  obtain ⟨c₁, hkey, hat₁⟩ := str_at hround (c := ⟨c.o, c.steps + 1⟩) h he.key
  obtain ⟨c₂, htype, hat₂⟩ := u32_at hat₁ he.kind.type_lt
  refine ⟨c₂, hat₂, fun n m => ?_⟩
  rw [entries]
  exact (Scan.bind_of_ok hkey).trans (Scan.bind_of_ok htype)

theorem entries_at (hround : Faithful round buf.length) {es : List Entry} (hes : ∀ e ∈ es, e.Complete)
    {rest : Bytes} (h : At buf c (es.flatMap Entry.bytes ++ rest)) :
    ∃ c', At buf c' rest ∧ ∀ more m, entries round buf (es.length + more) m c =
      entries round buf more (es.foldl (Entry.put round) m) c' := by
  induction es generalizing c with
  | nil => exact ⟨c, h, fun more m => by rw [List.length_nil, Nat.zero_add]; rfl⟩
  | cons e es ih =>
    have he := hes e List.mem_cons_self
    rw [List.flatMap_cons, Entry.bytes, List.append_assoc, List.append_assoc] at h
    obtain ⟨c₁, hat₁, hkey⟩ := entries_key hround he.toFormed h
    obtain ⟨c₂, hvalue, hat₂⟩ := value_at hround he.kind hat₁ he.last
    obtain ⟨c', hat', hrun⟩ := ih (fun x hx => hes x (List.mem_cons_of_mem e hx)) hat₂
    refine ⟨c', hat', fun more m => ?_⟩
    rw [List.length_cons, Nat.add_right_comm, hkey, Scan.bind_of_ok hvalue, hrun]
    rfl

theorem entries_cut (hround : Faithful round buf.length) {e : Entry} (he : e.Cut)
    (h : At buf c e.bytes) (m : Meta) :
    ∃ c', entries round buf 1 m c = (.ok (e.put round m), c') ∧ Past buf c' := by
  obtain ⟨c₁, hat₁, hkey⟩ := entries_key hround he.toFormed h
  obtain ⟨c₂, hvalue, hpast⟩ := value_cut hround he.kind he.sized hat₁ he.last
  refine ⟨c₂, ?_, hpast⟩
  rw [hkey, Scan.bind_of_ok hvalue]
  rfl

theorem entries_inv (hround : Faithful round buf.length) {n : ℕ} {m m' : Meta} {c' : Cursor}
    (hc : c.o ≤ buf.length) (h : entries round buf n m c = (.ok m', c')) :
    ∃ es : List Entry, (∀ e ∈ es, e.Complete) ∧
      ((es.length = n ∧ m' = es.foldl (Entry.put round) m ∧
          At buf c (es.flatMap Entry.bytes ++ buf.drop c'.o) ∧ c'.o ≤ buf.length) ∨
        ∃ e : Entry, e.Cut ∧ es.length + 1 = n ∧
          At buf c (es.flatMap Entry.bytes ++ e.bytes)) := by
  induction n generalizing c m with
  | zero =>
    obtain ⟨hm, rfl⟩ := Prod.mk.inj h
    exact ⟨[], fun e he => absurd he List.not_mem_nil,
      .inl ⟨rfl, (Except.ok.inj hm).symm, ⟨hc, rfl⟩, hc⟩⟩
  | succ n ih =>
    obtain ⟨key, c₁, hkey, h⟩ := Scan.bind_eq_ok (r := str round buf) (c := ⟨c.o, c.steps + 1⟩) h
    obtain ⟨type, c₂, htype, h⟩ := Scan.bind_eq_ok h
    obtain ⟨v, c₃, hread, h⟩ := Scan.bind_eq_ok h
    obtain ⟨len, x, hlen, rfl, ⟨hx, hat₁, hle₁⟩ | ⟨-, -, hpast⟩⟩ := str_inv hround hkey
    swap
    · -- a key that is cut off leaves no room for its type
      obtain ⟨-, hat₂, -⟩ := u32_inv htype
      exact absurd hat₂.1 (Nat.not_le_of_lt hpast)
    obtain ⟨-, hat₂, hle₂⟩ := u32_inv htype
    obtain ⟨k, bs, hk, rfl, rfl, hvalue⟩ := value_inv hround hread
    have hformed : Entry.Formed ⟨x, k, bs⟩ := ⟨hx ▸ hlen, hk⟩
    have hhead : At buf c (stored x ++ (leBytes 4 k.type ++ buf.drop c₂.o)) := by
      rw [stored, List.append_assoc, hx, ← hat₂.2]
      exact hat₁
    rcases hvalue with ⟨hlast, hat₃, hle₃⟩ | ⟨hsized, hlast, hat₃, hpast⟩
    · have hentry : At buf c ((⟨x, k, bs⟩ : Entry).bytes ++ buf.drop c₃.o) := by
        rw [hat₃.2] at hhead
        simpa only [Entry.bytes, Entry.head, List.append_assoc] using hhead
      obtain ⟨es, hes, ⟨rfl, hm, hat, hle⟩ | ⟨e, he, hn, hat⟩⟩ := ih hle₃ h
      · refine ⟨⟨x, k, bs⟩ :: es, List.forall_mem_cons.mpr ⟨⟨hformed, hlast⟩, hes⟩,
          .inl ⟨rfl, hm, ?_, hle⟩⟩
        rw [List.flatMap_cons, List.append_assoc, ← hat.2]
        exact hentry
      · refine ⟨⟨x, k, bs⟩ :: es, List.forall_mem_cons.mpr ⟨⟨hformed, hlast⟩, hes⟩,
          .inr ⟨e, he, congrArg Nat.succ hn, ?_⟩⟩
        rw [List.flatMap_cons, List.append_assoc, ← hat.2]
        exact hentry
    · -- the bytes end in this value, so it is the last
      cases n with
      | zero =>
        rw [hat₃.2] at hhead
        refine ⟨[], fun e he => absurd he List.not_mem_nil, .inr ⟨⟨x, k, bs⟩,
          ⟨hformed, hsized, hlast⟩, rfl, ?_⟩⟩
        simpa only [List.flatMap_nil, List.nil_append, Entry.bytes, Entry.head, List.append_assoc]
          using hhead
      | succ n =>
        obtain ⟨key, c₄, hkey, -⟩ :=
          Scan.bind_eq_ok (r := str round buf) (c := ⟨c₃.o, c₃.steps + 1⟩) h
        exact absurd hkey (str_of_past (c := ⟨c₃.o, c₃.steps + 1⟩) hpast)

end

/-- What stands before the entries: the magic, the version and the tensor count, and how many entries
there are. -/
def opening (lead : Bytes) (count : ℕ) : Bytes := magic ++ (lead ++ leBytes 8 count)

structure Opens (lead : Bytes) (count : ℕ) : Prop where
  lead : lead.length = 12
  count : count < 256 ^ 8

section
variable {round : ℕ → ℕ} {buf lead : Bytes} {count : ℕ}

theorem Opens.length (h : Opens lead count) : (opening lead count).length = 24 := by
  simp only [opening, List.length_append, length_leBytes, h.lead]
  rfl

variable (round) in
theorem metadataOf_opening (ho : Opens lead count) {rest : Bytes}
    (hbuf : buf = opening lead count ++ rest) :
    ∃ c, At buf c rest ∧ metadataOf round buf = entries round buf (round count) .empty c := by
  have hlength : 24 ≤ buf.length := by
    rw [hbuf, List.length_append, ho.length]
    exact Nat.le_add_right _ _
  have hversion : (lead.take 4).length = 4 := by
    rw [List.length_take, ho.lead]
    rfl
  have htensors : (lead.drop 4).length = 8 := by
    rw [List.length_drop, ho.lead]
  have hsplit : buf = (magic ++ lead.take 4) ++ (lead.drop 4 ++ (leBytes 8 count ++ rest)) := by
    rw [hbuf, opening, List.append_assoc, List.append_assoc, List.append_assoc,
      ← List.append_assoc (lead.take 4), List.take_append_drop]
  have hstart : At buf ⟨8, 0⟩ (lead.drop 4 ++ (leBytes 8 count ++ rest)) := by
    have h8 : (magic ++ lead.take 4).length = 8 := by
      rw [List.length_append, hversion]
      rfl
    refine ⟨by show 8 ≤ buf.length; omega, ?_⟩
    show buf.drop 8 = _
    nth_rewrite 1 [hsplit]
    rw [← h8, List.drop_left]
  obtain ⟨c₁, hread, hat₁⟩ := read_at hstart htensors
  have htensors : u64 round buf ⟨8, 0⟩ = (.ok (round (leValue (lead.drop 4))), c₁) :=
    Scan.bind_of_ok hread
  obtain ⟨c₂, hcount, hat₂⟩ := u64_at round hat₁ ho.count
  have hmagic : buf.take 4 = magic := by
    rw [hbuf, opening, List.append_assoc]
    rfl
  have hopen : ¬(buf.length < 24 ∨ buf.take 4 ≠ magic) := by
    rintro (hshort | hother)
    · omega
    · exact hother hmagic
  refine ⟨c₂, hat₂, ?_⟩
  rw [metadataOf, if_neg hopen, body, Scan.bind_of_ok htensors, Scan.bind_of_ok hcount]

theorem metadataOf_inv {m : Meta} {c' : Cursor} (h : metadataOf round buf = (.ok m, c')) :
    ∃ lead count c, Opens lead count ∧ c.o ≤ buf.length ∧
      buf = opening lead count ++ buf.drop c.o ∧
      entries round buf (round count) .empty c = (.ok m, c') := by
  unfold metadataOf at h
  by_cases hrefused : buf.length < 24 ∨ buf.take 4 ≠ magic
  · rw [if_pos hrefused] at h
    cases (Prod.mk.inj h).1
  rw [if_neg hrefused] at h
  obtain ⟨hlength, hmagic⟩ := not_or.mp hrefused
  obtain ⟨_, c₁, htensors, h⟩ := Scan.bind_eq_ok h
  obtain ⟨_, c₂, hcount, h⟩ := Scan.bind_eq_ok h
  obtain ⟨tensors, -, -, hat₁, -⟩ := u64_inv htensors
  obtain ⟨count, hn, rfl, hat₂, hle₂⟩ := u64_inv hcount
  have h8 : buf.drop 8 = leBytes 8 tensors ++ (leBytes 8 count ++ buf.drop c₂.o) := by
    rw [← hat₂.2]
    exact hat₁.2
  refine ⟨(buf.drop 4).take 4 ++ leBytes 8 tensors, count, c₂, ⟨?_, hn⟩, hle₂, ?_, h⟩
  · rw [List.length_append, length_leBytes, List.length_take, List.length_drop]
    omega
  · calc
      buf = buf.take 4 ++ ((buf.drop 4).take 4 ++ (buf.drop 4).drop 4) := by
        rw [List.take_append_drop, List.take_append_drop]
      _ = magic ++ ((buf.drop 4).take 4 ++
          (leBytes 8 tensors ++ (leBytes 8 count ++ buf.drop c₂.o))) := by
        rw [not_not.mp hmagic, List.drop_drop, h8]
      _ = opening ((buf.drop 4).take 4 ++ leBytes 8 tensors) count ++ buf.drop c₂.o := by
        simp only [opening, List.append_assoc]

theorem length_le_flatMap_bytes (es : List Entry) : es.length ≤ (es.flatMap Entry.bytes).length := by
  induction es with
  | nil => exact Nat.le_refl _
  | cons e es ih =>
    have hone : 1 ≤ e.bytes.length := by
      simp only [Entry.bytes, Entry.head, stored, List.length_append, length_leBytes]
      omega
    rw [List.flatMap_cons, List.length_append, List.length_cons]
    omega

theorem metadataOf_complete (hround : Faithful round buf.length) {es : List Entry}
    (ho : Opens lead es.length) (hes : ∀ e ∈ es, e.Complete) {rest : Bytes}
    (hbuf : buf = opening lead es.length ++ (es.flatMap Entry.bytes ++ rest)) :
    ∃ c, metadataOf round buf = (.ok (es.foldl (Entry.put round) .empty), c) ∧ c.o ≤ buf.length := by
  obtain ⟨c, hat, hrun⟩ := metadataOf_opening round ho hbuf
  obtain ⟨c', hat', hentries⟩ := entries_at hround hes hat
  have hbytes := hat.length
  have hfew := length_le_flatMap_bytes es
  rw [List.length_append] at hbytes
  refine ⟨c', ?_, hat'.1⟩
  rw [hrun, hround.eq (by omega)]
  exact hentries 0 .empty

theorem metadataOf_cut (hround : Faithful round buf.length) {es : List Entry} {e : Entry}
    (ho : Opens lead (es.length + 1)) (hes : ∀ e ∈ es, e.Complete) (he : e.Cut)
    (hbuf : buf = opening lead (es.length + 1) ++ (es.flatMap Entry.bytes ++ e.bytes)) :
    ∃ m c, metadataOf round buf = (.ok m, c) ∧ Past buf c := by
  obtain ⟨c, hat, hrun⟩ := metadataOf_opening round ho hbuf
  obtain ⟨c', hat', hentries⟩ := entries_at hround hes hat
  obtain ⟨c'', hlast, hpast⟩ := entries_cut hround he hat' (es.foldl (Entry.put round) .empty)
  have hbytes := hat.length
  have hfew := length_le_flatMap_bytes (es ++ [e])
  rw [List.flatMap_append, List.flatMap_singleton, List.length_append, List.length_singleton] at hfew
  refine ⟨e.put round (es.foldl (Entry.put round) .empty), c'', ?_, hpast⟩
  rw [hrun, hround.eq (by omega), hentries 1 .empty, hlast]

end

/-! ## Files -/

/-- The file is an opening, so many entries, all of them there, and what else there is; and where
they are in what is read, `m` is what stands under their keys. -/
def Holds (file : Bytes) (m : Meta) : Prop :=
  ∃ (lead : Bytes) (es : List Entry) (rest : Bytes), Opens lead es.length ∧ (∀ e ∈ es, e.Complete) ∧
    file = opening lead es.length ++ (es.flatMap Entry.bytes ++ rest) ∧
    (24 + (es.flatMap Entry.bytes).length ≤ mebibyte → m = es.foldl (Entry.put toNumber) .empty)

/-- The last entry states, within what is read, a length that runs past the end of the file. -/
def Overlong (file : Bytes) : Prop :=
  ∃ (lead : Bytes) (es : List Entry) (e : Entry), Opens lead (es.length + 1) ∧ (∀ e ∈ es, e.Complete) ∧ e.Cut ∧
    file = opening lead (es.length + 1) ++ (es.flatMap Entry.bytes ++ e.bytes) ∧
    24 + (es.flatMap Entry.bytes).length + e.head.length ≤ mebibyte

theorem faithful_read (file : Bytes) : Faithful toNumber (file.take mebibyte).length :=
  faithful_toNumber (lt_of_le_of_lt (List.length_take_le _ _) (by decide))

theorem Overlong.not_holds {file : Bytes} (h : Overlong file) :
    ∃ m, (readGgufMetadata file).1 = .ok m ∧ ¬ Holds file m := by
  obtain ⟨lead, es, e, ho, hes, he, hfile, hroom⟩ := h
  -- what is read of the file ends in the same entry
  let k := mebibyte - (24 + (es.flatMap Entry.bytes).length + e.head.length)
  have hcut : Entry.Cut { e with last := e.last.take k } :=
    ⟨⟨he.key, he.kind⟩, he.sized, lt_of_le_of_lt (List.length_take_le' _ _) he.last⟩
  have hread : file.take mebibyte = opening lead (es.length + 1) ++
      (es.flatMap Entry.bytes ++ Entry.bytes { e with last := e.last.take k }) := by
    have hopening : file = (opening lead (es.length + 1) ++ (es.flatMap Entry.bytes ++ e.head)) ++ e.last := by
      rw [hfile, Entry.bytes, List.append_assoc, List.append_assoc]
    have hlength : (opening lead (es.length + 1) ++ (es.flatMap Entry.bytes ++ e.head)).length + k =
        mebibyte := by
      simp only [List.length_append, ho.length]
      omega
    rw [hopening, ← hlength, List.take_length_add_append, Entry.bytes, List.append_assoc,
      List.append_assoc]
    rfl
  obtain ⟨m, c, hrun, -⟩ := metadataOf_cut (faithful_read file) ho hes hcut hread
  refine ⟨m, congrArg Prod.fst hrun, ?_⟩
  rintro ⟨lead', es', rest, ho', hes', hfile', -⟩
  -- in exact integers, one reading ends within the file and the other past it
  obtain ⟨c₁, hrun₁, hle⟩ := metadataOf_complete (faithful_id file.length) ho' hes' hfile'
  obtain ⟨m₂, c₂, hrun₂, hpast⟩ := metadataOf_cut (faithful_id file.length) ho hes he hfile
  rw [hrun₁] at hrun₂
  obtain ⟨-, rfl⟩ := Prod.mk.inj hrun₂
  exact absurd hle (Nat.not_le_of_lt hpast)

theorem holds_of_not_overlong {file : Bytes} (h : ¬ Overlong file) {m : Meta}
    (hread : (readGgufMetadata file).1 = .ok m) : Holds file m := by
  have hrun : readGgufMetadata file = (.ok m, (readGgufMetadata file).2) := Prod.ext hread rfl
  obtain ⟨lead, count, c, ho, hc, hbuf, hentries⟩ := metadataOf_inv hrun
  have hround := faithful_read file
  have hfile : file = file.take mebibyte ++ file.drop mebibyte := (List.take_append_drop _ _).symm
  obtain ⟨es, hes, ⟨hcount, hm, hat, -⟩ | ⟨e, he, hcount, hat⟩⟩ := entries_inv hround hc hentries
  · have hbytes := hat.length
    have hfew := length_le_flatMap_bytes es
    rw [List.length_append] at hbytes
    obtain rfl := hround.of_eq (by omega) hcount
    rw [hat.2] at hbuf
    refine ⟨lead, es, (file.take mebibyte).drop (readGgufMetadata file).2.o ++ file.drop mebibyte, ho,
      hes, ?_, fun _ => hm⟩
    rw [← List.append_assoc (es.flatMap Entry.bytes), ← List.append_assoc, ← hbuf]
    exact hfile
  · have hbytes := hat.length
    have hfew := length_le_flatMap_bytes (es ++ [e])
    rw [List.flatMap_append, List.flatMap_singleton, List.length_append, List.length_singleton] at hfew
    obtain rfl := hround.of_eq (by omega) hcount
    rw [hat.2] at hbuf
    have hlength := congrArg List.length hbuf
    simp only [List.length_append, List.length_take, ho.length, Entry.bytes] at hlength
    -- the last bytes, with those that were not read
    have hwhole : file = opening lead (es.length + 1) ++
        (es.flatMap Entry.bytes ++ (e.head ++ (e.last ++ file.drop mebibyte))) := by
      have hsame : opening lead (es.length + 1) ++
          (es.flatMap Entry.bytes ++ (e.head ++ (e.last ++ file.drop mebibyte))) =
          file.take mebibyte ++ file.drop mebibyte := by
        rw [hbuf]
        simp only [Entry.bytes, List.append_assoc]
      rw [hsame]
      exact hfile
    have hneed : e.kind.need ≤ (e.last ++ file.drop mebibyte).length := by
      by_contra hshort
      refine h ⟨lead, es, { e with last := e.last ++ file.drop mebibyte }, ho, hes,
        ⟨⟨he.key, he.kind⟩, he.sized, Nat.lt_of_not_le hshort⟩, ?_, ?_⟩
      · exact hwhole
      · show 24 + _ + e.head.length ≤ mebibyte
        omega
    refine ⟨lead, es ++ [{ e with last := (e.last ++ file.drop mebibyte).take e.kind.need }],
      (e.last ++ file.drop mebibyte).drop e.kind.need, ?_, ?_, ?_, fun hfits => ?_⟩
    · rwa [List.length_append, List.length_singleton]
    · intro x hx
      rcases List.mem_append.mp hx with hx | hx
      · exact hes x hx
      · obtain rfl := List.mem_singleton.mp hx
        refine ⟨⟨he.key, he.kind⟩, ?_⟩
        rw [List.length_take]
        exact Nat.min_eq_left hneed
    · rw [List.length_append, List.length_singleton, List.flatMap_append, List.flatMap_singleton,
        Entry.bytes, List.append_assoc, List.append_assoc, List.take_append_drop]
      exact hwhole
    · -- these entries do not end in what is read
      have hlast := he.last
      simp only [List.flatMap_append, List.flatMap_singleton, Entry.bytes, List.length_append,
        List.length_take, List.length_drop] at hfits hneed
      have hhead : (Entry.head { e with last := (e.last ++ file.drop mebibyte).take e.kind.need }).length =
        e.head.length := rfl
      omega

/-! ## A shard of the server -/

theorem Meta.get_put_self (m : Meta) {key : String} (h : key ≠ "__proto__") (v : Option Value) :
    (m.put key v).get key = v := by
  rw [Meta.put, if_neg fun hproto => h hproto.1, Meta.get, List.find?_cons_of_pos (by simp)]
  rfl

theorem Meta.get_put_of_ne (m : Meta) {key key' : String} (h : key' ≠ key) (v : Option Value) :
    (m.put key' v).get key = m.get key := by
  unfold Meta.put
  split_ifs
  · rfl
  · rw [Meta.get, List.find?_cons_of_neg (by simpa using h)]
    rfl

/-- What the server's metadata leave, one entry after the other. -/
def keep (m : Meta) (e : String × Field) : Meta := m.put e.1 (some e.2.value)

variable {es : List (String × Field)}

theorem get_foldl_of_notMem {key : String} (h : key ∉ es.map Prod.fst)
    (m : Meta) : (es.foldl keep m).get key = m.get key := by
  induction es generalizing m with
  | nil => rfl
  | cons e es ih =>
    rw [List.map_cons, List.mem_cons, not_or] at h
    rw [List.foldl_cons, ih h.2]
    exact m.get_put_of_ne (Ne.symm h.1) _

variable {e : String × Field}

theorem get_foldl (hnodup : (es.map Prod.fst).Nodup)
    (hproto : "__proto__" ∉ es.map Prod.fst) (m : Meta) (he : e ∈ es) :
    (es.foldl keep m).get e.1 = some e.2.value := by
  induction es generalizing m with
  | nil => exact absurd he List.not_mem_nil
  | cons x es ih =>
    rw [List.map_cons, List.nodup_cons] at hnodup
    rw [List.map_cons, List.mem_cons, not_or] at hproto
    rw [List.foldl_cons]
    rcases List.mem_cons.mp he with rfl | he
    · rw [get_foldl_of_notMem hnodup.1]
      exact m.get_put_self (Ne.symm hproto.1) _
    · exact ih hnodup.2 hproto.2 _ he

/-- What `build_shard_gguf` writes: texts and 32-bit numbers. -/
def Written : Field → Prop
  | .str _ => True
  | .u32 n => n < 2 ^ 32
  | .u64 _ => False

def kindOf : Field → Kind
  | .str s => .text (utf8 s).length
  | .u32 _ => .plain 4
  | .u64 _ => .plain 10

def lastOf : Field → Bytes
  | .str s => utf8 s
  | .u32 n => leBytes 4 n
  | .u64 n => leBytes 8 n

def entryOf (e : String × Field) : Entry := ⟨utf8 e.1, kindOf e.2, lastOf e.2⟩

theorem kv_eq (e : String × Field) : kv e = (entryOf e).bytes := by
  obtain ⟨key, f⟩ := e
  cases f with
  | str s => simp only [kv, Entry.bytes, Entry.head, entryOf, kindOf, lastOf, gstr, stored, Kind.type,
      Kind.head, Field.type, Field.bytes, List.append_assoc]
  | u32 n => simp only [kv, Entry.bytes, Entry.head, entryOf, kindOf, lastOf, gstr, stored, Kind.type,
      Kind.head, Field.type, Field.bytes, List.append_assoc, List.nil_append]
  | u64 n => simp only [kv, Entry.bytes, Entry.head, entryOf, kindOf, lastOf, gstr, stored, Kind.type,
      Kind.head, Field.type, Field.bytes, List.append_assoc, List.nil_append]

theorem entryOf_complete (h : (kv e).length ≤ mebibyte) :
    (entryOf e).Complete := by
  have hsmall : mebibyte < 256 ^ 8 := by decide
  rw [kv_eq] at h
  simp only [Entry.bytes, Entry.head, stored, List.length_append, length_leBytes] at h
  have hkey : (entryOf e).key.length < 256 ^ 8 := by omega
  have hlast : (entryOf e).last.length < 256 ^ 8 := by omega
  obtain ⟨key, f⟩ := e
  cases f with
  | str s => exact ⟨⟨hkey, hlast⟩, rfl⟩
  | u32 n => exact ⟨⟨hkey, rfl⟩, length_leBytes 4 n⟩
  | u64 n => exact ⟨⟨hkey, rfl⟩, length_leBytes 8 n⟩

theorem put_entryOf (h : Written e.2) (m : Meta) :
    Entry.put toNumber m (entryOf e) = keep m e := by
  obtain ⟨key, f⟩ := e
  cases f with
  | str s =>
    show m.put (ofUtf8 (utf8 key)) (some (.str (ofUtf8 (utf8 s)))) = m.put key (some (.str s))
    rw [ofUtf8_utf8, ofUtf8_utf8]
  | u32 n =>
    show m.put (ofUtf8 (utf8 key)) (some (.int (leValue (leBytes 4 n)))) = m.put key (some (.int n))
    rw [ofUtf8_utf8, leValue_leBytes h]
  | u64 n => exact absurd h id

theorem foldl_entryOf (h : ∀ e ∈ es, Written e.2) (m : Meta) :
    (es.map entryOf).foldl (Entry.put toNumber) m = es.foldl keep m := by
  induction es generalizing m with
  | nil => rfl
  | cons e es ih =>
    rw [List.map_cons, List.foldl_cons, List.foldl_cons, put_entryOf (h e List.mem_cons_self)]
    exact ih (fun x hx => h x (List.mem_cons_of_mem e hx)) _

def fixedKeys : List String := [
  "general.architecture", "general.alignment", "kvasir.expert_shard.model", "kvasir.expert_shard.layer",
  "kvasir.expert_shard.expert_begin", "kvasir.expert_shard.expert_end",
  "kvasir.expert_shard.n_expert_total", "kvasir.expert_shard.n_embd", "kvasir.expert_shard.n_ff",
  "kvasir.expert_shard.source_digest"]

def suffixes : List String := [".embedding_length", ".block_count", ".expert_count"]

theorem keys_entries (arch id digest : String) (layer beg stop nExpert nEmbd nFf nLayer : Field) :
    (Shard.entries arch id digest layer beg stop nExpert nEmbd nFf nLayer).map Prod.fst =
      fixedKeys ++ suffixes.map (arch ++ ·) := by
  rw [Shard.entries, embedding_key]
  rfl

theorem append_left_injective (arch : String) : Function.Injective (arch ++ ·) := by
  intro s t h
  have htoList := congrArg String.toList h
  simp only [String.toList_append, List.append_cancel_left_eq] at htoList
  exact String.toList_inj.mp htoList

theorem suffixes_apart : ∀ key ∈ "__proto__" :: fixedKeys, ∀ suffix ∈ suffixes,
    ¬ suffix.toList <:+ key.toList := by decide +kernel

theorem keys_nodup (arch : String) : (fixedKeys ++ suffixes.map (arch ++ ·)).Nodup ∧
    "__proto__" ∉ fixedKeys ++ suffixes.map (arch ++ ·) := by
  have hother : ∀ key ∈ "__proto__" :: fixedKeys, key ∉ suffixes.map (arch ++ ·) := by
    intro key hkey hmem
    obtain ⟨suffix, hsuffix, heq⟩ := List.mem_map.mp hmem
    exact append_ne (suffixes_apart key hkey suffix hsuffix) heq
  constructor
  · refine List.nodup_append.mpr ⟨by decide +kernel,
      List.Nodup.map (append_left_injective arch) (by decide +kernel), ?_⟩
    rintro key hkey _ hmem rfl
    exact hother key (List.mem_cons_of_mem _ hkey) hmem
  · intro hmem
    rcases List.mem_append.mp hmem with hmem | hmem
    · exact absurd hmem (by decide +kernel)
    · exact hother _ List.mem_cons_self hmem

theorem packU32_written {v : Value} {f : Field} (h : packU32 v = some f) : Written f := by
  have hfits := packU32_fits h unbounded
  cases v with
  | int n =>
    unfold packU32 at h
    dsimp only at h
    split_ifs at h with hfit
    obtain rfl := Option.some.inj h
    exact hfits
  | bool b =>
    obtain rfl := Option.some.inj h
    exact hfits
  | float x => cases h
  | str s => cases h
  | list xs => cases h

theorem metadata_some {m : Loaded} {layer beg stop : ℤ}
    (h : Shard.metadata m layer beg stop = some es) :
    (es.map Prod.fst).Nodup ∧ "__proto__" ∉ es.map Prod.fst ∧ es.length = 13 ∧
      (∀ e ∈ es, Written e.2) ∧ ∃ l b s : ℕ, layer = l ∧ beg = b ∧ stop = s ∧
        ("kvasir.expert_shard.layer", .u32 l) ∈ es ∧
        ("kvasir.expert_shard.expert_begin", .u32 b) ∈ es ∧
        ("kvasir.expert_shard.expert_end", .u32 s) ∈ es := by
  have hpack : ∀ {n : ℤ} {f : Field}, packU32 (.int n) = some f → ∃ k : ℕ, n = k ∧ f = .u32 k := by
    intro n f hf
    unfold packU32 at hf
    dsimp only at hf
    split_ifs at hf with hfit
    exact ⟨n.toNat, by omega, (Option.some.inj hf).symm⟩
  unfold Shard.metadata at h
  dsimp only at h
  split at h
  swap
  · cases h
  obtain ⟨arch, -, h⟩ := Option.bind_eq_some_iff.mp h
  obtain ⟨layerField, hlayer, h⟩ := Option.bind_eq_some_iff.mp h
  obtain ⟨begField, hbeg, h⟩ := Option.bind_eq_some_iff.mp h
  obtain ⟨stopField, hstop, h⟩ := Option.bind_eq_some_iff.mp h
  obtain ⟨nExpert, hnExpert, h⟩ := Option.bind_eq_some_iff.mp h
  obtain ⟨nEmbd, hnEmbd, h⟩ := Option.bind_eq_some_iff.mp h
  obtain ⟨nFf, hnFf, h⟩ := Option.bind_eq_some_iff.mp h
  obtain ⟨nLayer, hnLayer, h⟩ := Option.bind_eq_some_iff.mp h
  obtain rfl := Option.some.inj h
  have hcount : ∀ {o : Option Value} {f : Field}, o.bind packU32 = some f → Written f := by
    intro o f ho
    obtain ⟨v, -, hv⟩ := Option.bind_eq_some_iff.mp ho
    exact packU32_written hv
  obtain ⟨hnodup, hproto⟩ := keys_nodup arch
  refine ⟨by rwa [keys_entries], by rwa [keys_entries], rfl, ?_, ?_⟩
  · have hwritten := And.intro (packU32_written hlayer) (And.intro (packU32_written hbeg)
      (And.intro (packU32_written hstop) (packU32_written hnExpert)))
    obtain ⟨h1, h2, h3, h4⟩ := hwritten
    simp only [Shard.entries, List.forall_mem_cons]
    exact ⟨trivial, (by decide : 32 < 2 ^ 32), trivial, h1, h2, h3, h4, hcount hnEmbd, hcount hnFf,
      trivial, hcount hnEmbd, hcount hnLayer, h4, fun _ h => absurd h List.not_mem_nil⟩
  · obtain ⟨l, rfl, rfl⟩ := hpack hlayer
    obtain ⟨b, rfl, rfl⟩ := hpack hbeg
    obtain ⟨s, rfl, rfl⟩ := hpack hstop
    exact ⟨l, b, s, rfl, rfl, rfl, by simp [Shard.entries], by simp [Shard.entries],
      by simp [Shard.entries]⟩

section
variable {spell : Value → String} {m : Loaded} {layer beg stop : ℤ} {header : Bytes}
  {placed : List Placed}

theorem header_opening (h : buildShardGguf spell m layer beg stop = .ok (header, placed)) :
    ∃ (es : List (String × Field)) (lead rest : Bytes), Shard.metadata m layer beg stop = some es ∧
      Opens lead es.length ∧ header = opening lead es.length ++ (es.flatMap kv ++ rest) := by
  unfold buildShardGguf at h
  cases hplan : plan spell m.model layer beg stop with
  | error text => rw [hplan] at h; cases h
  | ok parts =>
    rw [hplan] at h
    dsimp only at h
    cases hmeta : Shard.metadata m layer beg stop with
    | none => rw [hmeta] at h; cases h
    | some es =>
      cases hinfos : (place 0 parts).mapM (infoOf layer (stop - beg)) with
      | none => rw [hmeta, hinfos] at h; cases h
      | some infos =>
        rw [hmeta, hinfos] at h
        obtain ⟨rfl, -⟩ := Prod.mk.inj (Except.ok.inj h)
        obtain ⟨-, -, hlength, -⟩ := metadata_some hmeta
        refine ⟨es, leBytes 4 3 ++ leBytes 8 infos.length, infos.flatMap info ++
          zeros (-((headerBytes es infos).length : ℤ) % ggufAlignment), rfl, ⟨?_, ?_⟩, ?_⟩
        · rw [List.length_append, length_leBytes, length_leBytes]
        · rw [hlength]
          decide
        · simp only [padded, headerBytes, opening, List.append_assoc]

theorem read_shard (h : buildShardGguf spell m layer beg stop = .ok (header, placed)) :
    ∃ es, Shard.metadata m layer beg stop = some es ∧ (24 + (es.flatMap kv).length ≤ mebibyte →
      ∀ data, ∃ mt, (readGgufMetadata (header ++ data)).1 = .ok mt ∧
        ∀ e ∈ es, mt.get e.1 = some e.2.value) := by
  obtain ⟨es, lead, rest, hmeta, ho, rfl⟩ := header_opening h
  refine ⟨es, hmeta, fun hfits data => ?_⟩
  obtain ⟨hnodup, hproto, -, hwritten, -⟩ := metadata_some hmeta
  have hbytes : (es.map entryOf).flatMap Entry.bytes = es.flatMap kv := by
    rw [List.flatMap_map]
    exact List.flatMap_congr fun e _ => (kv_eq e).symm
  have hcomplete : ∀ e ∈ es.map entryOf, e.Complete := by
    intro e he
    obtain ⟨x, hx, rfl⟩ := List.mem_map.mp he
    apply entryOf_complete
    obtain ⟨before, after, rfl⟩ := List.append_of_mem hx
    rw [List.flatMap_append, List.flatMap_cons, List.length_append, List.length_append] at hfits
    omega
  -- the first MiB has the entries whole
  let rest' := ((rest ++ data).take (mebibyte - (24 + (es.flatMap kv).length)))
  have hread : ((opening lead es.length ++ (es.flatMap kv ++ rest)) ++ data).take mebibyte =
      opening lead (es.map entryOf).length ++ ((es.map entryOf).flatMap Entry.bytes ++ rest') := by
    have hlength : (opening lead es.length ++ es.flatMap kv).length +
        (mebibyte - (24 + (es.flatMap kv).length)) = mebibyte := by
      rw [List.length_append, ho.length]
      omega
    have hsplit : (opening lead es.length ++ (es.flatMap kv ++ rest)) ++ data =
        (opening lead es.length ++ es.flatMap kv) ++ (rest ++ data) := by
      simp only [List.append_assoc]
    rw [hsplit, hbytes, List.length_map]
    nth_rewrite 1 [← hlength]
    rw [List.take_length_add_append, List.append_assoc]
  obtain ⟨c, hrun, -⟩ := metadataOf_complete (faithful_read _) (by rwa [List.length_map]) hcomplete hread
  refine ⟨es.foldl keep .empty, ?_, fun e he => get_foldl hnodup hproto _ he⟩
  rw [readGgufMetadata, hrun, foldl_entryOf hwritten]

theorem strictlyEquals_int {n : ℕ} {w : Num} :
    strictlyEquals (some (.int n)) w = true ↔ w = .fin (n : ℤ) := by
  rw [strictlyEquals, decide_eq_true_eq]

theorem checkShard_shard (h : buildShardGguf spell m layer beg stop = .ok (header, placed)) :
    ∃ es, Shard.metadata m layer beg stop = some es ∧ (24 + (es.flatMap kv).length ≤ mebibyte →
      ∀ data want, (checkShard (header ++ data) want).isSome = true ↔
        want = ⟨.fin layer, .fin beg, .fin stop⟩) := by
  obtain ⟨es, hmeta, hread⟩ := read_shard h
  refine ⟨es, hmeta, fun hfits data want => ?_⟩
  obtain ⟨mt, hmt, hget⟩ := hread hfits data
  obtain ⟨-, -, -, -, l, b, s, rfl, rfl, rfl, hl, hb, hs⟩ := metadata_some hmeta
  have hlayer : mt.get "kvasir.expert_shard.layer" = some (.int l) := hget _ hl
  have hbeg : mt.get "kvasir.expert_shard.expert_begin" = some (.int b) := hget _ hb
  have hstop : mt.get "kvasir.expert_shard.expert_end" = some (.int s) := hget _ hs
  have haccept : (checkShard (header ++ data) want).isSome = true ↔
      strictlyEquals (some (.int l)) want.layer = true ∧
        strictlyEquals (some (.int b)) want.beg = true ∧
        strictlyEquals (some (.int s)) want.stop = true := by
    unfold checkShard
    rw [hmt]
    dsimp only
    rw [hlayer, hbeg, hstop, Option.some_or, Option.some_or]
    split_ifs with hother
    · refine ⟨fun hnone => (by cases hnone), fun ⟨h1, h2, h3⟩ => ?_⟩
      rcases hother with ⟨-, hno⟩ | hno | hno
      · rw [hno] at h1; cases h1
      · rw [hno] at h2; cases h2
      · rw [hno] at h3; cases h3
    · refine ⟨fun _ => ?_, fun _ => rfl⟩
      simpa only [Option.isSome_some, true_and, not_or, Bool.not_eq_false] using hother
  rw [haccept, strictlyEquals_int, strictlyEquals_int, strictlyEquals_int]
  constructor
  · rintro ⟨h1, h2, h3⟩
    cases want
    simp only at h1 h2 h3
    rw [h1, h2, h3]
  · rintro rfl
    exact ⟨rfl, rfl, rfl⟩

end

/-- The desktop reads of a shard what the server wrote, and takes it for that window; it ends within
as many steps as it reads bytes; and it returns what the file holds just when the last entry does not
claim more than the file has. -/
theorem metadata_read (spell : Value → String) :
    (∀ m layer beg stop header placed,
      buildShardGguf spell m layer beg stop = .ok (header, placed) →
        ∃ es, Shard.metadata m layer beg stop = some es ∧
          (24 + (es.flatMap kv).length ≤ mebibyte → ∀ data,
            (∃ mt, (readGgufMetadata (header ++ data)).1 = .ok mt ∧
              ∀ e ∈ es, mt.get e.1 = some e.2.value) ∧
            ∀ want, (checkShard (header ++ data) want).isSome = true ↔
              want = ⟨.fin layer, .fin beg, .fin stop⟩)) ∧
    ∀ file : Bytes, (readGgufMetadata file).2.steps ≤ (file.take mebibyte).length ∧
      ((∀ mt, (readGgufMetadata file).1 = .ok mt → Holds file mt) ↔ ¬ Overlong file) := by
  refine ⟨fun m layer beg stop header placed hbuild => ?_, fun file =>
    ⟨steps_le (faithful_read file), fun hholds hover => ?_, fun hover mt hread => ?_⟩⟩
  · obtain ⟨es, hmeta, hread⟩ := read_shard hbuild
    obtain ⟨es', hmeta', hcheck⟩ := checkShard_shard hbuild
    obtain rfl := Option.some.inj (hmeta.symm.trans hmeta')
    exact ⟨es, hmeta, fun hfits data => ⟨hread hfits data, hcheck hfits data⟩⟩
  · obtain ⟨mt, hread, hnot⟩ := hover.not_holds
    exact hnot (hholds mt hread)
  · exact holds_of_not_overlong hover hread

/-- The shard of the first expert of a small model. -/
theorem metadata_read_sample : ∃ header placed,
    buildShardGguf (fun _ => "") sampleLoaded 0 0 1 = .ok (header, placed) ∧
      (∀ want, (checkShard header want).isSome = true ↔ want = ⟨.fin 0, .fin 0, .fin 1⟩) ∧
      (readGgufMetadata header).2.steps ≤ (header.take mebibyte).length := by
  cases hbuild : buildShardGguf (fun _ => "") sampleLoaded 0 0 1 with
  | error e =>
    have hok : (buildShardGguf (fun _ => "") sampleLoaded 0 0 1).isOk = true := by decide +kernel
    rw [hbuild] at hok
    cases hok
  | ok built =>
    obtain ⟨header, placed⟩ := built
    obtain ⟨es, hmeta, hread⟩ := (metadata_read fun _ => "").1 sampleLoaded 0 0 1 header placed hbuild
    have hes : ((Shard.metadata sampleLoaded 0 0 1).any fun es =>
        decide (24 + (es.flatMap kv).length ≤ mebibyte)) = true := by decide +kernel
    rw [hmeta] at hes
    obtain ⟨-, hcheck⟩ := hread (of_decide_eq_true hes) []
    rw [List.append_nil] at hcheck
    exact ⟨header, placed, rfl, hcheck, ((metadata_read fun _ => "").2 header).1⟩

def clampedFile : Bytes :=
  opening (List.replicate 12 0) 1 ++ Entry.bytes ⟨[97], .text 100, [98]⟩

theorem clamped_text_returned :
    ¬ ∀ (file : Bytes) (mt : Meta), (readGgufMetadata file).1 = .ok mt → Holds file mt := by
  intro h
  have hcut : Entry.Cut ⟨[97], .text 100, [98]⟩ :=
    ⟨⟨by decide, by show 100 < 256 ^ 8; decide⟩, trivial, by decide⟩
  have hover : Overlong clampedFile :=
    ⟨List.replicate 12 0, [], ⟨[97], .text 100, [98]⟩, ⟨rfl, by decide⟩,
      fun e he => absurd he List.not_mem_nil, hcut, rfl, by decide⟩
  obtain ⟨mt, hread, hnot⟩ := hover.not_holds
  exact hnot (h clampedFile mt hread)

end KvasirNet.ShardReader
