import KvasirNet.ByteFormat
import KvasirNet.Utf8Text

/-! Zip archives: the directory at the end of one, as `readZipEntries` (`cudaPack.cjs`) finds it, and
the bytes that a writer puts out. -/
namespace KvasirNet.Zip

/-! ## Reading -/

inductive Fault
  | notZip
  /-- A read outside a buffer, or a number that is out of range. -/
  | range
  | corruptDirectory
  | escapes (name : String)
  | corruptLocal (name : String)
  | badMethod (method : ℕ) (name : String)
  | badData (name : String)
  | badSize (name : String) (got expected : ℕ)
  /-- The disk refuses a path. -/
  | refused
  deriving DecidableEq

/-- The texts of the errors that are thrown here. -/
def Fault.message : Fault → Option String
  | notZip => some "not a zip file (no end of central directory)"
  | corruptDirectory => some "corrupt central directory"
  | escapes name => some ("zip entry escapes the install dir: " ++ name)
  | corruptLocal name => some ("corrupt local header for " ++ name)
  | badMethod method name => some ("unsupported zip method " ++ toString method ++ " for " ++ name)
  | badSize name got expected =>
    some (name ++ ": extracted " ++ toString got ++ " bytes, expected " ++ toString expected)
  | range => none
  | badData _ => none
  | refused => none

/-- `readSync` into a buffer of zeros; behind the end of the file they stay. -/
def readAt (file : Bytes) (pos len : ℕ) : Bytes :=
  let got := (file.drop pos).take len
  got ++ List.replicate (len - got.length) 0

/-- `readUInt16LE` and `readUInt32LE`. -/
def uint (width : ℕ) (buf : Bytes) (o : ℕ) : Except Fault ℕ :=
  if buf.length < o + width then .error .range else .ok (leValue ((buf.drop o).take width))

/-- `lastIndexOf`, of a pattern that is not empty. -/
def lastIndexOf (pattern : Bytes) : Bytes → Option ℕ
  | [] => none
  | b :: bs =>
    match lastIndexOf pattern bs with
    | some i => some (i + 1)
    | none => if pattern.isPrefixOf (b :: bs) then some 0 else none

def endSignature : Bytes := [0x50, 0x4b, 0x05, 0x06]

/-- What the end record tells of the directory. -/
structure End where
  count : ℕ
  cdSize : ℕ
  cdOffset : ℕ
  deriving DecidableEq

def readEnd (file : Bytes) : Except Fault End :=
  let tailLen := min file.length 65557
  let tail := readAt file (file.length - tailLen) tailLen
  match lastIndexOf endSignature tail with
  | none => .error .notZip
  | some eocd => do
    let count ← uint 2 tail (eocd + 10)
    let cdSize ← uint 4 tail (eocd + 12)
    let cdOffset ← uint 4 tail (eocd + 16)
    pure ⟨count, cdSize, cdOffset⟩

structure Entry where
  name : String
  method : ℕ
  crc : ℕ
  compressed : ℕ
  uncompressed : ℕ
  localOffset : ℕ
  deriving DecidableEq

/-- An entry of the directory, and where the next one begins. -/
def readEntry (cd : Bytes) (o : ℕ) : Except Fault (Entry × ℕ) := do
  let signature ← uint 4 cd o
  if signature ≠ 0x02014b50 then .error .corruptDirectory
  else do
    let method ← uint 2 cd (o + 10)
    let crc ← uint 4 cd (o + 16)
    let compressed ← uint 4 cd (o + 20)
    let uncompressed ← uint 4 cd (o + 24)
    let nameLen ← uint 2 cd (o + 28)
    let extraLen ← uint 2 cd (o + 30)
    let commentLen ← uint 2 cd (o + 32)
    let localOffset ← uint 4 cd (o + 42)
    let name := ofUtf8 ((cd.drop (o + 46)).take nameLen)
    pure (⟨name, method, crc, compressed, uncompressed, localOffset⟩,
      o + (46 + nameLen + extraLen + commentLen))

def readEntries (cd : Bytes) : ℕ → ℕ → Except Fault (List Entry)
  | 0, _ => .ok []
  | n + 1, o => do
    let (entry, next) ← readEntry cd o
    let rest ← readEntries cd n next
    pure (entry :: rest)

/-- `length |= 0` makes a negative length of 2^31 and more. -/
def readZipEntries (file : Bytes) : Except Fault (List Entry) := do
  let e ← readEnd file
  if 2 ^ 31 ≤ e.cdSize then .error .range
  else readEntries (readAt file e.cdOffset e.cdSize) e.count 0

/-! ## Writing -/

/-- What a writer puts out for one file: `made`, `stamp`, `crc`, `attributes` and the fields of the
local header are bytes of its own choice, and a descriptor may follow the data. -/
structure Record where
  name : Bytes
  method : ℕ
  packed : Bytes
  size : ℕ
  localHead : Bytes
  localExtra : Bytes
  trailer : Bytes
  made : Bytes
  stamp : Bytes
  crc : ℕ
  attributes : Bytes
  extra : Bytes
  comment : Bytes

structure Record.Fits (r : Record) : Prop where
  name : r.name.length < 256 ^ 2
  method : r.method < 256 ^ 2
  packed : r.packed.length < 256 ^ 4
  size : r.size < 256 ^ 4
  localHead : r.localHead.length = 22
  localExtra : r.localExtra.length < 256 ^ 2
  made : r.made.length = 6
  stamp : r.stamp.length = 4
  crc : r.crc < 256 ^ 4
  attributes : r.attributes.length = 8
  extra : r.extra.length < 256 ^ 2
  comment : r.comment.length < 256 ^ 2

def localSignature : Bytes := [0x50, 0x4b, 0x03, 0x04]
def entrySignature : Bytes := [0x50, 0x4b, 0x01, 0x02]

def Record.localHeader (r : Record) : Bytes :=
  localSignature ++ (r.localHead ++ (leBytes 2 r.name.length ++ leBytes 2 r.localExtra.length))

def Record.localRecord (r : Record) : Bytes :=
  r.localHeader ++ (r.name ++ (r.localExtra ++ (r.packed ++ r.trailer)))

def Record.central (r : Record) (offset : ℕ) : Bytes :=
  entrySignature ++ (r.made ++ (leBytes 2 r.method ++ (r.stamp ++ (leBytes 4 r.crc ++
    (leBytes 4 r.packed.length ++ (leBytes 4 r.size ++ (leBytes 2 r.name.length ++
      (leBytes 2 r.extra.length ++ (leBytes 2 r.comment.length ++ (r.attributes ++
        (leBytes 4 offset ++ (r.name ++ (r.extra ++ r.comment)))))))))))))

def locals (records : List Record) : Bytes := records.flatMap Record.localRecord

/-- The directory, when the first local record stands at the offset. -/
def directory : ℕ → List Record → Bytes
  | _, [] => []
  | offset, r :: rest => r.central offset ++ directory (offset + r.localRecord.length) rest

/-- The end record; `numbers` are those of the disks. -/
def endRecord (numbers : Bytes) (count cdSize cdOffset : ℕ) (comment : Bytes) : Bytes :=
  endSignature ++ (numbers ++ (leBytes 2 count ++ (leBytes 4 cdSize ++ (leBytes 4 cdOffset ++
    (leBytes 2 comment.length ++ comment)))))

def listed : ℕ → List Record → List Entry
  | _, [] => []
  | offset, r :: rest =>
    ⟨ofUtf8 r.name, r.method, r.crc, r.packed.length, r.size, offset⟩ ::
      listed (offset + r.localRecord.length) rest

structure Archive where
  records : List Record
  numbers : Bytes
  comment : Bytes
  fits : ∀ r ∈ records, r.Fits
  numbers_length : numbers.length = 6
  comment_length : comment.length < 256 ^ 2
  count : records.length < 256 ^ 2
  locals_length : (locals records).length < 256 ^ 4
  directory_length : (directory 0 records).length < 256 ^ 4

def Archive.last (a : Archive) : Bytes :=
  endRecord a.numbers a.records.length (directory 0 a.records).length (locals a.records).length
    a.comment

def Archive.bytes (a : Archive) : Bytes := locals a.records ++ (directory 0 a.records ++ a.last)

/-- No other end signature stands behind the one of the end record. -/
def Archive.Quiet (a : Archive) : Prop := ¬ endSignature <:+: a.last.tail

instance (a : Archive) : Decidable a.Quiet :=
  inferInstanceAs (Decidable (¬ endSignature <:+: a.last.tail))

/-! ## Fields -/

theorem uint_shift (width : ℕ) (pre buf : Bytes) (k : ℕ) :
    uint width (pre ++ buf) (pre.length + k) = uint width buf k := by
  have hbound : (pre ++ buf).length < pre.length + k + width ↔ buf.length < k + width := by
    rw [List.length_append]
    omega
  have hdrop : (pre ++ buf).drop (pre.length + k) = buf.drop k := by
    rw [List.drop_append, List.drop_eq_nil_of_le (Nat.le_add_right _ _), List.nil_append,
      Nat.add_sub_cancel_left]
  unfold uint
  rw [hdrop]
  by_cases hshort : buf.length < k + width
  · rw [if_pos hshort, if_pos (hbound.mpr hshort)]
  · rw [if_neg hshort, if_neg fun h => hshort (hbound.mp h)]

theorem uint_field {width n o : ℕ} {before after : Bytes} (ho : before.length = o)
    (hn : n < 256 ^ width) : uint width (before ++ (leBytes width n ++ after)) o = .ok n := by
  have hlength := length_leBytes width n
  rw [← ho, ← Nat.add_zero before.length, uint_shift]
  unfold uint
  have hlong : ¬ (leBytes width n ++ after).length < 0 + width := by
    rw [List.length_append, hlength]
    omega
  rw [if_neg hlong, List.drop_zero, List.take_left' hlength, leValue_leBytes hn]

theorem readAt_inside {file : Bytes} {pos len : ℕ} (h : pos + len ≤ file.length) :
    readAt file pos len = (file.drop pos).take len := by
  have hlength : ((file.drop pos).take len).length = len := by
    rw [List.length_take, List.length_drop]
    omega
  unfold readAt
  dsimp only
  rw [hlength, Nat.sub_self]
  exact List.append_nil _

theorem length_readAt (file : Bytes) (pos len : ℕ) : (readAt file pos len).length = len := by
  unfold readAt
  rw [List.length_append, List.length_replicate, List.length_take]
  omega

theorem readAt_append (before mid after : Bytes) :
    readAt (before ++ (mid ++ after)) before.length mid.length = mid := by
  have hinside : before.length + mid.length ≤ (before ++ (mid ++ after)).length := by
    rw [List.length_append, List.length_append]
    omega
  rw [readAt_inside hinside, List.drop_left, List.take_left]

/-! ## The end record -/

theorem lastIndexOf_eq_none_iff {pattern : Bytes} (hne : pattern ≠ []) (bs : Bytes) :
    lastIndexOf pattern bs = none ↔ ¬ pattern <:+: bs := by
  induction bs with
  | nil =>
    refine ⟨fun _ h => ?_, fun _ => rfl⟩
    exact hne (List.infix_nil.mp h)
  | cons b bs ih =>
    rw [List.infix_cons_iff, not_or, ← ih, lastIndexOf]
    cases hrest : lastIndexOf pattern bs with
    | some i => simp
    | none =>
      dsimp only
      by_cases hhere : pattern.isPrefixOf (b :: bs) = true
      · have hstart := List.isPrefixOf_iff_prefix.mp hhere
        rw [if_pos hhere]
        exact ⟨fun h => (by cases h), fun h => absurd hstart h.1⟩
      · rw [if_neg hhere]
        exact ⟨fun _ => ⟨fun h => hhere (List.isPrefixOf_iff_prefix.mpr h), rfl⟩, fun _ => rfl⟩

theorem lastIndexOf_append {pattern record : Bytes} (pre : Bytes) (hne : pattern ≠ [])
    (hstart : pattern <+: record) (honce : ¬ pattern <:+: record.tail) :
    lastIndexOf pattern (pre ++ record) = some pre.length := by
  induction pre with
  | nil =>
    cases record with
    | nil => exact absurd (List.prefix_nil.mp hstart) hne
    | cons b bs =>
      have hrest : lastIndexOf pattern bs = none := (lastIndexOf_eq_none_iff hne bs).mpr honce
      rw [List.nil_append, lastIndexOf, hrest]
      exact if_pos (List.isPrefixOf_iff_prefix.mpr hstart)
  | cons b pre ih => rw [List.cons_append, lastIndexOf, ih, List.length_cons]

theorem length_endRecord {numbers comment : Bytes} (count cdSize cdOffset : ℕ)
    (hnumbers : numbers.length = 6) :
    (endRecord numbers count cdSize cdOffset comment).length = 22 + comment.length := by
  simp only [endRecord, endSignature, List.length_append, length_leBytes, List.length_cons,
    List.length_nil, hnumbers]
  omega

variable {a : Archive}

theorem Archive.length_last (a : Archive) : a.last.length = 22 + a.comment.length :=
  length_endRecord _ _ _ a.numbers_length

theorem Archive.last_fields (a : Archive) :
    uint 2 a.last 10 = .ok a.records.length ∧
      uint 4 a.last 12 = .ok (directory 0 a.records).length ∧
      uint 4 a.last 16 = .ok (locals a.records).length := by
  have hnumbers := a.numbers_length
  refine ⟨?_, ?_, ?_⟩
  · have hshape : a.last = (endSignature ++ a.numbers) ++ (leBytes 2 a.records.length ++
        (leBytes 4 (directory 0 a.records).length ++ (leBytes 4 (locals a.records).length ++
          (leBytes 2 a.comment.length ++ a.comment)))) := by
      simp only [Archive.last, endRecord, List.append_assoc]
    rw [hshape]
    apply uint_field _ a.count
    rw [List.length_append, hnumbers]
    rfl
  · have hshape : a.last = (endSignature ++ (a.numbers ++ leBytes 2 a.records.length)) ++
        (leBytes 4 (directory 0 a.records).length ++ (leBytes 4 (locals a.records).length ++
          (leBytes 2 a.comment.length ++ a.comment))) := by
      simp only [Archive.last, endRecord, List.append_assoc]
    rw [hshape]
    apply uint_field _ a.directory_length
    rw [List.length_append, List.length_append, hnumbers, length_leBytes]
    rfl
  · have hshape : a.last = (endSignature ++ (a.numbers ++ (leBytes 2 a.records.length ++
        leBytes 4 (directory 0 a.records).length))) ++ (leBytes 4 (locals a.records).length ++
          (leBytes 2 a.comment.length ++ a.comment)) := by
      simp only [Archive.last, endRecord, List.append_assoc]
    rw [hshape]
    apply uint_field _ a.locals_length
    rw [List.length_append, List.length_append, List.length_append, hnumbers, length_leBytes,
      length_leBytes]
    rfl

theorem readEnd_bytes (hquiet : a.Quiet) :
    readEnd a.bytes = .ok ⟨a.records.length, (directory 0 a.records).length,
      (locals a.records).length⟩ := by
  have hcomment := a.comment_length
  have hlast := a.length_last
  have hlength : a.bytes.length =
      (locals a.records ++ directory 0 a.records).length + a.last.length := by
    rw [Archive.bytes, ← List.append_assoc, List.length_append]
  -- the tail is the record with some bytes before it
  obtain ⟨pre, htail⟩ : ∃ pre, readAt a.bytes (a.bytes.length - min a.bytes.length 65557)
      (min a.bytes.length 65557) = pre ++ a.last := by
    have hle : a.bytes.length - min a.bytes.length 65557 ≤
        (locals a.records ++ directory 0 a.records).length := by omega
    refine ⟨(locals a.records ++ directory 0 a.records).drop
      (a.bytes.length - min a.bytes.length 65557), ?_⟩
    rw [readAt_inside (by omega), List.take_of_length_le (by rw [List.length_drop]; omega),
      ← List.drop_append_of_le_length hle, Archive.bytes, List.append_assoc]
  have hindex : lastIndexOf endSignature (pre ++ a.last) = some pre.length := by
    apply lastIndexOf_append pre (by decide) _ hquiet
    exact List.prefix_append _ _
  obtain ⟨hcount, hsize, hoffset⟩ := a.last_fields
  unfold readEnd
  dsimp only
  rw [htail, hindex]
  dsimp only
  rw [uint_shift, uint_shift, uint_shift, hcount, hsize, hoffset]
  rfl

/-! ## The directory -/

theorem Record.Fits.length_localHeader {r : Record} (h : r.Fits) : r.localHeader.length = 30 := by
  rw [Record.localHeader, List.length_append, List.length_append, List.length_append, h.localHead,
    length_leBytes, length_leBytes]
  rfl

theorem length_central {r : Record} (h : r.Fits) (offset : ℕ) :
    (r.central offset).length = 46 + r.name.length + r.extra.length + r.comment.length := by
  simp only [Record.central, entrySignature, List.length_append, length_leBytes, List.length_cons,
    List.length_nil, h.made, h.stamp, h.attributes]
  omega

/-- The fields of an entry, each at its place. -/
structure Fields (buf : Bytes) (r : Record) (offset : ℕ) : Prop where
  signature : uint 4 buf 0 = .ok 0x02014b50
  method : uint 2 buf 10 = .ok r.method
  crc : uint 4 buf 16 = .ok r.crc
  packed : uint 4 buf 20 = .ok r.packed.length
  size : uint 4 buf 24 = .ok r.size
  nameLen : uint 2 buf 28 = .ok r.name.length
  extraLen : uint 2 buf 30 = .ok r.extra.length
  commentLen : uint 2 buf 32 = .ok r.comment.length
  localOffset : uint 4 buf 42 = .ok offset
  name : (buf.drop 46).take r.name.length = r.name

theorem central_fields {r : Record} {offset : ℕ} (h : r.Fits) (hoffset : offset < 256 ^ 4)
    (rest : Bytes) : Fields (r.central offset ++ rest) r offset := by
  have hmade := h.made
  have hstamp := h.stamp
  have hattributes := h.attributes
  -- what stands before each field, from the signature on
  let b₁₀ := entrySignature ++ r.made
  let b₁₆ := b₁₀ ++ (leBytes 2 r.method ++ r.stamp)
  let b₂₀ := b₁₆ ++ leBytes 4 r.crc
  let b₂₄ := b₂₀ ++ leBytes 4 r.packed.length
  let b₂₈ := b₂₄ ++ leBytes 4 r.size
  let b₃₀ := b₂₈ ++ leBytes 2 r.name.length
  let b₃₂ := b₃₀ ++ leBytes 2 r.extra.length
  let b₄₂ := b₃₂ ++ (leBytes 2 r.comment.length ++ r.attributes)
  let b₄₆ := b₄₂ ++ leBytes 4 offset
  have hsignature : entrySignature = leBytes 4 0x02014b50 := by decide
  have hlength : b₁₀.length = 10 ∧ b₁₆.length = 16 ∧ b₂₀.length = 20 ∧ b₂₄.length = 24 ∧
      b₂₈.length = 28 ∧ b₃₀.length = 30 ∧ b₃₂.length = 32 ∧ b₄₂.length = 42 ∧ b₄₆.length = 46 := by
    simp only [b₄₆, b₄₂, b₃₂, b₃₀, b₂₈, b₂₄, b₂₀, b₁₆, b₁₀, entrySignature, List.length_append,
      length_leBytes, List.length_cons, List.length_nil, hmade, hstamp, hattributes]
    decide
  obtain ⟨h₁₀, h₁₆, h₂₀, h₂₄, h₂₈, h₃₀, h₃₂, h₄₂, h₄₆⟩ := hlength
  refine ⟨?_, ?_, ?_, ?_, ?_, ?_, ?_, ?_, ?_, ?_⟩
  · rw [Record.central, List.append_assoc, hsignature, ← List.nil_append (leBytes 4 0x02014b50 ++ _)]
    exact uint_field rfl (by decide)
  · rw [show r.central offset ++ rest = b₁₀ ++ (leBytes 2 r.method ++ _) by
      simp only [Record.central, b₁₀, List.append_assoc]; rfl]
    exact uint_field h₁₀ h.method
  · rw [show r.central offset ++ rest = b₁₆ ++ (leBytes 4 r.crc ++ _) by
      simp only [Record.central, b₁₆, b₁₀, List.append_assoc]; rfl]
    exact uint_field h₁₆ h.crc
  · rw [show r.central offset ++ rest = b₂₀ ++ (leBytes 4 r.packed.length ++ _) by
      simp only [Record.central, b₂₀, b₁₆, b₁₀, List.append_assoc]; rfl]
    exact uint_field h₂₀ h.packed
  · rw [show r.central offset ++ rest = b₂₄ ++ (leBytes 4 r.size ++ _) by
      simp only [Record.central, b₂₄, b₂₀, b₁₆, b₁₀, List.append_assoc]; rfl]
    exact uint_field h₂₄ h.size
  · rw [show r.central offset ++ rest = b₂₈ ++ (leBytes 2 r.name.length ++ _) by
      simp only [Record.central, b₂₈, b₂₄, b₂₀, b₁₆, b₁₀, List.append_assoc]; rfl]
    exact uint_field h₂₈ h.name
  · rw [show r.central offset ++ rest = b₃₀ ++ (leBytes 2 r.extra.length ++ _) by
      simp only [Record.central, b₃₀, b₂₈, b₂₄, b₂₀, b₁₆, b₁₀, List.append_assoc]; rfl]
    exact uint_field h₃₀ h.extra
  · rw [show r.central offset ++ rest = b₃₂ ++ (leBytes 2 r.comment.length ++ _) by
      simp only [Record.central, b₃₂, b₃₀, b₂₈, b₂₄, b₂₀, b₁₆, b₁₀, List.append_assoc]; rfl]
    exact uint_field h₃₂ h.comment
  · rw [show r.central offset ++ rest = b₄₂ ++ (leBytes 4 offset ++ _) by
      simp only [Record.central, b₄₂, b₃₂, b₃₀, b₂₈, b₂₄, b₂₀, b₁₆, b₁₀, List.append_assoc]; rfl]
    exact uint_field h₄₂ hoffset
  · rw [show r.central offset ++ rest = b₄₆ ++ (r.name ++ _) by
      simp only [Record.central, b₄₆, b₄₂, b₃₂, b₃₀, b₂₈, b₂₄, b₂₀, b₁₆, b₁₀, List.append_assoc]
      rfl]
    rw [List.drop_left' h₄₆, List.take_left]

theorem readEntry_central {r : Record} (h : r.Fits) (offset : ℕ) (hoffset : offset < 256 ^ 4)
    (pre rest : Bytes) :
    readEntry (pre ++ (r.central offset ++ rest)) pre.length =
      .ok (⟨ofUtf8 r.name, r.method, r.crc, r.packed.length, r.size, offset⟩,
        (pre ++ r.central offset).length) := by
  have hf := central_fields h hoffset rest
  have hdrop : (pre ++ (r.central offset ++ rest)).drop (pre.length + 46) =
      (r.central offset ++ rest).drop 46 := by
    rw [List.drop_append, List.drop_eq_nil_of_le (Nat.le_add_right _ _), List.nil_append,
      Nat.add_sub_cancel_left]
  have hstart : uint 4 (pre ++ (r.central offset ++ rest)) pre.length = .ok 0x02014b50 := by
    rw [← hf.signature, ← uint_shift 4 pre _ 0, Nat.add_zero]
  have hnext : pre.length + (46 + r.name.length + r.extra.length + r.comment.length) =
      (pre ++ r.central offset).length := by
    rw [List.length_append, length_central h]
  unfold readEntry
  rw [hstart, uint_shift, uint_shift, uint_shift, uint_shift, uint_shift, uint_shift, uint_shift,
    uint_shift, hf.method, hf.crc, hf.packed, hf.size, hf.nameLen, hf.extraLen, hf.commentLen,
    hf.localOffset, hdrop, ← hnext]
  show Except.ok (_, _) = _
  rw [hf.name]

theorem readEntries_directory {records : List Record} (hfits : ∀ r ∈ records, r.Fits) (pre : Bytes)
    (offset : ℕ) (hlength : offset + (locals records).length < 256 ^ 4) :
    readEntries (pre ++ directory offset records) records.length pre.length =
      .ok (listed offset records) := by
  induction records generalizing pre offset with
  | nil => rfl
  | cons r rest ih =>
    rw [locals, List.flatMap_cons, List.length_append, ← Nat.add_assoc] at hlength
    have hentry := readEntry_central (hfits r List.mem_cons_self) offset (by omega) pre
      (directory (offset + r.localRecord.length) rest)
    have hrest := ih (fun r' hr' => hfits r' (List.mem_cons_of_mem _ hr'))
      (pre ++ r.central offset) (offset + r.localRecord.length) hlength
    rw [directory, List.length_cons, readEntries, hentry]
    rw [List.append_assoc] at hrest
    show (do
      let rest' ← readEntries (pre ++ (r.central offset ++
        directory (offset + r.localRecord.length) rest)) rest.length (pre ++ r.central offset).length
      pure (_ :: rest')) = _
    rw [hrest]
    rfl

theorem readZipEntries_bytes (hquiet : a.Quiet) :
    readZipEntries a.bytes =
      if 2 ^ 31 ≤ (directory 0 a.records).length then .error .range else .ok (listed 0 a.records) := by
  unfold readZipEntries
  rw [readEnd_bytes hquiet]
  show (if 2 ^ 31 ≤ (directory 0 a.records).length then .error .range
    else readEntries _ _ _) = _
  have hcd : readAt a.bytes (locals a.records).length (directory 0 a.records).length =
      directory 0 a.records := readAt_append _ _ _
  have hlocals := a.locals_length
  have hread := readEntries_directory a.fits [] 0 (by omega)
  rw [List.nil_append] at hread
  dsimp only
  rw [hcd]
  rw [List.length_nil] at hread
  rw [hread]

end KvasirNet.Zip
