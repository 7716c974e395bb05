import KvasirNet.PathText
import KvasirNet.ZipArchive
import Mathlib.Data.List.Infix

/-! `extractZip` (`cudaPack.cjs`) on a disk without links: what it puts under the directory it is
given, what it leaves alone, and which archives it refuses. -/
namespace KvasirNet.Zip
open PathText

/-! ## The disk -/

inductive Node
  | dir
  | file (content : Bytes)
  deriving DecidableEq

abbrev Path := List Part

abbrev Disk := Path → Option Node

def Node.isFile : Node → Bool
  | dir => false
  | file _ => true

/-- No path of the file system has a NUL in it. -/
def hasNul (path : Path) : Bool := path.any fun c => c.any fun x => x.toNat = 0

/-- `mkdirSync` with `recursive`. -/
def mkdirp (disk : Disk) (path : Path) : Option Disk :=
  if hasNul path || path.inits.any (fun q => (disk q).any Node.isFile) then none
  else some fun q => if q.isPrefixOf path then some .dir else disk q

/-- A file with this content, in a directory that is there. -/
def writeFile (disk : Disk) (target : Path) (content : Bytes) : Option Disk :=
  if hasNul target || decide (disk target = some .dir) ||
      decide (disk target.dropLast ≠ some .dir) then none
  else some fun q => if q = target then some (.file content) else disk q

/-! ## Extraction -/

section Extract
variable (rules : Rules) (inflateRaw : Bytes → Option Bytes) (file : Bytes) (root : Path)

/-- Neither the directory nor a path below it, by their texts. -/
def escapes (e : Entry) : Bool :=
  match resolve rules root e.name.toList with
  | none => true
  | some target =>
    decide (text rules target ≠ text rules root) &&
      !(text rules root ++ [rules.sep]).isPrefixOf (text rules target)

/-- `endsWith('/')`. -/
def Entry.isFolder (e : Entry) : Bool := decide (e.name.toList.getLast? = some '/')

/-- The bytes that are streamed; a range that ends before its start throws. -/
def packedData (e : Entry) : Except Fault Bytes := do
  let header := readAt file e.localOffset 30
  let signature ← uint 4 header 0
  if signature ≠ 0x04034b50 then .error (.corruptLocal e.name)
  else do
    let nameLen ← uint 2 header 26
    let extraLen ← uint 2 header 28
    let start := e.localOffset + 30 + nameLen + extraLen
    if e.compressed = 0 then .error .range
    else .ok ((file.drop start).take e.compressed)

def unpack (e : Entry) (data : Bytes) : Except Fault Bytes :=
  if e.method = 0 then .ok data
  else if e.method = 8 then
    match inflateRaw data with
    | some content => .ok content
    | none => .error (.badData e.name)
  else .error (.badMethod e.method e.name)

/-- One round of the loop; `left` is what an interrupted stream leaves in the file it opened. -/
def extractEntry (left : Option Bytes) (disk : Disk) (e : Entry) : Disk × Option Fault :=
  match resolve rules root e.name.toList with
  | none => (disk, some (.escapes e.name))
  | some target =>
    if e.isFolder then
      match mkdirp disk target with
      | none => (disk, some .refused)
      | some made => (made, none)
    else
      match mkdirp disk target.dropLast with
      | none => (disk, some .refused)
      | some made =>
        match packedData file e with
        | .error fault => (made, some fault)
        | .ok data =>
          match unpack inflateRaw e data with
          | .error fault => ((left.bind (writeFile made target)).getD made, some fault)
          | .ok content =>
            match writeFile made target content with
            | none => (made, some .refused)
            | some written =>
              (written, if content.length ≠ e.uncompressed then
                some (.badSize e.name content.length e.uncompressed) else none)

def extractEntries (left : Option Bytes) : Disk → List Entry → Disk × Option Fault
  | disk, [] => (disk, none)
  | disk, e :: es =>
    match extractEntry rules inflateRaw file root left disk e with
    | (after, none) => extractEntries left after es
    | (after, some fault) => (after, some fault)

/-- `extractZip(file, dest)`: the disk afterwards, and what was thrown. -/
def extractZip (left : Option Bytes) (disk : Disk) : Disk × Option Fault :=
  match readZipEntries file with
  | .error fault => (disk, some fault)
  | .ok es =>
    match es.find? (escapes rules root) with
    | some e => (disk, some (.escapes e.name))
    | none => extractEntries rules inflateRaw file root left disk es

/-! ## What it is for -/

/-- The content of an entry, unpacked to its size. -/
def Entry.Holds (e : Entry) (content : Bytes) : Prop :=
  ∃ data, packedData file e = .ok data ∧ unpack inflateRaw e data = .ok content ∧
    content.length = e.uncompressed

/-- The entries one after the other, each put in its place. -/
inductive Placed : Disk → List Entry → Disk → Prop
  | done {disk : Disk} : Placed disk [] disk
  | folder {disk made after : Disk} {e : Entry} {es : List Entry} {target : Path}
      (he : e.isFolder = true) (htarget : resolve rules root e.name.toList = some target)
      (hmade : mkdirp disk target = some made) (hrest : Placed made es after) :
      Placed disk (e :: es) after
  | file {disk made written after : Disk} {e : Entry} {es : List Entry} {target : Path}
      {content : Bytes} (he : e.isFolder = false)
      (htarget : resolve rules root e.name.toList = some target)
      (hmade : mkdirp disk target.dropLast = some made) (hcontent : e.Holds inflateRaw file content)
      (hwritten : writeFile made target content = some written) (hrest : Placed written es after) :
      Placed disk (e :: es) after

end Extract

/-- All that changes is below the directory, or a missing directory on the way to it. -/
def Contained (root : Path) (before after : Disk) : Prop :=
  ∀ p, after p = before p ∨ root <+: p ∨
    p <+: root ∧ before p = none ∧ after p = some .dir

/-! ## The operations of the disk -/

variable {disk made written : Disk} {path target root : Path} {content : Bytes}

theorem isFile_of_any {n : Option Node} (h : n.any Node.isFile = true) :
    ∃ content, n = some (.file content) := by
  match n with
  | none => cases h
  | some .dir => cases h
  | some (.file content) => exact ⟨content, rfl⟩

theorem mkdirp_iff : mkdirp disk path = some made ↔
    hasNul path = false ∧ (∀ q, q <+: path → ∀ content, disk q ≠ some (.file content)) ∧
      made = fun q => if q.isPrefixOf path then some .dir else disk q := by
  have hfiles : (path.inits.any fun q => (disk q).any Node.isFile) = false ↔
      ∀ q, q <+: path → ∀ content, disk q ≠ some (.file content) := by
    rw [List.any_eq_false]
    constructor
    · intro h q hq content hfile
      apply h q ((List.mem_inits q path).mpr hq)
      rw [hfile]
      rfl
    · intro h q hq hfile
      obtain ⟨content, hcontent⟩ := isFile_of_any hfile
      exact h q ((List.mem_inits q path).mp hq) content hcontent
  unfold mkdirp
  by_cases hbad : (hasNul path || path.inits.any fun q => (disk q).any Node.isFile) = true
  · rw [if_pos hbad]
    refine ⟨fun h => (by cases h), fun ⟨hnul, hno, _⟩ => ?_⟩
    rw [hnul, hfiles.mpr hno] at hbad
    cases hbad
  · rw [if_neg hbad]
    obtain ⟨hnul, hno⟩ := Bool.or_eq_false_iff.mp (Bool.eq_false_iff.mpr hbad)
    exact ⟨fun h => ⟨hnul, hfiles.mp hno, (Option.some.inj h).symm⟩,
      fun ⟨_, _, h⟩ => congrArg _ h.symm⟩

theorem writeFile_iff : writeFile disk target content = some written ↔
    hasNul target = false ∧ disk target ≠ some .dir ∧ disk target.dropLast = some .dir ∧
      written = fun q => if q = target then some (.file content) else disk q := by
  unfold writeFile
  by_cases hbad : (hasNul target || decide (disk target = some .dir) ||
      decide (disk target.dropLast ≠ some .dir)) = true
  · rw [if_pos hbad]
    refine ⟨fun h => (by cases h), fun ⟨hnul, hdir, hparent, _⟩ => ?_⟩
    rw [hnul, decide_eq_false hdir, decide_eq_false (not_not.mpr hparent)] at hbad
    cases hbad
  · rw [if_neg hbad]
    obtain ⟨hfirst, hparent⟩ := Bool.or_eq_false_iff.mp (Bool.eq_false_iff.mpr hbad)
    obtain ⟨hnul, hdir⟩ := Bool.or_eq_false_iff.mp hfirst
    have hparent' : disk target.dropLast = some .dir := not_not.mp (of_decide_eq_false hparent)
    exact ⟨fun h => ⟨hnul, of_decide_eq_false hdir, hparent', (Option.some.inj h).symm⟩,
      fun ⟨_, _, _, h⟩ => congrArg _ h.symm⟩

/-! ## Containment -/

theorem Contained.refl (root : Path) (disk : Disk) : Contained root disk disk := fun _ => .inl rfl

theorem Contained.trans {d₁ d₂ d₃ : Disk} (h₁ : Contained root d₁ d₂) (h₂ : Contained root d₂ d₃) :
    Contained root d₁ d₃ := by
  intro p
  rcases h₂ p with hsame | hbelow | ⟨hway, hnone, hdir⟩
  · rw [hsame]
    exact h₁ p
  · exact .inr (.inl hbelow)
  · rcases h₁ p with hsame' | hbelow | ⟨-, -, hdir'⟩
    · exact .inr (.inr ⟨hway, hsame' ▸ hnone, hdir⟩)
    · exact .inr (.inl hbelow)
    · rw [hdir'] at hnone
      cases hnone

theorem contained_mkdirp (hpath : root <+: path ∨ path <+: root) (h : mkdirp disk path = some made) :
    Contained root disk made := by
  obtain ⟨-, hfiles, rfl⟩ := mkdirp_iff.mp h
  intro p
  dsimp only
  by_cases hp : p.isPrefixOf path = true
  · rw [if_pos hp]
    have hp' := List.isPrefixOf_iff_prefix.mp hp
    have hcompare : root <+: p ∨ p <+: root := by
      rcases hpath with hbelow | habove
      · exact (List.prefix_or_prefix_of_prefix hbelow hp')
      · exact .inr (hp'.trans habove)
    rcases hcompare with hbelow | habove
    · exact .inr (.inl hbelow)
    · cases hdisk : disk p with
      | none => exact .inr (.inr ⟨habove, rfl, rfl⟩)
      | some node =>
        cases node with
        | dir => exact .inl rfl
        | file content => exact absurd hdisk (hfiles p hp' content)
  · rw [if_neg hp]
    exact .inl rfl

theorem contained_writeFile (htarget : root <+: target)
    (h : writeFile disk target content = some written) : Contained root disk written := by
  obtain ⟨-, -, -, rfl⟩ := writeFile_iff.mp h
  intro p
  dsimp only
  by_cases hp : p = target
  · rw [hp]
    exact .inr (.inl htarget)
  · rw [if_neg hp]
    exact .inl rfl

variable {rules : Rules} {inflateRaw : Bytes → Option Bytes} {file : Bytes} {left : Option Bytes}
  {e : Entry} {es : List Entry}

theorem resolve_of_not_escapes (hroot : ∀ c ∈ root, IsPart rules c)
    (h : escapes rules root e = false) :
    ∃ target, resolve rules root e.name.toList = some target ∧ root <+: target := by
  unfold escapes at h
  cases htarget : resolve rules root e.name.toList with
  | none =>
    rw [htarget] at h
    cases h
  | some target =>
    rw [htarget] at h
    have hparts := resolve_isPart hroot htarget
    refine ⟨target, rfl, ?_⟩
    dsimp only at h
    by_cases hsame : text rules target = text rules root
    · exact ⟨[], by rw [List.append_nil, text_inj hparts hroot hsame]⟩
    · rw [decide_eq_true hsame, Bool.true_and, Bool.not_eq_false'] at h
      obtain ⟨-, more, -, rfl⟩ := (text_below_iff hroot hparts).mp (List.isPrefixOf_iff_prefix.mp h)
      exact List.prefix_append _ _

theorem dropLast_compare (h : root <+: target) :
    root <+: target.dropLast ∨ target.dropLast <+: root := by
  obtain ⟨more, rfl⟩ := h
  by_cases hmore : more = []
  · rw [hmore, List.append_nil]
    exact .inr (List.dropLast_prefix root)
  · rw [List.dropLast_append_of_ne_nil hmore]
    exact .inl (List.prefix_append _ _)

theorem contained_extractEntry (hroot : ∀ c ∈ root, IsPart rules c)
    (h : escapes rules root e = false) (left : Option Bytes) (disk : Disk) :
    Contained root disk (extractEntry rules inflateRaw file root left disk e).1 := by
  obtain ⟨target, htarget, hbelow⟩ := resolve_of_not_escapes hroot h
  unfold extractEntry
  rw [htarget]
  dsimp only
  by_cases hfolder : e.isFolder = true
  · rw [if_pos hfolder]
    cases hmade : mkdirp disk target with
    | none => exact Contained.refl root disk
    | some made => exact contained_mkdirp (.inl hbelow) hmade
  rw [if_neg hfolder]
  cases hmade : mkdirp disk target.dropLast with
  | none => exact Contained.refl root disk
  | some made =>
    have hway := contained_mkdirp (dropLast_compare hbelow) hmade
    cases packedData file e with
    | error fault => exact hway
    | ok data =>
      dsimp only
      cases unpack inflateRaw e data with
      | error fault =>
        -- the output may have been opened
        cases hleft : left.bind (writeFile made target) with
        | none => exact hway
        | some written =>
          obtain ⟨rest, -, hwritten⟩ := Option.bind_eq_some_iff.mp hleft
          exact hway.trans (contained_writeFile hbelow hwritten)
      | ok content =>
        dsimp only
        cases hwritten : writeFile made target content with
        | none => exact hway
        | some written => exact hway.trans (contained_writeFile hbelow hwritten)

theorem contained_extractEntries (hroot : ∀ c ∈ root, IsPart rules c)
    (hes : ∀ e ∈ es, escapes rules root e = false) (left : Option Bytes) (disk : Disk) :
    Contained root disk (extractEntries rules inflateRaw file root left disk es).1 := by
  induction es generalizing disk with
  | nil => exact Contained.refl root disk
  | cons e es ih =>
    have hfirst : Contained root disk (extractEntry rules inflateRaw file root left disk e).1 :=
      contained_extractEntry hroot (hes e List.mem_cons_self) left disk
    rw [extractEntries]
    cases hentry : extractEntry rules inflateRaw file root left disk e with
    | mk after fault =>
      rw [hentry] at hfirst
      cases fault with
      | some fault => exact hfirst
      | none => exact hfirst.trans (ih (fun e' he' => hes e' (List.mem_cons_of_mem _ he')) after)

theorem contained_extractZip (hroot : ∀ c ∈ root, IsPart rules c) (left : Option Bytes) (disk : Disk) :
    Contained root disk (extractZip rules inflateRaw file root left disk).1 := by
  unfold extractZip
  cases readZipEntries file with
  | error fault => exact Contained.refl root disk
  | ok es =>
    dsimp only
    cases hescapes : es.find? (escapes rules root) with
    | some e => exact Contained.refl root disk
    | none =>
      apply contained_extractEntries hroot
      intro e he
      exact Bool.eq_false_iff.mpr (List.find?_eq_none.mp hescapes e he)

/-! ## Acceptance -/

theorem extractEntry_folder {target : Path} (he : e.isFolder = true)
    (htarget : resolve rules root e.name.toList = some target) :
    extractEntry rules inflateRaw file root left disk e =
      match mkdirp disk target with
      | none => (disk, some .refused)
      | some made => (made, none) := by
  unfold extractEntry
  rw [htarget]
  exact if_pos he

theorem placed_cons_of_extractEntry {after : Disk} (hescapes : escapes rules root e = false)
    (hroot : ∀ c ∈ root, IsPart rules c)
    (h : extractEntry rules inflateRaw file root left disk e = (made, none))
    (hrest : Placed rules inflateRaw file root made es after) :
    Placed rules inflateRaw file root disk (e :: es) after := by
  obtain ⟨target, htarget, -⟩ := resolve_of_not_escapes hroot hescapes
  by_cases hfolder : e.isFolder = true
  · rw [extractEntry_folder hfolder htarget] at h
    cases hmade : mkdirp disk target with
    | none =>
      rw [hmade] at h
      cases h
    | some made' =>
      rw [hmade] at h
      obtain rfl := (Prod.mk.inj h).1
      exact .folder hfolder htarget hmade hrest
  unfold extractEntry at h
  rw [htarget] at h
  dsimp only at h
  rw [if_neg hfolder] at h
  cases hmade : mkdirp disk target.dropLast with
  | none =>
    rw [hmade] at h
    cases h
  | some way =>
    rw [hmade] at h
    cases hdata : packedData file e with
    | error fault =>
      rw [hdata] at h
      cases h
    | ok data =>
      rw [hdata] at h
      dsimp only at h
      cases hcontent : unpack inflateRaw e data with
      | error fault =>
        rw [hcontent] at h
        cases h
      | ok content =>
        rw [hcontent] at h
        dsimp only at h
        cases hwritten : writeFile way target content with
        | none =>
          rw [hwritten] at h
          cases h
        | some written =>
          rw [hwritten] at h
          obtain ⟨rfl, hsize⟩ := Prod.mk.inj h
          have hlength : content.length = e.uncompressed := by
            by_contra hne
            rw [if_pos hne] at hsize
            cases hsize
          exact .file (Bool.eq_false_iff.mpr hfolder) htarget hmade ⟨data, hdata, hcontent, hlength⟩
            hwritten hrest

theorem extractEntries_of_placed {after : Disk}
    (h : Placed rules inflateRaw file root disk es after) (left : Option Bytes) :
    extractEntries rules inflateRaw file root left disk es = (after, none) := by
  induction h with
  | done => rfl
  | folder he htarget hmade _ ih =>
    rw [extractEntries, extractEntry_folder he htarget, hmade]
    exact ih
  | file he htarget hmade hcontent hwritten _ ih =>
    obtain ⟨data, hdata, hunpack, hlength⟩ := hcontent
    have hfolder := Bool.eq_false_iff.mp he
    rw [extractEntries, extractEntry, htarget]
    dsimp only
    rw [if_neg hfolder, hmade]
    dsimp only
    rw [hdata]
    dsimp only
    rw [hunpack]
    dsimp only
    rw [hwritten, if_neg (not_not.mpr hlength)]
    exact ih

theorem extractEntries_ok_iff (hroot : ∀ c ∈ root, IsPart rules c)
    (hes : ∀ e ∈ es, escapes rules root e = false) {after : Disk} :
    extractEntries rules inflateRaw file root left disk es = (after, none) ↔
      Placed rules inflateRaw file root disk es after := by
  refine ⟨fun h => ?_, fun h => extractEntries_of_placed h left⟩
  induction es generalizing disk with
  | nil =>
    obtain rfl := (Prod.mk.inj h).1
    exact .done
  | cons e es ih =>
    rw [extractEntries] at h
    cases hentry : extractEntry rules inflateRaw file root left disk e with
    | mk made fault =>
      rw [hentry] at h
      cases fault with
      | some fault => cases h
      | none =>
        exact placed_cons_of_extractEntry (hes e List.mem_cons_self) hroot hentry
          (ih (fun e' he' => hes e' (List.mem_cons_of_mem _ he')) h)

theorem extractZip_ok_iff (hroot : ∀ c ∈ root, IsPart rules c) {after : Disk} :
    extractZip rules inflateRaw file root left disk = (after, none) ↔
      ∃ es, readZipEntries file = .ok es ∧ (∀ e ∈ es, escapes rules root e = false) ∧
        Placed rules inflateRaw file root disk es after := by
  unfold extractZip
  cases hread : readZipEntries file with
  | error fault =>
    exact ⟨fun h => (by cases h), fun ⟨es, h, _⟩ => (by cases h)⟩
  | ok es =>
    dsimp only
    cases hescapes : es.find? (escapes rules root) with
    | some e =>
      have htrue := List.find?_some hescapes
      have hmem := List.mem_of_find?_eq_some hescapes
      refine ⟨fun h => (by cases h), fun ⟨es', h, hno, _⟩ => ?_⟩
      obtain rfl := Except.ok.inj h
      rw [hno e hmem] at htrue
      cases htrue
    | none =>
      have hno : ∀ e ∈ es, escapes rules root e = false := fun e he =>
        Bool.eq_false_iff.mpr (List.find?_eq_none.mp hescapes e he)
      dsimp only
      rw [extractEntries_ok_iff hroot hno]
      constructor
      · intro h
        exact ⟨es, rfl, hno, h⟩
      · intro ⟨es', h, _, hplaced⟩
        rw [Except.ok.inj h]
        exact hplaced

end KvasirNet.Zip
