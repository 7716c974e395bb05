import KvasirNet.ZipExtraction

/-! What a standard writer packs comes out of `extractZip` again, and the archives that get past it
though they are cut off. -/
namespace KvasirNet.Zip
open PathText

/-! ## Archives of a standard writer -/

structure Item where
  record : Record
  parts : Path
  folder : Bool
  data : Bytes

def Item.name (it : Item) : List Char := joined '/' it.parts ++ if it.folder then ['/'] else []

/-- The name is relative and plain; the content is stored, or packed as `inflateRaw` unpacks it. -/
structure Item.Standard (rules : Rules) (inflateRaw : Bytes → Option Bytes) (it : Item) : Prop where
  parts_ne : it.parts ≠ []
  plain : ∀ c ∈ it.parts, IsPart rules c
  noNul : hasNul it.parts = false
  relative : rules.lead it.name = .relative it.name
  name : it.record.name = utf8 (String.ofList it.name)
  size : it.folder = false → it.record.size = it.data.length
  content : it.folder = false → it.record.method = 0 ∧ it.record.packed = it.data ∨
    it.record.method = 8 ∧ inflateRaw it.record.packed = some it.data

/-- Nothing is twice in an archive, and nothing is below a file. -/
def Item.Apart (x y : Item) : Prop :=
  (x.folder = false → ¬ x.parts <+: y.parts) ∧ (y.folder = false → ¬ y.parts <+: x.parts)

structure Packed (rules : Rules) (inflateRaw : Bytes → Option Bytes) extends Archive where
  items : List Item
  records_eq : records = items.map Item.record
  standard : ∀ it ∈ items, it.Standard rules inflateRaw
  apart : items.Pairwise Item.Apart

/-- A directory to extract into: a resolved path that is not the top. -/
structure Dest (rules : Rules) where
  path : Path
  ne : path ≠ []
  plain : ∀ c ∈ path, IsPart rules c
  noNul : hasNul path = false

/-- Nothing is there yet, and no file is in the way. -/
structure Fresh (root : Path) (disk : Disk) : Prop where
  below : ∀ p, root <+: p → p ≠ root → disk p = none
  way : ∀ p, p <+: root → ∀ content, disk p ≠ some (.file content)

/-- Below the directory are the files of the items with their contents, and no others; the folders
are those of the items and those on the way to one. -/
structure Holding (root : Path) (items : List Item) (disk : Disk) : Prop where
  way : ∀ p, p <+: root → ∀ content, disk p ≠ some (.file content)
  files : ∀ it ∈ items, it.folder = false → disk (root ++ it.parts) = some (.file it.data)
  only : ∀ p, root <+: p → ∀ content, disk p = some (.file content) →
    ∃ it ∈ items, it.folder = false ∧ p = root ++ it.parts ∧ content = it.data
  folders : ∀ it ∈ items, it.folder = true → disk (root ++ it.parts) = some .dir
  dirs : ∀ p, root <+: p → p ≠ root → disk p = some .dir →
    ∃ it ∈ items, p <+: root ++ it.parts ∧ (p = root ++ it.parts → it.folder = true)

variable {rules : Rules} {inflateRaw : Bytes → Option Bytes} {root : Path} {it : Item}
  {items done : List Item} {disk : Disk}

theorem Fresh.holding (h : Fresh root disk) : Holding root [] disk where
  way := h.way
  files it hit := absurd hit List.not_mem_nil
  only p hp content hfile := by
    by_cases hroot : p = root
    · exact absurd hfile (h.way p (hroot ▸ List.prefix_refl _) content)
    · rw [h.below p hp hroot] at hfile
      cases hfile
  folders it hit := absurd hit List.not_mem_nil
  dirs p hp hroot hdir := by
    rw [h.below p hp hroot] at hdir
    cases hdir

/-! ## Names -/

theorem hasNul_append (p q : Path) : hasNul (p ++ q) = (hasNul p || hasNul q) := List.any_append

theorem hasNul_dropLast {p : Path} (h : hasNul p = false) : hasNul p.dropLast = false := by
  unfold hasNul at h ⊢
  rw [List.any_eq_false] at h ⊢
  exact fun c hc => h c ((List.dropLast_sublist p).subset hc)

theorem follow_append_nil (base cs : List Part) : follow base (cs ++ [[]]) = follow base cs := by
  induction cs generalizing base with
  | nil => rfl
  | cons c cs ih =>
    rw [List.cons_append, follow, follow, ih, ih, ih]

theorem Item.Standard.resolve (h : it.Standard rules inflateRaw) (root : Path) :
    PathText.resolve rules root it.name = some (root ++ it.parts) := by
  have hsplit := splitOnP_joined rules.slash_isSep h.parts_ne fun c hc => (h.plain c hc).noSep
  rw [PathText.resolve, h.relative]
  dsimp only
  unfold Item.name
  by_cases hfolder : it.folder = true
  · rw [if_pos hfolder, List.splitOnP_append_cons _ _ rules.slash_isSep, hsplit, List.splitOnP_nil,
      follow_append_nil, follow_parts h.plain]
  · rw [if_neg hfolder, List.append_nil, hsplit, follow_parts h.plain]

theorem getLast_joined {x : Char} {cs : List Part} (hne : cs ≠ [])
    (hcs : ∀ c ∈ cs, c ≠ [] ∧ x ∉ c) : (joined x cs).getLast? ≠ some x := by
  induction cs with
  | nil => exact absurd rfl hne
  | cons c cs ih =>
    obtain ⟨hc, hx⟩ := hcs c List.mem_cons_self
    cases cs with
    | nil => exact fun h => hx (List.mem_of_getLast? h)
    | cons d cs =>
      have hrest := ih (List.cons_ne_nil _ _) fun c' hc' => hcs c' (List.mem_cons_of_mem _ hc')
      have hd := (hcs d (List.mem_cons_of_mem _ List.mem_cons_self)).1
      show (c ++ x :: joined x (d :: cs)).getLast? ≠ some x
      rw [List.getLast?_append_of_ne_nil _ (List.cons_ne_nil _ _),
        List.getLast?_cons_of_ne_nil (joined_ne_nil hd)]
      exact hrest

/-- The entry that the directory of an archive tells of. -/
def Item.entry (it : Item) (offset : ℕ) : Entry :=
  ⟨ofUtf8 it.record.name, it.record.method, it.record.crc, it.record.packed.length, it.record.size,
    offset⟩

theorem Item.Standard.entry_name (h : it.Standard rules inflateRaw) (offset : ℕ) :
    (it.entry offset).name.toList = it.name := by
  rw [Item.entry, h.name, ofUtf8_utf8, String.toList_ofList]

theorem Item.Standard.isFolder (h : it.Standard rules inflateRaw) (offset : ℕ) :
    (it.entry offset).isFolder = it.folder := by
  rw [Entry.isFolder, h.entry_name]
  unfold Item.name
  by_cases hfolder : it.folder = true
  · rw [if_pos hfolder, hfolder, List.getLast?_concat]
    rfl
  · rw [if_neg hfolder, List.append_nil, Bool.eq_false_iff.mpr hfolder]
    apply decide_eq_false
    apply getLast_joined h.parts_ne
    intro c hc
    refine ⟨(h.plain c hc).ne_nil, fun hslash => ?_⟩
    have hsep := (h.plain c hc).noSep _ hslash
    rw [rules.slash_isSep] at hsep
    cases hsep

theorem Item.Standard.not_escapes (h : it.Standard rules inflateRaw) (dest : Dest rules) (offset : ℕ) :
    escapes rules dest.path (it.entry offset) = false := by
  have hparts : ∀ c ∈ dest.path ++ it.parts, IsPart rules c := by
    intro c hc
    rcases List.mem_append.mp hc with hc | hc
    · exact dest.plain c hc
    · exact h.plain c hc
  have hbelow := (text_below_iff dest.plain hparts).mpr ⟨dest.ne, it.parts, h.parts_ne, rfl⟩
  rw [escapes, h.entry_name, h.resolve dest.path]
  dsimp only
  rw [List.isPrefixOf_iff_prefix.mpr hbelow, Bool.not_true, Bool.and_false]

/-! ## One item -/

theorem packedData_record {r : Record} (h : r.Fits) (pre behind : Bytes) {e : Entry}
    (hoffset : e.localOffset = pre.length) (hpacked : e.compressed = r.packed.length) :
    packedData (pre ++ (r.localRecord ++ behind)) e =
      if r.packed.length = 0 then .error .range else .ok r.packed := by
  have hheader : readAt (pre ++ (r.localRecord ++ behind)) pre.length 30 = r.localHeader := by
    rw [← h.length_localHeader, Record.localRecord, List.append_assoc]
    exact readAt_append _ _ _
  have hsignature : uint 4 r.localHeader 0 = .ok 0x04034b50 := by
    have hle : localSignature = leBytes 4 0x04034b50 := by decide
    rw [Record.localHeader, hle, ← List.nil_append (leBytes 4 0x04034b50 ++ _)]
    exact uint_field rfl (by decide)
  have hname : uint 2 r.localHeader 26 = .ok r.name.length := by
    rw [Record.localHeader, ← List.append_assoc]
    apply uint_field _ h.name
    rw [List.length_append, h.localHead]
    rfl
  have hextra : uint 2 r.localHeader 28 = .ok r.localExtra.length := by
    rw [Record.localHeader, ← List.append_assoc, ← List.append_assoc,
      ← List.append_nil (leBytes 2 r.localExtra.length)]
    apply uint_field _ h.localExtra
    rw [List.length_append, List.length_append, h.localHead, length_leBytes]
    rfl
  have hdata : ((pre ++ (r.localRecord ++ behind)).drop
      (pre.length + 30 + r.name.length + r.localExtra.length)).take r.packed.length = r.packed := by
    have hshape : pre ++ (r.localRecord ++ behind) =
        (pre ++ (r.localHeader ++ (r.name ++ r.localExtra))) ++
          (r.packed ++ (r.trailer ++ behind)) := by
      simp only [Record.localRecord, List.append_assoc]
    have hlength : (pre ++ (r.localHeader ++ (r.name ++ r.localExtra))).length =
        pre.length + 30 + r.name.length + r.localExtra.length := by
      rw [List.length_append, List.length_append, List.length_append, h.length_localHeader]
      omega
    rw [hshape, List.drop_left' hlength, List.take_left]
  unfold packedData
  dsimp only
  rw [hoffset, hpacked, hheader, hsignature]
  show (do
    let nameLen ← uint 2 r.localHeader 26
    let extraLen ← uint 2 r.localHeader 28
    let start := pre.length + 30 + nameLen + extraLen
    if r.packed.length = 0 then Except.error Fault.range
    else .ok (((pre ++ (r.localRecord ++ behind)).drop start).take r.packed.length)) = _
  rw [hname, hextra]
  show (if r.packed.length = 0 then Except.error Fault.range else .ok _) = _
  rw [hdata]

theorem Item.Standard.unpack (h : it.Standard rules inflateRaw) (hfile : it.folder = false)
    (offset : ℕ) : Zip.unpack inflateRaw (it.entry offset) it.record.packed = .ok it.data := by
  unfold Zip.unpack
  rcases h.content hfile with ⟨hmethod, hpacked⟩ | ⟨hmethod, hpacked⟩
  · have hzero : (it.entry offset).method = 0 := hmethod
    rw [if_pos hzero, hpacked]
  · have height : (it.entry offset).method = 8 := hmethod
    have hnonzero : ¬ (it.entry offset).method = 0 := by omega
    rw [if_neg hnonzero, if_pos height, hpacked]

variable {dest : Dest rules}

theorem prefix_cases {q p : Path} (hq : q <+: p) (hp : root <+: p) : root <+: q ∨ q <+: root :=
  List.prefix_or_prefix_of_prefix hp hq

theorem Holding.way_open (h : Holding dest.path done disk) (hapart : ∀ x ∈ done, x.Apart it)
    {path : Path} (hpath : path <+: dest.path ++ it.parts) (hnul : hasNul path = false) :
    mkdirp disk path = some fun q => if q.isPrefixOf path then some .dir else disk q := by
  apply mkdirp_iff.mpr
  refine ⟨hnul, fun q hq content hfile => ?_, rfl⟩
  rcases prefix_cases (hq.trans hpath) (List.prefix_append _ _) with hbelow | hway
  · obtain ⟨x, hx, hxfile, rfl, -⟩ := h.only q hbelow content hfile
    have hparts := (List.prefix_append_right_inj _).mp (hq.trans hpath)
    exact (hapart x hx).1 hxfile hparts
  · exact h.way q hway content hfile

theorem Item.Standard.hasNul_path (h : it.Standard rules inflateRaw) (dest : Dest rules) :
    hasNul (dest.path ++ it.parts) = false := by
  rw [hasNul_append, dest.noNul, h.noNul]
  rfl

theorem Holding.folder (h : Holding dest.path done disk) (hapart : ∀ x ∈ done, x.Apart it)
    (hfolder : it.folder = true) :
    Holding dest.path (done ++ [it]) fun q =>
      if q.isPrefixOf (dest.path ++ it.parts) then some .dir else disk q := by
  have hlast : it ∈ done ++ [it] := List.mem_append_right _ List.mem_cons_self
  have hmem : ∀ x ∈ done ++ [it], x ∈ done ∨ x = it := by
    intro x hx
    rcases List.mem_append.mp hx with hx | hx
    · exact .inl hx
    · exact .inr (List.mem_singleton.mp hx)
  refine ⟨?_, ?_, ?_, ?_, ?_⟩
  · intro p hp content
    by_cases hq : p.isPrefixOf (dest.path ++ it.parts) = true
    · rw [if_pos hq]
      exact fun hfile => by cases hfile
    · rw [if_neg hq]
      exact h.way p hp content
  · intro x hx hxfile
    rcases hmem x hx with hx | rfl
    · -- the file is not on the way to the folder
      have hno : ¬ (dest.path ++ x.parts).isPrefixOf (dest.path ++ it.parts) = true := by
        intro hq
        have hparts := (List.prefix_append_right_inj _).mp (List.isPrefixOf_iff_prefix.mp hq)
        exact (hapart x hx).1 hxfile hparts
      rw [if_neg hno]
      exact h.files x hx hxfile
    · rw [hfolder] at hxfile
      cases hxfile
  · intro p hp content hfile
    by_cases hq : p.isPrefixOf (dest.path ++ it.parts) = true
    · rw [if_pos hq] at hfile
      cases hfile
    · rw [if_neg hq] at hfile
      obtain ⟨x, hx, hrest⟩ := h.only p hp content hfile
      exact ⟨x, List.mem_append_left _ hx, hrest⟩
  · intro x hx hxfolder
    by_cases hq : (dest.path ++ x.parts).isPrefixOf (dest.path ++ it.parts) = true
    · rw [if_pos hq]
    · rw [if_neg hq]
      rcases hmem x hx with hx | rfl
      · exact h.folders x hx hxfolder
      · exact absurd (List.isPrefixOf_iff_prefix.mpr (List.prefix_refl _)) hq
  · intro p hp hroot hdir
    by_cases hq : p.isPrefixOf (dest.path ++ it.parts) = true
    · exact ⟨it, hlast, List.isPrefixOf_iff_prefix.mp hq, fun _ => hfolder⟩
    · rw [if_neg hq] at hdir
      obtain ⟨x, hx, hrest⟩ := h.dirs p hp hroot hdir
      exact ⟨x, List.mem_append_left _ hx, hrest⟩

theorem not_prefix_dropLast {target : Path} (hne : target ≠ []) : ¬ target <+: target.dropLast := by
  intro hprefix
  have hle := hprefix.length_le
  have hpos := List.length_pos_iff.mpr hne
  rw [List.length_dropLast] at hle
  omega

theorem Holding.file (h : Holding dest.path done disk) (hapart : ∀ x ∈ done, x.Apart it)
    (hparts : it.parts ≠ []) (hfile : it.folder = false) :
    Holding dest.path (done ++ [it]) fun q =>
      if q = dest.path ++ it.parts then some (.file it.data)
      else if q.isPrefixOf (dest.path ++ it.parts).dropLast then some .dir else disk q := by
  have hlast : it ∈ done ++ [it] := List.mem_append_right _ List.mem_cons_self
  have hne : dest.path ++ it.parts ≠ [] := List.append_ne_nil_of_right_ne_nil _ hparts
  have hparent : ∀ {q : Path}, q.isPrefixOf (dest.path ++ it.parts).dropLast = true →
      q <+: dest.path ++ it.parts := fun hq =>
    (List.isPrefixOf_iff_prefix.mp hq).trans (List.dropLast_prefix _)
  have hmem : ∀ x ∈ done ++ [it], x ∈ done ∨ x = it := by
    intro x hx
    rcases List.mem_append.mp hx with hx | hx
    · exact .inl hx
    · exact .inr (List.mem_singleton.mp hx)
  refine ⟨?_, ?_, ?_, ?_, ?_⟩
  · intro p hp content
    have hother : p ≠ dest.path ++ it.parts := by
      intro hp'
      have hle := hp.length_le
      have hpos := List.length_pos_iff.mpr hparts
      rw [hp', List.length_append] at hle
      omega
    rw [if_neg hother]
    by_cases hq : p.isPrefixOf (dest.path ++ it.parts).dropLast = true
    · rw [if_pos hq]
      exact fun hfile => by cases hfile
    · rw [if_neg hq]
      exact h.way p hp content
  · intro x hx hxfile
    rcases hmem x hx with hx | rfl
    · -- the file is not on the way to this one
      have hno : ¬ dest.path ++ x.parts <+: dest.path ++ it.parts := fun hq =>
        (hapart x hx).1 hxfile ((List.prefix_append_right_inj _).mp hq)
      have hother : dest.path ++ x.parts ≠ dest.path ++ it.parts := fun hq =>
        hno (hq ▸ List.prefix_refl _)
      rw [if_neg hother, if_neg fun hq => hno (hparent hq)]
      exact h.files x hx hxfile
    · rw [if_pos rfl]
  · intro p hp content hcontent
    by_cases hhere : p = dest.path ++ it.parts
    · rw [if_pos hhere] at hcontent
      cases hcontent
      exact ⟨it, hlast, hfile, hhere, rfl⟩
    rw [if_neg hhere] at hcontent
    by_cases hq : p.isPrefixOf (dest.path ++ it.parts).dropLast = true
    · rw [if_pos hq] at hcontent
      cases hcontent
    · rw [if_neg hq] at hcontent
      obtain ⟨x, hx, hrest⟩ := h.only p hp content hcontent
      exact ⟨x, List.mem_append_left _ hx, hrest⟩
  · intro x hx hxfolder
    rcases hmem x hx with hx | rfl
    · have hother : dest.path ++ x.parts ≠ dest.path ++ it.parts := by
        intro hq
        have hparts' := List.append_cancel_left hq
        exact (hapart x hx).2 hfile (hparts' ▸ List.prefix_refl _)
      rw [if_neg hother]
      by_cases hq : (dest.path ++ x.parts).isPrefixOf (dest.path ++ it.parts).dropLast = true
      · rw [if_pos hq]
      · rw [if_neg hq]
        exact h.folders x hx hxfolder
    · rw [hfile] at hxfolder
      cases hxfolder
  · intro p hp hroot hdir
    by_cases hhere : p = dest.path ++ it.parts
    · rw [if_pos hhere] at hdir
      cases hdir
    rw [if_neg hhere] at hdir
    by_cases hq : p.isPrefixOf (dest.path ++ it.parts).dropLast = true
    · exact ⟨it, hlast, hparent hq, fun hp' => absurd hp' hhere⟩
    · rw [if_neg hq] at hdir
      obtain ⟨x, hx, hrest⟩ := h.dirs p hp hroot hdir
      exact ⟨x, List.mem_append_left _ hx, hrest⟩

theorem Holding.write_file (h : Holding dest.path done disk) (hapart : ∀ x ∈ done, x.Apart it)
    (hstandard : it.Standard rules inflateRaw) (hfile : it.folder = false) :
    writeFile (fun q => if q.isPrefixOf (dest.path ++ it.parts).dropLast then some .dir else disk q)
      (dest.path ++ it.parts) it.data =
        some fun q => if q = dest.path ++ it.parts then some (.file it.data)
          else if q.isPrefixOf (dest.path ++ it.parts).dropLast then some .dir else disk q := by
  have hne : dest.path ++ it.parts ≠ [] :=
    List.append_ne_nil_of_right_ne_nil _ hstandard.parts_ne
  have hbelow : dest.path ++ it.parts ≠ dest.path := fun hq =>
    hstandard.parts_ne (List.append_right_eq_self.mp hq)
  apply writeFile_iff.mpr
  refine ⟨hstandard.hasNul_path dest, ?_, ?_, rfl⟩
  · intro hdir
    have hnot : ¬ (dest.path ++ it.parts).isPrefixOf (dest.path ++ it.parts).dropLast = true :=
      fun hq => not_prefix_dropLast hne (List.isPrefixOf_iff_prefix.mp hq)
    rw [if_neg hnot] at hdir
    obtain ⟨x, hx, hway, -⟩ := h.dirs _ (List.prefix_append _ _) hbelow hdir
    exact (hapart x hx).2 hfile ((List.prefix_append_right_inj _).mp hway)
  · exact if_pos (List.isPrefixOf_iff_prefix.mpr (List.prefix_refl _))

/-! ## All items -/

theorem placed_items (hfits : ∀ it ∈ items, it.record.Fits)
    (hstandard : ∀ it ∈ items, it.Standard rules inflateRaw)
    (hpacked : ∀ it ∈ items, it.folder = false → it.record.packed ≠ [])
    (hapart : (done ++ items).Pairwise Item.Apart) (h : Holding dest.path done disk)
    (pre behind : Bytes) :
    ∃ after, Placed rules inflateRaw (pre ++ (locals (items.map Item.record) ++ behind)) dest.path
        disk (listed pre.length (items.map Item.record)) after ∧
      Holding dest.path (done ++ items) after := by
  induction items generalizing done disk pre with
  | nil =>
    rw [List.append_nil]
    exact ⟨disk, .done, h⟩
  | cons it items ih =>
    have hit := hstandard it List.mem_cons_self
    have hbefore : ∀ x ∈ done, x.Apart it := fun x hx =>
      (List.pairwise_append.mp hapart).2.2 x hx it List.mem_cons_self
    have hshape : pre ++ (locals ((it :: items).map Item.record) ++ behind) =
        pre ++ (it.record.localRecord ++ (locals (items.map Item.record) ++ behind)) := by
      rw [List.map_cons, locals, List.flatMap_cons, List.append_assoc]
      rfl
    have hnext : pre ++ (locals ((it :: items).map Item.record) ++ behind) =
        (pre ++ it.record.localRecord) ++ (locals (items.map Item.record) ++ behind) := by
      rw [hshape, List.append_assoc]
    have hoffset : pre.length + it.record.localRecord.length =
        (pre ++ it.record.localRecord).length := List.length_append.symm
    have hitems : done ++ it :: items = (done ++ [it]) ++ items := List.append_cons _ _ _
    have hrest : ∀ {d : Disk}, Holding dest.path (done ++ [it]) d → ∃ after,
        Placed rules inflateRaw (pre ++ (locals ((it :: items).map Item.record) ++ behind)) dest.path
            d (listed (pre.length + it.record.localRecord.length) (items.map Item.record)) after ∧
          Holding dest.path (done ++ it :: items) after := by
      intro d hd
      rw [hnext, hoffset, hitems]
      exact ih (fun x hx => hfits x (List.mem_cons_of_mem _ hx))
        (fun x hx => hstandard x (List.mem_cons_of_mem _ hx))
        (fun x hx => hpacked x (List.mem_cons_of_mem _ hx)) (hitems ▸ hapart) hd _
    have hname := hit.entry_name pre.length
    have htarget := hit.resolve dest.path
    rw [← hname] at htarget
    have hisFolder := hit.isFolder pre.length
    by_cases hfolder : it.folder = true
    · obtain ⟨after, hplaced, hholding⟩ := hrest (h.folder hbefore hfolder)
      have hmade := h.way_open hbefore (List.prefix_refl _) (hit.hasNul_path dest)
      exact ⟨after, .folder (hisFolder.trans hfolder) htarget hmade hplaced, hholding⟩
    · have hfile := Bool.eq_false_iff.mpr hfolder
      obtain ⟨after, hplaced, hholding⟩ := hrest (h.file hbefore hit.parts_ne hfile)
      have hmade := h.way_open hbefore (List.dropLast_prefix _) (hasNul_dropLast (hit.hasNul_path dest))
      have hdata : packedData (pre ++ (locals ((it :: items).map Item.record) ++ behind))
          (it.entry pre.length) = .ok it.record.packed := by
        have hlength : it.record.packed.length ≠ 0 := fun hzero =>
          hpacked it List.mem_cons_self hfile (List.eq_nil_of_length_eq_zero hzero)
        rw [hshape, packedData_record (hfits it List.mem_cons_self) pre _ rfl rfl, if_neg hlength]
      have hholds : (it.entry pre.length).Holds inflateRaw
          (pre ++ (locals ((it :: items).map Item.record) ++ behind)) it.data :=
        ⟨_, hdata, hit.unpack hfile _, (hit.size hfile).symm⟩
      exact ⟨after, .file (hisFolder.trans hfile) htarget hmade hholds
        (h.write_file hbefore hit hfile) hplaced, hholding⟩

theorem packed_of_placed {after : Disk} (hfits : ∀ it ∈ items, it.record.Fits)
    (hstandard : ∀ it ∈ items, it.Standard rules inflateRaw) (pre behind : Bytes)
    (h : Placed rules inflateRaw (pre ++ (locals (items.map Item.record) ++ behind)) root disk
      (listed pre.length (items.map Item.record)) after) :
    ∀ it ∈ items, it.folder = false → it.record.packed ≠ [] := by
  induction items generalizing disk pre with
  | nil => exact fun it hit => absurd hit List.not_mem_nil
  | cons x items ih =>
    have hx := (hstandard x List.mem_cons_self).isFolder pre.length
    have hshape : pre ++ (locals ((x :: items).map Item.record) ++ behind) =
        pre ++ (x.record.localRecord ++ (locals (items.map Item.record) ++ behind)) := by
      rw [List.map_cons, locals, List.flatMap_cons, List.append_assoc]
      rfl
    have hnext : pre ++ (x.record.localRecord ++ (locals (items.map Item.record) ++ behind)) =
        (pre ++ x.record.localRecord) ++ (locals (items.map Item.record) ++ behind) :=
      (List.append_assoc _ _ _).symm
    have hoffset : pre.length + x.record.localRecord.length =
        (pre ++ x.record.localRecord).length := List.length_append.symm
    rw [hshape] at h
    have hrest : ∀ {d : Disk}, Placed rules inflateRaw
        (pre ++ (x.record.localRecord ++ (locals (items.map Item.record) ++ behind))) root d
          (listed (pre.length + x.record.localRecord.length) (items.map Item.record)) after →
        ∀ it ∈ items, it.folder = false → it.record.packed ≠ [] := by
      intro d hd
      rw [hnext, hoffset] at hd
      exact ih (fun y hy => hfits y (List.mem_cons_of_mem _ hy))
        (fun y hy => hstandard y (List.mem_cons_of_mem _ hy)) _ hd
    intro it hit hfile
    cases h with
    | folder he _ _ hafter =>
      rcases List.mem_cons.mp hit with rfl | hit
      · have hfolder : it.folder = true := hx.symm.trans he
        rw [hfile] at hfolder
        cases hfolder
      · exact hrest hafter it hit hfile
    | file _ _ _ hcontent _ hafter =>
      rcases List.mem_cons.mp hit with rfl | hit
      · obtain ⟨data, hdata, -⟩ := hcontent
        rw [packedData_record (hfits it List.mem_cons_self) pre _ rfl rfl] at hdata
        intro hnil
        rw [hnil, List.length_nil, if_pos rfl] at hdata
        cases hdata
      · exact hrest hafter it hit hfile

theorem not_escapes_listed (dest : Dest rules) (hstandard : ∀ it ∈ items, it.Standard rules inflateRaw)
    (offset : ℕ) : ∀ e ∈ listed offset (items.map Item.record), escapes rules dest.path e = false := by
  induction items generalizing offset with
  | nil => exact fun e he => absurd he List.not_mem_nil
  | cons it items ih =>
    intro e he
    rcases List.mem_cons.mp he with rfl | he
    · exact (hstandard it List.mem_cons_self).not_escapes dest offset
    · exact ih (fun x hx => hstandard x (List.mem_cons_of_mem _ hx)) _ e he

/-- An archive comes out as it went in, unless its directory is too long or it has a file without
packed bytes in it. -/
theorem extractZip_packed (p : Packed rules inflateRaw) (hquiet : p.Quiet) (dest : Dest rules)
    (left : Option Bytes) {disk : Disk} (hfresh : Fresh dest.path disk) :
    (∃ after, extractZip rules inflateRaw p.bytes dest.path left disk = (after, none) ∧
        Holding dest.path p.items after) ↔
      (directory 0 p.records).length < 2 ^ 31 ∧
        ∀ it ∈ p.items, it.folder = false → it.record.packed ≠ [] := by
  have hread := readZipEntries_bytes hquiet
  have hbytes : p.bytes = [] ++ (locals (p.items.map Item.record) ++
      (directory 0 p.records ++ p.last)) := by
    rw [List.nil_append, ← p.records_eq]
    rfl
  have hfits : ∀ it ∈ p.items, it.record.Fits := by
    intro it hit
    apply p.fits
    rw [p.records_eq]
    exact List.mem_map_of_mem hit
  have hlisted : listed 0 p.records = listed ([] : Bytes).length (p.items.map Item.record) := by
    rw [← p.records_eq]
    rfl
  constructor
  · intro ⟨after, htaken, _⟩
    obtain ⟨es, hes, -, hplaced⟩ := (extractZip_ok_iff dest.plain).mp htaken
    rw [hread] at hes
    by_cases hlong : 2 ^ 31 ≤ (directory 0 p.records).length
    · rw [if_pos hlong] at hes
      cases hes
    · rw [if_neg hlong] at hes
      obtain rfl := Except.ok.inj hes
      rw [hbytes, hlisted] at hplaced
      exact ⟨Nat.lt_of_not_le hlong, packed_of_placed hfits p.standard [] _ hplaced⟩
  · intro ⟨hshort, hpacked⟩
    have hapart : ([] ++ p.items).Pairwise Item.Apart := p.apart
    obtain ⟨after, hplaced, hholding⟩ := placed_items hfits p.standard hpacked hapart
      hfresh.holding [] (directory 0 p.records ++ p.last)
    rw [← hbytes, ← hlisted] at hplaced
    refine ⟨after, (extractZip_ok_iff dest.plain).mpr ⟨_, ?_, ?_, hplaced⟩, hholding⟩
    · rw [hread, if_neg (Nat.not_le_of_lt hshort)]
    · rw [hlisted]
      exact not_escapes_listed dest p.standard _

/-! ## Headers inside the file -/

/-- The local header of an entry, with the name and the extra field behind it, ends in the file. -/
def Entry.HeaderInside (file : Bytes) (e : Entry) : Prop :=
  e.localOffset + 30 + leValue ((file.drop (e.localOffset + 26)).take 2) +
    leValue ((file.drop (e.localOffset + 28)).take 2) ≤ file.length

/-- The directory and all local headers are in the file. -/
def HeadersInside (file : Bytes) (e : End) (es : List Entry) : Prop :=
  e.cdOffset + e.cdSize ≤ file.length ∧ ∀ x ∈ es, x.HeaderInside file

/-- An entry that is put in its place without any of its data: a folder, or a file that comes out of
nothing in its size. -/
def Entry.Blind (inflateRaw : Bytes → Option Bytes) (e : Entry) : Prop :=
  e.isFolder = true ∨ ∃ content, unpack inflateRaw e [] = .ok content ∧
    content.length = e.uncompressed

variable {file : Bytes} {e : Entry} {es : List Entry}

theorem uint_inside (width : ℕ) {len o pos : ℕ} (hfile : pos + len ≤ file.length)
    (ho : o + width ≤ len) :
    uint width (readAt file pos len) o = .ok (leValue ((file.drop (pos + o)).take width)) := by
  have hlong : ¬ (readAt file pos len).length < o + width := by
    rw [length_readAt]
    omega
  have hbytes : ((readAt file pos len).drop o).take width = (file.drop (pos + o)).take width := by
    rw [readAt_inside hfile, List.drop_take, List.drop_drop, List.take_take,
      Nat.min_eq_left (by omega)]
  unfold uint
  rw [if_neg hlong, hbytes]

theorem uint_header (file : Bytes) (e : Entry) (o : ℕ) (ho : o + 2 ≤ 30) : ∃ n,
    uint 2 (readAt file e.localOffset 30) o = .ok n ∧ (e.localOffset + 30 ≤ file.length →
      n = leValue ((file.drop (e.localOffset + o)).take 2)) := by
  have hlong : ¬ (readAt file e.localOffset 30).length < o + 2 := by
    rw [length_readAt]
    omega
  refine ⟨_, if_neg hlong, fun hfile => ?_⟩
  have hread := uint_inside 2 hfile ho
  rw [uint, if_neg hlong] at hread
  exact Except.ok.inj hread

theorem packedData_outside {data : Bytes} (h : packedData file e = .ok data)
    (houtside : ¬ e.HeaderInside file) : data = [] := by
  obtain ⟨nameLen, hname, hnameLen⟩ := uint_header file e 26 (by omega)
  obtain ⟨extraLen, hextra, hextraLen⟩ := uint_header file e 28 (by omega)
  have hbehind : file.length ≤ e.localOffset + 30 + nameLen + extraLen := by
    by_cases hfixed : e.localOffset + 30 ≤ file.length
    · rw [hnameLen hfixed, hextraLen hfixed]
      exact Nat.le_of_not_le houtside
    · omega
  unfold packedData at h
  dsimp only at h
  rw [hname, hextra] at h
  cases hsignature : uint 4 (readAt file e.localOffset 30) 0 with
  | error fault =>
    rw [hsignature] at h
    cases h
  | ok signature =>
    rw [hsignature] at h
    have hstart : (if signature ≠ 0x04034b50 then Except.error (Fault.corruptLocal e.name)
        else if e.compressed = 0 then .error .range
        else .ok ((file.drop (e.localOffset + 30 + nameLen + extraLen)).take e.compressed)) =
          .ok data := h
    by_cases hbad : signature ≠ 0x04034b50
    · rw [if_pos hbad] at hstart
      cases hstart
    rw [if_neg hbad] at hstart
    by_cases hzero : e.compressed = 0
    · rw [if_pos hzero] at hstart
      cases hstart
    rw [if_neg hzero, List.drop_eq_nil_of_le hbehind, List.take_nil] at hstart
    exact (Except.ok.inj hstart).symm

theorem headerInside_of_placed {after : Disk} (h : Placed rules inflateRaw file root disk es after) :
    ∀ x ∈ es, ¬ x.Blind inflateRaw → x.HeaderInside file := by
  induction h with
  | done => exact fun x hx => absurd hx List.not_mem_nil
  | folder he _ _ _ ih =>
    intro x hx hneeds
    rcases List.mem_cons.mp hx with rfl | hx
    · exact absurd (.inl he) hneeds
    · exact ih x hx hneeds
  | file _ _ _ hcontent _ _ ih =>
    intro x hx hneeds
    rcases List.mem_cons.mp hx with rfl | hx
    · obtain ⟨data, hdata, hunpack, hlength⟩ := hcontent
      by_contra houtside
      rw [packedData_outside hdata houtside] at hunpack
      exact hneeds (.inr ⟨_, hunpack, hlength⟩)
    · exact ih x hx hneeds

/-- An archive with a header outside is refused, but for a directory that is cut off and entries that
need no data. -/
theorem refused_outside_iff {end' : End} (hread : readZipEntries file = .ok es) (dest : Dest rules)
    (left : Option Bytes) :
    (¬ HeadersInside file end' es → (extractZip rules inflateRaw file dest.path left disk).2 ≠ none) ↔
      (end'.cdOffset + end'.cdSize ≤ file.length ∧
          ∀ x ∈ es, x.Blind inflateRaw → x.HeaderInside file) ∨
        (∃ x ∈ es, escapes rules dest.path x = true) ∨
        ¬ ∃ after, Placed rules inflateRaw file dest.path disk es after := by
  have htaken : (extractZip rules inflateRaw file dest.path left disk).2 = none ↔
      (∀ x ∈ es, escapes rules dest.path x = false) ∧
        ∃ after, Placed rules inflateRaw file dest.path disk es after := by
    constructor
    · intro hnone
      have hpair : extractZip rules inflateRaw file dest.path left disk =
          ((extractZip rules inflateRaw file dest.path left disk).1, none) := Prod.ext rfl hnone
      obtain ⟨es', hes, hstay, hplaced⟩ := (extractZip_ok_iff dest.plain).mp hpair
      obtain rfl := Except.ok.inj (hread.symm.trans hes)
      exact ⟨hstay, _, hplaced⟩
    · intro ⟨hstay, after, hplaced⟩
      rw [(extractZip_ok_iff dest.plain).mpr ⟨es, hread, hstay, hplaced⟩]
  constructor
  · intro hrefused
    by_cases hsome : ∃ x ∈ es, escapes rules dest.path x = true
    · exact .inr (.inl hsome)
    by_cases hplaced : ∃ after, Placed rules inflateRaw file dest.path disk es after
    · left
      have hinside : HeadersInside file end' es := by
        by_contra houtside
        refine hrefused houtside (htaken.mpr ⟨fun x hx => ?_, hplaced⟩)
        exact Bool.eq_false_iff.mpr fun hx' => hsome ⟨x, hx, hx'⟩
      exact ⟨hinside.1, fun x hx _ => hinside.2 x hx⟩
    · exact .inr (.inr hplaced)
  · intro hcase houtside hnone
    obtain ⟨hstay, after, hplaced⟩ := htaken.mp hnone
    rcases hcase with ⟨hcd, hblind⟩ | ⟨x, hx, hescapes⟩ | hno
    · apply houtside
      refine ⟨hcd, fun x hx => ?_⟩
      by_cases hx' : x.Blind inflateRaw
      · exact hblind x hx hx'
      · exact headerInside_of_placed hplaced x hx hx'
    · rw [hstay x hx] at hescapes
      cases hescapes
    · exact hno ⟨after, hplaced⟩

/-- Extraction gives back an archive of a standard writer exactly when each of its files has packed
bytes, keeps to the directory for all bytes, and takes an archive with headers outside only where it
never looks for them. -/
theorem extraction_exact (inflateRaw : Bytes → Option Bytes) (dest : Dest rules) (left : Option Bytes) :
    (∀ p : Packed rules inflateRaw, p.Quiet → ∀ disk, Fresh dest.path disk →
      ((∃ after, extractZip rules inflateRaw p.bytes dest.path left disk = (after, none) ∧
          Holding dest.path p.items after) ↔
        (directory 0 p.records).length < 2 ^ 31 ∧
          ∀ it ∈ p.items, it.folder = false → it.record.packed ≠ [])) ∧
    (∀ file disk, Contained dest.path disk (extractZip rules inflateRaw file dest.path left disk).1) ∧
    (∀ file disk e es, readEnd file = .ok e → readZipEntries file = .ok es →
      ((¬ HeadersInside file e es → (extractZip rules inflateRaw file dest.path left disk).2 ≠ none) ↔
        (e.cdOffset + e.cdSize ≤ file.length ∧
            ∀ x ∈ es, x.Blind inflateRaw → x.HeaderInside file) ∨
          (∃ x ∈ es, escapes rules dest.path x = true) ∨
          ¬ ∃ after, Placed rules inflateRaw file dest.path disk es after)) ∧
    (∀ file disk fault, readZipEntries file = .error fault →
      (extractZip rules inflateRaw file dest.path left disk) = (disk, some fault)) := by
  refine ⟨?_, ?_, ?_, ?_⟩
  · intro p hquiet disk hfresh
    exact extractZip_packed p hquiet dest left hfresh
  · intro file disk
    exact contained_extractZip dest.plain left disk
  · intro file disk e es _ hread
    exact refused_outside_iff hread dest left
  · intro file disk fault hread
    unfold extractZip
    rw [hread]

/-! ### A file of one byte, and archives that fail -/

/-- What stands at `/d`. -/
def installDir : Dest posix where
  path := [['d']]
  ne := List.cons_ne_nil _ _
  plain c hc := by
    rw [List.mem_singleton.mp hc]
    refine ⟨by decide, by decide, by decide, fun x hx => ?_⟩
    rw [List.mem_singleton.mp hx]
    rfl
  noNul := rfl

/-- A record with the name `a` whose content is stored. -/
def storedRecord (data : Bytes) : Record where
  name := [0x61]
  method := 0
  packed := data
  size := data.length
  localHead := List.replicate 22 0
  localExtra := []
  trailer := []
  made := List.replicate 6 0
  stamp := List.replicate 4 0
  crc := 0
  attributes := List.replicate 8 0
  extra := []
  comment := []

def storedItem (data : Bytes) : Item := ⟨storedRecord data, [['a']], false, data⟩

theorem storedItem_standard (data : Bytes) : (storedItem data).Standard posix fun _ => none where
  parts_ne := List.cons_ne_nil _ _
  plain c hc := by
    rw [List.mem_singleton.mp hc]
    refine ⟨by decide, by decide, by decide, fun x hx => ?_⟩
    rw [List.mem_singleton.mp hx]
    rfl
  noNul := rfl
  relative := rfl
  name := by
    show [0x61] = utf8 (String.ofList ['a'])
    decide
  size _ := rfl
  content _ := .inl ⟨rfl, rfl⟩

theorem storedRecord_fits {data : Bytes} (hdata : data.length ≤ 1) :
    ∀ r ∈ [storedRecord data], r.Fits := by
  intro r hr
  rw [List.mem_singleton.mp hr]
  have hlength : data.length < 256 ^ 4 := by omega
  have hzero : 0 < 256 ^ 2 := by omega
  have hname : 1 < 256 ^ 2 := by omega
  have hcrc : 0 < 256 ^ 4 := by omega
  exact ⟨hname, hzero, hlength, hlength, rfl, hzero, rfl, rfl, hcrc, rfl, hzero, hzero⟩

theorem storedRecord_count (data : Bytes) : [storedRecord data].length < 256 ^ 2 := by
  show 1 < 256 ^ 2
  omega

theorem storedRecord_locals {data : Bytes} (hdata : data.length ≤ 1) :
    (locals [storedRecord data]).length < 256 ^ 4 := by
  simp [locals, Record.localRecord, Record.localHeader, localSignature, storedRecord, length_leBytes]
  omega

theorem storedRecord_directory (data : Bytes) :
    (directory 0 [storedRecord data]).length < 256 ^ 4 := by
  simp [directory, Record.central, entrySignature, storedRecord, length_leBytes]

theorem comment_fits {comment : Bytes} (h : comment.length < 256) : comment.length < 256 ^ 2 := by
  omega

/-- The archive of a file that has no byte or one. -/
def storedArchive (data comment : Bytes) (hdata : data.length ≤ 1) (hcomment : comment.length < 256) :
    Packed posix fun _ => none where
  records := [storedRecord data]
  numbers := List.replicate 6 0
  comment := comment
  fits := storedRecord_fits hdata
  numbers_length := List.length_replicate
  comment_length := comment_fits hcomment
  count := storedRecord_count data
  locals_length := storedRecord_locals hdata
  directory_length := storedRecord_directory data
  items := [storedItem data]
  records_eq := rfl
  standard it hit := by
    rw [List.mem_singleton.mp hit]
    exact storedItem_standard data
  apart := List.pairwise_singleton _ _

theorem fresh_empty : Fresh installDir.path fun _ => none where
  below _ _ _ := rfl
  way _ _ _ h := by cases h

theorem extraction_exact_stored :
    ∃ after, extractZip posix (fun _ => none) (storedArchive [7] [] (by decide) (by decide)).bytes
        installDir.path none (fun _ => none) = (after, none) ∧
      Holding installDir.path [storedItem [7]] after := by
  have hexact := (extraction_exact (fun _ => none) installDir none).1
    (storedArchive [7] [] (by decide) (by decide)) (by decide) _ fresh_empty
  apply hexact.mpr
  refine ⟨by decide, fun it hit _ => ?_⟩
  rw [List.mem_singleton.mp hit]
  exact List.cons_ne_nil _ _

/-- A directory of one folder, whose local header would stand at 4294967295. -/
def folderOnly : Bytes :=
  (entrySignature ++ List.replicate 24 0 ++ leBytes 2 2 ++ List.replicate 12 0 ++
    leBytes 4 0xffffffff ++ [0x62, 0x2f]) ++ endRecord (List.replicate 6 0) 1 48 0 []

/-- A file without bytes is refused, a comment that spells the end signature hides every file, and a
folder is taken whose local header is nowhere. -/
theorem empty_file_refused :
    (¬ ∃ after, extractZip posix (fun _ => none) (storedArchive [] [] (by decide) (by decide)).bytes
        installDir.path none (fun _ => none) = (after, none) ∧
      Holding installDir.path [storedItem []] after) ∧
    extractZip posix (fun _ => none) (storedArchive [7] (endSignature ++ List.replicate 18 0)
      (by decide) (by decide)).bytes installDir.path none (fun _ => none) = (fun _ => none, none) ∧
    (readEnd folderOnly = .ok ⟨1, 48, 0⟩ ∧ 0xffffffff + 30 > folderOnly.length ∧
      (extractZip posix (fun _ => none) folderOnly installDir.path none (fun _ => none)).2 = none) := by
  refine ⟨?_, ?_, ?_, ?_, ?_⟩
  · intro htaken
    have hquiet : (storedArchive [] [] (by decide) (by decide)).Quiet := by decide
    have hpacked := ((extractZip_packed _ hquiet installDir none fresh_empty).mp htaken).2
    exact hpacked (storedItem []) List.mem_cons_self rfl rfl
  · have hread : readZipEntries (storedArchive [7] (endSignature ++ List.replicate 18 0)
        (by decide) (by decide)).bytes = .ok [] := by decide +kernel
    rw [extractZip, hread]
    rfl
  · decide +kernel
  · decide +kernel
  · have hread : readZipEntries folderOnly = .ok [⟨"b/", 0, 0, 0, 0, 0xffffffff⟩] := by decide +kernel
    rw [extractZip, hread]
    rfl

end KvasirNet.Zip
