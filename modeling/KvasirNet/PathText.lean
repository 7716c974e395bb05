import KvasirNet.Utf8Text

/-! Path names: how a name is taken apart at its separators, what it leads to from a directory, and
when the text of one path begins with that of another. -/
namespace KvasirNet.PathText

abbrev Part := List Char

/-- Where a name starts from: the directory it is used in, the top, or some other device. -/
inductive Lead
  | relative (rest : List Char)
  | absolute (rest : List Char)
  | elsewhere

/-- The rules of a platform for one device; `device` is how the texts of its paths begin. -/
structure Rules where
  device : List Char
  sep : Char
  isSep : Char → Bool
  lead : List Char → Lead
  sep_isSep : isSep sep = true
  slash_isSep : isSep '/' = true

variable (rules : Rules)

/-- The separator parts with `.` and `..` taken out; nothing is above the top. -/
def follow (base : List Part) : List Part → List Part
  | [] => base
  | c :: cs =>
    if c = [] ∨ c = ['.'] then follow base cs
    else if c = ['.', '.'] then follow base.dropLast cs
    else follow (base ++ [c]) cs

/-- Where a name leads from a directory; `none` is on another device. -/
def resolve (root : List Part) (name : List Char) : Option (List Part) :=
  match rules.lead name with
  | .relative rest => some (follow root (rest.splitOnP rules.isSep))
  | .absolute rest => some (follow [] (rest.splitOnP rules.isSep))
  | .elsewhere => none

/-- The text of the path that has these parts. -/
def text (parts : List Part) : List Char :=
  rules.device ++ if parts = [] then [rules.sep] else parts.flatMap (rules.sep :: ·)

structure IsPart (c : Part) : Prop where
  ne_nil : c ≠ []
  ne_dot : c ≠ ['.']
  ne_dots : c ≠ ['.', '.']
  noSep : ∀ x ∈ c, rules.isSep x = false

/-- Slash is the separator, and a name that begins with it is absolute. -/
def posix : Rules where
  device := []
  sep := '/'
  isSep c := c == '/'
  lead name := if name.head? = some '/' then .absolute name else .relative name
  sep_isSep := rfl
  slash_isSep := rfl

def isWin32Sep (c : Char) : Bool := c == '/' || c == '\\'

def isUnc : List Char → Bool
  | a :: b :: rest =>
    isWin32Sep a && isWin32Sep b && !(rest.takeWhile (!isWin32Sep ·)).isEmpty &&
      !((rest.dropWhile (!isWin32Sep ·)).dropWhile isWin32Sep).isEmpty
  | _ => false

/-- The drive is compared as it is written: the text of a path on `c:` does not begin with `C:`. -/
def win32Lead (drive : Char) (name : List Char) : Lead :=
  match name with
  | a :: rest =>
    if isWin32Sep a then if isUnc name then .elsewhere else .absolute name
    else if a.isAlpha ∧ rest.head? = some ':' then
      if a ≠ drive then .elsewhere
      else if (rest.drop 1).head?.any isWin32Sep then .absolute (rest.drop 1)
      else .relative (rest.drop 1)
    else .relative name
  | [] => .relative []

def win32 (drive : Char) : Rules where
  device := [drive, ':']
  sep := '\\'
  isSep := isWin32Sep
  lead := win32Lead drive
  sep_isSep := rfl
  slash_isSep := rfl

variable {rules}

/-! ### Where a name leads -/

theorem splitOnP_noSep {isSep : Char → Bool} {cs : List Char} :
    ∀ c ∈ cs.splitOnP isSep, ∀ x ∈ c, isSep x = false := by
  induction cs with
  | nil =>
    intro c hc x hx
    rw [List.splitOnP_nil] at hc
    rw [List.mem_singleton.mp hc] at hx
    cases hx
  | cons y cs ih =>
    intro c hc x hx
    rw [List.splitOnP_cons_eq_if_modifyHead] at hc
    by_cases hy : isSep y = true
    · rw [if_pos hy] at hc
      rcases List.mem_cons.mp hc with rfl | hc
      · cases hx
      · exact ih c hc x hx
    · rw [if_neg hy] at hc
      cases hsplit : cs.splitOnP isSep with
      | nil =>
        rw [hsplit] at hc
        cases hc
      | cons first others =>
        rw [hsplit] at hc ih
        rw [List.modifyHead_cons] at hc
        rcases List.mem_cons.mp hc with rfl | hc
        · rcases List.mem_cons.mp hx with rfl | hx
          · exact Bool.eq_false_iff.mpr hy
          · exact ih first List.mem_cons_self x hx
        · exact ih c (List.mem_cons_of_mem _ hc) x hx

variable {cs : List Part}

theorem follow_isPart {base : List Part} (hbase : ∀ c ∈ base, IsPart rules c)
    (hcs : ∀ c ∈ cs, ∀ x ∈ c, rules.isSep x = false) : ∀ c ∈ follow base cs, IsPart rules c := by
  induction cs generalizing base with
  | nil => exact hbase
  | cons c cs ih =>
    have hrest : ∀ c' ∈ cs, ∀ x ∈ c', rules.isSep x = false :=
      fun c' hc' => hcs c' (List.mem_cons_of_mem _ hc')
    rw [follow]
    by_cases hskip : c = [] ∨ c = ['.']
    · rw [if_pos hskip]
      exact ih hbase hrest
    rw [if_neg hskip]
    by_cases hdots : c = ['.', '.']
    · rw [if_pos hdots]
      exact ih (fun c' hc' => hbase c' ((List.dropLast_sublist base).subset hc')) hrest
    rw [if_neg hdots]
    apply ih _ hrest
    intro c' hc'
    rcases List.mem_append.mp hc' with hc' | hc'
    · exact hbase c' hc'
    · rw [List.mem_singleton.mp hc']
      exact ⟨fun h => hskip (.inl h), fun h => hskip (.inr h), hdots, hcs c List.mem_cons_self⟩

variable {target root : List Part}

theorem resolve_isPart {name : List Char}
    (hroot : ∀ c ∈ root, IsPart rules c) (h : resolve rules root name = some target) :
    ∀ c ∈ target, IsPart rules c := by
  unfold resolve at h
  cases hlead : rules.lead name with
  | relative rest =>
    rw [hlead] at h
    rw [← Option.some.inj h]
    exact follow_isPart hroot splitOnP_noSep
  | absolute rest =>
    rw [hlead] at h
    rw [← Option.some.inj h]
    exact follow_isPart (fun c hc => by cases hc) splitOnP_noSep
  | elsewhere =>
    rw [hlead] at h
    cases h

theorem follow_parts {base : List Part} (hcs : ∀ c ∈ cs, IsPart rules c) :
    follow base cs = base ++ cs := by
  induction cs generalizing base with
  | nil => exact (List.append_nil base).symm
  | cons c cs ih =>
    have hc := hcs c List.mem_cons_self
    have hskip : ¬ (c = [] ∨ c = ['.']) := fun h => h.elim hc.ne_nil hc.ne_dot
    rw [follow, if_neg hskip, if_neg hc.ne_dots, ih fun c' hc' => hcs c' (List.mem_cons_of_mem _ hc'),
      List.append_assoc]
    rfl

/-! ### Texts -/

/-- The parts of a name with a separator between them. -/
def joined (x : Char) : List Part → List Char
  | [] => []
  | [c] => c
  | c :: cs => c ++ x :: joined x cs

theorem splitOnP_joined {isSep : Char → Bool} {x : Char} (hx : isSep x = true)
    (hne : cs ≠ []) (hcs : ∀ c ∈ cs, ∀ y ∈ c, isSep y = false) :
    (joined x cs).splitOnP isSep = cs := by
  induction cs with
  | nil => exact absurd rfl hne
  | cons c cs ih =>
    have hc := hcs c List.mem_cons_self
    cases cs with
    | nil => exact List.splitOnP_eq_singleton hc
    | cons c' cs =>
      have hrest := ih (List.cons_ne_nil _ _) fun c'' hc'' => hcs c'' (List.mem_cons_of_mem _ hc'')
      rw [joined, List.splitOnP_append_cons_of_forall_mem hc _ hx, hrest]
      exact fun h => by cases h

theorem text_cons (c : Part) (cs : List Part) :
    text rules (c :: cs) = rules.device ++ rules.sep :: (c ++ cs.flatMap (rules.sep :: ·)) := by
  rw [text, if_neg (List.cons_ne_nil _ _), List.flatMap_cons, List.cons_append]

theorem IsPart.sep_notMem {c : Part} (h : IsPart rules c) : rules.sep ∉ c := by
  intro hmem
  have hsep := h.noSep _ hmem
  rw [rules.sep_isSep] at hsep
  cases hsep

theorem parts_of_prefix (hroot : ∀ c ∈ root, IsPart rules c)
    (htarget : ∀ c ∈ target, IsPart rules c) {rest : List Char}
    (h : target.flatMap (rules.sep :: ·) = root.flatMap (rules.sep :: ·) ++ rules.sep :: rest) :
    ∃ more, more ≠ [] ∧ target = root ++ more := by
  induction root generalizing target with
  | nil =>
    refine ⟨target, ?_, rfl⟩
    rintro rfl
    cases h
  | cons c root ih =>
    cases target with
    | nil => cases h
    | cons d target =>
      have hc := hroot c List.mem_cons_self
      have hd := htarget d List.mem_cons_self
      rw [List.flatMap_cons, List.flatMap_cons, List.cons_append, List.cons_append, List.cons_append,
        List.cons.injEq, List.append_assoc] at h
      -- after each part comes a separator, or the end
      obtain ⟨u, hu⟩ : ∃ u, root.flatMap (rules.sep :: ·) ++ rules.sep :: rest = rules.sep :: u := by
        cases root with
        | nil => exact ⟨rest, rfl⟩
        | cons e root => exact ⟨_, rfl⟩
      cases htail : target.flatMap (rules.sep :: ·) with
      | nil =>
        have hmem : rules.sep ∈ d := by
          have hall := h.2
          rw [hu, htail, List.append_nil] at hall
          rw [hall]
          exact List.mem_append_right _ List.mem_cons_self
        exact absurd hmem hd.sep_notMem
      | cons x w =>
        have hx : x = rules.sep := by
          cases target with
          | nil => cases htail
          | cons e target => exact (List.cons.inj htail).1.symm
        subst hx
        have hall := h.2
        rw [hu, htail] at hall
        obtain ⟨rfl, hw⟩ := firstCut_inj hd.sep_notMem hc.sep_notMem hall
        have hnext : target.flatMap (rules.sep :: ·) =
            root.flatMap (rules.sep :: ·) ++ rules.sep :: rest := by
          rw [htail, hu, hw]
        obtain ⟨more, hmore, rfl⟩ := ih (fun c' hc' => hroot c' (List.mem_cons_of_mem _ hc'))
          (fun c' hc' => htarget c' (List.mem_cons_of_mem _ hc')) hnext
        exact ⟨more, hmore, rfl⟩

/-- A text that goes on after another one and a separator is that of a path below, and no path is
below the top in this way: the text of the top ends in a separator already. -/
theorem text_below_iff (hroot : ∀ c ∈ root, IsPart rules c)
    (htarget : ∀ c ∈ target, IsPart rules c) :
    text rules root ++ [rules.sep] <+: text rules target ↔
      root ≠ [] ∧ ∃ more, more ≠ [] ∧ target = root ++ more := by
  constructor
  · intro h
    obtain ⟨rest, hrest⟩ := h
    cases root with
    | nil =>
      cases target with
      | nil => simp [text] at hrest
      | cons d target =>
        rw [text_cons, text, if_pos rfl, List.append_assoc, List.append_assoc,
          List.append_cancel_left_eq] at hrest
        have hd := htarget d List.mem_cons_self
        have htail := (List.cons.inj hrest).2
        cases d with
        | nil => exact absurd rfl hd.ne_nil
        | cons x d =>
          have hx : rules.sep = x := (List.cons.inj htail).1
          exact absurd (hx ▸ List.mem_cons_self) hd.sep_notMem
    | cons c root =>
      refine ⟨List.cons_ne_nil _ _, ?_⟩
      cases target with
      | nil =>
        rw [text_cons, text, if_pos rfl, List.append_assoc, List.append_assoc,
          List.append_cancel_left_eq] at hrest
        simp at hrest
      | cons d target =>
        rw [text, text, if_neg (List.cons_ne_nil _ _), if_neg (List.cons_ne_nil _ _),
          List.append_assoc, List.append_assoc, List.append_cancel_left_eq] at hrest
        exact parts_of_prefix hroot htarget hrest.symm
  · intro ⟨hne, more, hmore, htarget⟩
    have hlong : target ≠ [] := by
      rw [htarget]
      exact fun h => hne (List.append_eq_nil_iff.mp h).1
    rw [text, text, if_neg hne, if_neg hlong, htarget, List.flatMap_append, ← List.append_assoc]
    apply (List.prefix_append_right_inj _).mpr
    cases more with
    | nil => exact absurd rfl hmore
    | cons c more => exact ⟨c ++ more.flatMap (rules.sep :: ·), rfl⟩

theorem flatMap_eq_joined (hne : cs ≠ []) (x : Char) :
    cs.flatMap (x :: ·) = x :: joined x cs := by
  induction cs with
  | nil => exact absurd rfl hne
  | cons c cs ih =>
    cases cs with
    | nil => rw [List.flatMap_cons, List.flatMap_nil, List.append_nil, joined]
    | cons d cs =>
      rw [List.flatMap_cons, ih (List.cons_ne_nil _ _), List.cons_append]
      rfl

theorem joined_ne_nil {x : Char} {c : Part} (hc : c ≠ []) :
    joined x (c :: cs) ≠ [] := by
  cases cs with
  | nil => exact hc
  | cons d cs => exact fun h => hc (List.append_eq_nil_iff.mp h).1

theorem text_inj {p q : List Part} (hp : ∀ c ∈ p, IsPart rules c) (hq : ∀ c ∈ q, IsPart rules c)
    (h : text rules p = text rules q) : p = q := by
  -- the parts are what stands between the separators
  have hsplit : ∀ {p : List Part}, (∀ c ∈ p, IsPart rules c) → p ≠ [] →
      ∃ cs, text rules p = rules.device ++ rules.sep :: cs ∧ cs ≠ [] ∧
        cs.splitOnP rules.isSep = p := by
    intro p hp hne
    refine ⟨joined rules.sep p, ?_, ?_,
      splitOnP_joined rules.sep_isSep hne fun c hc => (hp c hc).noSep⟩
    · rw [text, if_neg hne, flatMap_eq_joined hne]
    · intro hnil
      cases p with
      | nil => exact hne rfl
      | cons c cs =>
        have hc := (hp c List.mem_cons_self).ne_nil
        exact joined_ne_nil hc hnil
  by_cases hpnil : p = []
  · by_cases hqnil : q = []
    · rw [hpnil, hqnil]
    · obtain ⟨cs, htext, hcs, -⟩ := hsplit hq hqnil
      rw [hpnil, htext, text, if_pos rfl, List.append_cancel_left_eq] at h
      exact absurd (List.cons.inj h).2.symm hcs
  · obtain ⟨cs, htext, hcs, hparts⟩ := hsplit hp hpnil
    by_cases hqnil : q = []
    · rw [hqnil, htext, text, if_pos rfl, List.append_cancel_left_eq] at h
      exact absurd (List.cons.inj h).2 hcs
    · obtain ⟨cs', htext', -, hparts'⟩ := hsplit hq hqnil
      rw [htext, htext', List.append_cancel_left_eq] at h
      rw [← hparts, (List.cons.inj h).2, hparts']

end KvasirNet.PathText
