import KvasirNet.AdmittedWallets
import KvasirNet.ChunkFeed
import KvasirNet.StreamDecoder
import Mathlib.Data.List.TakeWhile

/-! The stream of a completion as the gateway passes it on: it looks at the first chunk for an error
of the upstream, and scans the lines of all of them for the usage that is billed. -/
namespace KvasirNet.Completion

open Gateway (isJsSpace dropEnd)

/-! ## The handler -/

variable {U : Type}

/-- What is read of a value that `JSON.parse` returns: the `error` that counts as true, with a
`message` that does, and such a `usage`. -/
structure Answer (U : Type) where
  error : Option (Option String)
  usage : Option U

variable (parse : String → Option (Answer U))

def trim (line : List Char) : List Char := dropEnd isJsSpace (line.dropWhile isJsSpace)

/-- `data:`. -/
def dataMark : List Char := ['d', 'a', 't', 'a', ':']

def payload (line : List Char) : Option (List Char) :=
  if dataMark <+: trim line then some (trim ((trim line).drop 5)) else none

def done : List Char := ['[', 'D', 'O', 'N', 'E', ']']

def errorOf (p : List Char) : Option String :=
  if p = done then none
  else (parse (String.ofList p)).bind fun o => o.error.map fun message => message.getD "upstream error"

def sseFirstError (text : List Char) : Option String :=
  ((text.splitOn '\n').findSome? payload).bind (errorOf parse)

def usageOf (line : List Char) : Option U :=
  (payload line).bind fun p =>
    if p = done then none else (parse (String.ofList p)).bind fun o => o.usage

/-- The next line of the buffer, once it is ended. -/
def nextLine (buf : List Char) : Head Char (List Char) Empty :=
  if '\n' ∈ buf then
    .item (buf.takeWhile (· ≠ '\n')) ((buf.dropWhile (· ≠ '\n')).drop 1)
  else .more

variable {line : List Char}

theorem nextLine_line (hline : '\n' ∉ line) (rest : List Char) :
    nextLine (line ++ '\n' :: rest) = .item line rest := by
  have hall : ∀ c ∈ line, decide (c ≠ '\n') = true := by
    intro c hc
    apply decide_eq_true
    rintro rfl
    exact hline hc
  rw [nextLine, if_pos (List.mem_append_right _ List.mem_cons_self),
    List.takeWhile_append_of_pos hall, List.dropWhile_append_of_pos hall]
  simp

theorem line_cases (buf : List Char) :
    '\n' ∉ buf ∨ ∃ line rest, '\n' ∉ line ∧ buf = line ++ '\n' :: rest := by
  by_cases h : '\n' ∈ buf
  · obtain ⟨line, rest, hbuf, hline⟩ := List.eq_append_cons_of_mem h
    exact Or.inr ⟨line, rest, hline, hbuf⟩
  · exact Or.inl h

theorem nextLine_item {buf rest : List Char} (h : nextLine buf = .item line rest) :
    '\n' ∉ line ∧ buf = line ++ '\n' :: rest := by
  rcases line_cases buf with hno | ⟨line', rest', hline, rfl⟩
  · rw [nextLine, if_neg hno] at h
    cases h
  · rw [nextLine_line hline] at h
    obtain ⟨rfl, rfl⟩ := Head.item.inj h
    exact ⟨hline, rfl⟩

/-- The lines of a text that comes piece by piece. -/
def lineFraming : Framing Char (List Char) Empty where
  next := nextLine
  stuck_append := fun {_ e} _ => e.elim
  item_append := by
    intro buf line rest h x
    obtain ⟨hline, rfl⟩ := nextLine_item h
    rw [List.append_assoc, List.cons_append, nextLine_line hline]
  item_shorter := by
    intro buf line rest h
    obtain ⟨-, rfl⟩ := nextLine_item h
    rw [List.length_append, List.length_cons]
    omega

/-- `scan`, as far as one line goes. -/
def scanner : Consumer (Option U) (List Char) Empty where
  act := fun usage line => ((usageOf parse line).or usage, false)
  jam := fun usage _ => usage

inductive Outcome (U : Type)
  | outage (message : String)
  | served (written : List Char) (usage : Option U)

/-- The text of the first chunk, if there is one. -/
def firstText : List Bytes → List Char
  | [] => []
  | chunk :: _ => (Decoder.start.decode chunk).1

def complete (chunks : List Bytes) : Outcome U :=
  match sseFirstError parse (firstText chunks) with
  | some message => .outage message
  | none =>
    let texts := Decoder.start.texts chunks
    .served texts.flatten (feed lineFraming (scanner parse) none [] texts).1

def Outcome.billed : Outcome U → Option U
  | .served _ usage => usage
  | .outage _ => none

def Outcome.reported : Outcome U → Option String
  | .outage message => some message
  | .served _ _ => none

/-! ## What is meant -/

/-- The text that the bytes carry; a byte order mark is no part of it. -/
def received (text : String) : List Char := dropBom false text.toList

/-- The usage of the last line that is ended and brings one. -/
def lastUsage (text : List Char) : Option U :=
  ((text.splitOn '\n').dropLast.filterMap (usageOf parse)).getLast?

/-- The bytes of a text in chunks, none of them empty. -/
structure Cut (text : String) (chunks : List Bytes) : Prop where
  bytes : chunks.flatten = utf8 text
  nonempty : [] ∉ chunks

/-- Every cut bills the last usage, and every cut reports the same. -/
structure Settled (text : String) : Prop where
  billed : ∀ chunks, Cut text chunks → (complete parse chunks).billed = lastUsage parse (received text)
  reported : ∀ chunks chunks', Cut text chunks → Cut text chunks' →
    (complete parse chunks).reported = (complete parse chunks').reported

def firstData (text : List Char) : Option (List Char) :=
  (text.splitOn '\n').find? fun line => (payload line).isSome

/-- The first data line does not begin with an error: no beginning of it is one, nor the whole. -/
def NoErrorFirst (text : List Char) : Prop :=
  ∀ line, firstData text = some line →
    ∀ q, q <+: line → ∀ p, payload q = some p → errorOf parse p = none

/-! ## The usage -/

theorem splitOn_line (hline : '\n' ∉ line) (rest : List Char) :
    (line ++ '\n' :: rest).splitOn '\n' = line :: rest.splitOn '\n' :=
  List.splitOn_append_cons_self_of_not_mem hline rest

theorem drain_usage (usage : Option U) (buf : List Char) :
    (drain lineFraming (scanner parse) usage buf).state = (lastUsage parse buf).or usage ∧
      (drain lineFraming (scanner parse) usage buf).stopped = false := by
  induction usage, buf using drain_induction lineFraming (scanner parse) with
  | more usage buf hnext =>
    rw [drain_more lineFraming (scanner parse) hnext]
    rcases line_cases buf with hno | ⟨line, rest, hline, rfl⟩
    · rw [lastUsage, List.splitOn_eq_singleton hno]
      exact ⟨rfl, rfl⟩
    · have hitem : nextLine (line ++ '\n' :: rest) = .more := hnext
      rw [nextLine_line hline] at hitem
      cases hitem
  | stuck usage buf e hnext => exact e.elim
  | stop usage buf line rest usage' hnext hact => exact Bool.noConfusion (Prod.mk.inj hact).2
  | item usage buf line rest usage' hnext hact ih =>
    obtain ⟨hline, rfl⟩ := nextLine_item hnext
    have husage : (usageOf parse line).or usage = usage' := (Prod.mk.inj hact).1
    rw [drain_item lineFraming (scanner parse) hnext hact]
    refine ⟨?_, ih.2⟩
    have hlines : (rest.splitOn '\n') ≠ [] := List.splitOn_ne_nil _ _
    rw [ih.1, lastUsage, lastUsage, splitOn_line hline, List.dropLast_cons_of_ne_nil hlines, ← husage]
    cases hof : usageOf parse line with
    | none => rw [List.filterMap_cons_none hof, Option.none_or]
    | some u =>
      rw [List.filterMap_cons_some hof, List.getLast?_cons]
      cases ((rest.splitOn '\n').dropLast.filterMap (usageOf parse)).getLast? with
      | none => rfl
      | some u' => rfl

variable {text : String}

theorem served_billed {chunks : List Bytes} (hcut : Cut text chunks)
    {written : List Char} {usage : Option U} (h : complete parse chunks = .served written usage) :
    written = received text ∧ usage = lastUsage parse (received text) := by
  have hwhole : Decoder.start.pending ++ chunks.flatten = encodeText text.toList := by
    rw [hcut.bytes, ← utf8_toList]
    rfl
  have hnil : chunks = [] → text.toList = [] := by
    rintro rfl
    exact encodeText_eq_nil hwhole.symm
  have htexts := texts_flatten hwhole hnil
  unfold complete at h
  cases hfirst : sseFirstError parse (firstText chunks) with
  | some message =>
    rw [hfirst] at h
    cases h
  | none =>
    rw [hfirst] at h
    obtain ⟨hwritten, husage⟩ := Outcome.served.inj h
    refine ⟨hwritten.symm.trans htexts, ?_⟩
    have hdrain := drain_usage parse none (received text)
    have hmore : lineFraming.next [] = .more := rfl
    have hopen : (drain lineFraming (scanner parse) none
        ([] ++ (Decoder.start.texts chunks).flatten)).stopped = false := by
      rw [List.nil_append, htexts]
      exact hdrain.2
    rw [← husage, feed_of_open lineFraming (scanner parse) none [] _ hmore hopen, List.nil_append, htexts]
    exact hdrain.1.trans (Option.or_none)

/-! ## The outage -/

theorem sseFirstError_last (hline : '\n' ∉ line) :
    sseFirstError parse line = (payload line).bind (errorOf parse) := by
  rw [sseFirstError, List.splitOn_eq_singleton hline, List.findSome?_singleton]

theorem sseFirstError_data {p : List Char} (hline : '\n' ∉ line) (hp : payload line = some p)
    (rest : List Char) : sseFirstError parse (line ++ '\n' :: rest) = errorOf parse p := by
  rw [sseFirstError, splitOn_line hline, List.findSome?_cons, hp, Option.bind_some]

theorem sseFirstError_skip (hline : '\n' ∉ line) (hp : payload line = none)
    (rest : List Char) : sseFirstError parse (line ++ '\n' :: rest) = sseFirstError parse rest := by
  rw [sseFirstError, splitOn_line hline, List.findSome?_cons, hp, sseFirstError]

theorem dataMark_dropEnd (cs : List Char) : dataMark <+: dropEnd isJsSpace cs ↔ dataMark <+: cs := by
  have hsplit : dropEnd isJsSpace cs ++ (cs.reverse.takeWhile isJsSpace).reverse = cs := by
    rw [dropEnd, ← List.reverse_append, List.takeWhile_append_dropWhile, List.reverse_reverse]
  constructor
  · intro h
    rw [← hsplit]
    exact h.trans (List.prefix_append _ _)
  · rintro ⟨x, rfl⟩
    have hstop : (dataMark.reverse.dropWhile isJsSpace) = dataMark.reverse := by decide
    rw [dropEnd, List.reverse_append, List.dropWhile_append, hstop]
    by_cases hx : (x.reverse.dropWhile isJsSpace).isEmpty = true
    · rw [if_pos hx]
      exact (List.reverse_reverse dataMark).symm ▸ List.prefix_refl dataMark
    · rw [if_neg hx, List.reverse_append, List.reverse_reverse]
      exact List.prefix_append _ _

theorem payload_isSome :
    (payload line).isSome = true ↔ dataMark <+: line.dropWhile isJsSpace := by
  rw [← dataMark_dropEnd]
  by_cases h : dataMark <+: trim line
  · rw [payload, if_pos h]
    exact iff_of_true rfl h
  · rw [payload, if_neg h]
    exact iff_of_false Bool.false_ne_true h

theorem payload_prefix {q : List Char} (hq : q <+: line) (h : (payload q).isSome = true) :
    (payload line).isSome = true := by
  rw [payload_isSome] at h ⊢
  obtain ⟨x, rfl⟩ := hq
  have hne : (q.dropWhile isJsSpace).isEmpty = false := by
    cases hdrop : q.dropWhile isJsSpace with
    | nil =>
      rw [hdrop] at h
      exact absurd h (by decide)
    | cons c cs => rfl
  rw [List.dropWhile_append, hne]
  exact h.trans (List.prefix_append _ _)

theorem firstData_last (hline : '\n' ∉ line) (h : (payload line).isSome = true) :
    firstData line = some line := by
  rw [firstData, List.splitOn_eq_singleton hline]
  exact List.find?_cons_of_pos h

theorem firstData_last_none (hline : '\n' ∉ line)
    (h : ¬ (payload line).isSome = true) : firstData line = none := by
  rw [firstData, List.splitOn_eq_singleton hline]
  exact List.find?_cons_of_neg h

theorem firstData_line (hline : '\n' ∉ line) (h : (payload line).isSome = true)
    (rest : List Char) : firstData (line ++ '\n' :: rest) = some line := by
  rw [firstData, splitOn_line hline]
  exact List.find?_cons_of_pos h

theorem firstData_skip (hline : '\n' ∉ line) (h : ¬ (payload line).isSome = true)
    (rest : List Char) : firstData (line ++ '\n' :: rest) = firstData rest := by
  rw [firstData, splitOn_line hline]
  exact List.find?_cons_of_neg h

theorem prefix_line {rest start : List Char} (h : start <+: line ++ '\n' :: rest) :
    start <+: line ∨ ∃ start', start = line ++ '\n' :: start' ∧ start' <+: rest := by
  obtain ⟨x, hx⟩ := h
  rcases List.append_eq_append_iff.mp hx with ⟨y, hy, -⟩ | ⟨y, hy, hrest⟩
  · exact Or.inl ⟨y, hy.symm⟩
  · cases y with
    | nil =>
      rw [List.append_nil] at hy
      exact Or.inl ⟨[], by rw [List.append_nil, hy]⟩
    | cons c y =>
      obtain ⟨rfl, rfl⟩ := List.cons.inj hrest
      exact Or.inr ⟨y, hy, List.prefix_append _ _⟩

theorem sseFirstError_none {text : List Char} (h : NoErrorFirst parse text) {start : List Char}
    (hstart : start <+: text) : sseFirstError parse start = none := by
  induction hlen : text.length using Nat.strongRecOn generalizing text start with
  | _ n ih =>
    -- a beginning of the first line
    have hbegin {line : List Char} (hline : '\n' ∉ line) (hq : start <+: line)
        (hdata : (payload line).isSome = true → firstData text = some line) :
        sseFirstError parse start = none := by
      have hno : '\n' ∉ start := fun hmem => hline (hq.subset hmem)
      rw [sseFirstError_last parse hno]
      cases hp : payload start with
      | none => rfl
      | some p =>
        have hsome : (payload line).isSome = true := payload_prefix hq (by rw [hp]; rfl)
        exact h line (hdata hsome) start hq p hp
    rcases line_cases text with hno | ⟨line, rest, hline, rfl⟩
    · exact hbegin hno hstart (firstData_last hno)
    · rcases prefix_line hstart with hq | ⟨start', rfl, hstart'⟩
      · exact hbegin hline hq fun hdata => firstData_line hline hdata rest
      · by_cases hdata : (payload line).isSome = true
        · obtain ⟨p, hp⟩ := Option.isSome_iff_exists.mp hdata
          rw [sseFirstError_data parse hline hp]
          exact h line (firstData_line hline hdata rest) line (List.prefix_refl _) p hp
        · have hnone : payload line = none := Option.not_isSome_iff_eq_none.mp hdata
          rw [sseFirstError_skip parse hline hnone]
          have hshorter : rest.length < n := by
            rw [← hlen, List.length_append, List.length_cons]
            omega
          apply ih rest.length hshorter _ hstart' rfl
          intro line' hfirst
          exact h line' ((firstData_skip hline hdata rest).trans hfirst)

theorem exists_error {text q p : List Char} (hfirst : firstData text = some line)
    (hq : q <+: line) (hp : payload q = some p) :
    ∃ start, start <+: text ∧ sseFirstError parse start = errorOf parse p := by
  induction hlen : text.length using Nat.strongRecOn generalizing text with
  | _ n ih =>
    -- the line itself is the first
    have hbegin (hline : '\n' ∉ line) : sseFirstError parse q = errorOf parse p := by
      have hno : '\n' ∉ q := fun hmem => hline (hq.subset hmem)
      rw [sseFirstError_last parse hno, hp, Option.bind_some]
    rcases line_cases text with hno | ⟨line', rest, hline, rfl⟩
    · by_cases hdata : (payload text).isSome = true
      · rw [firstData_last hno hdata] at hfirst
        obtain rfl := Option.some.inj hfirst
        exact ⟨q, hq, hbegin hno⟩
      · rw [firstData_last_none hno hdata] at hfirst
        cases hfirst
    · by_cases hdata : (payload line').isSome = true
      · rw [firstData_line hline hdata] at hfirst
        obtain rfl := Option.some.inj hfirst
        exact ⟨q, hq.trans (List.prefix_append _ _), hbegin hline⟩
      · rw [firstData_skip hline hdata] at hfirst
        have hshorter : rest.length < n := by
          rw [← hlen, List.length_append, List.length_cons]
          omega
        obtain ⟨start, hstart, herror⟩ := ih rest.length hshorter hfirst rfl
        have hnone : payload line' = none := Option.not_isSome_iff_eq_none.mp hdata
        refine ⟨line' ++ '\n' :: start, ?_, ?_⟩
        · rw [List.prefix_append_right_inj, List.cons_prefix_cons]
          exact ⟨rfl, hstart⟩
        · rw [sseFirstError_skip parse hline hnone, herror]

theorem payload_short (h : line.length < 5) : payload line = none := by
  apply Option.not_isSome_iff_eq_none.mp
  intro hdata
  have hlong := (payload_isSome.mp hdata).length_le
  have hdrop : (line.dropWhile isJsSpace).length ≤ line.length := List.length_dropWhile_le isJsSpace line
  have hfive : dataMark.length = 5 := rfl
  omega

theorem sseFirstError_short {text : List Char} (h : text.length < 5) :
    sseFirstError parse text = none := by
  induction hlen : text.length using Nat.strongRecOn generalizing text with
  | _ n ih =>
    rcases line_cases text with hno | ⟨line, rest, hline, rfl⟩
    · rw [sseFirstError_last parse hno, payload_short h, Option.bind_none]
    · rw [List.length_append, List.length_cons] at h hlen
      have hshort : line.length < 5 := by omega
      rw [sseFirstError_skip parse hline (payload_short hshort)]
      exact ih rest.length (by omega) (by omega) rfl

/-! ## Whom the cut cannot deceive -/

theorem cut_pair {l₁ l₂ : List Char} (h : text.toList = l₁ ++ l₂) (hne : l₁ ≠ []) :
    ∃ chunks, Cut text chunks ∧ firstText chunks = dropBom false l₁ := by
  have hbytes : utf8 text = encodeText l₁ ++ encodeText l₂ := by
    rw [utf8_toList, h, encodeText, List.flatMap_append]
    rfl
  have hne₁ : encodeText l₁ ≠ [] := mt encodeText_eq_nil hne
  by_cases hnil : l₂ = []
  · refine ⟨[encodeText l₁], ⟨?_, ?_⟩, decode_encodeText l₁⟩
    · rw [hbytes, hnil]
      rfl
    · rw [List.mem_singleton]
      exact hne₁.symm
  · refine ⟨[encodeText l₁, encodeText l₂], ⟨?_, ?_⟩, decode_encodeText l₁⟩
    · rw [hbytes, List.flatten_cons, List.flatten_cons, List.flatten_nil, List.append_nil]
    · rw [List.mem_cons, List.mem_singleton, not_or]
      exact ⟨hne₁.symm, Ne.symm (mt encodeText_eq_nil hnil)⟩

theorem cut_byte (h : text.toList ≠ []) :
    ∃ chunks, Cut text chunks ∧ (firstText chunks).length < 5 := by
  have hne : utf8 text ≠ [] := by
    rw [utf8_toList]
    exact mt encodeText_eq_nil h
  obtain ⟨b, bs, hbytes⟩ := List.exists_cons_of_ne_nil hne
  have hshort : (Decoder.start.decode [b]).1.length < 5 :=
    lt_of_le_of_lt (decode_start_length [b]) (Nat.lt_of_sub_eq_succ rfl)
  by_cases hnil : bs = []
  · refine ⟨[[b]], ⟨?_, by simp⟩, hshort⟩
    rw [hbytes, hnil]
    rfl
  · refine ⟨[[b], bs], ⟨?_, ?_⟩, hshort⟩
    · rw [hbytes, List.flatten_cons, List.flatten_cons, List.flatten_nil, List.append_nil]
      rfl
    · rw [List.mem_cons, List.mem_singleton, not_or]
      exact ⟨(List.cons_ne_nil b []).symm, Ne.symm hnil⟩

theorem reported_complete (chunks : List Bytes) :
    (complete parse chunks).reported = sseFirstError parse (firstText chunks) := by
  unfold complete
  cases sseFirstError parse (firstText chunks) with
  | none => rfl
  | some message => rfl

theorem firstText_begins {chunks : List Bytes} (hcut : Cut text chunks) :
    firstText chunks <+: received text := by
  cases chunks with
  | nil => exact List.nil_prefix
  | cons chunk chunks =>
    have hwhole : Decoder.start.pending ++ (chunk ++ chunks.flatten) = encodeText text.toList := by
      rw [← List.flatten_cons, hcut.bytes, ← utf8_toList]
      rfl
    obtain ⟨l', -, -, htext⟩ := decode_begin hwhole
    exact ⟨_, htext⟩

/-- What is billed and what is reported do not depend on the cut exactly when the first data line
does not begin with an error. -/
theorem streaming_iff (text : String) : Settled parse text ↔ NoErrorFirst parse (received text) := by
  constructor
  · intro hsettled line hfirst q hq p hp
    obtain ⟨start, hstart, herror⟩ := exists_error parse hfirst hq hp
    obtain ⟨l₁, l₂, htext, hl₁⟩ := dropBom_prefix hstart
    by_cases hnil : l₁ = []
    · rw [← herror, ← hl₁, hnil]
      exact sseFirstError_short parse (by decide)
    · -- cut behind the error, and behind the first byte
      obtain ⟨chunks, hcut, hfirstText⟩ := cut_pair htext hnil
      have hne : text.toList ≠ [] := by
        rw [htext]
        exact List.append_ne_nil_of_left_ne_nil hnil _
      obtain ⟨chunks', hcut', hshort⟩ := cut_byte hne
      calc
        errorOf parse p = sseFirstError parse (firstText chunks) := by rw [hfirstText, hl₁, herror]
        _ = (complete parse chunks).reported := (reported_complete parse chunks).symm
        _ = (complete parse chunks').reported := hsettled.reported chunks chunks' hcut hcut'
        _ = sseFirstError parse (firstText chunks') := reported_complete parse chunks'
        _ = none := sseFirstError_short parse hshort
  · intro hfirst
    have hnone {chunks : List Bytes} (hcut : Cut text chunks) : (complete parse chunks).reported = none := by
      rw [reported_complete]
      exact sseFirstError_none parse hfirst (firstText_begins hcut)
    constructor
    · intro chunks hcut
      cases hend : complete parse chunks with
      | outage message =>
        have hreported := hnone hcut
        rw [hend] at hreported
        cases hreported
      | served written usage => exact (served_billed parse hcut hend).2
    · intro chunks chunks' hcut hcut'
      rw [hnone hcut, hnone hcut']

def ringDown : String := "data: \x7b\"error\":\x7b\x7d\x7d\n\n"

/-- `JSON.parse` of that line, and of nothing else here. -/
def parseRingDown (text : String) : Option (Answer ℕ) :=
  if text = "\x7b\"error\":\x7b\x7d\x7d" then some ⟨some none, none⟩ else none

/-- In one chunk it is an outage, cut in the middle it is a stream that is passed on. -/
theorem split_error_served :
    ¬ (∀ (parse : String → Option (Answer ℕ)) text, Settled parse text) ∧
    (complete parseRingDown [utf8 ringDown]).reported = some "upstream error" ∧
    (complete parseRingDown [utf8 "data: \x7b\"err", utf8 "or\":\x7b\x7d\x7d\n\n"]).reported = none := by
  have hwhole : (complete parseRingDown [utf8 ringDown]).reported = some "upstream error" := by
    decide
  have hsplit : (complete parseRingDown [utf8 "data: \x7b\"err", utf8 "or\":\x7b\x7d\x7d\n\n"]).reported =
      none := by
    decide
  refine ⟨fun hall => ?_, hwhole, hsplit⟩
  have hsame := (hall parseRingDown ringDown).reported [utf8 ringDown]
    [utf8 "data: \x7b\"err", utf8 "or\":\x7b\x7d\x7d\n\n"] ⟨by decide, by decide⟩ ⟨by decide, by decide⟩
  rw [hwhole, hsplit] at hsame
  cases hsame

end KvasirNet.Completion
