import KvasirNet.GatewayTwoFactor

/-! `admittedWallets` and `admitWallet`: the list of admitted wallets, kept in a file and in a
cache, and what becomes of it when one more wallet is admitted. -/
namespace KvasirNet.Admitted

open KvasirNet.Gateway (isJsSpace dropEnd trimText)

/-- An entry of the list: the text that `String(entry.wallet ?? entry)` gives, or nothing where
that throws, as on null. -/
abbrev Entry := Option String

inductive Content
  /-- It cannot be read, or what it holds is no JSON, or is null. -/
  | unreadable
  /-- The list, or the list in its field `wallets`; empty where there is no such field. -/
  | entries (list : List Entry)
  /-- A field `wallets` that is no list. -/
  | noList
  deriving DecidableEq, Repr

structure File where
  stamp : ℕ
  content : Content
  deriving DecidableEq, Repr

structure Cache where
  at' : ℕ
  wallets : List String
  deriving DecidableEq, Repr

/-- The file, where `statSync` finds one, and the last list that was read. -/
structure State where
  file : Option File
  cache : Cache
  deriving DecidableEq, Repr

/-- `list.map(...)`, which throws on the first entry that does. -/
def texts (list : List Entry) : Option (List String) := list.mapM fun e => e.map trimText

def readList : Content → Option (List String)
  | .entries list => (texts list).map fun ws => ws.filter fun w => w ≠ ""
  | _ => none

def admittedWallets (s : State) : List String × State :=
  match s.file with
  | none => (s.cache.wallets, s)
  | some f =>
    if f.stamp = s.cache.at' then (s.cache.wallets, s)
    else match readList f.content with
      | none => (s.cache.wallets, s)
      | some ws => (ws, { s with cache := ⟨f.stamp, ws⟩ })

/-- `entries.some(...)`: whether an entry is the wallet; it throws where it comes to an entry that
does before it finds one. -/
def lists (w : String) : List Entry → Option Bool
  | [] => some false
  | none :: _ => none
  | some text :: rest => if trimText text = w then some true else lists w rest

/-- The entries that `admitWallet` goes on from. -/
def written (file : Option File) : Option (List Entry) :=
  match file.map File.content with
  | some (.entries list) => some list
  | some .noList => none
  | _ => some []

/-- Admit a wallet, where the file is written at a time `stamp`, or cannot be. Nothing comes back
where the call throws. -/
def admitWallet (s : State) (wallet : String) (stamp : Option ℕ) : Option (Bool × State) := do
  let w := trimText wallet
  if w = "" then none else
  let list ← written s.file
  if ← lists w list then pure (false, s)
  else
    let stamp ← stamp
    pure (true, ⟨some ⟨stamp, .entries (list ++ [some w])⟩, ⟨0, []⟩⟩)

/-! ### Trimmed texts -/

theorem head_dropWhile (q : Char → Bool) (cs : List Char) :
    ∀ c ∈ (cs.dropWhile q).head?, q c = false := by
  intro c hc
  have hnot := List.head?_dropWhile_not q cs
  rw [Option.mem_def.mp hc] at hnot
  simpa using hnot

theorem dropWhile_of_head {q : Char → Bool} {cs : List Char} (h : ∀ c ∈ cs.head?, q c = false) :
    cs.dropWhile q = cs := by
  cases cs with
  | nil => rfl
  | cons c cs => rw [List.dropWhile_cons_of_neg (by simp [h c rfl])]

theorem head_dropEnd {q : Char → Bool} {cs : List Char} (h : ∀ c ∈ cs.head?, q c = false) :
    ∀ c ∈ (dropEnd q cs).head?, q c = false := by
  intro c hc
  apply h
  have hsuffix : (cs.reverse.dropWhile q) <:+ cs.reverse := List.dropWhile_suffix q
  obtain ⟨front, hfront⟩ := hsuffix
  have hsplit : cs = dropEnd q cs ++ front.reverse := by
    rw [dropEnd, ← List.reverse_append, hfront, List.reverse_reverse]
  rw [hsplit, List.head?_append, Option.mem_def.mp hc]
  rfl

theorem trimText_trimText (text : String) : trimText (trimText text) = trimText text := by
  have hfront := head_dropEnd (head_dropWhile isJsSpace text.toList)
  have hback : dropEnd isJsSpace (dropEnd isJsSpace (text.toList.dropWhile isJsSpace)) =
      dropEnd isJsSpace (text.toList.dropWhile isJsSpace) := by
    unfold dropEnd
    rw [List.reverse_reverse, dropWhile_of_head (head_dropWhile isJsSpace _)]
  rw [trimText, trimText, String.toList_ofList, dropWhile_of_head hfront, hback]

/-! ### What the list shows -/

def listed (list : List Entry) : List String :=
  (list.filterMap fun e => e.map trimText).filter fun w => w ≠ ""

variable {list : List Entry}

theorem readList_entries {ws : List String}
    (h : readList (.entries list) = some ws) : ws = listed list := by
  obtain ⟨all, hall, rfl⟩ := Option.map_eq_some_iff.mp h
  have hmap : all = list.filterMap fun e => e.map trimText := by
    unfold texts at hall
    clear h
    induction list generalizing all with
    | nil => exact (Option.some.inj hall).symm
    | cons e list ih =>
      rw [List.mapM_cons] at hall
      obtain ⟨text, htext, hall⟩ := Option.bind_eq_some_iff.mp hall
      obtain ⟨rest, hrest, heq⟩ := Option.bind_eq_some_iff.mp hall
      obtain rfl := Option.some.inj heq
      rw [List.filterMap_cons_some htext, ← ih rest hrest]
  rw [listed, hmap]

theorem listed_texts_cons (text : String) (list : List Entry) :
    (some text :: list).filterMap (fun e => e.map trimText) =
      trimText text :: list.filterMap fun e => e.map trimText :=
  List.filterMap_cons_some rfl

variable {w : String}

theorem lists_cons_of_ne {text : String} (h : trimText text ≠ w) :
    lists w (some text :: list) = lists w list := by
  rw [lists, if_neg h]

theorem texts_of_lists (h : lists w list = some false) :
    texts list = some (list.filterMap fun e => e.map trimText) ∧
      w ∉ list.filterMap fun e => e.map trimText := by
  induction list with
  | nil => exact ⟨rfl, List.not_mem_nil⟩
  | cons e list ih =>
    cases e with
    | none => cases h
    | some text =>
      have hw : trimText text ≠ w := by
        intro heq
        rw [lists, if_pos heq] at h
        cases h
      rw [lists_cons_of_ne hw] at h
      obtain ⟨hrest, hmem⟩ := ih h
      rw [listed_texts_cons]
      constructor
      · unfold texts at hrest ⊢
        rw [List.mapM_cons, hrest]
        rfl
      · intro hin
        rcases List.mem_cons.mp hin with heq | hin
        · exact hw heq.symm
        · exact hmem hin

theorem readList_of_lists (h : lists w list = some false) :
    readList (.entries list) = some (listed list) ∧ w ∉ listed list := by
  obtain ⟨htexts, hmem⟩ := texts_of_lists h
  refine ⟨?_, fun hw => hmem (List.mem_filter.mp hw).1⟩
  rw [readList, htexts]
  rfl

theorem listed_of_lists (hw : w ≠ "")
    (h : lists w list = some true) : w ∈ listed list := by
  induction list with
  | nil => cases h
  | cons e list ih =>
    cases e with
    | none => cases h
    | some text =>
      rw [listed, listed_texts_cons]
      apply List.mem_filter.mpr
      by_cases heq : trimText text = w
      · rw [heq]
        exact ⟨List.mem_cons_self, by simpa using hw⟩
      · rw [lists_cons_of_ne heq] at h
        obtain ⟨hmem, hne⟩ := List.mem_filter.mp (ih h)
        exact ⟨List.mem_cons_of_mem _ hmem, hne⟩

theorem readList_append (hw : trimText w = w) (hne : w ≠ "")
    (h : lists w list = some false) :
    readList (.entries (list ++ [some w])) = some (listed list ++ [w]) := by
  obtain ⟨htexts, -⟩ := texts_of_lists h
  have hall : texts (list ++ [some w]) =
      some ((list.filterMap fun e => e.map trimText) ++ [w]) := by
    unfold texts at htexts ⊢
    rw [List.mapM_append, htexts]
    show some (_ ++ [trimText w]) = _
    rw [hw]
  rw [readList, hall, Option.map_some, List.filter_append]
  simp [listed, hne]

/-- The cached list is the one in force: there is no file, or none that can be read, or it has not
changed since the list was read. -/
def InForce (s : State) : Prop :=
  ∀ f, s.file = some f → f.stamp = s.cache.at' ∨ readList f.content = none

theorem shown_of_inForce {s : State} (h : InForce s) : (admittedWallets s).1 = s.cache.wallets := by
  unfold admittedWallets
  cases hfile : s.file with
  | none => rfl
  | some f =>
    rcases h f hfile with hstamp | hread
    · simp only [if_pos hstamp]
    · by_cases hstamp : f.stamp = s.cache.at'
      · simp only [if_pos hstamp]
      · simp only [if_neg hstamp, hread]

theorem shown_of_changed {s : State} {f : File} (hfile : s.file = some f)
    (hstamp : f.stamp ≠ s.cache.at') {ws : List String} (hread : readList f.content = some ws) :
    (admittedWallets s).1 = ws := by
  unfold admittedWallets
  simp only [hfile, if_neg hstamp, hread]

theorem shown_of_not_inForce {s : State} (h : ¬ InForce s) :
    ∃ list, written s.file = some list ∧ (admittedWallets s).1 = listed list := by
  unfold InForce at h
  push Not at h
  obtain ⟨f, hfile, hstamp, hread⟩ := h
  obtain ⟨ws, hws⟩ := Option.ne_none_iff_exists'.mp hread
  cases hcontent : f.content with
  | unreadable =>
    rw [hcontent] at hws
    cases hws
  | noList =>
    rw [hcontent] at hws
    cases hws
  | entries list =>
    refine ⟨list, ?_, ?_⟩
    · rw [written, hfile, Option.map_some, hcontent]
    · rw [shown_of_changed hfile hstamp hws]
      rw [hcontent] at hws
      exact readList_entries hws

/-- No wallet is lost: where the cached list is in force, one that the file lists is cached, and
one that it does not list leaves behind only wallets that it does. -/
def Retained (s : State) (w : String) : Prop :=
  InForce s → ∀ list, written s.file = some list →
    (w ∈ listed list → w ∈ s.cache.wallets) ∧
    (w ∉ listed list → ∀ x ∈ s.cache.wallets, x = w ∨ x ∈ listed list)

/-- The list as it is kept: the file names one wallet, which is the one that was read from it. -/
def settled : State := ⟨some ⟨5, .entries [some "a"]⟩, ⟨5, ["a"]⟩⟩

theorem settled_admits : admitWallet settled " b " (some 6) =
    some (true, ⟨some ⟨6, .entries [some "a", some "b"]⟩, ⟨0, []⟩⟩) := by decide

end KvasirNet.Admitted
