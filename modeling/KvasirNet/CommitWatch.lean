import Mathlib.Algebra.Group.Nat.Defs
import Mathlib.Data.List.Induction
import Mathlib.Data.List.Sort
import Mathlib.Data.List.Nodup

/-! The watch for new commits (`kvasir-watch/commits.mjs`): each poll reads the heads of a
repository's branches, walks those that moved, and says what it has not said before. -/
namespace KvasirNet.CommitWatch

abbrev Sha := String

structure Detail where
  authorName : Option String
  login : Option String
  date : Option String
  message : Option String
  htmlUrl : Option String

/-- The service behind `gh`: all that a head reaches, in the order it lists them. -/
structure Github where
  log : Sha → List Sha
  detail : Sha → Detail

structure Snapshot where
  branches : List (String × Sha)
  /-- Where a branch stands when its commits are asked for, after the heads. -/
  tip : String → Sha

structure Watch where
  repo : String
  label : Option String

/-- One reported commit; `branch` and `commit` say which it is. -/
structure Found where
  branch : String
  commit : Sha
  repo : String
  label : String
  sha : String
  author : String
  when : Option String
  subject : String
  url : Option String

/-- `state[key]`. -/
structure Watched where
  heads : Option (List (String × Sha))
  reported : List Sha

/-! ### One poll -/

def short (sha : Sha) : String := String.ofList (sha.toList.take 7)

def firstLine (message : Option String) : String :=
  String.ofList (((message.getD "").toList.takeWhile (· ≠ '\n')).take 110)

def Github.found (gh : Github) (watch : Watch) (branch : String) (c : Sha) : Found where
  branch := branch
  commit := c
  repo := watch.repo ++ "@" ++ branch
  label := watch.label.getD watch.repo
  sha := short c
  author := ((gh.detail c).authorName.or (gh.detail c).login).getD "unknown"
  when := (gh.detail c).date
  subject := firstLine (gh.detail c).message
  url := (gh.detail c).htmlUrl

/-- What `Object.prototype` has a property for. -/
def objectPrototype : List String :=
  ["constructor", "__defineGetter__", "__defineSetter__", "hasOwnProperty", "__lookupGetter__",
    "__lookupSetter__", "isPrototypeOf", "propertyIsEnumerable", "toString", "valueOf", "__proto__",
    "toLocaleString"]

/-- `previous[name] ?? null`. -/
inductive Known
  | null
  | inherited
  | head (sha : Sha)
  deriving DecidableEq

def previousHead (previous : List (String × Sha)) (branch : String) : Known :=
  match previous.lookup branch with
  | some sha => .head sha
  | none => if branch ∈ objectPrototype then .inherited else .null

def indexOf (name : String) : Option ℕ :=
  let n := Nat.ofDigitChars 10 name.toList 0
  if name.toList.all Char.isDigit ∧ name = toString n ∧ n < 2 ^ 32 - 1 then some n else none

/-- `Object.entries`: the indices come first, in their order. -/
def objectEntries (branches : List (String × Sha)) : List (String × Sha) :=
  (branches.filter fun b => (indexOf b.1).isSome).mergeSort
      (fun a b => decide ((indexOf a.1).getD 0 ≤ (indexOf b.1).getD 0)) ++
    branches.filter fun b => (indexOf b.1).isNone

/-- The ids said before and the commits found, while the heads are gone through. -/
structure Scan where
  reported : List Sha
  fresh : List Found

section Poll
variable (gh : Github) (watch : Watch) (previous : List (String × Sha))

def walk (known : Known) (tip : Sha) : List Sha :=
  ((gh.log tip).take 20).takeWhile fun c => decide (Known.head c ≠ known)

def Scan.see (branch : String) (s : Scan) (c : Sha) : Scan :=
  if c ∈ s.reported then s
  else ⟨s.reported ++ [c], s.fresh ++ [gh.found watch branch c]⟩

def Scan.visit (tip : String → Sha) (s : Scan) (b : String × Sha) : Scan :=
  let known := previousHead previous b.1
  if known = .head b.2 then s
  else
    let walked := (walk gh known (tip b.1)).foldl (Scan.see gh watch b.1) s
    -- `fresh.splice(1)`
    if known = .null then { walked with fresh := walked.fresh.take 1 } else walked

/-- `[...reported].slice(-500)`. -/
def lastReported (reported : List Sha) : List Sha := reported.drop (reported.length - 500)

/-- `heads`, from the first page of the branches. -/
def Snapshot.heads (snap : Snapshot) : List (String × Sha) := objectEntries (snap.branches.take 100)

def pollRepoBranches (w : Watched) (snap : Snapshot) : Watched × List Found :=
  match w.heads with
  | none => (⟨some snap.heads, lastReported w.reported⟩, [])
  | some previous =>
    let s := snap.heads.foldl (Scan.visit gh watch previous snap.tip) ⟨w.reported, []⟩
    (⟨some snap.heads, lastReported s.reported⟩, s.fresh)

end Poll

/-! ### Polls one after the other -/

/-- A repository's part of the state file, and all that its polls have returned. -/
structure Watching where
  state : Watched
  delivered : List Found

abbrev World := String → Watching

def World.start : World := fun _ => ⟨⟨none, []⟩, []⟩

/-- One turn of the loop of `main`; without a snapshot a request failed, and nothing changes. -/
structure Poll where
  watch : Watch
  outcome : Option Snapshot

variable (gh : Github)

def World.poll (w : World) (p : Poll) : World :=
  match p.outcome with
  | none => w
  | some snap => fun repo =>
    if repo = p.watch.repo then
      let after := pollRepoBranches gh p.watch (w repo).state snap
      ⟨after.1, (w repo).delivered ++ after.2⟩
    else w repo

def World.run (w : World) (polls : List Poll) : World := polls.foldl (World.poll gh) w

/-! ### What the watch is for -/

/-- A commit that a branch reaches now, and did not when it was last seen. -/
structure NewOn (snap : Snapshot) (previous : List (String × Sha)) (branch : String) (old head c : Sha) :
    Prop where
  known : previous.lookup branch = some old
  now : (branch, head) ∈ snap.branches
  reached : c ∈ gh.log head
  not_before : c ∉ gh.log old

/-- The polls, one by one, of a repository that was seen before. -/
structure Takes (polls before : List Poll) (p : Poll) (after : List Poll) (snap : Snapshot)
    (previous : List (String × Sha)) : Prop where
  split : polls = before ++ p :: after
  outcome : p.outcome = some snap
  previous : ((World.start.run gh before) p.watch.repo).state.heads = some previous

structure ReportedOnce (polls : List Poll) : Prop where
  /-- What is new on a known branch is in the results of the polls exactly once. -/
  each : ∀ before p after snap previous, Takes gh polls before p after snap previous →
    ∀ branch old head c, NewOn gh snap previous branch old head c →
      (((World.start.run gh before).poll gh p p.watch.repo).delivered.map Found.commit).count c = 1 ∧
        (((World.start.run gh polls) p.watch.repo).delivered.map Found.commit).count c = 1
  /-- A new branch adds at most one commit and takes none away. -/
  new_branch : ∀ before p after snap previous, Takes gh polls before p after snap previous →
    ∀ (earlier : List (String × Sha)) (b : String × Sha) (later : List (String × Sha)),
      snap.heads = earlier ++ b :: later → previous.lookup b.1 = none →
        let s := earlier.foldl (Scan.visit gh p.watch previous snap.tip)
          ⟨((World.start.run gh before) p.watch.repo).state.reported, []⟩
        s.fresh <+: (s.visit gh p.watch previous snap.tip b).fresh ∧
          (s.visit gh p.watch previous snap.tip b).fresh.length ≤ s.fresh.length + 1
  /-- No commit is reported twice. -/
  no_twice : ∀ repo, (((World.start.run gh polls) repo).delivered.map Found.commit).Nodup

/-! ### When it is met -/

section Scan
variable (watch : Watch) (previous : List (String × Sha)) (tip : String → Sha)

/-- The commit is on the page of a branch that moved, before the old head, and is not remembered;
on the page of a new branch only the first such one counts, and only when nothing was found yet. -/
def Scan.Finds (s : Scan) (b : String × Sha) (c : Sha) : Prop :=
  previousHead previous b.1 ≠ .head b.2 ∧
    if previousHead previous b.1 = .null then
      s.fresh = [] ∧ (walk gh .null (tip b.1)).find? (fun c => decide (c ∉ s.reported)) = some c
    else c ∈ walk gh (previousHead previous b.1) (tip b.1) ∧ c ∉ s.reported

end Scan

/-- What a poll must find, and must not: `delivered` is what the polls before have returned. -/
structure Fair (watch : Watch) (previous : List (String × Sha)) (snap : Snapshot)
    (reported delivered : List Sha) : Prop where
  /-- What is new on a known branch was returned before or is found on some branch. -/
  shown : ∀ branch old head c, NewOn gh snap previous branch old head c → c ∈ delivered ∨
    ∃ earlier b later, snap.heads = earlier ++ b :: later ∧
      (earlier.foldl (Scan.visit gh watch previous snap.tip) ⟨reported, []⟩).Finds gh previous
        snap.tip b c
  /-- What was returned before is remembered where it comes up. -/
  remembered : ∀ earlier b later, snap.heads = earlier ++ b :: later → ∀ c,
    (earlier.foldl (Scan.visit gh watch previous snap.tip) ⟨reported, []⟩).Finds gh previous
      snap.tip b c → c ∉ delivered
  /-- No more than one commit was found when a new branch has its turn. -/
  alone : ∀ earlier b later, snap.heads = earlier ++ b :: later →
    previousHead previous b.1 = .null →
      (earlier.foldl (Scan.visit gh watch previous snap.tip) ⟨reported, []⟩).fresh.length ≤ 1
  /-- A new branch with the name of an inherited property has no two commits to show. -/
  inherited : ∀ earlier b later, snap.heads = earlier ++ b :: later →
    previousHead previous b.1 = .inherited → ∀ c c',
      (earlier.foldl (Scan.visit gh watch previous snap.tip) ⟨reported, []⟩).Finds gh previous
        snap.tip b c →
      (earlier.foldl (Scan.visit gh watch previous snap.tip) ⟨reported, []⟩).Finds gh previous
        snap.tip b c' → c = c'

/-! ### One branch -/

variable {gh : Github} {watch : Watch} {previous : List (String × Sha)} {tip : String → Sha}
  {s : Scan} {b : String × Sha} {delivered : List Sha}

theorem foldl_see (gh : Github) (watch : Watch) (branch : String) (cs : List Sha) (s : Scan) :
    ∃ added : List Sha, cs.foldl (Scan.see gh watch branch) s =
        ⟨s.reported ++ added, s.fresh ++ added.map (gh.found watch branch)⟩ ∧
      added.Nodup ∧ (∀ c, c ∈ added ↔ c ∈ cs ∧ c ∉ s.reported) ∧
      added.head? = cs.find? fun c => decide (c ∉ s.reported) := by
  induction cs generalizing s with
  | nil => exact ⟨[], by simp, List.nodup_nil, by simp, rfl⟩
  | cons x cs ih =>
    by_cases hx : x ∈ s.reported
    · obtain ⟨added, hfold, hnodup, hmem, hhead⟩ := ih s
      refine ⟨added, ?_, hnodup, ?_, ?_⟩
      · rw [List.foldl_cons, Scan.see, if_pos hx]
        exact hfold
      · intro c
        rw [hmem, List.mem_cons]
        constructor
        · intro h
          exact ⟨.inr h.1, h.2⟩
        · intro h
          exact ⟨h.1.resolve_left fun hc => h.2 (hc ▸ hx), h.2⟩
      · rw [List.find?_cons_of_neg (by simpa using hx)]
        exact hhead
    · -- the commit is new, and remembered from here on
      obtain ⟨added, hfold, hnodup, hmem, -⟩ := ih ⟨s.reported ++ [x], s.fresh ++ [gh.found watch branch x]⟩
      have hx_added : x ∉ added := by
        intro h
        exact ((hmem x).mp h).2 (List.mem_append_right _ List.mem_cons_self)
      refine ⟨x :: added, ?_, List.nodup_cons.mpr ⟨hx_added, hnodup⟩, ?_, ?_⟩
      · rw [List.foldl_cons, Scan.see, if_neg hx, hfold]
        simp
      · intro c
        rw [List.mem_cons, List.mem_cons, hmem]
        constructor
        · intro h
          rcases h with rfl | ⟨hc, hnot⟩
          · exact ⟨.inl rfl, hx⟩
          · exact ⟨.inr hc, fun hold => hnot (List.mem_append_left _ hold)⟩
        · intro h
          by_cases hcx : c = x
          · exact .inl hcx
          · refine .inr ⟨h.1.resolve_left hcx, fun hold => ?_⟩
            rcases List.mem_append.mp hold with hold | hnew
            · exact h.2 hold
            · exact hcx (List.mem_singleton.mp hnew)
      · rw [List.find?_cons_of_pos (by simpa using hx)]
        rfl

/-- All that the turn of a branch does, when it does not cut off what was found before. -/
structure Visited (gh : Github) (watch : Watch) (previous : List (String × Sha))
    (tip : String → Sha) (s : Scan) (b : String × Sha) (added : List Sha) : Prop where
  fresh : (s.visit gh watch previous tip b).fresh = s.fresh ++ added.map (gh.found watch b.1)
  reported : ∀ c, c ∈ s.reported → c ∈ (s.visit gh watch previous tip b).reported
  remembers : ∀ c ∈ added, c ∈ (s.visit gh watch previous tip b).reported
  nodup : added.Nodup
  found : ∀ c, c ∈ added ↔ s.Finds gh previous tip b c
  one : previousHead previous b.1 = .null → added.length ≤ 1

theorem visit_spec (gh : Github) (watch : Watch) (tip : String → Sha)
    (halone : previousHead previous b.1 = .null → s.fresh.length ≤ 1) :
    ∃ added, Visited gh watch previous tip s b added := by
  by_cases hstill : previousHead previous b.1 = .head b.2
  · refine ⟨[], ?_, ?_, ?_, List.nodup_nil, ?_, fun _ => Nat.zero_le _⟩
    · rw [Scan.visit, if_pos hstill, List.map_nil, List.append_nil]
    · intro c hc
      rw [Scan.visit, if_pos hstill]
      exact hc
    · intro c hc
      cases hc
    · intro c
      exact ⟨fun h => (by cases h), fun h => absurd hstill h.1⟩
  obtain ⟨seen, hfold, hnodup, hmem, hhead⟩ := foldl_see gh watch b.1
    (walk gh (previousHead previous b.1) (tip b.1)) s
  by_cases hnull : previousHead previous b.1 = .null
  · have hvisit : s.visit gh watch previous tip b =
        ⟨s.reported ++ seen, (s.fresh ++ seen.map (gh.found watch b.1)).take 1⟩ := by
      rw [Scan.visit, if_neg hstill, if_pos hnull, hfold]
    have hseen : ∀ c ∈ seen, c ∈ (s.visit gh watch previous tip b).reported := by
      intro c hc
      rw [hvisit]
      exact List.mem_append_right _ hc
    have hkept : ∀ c ∈ s.reported, c ∈ (s.visit gh watch previous tip b).reported := by
      intro c hc
      rw [hvisit]
      exact List.mem_append_left _ hc
    by_cases hfirst : s.fresh = []
    · -- the first commit of the new branch is kept
      refine ⟨seen.take 1, ?_, hkept, ?_, hnodup.sublist (List.take_sublist _ _), ?_, ?_⟩
      · rw [hvisit, hfirst, List.nil_append, List.nil_append, List.map_take]
      · intro c hc
        exact hseen c (List.mem_of_mem_take hc)
      · intro c
        rw [Scan.Finds, if_pos hnull, ← hnull, ← hhead]
        cases seen with
        | nil => simp [hstill]
        | cons x seen => simp [hstill, hfirst, eq_comm]
      · intro _
        rw [List.length_take]
        exact Nat.min_le_left _ _
    · -- the one commit found before stays, and nothing comes to it
      obtain ⟨x, hx⟩ : ∃ x, s.fresh = [x] := by
        apply List.length_eq_one_iff.mp
        have hpos := List.length_pos_iff.mpr hfirst
        have hle := halone hnull
        omega
      refine ⟨[], ?_, hkept, fun c hc => (by cases hc), List.nodup_nil, ?_, fun _ => Nat.zero_le _⟩
      · rw [hvisit, hx]
        rfl
      · intro c
        rw [Scan.Finds, if_pos hnull]
        exact ⟨fun h => (by cases h), fun h => absurd h.2.1 hfirst⟩
  · have hvisit : s.visit gh watch previous tip b =
        ⟨s.reported ++ seen, s.fresh ++ seen.map (gh.found watch b.1)⟩ := by
      rw [Scan.visit, if_neg hstill, if_neg hnull, hfold]
    refine ⟨seen, ?_, ?_, ?_, hnodup, ?_, fun h => absurd h hnull⟩
    · rw [hvisit]
    · intro c hc
      rw [hvisit]
      exact List.mem_append_left _ hc
    · intro c hc
      rw [hvisit]
      exact List.mem_append_right _ hc
    · intro c
      rw [Scan.Finds, if_neg hnull, hmem]
      exact ⟨fun h => ⟨hstill, h⟩, fun h => h.2⟩

theorem Scan.Finds.not_reported {c : Sha} (h : s.Finds gh previous tip b c) : c ∉ s.reported := by
  obtain ⟨-, hfinds⟩ := h
  by_cases hnull : previousHead previous b.1 = .null
  · rw [if_pos hnull] at hfinds
    have hnew := List.find?_some hfinds.2
    exact of_decide_eq_true hnew
  · rw [if_neg hnull] at hfinds
    exact hfinds.2

/-! ### One poll -/

/-- What was found is remembered, said once, and not what was returned before. -/
structure Scan.Kept (s : Scan) (delivered : List Sha) : Prop where
  nodup : (s.fresh.map Found.commit).Nodup
  remembered : ∀ c ∈ s.fresh.map Found.commit, c ∈ s.reported
  unsaid : ∀ c ∈ s.fresh.map Found.commit, c ∉ delivered

theorem map_commit_found (branch : String) (added : List Sha) :
    (added.map (gh.found watch branch)).map Found.commit = added := by
  rw [List.map_map]
  exact List.map_id'' (fun _ => rfl) added

theorem Visited.commits {added : List Sha} (h : Visited gh watch previous tip s b added) :
    (s.visit gh watch previous tip b).fresh.map Found.commit = s.fresh.map Found.commit ++ added := by
  rw [h.fresh, List.map_append, map_commit_found]

theorem Scan.Kept.visit {added : List Sha} (hkept : s.Kept delivered)
    (h : Visited gh watch previous tip s b added)
    (hunsaid : ∀ c, s.Finds gh previous tip b c → c ∉ delivered) :
    (s.visit gh watch previous tip b).Kept delivered := by
  have hfinds : ∀ c ∈ added, s.Finds gh previous tip b c := fun c hc => (h.found c).mp hc
  refine ⟨?_, ?_, ?_⟩
  · rw [h.commits]
    apply List.nodup_append.mpr
    refine ⟨hkept.nodup, h.nodup, ?_⟩
    intro c hc c' hc' heq
    have hold := hkept.remembered c hc
    exact (hfinds c' hc').not_reported (heq ▸ hold)
  · intro c hc
    rw [h.commits] at hc
    rcases List.mem_append.mp hc with hold | hnew
    · exact h.reported c (hkept.remembered c hold)
    · exact h.remembers c hnew
  · intro c hc
    rw [h.commits] at hc
    rcases List.mem_append.mp hc with hold | hnew
    · exact hkept.unsaid c hold
    · exact hunsaid c (hfinds c hnew)

variable {snap : Snapshot} {reported : List Sha}

theorem Fair.scan (hfair : Fair gh watch previous snap reported delivered)
    (earlier : List (String × Sha)) :
    ∀ later, snap.heads = earlier ++ later →
      (earlier.foldl (Scan.visit gh watch previous snap.tip) ⟨reported, []⟩).Kept delivered ∧
        ∀ before b between, earlier = before ++ b :: between → ∀ c,
          (before.foldl (Scan.visit gh watch previous snap.tip) ⟨reported, []⟩).Finds gh previous
            snap.tip b c →
          c ∈ (earlier.foldl (Scan.visit gh watch previous snap.tip)
            ⟨reported, []⟩).fresh.map Found.commit := by
  induction earlier using List.reverseRecOn with
  | nil =>
    intro later _
    refine ⟨⟨List.nodup_nil, fun c hc => (by cases hc), fun c hc => (by cases hc)⟩, ?_⟩
    intro before b between hsplit
    exact absurd hsplit.symm (by simp)
  | append_singleton earlier b ih =>
    intro later hheads
    rw [List.append_assoc] at hheads
    obtain ⟨hkept, hfound⟩ := ih _ hheads
    obtain ⟨added, hvisited⟩ := visit_spec gh watch snap.tip
      (hfair.alone earlier b later hheads)
    rw [List.foldl_append, List.foldl_cons, List.foldl_nil]
    refine ⟨hkept.visit hvisited (hfair.remembered earlier b later hheads), ?_⟩
    intro before b' between hsplit c hfinds
    rw [hvisited.commits]
    -- the branch is the last one, or one of those before it
    rcases List.eq_nil_or_concat between with rfl | ⟨between, b'', rfl⟩
    · obtain ⟨rfl, hb⟩ := List.append_inj' hsplit rfl
      obtain rfl : b = b' := List.cons.inj hb |>.1
      exact List.mem_append_right _ ((hvisited.found c).mpr hfinds)
    · rw [List.concat_eq_append, ← List.cons_append, ← List.append_assoc] at hsplit
      obtain ⟨hbefore, -⟩ := List.append_inj' hsplit rfl
      exact List.mem_append_left _ (hfound before b' between hbefore c hfinds)

/-! ### All polls -/

variable {polls : List Poll} {w : World} {p : Poll}

/-- The ids that the polls of a repository have returned. -/
def World.said (w : World) (repo : String) : List Sha := (w repo).delivered.map Found.commit

theorem poll_said (hout : p.outcome = some snap)
    (hprevious : (w p.watch.repo).state.heads = some previous) :
    (w.poll gh p).said p.watch.repo = w.said p.watch.repo ++
      (snap.heads.foldl (Scan.visit gh p.watch previous snap.tip)
        ⟨(w p.watch.repo).state.reported, []⟩).fresh.map Found.commit := by
  unfold World.said World.poll
  rw [hout]
  dsimp only
  rw [if_pos rfl, pollRepoBranches, hprevious]
  exact List.map_append

theorem poll_cases (gh : Github) (w : World) (p : Poll) (repo : String) :
    (w.poll gh p).said repo = w.said repo ∨
      repo = p.watch.repo ∧ ∃ snap previous, p.outcome = some snap ∧
        (w p.watch.repo).state.heads = some previous := by
  cases hout : p.outcome with
  | none =>
    left
    unfold World.said World.poll
    rw [hout]
  | some snap =>
    by_cases hrepo : repo = p.watch.repo
    · cases hprevious : (w p.watch.repo).state.heads with
      | none =>
        left
        unfold World.said World.poll
        rw [hout, hrepo]
        dsimp only
        rw [if_pos rfl, pollRepoBranches, hprevious]
        exact congrArg _ (List.append_nil _)
      | some previous => exact .inr ⟨hrepo, snap, previous, rfl, rfl⟩
    · left
      unfold World.said World.poll
      rw [hout]
      dsimp only
      rw [if_neg hrepo]

theorem poll_grows (w : World) (p : Poll) (repo : String) :
    w.said repo <+: (w.poll gh p).said repo := by
  rcases poll_cases gh w p repo with hsame | ⟨rfl, snap, previous, hout, hprevious⟩
  · exact ⟨[], by rw [List.append_nil, hsame]⟩
  · rw [poll_said hout hprevious]
    exact List.prefix_append _ _

theorem run_grows (polls : List Poll) (w : World) (repo : String) :
    w.said repo <+: (w.run gh polls).said repo := by
  induction polls generalizing w with
  | nil => exact List.prefix_refl _
  | cons p polls ih => exact (poll_grows w p repo).trans (ih (w.poll gh p))

theorem run_split (w : World) (before : List Poll) (p : Poll) (after : List Poll) :
    w.run gh (before ++ p :: after) = ((w.run gh before).poll gh p).run gh after := by
  rw [World.run, List.foldl_append, List.foldl_cons]
  rfl

/-- Each poll finds what it has to find, and nothing again. -/
def AllFair (gh : Github) (polls : List Poll) : Prop :=
  ∀ before p after snap previous, Takes gh polls before p after snap previous →
    Fair gh p.watch previous snap ((World.start.run gh before) p.watch.repo).state.reported
      ((World.start.run gh before).said p.watch.repo)

theorem AllFair.said_nodup (h : AllFair gh polls) (before : List Poll) :
    ∀ after, polls = before ++ after → ∀ repo, ((World.start.run gh before).said repo).Nodup := by
  induction before using List.reverseRecOn with
  | nil => exact fun _ _ _ => List.nodup_nil
  | append_singleton before p ih =>
    intro after hsplit repo
    rw [List.append_assoc] at hsplit
    have hbefore := ih _ hsplit repo
    rw [run_split]
    show (((World.start.run gh before).poll gh p).said repo).Nodup
    rcases poll_cases gh (World.start.run gh before) p repo with
      hsame | ⟨rfl, snap, previous, hout, hprevious⟩
    · rw [hsame]
      exact hbefore
    · have hfair := h before p after snap previous ⟨hsplit, hout, hprevious⟩
      have hkept := (hfair.scan snap.heads [] (List.append_nil _).symm).1
      rw [poll_said hout hprevious]
      apply List.nodup_append.mpr
      refine ⟨hbefore, hkept.nodup, ?_⟩
      intro c hc c' hc' heq
      exact hkept.unsaid c' hc' (heq ▸ hc)

theorem Fair.said (hout : p.outcome = some snap)
    (hprevious : (w p.watch.repo).state.heads = some previous)
    (hfair : Fair gh p.watch previous snap (w p.watch.repo).state.reported (w.said p.watch.repo))
    {branch : String} {old head c : Sha} (hnew : NewOn gh snap previous branch old head c) :
    c ∈ (w.poll gh p).said p.watch.repo := by
  rw [poll_said hout hprevious]
  rcases hfair.shown branch old head c hnew with hold | ⟨earlier, b, later, hheads, hfinds⟩
  · exact List.mem_append_left _ hold
  · have hscan := (hfair.scan snap.heads [] (List.append_nil _).symm).2
    exact List.mem_append_right _ (hscan earlier b later hheads c hfinds)

theorem Fair.new_branch {reported : List Sha}
    (hfair : Fair gh watch previous snap reported delivered) {earlier later : List (String × Sha)}
    (hheads : snap.heads = earlier ++ b :: later) (hb : previous.lookup b.1 = none) {s : Scan}
    (hs : earlier.foldl (Scan.visit gh watch previous snap.tip) ⟨reported, []⟩ = s) :
    s.fresh <+: (s.visit gh watch previous snap.tip b).fresh ∧
      (s.visit gh watch previous snap.tip b).fresh.length ≤ s.fresh.length + 1 := by
  have halone := hfair.alone earlier b later hheads
  have hone := hfair.inherited earlier b later hheads
  rw [hs] at halone hone
  obtain ⟨added, hvisited⟩ := visit_spec gh watch snap.tip halone
  have hshort : added.length ≤ 1 := by
    by_cases hnull : previousHead previous b.1 = .null
    · exact hvisited.one hnull
    · -- the name is that of an inherited property
      have hinherited : previousHead previous b.1 = .inherited := by
        unfold previousHead at hnull ⊢
        rw [hb] at hnull ⊢
        dsimp only at hnull ⊢
        by_cases hname : b.1 ∈ objectPrototype
        · rw [if_pos hname]
        · rw [if_neg hname] at hnull
          exact absurd rfl hnull
      match hadded : added with
      | [] => exact Nat.zero_le _
      | [_] => exact le_rfl
      | c :: c' :: _ =>
        have hc := (hvisited.found c).mp List.mem_cons_self
        have hc' := (hvisited.found c').mp (List.mem_cons_of_mem _ List.mem_cons_self)
        have heq := hone hinherited c c' hc hc'
        exact absurd (heq ▸ List.mem_cons_self) (List.nodup_cons.mp hvisited.nodup).1
  rw [hvisited.fresh]
  refine ⟨List.prefix_append _ _, ?_⟩
  rw [List.length_append, List.length_map]
  omega

/-- In every sequence of polls that are fair, each new commit is reported once. -/
theorem reported_once (gh : Github) (polls : List Poll) (h : AllFair gh polls) :
    ReportedOnce gh polls := by
  refine ⟨?_, ?_, ?_⟩
  · intro before p after snap previous htakes branch old head c hnew
    have hfair := h before p after snap previous htakes
    have hmem := Fair.said htakes.outcome htakes.previous hfair hnew
    have hpoll : (((World.start.run gh before).poll gh p).said p.watch.repo).Nodup := by
      have hsplit : polls = (before ++ [p]) ++ after := by
        rw [htakes.split, List.append_assoc]
        rfl
      have hnodup := h.said_nodup _ _ hsplit p.watch.repo
      rw [run_split] at hnodup
      exact hnodup
    have hend := h.said_nodup polls [] (List.append_nil _).symm p.watch.repo
    refine ⟨List.count_eq_one_of_mem hpoll hmem, List.count_eq_one_of_mem hend ?_⟩
    rw [htakes.split, run_split]
    exact (run_grows after _ p.watch.repo).subset hmem
  · intro before p after snap previous htakes earlier b later hheads hb
    exact (h before p after snap previous htakes).new_branch hheads hb rfl
  · exact h.said_nodup polls [] (List.append_nil _).symm

def sampleGithub : Github where
  log head :=
    if head = "m2" then ["m2", "m1", "m0"]
    else if head = "m1" then ["m1", "m0"]
    else if head = "m0" then ["m0"]
    else if head = "t1" then ["t1", "m0"]
    else []
  detail _ := ⟨some "dev", none, none, some "work", none⟩

def sampleWatch : Watch := ⟨"dev/app", none⟩

def seeing (branches : List (String × Sha)) : Poll :=
  ⟨sampleWatch, some ⟨branches, fun branch => (branches.lookup branch).getD ""⟩⟩

def plainPolls : List Poll := [seeing [("main", "m0")], seeing [("main", "m1")]]

theorem plainPolls_fair : AllFair sampleGithub plainPolls := by
  intro before p after snap previous htakes
  obtain ⟨hsplit, hout, hprevious⟩ := htakes
  cases before with
  | nil => cases hprevious
  | cons first before =>
    obtain ⟨rfl, hrest⟩ := List.cons.inj hsplit
    cases before with
    | cons second before =>
      have hnone := (List.cons.inj hrest).2
      cases before <;> cases hnone
    | nil =>
      have hp : p = seeing [("main", "m1")] := (List.cons.inj hrest).1.symm
      subst hp
      obtain rfl := Option.some.inj hout
      obtain rfl : [("main", "m0")] = previous := by
        apply Option.some.inj
        rw [← hprevious]
        decide +kernel
      have hheads : Snapshot.heads ⟨[("main", "m1")], fun branch =>
          (List.lookup branch [("main", "m1")]).getD ""⟩ = [("main", "m1")] := by decide +kernel
      have hone : ∀ {earlier later : List (String × Sha)} {b : String × Sha},
          [("main", "m1")] = earlier ++ b :: later → earlier = [] ∧ b = ("main", "m1") := by
        intro earlier later b h
        cases earlier with
        | nil => exact ⟨rfl, (List.cons.inj h).1.symm⟩
        | cons x earlier =>
          have hlength := congrArg List.length h
          simp at hlength
      refine ⟨?_, ?_, ?_, ?_⟩
      · intro branch old head c hnew
        refine .inr ⟨[], ("main", "m1"), [], hheads, ?_⟩
        have hbranch := hnew.known
        have hhead := List.mem_singleton.mp hnew.now
        obtain ⟨rfl, rfl⟩ := Prod.mk.inj hhead
        obtain rfl : "m0" = old := Option.some.inj hbranch
        have hreached : c ∈ ["m1", "m0"] := hnew.reached
        have hbefore : c ∉ ["m0"] := hnew.not_before
        have hc : c = "m1" := by
          rcases List.mem_pair.mp hreached with hc | hc
          · exact hc
          · exact absurd (List.mem_singleton.mpr hc) hbefore
        subst hc
        exact ⟨by decide, by decide +kernel⟩
      · intro earlier b later _ c _ hsaid
        cases hsaid
      · intro earlier b later h _
        rw [hheads] at h
        rw [(hone h).1]
        exact Nat.zero_le _
      · intro earlier b later h hinherited
        rw [hheads] at h
        rw [(hone h).2] at hinherited
        cases hinherited

theorem reported_once_plain :
    ReportedOnce sampleGithub plainPolls ∧
      ((World.start.run sampleGithub plainPolls).said "dev/app") = ["m1"] :=
  ⟨reported_once sampleGithub plainPolls plainPolls_fair, by decide +kernel⟩

/-- Two commits are pushed, and a branch is made. -/
def branchingPolls : List Poll :=
  [seeing [("main", "m0")], seeing [("main", "m2"), ("topic", "t1")]]

theorem new_branch_drops_commit :
    (World.start.run sampleGithub branchingPolls).said "dev/app" = ["m2"] ∧
      ¬ ReportedOnce sampleGithub branchingPolls := by
  have hsaid : (World.start.run sampleGithub branchingPolls).said "dev/app" = ["m2"] := by
    decide +kernel
  refine ⟨hsaid, fun h => ?_⟩
  have hcount := h.each [seeing [("main", "m0")]] (seeing [("main", "m2"), ("topic", "t1")]) []
    _ [("main", "m0")] ⟨rfl, rfl, by decide +kernel⟩ "main" "m0" "m2" "m1"
    ⟨rfl, by decide, by decide, by decide⟩
  have hend : ((World.start.run sampleGithub branchingPolls).said "dev/app").count "m1" = 1 :=
    hcount.2
  rw [hsaid] at hend
  cases hend

end KvasirNet.CommitWatch
