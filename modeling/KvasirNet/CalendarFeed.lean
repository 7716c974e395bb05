import KvasirNet.Gregorian
import KvasirNet.TextCodec
import Mathlib.Data.Rat.Floor

/-! The calendar of the monitoring job: the events that it reads from a feed, and the times of
an event that it places in a window. Times are milliseconds from the first of January 1970, exact
numbers where the program computes with doubles. Of an event only what decides when it is shown
is kept, so notes, places and ids are left out. -/
namespace KvasirNet.Calendar

open Gregorian

/-! ## Dates -/

/-- The digits of a date, or of a date and a time. -/
structure Stamp where
  year : ℕ
  month : ℕ
  day : ℕ
  hour : ℕ
  minute : ℕ
  second : ℕ
  dateOnly : Bool
  zulu : Bool
  deriving DecidableEq

/-- A text of eight digits, or of eight, a `T` and six with or without a `Z` behind. -/
def readStamp (value : String) : Option Stamp :=
  let cs := value.toList
  let n (skip len : ℕ) : ℕ := Nat.ofDigitChars 10 ((cs.drop skip).take len) 0
  if cs.length = 8 ∧ cs.all Char.isDigit = true then
    some ⟨n 0 4, n 4 2, n 6 2, 0, 0, 0, true, false⟩
  else if (cs.length = 15 ∨ cs.length = 16 ∧ cs[15]? = some 'Z') ∧ cs[8]? = some 'T' ∧
      (cs.take 8 ++ (cs.drop 9).take 6).all Char.isDigit = true then
    some ⟨n 0 4, n 4 2, n 6 2, n 9 2, n 11 2, n 13 2, false, cs.length == 16⟩
  else none

/-- `Date.UTC`: a month or a day too many is carried on, and two digits are a year of the
twentieth century. -/
def utc (year month day hour minute second : ℤ) : ℤ :=
  let full := if 0 ≤ year ∧ year ≤ 99 then 1900 + year else year
  ((((monthStart (12 * full + month) + (day - 1)) * 24 + hour) * 60 + minute) * 60 + second) * 1000

def Stamp.utc (s : Stamp) : ℤ :=
  Calendar.utc s.year (s.month - 1) s.day s.hour s.minute s.second

/-- What `TZID=([^;:]+)` finds in the parameters. -/
def tzid : List Char → Option String
  | [] => none
  | c :: cs =>
    let found := ((c :: cs).drop 5).takeWhile fun d => d != ';' && d != ':'
    if (c :: cs).take 5 = "TZID=".toList ∧ found ≠ [] then some (String.ofList found) else tzid cs

structure DateValue where
  instant : ℤ
  allDay : Bool
  floating : Bool
  tzid : Option String
  deriving DecidableEq

def parseDate (value params : String) : Option DateValue :=
  (readStamp value).map fun s =>
    ⟨s.utc, s.dateOnly, !s.dateOnly && !s.zulu, if s.dateOnly then none else tzid params.toList⟩

/-! ## Events -/

structure Line where
  name : String
  params : String
  value : String
  deriving DecidableEq

/-- The fields of `current` while a `VEVENT` is read. -/
structure Draft where
  summary : Option String := none
  start : Option DateValue := none
  finish : Option DateValue := none
  rrule : Option String := none
  status : Option String := none

structure Event where
  summary : String
  start : DateValue
  finish : Option DateValue
  rrule : Option String
  deriving DecidableEq

/-- `replace` of every backslash before the letter. -/
def unescape (letter into : Char) : List Char → List Char
  | [] => []
  | [c] => [c]
  | c :: d :: cs => if c = '\\' ∧ d = letter then into :: unescape letter into cs
    else c :: unescape letter into (d :: cs)

def title (value : List Char) : List Char :=
  trimBlanks (unescape 'n' ' ' (unescape ',' ',' value))

def Draft.assign (current : Draft) (l : Line) : Draft :=
  if l.name = "SUMMARY" then
    { current with summary := some (String.ofList (title l.value.toList)) }
  else if l.name = "DTSTART" then { current with start := parseDate l.value l.params }
  else if l.name = "DTEND" then { current with finish := parseDate l.value l.params }
  else if l.name = "RRULE" then { current with rrule := some l.value }
  else if l.name = "STATUS" then { current with status := some l.value }
  else current

/-- The event of the lines between `BEGIN:VEVENT` and `END:VEVENT`, where it has a start and a
title and is not cancelled. -/
def accepted (lines : List Line) : Option Event :=
  let current := lines.foldl Draft.assign {}
  match current.start, current.summary with
  | some start, some summary =>
    if summary ≠ "" ∧ current.status ≠ some "CANCELLED" then
      some ⟨summary, start, current.finish, current.rrule⟩
    else none
  | _, _ => none

section feed

variable (toUpperCase : String → String)

def lineOf (raw : List Char) : Option Line :=
  if ':' ∈ raw then
    let left := raw.takeWhile (· ≠ ':')
    let name := toUpperCase (String.ofList (left.takeWhile (· ≠ ';')))
    some ⟨name, String.ofList (left.drop name.length),
      String.ofList ((raw.dropWhile (· ≠ ':')).drop 1)⟩
  else none

def unfoldWith (eol : List Char) : ℕ → List Char → List Char
  | 0, cs => cs
  | _ + 1, [] => []
  | n + 1, c :: cs =>
    let behind := (c :: cs).drop eol.length
    if (c :: cs).take eol.length = eol ∧ (behind.head? = some ' ' ∨ behind.head? = some '\t') then
      unfoldWith eol n (behind.drop 1)
    else c :: unfoldWith eol n cs

/-- A long line goes on behind a line end and a blank. -/
def unfolded (text : String) : List Char :=
  let once := unfoldWith ['\r', '\n'] text.toList.length text.toList
  unfoldWith ['\n'] once.length once

/-- `split(/\r?\n/)` -/
def rawLines (text : List Char) : List (List Char) :=
  let pieces := text.splitOn '\n'
  pieces.dropLast.map (fun p => if p.getLast? = some '\r' then p.dropLast else p) ++
    pieces.getLast?.toList

/-- One turn of the loop over the lines: the `VEVENT` being read, and those that are complete. -/
def readRaw (s : Option (List Line) × List (List Line)) (raw : List Char) :
    Option (List Line) × List (List Line) :=
  if raw = "BEGIN:VEVENT".toList then (some [], s.2)
  else if raw = "END:VEVENT".toList then (none, s.2 ++ s.1.toList)
  else (s.1.map fun lines => lines ++ (lineOf toUpperCase raw).toList, s.2)

def vevents (text : String) : List (List Line) :=
  ((rawLines (unfolded text)).foldl (readRaw toUpperCase) (none, [])).2

def parseIcs (text : String) : List Event := (vevents toUpperCase text).filterMap accepted

end feed

/-! ## Rules -/

inductive Freq
  | daily
  | weekly
  | monthly
  | yearly
  deriving DecidableEq

def readFreq (text : Option String) : Option Freq :=
  if text = some "DAILY" then some .daily
  else if text = some "WEEKLY" then some .weekly
  else if text = some "MONTHLY" then some .monthly
  else if text = some "YEARLY" then some .yearly
  else none

def parts (rule : String) : List (List String) := (splitFields ';' rule).map (splitFields '=')

/-- `Object.fromEntries` keeps the last part of a name. -/
def part (rule name : String) : Option String :=
  ((parts rule).reverse.find? fun p => p.head? = some name).bind fun p => p[1]?

def isInfinity (text : String) : Bool :=
  let word := String.ofList (trimBlanks text.toList)
  word = "Infinity" ∨ word = "+Infinity" ∨ word = "-Infinity"

/-- `Number(rule.INTERVAL ?? 1) || 1`, or `none` where that is infinite. -/
def interval (rule : String) : Option ℚ :=
  match part rule "INTERVAL" with
  | none => some 1
  | some text =>
    if isInfinity text then none
    else some (if (jsNumber text).getD 0 = 0 then 1 else (jsNumber text).getD 0)

def latest (rule : String) : Option ℤ :=
  ((part rule "UNTIL").bind fun text => parseDate text "").map DateValue.instant

/-- `seen < count` -/
def counts (rule : String) (seen : ℕ) : Bool :=
  match part rule "COUNT" with
  | none => true
  | some text =>
    if text = "" then true
    else if isInfinity text then decide ('-' ∉ text.toList)
    else (jsNumber text).any fun count => decide ((seen : ℚ) < count)

/-! ## Occurrences -/

/-- A window of times that a `Date` can hold: what is no such time is outside of it. -/
structure Window where
  since : ℤ
  before : ℤ
  since_date : -8640000000000000 ≤ since
  before_date : before ≤ 8640000000000000

def Window.Has (w : Window) (t : ℤ) : Prop := w.since ≤ t ∧ t < w.before

/-- A loop over the times of an event: at most so many steps, the time of each, and the bounds
`until` and `count` as the loop takes them. -/
structure Walk where
  steps : ℕ
  candidate : ℕ → ℚ
  latest : Option ℤ
  counts : ℕ → Bool

/-- Step `i` is no reason to stop. -/
def Walk.Goes (k : Walk) (w : Window) (i : ℕ) : Prop :=
  k.candidate i < w.before ∧ (∀ u ∈ k.latest, k.candidate i ≤ u) ∧ k.counts i = true

instance (k : Walk) (w : Window) (i : ℕ) : Decidable (k.Goes w i) :=
  inferInstanceAs (Decidable (_ ∧ _ ∧ _))

def Walk.run (k : Walk) (w : Window) : ℕ → ℕ → List ℚ
  | 0, _ => []
  | left + 1, i =>
    if k.Goes w i then
      (if (w.since : ℚ) ≤ k.candidate i then [k.candidate i] else []) ++ k.run w left (i + 1)
    else []

/-- An argument of `Date.UTC` is cut to an integer. -/
def truncated (q : ℚ) : ℤ := if 0 ≤ q then ⌊q⌋ else ⌈q⌉

def dayMs : ℤ := 86400000

/-- How `occurrences` walks through the times of an event. Without a rule there is one; an
infinite step leads out of every window; a month or a year keeps hours and minutes and is added
to the fields of the start, as `Date.UTC` has it. -/
def Event.walk (event : Event) : Walk :=
  let start := event.start.instant
  let index := monthOf (start / dayMs)
  let month (step : ℤ) (year : ℤ) : ℚ :=
    utc year step (start / dayMs - monthStart index + 1) (start % dayMs / 3600000)
      (start % 3600000 / 60000) 0
  match event.rrule.filter (· ≠ "") with
  | none => ⟨1, fun _ => start, none, fun _ => true⟩
  | some rule =>
    match readFreq (part rule "FREQ"), interval rule with
    | some .daily, some n => ⟨4000, fun i => start + i * (dayMs * n), latest rule, counts rule⟩
    | some .weekly, some n => ⟨4000, fun i => start + i * (7 * dayMs * n), latest rule, counts rule⟩
    | some .daily, none | some .weekly, none => ⟨1, fun _ => start, latest rule, counts rule⟩
    | some .monthly, some n =>
      ⟨400, fun i => month (truncated ((index % 12 : ℤ) + i * n)) (index / 12), latest rule,
        fun _ => true⟩
    | some .yearly, some n =>
      ⟨400, fun i => month (index % 12) (truncated ((index / 12 : ℤ) + i * n)), latest rule,
        fun _ => true⟩
    | _, _ => ⟨0, fun _ => start, none, fun _ => true⟩

structure Occurrence where
  event : Event
  instant : ℚ
  length : ℤ

def occurrences (event : Event) (w : Window) : List Occurrence :=
  let length := (event.finish.map fun f => max 0 (f.instant - event.start.instant)).getD 0
  (event.walk.run w event.walk.steps 0).map fun t => ⟨event, t, length⟩

/-! ## What a walk passes -/

/-- Step `i` is reached and falls into the window. -/
def Walk.Reaches (k : Walk) (w : Window) (i : ℕ) : Prop :=
  i < k.steps ∧ (w.since : ℚ) ≤ k.candidate i ∧ ∀ j ≤ i, k.Goes w j

theorem Walk.mem_run_from {k : Walk} {w : Window} {t : ℚ} (left i : ℕ) :
    t ∈ k.run w left i ↔ ∃ j, i ≤ j ∧ j < i + left ∧ t = k.candidate j ∧
      (w.since : ℚ) ≤ k.candidate j ∧ ∀ l, i ≤ l → l ≤ j → k.Goes w l := by
  induction left generalizing i with
  | zero =>
    simp only [Walk.run, List.not_mem_nil, false_iff]
    rintro ⟨j, hij, hj, -⟩
    omega
  | succ left ih =>
    unfold Walk.run
    by_cases hgo : k.Goes w i
    · rw [if_pos hgo, List.mem_append, ih]
      constructor
      · rintro (h | ⟨j, hij, hj, ht, hs, hl⟩)
        · by_cases hs : (w.since : ℚ) ≤ k.candidate i
          · rw [if_pos hs, List.mem_singleton] at h
            refine ⟨i, le_refl i, by omega, h, hs, fun l hil hli => ?_⟩
            rwa [show l = i by omega]
          · rw [if_neg hs] at h
            cases h
        · refine ⟨j, by omega, by omega, ht, hs, fun l hil hlj => ?_⟩
          rcases Nat.eq_or_lt_of_le hil with rfl | hlt
          · exact hgo
          · exact hl l hlt hlj
      · rintro ⟨j, hij, hj, ht, hs, hl⟩
        rcases Nat.eq_or_lt_of_le hij with rfl | hlt
        · left
          rw [if_pos hs, ht]
          exact List.mem_singleton_self _
        · exact Or.inr ⟨j, hlt, by omega, ht, hs, fun l hil hlj => hl l (by omega) hlj⟩
    · rw [if_neg hgo]
      simp only [List.not_mem_nil, false_iff]
      rintro ⟨j, hij, -, -, -, hl⟩
      exact hgo (hl i (le_refl i) hij)

theorem Walk.mem_run {k : Walk} {w : Window} {t : ℚ} :
    t ∈ k.run w k.steps 0 ↔ ∃ i, k.Reaches w i ∧ t = k.candidate i := by
  rw [Walk.mem_run_from]
  constructor
  · rintro ⟨i, -, hi, ht, hs, hl⟩
    exact ⟨i, ⟨by omega, hs, fun j hj => hl j (Nat.zero_le j) hj⟩, ht⟩
  · rintro ⟨i, ⟨hi, hs, hl⟩, ht⟩
    exact ⟨i, Nat.zero_le i, by omega, ht, hs, fun j _ hj => hl j hj⟩

theorem mem_occurrences {event : Event} {w : Window} {t : ℚ} :
    t ∈ (occurrences event w).map Occurrence.instant ↔
      ∃ i, event.walk.Reaches w i ∧ t = event.walk.candidate i := by
  unfold occurrences
  rw [List.map_map, ← Walk.mem_run]
  exact Iff.of_eq (congrArg _ (List.map_id _))

/-- Where the times only grow and a step that counts follows steps that count, a step is
reached if it is itself no reason to stop. -/
theorem Walk.reaches_iff {k : Walk} {w : Window} (hmono : Monotone k.candidate)
    (hcounts : ∀ i j, j ≤ i → k.counts i = true → k.counts j = true) (i : ℕ) :
    k.Reaches w i ↔ i < k.steps ∧ (w.since : ℚ) ≤ k.candidate i ∧ k.Goes w i := by
  refine ⟨fun h => ⟨h.1, h.2.1, h.2.2 i (le_refl i)⟩, ?_⟩
  rintro ⟨hi, hs, hbefore, hlatest, hcount⟩
  refine ⟨hi, hs, fun j hj => ⟨?_, fun u hu => ?_, hcounts i j hj hcount⟩⟩
  · exact lt_of_le_of_lt (hmono hj) hbefore
  · exact le_trans (hmono hj) (hlatest u hu)

end KvasirNet.Calendar
