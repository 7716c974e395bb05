import KvasirNet.CalendarFeed
import Mathlib.Data.List.Induction
import Mathlib.Tactic.Ring

/-! When an event of the feed stands in the week on the days of its recurrence set, and on no
others. The recurrence set is read from the same lines as the event, by the meaning that iCalendar
gives them: a date that does not exist is passed over and not counted, a local time is the time
that the clocks of its zone show, and the dates listed beside the rule are taken out and put in. -/
namespace KvasirNet.Calendar

open Gregorian

/-! ## Recurrence sets -/

/-- The instant at which the clocks of a zone show a time, `none` being the zone of the calendar
itself. No zone is ever a day away from the time of Greenwich. -/
structure Zones where
  instant : Option String → ℤ → ℤ
  near : ∀ zone wall, |instant zone wall - wall| ≤ 82800000

def Stamp.index (s : Stamp) : ℤ := 12 * s.year + (s.month - 1)

/-- The day exists, in a calendar that is Gregorian, and so does the time of the day. -/
def Stamp.Valid (s : Stamp) : Prop :=
  1583 ≤ s.year ∧ (1 ≤ s.month ∧ s.month ≤ 12) ∧ (1 ≤ s.day ∧ (s.day : ℤ) ≤ monthLength s.index) ∧
    s.hour < 24 ∧ s.minute < 60 ∧ s.second < 60

instance (s : Stamp) : Decidable s.Valid :=
  inferInstanceAs (Decidable (_ ∧ (_ ∧ _) ∧ (_ ∧ _) ∧ _ ∧ _ ∧ _))

def Stamp.days (s : Stamp) : ℤ := monthStart s.index + (s.day - 1)

def Stamp.clock (s : Stamp) : ℤ := ((s.hour * 60 + s.minute) * 60 + s.second) * 1000

/-- Where `day` is written for the date. -/
def Zones.read (z : Zones) (zone : Option String) (s : Stamp) (day : ℤ) : ℤ :=
  let wall := day * dayMs + s.clock
  if s.zulu then wall else z.instant (if s.dateOnly then none else zone) wall

def validStamp (value : String) : Option Stamp := (readStamp value).filter fun s => s.Valid

/-- A rule of the four frequencies with at most an interval, an end and a count. -/
structure Recurrence where
  freq : Freq
  interval : ℕ
  interval_pos : 0 < interval
  latest : Option Stamp
  latest_valid : ∀ u ∈ latest, u.Valid
  count : Option ℕ

def once : Recurrence := ⟨.daily, 1, Nat.one_pos, none, fun _ h => (by cases h), some 1⟩

/-- The rule that `rule` spells out of these parts and no others. -/
def plainRule (rule : String) : Option Recurrence :=
  if (parts rule).all (fun p => decide (p.length = 2 ∧
      p.headD "" ∈ ["FREQ", "INTERVAL", "UNTIL", "COUNT"])) = true ∧
      ((parts rule).map fun p => p.headD "").Nodup then
    (readFreq (part rule "FREQ")).bind fun freq =>
    (digitsValue ((part rule "INTERVAL").getD "1").toList).bind fun interval =>
    if h : 0 < interval ∧ ((part rule "UNTIL").any fun v => (validStamp v).isNone) = false ∧
        ((part rule "COUNT").any fun v => (digitsValue v.toList).isNone) = false then
      some ⟨freq, interval, h.1, (part rule "UNTIL").bind validStamp,
        fun u hu => by
          obtain ⟨v, -, hv⟩ := Option.bind_eq_some_iff.mp hu
          exact of_decide_eq_true (Option.filter_eq_some_iff.mp hv).2,
        (part rule "COUNT").bind fun v => digitsValue v.toList⟩
    else none
  else none

def recurrence (rule : Option String) : Option Recurrence :=
  match rule.filter (· ≠ "") with
  | none => some once
  | some rule => plainRule rule

/-- How far step `i` is from the start. -/
def Recurrence.days (r : Recurrence) (i : ℕ) : ℤ :=
  match r.freq with
  | .daily => i * r.interval
  | .weekly => 7 * (i * r.interval)
  | .monthly | .yearly => 0

def Recurrence.months (r : Recurrence) (i : ℕ) : ℤ :=
  match r.freq with
  | .daily | .weekly => 0
  | .monthly => i * r.interval
  | .yearly => 12 * (i * r.interval)

/-- A start and its rule, with the dates that are listed beside them. -/
structure Meeting where
  zones : Zones
  start : Stamp
  valid : start.Valid
  zone : Option String
  rule : Recurrence
  dropped : List ℤ
  added : List ℤ

namespace Meeting

variable (m : Meeting) (w : Window) (i : ℕ)

def day : ℤ := monthStart (m.start.index + m.rule.months i) + (m.start.day - 1) + m.rule.days i

/-- The month that step `i` leads to has the day. -/
def Exists : Prop := (m.start.day : ℤ) ≤ monthLength (m.start.index + m.rule.months i)

instance : Decidable (m.Exists i) := inferInstanceAs (Decidable (_ ≤ _))

def inst : ℤ := m.zones.read m.zone m.start (m.day i)

/-- The end of a rule is an instant if it is one of UTC and a local time like that of the start
otherwise. -/
def Timely : Prop :=
  ∀ u ∈ m.rule.latest,
    (if u.zulu then m.inst i else m.day i * dayMs + m.start.clock) ≤ u.days * dayMs + u.clock

def Counted : Prop :=
  ∀ c ∈ m.rule.count, ((List.range i).filter fun j => m.Exists j).length < c

def Good : Prop := m.Exists i ∧ m.Counted i ∧ m.Timely i

def Occurs (t : ℤ) : Prop := t ∉ m.dropped ∧ ((∃ i, m.Good i ∧ t = m.inst i) ∨ t ∈ m.added)

end Meeting

/-! ## The reading of the lines -/

def lastNamed (name : String) (lines : List Line) : Option Line :=
  lines.reverse.find? fun l => l.name = name

def zoneName (params : String) : Option String :=
  (splitFields ';' params).findSome? fun p =>
    if (p.toList.take 5).map Char.toUpper = "TZID=".toList then
      some (String.ofList (p.toList.drop 5))
    else none

/-- The instants of a list of dates; of a period the start. -/
def listed (z : Zones) (name : String) (lines : List Line) : List ℤ :=
  (lines.filter fun l => l.name = name).flatMap fun l =>
    ((l.value.toList.splitOn ',').filterMap fun v =>
      validStamp (String.ofList (v.takeWhile (· ≠ '/')))).map fun s =>
        z.read (zoneName l.params) s s.days

def meetingOf (z : Zones) (lines : List Line) : Option Meeting :=
  (lastNamed "DTSTART" lines).bind fun l =>
  (recurrence ((lastNamed "RRULE" lines).map Line.value)).bind fun r =>
  (readStamp l.value).bind fun s =>
  if h : s.Valid then
    some ⟨z, s, h, zoneName l.params, r, listed z "EXDATE" lines, listed z "RDATE" lines⟩
  else none

/-- What the week shows of the event is its recurrence set; a rule that is not spelled by the
parts that are implemented, or a start that is no date, is not shown at all. -/
def Right (z : Zones) (lines : List Line) (event : Event) (w : Window) : Prop :=
  match meetingOf z lines with
  | some m => ∀ t : ℚ, t ∈ (occurrences event w).map Occurrence.instant ↔
      ∃ u : ℤ, t = u ∧ w.Has u ∧ m.Occurs u
  | none => occurrences event w = []

/-! ## When it is -/

namespace Meeting

variable (m : Meeting) (w : Window) (i : ℕ)

def fixed : Bool := m.rule.freq = .daily || m.rule.freq = .weekly

/-- The digits of the start on the date of step `i`, taken for a time of UTC; a month or a year
drops the seconds. -/
def written : ℤ :=
  m.day i * dayMs + (m.start.clock - if m.fixed then 0 else m.start.second * 1000)

def cap : ℕ := if m.fixed then 4000 else 400

/-- What the loop shows in terms of the digits: the count is kept by days and weeks only. -/
def Shown : Prop :=
  i < m.cap ∧ w.Has (m.written i) ∧ (∀ u ∈ m.rule.latest, m.written i ≤ u.days * dayMs + u.clock) ∧
    (m.fixed = true → ∀ c ∈ m.rule.count, i < c)

/-- Step `i` stays below the cap of the loop, its date exists and is within count and end, it is
not taken out, and its time is the one that the digits give in UTC. -/
structure Fine : Prop where
  below : i < m.cap
  good : m.Good i
  same : m.inst i = m.written i
  kept : m.inst i ∉ m.dropped

/-- Every step that the digits put into the window is fine or listed beside the rule, every
occurrence of the rule in the window is fine, and what is listed is met by a step. -/
structure Expands : Prop where
  shown : ∀ i, m.Shown w i → m.Fine i ∨ (m.written i ∈ m.added ∧ m.written i ∉ m.dropped)
  due : ∀ i, m.Good i → w.Has (m.inst i) → m.inst i ∉ m.dropped → m.Fine i
  listed : ∀ t ∈ m.added, t ∉ m.dropped → w.Has t → ∃ i, m.Shown w i ∧ m.written i = t

end Meeting

/-- The condition on the lines; of a rule with other parts no step may reach the window. -/
def Expands (z : Zones) (lines : List Line) (event : Event) (w : Window) : Prop :=
  match meetingOf z lines with
  | some m => m.Expands w
  | none => ∀ i, ¬ event.walk.Reaches w i

/-! ## The loop walks the written times -/

theorem Stamp.utc_eq {s : Stamp} (h : s.Valid) : s.utc = s.days * dayMs + s.clock := by
  obtain ⟨hyear, -, -⟩ := h
  have hfull : ¬ (0 ≤ (s.year : ℤ) ∧ (s.year : ℤ) ≤ 99) := by omega
  unfold Stamp.utc Calendar.utc Stamp.days Stamp.clock Stamp.index dayMs
  rw [if_neg hfull]
  ring

theorem validStamp_eq_some {value : String} {s : Stamp} (h : validStamp value = some s) :
    readStamp value = some s ∧ s.Valid := by
  obtain ⟨hread, hvalid⟩ := Option.filter_eq_some_iff.mp h
  exact ⟨hread, of_decide_eq_true hvalid⟩

theorem number_of_digits {text : String} {n : ℕ} (h : digitsValue text.toList = some n) :
    text ≠ "" ∧ isInfinity text = false ∧ jsNumber text = some (n : ℚ) := by
  unfold digitsValue at h
  split_ifs at h with hd
  obtain ⟨hne, hall⟩ := hd
  rw [List.all_eq_true] at hall
  have htext : String.ofList text.toList = text := String.ofList_toList
  refine ⟨?_, ?_, ?_⟩
  · rintro rfl
    exact hne rfl
  · have htrim := trimBlanks_eq_self fun c hc => isBlank_of_digit (hall c hc)
    unfold isInfinity
    dsimp only
    rw [htrim, htext, decide_eq_false_iff_not]
    -- all ways to spell infinity have a letter
    intro hword
    have hletter : 'y' ∈ text.toList := by
      rcases hword with h | h | h
      all_goals
        rw [h]
        decide +kernel
    exact absurd (hall 'y' hletter) (by decide)
  · rw [← htext, jsNumber_digits hne hall]
    injection h with h
    rw [← h]

theorem plainRule_spec {rule : String} {r : Recurrence} (h : plainRule rule = some r) :
    readFreq (part rule "FREQ") = some r.freq ∧ interval rule = some (r.interval : ℚ) ∧
      latest rule = r.latest.map (fun u => u.days * dayMs + u.clock) ∧
      ∀ i, counts rule i = true ↔ ∀ c ∈ r.count, i < c := by
  unfold plainRule at h
  split_ifs at h with hparts
  obtain ⟨freq, hfreq, h⟩ := Option.bind_eq_some_iff.mp h
  obtain ⟨n, hn, h⟩ := Option.bind_eq_some_iff.mp h
  split_ifs at h with hrest
  obtain ⟨hpos, huntil, hcount⟩ := hrest
  injection h with h
  subst h
  refine ⟨hfreq, ?_, ?_, fun i => ?_⟩
  · unfold interval
    cases hp : part rule "INTERVAL" with
    | none =>
      have hone : digitsValue ((none : Option String).getD "1").toList = some 1 := by
        decide +kernel
      rw [hp, hone] at hn
      obtain rfl := Option.some.inj hn
      exact congrArg some Nat.cast_one.symm
    | some text =>
      rw [hp, Option.getD_some] at hn
      obtain ⟨-, hinf, hnum⟩ := number_of_digits hn
      have hne : (n : ℚ) ≠ 0 := Nat.cast_ne_zero.mpr (by omega)
      dsimp only
      rw [hinf, hnum]
      exact congrArg some (if_neg hne)
  · unfold latest
    dsimp only
    cases hp : part rule "UNTIL" with
    | none => rfl
    | some text =>
      rw [hp, Option.any_some, Option.isNone_eq_false_iff] at huntil
      obtain ⟨u, hu⟩ := Option.isSome_iff_exists.mp huntil
      obtain ⟨hread, hvalid⟩ := validStamp_eq_some hu
      simp only [Option.bind_some, parseDate, hread, hu, Option.map_some, Stamp.utc_eq hvalid]
  · unfold counts
    dsimp only
    cases hp : part rule "COUNT" with
    | none => simp
    | some text =>
      rw [hp, Option.any_some, Option.isNone_eq_false_iff] at hcount
      obtain ⟨c, hc⟩ := Option.isSome_iff_exists.mp hcount
      obtain ⟨hne, hinf, hnum⟩ := number_of_digits hc
      dsimp only
      rw [if_neg hne, hinf, hnum]
      simp [hc]

namespace Meeting

variable {m : Meeting} {w : Window}

variable {i : ℕ}

theorem day_lt {j : ℕ} (hij : i < j) : m.day i < m.day j := by
  have hstep : (i : ℤ) * m.rule.interval < j * m.rule.interval :=
    Int.mul_lt_mul_of_pos_right (by omega) (by have := m.rule.interval_pos; omega)
  have hmonth {a b : ℤ} (h : a < b) :
      monthStart (m.start.index + a) < monthStart (m.start.index + b) :=
    monthStart_lt_iff.mpr (by omega)
  unfold day Recurrence.months Recurrence.days
  cases m.rule.freq with
  | daily => dsimp only; omega
  | weekly => dsimp only; omega
  | monthly =>
    dsimp only
    have := hmonth hstep
    omega
  | yearly =>
    dsimp only
    have := hmonth (show 12 * ((i : ℤ) * m.rule.interval) < 12 * (j * m.rule.interval) by omega)
    omega

theorem written_le {j : ℕ} (hij : i ≤ j) : m.written i ≤ m.written j := by
  rcases Nat.eq_or_lt_of_le hij with rfl | hlt
  · exact Int.le_refl _
  · have := m.day_lt hlt
    unfold written dayMs
    omega

/-- The loop that `Shown` describes. -/
def walk (m : Meeting) : Walk :=
  ⟨m.cap, fun i => m.written i, m.rule.latest.map fun u => u.days * dayMs + u.clock,
    fun i => !m.fixed || m.rule.count.all fun c => i < c⟩

theorem walk_reaches (i : ℕ) : m.walk.Reaches w i ↔ m.Shown w i := by
  have hmono : Monotone m.walk.candidate := fun i j hij =>
    Int.cast_le.mpr (m.written_le hij)
  rw [Walk.reaches_iff hmono]
  · simp only [walk, Walk.Goes, Shown, Window.Has, Int.cast_le, Int.cast_lt, Option.mem_map,
      forall_exists_index, and_imp, forall_apply_eq_imp_iff₂, Bool.or_eq_true, Bool.not_eq_true',
      Option.all_eq_true, decide_eq_true_eq]
    cases m.fixed <;> simp [and_assoc]
  · intro i j hji h
    simp only [walk, Bool.or_eq_true, Option.all_eq_true, decide_eq_true_eq] at h ⊢
    exact h.imp_right fun h c hc => lt_of_le_of_lt hji (h c hc)

theorem start_fields (m : Meeting) :
    m.start.utc / dayMs = m.start.days ∧ monthOf m.start.days = m.start.index ∧
      m.start.utc % dayMs / 3600000 = m.start.hour ∧
      m.start.utc % 3600000 / 60000 = m.start.minute := by
  obtain ⟨-, -, ⟨hday, hlen⟩, hhour, hminute, hsecond⟩ := m.valid
  rw [Stamp.utc_eq m.valid]
  unfold Stamp.clock dayMs
  refine ⟨by omega, monthOf_eq ?_ ?_, by omega, by omega⟩
  · unfold Stamp.days
    omega
  · unfold monthLength at hlen
    unfold Stamp.days
    omega

theorem truncated_intCast (n : ℤ) : truncated (n : ℚ) = n := by
  unfold truncated
  rw [Int.floor_intCast, Int.ceil_intCast, ite_self]

theorem utc_month (index step day hour minute : ℤ) (hyear : 1583 ≤ index / 12)
    (hstep : 0 ≤ step) :
    utc (index / 12) (index % 12 + step) day hour minute 0 =
        ((((monthStart (index + step) + (day - 1)) * 24 + hour) * 60 + minute) * 60) * 1000 ∧
      utc (index / 12 + step) (index % 12) day hour minute 0 =
        ((((monthStart (index + 12 * step) + (day - 1)) * 24 + hour) * 60 + minute) * 60) *
          1000 := by
  have hfull : ¬ (0 ≤ index / 12 ∧ index / 12 ≤ 99) := by omega
  have hfull' : ¬ (0 ≤ index / 12 + step ∧ index / 12 + step ≤ 99) := by omega
  have hindex : 12 * (index / 12) + (index % 12 + step) = index + step := by omega
  have hindex' : 12 * (index / 12 + step) + index % 12 = index + 12 * step := by omega
  unfold utc
  dsimp only
  rw [if_neg hfull, if_neg hfull', hindex, hindex']
  exact ⟨by ring, by ring⟩

theorem event_walk {event : Event} {rule : String} (hstart : event.start.instant = m.start.utc)
    (hrule : event.rrule.filter (· ≠ "") = some rule) (hr : plainRule rule = some m.rule) :
    event.walk = m.walk := by
  obtain ⟨hfreq, hinterval, hlatest, hcounts⟩ := plainRule_spec hr
  obtain ⟨hdays, hindex, hhour, hminute⟩ := m.start_fields
  have hwhole : m.start.utc = m.start.days * dayMs + m.start.clock := Stamp.utc_eq m.valid
  have hcount : counts rule = fun i => m.rule.count.all fun c => i < c := by
    funext i
    rw [Bool.eq_iff_iff, hcounts, Option.all_eq_true]
    simp only [decide_eq_true_eq, Option.mem_def]
  have hyear : 1583 ≤ m.start.index / 12 := by
    obtain ⟨hyear, ⟨hmonth, -⟩, -⟩ := m.valid
    unfold Stamp.index
    omega
  have hstep (i : ℕ) : (0 : ℤ) ≤ i * m.rule.interval := Int.mul_nonneg (by omega) (by omega)
  have hmonth := fun i : ℕ => utc_month m.start.index _
    (m.start.days - monthStart m.start.index + 1) m.start.hour m.start.minute hyear (hstep i)
  have hcut (a : ℤ) (i : ℕ) :
      truncated ((a : ℚ) + i * m.rule.interval) = a + i * m.rule.interval := by
    have h := truncated_intCast (a + i * m.rule.interval)
    push_cast at h
    exact h
  unfold Event.walk
  rw [hrule]
  dsimp only
  rw [hfreq, hinterval, hstart, hdays, hindex, hhour, hminute, hlatest]
  unfold walk written day cap fixed Recurrence.days Recurrence.months
  cases hf : m.rule.freq with
  | daily =>
    dsimp only
    rw [hcount]
    refine congrArg₂ (Walk.mk 4000 · _ ·) (funext fun i => ?_) (by simp)
    rw [hwhole]
    unfold Stamp.days
    push_cast
    simp
    ring
  | weekly =>
    dsimp only
    rw [hcount]
    refine congrArg₂ (Walk.mk 4000 · _ ·) (funext fun i => ?_) (by simp)
    rw [hwhole]
    unfold Stamp.days
    push_cast
    simp
    ring
  | monthly =>
    dsimp only
    refine congrArg₂ (Walk.mk 400 · _ ·) (funext fun i => ?_) (by simp)
    rw [hcut, (hmonth i).1, Int.cast_inj]
    unfold Stamp.days Stamp.clock dayMs
    simp
    ring
  | yearly =>
    dsimp only
    refine congrArg₂ (Walk.mk 400 · _ ·) (funext fun i => ?_) (by simp)
    rw [hcut, (hmonth i).2, Int.cast_inj]
    unfold Stamp.days Stamp.clock dayMs
    simp
    ring

theorem reached_iff {event : Event} (hstart : event.start.instant = m.start.utc)
    (hrule : recurrence event.rrule = some m.rule) (t : ℚ) :
    t ∈ (occurrences event w).map Occurrence.instant ↔ ∃ i, m.Shown w i ∧ t = m.written i := by
  rw [mem_occurrences]
  unfold recurrence at hrule
  cases hr : event.rrule.filter (· ≠ "") with
  | some rule =>
    rw [hr] at hrule
    rw [event_walk hstart hr hrule]
    simp only [walk_reaches]
    rfl
  | none =>
    rw [hr] at hrule
    injection hrule with hrule
    -- a start alone is the one step of a rule that counts to one
    have hwalk : event.walk = ⟨1, fun _ => m.start.utc, none, fun _ => true⟩ := by
      unfold Event.walk
      rw [hr, ← hstart]
    have hfirst : m.written 0 = m.start.utc := by
      rw [Stamp.utc_eq m.valid]
      unfold written day fixed Recurrence.days Recurrence.months Stamp.days
      rw [← hrule]
      simp [once]
    have hshown (i : ℕ) : m.Shown w i ↔ i = 0 ∧ w.Has m.start.utc := by
      unfold Shown cap fixed
      rw [← hrule]
      constructor
      · rintro ⟨-, hw, -, hcount⟩
        have hi : i = 0 := Nat.lt_one_iff.mp (hcount rfl 1 rfl)
        rw [hi, hfirst] at hw
        exact ⟨hi, hw⟩
      · rintro ⟨rfl, hw⟩
        rw [hfirst]
        exact ⟨by decide, hw, fun u hu => (by cases hu), fun _ c hc => by cases hc; decide⟩
    rw [hwalk]
    constructor
    · rintro ⟨i, ⟨hi, hs, hgo⟩, ht⟩
      refine ⟨0, (hshown 0).mpr ⟨rfl, Int.cast_le.mp hs, ?_⟩, by rw [hfirst]; exact ht⟩
      exact Int.cast_lt.mp (hgo i (le_refl i)).1
    · rintro ⟨i, hi, ht⟩
      obtain ⟨rfl, hw⟩ := (hshown i).mp hi
      rw [hfirst] at ht
      refine ⟨0, ⟨Nat.one_pos, Int.cast_le.mpr hw.1, fun j _ => ?_⟩, ht⟩
      exact ⟨Int.cast_lt.mpr hw.2, fun u hu => (by cases hu), rfl⟩

/-! ## Written times and instants -/

theorem written_bounds (m : Meeting) (i : ℕ) :
    m.written i ≤ m.day i * dayMs + m.start.clock ∧
      m.day i * dayMs + m.start.clock < m.written i + 60000 := by
  obtain ⟨-, -, -, -, -, hsecond⟩ := m.valid
  unfold written
  split_ifs <;> omega

theorem same_step {j : ℕ} (h : m.inst i = m.written j) : i = j := by
  have hbounds := m.written_bounds j
  have hnear : |m.inst i - (m.day i * dayMs + m.start.clock)| ≤ 82800000 := by
    unfold inst Zones.read
    dsimp only
    split_ifs
    · simp
    · exact m.zones.near _ _
    · exact m.zones.near _ _
  rw [abs_le] at hnear
  unfold dayMs at hbounds hnear
  rcases Nat.lt_trichotomy i j with hij | rfl | hji
  · have := m.day_lt hij
    omega
  · rfl
  · have := m.day_lt hji
    omega

theorem Good.counted (h : m.Good i) (hfixed : m.fixed = true) :
    ∀ c ∈ m.rule.count, i < c := by
  intro c hc
  have hmonths (j : ℕ) : m.rule.months j = 0 := by
    unfold fixed at hfixed
    unfold Recurrence.months
    cases hf : m.rule.freq with
    | daily => rfl
    | weekly => rfl
    | monthly => simp [hf] at hfixed
    | yearly => simp [hf] at hfixed
  have hall : ((List.range i).filter fun j => m.Exists j) = List.range i := by
    apply List.filter_eq_self.mpr
    intro j _
    have hexists : m.Exists j := by
      unfold Exists
      rw [hmonths, Int.add_zero]
      exact m.valid.2.2.1.2
    exact decide_eq_true hexists
  have hlt := h.2.1 c hc
  rwa [hall, List.length_range] at hlt

theorem Fine.shown (h : m.Fine i) (hw : w.Has (m.inst i)) : m.Shown w i := by
  refine ⟨h.below, by rwa [← h.same], fun u hu => ?_, h.good.counted⟩
  have htimely := h.good.2.2 u hu
  split_ifs at htimely
  · rwa [← h.same]
  · exact le_trans (m.written_bounds i).1 htimely

theorem expands_iff (m : Meeting) (w : Window) :
    (∀ t : ℤ, (∃ i, m.Shown w i ∧ t = m.written i) ↔ w.Has t ∧ m.Occurs t) ↔ m.Expands w := by
  constructor
  · intro h
    refine ⟨fun i hi => ?_, fun i hgood hw hkept => ?_, fun t ht hkept hw => ?_⟩
    · obtain ⟨-, hkept, hgood | hadded⟩ := (h (m.written i)).mp ⟨i, hi, rfl⟩
      · obtain ⟨j, hj, hsame⟩ := hgood
        -- an instant that is met is that of the same step
        obtain rfl := m.same_step hsame.symm
        exact Or.inl ⟨hi.1, hj, hsame.symm, by rwa [← hsame]⟩
      · exact Or.inr ⟨hadded, hkept⟩
    · obtain ⟨j, hj, hsame⟩ := (h (m.inst i)).mpr ⟨hw, hkept, Or.inl ⟨i, hgood, rfl⟩⟩
      obtain rfl := m.same_step hsame
      exact ⟨hj.1, hgood, hsame, hkept⟩
    · obtain ⟨i, hi, hsame⟩ := (h t).mpr ⟨hw, hkept, Or.inr ht⟩
      exact ⟨i, hi, hsame.symm⟩
  · intro h t
    constructor
    · rintro ⟨i, hi, rfl⟩
      refine ⟨hi.2.1, ?_⟩
      rcases h.shown i hi with hfine | ⟨hadded, hkept⟩
      · rw [← hfine.same]
        exact ⟨hfine.kept, Or.inl ⟨i, hfine.good, rfl⟩⟩
      · exact ⟨hkept, Or.inr hadded⟩
    · rintro ⟨hw, hkept, ⟨i, hgood, rfl⟩ | hadded⟩
      · have hfine := h.due i hgood hw hkept
        exact ⟨i, hfine.shown hw, hfine.same⟩
      · obtain ⟨i, hi, hsame⟩ := h.listed t hadded hkept hw
        exact ⟨i, hi, hsame.symm⟩

end Meeting

/-! ## Events and their lines -/

theorem assign_fields (lines : List Line) :
    (lines.foldl Draft.assign {}).start =
        (lastNamed "DTSTART" lines).bind (fun l => parseDate l.value l.params) ∧
      (lines.foldl Draft.assign {}).rrule = (lastNamed "RRULE" lines).map Line.value := by
  induction lines using List.reverseRecOn with
  | nil => exact ⟨rfl, rfl⟩
  | append_singleton lines l ih =>
    obtain ⟨hstart, hrule⟩ := ih
    -- the last line of a name has the last word
    have hlast (name : String) : lastNamed name (lines ++ [l]) =
        if l.name = name then some l else lastNamed name lines := by
      unfold lastNamed
      rw [List.reverse_concat, List.find?_cons]
      split_ifs with h <;> simp [h]
    have hassign (d : Draft) :
        (d.assign l).start = (if l.name = "DTSTART" then parseDate l.value l.params else d.start) ∧
          (d.assign l).rrule = if l.name = "RRULE" then some l.value else d.rrule := by
      unfold Draft.assign
      by_cases h₁ : l.name = "SUMMARY"
      · simp [h₁]
      by_cases h₂ : l.name = "DTSTART"
      · simp [h₂]
      by_cases h₃ : l.name = "DTEND"
      · simp [h₃]
      by_cases h₄ : l.name = "RRULE"
      · simp [h₄]
      rw [if_neg h₁, if_neg h₂, if_neg h₃, if_neg h₄, if_neg h₂, if_neg h₄]
      split_ifs <;> exact ⟨rfl, rfl⟩
    rw [List.foldl_append, List.foldl_cons, List.foldl_nil, hlast, hlast, (hassign _).1,
      (hassign _).2, hstart, hrule]
    constructor <;> split_ifs <;> rfl

variable {lines : List Line} {event : Event}

theorem accepted_fields (h : accepted lines = some event) :
    (lastNamed "DTSTART" lines).bind (fun l => parseDate l.value l.params) = some event.start ∧
      event.rrule = (lastNamed "RRULE" lines).map Line.value := by
  obtain ⟨hstart, hrule⟩ := assign_fields lines
  unfold accepted at h
  dsimp only at h
  split at h
  · split_ifs at h
    injection h with h
    rw [← h, ← hstart, ← hrule]
    exact ⟨by assumption, rfl⟩
  · cases h

theorem meetingOf_fields {z : Zones} {m : Meeting}
    (h : accepted lines = some event) (hm : meetingOf z lines = some m) :
    event.start.instant = m.start.utc ∧ recurrence event.rrule = some m.rule := by
  obtain ⟨hstart, hrule⟩ := accepted_fields h
  obtain ⟨l, hl, hm⟩ := Option.bind_eq_some_iff.mp hm
  obtain ⟨r, hr, hm⟩ := Option.bind_eq_some_iff.mp hm
  obtain ⟨s, hs, hm⟩ := Option.bind_eq_some_iff.mp hm
  split_ifs at hm
  injection hm with hm
  rw [hl, Option.bind_some, parseDate, hs, Option.map_some] at hstart
  injection hstart with hstart
  rw [← hm, ← hstart, hrule, hr]
  exact ⟨rfl, rfl⟩

theorem right_iff {z : Zones} (w : Window)
    (h : accepted lines = some event) : Right z lines event w ↔ Expands z lines event w := by
  unfold Right Expands
  cases hm : meetingOf z lines with
  | none =>
    dsimp only
    constructor
    · intro hnil i hi
      have hmem := mem_occurrences.mpr ⟨i, hi, rfl⟩
      rw [hnil] at hmem
      cases hmem
    · intro hnone
      apply List.eq_nil_iff_forall_not_mem.mpr
      intro o ho
      obtain ⟨i, hi, -⟩ := mem_occurrences.mp (List.mem_map_of_mem ho)
      exact hnone i hi
  | some m =>
    obtain ⟨hstart, hrule⟩ := meetingOf_fields h hm
    dsimp only
    rw [← m.expands_iff]
    simp only [m.reached_iff hstart hrule]
    constructor
    · intro hall u
      constructor
      · rintro ⟨i, hi, rfl⟩
        obtain ⟨u, hu, hocc⟩ := (hall (m.written i)).mp ⟨i, hi, rfl⟩
        rwa [Int.cast_inj.mp hu]
      · intro hocc
        obtain ⟨i, hi, hu⟩ := (hall u).mpr ⟨u, rfl, hocc⟩
        exact ⟨i, hi, Int.cast_inj.mp hu⟩
    · intro hall t
      constructor
      · rintro ⟨i, hi, rfl⟩
        exact ⟨m.written i, rfl, (hall _).mp ⟨i, hi, rfl⟩⟩
      · rintro ⟨u, rfl, hocc⟩
        obtain ⟨i, hi, rfl⟩ := (hall u).mpr hocc
        exact ⟨i, hi, rfl⟩

theorem Meeting.expands_of_utc {m : Meeting} {c : ℕ} (hzulu : m.start.zulu = true)
    (hfixed : m.fixed = true) (hcount : m.rule.count = some c) (hcap : c ≤ 4000)
    (hlatest : m.rule.latest = none) (hdropped : m.dropped = []) (hadded : m.added = [])
    (w : Window) : m.Expands w := by
  have hsame (i : ℕ) : m.inst i = m.written i := by
    unfold Meeting.inst Zones.read Meeting.written
    dsimp only
    rw [if_pos hzulu, if_pos hfixed, Nat.cast_zero, Int.sub_zero]
  have hmonths (i : ℕ) : m.Exists i := by
    unfold Meeting.Exists Recurrence.months
    unfold Meeting.fixed at hfixed
    cases hf : m.rule.freq with
    | daily => exact (Int.add_zero _).symm ▸ m.valid.2.2.1.2
    | weekly => exact (Int.add_zero _).symm ▸ m.valid.2.2.1.2
    | monthly => simp [hf] at hfixed
    | yearly => simp [hf] at hfixed
  have hfine (i : ℕ) (hi : i < c) (hgood : m.Counted i) : m.Fine i := by
    refine ⟨?_, ⟨hmonths i, hgood, fun u hu => ?_⟩, hsame i, ?_⟩
    · unfold Meeting.cap
      rw [if_pos hfixed]
      omega
    · rw [hlatest] at hu
      cases hu
    · rw [hdropped]
      exact List.not_mem_nil
  refine ⟨fun i hi => Or.inl ?_, fun i hgood _ _ => ?_, fun t ht => ?_⟩
  · have hlt := hi.2.2.2 hfixed c hcount
    refine hfine i hlt fun d hd => ?_
    have hle := List.length_filter_le (fun j => decide (m.Exists j)) (List.range i)
    rw [List.length_range] at hle
    cases hcount.symm.trans hd
    omega
  · exact hfine i (hgood.counted hfixed c hcount) hgood.2.1
  · rw [hadded] at ht
    cases ht

/-! ## A feed -/

def feed (start rule : String) : String :=
  "BEGIN:VEVENT\r\nSUMMARY:meeting\r\nDTSTART:" ++ start ++ "\r\nRRULE:" ++ rule ++
    "\r\nEND:VEVENT\r\n"

def feedLines (start rule : String) : List Line :=
  [⟨"SUMMARY", "", "meeting"⟩, ⟨"DTSTART", "", start⟩, ⟨"RRULE", "", rule⟩]

def feedEvent (instant : ℤ) (rule : String) : Event :=
  ⟨"meeting", ⟨instant, false, false, none⟩, none, some rule⟩

def greenwich : Zones := ⟨fun _ t => t, fun _ t => by simp⟩

theorem mem_parseIcs {toUpperCase : String → String} {text : String}
    (hone : vevents toUpperCase text = [lines])
    (haccepted : accepted lines = some event) : event ∈ parseIcs toUpperCase text := by
  apply List.mem_filterMap.mpr
  refine ⟨lines, ?_, haccepted⟩
  rw [hone]
  exact List.mem_singleton_self lines

def thirdOfMarch : Window := ⟨1772496000000, 1772582400000, by decide, by decide⟩

end KvasirNet.Calendar
