import KvasirNet.GenerateUsage
import Mathlib.Data.List.TakeWhile

/-! What a run of `Pipeline.generate` has heard when it closes, and when that does not depend on the
order in which the connections bring their events. -/
namespace KvasirNet.Generate

open Interleaving (Merge joined merge_flatten merge_first)

variable {id : String} {timeoutMs : ℕ}

/-! ## What is heard -/

theorem handle_event {result : Result} {timers : ℕ} {e : Event} (hrelease : e ≠ .release)
    (hrefused : ∀ message, e ≠ .refused message) :
    handle id timeoutMs (.reading result timers) (.event e) =
      .reading (gather id result e) (if e.stops then timers + 1 else timers) := by
  cases e with
  | release => exact absurd rfl hrelease
  | refused message => exact absurd rfl (hrefused message)
  | _ => rfl

theorem handle_resolved (result : Result) (inputs : List Input) :
    inputs.foldl (handle id timeoutMs) (.resolved result) = .resolved result := by
  induction inputs with
  | nil => rfl
  | cons i rest ih => exact ih

def Answering (es : List Event) : Prop := ∀ e ∈ es, ∀ message, e ≠ .refused message

/-- Some event stops, or the release comes next. -/
def Closing (h t : List Event) : Prop := (∃ e ∈ h, e.stops = true) ∨ ∃ t', t = .release :: t'

/-- The state, by the events that have come: it is closed by a release, or at some time after a
stop. -/
def Heard (id : String) (es : List Event) : Generating → Prop
  | .reading result timers => result = gathered id es ∧ .release ∉ es ∧
      (0 < timers ↔ ∃ e ∈ es, e.stops = true)
  | .resolved result => ∃ h t, es = h ++ t ∧ .release ∉ h ∧ Closing h t ∧ result = gathered id h
  | .rejected _ => False

theorem heard_event {es : List Event} {s : Generating} (h : Heard id es s) {e : Event}
    (hrefused : ∀ message, e ≠ .refused message) :
    Heard id (es ++ [e]) (handle id timeoutMs s (.event e)) := by
  cases s with
  | rejected message => exact h.elim
  | resolved result =>
    obtain ⟨first, t, rfl, hno, hclosing, hresult⟩ := h
    refine ⟨first, t ++ [e], List.append_assoc _ _ _, hno, ?_, hresult⟩
    rcases hclosing with hstop | ⟨t', rfl⟩
    · exact Or.inl hstop
    · exact Or.inr ⟨t' ++ [e], rfl⟩
  | reading result timers =>
    obtain ⟨hresult, hno, htimers⟩ := h
    by_cases hrelease : e = .release
    · subst hrelease
      exact ⟨es, [.release], rfl, hno, Or.inr ⟨[], rfl⟩, hresult⟩
    · rw [handle_event hrelease hrefused]
      refine ⟨?_, ?_, ?_⟩
      · rw [gathered_concat, hresult]
      · rw [List.mem_append, List.mem_singleton, not_or]
        exact ⟨hno, Ne.symm hrelease⟩
      · by_cases hstops : e.stops = true
        · rw [if_pos hstops]
          exact iff_of_true (Nat.succ_pos _)
            ⟨e, List.mem_append_right _ List.mem_cons_self, hstops⟩
        · rw [if_neg hstops, htimers]
          constructor
          · rintro ⟨e', he', hstops'⟩
            exact ⟨e', List.mem_append_left _ he', hstops'⟩
          · rintro ⟨e', he', hstops'⟩
            rcases List.mem_append.mp he' with he' | he'
            · exact ⟨e', he', hstops'⟩
            · rw [List.mem_singleton.mp he'] at hstops'
              exact absurd hstops' hstops

theorem heard_lapse {es : List Event} {s : Generating} (h : Heard id es s) :
    Heard id es (handle id timeoutMs s .lapse) := by
  cases s with
  | rejected message => exact h.elim
  | resolved result => exact h
  | reading result timers =>
    cases timers with
    | zero => exact h
    | succ n =>
      obtain ⟨hresult, hno, htimers⟩ := h
      exact ⟨es, [], (List.append_nil es).symm, hno, Or.inl (htimers.mp (Nat.succ_pos n)), hresult⟩

theorem heard_generate {inputs : List Input} (hin : ∀ i ∈ inputs, i ≠ .timeout ∧ i ≠ .abort)
    (hanswering : Answering (inputs.filterMap Input.event?)) :
    Heard id (inputs.filterMap Input.event?) (generate id timeoutMs inputs) := by
  induction inputs using List.reverseRecOn with
  | nil =>
    refine ⟨rfl, List.not_mem_nil, iff_of_false (lt_irrefl 0) ?_⟩
    rintro ⟨e, he, -⟩
    exact List.not_mem_nil he
  | append_singleton inputs i ih =>
    rw [List.filterMap_append] at hanswering ⊢
    have hbefore := ih (fun i hi => hin i (List.mem_append_left _ hi))
      fun e he => hanswering e (List.mem_append_left _ he)
    have hlast : generate id timeoutMs (inputs ++ [i]) =
        handle id timeoutMs (generate id timeoutMs inputs) i := by
      unfold generate
      rw [List.foldl_append, List.foldl_cons, List.foldl_nil]
    rw [hlast]
    have hi := hin i (List.mem_append_right _ List.mem_cons_self)
    cases i with
    | event e =>
      exact heard_event hbefore (hanswering e (List.mem_append_right _ List.mem_cons_self))
    | lapse =>
      have hnone : [Input.lapse].filterMap Input.event? = [] := rfl
      rw [hnone, List.append_nil]
      exact heard_lapse hbefore
    | timeout => exact absurd rfl hi.1
    | abort => exact absurd rfl hi.2

/-! ## Runs of one's own choice -/

theorem generate_events {h : List Event} (hno : .release ∉ h) (hanswering : Answering h) :
    generate id timeoutMs (h.map .event) = .reading (gathered id h) (h.countP Event.stops) := by
  induction h using List.reverseRecOn with
  | nil => rfl
  | append_singleton h e ih =>
    rw [List.mem_append, List.mem_singleton, not_or] at hno
    have hbefore := ih hno.1 fun e he => hanswering e (List.mem_append_left _ he)
    have he := hanswering e (List.mem_append_right _ List.mem_cons_self)
    unfold generate at hbefore ⊢
    rw [List.map_append, List.foldl_append, hbefore, gathered_concat, List.countP_append,
      List.countP_singleton]
    have hstep : handle id timeoutMs (.reading (gathered id h) (h.countP Event.stops)) (.event e) =
        .reading (gather id (gathered id h) e)
          (if e.stops then h.countP Event.stops + 1 else h.countP Event.stops) :=
      handle_event (Ne.symm hno.2) he
    rw [List.map_cons, List.map_nil, List.foldl_cons, List.foldl_nil, hstep]
    by_cases hstops : e.stops = true
    · rw [if_pos hstops, if_pos hstops]
    · rw [if_neg hstops, if_neg hstops]
      rfl

theorem run_exists {streams : List (List Event)} {h t : List Event} (hmerge : Merge streams (h ++ t))
    (hno : .release ∉ h) (hanswering : Answering h) (hclosing : Closing h t) :
    ∃ inputs, Run id timeoutMs streams inputs ∧
      generate id timeoutMs inputs = .resolved (gathered id h) := by
  have hfinal : generate id timeoutMs (h.map .event ++ .lapse :: t.map .event) =
      .resolved (gathered id h) := by
    have hevents : generate id timeoutMs (h.map .event) =
        .reading (gathered id h) (h.countP Event.stops) := generate_events hno hanswering
    unfold generate at hevents ⊢
    rw [List.foldl_append, hevents, List.foldl_cons]
    by_cases hstop : 0 < h.countP Event.stops
    · obtain ⟨n, hn⟩ := Nat.exists_eq_add_of_lt hstop
      rw [hn]
      exact handle_resolved _ _
    · have hzero : h.countP Event.stops = 0 := Nat.eq_zero_of_not_pos hstop
      rcases hclosing with ⟨e, he, hstops⟩ | ⟨t', rfl⟩
      · exact absurd (List.countP_pos_iff.mpr ⟨e, he, hstops⟩) hstop
      · rw [hzero]
        exact handle_resolved _ _
  refine ⟨_, ⟨?_, ?_, ?_⟩, hfinal⟩
  · have hevents (es : List Event) : (es.map Input.event).filterMap Input.event? = es := by
      rw [List.filterMap_map]
      exact List.filterMap_some
    have hlapse : (Input.lapse :: t.map Input.event).filterMap Input.event? = t := hevents t
    rw [List.filterMap_append, hevents, hlapse]
    exact hmerge
  · intro i hi
    rcases List.mem_append.mp hi with hi | hi
    · obtain ⟨e, -, rfl⟩ := List.mem_map.mp hi
      exact ⟨Input.noConfusion, Input.noConfusion⟩
    · rcases List.mem_cons.mp hi with rfl | hi
      · exact ⟨Input.noConfusion, Input.noConfusion⟩
      · obtain ⟨e, -, rfl⟩ := List.mem_map.mp hi
        exact ⟨Input.noConfusion, Input.noConfusion⟩
  · intro result timers hreading
    rw [hfinal] at hreading
    cases hreading

/-! ## The streams and their first closing event -/

def Event.closes (e : Event) : Bool := e.stops || decide (e = .release)

/-- What a stream brings up to its first closing event. -/
def early : List Event → List Event
  | [] => []
  | e :: s => if e = .release then [] else if e.stops then [e] else e :: early s

def hearable (s : List Event) : List Event := s.takeWhile fun e => decide (e ≠ .release)

def unheard (s : List Event) : List Event := s.dropWhile fun e => decide (e ≠ .release)

/-- What it brings behind the first closing event and yet before a release. -/
def late (s : List Event) : List Event := (hearable s).drop (early s).length

theorem hearable_no_release (s : List Event) : .release ∉ hearable s := by
  intro h
  have hkept := List.mem_takeWhile_imp (p := fun e => decide (e ≠ Event.release)) h
  exact of_decide_eq_true hkept rfl

theorem prefix_hearable {p : List Event} (hno : .release ∉ p) (r : List Event) :
    p <+: hearable (p ++ r) := by
  have hall : ∀ e ∈ p, decide (e ≠ .release) = true := by
    intro e he
    apply decide_eq_true
    rintro rfl
    exact hno he
  rw [hearable, List.takeWhile_append_of_pos hall]
  exact List.prefix_append _ _

theorem early_prefix {p r : List Event} (hno : .release ∉ p) (hclosing : Closing p r) :
    early (p ++ r) <+: p := by
  induction p with
  | nil =>
    rcases hclosing with ⟨e, he, -⟩ | ⟨t', rfl⟩
    · exact absurd he List.not_mem_nil
    · exact List.prefix_refl _
  | cons e p ih =>
    rw [List.mem_cons, not_or] at hno
    rw [List.cons_append, early, if_neg (Ne.symm hno.1)]
    by_cases hstops : e.stops = true
    · rw [if_pos hstops]
      exact ⟨p, rfl⟩
    · rw [if_neg hstops, List.cons_prefix_cons]
      refine ⟨rfl, ih hno.2 ?_⟩
      rcases hclosing with ⟨e', he', hstops'⟩ | hrelease
      · rcases List.mem_cons.mp he' with rfl | he'
        · exact absurd hstops' hstops
        · exact Or.inl ⟨e', he', hstops'⟩
      · exact Or.inr hrelease

theorem closing_early {s rest t : List Event} (h : ∃ e ∈ s, e.closes = true)
    (ht : early s ++ t = s ++ rest) : Closing (early s) t := by
  induction s with
  | nil =>
    obtain ⟨e, he, -⟩ := h
    exact absurd he List.not_mem_nil
  | cons e s ih =>
    by_cases hrelease : e = .release
    · rw [early, if_pos hrelease] at ht ⊢
      rw [hrelease] at ht
      exact Or.inr ⟨s ++ rest, ht⟩
    · by_cases hstops : e.stops = true
      · rw [early, if_neg hrelease, if_pos hstops]
        exact Or.inl ⟨e, List.mem_cons_self, hstops⟩
      · rw [early, if_neg hrelease, if_neg hstops] at ht ⊢
        have hcloses : e.closes = false := by
          rw [Event.closes, decide_eq_false hrelease, Bool.or_false]
          exact Bool.eq_false_of_not_eq_true hstops
        have hrest : ∃ e ∈ s, e.closes = true := by
          obtain ⟨e', he', hcloses'⟩ := h
          rcases List.mem_cons.mp he' with rfl | he'
          · rw [hcloses] at hcloses'
            cases hcloses'
          · exact ⟨e', he', hcloses'⟩
        rcases ih hrest (List.cons.inj ht).2 with ⟨e', he', hstops'⟩ | hnext
        · exact Or.inl ⟨e', List.mem_cons_of_mem e he', hstops'⟩
        · exact Or.inr hnext

theorem hearable_append_unheard (s : List Event) : hearable s ++ unheard s = s :=
  List.takeWhile_append_dropWhile

theorem unheard_eq (s : List Event) : unheard s = [] ∨ ∃ t', unheard s = .release :: t' := by
  cases hunheard : unheard s with
  | nil => exact Or.inl rfl
  | cons e t' =>
    have hhead : decide (e ≠ .release) = false := by
      have h := List.head?_dropWhile_not (fun e => decide (e ≠ Event.release)) s
      rw [← unheard, hunheard] at h
      exact h
    exact Or.inr ⟨t', by rw [not_not.mp (of_decide_eq_false hhead)]⟩

theorem closing_hearable {s : List Event} (h : ∃ e ∈ s, e.closes = true) :
    Closing (hearable s) (unheard s) := by
  obtain ⟨e, he, hcloses⟩ := h
  rcases unheard_eq s with hnil | hrelease
  · have hs := hearable_append_unheard s
    rw [hnil, List.append_nil] at hs
    left
    refine ⟨e, hs.symm ▸ he, ?_⟩
    rcases Bool.or_eq_true_iff.mp hcloses with hstops | hrelease
    · exact hstops
    · rw [← hs] at he
      exact absurd (of_decide_eq_true hrelease ▸ he) (hearable_no_release s)
  · exact Or.inr hrelease

theorem early_append_late {s : List Event} (h : ∃ e ∈ s, e.closes = true) :
    early s ++ late s = hearable s := by
  have hprefix := early_prefix (hearable_no_release s) (closing_hearable h)
  rw [hearable_append_unheard] at hprefix
  exact List.prefix_iff_eq_append.mp hprefix

/-- What may be heard or not, when a stream closes the request. -/
def others (before after : List (List Event)) (s : List Event) : List Event :=
  late s ++ (before ++ after).flatMap hearable

/-- Nothing counts but what comes, in every stream that has a closing event, up to the first of
them: neither what is behind it nor what the other streams bring. -/
def NothingLate (id : String) (streams : List (List Event)) : Prop :=
  ∀ before s after, streams = before ++ s :: after → (∃ e ∈ s, e.closes = true) →
    ∀ e ∈ others before after s, ¬ Adds id (early s) e

section Streams
variable {streams before after : List (List Event)} {s : List Event}

theorem hearable_perm (hstreams : streams = before ++ s :: after) (h : ∃ e ∈ s, e.closes = true) :
    (streams.flatMap hearable).Perm (early s ++ others before after s) := by
  rw [others, ← List.append_assoc, early_append_late h, hstreams, List.flatMap_append,
    List.flatMap_append, List.flatMap_cons, ← List.append_assoc, ← List.append_assoc]
  exact List.Perm.append_right _ List.perm_append_comm

theorem heard_perm {h t : List Event} (hmerge : Merge streams (h ++ t)) (hno : .release ∉ h)
    (hclosing : Closing h t) :
    ∃ before s after, streams = before ++ s :: after ∧ (∃ e ∈ s, e.closes = true) ∧
      ∃ r, r ⊆ others before after s ∧ h.Perm (early s ++ r) := by
  obtain ⟨parts, rfl, hfirst, hsecond⟩ := hmerge.split
  have hpart : ∃ p ∈ parts, Closing p.1 p.2 := by
    rcases hclosing with ⟨e, he, hstops⟩ | ⟨t', rfl⟩
    · obtain ⟨s, hs, hes⟩ := hfirst.mem_iff.mp he
      obtain ⟨p, hp, rfl⟩ := List.mem_map.mp hs
      exact ⟨p, hp, Or.inl ⟨e, hes, hstops⟩⟩
    · generalize hends : parts.map Prod.snd = ends at hsecond
      cases hsecond with
      | @next front back rest _ _ _ =>
        have hmem : (Event.release :: rest) ∈ parts.map Prod.snd := by
          rw [hends]
          exact List.mem_append_right _ List.mem_cons_self
        obtain ⟨p, hp, hp2⟩ := List.mem_map.mp hmem
        exact ⟨p, hp, Or.inr ⟨rest, hp2⟩⟩
  have hnone {p : List Event × List Event} (hp : p ∈ parts) : .release ∉ p.1 := fun hrelease =>
    hno (hfirst.mem_iff.mpr ⟨p.1, List.mem_map_of_mem hp, hrelease⟩)
  obtain ⟨p, hp, hcloses⟩ := hpart
  have hnop := hnone hp
  obtain ⟨p', hp'⟩ := early_prefix hnop hcloses
  obtain ⟨front, back, rfl⟩ := List.append_of_mem hp
  have hcloser : ∃ e ∈ p.1 ++ p.2, e.closes = true := by
    rcases hcloses with ⟨e, he, hstops⟩ | ⟨t', ht'⟩
    · exact ⟨e, List.mem_append_left _ he, Bool.or_eq_true_iff.mpr (Or.inl hstops)⟩
    · refine ⟨.release, List.mem_append_right _ ?_, rfl⟩
      rw [ht']
      exact List.mem_cons_self
  refine ⟨joined front, p.1 ++ p.2, joined back, ?_, hcloser,
    p' ++ (front.map Prod.fst ++ back.map Prod.fst).flatten, ?_, ?_⟩
  · rw [joined, List.map_append, List.map_cons]
    rfl
  · intro e he
    rcases List.mem_append.mp he with he | he
    · apply List.mem_append_left
      -- the rest of this stream's part is before a release
      have hprefix : early (p.1 ++ p.2) ++ p' <+: early (p.1 ++ p.2) ++ late (p.1 ++ p.2) := by
        rw [hp', early_append_late hcloser]
        exact prefix_hearable hnop p.2
      exact ((List.prefix_append_right_inj _).mp hprefix).subset he
    · obtain ⟨s, hs, hes⟩ := List.mem_flatten.mp he
      rw [← List.map_append] at hs
      obtain ⟨q, hq, rfl⟩ := List.mem_map.mp hs
      apply List.mem_append_right
      have hqparts : q ∈ front ++ p :: back := by
        rcases List.mem_append.mp hq with hq | hq
        · exact List.mem_append_left _ hq
        · exact List.mem_append_right _ (List.mem_cons_of_mem _ hq)
      rw [joined, joined, ← List.map_append, List.mem_flatMap]
      exact ⟨q.1 ++ q.2, List.mem_map_of_mem hq, (prefix_hearable (hnone hqparts) q.2).subset hes⟩
  · refine hfirst.perm.trans ?_
    rw [List.map_append, List.map_cons, List.flatten_append, List.flatten_cons, List.flatten_append,
      ← List.append_assoc, ← List.append_assoc, ← List.append_assoc, hp']
    exact List.Perm.append_right _ List.perm_append_comm

theorem hearable_subset (s : List Event) : hearable s ⊆ s := List.takeWhile_subset _

theorem run_early (hstreams : streams = before ++ s :: after) (h : ∃ e ∈ s, e.closes = true)
    (hanswering : Answering streams.flatten) :
    ∃ inputs, Run id timeoutMs streams inputs ∧
      generate id timeoutMs inputs = .resolved (gathered id (early s)) := by
  have hparts : early s ++ (late s ++ unheard s ++ (before ++ after).flatten) =
      s ++ (before ++ after).flatten := by
    rw [← List.append_assoc, ← List.append_assoc, early_append_late h, hearable_append_unheard]
  have hmerge : Merge streams (early s ++ (late s ++ unheard s ++ (before ++ after).flatten)) := by
    rw [hparts, hstreams]
    exact merge_first before after s
  have hsub : early s ⊆ hearable s := by
    rw [← early_append_late h]
    exact List.subset_append_left _ _
  apply run_exists hmerge fun hmem => hearable_no_release s (hsub hmem)
  · intro e he
    apply hanswering e
    rw [hstreams, List.flatten_append, List.flatten_cons]
    exact List.mem_append_right _ (List.mem_append_left _ (hearable_subset s (hsub he)))
  · exact closing_early h hparts

theorem unheard_release {s : List Event} {streams : List (List Event)} (hs : s ∈ streams)
    {t' : List Event} (ht' : unheard s = .release :: t') :
    ∃ t'', (streams.map unheard).flatten = .release :: t'' := by
  induction streams with
  | nil => exact absurd hs List.not_mem_nil
  | cons s' streams ih =>
    rw [List.map_cons, List.flatten_cons]
    rcases unheard_eq s' with hnil | ⟨t, ht⟩
    · rw [hnil, List.nil_append]
      rcases List.mem_cons.mp hs with rfl | hs
      · rw [hnil] at ht'
        cases ht'
      · exact ih hs
    · rw [ht]
      exact ⟨_, rfl⟩

theorem run_hearable (hs : s ∈ streams) (h : ∃ e ∈ s, e.closes = true)
    (hanswering : Answering streams.flatten) :
    ∃ inputs, Run id timeoutMs streams inputs ∧
      generate id timeoutMs inputs = .resolved (gathered id (streams.flatMap hearable)) := by
  have hjoined : joined (streams.map fun s => (hearable s, unheard s)) = streams := by
    rw [joined, List.map_map]
    calc
      _ = streams.map fun s => s := List.map_congr_left fun s _ => hearable_append_unheard s
      _ = streams := List.map_id' streams
  have hmerge : Merge streams (streams.flatMap hearable ++ (streams.map unheard).flatten) := by
    rw [List.flatMap_def, ← hjoined]
    apply Merge.append
    · rw [List.map_map, hjoined]
      exact merge_flatten (streams.map hearable)
    · rw [List.map_map, hjoined]
      exact merge_flatten (streams.map unheard)
  apply run_exists hmerge
  · intro hmem
    obtain ⟨s', -, hmem⟩ := List.mem_flatMap.mp hmem
    exact hearable_no_release s' hmem
  · intro e he
    obtain ⟨s', hs', hmem⟩ := List.mem_flatMap.mp he
    exact hanswering e (List.mem_flatten.mpr ⟨s', hs', hearable_subset s' hmem⟩)
  · rcases closing_hearable h with ⟨e, he, hstops⟩ | ⟨t', ht'⟩
    · exact Or.inl ⟨e, List.mem_flatMap.mpr ⟨s, hs, he⟩, hstops⟩
    · exact Or.inr (unheard_release hs ht')

/-! ## The usage -/

theorem resolved_usage (hrepeat : Repeats id streams.flatten) (hnothing : NothingLate id streams)
    {inputs : List Input} {result : Result} (hanswering : Answering streams.flatten)
    (hrun : Run id timeoutMs streams inputs) (hresolved : generate id timeoutMs inputs = .resolved result) :
    result.usage = usageOf id (streams.flatMap hearable) := by
  have hanswering' : Answering (inputs.filterMap Input.event?) := fun e he =>
    hanswering e (hrun.merged.perm.mem_iff.mp he)
  have hheard : Heard id (inputs.filterMap Input.event?) (.resolved result) := by
    rw [← hresolved]
    exact heard_generate hrun.inTime hanswering'
  obtain ⟨h, t, hparts, hno, hclosing, rfl⟩ := hheard
  have hmerge := hrun.merged
  rw [hparts] at hmerge
  obtain ⟨before, s, after, hstreams, hcloser, r, hr, hperm⟩ := heard_perm hmerge hno hclosing
  have hsub : h ⊆ streams.flatten := by
    intro e he
    exact hmerge.perm.mem_iff.mp (List.mem_append_left _ he)
  have hall : streams.flatMap hearable ⊆ streams.flatten := by
    intro e he
    obtain ⟨s', hs', hmem⟩ := List.mem_flatMap.mp he
    exact List.mem_flatten.mpr ⟨s', hs', hearable_subset s' hmem⟩
  have hperm' := hearable_perm hstreams hcloser
  have hlate := hnothing before s after hstreams hcloser
  calc
    (gathered id h).usage = usageOf id h := gathered_usage (hrepeat.subset hsub)
    _ = usageOf id (early s ++ r) := usageOf_perm hperm
    _ = usageOf id (early s) := by
      apply (usageOf_append_iff _).mpr fun e he => hlate e (hr he)
      exact (hrepeat.subset hsub).subset hperm.symm.subset
    _ = usageOf id (early s ++ others before after s) := by
      apply ((usageOf_append_iff _).mpr hlate).symm
      exact (hrepeat.subset hall).subset hperm'.symm.subset
    _ = usageOf id (streams.flatMap hearable) := (usageOf_perm hperm').symm

theorem usage_none (hanswering : Answering streams.flatten)
    (hopen : ∀ s ∈ streams, ∀ e ∈ s, e.closes = false) {inputs : List Input}
    (hrun : Run id timeoutMs streams inputs) : (generate id timeoutMs inputs).usage = none := by
  have hanswering' : Answering (inputs.filterMap Input.event?) := fun e he =>
    hanswering e (hrun.merged.perm.mem_iff.mp he)
  cases hend : generate id timeoutMs inputs with
  | reading result timers => rfl
  | rejected message => rfl
  | resolved result =>
    have hheard : Heard id (inputs.filterMap Input.event?) (.resolved result) := by
      rw [← hend]
      exact heard_generate hrun.inTime hanswering'
    obtain ⟨h, t, hparts, hno, hclosing, -⟩ := hheard
    have hmerge := hrun.merged
    rw [hparts] at hmerge
    obtain ⟨before, s, after, hstreams, ⟨e, he, hcloses⟩, -⟩ := heard_perm hmerge hno hclosing
    rw [hopen s (hstreams ▸ List.mem_append_right _ List.mem_cons_self) e he] at hcloses
    cases hcloses

theorem Run.not_reading {inputs : List Input} (hrun : Run id timeoutMs streams inputs)
    (hanswering : Answering streams.flatten) {e : Event} (hs : s ∈ streams) (he : e ∈ s)
    (hcloses : e.closes = true) : ∃ result, generate id timeoutMs inputs = .resolved result := by
  have hanswering' : Answering (inputs.filterMap Input.event?) := fun e he =>
    hanswering e (hrun.merged.perm.mem_iff.mp he)
  have hmem : e ∈ inputs.filterMap Input.event? := hrun.merged.mem_iff.mpr ⟨s, hs, he⟩
  have hheard : Heard id (inputs.filterMap Input.event?) (generate id timeoutMs inputs) :=
    heard_generate hrun.inTime hanswering'
  cases hend : generate id timeoutMs inputs with
  | resolved result => exact ⟨result, rfl⟩
  | rejected message =>
    rw [hend] at hheard
    exact hheard.elim
  | reading result timers =>
    rw [hend] at hheard
    obtain ⟨-, hno, htimers⟩ := hheard
    rcases Bool.or_eq_true_iff.mp hcloses with hstops | hrelease
    · have hpos := htimers.mpr ⟨e, hmem, hstops⟩
      rw [hrun.lapsed result timers hend] at hpos
      exact absurd hpos (lt_irrefl 0)
    · exact absurd (of_decide_eq_true hrelease ▸ hmem) hno

end Streams

/-- The usage does not depend on the order of the events exactly when nothing that counts is late. -/
theorem usage_iff {streams : List (List Event)} (hanswering : Answering streams.flatten)
    (hrepeat : Repeats id streams.flatten) :
    SameUsage id timeoutMs streams ↔ NothingLate id streams := by
  constructor
  · intro hsame before s after hstreams hcloser
    have hs : s ∈ streams := hstreams ▸ List.mem_append_right _ List.mem_cons_self
    -- one run that hears as little as can be, and one that hears as much
    obtain ⟨inputs, hrun, hend⟩ := run_early hstreams hcloser hanswering
    obtain ⟨inputs', hrun', hend'⟩ := run_hearable hs hcloser hanswering
    have husage := hsame inputs inputs' hrun hrun'
    rw [hend, hend', Generating.usage, Generating.usage, Option.some_inj] at husage
    have hperm := hearable_perm hstreams hcloser
    have hall : Repeats id (streams.flatMap hearable) := by
      apply hrepeat.subset
      intro e he
      obtain ⟨s', hs', hmem⟩ := List.mem_flatMap.mp he
      exact List.mem_flatten.mpr ⟨s', hs', hearable_subset s' hmem⟩
    have hrepeat' : Repeats id (early s ++ others before after s) := hall.subset hperm.symm.subset
    have hearly : Repeats id (early s) := hrepeat'.subset (List.subset_append_left _ _)
    apply (usageOf_append_iff hrepeat').mp
    rw [← usageOf_perm hperm, ← gathered_usage hall, ← husage, gathered_usage hearly]
  · intro hnothing inputs inputs' hrun hrun'
    by_cases hcloser : ∃ s ∈ streams, ∃ e ∈ s, e.closes = true
    · obtain ⟨s, hs, e, he, hcloses⟩ := hcloser
      obtain ⟨result, hend⟩ := hrun.not_reading hanswering hs he hcloses
      obtain ⟨result', hend'⟩ := hrun'.not_reading hanswering hs he hcloses
      rw [hend, hend', Generating.usage, Generating.usage,
        resolved_usage hrepeat hnothing hanswering hrun hend,
        resolved_usage hrepeat hnothing hanswering hrun' hend']
    · have hopen : ∀ s ∈ streams, ∀ e ∈ s, e.closes = false := by
        intro s hs e he
        exact Bool.eq_false_of_not_eq_true fun hcloses => hcloser ⟨s, hs, e, he, hcloses⟩
      rw [usage_none hanswering hopen hrun, usage_none hanswering hopen hrun']

/-- A pipeline on one connection, whose observation comes twice. -/
def oneStream : List Event :=
  [.observation (some "prefill") [[⟨"req", some 3⟩]], .span (some "gate") (some 4),
    .output (some "yes") (some "eos"), .observation (some "prefill") [[⟨"req", some 3⟩]], .release]

theorem usage_one_stream : SameUsage "req" 300000 [oneStream] := by
  have hanswering : Answering [oneStream].flatten := by
    intro e he message hrefused
    subst hrefused
    revert he
    simp [oneStream]
  have hrepeat : Repeats "req" [oneStream].flatten := by
    have hnamed : [oneStream].flatten.filterMap (Event.named "req") = [("prefill", 3), ("prefill", 3)] :=
      by decide
    intro o rows rows' hrows hrows'
    rw [hnamed] at hrows hrows'
    simp only [List.mem_cons, Prod.mk.injEq, List.not_mem_nil, or_false, or_self] at hrows hrows'
    rw [hrows.2, hrows'.2]
  apply (usage_iff hanswering hrepeat).mpr
  intro before s after hstreams _ e he
  have hone : before = [] ∧ s = oneStream ∧ after = [] := by
    rcases List.append_eq_singleton_iff.mp hstreams.symm with ⟨hbefore, hrest⟩ | ⟨-, hrest⟩
    · obtain ⟨hs, hafter⟩ := List.cons.inj hrest
      exact ⟨hbefore, hs, hafter⟩
    · cases hrest
  obtain ⟨rfl, rfl, rfl⟩ := hone
  have hothers : others [] [] oneStream = [.observation (some "prefill") [[⟨"req", some 3⟩]]] := by
    decide
  rw [hothers, List.mem_singleton] at he
  subst he
  rintro ⟨-, hnew⟩
  exact hnew "prefill" 3 rfl (by decide)

/-- The head's connection with the tokens and the release, the tail's with its span. -/
def twoStreams : List (List Event) :=
  [[.output (some "yes") (some "eos"), .release], [.span (some "tail") (some 5)]]

/-- A span that comes after the release on another connection is not counted. -/
theorem release_first_loses_rows :
    ¬ (∀ id timeoutMs streams, Answering streams.flatten → Repeats id streams.flatten →
      SameUsage id timeoutMs streams) ∧
    ((generate "req" 300000 [.event (.output (some "yes") (some "eos")), .event .release,
      .event (.span (some "tail") (some 5))]).usage.map fun u => u.stageRows "tail") = some none ∧
    ((generate "req" 300000 [.event (.span (some "tail") (some 5)),
      .event (.output (some "yes") (some "eos")), .event .release]).usage.map
        fun u => u.stageRows "tail") = some (some 5) := by
  have hlost : ((generate "req" 300000 [.event (.output (some "yes") (some "eos")), .event .release,
      .event (.span (some "tail") (some 5))]).usage.map fun u => u.stageRows "tail") = some none := by
    decide
  have hcounted : ((generate "req" 300000 [.event (.span (some "tail") (some 5)),
      .event (.output (some "yes") (some "eos")), .event .release]).usage.map
        fun u => u.stageRows "tail") = some (some 5) := by
    decide
  refine ⟨fun hall => ?_, hlost, hcounted⟩
  have hanswering : Answering twoStreams.flatten := by
    intro e he message hrefused
    subst hrefused
    revert he
    simp [twoStreams]
  have hrepeat : Repeats "req" twoStreams.flatten := by
    intro o rows rows' hrows
    exact absurd hrows List.not_mem_nil
  have hmerge : Merge twoStreams [.span (some "tail") (some 5), .output (some "yes") (some "eos"),
      .release] :=
    merge_first [[Event.output (some "yes") (some "eos"), .release]] [] [.span (some "tail") (some 5)]
  have hsame := hall "req" 300000 twoStreams hanswering hrepeat
    [.event (.output (some "yes") (some "eos")), .event .release, .event (.span (some "tail") (some 5))]
    [.event (.span (some "tail") (some 5)), .event (.output (some "yes") (some "eos")), .event .release]
    ⟨merge_flatten twoStreams, by simp, fun result timers h => nomatch h⟩
    ⟨hmerge, by simp, fun result timers h => nomatch h⟩
  rw [hsame, hcounted] at hlost
  exact Option.some_ne_none 5 (Option.some.inj hlost)

end KvasirNet.Generate
