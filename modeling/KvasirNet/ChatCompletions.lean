import KvasirNet.CompletionStream
import KvasirNet.GenerateUsage

/-! The chat completions of the bridge: the prompt that the messages of a request become, the reply
in one piece or as a stream, and the stream as the gateway bills it. -/
namespace KvasirNet.Chat

open Completion (Answer dataMark done payload usageOf errorOf trim)
open Generate (Generating Input Result truthy)

/-! ## Marks in a text -/

section
variable {α : Type*}

theorem markCut_nil {c : α} {mark xs ys ys' : List α} (hc : c ∉ mark) (hx : ¬c :: mark <+: xs)
    (h : c :: mark ++ ys = xs ++ (c :: mark ++ ys')) : xs = [] := by
  have hlong : xs <+: c :: mark ++ ys := ⟨_, h.symm⟩
  rcases List.prefix_or_prefix_of_prefix (List.prefix_append (c :: mark) ys) hlong with hle | ⟨zs, hzs⟩
  · exact absurd hle hx
  · cases xs with
    | nil => rfl
    | cons x xs =>
      exfalso
      obtain ⟨rfl, hmark⟩ := List.cons.inj hzs
      have hsplit : mark = xs ++ zs := hmark.symm
      subst hsplit
      cases zs with
      | nil => exact hx ⟨[], by simp⟩
      | cons z zs =>
        -- the second mark would begin inside the first
        have hrest : (z :: zs) ++ ys = x :: (xs ++ (z :: zs)) ++ ys' := by
          simpa using h
        obtain ⟨rfl, -⟩ := List.cons.inj hrest
        exact hc (List.mem_append_right _ List.mem_cons_self)

/-- A mark whose first element is nowhere else in it is found where it was put. -/
theorem markCut_inj {c : α} {mark xs xs' ys ys' : List α} (hc : c ∉ mark)
    (hx : ¬c :: mark <:+: xs) (hx' : ¬c :: mark <:+: xs')
    (h : xs ++ (c :: mark ++ ys) = xs' ++ (c :: mark ++ ys')) : xs = xs' ∧ ys = ys' := by
  induction xs generalizing xs' with
  | nil =>
    obtain rfl := markCut_nil hc (fun hp => hx' hp.isInfix) h
    exact ⟨rfl, List.append_cancel_left h⟩
  | cons x xs ih =>
    cases xs' with
    | nil => cases markCut_nil hc (fun hp => hx hp.isInfix) h.symm
    | cons x' xs' =>
      obtain ⟨rfl, hrest⟩ := List.cons.inj h
      have htail : ∀ {zs : List α}, ¬c :: mark <:+: x :: zs → ¬c :: mark <:+: zs :=
        fun hno hin => hno (hin.trans (List.suffix_cons x _).isInfix)
      obtain ⟨rfl, hys⟩ := ih (htail hx) (htail hx') hrest
      exact ⟨rfl, hys⟩

end

/-! ## The prompt -/

/-- The `content` of a message: a string, parts with a text or without one, or nothing. -/
inductive Content
  | text (s : String)
  | parts (texts : List (Option String))
  | missing
  deriving DecidableEq, Repr

structure Message where
  role : Option String
  content : Content
  deriving DecidableEq, Repr

def textOf (m : Message) : List Char :=
  match m.content with
  | .text s => s.toList
  | .parts texts => texts.flatMap fun t => (t.getD "").toList
  | .missing => []

/-- `message.role ?? 'user'`. -/
def Message.name (m : Message) : List Char := (m.role.getD "user").toList

structure Body where
  prompt : Option String
  messages : List Message
  enableThinking : Option Bool

structure Model where
  promptFormat : String
  reasoning : Bool

def imStart : List Char := "<|im_start|>".toList

def imEnd : List Char := "<|im_end|>".toList

/-- `<|im_start|>role\n…<|im_end|>\n` -/
def turn (m : Message) : List Char := imStart ++ m.name ++ '\n' :: (textOf m ++ imEnd ++ ['\n'])

/-- The turn of the assistant, which the model goes on with. -/
def opening (reasoning thinkingOpen : Bool) : List Char :=
  imStart ++ "assistant\n".toList ++
    (if !reasoning then "" else if thinkingOpen then "<think>\n"
      else "<think>\n\n</think>\n\n").toList

def rawTurn (m : Message) : List Char :=
  if m.name = "user".toList then textOf m else m.name ++ ": ".toList ++ textOf m

def promptFrom (b : Body) (format : String) (reasoning thinkingOpen : Bool) : List Char :=
  match b.prompt with
  | some p => p.toList
  | none =>
    if format = "chatml" then b.messages.flatMap turn ++ opening reasoning thinkingOpen
    else ['\n', '\n'].intercalate (b.messages.map rawTurn)

/-- Whether the prompt of a request leaves the thinking block open. -/
def thinkingOpen (model : Model) (b : Body) : Bool := model.reasoning && b.enableThinking.getD true

/-- The text does not end its own turn, nor the role its own line. -/
def Message.Plain (m : Message) : Prop := '\n' ∉ m.name ∧ ¬imEnd <:+: textOf m

theorem opening_no_end (reasoning thinkingOpen : Bool) :
    ¬imEnd <:+: opening reasoning thinkingOpen := by
  cases reasoning <;> cases thinkingOpen <;> decide +kernel

theorem opening_ne_turn {reasoning thinkingOpen : Bool} (m : Message) (rest : List Char) :
    opening reasoning thinkingOpen ≠ turn m ++ rest := by
  intro h
  apply opening_no_end reasoning thinkingOpen
  rw [h]
  exact ⟨imStart ++ m.name ++ '\n' :: textOf m, ['\n'] ++ rest, by simp [turn]⟩

theorem turn_inj {m m' : Message} (hm : m.Plain) (hm' : m'.Plain) {rest rest' : List Char}
    (h : turn m ++ rest = turn m' ++ rest') :
    m.name = m'.name ∧ textOf m = textOf m' ∧ rest = rest' := by
  simp only [turn, List.append_assoc, List.cons_append] at h
  obtain ⟨hname, h⟩ := firstCut_inj hm.1 hm'.1 (List.append_cancel_left h)
  have hmark : '<' ∉ "|im_end|>".toList := by decide
  obtain ⟨htext, hrest⟩ := markCut_inj hmark hm.2 hm'.2 h
  exact ⟨hname, htext, (List.cons.inj hrest).2⟩

theorem turns_inj {ms ms' : List Message} (hms : ∀ m ∈ ms, m.Plain) (hms' : ∀ m ∈ ms', m.Plain)
    {r t : Bool} (h : ms.flatMap turn ++ opening r t = ms'.flatMap turn ++ opening r t) :
    ms.map (fun m => (m.name, textOf m)) = ms'.map fun m => (m.name, textOf m) := by
  induction ms generalizing ms' with
  | nil =>
    cases ms' with
    | nil => rfl
    | cons m' ms' =>
      rw [List.flatMap_nil, List.nil_append, List.flatMap_cons, List.append_assoc] at h
      exact absurd h (opening_ne_turn m' _)
  | cons m ms ih =>
    cases ms' with
    | nil =>
      rw [List.flatMap_nil, List.nil_append, List.flatMap_cons, List.append_assoc] at h
      exact absurd h.symm (opening_ne_turn m _)
    | cons m' ms' =>
      rw [List.flatMap_cons, List.flatMap_cons, List.append_assoc, List.append_assoc] at h
      obtain ⟨hname, htext, hrest⟩ :=
        turn_inj (hms m List.mem_cons_self) (hms' m' List.mem_cons_self) h
      rw [List.map_cons, List.map_cons, hname, htext,
        ih (fun x hx => hms x (List.mem_cons_of_mem m hx))
          (fun x hx => hms' x (List.mem_cons_of_mem m' hx)) hrest]

/-- A prompt of the turn format tells the turns it was made of, as long as no role and no text
writes the format itself; a text that does is read as turns that nobody sent. -/
theorem prompt_tells_turns (reasoning thinkingOpen : Bool) :
    (∀ b b' : Body, b.prompt = none → b'.prompt = none →
      (∀ m ∈ b.messages, m.Plain) → (∀ m ∈ b'.messages, m.Plain) →
      promptFrom b "chatml" reasoning thinkingOpen = promptFrom b' "chatml" reasoning thinkingOpen →
      b.messages.map (fun m => (m.name, textOf m)) = b'.messages.map fun m => (m.name, textOf m)) ∧
    ∀ m m' : Message, turn ⟨m.role, .text (String.ofList (textOf m ++ imEnd ++ '\n' :: imStart ++
      m'.name ++ '\n' :: textOf m'))⟩ = turn m ++ turn m' := by
  constructor
  · intro b b' hb hb' hms hms' h
    simp only [promptFrom, hb, hb', if_true] at h
    exact turns_inj hms hms' h
  · intro m m'
    simp [turn, textOf, Message.name]

/-- The role of a turn, and a text that ends it. -/
theorem prompt_tells_turns_two :
    promptFrom ⟨none, [⟨none, .text "a"⟩], none⟩ "chatml" true false ≠
      promptFrom ⟨none, [⟨some "system", .text "a"⟩], none⟩ "chatml" true false := by
  intro h
  have hplain : ∀ role : Option String, '\n' ∉ (role.getD "user").toList →
      ∀ m ∈ [Message.mk role (.text "a")], m.Plain := by
    intro role hrole m hm
    rw [List.mem_singleton.mp hm]
    have htext : ¬imEnd <:+: "a".toList := by decide +kernel
    exact ⟨hrole, htext⟩
  have hsame := (prompt_tells_turns true false).1 ⟨none, [⟨none, .text "a"⟩], none⟩
    ⟨none, [⟨some "system", .text "a"⟩], none⟩ rfl rfl (hplain none (by decide))
    (hplain (some "system") (by decide)) h
  exact absurd hsame (by decide)

/-! ## The reply -/

def thinkEnd : List Char := "</think>".toList

/-- What stands before and behind the first end of a thinking block. -/
def cutThink : List Char → Option (List Char × List Char)
  | [] => none
  | c :: cs =>
    if thinkEnd <+: c :: cs then some ([], (c :: cs).drop thinkEnd.length)
    else (cutThink cs).map fun cut => (c :: cut.1, cut.2)

structure Answered where
  content : List Char
  reasoning : Option (List Char)
  deriving DecidableEq, Repr

def splitReasoning (text : List Char) : Answered :=
  match cutThink text with
  | none => ⟨[], some (trim text)⟩
  | some (thought, answer) => ⟨trim answer, some (trim thought)⟩

def message (opened : Bool) (text : String) : Answered :=
  if opened then splitReasoning text.toList else ⟨text.toList, none⟩

/-- What `onToken` is given, if an input is an output that is still read. -/
def spoken : Generating → Input → Option String
  | .reading _ _, .event (.output text _) => truthy text
  | _, _ => none

def deltas (id : String) (timeoutMs : ℕ) : Generating → List Input → List String
  | _, [] => []
  | s, i :: is => (spoken s i).toList ++ deltas id timeoutMs (Generate.handle id timeoutMs s i) is

def Generating.text : Generating → Option String
  | .reading result _ | .resolved result => some result.text
  | .rejected _ => none

theorem cutThink_some {text thought answer : List Char} (h : cutThink text = some (thought, answer)) :
    text = thought ++ thinkEnd ++ answer := by
  induction text generalizing thought with
  | nil => cases h
  | cons c cs ih =>
    unfold cutThink at h
    split at h
    · rename_i hmark
      obtain ⟨rfl, rfl⟩ := Prod.mk.inj (Option.some.inj h)
      obtain ⟨rest, hrest⟩ := hmark
      rw [← hrest, List.drop_left, List.nil_append]
    · obtain ⟨cut, hcut, heq⟩ := Option.map_eq_some_iff.mp h
      obtain ⟨rfl, rfl⟩ := Prod.mk.inj heq
      rw [ih hcut]
      rfl

theorem length_trim_le (cs : List Char) : (trim cs).length ≤ cs.length := by
  unfold trim Gateway.dropEnd
  rw [List.length_reverse]
  apply (List.length_dropWhile_le _ _).trans
  rw [List.length_reverse]
  exact List.length_dropWhile_le _ _

theorem split_content_iff (text : List Char) : (splitReasoning text).content = text ↔ text = [] := by
  constructor
  · intro h
    unfold splitReasoning at h
    split at h
    · exact h.symm
    · rename_i thought answer hcut
      have htext := cutThink_some hcut
      have hlength := length_trim_le answer
      have hmark : thinkEnd.length = 8 := rfl
      have hwhole := congrArg List.length htext
      rw [← h] at hwhole
      simp only [List.length_append] at hwhole
      omega
  · rintro rfl
    rfl

variable {s : Generating} {timeoutMs : ℕ}

theorem handle_text {id : String} (i : Input) {before : String}
    (hs : Generating.text s = some before) :
    Generating.text (Generate.handle id timeoutMs s i) = none ∨
      Generating.text (Generate.handle id timeoutMs s i) =
        some (before ++ (spoken s i).getD "") := by
  cases s with
  | rejected m => cases hs
  | resolved result =>
    obtain rfl := Option.some.inj hs
    right
    simp [Generate.handle, spoken, Generating.text]
  | reading result timers =>
    obtain rfl := Option.some.inj hs
    cases i with
    | timeout | abort => exact .inl rfl
    | lapse => cases timers <;> simp [Generate.handle, spoken, Generating.text]
    | event e =>
      cases e with
      | output text stop =>
        right
        cases htext : truthy text <;>
          simp [Generate.handle, spoken, Generating.text, Generate.gather, Result.output, htext]
      | observation o batches =>
        right
        simp only [Generate.handle, spoken, Generating.text, Generate.gather, Result.observe,
          Option.getD_none, String.append_empty]
        split
        · split <;> rfl
        · rfl
      | refused m => exact .inl rfl
      | span node rows | release | other =>
        right
        simp [Generate.handle, spoken, Generating.text, Generate.gather, Result.addSpan]

theorem text_of_rejected {id : String} (inputs : List Input)
    (hs : Generating.text s = none) :
    Generating.text (inputs.foldl (Generate.handle id timeoutMs) s) = none := by
  induction inputs generalizing s with
  | nil => exact hs
  | cons i is ih =>
    cases s with
    | rejected m => exact ih rfl
    | reading result timers => cases hs
    | resolved result => cases hs

/-- What has been streamed is what the result has gathered. -/
theorem deltas_text {id : String} {inputs : List Input}
    {before after : String} (hs : Generating.text s = some before)
    (h : Generating.text (inputs.foldl (Generate.handle id timeoutMs) s) = some after) :
    after = before ++ String.join (deltas id timeoutMs s inputs) := by
  induction inputs generalizing s before with
  | nil =>
    obtain rfl := Option.some.inj (hs.symm.trans h)
    exact (String.append_empty).symm
  | cons i is ih =>
    rcases handle_text i hs with hnone | hnext
    · rw [List.foldl_cons, text_of_rejected is hnone] at h
      cases h
    · rw [ih hnext h, deltas]
      cases spoken s i with
      | none => simp
      | some t => simp [String.join_cons, String.append_assoc]

/-! ## The whole handler -/

structure Bill where
  promptTokens : ℕ
  completionTokens : ℕ
  totalTokens : ℕ
  deriving DecidableEq, Repr

/-- `result.promptTokens ?? 0` -/
def bill (result : Result) : Bill :=
  ⟨result.promptTokens, result.tokenCount, result.promptTokens + result.tokenCount⟩

/-- What one `data:` line carries. -/
inductive Frame
  | role
  | delta (text : String)
  | finish (reason : String)
  | usage (bill : Bill)
  | error (message : String)
  deriving DecidableEq, Repr

def Frame.answer : Frame → Answer Bill
  | .usage u => ⟨none, some u⟩
  | .error message => ⟨some (truthy (some message)), none⟩
  | _ => ⟨none, none⟩

def finishReason (result : Result) : String := result.finishReason.getD "stop"

/-- The frames of a stream, once the request is over. -/
def frames (texts : List String) : Generating → Option (List Frame)
  | .resolved result =>
    some (.role :: (texts.map .delta ++ [.finish (finishReason result), .usage (bill result)]))
  | .rejected message => some (.role :: (texts.map .delta ++ [.error message]))
  | .reading _ _ => none

section
variable (spell : Frame → String)

def Frame.line (f : Frame) : List Char := "data: ".toList ++ (spell f).toList ++ ['\n', '\n']

/-- `data: [DONE]` after a request that did not fail. -/
def sse (fs : List Frame) (whole : Bool) : String :=
  String.ofList (fs.flatMap (Frame.line spell) ++ if whole then "data: [DONE]\n\n".toList else [])

inductive Reply
  | failed (status : ℕ) (message : String)
  | whole (message : Answered) (finishReason : String) (usage : Bill)
  | stream (text : String)
  deriving DecidableEq, Repr

/-- `chatCompletions`; `session` is what `pipelineFor` comes to. -/
def chatCompletions (model : Model) (b : Body) (stream : Bool) (session : Except String Unit)
    (id : String) (timeoutMs : ℕ) (inputs : List Input) : Option Reply :=
  if promptFrom b model.promptFormat model.reasoning (thinkingOpen model b) = [] then
    some (.failed 400 "a prompt or messages are required")
  else match session with
    | .error message => some (.failed 503 ("p4 session failed: " ++ message))
    | .ok () =>
      let texts := deltas id timeoutMs (.reading .start 0) inputs
      match stream, Generate.generate id timeoutMs inputs with
      | _, .reading _ _ => none
      | false, .resolved result =>
        some (.whole (message (thinkingOpen model b) result.text) (finishReason result) (bill result))
      | false, .rejected message => some (.failed 502 message)
      | true, .resolved result => (frames texts (.resolved result)).map fun fs => .stream (sse spell fs true)
      | true, .rejected message => (frames texts (.rejected message)).map fun fs => .stream (sse spell fs false)

end

/-! ## The stream at the gateway -/

section
variable {spell : Frame → String} {parse : String → Option (Answer Bill)} {f : Frame}

/-- `JSON.parse` of what `JSON.stringify` writes of a frame: one line, an object, which is read
back, and no beginning of it is a text of its own. -/
structure Reads (spell : Frame → String) (parse : String → Option (Answer Bill)) (f : Frame) :
    Prop where
  oneLine : '\n' ∉ (spell f).toList
  braces : ∃ inner, (spell f).toList = '\x7b' :: (inner ++ ['\x7d'])
  whole : parse (spell f) = some f.answer
  cut : ∀ p, p <+: (spell f).toList → p ≠ (spell f).toList → parse (String.ofList p) = none

theorem dropEnd_begins (q : Char → Bool) (cs : List Char) : Gateway.dropEnd q cs <+: cs := by
  have hsplit : Gateway.dropEnd q cs ++ (cs.reverse.takeWhile q).reverse = cs := by
    rw [Gateway.dropEnd, ← List.reverse_append, List.takeWhile_append_dropWhile,
      List.reverse_reverse]
  exact ⟨_, hsplit⟩

theorem dropEnd_last {q : Char → Bool} {d : Char} (hd : q d = false) (cs : List Char) :
    Gateway.dropEnd q (cs ++ [d]) = cs ++ [d] := by
  have hstay : ¬q d = true := by
    rw [hd]
    exact Bool.false_ne_true
  rw [Gateway.dropEnd, List.reverse_append, List.reverse_singleton, List.singleton_append,
    List.dropWhile_cons_of_neg hstay, List.reverse_cons, List.reverse_reverse]

theorem payload_frame (h : Reads spell parse f) :
    Completion.payload ("data: ".toList ++ (spell f).toList) = some (spell f).toList := by
  obtain ⟨inner, hinner⟩ := h.braces
  have hend : Gateway.isJsSpace '\x7d' = false := by decide
  have hline : trim ("data: ".toList ++ (spell f).toList) = "data: ".toList ++ (spell f).toList := by
    have hfront : ("data: ".toList ++ (spell f).toList).dropWhile Gateway.isJsSpace =
        "data: ".toList ++ '\x7b' :: inner ++ ['\x7d'] := by
      rw [hinner]
      simp [show Gateway.isJsSpace 'd' = false from by decide]
    rw [trim, hfront, dropEnd_last hend, hinner]
    simp
  have hback : trim (' ' :: (spell f).toList) = (spell f).toList := by
    have hfront : (' ' :: (spell f).toList).dropWhile Gateway.isJsSpace =
        '\x7b' :: inner ++ ['\x7d'] := by
      rw [hinner, List.dropWhile_cons_of_pos (by decide), List.dropWhile_cons_of_neg (by decide)]
      simp
    rw [trim, hfront, dropEnd_last hend, hinner]
    simp
  have hmark : dataMark <+: "data: ".toList ++ (spell f).toList := ⟨' ' :: (spell f).toList, rfl⟩
  rw [Completion.payload, hline, if_pos hmark]
  exact congrArg some hback

theorem usages_line {line : List Char} (hline : '\n' ∉ line) (rest : List Char) :
    ((line ++ '\n' :: rest).splitOn '\n').dropLast.filterMap (usageOf parse) =
      (usageOf parse line).toList ++ ((rest.splitOn '\n').dropLast.filterMap (usageOf parse)) := by
  rw [Completion.splitOn_line hline, List.dropLast_cons_of_ne_nil (List.splitOn_ne_nil _ _)]
  cases husage : usageOf parse line with
  | none => rw [List.filterMap_cons_none husage, Option.toList_none, List.nil_append]
  | some u => rw [List.filterMap_cons_some husage, Option.toList_some, List.singleton_append]

theorem line_frame (h : Reads spell parse f) : '\n' ∉ "data: ".toList ++ (spell f).toList := by
  intro hmem
  rcases List.mem_append.mp hmem with hmark | htext
  · exact absurd hmark (by decide)
  · exact h.oneLine htext

theorem usages_frame (h : Reads spell parse f) (rest : List Char) :
    ((f.line spell ++ rest).splitOn '\n').dropLast.filterMap (usageOf parse) =
      f.answer.usage.toList ++ (rest.splitOn '\n').dropLast.filterMap (usageOf parse) := by
  have hblank : usageOf parse [] = none := rfl
  have husage : usageOf parse ("data: ".toList ++ (spell f).toList) = f.answer.usage := by
    obtain ⟨inner, hinner⟩ := h.braces
    have hdone : (spell f).toList ≠ done := by
      rw [hinner]
      intro heq
      exact absurd (List.cons.inj heq).1 (by decide)
    rw [usageOf, payload_frame h, Option.bind_some, if_neg hdone, String.ofList_toList, h.whole,
      Option.bind_some]
  have hsplit : f.line spell ++ rest =
      "data: ".toList ++ (spell f).toList ++ '\n' :: ([] ++ '\n' :: rest) :=
    List.append_assoc _ _ _
  rw [hsplit, usages_line (line_frame h), usages_line List.not_mem_nil, husage, hblank]
  rfl

theorem usages_frames {fs : List Frame} (h : ∀ f ∈ fs, Reads spell parse f) (rest : List Char) :
    ((fs.flatMap (Frame.line spell) ++ rest).splitOn '\n').dropLast.filterMap (usageOf parse) =
      (fs.flatMap fun f => f.answer.usage.toList) ++
        (rest.splitOn '\n').dropLast.filterMap (usageOf parse) := by
  induction fs with
  | nil => rfl
  | cons f fs ih =>
    rw [List.flatMap_cons, List.append_assoc, usages_frame (h f List.mem_cons_self),
      ih fun g hg => h g (List.mem_cons_of_mem f hg), List.flatMap_cons, List.append_assoc]

/-- The payload of the beginning of a line is a beginning of what the line carries. -/
theorem payload_begins (h : Reads spell parse f) {q p : List Char}
    (hq : q <+: "data: ".toList ++ (spell f).toList) (hp : Completion.payload q = some p) :
    p <+: (spell f).toList := by
  obtain ⟨inner, hinner⟩ := h.braces
  unfold Completion.payload at hp
  split_ifs at hp with hmark
  obtain rfl := Option.some.inj hp
  -- nothing is trimmed in front of the mark
  have htrim : trim q <+: "data: ".toList ++ (spell f).toList := by
    apply (dropEnd_begins _ _).trans
    cases q with
    | nil => exact List.nil_prefix
    | cons c cs =>
      obtain ⟨rfl, -⟩ := List.cons_prefix_cons.mp hq
      rw [List.dropWhile_cons_of_neg (by decide)]
      exact hq
  have hdrop : (trim q).drop 5 <+: ' ' :: (spell f).toList := htrim.drop 5
  generalize (trim q).drop 5 = x at hdrop
  apply (dropEnd_begins _ _).trans
  cases x with
  | nil => exact List.nil_prefix
  | cons c cs =>
    obtain ⟨rfl, hcs⟩ := List.cons_prefix_cons.mp hdrop
    rw [List.dropWhile_cons_of_pos (by decide)]
    cases cs with
    | nil => exact List.nil_prefix
    | cons d ds =>
      rw [hinner] at hcs ⊢
      obtain ⟨rfl, hds⟩ := List.cons_prefix_cons.mp hcs
      rw [List.dropWhile_cons_of_neg (by decide)]
      exact hcs

theorem noError_role (h : Reads spell parse .role) (rest : List Char) :
    Completion.NoErrorFirst parse (Frame.line spell .role ++ rest) := by
  intro line hline q hq p hp
  have hsplit : Frame.line spell .role ++ rest =
      "data: ".toList ++ (spell .role).toList ++ '\n' :: ('\n' :: rest) :=
    List.append_assoc _ _ _
  have hdata : (Completion.payload ("data: ".toList ++ (spell .role).toList)).isSome = true := by
    rw [payload_frame h]
    rfl
  rw [hsplit, Completion.firstData_line (line_frame h) hdata] at hline
  obtain rfl := Option.some.inj hline
  have hbegins := payload_begins h hq hp
  unfold errorOf
  split_ifs with hdone
  · rfl
  · by_cases hwhole : p = (spell .role).toList
    · rw [hwhole, String.ofList_toList, h.whole]
      rfl
    · rw [h.cut p hbegins hwhole]
      rfl

/-- However the stream is cut, the gateway passes it on and takes the last usage in it. -/
theorem complete_sse {fs : List Frame} {whole : Bool} {chunks : List Bytes}
    (hreads : ∀ f ∈ .role :: fs, Reads spell parse f)
    (hcut : Completion.Cut (sse spell (.role :: fs) whole) chunks) :
    Completion.complete parse chunks =
      .served (sse spell (.role :: fs) whole).toList
        (fs.flatMap fun f => f.answer.usage.toList).getLast? := by
  have hrole := hreads .role List.mem_cons_self
  have htext : Completion.received (sse spell (.role :: fs) whole) =
      (sse spell (.role :: fs) whole).toList := by
    unfold Completion.received sse
    rw [String.toList_ofList]
    rfl
  have hlist : (sse spell (.role :: fs) whole).toList = (Frame.role :: fs).flatMap (Frame.line spell) ++
      if whole then "data: [DONE]\n\n".toList else [] := String.toList_ofList
  have hnone : (Completion.complete parse chunks).reported = none := by
    rw [Completion.reported_complete]
    refine Completion.sseFirstError_none parse ?_ (Completion.firstText_begins hcut)
    rw [htext, hlist, List.flatMap_cons, List.append_assoc]
    exact noError_role hrole _
  cases hend : Completion.complete parse chunks with
  | outage message =>
    rw [hend] at hnone
    cases hnone
  | served written usage =>
    obtain ⟨hwritten, husage⟩ := Completion.served_billed parse hcut hend
    have htail : ((if whole then "data: [DONE]\n\n".toList else []).splitOn '\n').dropLast.filterMap
        (usageOf parse) = [] := by
      cases whole <;> rfl
    rw [hwritten, husage, Completion.lastUsage, htext, hlist, usages_frames hreads, htail,
      List.append_nil, List.flatMap_cons]
    rfl

end

theorem usages_deltas (texts : List String) (fs : List Frame) :
    ((texts.map Frame.delta ++ fs).flatMap fun f => f.answer.usage.toList) =
      fs.flatMap fun f => f.answer.usage.toList := by
  induction texts with
  | nil => rfl
  | cons t ts ih => exact ih

/-- What the gateway bills for a stream of the bridge is what the reply in one piece would have
stated, whatever the chunks; a stream that breaks off bills nothing. -/
theorem stream_billed {spell : Frame → String} {parse : String → Option (Answer Bill)}
    (model : Model) (b : Body) (session : Except String Unit) (id : String) (timeoutMs : ℕ)
    (inputs : List Input) {text : String}
    (hreads : ∀ fs, frames (deltas id timeoutMs (.reading .start 0) inputs)
      (Generate.generate id timeoutMs inputs) = some fs → ∀ f ∈ fs, Reads spell parse f)
    (hstream : chatCompletions spell model b true session id timeoutMs inputs = some (.stream text))
    {chunks : List Bytes} (hcut : Completion.Cut text chunks) :
    Completion.complete parse chunks = .served text.toList
      (match chatCompletions spell model b false session id timeoutMs inputs with
        | some (.whole _ _ usage) => some usage
        | _ => none) := by
  unfold chatCompletions at hstream ⊢
  split_ifs at hstream ⊢ with hprompt
  · cases hstream
  cases session with
  | error message => cases hstream
  | ok _ =>
    cases hend : Generate.generate id timeoutMs inputs with
    | reading result timers =>
      rw [hend] at hstream
      cases hstream
    | resolved result =>
      rw [hend] at hstream hreads
      have hall := hreads _ rfl
      obtain rfl := Reply.stream.inj (Option.some.inj hstream)
      rw [complete_sse hall hcut, usages_deltas]
      rfl
    | rejected message =>
      rw [hend] at hstream hreads
      have hall := hreads _ rfl
      obtain rfl := Reply.stream.inj (Option.some.inj hstream)
      rw [complete_sse hall hcut, usages_deltas]
      rfl

def sampleInputs : List Input :=
  [.event (.output (some "a") none), .event (.observation none [[⟨"r", some 2⟩]]), .event .release]

def sampleChunk (choices : List Char) : List Char :=
  "\x7b\"id\":\"chatcmpl-0\",\"object\":".toList ++ "\"chat.completion.chunk\",".toList ++
    "\"created\":0,\"model\":\"m\",\"choices\":".toList ++ choices ++ ['\x7d']

def sampleChoice (delta finish : String) : List Char :=
  sampleChunk ("[\x7b\"index\":0,\"delta\":\x7b".toList ++ delta.toList ++
    "\x7d,\"finish_reason\":".toList ++ finish.toList ++ "\x7d]".toList)

def sampleText : Frame → List Char
  | .role => sampleChoice "\"role\":\"assistant\",\"content\":\"\"" "null"
  | .delta text => sampleChoice ("\"content\":\"" ++ text ++ "\"") "null"
  | .finish reason => sampleChoice "" ("\"" ++ reason ++ "\"")
  | .usage u => sampleChunk ("[],\"usage\":\x7b\"prompt_tokens\":".toList ++
      (toString u.promptTokens).toList ++ ",\"completion_tokens\":".toList ++
      (toString u.completionTokens).toList ++ ",\"total_tokens\":".toList ++
      (toString u.totalTokens).toList ++ ['\x7d'])
  | .error message => message.toList

def sampleSpell (f : Frame) : String := String.ofList (sampleText f)

def sampleFrames : List Frame := [.role, .delta "a", .finish "stop", .usage ⟨2, 1, 3⟩]

def sampleParse (text : String) : Option (Answer Bill) :=
  (sampleFrames.find? fun f => sampleText f == text.toList).map Frame.answer

theorem sample_reads {f : Frame} (hf : f ∈ sampleFrames) : Reads sampleSpell sampleParse f where
  oneLine := by
    rw [sampleSpell, String.toList_ofList]
    revert f
    decide +kernel
  braces := by
    have hshape : ∀ f ∈ sampleFrames, sampleText f =
        '\x7b' :: (((sampleText f).drop 1).dropLast ++ ['\x7d']) := by
      decide +kernel
    exact ⟨_, String.toList_ofList.trans (hshape f hf)⟩
  whole := by
    have hfind : ∀ f ∈ sampleFrames, (sampleFrames.find? fun g => sampleText g == sampleText f) =
        some f := by
      decide +kernel
    rw [sampleParse, sampleSpell, String.toList_ofList, hfind f hf]
    rfl
  cut := by
    have hapart : ∀ f ∈ sampleFrames, ∀ g ∈ sampleFrames,
        sampleText g <+: sampleText f → g = f := by
      decide +kernel
    intro p hp hne
    rw [sampleSpell, String.toList_ofList] at hp hne
    have hnone : (sampleFrames.find? fun g => sampleText g == p) = none := by
      apply List.find?_eq_none.mpr
      intro g hg heq
      have hsame : sampleText g = p := eq_of_beq heq
      obtain rfl := hapart f hf g hg (hsame ▸ hp)
      exact hne hsame.symm
    rw [sampleParse, String.toList_ofList, hnone]
    rfl

theorem stream_billed_sample :
    Completion.complete sampleParse [utf8 (sse sampleSpell sampleFrames true)] =
      .served (sse sampleSpell sampleFrames true).toList (some ⟨2, 1, 3⟩) := by
  have hcut : Completion.Cut (sse sampleSpell sampleFrames true)
      [utf8 (sse sampleSpell sampleFrames true)] := by
    refine ⟨List.append_nil _, fun hnil => ?_⟩
    have hdecoded := congrArg String.toList (ofUtf8_utf8 (sse sampleSpell sampleFrames true))
    rw [← List.mem_singleton.mp hnil, sse, String.toList_ofList] at hdecoded
    have hlines := (List.append_eq_nil_iff.mp hdecoded.symm).1
    have hrole := List.flatMap_eq_nil_iff.mp hlines .role List.mem_cons_self
    exact absurd (List.append_eq_nil_iff.mp hrole).2 (by decide)
  refine stream_billed ⟨"raw", false⟩ ⟨some "p", [], none⟩ (.ok ()) "r" 1 sampleInputs ?_ rfl hcut
  intro fs hfs f hf
  have hframes : some fs = some sampleFrames := hfs.symm
  obtain rfl := Option.some.inj hframes
  exact sample_reads hf

/-- The deltas of a stream are together the text of the result. They are the content of the reply
in one piece exactly when the prompt did not leave a thinking block open, or nothing came. -/
theorem streamed_content_iff (opened : Bool) (id : String) (timeoutMs : ℕ) (inputs : List Input)
    {result : Result} (h : Generate.generate id timeoutMs inputs = .resolved result) :
    String.join (deltas id timeoutMs (.reading .start 0) inputs) = result.text ∧
    ((message opened result.text).content =
        (String.join (deltas id timeoutMs (.reading .start 0) inputs)).toList ↔
      opened = false ∨ result.text = "") := by
  have htext : String.join (deltas id timeoutMs (.reading .start 0) inputs) = result.text := by
    have hgathered : result.text =
        "" ++ String.join (deltas id timeoutMs (.reading .start 0) inputs) :=
      deltas_text rfl (congrArg Generating.text h)
    exact (hgathered.trans String.empty_append).symm
  refine ⟨htext, ?_⟩
  rw [htext]
  cases opened with
  | false => exact iff_of_true rfl (.inl rfl)
  | true =>
    have hempty : result.text.toList = [] ↔ result.text = "" := by
      constructor
      · intro hnil
        exact String.toList_inj.mp hnil
      · rintro hnil
        rw [hnil]
        rfl
    simp only [message, if_true, split_content_iff, hempty, Bool.true_eq_false, false_or]

theorem streamed_content_thought :
    String.join (deltas "r" 1 (.reading .start 0)
        [.event (.output (some "a</think>b") none), .event .release]) = "a</think>b" ∧
      ((message true "a</think>b").content = (String.join (deltas "r" 1 (.reading .start 0)
          [.event (.output (some "a</think>b") none), .event .release])).toList ↔
        true = false ∨ "a</think>b" = "") :=
  streamed_content_iff true "r" 1 [.event (.output (some "a</think>b") none), .event .release] rfl

end KvasirNet.Chat
