import KvasirNet.Incremental
import KvasirNet.RingLockstep

/-! `run_generation`, `run_token_eval` and `run_embedding`: the first stage feeds a ring of forward
stages and reads their replies. A generation is the greedy decoding of the whole model. -/
namespace KvasirNet.Ring

open Pipeline

variable {φ ε : Type}

/-! ### The engines -/

/-- The calls the first stage makes of its `stage_engine`, over the states `φ` of its context.
Resetting the context forgets what it held, and a boundary it gives fits an edge. -/
structure FirstEngine (φ : Type) where
  start : φ
  reset : φ → φ
  tokenize : Bytes → Option (List (Word 4))
  decodeTokenBundle : φ → Word 4 → Word 4 → Option (φ × BoundaryBundle)
  encodeTokensBundle : φ → List (Word 4) → Option (φ × BoundaryBundle)
  isEog : Word 4 → Bool
  tokenPiece : Word 4 → Option Bytes
  nEmbdOut : ℕ
  reset_eq : ∀ e, reset e = start
  passes : ∀ e token position e' output,
    decodeTokenBundle e token position = some (e', output) → Op.Passes output

/-- An engine that forgets what it held when it is reset. -/
structure KvEngine (ε : Type) extends Engine ε where
  start : ε
  reset_eq : ∀ e, reset e = start

/-- An engine with a successor: a boundary it gives fits an edge. -/
structure RelayEngine (ε : Type) extends KvEngine ε where
  passes : ∀ e input position e' output,
    decodeBoundary e input position = some (e', output) → Op.Passes output

/-- The engines of a ring: of the first stage, and of the forward stages, the last of which
answers. -/
structure Chain (φ ε : Type) where
  first : FirstEngine φ
  middle : List (RelayEngine ε)
  last : KvEngine ε

def behind (middle : List (RelayEngine ε)) (last : KvEngine ε) : List (KvEngine ε) :=
  middle.map RelayEngine.toKvEngine ++ [last]

def Chain.forward (M : Chain φ ε) : List (KvEngine ε) := behind M.middle M.last

/-- The forward stages, with the engines they run. -/
def staged (engines : List (KvEngine ε)) (stages : List (Stage ε)) : Forward ε :=
  (engines.map KvEngine.toEngine).zip stages

/-! ### The first stage -/

/-- The ring as the first stage sees it: its own context with the calls made of it, and the line
of forward stages behind `next_fd` with what waits at `prev_fd`. -/
structure FirstStage (φ ε : Type) where
  engine : φ
  calls : List Call
  line : Line (Stage ε) Frame

namespace FirstStage

variable (M : Chain φ ε) (r : FirstStage φ ε) (id : Word 8)

/-- `send_frame` and `receive_expected`: the stages take their steps until the line is at rest, and
the frame that came out first is read. -/
def exchange (f : Frame) (kind : FrameKind) : Option (FirstStage φ ε × Frame) :=
  match r.line.outcome [f] with
  | some (cells, g :: out) =>
    if g.kind = kind ∧ g.requestId = id then some ({ r with line := ⟨cells, out⟩ }, g) else none
  | _ => none

def begin : Except String (FirstStage φ ε) :=
  let r' : FirstStage φ ε :=
    { r with engine := M.first.reset r.engine, calls := r.calls ++ [.reset id] }
  match r'.exchange id ⟨.reset, id, 0, 0, []⟩ .ack with
  | none => .error "ring reset acknowledgement failed"
  | some (r'', _) => .ok r''

/-- What the caller says when a token is not decoded, not sent, or not answered. -/
structure Texts where
  decode : String
  send : String
  token : String
  ack : String

def generationTexts : Texts where
  decode := "first stage prompt decode failed"
  send := "hidden-state send failed"
  token := "token response failed"
  ack := "prefill acknowledgement failed"

def continuationTexts : Texts where
  decode := "decode hidden-state send failed"
  send := "decode hidden-state send failed"
  token := "decode token response failed"
  ack := "decode token response failed"

def evalTexts : Texts where
  decode := "token-id hidden-state send failed"
  send := "token-id hidden-state send failed"
  token := "token-id result failed"
  ack := "token-id prefill acknowledgement failed"

/-- `decode_token_bundle` and `send_boundary`: the frame that goes to the next stage. -/
def boundaryFrame (texts : Texts) (kind : FrameKind) (token : Word 4) (position : ℕ) :
    Except String (FirstStage φ ε × Frame) :=
  let position := BitVec.ofNat 32 position
  match M.first.decodeTokenBundle r.engine token position with
  | none => .error texts.decode
  | some (engine, boundary) =>
    match encodeBoundaryBundle boundary with
    | none => .error texts.send
    | some payload =>
      .ok ({ r with engine := engine, calls := r.calls ++ [.decode id position] },
        ⟨kind, id, 0, position, payload⟩)

/-- A token in a PREFILL frame, which the last stage acknowledges. -/
def prefill (texts : Texts) (token : Word 4) (position : ℕ) : Except String (FirstStage φ ε) := do
  let (r', f) ← r.boundaryFrame M id texts .prefill token position
  match r'.exchange id f .ack with
  | none => .error texts.ack
  | some (r'', _) => .ok r''

/-- A token in a DECODE frame, which the last stage answers with the next token. -/
def decode (texts : Texts) (token : Word 4) (position : ℕ) :
    Except String (FirstStage φ ε × Word 4) := do
  let (r', f) ← r.boundaryFrame M id texts .decode token position
  match r'.exchange id f .token with
  | none => .error texts.token
  | some (r'', g) =>
    if g.payload.length ≠ 4 then .error texts.token else .ok (r'', word 4 g.payload)

/-- The loop over the tokens of a prompt: all but the last only fill the caches. -/
def feedTokens (texts : Texts) : FirstStage φ ε → ℕ → List (Word 4) → Except String (FirstStage φ ε × Word 4)
  | r, _, [] => .ok (r, -1)
  | r, position, [token] => r.decode M id texts token position
  | r, position, token :: rest => do
    let r' ← r.prefill M id texts token position
    feedTokens texts r' (position + 1) rest

/-- The loop that generates; `left` is `max_tokens - generated`. -/
def generateLoop : ℕ → FirstStage φ ε → ℕ → Word 4 → Bytes → ℕ → Except String (FirstStage φ ε × Bytes × ℕ)
  | 0, r, _, _, output, generated => .ok (r, output, generated)
  | left + 1, r, position, token, output, generated =>
    if M.first.isEog token then .ok (r, output, generated)
    else match M.first.tokenPiece token with
      | none => .error "token decoding failed"
      | some piece =>
        if left = 0 then .ok (r, output ++ piece, generated + 1)
        else do
          let (r', next) ← r.decode M id continuationTexts token position
          generateLoop left r' (position + 1) next (output ++ piece) (generated + 1)

def runGeneration (prompt : Bytes) (maxTokens : ℕ) : Except String (FirstStage φ ε × Bytes × ℕ) := do
  let r' ← r.begin M id
  match M.first.tokenize prompt with
  | none => .error "prompt tokenization failed"
  | some tokens => do
    let (r'', token) ← feedTokens M id generationTexts r' 0 tokens
    generateLoop M id maxTokens r'' tokens.length token [] 0

/-- The token sampled; a negative one is a failure without a text. -/
def runTokenEval (tokens : List (Word 4)) : Except String (FirstStage φ ε × Word 4) :=
  if tokens = [] then .error "token input is empty"
  else do
    let r' ← r.begin M id
    let (r'', sampled) ← feedTokens M id evalTexts r' 0 tokens
    if 0 ≤ sampled.toInt then .ok (r'', sampled) else .error ""

/-- `GGML_TYPE_F32`. -/
def typeF32 : Word 4 := 0

/-- The terminal an embedding is read from: a pooled one, else any of its size. -/
def embeddingTerminal (nEmbdOut : ℕ) (terminals : BoundaryBundle) : Option BoundaryTensor :=
  let fits : BoundaryTensor → Bool := fun t =>
    !t.desc.isAlias && t.desc.type == typeF32 && t.desc.nbytes.toNat == nEmbdOut * 4
  let pooled : Bytes := [112, 111, 111, 108, 101, 100]
  (terminals.find? fun t => fits t && decide (pooled <:+: t.desc.name.chars)) <|> terminals.find? fits

def runEmbedding (text : Bytes) : Except String (FirstStage φ ε × Bytes) := do
  let r' ← r.begin M id
  let sent := do
    let tokens ← M.first.tokenize text
    let (engine, boundary) ← M.first.encodeTokensBundle r'.engine tokens
    let payload ← encodeBoundaryBundle boundary
    pure (engine, tokens.length, payload)
  match sent with
  | none => .error "first stage embedding encode failed"
  | some (engine, count, payload) =>
    let n := BitVec.ofNat 32 count
    let r'' : FirstStage φ ε := { r' with engine := engine, calls := r'.calls ++ [.embed id n] }
    match r''.exchange id ⟨.embed, id, n, 0, payload⟩ .terminals with
    | none => .error "embedding terminal response failed"
    | some ( r''', g) =>
      match decodeBoundaryBundle g.payload with
      | .error _ => .error "invalid embedding terminal bundle"
      | .ok terminals =>
        match embeddingTerminal M.first.nEmbdOut terminals with
        | none => .error "pooled embedding terminal not found"
        | some t => .ok ( r''', t.data)

end FirstStage

/-! ### The whole model -/

/-- A forward stage, as a machine that reads boundaries. -/
def KvEngine.machine (E : KvEngine ε) : Incremental.Machine ε BoundaryBundle where
  start := E.start
  step := fun e n boundary => E.decodeBoundary e boundary (BitVec.ofNat 32 n)

namespace Chain

variable (M : Chain φ ε)

def machines : List (Incremental.Machine ε BoundaryBundle) := M.forward.map KvEngine.machine

/-- What the engines hold once the model has read a sequence: all of it goes through the first
engine, what that gives through the next, and so on. -/
def evaluate (tokens : List (Word 4)) : Option (φ × List ε) :=
  Incremental.run (fun e n token => M.first.decodeTokenBundle e token (BitVec.ofNat 32 n))
    M.first.start M.machines tokens

/-- The token of the greatest logit after a sequence, where no engine fails on it. -/
def nextToken (tokens : List (Word 4)) : Option (Word 4) := do
  let (_, es) ← M.evaluate tokens
  let e ← es.getLast?
  let token := M.last.sampleArgmax e
  if token.toInt < 0 then none else some token

def greedy (maxTokens : ℕ) (tokens : List (Word 4)) : Option (List (Word 4)) :=
  Incremental.greedy M.nextToken M.first.isEog maxTokens tokens

end Chain

theorem Chain.nextToken_eq_some {M : Chain φ ε} {tokens : List (Word 4)} {token : Word 4} :
    M.nextToken tokens = some token ↔ ∃ e es last, M.evaluate tokens = some (e, es) ∧
      es.getLast? = some last ∧ M.last.sampleArgmax last = token ∧ 0 ≤ token.toInt := by
  unfold Chain.nextToken
  constructor
  · intro h
    obtain ⟨⟨e, es⟩, hevaluate, h⟩ := Option.bind_eq_some_iff.mp h
    obtain ⟨last, hlast, h⟩ := Option.bind_eq_some_iff.mp h
    dsimp only at h
    split_ifs at h with hneg
    obtain rfl := Option.some.inj h
    exact ⟨e, es, last, hevaluate, hlast, rfl, Int.not_lt.mp hneg⟩
  · rintro ⟨e, es, last, hevaluate, hlast, rfl, hpos⟩
    simp [hevaluate, hlast, Int.not_lt.mpr hpos]

/-! ### One frame through the stages -/

section
variable {E : Engine ε} (s : Stage ε) (id : Word 8) {position : Word 4} {payload : Bytes}
  {input output : BoundaryBundle} {e : ε}

theorem handle_reset (E : Engine ε) (isLast : Bool) : Stage.handle E isLast s ⟨.reset, id, 0, 0, []⟩ =
    some ({ s with engine := E.reset s.engine, calls := s.calls ++ [.reset id] },
      [⟨if isLast then .ack else .reset, id, 0, 0, []⟩]) := by
  simp only [Stage.handle, Stage.onReset]
  exact emit_single (Nat.zero_le _)

theorem handle_relay {kind : FrameKind} (hkind : kind = .prefill ∨ kind = .decode)
    (hread : decodeBoundaryBundle payload = .ok input)
    (hrun : E.decodeBoundary s.engine input position = some (e, output)) {next : Bytes}
    (hnext : encodeBoundaryBundle output = some next) (hmax : next.length ≤ maxFrameBytes) :
    Stage.handle E false s ⟨kind, id, 0, position, payload⟩ =
      some ({ s with engine := e, calls := s.calls ++ [.decode id position] },
        [⟨kind, id, 0, position, next⟩]) := by
  rcases hkind with rfl | rfl <;>
  · simp only [Stage.handle, Stage.onDecode, hread, hrun, hnext, Option.bind_eq_bind,
      Option.bind_some]
    exact emit_single hmax

theorem handle_prefill (hread : decodeBoundaryBundle payload = .ok input)
    (hrun : E.decodeBoundary s.engine input position = some (e, output)) :
    Stage.handle E true s ⟨.prefill, id, 0, position, payload⟩ =
      some ({ s with engine := e, calls := s.calls ++ [.decode id position] },
        [⟨.ack, id, 0, position, []⟩]) := by
  simp only [Stage.handle, Stage.onDecode, hread, hrun, Option.bind_eq_bind, Option.bind_some,
    not_true_eq_false, if_false, if_true]
  exact emit_single (Nat.zero_le _)

theorem handle_decode (hread : decodeBoundaryBundle payload = .ok input)
    (hrun : E.decodeBoundary s.engine input position = some (e, output))
    (htoken : 0 ≤ (E.sampleArgmax e).toInt) :
    Stage.handle E true s ⟨.decode, id, 0, position, payload⟩ =
      some ({ s with engine := e, calls := s.calls ++ [.decode id position] ++ [.sample id] },
        [⟨.token, id, 0, position, wordBytes (E.sampleArgmax e)⟩]) := by
  have hsample : ¬ (E.sampleArgmax e).toInt < 0 := Int.not_lt.mpr htoken
  simp only [Stage.handle, Stage.onDecode, hread, hrun, Option.bind_eq_bind, Option.bind_some,
    not_true_eq_false, if_false, reduceCtorEq, hsample]
  exact emit_single (by rw [length_wordBytes]; decide)

end

/-- The stage decoded one more boundary, and sampled if it was asked to. -/
def Decoded (id : Word 8) (position : Word 4) (s s' : Stage ε) : Prop :=
  ∃ sampled, s'.calls = s.calls ++ .decode id position :: sampled ∧
    (sampled = [] ∨ sampled = [.sample id])

/-- What comes back for a boundary: an acknowledgement, or the token the last engine samples. -/
def Replies (last : KvEngine ε) (kind : FrameKind) (id : Word 8) (position : Word 4)
    (es : List ε) (g : Frame) : Prop :=
  match kind with
  | .prefill => g = ⟨.ack, id, 0, position, []⟩
  | _ => ∃ e ∈ es.getLast?, g = ⟨.token, id, 0, position, wordBytes (last.sampleArgmax e)⟩

variable {ss : List (Stage ε)} {middle : List (RelayEngine ε)} {last : KvEngine ε}

theorem staged_isEmpty
    (h : ss.length = (behind middle last).length) : (staged (behind middle last) ss).isEmpty = false := by
  cases middle with
  | nil =>
    cases ss with
    | nil => simp [behind] at h
    | cons s ss => rfl
  | cons m middle =>
    cases ss with
    | nil => simp [behind] at h
    | cons s ss => rfl

theorem cells_relay {stages : List (Stage ε)}
    (h : stages.length = (behind middle last).length) (m : RelayEngine ε) (s : Stage ε) :
    cells (staged (behind (m :: middle) last) (s :: stages)) =
      ⟨Stage.handle m.toEngine false, s, []⟩ :: cells (staged (behind middle last) stages) := by
  rw [← staged_isEmpty h]
  rfl

variable {id : Word 8}

theorem settle_boundary {kind : FrameKind}
    (hkind : kind = .prefill ∨ kind = .decode) {n : ℕ} {payload : Bytes}
    {input : BoundaryBundle} (hread : decodeBoundaryBundle payload = .ok input)
    {es : List ε}
    (hpass : Incremental.pass ((behind middle last).map KvEngine.machine) (ss.map Stage.engine) n
      input = some es)
    (htoken : kind = .decode → ∀ e ∈ es.getLast?, 0 ≤ (last.sampleArgmax e).toInt) :
    ∃ ss' g, settle (cells (staged (behind middle last) ss))
        [⟨kind, id, 0, BitVec.ofNat 32 n, payload⟩] =
          some (cells (staged (behind middle last) ss'), [g]) ∧
      ss'.map Stage.engine = es ∧ Replies last kind id (BitVec.ofNat 32 n) es g ∧
      List.Forall₂ (Decoded id (BitVec.ofNat 32 n)) ss ss' := by
  induction middle generalizing payload input ss es with
  | nil =>
    obtain ⟨e₀, rest, e, output, es', hss, hrun, hrest, rfl⟩ := Incremental.pass_cons hpass
    obtain ⟨s, stages, rfl, rfl, hstages⟩ := List.map_eq_cons_iff.mp hss
    obtain ⟨rfl, rfl⟩ := Incremental.pass_nil hrest
    obtain rfl := List.map_eq_nil_iff.mp hstages
    rcases hkind with rfl | rfl
    · have hstep := handle_prefill s id hread hrun
      exact ⟨[_], _, settle_cons (readAll_single hstep) rfl, rfl, rfl,
        .cons ⟨[], rfl, Or.inl rfl⟩ .nil⟩
    · have hstep := handle_decode s id hread hrun (htoken rfl e rfl)
      refine ⟨[_], _, settle_cons (readAll_single hstep) rfl, rfl, ⟨e, rfl, rfl⟩, .cons ?_ .nil⟩
      exact ⟨[.sample id], List.append_assoc _ _ _, Or.inr rfl⟩
  | cons m middle ih =>
    obtain ⟨e₀, rest, e, output, es', hss, hrun, hrest, rfl⟩ := Incremental.pass_cons hpass
    obtain ⟨s, stages, rfl, rfl, rfl⟩ := List.map_eq_cons_iff.mp hss
    obtain ⟨next, hnext, hmax, hback⟩ := passes_encoded (m.passes _ _ _ _ _ hrun)
    obtain ⟨hlength, hlength'⟩ := Incremental.pass_length hrest
    have hne : es' ≠ [] := by
      rintro rfl
      simp at hlength'
    have htoken' : kind = .decode → ∀ e ∈ es'.getLast?, 0 ≤ (last.sampleArgmax e).toInt := by
      intro hdecode e' he'
      apply htoken hdecode
      rwa [List.getLast?_cons_of_ne_nil hne]
    obtain ⟨stages', g, hsettle, hengines, hreplies, hdecoded⟩ := ih hback hrest htoken'
    have hstages : stages.length = (behind middle last).length :=
      (List.length_map _).symm.trans (hlength.trans (List.length_map _))
    have hstages' : stages'.length = (behind middle last).length := by
      rw [← hdecoded.length_eq]
      exact hstages
    have hstep := handle_relay s id hkind hread hrun hnext hmax
    set s' : Stage ε :=
      { s with engine := e, calls := s.calls ++ [.decode id (BitVec.ofNat 32 n)] }
    refine ⟨s' :: stages', g, ?_, congrArg (e :: ·) hengines, ?_,
      .cons ⟨[], rfl, Or.inl rfl⟩ hdecoded⟩
    · rw [cells_relay hstages, cells_relay hstages']
      exact settle_cons (readAll_single hstep) hsettle
    · rcases hkind with rfl | rfl
      · exact hreplies
      · obtain ⟨e', he', hg⟩ := hreplies
        exact ⟨e', by rwa [List.getLast?_cons_of_ne_nil hne], hg⟩

theorem settle_reset (middle : List (RelayEngine ε)) (last : KvEngine ε) (id : Word 8)
    (hss : ss.length = (behind middle last).length) :
    ∃ ss', settle (cells (staged (behind middle last) ss)) [⟨.reset, id, 0, 0, []⟩] =
        some (cells (staged (behind middle last) ss'), [⟨.ack, id, 0, 0, []⟩]) ∧
      ss'.map Stage.engine = (behind middle last).map KvEngine.start ∧
      List.Forall₂ (fun s s' => s'.calls = s.calls ++ [Call.reset id]) ss ss' := by
  induction middle generalizing ss with
  | nil =>
    obtain ⟨s, rfl⟩ := List.length_eq_one_iff.mp hss
    have hstep := handle_reset s id last.toEngine true
    refine ⟨[_], settle_cons (readAll_single hstep) rfl, ?_, .cons rfl .nil⟩
    exact congrArg (fun e => [e]) (last.reset_eq s.engine)
  | cons m middle ih =>
    cases ss with
    | nil => simp [behind] at hss
    | cons s stages =>
      have hstages : stages.length = (behind middle last).length := by
        simpa [behind] using hss
      obtain ⟨stages', hsettle, hengines, hcalls⟩ := ih hstages
      have hstages' : stages'.length = (behind middle last).length := by
        rw [← hcalls.length_eq, hstages]
      have hstep := handle_reset s id m.toEngine false
      set s' : Stage ε :=
        { s with engine := m.reset s.engine, calls := s.calls ++ [.reset id] }
      refine ⟨s' :: stages', ?_, ?_, .cons rfl hcalls⟩
      · rw [cells_relay hstages, cells_relay hstages']
        exact settle_cons (readAll_single hstep) hsettle
      · show m.reset s.engine :: _ = m.start :: _
        rw [m.reset_eq, hengines]
        rfl

/-! ### A request -/

def Call.position : Call → Option (Word 4)
  | .decode _ position => some position
  | _ => none

/-- A request reset the stage, and then decoded the positions from 0 on, each once. -/
def Saw (id : Word 8) (n : ℕ) (before after : List Call) : Prop :=
  ∃ decoded, after = before ++ .reset id :: decoded ∧
    decoded.filterMap Call.position = (List.range n).map (BitVec.ofNat 32) ∧
    ∀ c ∈ decoded, c = .sample id ∨ ∃ position, c = .decode id position

theorem Saw.next {n : ℕ} {before after sampled : List Call} (h : Saw id n before after)
    (hsampled : sampled = [] ∨ sampled = [.sample id]) :
    Saw id (n + 1) before (after ++ .decode id (BitVec.ofNat 32 n) :: sampled) := by
  obtain ⟨decoded, rfl, hpositions, hcalls⟩ := h
  refine ⟨decoded ++ .decode id (BitVec.ofNat 32 n) :: sampled, by simp, ?_, ?_⟩
  · have hnone : sampled.filterMap Call.position = [] := by
      rcases hsampled with rfl | rfl
      · rfl
      · rfl
    rw [List.filterMap_append, hpositions, List.range_succ, List.map_append]
    show _ ++ BitVec.ofNat 32 n :: sampled.filterMap Call.position = _
    rw [hnone]
    rfl
  · intro c hc
    rcases List.mem_append.mp hc with hc | hc
    · exact hcalls c hc
    · rcases List.mem_cons.mp hc with rfl | hc
      · exact Or.inr ⟨_, rfl⟩
      · rcases hsampled with rfl | rfl
        · cases hc
        · exact Or.inl (List.mem_singleton.mp hc)

theorem Saw.once {n : ℕ} {before after : List Call} (h : Saw id n before after)
    (hn : n ≤ 2 ^ 32) : ∃ decoded, after = before ++ .reset id :: decoded ∧
      (decoded.filterMap Call.position).Nodup := by
  obtain ⟨decoded, hafter, hpositions, -⟩ := h
  refine ⟨decoded, hafter, ?_⟩
  rw [hpositions]
  apply List.Nodup.map_on
  · intro i hi j hj heq
    have hi : i < 2 ^ 32 := lt_of_lt_of_le (List.mem_range.mp hi) hn
    have hj : j < 2 ^ 32 := lt_of_lt_of_le (List.mem_range.mp hj) hn
    have hnat := congrArg BitVec.toNat heq
    rwa [BitVec.toNat_ofNat, BitVec.toNat_ofNat, Nat.mod_eq_of_lt hi, Nat.mod_eq_of_lt hj] at hnat
  · exact List.nodup_range

theorem saw_decoded {n : ℕ} {before : List (List Call)} {ss' : List (Stage ε)}
    (hsaw : List.Forall₂ (Saw id n) before (ss.map Stage.calls))
    (hdecoded : List.Forall₂ (Decoded id (BitVec.ofNat 32 n)) ss ss') :
    List.Forall₂ (Saw id (n + 1)) before (ss'.map Stage.calls) := by
  induction hdecoded generalizing before with
  | nil =>
    cases hsaw
    exact .nil
  | cons hs _ ih =>
    cases hsaw with
    | cons hown hothers =>
      obtain ⟨sampled, hcalls, hsampled⟩ := hs
      refine .cons ?_ (ih hothers)
      rw [hcalls]
      exact hown.next hsampled

namespace FirstStage

/-- The calls made of the engines of all stages, the first one's first. -/
def logs (r : FirstStage φ ε) : List (List Call) := r.calls :: r.line.cells.map fun c => c.state.calls

/-- Nothing is under way: no frame waits in front of a stage or behind the last. -/
def Ready (M : Chain φ ε) (r : FirstStage φ ε) (ss : List (Stage ε)) : Prop :=
  ss.length = M.forward.length ∧ r.line = ⟨cells (staged M.forward ss), []⟩

/-- The request has read some tokens, and every engine holds what it makes of them. -/
structure Holds (M : Chain φ ε) (id : Word 8) (before : List (List Call)) (tokens : List (Word 4))
    (r : FirstStage φ ε) (ss : List (Stage ε)) : Prop where
  ready : r.Ready M ss
  evaluated : M.evaluate tokens = some (r.engine, ss.map Stage.engine)
  saw : List.Forall₂ (Saw id tokens.length) before (r.calls :: ss.map Stage.calls)

variable {M : Chain φ ε} {r : FirstStage φ ε} {id : Word 8} {ss : List (Stage ε)}

theorem logs_of_ready (h : r.Ready M ss) : r.logs = r.calls :: ss.map Stage.calls := by
  have hstates : ∀ (engines : List (KvEngine ε)) (stages : List (Stage ε)),
      stages.length = engines.length →
        (cells (staged engines stages)).map (fun c => c.state.calls) = stages.map Stage.calls := by
    intro engines
    induction engines with
    | nil =>
      intro stages hlength
      obtain rfl := List.length_eq_zero_iff.mp hlength
      rfl
    | cons E engines ih =>
      intro stages hlength
      cases stages with
      | nil => cases hlength
      | cons s stages => exact congrArg (s.calls :: ·) (ih stages (Nat.succ.inj hlength))
  rw [logs, h.2, hstates M.forward ss h.1]

theorem exchange_eq (h : r.Ready M ss) {f g : Frame} {ss' : List (Stage ε)}
    (hsettle : settle (cells (staged M.forward ss)) [f] =
      some (cells (staged M.forward ss'), [g])) (hid : g.requestId = id) :
    r.exchange id f g.kind = some ({ r with line := ⟨cells (staged M.forward ss'), []⟩ }, g) := by
  have hout : r.line.outcome [f] = some (cells (staged M.forward ss'), [g]) := by
    rw [h.2, Line.outcome, hsettle]
    rfl
  simp only [exchange, hout, hid, and_self, if_true]

/-- Whatever order the stages take their steps in, once nothing waits in front of them what came
out is what the exchange reads. -/
theorem exchange_any_order {f : Frame} {ks : List ℕ} {l : Line (Stage ε) Frame}
    (hrun : runs (fun (l : Line (Stage ε) Frame) k => Line.stepAt l.cells l.out k)
      (r.line.push [f]) ks = some l) (hquiet : Line.Quiet l.cells) :
    r.line.outcome [f] = some (l.cells, l.out) := by
  have hkept : l.outcome [] = r.line.outcome [f] := by
    apply runs_invariant (I := fun l => l.outcome [] = r.line.outcome [f]) _
      (along_of_forall (P := fun _ _ => True) (fun _ _ => trivial) _ _) hrun
    · rw [Line.outcome_push, List.append_nil]
    · intro l k l' _ hl hstep
      rw [← hl]
      exact (Line.stepAt_outcome hstep []).1
  rw [← hkept, Line.outcome, Line.settle_quiet hquiet, Option.map_some, List.append_nil]

theorem holds_begin (h : r.Ready M ss) (id : Word 8) : ∃ r' ss', r.begin M id = .ok r' ∧
    r'.Holds M id (r.calls :: ss.map Stage.calls) [] ss' := by
  obtain ⟨ss', hsettle, hengines, hcalls⟩ := settle_reset M.middle M.last id h.1
  set r₀ : FirstStage φ ε :=
    { r with engine := M.first.reset r.engine, calls := r.calls ++ [.reset id] } with hr₀
  have hready : r₀.Ready M ss := h
  have hexchange := exchange_eq hready hsettle
    (show Frame.requestId ⟨.ack, id, 0, 0, []⟩ = id from rfl)
  have hsaw : ∀ before after : List Call, after = before ++ [.reset id] → Saw id 0 before after := by
    intro before after hafter
    exact ⟨[], hafter, rfl, fun c hc => absurd hc List.not_mem_nil⟩
  have hlength : ss'.length = M.forward.length := by
    rw [← hcalls.length_eq]
    exact h.1
  refine ⟨{ r₀ with line := ⟨cells (staged M.forward ss'), []⟩ }, ss', ?_, ⟨hlength, rfl⟩, ?_, ?_⟩
  · simp only [begin, ← hr₀, hexchange]
  · rw [Chain.evaluate, Incremental.run_nil, hengines, hr₀, M.first.reset_eq, Chain.machines,
      List.map_map]
    rfl
  · apply List.Forall₂.cons
    · exact hsaw r.calls _ rfl
    · rw [List.forall₂_map_left_iff, List.forall₂_map_right_iff]
      exact hcalls.imp fun s s' hs => hsaw s.calls s'.calls hs

variable {before : List (List Call)} {tokens : List (Word 4)} {token : Word 4}

theorem holds_boundary
    (h : r.Holds M id before tokens ss) (texts : Texts) {kind : FrameKind}
    (hkind : kind = .prefill ∨ kind = .decode) {e : φ} {es : List ε}
    (hevaluate : M.evaluate (tokens ++ [token]) = some (e, es))
    (htoken : kind = .decode → ∀ e' ∈ es.getLast?, 0 ≤ (M.last.sampleArgmax e').toInt) :
    ∃ r' f r'' g ss', r.boundaryFrame M id texts kind token tokens.length = .ok (r', f) ∧
      (∀ reply, g.kind = reply → r'.exchange id f reply = some (r'', g)) ∧
      Replies M.last kind id (BitVec.ofNat 32 tokens.length) es g ∧
      r''.Holds M id before (tokens ++ [token]) ss' := by
  have hsome : (M.evaluate (tokens ++ [token])).isSome = true := by rw [hevaluate]; rfl
  obtain ⟨e', boundary, es', hfirst, hpass, hrun⟩ :=
    Incremental.run_concat_some h.evaluated hsome
  obtain ⟨rfl, rfl⟩ := Prod.mk.inj (Option.some.inj (hevaluate.symm.trans hrun))
  obtain ⟨payload, hencode, -, hread⟩ := passes_encoded (M.first.passes _ _ _ _ _ hfirst)
  obtain ⟨ss', g, hsettle, hengines, hreplies, hdecoded⟩ :=
    settle_boundary hkind hread hpass htoken
  set r₀ : FirstStage φ ε :=
    { r with engine := e, calls := r.calls ++ [.decode id (BitVec.ofNat 32 tokens.length)] } with hr₀
  have hready : r₀.Ready M ss := h.ready
  have hid : g.requestId = id := by
    rcases hkind with rfl | rfl
    · rw [hreplies]
    · obtain ⟨_, _, rfl⟩ := hreplies
      rfl
  have hlength : ss'.length = M.forward.length := by
    rw [← hdecoded.length_eq]
    exact h.ready.1
  refine ⟨r₀, ⟨kind, id, 0, BitVec.ofNat 32 tokens.length, payload⟩,
    { r₀ with line := ⟨cells (staged M.forward ss'), []⟩ }, g, ss', ?_, ?_, hreplies,
    ⟨hlength, rfl⟩, ?_, ?_⟩
  · simp only [boundaryFrame, hfirst, hencode, ← hr₀]
  · rintro _ rfl
    exact exchange_eq hready hsettle hid
  · rw [hevaluate, hengines]
  · have hcount : (tokens ++ [token]).length = tokens.length + 1 := List.length_append
    rw [hcount]
    cases h.saw with
    | cons hown hothers =>
      apply List.Forall₂.cons
      · exact hown.next (Or.inl rfl)
      · exact saw_decoded hothers hdecoded

theorem holds_prefill
    (h : r.Holds M id before tokens ss) (texts : Texts)
    (hsome : (M.evaluate (tokens ++ [token])).isSome = true) :
    ∃ r' ss', r.prefill M id texts token tokens.length = .ok r' ∧
      r'.Holds M id before (tokens ++ [token]) ss' := by
  obtain ⟨⟨e, es⟩, hevaluate⟩ := Option.isSome_iff_exists.mp hsome
  obtain ⟨r', f, r'', g, ss', hframe, hexchange, hreply, hholds⟩ :=
    holds_boundary h texts (Or.inl rfl) hevaluate fun hdecode => by cases hdecode
  have hack : g.kind = .ack := by rw [hreply]
  refine ⟨r'', ss', ?_, hholds⟩
  simp only [prefill, hframe, hexchange .ack hack, bind, Except.bind]

theorem holds_decode
    (h : r.Holds M id before tokens ss) (texts : Texts) {next : Word 4}
    (hnext : M.nextToken (tokens ++ [token]) = some next) :
    ∃ r' ss', r.decode M id texts token tokens.length = .ok (r', next) ∧
      r'.Holds M id before (tokens ++ [token]) ss' := by
  obtain ⟨e, es, last, hevaluate, hlast, rfl, hpos⟩ := Chain.nextToken_eq_some.mp hnext
  have htoken : ∀ e' ∈ es.getLast?, 0 ≤ (M.last.sampleArgmax e').toInt := by
    intro e' he'
    rw [hlast] at he'
    obtain rfl := Option.some.inj he'
    exact hpos
  obtain ⟨r', f, r'', g, ss', hframe, hexchange, ⟨e', he', rfl⟩, hholds⟩ :=
    holds_boundary h texts (Or.inr rfl) hevaluate fun _ => htoken
  obtain rfl : last = e' := Option.some.inj (hlast.symm.trans he')
  refine ⟨r'', ss', ?_, hholds⟩
  have hread : word 4 (wordBytes (M.last.sampleArgmax last)) = M.last.sampleArgmax last := by
    simpa using word_append (M.last.sampleArgmax last) []
  simp only [decode, hframe, hexchange .token rfl, bind, Except.bind,
    length_wordBytes, ne_eq, not_true_eq_false, if_false, hread]

theorem holds_feedTokens {fed rest : List (Word 4)}
    (h : r.Holds M id before fed ss) (texts : Texts) (hne : rest ≠ []) {next : Word 4}
    (hnext : M.nextToken (fed ++ rest) = some next) :
    ∃ r' ss', feedTokens M id texts r fed.length rest = .ok (r', next) ∧
      r'.Holds M id before (fed ++ rest) ss' := by
  induction rest generalizing r ss fed with
  | nil => exact absurd rfl hne
  | cons token rest ih =>
    cases rest with
    | nil => exact holds_decode h texts hnext
    | cons token' rest =>
      have hsplit : fed ++ token :: token' :: rest = (fed ++ [token]) ++ token' :: rest := by simp
      rw [hsplit] at hnext ⊢
      -- what the whole prompt gets through, the tokens so far get through
      have hsome : (M.evaluate (fed ++ [token])).isSome = true := by
        obtain ⟨e, es, -, hevaluate, -⟩ := Chain.nextToken_eq_some.mp hnext
        exact Incremental.run_prefix (fed ++ [token]) (Option.isSome_iff_exists.mpr ⟨_, hevaluate⟩)
      obtain ⟨r', ss', hprefill, hholds⟩ := holds_prefill h texts hsome
      obtain ⟨r'', ss'', hfeed, hlast⟩ := ih hholds (List.cons_ne_nil token' rest) hnext
      refine ⟨r'', ss'', ?_, hlast⟩
      rw [List.length_append, List.length_singleton] at hfeed
      simp only [feedTokens, hprefill, bind, Except.bind, hfeed]

/-- The loop that generates emits what greedy decoding emits, and feeds all of it but a last token
that the limit cuts off. -/
theorem holds_generateLoop
    (h : r.Holds M id before tokens ss)
    (htoken : M.nextToken tokens = some token) {left : ℕ} {emitted : List (Word 4)}
    (hgreedy : M.greedy left tokens = some emitted) {pieces : List Bytes}
    (hpieces : emitted.mapM M.first.tokenPiece = some pieces) (output : Bytes) (generated : ℕ) :
    ∃ r' ss', generateLoop M id left r tokens.length token output generated =
        .ok (r', output ++ pieces.flatten, generated + emitted.length) ∧
      r'.Holds M id before (tokens ++ emitted.take (left - 1)) ss' := by
  induction left generalizing r ss tokens token emitted pieces output generated with
  | zero =>
    obtain rfl := Option.some.inj hgreedy
    obtain rfl := Option.some.inj hpieces
    exact ⟨r, ss, by simp [generateLoop], by simpa using h⟩
  | succ left ih =>
    rw [Chain.greedy, Incremental.greedy, htoken] at hgreedy
    by_cases hstop : M.first.isEog token = true
    · simp only [Option.bind_eq_bind, Option.bind_some, hstop, if_true] at hgreedy
      obtain rfl := Option.some.inj hgreedy
      obtain rfl := Option.some.inj hpieces
      exact ⟨r, ss, by simp [generateLoop, hstop], by simpa using h⟩
    · simp only [Option.bind_eq_bind, Option.bind_some, if_neg hstop] at hgreedy
      obtain ⟨rest, hrest, rfl⟩ := Option.map_eq_some_iff.mp hgreedy
      simp only [List.mapM_cons, Option.bind_eq_bind, Option.bind_eq_some_iff] at hpieces
      obtain ⟨piece, hpiece, others, hothers, heq⟩ := hpieces
      obtain rfl := Option.some.inj heq
      cases left with
      | zero =>
        obtain rfl := Option.some.inj hrest
        obtain rfl := Option.some.inj hothers
        refine ⟨r, ss, ?_, by simpa using h⟩
        simp [generateLoop, hstop, hpiece]
      | succ left =>
        obtain ⟨next, hnext⟩ : ∃ next, M.nextToken (tokens ++ [token]) = some next := by
          rw [Incremental.greedy] at hrest
          obtain ⟨next, hnext, -⟩ := Option.bind_eq_some_iff.mp hrest
          exact ⟨next, hnext⟩
        obtain ⟨r', ss', hdecode, hholds⟩ := holds_decode h continuationTexts hnext
        obtain ⟨r'', ss'', hloop, hlast⟩ :=
          ih hholds hnext hrest hothers (output ++ piece) (generated + 1)
        refine ⟨r'', ss'', ?_, ?_⟩
        · rw [List.length_append, List.length_singleton] at hloop
          rw [generateLoop, if_neg hstop, hpiece]
          have hcount : generated + 1 + rest.length = generated + (rest.length + 1) := by omega
          simp only [Nat.succ_ne_zero, if_false, hdecode, bind, Except.bind, hloop,
            List.flatten_cons, List.append_assoc, List.length_cons, hcount]
        · simpa using hlast

end FirstStage

/-! ### Requests one after the other -/

/-- The kinds of frame for which a stage sends one frame on. -/
def Relayed (kind : FrameKind) : Prop :=
  kind = .reset ∨ kind = .prefill ∨ kind = .decode ∨ kind = .embed

theorem emit_eq {s s' : Stage ε} {frames sent : List Frame} (h : emit s frames = some (s', sent)) :
    sent = frames := by
  unfold emit at h
  split_ifs at h
  exact (Prod.mk.inj (Option.some.inj h)).2.symm

theorem handle_relayed {E : Engine ε} {isLast : Bool} {s s' : Stage ε} {f : Frame}
    {sent : List Frame} (hkind : Relayed f.kind)
    (h : Stage.handle E isLast s f = some (s', sent)) :
    ∃ g, sent = [g] ∧ (isLast = false → Relayed g.kind) := by
  have hdecode (h : Stage.onDecode E isLast s f = some (s', sent)) :
      ∃ g, sent = [g] ∧ (isLast = false → Relayed g.kind) := by
    unfold Stage.onDecode at h
    split at h
    · cases h
    · obtain ⟨⟨e, output⟩, -, h⟩ := Option.bind_eq_some_iff.mp h
      dsimp only at h
      split_ifs at h with hlast hprefill hneg
      · exact ⟨_, emit_eq h, fun hfalse => absurd hfalse (by simpa using hlast)⟩
      · exact ⟨_, emit_eq h, fun hfalse => absurd hfalse (by simpa using hlast)⟩
      · obtain ⟨payload, -, h⟩ := Option.bind_eq_some_iff.mp h
        exact ⟨_, emit_eq h, fun _ => hkind⟩
  rcases hkind with hkind | hkind | hkind | hkind
  · simp only [Stage.handle, hkind] at h
    exact ⟨_, emit_eq h, fun hfalse => Or.inl (by simp [hfalse])⟩
  · simp only [Stage.handle, hkind] at h
    exact hdecode h
  · simp only [Stage.handle, hkind] at h
    exact hdecode h
  · simp only [Stage.handle, hkind, Stage.onEmbed] at h
    split at h
    · cases h
    · obtain ⟨⟨e, output⟩, -, h⟩ := Option.bind_eq_some_iff.mp h
      dsimp only at h
      split_ifs at h with hlast
      · obtain ⟨terminals, -, h⟩ := Option.bind_eq_some_iff.mp h
        obtain ⟨payload, -, h⟩ := Option.bind_eq_some_iff.mp h
        exact ⟨_, emit_eq h, fun hfalse => absurd hlast (by simp [hfalse])⟩
      · obtain ⟨payload, -, h⟩ := Option.bind_eq_some_iff.mp h
        exact ⟨_, emit_eq h, fun _ => Or.inr (Or.inr (Or.inr rfl))⟩

theorem readAll_one {σ α : Type} (step : σ → α → Option (σ × List α)) (s : σ) (x : α) :
    readAll step s [x] = step s x := by
  simp only [readAll, Option.bind_eq_bind]
  cases step s x with
  | none => rfl
  | some q => simp

theorem settle_relayed {engines : List (KvEngine ε)} {f : Frame}
    {cells' : List (Cell (Stage ε) Frame)} {out : List Frame} (hss : ss.length = engines.length)
    (hkind : Relayed f.kind) (h : settle (cells (staged engines ss)) [f] = some (cells', out)) :
    ∃ ss' g, ss'.length = engines.length ∧ cells' = cells (staged engines ss') ∧ out = [g] := by
  induction engines generalizing ss f cells' out with
  | nil =>
    obtain rfl := List.length_eq_zero_iff.mp hss
    obtain ⟨rfl, rfl⟩ := Prod.mk.inj (Option.some.inj h)
    exact ⟨[], f, rfl, rfl, rfl⟩
  | cons E engines ih =>
    cases ss with
    | nil => cases hss
    | cons s stages =>
      have hstages : stages.length = engines.length := Nat.succ.inj hss
      have hcells : cells (staged (E :: engines) (s :: stages)) =
          ⟨Stage.handle E.toEngine (staged engines stages).isEmpty, s, []⟩ ::
            cells (staged engines stages) := rfl
      rw [hcells] at h
      simp only [settle, List.nil_append, readAll_one, Option.bind_eq_bind,
        Option.bind_eq_some_iff] at h
      obtain ⟨⟨s', sent⟩, hstep, ⟨cs', o⟩, hrest, heq⟩ := h
      obtain ⟨rfl, rfl⟩ := Prod.mk.inj (Option.some.inj heq)
      obtain ⟨g, rfl, hrelayed⟩ := handle_relayed hkind hstep
      cases engines with
      | nil =>
        obtain rfl := List.length_eq_zero_iff.mp hstages
        obtain ⟨rfl, rfl⟩ := Prod.mk.inj (Option.some.inj hrest)
        exact ⟨[s'], g, rfl, rfl, rfl⟩
      | cons E' engines =>
        have hmore (stages : List (Stage ε)) (h : stages.length = (E' :: engines).length) :
            (staged (E' :: engines) stages).isEmpty = false := by
          cases stages with
          | nil => cases h
          | cons s stages => rfl
        obtain ⟨ss', g', hlength, rfl, rfl⟩ := ih hstages (hrelayed (hmore stages hstages)) hrest
        refine ⟨s' :: ss', g', congrArg Nat.succ hlength, ?_, rfl⟩
        have hcells' : cells (staged (E :: E' :: engines) (s' :: ss')) =
            ⟨Stage.handle E.toEngine (staged (E' :: engines) ss').isEmpty, s', []⟩ ::
              cells (staged (E' :: engines) ss') := rfl
        rw [hcells', hmore ss' hlength, hmore stages hstages]

namespace FirstStage

variable {M : Chain φ ε} {r r' : FirstStage φ ε} {id : Word 8} {ss : List (Stage ε)}

/-- A ring at rest with the stages of the chain. -/
def AtRest (M : Chain φ ε) (r : FirstStage φ ε) : Prop := ∃ ss, r.Ready M ss

theorem exchange_atRest {f g : Frame} {kind : FrameKind}
    (hexchange : r.exchange id f kind = some (r', g)) (h : r.AtRest M) (hkind : Relayed f.kind) :
    r'.AtRest M := by
  obtain ⟨ss, hss, hline⟩ := h
  unfold exchange at hexchange
  split at hexchange
  · rename_i cells' g' out hout
    split_ifs at hexchange
    obtain ⟨rfl, rfl⟩ := Prod.mk.inj (Option.some.inj hexchange)
    rw [hline, Line.outcome, Option.map_eq_some_iff] at hout
    obtain ⟨⟨cells'', out'⟩, hsettle, heq⟩ := hout
    obtain ⟨rfl, hout⟩ := Prod.mk.inj heq
    obtain ⟨ss', g'', hlength, rfl, rfl⟩ := settle_relayed hss hkind hsettle
    obtain ⟨rfl, rfl⟩ := List.cons.inj hout
    exact ⟨ss', hlength, rfl⟩
  · cases hexchange

theorem begin_atRest (h : r.AtRest M) (hbegin : r.begin M id = .ok r') : r'.AtRest M := by
  unfold begin at hbegin
  dsimp only at hbegin
  split at hbegin
  · cases hbegin
  · rename_i r'' g hexchange
    obtain rfl := Except.ok.inj hbegin
    exact exchange_atRest hexchange h (Or.inl rfl)

variable {token : Word 4} {texts : Texts}

theorem boundaryFrame_atRest (h : r.AtRest M) {kind : FrameKind}
    {position : ℕ} {f : Frame}
    (hframe : r.boundaryFrame M id texts kind token position = .ok (r', f)) :
    r'.AtRest M ∧ f.kind = kind := by
  unfold boundaryFrame at hframe
  dsimp only at hframe
  split at hframe
  · cases hframe
  · split at hframe
    · cases hframe
    · obtain ⟨rfl, rfl⟩ := Prod.mk.inj (Except.ok.inj hframe)
      exact ⟨h, rfl⟩

theorem prefill_atRest (h : r.AtRest M) {position : ℕ}
    (hprefill : r.prefill M id texts token position = .ok r') : r'.AtRest M := by
  obtain ⟨⟨r₁, f⟩, hframe, hexchange⟩ := except_bind_eq_ok.mp hprefill
  obtain ⟨hrest, hkind⟩ := boundaryFrame_atRest h hframe
  dsimp only at hexchange
  split at hexchange
  · cases hexchange
  · rename_i r₂ g hreply
    obtain rfl := Except.ok.inj hexchange
    exact exchange_atRest hreply hrest (Or.inr (Or.inl hkind))

theorem decode_atRest (h : r.AtRest M) {next : Word 4} {position : ℕ}
    (hdecode : r.decode M id texts token position = .ok (r', next)) : r'.AtRest M := by
  obtain ⟨⟨r₁, f⟩, hframe, hexchange⟩ := except_bind_eq_ok.mp hdecode
  obtain ⟨hrest, hkind⟩ := boundaryFrame_atRest h hframe
  dsimp only at hexchange
  split at hexchange
  · cases hexchange
  · rename_i r₂ g hreply
    split_ifs at hexchange
    obtain ⟨rfl, -⟩ := Prod.mk.inj (Except.ok.inj hexchange)
    exact exchange_atRest hreply hrest (Or.inr (Or.inr (Or.inl hkind)))

variable {tokens : List (Word 4)}

theorem feedTokens_atRest (h : r.AtRest M)
    {position : ℕ}
    (hfeed : feedTokens M id texts r position tokens = .ok (r', token)) : r'.AtRest M := by
  induction tokens generalizing r position with
  | nil =>
    obtain ⟨rfl, -⟩ := Prod.mk.inj (Except.ok.inj hfeed)
    exact h
  | cons t rest ih =>
    cases rest with
    | nil => exact decode_atRest h hfeed
    | cons t' rest =>
      obtain ⟨r₁, hprefill, hrest⟩ := except_bind_eq_ok.mp hfeed
      exact ih (prefill_atRest h hprefill) hrest

theorem generateLoop_atRest (h : r.AtRest M) {left position : ℕ} {output : Bytes}
    {generated : ℕ} {answer : Bytes × ℕ}
    (hloop : generateLoop M id left r position token output generated = .ok (r', answer)) :
    r'.AtRest M := by
  induction left generalizing r position token output generated with
  | zero =>
    obtain ⟨rfl, -⟩ := Prod.mk.inj (Except.ok.inj hloop)
    exact h
  | succ left ih =>
    rw [generateLoop] at hloop
    by_cases hstop : M.first.isEog token = true
    · rw [if_pos hstop] at hloop
      obtain ⟨rfl, -⟩ := Prod.mk.inj (Except.ok.inj hloop)
      exact h
    · rw [if_neg hstop] at hloop
      cases hpiece : M.first.tokenPiece token with
      | none =>
        rw [hpiece] at hloop
        cases hloop
      | some piece =>
        rw [hpiece] at hloop
        dsimp only at hloop
        by_cases hleft : left = 0
        · rw [if_pos hleft] at hloop
          obtain ⟨rfl, -⟩ := Prod.mk.inj (Except.ok.inj hloop)
          exact h
        · rw [if_neg hleft] at hloop
          obtain ⟨⟨r₁, next⟩, hdecode, hrest⟩ := except_bind_eq_ok.mp hloop
          exact ih (decode_atRest h hdecode) hrest

inductive Request
  | generation (id : Word 8) (prompt : Bytes) (maxTokens : ℕ)
  | tokenEval (id : Word 8) (tokens : List (Word 4))
  | embedding (id : Word 8) (text : Bytes)

/-- A turn of `serve_control_requests`, which goes on only after a request that succeeds. -/
def serve (M : Chain φ ε) (r : FirstStage φ ε) : Request → Option (FirstStage φ ε)
  | .generation id prompt maxTokens =>
    (r.runGeneration M id prompt maxTokens).toOption.map fun answer => answer.1
  | .tokenEval id tokens => (r.runTokenEval M id tokens).toOption.map fun answer => answer.1
  | .embedding id text => (r.runEmbedding M id text).toOption.map fun answer => answer.1

def wired (M : Chain φ ε) (engine : φ) (ss : List (Stage ε)) : FirstStage φ ε :=
  ⟨engine, [], ⟨cells (staged M.forward ss), []⟩⟩

theorem runGeneration_atRest (h : r.AtRest M) {prompt : Bytes} {maxTokens : ℕ}
    {answer : Bytes × ℕ} (hrun : r.runGeneration M id prompt maxTokens = .ok (r', answer)) :
    r'.AtRest M := by
  obtain ⟨r₁, hbegin, hrest⟩ := except_bind_eq_ok.mp hrun
  cases htokens : M.first.tokenize prompt with
  | none =>
    rw [htokens] at hrest
    cases hrest
  | some tokens =>
    rw [htokens] at hrest
    obtain ⟨⟨r₂, token⟩, hfeed, hloop⟩ := except_bind_eq_ok.mp hrest
    exact generateLoop_atRest (feedTokens_atRest (begin_atRest h hbegin) hfeed) hloop

theorem runTokenEval_atRest (h : r.AtRest M) {sampled : Word 4}
    (hrun : r.runTokenEval M id tokens = .ok (r', sampled)) : r'.AtRest M := by
  unfold runTokenEval at hrun
  split_ifs at hrun
  obtain ⟨r₁, hbegin, hrest⟩ := except_bind_eq_ok.mp hrun
  obtain ⟨⟨r₂, token⟩, hfeed, hsampled⟩ := except_bind_eq_ok.mp hrest
  dsimp only at hsampled
  split_ifs at hsampled
  obtain ⟨rfl, -⟩ := Prod.mk.inj (Except.ok.inj hsampled)
  exact feedTokens_atRest (begin_atRest h hbegin) hfeed

theorem runEmbedding_atRest (h : r.AtRest M) {text embedding : Bytes}
    (hrun : r.runEmbedding M id text = .ok (r', embedding)) : r'.AtRest M := by
  obtain ⟨r₁, hbegin, hrest⟩ := except_bind_eq_ok.mp hrun
  have hready := begin_atRest h hbegin
  dsimp only at hrest
  split at hrest
  · cases hrest
  · split at hrest
    · cases hrest
    · rename_i hexchange
      split at hrest
      · cases hrest
      · split at hrest
        · cases hrest
        · obtain ⟨rfl, -⟩ := Prod.mk.inj (Except.ok.inj hrest)
          exact exchange_atRest hexchange hready (Or.inr (Or.inr (Or.inr rfl)))

theorem serve_atRest (h : r.AtRest M) {request : Request} (hserve : serve M r request = some r') :
    r'.AtRest M := by
  have hok {α : Type} {x : Except String (FirstStage φ ε × α)}
      (hx : x.toOption.map (fun answer => answer.1) = some r') : ∃ a, x = .ok (r', a) := by
    cases x with
    | error e => cases hx
    | ok answer =>
      obtain rfl : answer.1 = r' := Option.some.inj hx
      exact ⟨answer.2, rfl⟩
  cases request with
  | generation id prompt maxTokens =>
    obtain ⟨answer, hrun⟩ := hok hserve
    exact runGeneration_atRest h hrun
  | tokenEval id tokens =>
    obtain ⟨sampled, hrun⟩ := hok hserve
    exact runTokenEval_atRest h hrun
  | embedding id text =>
    obtain ⟨embedding, hrun⟩ := hok hserve
    exact runEmbedding_atRest h hrun

theorem served_atRest {engine : φ} (hss : ss.length = M.forward.length) {requests : List Request}
    (hrun : runs (serve M) (wired M engine ss) requests = some r) : r.AtRest M := by
  have hstart : (wired M engine ss).AtRest M := ⟨ss, hss, rfl⟩
  exact runs_invariant (fun _ _ _ _ hs hserve => serve_atRest hs hserve)
    (along_of_forall (fun _ _ => trivial) _ _) hrun hstart

/-! ### Generation -/

theorem head_greedy {emitted : List (Word 4)} {first : Word 4} {maxTokens : ℕ}
    (hfirst : M.nextToken tokens = some first) (hgreedy : M.greedy maxTokens tokens = some emitted) :
    emitted.head? = if maxTokens = 0 ∨ M.first.isEog first = true then none else some first := by
  cases maxTokens with
  | zero =>
    obtain rfl := Option.some.inj hgreedy
    rfl
  | succ left =>
    rw [Chain.greedy, Incremental.greedy, hfirst] at hgreedy
    by_cases hstop : M.first.isEog first = true
    · simp only [Option.bind_eq_bind, Option.bind_some, if_pos hstop] at hgreedy
      obtain rfl := Option.some.inj hgreedy
      rw [if_pos (Or.inr hstop)]
      rfl
    · simp only [Option.bind_eq_bind, Option.bind_some, if_neg hstop] at hgreedy
      obtain ⟨rest, -, rfl⟩ := Option.map_eq_some_iff.mp hgreedy
      rw [if_neg (not_or.mpr ⟨Nat.succ_ne_zero left, hstop⟩)]
      rfl

/-- A generation emits the tokens that greedy decoding of the whole model emits, whatever requests
the ring served before: up to the first that ends a generation, and at most so many. Every stage
decodes the positions from 0 on, each once. The token that follows the prompt is the one that
evaluating its tokens gives. -/
theorem generation_is_greedy {engine : φ} (hss : ss.length = M.forward.length)
    {requests : List Request} (hrun : runs (serve M) (wired M engine ss) requests = some r)
    (id : Word 8) {prompt : Bytes} {tokens : List (Word 4)}
    (htokens : M.first.tokenize prompt = some tokens) (hne : tokens ≠ []) {maxTokens : ℕ}
    {first : Word 4} (hfirst : M.nextToken tokens = some first) {emitted : List (Word 4)}
    (hgreedy : M.greedy maxTokens tokens = some emitted) {pieces : List Bytes}
    (hpieces : emitted.mapM M.first.tokenPiece = some pieces) :
    (∃ r', r.runGeneration M id prompt maxTokens = .ok (r', pieces.flatten, emitted.length) ∧
      List.Forall₂ (Saw id (tokens.length + min (maxTokens - 1) emitted.length)) r.logs r'.logs) ∧
    (∃ r', r.runTokenEval M id tokens = .ok (r', first) ∧
      List.Forall₂ (Saw id tokens.length) r.logs r'.logs) ∧
    emitted.head? = if maxTokens = 0 ∨ M.first.isEog first = true then none else some first := by
  obtain ⟨stages, hready⟩ := served_atRest hss hrun
  rw [logs_of_ready hready]
  obtain ⟨r₁, ss₁, hbegin, hbegun⟩ := holds_begin hready id
  refine ⟨?_, ?_, head_greedy hfirst hgreedy⟩
  · obtain ⟨r₂, ss₂, hfeed, hfed⟩ := holds_feedTokens hbegun generationTexts hne hfirst
    obtain ⟨r₃, ss₃, hloop, hheld⟩ := holds_generateLoop hfed hfirst hgreedy hpieces [] 0
    simp only [List.nil_append, Nat.zero_add, List.length_nil] at hfeed hloop
    refine ⟨r₃, ?_, ?_⟩
    · simp only [runGeneration, hbegin, htokens, hfeed, hloop, bind, Except.bind]
    · have hsaw := hheld.saw
      rw [List.nil_append, List.length_append, List.length_take] at hsaw
      rw [logs_of_ready hheld.ready]
      exact hsaw
  · obtain ⟨r₂, ss₂, hfeed, hfed⟩ := holds_feedTokens hbegun evalTexts hne hfirst
    obtain ⟨-, -, -, -, -, -, hpos⟩ := Chain.nextToken_eq_some.mp hfirst
    rw [List.length_nil] at hfeed
    refine ⟨r₂, ?_, ?_⟩
    · rw [runTokenEval, if_neg hne]
      simp only [hbegin, hfeed, bind, Except.bind, if_pos hpos]
    · rw [logs_of_ready hfed.ready]
      exact hfed.saw

/-! ### A model that counts -/

theorem emptyTensor_passes : Op.Passes emptyTensor := ⟨emptyTensor_sound, by decide⟩

/-- An engine that counts what it reads, and samples the count. -/
def countingEngine : RelayEngine ℕ where
  firstLayer := 0
  lastLayer := 1
  reset := fun _ => 0
  applyMemory := fun e _ => some e
  getSequenceState := fun _ _ _ => some [0]
  setSequenceState := fun e _ _ _ => (e, true)
  executeBoundary := fun e _ => some (e, emptyTensor)
  encodeBoundary := fun e _ _ => some (e, emptyTensor)
  collectTerminals := fun _ => some emptyTensor
  decodeBoundary := fun e _ _ => some (e + 1, emptyTensor)
  sampleArgmax := fun e => BitVec.ofNat 32 e
  start := 0
  reset_eq := fun _ => rfl
  passes := by
    intro e input position e' output h
    obtain ⟨-, rfl⟩ := Prod.mk.inj (Option.some.inj h)
    exact emptyTensor_passes

/-- Two stages behind the first; the token 4 ends a generation. -/
def countingChain : Chain Unit ℕ where
  first :=
    { start := ()
      reset := fun _ => ()
      tokenize := fun prompt => some (prompt.map fun b => BitVec.ofNat 32 b.toNat)
      decodeTokenBundle := fun _ _ _ => some ((), emptyTensor)
      encodeTokensBundle := fun _ _ => some ((), emptyTensor)
      isEog := fun token => token == 4
      tokenPiece := fun token => some [UInt8.ofNat (48 + token.toNat)]
      nEmbdOut := 1
      reset_eq := fun _ => rfl
      passes := by
        intro e token position e' output h
        obtain ⟨-, rfl⟩ := Prod.mk.inj (Option.some.inj h)
        exact emptyTensor_passes }
  middle := [countingEngine]
  last := countingEngine.toKvEngine

def countingStage (e : ℕ) : Stage ℕ := ⟨e, Op.getWire 0 0, [], false, []⟩

/-- After a prompt of two tokens and an evaluation of one, the tokens 2 and 3 follow. -/
theorem generation_is_greedy_counts : ∃ r r' : FirstStage Unit ℕ,
    runs (serve countingChain) (wired countingChain () [countingStage 7, countingStage 8])
      [.tokenEval 1 [9]] = some r ∧
    r.runGeneration countingChain 2 [65, 66] 5 = .ok (r', [50, 51], 2) := by
  set start := wired countingChain () [countingStage 7, countingStage 8]
  obtain ⟨-, ⟨r, heval, -⟩, -⟩ :=
    generation_is_greedy (show [countingStage 7, countingStage 8].length = _ from rfl)
      (show runs (serve countingChain) start [] = some start from rfl) 1
      (show countingChain.first.tokenize [9] = some [9] from rfl) (by decide)
      (show countingChain.nextToken [9] = some 1 by decide)
      (show countingChain.greedy 1 [9] = some [1] by decide)
      (show [1].mapM countingChain.first.tokenPiece = some [[49]] by decide)
  have hserved : runs (serve countingChain) start [.tokenEval 1 [9]] = some r := by
    simp only [runs, serve, heval, Except.toOption, Option.map_some, Option.bind_some]
  obtain ⟨⟨r', hgenerated, -⟩, -, -⟩ :=
    generation_is_greedy (show [countingStage 7, countingStage 8].length = _ from rfl) hserved 2
      (show countingChain.first.tokenize [65, 66] = some [65, 66] from rfl) (by decide)
      (show countingChain.nextToken [65, 66] = some 2 by decide)
      (show countingChain.greedy 5 [65, 66] = some [2, 3] by decide)
      (show [2, 3].mapM countingChain.first.tokenPiece = some [[50], [51]] by decide)
  exact ⟨r, r', hserved, hgenerated⟩

/-- Two stages forget what they hold, one after the other, and the acknowledgement comes back. -/
theorem exchange_any_order_reset : ∃ cells,
    (wired countingChain () [countingStage 7, countingStage 8]).line.outcome [⟨.reset, 1, 0, 0, []⟩] =
      some (cells, [⟨.ack, 1, 0, 0, []⟩]) := by
  set r := wired countingChain () [countingStage 7, countingStage 8]
  obtain ⟨l, hrun, hquiet, hout⟩ : ∃ l : Line (Stage ℕ) Frame,
      runs (fun (l : Line (Stage ℕ) Frame) k => Line.stepAt l.cells l.out k)
        (r.line.push [⟨.reset, 1, 0, 0, []⟩]) [0, 1] = some l ∧ Line.Quiet l.cells ∧
        l.out = [⟨.ack, 1, 0, 0, []⟩] := by
    refine ⟨_, rfl, ?_, rfl⟩
    intro c hc
    rcases List.mem_cons.mp hc with rfl | hc
    · rfl
    · rw [List.mem_singleton.mp hc]
  exact ⟨l.cells, hout ▸ exchange_any_order hrun hquiet⟩

end FirstStage

end KvasirNet.Ring
