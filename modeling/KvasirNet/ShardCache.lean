import KvasirNet.GgufFormat
import KvasirNet.Runs
import Mathlib.Data.List.AList

/-! The shards that a machine keeps: the file of a window, its download beside other downloads,
and the check of its metadata that lets it in. -/
namespace KvasirNet.ShardCache

open Gguf (Fault Value)

structure Want where
  model : String
  layer : ℕ
  first : ℕ
  last : ℕ
  deriving DecidableEq, Repr

/-! ### The name of a shard -/

/-- A UTF-16 unit that is not of `[A-Za-z0-9._-]` becomes an underscore. -/
def safeUnits (ch : Char) : List Char :=
  if ch.isAlphanum || ch = '.' || ch = '_' || ch = '-' then [ch]
  else if ch.toNat < 0x10000 then ['_'] else ['_', '_']

def safeName (model : String) : List Char := model.toList.flatMap safeUnits

def digits (n : ℕ) : List Char := Nat.toDigits 10 n

/-- `String(n).padStart(3, '0')` -/
def padded (n : ℕ) : List Char := List.replicate (3 - (digits n).length) '0' ++ digits n

/-- The path below the directory of the shards. -/
def shardFile (w : Want) : List Char :=
  safeName w.model ++ '/' :: 'L' :: digits w.layer ++ '_' :: 'e' :: padded w.first ++
    '-' :: padded w.last ++ ".gguf".toList

theorem slash_notMem_safeName (model : String) : '/' ∉ safeName model := by
  intro h
  obtain ⟨ch, -, hch⟩ := List.mem_flatMap.mp h
  unfold safeUnits at hch
  split_ifs at hch with hsafe
  · obtain rfl := List.mem_singleton.mp hch
    exact absurd hsafe (by decide)
  · exact absurd hch (by decide)
  · exact absurd hch (by decide)

variable {n : ℕ}

theorem digits_isDigit {ch : Char} (h : ch ∈ digits n) : ch.isDigit = true :=
  Nat.isDigit_of_mem_toDigits (by decide) (by decide) h

theorem padded_isDigit {ch : Char} (h : ch ∈ padded n) : ch.isDigit = true := by
  rcases List.mem_append.mp h with hzero | hdigit
  · obtain rfl := List.eq_of_mem_replicate hzero
    decide
  · exact digits_isDigit hdigit

theorem digits_inj {n' : ℕ} (h : digits n = digits n') : n = n' :=
  calc
    n = Nat.ofDigitChars 10 (digits n) 0 := Nat.ofDigitChars_ten_toDigits.symm
    _ = Nat.ofDigitChars 10 (digits n') 0 := by rw [h]
    _ = n' := Nat.ofDigitChars_ten_toDigits

theorem ofDigitChars_padded (n : ℕ) : Nat.ofDigitChars 10 (padded n) 0 = n := by
  rw [padded, Nat.ofDigitChars_append, Nat.ofDigitChars_replicate_zero, Nat.mul_zero]
  exact Nat.ofDigitChars_ten_toDigits

theorem padded_inj {n' : ℕ} (h : padded n = padded n') : n = n' := by
  rw [← ofDigitChars_padded n, h, ofDigitChars_padded]

variable {w : Want}

theorem shardFile_inj {w' : Want} (h : shardFile w = shardFile w') :
    w.layer = w'.layer ∧ w.first = w'.first ∧ w.last = w'.last := by
  unfold shardFile at h
  simp only [List.append_assoc, List.cons_append] at h
  obtain ⟨-, h⟩ := firstCut_inj (slash_notMem_safeName _) (slash_notMem_safeName _) h
  obtain ⟨-, h⟩ := List.cons.inj h
  obtain ⟨hlayer, h⟩ := firstCut_inj (fun hc => absurd (digits_isDigit hc) (by decide))
    (fun hc => absurd (digits_isDigit hc) (by decide)) h
  obtain ⟨-, h⟩ := List.cons.inj h
  obtain ⟨hfirst, h⟩ := firstCut_inj (fun hc => absurd (padded_isDigit hc) (by decide))
    (fun hc => absurd (padded_isDigit hc) (by decide)) h
  exact ⟨digits_inj hlayer, padded_inj hfirst, padded_inj (List.append_cancel_right h)⟩

/-! ### Its metadata -/

/-- `str`: what is beyond the end is left out. -/
def metaString : Reader Fault String := do
  let n ← Gguf.u64 Gguf.numbers
  fun bs => .ok (ofUtf8 (bs.take n), bs.drop n)

/-- `GGUF_TYPE_SIZE`; a type that it does not have counts as 0. -/
def typeSize : ℕ → ℕ
  | 0 | 1 | 7 => 1
  | 2 | 3 => 2
  | 4 | 5 | 6 => 4
  | 10 | 11 | 12 => 8
  | _ => 0

/-- An array is skipped, beyond the end if it says so. -/
def skipArray : Reader Fault Unit := do
  let type ← Gguf.uint 4
  let n ← Gguf.u64 Gguf.numbers
  if type = 8 then do
    let _ ← Reader.many metaString n
    pure ()
  else fun bs => .ok ((), bs.drop (n * typeSize type))

def metaValue (type : ℕ) : Reader Fault (Option Value) :=
  if type = 8 then do
    let s ← metaString
    pure (some (.str s))
  else if type = 9 then do
    skipArray
    pure none
  else do
    let v ← Gguf.scalar Gguf.numbers type
    pure (some v)

def metaEntry : Reader Fault (String × Option Value) := do
  let key ← metaString
  let type ← Gguf.uint 4
  let v ← metaValue type
  pure (key, v)

/-- `readGgufMetadata`: the version is passed by, the tensors are only counted. -/
def readGgufMetadata (file : Bytes) : Except Fault (List (String × Option Value)) :=
  let buf := file.take (2 ^ 20)
  if buf.length < 24 ∨ buf.take 4 ≠ Gguf.magic then .error .magic
  else
    let entries : Reader Fault (List (String × Option Value)) := do
      let _ ← Gguf.u64 Gguf.numbers
      let nKv ← Gguf.u64 Gguf.numbers
      Reader.many metaEntry nKv
    (entries (buf.drop 8)).map Prod.fst

/-- `meta[key]`: the last entry, where an array counts as nothing. -/
def metaGet (entries : List (String × Option Value)) (key : String) : Option Value :=
  ((entries.reverse.find? fun e => e.1 == key).map Prod.snd).join

/-- `===` with a number. -/
def Value.is (n : ℕ) : Value → Bool
  | .int z => z = n
  | .float (.fin q) => q = n
  | _ => false

/-- `checkShard`, with true where it does not throw. -/
def checkShard (file : Bytes) (want : Want) : Bool :=
  match readGgufMetadata file with
  | .error _ => false
  | .ok entries =>
    let layer := metaGet entries "kvasir.expert_shard.layer"
    let begin_ := (metaGet entries "kvasir.expert_shard.expert_begin").or
      (metaGet entries "linkcpp.expert_shard.expert_begin")
    let end_ := (metaGet entries "kvasir.expert_shard.expert_end").or
      (metaGet entries "linkcpp.expert_shard.expert_end")
    layer.all (Value.is want.layer) && begin_.any (Value.is want.first) &&
      end_.any (Value.is want.last)

/-! ### Downloads -/

abbrev Path := List Char

/-- The bytes behind a name, and the path they were made for. -/
structure Inode where
  path : Path
  bytes : Bytes
  deriving DecidableEq, Repr

/-- A response: the whole body, and whether a `content-length` states its size. -/
structure Response where
  full : Bytes
  stated : Bool
  deriving DecidableEq, Repr

/-- What a download awaits: the token and the response, or the body and the stream that
writes it. `got` bytes have come and `flushed` of them are in the file, which is there once
the stream has opened it; `ended` tells how the body ended, with or without an error. -/
inductive Stage
  | asking (attempt : ℕ)
  | body (attempt : ℕ) (r : Response) (file : Option ℕ) (got flushed : ℕ) (ended : Option Bool)
  | done
  deriving DecidableEq, Repr

structure Download where
  want : Want
  released : Bool
  stage : Stage
  deriving DecidableEq, Repr

/-- The disk, with the finished names and their `.part` names apart, the downloads, the
complete bodies of all responses, and what has been returned or accepted. -/
structure Machine where
  inodes : List Inode
  part : AList fun _ : Path => ℕ
  final : AList fun _ : Path => ℕ
  downloads : List Download
  responses : List (Want × Bytes)
  accepted : List (Want × Bytes)

def Machine.initial : Machine := ⟨[], ∅, ∅, [], [], []⟩

inductive Action
  | provision (want : Want)
  | release (i : ℕ)
  -- no token, no connection, or a status that is not ok
  | refused (i : ℕ)
  | response (i : ℕ) (r : Response)
  | opened (i : ℕ)
  | chunk (i n : ℕ)
  | flush (i n : ℕ)
  | ends (i : ℕ) (ok : Bool)
  | settles (i : ℕ)
  | prune (path : Path)
  | crash
  deriving DecidableEq, Repr

def downloadAttempts : ℕ := 3

def Download.path (d : Download) : Path := shardFile d.want

def Machine.read (s : Machine) (names : AList fun _ : Path => ℕ) (path : Path) : Option Bytes :=
  (names.lookup path).bind fun k => s.inodes[k]?.map (·.bytes)

def Machine.set (s : Machine) (i : ℕ) (d : Download) : Machine :=
  { s with downloads := s.downloads.set i d }

/-- `download` up to its first await: a file that is there is taken or removed. -/
def Machine.provision (s : Machine) (want : Want) : Machine :=
  match s.read s.final (shardFile want) with
  | some bytes =>
    if checkShard bytes want then
      { s with
        downloads := s.downloads ++ [⟨want, false, .done⟩]
        accepted := s.accepted ++ [(want, bytes)] }
    else
      { s with
        final := s.final.erase (shardFile want)
        downloads := s.downloads ++ [⟨want, false, .asking 1⟩] }
  | none => { s with downloads := s.downloads ++ [⟨want, false, .asking 1⟩] }

/-- The `catch` of an attempt, and the head of the loop after it. -/
def Machine.retry (s : Machine) (i : ℕ) (d : Download) (attempt : ℕ) : Machine :=
  { s.set i { d with stage :=
      if attempt < downloadAttempts ∧ d.released = false then .asking (attempt + 1) else .done } with
    part := s.part.erase d.path }

/-- `createWriteStream` truncates the file of that name, or makes one. -/
def Machine.open (s : Machine) (path : Path) : Machine × ℕ :=
  match s.part.lookup path with
  | some k => ({ s with inodes := s.inodes.set k ⟨path, []⟩ }, k)
  | none =>
    ({ s with
      inodes := s.inodes ++ [⟨path, []⟩]
      part := s.part.insert path s.inodes.length }, s.inodes.length)

/-- A write at a place of a file, with zeros before it where the file is shorter. -/
def writeAt (bytes : Bytes) (pos : ℕ) (chunk : Bytes) : Bytes :=
  bytes.take pos ++ List.replicate (pos - bytes.length) 0 ++ chunk ++ bytes.drop (pos + chunk.length)

def Machine.write (s : Machine) (k : ℕ) (f : Inode) (pos : ℕ) (chunk : Bytes) : Machine :=
  { s with inodes := s.inodes.set k { f with bytes := writeAt f.bytes pos chunk } }

/-- The end of `fetchTo`: the size counts when it is stated and not 0. -/
def truncated (r : Response) (got : ℕ) : Bool :=
  r.stated && 0 < r.full.length && got ≠ r.full.length

/-- After the body: what has the `.part` name is checked, and gets the final one. -/
def Machine.settle (s : Machine) (i : ℕ) (d : Download) (attempt : ℕ) (failed : Bool) : Machine :=
  match (s.part.lookup d.path).bind fun k => s.inodes[k]?.map fun f => (k, f.bytes) with
  | some (k, bytes) =>
    if failed = false ∧ checkShard bytes d.want then
      { s.set i { d with stage := .done } with
        part := s.part.erase d.path
        final := s.final.insert d.path k
        accepted := s.accepted ++ [(d.want, bytes)] }
    else s.retry i d attempt
  | none => s.retry i d attempt

def step (s : Machine) : Action → Option Machine
  | .provision want => some (s.provision want)
  | .release i => s.downloads[i]?.map fun d => s.set i { d with released := true }
  | .refused i =>
    match s.downloads[i]? with
    | some ⟨w, rel, .asking attempt⟩ => some (s.retry i ⟨w, rel, .asking attempt⟩ attempt)
    | _ => none
  | .response i r =>
    match s.downloads[i]? with
    | some ⟨w, rel, .asking attempt⟩ => some { s.set i ⟨w, rel, .body attempt r none 0 0 none⟩ with
        responses := s.responses ++ [(w, r.full)] }
    | _ => none
  | .opened i =>
    match s.downloads[i]? with
    | some ⟨w, rel, .body attempt r none got 0 ended⟩ =>
      some ((s.open (shardFile w)).1.set i
        ⟨w, rel, .body attempt r (some (s.open (shardFile w)).2) got 0 ended⟩)
    | _ => none
  | .chunk i n =>
    match s.downloads[i]? with
    | some ⟨w, rel, .body attempt r file got flushed none⟩ =>
      if got + n ≤ r.full.length then
        some (s.set i ⟨w, rel, .body attempt r file (got + n) flushed none⟩)
      else none
    | _ => none
  | .flush i n =>
    match s.downloads[i]? with
    | some ⟨w, rel, .body attempt r (some k) got flushed ended⟩ =>
      if flushed + n ≤ got then
        s.inodes[k]?.map fun f =>
          (s.write k f flushed ((r.full.drop flushed).take n)).set i
            ⟨w, rel, .body attempt r (some k) got (flushed + n) ended⟩
      else none
    | _ => none
  | .ends i ok =>
    match s.downloads[i]? with
    | some ⟨w, rel, .body attempt r file got flushed none⟩ =>
      some (s.set i ⟨w, rel, .body attempt r file got flushed (some ok)⟩)
    | _ => none
  | .settles i =>
    match s.downloads[i]? with
    | some ⟨w, rel, .body attempt r (some k) got flushed (some ok)⟩ =>
      if flushed = got then
        some (s.settle i ⟨w, rel, .body attempt r (some k) got flushed (some ok)⟩ attempt
          (!ok || truncated r got))
      else none
    | _ => none
  | .prune path => some { s with final := s.final.erase path }
  | .crash => some { s with downloads := [] }

/-! ### What is let in -/

/-- The file that the stream of a download has opened. -/
def Download.writing (d : Download) : Option ℕ :=
  match d.stage with
  | .body _ _ file _ _ _ => file
  | _ => none

/-- The body is complete, or its size is stated. -/
def Download.mayEnd (d : Download) : Bool :=
  match d.stage with
  | .body _ r _ got _ _ => r.stated || got = r.full.length
  | _ => true

/-- The bytes are one whole body for the layer and the window. -/
def Complete (responses : List (Want × Bytes)) (x : Want × Bytes) : Prop :=
  ∃ y ∈ responses, (y.1.layer = x.1.layer ∧ y.1.first = x.1.first ∧ y.1.last = x.1.last) ∧ y.2 = x.2

/-- A `.part` name is opened while no other stream is at it, and a body that is cut short without
an error has its size stated. -/
def Orderly (s : Machine) : Action → Prop
  | .opened i => ∀ j < s.downloads.length, j ≠ i → ∀ d ∈ s.downloads[j]?, d.writing ≠ none →
      ∀ e ∈ s.downloads[i]?, e.path ≠ d.path
  | .ends i ok => ok = true → ∀ d ∈ s.downloads[i]?, d.mayEnd = true
  | _ => True

instance (s : Machine) : ∀ a, Decidable (Orderly s a)
  | .opened i => inferInstanceAs (Decidable (∀ j < s.downloads.length, j ≠ i →
      ∀ d ∈ s.downloads[j]?, d.writing ≠ none → ∀ e ∈ s.downloads[i]?, e.path ≠ d.path))
  | .ends i ok => inferInstanceAs (Decidable (ok = true → ∀ d ∈ s.downloads[i]?, d.mayEnd = true))
  | .provision _ | .release _ | .refused _ | .response _ _ | .chunk _ _ | .flush _ _
  | .settles _ | .prune _ | .crash => .isTrue trivial

/-- A body under way: what is in its file so far, which has the `.part` name or none. -/
structure Body (s : Machine) (w : Want) (r : Response) (file : Option ℕ) (got flushed : ℕ)
    (ended : Option Bool) : Prop where
  known : (w, r.full) ∈ s.responses
  flushed_le : flushed ≤ got
  got_le : got ≤ r.full.length
  whole : ended = some true → r.stated = true ∨ got = r.full.length
  bytes : ∀ k, file = some k → s.inodes[k]? = some ⟨shardFile w, r.full.take flushed⟩
  part : ∀ k, file = some k →
    s.part.lookup (shardFile w) = some k ∨ s.part.lookup (shardFile w) = none
  final : ∀ k, file = some k → s.final.lookup (shardFile w) ≠ some k

def Download.Sound (s : Machine) (d : Download) : Prop :=
  match d.stage with
  | .body _ r file got flushed ended => Body s d.want r file got flushed ended
  | _ => True

structure Sound (s : Machine) : Prop where
  part : ∀ p k, s.part.lookup p = some k → ∃ bytes, s.inodes[k]? = some ⟨p, bytes⟩
  final : ∀ p k, s.final.lookup p = some k →
    ∃ x ∈ s.responses, shardFile x.1 = p ∧ s.inodes[k]? = some ⟨p, x.2⟩
  apart : ∀ p k, s.final.lookup p = some k → s.part.lookup p ≠ some k
  downloads : ∀ (i : ℕ) (d : Download), s.downloads[i]? = some d → d.Sound s
  alone : ∀ (i j : ℕ) (d e : Download), s.downloads[i]? = some d → s.downloads[j]? = some e → d.writing ≠ none →
    e.writing ≠ none → d.path = e.path → i = j
  accepted : ∀ x ∈ s.accepted, Complete s.responses x

variable {s s' : Machine}

theorem sound_initial : Sound .initial where
  part p k h := by cases h
  final p k h := by cases h
  apart p k h := by cases h
  downloads i d h := by cases h
  alone i j d e h := by cases h
  accepted x h := by cases h

variable {k : ℕ}

theorem lookup_of_erase {names : AList fun _ : Path => ℕ} {p q : Path}
    (h : (names.erase p).lookup q = some k) : names.lookup q = some k := by
  by_cases hq : q = p
  · rw [hq, AList.lookup_erase] at h
    cases h
  · rwa [AList.lookup_erase_ne hq] at h

theorem lookup_erase_or {names : AList fun _ : Path => ℕ} {p q : Path}
    (h : names.lookup q = some k ∨ names.lookup q = none) :
    (names.erase p).lookup q = some k ∨ (names.erase p).lookup q = none := by
  by_cases hq : q = p
  · rw [hq]
    exact .inr (AList.lookup_erase p names)
  · rwa [AList.lookup_erase_ne hq]

variable {d : Download}

theorem Download.Sound.mono (h : d.Sound s) {t : Machine}
    (hresponses : ∀ x ∈ s.responses, x ∈ t.responses)
    (hinodes : ∀ k, d.writing = some k → t.inodes[k]? = s.inodes[k]?)
    (hpart : ∀ k, s.part.lookup d.path = some k ∨ s.part.lookup d.path = none →
      t.part.lookup d.path = some k ∨ t.part.lookup d.path = none)
    (hfinal : ∀ k, d.writing = some k → t.final.lookup d.path = some k →
      s.final.lookup d.path = some k) : d.Sound t := by
  obtain ⟨w, rel, stage⟩ := d
  cases stage with
  | asking attempt => trivial
  | done => trivial
  | body attempt r file got flushed ended =>
    have h : Body s w r file got flushed ended := h
    refine ⟨hresponses _ h.known, h.flushed_le, h.got_le, h.whole, ?_, ?_, ?_⟩
    · intro k hk
      rw [hinodes k hk]
      exact h.bytes k hk
    · intro k hk
      exact hpart k (h.part k hk)
    · intro k hk hf
      exact h.final k hk (hfinal k hk hf)

theorem Download.Sound.withDownloads (h : d.Sound s) (downloads : List Download) :
    d.Sound { s with downloads := downloads } :=
  h.mono (fun _ hx => hx) (fun _ _ => rfl) (fun _ => id) (fun _ _ hf => hf)

variable {i : ℕ}

theorem Sound.set (h : Sound s) (hd : d.Sound s)
    (halone : d.writing ≠ none → ∀ (j : ℕ) (e : Download), j ≠ i → s.downloads[j]? = some e → e.writing ≠ none →
      d.path ≠ e.path) : Sound (s.set i d) where
  part := h.part
  final := h.final
  apart := h.apart
  downloads j e he := by
    have he : (s.downloads.set i d)[j]? = some e := he
    rw [List.getElem?_set] at he
    split_ifs at he with hij hlt
    · obtain rfl := Option.some.inj he
      exact hd.withDownloads _
    · exact (h.downloads j e he).withDownloads _
  alone j l e f he hf hew hfw hpath := by
    have he : (s.downloads.set i d)[j]? = some e := he
    have hf : (s.downloads.set i d)[l]? = some f := hf
    rw [List.getElem?_set] at he hf
    split_ifs at he hf with hij _ hil hil
    · exact hij.symm.trans hil
    · obtain rfl := Option.some.inj he
      exact absurd hpath (halone hew l f (Ne.symm hil) hf hfw)
    · obtain rfl := Option.some.inj hf
      exact absurd hpath.symm (halone hfw j e (Ne.symm hij) he hew)
    · exact h.alone j l e f he hf hew hfw hpath
  accepted := h.accepted

theorem Sound.quiet (h : Sound s) (hd : d.Sound s) (hw : d.writing = none) (i : ℕ) :
    Sound (s.set i d) :=
  h.set hd fun hne => absurd hw hne

theorem Sound.erasePart (h : Sound s) (p : Path) : Sound { s with part := s.part.erase p } where
  part q k hq := h.part q k (lookup_of_erase hq)
  final := h.final
  apart q k hf hq := h.apart q k hf (lookup_of_erase hq)
  downloads i d hd := (h.downloads i d hd).mono (fun _ hx => hx) (fun _ _ => rfl)
    (fun _ => lookup_erase_or) (fun _ _ hf => hf)
  alone := h.alone
  accepted := h.accepted

theorem Sound.eraseFinal (h : Sound s) (p : Path) : Sound { s with final := s.final.erase p } where
  part := h.part
  final q k hq := h.final q k (lookup_of_erase hq)
  apart q k hf := h.apart q k (lookup_of_erase hf)
  downloads i d hd := (h.downloads i d hd).mono (fun _ hx => hx) (fun _ _ => rfl) (fun _ => id)
    (fun _ _ => lookup_of_erase)
  alone := h.alone
  accepted := h.accepted

variable {x : Want × Bytes}

theorem Complete.mono {responses responses' : List (Want × Bytes)}
    (h : Complete responses x) (hsub : ∀ y ∈ responses, y ∈ responses') : Complete responses' x := by
  obtain ⟨y, hy, hsame⟩ := h
  exact ⟨y, hsub y hy, hsame⟩

theorem Sound.responds (h : Sound s) (x : Want × Bytes) :
    Sound { s with responses := s.responses ++ [x] } where
  part := h.part
  final p k hp := by
    obtain ⟨y, hy, hrest⟩ := h.final p k hp
    exact ⟨y, List.mem_append_left _ hy, hrest⟩
  apart := h.apart
  downloads i d hd := (h.downloads i d hd).mono (fun _ hx => List.mem_append_left _ hx)
    (fun _ _ => rfl) (fun _ => id) (fun _ _ hf => hf)
  alone := h.alone
  accepted y hy := (h.accepted y hy).mono fun _ hz => List.mem_append_left _ hz

theorem Sound.rewrite (h : Sound s) {p : Path} {old : Bytes}
    (hk : s.inodes[k]? = some ⟨p, old⟩) (hfinal : s.final.lookup p ≠ some k)
    (hwriting : ∀ (j : ℕ) (d : Download), s.downloads[j]? = some d → d.writing ≠ some k) (bytes : Bytes) :
    Sound { s with inodes := s.inodes.set k ⟨p, bytes⟩ } where
  part q l hl := by
    obtain ⟨b, hb⟩ := h.part q l hl
    by_cases hkl : k = l
    · obtain rfl := hkl
      obtain ⟨rfl, -⟩ := Inode.mk.inj (Option.some.inj (hk.symm.trans hb))
      exact ⟨bytes, List.getElem?_set_self (List.getElem?_eq_some_iff.mp hk).1⟩
    · exact ⟨b, (List.getElem?_set_ne hkl).trans hb⟩
  final q l hl := by
    obtain ⟨x, hx, hq, hb⟩ := h.final q l hl
    have hkl : k ≠ l := by
      rintro rfl
      obtain ⟨rfl, -⟩ := Inode.mk.inj (Option.some.inj (hk.symm.trans hb))
      exact hfinal hl
    exact ⟨x, hx, hq, (List.getElem?_set_ne hkl).trans hb⟩
  apart := h.apart
  downloads j d hd := (h.downloads j d hd).mono (fun _ hx => hx)
    (fun l hl => List.getElem?_set_ne fun hkl : k = l => hwriting j d hd (hl.trans (congrArg _ hkl.symm)))
    (fun _ => id) (fun _ _ hf => hf)
  alone := h.alone
  accepted := h.accepted

theorem Sound.retry (h : Sound s) (i : ℕ) (d : Download) (attempt : ℕ) :
    Sound (s.retry i d attempt) := by
  unfold Machine.retry
  apply Sound.erasePart
  split_ifs
  · exact h.quiet (d := ⟨d.want, d.released, .asking (attempt + 1)⟩) trivial rfl i
  · exact h.quiet (d := ⟨d.want, d.released, .done⟩) trivial rfl i

theorem Sound.adds (h : Sound s) (hd : ∀ t, d.Sound t) (hw : d.writing = none) :
    Sound { s with downloads := s.downloads ++ [d] } where
  part := h.part
  final := h.final
  apart := h.apart
  downloads i e he := by
    rcases List.mem_append.mp (List.mem_of_getElem? he) with hold | hnew
    · obtain ⟨j, hj⟩ := List.getElem?_of_mem hold
      exact (h.downloads j e hj).withDownloads _
    · rw [List.mem_singleton.mp hnew]
      exact hd _
  alone i j e f he hf hew hfw hpath := by
    have hold : ∀ (l : ℕ) (g : Download), (s.downloads ++ [d])[l]? = some g → g.writing ≠ none →
        s.downloads[l]? = some g := by
      intro l g hg hgw
      rw [List.getElem?_append] at hg
      split_ifs at hg with hl
      · exact hg
      · have hmem := List.mem_of_getElem? hg
        rw [List.mem_singleton.mp hmem] at hgw
        exact absurd hw hgw
    exact h.alone i j e f (hold i e he hew) (hold j f hf hfw) hew hfw hpath
  accepted := h.accepted

theorem Sound.accepts (h : Sound s) (hx : Complete s.responses x) :
    Sound { s with accepted := s.accepted ++ [x] } where
  part := h.part
  final := h.final
  apart := h.apart
  downloads i d hd := (h.downloads i d hd).mono (fun _ hx => hx) (fun _ _ => rfl) (fun _ => id)
    (fun _ _ hf => hf)
  alone := h.alone
  accepted y hy := by
    rcases List.mem_append.mp hy with hold | hnew
    · exact h.accepted y hold
    · rw [List.mem_singleton.mp hnew]
      exact hx

theorem Sound.read_final (h : Sound s) {want : Want} {bytes : Bytes}
    (hread : s.read s.final (shardFile want) = some bytes) : Complete s.responses (want, bytes) := by
  obtain ⟨k, hk, hbytes⟩ := Option.bind_eq_some_iff.mp hread
  obtain ⟨x, hx, hpath, hinode⟩ := h.final _ k hk
  rw [hinode] at hbytes
  exact ⟨x, hx, shardFile_inj hpath, Option.some.inj hbytes⟩

theorem Sound.provision (h : Sound s) (want : Want) : Sound (s.provision want) := by
  unfold Machine.provision
  split
  next bytes hread =>
    split_ifs
    · exact (h.accepts (h.read_final hread)).adds (fun _ => trivial) rfl
    · exact (h.eraseFinal _).adds (fun _ => trivial) rfl
  next => exact h.adds (fun _ => trivial) rfl

theorem Sound.newFile (h : Sound s) (p : Path) (hp : ∀ (i : ℕ) (d : Download),
    s.downloads[i]? = some d → d.writing ≠ none → p ≠ d.path) : Sound { s with
    inodes := s.inodes ++ [⟨p, []⟩]
    part := s.part.insert p s.inodes.length } where
  part q k hq := by
    by_cases hqp : q = p
    · rw [hqp, AList.lookup_insert] at hq
      obtain rfl := Option.some.inj hq
      exact ⟨[], by rw [hqp]; exact List.getElem?_concat_length⟩
    · rw [AList.lookup_insert_ne hqp] at hq
      obtain ⟨b, hb⟩ := h.part q k hq
      exact ⟨b, List.getElem?_append_left (List.getElem?_eq_some_iff.mp hb).1 ▸ hb⟩
  final q k hq := by
    obtain ⟨x, hx, hpath, hb⟩ := h.final q k hq
    exact ⟨x, hx, hpath, List.getElem?_append_left (List.getElem?_eq_some_iff.mp hb).1 ▸ hb⟩
  apart q k hf hq := by
    by_cases hqp : q = p
    · rw [hqp, AList.lookup_insert] at hq
      obtain rfl := Option.some.inj hq
      obtain ⟨x, -, -, hb⟩ := h.final q _ hf
      exact absurd (List.getElem?_eq_some_iff.mp hb).1 (Nat.lt_irrefl _)
    · rw [AList.lookup_insert_ne hqp] at hq
      exact h.apart q k hf hq
  downloads i d hd := by
    have hsound := h.downloads i d hd
    obtain ⟨w, rel, stage⟩ := d
    cases stage with
    | asking attempt => trivial
    | done => trivial
    | body attempt r file got flushed ended =>
      have hb : Body s w r file got flushed ended := hsound
      refine ⟨hb.known, hb.flushed_le, hb.got_le, hb.whole, ?_, ?_, hb.final⟩
      · intro k hk
        have hinode := hb.bytes k hk
        exact List.getElem?_append_left (List.getElem?_eq_some_iff.mp hinode).1 ▸ hinode
      · intro k hk
        have hne : shardFile w ≠ p := by
          intro heq
          exact hp i _ hd (by rw [Download.writing, hk]; exact Option.some_ne_none k) heq.symm
        rw [AList.lookup_insert_ne hne]
        exact hb.part k hk
  alone := h.alone
  accepted := h.accepted

variable {ended : Option Bool} {r : Response} {attempt got : ℕ} {rel : Bool}

theorem Sound.opened (h : Sound s)
   
    (hi : s.downloads[i]? = some ⟨w, rel, .body attempt r none got 0 ended⟩)
    (hothers : ∀ (j : ℕ) (d : Download), j ≠ i → s.downloads[j]? = some d → d.writing ≠ none →
      shardFile w ≠ d.path) :
    Sound ((s.open (shardFile w)).1.set i
      ⟨w, rel, .body attempt r (some (s.open (shardFile w)).2) got 0 ended⟩) := by
  have hbody : Body s w r none got 0 ended := h.downloads i _ hi
  -- a stream at this file would be of this name
  have hfree : ∀ (k : ℕ) (b : Bytes), s.inodes[k]? = some ⟨shardFile w, b⟩ →
      ∀ (j : ℕ) (d : Download), s.downloads[j]? = some d → d.writing ≠ some k := by
    intro k b hk j d hd hw
    have hwriting : d.writing ≠ none := by rw [hw]; exact Option.some_ne_none k
    by_cases hji : j = i
    · rw [hji, hi] at hd
      rw [← Option.some.inj hd] at hw
      cases hw
    · obtain ⟨w', rel', stage⟩ := d
      cases stage with
      | body attempt' r' file got' flushed' ended' =>
        have hd' : Body s w' r' file got' flushed' ended' := h.downloads j _ hd
        obtain ⟨hpath, -⟩ := Inode.mk.inj (Option.some.inj (hk.symm.trans (hd'.bytes k hw)))
        exact hothers j _ hji hd hwriting hpath
      | asking attempt' => cases hw
      | done => cases hw
  unfold Machine.open
  split
  next k hk =>
    obtain ⟨old, hold⟩ := h.part _ k hk
    have hfinal : s.final.lookup (shardFile w) ≠ some k := fun hf => h.apart _ k hf hk
    refine (h.rewrite hold hfinal (hfree k old hold) []).set ?_ fun _ j e hj he hew => ?_
    · refine ⟨hbody.known, hbody.flushed_le, hbody.got_le, hbody.whole, ?_, ?_, ?_⟩
      · intro l hl
        obtain rfl := Option.some.inj hl
        exact List.getElem?_set_self (List.getElem?_eq_some_iff.mp hold).1
      · intro l hl
        obtain rfl := Option.some.inj hl
        exact .inl hk
      · intro l hl
        obtain rfl := Option.some.inj hl
        exact hfinal
    · exact hothers j e hj he hew
  next =>
    have hnew := h.newFile (shardFile w) fun j d hd hw => by
      by_cases hji : j = i
      · rw [hji, hi] at hd
        rw [← Option.some.inj hd] at hw
        exact absurd rfl hw
      · exact hothers j d hji hd hw
    refine hnew.set ?_ fun _ j e hj he hew => ?_
    · refine ⟨hbody.known, hbody.flushed_le, hbody.got_le, hbody.whole, ?_, ?_, ?_⟩
      · intro l hl
        obtain rfl := Option.some.inj hl
        exact List.getElem?_concat_length
      · intro l hl
        obtain rfl := Option.some.inj hl
        exact .inl (AList.lookup_insert _)
      · intro l hl hf
        obtain rfl := Option.some.inj hl
        obtain ⟨x, -, -, hinode⟩ := h.final _ _ hf
        exact absurd (List.getElem?_eq_some_iff.mp hinode).1 (Nat.lt_irrefl _)
    · exact hothers j e hj he hew

theorem take_append_drop_take (bytes : Bytes) (flushed n : ℕ) (h : flushed ≤ bytes.length) :
    writeAt (bytes.take flushed) flushed ((bytes.drop flushed).take n) = bytes.take (flushed + n) := by
  have hlen : (bytes.take flushed).length = flushed := List.length_take_of_le h
  rw [writeAt, hlen, Nat.sub_self, List.replicate_zero, List.append_nil,
    List.take_of_length_le hlen.le, List.drop_eq_nil_of_le (hlen.le.trans (Nat.le_add_right _ _)),
    List.append_nil]
  exact List.take_add.symm

theorem Sound.flush (h : Sound s) {flushed : ℕ}
    {f : Inode}
    (hi : s.downloads[i]? = some ⟨w, rel, .body attempt r (some k) got flushed ended⟩)
    (hn : flushed + n ≤ got) (hf : s.inodes[k]? = some f) :
    Sound ((s.write k f flushed ((r.full.drop flushed).take n)).set i
      ⟨w, rel, .body attempt r (some k) got (flushed + n) ended⟩) := by
  have hbody : Body s w r (some k) got flushed ended := h.downloads i _ hi
  have hlt : i < s.downloads.length := (List.getElem?_eq_some_iff.mp hi).1
  obtain rfl : f = ⟨shardFile w, r.full.take flushed⟩ :=
    Option.some.inj (hf.symm.trans (hbody.bytes k rfl))
  have hothers : ∀ (j : ℕ) (e : Download), j ≠ i → s.downloads[j]? = some e → e.writing ≠ none →
      shardFile w ≠ e.path := by
    intro j e hj he hew hpath
    exact hj (h.alone j i e _ he hi hew (Option.some_ne_none k) hpath.symm)
  -- with the download set aside, nothing is at its file
  have haside := h.quiet (d := ⟨w, rel, .done⟩) trivial rfl i
  have hrewrite := haside.rewrite (k := k) hf (hbody.final k rfl) (fun j e he hw => ?_)
    (writeAt (r.full.take flushed) flushed ((r.full.drop flushed).take n))
  · have hset := hrewrite.set (i := i)
      (d := ⟨w, rel, .body attempt r (some k) got (flushed + n) ended⟩) ?_ ?_
    · unfold Machine.set at hset ⊢
      dsimp only at hset
      rw [List.set_set] at hset
      exact hset
    · refine ⟨hbody.known, hn, hbody.got_le, hbody.whole, ?_, hbody.part, hbody.final⟩
      intro l hl
      obtain rfl := Option.some.inj hl
      rw [← take_append_drop_take r.full flushed n (hbody.flushed_le.trans hbody.got_le)]
      exact List.getElem?_set_self (List.getElem?_eq_some_iff.mp hf).1
    · intro _ j e hj he hew
      have he : (s.downloads.set i ⟨w, rel, .done⟩)[j]? = some e := he
      rw [List.getElem?_set_ne (Ne.symm hj)] at he
      exact hothers j e hj he hew
  · have he : (s.downloads.set i ⟨w, rel, .done⟩)[j]? = some e := he
    by_cases hj : j = i
    · rw [hj, List.getElem?_set_self hlt] at he
      rw [← Option.some.inj he] at hw
      cases hw
    · rw [List.getElem?_set_ne (Ne.symm hj)] at he
      have hew : e.writing ≠ none := by rw [hw]; exact Option.some_ne_none k
      obtain ⟨w', rel', stage⟩ := e
      cases stage with
      | body attempt' r' file got' flushed' ended' =>
        have he' : Body s w' r' file got' flushed' ended' := h.downloads j _ he
        obtain ⟨hpath, -⟩ := Inode.mk.inj (Option.some.inj (hf.symm.trans (he'.bytes k hw)))
        exact hothers j _ hj he hew hpath
      | asking attempt' => cases hw
      | done => cases hw

theorem Sound.rename (h : Sound s)
    (hi : s.downloads[i]? = some d) (hw : d.writing = some k) (hx : x ∈ s.responses)
    (hpath : shardFile x.1 = d.path) (hk : s.inodes[k]? = some ⟨d.path, x.2⟩) :
    Sound { s.set i { d with stage := .done } with
      part := s.part.erase d.path
      final := s.final.insert d.path k } where
  part p l hl := h.part p l (lookup_of_erase hl)
  final p l hl := by
    by_cases hp : p = d.path
    · rw [hp, AList.lookup_insert] at hl
      obtain rfl := Option.some.inj hl
      exact ⟨x, hx, hpath.trans hp.symm, hp ▸ hk⟩
    · rw [AList.lookup_insert_ne hp] at hl
      exact h.final p l hl
  apart p l hf hl := by
    by_cases hp : p = d.path
    · rw [hp, AList.lookup_erase] at hl
      cases hl
    · rw [AList.lookup_insert_ne hp] at hf
      exact h.apart p l hf (lookup_of_erase hl)
  downloads j e he := by
    have he : (s.downloads.set i { d with stage := .done })[j]? = some e := he
    by_cases hji : j = i
    · rw [hji, List.getElem?_set_self (List.getElem?_eq_some_iff.mp hi).1] at he
      rw [← Option.some.inj he]
      trivial
    · rw [List.getElem?_set_ne (Ne.symm hji)] at he
      refine (h.downloads j e he).mono (fun _ hy => hy) (fun _ _ => rfl) (fun _ => lookup_erase_or) ?_
      intro l hl hf
      -- two streams are never at one name
      have hne : e.path ≠ d.path := by
        intro heq
        exact hji (h.alone j i e d he hi (by rw [hl]; exact Option.some_ne_none l)
          (by rw [hw]; exact Option.some_ne_none k) heq)
      rwa [AList.lookup_insert_ne hne] at hf
  alone := (h.quiet (d := { d with stage := .done }) trivial rfl i).alone
  accepted := h.accepted

theorem Sound.settle (h : Sound s) {ok : Bool}
    (hi : s.downloads[i]? = some ⟨w, rel, .body attempt r (some k) got got (some ok)⟩) :
    Sound (s.settle i ⟨w, rel, .body attempt r (some k) got got (some ok)⟩ attempt
      (!ok || truncated r got)) := by
  have hbody : Body s w r (some k) got got (some ok) := h.downloads i _ hi
  unfold Machine.settle
  split
  next l bytes hl =>
    split_ifs with hok
    · obtain ⟨l', hpart, hread⟩ := Option.bind_eq_some_iff.mp hl
      obtain ⟨f, hf, hfl⟩ := Option.map_eq_some_iff.mp hread
      obtain ⟨rfl, rfl⟩ := Prod.mk.inj hfl
      -- the name is still that of the stream's own file
      obtain rfl : k = l' := by
        rcases hbody.part k rfl with hown | hnone
        · exact Option.some.inj (hown.symm.trans hpart)
        · exact absurd (hnone.symm.trans hpart) (Option.some_ne_none l').symm
      have hgot : got = r.full.length := by
        have hfail := hok.1
        simp only [truncated, Bool.or_eq_false_iff, Bool.not_eq_false', Bool.and_eq_false_iff,
          decide_eq_false_iff_not, Nat.not_lt, ne_eq, Decidable.not_not] at hfail
        have hle := hbody.got_le
        rcases hbody.whole (congrArg some hfail.1) with hstated | hwhole
        · rcases hfail.2 with (hno | hzero) | hsame
          · rw [hstated] at hno
            cases hno
          · omega
          · exact hsame
        · exact hwhole
      have hbytes := hbody.bytes k rfl
      rw [hgot, List.take_length] at hbytes
      obtain rfl : f = ⟨shardFile w, r.full⟩ := Option.some.inj (hf.symm.trans hbytes)
      exact (h.rename (x := (w, r.full)) hi rfl hbody.known rfl hbytes).accepts
        ⟨(w, r.full), hbody.known, ⟨rfl, rfl, rfl⟩, rfl⟩
    · exact h.retry i _ attempt
  next => exact h.retry i _ attempt

theorem Sound.crash (h : Sound s) : Sound { s with downloads := [] } where
  part := h.part
  final := h.final
  apart := h.apart
  downloads i d hd := by cases hd
  alone i j d e hd := by cases hd
  accepted := h.accepted

theorem Sound.goes (h : Sound s) {got' flushed : ℕ}
    {file : Option ℕ} {ended' : Option Bool}
    (hi : s.downloads[i]? = some ⟨w, rel, .body attempt r file got flushed ended⟩)
    (hflushed : flushed ≤ got') (hgot : got' ≤ r.full.length)
    (hwhole : ended' = some true → r.stated = true ∨ got' = r.full.length) (rel' : Bool) :
    Sound (s.set i ⟨w, rel', .body attempt r file got' flushed ended'⟩) := by
  have hbody : Body s w r file got flushed ended := h.downloads i _ hi
  refine h.set ⟨hbody.known, hflushed, hgot, hwhole, hbody.bytes, hbody.part, hbody.final⟩ ?_
  intro hw j e hj he hew hpath
  exact hj (h.alone j i e _ he hi hew hw hpath.symm)

theorem Sound.release (h : Sound s) (hi : s.downloads[i]? = some d) :
    Sound (s.set i { d with released := true }) := by
  obtain ⟨w, rel, stage⟩ := d
  cases stage with
  | asking attempt => exact h.quiet (d := ⟨w, true, .asking attempt⟩) trivial rfl i
  | done => exact h.quiet (d := ⟨w, true, .done⟩) trivial rfl i
  | body attempt r file got flushed ended =>
    have hbody : Body s w r file got flushed ended := h.downloads i _ hi
    exact h.goes hi hbody.flushed_le hbody.got_le hbody.whole true

theorem alone_of_orderly {e : Download} (ha : Orderly s (.opened i))
    (hi : s.downloads[i]? = some e) (j : ℕ) (d : Download) (hj : j ≠ i)
    (hd : s.downloads[j]? = some d) (hw : d.writing ≠ none) : e.path ≠ d.path := by
  have hlt : j < s.downloads.length := (List.getElem?_eq_some_iff.mp hd).1
  exact ha j hlt hj d hd hw e hi

theorem sound_step {a : Action} (h : Sound s) (ha : Orderly s a) (hs : step s a = some s') :
    Sound s' := by
  cases a with
  | provision want =>
    obtain rfl := Option.some.inj hs
    exact h.provision want
  | release i =>
    obtain ⟨d, hd, rfl⟩ := Option.map_eq_some_iff.mp hs
    exact h.release hd
  | refused i =>
    simp only [step] at hs
    split at hs
    · obtain rfl := Option.some.inj hs
      exact h.retry i _ _
    · cases hs
  | response i r =>
    simp only [step] at hs
    split at hs
    next w rel attempt hi =>
      obtain rfl := Option.some.inj hs
      have hnew := h.responds (w, r.full)
      refine hnew.set (d := ⟨w, rel, .body attempt r none 0 0 none⟩) ⟨?_, ?_, ?_, ?_, ?_, ?_, ?_⟩ ?_
      · exact List.mem_append_right _ List.mem_cons_self
      · exact Nat.le_refl 0
      · exact Nat.zero_le _
      · intro hended
        cases hended
      · intro k hk
        cases hk
      · intro k hk
        cases hk
      · intro k hk
        cases hk
      · intro hw
        exact absurd rfl hw
    · cases hs
  | opened i =>
    simp only [step] at hs
    split at hs
    next w rel attempt r got ended hi =>
      obtain rfl := Option.some.inj hs
      have halone := alone_of_orderly ha hi
      exact h.opened hi halone
    · cases hs
  | chunk i n =>
    simp only [step] at hs
    split at hs
    next w rel attempt r file got flushed hi =>
      split_ifs at hs with hn
      obtain rfl := Option.some.inj hs
      have hbody : Body s w r file got flushed none := h.downloads i _ hi
      exact h.goes hi (hbody.flushed_le.trans (Nat.le_add_right got n)) hn
        (fun hended => by cases hended) rel
    · cases hs
  | flush i n =>
    simp only [step] at hs
    split at hs
    next w rel attempt r k got flushed ended hi =>
      split_ifs at hs with hn
      obtain ⟨f, hf, rfl⟩ := Option.map_eq_some_iff.mp hs
      exact h.flush hi hn hf
    · cases hs
  | ends i ok =>
    simp only [step] at hs
    split at hs
    next w rel attempt r file got flushed hi =>
      obtain rfl := Option.some.inj hs
      have hbody : Body s w r file got flushed none := h.downloads i _ hi
      refine h.goes hi hbody.flushed_le hbody.got_le (fun hok => ?_) rel
      have hmay := ha (Option.some.inj hok) _ hi
      exact (Bool.or_eq_true_iff.mp hmay).imp_right of_decide_eq_true
    · cases hs
  | settles i =>
    simp only [step] at hs
    split at hs
    next w rel attempt r k got flushed ok hi =>
      split_ifs at hs with hall
      obtain rfl := Option.some.inj hs
      subst hall
      exact h.settle hi
    · cases hs
  | prune path =>
    obtain rfl := Option.some.inj hs
    exact h.eraseFinal path
  | crash =>
    obtain rfl := Option.some.inj hs
    exact h.crash

/-- Every shard that is returned or accepted is one whole body for its layer and window, as long
as a `.part` name is opened by one stream at a time and a body that is cut short without an error
has its size stated. -/
theorem shard_complete (as : List Action) (hrun : runs step .initial as = some s)
    (horderly : Along step Orderly .initial as) : ∀ x ∈ s.accepted, Complete s.responses x :=
  (runs_invariant (fun _ _ _ ha h hs => sound_step h ha hs) horderly hrun sound_initial).accepted

/-- A shard of layer 1 and experts 0 to 2, with one byte after its metadata. -/
def shard : Bytes :=
  let key (name : String) (n : UInt8) : Bytes :=
    [(utf8 name).length.toUInt8, 0, 0, 0, 0, 0, 0, 0] ++ utf8 name ++ [4, 0, 0, 0, n, 0, 0, 0]
  Gguf.magic ++ [3, 0, 0, 0] ++ [0, 0, 0, 0, 0, 0, 0, 0] ++ [3, 0, 0, 0, 0, 0, 0, 0] ++
    key "kvasir.expert_shard.layer" 1 ++ key "kvasir.expert_shard.expert_begin" 0 ++
    key "kvasir.expert_shard.expert_end" 2 ++ [7]

def want : Want := ⟨"m", 1, 0, 2⟩

/-- A download that ends early, is tried again, and is found in the cache after a crash. -/
def retried : List Action :=
  let n := shard.length
  [.provision want, .response 0 ⟨shard, true⟩, .opened 0, .chunk 0 (n - 1), .ends 0 true,
    .flush 0 (n - 1), .settles 0, .response 0 ⟨shard, true⟩, .opened 0, .chunk 0 n, .flush 0 n,
    .ends 0 true, .settles 0, .crash, .provision want]

theorem shard_complete_retried : ∃ s, runs step .initial retried = some s ∧
    s.accepted.length = 2 ∧ ∀ x ∈ s.accepted, Complete s.responses x := by
  obtain ⟨s, hrun, hs⟩ := runs_exists step .initial retried
    (fun s => s.accepted.length = 2) (by decide +kernel)
  exact ⟨s, hrun, of_decide_eq_true hs, shard_complete _ hrun (by decide +kernel)⟩

/-- Without a size a body that ends early is let in; and with two downloads of one window the
first is renamed while the second has begun to write it again. -/
theorem shard_cut :
    (∃ s, runs step .initial [.provision want, .response 0 ⟨shard, false⟩, .opened 0,
        .chunk 0 (shard.length - 1), .ends 0 true, .flush 0 (shard.length - 1), .settles 0] =
      some s ∧ ¬ ∀ x ∈ s.accepted, Complete s.responses x) ∧
    ∃ s, runs step .initial [.provision want, .response 0 ⟨shard, true⟩, .opened 0,
        .chunk 0 shard.length, .flush 0 shard.length, .ends 0 true, .release 0, .provision want,
        .response 1 ⟨shard, true⟩, .opened 1, .chunk 1 (shard.length - 1),
        .flush 1 (shard.length - 1), .settles 0] = some s ∧
      ¬ ∀ x ∈ s.accepted, Complete s.responses x := by
  have hcut : ∀ s : Machine, (∀ y ∈ s.responses, y.2 = shard) →
      (∃ x ∈ s.accepted, x.2 ≠ shard) → ¬ ∀ x ∈ s.accepted, Complete s.responses x := by
    rintro s hresponses ⟨x, hx, hne⟩ hall
    obtain ⟨y, hy, -, hsame⟩ := hall x hx
    exact hne (hsame.symm.trans (hresponses y hy))
  constructor
  · obtain ⟨s, hrun, hs⟩ := runs_exists step .initial [.provision want,
      .response 0 ⟨shard, false⟩, .opened 0, .chunk 0 (shard.length - 1), .ends 0 true,
      .flush 0 (shard.length - 1), .settles 0]
      (fun s => (∀ y ∈ s.responses, y.2 = shard) ∧ ∃ x ∈ s.accepted, x.2 ≠ shard) (by decide +kernel)
    exact ⟨s, hrun, hcut s (of_decide_eq_true hs).1 (of_decide_eq_true hs).2⟩
  · obtain ⟨s, hrun, hs⟩ := runs_exists step .initial [.provision want, .response 0 ⟨shard, true⟩,
      .opened 0, .chunk 0 shard.length, .flush 0 shard.length, .ends 0 true, .release 0,
      .provision want, .response 1 ⟨shard, true⟩, .opened 1, .chunk 1 (shard.length - 1),
      .flush 1 (shard.length - 1), .settles 0]
      (fun s => (∀ y ∈ s.responses, y.2 = shard) ∧ ∃ x ∈ s.accepted, x.2 ≠ shard) (by decide +kernel)
    exact ⟨s, hrun, hcut s (of_decide_eq_true hs).1 (of_decide_eq_true hs).2⟩

end KvasirNet.ShardCache
