import KvasirNet.GgufFormat
import KvasirNet.TextCodec
import Mathlib.Data.List.Sort

/-! The expert layout of a GGUF file as `gguf-topology.mjs` derives it, all numbers
doubles, and as `shard-server.py` derives it, integers unbounded. Nothing is
shared below the header but the table of ggml types, which is the same in both. -/
namespace KvasirNet.Gguf

/-- The three tensors of a routed expert, in the order that both programs keep. -/
inductive Which
  | gate
  | up
  | down
  deriving DecidableEq, Repr

def expertTensors : List Which := [.gate, .up, .down]

def Which.tensor : Which → String
  | gate => "ffn_gate_exps"
  | up => "ffn_up_exps"
  | down => "ffn_down_exps"

/-- Elements and bytes of a block; what is not listed has no known size. -/
def ggmlTypes : ℕ → Option (ℕ × ℕ)
  | 0 => some (1, 4) | 1 => some (1, 2)
  | 2 => some (32, 18) | 3 => some (32, 20)
  | 6 => some (32, 22) | 7 => some (32, 24)
  | 8 => some (32, 34) | 9 => some (32, 40)
  | 10 => some (256, 84) | 11 => some (256, 110) | 12 => some (256, 144)
  | 13 => some (256, 176) | 14 => some (256, 210) | 15 => some (256, 292)
  | 16 => some (256, 66) | 17 => some (256, 74) | 18 => some (256, 98)
  | 19 => some (256, 50) | 20 => some (32, 18) | 21 => some (256, 110)
  | 22 => some (256, 82) | 23 => some (256, 136)
  | 24 => some (1, 1) | 25 => some (1, 2) | 26 => some (1, 4) | 27 => some (1, 8)
  | 28 => some (1, 8) | 29 => some (256, 56) | 30 => some (1, 2)
  | _ => none

structure Slice where
  offset : Num
  perExpert : Num
  type : ℕ
  dims : List ℕ
  deriving DecidableEq, Repr

/-- What a program tells of a file. `slice` is what was stored, in order. -/
structure Layout where
  nExpert : Num
  nEmbd : Option Value
  nLayer : Option Value
  expertLayers : List Num
  bytesPerExpert : Num
  slice : List ((Num × Which) × Slice)

def lastAt {κ ν : Type*} [DecidableEq κ] (entries : List (κ × ν)) (key : κ) : Option ν :=
  (entries.reverse.find? fun e => e.1 = key).map Prod.snd

def Layout.at (l : Layout) (layer : Num) (w : Which) : Option Slice := lastAt l.slice (layer, w)

def isComplete {κ ν : Type*} [DecidableEq κ] (entries : List ((κ × Which) × ν)) (layer : κ) : Bool :=
  expertTensors.all fun w => (lastAt entries (layer, w)).isSome

/-! ## `topology` -/

/-- `Number(text)`; an infinity aligns nothing either way. -/
def textNumber (s : String) : Num := (jsNumber s).elim .nan double

/-- `ToNumber`, which goes through the text of an array. -/
def Value.number : Value → Num
  | .int n => .fin n
  | .float x => x
  | .bool b => .fin (if b then 1 else 0)
  | .str s => textNumber s
  | .list [] => .fin 0
  | .list [.bool _] => .nan
  | .list [v] => v.number
  | .list _ => .nan

/-- A value that `===` compares as a number. -/
def Value.isNumber : Value → Option Num
  | .int n => some (.fin n)
  | .float x => some x
  | _ => none

def Value.truthy : Value → Bool
  | .int n => n != 0
  | .float x => x != .fin 0 && x != .nan
  | .bool b => b
  | .str s => s != ""
  | .list _ => true

def Header.dataStart (h : Header) : Num :=
  let alignment := ((h.get "general.alignment").map Value.number).getD (.fin 32)
  ((Num.ofNat h.headerEnd).div alignment).ceil.mul alignment

/-- `EXPERT_TENSOR.exec`: the digits of the layer and the tensor. -/
def expertTensor (name : String) : Option (List Char × Which) :=
  match name.toList with
  | 'b' :: 'l' :: 'k' :: '.' :: cs =>
    if cs.takeWhile Char.isDigit = [] then none
    else (expertTensors.find? fun w =>
        cs.dropWhile Char.isDigit = '.' :: (w.tensor.toList ++ ".weight".toList)).map
      fun w => (cs.takeWhile Char.isDigit, w)
  | _ => none

def tensorBytes (t : RawTensor) : Option Num := do
  let (blockElems, blockBytes) ← ggmlTypes t.type
  let elems : Num := t.dims.foldl (fun a b => a.mul (.ofNat b)) (.ofNat 1)
  if elems.rem (.ofNat blockElems) = .fin 0 then
    some ((elems.div (.ofNat blockElems)).mul (.ofNat blockBytes))
  else none

def sliceTensor (nExpert : Value) (dataStart : Num) (t : RawTensor) (m : List Char × Which) :
    Option ((Num × Which) × Slice) := do
  let layer := double (Nat.ofDigitChars 10 m.1 0)
  let last ← t.dims.getLast?
  let n ← nExpert.isNumber
  if n = .ofNat last then do
    let total ← tensorBytes t
    if total.rem n = .fin 0 then
      some ((layer, m.2), ⟨dataStart.add (.ofNat t.offset), total.div n, t.type, t.dims⟩)
    else none
  else none

/-- What is told of the tensors that were stored. -/
def summary (nExpert : Value) (nEmbd nLayer : Option Value) (slice : List ((Num × Which) × Slice)) :
    Option Layout := do
  let layers := (slice.map fun e => e.1.1).dedup.mergeSort (· ≤ ·)
  let complete := layers.filter (isComplete slice)
  -- an empty `complete` has no first layer to add up
  let first ← complete.head?
  let n ← nExpert.isNumber
  some {
    nExpert := n
    nEmbd := nEmbd
    nLayer := nLayer
    expertLayers := complete
    bytesPerExpert := expertTensors.foldl (fun sum w =>
      sum.add (((lastAt slice (first, w)).map Slice.perExpert).getD .nan)) (.fin 0)
    slice := slice }

section
variable (spell : Value → String)

/-- The architecture as a template literal writes it; `spell` is for what is
neither text nor a small integer. -/
def Header.architectureText (h : Header) : String :=
  match h.get "general.architecture" with
  | none => "undefined"
  | some (.str s) => s
  | some (.int n) => if |n| < 2 ^ 53 then toString n else spell (.int n)
  | some v => spell v

/-- The layout, or `none` where the code throws. -/
def topology (h : Header) : Option Layout := do
  let arch := h.architectureText spell
  let nExpert ← h.get (arch ++ ".expert_count")
  if nExpert.truthy then do
    let experts := h.tensors.filterMap fun t => (expertTensor t.name).map fun m => (t, m)
    let slice ← experts.mapM fun e => sliceTensor nExpert h.dataStart e.1 e.2
    summary nExpert (h.get (arch ++ ".embedding_length")) (h.get (arch ++ ".block_count")) slice
  else none

end

/-- `parseHeader`, then `topology`. -/
def topologyOf (spell : Value → String) (file : Bytes) : Option Layout :=
  match readHeader numbers file with
  | .ok h => topology spell h
  | .error _ => none

end KvasirNet.Gguf
