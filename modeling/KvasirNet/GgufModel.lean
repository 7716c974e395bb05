import KvasirNet.GgufTopology

/-! The layout as `shard-server.py` derives it: integers are exact, a float stays a
float, and anything that raises refuses the file. -/
namespace KvasirNet.Gguf

/-! ## `int` -/

/-- The zeros of the decimal digits of Unicode; nine digits follow each. -/
def decimalZeros : List ℕ :=
  [0x30, 0x660, 0x6f0, 0x7c0, 0x966, 0x9e6, 0xa66, 0xae6, 0xb66, 0xbe6, 0xc66, 0xce6, 0xd66, 0xde6,
    0xe50, 0xed0, 0xf20, 0x1040, 0x1090, 0x17e0, 0x1810, 0x1946, 0x19d0, 0x1a80, 0x1a90, 0x1b50,
    0x1bb0, 0x1c40, 0x1c50, 0xa620, 0xa8d0, 0xa900, 0xa9d0, 0xa9f0, 0xaa50, 0xabf0, 0xff10, 0x104a0,
    0x10d30, 0x11066, 0x110f0, 0x11136, 0x111d0, 0x112f0, 0x11450, 0x114d0, 0x11650, 0x116c0, 0x11730,
    0x118e0, 0x11950, 0x11c50, 0x11d50, 0x11da0, 0x16a60, 0x16ac0, 0x16b50, 0x1d7ce, 0x1d7d8, 0x1d7e2,
    0x1d7ec, 0x1d7f6, 0x1e140, 0x1e2f0, 0x1e950, 0x1fbf0]

def decimalDigit (c : Char) : Option ℕ :=
  (decimalZeros.find? fun z => decide (z ≤ c.toNat) && decide (c.toNat < z + 10)).map (c.toNat - ·)

def isSpace (c : Char) : Bool :=
  let n := c.toNat
  (9 ≤ n && n ≤ 13) || (0x1c ≤ n && n ≤ 0x20) || n == 0x85 || n == 0xA0 || n == 0x1680 ||
    (0x2000 ≤ n && n ≤ 0x200A) || n == 0x2028 || n == 0x2029 || n == 0x202F || n == 0x205F || n == 0x3000

def strip (cs : List Char) : List Char := ((cs.dropWhile isSpace).reverse.dropWhile isSpace).reverse

/-- Digits with single underscores between them; `after` tells that the last one
was a digit. -/
def digitsFrom : ℕ → Bool → List Char → Option ℕ
  | acc, after, [] => if after then some acc else none
  | acc, after, c :: cs =>
    if c = '_' then (if after then digitsFrom acc false cs else none)
    else (decimalDigit c).bind fun d => digitsFrom (10 * acc + d) true cs

/-- The longest decimal that `int` takes. -/
def maxStrDigits : ℕ := 4300

def unsignedInt (cs : List Char) : Option ℕ :=
  if (cs.filter fun c => (decimalDigit c).isSome).length ≤ maxStrDigits then digitsFrom 0 false cs
  else none

/-- `int(text)`. -/
def pyInt (cs : List Char) : Option ℤ :=
  match strip cs with
  | '+' :: cs => (unsignedInt cs).map fun (n : ℕ) => (n : ℤ)
  | '-' :: cs => (unsignedInt cs).map fun (n : ℕ) => -(n : ℤ)
  | cs => (unsignedInt cs).map fun (n : ℕ) => (n : ℤ)

/-! ## `Model` -/

/-- The experts of one tensor; the size is an integer or a float. -/
structure ModelSlice where
  offset : ℤ
  perExpert : Num
  type : ℕ
  dims : List ℕ
  deriving DecidableEq, Repr

structure Model where
  arch : Option Value
  nExpert : Value
  nEmbd : Option Value
  nLayer : Option Value
  nFfExpert : Option Value
  dataStart : ℤ
  slice : List ((ℤ × Which) × ModelSlice)
  expertLayers : List ℤ
  bytesPerExpert : Num

/-- The quotient that floors; its divisor is not zero. -/
def alignUp (n align : ℤ) : ℤ := -(Int.fdiv (-n) align) * align

/-- `data_start`. A float goes through the arithmetic, but `seek` in `_digest`
refuses it, as it refuses what does not fit an offset. -/
def Header.modelDataStart (h : Header) : Option ℤ :=
  let alignment : Option ℤ := match h.get "general.alignment" with
    | none => some 32
    | some (.int a) => some a
    | some (.bool b) => some (if b then 1 else 0)
    | some _ => none
  alignment.bind fun a =>
    if a = 0 then none
    else if alignUp h.headerEnd a < 2 ^ 63 then some (alignUp h.headerEnd a) else none

/-- A tensor name of four parts, the layer unread. -/
def expertParts (name : String) : Option (List Char × Which) :=
  if "blk.".toList <+: name.toList then
    match name.toList.splitOn '.' with
    | [_, layer, which, tail] =>
      if tail = "weight".toList then
        (expertTensors.find? fun w => which = w.tensor.toList).map fun w => (layer, w)
      else none
    | _ => none
  else none

/-- The bytes of a tensor, if its elements are whole blocks of a known type. -/
def modelTensorBytes (t : RawTensor) : Option ℕ := do
  let (blockElems, blockBytes) ← ggmlTypes t.type
  let elems := t.dims.foldl (· * ·) 1
  if elems % blockElems = 0 then some (elems / blockElems * blockBytes) else none

def Value.pyTruthy : Value → Bool
  | .int n => n != 0
  | .float x => x != .fin 0
  | .bool b => b
  | .str s => s != ""
  | .list xs => !xs.isEmpty

/-- `d == value`. -/
def equalsNat (d : ℕ) : Value → Bool
  | .int n => n == d
  | .float x => x == .ofNat d
  | .bool b => (if b then 1 else 0) == d
  | _ => false

/-- `total // n`, where `total % n` is zero. -/
def perExpert (total : ℕ) : Value → Option Num
  | .int n => if (total : ℤ) % n = 0 then some (.fin ((total : ℤ) / n : ℤ)) else none
  | .bool b => if b then some (.ofNat total) else none
  | .float x =>
    if (double total).rem x = .fin 0 then
      match (double total).div x with
      | .fin q => some (.fin ⌊q⌋)
      | _ => none
    else none
  | _ => none

def modelTensor (nExpert : Value) (dataStart : ℤ) (t : RawTensor) (m : List Char × Which) :
    Option ((ℤ × Which) × ModelSlice) := do
  let layer ← pyInt m.1
  let last ← t.dims.getLast?
  if equalsNat last nExpert then do
    let total ← modelTensorBytes t
    let size ← perExpert total nExpert
    some ((layer, m.2), ⟨dataStart + t.offset, size, t.type, t.dims⟩)
  else none

def sizeSum : Value → Num → Num → Num
  | .float _, a, b => a.add b
  | _, .fin a, .fin b => .fin (a + b)
  | _, _, _ => .nan

/-- What is kept of the tensors that were stored, in a model with the rest. -/
def summarise (m : Model) : Option Model := do
  let layers := ((m.slice.map fun e => e.1.1).dedup.filter (isComplete m.slice)).mergeSort (· ≤ ·)
  let first ← layers.head?
  some { m with
    expertLayers := layers
    bytesPerExpert := expertTensors.foldl (fun sum w => sizeSum m.nExpert sum
      (((lastAt m.slice (first, w)).map ModelSlice.perExpert).getD .nan)) (.fin 0) }

section
variable (spell : Value → String)

/-- The architecture as an f-string writes it. -/
def Header.archText (h : Header) : String :=
  match h.get "general.architecture" with
  | none => "None"
  | some (.str s) => s
  | some (.int n) => toString n
  | some v => spell v

/-- `Model.__init__` once the header is read; `none` where it raises. -/
def modelOf (h : Header) : Option Model := do
  let dataStart ← h.modelDataStart
  let arch := h.archText spell
  let nExpert ← h.get (arch ++ ".expert_count")
  if nExpert.pyTruthy then do
    let experts := h.tensors.filterMap fun t => (expertParts t.name).map fun m => (t, m)
    let slice ← experts.mapM fun e => modelTensor nExpert dataStart e.1 e.2
    summarise {
      arch := h.get "general.architecture"
      nExpert := nExpert
      nEmbd := h.get (arch ++ ".embedding_length")
      nLayer := h.get (arch ++ ".block_count")
      nFfExpert := h.get (arch ++ ".expert_feed_forward_length")
      dataStart := dataStart
      slice := slice
      expertLayers := []
      bytesPerExpert := .fin 0 }
  else none

/-- `Model(path)`. -/
def loadModel (file : Bytes) : Option Model :=
  match readHeader unbounded file with
  | .ok h => modelOf spell h
  | .error _ => none

end

def Value.amount : Value → Num
  | .int n => .fin n
  | .float x => x
  | .bool b => .fin (if b then 1 else 0)
  | _ => .nan

/-- An entry of the map in the shape of the other program. -/
def viewSlice (e : (ℤ × Which) × ModelSlice) : (Num × Which) × Slice :=
  ((.fin e.1.1, e.1.2), ⟨.fin e.2.offset, e.2.perExpert, e.2.type, e.2.dims⟩)

/-- `dump_map`, in the shape of the other program. -/
def Model.layout (m : Model) : Layout where
  nExpert := m.nExpert.amount
  nEmbd := m.nEmbd
  nLayer := m.nLayer
  expertLayers := m.expertLayers.map fun (l : ℤ) => .fin l
  bytesPerExpert := m.bytesPerExpert
  slice := m.slice.map viewSlice

end KvasirNet.Gguf
