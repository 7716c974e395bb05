import Mathlib.Algebra.Order.BigOperators.Group.List
import Mathlib.Algebra.Order.Ring.Nat
import KvasirNet.ByteFormat

/-! UTF-8 as a decoder that never fails: a malformed sequence becomes U+FFFD,
one for each maximal beginning of a character, as the encoding standard has
it. Valid text comes back unchanged. -/
namespace KvasirNet

def utf8 (s : String) : Bytes := s.toByteArray.data.toList

/-- How many of the `needed` continuation bytes follow; the first has bounds
of its own. -/
def continuations : ℕ → UInt8 → UInt8 → Bytes → ℕ
  | 0, _, _, _ => 0
  | _ + 1, _, _, [] => 0
  | needed + 1, lower, upper, b :: bs =>
    if lower ≤ b ∧ b ≤ upper then 1 + continuations needed 0x80 0xBF bs else 0

/-- The bytes one replacement character stands for. -/
def malformedLength : Bytes → ℕ
  | [] => 0
  | b :: bs =>
    if 0xC2 ≤ b ∧ b ≤ 0xDF then 1 + continuations 1 0x80 0xBF bs
    else if b = 0xE0 then 1 + continuations 2 0xA0 0xBF bs
    else if b = 0xED then 1 + continuations 2 0x80 0x9F bs
    else if 0xE1 ≤ b ∧ b ≤ 0xEF then 1 + continuations 2 0x80 0xBF bs
    else if b = 0xF0 then 1 + continuations 3 0x90 0xBF bs
    else if b = 0xF4 then 1 + continuations 3 0x80 0x8F bs
    else if 0xF1 ≤ b ∧ b ≤ 0xF3 then 1 + continuations 3 0x80 0xBF bs
    else 1

def decodeChars : ℕ → Bytes → List Char
  | 0, _ => []
  | _ + 1, [] => []
  | fuel + 1, b :: bs =>
    match ByteArray.utf8DecodeChar? (b :: bs).toByteArray 0 with
    | some c => c :: decodeChars fuel ((b :: bs).drop c.utf8Size)
    | none => '\uFFFD' :: decodeChars fuel ((b :: bs).drop (malformedLength (b :: bs)))

/-- Every step takes at least one byte, so the length is fuel enough. -/
def ofUtf8 (bs : Bytes) : String := String.ofList (decodeChars bs.length bs)

theorem utf8_ofList (l : List Char) : utf8 (String.ofList l) = l.flatMap String.utf8EncodeChar := by
  simp [utf8, List.utf8Encode, List.data_toByteArray]

theorem decodeChars_flatMap (l : List Char) (fuel : ℕ) (h : l.length ≤ fuel) :
    decodeChars fuel (l.flatMap String.utf8EncodeChar) = l := by
  induction l generalizing fuel with
  | nil => cases fuel <;> rfl
  | cons c l ih =>
    obtain ⟨fuel, rfl⟩ : ∃ k, fuel = k + 1 := ⟨fuel - 1, by simp at h; omega⟩
    have hlen : (String.utf8EncodeChar c).length = c.utf8Size := String.length_utf8EncodeChar c
    obtain ⟨b, bs, hbs⟩ : ∃ b bs,
        (c :: l).flatMap String.utf8EncodeChar = b :: bs := by
      apply List.exists_cons_of_ne_nil
      simp [String.utf8EncodeChar_ne_nil]
    have hdecode : ByteArray.utf8DecodeChar? (b :: bs).toByteArray 0 = some c := by
      rw [← hbs, List.flatMap_cons, List.toByteArray_append]
      exact ByteArray.utf8DecodeChar?_utf8EncodeChar_append
    have hdrop : (b :: bs).drop c.utf8Size = l.flatMap String.utf8EncodeChar := by
      rw [← hbs, List.flatMap_cons, ← hlen, List.drop_left]
    rw [hbs]
    simp only [decodeChars, hdecode, hdrop]
    rw [ih fuel (by simp at h; omega)]

theorem ofUtf8_utf8 (s : String) : ofUtf8 (utf8 s) = s := by
  have hs : utf8 s = s.toList.flatMap String.utf8EncodeChar := by
    rw [← utf8_ofList, String.ofList_toList]
  have hlen : s.toList.length ≤ (utf8 s).length := by
    rw [hs, List.length_flatMap]
    calc
      s.toList.length = (s.toList.map fun _ => 1).sum := by simp
      _ ≤ (s.toList.map fun c => (String.utf8EncodeChar c).length).sum := by
        apply List.sum_le_sum
        intro c _
        rw [String.length_utf8EncodeChar]
        exact c.utf8Size_pos
  rw [ofUtf8, hs, decodeChars_flatMap _ _ (hs ▸ hlen), String.ofList_toList]

def IsUtf8 (bs : Bytes) : Prop := ∃ s, bs = utf8 s

theorem isUtf8_iff (bs : Bytes) : IsUtf8 bs ↔ utf8 (ofUtf8 bs) = bs := by
  constructor
  · rintro ⟨s, rfl⟩
    rw [ofUtf8_utf8]
  · intro h
    exact ⟨ofUtf8 bs, h.symm⟩

instance (bs : Bytes) : Decidable (IsUtf8 bs) := decidable_of_iff _ (isUtf8_iff bs).symm

theorem utf8_injective : Function.Injective utf8 :=
  Function.LeftInverse.injective ofUtf8_utf8

-- a truncated three-byte character is one replacement, a stray byte another
example : ofUtf8 [0xE2, 0x82, 0x41, 0xFF] = "\uFFFDA\uFFFD" := by decide

/-! ### Where a text is cut -/

theorem firstCut_inj {α : Type*} {c : α} {xs xs' ys ys' : List α} (hx : c ∉ xs) (hx' : c ∉ xs')
    (h : xs ++ c :: ys = xs' ++ c :: ys') : xs = xs' ∧ ys = ys' := by
  induction xs generalizing xs' with
  | nil =>
    cases xs' with
    | nil => exact ⟨rfl, (List.cons.inj h).2⟩
    | cons x' xs' =>
      obtain ⟨rfl, -⟩ := List.cons.inj h
      exact absurd List.mem_cons_self hx'
  | cons x xs ih =>
    cases xs' with
    | nil =>
      obtain ⟨rfl, -⟩ := List.cons.inj h
      exact absurd List.mem_cons_self hx
    | cons x' xs' =>
      obtain ⟨rfl, htail⟩ := List.cons.inj h
      obtain ⟨rfl, rfl⟩ := ih (fun hc => hx (List.mem_cons_of_mem x hc))
        (fun hc => hx' (List.mem_cons_of_mem x hc)) htail
      exact ⟨rfl, rfl⟩

theorem lastCut_inj {α : Type*} {c : α} {xs xs' ys ys' : List α} (hy : c ∉ ys) (hy' : c ∉ ys')
    (h : xs ++ c :: ys = xs' ++ c :: ys') : xs = xs' ∧ ys = ys' := by
  have hrev : ys.reverse ++ c :: xs.reverse = ys'.reverse ++ c :: xs'.reverse := by
    have := congrArg List.reverse h
    simpa using this
  obtain ⟨hys, hxs⟩ := firstCut_inj (fun hc => hy (List.mem_reverse.mp hc))
    (fun hc => hy' (List.mem_reverse.mp hc)) hrev
  exact ⟨List.reverse_injective hxs, List.reverse_injective hys⟩

end KvasirNet
