import Mathlib.Data.List.Basic
import Mathlib.Data.List.Count

/-!
# UTF-8 over lists of bytes

Encoding and strict decoding of texts as lists of bytes, by the core library's
codec, and the one property of the encoding that line protocols rest on: an
ASCII byte occurs in an encoded text exactly where the text has that character.
-/

namespace Utf8

def encode (t : List Char) : List UInt8 := t.flatMap String.utf8EncodeChar

/-- Strict decoding: `none` if the bytes are not UTF-8. -/
def decode? (b : List UInt8) : Option (List Char) :=
  b.toByteArray.utf8Decode?.map Array.toList

@[simp] theorem encode_nil : encode [] = [] := rfl

theorem encode_append (s t : List Char) : encode (s ++ t) = encode s ++ encode t :=
  List.flatMap_append

theorem encode_cons (c : Char) (t : List Char) :
    encode (c :: t) = String.utf8EncodeChar c ++ encode t := rfl

theorem toByteArray_encode (t : List Char) : (encode t).toByteArray = t.utf8Encode := by
  simp [encode, List.utf8Encode]

@[simp] theorem decode?_encode (t : List Char) : decode? (encode t) = some t := by
  rw [decode?, toByteArray_encode, List.utf8Decode?_utf8Encode]
  rfl

theorem length_le_encode (t : List Char) : t.length ≤ (encode t).length := by
  induction t with
  | nil => exact Nat.le_refl _
  | cons c t ih =>
    have hpos : 0 < (String.utf8EncodeChar c).length := by
      rw [String.length_utf8EncodeChar]
      exact c.utf8Size_pos
    rw [encode_cons, List.length_append, List.length_cons]
    omega

/-- Strict decoding accepts the encodings of texts, and no other bytes. -/
theorem encode_of_decode? {b : List UInt8} {t : List Char} (h : decode? b = some t) :
    encode t = b := by
  obtain ⟨array, harray, rfl⟩ := Option.map_eq_some_iff.mp h
  have hsome : b.toByteArray.utf8Decode?.isSome := by simp [harray]
  have hencode := ByteArray.utf8Encode_get_utf8Decode? (h := hsome)
  simp only [harray, Option.get_some, ← toByteArray_encode] at hencode
  rw [← @List.toList_data_toByteArray (encode array.toList), hencode, List.toList_data_toByteArray]

/-- An ASCII byte is in a character's encoding only as that character. -/
theorem ofNat_mem_utf8EncodeChar {n : Nat} (hn : n < 128) (c : Char) :
    UInt8.ofNat n ∈ String.utf8EncodeChar c ↔ c.toNat = n := by
  have hbyte : ∀ m : Nat, m < 256 → (UInt8.ofNat n = UInt8.ofNat m ↔ n = m) := by
    intro m hm
    rw [← UInt8.toNat_inj, UInt8.toNat_ofNat', UInt8.toNat_ofNat']
    omega
  have hc : c.val.toNat = c.toNat := rfl
  fun_cases String.utf8EncodeChar c with
  | case1 v hv =>
    rw [List.mem_singleton, hbyte v (by omega)]
    omega
  | case2 v h1 h2 =>
    simp only [List.mem_cons, List.not_mem_nil, or_false]
    rw [hbyte _ (by omega), hbyte _ (by omega)]
    omega
  | case3 v h1 h2 h3 =>
    simp only [List.mem_cons, List.not_mem_nil, or_false]
    rw [hbyte _ (by omega), hbyte _ (by omega), hbyte _ (by omega)]
    omega
  | case4 v h1 h2 h3 =>
    simp only [List.mem_cons, List.not_mem_nil, or_false]
    rw [hbyte _ (by omega), hbyte _ (by omega), hbyte _ (by omega), hbyte _ (by omega)]
    omega

theorem utf8EncodeChar_ascii {c : Char} (hc : c.toNat < 128) :
    String.utf8EncodeChar c = [UInt8.ofNat c.toNat] := by
  have hv : c.val.toNat ≤ 0x7f := Nat.le_of_lt_succ hc
  unfold String.utf8EncodeChar
  exact if_pos hv

theorem count_encode {c : Char} (hc : c.toNat < 128) (t : List Char) :
    (encode t).count (UInt8.ofNat c.toNat) = t.count c := by
  induction t with
  | nil => rfl
  | cons d t ih =>
    rw [encode_cons, List.count_append, ih, List.count_cons]
    by_cases hd : d = c
    · subst hd
      simp [utf8EncodeChar_ascii hc, Nat.add_comm]
    · have hnot : UInt8.ofNat c.toNat ∉ String.utf8EncodeChar d := by
        rw [ofNat_mem_utf8EncodeChar hc]
        exact fun h => hd (Char.toNat_inj.mp h)
      simp [List.count_eq_zero_of_not_mem hnot, hd]

/-! ### Decoding with replacement -/

/-- The character that the bytes begin with. -/
def first? (b : List UInt8) : Option Char := b.toByteArray.utf8DecodeChar? 0

/-- Whether `b` can follow `a` in the encoding of a character of three or four bytes. -/
def canFollow (a b : UInt8) : Bool :=
  let low : UInt8 := if a = 0xE0 then 0xA0 else if a = 0xF0 then 0x90 else 0x80
  let high : UInt8 := if a = 0xED then 0x9F else if a = 0xF4 then 0x8F else 0xBF
  0xE0 ≤ a && a ≤ 0xF4 && low ≤ b && b ≤ high

/-- How many bytes are replaced together, where no character begins: the longest
beginning of a character, and one byte where there is none. -/
def replaced : List UInt8 → Nat
  | a :: b :: c :: _ =>
    if canFollow a b then if 0xF0 ≤ a ∧ 0x80 ≤ c ∧ c ≤ 0xBF then 3 else 2 else 1
  | [a, b] => if canFollow a b then 2 else 1
  | _ => 1

/-- The loop of `decodeReplacing`, with the number of bytes still to be skipped. -/
def replaceLoop : Nat → List UInt8 → List Char
  | _, [] => []
  | skip + 1, _ :: rest => replaceLoop skip rest
  | 0, b :: rest =>
    match first? (b :: rest) with
    | some c => c :: replaceLoop (c.utf8Size - 1) rest
    | none => '\uFFFD' :: replaceLoop (replaced (b :: rest) - 1) rest

/-- Decoding that puts U+FFFD where the bytes are not UTF-8. -/
def decodeReplacing (b : List UInt8) : List Char := replaceLoop 0 b

theorem replaceLoop_skip (skipped b : List UInt8) :
    replaceLoop skipped.length (skipped ++ b) = replaceLoop 0 b := by
  induction skipped with
  | nil => rfl
  | cons x skipped ih => exact ih

theorem first?_cons (c : Char) (t : List Char) : first? (encode (c :: t)) = some c := by
  rw [first?, toByteArray_encode, List.utf8DecodeChar?_utf8Encode_cons]

/-- **Nothing is replaced in the encoding of a text.** -/
@[simp] theorem decodeReplacing_encode (t : List Char) : decodeReplacing (encode t) = t := by
  unfold decodeReplacing
  induction t with
  | nil => rfl
  | cons c t ih =>
    have hfirst := first?_cons c t
    have hlength : (String.utf8EncodeChar c).length = c.utf8Size :=
      String.length_utf8EncodeChar c
    have hpos := c.utf8Size_pos
    rw [encode_cons] at hfirst ⊢
    cases hbytes : String.utf8EncodeChar c with
    | nil =>
      rw [hbytes, List.length_nil] at hlength
      omega
    | cons x bytes =>
      rw [hbytes, List.length_cons] at hlength
      rw [hbytes, List.cons_append] at hfirst
      have hsize : c.utf8Size - 1 = bytes.length := by omega
      rw [List.cons_append, replaceLoop, hfirst]
      dsimp only
      rw [hsize, replaceLoop_skip, ih]

end Utf8
