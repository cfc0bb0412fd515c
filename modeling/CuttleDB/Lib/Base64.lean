import Mathlib.Data.UInt
import Mathlib.Data.List.Basic
import Mathlib.Data.Fintype.Basic

/-!
# Base64

The encoding of bytes as characters in groups of six bits, padded to a multiple of
four characters, and the bytes that a run of six-bit values stands for. A decoder is
a way to read the values of a text; whatever it skips or refuses, it inverts the
encoding when it reads the values that were written.
-/

namespace Base64

/-- The character of a six-bit value. -/
def char (v : Fin 64) : Char :=
  if v.val < 26 then Char.ofNat (65 + v.val)
  else if v.val < 52 then Char.ofNat (71 + v.val)
  else if v.val < 62 then Char.ofNat (v.val - 4)
  else if v.val = 62 then '+'
  else '/'

/-- The six-bit value of a character, when it is in the alphabet. -/
def value? (c : Char) : Option (Fin 64) := (List.finRange 64).find? fun v => char v = c

/-- The six-bit values of a run of bytes, the last one filled up with zero bits. -/
def values : List UInt8 → List (Fin 64)
  | a :: b :: c :: rest =>
    Fin.ofNat 64 (a.toNat / 4) :: Fin.ofNat 64 (a.toNat % 4 * 16 + b.toNat / 16) ::
      Fin.ofNat 64 (b.toNat % 16 * 4 + c.toNat / 64) :: Fin.ofNat 64 (c.toNat % 64) ::
      values rest
  | [a, b] =>
    [Fin.ofNat 64 (a.toNat / 4), Fin.ofNat 64 (a.toNat % 4 * 16 + b.toNat / 16),
      Fin.ofNat 64 (b.toNat % 16 * 4)]
  | [a] => [Fin.ofNat 64 (a.toNat / 4), Fin.ofNat 64 (a.toNat % 4 * 16)]
  | [] => []

/-- The whole bytes of a run of six-bit values. -/
def bytes : List (Fin 64) → List UInt8
  | a :: b :: c :: d :: rest =>
    UInt8.ofNat (a.val * 4 + b.val / 16) :: UInt8.ofNat (b.val % 16 * 16 + c.val / 4) ::
      UInt8.ofNat (c.val % 4 * 64 + d.val) :: bytes rest
  | [a, b, c] => [UInt8.ofNat (a.val * 4 + b.val / 16), UInt8.ofNat (b.val % 16 * 16 + c.val / 4)]
  | [a, b] => [UInt8.ofNat (a.val * 4 + b.val / 16)]
  | _ => []

/-- The `=` that fill up a text of `n` characters. -/
def padding (n : Nat) : List Char := List.replicate ((4 - n % 4) % 4) '='

def encode (b : List UInt8) : List Char :=
  (values b).map char ++ padding (values b).length

/-! ### Round trip -/

theorem ofNat_eq {n : Nat} {a : UInt8} (h : n = a.toNat) : UInt8.ofNat n = a := by
  rw [h, UInt8.ofNat_toNat]

/-- **The values of a run of bytes stand for those bytes.** -/
theorem bytes_values (b : List UInt8) : bytes (values b) = b := by
  induction b using values.induct with
  | case1 a b c rest ih =>
    have ha := a.toNat_lt
    have hb := b.toNat_lt
    have hc := c.toNat_lt
    simp only [values, bytes, Fin.val_ofNat, ih]
    congr 1
    · exact ofNat_eq (by omega)
    · congr 1
      · exact ofNat_eq (by omega)
      · congr 1
        exact ofNat_eq (by omega)
  | case2 a b =>
    have ha := a.toNat_lt
    have hb := b.toNat_lt
    simp only [values, bytes, Fin.val_ofNat]
    congr 1
    · exact ofNat_eq (by omega)
    · congr 1
      exact ofNat_eq (by omega)
  | case3 a =>
    have ha := a.toNat_lt
    simp only [values, bytes, Fin.val_ofNat]
    congr 1
    exact ofNat_eq (by omega)
  | case4 => rfl

/-- A group is never left with a single value. -/
theorem length_values_mod (b : List UInt8) : (values b).length % 4 ≠ 1 := by
  induction b using values.induct with
  | case1 a b c rest ih =>
    simp only [values, List.length_cons]
    omega
  | case2 a b => simp [values]
  | case3 a => simp [values]
  | case4 => simp [values]

/-! ### The alphabet -/

theorem value?_char (v : Fin 64) : value? (char v) = some v := by
  revert v
  decide +kernel

theorem value?_pad : value? '=' = none := by decide +kernel

theorem char_ne_pad (v : Fin 64) : char v ≠ '=' := by
  intro h
  have hsome := value?_char v
  rw [h, value?_pad] at hsome
  cases hsome

/-- A character of an encoding is in the alphabet or is the padding. -/
theorem mem_encode {c : Char} {b : List UInt8} (hc : c ∈ encode b) :
    c = '=' ∨ (value? c).isSome := by
  rcases List.mem_append.mp hc with hchar | hpad
  · obtain ⟨v, -, rfl⟩ := List.mem_map.mp hchar
    exact Or.inr (by simp [value?_char])
  · exact Or.inl (List.eq_of_mem_replicate hpad)

end Base64
