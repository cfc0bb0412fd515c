import Mathlib.Data.UInt
import Mathlib.Data.List.Basic

/-!
# UTF-16 over lists of code points

The code units of a text of code points. A surrogate code point stands for itself, so
that every text has an encoding. As with UTF-8, an ASCII unit occurs exactly where
the text has that character.
-/

namespace Utf16

/-- The code units of a code point. -/
def units (c : Fin 0x110000) : List UInt16 :=
  if c.val < 0x10000 then [UInt16.ofNat c.val]
  else [UInt16.ofNat (0xD800 + (c.val - 0x10000) / 0x400),
    UInt16.ofNat (0xDC00 + (c.val - 0x10000) % 0x400)]

def encode (s : List (Fin 0x110000)) : List UInt16 := s.flatMap units

@[simp] theorem encode_nil : encode [] = [] := rfl

theorem encode_cons (c : Fin 0x110000) (s : List (Fin 0x110000)) :
    encode (c :: s) = units c ++ encode s := rfl

theorem encode_append (s t : List (Fin 0x110000)) : encode (s ++ t) = encode s ++ encode t :=
  List.flatMap_append

theorem length_units_pos (c : Fin 0x110000) : 0 < (units c).length := by
  unfold units
  split <;> simp

theorem length_le_encode (s : List (Fin 0x110000)) : s.length ≤ (encode s).length := by
  induction s with
  | nil => exact Nat.le_refl _
  | cons c s ih =>
    have hunits := length_units_pos c
    rw [encode_cons, List.length_append, List.length_cons]
    omega

theorem units_of_lt {c : Fin 0x110000} (h : c.val < 0x10000) : units c = [UInt16.ofNat c.val] :=
  if_pos h

/-- An ASCII unit is in the encoding of a code point only as that character. -/
theorem ofNat_mem_units {n : Nat} (hn : n < 128) (c : Fin 0x110000) :
    UInt16.ofNat n ∈ units c ↔ c.val = n := by
  have hunit : ∀ m : Nat, m < 0x10000 → (UInt16.ofNat n = UInt16.ofNat m ↔ n = m) := by
    intro m hm
    rw [← UInt16.toNat_inj, UInt16.toNat_ofNat', UInt16.toNat_ofNat']
    omega
  have hc := c.isLt
  unfold units
  split
  · rename_i hlt
    rw [List.mem_singleton, hunit c.val hlt]
    omega
  · simp only [List.mem_cons, List.not_mem_nil, or_false]
    rw [hunit _ (by omega), hunit _ (by omega)]
    omega

/-- Every list of code units, lone surrogates included, encodes a text. -/
theorem encode_surjective : Function.Surjective encode := by
  intro us
  induction us with
  | nil => exact ⟨[], rfl⟩
  | cons u us ih =>
    obtain ⟨s, rfl⟩ := ih
    have hu : u.toNat < 0x10000 := u.toNat_lt
    refine ⟨⟨u.toNat, by omega⟩ :: s, ?_⟩
    rw [encode_cons, units_of_lt hu]
    simp

/-! ### Decoding -/

/-- The code units `u` and `v` are the two halves of one code point. -/
abbrev IsPair (u v : UInt16) : Prop := (0xD800 ≤ u ∧ u < 0xDC00) ∧ 0xDC00 ≤ v ∧ v < 0xE000

theorem pair_lt {u v : UInt16} (h : IsPair u v) :
    0x10000 + (u.toNat - 0xD800) * 0x400 + (v.toNat - 0xDC00) < 0x110000 := by
  have hu := UInt16.lt_iff_toNat_lt.mp h.1.2
  have hv := UInt16.lt_iff_toNat_lt.mp h.2.2
  simp only [UInt16.reduceToNat] at hu hv
  omega

/-- The code points of a text of code units. A surrogate without its partner stands for
itself. -/
def decode : List UInt16 → List (Fin 0x110000)
  | [] => []
  | [u] => [⟨u.toNat, Nat.lt_trans u.toNat_lt (by decide)⟩]
  | u :: v :: rest =>
    if h : IsPair u v then
      ⟨0x10000 + (u.toNat - 0xD800) * 0x400 + (v.toNat - 0xDC00), pair_lt h⟩ :: decode rest
    else ⟨u.toNat, Nat.lt_trans u.toNat_lt (by decide)⟩ :: decode (v :: rest)

/-- A code point that is half of a pair of code units. -/
abbrev IsSurrogate (c : Fin 0x110000) : Prop := 0xD800 ≤ c.val ∧ c.val < 0xE000

theorem decode_cons_of_not_surrogate {u : UInt16} (hu : ¬ (0xD800 ≤ u ∧ u < 0xDC00))
    (rest : List UInt16) :
    decode (u :: rest) = ⟨u.toNat, Nat.lt_trans u.toNat_lt (by decide)⟩ :: decode rest := by
  cases rest with
  | nil => rfl
  | cons v rest => rw [decode, dif_neg fun h => hu h.1]

/-- **A text without surrogates is decoded from its encoding.** -/
theorem decode_encode {s : List (Fin 0x110000)} (hs : ∀ c ∈ s, ¬ IsSurrogate c) :
    decode (encode s) = s := by
  induction s with
  | nil => rfl
  | cons c s ih =>
    have hc : ¬ (0xD800 ≤ c.val ∧ c.val < 0xE000) := hs c List.mem_cons_self
    have htail := ih fun d hd => hs d (List.mem_cons_of_mem _ hd)
    have hlt := c.isLt
    rw [encode_cons]
    by_cases hbmp : c.val < 0x10000
    · have hval : (UInt16.ofNat c.val).toNat = c.val := by
        rw [UInt16.toNat_ofNat', Nat.mod_eq_of_lt hbmp]
      have hunit : ¬ (0xD800 ≤ UInt16.ofNat c.val ∧ UInt16.ofNat c.val < 0xDC00) := by
        rw [UInt16.le_iff_toNat_le, UInt16.lt_iff_toNat_lt, hval]
        simp only [UInt16.reduceToNat]
        omega
      rw [units_of_lt hbmp, List.singleton_append, decode_cons_of_not_surrogate hunit, htail]
      congr 1
      exact Fin.ext hval
    · have hhigh : (UInt16.ofNat (0xD800 + (c.val - 0x10000) / 0x400)).toNat =
          0xD800 + (c.val - 0x10000) / 0x400 := by
        rw [UInt16.toNat_ofNat', Nat.mod_eq_of_lt (by omega)]
      have hlow : (UInt16.ofNat (0xDC00 + (c.val - 0x10000) % 0x400)).toNat =
          0xDC00 + (c.val - 0x10000) % 0x400 := by
        rw [UInt16.toNat_ofNat', Nat.mod_eq_of_lt (by omega)]
      have hpair : IsPair (UInt16.ofNat (0xD800 + (c.val - 0x10000) / 0x400))
          (UInt16.ofNat (0xDC00 + (c.val - 0x10000) % 0x400)) := by
        simp only [IsPair, UInt16.le_iff_toNat_le, UInt16.lt_iff_toNat_lt, hhigh, hlow,
          UInt16.reduceToNat]
        omega
      have hcode : 0x10000 + ((UInt16.ofNat (0xD800 + (c.val - 0x10000) / 0x400)).toNat - 0xD800) *
          0x400 + ((UInt16.ofNat (0xDC00 + (c.val - 0x10000) % 0x400)).toNat - 0xDC00) =
            c.val := by
        rw [hhigh, hlow]
        omega
      rw [units, if_neg hbmp, List.cons_append, List.singleton_append, decode, dif_pos hpair,
        htail]
      exact congrArg (· :: s) (Fin.ext hcode)

/-- **Every list of code units is the encoding of what it is decoded as.** -/
theorem encode_decode (us : List UInt16) : encode (decode us) = us := by
  induction us using decode.induct with
  | case1 => rfl
  | case2 u =>
    rw [decode, encode_cons, units_of_lt u.toNat_lt, UInt16.ofNat_toNat]
    rfl
  | case3 u v rest hpair ih =>
    have hu := UInt16.le_iff_toNat_le.mp hpair.1.1
    have hu' := UInt16.lt_iff_toNat_lt.mp hpair.1.2
    have hv := UInt16.le_iff_toNat_le.mp hpair.2.1
    have hv' := UInt16.lt_iff_toNat_lt.mp hpair.2.2
    simp only [UInt16.reduceToNat] at hu hu' hv hv'
    have hcode : (0x10000 + (u.toNat - 0xD800) * 0x400 + (v.toNat - 0xDC00)) - 0x10000 =
        (u.toNat - 0xD800) * 0x400 + (v.toNat - 0xDC00) := by omega
    have hhigh : 0xD800 + ((u.toNat - 0xD800) * 0x400 + (v.toNat - 0xDC00)) / 0x400 = u.toNat := by
      omega
    have hlow : 0xDC00 + ((u.toNat - 0xD800) * 0x400 + (v.toNat - 0xDC00)) % 0x400 = v.toNat := by
      omega
    rw [decode, dif_pos hpair, encode_cons, ih, units, if_neg (by simp only; omega), hcode, hhigh,
      hlow, UInt16.ofNat_toNat, UInt16.ofNat_toNat]
    rfl
  | case4 u v rest hpair ih =>
    rw [decode, dif_neg hpair, encode_cons, ih, units_of_lt u.toNat_lt, UInt16.ofNat_toNat]
    rfl

/-- A text that is cut between units that are no pair is decoded in two parts. -/
theorem decode_append {us vs : List UInt16}
    (hcut : ∀ u ∈ us.getLast?, ∀ v ∈ vs.head?, ¬ IsPair u v) :
    decode (us ++ vs) = decode us ++ decode vs := by
  induction us using decode.induct with
  | case1 => rfl
  | case2 u =>
    cases vs with
    | nil => rfl
    | cons v vs =>
      have hne : ¬ IsPair u v := hcut u (by simp) v (by simp)
      rw [List.singleton_append]
      conv_lhs => rw [decode, dif_neg hne]
      rfl
  | case3 u v rest hpair ih =>
    have hrest : ∀ w ∈ rest.getLast?, ∀ x ∈ vs.head?, ¬ IsPair w x := by
      intro w hw
      refine hcut w ?_
      cases rest with
      | nil => cases hw
      | cons y rest => simpa using hw
    rw [List.cons_append, List.cons_append, decode, dif_pos hpair, ih hrest, decode, dif_pos hpair]
    rfl
  | case4 u v rest hpair ih =>
    have hrest : ∀ w ∈ (v :: rest).getLast?, ∀ x ∈ vs.head?, ¬ IsPair w x := by
      intro w hw
      exact hcut w (by simpa using hw)
    rw [List.cons_append, List.cons_append, decode, dif_neg hpair, ← List.cons_append, ih hrest,
      decode, dif_neg hpair]
    rfl

end Utf16
