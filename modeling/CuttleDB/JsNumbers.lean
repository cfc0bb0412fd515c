import CuttleDB.Numerals
import Mathlib.Algebra.Order.Floor.Semifield

/-!
# JavaScript numbers in a command

A template string writes a number with the fewest digits that tell it from the others,
and with an exponent when it is 1e21 or above or below 1e-6. `parseInt` reads such a text
only as far as its digits go: the point, the fraction and the exponent are left unread.
-/

namespace CuttleDB.Js

open Binary64

/-- The digits of a positive number, with the point or the exponent. -/
def decimalText (d : Decimal) : Text :=
  let ds := Nat.toDigits 10 d.digits
  let n : Int := ds.length + d.exponent
  if 0 ≤ d.exponent ∧ n ≤ 21 then ds ++ List.replicate d.exponent.toNat '0'
  else if 0 < n ∧ n ≤ 21 then ds.take n.toNat ++ '.' :: ds.drop n.toNat
  else if -6 < n ∧ n ≤ 0 then '0' :: '.' :: (List.replicate (-n).toNat '0' ++ ds)
  else
    let fraction := if ds.length = 1 then [] else '.' :: ds.tail
    let exponent := (if n - 1 < 0 then '-' else '+') :: Nat.toDigits 10 (n - 1).natAbs
    ds.take 1 ++ fraction ++ 'e' :: exponent

/-- `String(x)` -/
def numberText : Double → Text
  | .finite q =>
    if q = 0 then ['0']
    else if q < 0 then '-' :: decimalText (shortest (-q))
    else decimalText (shortest q)
  | .infinity negative => (if negative then ['-'] else []) ++ "Infinity".toList
  | .nan => "NaN".toList

/-- `parseInt(s, 10)` -/
def parseInt (s : Text) : Double :=
  let (negative, s) := sign (s.dropWhile isSpace)
  let ds := s.takeWhile Char.isDigit
  if ds = [] then .nan
  else
    let x := ofRat (Nat.ofDigitChars 10 ds 0)
    if negative then x.neg else x

/-- The digits of a decimal before its point or, where it is written with an exponent, its
first digit. -/
def wholePart (d : Decimal) : Nat :=
  let k := (Nat.toDigits 10 d.digits).length
  let n : Int := k + d.exponent
  if -6 < n ∧ n ≤ 21 then ⌊d.value⌋₊ else d.digits / 10 ^ (k - 1)

/-- The integer that the text of `q` begins with. -/
def wholeNumber (q : Rat) : Int :=
  if q = 0 then 0
  else if q < 0 then -wholePart (shortest (-q))
  else wholePart (shortest q)

/-! ### The digits before the point -/

theorem ofDigitChars_lt {ds : Text} (hds : ∀ c ∈ ds, c.isDigit = true) :
    Nat.ofDigitChars 10 ds 0 < 10 ^ ds.length := by
  induction ds with
  | nil => simp
  | cons c ds ih =>
    have hc := digit_bounds (hds c (by simp))
    have hlt := ih fun c hc => hds c (by simp [hc])
    rw [Nat.ofDigitChars_cons, Nat.ofDigitChars_eq_ofDigitChars_zero, List.length_cons, pow_succ]
    have hdigit : 10 * 0 + (c.toNat - '0'.toNat) ≤ 9 := by
      simp only [Char.reduceToNat]
      omega
    have hmul := Nat.mul_le_mul_left (10 ^ ds.length) hdigit
    omega

/-- The first digits of a number, as a number. -/
theorem ofDigitChars_take {ds : Text} (hds : ∀ c ∈ ds, c.isDigit = true) (i : Nat) :
    Nat.ofDigitChars 10 (ds.take i) 0 = Nat.ofDigitChars 10 ds 0 / 10 ^ (ds.length - i) := by
  have hlt : Nat.ofDigitChars 10 (ds.drop i) 0 < 10 ^ (ds.length - i) := by
    have hdrop : ∀ c ∈ ds.drop i, c.isDigit = true := fun c hc => hds c (List.mem_of_mem_drop hc)
    simpa using ofDigitChars_lt hdrop
  have hsplit : Nat.ofDigitChars 10 ds 0 = 10 ^ (ds.length - i) *
      Nat.ofDigitChars 10 (ds.take i) 0 + Nat.ofDigitChars 10 (ds.drop i) 0 := by
    conv_lhs => rw [← List.take_append_drop i ds, Nat.ofDigitChars_append,
      Nat.ofDigitChars_eq_ofDigitChars_zero, List.length_drop]
  rw [hsplit, Nat.mul_add_div (by positivity), Nat.div_eq_of_lt hlt, Nat.add_zero]

theorem lt_pow_length_toDigits (m : Nat) : m < 10 ^ (Nat.toDigits 10 m).length :=
  (Nat.length_toDigits_le_iff (by decide) Nat.length_toDigits_pos).mp le_rfl

theorem pow_length_toDigits_le {m : Nat} (hm : 0 < m) :
    10 ^ ((Nat.toDigits 10 m).length - 1) ≤ m := by
  by_cases hone : (Nat.toDigits 10 m).length - 1 = 0
  · rw [hone]
    exact hm
  · by_contra hlt
    have hle := (Nat.length_toDigits_le_iff (b := 10) (by decide)
      (Nat.pos_of_ne_zero hone)).mpr (Nat.not_le.mp hlt)
    omega

theorem floor_value_ofNat {d : Decimal} {j : Nat} (h : d.exponent = j) :
    ⌊d.value⌋₊ = d.digits * 10 ^ j := by
  have hvalue : d.value = ((d.digits * 10 ^ j : Nat) : Rat) := by
    rw [Decimal.value, h]
    push_cast
    rw [zpow_natCast]
  rw [hvalue, Nat.floor_natCast]

theorem floor_value_neg {d : Decimal} {j : Nat} (h : d.exponent = -(j : Int)) :
    ⌊d.value⌋₊ = d.digits / 10 ^ j := by
  have hvalue : d.value = (d.digits : Rat) / ((10 ^ j : Nat) : Rat) := by
    rw [Decimal.value, h, zpow_neg, zpow_natCast, div_eq_mul_inv]
    push_cast
    rfl
  rw [hvalue, Nat.floor_div_natCast, Nat.floor_natCast]

theorem takeWhile_digits {ds : Text} (hds : ∀ c ∈ ds, c.isDigit = true) {c : Char}
    (hc : c.isDigit = false) (s : Text) : (ds ++ c :: s).takeWhile Char.isDigit = ds := by
  rw [List.takeWhile_append_of_pos hds, List.takeWhile_cons, hc]
  simp

/-- **The text of a number begins with its whole part.** -/
theorem takeWhile_decimalText (d : Decimal) :
    (decimalText d).takeWhile Char.isDigit ≠ [] ∧
      Nat.ofDigitChars 10 ((decimalText d).takeWhile Char.isDigit) 0 = wholePart d := by
  have hds : ∀ c ∈ Nat.toDigits 10 d.digits, c.isDigit = true := fun _ hc =>
    isDigit_of_mem_toDigits hc
  have hpos : 0 < (Nat.toDigits 10 d.digits).length := Nat.length_toDigits_pos
  have htake : ∀ i, ∀ c ∈ (Nat.toDigits 10 d.digits).take i, c.isDigit = true := fun i c hc =>
    hds c (List.mem_of_mem_take hc)
  unfold decimalText wholePart
  dsimp only
  split
  · rename_i hwhole
    obtain ⟨j, hj⟩ := Int.eq_ofNat_of_zero_le hwhole.1
    have hall : ∀ c ∈ Nat.toDigits 10 d.digits ++ List.replicate d.exponent.toNat '0',
        c.isDigit = true := by
      intro c hc
      rcases List.mem_append.mp hc with hc | hc
      · exact hds c hc
      · obtain rfl := List.eq_of_mem_replicate hc
        decide
    rw [List.takeWhile_eq_self_iff.mpr hall, if_pos (by omega), floor_value_ofNat hj]
    refine ⟨by simp [Nat.toDigits_ne_nil], ?_⟩
    rw [Nat.ofDigitChars_append, Nat.ofDigitChars_ten_toDigits, Nat.ofDigitChars_replicate_zero, hj,
      Int.toNat_natCast, Nat.mul_comm]
  · split
    · rename_i hwhole hpoint
      obtain ⟨j, hj⟩ := Int.exists_eq_neg_ofNat (show d.exponent ≤ 0 by omega)
      rw [takeWhile_digits (htake _) (by decide), if_pos (by omega), floor_value_neg hj,
        ofDigitChars_take hds, Nat.ofDigitChars_ten_toDigits]
      refine ⟨?_, ?_⟩
      · rw [← List.length_pos_iff, List.length_take]
        omega
      · congr 2
        omega
    · split
      · rename_i hpoint hzeros
        obtain ⟨j, hj⟩ := Int.exists_eq_neg_ofNat (show d.exponent ≤ 0 by omega)
        have hlt : d.digits < 10 ^ j :=
          (lt_pow_length_toDigits d.digits).trans_le (Nat.pow_le_pow_right (by decide) (by omega))
        rw [if_pos (by omega), floor_value_neg hj, Nat.div_eq_of_lt hlt]
        simp [Nat.ofDigitChars_cons]
      · rename_i hpoint hzeros
        have hnext : ∃ c s, c.isDigit = false ∧
            (if (Nat.toDigits 10 d.digits).length = 1 then []
              else '.' :: (Nat.toDigits 10 d.digits).tail) ++
              'e' :: ((if (Nat.toDigits 10 d.digits).length + d.exponent - 1 < 0 then '-' else '+')
                :: Nat.toDigits 10
                  ((Nat.toDigits 10 d.digits).length + d.exponent - 1).natAbs) = c :: s := by
          split
          · exact ⟨'e', _, by decide, rfl⟩
          · exact ⟨'.', _, by decide, rfl⟩
        obtain ⟨c, s, hc, htext⟩ := hnext
        rw [List.append_assoc, htext, takeWhile_digits (htake 1) hc, if_neg (by omega),
          ofDigitChars_take hds, Nat.ofDigitChars_ten_toDigits]
        refine ⟨?_, rfl⟩
        rw [← List.length_pos_iff, List.length_take]
        omega

/-! ### What `parseInt` makes of a number -/

theorem isSpace_of_isDigit {c : Char} (hc : c.isDigit = true) : isSpace c = false := by
  have hbounds := digit_bounds hc
  simp only [isSpace, Bool.or_eq_false_iff, Bool.and_eq_false_iff, decide_eq_false_iff_not,
    beq_eq_false_iff_ne]
  omega

theorem exists_cons_decimalText (d : Decimal) :
    ∃ c s, decimalText d = c :: s ∧ c.isDigit = true := by
  obtain ⟨hne, -⟩ := takeWhile_decimalText d
  cases htext : decimalText d with
  | nil => simp [htext] at hne
  | cons c s =>
    refine ⟨c, s, rfl, ?_⟩
    by_contra hc
    simp [htext, hc] at hne

theorem parseInt_decimalText (d : Decimal) : parseInt (decimalText d) = ofRat (wholePart d) := by
  obtain ⟨c, s, htext, hc⟩ := exists_cons_decimalText d
  obtain ⟨hne, hvalue⟩ := takeWhile_decimalText d
  have hdrop : (decimalText d).dropWhile isSpace = decimalText d := by
    rw [htext, List.dropWhile_cons, isSpace_of_isDigit hc]
    simp
  have hsign : sign (decimalText d) = (false, decimalText d) := by
    rw [htext]
    unfold sign
    split
    · exact absurd (List.cons.inj ‹_›).1 (by rintro rfl; simp at hc)
    · exact absurd (List.cons.inj ‹_›).1 (by rintro rfl; simp at hc)
    · rfl
  rw [parseInt, hdrop, hsign]
  simp [hne, hvalue]

theorem parseInt_neg_decimalText (d : Decimal) :
    parseInt ('-' :: decimalText d) = (ofRat (wholePart d)).neg := by
  obtain ⟨hne, hvalue⟩ := takeWhile_decimalText d
  have hdrop : ('-' :: decimalText d).dropWhile isSpace = '-' :: decimalText d := by
    rw [List.dropWhile_cons, if_neg (by decide)]
  rw [parseInt, hdrop]
  simp [sign, hne, hvalue]

/-- An integer in plain digits. -/
structure IsPlain (t : Text) (n : Nat) : Prop where
  digits : ∀ c ∈ t, c.isDigit = true
  ne_nil : t ≠ []
  value : Nat.ofDigitChars 10 t 0 = n

theorem IsPlain.number? {t : Text} {n : Nat} (h : IsPlain t n) : number? t = some (n : Rat) := by
  rw [CuttleDB.number?, sign_digits h.digits]
  simp [decimal?_digits h.digits (plainDigits?_eq h.ne_nil h.digits), h.value]

theorem IsPlain.number?_neg {t : Text} {n : Nat} (h : IsPlain t n) :
    CuttleDB.number? ('-' :: t) = some (-(n : Rat)) := by
  rw [CuttleDB.number?, sign]
  simp [decimal?_digits h.digits (plainDigits?_eq h.ne_nil h.digits), h.value]

/-- A decimal that is an integer of at most 21 places is written in plain digits. -/
theorem decimalText_isPlain {d : Decimal} {j n : Nat} (hj : d.exponent = j)
    (hlength : (Nat.toDigits 10 d.digits).length + j ≤ 21) (hn : d.value = n) :
    IsPlain (decimalText d) n := by
  have htext : decimalText d = Nat.toDigits 10 d.digits ++ List.replicate j '0' := by
    rw [decimalText]
    dsimp only
    rw [if_pos (by omega), hj, Int.toNat_natCast]
  have hvalue : d.digits * 10 ^ j = n := by
    rw [← floor_value_ofNat hj, hn, Nat.floor_natCast]
  refine ⟨fun c hc => ?_, ?_, ?_⟩
  · rw [htext] at hc
    rcases List.mem_append.mp hc with hc | hc
    · exact isDigit_of_mem_toDigits hc
    · obtain rfl := List.eq_of_mem_replicate hc
      decide
  · simp [htext, Nat.toDigits_ne_nil]
  · rw [htext, Nat.ofDigitChars_append, Nat.ofDigitChars_ten_toDigits,
      Nat.ofDigitChars_replicate_zero, Nat.mul_comm, hvalue]

/-- **An integer below 2^52 is written in its own digits.** -/
theorem decimalText_natCast {n : Nat} (hpos : 0 < n) (hn : n < 2 ^ 52) :
    ofRat (n : Rat) = .finite n ∧ IsPlain (decimalText (shortest n)) n := by
  have hrepresentable : ∀ m : Nat, m ≤ 2 ^ 52 → Representable (m : Rat) := fun m hm => by
    simpa using ofRat_intCast (n := (m : Int)) (by rw [abs_of_nonneg (by positivity)]; omega)
  have hself := hrepresentable n hn.le
  have hrat : (0 : Rat) < n := by exact_mod_cast hpos
  obtain ⟨j, hj⟩ := Int.eq_ofNat_of_zero_le (shortest_exponent_nonneg hself)
  have hdigits := shortest_digits_pos hself hrat
  have hvalue : (shortest (n : Rat)).value = ((shortest (n : Rat)).digits * 10 ^ j : Nat) := by
    rw [Decimal.value, hj]
    push_cast
    rw [zpow_natCast]
  generalize hd : shortest (n : Rat) = d at *
  have hback : ofRat d.value = .finite n := hd ▸ ofRat_shortest hself hrat
  have hbound : d.digits * 10 ^ j < 2 ^ 52 := by
    by_contra hlt
    have hle : ((2 ^ 52 : Nat) : Rat) ≤ d.value := by
      rw [hvalue]
      exact_mod_cast Nat.not_lt.mp hlt
    have hbelow := (hrepresentable (2 ^ 52) le_rfl).le_of_ofRat (by positivity) hle hback
    exact absurd (Nat.cast_le.mp hbelow) (Nat.not_le.mpr hn)
  have hn' : d.value = n := by
    rw [hvalue] at hback ⊢
    exact Double.finite.inj ((hrepresentable _ hbound.le).symm.trans hback)
  refine ⟨hself, decimalText_isPlain hj ?_ hn'⟩
  have hplaces : 10 ^ ((Nat.toDigits 10 d.digits).length - 1 + j) < 10 ^ 16 := by
    rw [Nat.pow_add]
    calc 10 ^ ((Nat.toDigits 10 d.digits).length - 1) * 10 ^ j
        ≤ d.digits * 10 ^ j := Nat.mul_le_mul_right _ (pow_length_toDigits_le hdigits)
      _ < 2 ^ 52 := hbound
      _ < 10 ^ 16 := by norm_num
  have hexponent := (Nat.pow_lt_pow_iff_right (by decide : 1 < 10)).mp hplaces
  omega

/-- **The whole part of a number, once read, is written in plain digits.** -/
theorem ofRat_wholePart {x : Rat} (h : Representable x) (hx : 0 < x) :
    wholePart (shortest x) = 0 ∨
      ∃ y, 0 < y ∧ ofRat (wholePart (shortest x)) = .finite y ∧
        IsPlain (decimalText (shortest y)) (wholePart (shortest x)) := by
  have hsmall : ∀ n : Nat, wholePart (shortest x) = n → n < 2 ^ 52 → n = 0 ∨
      ∃ y, 0 < y ∧ ofRat (n : Rat) = .finite y ∧ IsPlain (decimalText (shortest y)) n := by
    intro n _ hn
    rcases Nat.eq_zero_or_pos n with hzero | hpos
    · exact Or.inl hzero
    · obtain ⟨hself, hplain⟩ := decimalText_natCast hpos hn
      exact Or.inr ⟨n, by exact_mod_cast hpos, hself, hplain⟩
  have hback := ofRat_shortest h hx
  have hdigits := shortest_digits_pos h hx
  have hlt := lt_pow_length_toDigits (shortest x).digits
  have hpos : 0 < (Nat.toDigits 10 (shortest x).digits).length := Nat.length_toDigits_pos
  by_cases hplain : -6 < (Nat.toDigits 10 (shortest x).digits).length + (shortest x).exponent ∧
      (Nat.toDigits 10 (shortest x).digits).length + (shortest x).exponent ≤ 21
  · have hwhole : wholePart (shortest x) = ⌊(shortest x).value⌋₊ := if_pos hplain
    by_cases hexponent : 0 ≤ (shortest x).exponent
    · -- an integer: what is read is the number itself
      obtain ⟨j, hj⟩ := Int.eq_ofNat_of_zero_le hexponent
      have hvalue : (shortest x).value = (wholePart (shortest x) : Rat) := by
        rw [hwhole, floor_value_ofNat hj, Decimal.value, hj]
        push_cast
        rw [zpow_natCast]
      refine Or.inr ⟨x, hx, ?_, decimalText_isPlain hj (by omega) hvalue⟩
      rw [← hvalue, hback]
    · -- a fraction: the number is below 2^52
      apply hsmall _ rfl
      have hfraction : x < 2 ^ 52 := by
        by_contra hlarge
        obtain ⟨m, hm⟩ := h.exists_int (by rw [abs_of_pos hx]; exact not_lt.mp hlarge)
        obtain ⟨n, rfl⟩ := Int.eq_ofNat_of_zero_le (show 0 ≤ m by
          have hm' : (0 : Rat) < m := hm ▸ hx
          exact_mod_cast hm'.le)
        rw [Int.cast_natCast] at hm
        rw [hm] at h hexponent
        exact hexponent (shortest_exponent_nonneg h)
      rw [hwhole, Nat.floor_lt (by unfold Decimal.value; positivity)]
      by_contra hlarge
      have hrepresentable : Representable (((2 ^ 52 : Int)) : Rat) := ofRat_intCast (by norm_num)
      have hle : (((2 ^ 52 : Int)) : Rat) ≤ (shortest x).value := by
        push_cast at hlarge ⊢
        exact not_lt.mp hlarge
      have hbelow := hrepresentable.le_of_ofRat (by positivity) hle hback
      push_cast at hbelow
      exact absurd hfraction (not_lt.mpr hbelow)
  · -- with an exponent: one digit
    apply hsmall _ rfl
    have hwhole : wholePart (shortest x) =
        (shortest x).digits / 10 ^ ((Nat.toDigits 10 (shortest x).digits).length - 1) :=
      if_neg hplain
    have hten : 10 ^ (Nat.toDigits 10 (shortest x).digits).length =
        10 ^ ((Nat.toDigits 10 (shortest x).digits).length - 1) * 10 := by
      rw [← Nat.pow_succ, Nat.succ_eq_add_one, Nat.sub_add_cancel hpos]
    have hdigit : wholePart (shortest x) < 10 := by
      rw [hwhole, Nat.div_lt_iff_lt_mul (by positivity), Nat.mul_comm, ← hten]
      exact hlt
    exact hdigit.trans (by norm_num)

/-- **`parseInt`, written out again, gives the whole number.** -/
theorem number?_parseInt {q : Rat} (h : Representable q) :
    number? (numberText (parseInt (numberText (.finite q)))) = some (wholeNumber q : Rat) := by
  have hzero : number? (numberText (.finite 0)) = some 0 := by
    have htext : numberText (.finite 0) = intText 0 := by
      simp [numberText, intText, Nat.toDigits_zero]
    rw [htext, number?_intText, Int.cast_zero]
  have hofZero : ofRat 0 = .finite 0 := by simpa using ofRat_intCast (n := 0) (by norm_num)
  rcases lt_trichotomy q 0 with hneg | rfl | hpos
  · have hx : 0 < -q := neg_pos.mpr hneg
    have hwhole : wholeNumber q = -wholePart (shortest (-q)) := by
      rw [wholeNumber, if_neg hneg.ne, if_pos hneg]
    have hparse : parseInt (numberText (.finite q)) = (ofRat (wholePart (shortest (-q)))).neg := by
      rw [numberText, if_neg hneg.ne, if_pos hneg, parseInt_neg_decimalText]
    rw [hparse, hwhole]
    rcases ofRat_wholePart h.neg hx with hnone | ⟨y, hy, hread, hplain⟩
    · simp [hnone, hofZero, Double.neg, hzero]
    · have hyneg : -y < 0 := neg_neg_of_pos hy
      rw [hread, Double.neg, numberText, if_neg hyneg.ne, if_pos hyneg, neg_neg,
        hplain.number?_neg]
      push_cast
      rfl
  · have hself : parseInt (numberText (.finite 0)) = .finite 0 := by
      have hfrom := parseInt_decimalText ⟨0, 0⟩
      simpa [numberText, decimalText, wholePart, Decimal.value, hofZero] using hfrom
    rw [hself, hzero, wholeNumber, if_pos rfl, Int.cast_zero]
  · have hwhole : wholeNumber q = wholePart (shortest q) := by
      rw [wholeNumber, if_neg hpos.ne', if_neg hpos.not_gt]
    have hparse : parseInt (numberText (.finite q)) = ofRat (wholePart (shortest q)) := by
      rw [numberText, if_neg hpos.ne', if_neg hpos.not_gt, parseInt_decimalText]
    rw [hparse, hwhole]
    rcases ofRat_wholePart h hpos with hnone | ⟨y, hy, hread, hplain⟩
    · simp [hnone, hofZero, hzero]
    · rw [hread, numberText, if_neg hy.ne', if_neg hy.not_gt, hplain.number?]
      simp

end CuttleDB.Js
