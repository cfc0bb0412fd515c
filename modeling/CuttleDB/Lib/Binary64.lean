import Mathlib.Data.Int.Log
import Mathlib.Data.Rat.Floor
import Mathlib.Algebra.Order.Ring.Rat
import Mathlib.Algebra.Order.Ring.Abs
import Mathlib.Algebra.Order.Field.Power
import Mathlib.Tactic.Positivity

/-!
# Binary64 numbers

The values of the binary64 format and the rounding of a rational number to the nearest
of them, ties to even. The two zeros are one value here: no comparison tells them apart.
-/

namespace Binary64

/-- A binary64 value. -/
inductive Double where
  | finite (q : Rat)
  | infinity (negative : Bool)
  | nan
deriving DecidableEq

def Double.neg : Double → Double
  | .finite q => .finite (-q)
  | .infinity negative => .infinity !negative
  | .nan => .nan

/-- The integer nearest to `q`, the even one of two. -/
def roundHalfEven (q : Rat) : Int :=
  let f := ⌊q⌋
  if q - f < 1 / 2 then f
  else if 1 / 2 < q - f then f + 1
  else if f % 2 = 0 then f
  else f + 1

/-- The exponent of the last place of a value of the size of `q`. -/
def lastPlace (q : Rat) : Int := max (Int.log 2 |q|) (-1022) - 52

/-- The binary64 value nearest to `q`. -/
def ofRat (q : Rat) : Double :=
  let r : Rat := (roundHalfEven (q / 2 ^ lastPlace q) : Rat) * 2 ^ lastPlace q
  if Int.log 2 |r| < 1024 then .finite r else .infinity (q < 0)

theorem roundHalfEven_intCast (n : Int) : roundHalfEven (n : Rat) = n := by
  simp [roundHalfEven]

/-- A whole number of last places is rounded to itself. -/
theorem ofRat_of_multiple {q : Rat} {m : Int} (h : q = m * 2 ^ lastPlace q)
    (hq : Int.log 2 |q| < 1024) : ofRat q = .finite q := by
  have hpos : (2 : Rat) ^ lastPlace q ≠ 0 := by positivity
  have hdiv : q / 2 ^ lastPlace q = (m : Rat) := by
    rw [div_eq_iff hpos]
    exact h
  have hround : (roundHalfEven (q / 2 ^ lastPlace q) : Rat) * 2 ^ lastPlace q = q := by
    rw [hdiv, roundHalfEven_intCast]
    exact h.symm
  simp [ofRat, hround, hq]

theorem log_intCast {n : Int} (hn : |n| < 2 ^ 53) : Int.log 2 |(n : Rat)| ≤ 52 := by
  have habs : |(n : Rat)| = ((n.natAbs : Nat) : Rat) := by
    rw [Nat.cast_natAbs, Int.cast_abs]
  have hlt : n.natAbs < 2 ^ 53 := by
    rw [Int.abs_eq_natAbs] at hn
    omega
  have hlog : Nat.log 2 n.natAbs ≤ 52 := by
    by_cases hzero : n.natAbs = 0
    · simp [hzero]
    · exact Nat.le_of_lt_succ (Nat.log_lt_of_lt_pow hzero hlt)
  rw [habs, Int.log_natCast]
  exact_mod_cast hlog

/-- **Integers below 2^53 are binary64 values.** -/
theorem ofRat_intCast {n : Int} (hn : |n| < 2 ^ 53) : ofRat (n : Rat) = .finite n := by
  have hlog := log_intCast hn
  have hplace : lastPlace (n : Rat) ≤ 0 := by
    unfold lastPlace
    omega
  obtain ⟨k, hk⟩ := Int.exists_eq_neg_ofNat hplace
  have hmultiple : (n : Rat) = ((n * 2 ^ k : Int) : Rat) * 2 ^ lastPlace (n : Rat) := by
    rw [hk, zpow_neg, zpow_natCast]
    push_cast
    rw [mul_assoc, mul_inv_cancel₀ (by positivity), mul_one]
  exact ofRat_of_multiple hmultiple (by omega)

/-! ### Values of the format -/

/-- `q` is a value of the format. -/
abbrev Representable (q : Rat) : Prop := ofRat q = .finite q

theorem Representable.exists_multiple {q : Rat} (h : Representable q) :
    ∃ m : Int, q = m * 2 ^ lastPlace q := by
  refine ⟨roundHalfEven (q / 2 ^ lastPlace q), ?_⟩
  unfold Representable ofRat at h
  dsimp only at h
  split at h
  · exact (Double.finite.inj h).symm
  · cases h

/-- Large values of the format are integers. -/
theorem Representable.exists_int {q : Rat} (h : Representable q) (hq : 2 ^ 52 ≤ |q|) :
    ∃ m : Int, q = m := by
  obtain ⟨m, hm⟩ := h.exists_multiple
  have hpos : (0 : Rat) < |q| := lt_of_lt_of_le (by norm_num) hq
  have hlog : 52 ≤ Int.log 2 |q| := by
    rw [← Int.zpow_le_iff_le_log (by norm_num) hpos]
    exact_mod_cast hq
  have hplace : 0 ≤ lastPlace q := by
    unfold lastPlace
    omega
  obtain ⟨k, hk⟩ := Int.eq_ofNat_of_zero_le hplace
  refine ⟨m * 2 ^ k, ?_⟩
  rw [hm, hk]
  push_cast
  simp

theorem Representable.neg {q : Rat} (h : Representable q) : Representable (-q) := by
  obtain ⟨m, hm⟩ := h.exists_multiple
  have hlog : Int.log 2 |q| < 1024 := by
    unfold Representable ofRat at h
    dsimp only at h
    split at h
    · rename_i hlog
      rwa [Double.finite.inj h] at hlog
    · cases h
  have hplace : lastPlace (-q) = lastPlace q := by rw [lastPlace, lastPlace, abs_neg]
  refine ofRat_of_multiple (m := -m) ?_ (by rwa [abs_neg])
  rw [hplace]
  push_cast
  rw [neg_mul, ← hm]

theorem roundHalfEven_bounds (q : Rat) : ⌊q⌋ ≤ roundHalfEven q ∧ roundHalfEven q ≤ ⌊q⌋ + 1 := by
  unfold roundHalfEven
  dsimp only
  split
  · omega
  · split
    · omega
    · split <;> omega

/-- A value of the format below `q` is not above the value that `q` is rounded to. -/
theorem Representable.le_of_ofRat {b q r : Rat} (hb : Representable b) (hpos : 0 < b)
    (hle : b ≤ q) (hr : ofRat q = .finite r) : b ≤ r := by
  have hq : 0 < q := hpos.trans_le hle
  have hround : r = (roundHalfEven (q / 2 ^ lastPlace q) : Rat) * 2 ^ lastPlace q := by
    unfold ofRat at hr
    dsimp only at hr
    split at hr
    · exact (Double.finite.inj hr).symm
    · cases hr
  have hplace : (0 : Rat) < 2 ^ lastPlace q := by positivity
  -- a whole number of last places of `q` below `q` stays below
  have hmultiple : ∀ m : Int, (m : Rat) * 2 ^ lastPlace q ≤ q → (m : Rat) * 2 ^ lastPlace q ≤ r := by
    intro m hm
    have hfloor : m ≤ ⌊q / 2 ^ lastPlace q⌋ := Int.le_floor.mpr ((le_div_iff₀ hplace).mpr hm)
    have hint : m ≤ roundHalfEven (q / 2 ^ lastPlace q) := hfloor.trans (roundHalfEven_bounds _).1
    rw [hround]
    exact mul_le_mul_of_nonneg_right (by exact_mod_cast hint) hplace.le
  have hlog : Int.log 2 b ≤ Int.log 2 q := Int.log_mono_right hpos hle
  by_cases hsame : lastPlace b = lastPlace q
  · obtain ⟨m, hm⟩ := hb.exists_multiple
    rw [hsame] at hm
    rw [hm] at hle ⊢
    exact hmultiple m hle
  · -- a power of two lies between
    have hplaces : lastPlace q = Int.log 2 q - 52 ∧ Int.log 2 b < Int.log 2 q := by
      unfold lastPlace at hsame ⊢
      rw [abs_of_pos hpos, abs_of_pos hq] at hsame
      rw [abs_of_pos hq]
      omega
    have hpower : (2 : Rat) ^ Int.log 2 q = ((2 ^ 52 : Int) : Rat) * 2 ^ lastPlace q := by
      rw [hplaces.1, zpow_sub₀ (by norm_num)]
      push_cast
      field_simp
    have habove : (2 : Rat) ^ Int.log 2 q ≤ r := by
      have hself : ((2 : Nat) : Rat) ^ Int.log 2 q ≤ q := Int.zpow_log_le_self (by norm_num) hq
      rw [hpower]
      apply hmultiple
      rw [← hpower]
      exact_mod_cast hself
    have hbelow : b < (2 : Rat) ^ (Int.log 2 b + 1) := by
      exact_mod_cast Int.lt_zpow_succ_log_self (b := 2) (by norm_num) b
    calc b ≤ 2 ^ (Int.log 2 b + 1) := hbelow.le
      _ ≤ 2 ^ Int.log 2 q := zpow_le_zpow_right₀ (by norm_num) (by omega)
      _ ≤ r := habove

/-! ### The shortest decimal -/

/-- A decimal `digits * 10 ^ exponent`. -/
structure Decimal where
  digits : Nat
  exponent : Int
deriving DecidableEq, Repr

def Decimal.value (d : Decimal) : Rat := d.digits * 10 ^ d.exponent

/-- The number of digits before the point. -/
def places (x : Rat) : Int := Int.log 10 x + 1

/-- The decimals of `k` digits beside `x`, in units of the last digit, the nearest first. -/
def candidates (x : Rat) (k : Nat) : List Int :=
  let u := x / 10 ^ (places x - k)
  [roundHalfEven u, ⌊u⌋, ⌊u⌋ + 1]

/-- The nearest decimal of `k` digits that is rounded to `x`. -/
def decimal? (x : Rat) (k : Nat) : Option Int :=
  (candidates x k).find? fun s => ofRat (s * 10 ^ (places x - k)) = .finite x

/-- As many digits are enough for the exact value. -/
def exactLength (x : Rat) : Nat := (places x).toNat + (-lastPlace x).toNat + 1

/-- The least number of digits, at least one, that tells `x` from the other values. -/
def shortestLength (x : Rat) : Nat :=
  ((List.range (exactLength x)).find? fun k => (decimal? x (k + 1)).isSome).getD 0 + 1

/-- The decimal with the least digits that is rounded to a positive `x`, the one nearest
to `x` of these. -/
def shortest (x : Rat) : Decimal :=
  let k := shortestLength x
  let s := ((decimal? x k).getD 0).toNat
  if s = 10 ^ k then ⟨1, places x⟩ else ⟨s, places x - k⟩

theorem candidates_nonneg {x : Rat} (hx : 0 < x) {k : Nat} {s : Int} (hs : s ∈ candidates x k) :
    0 ≤ s := by
  have hfloor : 0 ≤ ⌊x / 10 ^ (places x - k)⌋ := Int.floor_nonneg.mpr (by positivity)
  have hround := (roundHalfEven_bounds (x / 10 ^ (places x - k))).1
  simp only [candidates, List.mem_cons, List.not_mem_nil, or_false] at hs
  omega

/-- A whole number of last digits is found. -/
theorem decimal?_of_multiple {x : Rat} (h : Representable x) {m : Int} {k : Nat}
    (hm : x = m * 10 ^ (places x - k)) : decimal? x k = some m := by
  have hpos : (0 : Rat) < 10 ^ (places x - k) := by positivity
  have hdiv : x / 10 ^ (places x - k) = (m : Rat) := by
    rw [div_eq_iff hpos.ne']
    exact hm
  have hself : ofRat ((m : Rat) * 10 ^ (places x - k)) = .finite x := by
    rw [← hm]
    exact h
  simp [decimal?, candidates, hdiv, roundHalfEven_intCast, hself]

theorem exists_decimal?_exactLength {x : Rat} (h : Representable x) :
    ∃ s, decimal? x (exactLength x) = some s := by
  obtain ⟨m, hm⟩ := h.exists_multiple
  obtain ⟨j, hj⟩ := Int.eq_ofNat_of_zero_le
    (show 0 ≤ (exactLength x : Int) - places x by unfold exactLength; omega)
  obtain ⟨i, hi⟩ := Int.eq_ofNat_of_zero_le
    (show 0 ≤ lastPlace x + ((exactLength x : Int) - places x) by unfold exactLength; omega)
  have hplaces : places x - exactLength x = -(j : Int) := by omega
  have hlast : lastPlace x = i - (j : Int) := by omega
  refine ⟨_, decimal?_of_multiple h (m := m * 2 ^ i * 5 ^ j) ?_⟩
  have hten : (10 : Rat) ^ j = 2 ^ j * 5 ^ j := by rw [← mul_pow]; norm_num
  conv_lhs => rw [hm, hlast]
  rw [hplaces, zpow_neg, zpow_natCast, hten, zpow_sub₀ (by norm_num), zpow_natCast, zpow_natCast]
  push_cast
  field_simp

/-- **The search finds the least length.** -/
theorem shortestLength_spec {x : Rat} (h : Representable x) :
    (∃ s, decimal? x (shortestLength x) = some s) ∧
      ∀ k, 1 ≤ k → (∃ s, decimal? x k = some s) → shortestLength x ≤ k := by
  have hexact := exists_decimal?_exactLength h
  obtain ⟨l, hl⟩ : ∃ l, exactLength x = l + 1 := ⟨_, rfl⟩
  unfold shortestLength
  cases hfind : (List.range (exactLength x)).find? fun k => (decimal? x (k + 1)).isSome with
  | none =>
    have hnone := List.find?_range_eq_none.mp hfind l (by omega)
    rw [hl, ← Option.isSome_iff_exists] at hexact
    simp [hexact] at hnone
  | some i =>
    obtain ⟨hi, -, hbefore⟩ := List.find?_range_eq_some.mp hfind
    refine ⟨Option.isSome_iff_exists.mp hi, fun k hk hsome => ?_⟩
    obtain ⟨j, rfl⟩ := Nat.exists_eq_add_of_le' hk
    by_contra hlt
    have hnot := hbefore j (by simpa using hlt)
    rw [← Option.isSome_iff_exists] at hsome
    simp [hsome] at hnot

/-- **The shortest decimal is read back as the value.** -/
theorem ofRat_shortest {x : Rat} (h : Representable x) (hx : 0 < x) :
    ofRat (shortest x).value = .finite x := by
  obtain ⟨⟨s, hs⟩, -⟩ := shortestLength_spec h
  have hrounds := List.find?_some hs
  simp only [decide_eq_true_eq] at hrounds
  have hcast : ((s.toNat : Nat) : Rat) = s := by
    have hnonneg := Int.toNat_of_nonneg (candidates_nonneg hx (List.mem_of_find?_eq_some hs))
    exact_mod_cast congrArg (Int.cast : Int → Rat) hnonneg
  rw [← hcast] at hrounds
  rw [shortest, hs, Option.getD_some]
  split
  · rename_i hcarry
    rw [← hrounds, hcarry, Decimal.value]
    push_cast
    rw [one_mul, ← zpow_natCast, ← zpow_add₀ (by norm_num)]
    congr 2
    omega
  · exact hrounds

theorem shortest_digits_pos {x : Rat} (h : Representable x) (hx : 0 < x) :
    0 < (shortest x).digits := by
  rw [Nat.pos_iff_ne_zero]
  intro hzero
  have hvalue : (shortest x).value = ((0 : Int) : Rat) := by simp [Decimal.value, hzero]
  have hself := ofRat_shortest h hx
  rw [hvalue, ofRat_intCast (by norm_num)] at hself
  have hnil : x = 0 := by simpa using (Double.finite.inj hself).symm
  exact hx.ne' hnil

/-- The shortest decimal of an integer is an integer. -/
theorem shortest_exponent_nonneg {m : Nat} (h : Representable (m : Rat)) :
    0 ≤ (shortest (m : Rat)).exponent := by
  have hplaces : 1 ≤ places (m : Rat) := by
    have hlog : Int.log 10 (m : Rat) = Nat.log 10 m := Int.log_natCast 10 m
    unfold places
    omega
  obtain ⟨p, hp⟩ := Int.eq_ofNat_of_zero_le (by omega : 0 ≤ places (m : Rat))
  have hexact : (m : Rat) = ((m : Int) : Rat) * 10 ^ (places (m : Rat) - p) := by simp [hp]
  have hleast := (shortestLength_spec h).2 p (by omega) ⟨_, decimal?_of_multiple h hexact⟩
  unfold shortest
  dsimp only
  split
  · exact (zero_le_one.trans hplaces)
  · dsimp only
    omega

end Binary64
