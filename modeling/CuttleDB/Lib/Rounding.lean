import CuttleDB.Lib.Binary64
import Mathlib.Tactic.Linarith
import Mathlib.Tactic.FieldSimp

/-!
# How far rounding goes

What a rational number is rounded to is no more than half a last place away; a number that is
nearer than that to a whole number of its last places is rounded to it. Rounding goes along
with the sign and with powers of two.
-/

namespace Binary64

/-- What `q` is rounded to while the exponent is not too large. -/
def rounded (q : Rat) : Rat := (roundHalfEven (q / 2 ^ lastPlace q) : Rat) * 2 ^ lastPlace q

/-! ### To an integer -/

theorem abs_sub_roundHalfEven_le (q : Rat) : |q - roundHalfEven q| ≤ 1 / 2 := by
  have hbelow : (⌊q⌋ : Rat) ≤ q := Int.floor_le q
  have habove : q < ⌊q⌋ + 1 := Int.lt_floor_add_one q
  rw [abs_le]
  unfold roundHalfEven
  dsimp only
  split
  · constructor <;> linarith
  · split
    · push_cast
      constructor <;> linarith
    · split
      · constructor <;> linarith
      · push_cast
        constructor <;> linarith

theorem roundHalfEven_of_near {q : Rat} {m : Int} (h : |q - m| < 1 / 2) : roundHalfEven q = m := by
  have hround := abs_sub_roundHalfEven_le q
  have hdist : |((roundHalfEven q - m : Int) : Rat)| < 1 := by
    push_cast
    calc |(roundHalfEven q : Rat) - m| = |(q - m) - (q - roundHalfEven q)| := by ring_nf
      _ ≤ |q - m| + |q - roundHalfEven q| := abs_sub _ _
      _ < 1 := by linarith
  have hint : |roundHalfEven q - m| < 1 := by exact_mod_cast hdist
  have hzero := Int.abs_lt_one_iff.mp hint
  omega

/-- An even half stays even under a change of sign. -/
theorem roundHalfEven_neg (q : Rat) : roundHalfEven (-q) = -roundHalfEven q := by
  by_cases hhalf : |q - roundHalfEven q| < 1 / 2
  · apply roundHalfEven_of_near
    push_cast
    rwa [← abs_neg, show -(-q - -(roundHalfEven q : Rat)) = q - roundHalfEven q by ring]
  · -- a tie: `q` is halfway between two integers
    have hbelow : (⌊q⌋ : Rat) ≤ q := Int.floor_le q
    have habove : q < ⌊q⌋ + 1 := Int.lt_floor_add_one q
    have htie : q = ⌊q⌋ + 1 / 2 := by
      by_contra hne
      apply hhalf
      rcases lt_or_gt_of_ne hne with hlt | hgt
      · have hdown : roundHalfEven q = ⌊q⌋ := by
          unfold roundHalfEven
          dsimp only
          rw [if_pos (by linarith)]
        rw [hdown, abs_lt]
        constructor <;> linarith
      · have hup : roundHalfEven q = ⌊q⌋ + 1 := by
          unfold roundHalfEven
          dsimp only
          rw [if_neg (by linarith), if_pos (by linarith)]
        rw [hup, abs_lt]
        push_cast
        constructor <;> linarith
    have hfloor : ⌊-q⌋ = -⌊q⌋ - 1 := by
      rw [Int.floor_eq_iff]
      push_cast
      constructor <;> linarith
    have hneg : (-q : Rat) - (-⌊q⌋ - 1 : Int) = 1 / 2 := by
      push_cast
      linarith
    have hpos : q - (⌊q⌋ : Rat) = 1 / 2 := by linarith
    unfold roundHalfEven
    dsimp only
    rw [hfloor, hneg, hpos, if_neg (lt_irrefl _), if_neg (lt_irrefl _), if_neg (lt_irrefl _),
      if_neg (lt_irrefl _)]
    split <;> split <;> omega

/-! ### To a value -/

theorem lastPlace_neg (q : Rat) : lastPlace (-q) = lastPlace q := by
  rw [lastPlace, lastPlace, abs_neg]

theorem rounded_neg (q : Rat) : rounded (-q) = -rounded q := by
  rw [rounded, rounded, lastPlace_neg, neg_div, roundHalfEven_neg]
  push_cast
  ring

/-- **No more than half a last place** -/
theorem abs_sub_rounded_le (q : Rat) : |q - rounded q| ≤ 2 ^ lastPlace q / 2 := by
  have hpos : (0 : Rat) < 2 ^ lastPlace q := by positivity
  have hround := abs_sub_roundHalfEven_le (q / 2 ^ lastPlace q)
  have hscaled : q - rounded q =
      (q / 2 ^ lastPlace q - roundHalfEven (q / 2 ^ lastPlace q)) * 2 ^ lastPlace q := by
    rw [sub_mul, div_mul_cancel₀ _ hpos.ne', rounded]
  rw [hscaled, abs_mul, abs_of_pos hpos]
  calc |q / 2 ^ lastPlace q - roundHalfEven (q / 2 ^ lastPlace q)| * 2 ^ lastPlace q
      ≤ 1 / 2 * 2 ^ lastPlace q := mul_le_mul_of_nonneg_right hround hpos.le
    _ = 2 ^ lastPlace q / 2 := by ring

theorem rounded_of_near {q : Rat} {m : Int}
    (h : |q - m * 2 ^ lastPlace q| < 2 ^ lastPlace q / 2) : rounded q = m * 2 ^ lastPlace q := by
  have hpos : (0 : Rat) < 2 ^ lastPlace q := by positivity
  have hnear : |q / 2 ^ lastPlace q - m| < 1 / 2 := by
    have hscaled : q / 2 ^ lastPlace q - m = (q - m * 2 ^ lastPlace q) / 2 ^ lastPlace q := by
      rw [sub_div, mul_div_cancel_right₀ _ hpos.ne']
    rw [hscaled, abs_div, abs_of_pos hpos, div_lt_iff₀ hpos]
    linarith
  rw [rounded, roundHalfEven_of_near hnear]

/-- The last place of a number between two powers of two -/
theorem lastPlace_of_between {q : Rat} {e : Int} (he : -1022 ≤ e) (h : 2 ^ e ≤ |q|)
    (h' : |q| < 2 ^ (e + 1)) : lastPlace q = e - 52 := by
  have hpos : 0 < |q| := lt_of_lt_of_le (by positivity) h
  have hle : e ≤ Int.log 2 |q| := (Int.zpow_le_iff_le_log (by norm_num) hpos).mp (by exact_mod_cast h)
  have hlt : Int.log 2 |q| < e + 1 :=
    (Int.lt_zpow_iff_log_lt (by norm_num) hpos).mp (by exact_mod_cast h')
  unfold lastPlace
  omega

/-- **Rounding goes along with powers of two.** -/
theorem rounded_scale {q : Rat} {e k : Int} (he : -1022 ≤ e) (hk : -1022 ≤ e + k)
    (h : 2 ^ e ≤ |q|) (h' : |q| < 2 ^ (e + 1)) : rounded (q * 2 ^ k) = rounded q * 2 ^ k := by
  have hpos : (0 : Rat) < 2 ^ k := by positivity
  have habs : |q * 2 ^ k| = |q| * 2 ^ k := by rw [abs_mul, abs_of_pos hpos]
  have hplace : lastPlace (q * 2 ^ k) = lastPlace q + k := by
    rw [lastPlace_of_between he h h', lastPlace_of_between hk]
    · ring
    · rw [habs, zpow_add₀ (by norm_num)]
      exact mul_le_mul_of_nonneg_right h hpos.le
    · rw [habs, show e + k + 1 = e + 1 + k by ring, zpow_add₀ (by norm_num)]
      exact mul_lt_mul_of_pos_right h' hpos
  have hplaces : (2 : Rat) ^ (lastPlace q + k) = 2 ^ lastPlace q * 2 ^ k := zpow_add₀ (by norm_num) _ _
  rw [rounded, rounded, hplace, hplaces, mul_div_mul_right _ _ hpos.ne', mul_assoc]

theorem ofRat_eq_rounded {q : Rat} (h : |q| < 2 ^ (1000 : Int)) : ofRat q = .finite (rounded q) := by
  have hplace : lastPlace q ≤ 1000 := by
    unfold lastPlace
    by_cases hzero : |q| = 0
    · rw [hzero, Int.log_zero_right]
      decide
    · have hpos : 0 < |q| := lt_of_le_of_ne (abs_nonneg q) (Ne.symm hzero)
      have hlt : Int.log 2 |q| < 1000 :=
        (Int.lt_zpow_iff_log_lt (by norm_num) hpos).mp (by exact_mod_cast h)
      omega
  have hpower : (2 : Rat) ^ lastPlace q ≤ 2 ^ (1000 : Int) :=
    zpow_le_zpow_right₀ (by norm_num) hplace
  have hnear : |q - rounded q| ≤ 2 ^ (1000 : Int) :=
    ((abs_sub_rounded_le q).trans (half_le_self (by positivity))).trans hpower
  have hsmall : |rounded q| < 2 ^ (1024 : Int) := by
    calc |rounded q| = |q - (q - rounded q)| := by ring_nf
      _ ≤ |q| + |q - rounded q| := abs_sub _ _
      _ < 2 ^ (1000 : Int) + 2 ^ (1000 : Int) := add_lt_add_of_lt_of_le h hnear
      _ = 2 ^ (1001 : Int) := by rw [← two_mul, ← zpow_one_add₀ (by norm_num)]; rfl
      _ ≤ 2 ^ (1024 : Int) := zpow_le_zpow_right₀ (by norm_num) (by norm_num)
  have hlog : Int.log 2 |rounded q| < 1024 := by
    by_cases hzero : |rounded q| = 0
    · rw [hzero, Int.log_zero_right]
      decide
    · have hpos : 0 < |rounded q| := lt_of_le_of_ne (abs_nonneg _) (Ne.symm hzero)
      exact (Int.lt_zpow_iff_log_lt (by norm_num) hpos).mp (by exact_mod_cast hsmall)
  rw [ofRat]
  exact if_pos hlog

theorem lastPlace_le {q : Rat} {e : Int} (he : -1022 ≤ e) (h : |q| < 2 ^ (e + 1)) :
    lastPlace q ≤ max e 0 - 52 := by
  unfold lastPlace
  by_cases hzero : |q| = 0
  · rw [hzero, Int.log_zero_right]
    omega
  · have hpos : 0 < |q| := lt_of_le_of_ne (abs_nonneg q) (Ne.symm hzero)
    have hlog : Int.log 2 |q| < e + 1 :=
      (Int.lt_zpow_iff_log_lt (by norm_num) hpos).mp (by exact_mod_cast h)
    omega

/-- Integers below 2^53 are exact. -/
theorem rounded_natCast {n : Nat} (h : n < 2 ^ 53) : rounded (n : Rat) = n := by
  have hint : |(n : Int)| < 2 ^ 53 := by rw [abs_of_nonneg (by omega)]; exact_mod_cast h
  have hself := ofRat_intCast hint
  have hlt : |((n : Int) : Rat)| < 2 ^ (1000 : Int) := by
    have hmono : (2 : Rat) ^ (53 : Int) ≤ 2 ^ (1000 : Int) :=
      zpow_le_zpow_right₀ (by norm_num) (by norm_num)
    refine lt_of_lt_of_le ?_ hmono
    exact_mod_cast hint
  rw [ofRat_eq_rounded hlt] at hself
  exact_mod_cast Double.finite.inj hself

theorem rounded_of_place {q : Rat} {m e : Int} (he : -1022 ≤ e) (h : 2 ^ e ≤ q)
    (h' : q < 2 ^ (e + 1)) (hnear : |q - m * 2 ^ (e - 52)| < 2 ^ (e - 52) / 2) :
    rounded q = m * 2 ^ (e - 52) := by
  have hpos : 0 ≤ q := le_trans (by positivity) h
  have hplace : lastPlace q = e - 52 :=
    lastPlace_of_between he (by rwa [abs_of_nonneg hpos]) (by rwa [abs_of_nonneg hpos])
  have hround := rounded_of_near (q := q) (m := m) (by rwa [hplace])
  rwa [hplace] at hround

end Binary64
