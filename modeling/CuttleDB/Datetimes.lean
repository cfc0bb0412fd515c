import CuttleDB.Lib.Rounding
import CuttleDB.Lib.Word32

/-!
# The DATETIME helpers of the Python client

A DATETIME cell is an integer of milliseconds since 1970. `epoch_ms_to_datetime` divides it
by `1000.0` and gives the quotient to `datetime.fromtimestamp`; `datetime_to_epoch_ms`
multiplies `timestamp()` by `1000` and cuts off what is behind the point. Both go through
seconds in binary64. Up to the year 2242 the datetime is the one that is meant. The way back
loses a millisecond where the rounded product falls short of the integer, which happens only
when the milliseconds are between `1000` and `1024` times a power of two.
-/

namespace CuttleDB.Py

open Binary64

/-- A `datetime`: its fields as microseconds since 1970-01-01 on its own clock, and how far
that is from UTC, in microseconds; a naive one says nothing of it. -/
structure DateTime where
  micros : Int
  utcoffset : Option Int
deriving DecidableEq

inductive TimeError where
  | overflowError
  | valueError    -- "year … is out of range"
deriving DecidableEq

/-- The microseconds since the epoch; a naive datetime is taken for UTC. -/
def DateTime.epochMicros (dt : DateTime) : Int := dt.micros - dt.utcoffset.getD 0

/-- `datetime_to_epoch_ms`: `int(dt.timestamp() * 1000)`, where `timestamp` is the quotient of
two integers, rounded once. -/
def datetimeToEpochMs (dt : DateTime) : Except TimeError Int :=
  match ofRat (dt.epochMicros / 10 ^ 6) with
  | .finite t =>
    match ofRat (t * 1000) with
    | .finite p => .ok (truncate p)
    | _ => .error .overflowError
  | _ => .error .overflowError

/-- The seconds of the years 1 to 9999 -/
def minSeconds : Int := -62135596800
def maxSeconds : Int := 253402300799

/-- `datetime.fromtimestamp(t, tz=utc)`: whole seconds, and the fraction of a second in
microseconds, to the nearest. -/
def fromTimestamp (t : Rat) : Except TimeError DateTime :=
  let seconds := truncate t
  match ofRat ((t - seconds) * 10 ^ 6) with
  | .finite us =>
    let us := roundHalfEven us
    let (seconds, us) :=
      if 10 ^ 6 ≤ us then (seconds + 1, us - 10 ^ 6)
      else if us < 0 then (seconds - 1, us + 10 ^ 6)
      else (seconds, us)
    if seconds < minSeconds ∨ maxSeconds < seconds then .error .valueError
    else .ok ⟨seconds * 10 ^ 6 + us, some 0⟩
  | _ => .error .overflowError

/-- `epoch_ms_to_datetime`: `datetime.fromtimestamp(ms / 1000.0, tz=utc)` -/
def epochMsToDatetime (ms : Int) : Except TimeError DateTime :=
  match ofRat ms with
  | .finite x =>
    match ofRat (x / 1000) with
    | .finite t => fromTimestamp t
    | _ => .error .overflowError
  | _ => .error .overflowError

/-! ### Seconds -/

/-- The seconds that the client makes of `ms` milliseconds. -/
def seconds (ms : Int) : Rat := rounded (ms / 1000)

theorem seconds_neg (ms : Int) : seconds (-ms) = -seconds ms := by
  rw [seconds, seconds, ← rounded_neg]
  push_cast
  rw [neg_div]

/-- Between which powers of two `n` milliseconds are, in seconds. -/
theorem exists_exponent {n : Nat} (hpos : 0 < n) (hn : n < 2 ^ 33 * 1000) :
    ∃ e : Int, -10 ≤ e ∧ e ≤ 32 ∧ (2 : Rat) ^ e ≤ (n : Rat) / 1000 ∧
      (n : Rat) / 1000 < 2 ^ (e + 1) := by
  have hq : (0 : Rat) < (n : Rat) / 1000 := by positivity
  have hself : (2 : Rat) ^ Int.log 2 ((n : Rat) / 1000) ≤ (n : Rat) / 1000 := by
    exact_mod_cast Int.zpow_log_le_self (b := 2) (by norm_num) hq
  have hnext : (n : Rat) / 1000 < 2 ^ (Int.log 2 ((n : Rat) / 1000) + 1) := by
    exact_mod_cast Int.lt_zpow_succ_log_self (b := 2) (by norm_num) ((n : Rat) / 1000)
  refine ⟨Int.log 2 ((n : Rat) / 1000), ?_, ?_, hself, hnext⟩
  · have hone : (1 : Rat) ≤ n := by exact_mod_cast hpos
    have hlow : (2 : Rat) ^ (-10 : Int) ≤ (n : Rat) / 1000 := by
      have hpower : (2 : Rat) ^ (-10 : Int) = 1 / 1024 := by norm_num
      rw [hpower, le_div_iff₀ (by norm_num)]
      linarith
    exact (Int.zpow_le_iff_le_log (by norm_num) hq).mp (by exact_mod_cast hlow)
  · have hlarge : (n : Rat) < 2 ^ 33 * 1000 := by exact_mod_cast hn
    have hhigh : (n : Rat) / 1000 < ((2 : Nat) : Rat) ^ (33 : Int) := by
      rw [div_lt_iff₀ (by norm_num)]
      norm_num at hlarge ⊢
      exact hlarge
    have hlog := (Int.lt_zpow_iff_log_lt (by norm_num) hq).mp hhigh
    omega

theorem seconds_near {n : Nat} {e : Int} (he : -10 ≤ e) (h : (2 : Rat) ^ e ≤ (n : Rat) / 1000)
    (h' : (n : Rat) / 1000 < 2 ^ (e + 1)) :
    |(n : Rat) / 1000 - seconds n| ≤ 2 ^ (e - 52) / 2 := by
  have hq : |(n : Rat) / 1000| = (n : Rat) / 1000 := abs_of_nonneg (by positivity)
  have hplace : lastPlace ((n : Rat) / 1000) = e - 52 :=
    lastPlace_of_between (by omega) (by rwa [hq]) (by rwa [hq])
  rw [← hplace]
  exact abs_sub_rounded_le _

/-- A fraction of a second that is less than half a microsecond off -/
theorem micros_of_fraction {f : Rat} {r : Nat} (h : |f - r / 1000| ≤ 1 / 2097152) (hr : r ≤ 999) :
    roundHalfEven (rounded (f * 10 ^ 6)) = 1000 * r := by
  obtain ⟨hlow, hhigh⟩ := abs_le.mp h
  have hlast : (r : Rat) ≤ 999 := by exact_mod_cast hr
  have hfirst : (0 : Rat) ≤ r := r.cast_nonneg
  have hsmall : |f * 10 ^ 6| < 2 ^ ((19 : Int) + 1) := by
    rw [abs_lt]
    norm_num
    constructor <;> linarith
  have hlastPlace : (2 : Rat) ^ lastPlace (f * 10 ^ 6) ≤ 2 ^ (-33 : Int) :=
    zpow_le_zpow_right₀ (by norm_num) (lastPlace_le (by norm_num) hsmall)
  have hround := (abs_sub_rounded_le (f * 10 ^ 6)).trans
    (div_le_div_of_nonneg_right hlastPlace (by norm_num))
  obtain ⟨hlow', hhigh'⟩ := abs_le.mp hround
  norm_num at hlow' hhigh'
  have hnear : |rounded (f * 10 ^ 6) - ((1000 * r : Int) : Rat)| < 1 / 2 := by
    rw [abs_lt]
    push_cast
    norm_num
    constructor <;> linarith
  exact roundHalfEven_of_near hnear

/-- The seconds have the right whole part, and the rest of them the right microseconds. -/
theorem seconds_parts {n : Nat} (hn : n < 2 ^ 33 * 1000) :
    ((n / 1000 : Nat) : Rat) ≤ seconds n ∧ seconds n < (n / 1000 : Nat) + 1 ∧
      roundHalfEven (rounded ((seconds n - (n / 1000 : Nat)) * 10 ^ 6)) =
        1000 * (n % 1000 : Nat) := by
  have hsplit : (n : Rat) / 1000 = (n / 1000 : Nat) + (n % 1000 : Nat) / 1000 := by
    have hdiv : ((1000 * (n / 1000) + n % 1000 : Nat) : Rat) = n := by rw [Nat.div_add_mod]
    push_cast at hdiv
    rw [div_eq_iff (by norm_num), add_mul, div_mul_cancel₀ _ (by norm_num)]
    linarith
  by_cases hwhole : n % 1000 = 0
  · have hexact : seconds n = (n / 1000 : Nat) := by
      have hcast : ((n : Int) : Rat) / 1000 = (n / 1000 : Nat) := by
        rw [hwhole] at hsplit
        push_cast at hsplit ⊢
        linarith
      rw [seconds, hcast, rounded_natCast (by omega)]
    rw [hexact, hwhole, sub_self, zero_mul]
    refine ⟨le_rfl, by linarith, ?_⟩
    have hzero : rounded 0 = 0 := by exact_mod_cast rounded_natCast (n := 0) (by norm_num)
    rw [hzero]
    exact_mod_cast roundHalfEven_intCast 0
  · obtain ⟨e, he, he', h, h'⟩ := exists_exponent (by omega) hn
    have hnear := seconds_near he h h'
    have hunit : (2 : Rat) ^ (e - 52) ≤ 2 ^ (-20 : Int) :=
      zpow_le_zpow_right₀ (by norm_num) (by omega)
    have hclose : |(n : Rat) / 1000 - seconds n| ≤ 2 ^ (-20 : Int) / 2 :=
      hnear.trans (div_le_div_of_nonneg_right hunit (by norm_num))
    obtain ⟨hlow, hhigh⟩ := abs_le.mp hclose
    rw [hsplit] at hlow hhigh
    norm_num at hlow hhigh
    have hone : (1 : Rat) ≤ (n % 1000 : Nat) := by
      exact_mod_cast Nat.one_le_iff_ne_zero.mpr hwhole
    have hlast : ((n % 1000 : Nat) : Rat) ≤ 999 := by
      exact_mod_cast Nat.le_of_lt_succ (Nat.mod_lt n (by norm_num))
    refine ⟨by linarith, by linarith, ?_⟩
    refine micros_of_fraction ?_ (Nat.le_of_lt_succ (Nat.mod_lt n (by norm_num)))
    rw [abs_le]
    constructor <;> linarith

theorem seconds_truncate {ms : Int} (h : |ms| < 2 ^ 33 * 1000) :
    truncate (seconds ms) = ms.tdiv 1000 ∧ |seconds ms - ms.tdiv 1000| ≤ 1 ∧
      roundHalfEven (rounded ((seconds ms - ms.tdiv 1000) * 10 ^ 6)) = 1000 * ms.tmod 1000 := by
  have hnat : ∀ n : Nat, n < 2 ^ 33 * 1000 → truncate (seconds n) = n / 1000 ∧
      |seconds n - (n / 1000 : Nat)| ≤ 1 ∧
      roundHalfEven (rounded ((seconds n - (n / 1000 : Nat)) * 10 ^ 6)) = 1000 * (n % 1000) := by
    intro n hn
    obtain ⟨hlow, hhigh, hmicros⟩ := seconds_parts hn
    have hnonneg : 0 ≤ seconds n := le_trans (Nat.cast_nonneg _) hlow
    refine ⟨?_, ?_, hmicros⟩
    · rw [truncate, if_pos hnonneg, Int.floor_eq_iff]
      exact ⟨by exact_mod_cast hlow, by exact_mod_cast hhigh⟩
    · rw [abs_le]
      constructor <;> linarith
  obtain ⟨n, rfl | rfl⟩ := ms.eq_nat_or_neg
  · rw [abs_of_nonneg (by omega)] at h
    have hdiv : (n : Int).tdiv 1000 = ((n / 1000 : Nat) : Int) := rfl
    have hmod : (n : Int).tmod 1000 = ((n % 1000 : Nat) : Int) := rfl
    rw [hdiv, hmod]
    exact_mod_cast hnat n (by omega)
  · rw [abs_neg, abs_of_nonneg (by omega)] at h
    obtain ⟨htruncate, hclose, hmicros⟩ := hnat n (by omega)
    have hdiv : (-(n : Int)).tdiv 1000 = -((n / 1000 : Nat) : Int) := by rw [Int.neg_tdiv]; rfl
    have hmod : (-(n : Int)).tmod 1000 = -((n % 1000 : Nat) : Int) := by rw [Int.neg_tmod]; rfl
    have hopposite : seconds (-(n : Int)) - ((-((n / 1000 : Nat) : Int) : Int) : Rat) =
        -(seconds n - (n / 1000 : Nat)) := by
      rw [seconds_neg, Int.cast_neg, Int.cast_natCast]
      ring
    rw [hdiv, hmod, hopposite, neg_mul, rounded_neg, roundHalfEven_neg, hmicros, seconds_neg,
      truncate_neg, htruncate, abs_neg]
    exact ⟨rfl, hclose, by push_cast; ring⟩

theorem fromTimestamp_eq {t x : Rat} {whole us : Int} (hwhole : truncate t = whole)
    (hx : ofRat ((t - whole) * 10 ^ 6) = .finite x) (hus : roundHalfEven x = us)
    (hless : |us| < 10 ^ 6) (hfirst : minSeconds < whole) (hlast : whole ≤ maxSeconds) :
    fromTimestamp t = .ok ⟨whole * 10 ^ 6 + us, some 0⟩ := by
  obtain ⟨hlow, hhigh⟩ := abs_lt.mp hless
  unfold fromTimestamp
  rw [hwhole]
  dsimp only
  rw [hx]
  dsimp only
  rw [hus, if_neg (not_le.mpr hhigh)]
  by_cases hneg : us < 0
  · have hsame : (whole - 1) * 10 ^ 6 + (us + 10 ^ 6) = whole * 10 ^ 6 + us := by ring
    rw [if_pos hneg, if_neg (by omega), hsame]
  · rw [if_neg hneg, if_neg (by omega)]

/-- **The datetime is the one that is meant.** -/
theorem fromTimestamp_seconds {ms : Int} (h : |ms| < 2 ^ 33 * 1000) :
    fromTimestamp (seconds ms) = .ok ⟨1000 * ms, some 0⟩ := by
  obtain ⟨htruncate, hclose, hmicros⟩ := seconds_truncate h
  have hsize : |(seconds ms - ms.tdiv 1000) * 10 ^ 6| < 2 ^ (1000 : Int) := by
    have hmono : (2 : Rat) ^ (20 : Int) ≤ 2 ^ (1000 : Int) :=
      zpow_le_zpow_right₀ (by norm_num) (by norm_num)
    refine lt_of_lt_of_le ?_ hmono
    rw [abs_mul]
    norm_num
    linarith
  have hsplit := Int.mul_tdiv_add_tmod ms 1000
  have hless : |ms.tmod 1000| < 1000 := by
    rw [Int.abs_eq_natAbs, Int.natAbs_tmod]
    exact_mod_cast Nat.mod_lt _ (by norm_num)
  rw [abs_lt] at h hless
  have hus : |1000 * ms.tmod 1000| < 10 ^ 6 := by
    rw [abs_lt]
    omega
  rw [fromTimestamp_eq htruncate (ofRat_eq_rounded hsize) hmicros hus (by unfold minSeconds; omega)
    (by unfold maxSeconds; omega)]
  have hsame : ms.tdiv 1000 * 10 ^ 6 + 1000 * ms.tmod 1000 = 1000 * ms := by linarith
  rw [hsame]

/-! ### And back -/

/-- The product that `datetime_to_epoch_ms` cuts off. -/
def product (ms : Int) : Rat := rounded (seconds ms * 1000)

theorem product_neg (ms : Int) : product (-ms) = -product ms := by
  rw [product, product, seconds_neg, neg_mul, rounded_neg]

/-- The seconds times 1000, before they are rounded, are near to the milliseconds. -/
theorem seconds_mul_near {n : Nat} {e : Int} (he : -10 ≤ e) (h : (2 : Rat) ^ e ≤ (n : Rat) / 1000)
    (h' : (n : Rat) / 1000 < 2 ^ (e + 1)) :
    |seconds n * 1000 - n| ≤ 500 * 2 ^ (e - 52) := by
  have hnear := seconds_near he h h'
  have hscaled : seconds n * 1000 - n = -(((n : Rat) / 1000 - seconds n) * 1000) := by ring
  rw [hscaled, abs_neg, abs_mul]
  norm_num
  linarith

/-- The product is less than a millisecond off. -/
theorem product_near {n : Nat} (hpos : 0 < n) (hn : n < 2 ^ 33 * 1000) :
    |product n - n| < 1 := by
  obtain ⟨e, he, he', h, h'⟩ := exists_exponent hpos hn
  have hnear := seconds_mul_near he h h'
  have hunit : (2 : Rat) ^ (e - 52) ≤ 2 ^ (-20 : Int) :=
    zpow_le_zpow_right₀ (by norm_num) (by omega)
  have hclose : |seconds n * 1000 - n| ≤ 500 * 2 ^ (-20 : Int) :=
    hnear.trans (mul_le_mul_of_nonneg_left hunit (by norm_num))
  have hsize : |seconds n * 1000| < 2 ^ ((43 : Int) + 1) := by
    have hbound : (n : Rat) ≤ 8589934592000 := by exact_mod_cast hn.le
    have hfirst : (0 : Rat) ≤ n := n.cast_nonneg
    obtain ⟨hlow, hhigh⟩ := abs_le.mp hclose
    rw [abs_lt]
    norm_num at hlow hhigh ⊢
    constructor <;> linarith
  have hlastPlace : (2 : Rat) ^ lastPlace (seconds n * 1000) ≤ 2 ^ (-9 : Int) :=
    zpow_le_zpow_right₀ (by norm_num) (lastPlace_le (by norm_num) hsize)
  have hround := (abs_sub_rounded_le (seconds n * 1000)).trans
    (div_le_div_of_nonneg_right hlastPlace (by norm_num))
  obtain ⟨hlow, hhigh⟩ := abs_le.mp hclose
  obtain ⟨hlow', hhigh'⟩ := abs_le.mp hround
  rw [product, abs_lt]
  norm_num at hlow hhigh hlow' hhigh' ⊢
  constructor <;> linarith

/-- Above `1024` times a power of two the last place of the milliseconds is so large that the
product is rounded to them. -/
theorem product_of_above {n : Nat} {e : Int} (he : -10 ≤ e) (he' : e ≤ 32)
    (h : (2 : Rat) ^ e ≤ (n : Rat) / 1000) (h' : (n : Rat) / 1000 < 2 ^ (e + 1))
    (habove : 1024 * (2 : Rat) ^ e < n) : product n = n := by
  have hnear := seconds_mul_near he h h'
  have hpos : (0 : Rat) < 2 ^ e := by positivity
  have hunit : (2 : Rat) ^ (e - 52) = 2 ^ e / 2 ^ 52 := by rw [zpow_sub₀ (by norm_num)]; norm_num
  have hplace : (2 : Rat) ^ (e + 10 - 52) = 2 ^ e / 2 ^ 42 := by
    rw [show e + 10 - 52 = e - 42 by ring, zpow_sub₀ (by norm_num)]
    norm_num
  have hpower : (2 : Rat) ^ (e + 10) = 1024 * 2 ^ e := by
    rw [zpow_add₀ (by norm_num)]
    norm_num
    ring
  have hpower' : (2 : Rat) ^ (e + 10 + 1) = 2048 * 2 ^ e := by
    rw [zpow_add_one₀ (by norm_num), hpower]
    ring
  have hnext : (2 : Rat) ^ (e + 10) + 1 ≤ n := by
    -- the power of two is an integer
    obtain ⟨k, hk⟩ := Int.eq_ofNat_of_zero_le (show 0 ≤ e + 10 by omega)
    have hint : ((2 ^ k : Nat) : Rat) = 2 ^ (e + 10) := by rw [hk]; push_cast; rfl
    have hlt : ((2 ^ k : Nat) : Rat) < n := by rw [hint, hpower]; exact habove
    have hnat : 2 ^ k + 1 ≤ n := by exact_mod_cast hlt
    rw [← hint]
    exact_mod_cast hnat
  have hsmall : (2 : Rat) ^ e ≤ 2 ^ (32 : Int) := zpow_le_zpow_right₀ (by norm_num) he'
  rw [zpow_add_one₀ (by norm_num), div_lt_iff₀ (by norm_num)] at h'
  rw [hunit] at hnear
  obtain ⟨hlow, hhigh⟩ := abs_le.mp hnear
  norm_num at hsmall hlow hhigh
  have hlastPlace : lastPlace (seconds n * 1000) = e + 10 - 52 := by
    have hnonneg : 0 ≤ seconds n * 1000 := by linarith
    apply lastPlace_of_between (by omega)
    · rw [abs_of_nonneg hnonneg]
      linarith
    · rw [abs_of_nonneg hnonneg, hpower']
      linarith
  obtain ⟨k, hk⟩ := Int.eq_ofNat_of_zero_le (show 0 ≤ 42 - e by omega)
  have hmultiple : (n : Rat) = ((n * 2 ^ k : Int) : Rat) * 2 ^ lastPlace (seconds n * 1000) := by
    rw [hlastPlace, show e + 10 - 52 = -(k : Int) by omega, zpow_neg, zpow_natCast]
    push_cast
    field_simp
  rw [product, hmultiple]
  apply rounded_of_near
  rw [← hmultiple, hlastPlace, hplace, abs_lt]
  norm_num
  constructor <;> linarith

/-- The product goes along with powers of two. -/
theorem product_scale {q : Rat} {n : Nat} {e f : Int} (he : -10 ≤ e) (hf : 0 ≤ f) (hq : 1 ≤ q)
    (hq' : q < 2) (hn : (n : Rat) / 1000 = q * 2 ^ e) (h : 2 ^ f ≤ rounded q * 1000)
    (h' : rounded q * 1000 < 2 ^ (f + 1)) : product n = rounded (rounded q * 1000) * 2 ^ e := by
  have hseconds : seconds n = rounded q * 2 ^ e := by
    have hcast : ((n : Int) : Rat) / 1000 = q * 2 ^ e := by rw [Int.cast_natCast, hn]
    rw [seconds, hcast]
    apply rounded_scale (e := 0) (by norm_num) (by omega)
    · rw [abs_of_nonneg (by linarith)]
      simpa using hq
    · rw [abs_of_nonneg (by linarith)]
      simpa using hq'
  have hpos : 0 ≤ rounded q * 1000 := le_trans (by positivity) h
  have hcomm : seconds n * 1000 = rounded q * 1000 * 2 ^ e := by
    rw [hseconds]
    ring
  rw [product, hcomm]
  apply rounded_scale (e := f) (by omega) (by omega)
  · rwa [abs_of_nonneg hpos]
  · rwa [abs_of_nonneg hpos]

theorem product_of_1024 {n : Nat} {e : Int} (he : -10 ≤ e) (hn : (n : Rat) = 1024 * 2 ^ e) :
    product n = n := by
  have hfirst : rounded (128 / 125) = (4611686018427388 : Int) * 2 ^ ((0 : Int) - 52) := by
    apply rounded_of_place <;> norm_num
  norm_num at hfirst
  have hsecond : rounded (rounded (128 / 125) * 1000) = (2 ^ 52 : Int) * 2 ^ ((10 : Int) - 52) := by
    rw [hfirst]
    apply rounded_of_place <;> norm_num
  norm_num at hsecond
  have hseconds : (n : Rat) / 1000 = 128 / 125 * 2 ^ e := by
    rw [hn]
    ring
  rw [product_scale (f := 10) he (by norm_num) (by norm_num) (by norm_num) hseconds
    (by rw [hfirst]; norm_num) (by rw [hfirst]; norm_num), hsecond, hn]

theorem product_of_1001 {k : Nat} :
    product ((1001 * 2 ^ k : Nat) : Int) = (1001 - 1 / 2 ^ 43) * 2 ^ k := by
  have hfirst : rounded (1001 / 1000) = (4508103226997866 : Int) * 2 ^ ((0 : Int) - 52) := by
    apply rounded_of_place <;> norm_num
  norm_num at hfirst
  have hsecond : rounded (rounded (1001 / 1000) * 1000) =
      (8804889115230207 : Int) * 2 ^ ((9 : Int) - 52) := by
    rw [hfirst]
    apply rounded_of_place <;> norm_num
  norm_num at hsecond
  have hseconds : ((1001 * 2 ^ k : Nat) : Rat) / 1000 = 1001 / 1000 * 2 ^ (k : Int) := by
    push_cast
    rw [zpow_natCast]
    ring
  rw [product_scale (f := 9) (by omega) (by norm_num) (by norm_num) (by norm_num) hseconds
    (by rw [hfirst]; norm_num) (by rw [hfirst]; norm_num), hsecond, zpow_natCast]
  norm_num

/-- Between `1000` and `1024` times a power of two the product may fall short. -/
def MayFallShort (ms : Int) : Prop :=
  ∃ k : Int, 1000 * (2 : Rat) ^ k ≤ |(ms : Rat)| ∧ |(ms : Rat)| < 1024 * 2 ^ k

theorem truncate_product {n : Nat} (hpos : 0 < n) (hn : n < 2 ^ 33 * 1000) :
    (truncate (product n) = n ∨ truncate (product n) = n - 1) ∧
      (¬ MayFallShort n → truncate (product n) = n) ∧
      ((∃ k : Nat, n = 1001 * 2 ^ k) → truncate (product n) = n - 1) := by
  obtain ⟨hlow, hhigh⟩ := abs_lt.mp (product_near hpos hn)
  have hone : (1 : Rat) ≤ n := by exact_mod_cast hpos
  have hfloor : truncate (product n) = ⌊product n⌋ := by
    rw [truncate, if_pos (by linarith)]
  rw [hfloor]
  refine ⟨?_, fun hno => ?_, ?_⟩
  · have hbelow : (n : Int) - 1 ≤ ⌊product n⌋ := by
      rw [Int.le_floor]
      push_cast
      linarith
    have habove : ⌊product n⌋ < n + 1 := by
      rw [Int.floor_lt]
      push_cast
      linarith
    omega
  · obtain ⟨e, he, he', h, h'⟩ := exists_exponent hpos hn
    have hlarge : 1024 * (2 : Rat) ^ e ≤ n := by
      by_contra hlt
      refine hno ⟨e, ?_, ?_⟩ <;> rw [Int.cast_natCast, abs_of_nonneg (by linarith)]
      · rw [le_div_iff₀ (by norm_num)] at h
        linarith
      · exact lt_of_not_ge hlt
    have hexact : product n = n := by
      rcases hlarge.lt_or_eq with hlt | heq
      · exact product_of_above he he' h h' hlt
      · exact product_of_1024 he heq.symm
    rw [hexact, Int.floor_natCast]
  · rintro ⟨k, rfl⟩
    have hk : k < 43 := by
      by_contra hge
      have hpower : 2 ^ 43 ≤ 2 ^ k := Nat.pow_le_pow_right (by norm_num) (by omega)
      omega
    have hsmall : (2 : Rat) ^ k ≤ 2 ^ 43 := pow_le_pow_right₀ (by norm_num) hk.le
    have hfirst : (0 : Rat) < 2 ^ k := by positivity
    rw [product_of_1001, Int.floor_eq_iff]
    push_cast
    norm_num at hsmall ⊢
    linarith

theorem lt_thousand_bits {q : Rat} (h : |q| < 2 ^ (50 : Int)) : |q| < 2 ^ (1000 : Int) :=
  h.trans_le (zpow_le_zpow_right₀ (by norm_num) (by norm_num))

theorem epochMsToDatetime_eq {ms : Int} (h : |ms| < 2 ^ 33 * 1000) :
    epochMsToDatetime ms = .ok ⟨1000 * ms, some 0⟩ := by
  have hbound : |(ms : Rat)| ≤ 8589934592000 := by exact_mod_cast h.le
  have hsize : |(ms : Rat) / 1000| < 2 ^ (50 : Int) := by
    rw [abs_div]
    norm_num
    linarith
  unfold epochMsToDatetime
  rw [ofRat_intCast (h.trans (by norm_num))]
  dsimp only
  rw [ofRat_eq_rounded (lt_thousand_bits hsize)]
  exact fromTimestamp_seconds h

theorem datetimeToEpochMs_eq {ms : Int} (h : |ms| < 2 ^ 33 * 1000) :
    datetimeToEpochMs ⟨1000 * ms, some 0⟩ = .ok (truncate (product ms)) := by
  have hbound : |(ms : Rat)| ≤ 8589934592000 := by exact_mod_cast h.le
  have hsize : |(ms : Rat) / 1000| < 2 ^ (50 : Int) := by
    rw [abs_div]
    norm_num
    linarith
  have hmicros : (((⟨1000 * ms, some 0⟩ : DateTime).epochMicros : Int) : Rat) / 10 ^ 6 =
      ms / 1000 := by
    rw [DateTime.epochMicros, Option.getD_some]
    push_cast
    ring
  have hseconds : |seconds ms * 1000| < 2 ^ (50 : Int) := by
    have hplace : (2 : Rat) ^ lastPlace ((ms : Rat) / 1000) ≤ 2 ^ (-2 : Int) := by
      apply zpow_le_zpow_right₀ (by norm_num)
      exact (lastPlace_le (e := 49) (by norm_num) hsize).trans (by norm_num)
    have hnear := (abs_sub_rounded_le ((ms : Rat) / 1000)).trans
      (div_le_div_of_nonneg_right hplace (by norm_num))
    obtain ⟨hlow, hhigh⟩ := abs_le.mp hnear
    obtain ⟨hfirst, hlast⟩ := abs_le.mp hbound
    rw [seconds, abs_lt]
    norm_num at hlow hhigh ⊢
    constructor <;> linarith
  unfold datetimeToEpochMs
  rw [hmicros, ofRat_eq_rounded (lt_thousand_bits hsize)]
  dsimp only
  rw [← seconds, ofRat_eq_rounded (lt_thousand_bits hseconds)]
  rfl

/-- **Milliseconds to a datetime and back.** Up to the year 2242 the datetime is the one that
is meant. Back again, the milliseconds are the same or one nearer to zero; they are the same
unless they are between `1000` and `1024` times a power of two; and in each of these ranges
there are some that are not. -/
theorem epochMs_roundTrip {ms : Int} (h : |ms| < 2 ^ 33 * 1000) :
    epochMsToDatetime ms = .ok ⟨1000 * ms, some 0⟩ ∧
      ∃ back, datetimeToEpochMs ⟨1000 * ms, some 0⟩ = .ok back ∧
        (back = ms ∨ back = ms - ms.sign) ∧ (¬ MayFallShort ms → back = ms) ∧
        ((∃ k : Nat, |ms| = 1001 * 2 ^ k) → back = ms - ms.sign) := by
  refine ⟨epochMsToDatetime_eq h, _, datetimeToEpochMs_eq h, ?_⟩
  rcases lt_trichotomy ms 0 with hneg | rfl | hpos
  · obtain ⟨n, rfl⟩ : ∃ n : Nat, ms = -n := ⟨ms.natAbs, by omega⟩
    rw [abs_neg, abs_of_nonneg (by omega)] at h
    obtain ⟨heither, hsame, hless⟩ := truncate_product (n := n) (by omega) (by omega)
    have hsign : (-(n : Int)).sign = -1 := Int.sign_eq_neg_one_of_neg hneg
    have hrange : MayFallShort (-(n : Int)) ↔ MayFallShort n := by
      simp [MayFallShort]
    rw [product_neg, truncate_neg, hsign, hrange, abs_neg, abs_of_nonneg (by omega)]
    refine ⟨by omega, fun hno => by rw [hsame hno], ?_⟩
    rintro ⟨k, hk⟩
    have hk := hless ⟨k, by exact_mod_cast hk⟩
    omega
  · have hzero : product 0 = 0 := by
      have hrounded : rounded 0 = 0 := by exact_mod_cast rounded_natCast (n := 0) (by norm_num)
      simp [product, seconds, hrounded]
    rw [hzero]
    refine ⟨Or.inl (by simp [truncate]), fun _ => by simp [truncate], fun _ => by simp [truncate]⟩
  · obtain ⟨n, rfl⟩ : ∃ n : Nat, ms = n := ⟨ms.natAbs, by omega⟩
    rw [abs_of_nonneg (by omega)] at h
    obtain ⟨heither, hsame, hless⟩ := truncate_product (n := n) (by omega) (by omega)
    rw [Int.sign_eq_one_of_pos hpos, abs_of_nonneg (by omega)]
    refine ⟨heither, hsame, ?_⟩
    rintro ⟨k, hk⟩
    exact hless ⟨k, by exact_mod_cast hk⟩

/-- A date of 2026, and one of February 2038. -/
theorem epochMs_roundTrip_dates :
    datetimeToEpochMs ⟨1779719400123000, some 0⟩ = .ok 1779719400123 ∧
      datetimeToEpochMs ⟨2149631131648000, some 0⟩ = .ok 2149631131647 := by
  constructor
  · have hdate : |(1779719400123 : Int)| < 2 ^ 33 * 1000 := by decide
    obtain ⟨-, back, hback, -, hsame, -⟩ := epochMs_roundTrip hdate
    rw [← hsame, ← hback]
    · rfl
    · rintro ⟨k, hlow, hhigh⟩
      rcases le_or_gt k 30 with hk | hk
      · have hpower : (2 : Rat) ^ k ≤ 2 ^ (30 : Int) := zpow_le_zpow_right₀ (by norm_num) hk
        norm_num at hpower hhigh
        linarith
      · have hpower : (2 : Rat) ^ (31 : Int) ≤ 2 ^ k := zpow_le_zpow_right₀ (by norm_num) hk
        norm_num at hpower hlow
        linarith
  · have hdate : |(2149631131648 : Int)| < 2 ^ 33 * 1000 := by decide
    obtain ⟨-, back, hback, -, -, hless⟩ := epochMs_roundTrip hdate
    have hvalue : back = 2149631131647 := hless ⟨31, by decide⟩
    rw [← hvalue, ← hback]
    rfl

end CuttleDB.Py
