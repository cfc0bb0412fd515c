import CuttleDB.Lib.Binary64
import Mathlib.Data.BitVec

/-!
# 32-bit words of binary64 numbers

Arithmetic of a language whose only numbers are binary64 values: sums and remainders of
the values themselves, and the bitwise operators, which take the whole part of an operand
modulo `2 ^ 32` and read the result as a signed or an unsigned word.
-/

namespace Binary64

/-- The whole part. -/
def truncate (q : Rat) : Int := if 0 ≤ q then ⌊q⌋ else ⌈q⌉

namespace Double

def add : Double → Double → Double
  | .finite p, .finite q => ofRat (p + q)
  | .nan, _ => .nan
  | _, .nan => .nan
  | .infinity s, .infinity t => if s = t then .infinity s else .nan
  | .infinity s, .finite _ => .infinity s
  | .finite _, .infinity t => .infinity t

/-- The remainder of the division that rounds towards zero. It is never rounded. -/
def rem : Double → Double → Double
  | .finite p, .finite q => if q = 0 then .nan else .finite (p - q * truncate (p / q))
  | .finite p, .infinity _ => .finite p
  | _, _ => .nan

/-- The word that a bitwise operator takes of an operand. -/
def word : Double → BitVec 32
  | .finite q => BitVec.ofInt 32 (truncate q)
  | _ => 0

/-- A word as a signed number. -/
def signed (w : BitVec 32) : Double := .finite w.toInt

def xor (x y : Double) : Double := signed (x.word ^^^ y.word)

def shiftLeft (x : Double) (k : Nat) : Double := signed (x.word <<< (k % 32))

/-- The shift that fills with zeros and has an unsigned result. -/
def shiftRight (x : Double) (k : Nat) : Double := .finite (x.word >>> (k % 32)).toNat

end Double

theorem truncate_intCast (n : Int) : truncate (n : Rat) = n := by
  simp [truncate]

theorem truncate_neg (q : Rat) : truncate (-q) = -truncate q := by
  unfold truncate
  rcases lt_trichotomy q 0 with hneg | rfl | hpos
  · rw [if_pos (by linarith), if_neg (by linarith), Int.floor_neg]
  · simp
  · rw [if_neg (by linarith), if_pos hpos.le, Int.ceil_neg]

/-- The whole part of a quotient is the quotient that is rounded towards zero. -/
theorem truncate_div (m : Int) (n : Nat) : truncate ((m : Rat) / n) = m.tdiv n := by
  rcases Int.natAbs_eq m with h | h
  · have hpos : (0 : Rat) ≤ (m : Rat) / n := by
      rw [h]
      positivity
    rw [truncate, if_pos hpos, Rat.floor_intCast_div_natCast, Int.tdiv_eq_ediv_of_nonneg (by omega)]
  · have hneg : ((m : Rat) / n) = -((m.natAbs : Int) / (n : Rat)) := by
      rw [← neg_div, ← Int.cast_neg, ← h]
    have hdiv : (m.natAbs : Int).tdiv n = (m.natAbs : Int) / n := by
      rw [Int.tdiv_eq_ediv_of_nonneg (by omega)]
    have htdiv : m.tdiv n = -((m.natAbs : Int) / n) := by
      rw [← hdiv, ← Int.neg_tdiv, ← h]
    rw [htdiv, hneg, truncate]
    split
    case isTrue hle =>
      have hzero : ((m.natAbs : Int) : Rat) / n = 0 := by
        have hpos : (0 : Rat) ≤ ((m.natAbs : Int) : Rat) / n := by positivity
        linarith
      rw [← Rat.floor_intCast_div_natCast, hzero]
      simp
    case isFalse => rw [Int.ceil_neg, Rat.floor_intCast_div_natCast]

theorem shiftLeft_eq_mul (w : BitVec 32) (k : Nat) : w <<< k = w * BitVec.ofNat 32 (2 ^ k) := by
  apply BitVec.eq_of_toNat_eq
  simp [Nat.shiftLeft_eq]

theorem abs_toInt_le (w : BitVec 32) : |w.toInt| ≤ 2 ^ 31 := by
  have hlt := BitVec.toInt_lt (x := w)
  have hle := BitVec.le_toInt (x := w)
  rw [abs_le]
  constructor
  · exact hle
  · exact hlt.le

namespace Double

theorem word_intCast (n : Int) : (finite n).word = BitVec.ofInt 32 n := by
  simp [word, truncate_intCast]

theorem word_natCast (n : Nat) : (finite n).word = BitVec.ofNat 32 n := by
  have h := word_intCast n
  rwa [Int.cast_natCast, BitVec.ofInt_natCast] at h

theorem word_signed (w : BitVec 32) : (signed w).word = w := by
  rw [signed, word_intCast, BitVec.ofInt_toInt]

theorem shiftLeft_signed (w : BitVec 32) {k : Nat} (hk : k < 32) :
    (signed w).shiftLeft k = signed (w <<< k) := by
  rw [shiftLeft, word_signed, Nat.mod_eq_of_lt hk]

theorem xor_natCast (m n : Nat) :
    (finite m).xor (finite n) = signed (BitVec.ofNat 32 m ^^^ BitVec.ofNat 32 n) := by
  rw [xor, word_natCast, word_natCast]

theorem add_intCast {m n : Int} (h : |m + n| < 2 ^ 53) :
    add (finite m) (finite n) = finite (m + n : Int) := by
  rw [add, ← Int.cast_add, ofRat_intCast h]

theorem rem_intCast (m : Int) {n : Nat} (hn : 0 < n) :
    rem (finite m) (finite n) = finite (m.tmod n : Int) := by
  have hne : (n : Rat) ≠ 0 := by
    simp only [ne_eq, Nat.cast_eq_zero]
    omega
  rw [rem, if_neg hne, truncate_div, Int.tmod_def]
  simp

end Double

end Binary64
