import CuttleDB.PyText
import CuttleDB.Lib.Binary64

/-!
# Numbers as text

What `float` in Python and `Number` in JavaScript make of a text. Both read decimal
numerals into binary64; they differ in the digits (Python allows single underscores
between them), in the names of the values that are no numbers, in the white space around
and in what an empty text is. As for `int`, only ASCII digits are digits here.
-/

namespace CuttleDB

open Binary64

/-! ### Decimal numerals -/

/-- A sign and what stands behind it. -/
def sign : Text → Bool × Text
  | '-' :: s => (true, s)
  | '+' :: s => (false, s)
  | s => (false, s)

/-- The exponent of a numeral, from the `e` on. `part` reads a run of digits. -/
def exponent? (part : Text → Option Text) : Text → Option Int
  | [] => some 0
  | _ :: x =>
    let (negative, d) := sign x
    (part d).map fun d => (if negative then -1 else 1) * (Nat.ofDigitChars 10 d 0 : Int)

/-- The digits before and behind the point of a numeral, one of the two runs at least. -/
def mantissa? (part : Text → Option Text) (s : Text) : Option (Text × Text) :=
  let (whole, fraction) := s.span (· ≠ '.')
  match fraction with
  | [] => (part whole).map fun w => (w, [])
  | [_] => (part whole).map fun w => (w, [])
  | _ :: d =>
    if whole = [] then (part d).map fun f => ([], f)
    else (part whole).bind fun w => (part d).map fun f => (w, f)

/-- The value of a decimal numeral without a sign. -/
def decimal? (part : Text → Option Text) (s : Text) : Option Rat :=
  let (mantissa, exponent) := s.span fun c => c ≠ 'e' ∧ c ≠ 'E'
  (mantissa? part mantissa).bind fun (w, f) =>
    (exponent? part exponent).map fun e : Int =>
      (Nat.ofDigitChars 10 (w ++ f) 0 : Rat) * 10 ^ (e - f.length)

/-- A run of digits. -/
def plainDigits? (s : Text) : Option Text :=
  if s ≠ [] ∧ s.all Char.isDigit then some s else none

/-- The number that a numeral stands for, not rounded. -/
def number? (s : Text) : Option Rat :=
  let (negative, s) := sign s
  (decimal? plainDigits? s).map fun q => if negative then -q else q

namespace Py

/-- A run of digits with single underscores between them, without these. -/
def digitPart? (s : Text) : Option Text :=
  if (s.splitOn '_').all fun g => g ≠ [] ∧ g.all Char.isDigit then some (s.filter (· ≠ '_'))
  else none

/-- `float(s)`; `none` is `ValueError`. -/
def float? (s : Text) : Option Double :=
  let (negative, s) := sign (strip s)
  let lower := s.map Char.toLower
  if lower = "inf".toList ∨ lower = "infinity".toList then some (.infinity negative)
  else if lower = "nan".toList then some .nan
  else (decimal? digitPart? s).map fun q => ofRat (if negative then -q else q)

end Py

namespace Js

/-- White space and line ends, as `trim` takes them off. -/
def isSpace (c : Char) : Bool :=
  let n := c.toNat
  (0x09 ≤ n && n ≤ 0x0d) || n == 0x20 || n == 0xa0 || n == 0x1680 ||
    (0x2000 ≤ n && n ≤ 0x200a) || n == 0x2028 || n == 0x2029 || n == 0x202f || n == 0x205f ||
    n == 0x3000 || n == 0xfeff

/-- The value of a digit of base 16 or less. -/
def digitValue? (base : Nat) (c : Char) : Option Nat :=
  let n := c.toNat
  let d := if c.isDigit then n - 48 else if 97 ≤ n then n - 87 else if 65 ≤ n then n - 55 else base
  if d < base then some d else none

/-- The digits behind `0x`, `0o` or `0b`. -/
def radix? (base : Nat) (s : Text) : Option Rat :=
  if s = [] then none
  else (s.mapM (digitValue? base)).map fun ds => (ds.foldl (fun n d => base * n + d) 0 : Nat)

/-- `Number(s)` for a string. -/
def number (s : Text) : Double :=
  match (s.dropWhile isSpace).rdropWhile isSpace with
  | [] => .finite 0
  | '0' :: 'x' :: d | '0' :: 'X' :: d => ((radix? 16 d).map ofRat).getD .nan
  | '0' :: 'o' :: d | '0' :: 'O' :: d => ((radix? 8 d).map ofRat).getD .nan
  | '0' :: 'b' :: d | '0' :: 'B' :: d => ((radix? 2 d).map ofRat).getD .nan
  | s =>
    let (negative, s) := sign s
    if s = "Infinity".toList then .infinity negative
    else ((decimal? plainDigits? s).map fun q => ofRat (if negative then -q else q)).getD .nan

end Js

/-! ### The text of an integer -/

theorem span_digits {p : Char → Bool} (hp : ∀ c, c.isDigit = true → p c = true) {ds : Text}
    (hds : ∀ c ∈ ds, c.isDigit = true) : ds.span p = (ds, []) := by
  have hall : ∀ c ∈ ds, p c = true := fun c hc => hp c (hds c hc)
  rw [List.span_eq_takeWhile_dropWhile, List.takeWhile_eq_self_iff.mpr hall,
    List.dropWhile_eq_nil_iff.mpr hall]

/-- The value of a run of digits. -/
theorem decimal?_digits {part : Text → Option Text} {ds : Text}
    (hds : ∀ c ∈ ds, c.isDigit = true) (hpart : part ds = some ds) :
    decimal? part ds = some (Nat.ofDigitChars 10 ds 0 : Rat) := by
  have hexponent : ∀ c : Char, c.isDigit = true → decide (c ≠ 'e' ∧ c ≠ 'E') = true := by
    intro c hc
    simp only [decide_eq_true_eq]
    constructor <;> rintro rfl <;> exact absurd hc (by decide)
  have hpoint : ∀ c : Char, c.isDigit = true → decide (c ≠ '.') = true := by
    intro c hc
    simp only [decide_eq_true_eq]
    rintro rfl
    exact absurd hc (by decide)
  have hmantissa : mantissa? part ds = some (ds, []) := by
    rw [mantissa?, span_digits hpoint hds]
    simp [hpart]
  rw [decimal?, span_digits hexponent hds]
  simp [hmantissa, exponent?]

theorem plainDigits?_eq {ds : Text} (hne : ds ≠ []) (hds : ∀ c ∈ ds, c.isDigit = true) :
    plainDigits? ds = some ds := by
  rw [plainDigits?, if_pos]
  exact ⟨hne, by simpa using hds⟩

theorem decimal?_toDigits {part : Text → Option Text} {n : Nat}
    (hpart : part (Nat.toDigits 10 n) = some (Nat.toDigits 10 n)) :
    decimal? part (Nat.toDigits 10 n) = some (n : Rat) := by
  rw [decimal?_digits (fun c hc => isDigit_of_mem_toDigits hc) hpart, Nat.ofDigitChars_ten_toDigits]

theorem plainDigits?_toDigits (n : Nat) :
    plainDigits? (Nat.toDigits 10 n) = some (Nat.toDigits 10 n) :=
  plainDigits?_eq Nat.toDigits_ne_nil fun _ hc => isDigit_of_mem_toDigits hc

theorem Py.digitPart?_toDigits (n : Nat) :
    Py.digitPart? (Nat.toDigits 10 n) = some (Nat.toDigits 10 n) := by
  have hunderscore : '_' ∉ Nat.toDigits 10 n := Nat.underscore_not_in_toDigits
  have hall : ∀ c ∈ Nat.toDigits 10 n, c.isDigit = true := fun c hc => isDigit_of_mem_toDigits hc
  rw [Py.digitPart?, List.splitOn_eq_singleton hunderscore, filter_underscore_toDigits, if_pos]
  simpa using hall

theorem sign_digits {ds : Text} (hds : ∀ c ∈ ds, c.isDigit = true) : sign ds = (false, ds) := by
  unfold sign
  split
  · exact absurd (hds '-' (by simp)) (by decide)
  · exact absurd (hds '+' (by simp)) (by decide)
  · rfl

/-- The sign and the digits of an integer's text. -/
theorem sign_intText (i : Int) :
    sign (intText i) = (decide (i < 0), Nat.toDigits 10 i.natAbs) := by
  cases i with
  | ofNat n =>
    rw [intText, sign_digits fun c hc => isDigit_of_mem_toDigits hc]
    rfl
  | negSucc n => simp [sign, intText, Int.negSucc_lt_zero]

theorem cast_sign (i : Int) : (if i < 0 then -|(i : Rat)| else |(i : Rat)|) = i := by
  split <;> rename_i h
  · rw [abs_of_neg (by exact_mod_cast h), neg_neg]
  · rw [abs_of_nonneg (by exact_mod_cast Int.not_lt.mp h)]

theorem number?_intText (i : Int) : number? (intText i) = some (i : Rat) := by
  simp [number?, sign_intText, decimal?_toDigits (plainDigits?_toDigits i.natAbs), cast_sign]

/-- The digits of an integer spell no other value. -/
theorem map_toDigits_ne {f : Char → Char} {n : Nat} {c : Char} {s : Text}
    (hf : ∀ c, c.isDigit = true → f c = c) (hc : c.isDigit = false) :
    (Nat.toDigits 10 n).map f ≠ c :: s := by
  intro h
  cases hd : Nat.toDigits 10 n with
  | nil => exact absurd hd Nat.toDigits_ne_nil
  | cons d ds =>
    have hdigit : d.isDigit = true := isDigit_of_mem_toDigits (n := n) (by simp [hd])
    rw [hd, List.map_cons, hf d hdigit] at h
    rw [(List.cons.inj h).1, hc] at hdigit
    cases hdigit

/-- **Both read the text of an integer alike.** -/
theorem Py.float?_intText (i : Int) : Py.float? (intText i) = some (ofRat i) := by
  have hlower : ∀ c : Char, c.isDigit = true → c.toLower = c := by
    intro c hc
    have hbound := (digit_bounds hc).2
    refine dif_neg ?_
    rintro ⟨hupper, -⟩
    rw [ge_iff_le, UInt32.le_iff_toNat_le] at hupper
    exact absurd (hupper.trans hbound) (by decide)
  have hinf := fun s => map_toDigits_ne (n := i.natAbs) (c := 'i') (s := s) hlower (by decide)
  have hnan := fun s => map_toDigits_ne (n := i.natAbs) (c := 'n') (s := s) hlower (by decide)
  rw [Py.float?, strip_of_no_space fun c hc => isSpace_of_mem_intText hc, sign_intText]
  simp [hinf, hnan, decimal?_toDigits (Py.digitPart?_toDigits i.natAbs), cast_sign]

theorem Js.number_intText (i : Int) : Js.number (intText i) = ofRat i := by
  have hspace : ∀ c ∈ intText i, Js.isSpace c = false := by
    intro c hc
    rcases mem_intText hc with hdigit | rfl
    · have hbounds := digit_bounds hdigit
      simp only [Js.isSpace, Bool.or_eq_false_iff, Bool.and_eq_false_iff, decide_eq_false_iff_not,
        beq_eq_false_iff_ne]
      omega
    · decide
  have hletter : ∀ a : Char, a.isDigit = false → a ≠ '-' → ∀ b d, intText i ≠ b :: a :: d := by
    intro a hdigit hminus b d h
    exact not_mem_intText hdigit hminus i (by simp [h])
  have hempty : intText i ≠ [] := (Py.intText_isWord i).1
  have hinfinity := fun s => map_toDigits_ne (f := id) (n := i.natAbs) (c := 'I') (s := s)
    (fun _ _ => rfl) (by decide)
  rw [Js.number, trim_of_forall hspace]
  split
  · exact absurd ‹_› hempty
  · exact absurd ‹_› (hletter 'x' (by decide) (by decide) _ _)
  · exact absurd ‹_› (hletter 'X' (by decide) (by decide) _ _)
  · exact absurd ‹_› (hletter 'o' (by decide) (by decide) _ _)
  · exact absurd ‹_› (hletter 'O' (by decide) (by decide) _ _)
  · exact absurd ‹_› (hletter 'b' (by decide) (by decide) _ _)
  · exact absurd ‹_› (hletter 'B' (by decide) (by decide) _ _)
  · simp only [List.map_id] at hinfinity
    simp [sign_intText, hinfinity, decimal?_toDigits (plainDigits?_toDigits i.natAbs), cast_sign]

end CuttleDB
