import Mathlib.Algebra.Order.Ring.Int
import Mathlib.Data.List.Basic
import Mathlib.Data.List.DropRight

/-!
# Python's text operations

`str.split()`, `int` and the decimal text of an integer, as far as the Python
client uses them on the server's lines. `int` is CPython 3.12's: it takes the
decimal digits of every script and refuses a numeral of more than 4300 digits,
the interpreter's default limit.
-/

namespace CuttleDB

abbrev Text := List Char

/-- The decimal text of an integer, as `str` and a format string print it. -/
def intText : Int → Text
  | .ofNat n => Nat.toDigits 10 n
  | .negSucc n => '-' :: Nat.toDigits 10 (n + 1)

/-- The natural number that ASCII digits write. -/
def natOfText? (s : Text) : Option Nat :=
  if s ≠ [] ∧ s.all Char.isDigit then some (Nat.ofDigitChars 10 s 0) else none

/-- The integer that a decimal text writes, without a limit on its length. -/
def intOfText? : Text → Option Int
  | [] => none
  | c :: d => if c = '-' then (natOfText? d).map fun n => -Int.ofNat n
    else (natOfText? (c :: d)).map Int.ofNat

theorem digit_bounds {c : Char} (hc : c.isDigit = true) : 48 ≤ c.toNat ∧ c.toNat ≤ 57 := by
  simpa [Char.isDigit, UInt32.le_iff_toNat_le] using hc

theorem isDigit_of_mem_toDigits {n : Nat} {c : Char} (hc : c ∈ Nat.toDigits 10 n) :
    c.isDigit = true :=
  Nat.isDigit_of_mem_toDigits (by decide) (by decide) hc

theorem mem_intText {i : Int} {c : Char} (hc : c ∈ intText i) : c.isDigit = true ∨ c = '-' := by
  cases i with
  | ofNat n => exact Or.inl (isDigit_of_mem_toDigits hc)
  | negSucc n =>
    rcases List.mem_cons.mp hc with rfl | hdigits
    · exact Or.inr rfl
    · exact Or.inl (isDigit_of_mem_toDigits hdigits)

theorem not_mem_intText {c : Char} (hdigit : c.isDigit = false) (hminus : c ≠ '-') (i : Int) :
    c ∉ intText i := by
  intro hc
  rcases mem_intText hc with htrue | heq
  · simp [hdigit] at htrue
  · exact hminus heq

theorem toNat_lt_of_mem_intText {i : Int} {c : Char} (hc : c ∈ intText i) : c.toNat < 128 := by
  rcases mem_intText hc with hdigit | rfl
  · exact Nat.lt_of_le_of_lt (digit_bounds hdigit).2 (by decide)
  · decide

theorem natOfText?_toDigits (n : Nat) : natOfText? (Nat.toDigits 10 n) = some n := by
  rw [natOfText?, Nat.ofDigitChars_ten_toDigits, if_pos]
  exact ⟨Nat.toDigits_ne_nil, List.all_eq_true.mpr fun _ hc => isDigit_of_mem_toDigits hc⟩

/-- The digits of a number begin with neither sign. -/
theorem toDigits_eq_cons (n : Nat) :
    ∃ c d, Nat.toDigits 10 n = c :: d ∧ c ≠ '-' ∧ c ≠ '+' := by
  cases hd : Nat.toDigits 10 n with
  | nil => exact absurd hd Nat.toDigits_ne_nil
  | cons c d =>
    have hc : c.isDigit = true := isDigit_of_mem_toDigits (n := n) (by simp [hd])
    exact ⟨c, d, rfl, fun h => absurd (h ▸ hc) (by decide), fun h => absurd (h ▸ hc) (by decide)⟩

theorem intOfText?_intText (i : Int) : intOfText? (intText i) = some i := by
  cases i with
  | ofNat n =>
    obtain ⟨c, d, hdigits, hminus, -⟩ := toDigits_eq_cons n
    rw [intText, hdigits, intOfText?, if_neg hminus, ← hdigits, natOfText?_toDigits]
    rfl
  | negSucc n =>
    rw [intText, intOfText?, if_pos rfl, natOfText?_toDigits]
    rfl

/-- Two integers with one text are equal. -/
theorem intText_injective : Function.Injective intText := by
  intro i j h
  have hparsed := congrArg intOfText? h
  rw [intOfText?_intText, intOfText?_intText] at hparsed
  exact Option.some.inj hparsed

/-- A text without the characters to take off is left as it is. -/
theorem trim_of_forall {p : Char → Bool} {s : Text} (h : ∀ c ∈ s, p c = false) :
    (s.dropWhile p).rdropWhile p = s := by
  have hleft : s.dropWhile p = s := by
    cases s with
    | nil => rfl
    | cons c s => rw [List.dropWhile_cons, if_neg (by simp [h c (by simp)])]
  rw [hleft, List.rdropWhile_eq_self_iff]
  intro hne
  simpa using h _ (List.getLast_mem hne)

namespace Py

/-- `str.isspace` for one character. -/
def isSpace (c : Char) : Bool :=
  let n := c.toNat
  (0x09 ≤ n && n ≤ 0x0d) || (0x1c ≤ n && n ≤ 0x20) || n == 0x85 || n == 0xa0 ||
    n == 0x1680 || (0x2000 ≤ n && n ≤ 0x200a) || n == 0x2028 || n == 0x2029 ||
    n == 0x202f || n == 0x205f || n == 0x3000

/-- `s.split()`: the words between runs of white space. -/
def split (s : Text) : List Text := (s.splitOnP isSpace).filter (· ≠ [])

/-- `s.strip()` -/
def strip (s : Text) : Text := (s.dropWhile isSpace).rdropWhile isSpace

/-! ### `int` -/

/-- The zeros of the scripts with decimal digits, nine more digits after each (Unicode 15). -/
def digitZeros : List Nat :=
  [0x30, 0x660, 0x6f0, 0x7c0, 0x966, 0x9e6, 0xa66, 0xae6, 0xb66, 0xbe6, 0xc66, 0xce6, 0xd66,
    0xde6, 0xe50, 0xed0, 0xf20, 0x1040, 0x1090, 0x17e0, 0x1810, 0x1946, 0x19d0, 0x1a80, 0x1a90,
    0x1b50, 0x1bb0, 0x1c40, 0x1c50, 0xa620, 0xa8d0, 0xa900, 0xa9d0, 0xa9f0, 0xaa50, 0xabf0,
    0xff10, 0x104a0, 0x10d30, 0x11066, 0x110f0, 0x11136, 0x111d0, 0x112f0, 0x11450, 0x114d0,
    0x11650, 0x116c0, 0x11730, 0x118e0, 0x11950, 0x11c50, 0x11d50, 0x11da0, 0x11f50, 0x16a60,
    0x16ac0, 0x16b50, 0x1d7ce, 0x1d7d8, 0x1d7e2, 0x1d7ec, 0x1d7f6, 0x1e140, 0x1e2f0, 0x1e4f0,
    0x1e950, 0x1fbf0]

/-- A character as the numeral readers of CPython see it: a digit of any script is the ASCII
digit, white space outside ASCII a blank. -/
def toAscii (c : Char) : Char :=
  if c.toNat < 127 then c
  else if isSpace c then ' '
  else
    match digitZeros.find? fun z => z ≤ c.toNat && c.toNat < z + 10 with
    | some z => Nat.digitChar (c.toNat - z)
    | none => '?'

/-- White space to C. `0x1c` to `0x1f` are not. -/
def isCSpace (c : Char) : Bool := (0x09 ≤ c.toNat && c.toNat ≤ 0x0d) || c.toNat == 0x20

/-- The digits of an `int` literal: groups of digits joined by single underscores, not more
digits than the limit. -/
def digits? (limit : Option Nat) (s : Text) : Option Nat :=
  let digits := s.filter (· ≠ '_')
  if ((s.splitOn '_').all fun g => g ≠ [] ∧ g.all Char.isDigit) ∧
      limit.all (digits.length ≤ ·) then
    some (Nat.ofDigitChars 10 digits 0)
  else none

/-- `int(s)` under a limit on the digits of a numeral, `none` being no limit;
the result `none` is `ValueError`. -/
def intIn? (limit : Option Nat) (s : Text) : Option Int :=
  match ((s.map toAscii).dropWhile isCSpace).rdropWhile isCSpace with
  | [] => none
  | c :: d =>
    if c = '-' then (digits? limit d).map fun n => -Int.ofNat n
    else if c = '+' then (digits? limit d).map Int.ofNat
    else (digits? limit (c :: d)).map Int.ofNat

/-- `sys.get_int_max_str_digits()`, unless it is set -/
def intMaxStrDigits : Nat := 4300

/-- `int(s)` -/
def int? (s : Text) : Option Int := intIn? (some intMaxStrDigits) s

/-- An integer whose text is within a limit. -/
def FitsIn (limit : Option Nat) (i : Int) : Prop :=
  limit.all ((Nat.toDigits 10 i.natAbs).length ≤ ·) = true

instance (limit : Option Nat) (i : Int) : Decidable (FitsIn limit i) := instDecidableEqBool _ _

/-- An integer whose text `int` reads. -/
abbrev Fits (i : Int) : Prop := FitsIn (some intMaxStrDigits) i

theorem fitsIn_none (i : Int) : FitsIn none i := rfl

theorem fits_of_lt {i : Int} {k : Nat} (hpos : 0 < k) (hk : k ≤ intMaxStrDigits)
    (h : i.natAbs < 10 ^ k) : Fits i :=
  decide_eq_true (((Nat.length_toDigits_le_iff (by decide) hpos).mpr h).trans hk)

/-! ### White space -/

/-- A word: what `split` leaves in one piece. -/
def IsWord (w : Text) : Prop := w ≠ [] ∧ ∀ c ∈ w, isSpace c = false

instance (w : Text) : Decidable (IsWord w) :=
  have := List.decidableBAll (fun c => isSpace c = false) w
  inferInstanceAs (Decidable (w ≠ [] ∧ ∀ c ∈ w, isSpace c = false))

theorem split_word_cons {w : Text} (hw : IsWord w) (rest : Text) :
    split (w ++ ' ' :: rest) = w :: split rest := by
  rw [split, List.splitOnP_append_cons_of_forall_mem hw.2 ' ' (by decide), List.filter_cons,
    if_pos (by simpa using hw.1), split]

theorem split_word {w : Text} (hw : IsWord w) : split w = [w] := by
  rw [split, List.splitOnP_eq_singleton hw.2, List.filter_cons, if_pos (by simpa using hw.1),
    List.filter_nil]

/-! ### Decimal texts -/

theorem isSpace_of_isDigit {c : Char} (hc : c.isDigit = true) : isSpace c = false := by
  have hbounds := digit_bounds hc
  simp only [isSpace, Bool.or_eq_false_iff, Bool.and_eq_false_iff, decide_eq_false_iff_not,
    beq_eq_false_iff_ne]
  omega

theorem filter_underscore_toDigits (n : Nat) :
    (Nat.toDigits 10 n).filter (· ≠ '_') = Nat.toDigits 10 n := by
  have hunderscore : '_' ∉ Nat.toDigits 10 n := Nat.underscore_not_in_toDigits
  rw [List.filter_eq_self]
  intro c hc
  simpa using fun heq : c = '_' => hunderscore (heq ▸ hc)

theorem digits?_toDigits {limit : Option Nat} {n : Nat}
    (hn : limit.all ((Nat.toDigits 10 n).length ≤ ·) = true) :
    digits? limit (Nat.toDigits 10 n) = some n := by
  have hdigit : ∀ c ∈ Nat.toDigits 10 n, c.isDigit = true := fun _ hc => isDigit_of_mem_toDigits hc
  rw [digits?, List.splitOn_eq_singleton Nat.underscore_not_in_toDigits,
    filter_underscore_toDigits, Nat.ofDigitChars_ten_toDigits, if_pos]
  refine ⟨?_, hn⟩
  simpa [List.all_eq_true] using hdigit

theorem fits_of_exact {i : Int} (hi : |i| < 2 ^ 53) : Fits i := by
  have hbound : i.natAbs < 10 ^ 16 := by
    rw [Int.abs_eq_natAbs] at hi
    omega
  exact fits_of_lt (by decide) (by decide) hbound

theorem isSpace_of_mem_intText {i : Int} {c : Char} (hc : c ∈ intText i) : isSpace c = false := by
  rcases mem_intText hc with hdigit | rfl
  · exact isSpace_of_isDigit hdigit
  · decide

theorem intText_isWord (i : Int) : IsWord (intText i) := by
  refine ⟨?_, fun c hc => isSpace_of_mem_intText hc⟩
  cases i with
  | ofNat n => exact Nat.toDigits_ne_nil
  | negSucc n => exact List.cons_ne_nil _ _

theorem strip_of_no_space {s : Text} (h : ∀ c ∈ s, isSpace c = false) : strip s = s :=
  trim_of_forall h

theorem strip_bracketed (t : Text) : strip ('[' :: (t ++ [']'])) = '[' :: (t ++ [']']) := by
  rw [strip, List.dropWhile_cons_of_neg (by decide), ← List.cons_append,
    List.rdropWhile_concat_neg _ _ _ (by decide)]

theorem isCSpace_of_isSpace {c : Char} (hc : isSpace c = false) : isCSpace c = false := by
  simp only [isSpace, isCSpace, Bool.or_eq_false_iff, Bool.and_eq_false_iff,
    decide_eq_false_iff_not, beq_eq_false_iff_ne] at hc ⊢
  omega

theorem map_toAscii_intText (i : Int) : (intText i).map toAscii = intText i := by
  refine (List.map_congr_left fun c hc => ?_).trans (List.map_id _)
  have hascii : c.toNat < 127 := by
    rcases mem_intText hc with hdigit | rfl
    · exact Nat.lt_of_le_of_lt (digit_bounds hdigit).2 (by decide)
    · decide
  rw [toAscii, if_pos hascii, id_eq]

/-- **An integer's text is read back,** within the limit. -/
theorem intIn?_intText {limit : Option Nat} {i : Int} (hi : FitsIn limit i) :
    intIn? limit (intText i) = some i := by
  rw [intIn?, map_toAscii_intText,
    trim_of_forall fun c hc => isCSpace_of_isSpace (isSpace_of_mem_intText hc)]
  cases i with
  | ofNat n =>
    obtain ⟨c, d, hdigits, hminus, hplus⟩ := toDigits_eq_cons n
    have hback : digits? limit (Nat.toDigits 10 n) = some n := digits?_toDigits hi
    rw [intText, hdigits]
    dsimp only
    rw [if_neg hminus, if_neg hplus, ← hdigits, hback]
    rfl
  | negSucc n =>
    have hback : digits? limit (Nat.toDigits 10 (n + 1)) = some (n + 1) := digits?_toDigits hi
    rw [intText]
    dsimp only
    rw [if_pos rfl, hback]
    rfl

theorem int?_intText {i : Int} (hi : Fits i) : int? (intText i) = some i := intIn?_intText hi

example : int? "\u0663".toList = some 3 ∧ int? "\x1c5".toList = none := by decide

end Py

end CuttleDB
