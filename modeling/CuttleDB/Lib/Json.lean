import CuttleDB.Lib.Utf16
import Mathlib.Data.List.Basic

/-!
# JSON texts

A decoder of JSON texts as lists of characters, with the number forms and the strict
strings of Python's `json` module: integers of any size, other numbers kept as their
text (`NaN` and the infinities among them), no control characters in strings. The
strings are lists of code points: an escape may stand for half of a surrogate pair, and
two halves that follow each other are one code point.

The one general fact about decoding is what a longer input does to it: a value that has
been read stays what it is when more follows, unless it is a number at the very end.
An object is never a number, so a text that is an object has no proper prefix that is
a text: a file of which only a part was written cannot be mistaken for another one.
-/

namespace Json

/-- An element of a string. -/
abbrev Point := Fin 0x110000

def point (c : Char) : Point :=
  ⟨c.toNat, c.valid.elim (fun h => Nat.lt_trans h (by decide)) And.right⟩

def points (t : List Char) : List Point := t.map point

/-- Surrogates that are a pair are one code point. -/
def joined (s : List Point) : List Point := Utf16.decode (Utf16.encode s)

inductive Value where
  | null
  | bool (b : Bool)
  | int (n : Int)
  | float (text : List Char)
  | str (s : List Point)
  | arr (items : List Value)
  | obj (fields : List (List Point × Value))

/-! ### Decoding -/

def isSpace (c : Char) : Bool := c = ' ' || c = '\t' || c = '\n' || c = '\r'

def skip (s : List Char) : List Char := s.dropWhile isSpace

def expect (c : Char) : List Char → Option (List Char)
  | [] => none
  | d :: s => if d = c then some s else none

def hexDigit? (c : Char) : Option Nat :=
  if c.isDigit then some (c.toNat - '0'.toNat)
  else if 'a' ≤ c ∧ c ≤ 'f' then some (c.toNat - 'a'.toNat + 10)
  else if 'A' ≤ c ∧ c ≤ 'F' then some (c.toNat - 'A'.toNat + 10)
  else none

/-- The four hexadecimal digits of an escape. -/
def hex4 : List Char → Option (Nat × List Char)
  | a :: b :: c :: d :: s => do
    let a ← hexDigit? a
    let b ← hexDigit? b
    let c ← hexDigit? c
    let d ← hexDigit? d
    pure (((a * 16 + b) * 16 + c) * 16 + d, s)
  | _ => none

/-- What follows a backslash. -/
def escape : List Char → Option (Point × List Char)
  | [] => none
  | c :: s =>
    match c with
    | 'u' => (hex4 s).map fun p => (Fin.ofNat 0x110000 p.1, p.2)
    | '"' => some (point '"', s)
    | '\\' => some (point '\\', s)
    | '/' => some (point '/', s)
    | 'b' => some (point '\x08', s)
    | 'f' => some (point '\x0c', s)
    | 'n' => some (point '\n', s)
    | 'r' => some (point '\r', s)
    | 't' => some (point '\t', s)
    | _ => none

/-- A string, behind its opening quote. The first argument bounds the length. -/
def string : Nat → List Char → Option (List Point × List Char)
  | 0, _ => none
  | _ + 1, [] => none
  | n + 1, c :: s =>
    if c = '"' then some ([], s)
    else if c = '\\' then do
      let (d, s) ← escape s
      let (t, s) ← string n s
      pure (d :: t, s)
    else if c.toNat < 0x20 then none
    else do
      let (t, s) ← string n s
      pure (point c :: t, s)

def literal (word : List Char) (v : Value) (s : List Char) : Option (Value × List Char) :=
  if word <+: s then some (v, s.drop word.length) else none

def whole : List Char → Option (List Char × List Char)
  | [] => none
  | c :: s =>
    if c = '0' then some (['0'], s)
    else if c.isDigit then some (c :: s.takeWhile Char.isDigit, s.dropWhile Char.isDigit)
    else none

def fraction : List Char → List Char × List Char
  | [] => ([], [])
  | c :: s =>
    if c = '.' ∧ s.takeWhile Char.isDigit ≠ [] then
      ('.' :: s.takeWhile Char.isDigit, s.dropWhile Char.isDigit)
    else ([], c :: s)

def sign : List Char → List Char × List Char
  | [] => ([], [])
  | c :: s => if c = '+' ∨ c = '-' then ([c], s) else ([], c :: s)

def exponent : List Char → List Char × List Char
  | [] => ([], [])
  | c :: s =>
    if (c = 'e' ∨ c = 'E') ∧ (sign s).2.takeWhile Char.isDigit ≠ [] then
      (c :: (sign s).1 ++ (sign s).2.takeWhile Char.isDigit, (sign s).2.dropWhile Char.isDigit)
    else ([], c :: s)

def minus (s : List Char) : List Char × List Char :=
  match expect '-' s with
  | some s => (['-'], s)
  | none => ([], s)

def number (s : List Char) : Option (Value × List Char) :=
  match whole (minus s).2 with
  | none => none
  | some (ds, s') =>
    let f := fraction s'
    let e := exponent f.2
    if f.1 = [] ∧ e.1 = [] then
      let n := Nat.ofDigitChars 10 ds 0
      some (.int (if (minus s).1 = [] then n else -n), e.2)
    else some (.float ((minus s).1 ++ ds ++ f.1 ++ e.1), e.2)

def scalar (c : Char) (s : List Char) : Option (Value × List Char) :=
  match c with
  | 'n' => literal "null".toList .null s
  | 't' => literal "true".toList (.bool true) s
  | 'f' => literal "false".toList (.bool false) s
  | 'N' => literal "NaN".toList (.float "NaN".toList) s
  | 'I' => literal "Infinity".toList (.float "Infinity".toList) s
  | _ =>
    match number s with
    | some p => some p
    | none => literal "-Infinity".toList (.float "-Infinity".toList) s

mutual

/-- A value. The first argument bounds the depth and the lengths in it. -/
def value : Nat → List Char → Option (Value × List Char)
  | 0, _ => none
  | _ + 1, [] => none
  | n + 1, c :: s =>
    if c = '"' then (string n s).map fun p => (.str (joined p.1), p.2)
    else if c = '{' then
      match expect '}' (skip s) with
      | some s => some (.obj [], s)
      | none => (members n (skip s)).map fun p => (.obj p.1, p.2)
    else if c = '[' then
      match expect ']' (skip s) with
      | some s => some (.arr [], s)
      | none => (elements n (skip s)).map fun p => (.arr p.1, p.2)
    else scalar c (c :: s)

/-- The members of an object, up to its closing brace. -/
def members : Nat → List Char → Option (List (List Point × Value) × List Char)
  | 0, _ => none
  | n + 1, s => do
    let s ← expect '"' s
    let (key, s) ← string n s
    let s ← expect ':' (skip s)
    let (v, s) ← value n (skip s)
    match expect '}' (skip s) with
    | some s => pure ([(joined key, v)], s)
    | none =>
      let s ← expect ',' (skip s)
      let (fields, s) ← members n (skip s)
      pure ((joined key, v) :: fields, s)

/-- The items of an array, up to its closing bracket. -/
def elements : Nat → List Char → Option (List Value × List Char)
  | 0, _ => none
  | n + 1, s => do
    let (v, s) ← value n s
    match expect ']' (skip s) with
    | some s => pure ([v], s)
    | none =>
      let s ← expect ',' (skip s)
      let (items, s) ← elements n (skip s)
      pure (v :: items, s)

end

/-- A text is one value, with white space around it. -/
def decode (s : List Char) : Option Value :=
  match value (s.length + 1) (skip s) with
  | some (v, rest) => if skip rest = [] then some v else none
  | none => none

/-- The value of a member; the last one of a name counts. -/
def field? (key : List Point) (fields : List (List Point × Value)) : Option Value :=
  fields.reverse.lookup key

/-! ### Longer inputs -/

theorem dropWhile_append {p : Char → Bool} {s : List Char} (h : s.dropWhile p ≠ [])
    (q : List Char) :
    (s ++ q).takeWhile p = s.takeWhile p ∧ (s ++ q).dropWhile p = s.dropWhile p ++ q := by
  induction s with
  | nil => exact absurd rfl h
  | cons c s ih =>
    rw [List.cons_append, List.takeWhile_cons, List.takeWhile_cons, List.dropWhile_cons,
      List.dropWhile_cons]
    rw [List.dropWhile_cons] at h
    by_cases hc : p c = true
    · rw [if_pos hc] at h
      simp only [hc, if_true]
      exact ⟨by rw [(ih h).1], (ih h).2⟩
    · simp [hc]

theorem skip_append {s : List Char} (h : skip s ≠ []) (q : List Char) :
    skip (s ++ q) = skip s ++ q := (dropWhile_append h q).2

theorem expect_eq_some {c : Char} {s r : List Char} : expect c s = some r ↔ s = c :: r := by
  cases s with
  | nil => simp [expect]
  | cons d s =>
    rw [expect]
    by_cases hd : d = c
    · simp [hd]
    · simp [hd]

theorem expect_append {c : Char} {s r : List Char} (h : expect c s = some r) (q : List Char) :
    expect c (s ++ q) = some (r ++ q) := by
  rw [expect_eq_some] at h ⊢
  rw [h, List.cons_append]

theorem expect_append_none {c : Char} {s : List Char} (hs : s ≠ []) (h : expect c s = none)
    (q : List Char) : expect c (s ++ q) = none := by
  obtain ⟨d, s, rfl⟩ := List.exists_cons_of_ne_nil hs
  rw [expect] at h
  rw [List.cons_append, expect]
  by_cases hd : d = c
  · rw [if_pos hd] at h
    cases h
  · rw [if_neg hd]

/-- A reader that is not disturbed by what follows. -/
def Local {β : Type} (read : List Char → Option (β × List Char)) : Prop :=
  ∀ s b r q, read s = some (b, r) → read (s ++ q) = some (b, r ++ q)

theorem hex4_local : Local hex4 := by
  intro s n r q h
  match s with
  | [] => cases h
  | [_] => cases h
  | [_, _] => cases h
  | [_, _, _] => cases h
  | a :: b :: c :: d :: s =>
    simp only [hex4, List.cons_append, Option.bind_eq_bind, Option.bind_eq_some_iff,
      Option.pure_def, Option.some.injEq, Prod.mk.injEq] at h ⊢
    obtain ⟨a', ha, b', hb, c', hc, d', hd, hn, rfl⟩ := h
    exact ⟨a', ha, b', hb, c', hc, d', hd, hn, rfl⟩

theorem escape_local : Local escape := by
  intro s x r q h
  cases s with
  | nil => cases h
  | cons c s =>
    rw [List.cons_append]
    unfold escape at h ⊢
    dsimp only at h ⊢
    split at h
    · obtain ⟨⟨n, s₁⟩, hn, heq⟩ := Option.map_eq_some_iff.mp h
      obtain ⟨rfl, rfl⟩ := Prod.mk.inj heq
      rw [hex4_local _ _ _ q hn]
      rfl
    all_goals
      first
      | (obtain ⟨rfl, rfl⟩ := Prod.mk.inj (Option.some.inj h); rfl)
      | cases h

/-- A string read with some bound is read with any larger one. -/
theorem string_append {n m : Nat} (hnm : n ≤ m) {s r : List Char} {t : List Point}
    (h : string n s = some (t, r)) (q : List Char) : string m (s ++ q) = some (t, r ++ q) := by
  induction n generalizing m s t r with
  | zero => cases h
  | succ n ih =>
    obtain ⟨m, rfl⟩ := Nat.exists_eq_succ_of_ne_zero (Nat.ne_of_gt (Nat.lt_of_lt_of_le n.succ_pos hnm))
    have hnm' : n ≤ m := Nat.succ_le_succ_iff.mp hnm
    cases s with
    | nil => cases h
    | cons c s =>
      rw [string] at h
      rw [List.cons_append, string]
      split at h
      · rename_i hquote
        obtain ⟨rfl, rfl⟩ := Prod.mk.inj (Option.some.inj h)
        rw [if_pos hquote]
      · rename_i hquote
        rw [if_neg hquote]
        split at h
        · rename_i hescape
          rw [if_pos hescape]
          simp only [Option.bind_eq_bind, Option.bind_eq_some_iff] at h ⊢
          obtain ⟨⟨d, s₁⟩, hd, ⟨u, s₂⟩, hu, h⟩ := h
          obtain ⟨rfl, rfl⟩ := Prod.mk.inj (Option.some.inj h)
          exact ⟨⟨d, s₁ ++ q⟩, escape_local _ _ _ q hd, ⟨u, s₂ ++ q⟩, ih hnm' hu, rfl⟩
        · rename_i hescape
          rw [if_neg hescape]
          split at h
          · cases h
          · rename_i hcontrol
            rw [if_neg hcontrol]
            simp only [Option.bind_eq_bind, Option.bind_eq_some_iff] at h ⊢
            obtain ⟨⟨u, s₁⟩, hu, h⟩ := h
            obtain ⟨rfl, rfl⟩ := Prod.mk.inj (Option.some.inj h)
            exact ⟨⟨u, s₁ ++ q⟩, ih hnm' hu, rfl⟩

theorem literal_local (word : List Char) (v : Value) : Local (literal word v) := by
  intro s w r q h
  unfold literal at h ⊢
  split at h
  · rename_i hword
    obtain ⟨rfl, rfl⟩ := Prod.mk.inj (Option.some.inj h)
    obtain ⟨t, rfl⟩ := hword
    rw [if_pos ⟨t ++ q, by simp⟩]
    simp
  · cases h

/-! ### Numbers -/

/-- What stands behind a number is not a part of it. -/
def Stop (r : List Char) : Prop := ∃ c t, r = c :: t ∧ c ≠ '.' ∧ c ≠ 'e' ∧ c ≠ 'E'

theorem minus_append {s : List Char} (hs : s ≠ []) (q : List Char) :
    minus (s ++ q) = ((minus s).1, (minus s).2 ++ q) := by
  unfold minus
  cases h : expect '-' s with
  | none => rw [expect_append_none hs h]
  | some t => rw [expect_append h]

theorem whole_append {s ds r : List Char} (h : whole s = some (ds, r)) (hr : r ≠ [])
    (q : List Char) : whole (s ++ q) = some (ds, r ++ q) := by
  cases s with
  | nil => cases h
  | cons c s =>
    rw [whole] at h
    rw [List.cons_append, whole]
    split at h
    · rename_i hzero
      obtain ⟨rfl, rfl⟩ := Prod.mk.inj (Option.some.inj h)
      rw [if_pos hzero]
    · rename_i hzero
      rw [if_neg hzero]
      split at h
      · rename_i hdigit
        obtain ⟨rfl, rfl⟩ := Prod.mk.inj (Option.some.inj h)
        obtain ⟨htake, hdrop⟩ := dropWhile_append hr q
        rw [if_pos hdigit, htake, hdrop]
      · cases h

theorem fraction_append {s : List Char} (h : (fraction s).2 ≠ [])
    (hdot : (fraction s).2.head? ≠ some '.') (q : List Char) :
    fraction (s ++ q) = ((fraction s).1, (fraction s).2 ++ q) := by
  cases s with
  | nil => exact absurd rfl h
  | cons c s =>
    rw [fraction] at h hdot ⊢
    rw [List.cons_append, fraction]
    by_cases hc : c = '.' ∧ s.takeWhile Char.isDigit ≠ []
    · rw [if_pos hc] at h ⊢
      obtain ⟨htake, hdrop⟩ := dropWhile_append h q
      rw [htake, hdrop, if_pos hc]
    · rw [if_neg hc] at hdot ⊢
      have hne : c ≠ '.' := fun heq => hdot (by rw [heq]; rfl)
      rw [if_neg fun h => hne h.1]
      rfl

theorem sign_append {s : List Char} (h : s ≠ []) (q : List Char) :
    sign (s ++ q) = ((sign s).1, (sign s).2 ++ q) := by
  obtain ⟨c, s, rfl⟩ := List.exists_cons_of_ne_nil h
  rw [List.cons_append, sign, sign]
  split <;> rfl

theorem exponent_append {s : List Char} (h : (exponent s).2 ≠ [])
    (he : (exponent s).2.head? ≠ some 'e') (hE : (exponent s).2.head? ≠ some 'E')
    (q : List Char) : exponent (s ++ q) = ((exponent s).1, (exponent s).2 ++ q) := by
  cases s with
  | nil => exact absurd rfl h
  | cons c s =>
    rw [exponent] at h he hE ⊢
    rw [List.cons_append, exponent]
    by_cases hc : (c = 'e' ∨ c = 'E') ∧ (sign s).2.takeWhile Char.isDigit ≠ []
    · rw [if_pos hc] at h ⊢
      have hs : s ≠ [] := by
        rintro rfl
        exact hc.2 rfl
      obtain ⟨htake, hdrop⟩ := dropWhile_append h q
      rw [sign_append hs, htake, hdrop, if_pos hc]
    · rw [if_neg hc] at he hE ⊢
      have hne : ¬ (c = 'e' ∨ c = 'E') := by
        rintro (rfl | rfl)
        · exact he rfl
        · exact hE rfl
      rw [if_neg fun h => hne h.1]
      rfl

theorem number_append {s r : List Char} {v : Value} (h : number s = some (v, r)) (hr : Stop r)
    (q : List Char) : number (s ++ q) = some (v, r ++ q) := by
  have hs : s ≠ [] := by
    rintro rfl
    cases h
  obtain ⟨c, t, rfl, hdot, he, hE⟩ := hr
  unfold number at h ⊢
  rw [minus_append hs]
  dsimp only
  cases hwhole : whole (minus s).2 with
  | none =>
    rw [hwhole] at h
    cases h
  | some p =>
    obtain ⟨ds, s'⟩ := p
    rw [hwhole] at h
    dsimp only at h
    have hrest : (exponent (fraction s').2).2 = c :: t := by
      split at h <;> exact (Prod.mk.inj (Option.some.inj h)).2
    have hexp : exponent ((fraction s').2 ++ q) =
        ((exponent (fraction s').2).1, (exponent (fraction s').2).2 ++ q) := by
      apply exponent_append
      · rw [hrest]
        exact List.cons_ne_nil _ _
      · rw [hrest]
        exact fun h => he (Option.some.inj h)
      · rw [hrest]
        exact fun h => hE (Option.some.inj h)
    have hfrac : fraction (s' ++ q) = ((fraction s').1, (fraction s').2 ++ q) := by
      apply fraction_append
      · intro hnil
        rw [hnil] at hrest
        cases hrest
      · -- a bare point is not the end of a number
        intro hhead
        cases hf : (fraction s').2 with
        | nil =>
          rw [hf] at hhead
          cases hhead
        | cons d u =>
          rw [hf] at hhead hrest
          obtain rfl := Option.some.inj hhead
          rw [exponent, if_neg fun h => absurd h.1 (by decide)] at hrest
          exact hdot (List.cons.inj hrest).1.symm
    have hs' : s' ≠ [] := by
      rintro rfl
      cases hrest
    rw [whole_append hwhole hs' q]
    dsimp only
    rw [hfrac, hexp]
    dsimp only
    split at h
    · rename_i hint
      rw [if_pos hint, hrest]
      obtain ⟨rfl, -⟩ := Prod.mk.inj (Option.some.inj h)
      rfl
    · rename_i hint
      rw [if_neg hint, hrest]
      obtain ⟨rfl, -⟩ := Prod.mk.inj (Option.some.inj h)
      rfl

/-! ### Values -/

def Value.isNumber : Value → Bool
  | .int _ => true
  | .float _ => true
  | _ => false

theorem number_isNumber {s r : List Char} {v : Value} (h : number s = some (v, r)) :
    v.isNumber = true := by
  unfold number at h
  split at h
  · cases h
  · dsimp only at h
    split at h <;> (obtain ⟨rfl, -⟩ := Prod.mk.inj (Option.some.inj h); rfl)

theorem number_minus_infinity (s : List Char) : number ("-Infinity".toList ++ s) = none := rfl

theorem scalar_append {c : Char} {s r : List Char} {v : Value} (h : scalar c s = some (v, r))
    (hr : v.isNumber = true → Stop r) (q : List Char) :
    scalar c (s ++ q) = some (v, r ++ q) := by
  unfold scalar at h ⊢
  split at h
  · exact literal_local _ _ _ _ _ q h
  · exact literal_local _ _ _ _ _ q h
  · exact literal_local _ _ _ _ _ q h
  · exact literal_local _ _ _ _ _ q h
  · exact literal_local _ _ _ _ _ q h
  · cases hnumber : number s with
    | some p =>
      obtain ⟨w, t⟩ := p
      rw [hnumber] at h
      obtain ⟨rfl, rfl⟩ := Prod.mk.inj (Option.some.inj h)
      rw [number_append hnumber (hr (number_isNumber hnumber))]
    | none =>
      rw [hnumber] at h
      dsimp only at h
      have hlong : number (s ++ q) = none := by
        unfold literal at h
        split at h
        · rename_i hword
          obtain ⟨t, rfl⟩ := hword
          rw [List.append_assoc]
          exact number_minus_infinity _
        · cases h
      rw [hlong]
      exact literal_local _ _ _ _ _ q h

theorem skip_ne_nil_of_expect {c : Char} {s r : List Char} (h : expect c (skip s) = some r) :
    skip s ≠ [] := by
  rw [expect_eq_some] at h
  rw [h]
  exact List.cons_ne_nil _ _

/-- What stands in front of white space and a closing character is not cut short. -/
theorem stop_of_expect {c : Char} {s r : List Char} (h : expect c (skip s) = some r)
    (hc : c ≠ '.' ∧ c ≠ 'e' ∧ c ≠ 'E') : Stop s := by
  rw [expect_eq_some] at h
  cases s with
  | nil => cases h
  | cons d s =>
    rw [skip, List.dropWhile_cons] at h
    by_cases hd : isSpace d = true
    · refine ⟨d, s, rfl, ?_, ?_, ?_⟩ <;>
        · rintro rfl
          exact absurd hd (by decide)
    · rw [if_neg hd] at h
      obtain ⟨rfl, -⟩ := List.cons.inj h
      exact ⟨d, s, rfl, hc⟩

/-- Whether a list goes on behind an item does not depend on what follows. -/
theorem expect_skip_append {c : Char} {s r : List Char} (h : expect c (skip s) = some r)
    (q : List Char) : expect c (skip (s ++ q)) = some (r ++ q) := by
  rw [skip_append (skip_ne_nil_of_expect h)]
  exact expect_append h q

theorem value_nil (n : Nat) : value n [] = none := by
  cases n <;> rw [value]

theorem members_nil (n : Nat) : members n [] = none := by
  cases n <;> rw [members]
  rfl

theorem elements_nil (n : Nat) : elements n [] = none := by
  cases n <;> rw [elements]
  rw [value_nil]
  rfl

/-- What is read with the bound `n` is read with any larger one, and when more follows,
unless it is a number and nothing stands behind it. -/
structure Grows (n : Nat) : Prop where
  value : ∀ {m : Nat} {s r : List Char} {v : Value} (q : List Char), n ≤ m →
    value n s = some (v, r) → (v.isNumber = true → Stop r) → value m (s ++ q) = some (v, r ++ q)
  members : ∀ {m : Nat} {s r : List Char} {fields : List (List Point × Value)} (q : List Char),
    n ≤ m → members n s = some (fields, r) → members m (s ++ q) = some (fields, r ++ q)
  elements : ∀ {m : Nat} {s r : List Char} {items : List Value} (q : List Char), n ≤ m →
    elements n s = some (items, r) → elements m (s ++ q) = some (items, r ++ q)

theorem Grows.value_succ {n m : Nat} (h : Grows n) (hnm : n ≤ m) {s r : List Char} {v : Value}
    (q : List Char) (hv : Json.value (n + 1) s = some (v, r))
    (hr : v.isNumber = true → Stop r) : Json.value (m + 1) (s ++ q) = some (v, r ++ q) := by
  cases s with
  | nil =>
    rw [value_nil] at hv
    cases hv
  | cons c s =>
    rw [Json.value] at hv
    rw [List.cons_append, Json.value]
    split at hv
    · rename_i hc
      rw [if_pos hc]
      obtain ⟨⟨t, r'⟩, hstring, heq⟩ := Option.map_eq_some_iff.mp hv
      obtain ⟨rfl, rfl⟩ := Prod.mk.inj heq
      rw [string_append hnm hstring]
      rfl
    rename_i hc
    rw [if_neg hc]
    split at hv
    · rename_i hc
      rw [if_pos hc]
      cases hclose : expect '}' (skip s) with
      | some r' =>
        rw [hclose] at hv
        obtain ⟨rfl, rfl⟩ := Prod.mk.inj (Option.some.inj hv)
        rw [expect_skip_append hclose]
      | none =>
        rw [hclose] at hv
        obtain ⟨⟨fields, r'⟩, hmembers, heq⟩ := Option.map_eq_some_iff.mp hv
        obtain ⟨rfl, rfl⟩ := Prod.mk.inj heq
        have hne : skip s ≠ [] := by
          intro hnil
          rw [hnil, members_nil] at hmembers
          cases hmembers
        rw [skip_append hne, expect_append_none hne hclose, h.members q hnm hmembers]
        rfl
    rename_i hc
    rw [if_neg hc]
    split at hv
    · rename_i hc
      rw [if_pos hc]
      cases hclose : expect ']' (skip s) with
      | some r' =>
        rw [hclose] at hv
        obtain ⟨rfl, rfl⟩ := Prod.mk.inj (Option.some.inj hv)
        rw [expect_skip_append hclose]
      | none =>
        rw [hclose] at hv
        obtain ⟨⟨items, r'⟩, helements, heq⟩ := Option.map_eq_some_iff.mp hv
        obtain ⟨rfl, rfl⟩ := Prod.mk.inj heq
        have hne : skip s ≠ [] := by
          intro hnil
          rw [hnil, elements_nil] at helements
          cases helements
        rw [skip_append hne, expect_append_none hne hclose, h.elements q hnm helements]
        rfl
    · rename_i hc
      rw [if_neg hc]
      exact scalar_append hv hr q

theorem Grows.members_succ {n m : Nat} (h : Grows n) (hnm : n ≤ m) {s r : List Char}
    {fields : List (List Point × Value)} (q : List Char)
    (hfields : Json.members (n + 1) s = some (fields, r)) :
    Json.members (m + 1) (s ++ q) = some (fields, r ++ q) := by
  rw [Json.members] at hfields ⊢
  simp only [Option.bind_eq_bind, Option.bind_eq_some_iff] at hfields ⊢
  obtain ⟨s₁, hs₁, ⟨key, s₂⟩, hkey, s₃, hs₃, ⟨v, s₄⟩, hv, hend⟩ := hfields
  have hne : skip s₃ ≠ [] := by
    intro hnil
    rw [hnil, value_nil] at hv
    cases hv
  refine ⟨_, expect_append hs₁ q, _, string_append hnm hkey q, _, expect_skip_append hs₃ q, ?_⟩
  dsimp only at hend ⊢
  rw [skip_append hne]
  cases hclose : expect '}' (skip s₄) with
  | some s₅ =>
    rw [hclose] at hend
    obtain ⟨rfl, rfl⟩ := Prod.mk.inj (Option.some.inj hend)
    refine ⟨_, h.value q hnm hv fun _ => stop_of_expect hclose (by decide), ?_⟩
    dsimp only
    rw [expect_skip_append hclose]
    rfl
  | none =>
    rw [hclose] at hend
    simp only [Option.bind_eq_some_iff] at hend
    obtain ⟨s₅, hs₅, ⟨fields', s₆⟩, hfields, hend⟩ := hend
    obtain ⟨rfl, rfl⟩ := Prod.mk.inj (Option.some.inj hend)
    refine ⟨_, h.value q hnm hv fun _ => stop_of_expect hs₅ (by decide), ?_⟩
    have hne₄ := skip_ne_nil_of_expect hs₅
    have hne₅ : skip s₅ ≠ [] := by
      intro hnil
      rw [hnil, members_nil] at hfields
      cases hfields
    dsimp only
    rw [skip_append hne₄, expect_append_none hne₄ hclose]
    simp only [Option.bind_eq_some_iff]
    refine ⟨_, expect_append hs₅ q, (fields', s₆ ++ q), ?_, rfl⟩
    rw [skip_append hne₅]
    exact h.members q hnm hfields

theorem Grows.elements_succ {n m : Nat} (h : Grows n) (hnm : n ≤ m) {s r : List Char}
    {items : List Value} (q : List Char) (hitems : Json.elements (n + 1) s = some (items, r)) :
    Json.elements (m + 1) (s ++ q) = some (items, r ++ q) := by
  rw [Json.elements] at hitems ⊢
  simp only [Option.bind_eq_bind, Option.bind_eq_some_iff] at hitems ⊢
  obtain ⟨⟨v, s₁⟩, hv, hend⟩ := hitems
  dsimp only at hend ⊢
  cases hclose : expect ']' (skip s₁) with
  | some s₂ =>
    rw [hclose] at hend
    obtain ⟨rfl, rfl⟩ := Prod.mk.inj (Option.some.inj hend)
    refine ⟨_, h.value q hnm hv fun _ => stop_of_expect hclose (by decide), ?_⟩
    dsimp only
    rw [expect_skip_append hclose]
    rfl
  | none =>
    rw [hclose] at hend
    simp only [Option.bind_eq_some_iff] at hend
    obtain ⟨s₂, hs₂, ⟨items', s₃⟩, hitems, hend⟩ := hend
    obtain ⟨rfl, rfl⟩ := Prod.mk.inj (Option.some.inj hend)
    refine ⟨_, h.value q hnm hv fun _ => stop_of_expect hs₂ (by decide), ?_⟩
    have hne₁ := skip_ne_nil_of_expect hs₂
    have hne₂ : skip s₂ ≠ [] := by
      intro hnil
      rw [hnil, elements_nil] at hitems
      cases hitems
    dsimp only
    rw [skip_append hne₁, expect_append_none hne₁ hclose]
    simp only [Option.bind_eq_some_iff]
    refine ⟨_, expect_append hs₂ q, (items', s₃ ++ q), ?_, rfl⟩
    rw [skip_append hne₂]
    exact h.elements q hnm hitems

/-- **A value that has been read stays what it is when more follows.** -/
theorem grows (n : Nat) : Grows n := by
  induction n with
  | zero =>
    refine ⟨fun q _ h => ?_, fun q _ h => ?_, fun q _ h => ?_⟩
    · rw [Json.value] at h
      cases h
    · rw [Json.members] at h
      cases h
    · rw [Json.elements] at h
      cases h
  | succ n ih =>
    have hbound : ∀ {m : Nat}, n + 1 ≤ m → ∃ k, m = k + 1 ∧ n ≤ k := fun {m} h =>
      ⟨m - 1, by omega, by omega⟩
    refine ⟨fun q hnm h hr => ?_, fun q hnm h => ?_, fun q hnm h => ?_⟩
    · obtain ⟨k, rfl, hk⟩ := hbound hnm
      exact ih.value_succ hk q h hr
    · obtain ⟨k, rfl, hk⟩ := hbound hnm
      exact ih.members_succ hk q h
    · obtain ⟨k, rfl, hk⟩ := hbound hnm
      exact ih.elements_succ hk q h

/-! ### Parts of a text -/

theorem value_brace_isNumber {n : Nat} {s r : List Char} {v : Value}
    (h : value n ('{' :: s) = some (v, r)) : v.isNumber = false := by
  cases n with
  | zero =>
    rw [value] at h
    cases h
  | succ n =>
    rw [value, if_neg (by decide), if_pos rfl] at h
    split at h
    · obtain ⟨rfl, -⟩ := Prod.mk.inj (Option.some.inj h)
      rfl
    · obtain ⟨_, -, heq⟩ := Option.map_eq_some_iff.mp h
      obtain ⟨rfl, -⟩ := Prod.mk.inj heq
      rfl

/-- **A text that is an object has no proper prefix that is a text.** -/
theorem decode_proper_prefix {n : Nat} {s p : List Char} {v : Value}
    (h : value n ('{' :: s) = some (v, [])) (hp : p <+: '{' :: s) (hne : p ≠ '{' :: s) :
    decode p = none := by
  obtain ⟨q, hq⟩ := hp
  cases p with
  | nil => rfl
  | cons c p =>
    obtain ⟨rfl, -⟩ := List.cons.inj hq
    have hskip : skip ('{' :: p) = '{' :: p := rfl
    rw [decode, hskip]
    cases hshort : value (('{' :: p).length + 1) ('{' :: p) with
    | none => rfl
    | some w =>
      obtain ⟨w, r⟩ := w
      have hobject := value_brace_isNumber hshort
      have hlong := (grows _).value q (Nat.le_max_left _ n) hshort (by simp [hobject])
      have hwhole := (grows n).value [] (Nat.le_max_right (('{' :: p).length + 1) n) h
        (by simp [value_brace_isNumber h])
      rw [hq, ← List.append_nil ('{' :: s), hwhole] at hlong
      -- the longer text has nothing behind its value, so the shorter one is not shorter
      have hnil : r ++ q = [] := (Prod.mk.inj (Option.some.inj hlong)).2.symm
      obtain rfl := (List.append_eq_nil_iff.mp hnil).2
      exact absurd (by rw [← hq, List.append_nil]) hne

/-! ### Texts of integers and members -/

theorem toDigits_head {n : Nat} (hn : 0 < n) :
    ∃ c ds, Nat.toDigits 10 n = c :: ds ∧ c ≠ '0' := by
  induction n using Nat.strongRecOn with
  | ind n ih =>
    by_cases hlt : n < 10
    · exact ⟨n.digitChar, [], Nat.toDigits_of_lt_base hlt, by simp; omega⟩
    · obtain ⟨c, ds, hds, hc⟩ := ih (n / 10) (by omega) (by omega)
      refine ⟨c, ds ++ [(n % 10).digitChar], ?_, hc⟩
      rw [Nat.toDigits_of_base_le (by decide) (by omega), hds]
      rfl

theorem isDigit_toDigits {n : Nat} {c : Char} (hc : c ∈ Nat.toDigits 10 n) : c.isDigit = true :=
  Nat.isDigit_of_mem_toDigits (by decide) (by decide) hc

theorem whole_toDigits (n : Nat) {c : Char} (hc : c.isDigit = false) (t : List Char) :
    whole (Nat.toDigits 10 n ++ c :: t) = some (Nat.toDigits 10 n, c :: t) := by
  have hstop : (c :: t).takeWhile Char.isDigit = [] ∧ (c :: t).dropWhile Char.isDigit = c :: t := by
    rw [List.takeWhile_cons, List.dropWhile_cons, hc]
    exact ⟨rfl, rfl⟩
  rcases Nat.eq_zero_or_pos n with rfl | hn
  · rw [Nat.toDigits_zero, List.singleton_append, whole, if_pos rfl]
  · obtain ⟨d, ds, hds, hd⟩ := toDigits_head hn
    have hdigits : ∀ x ∈ d :: ds, x.isDigit = true := by
      rw [← hds]
      exact fun x hx => isDigit_toDigits hx
    have htail : ∀ x ∈ ds, x.isDigit = true := fun x hx => hdigits x (List.mem_cons_of_mem _ hx)
    rw [hds, List.cons_append, whole, if_neg hd, if_pos (hdigits d List.mem_cons_self),
      List.takeWhile_append_of_pos htail, List.dropWhile_append_of_pos htail, hstop.1, hstop.2,
      List.append_nil]

theorem number_of_whole {s ds : List Char} {c : Char} {t : List Char}
    (h : whole (minus s).2 = some (ds, c :: t)) (hc : c ≠ '.' ∧ c ≠ 'e' ∧ c ≠ 'E') :
    number s = some (.int (if (minus s).1 = [] then (Nat.ofDigitChars 10 ds 0 : Int)
      else -Nat.ofDigitChars 10 ds 0), c :: t) := by
  have hfraction : fraction (c :: t) = ([], c :: t) := by
    rw [fraction, if_neg fun h => hc.1 h.1]
  have hexponent : exponent (c :: t) = ([], c :: t) := by
    rw [exponent, if_neg fun h => h.1.elim hc.2.1 hc.2.2]
  unfold number
  rw [h]
  dsimp only
  rw [hfraction, hexponent, if_pos ⟨rfl, rfl⟩]

theorem number_toDigits (n : Nat) {c : Char} (hdigit : c.isDigit = false)
    (hc : c ≠ '.' ∧ c ≠ 'e' ∧ c ≠ 'E') (t : List Char) :
    number (Nat.toDigits 10 n ++ c :: t) = some (.int n, c :: t) := by
  have hminus : minus (Nat.toDigits 10 n ++ c :: t) = ([], Nat.toDigits 10 n ++ c :: t) := by
    obtain ⟨d, ds, hds⟩ := List.exists_cons_of_ne_nil (Nat.toDigits_ne_nil (n := n) (b := 10))
    have hd : d ≠ '-' := by
      rintro rfl
      exact absurd (isDigit_toDigits (n := n) (by rw [hds]; exact List.mem_cons_self)) (by decide)
    rw [hds, List.cons_append, minus, expect, if_neg hd]
  have hwhole := whole_toDigits n hdigit t
  rw [number_of_whole (by rw [hminus]; exact hwhole) hc, hminus, if_pos rfl,
    Nat.ofDigitChars_ten_toDigits]

theorem number_neg_toDigits (n : Nat) {c : Char} (hdigit : c.isDigit = false)
    (hc : c ≠ '.' ∧ c ≠ 'e' ∧ c ≠ 'E') (t : List Char) :
    number ('-' :: Nat.toDigits 10 n ++ c :: t) = some (.int (-n), c :: t) := by
  have hminus : minus ('-' :: Nat.toDigits 10 n ++ c :: t) =
      (['-'], Nat.toDigits 10 n ++ c :: t) := rfl
  have hwhole := whole_toDigits n hdigit t
  rw [number_of_whole (by rw [hminus]; exact hwhole) hc, hminus, if_neg (by simp),
    Nat.ofDigitChars_ten_toDigits]

/-- What starts a number starts no other value. -/
theorem value_of_number {n : Nat} {c : Char} {s r : List Char} {v : Value}
    (hc : c.isDigit = true ∨ c = '-') (h : number (c :: s) = some (v, r)) :
    value (n + 1) (c :: s) = some (v, r) := by
  have hne : ∀ d : Char, d.isDigit = false → d ≠ '-' → c ≠ d := by
    rintro d hd hminus rfl
    rcases hc with hc | hc
    · rw [hd] at hc
      cases hc
    · exact hminus hc
  rw [value, if_neg (hne _ (by decide) (by decide)), if_neg (hne _ (by decide) (by decide)),
    if_neg (hne _ (by decide) (by decide)), scalar, h]
  · exact hne 'n' (by decide) (by decide)
  · exact hne 't' (by decide) (by decide)
  · exact hne 'f' (by decide) (by decide)
  · exact hne 'N' (by decide) (by decide)
  · exact hne 'I' (by decide) (by decide)

/-- A character that a string shows as it is. -/
def Plain (c : Char) : Prop := c ≠ '"' ∧ c ≠ '\\' ∧ ¬ c.toNat < 0x20

/-- The characters of a text are no surrogates. -/
theorem joined_points (t : List Char) : joined (points t) = points t := by
  apply Utf16.decode_encode
  intro c hc
  obtain ⟨a, -, rfl⟩ := List.mem_map.mp hc
  have hval : (point a).val = a.toNat := rfl
  have hvalid : a.toNat < 0xD800 ∨ (0xDFFF < a.toNat ∧ a.toNat < 0x110000) := a.valid
  rintro ⟨hlow, hhigh⟩
  omega

theorem string_plain {k : List Char} (hk : ∀ c ∈ k, Plain c) {n : Nat} (hn : k.length < n)
    (r : List Char) : string n (k ++ '"' :: r) = some (points k, r) := by
  induction k generalizing n with
  | nil =>
    obtain ⟨n, rfl⟩ := Nat.exists_eq_succ_of_ne_zero (Nat.ne_of_gt hn)
    rw [List.nil_append, string, if_pos rfl]
    rfl
  | cons c k ih =>
    obtain ⟨n, rfl⟩ := Nat.exists_eq_succ_of_ne_zero (Nat.ne_zero_of_lt hn)
    obtain ⟨hquote, hescape, hcontrol⟩ := hk c List.mem_cons_self
    have htail := ih (fun d hd => hk d (List.mem_cons_of_mem _ hd)) (Nat.lt_of_succ_lt_succ hn)
    rw [List.cons_append, string, if_neg hquote, if_neg hescape, if_neg hcontrol, htail]
    rfl

end Json
