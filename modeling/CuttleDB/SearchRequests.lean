import CuttleDB.FieldCipher
import CuttleDB.JsNumbers
import CuttleDB.Lib.FormUrl

/-!
# Search requests

The URL of a search, as both clients put it together. They leave different characters of
the text as they are, so the URLs differ; whoever reads the query gets the same
parameters from both, and nothing in a search text gets out of its parameter.
-/

namespace CuttleDB

open Binary64

/-- What `search` raises before there is a request. -/
inductive SearchArgument where
  | emptyQuery -- `query must be a non-empty string`
  | surrogate -- `UnicodeEncodeError`
deriving DecidableEq

/-- `base_url.rstrip("/")`, `replace(/\/+$/, "")` -/
def trimSlashes (base : Text) : Text := base.rdropWhile (· = '/')

def isAlphanumeric (b : UInt8) : Bool :=
  (48 ≤ b.toNat && b.toNat ≤ 57) || (65 ≤ b.toNat && b.toNat ≤ 90) ||
    (97 ≤ b.toNat && b.toNat ≤ 122)

namespace Py

/-- Letters, digits and `_.-~` -/
def quoteSafe : FormUrl.SafeSet where
  val b := isAlphanumeric b || b.toNat = 95 || b.toNat = 46 || b.toNat = 45 || b.toNat = 126
  property b hb := by
    simp [isAlphanumeric] at hb
    omega

/-- `s.encode("utf-8")` -/
def quoteBytes (s : List CodePoint) : Except SearchArgument Bytes :=
  match s.mapM scalar? with
  | some t => .ok (Utf8.encode t)
  | none => .error .surrogate

/-- `urllib.parse.urlencode(params)` -/
def urlencode (params : List (Text × List CodePoint)) : Except SearchArgument Text := do
  let pairs ← params.mapM fun (name, value) => do
    let data ← quoteBytes value
    .ok (Utf8.encode name, data)
  .ok (FormUrl.render quoteSafe pairs)

/-- `search`, as far as the URL -/
def searchUrl (baseUrl : Text) (q : List CodePoint) (k : Option Int)
    (mode : Option (List CodePoint)) : Except SearchArgument Text :=
  if q = [] then .error .emptyQuery
  else do
    let params := [("q".toList, q)] ++
      (k.map fun k => ("k".toList, codePoints (intText k))).toList ++
      (mode.map fun mode => ("mode".toList, mode)).toList
    let query ← urlencode params
    .ok (trimSlashes baseUrl ++ "/search?".toList ++ query)

end Py

namespace Js

/-- Letters, digits and `*-._` -/
def formSafe : FormUrl.SafeSet where
  val b := isAlphanumeric b || b.toNat = 42 || b.toNat = 45 || b.toNat = 46 || b.toNat = 95
  property b hb := by
    simp [isAlphanumeric] at hb
    omega

/-- `params.toString()` of `URLSearchParams`, which puts U+FFFD for a lone surrogate -/
def urlSearchParams (params : List (Text × List UInt16)) : Text :=
  FormUrl.render formSafe (params.map fun (name, value) => (Utf8.encode name, bufferFromUtf8 value))

/-- `search`, as far as the URL -/
def searchUrl (baseUrl : Text) (q : List UInt16) (k : Option Double)
    (mode : Option (List UInt16)) : Except SearchArgument Text :=
  if q = [] then .error .emptyQuery
  else
    let params := [("q".toList, q)] ++
      (k.map fun k => ("k".toList, utf16 (numberText k))).toList ++
      (mode.map fun mode => ("mode".toList, mode)).toList
    .ok (trimSlashes baseUrl ++ "/search?".toList ++ urlSearchParams params)

end Js

/-! ### Numbers -/

theorem toDigits_mul_pow {m : Nat} (hm : 0 < m) (j : Nat) :
    Nat.toDigits 10 (m * 10 ^ j) = Nat.toDigits 10 m ++ List.replicate j '0' := by
  induction j with
  | zero => simp
  | succ j ih =>
    have hpos : 0 < m * 10 ^ j := Nat.mul_pos hm (Nat.pow_pos (by decide))
    have happend := Nat.toDigits_append_toDigits (b := 10) (d := 0) (by decide) hpos (by decide)
    have hzero : Nat.toDigits 10 0 = ['0'] := rfl
    rw [hzero, Nat.add_zero] at happend
    rw [Nat.pow_succ, ← Nat.mul_assoc, Nat.mul_comm, ← happend, ih, List.append_assoc,
      ← List.replicate_succ']

namespace Js

theorem decimalText_shortest {n : Nat} (hpos : 0 < n) (hn : n < 2 ^ 52) :
    decimalText (shortest n) = Nat.toDigits 10 n := by
  obtain ⟨hself, hplain⟩ := decimalText_natCast hpos hn
  have hrat : (0 : Rat) < n := by exact_mod_cast hpos
  obtain ⟨j, hj⟩ := Int.eq_ofNat_of_zero_le (shortest_exponent_nonneg hself)
  have hdigits := shortest_digits_pos hself hrat
  generalize shortest (n : Rat) = d at *
  by_cases hplaces : (Nat.toDigits 10 d.digits).length + j ≤ 21
  · have htext : decimalText d = Nat.toDigits 10 d.digits ++ List.replicate j '0' := by
      rw [decimalText]
      dsimp only
      rw [if_pos (by omega), hj, Int.toNat_natCast]
    have hvalue := hplain.value
    rw [htext, Nat.ofDigitChars_append, Nat.ofDigitChars_ten_toDigits,
      Nat.ofDigitChars_replicate_zero, Nat.mul_comm] at hvalue
    rw [htext, ← toDigits_mul_pow hdigits, hvalue]
  · have hexponent : 'e' ∈ decimalText d := by
      rw [decimalText]
      dsimp only
      rw [if_neg (by omega), if_neg (by omega), if_neg (by omega)]
      simp
    exact absurd (hplain.digits _ hexponent) (by decide)

/-- **An integer below 2^52 has one text in both clients.** -/
theorem numberText_intCast {n : Int} (hn : |n| < 2 ^ 52) :
    numberText (.finite n) = intText n := by
  rw [numberText]
  rcases lt_trichotomy n 0 with hneg | rfl | hpos
  · obtain ⟨m, hm⟩ := Int.eq_ofNat_of_zero_le (by omega : 0 ≤ -n)
    obtain rfl : n = -m := by omega
    have hrat : ((-(m : Int) : Int) : Rat) < 0 := by exact_mod_cast hneg
    have hval : -((-(m : Int) : Int) : Rat) = (m : Rat) := by push_cast; ring
    rw [abs_neg, abs_of_nonneg (Int.natCast_nonneg m)] at hn
    rw [if_neg hrat.ne, if_pos hrat, hval, decimalText_shortest (by omega) (by omega)]
    obtain ⟨m, rfl⟩ : ∃ m', m = m' + 1 := ⟨m - 1, by omega⟩
    rfl
  · rfl
  · obtain ⟨m, rfl⟩ := Int.eq_ofNat_of_zero_le hpos.le
    have hrat : (0 : Rat) < ((m : Int) : Rat) := by exact_mod_cast hpos
    rw [abs_of_nonneg (Int.natCast_nonneg m)] at hn
    rw [if_neg hrat.ne', if_neg hrat.le.not_gt, Int.cast_natCast,
      decimalText_shortest (by omega) (by omega)]
    rfl

end Js

/-! ### The parameters -/

/-- The parameters of a search, in UTF-8. -/
def searchParams (q : Text) (k : Option Int) (mode : Option Text) : List (Bytes × Bytes) :=
  [(Utf8.encode "q".toList, Utf8.encode q)] ++
    (k.map fun k => (Utf8.encode "k".toList, Utf8.encode (intText k))).toList ++
    (mode.map fun mode => (Utf8.encode "mode".toList, Utf8.encode mode)).toList

theorem mapM_scalar? (t : Text) : (codePoints t).mapM scalar? = some t := by
  induction t with
  | nil => rfl
  | cons c t ih =>
    have htail : (t.map lit).mapM scalar? = some t := ih
    simp [codePoints, scalar?_lit, htail]

theorem Py.quoteBytes_codePoints (t : Text) : quoteBytes (codePoints t) = .ok (Utf8.encode t) := by
  rw [quoteBytes, mapM_scalar?]

theorem Py.searchUrl_eq (baseUrl : Text) {q : Text} (hq : q ≠ []) (k : Option Int)
    (mode : Option Text) :
    Py.searchUrl baseUrl (codePoints q) k (mode.map codePoints) =
      .ok (trimSlashes baseUrl ++ "/search?".toList ++
        FormUrl.render quoteSafe (searchParams q k mode)) := by
  have hne : codePoints q ≠ [] := mt List.map_eq_nil_iff.mp hq
  rw [Py.searchUrl, if_neg hne]
  cases k <;> cases mode <;>
    simp [urlencode, quoteBytes_codePoints, searchParams, bind, Except.bind, pure, Except.pure]

theorem Js.searchUrl_eq (baseUrl : Text) {q : Text} (hq : q ≠ [])
    (k : Option { n : Int // |n| < 2 ^ 52 }) (mode : Option Text) :
    Js.searchUrl baseUrl (utf16 q) (k.map fun k => .finite k.1) (mode.map utf16) =
      .ok (trimSlashes baseUrl ++ "/search?".toList ++
        FormUrl.render formSafe (searchParams q (k.map Subtype.val) mode)) := by
  have hne : utf16 q ≠ [] := by
    intro hnil
    have hback := decode_utf16 q
    rw [hnil] at hback
    exact hq (List.map_eq_nil_iff.mp hback.symm)
  rw [Js.searchUrl, if_neg hne]
  cases k with
  | none => cases mode <;> simp [urlSearchParams, bufferFromUtf8_utf16, searchParams]
  | some k =>
    cases mode <;>
      simp [urlSearchParams, bufferFromUtf8_utf16, searchParams, numberText_intCast k.2]

/-- **Both clients ask for the same search.** The query that either client sends is read
as the parameters it was called with, and holds visible characters only, none of which
ends it. -/
theorem search_urls (baseUrl : Text) {q : Text} (hq : q ≠ [])
    (k : Option { n : Int // |n| < 2 ^ 52 }) (mode : Option Text) :
    ∃ query₁ query₂,
      Py.searchUrl baseUrl (codePoints q) (k.map Subtype.val) (mode.map codePoints) =
        .ok (trimSlashes baseUrl ++ "/search?".toList ++ query₁) ∧
      Js.searchUrl baseUrl (utf16 q) (k.map fun k => .finite k.1) (mode.map utf16) =
        .ok (trimSlashes baseUrl ++ "/search?".toList ++ query₂) ∧
      FormUrl.parse query₁ = searchParams q (k.map Subtype.val) mode ∧
      FormUrl.parse query₂ = searchParams q (k.map Subtype.val) mode ∧
      ∀ c ∈ query₁ ++ query₂, 32 < c.toNat ∧ c.toNat < 127 ∧ c ≠ '#' := by
  refine ⟨_, _, Py.searchUrl_eq baseUrl hq _ mode, Js.searchUrl_eq baseUrl hq k mode,
    FormUrl.parse_render _ _, FormUrl.parse_render _ _, fun c hc => ?_⟩
  rcases List.mem_append.mp hc with hc | hc
  · exact FormUrl.mem_render hc
  · exact FormUrl.mem_render hc

theorem search_urls_tilde :
    ∃ query₁ query₂,
      Py.searchUrl "http://h/".toList (codePoints "a~*&b".toList) (some 5) none =
        .ok ("http://h/search?".toList ++ query₁) ∧
      Js.searchUrl "http://h/".toList (utf16 "a~*&b".toList) (some (.finite 5)) none =
        .ok ("http://h/search?".toList ++ query₂) ∧
      FormUrl.parse query₁ = FormUrl.parse query₂ := by
  obtain ⟨query₁, query₂, hpy, hjs, hread₁, hread₂, -⟩ :=
    search_urls "http://h/".toList (q := "a~*&b".toList) (by decide) (some ⟨5, by decide⟩) none
  exact ⟨query₁, query₂, hpy, hjs, hread₁.trans hread₂.symm⟩

/-- The URLs themselves differ. -/
example : FormUrl.render Py.quoteSafe [(Utf8.encode ['q'], Utf8.encode "a~*".toList)] =
      "q=a~%2A".toList ∧
    FormUrl.render Js.formSafe [(Utf8.encode ['q'], Utf8.encode "a~*".toList)] =
      "q=a%7E*".toList := by decide

end CuttleDB
