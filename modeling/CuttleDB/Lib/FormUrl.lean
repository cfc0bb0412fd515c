import CuttleDB.Lib.Escape
import Mathlib.Data.UInt

/-!
# Form encoding

`application/x-www-form-urlencoded`: names and values as bytes, percent-encoded but for
some ASCII characters that stay as they are, and a space as `+`. Which characters stay is
up to who writes; whatever they are, the reader gets the pairs back.
-/

namespace FormUrl

/-- The bytes that are written as they are: visible ASCII, and nothing that the reader
takes for something else. -/
abbrev SafeSet :=
  { safe : UInt8 → Bool // ∀ b, safe b = true → 32 < b.toNat ∧ b.toNat < 127 ∧
      b.toNat ≠ 35 ∧ b.toNat ≠ 37 ∧ b.toNat ≠ 38 ∧ b.toNat ≠ 43 ∧ b.toNat ≠ 61 }

def hexDigit (n : Nat) : Char := if n < 10 then Char.ofNat (48 + n) else Char.ofNat (55 + n)

def hexValue? (c : Char) : Option Nat :=
  let n := c.toNat
  if 48 ≤ n ∧ n ≤ 57 then some (n - 48)
  else if 65 ≤ n ∧ n ≤ 70 then some (n - 55)
  else if 97 ≤ n ∧ n ≤ 102 then some (n - 87)
  else none

theorem hexValue?_hexDigit {n : Nat} (h : n < 16) : hexValue? (hexDigit n) = some n := by
  have hall : ∀ n < 16, hexValue? (hexDigit n) = some n := by decide
  exact hall n h

/-! ### Writing -/

def encodeByte (safe : SafeSet) (b : UInt8) : List Char :=
  if safe.1 b then [Char.ofNat b.toNat]
  else if b = 32 then ['+']
  else ['%', hexDigit (b.toNat / 16), hexDigit (b.toNat % 16)]

def encode (safe : SafeSet) (data : List UInt8) : List Char := data.flatMap (encodeByte safe)

def renderPair (safe : SafeSet) (pair : List UInt8 × List UInt8) : List Char :=
  encode safe pair.1 ++ '=' :: encode safe pair.2

def render (safe : SafeSet) (pairs : List (List UInt8 × List UInt8)) : List Char :=
  ['&'].intercalate (pairs.map (renderPair safe))

/-! ### Reading -/

def decode : List Char → List UInt8
  | [] => []
  | '%' :: a :: b :: rest =>
    match hexValue? a, hexValue? b with
    | some x, some y => UInt8.ofNat (16 * x + y) :: decode rest
    | _, _ => 37 :: decode (a :: b :: rest)
  | c :: rest => (if c = '+' then [32] else String.utf8EncodeChar c) ++ decode rest

/-- Name and value, at the first `=`. -/
def parsePair (piece : List Char) : List UInt8 × List UInt8 :=
  let name := piece.takeWhile (· ≠ '=')
  (decode name, decode (piece.drop (name.length + 1)))

def parse (query : List Char) : List (List UInt8 × List UInt8) :=
  ((query.splitOn '&').filter (· ≠ [])).map parsePair

/-! ### What is written is read -/

theorem toNat_ofNat {n : Nat} (h : n < 128) : (Char.ofNat n).toNat = n := by
  have hvalid : n.isValidChar := Or.inl (by omega)
  rw [Char.ofNat, dif_pos hvalid]
  rfl

/-- Everything that is written is visible ASCII, and no separator or `#`. -/
theorem mem_encodeByte {safe : SafeSet} {b : UInt8} {c : Char} (h : c ∈ encodeByte safe b) :
    32 < c.toNat ∧ c.toNat < 127 ∧ c ≠ '#' ∧ c ≠ '&' ∧ c ≠ '=' := by
  have hdigit : ∀ n < 16, 32 < (hexDigit n).toNat ∧ (hexDigit n).toNat < 127 ∧
      hexDigit n ≠ '#' ∧ hexDigit n ≠ '&' ∧ hexDigit n ≠ '=' := by decide
  rw [encodeByte] at h
  split at h
  · rename_i hsafe
    obtain ⟨hlow, hhigh, hhash, -, hand, -, heq⟩ := safe.2 b hsafe
    obtain rfl := List.mem_singleton.mp h
    have hvalue : (Char.ofNat b.toNat).toNat = b.toNat := toNat_ofNat (by omega)
    rw [hvalue]
    refine ⟨hlow, hhigh, ?_, ?_, ?_⟩ <;> rintro hc <;> rw [hc] at hvalue <;>
      simp at hvalue <;> omega
  · split at h
    · obtain rfl := List.mem_singleton.mp h
      decide
    · have hb := b.toNat_lt
      simp only [List.mem_cons, List.not_mem_nil, or_false] at h
      rcases h with rfl | rfl | rfl
      · decide
      · exact hdigit _ (by omega)
      · exact hdigit _ (by omega)

theorem decode_cons {c : Char} (hpercent : c ≠ '%') (rest : List Char) :
    decode (c :: rest) = (if c = '+' then [32] else String.utf8EncodeChar c) ++ decode rest := by
  rw [decode.eq_def]
  split
  · cases ‹c :: rest = []›
  · rename_i heq
    exact absurd (List.cons.inj heq).1 hpercent
  · rename_i heq
    obtain ⟨rfl, rfl⟩ := List.cons.inj heq
    rfl

theorem decode_encodeByte (safe : SafeSet) (b : UInt8) (rest : List Char) :
    decode (encodeByte safe b ++ rest) = b :: decode rest := by
  have hb := b.toNat_lt
  rw [encodeByte]
  split
  · rename_i hsafe
    obtain ⟨hlow, hhigh, -, hpercent, -, hplus, -⟩ := safe.2 b hsafe
    have hvalue : (Char.ofNat b.toNat).toNat = b.toNat := toNat_ofNat (by omega)
    have hnp : Char.ofNat b.toNat ≠ '%' := by
      intro h
      rw [h] at hvalue
      exact hpercent hvalue.symm
    have hnplus : Char.ofNat b.toNat ≠ '+' := by
      intro h
      rw [h] at hvalue
      exact hplus hvalue.symm
    have hbytes : String.utf8EncodeChar (Char.ofNat b.toNat) = [b] := by
      have hone : (Char.ofNat b.toNat).val.toNat ≤ 0x7f := by
        rw [← Char.toNat, hvalue]
        omega
      rw [String.utf8EncodeChar, if_pos hone, ← Char.toNat, hvalue, UInt8.ofNat_toNat]
    rw [List.singleton_append, decode_cons hnp, if_neg hnplus, hbytes]
    rfl
  · split
    · rename_i hspace
      rw [List.singleton_append, decode_cons (by decide), if_pos rfl, hspace]
      rfl
    · rw [List.cons_append, List.cons_append, List.singleton_append, decode,
        hexValue?_hexDigit (by omega), hexValue?_hexDigit (by omega)]
      dsimp only
      rw [Nat.div_add_mod, UInt8.ofNat_toNat]

/-- **Bytes are read as they were written.** -/
theorem decode_encode (safe : SafeSet) (data : List UInt8) : decode (encode safe data) = data := by
  induction data with
  | nil => exact decode.eq_1
  | cons b data ih =>
    have hstep := decode_encodeByte safe b (encode safe data)
    rw [ih] at hstep
    exact hstep

theorem not_mem_encode {safe : SafeSet} {c : Char} (hc : c = '&' ∨ c = '=' ∨ c = '#')
    (data : List UInt8) : c ∉ encode safe data := by
  intro hmem
  obtain ⟨b, -, hb⟩ := List.mem_flatMap.mp hmem
  obtain ⟨-, -, hhash, hand, heq⟩ := mem_encodeByte hb
  rcases hc with rfl | rfl | rfl
  · exact hand rfl
  · exact heq rfl
  · exact hhash rfl

theorem parsePair_renderPair (safe : SafeSet) (pair : List UInt8 × List UInt8) :
    parsePair (renderPair safe pair) = pair := by
  have hname : (renderPair safe pair).takeWhile (· ≠ '=') = encode safe pair.1 := by
    rw [renderPair, List.takeWhile_append_of_pos]
    · simp
    · intro c hc
      exact decide_eq_true fun heq => not_mem_encode (Or.inr (Or.inl heq)) _ hc
  have hvalue : (renderPair safe pair).drop ((encode safe pair.1).length + 1) =
      encode safe pair.2 := by
    rw [renderPair, ← List.drop_drop, List.drop_left, List.drop_one, List.tail_cons]
  rw [parsePair, hname, hvalue, decode_encode, decode_encode]

/-- **The pairs are read as they were written**, whichever characters stay as they are. -/
theorem parse_render (safe : SafeSet) (pairs : List (List UInt8 × List UInt8)) :
    parse (render safe pairs) = pairs := by
  have hpiece : ∀ piece ∈ pairs.map (renderPair safe), '&' ∉ piece ∧ piece ≠ [] := by
    intro piece hpiece
    obtain ⟨pair, -, rfl⟩ := List.mem_map.mp hpiece
    constructor
    · rw [renderPair, List.mem_append, List.mem_cons]
      rintro (h | h | h)
      · exact not_mem_encode (Or.inl rfl) _ h
      · exact absurd h (by decide)
      · exact not_mem_encode (Or.inl rfl) _ h
    · simp [renderPair]
  cases pairs with
  | nil => rfl
  | cons pair pairs =>
    have hkept : ((pair :: pairs).map (renderPair safe)).filter (· ≠ []) =
        (pair :: pairs).map (renderPair safe) :=
      List.filter_eq_self.mpr fun piece h => decide_eq_true (hpiece piece h).2
    rw [parse, render, List.splitOn_intercalate _ (fun piece h => (hpiece piece h).1) (by simp),
      hkept, List.map_map]
    exact (List.map_congr_left fun p _ => parsePair_renderPair safe p).trans (List.map_id _)

theorem mem_render {safe : SafeSet} {pairs : List (List UInt8 × List UInt8)} {c : Char}
    (h : c ∈ render safe pairs) : 32 < c.toNat ∧ c.toNat < 127 ∧ c ≠ '#' := by
  have hencoded {data : List UInt8} (hc : c ∈ encode safe data) :
      32 < c.toNat ∧ c.toNat < 127 ∧ c ≠ '#' := by
    obtain ⟨b, -, hb⟩ := List.mem_flatMap.mp hc
    obtain ⟨hlow, hhigh, hhash, -⟩ := mem_encodeByte hb
    exact ⟨hlow, hhigh, hhash⟩
  rcases Escape.mem_intercalate h with rfl | ⟨piece, hpiece, hc⟩
  · decide
  · obtain ⟨pair, -, rfl⟩ := List.mem_map.mp hpiece
    rw [renderPair, List.mem_append, List.mem_cons] at hc
    rcases hc with hc | rfl | hc
    · exact hencoded hc
    · decide
    · exact hencoded hc

end FormUrl
