import CuttleDB.Lib.Utf16
import CuttleDB.Wire

/-!
# The row codec of both clients

A row goes to the server as its encoded cells joined by `,`. Both clients encode a
string with the same four replacements, Python on code points and JavaScript on
UTF-16 code units: transcoding before them or after them gives one text. That text
is one line, and either client splits it into the cells it was made of.
-/

namespace CuttleDB

open Escape

variable {α : Type} [DecidableEq α] [Alphabet α]

/-! ### One line -/

/-- A listed character that is no code is nowhere in an escaped text. -/
theorem lit_not_mem_escapeUnit {table : List (Char × Char)} {a : Char}
    (ha : a ∈ table.map Prod.fst)
    (hcodes : ∀ b ∈ '\\' :: table.map Prod.snd, a ≠ b ∧ a.toNat < 128 ∧ b.toNat < 128) (c : α) :
    lit a ∉ escapeUnit table c := by
  unfold escapeUnit
  cases hfind : table.find? (fun p => c = lit p.1) with
  | some p =>
    have hp : p.2 ∈ table.map Prod.snd :=
      List.mem_map.mpr ⟨p, List.mem_of_find?_eq_some hfind, rfl⟩
    simp only [List.mem_cons, List.not_mem_nil, or_false, not_or]
    exact ⟨lit_ne (hcodes '\\' List.mem_cons_self), lit_ne (hcodes p.2 (List.mem_cons_of_mem _ hp))⟩
  | none =>
    obtain ⟨p, hp, rfl⟩ := List.mem_map.mp ha
    have hne := List.find?_eq_none.mp hfind p hp
    simp only [List.mem_singleton]
    exact fun heq => hne (by simpa using heq.symm)

/-- Neither is it in the row that the texts are joined to. -/
theorem lit_not_mem_escapedRow {table : List (Char × Char)} (hcomma : ',' ∈ table.map Prod.snd)
    {a : Char} (ha : a ∈ table.map Prod.fst)
    (hcodes : ∀ b ∈ '\\' :: table.map Prod.snd, a ≠ b ∧ a.toNat < 128 ∧ b.toNat < 128)
    (row : List (List α)) :
    lit a ∉ [lit ','].intercalate (row.map fun v => v.flatMap (escapeUnit table)) := by
  intro hmem
  rcases mem_intercalate hmem with heq | ⟨cell, hcell, hin⟩
  · exact lit_ne (hcodes ',' (List.mem_cons_of_mem _ hcomma)) heq
  · obtain ⟨v, -, rfl⟩ := List.mem_map.mp hcell
    obtain ⟨c, -, hc⟩ := List.mem_flatMap.mp hin
    exact lit_not_mem_escapeUnit ha hcodes c hc

theorem lit_not_mem_encodedRow {a : Char} (ha : a ∈ valueEscapes.map Prod.fst)
    (hcodes : ∀ b ∈ '\\' :: valueEscapes.map Prod.snd, a ≠ b ∧ a.toNat < 128 ∧ b.toNat < 128)
    (row : List (List α)) :
    lit a ∉ [lit ','].intercalate (row.map fun v => Py.encodeValue (.str v)) := by
  simp only [encodeValue_str]
  exact lit_not_mem_escapedRow (by decide) ha hcodes row

/-! ### Transcoding -/

theorem lit_mem_units {a : Char} (ha : a.toNat < 128) (c : CodePoint) :
    lit a ∈ Utf16.units c ↔ c = lit a := by
  have hlit : (lit a : UInt16) = UInt16.ofNat a.toNat := rfl
  rw [hlit, Utf16.ofNat_mem_units ha, Fin.ext_iff]
  rfl

theorem units_lit {a : Char} (ha : a.toNat < 128) :
    Utf16.units (lit a : CodePoint) = [lit a] :=
  Utf16.units_of_lt (show a.toNat < 0x10000 by omega)

theorem encode_lits {r : List Char} (hr : ∀ b ∈ r, b.toNat < 128) :
    Utf16.encode (r.map lit) = r.map lit := by
  induction r with
  | nil => rfl
  | cons b r ih =>
    rw [List.map_cons, Utf16.encode_cons, units_lit (hr b List.mem_cons_self),
      ih fun b' hb' => hr b' (List.mem_cons_of_mem _ hb')]
    rfl

/-- A text without the listed characters is escaped as it is. -/
theorem flatMap_escapeUnit_of_not_mem {table : List (Char × Char)} {s : List α}
    (h : ∀ p ∈ table, lit p.1 ∉ s) : s.flatMap (escapeUnit table) = s := by
  have hunit : ∀ c ∈ s, escapeUnit table c = [c] := by
    intro c hc
    have hnone : table.find? (fun p => c = lit p.1) = none := by
      rw [List.find?_eq_none]
      intro p hp heq
      exact h p hp (of_decide_eq_true heq ▸ hc)
    rw [escapeUnit, hnone]
  rw [List.flatMap_congr hunit, List.flatMap_singleton']

/-- A table whose characters and codes are ASCII. -/
abbrev IsAscii (table : List (Char × Char)) : Prop :=
  ∀ p ∈ table, p.1.toNat < 128 ∧ p.2.toNat < 128

/-- An ASCII character is escaped alike in every alphabet. -/
theorem escapeUnit_lit {table : List (Char × Char)} (htable : IsAscii table) {a : Char}
    (ha : a.toNat < 128) : escapeUnit table (lit a : α) = (escapeUnit table a).map lit := by
  have hfind : table.find? (fun p => (lit a : α) = lit p.1) =
      table.find? (fun p => a = lit p.1) := by
    induction table with
    | nil => rfl
    | cons p table ih =>
      have hp : (lit a : α) = lit p.1 ↔ a = p.1 :=
        lit_eq_lit ⟨ha, (htable p List.mem_cons_self).1⟩
      have htail := ih fun q hq => htable q (List.mem_cons_of_mem _ hq)
      rw [List.find?_cons, List.find?_cons, htail, decide_eq_decide.mpr hp]
      rfl
  rw [escapeUnit, escapeUnit, hfind]
  cases table.find? (fun p => a = lit p.1) <;> rfl

theorem escapeUnit_ascii {table : List (Char × Char)} (htable : IsAscii table) {a : Char}
    (ha : a.toNat < 128) : ∀ b ∈ escapeUnit table a, b.toNat < 128 := by
  intro b hb
  unfold escapeUnit at hb
  cases hfind : table.find? (fun p => a = lit p.1) with
  | some p =>
    rw [hfind] at hb
    simp only [List.mem_cons, List.not_mem_nil, or_false] at hb
    rcases hb with rfl | rfl
    · decide
    · exact (htable p (List.mem_of_find?_eq_some hfind)).2
  | none =>
    rw [hfind, List.mem_singleton] at hb
    rwa [hb]

/-- Escaping ASCII characters commutes with transcoding. -/
theorem encode_escape {table : List (Char × Char)} (htable : IsAscii table)
    (s : List CodePoint) :
    Utf16.encode (s.flatMap (escapeUnit table)) =
      (Utf16.encode s).flatMap (escapeUnit table) := by
  have hunit : ∀ c : CodePoint,
      Utf16.encode (escapeUnit table c) = (Utf16.units c).flatMap (escapeUnit table) := by
    intro c
    cases hfind : table.find? (fun p => c = lit p.1) with
    | some p =>
      have hp := (htable p (List.mem_of_find?_eq_some hfind)).1
      have hc : c = lit p.1 := by simpa using List.find?_some hfind
      rw [hc, units_lit hp, escapeUnit_lit htable hp, encode_lits (escapeUnit_ascii htable hp),
        List.flatMap_singleton, escapeUnit_lit htable hp]
    | none =>
      have hnone : ∀ p ∈ table, lit p.1 ∉ Utf16.units c := by
        intro p hp hmem
        have hne := List.find?_eq_none.mp hfind p hp
        exact hne (decide_eq_true ((lit_mem_units (htable p hp).1 c).mp hmem))
      rw [flatMap_escapeUnit_of_not_mem hnone, escapeUnit, hfind]
      exact List.append_nil _
  induction s with
  | nil => rfl
  | cons c s ih =>
    rw [List.flatMap_cons, Utf16.encode_append, ih, hunit, Utf16.encode_cons, List.flatMap_append]

/-- **Both clients write one text for a string.** -/
theorem encodeValue_encode (v : List CodePoint) :
    Js.encodeValue (.str (Utf16.encode v)) = Utf16.encode (Py.encodeValue (.str v)) := by
  have hjs : Js.encodeValue (.str (Utf16.encode v)) = Py.encodeValue (.str (Utf16.encode v)) := rfl
  rw [hjs, encodeValue_str, encodeValue_str, encode_escape (by decide)]

theorem encode_join (ps : List (List CodePoint)) :
    Utf16.encode ([lit ','].intercalate ps) = [lit ','].intercalate (ps.map Utf16.encode) :=
  flatMap_intercalate Utf16.units [lit ','] ps

/-! ### The codec -/

/-- The text of a row of strings as the Python client sends it. -/
def Py.joinValues (row : List (List α)) : List α :=
  [lit ','].intercalate (row.map fun v => Py.encodeValue (.str v))

/-- The text of a row of strings as the JavaScript client sends it. -/
def Js.joinValues (row : List (List α)) : List α :=
  [lit ','].intercalate (row.map fun v => Js.encodeValue (.str v))

theorem joinValues_encode (row : List (List CodePoint)) :
    Js.joinValues (row.map Utf16.encode) = Utf16.encode (Py.joinValues row) := by
  rw [Js.joinValues, Py.joinValues, encode_join, List.map_map, List.map_map]
  congr 1
  exact List.map_congr_left fun v _ => encodeValue_encode v

/-- **The row codec.** Both clients write one text for each string of a row, the row
is one line, and either client splits it into the strings it was made of. Every
JavaScript string is the UTF-16 of a text (`Utf16.encode_surjective`), so that no row
of either client is left out. -/
theorem row_codec (vs : List (List CodePoint)) (hvs : vs ≠ []) :
    (∀ v ∈ vs, Js.encodeValue (.str (Utf16.encode v)) = Utf16.encode (Py.encodeValue (.str v))) ∧
      Js.joinValues (vs.map Utf16.encode) = Utf16.encode (Py.joinValues vs) ∧
      (lit '\r' ∉ Py.joinValues vs ∧ lit '\n' ∉ Py.joinValues vs) ∧
      (lit '\r' ∉ Js.joinValues (vs.map Utf16.encode) ∧
        lit '\n' ∉ Js.joinValues (vs.map Utf16.encode)) ∧
      Py.splitWireRow (Py.joinValues vs) = vs ∧
      Js.splitWireRow (Js.joinValues (vs.map Utf16.encode)) = vs.map Utf16.encode := by
  have hcr : ∀ b ∈ '\\' :: valueEscapes.map Prod.snd,
      '\r' ≠ b ∧ '\r'.toNat < 128 ∧ b.toNat < 128 := by simp [valueEscapes]
  have hlf : ∀ b ∈ '\\' :: valueEscapes.map Prod.snd,
      '\n' ≠ b ∧ '\n'.toNat < 128 ∧ b.toNat < 128 := by simp [valueEscapes]
  refine ⟨fun v _ => encodeValue_encode v, joinValues_encode vs, ⟨?_, ?_⟩, ⟨?_, ?_⟩, ?_, ?_⟩
  · exact lit_not_mem_encodedRow (by decide) hcr vs
  · exact lit_not_mem_encodedRow (by decide) hlf vs
  · exact lit_not_mem_encodedRow (by decide) hcr (vs.map Utf16.encode)
  · exact lit_not_mem_encodedRow (by decide) hlf (vs.map Utf16.encode)
  · exact splitWireRow_encodeValue hvs
  · exact splitWireRow_encodeValue (mt List.map_eq_nil_iff.mp hvs)

/-- A row of backslashes, separators, line breaks and a character beyond U+FFFF. -/
theorem row_codec_delimiters :
    Py.splitWireRow (Py.joinValues [[lit '\\', lit ',', lit 'n'], [lit '\r', lit '\n'], [],
        [(0x1F990 : CodePoint), lit '\\']]) =
      [[lit '\\', lit ',', lit 'n'], [lit '\r', lit '\n'], [], [0x1F990, lit '\\']] :=
  (row_codec _ (by decide)).2.2.2.2.1

end CuttleDB
