import CuttleDB.Lib.Escape
import Mathlib.Data.UInt

/-!
# The text codec of the wire

Cell values travel as text: a row is its cells joined by `,`, a row list is
`[row;row;...]`, and the characters that would be taken for delimiters are
escaped with a backslash. The encoders and decoders of both clients are here,
with the STRING escape contract of `PROTOCOL.md` that the server follows.

The clients' strings differ in their units: Python's are code points, lone
surrogates included, JavaScript's are UTF-16 code units. The functions only ever
compare a unit with an ASCII character, so they are written over any `Alphabet`.
-/

namespace CuttleDB

open Escape

/-- A type of text units in which every ASCII character has a unit of its own. -/
class Alphabet (α : Type) where
  lit : Char → α
  lit_inj : ∀ {a b : Char}, a.toNat < 128 → b.toNat < 128 → lit a = lit b → a = b

export Alphabet (lit)

/-- A Python string element: a code point, lone surrogates included. -/
abbrev CodePoint := Fin 0x110000

theorem toNat_lt_codePoints (c : Char) : c.toNat < 0x110000 := by
  rcases c.valid with h | ⟨_, h⟩
  · exact Nat.lt_trans h (by decide)
  · exact h

instance : Alphabet Char where
  lit c := c
  lit_inj _ _ h := h

instance : Alphabet CodePoint where
  lit c := ⟨c.toNat, toNat_lt_codePoints c⟩
  lit_inj _ _ h := Char.toNat_inj.mp (Fin.mk.inj h)

instance : Alphabet UInt16 where
  lit c := UInt16.ofNat c.toNat
  lit_inj {a b} ha hb h := by
    have hnat := congrArg UInt16.toNat h
    simp only [UInt16.toNat_ofNat'] at hnat
    rw [Nat.mod_eq_of_lt (by omega), Nat.mod_eq_of_lt (by omega)] at hnat
    exact Char.toNat_inj.mp hnat

variable {α : Type} [DecidableEq α] [Alphabet α]

omit [DecidableEq α] in
theorem lit_ne {a b : Char} (hab : a ≠ b ∧ a.toNat < 128 ∧ b.toNat < 128) :
    (lit a : α) ≠ lit b :=
  fun h => hab.1 (Alphabet.lit_inj hab.2.1 hab.2.2 h)

/-! ### Escape tables -/

/-- The two-unit escape of a unit that the table lists, the unit itself otherwise. -/
def escapeUnit (table : List (Char × Char)) (c : α) : List α :=
  match table.find? (fun p => c = lit p.1) with
  | some p => [lit '\\', lit p.2]
  | none => [c]

/-- The five characters of the STRING escape contract. -/
def wireEscapes : List (Char × Char) :=
  [('\\', '\\'), (',', ','), (';', ';'), ('\r', 'r'), ('\n', 'n')]

/-- The server's `wire_str_encode`, as the STRING escape contract states it. -/
def wireStrEncode (s : List α) : List α := s.flatMap (escapeUnit wireEscapes)

/-- What a decoder puts for the unit behind a backslash. -/
def unescape (x : α) : α :=
  if x = lit 'r' then lit '\r' else if x = lit 'n' then lit '\n' else x

/-- The server's rendering of a row: its cells escaped and joined by `,`. -/
def renderRow (row : List (List α)) : List α :=
  [lit ','].intercalate (row.map wireStrEncode)

/-- The server's rendering of a row list: `[row;row;...]`. -/
def renderRowlist (rows : List (List (List α))) : List α :=
  lit '[' :: ([lit ';'].intercalate (rows.map renderRow) ++ [lit ']'])

/-- A text that is not a row list, by the client that rejects it
(`bad row list: ...`). -/
inductive WireError (α : Type) where
  | badRowList (body : List α)
deriving DecidableEq, Repr

/-- A cell value as a client passes it: a string (or what `str` makes of a
number), or a list whose items are given by their text. -/
inductive Cell (α : Type) where
  | str (s : List α)
  | list (items : List (List α))
deriving DecidableEq, Repr

/-- `s.replace(a, r)` for a one-character `a` (`replaceAll` in JavaScript). -/
def replace (a : α) (r s : List α) : List α :=
  s.flatMap fun c => if c = a then r else [c]

/-! ### The Python client -/

namespace Py

/-- `_encode_value` -/
def encodeValue : Cell α → List α
  | .list items => [lit '|'].intercalate items
  | .str s =>
    let s := replace (lit '\\') [lit '\\', lit '\\'] s
    let s := replace (lit ',') [lit '\\', lit ','] s
    let s := replace (lit '\r') [lit '\\', lit 'r'] s
    let s := replace (lit '\n') [lit '\\', lit 'n'] s
    s

/-- `_split_wire_row` -/
def splitWireRow (s : List α) : List (List α) :=
  scan (lit '\\') (lit ',') (fun x => [unescape x]) s

/-- `_split_wire_rows` -/
def splitWireRows (s : List α) : List (List α) :=
  scan (lit '\\') (lit ';') (fun x => [lit '\\', x]) s

/-- `_parse_rowlist`, with its fast path for a body without a backslash. -/
def parseRowlist (body : List α) : Except (WireError α) (List (List (List α))) :=
  if ¬ (body.head? = some (lit '[') ∧ body.getLast? = some (lit ']')) then
    .error (.badRowList body)
  else
    let inner := body.tail.dropLast
    if inner = [] then .ok []
    else if lit '\\' ∉ inner then
      .ok ((inner.splitOn (lit ';')).map (·.splitOn (lit ',')))
    else .ok ((splitWireRows inner).map splitWireRow)

end Py

/-! ### The JavaScript client -/

namespace Js

/-- `encodeValue` -/
def encodeValue : Cell α → List α
  | .list items => [lit '|'].intercalate items
  | .str s =>
    let s := replace (lit '\\') [lit '\\', lit '\\'] s
    let s := replace (lit ',') [lit '\\', lit ','] s
    let s := replace (lit '\r') [lit '\\', lit 'r'] s
    let s := replace (lit '\n') [lit '\\', lit 'n'] s
    s

/-- `splitWireRow` -/
def splitWireRow (s : List α) : List (List α) :=
  scan (lit '\\') (lit ',') (fun x => [unescape x]) s

/-- `splitWireRows` -/
def splitWireRows (s : List α) : List (List α) :=
  scan (lit '\\') (lit ';') (fun x => [lit '\\', x]) s

/-- `parseRowlist`: always the escape-aware scanners. -/
def parseRowlist (body : List α) : Except (WireError α) (List (List (List α))) :=
  if ¬ (body.head? = some (lit '[') ∧ body.getLast? = some (lit ']')) then
    .error (.badRowList body)
  else
    let inner := body.tail.dropLast
    if inner = [] then .ok []
    else .ok ((splitWireRows inner).map splitWireRow)

end Js

/-! ### Tokens of an escaped text -/

/-- The token that `escapeUnit` writes for a unit. -/
def escapeTok (table : List (Char × Char)) (c : α) : Tok α :=
  match table.find? (fun p => c = lit p.1) with
  | some p => .pair (lit p.2)
  | none => .plain c

theorem escapeTok_raw (table : List (Char × Char)) (c : α) :
    (escapeTok table c).raw (lit '\\') = escapeUnit table c := by
  unfold escapeTok escapeUnit
  cases table.find? (fun p => c = lit p.1) <;> rfl

/-- A listed character never stands for itself in an escaped text. -/
theorem plain_not_mem_escapeTok {table : List (Char × Char)} {p : Char × Char}
    (hp : p ∈ table) (s : List α) : Tok.plain (lit p.1) ∉ s.map (escapeTok table) := by
  rw [List.mem_map]
  rintro ⟨c, -, hc⟩
  unfold escapeTok at hc
  cases hfind : table.find? (fun p => c = lit p.1) with
  | some q => rw [hfind] at hc; cases hc
  | none =>
    rw [hfind] at hc
    have hne := List.find?_eq_none.mp hfind p hp
    exact hne (by simpa using Tok.plain.inj hc)

/-- A table whose codes `unescape` takes back. -/
def Invertible (α : Type) [DecidableEq α] [Alphabet α] (table : List (Char × Char)) : Prop :=
  ∀ p ∈ table, unescape (lit p.2 : α) = lit p.1

theorem escapeTok_kept {table : List (Char × Char)} (h : Invertible α table) (c : α) :
    (escapeTok table c).kept (fun x => [unescape x]) = [c] := by
  unfold escapeTok
  cases hfind : table.find? (fun p => c = lit p.1) with
  | none => rfl
  | some p =>
    have hc : c = lit p.1 := by simpa using List.find?_some hfind
    have hmem : p ∈ table := List.mem_of_find?_eq_some hfind
    simp [h p hmem, hc]

theorem flatMap_escapeTok_raw (table : List (Char × Char)) (s : List α) :
    (s.map (escapeTok table)).flatMap (Tok.raw (lit '\\')) = s.flatMap (escapeUnit table) := by
  simp only [List.flatMap_map, escapeTok_raw]

theorem flatMap_escapeTok_kept {table : List (Char × Char)} (h : Invertible α table)
    (s : List α) :
    (s.map (escapeTok table)).flatMap (Tok.kept fun x => [unescape x]) = s := by
  simp [List.flatMap_map, escapeTok_kept h]

theorem unescape_of_ne {a : Char} (h : (a ≠ 'r' ∧ a ≠ 'n') ∧ a.toNat < 128) :
    unescape (lit a : α) = lit a := by
  have hr : (lit a : α) ≠ lit 'r' := lit_ne ⟨h.1.1, h.2, by decide⟩
  have hn : (lit a : α) ≠ lit 'n' := lit_ne ⟨h.1.2, h.2, by decide⟩
  rw [unescape, if_neg hr, if_neg hn]

@[simp] theorem unescape_r : unescape (lit 'r' : α) = lit '\r' := if_pos rfl

@[simp] theorem unescape_n : unescape (lit 'n' : α) = lit '\n' := by
  rw [unescape, if_neg (lit_ne (by decide)), if_pos rfl]

theorem backslash_mem : ('\\', '\\') ∈ wireEscapes := by decide

theorem comma_mem : (',', ',') ∈ wireEscapes := by decide

theorem semicolon_mem : (';', ';') ∈ wireEscapes := by decide

theorem wireEscapes_invertible : Invertible α wireEscapes := by
  intro p hp
  simp only [wireEscapes, List.mem_cons, List.not_mem_nil, or_false] at hp
  rcases hp with rfl | rfl | rfl | rfl | rfl
  · exact unescape_of_ne (by decide)
  · exact unescape_of_ne (by decide)
  · exact unescape_of_ne (by decide)
  · exact unescape_r
  · exact unescape_n

/-! ### Rows -/

/-- The tokens of a rendered row: those of its cells, with bare commas between. -/
def rowToks (row : List (List α)) : List (Tok α) :=
  [Tok.plain (lit ',')].intercalate (row.map (List.map (escapeTok wireEscapes)))

theorem rowToks_raw (row : List (List α)) :
    (rowToks row).flatMap (Tok.raw (lit '\\')) = renderRow row := by
  rw [rowToks, flatMap_raw_intercalate, renderRow, List.map_map]
  congr 1
  exact List.map_congr_left fun v _ => flatMap_escapeTok_raw wireEscapes v

/-- Only the comma, of the listed characters, stands bare in a rendered row. -/
theorem plain_not_mem_rowToks {p : Char × Char} (hp : p ∈ wireEscapes)
    (hcomma : p.1 ≠ ',' ∧ p.1.toNat < 128) (row : List (List α)) :
    Tok.plain (lit p.1) ∉ rowToks row := by
  intro hmem
  rcases mem_intercalate hmem with heq | ⟨toks, htoks, hin⟩
  · exact lit_ne ⟨hcomma.1, hcomma.2, by decide⟩ (Tok.plain.inj heq)
  · rw [List.mem_map] at htoks
    obtain ⟨v, -, rfl⟩ := htoks
    exact plain_not_mem_escapeTok hp v hin

/-- Cells escaped by a table that covers the backslash and the comma are cut apart
again. -/
theorem splitWireRow_escaped {table : List (Char × Char)} (htable : Invertible α table)
    (hbackslash : ('\\', '\\') ∈ table) (hcomma : (',', ',') ∈ table) {row : List (List α)}
    (hrow : row ≠ []) :
    Py.splitWireRow ([lit ','].intercalate (row.map (List.flatMap (escapeUnit table)))) = row := by
  have hcells : row.map (List.flatMap (escapeUnit table)) =
      (row.map (List.map (escapeTok table))).map (List.flatMap (Tok.raw (lit '\\'))) := by
    rw [List.map_map]
    exact List.map_congr_left fun v _ => (flatMap_escapeTok_raw table v).symm
  have hback : (row.map (List.map (escapeTok table))).map
      (List.flatMap (Tok.kept fun x => [unescape x])) = row := by
    rw [List.map_map]
    conv_rhs => rw [← List.map_id row]
    exact List.map_congr_left fun v _ => flatMap_escapeTok_kept htable v
  rw [Py.splitWireRow, hcells, scan_intercalate _ (lit_ne (by decide)) (by simpa using hrow),
    hback]
  · intro toks htoks
    obtain ⟨v, -, rfl⟩ := List.mem_map.mp htoks
    exact plain_not_mem_escapeTok hcomma v
  · intro toks htoks
    obtain ⟨v, -, rfl⟩ := List.mem_map.mp htoks
    exact plain_not_mem_escapeTok hbackslash v

/-- **A rendered row splits into its cells.** -/
theorem splitWireRow_renderRow {row : List (List α)} (hrow : row ≠ []) :
    Py.splitWireRow (renderRow row) = row :=
  splitWireRow_escaped wireEscapes_invertible backslash_mem comma_mem hrow

/-- The four characters that `_encode_value` escapes in a string. -/
def valueEscapes : List (Char × Char) := [('\\', '\\'), (',', ','), ('\r', 'r'), ('\n', 'n')]

theorem valueEscapes_invertible : Invertible α valueEscapes := by
  intro p hp
  apply wireEscapes_invertible p
  simp only [valueEscapes, wireEscapes, List.mem_cons, List.not_mem_nil, or_false] at hp ⊢
  tauto

omit [DecidableEq α] in
theorem lit_eq_lit {a b : Char} (h : a.toNat < 128 ∧ b.toNat < 128) :
    (lit a : α) = lit b ↔ a = b :=
  ⟨Alphabet.lit_inj h.1 h.2, congrArg lit⟩

/-! ### Replacing in passes -/

/-- The passes of an encoder, one `replace` for each entry of its table. -/
def replaceEach (table : List (Char × Char)) (s : List α) : List α :=
  table.foldl (fun s p => replace (lit p.1) [lit '\\', lit p.2] s) s

/-- No later pass of the table hits what an earlier one wrote. -/
def InPasses (table : List (Char × Char)) : Prop :=
  (∀ p ∈ table, p.1.toNat < 128 ∧ p.2.toNat < 128) ∧
    table.Pairwise fun p q => q.1 ≠ '\\' ∧ q.1 ≠ p.2

omit [Alphabet α] in
theorem replace_of_not_mem {a : α} (r : List α) {s : List α} (h : a ∉ s) : replace a r s = s := by
  have hunit : ∀ c ∈ s, (if c = a then r else [c]) = [c] := by
    intro c hc
    have hne : c ≠ a := by
      rintro rfl
      exact h hc
    simp [hne]
  rw [replace, List.flatMap_congr hunit, List.flatMap_singleton']

theorem replaceEach_of_not_mem {table : List (Char × Char)} {s : List α}
    (h : ∀ p ∈ table, lit p.1 ∉ s) : replaceEach table s = s := by
  induction table with
  | nil => rfl
  | cons p table ih =>
    have hhead := replace_of_not_mem [lit '\\', lit p.2] (h p List.mem_cons_self)
    rw [replaceEach, List.foldl_cons, hhead]
    exact ih fun q hq => h q (List.mem_cons_of_mem _ hq)

theorem replaceEach_append (table : List (Char × Char)) (s t : List α) :
    replaceEach table (s ++ t) = replaceEach table s ++ replaceEach table t := by
  induction table generalizing s t with
  | nil => rfl
  | cons p table ih =>
    have happend : replace (lit p.1) [lit '\\', lit p.2] (s ++ t) =
        replace (lit p.1) [lit '\\', lit p.2] s ++ replace (lit p.1) [lit '\\', lit p.2] t :=
      List.flatMap_append
    simp only [replaceEach, List.foldl_cons, happend] at ih ⊢
    exact ih _ _

theorem replaceEach_unit {table : List (Char × Char)} (h : InPasses table) (c : α) :
    replaceEach table [c] = escapeUnit table c := by
  obtain ⟨hascii, hpasses⟩ := h
  induction table with
  | nil => rfl
  | cons p table ih =>
    rw [List.pairwise_cons] at hpasses
    rw [replaceEach, List.foldl_cons, replace, List.flatMap_singleton, escapeUnit]
    by_cases hc : c = lit p.1
    · have hlater : ∀ q ∈ table, (lit q.1 : α) ∉ [lit '\\', lit p.2] := by
        intro q hq hmem
        have hq1 := (hascii q (List.mem_cons_of_mem _ hq)).1
        simp only [List.mem_cons, List.not_mem_nil, or_false] at hmem
        rcases hmem with heq | heq
        · exact lit_ne ⟨(hpasses.1 q hq).1, hq1, by decide⟩ heq
        · exact lit_ne ⟨(hpasses.1 q hq).2, hq1, (hascii p List.mem_cons_self).2⟩ heq
      rw [if_pos hc, List.find?_cons_of_pos (by simpa using hc)]
      exact replaceEach_of_not_mem hlater
    · rw [if_neg hc, List.find?_cons_of_neg (by simpa using hc)]
      exact ih (fun q hq => hascii q (List.mem_cons_of_mem _ hq)) hpasses.2

/-- **The passes are one:** each unit is escaped by itself. -/
theorem replaceEach_eq {table : List (Char × Char)} (h : InPasses table) (s : List α) :
    replaceEach table s = s.flatMap (escapeUnit table) := by
  induction s with
  | nil => exact replaceEach_of_not_mem fun p _ => List.not_mem_nil
  | cons c s ih =>
    rw [← List.singleton_append, replaceEach_append, replaceEach_unit h, ih, List.flatMap_append,
      List.flatMap_singleton]

theorem valueEscapes_inPasses : InPasses valueEscapes := by
  unfold InPasses valueEscapes
  exact ⟨by decide, by decide⟩

/-- The four passes of `_encode_value` are one. -/
theorem encodeValue_str (s : List α) :
    Py.encodeValue (.str s) = s.flatMap (escapeUnit valueEscapes) :=
  replaceEach_eq valueEscapes_inPasses s

/-- **A row that is read with `get` and inserted again is read as the same row.** -/
theorem splitWireRow_encodeValue {row : List (List α)} (hrow : row ≠ []) :
    Py.splitWireRow ([lit ','].intercalate (row.map fun v => Py.encodeValue (.str v))) = row := by
  simp only [encodeValue_str]
  exact splitWireRow_escaped valueEscapes_invertible (by decide) (by decide) hrow

/-- **A rendered body splits into its rows,** each still escaped. -/
theorem splitWireRows_renderRows {rows : List (List (List α))} (hrows : rows ≠ []) :
    Py.splitWireRows ([lit ';'].intercalate (rows.map renderRow)) = rows.map renderRow := by
  have htexts : rows.map renderRow =
      (rows.map rowToks).map (List.flatMap (Tok.raw (lit '\\'))) := by
    rw [List.map_map]
    exact List.map_congr_left fun row _ => (rowToks_raw row).symm
  have hkept : ∀ t : Tok α, t.kept (fun x => [lit '\\', x]) = t.raw (lit '\\') := by
    intro t
    cases t <;> rfl
  rw [Py.splitWireRows, htexts, scan_intercalate _ (lit_ne (by decide)) (by simpa using hrows)]
  · simp only [funext hkept]
  · intro toks htoks
    obtain ⟨row, -, rfl⟩ := List.mem_map.mp htoks
    exact plain_not_mem_rowToks semicolon_mem (by decide) row
  · intro toks htoks
    obtain ⟨row, -, rfl⟩ := List.mem_map.mp htoks
    exact plain_not_mem_rowToks backslash_mem (by decide) row

/-! ### Row lists -/

theorem splitWireRows_of_no_escape {inner : List α} (h : lit '\\' ∉ inner) :
    (Py.splitWireRows inner).map Py.splitWireRow =
      (inner.splitOn (lit ';')).map (·.splitOn (lit ',')) := by
  rw [Py.splitWireRows, scan_of_not_mem _ _ h]
  exact List.map_congr_left fun piece hpiece =>
    scan_of_not_mem _ _ fun hmem => h (mem_of_mem_splitOn hpiece hmem)

/-- **The fast path changes nothing:** both clients decode every body alike. -/
theorem parseRowlist_eq (body : List α) : Py.parseRowlist body = Js.parseRowlist body := by
  unfold Py.parseRowlist Js.parseRowlist
  split
  · rfl
  · dsimp only
    split
    · rfl
    · split
      · rename_i hescape
        rw [← splitWireRows_of_no_escape hescape]
        rfl
      · rfl

theorem renderRow_eq_nil {row : List (List α)} (hrow : row ≠ []) (h : renderRow row = []) :
    row = [[]] := by
  have hback := splitWireRow_renderRow hrow
  rw [h] at hback
  exact hback.symm

theorem renderRows_eq_nil {rows : List (List (List α))} (hrows : ∀ row ∈ rows, row ≠ [])
    (hne : rows ≠ []) (h : [lit ';'].intercalate (rows.map renderRow) = []) :
    rows = [[[]]] := by
  have hback := splitWireRows_renderRows hne
  rw [h] at hback
  have hsingle : rows.map renderRow = [[]] := hback.symm
  obtain ⟨row, rfl, hrow⟩ := List.map_eq_singleton_iff.mp hsingle
  rw [renderRow_eq_nil (hrows row (by simp)) hrow]

/-- Every list of non-empty rows but `[[""]]`, whose rendering is that of the
empty result, is read back by both clients from the server's rendering. -/
theorem parseRowlist_renderRowlist (rows : List (List (List α)))
    (hrows : ∀ row ∈ rows, row ≠ []) (hne : rows ≠ [[[]]]) :
    Py.parseRowlist (renderRowlist rows) = .ok rows ∧
      Js.parseRowlist (renderRowlist rows) = .ok rows := by
  rw [parseRowlist_eq, and_self]
  have hframe : (renderRowlist rows).head? = some (lit '[') ∧
      (renderRowlist rows).getLast? = some (lit ']') := by
    constructor
    · rfl
    · rw [renderRowlist, ← List.cons_append, List.getLast?_concat]
  have hinner : (renderRowlist rows).tail.dropLast =
      [lit ';'].intercalate (rows.map renderRow) := by
    rw [renderRowlist, List.tail_cons, List.dropLast_concat]
  rw [Js.parseRowlist, if_neg (not_not_intro hframe), hinner]
  by_cases hnil : rows = []
  · simp [hnil]
  · have hbody : [lit ';'].intercalate (rows.map renderRow) ≠ [] :=
      fun h => hne (renderRows_eq_nil hrows hnil h)
    have hsplit : Js.splitWireRows ([lit ';'].intercalate (rows.map renderRow)) =
        rows.map renderRow := splitWireRows_renderRows hnil
    dsimp only
    rw [if_neg hbody, hsplit, List.map_map]
    congr 1
    conv_rhs => rw [← List.map_id rows]
    exact List.map_congr_left fun row hrow => splitWireRow_renderRow (hrows row hrow)

theorem parseRowlist_renderRowlist_backslashes :
    Py.parseRowlist (renderRowlist [["a\\".toList, ",;".toList], ["\r\\\\".toList, []]]) =
        .ok [["a\\".toList, ",;".toList], ["\r\\\\".toList, []]] ∧
      Js.parseRowlist (renderRowlist [["a\\".toList, ",;".toList], ["\r\\\\".toList, []]]) =
        .ok [["a\\".toList, ",;".toList], ["\r\\\\".toList, []]] :=
  parseRowlist_renderRowlist _ (by decide) (by decide)

end CuttleDB
