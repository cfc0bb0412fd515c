import CuttleDB.RowCodec

/-!
# One row list, two decoders

`_parse_rowlist` takes the native splits where the body holds no backslash and the
scanners otherwise, `parseRowlist` always takes the scanners, and the two walk over
different units: a character beyond U+FFFF is one unit of a Python string and two of a
JavaScript string. The scanners are translated unit by unit (`Escape.scan_flatMap`), so
that the two decoders agree on every body, whoever wrote it. The scanner for rows keeps
what it escapes, so its rows are parts of the body.
-/

namespace CuttleDB

open Escape

/-! ### Transcoding the scanners -/

theorem units_ne_nil (c : CodePoint) : Utf16.units c ≠ [] := by
  unfold Utf16.units
  split <;> simp

theorem lit_not_mem_units {a : Char} (ha : a.toNat < 128) {c : CodePoint} (hc : c ≠ lit a) :
    lit a ∉ Utf16.units c :=
  fun hmem => hc ((lit_mem_units ha c).mp hmem)

/-- What stands for the code point behind a backslash begins with what stands for its
first unit. -/
theorem unescape_units {x : CodePoint} {u : UInt16} {us : List UInt16}
    (hx : Utf16.units x = u :: us) : unescape u :: us = Utf16.units (unescape x) := by
  by_cases hr : x = lit 'r'
  · subst hr
    rw [units_lit (by decide)] at hx
    obtain ⟨rfl, rfl⟩ := List.cons.inj hx
    rw [unescape_r, unescape_r, units_lit (by decide)]
  · by_cases hn : x = lit 'n'
    · subst hn
      rw [units_lit (by decide)] at hx
      obtain ⟨rfl, rfl⟩ := List.cons.inj hx
      rw [unescape_n, unescape_n, units_lit (by decide)]
    · have hur : u ≠ lit 'r' := by
        rintro rfl
        exact lit_not_mem_units (by decide) hr (hx ▸ List.mem_cons_self)
      have hun : u ≠ lit 'n' := by
        rintro rfl
        exact lit_not_mem_units (by decide) hn (hx ▸ List.mem_cons_self)
      rw [unescape, if_neg hur, if_neg hun, unescape, if_neg hr, if_neg hn, hx]

theorem splitWireRow_encode (s : List CodePoint) :
    Js.splitWireRow (Utf16.encode s) = (Py.splitWireRow s).map Utf16.encode := by
  refine scan_flatMap (units_lit (by decide)) (fun c hc => lit_not_mem_units (by decide) hc)
    (units_lit (by decide)) (fun c hc => lit_not_mem_units (by decide) hc) units_ne_nil ?_ s
  intro x u us hx
  simpa using unescape_units hx

theorem splitWireRows_encode (s : List CodePoint) :
    Js.splitWireRows (Utf16.encode s) = (Py.splitWireRows s).map Utf16.encode := by
  refine scan_flatMap (units_lit (by decide)) (fun c hc => lit_not_mem_units (by decide) hc)
    (units_lit (by decide)) (fun c hc => lit_not_mem_units (by decide) hc) units_ne_nil ?_ s
  intro x u us hx
  simp [units_lit, hx]

/-! ### The brackets -/

section Brackets

variable {α : Type} [Alphabet α]

/-- The body begins with `[` and ends with `]`. -/
abbrev Bracketed (body : List α) : Prop :=
  body.head? = some (lit '[') ∧ body.getLast? = some (lit ']')

theorem Bracketed.eq {body : List α} (h : Bracketed body) :
    body = lit '[' :: (body.tail.dropLast ++ [lit ']']) := by
  obtain ⟨hhead, hlast⟩ := h
  cases body with
  | nil => cases hhead
  | cons c rest =>
    obtain rfl : c = lit '[' := Option.some.inj hhead
    have hrest : rest ≠ [] := by
      rintro rfl
      exact lit_ne (by decide) (Option.some.inj hlast)
    rw [List.getLast?_cons, List.getLast?_eq_some_getLast hrest] at hlast
    have hbracket : rest.getLast hrest = lit ']' := Option.some.inj hlast
    rw [List.tail_cons, ← hbracket, List.dropLast_append_getLast]

theorem bracketed_frame (inner : List α) :
    Bracketed (lit '[' :: (inner ++ [lit ']'])) := by
  constructor
  · rfl
  · rw [← List.cons_append, List.getLast?_concat]

end Brackets

theorem encode_frame (inner : List CodePoint) :
    Utf16.encode (lit '[' :: (inner ++ [lit ']'])) =
      lit '[' :: (Utf16.encode inner ++ [lit ']']) := by
  have hclose : Utf16.encode [lit ']'] = [lit ']'] := by
    simp [Utf16.encode_cons, units_lit]
  simp [Utf16.encode_cons, Utf16.encode_append, units_lit, hclose]

/-- Transcoding neither makes nor loses the brackets. -/
theorem bracketed_encode (body : List CodePoint) :
    Bracketed (Utf16.encode body) ↔ Bracketed body := by
  constructor
  · rintro ⟨hhead, hlast⟩
    constructor
    · cases body with
      | nil => cases hhead
      | cons c rest =>
        rw [Utf16.encode_cons, List.head?_append_of_ne_nil _ (units_ne_nil c)] at hhead
        rw [(lit_mem_units (by decide) c).mp (List.mem_of_head? hhead)]
        rfl
    · rcases List.eq_nil_or_concat' body with rfl | ⟨init, c, rfl⟩
      · cases hlast
      · have hunits : Utf16.encode [c] = Utf16.units c := List.append_nil _
        rw [Utf16.encode_append, hunits, List.getLast?_append_of_ne_nil _ (units_ne_nil c)] at hlast
        rw [(lit_mem_units (by decide) c).mp (List.mem_of_getLast? hlast), List.getLast?_concat]
  · intro h
    rw [h.eq, encode_frame]
    exact bracketed_frame _

/-! ### Both decoders -/

theorem encode_eq_nil {s : List CodePoint} : Utf16.encode s = [] ↔ s = [] := by
  cases s with
  | nil => simp
  | cons c s => simp [Utf16.encode_cons, units_ne_nil]

theorem jsParseRowlist_frame {α : Type} [DecidableEq α] [Alphabet α] (inner : List α) :
    Js.parseRowlist (lit '[' :: (inner ++ [lit ']'])) =
      .ok (if inner = [] then [] else (Js.splitWireRows inner).map Js.splitWireRow) := by
  rw [Js.parseRowlist, if_neg (not_not_intro (bracketed_frame inner)), List.tail_cons,
    List.dropLast_concat]
  dsimp only
  split <;> rfl

/-- **The two decoders agree on every body.** Both reject it, each with its own spelling
of the body, or both read the same rows; and the native splits of the fast path are the
scanners. Every JavaScript string is the UTF-16 of a text (`Utf16.encode_surjective`). -/
theorem rowlist_decoders_agree (body : List CodePoint) :
    ((Py.parseRowlist body = .error (.badRowList body) ∧
        Js.parseRowlist (Utf16.encode body) = .error (.badRowList (Utf16.encode body))) ∨
      ∃ rows, Py.parseRowlist body = .ok rows ∧
        Js.parseRowlist (Utf16.encode body) = .ok (rows.map (List.map Utf16.encode))) ∧
    (lit '\\' ∉ body → (body.splitOn (lit ';')).map (·.splitOn (lit ',')) =
      (Py.splitWireRows body).map Py.splitWireRow) := by
  refine ⟨?_, fun hescape => (splitWireRows_of_no_escape hescape).symm⟩
  rw [parseRowlist_eq]
  by_cases hbody : Bracketed body
  · right
    rw [hbody.eq, encode_frame, jsParseRowlist_frame, jsParseRowlist_frame]
    refine ⟨_, rfl, ?_⟩
    by_cases hinner : body.tail.dropLast = []
    · simp [hinner]
    · rw [if_neg hinner, if_neg (mt encode_eq_nil.mp hinner), splitWireRows_encode]
      congr 1
      simp only [List.map_map]
      exact List.map_congr_left fun row _ => splitWireRow_encode row
  · left
    rw [Js.parseRowlist, Js.parseRowlist, if_pos hbody,
      if_pos (mt (bracketed_encode body).mp hbody)]
    exact ⟨rfl, rfl⟩

/-- A row with an empty cell, an empty row, and no backslash. -/
theorem rowlist_decoders_agree_emptyRow :
    ((("a,;;b,c".toList.map (lit : Char → CodePoint)).splitOn (lit ';')).map
        (·.splitOn (lit ','))) =
      (Py.splitWireRows ("a,;;b,c".toList.map lit)).map Py.splitWireRow :=
  (rowlist_decoders_agree _).2 (by decide)

/-! ### Where a row list is cut -/

/-- The splitter only cuts, well-formed texts or not: the rows, joined, are the text, a row
is one row, and the cuts are at the semicolons behind an even number of backslashes. -/
def CutsRows {α : Type} [DecidableEq α] [Alphabet α] (split : List α → List (List α)) : Prop :=
  ∀ s, [lit ';'].intercalate (split s) = s ∧ (∀ row ∈ split s, split row = [row]) ∧
    ∀ i, UnescapedAt (lit '\\') (lit ';') s i ↔ i ∈ cuts (split s)

/-- **Row splitting is lossless and complete.** -/
theorem splitWireRows_cutsRows :
    CutsRows (Py.splitWireRows : List CodePoint → List (List CodePoint)) ∧
      CutsRows (Js.splitWireRows : List UInt16 → List (List UInt16)) := by
  have hpy : (lit ';' : CodePoint) ≠ lit '\\' := lit_ne (by decide)
  have hjs : (lit ';' : UInt16) ≠ lit '\\' := lit_ne (by decide)
  constructor
  · intro s
    exact ⟨intercalate_scan _ _ s, scan_of_mem_scan hpy s, unescapedAt_iff_mem_cuts hpy s⟩
  · intro s
    exact ⟨intercalate_scan _ _ s, scan_of_mem_scan hjs s, unescapedAt_iff_mem_cuts hjs s⟩

/-- An escaped semicolon, one behind an escaped backslash, and a backslash at the end. -/
example : Py.splitWireRows ("a\\;b;c\\\\;d\\".toList.map (lit : Char → CodePoint)) =
    ["a\\;b", "c\\\\", "d\\"].map fun row => row.toList.map lit := by decide

end CuttleDB
