import CuttleDB.GroupBy
import CuttleDB.JsNumbers
import CuttleDB.PyChangeLog
import CuttleDB.RowLists
import CuttleDB.Tokens

/-!
# Lists in a reply

The replies to `LOG` and `JOIN` are lists `[...;...]` of a few numbers each; a change event has
its operation behind them, which may be any text without `:` and `;`. Python reads the numbers
with `int`, JavaScript with `parseInt`, which gives a float, so that the numbers here are those
that both have exactly.
-/

namespace CuttleDB

open Framing Binary64

/-! ### The replies -/

/-- An integer that a number of either client can hold. -/
abbrev Exact := { n : Int // |n| < 2 ^ 53 }

section Rendering

variable (α : Type) [Alphabet α]

/-- A change event: its operation can be told from what stands around it. -/
structure Change where
  tsMs : Exact
  rowId : Exact
  op : { s : List α // lit ':' ∉ s ∧ lit ';' ∉ s }

variable {α}

/-- `ts:row:op` -/
def Change.render (e : Change α) : List α :=
  [lit ':'].intercalate [(intText e.tsMs.1).map lit, (intText e.rowId.1).map lit, e.op.1]

/-- `<cursor> [ts:row:op;...]` -/
def renderChanges (cursor : Exact) (events : List (Change α)) : List α :=
  (intText cursor.1).map lit ++
    lit ' ' :: lit '[' :: ([lit ';'].intercalate (events.map Change.render) ++ [lit ']'])

/-- `l,r` -/
def renderPair (pair : Exact × Exact) : List α :=
  (intText pair.1.1).map lit ++ lit ',' :: (intText pair.2.1).map lit

/-- `[l,r;l,r;...]` -/
def renderPairs (pairs : List (Exact × Exact)) : List α :=
  lit '[' :: ([lit ';'].intercalate (pairs.map renderPair) ++ [lit ']'])

theorem Change.render_ne_nil (e : Change α) : e.render ≠ [] := by
  simp [Change.render, List.intercalate_cons_cons]

theorem renderPair_ne_nil (pair : Exact × Exact) : (renderPair pair : List α) ≠ [] := by
  simp [renderPair]

theorem Change.semicolon_not_mem (e : Change α) : lit ';' ∉ e.render := by
  have hcolon : (lit ';' : α) ≠ lit ':' := lit_ne (by decide)
  intro hmem
  rcases Escape.mem_intercalate hmem with heq | ⟨piece, hpiece, hin⟩
  · exact hcolon heq
  · simp only [List.mem_cons, List.not_mem_nil, or_false] at hpiece
    rcases hpiece with rfl | rfl | rfl
    · exact lit_mem_intText (by decide) _ hin
    · exact lit_mem_intText (by decide) _ hin
    · exact e.op.2.2 hin

theorem semicolon_not_mem_renderPair (pair : Exact × Exact) :
    lit ';' ∉ (renderPair pair : List α) := by
  have hcomma : (lit ';' : α) ≠ lit ',' := lit_ne (by decide)
  intro hmem
  rcases List.mem_append.mp hmem with hleft | hright
  · exact lit_mem_intText (by decide) _ hleft
  · rcases List.mem_cons.mp hright with heq | hright
    · exact hcomma heq
    · exact lit_mem_intText (by decide) _ hright

end Rendering

/-- A pair, and a left row without a partner. -/
example : (renderPairs [(⟨3, by norm_num⟩, ⟨7, by norm_num⟩),
    (⟨4, by norm_num⟩, ⟨-1, by norm_num⟩)] : Text) = "[3,7;4,-1]".toList := by decide

/-! ### The Python client -/

namespace Py

/-- The loop of `join` over the entries of its reply. -/
def joinEntries : List Text → Except PyError (List (Int × Int))
  | [] => .ok []
  | entry :: rest =>
    let entry := strip entry
    if entry = [] then joinEntries rest
    else
      match splitMax ',' 1 entry with
      | [lr, rr] =>
        match int? lr, int? rr with
        | some l, some r => do
          let out ← joinEntries rest
          .ok ((l, r) :: out)
        | _, _ => .error .valueError
      | _ => .error .valueError

/-- What `join` makes of the body of its reply. -/
def joinPairs (body : Text) : Except PyError (List (Int × Int)) :=
  let body := strip body
  let body := if body.head? = some '[' ∧ body.getLast? = some ']' then body.tail.dropLast else body
  if body = [] then .ok []
  else joinEntries (body.splitOn ';')

/-- A change event as Python returns it. -/
def LogEntry.of (e : Change Char) : LogEntry := ⟨e.tsMs.1, e.rowId.1, e.op.1⟩

theorem LogEntry.of_separable (e : Change Char) : (LogEntry.of e).Separable :=
  ⟨e.op.2.1, e.op.2.2⟩

theorem LogEntry.of_text (e : Change Char) : (LogEntry.of e).text = e.render := by
  rw [LogEntry.text, Change.render, map_lit, map_lit]
  rfl

theorem parseLog_renderChanges (cursor : Exact) (events : List (Change Char)) :
    parseLog (renderChanges cursor events) = .ok (cursor.1, events.map LogEntry.of) := by
  have htexts : events.map Change.render = (events.map LogEntry.of).map LogEntry.text := by
    rw [List.map_map]
    exact List.map_congr_left fun e _ => (LogEntry.of_text e).symm
  rw [renderChanges, map_lit, htexts]
  exact parseLogIn_text (fits_of_exact cursor.2)
    (List.forall_mem_map.mpr fun e _ => LogEntry.of_separable e)
    (List.forall_mem_map.mpr fun e _ => ⟨fits_of_exact e.tsMs.2, fits_of_exact e.rowId.2⟩)

theorem strip_renderPair (pair : Exact × Exact) : strip (renderPair pair) = renderPair pair := by
  apply strip_of_no_space
  intro c hc
  rw [renderPair, map_lit, map_lit] at hc
  rcases List.mem_append.mp hc with hc | hc
  · exact isSpace_of_mem_intText hc
  · rcases List.mem_cons.mp hc with rfl | hc
    · decide
    · exact isSpace_of_mem_intText hc

theorem splitMax_renderPair (pair : Exact × Exact) :
    splitMax ',' 1 (renderPair pair) = [intText pair.1.1, intText pair.2.1] := by
  have hcomma : ',' ∉ intText pair.1.1 := not_mem_intText (by decide) (by decide) _
  rw [renderPair, map_lit, map_lit]
  exact splitMax_cons hcomma 0 _

theorem joinEntries_render (pairs : List (Exact × Exact)) :
    joinEntries (pairs.map renderPair) = .ok (pairs.map fun pair => (pair.1.1, pair.2.1)) := by
  induction pairs with
  | nil => rfl
  | cons pair pairs ih =>
    rw [List.map_cons, joinEntries, strip_renderPair, if_neg (renderPair_ne_nil pair),
      splitMax_renderPair]
    dsimp only
    rw [int?_intText (fits_of_exact pair.1.2), int?_intText (fits_of_exact pair.2.2), ih]
    rfl

theorem joinPairs_renderPairs (pairs : List (Exact × Exact)) :
    joinPairs (renderPairs pairs) = .ok (pairs.map fun pair => (pair.1.1, pair.2.1)) := by
  have hstrip : strip (renderPairs pairs) = renderPairs pairs := strip_bracketed _
  have hframe : (renderPairs pairs : Text).head? = some '[' ∧
      (renderPairs pairs : Text).getLast? = some ']' := bracketed_frame _
  have hinner : (renderPairs pairs : Text).tail.dropLast =
      [';'].intercalate (pairs.map renderPair) := List.dropLast_concat
  have hsep : ∀ t ∈ pairs.map (renderPair : Exact × Exact → Text), ';' ∉ t :=
    List.forall_mem_map.mpr fun pair _ => semicolon_not_mem_renderPair pair
  have hne : ∀ t ∈ pairs.map (renderPair : Exact × Exact → Text), t ≠ [] :=
    List.forall_mem_map.mpr fun pair _ => renderPair_ne_nil pair
  rw [joinPairs, hstrip, if_pos hframe, hinner]
  rcases Escape.splitOn_joined hsep hne with ⟨hnil, hbody⟩ | ⟨hbody, hsplit⟩
  · rw [if_pos hbody, List.map_eq_nil_iff.mp hnil]
    rfl
  · rw [if_neg hbody, hsplit, joinEntries_render]

end Py

/-! ### The JavaScript client -/

namespace Js

/-- The errors of the decoders: `bad log result: ${body}`, `bad join result: ${body}`. -/
inductive ListError where
  | badLogResult (body : List UInt16)
  | badJoinResult (body : List UInt16)
deriving DecidableEq

/-- A change event as JavaScript returns it; `op` may be `undefined`. -/
structure LogEntry where
  tsMs : Double
  rowId : Double
  op : Option (List UInt16)
deriving DecidableEq

/-- `parseInt(s, 10)` of a part of a text, or of `undefined`. -/
def parsePart : Option (List UInt16) → Double
  | some s => parseInt (ofUnits s)
  | none => .nan

def parseLogEntry (tok : List UInt16) : LogEntry :=
  let parts := tok.splitOn (lit ':')
  ⟨parsePart parts[0]?, parsePart parts[1]?, parts[2]?⟩

/-- `parseLog`. Where there is no space, `indexOf` is -1: the cursor is read from all but the
last unit, and the list is the whole body. -/
def parseLog (body : List UInt16) : Except ListError (Double × List LogEntry) :=
  let (cursorText, rest) := (cutLine (lit ' ') body).getD (body.dropLast, body)
  let cursor := parseInt (ofUnits cursorText)
  if ¬ Bracketed rest then .error (.badLogResult body)
  else
    let inner := rest.tail.dropLast
    if inner = [] then .ok (cursor, [])
    else .ok (cursor, (inner.splitOn (lit ';')).map parseLogEntry)

def parsePair (tok : List UInt16) : Double × Double :=
  let parts := tok.splitOn (lit ',')
  (parsePart parts[0]?, parsePart parts[1]?)

/-- What `join` makes of the body of its reply. -/
def joinPairs (body : List UInt16) : Except ListError (List (Double × Double)) :=
  if ¬ Bracketed body then .error (.badJoinResult body)
  else
    let inner := body.tail.dropLast
    if inner = [] then .ok []
    else .ok ((inner.splitOn (lit ';')).map parsePair)

/-- **An integer's text is read back.** -/
theorem parseInt_intText (n : Exact) : parseInt (intText n.1) = .finite n.1 := by
  obtain ⟨n, hn⟩ := n
  have hspace : ∀ c ∈ intText n, isSpace c = false := by
    intro c hc
    rcases mem_intText hc with hdigit | rfl
    · exact isSpace_of_isDigit hdigit
    · decide
  have hdrop : (intText n).dropWhile isSpace = intText n := by
    cases htext : intText n with
    | nil => rfl
    | cons c s =>
      rw [List.dropWhile_cons_of_neg]
      simpa using hspace c (by simp [htext])
  have hdigits : (Nat.toDigits 10 n.natAbs).takeWhile Char.isDigit = Nat.toDigits 10 n.natAbs :=
    List.takeWhile_eq_self_iff.mpr fun c hc => isDigit_of_mem_toDigits hc
  have habs : ofRat (n.natAbs : Rat) = .finite n.natAbs := by
    simpa using ofRat_intCast (n := (n.natAbs : Int)) (by simpa using hn)
  rw [parseInt, hdrop, sign_intText]
  simp only [hdigits, Nat.toDigits_ne_nil, if_false, Nat.ofDigitChars_ten_toDigits, habs]
  have hcast := cast_sign n
  by_cases hneg : n < 0
  · rw [if_pos hneg] at hcast
    simp [hneg, Double.neg, hcast]
  · rw [if_neg hneg] at hcast
    simp [hneg, hcast]

/-- A change event as it is read. -/
def LogEntry.of (e : Change UInt16) : LogEntry :=
  ⟨.finite e.tsMs.1, .finite e.rowId.1, some e.op.1⟩

theorem parsePart_intText (n : Exact) : parsePart (some ((intText n.1).map lit)) = .finite n.1 := by
  rw [parsePart, ofUnits_intText, parseInt_intText]

theorem parseLogEntry_render (e : Change UInt16) : parseLogEntry e.render = LogEntry.of e := by
  have hsplit : e.render.splitOn (lit ':') =
      [(intText e.tsMs.1).map lit, (intText e.rowId.1).map lit, e.op.1] := by
    apply List.splitOn_intercalate _ _ (List.cons_ne_nil _ _)
    simp only [List.mem_cons, List.not_mem_nil, or_false]
    rintro piece (rfl | rfl | rfl)
    · exact lit_mem_intText (by decide) _
    · exact lit_mem_intText (by decide) _
    · exact e.op.2.1
  rw [parseLogEntry, hsplit, LogEntry.of, ← parsePart_intText e.tsMs, ← parsePart_intText e.rowId]
  rfl

theorem parsePair_render (pair : Exact × Exact) :
    parsePair (renderPair pair) = (.finite pair.1.1, .finite pair.2.1) := by
  have hcomma : (lit ',' : UInt16) ∉ (intText pair.1.1).map lit := lit_mem_intText (by decide) _
  have hcomma' : (lit ',' : UInt16) ∉ (intText pair.2.1).map lit := lit_mem_intText (by decide) _
  have hsplit : (renderPair pair : List UInt16).splitOn (lit ',') =
      [(intText pair.1.1).map lit, (intText pair.2.1).map lit] := by
    rw [renderPair, List.splitOn_append_cons_self_of_not_mem hcomma,
      List.splitOn_eq_singleton hcomma']
  rw [parsePair, hsplit, ← parsePart_intText pair.1, ← parsePart_intText pair.2]
  rfl

/-- A list that a decoder goes through entry by entry. -/
theorem decode_joined {β γ : Type} {render : β → List UInt16} {parse : List UInt16 → γ}
    {value : β → γ} (hsep : ∀ x, lit ';' ∉ render x) (hne : ∀ x, render x ≠ [])
    (hparse : ∀ x, parse (render x) = value x) (xs : List β) :
    (if [lit ';'].intercalate (xs.map render) = [] then []
      else (([lit ';'].intercalate (xs.map render)).splitOn (lit ';')).map parse) =
      xs.map value := by
  have hseps : ∀ t ∈ xs.map render, lit ';' ∉ t := List.forall_mem_map.mpr fun x _ => hsep x
  have hnes : ∀ t ∈ xs.map render, t ≠ [] := List.forall_mem_map.mpr fun x _ => hne x
  rcases Escape.splitOn_joined hseps hnes with ⟨hnil, hbody⟩ | ⟨hbody, hsplit⟩
  · rw [if_pos hbody, List.map_eq_nil_iff.mp hnil]
    rfl
  · rw [if_neg hbody, hsplit, List.map_map]
    exact List.map_congr_left fun x _ => hparse x

theorem parseLog_renderChanges (cursor : Exact) (events : List (Change UInt16)) :
    parseLog (renderChanges cursor events) = .ok (.finite cursor.1, events.map LogEntry.of) := by
  have hspace : (lit ' ' : UInt16) ∉ (intText cursor.1).map lit := lit_mem_intText (by decide) _
  have hframe := bracketed_frame ([lit ';'].intercalate (events.map (Change.render (α := UInt16))))
  rw [parseLog, renderChanges, cutLine_line hspace, Option.getD_some]
  dsimp only
  rw [ofUnits_intText, parseInt_intText, if_neg (not_not_intro hframe), List.tail_cons,
    List.dropLast_concat, ← decode_joined Change.semicolon_not_mem Change.render_ne_nil
      parseLogEntry_render events]
  split <;> rfl

theorem joinPairs_renderPairs (pairs : List (Exact × Exact)) :
    joinPairs (renderPairs pairs) =
      .ok (pairs.map fun pair => (.finite pair.1.1, .finite pair.2.1)) := by
  have hframe := bracketed_frame ([lit ';'].intercalate
    (pairs.map (renderPair : Exact × Exact → List UInt16)))
  rw [joinPairs, renderPairs, if_neg (not_not_intro hframe), List.tail_cons, List.dropLast_concat,
    ← decode_joined semicolon_not_mem_renderPair renderPair_ne_nil parsePair_render pairs]
  dsimp only
  split <;> rfl

end Js

/-- **The lists of a reply are read back** by both clients: the cursor of the change feed and its
events in order, and the pairs of a join, none at all included. -/
theorem resultLists_decoded (cursor : Exact) (events : List (Change Char))
    (events' : List (Change UInt16)) (pairs : List (Exact × Exact)) :
    Py.parseLog (renderChanges cursor events) = .ok (cursor.1, events.map Py.LogEntry.of) ∧
    Js.parseLog (renderChanges cursor events') =
      .ok (.finite cursor.1, events'.map Js.LogEntry.of) ∧
    Py.joinPairs (renderPairs pairs) = .ok (pairs.map fun (l, r) => (l.1, r.1)) ∧
    Js.joinPairs (renderPairs pairs) = .ok (pairs.map fun (l, r) => (.finite l.1, .finite r.1)) :=
  ⟨Py.parseLog_renderChanges cursor events, Js.parseLog_renderChanges cursor events',
    Py.joinPairs_renderPairs pairs, Js.joinPairs_renderPairs pairs⟩

end CuttleDB
