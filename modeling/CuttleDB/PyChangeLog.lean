import CuttleDB.Lib.Escape
import CuttleDB.PyConnection

/-!
# The change feed

The reply to `LOG` as the server writes it, `<count> [ts:row_id:op;...]`, and
`_parse_log`, with which the Python client reads it. The entries are read back as
they were written, in their order, and the count in front of them is the cursor.
-/

namespace CuttleDB

inductive LogOp where
  | insert
  | delete
  | update
deriving DecidableEq, Repr

def LogOp.text : LogOp → Text
  | .insert => ['I']
  | .delete => ['D']
  | .update => ['U']

structure LogEvent where
  tsMs : Nat
  rowId : Nat
  op : LogOp
deriving DecidableEq, Repr

def LogEvent.text (e : LogEvent) : Text :=
  [':'].intercalate [intText e.tsMs, intText e.rowId, e.op.text]

/-- The server's reply to `LOG`: the number of events ever, and those it returns. -/
def renderLog (count : Nat) (events : List LogEvent) : Text :=
  intText count ++ ' ' :: '[' :: ([';'].intercalate (events.map LogEvent.text) ++ [']'])

namespace Py

/-- An entry as `log` returns it: `(ts_ms, row_id, op)`. -/
structure LogEntry where
  tsMs : Int
  rowId : Int
  op : Text
deriving DecidableEq, Repr

/-- `s.partition(sep)` for a one-character `sep`, without the separator. -/
def partition (sep : Char) (s : Text) : Text × Text :=
  (s.takeWhile (· ≠ sep), (s.dropWhile (· ≠ sep)).tail)

/-- The loop of `_parse_log`, `int` having the limit of `intIn?`. -/
def parseLogEntry (limit : Option Nat) (tok : Text) : Except PyError LogEntry :=
  match tok.splitOn ':' with
  | [ts, rid, op] =>
    match intIn? limit ts, intIn? limit rid with
    | some tsMs, some rowId => .ok ⟨tsMs, rowId, op⟩
    | _, _ => .error .valueError
  | _ => .error .valueError

/-- `_parse_log` under a limit -/
def parseLogIn (limit : Option Nat) (body : Text) : Except PyError (Int × List LogEntry) :=
  let (cursorText, rest) := partition ' ' body
  match intIn? limit cursorText with
  | none => .error .valueError
  | some cursor =>
    let rest := strip rest
    if ¬ (rest.head? = some '[' ∧ rest.getLast? = some ']') then
      .error (.cuttleDBError (.badLogResult body))
    else
      let inner := rest.tail.dropLast
      if inner = [] then .ok (cursor, [])
      else match (inner.splitOn ';').mapM (parseLogEntry limit) with
        | .error e => .error e
        | .ok events => .ok (cursor, events)

/-- `_parse_log` -/
def parseLog (body : Text) : Except PyError (Int × List LogEntry) :=
  parseLogIn (some intMaxStrDigits) body

/-! ### Reading the feed -/

/-- What the client makes of an event. -/
def entryOf (e : LogEvent) : LogEntry := ⟨e.tsMs, e.rowId, e.op.text⟩

/-- `ts:row_id:op` -/
def LogEntry.text (e : LogEntry) : Text := [':'].intercalate [intText e.tsMs, intText e.rowId, e.op]

/-- The operation holds neither of the separators. -/
structure LogEntry.Separable (e : LogEntry) : Prop where
  colon : ':' ∉ e.op
  semicolon : ';' ∉ e.op

/-- The numbers are within a limit. -/
structure LogEntry.FitsIn (limit : Option Nat) (e : LogEntry) : Prop where
  tsMs : Py.FitsIn limit e.tsMs
  rowId : Py.FitsIn limit e.rowId

theorem LogEntry.text_ne_nil (e : LogEntry) : e.text ≠ [] := by
  simp [LogEntry.text, List.intercalate_cons_cons]

theorem LogEntry.Separable.semicolon_not_mem {e : LogEntry} (h : e.Separable) : ';' ∉ e.text := by
  intro hmem
  rcases Escape.mem_intercalate hmem with heq | ⟨piece, hpiece, hin⟩
  · cases heq
  · simp only [List.mem_cons, List.not_mem_nil, or_false] at hpiece
    rcases hpiece with rfl | rfl | rfl
    · exact not_mem_intText (by decide) (by decide) _ hin
    · exact not_mem_intText (by decide) (by decide) _ hin
    · exact h.semicolon hin

theorem LogEntry.Separable.parse {limit : Option Nat} {e : LogEntry} (h : e.Separable)
    (hfits : e.FitsIn limit) : parseLogEntry limit e.text = .ok e := by
  have hsplit : e.text.splitOn ':' = [intText e.tsMs, intText e.rowId, e.op] := by
    apply List.splitOn_intercalate _ _ (List.cons_ne_nil _ _)
    simp only [List.mem_cons, List.not_mem_nil, or_false]
    rintro piece (rfl | rfl | rfl)
    · exact not_mem_intText (by decide) (by decide) _
    · exact not_mem_intText (by decide) (by decide) _
    · exact h.colon
  rw [parseLogEntry, hsplit]
  dsimp only
  rw [intIn?_intText hfits.tsMs, intIn?_intText hfits.rowId]

theorem mapM_parseLogEntry {limit : Option Nat} (entries : List LogEntry) :
    (∀ e ∈ entries, e.Separable) → (∀ e ∈ entries, e.FitsIn limit) →
      (entries.map LogEntry.text).mapM (parseLogEntry limit) = .ok entries := by
  induction entries with
  | nil => exact fun _ _ => rfl
  | cons e entries ih =>
    intro h hfits
    obtain ⟨hfirst, hrest⟩ := List.forall_mem_cons.mp h
    obtain ⟨hfirstFits, hrestFits⟩ := List.forall_mem_cons.mp hfits
    rw [List.map_cons, List.mapM_cons, hfirst.parse hfirstFits, ih hrest hrestFits]
    rfl

theorem partition_append {sep : Char} {s : Text} (h : sep ∉ s) (rest : Text) :
    partition sep (s ++ sep :: rest) = (s, rest) := by
  have hkeep : ∀ c ∈ s, decide (c ≠ sep) = true := fun c hc =>
    decide_eq_true fun heq => h (heq ▸ hc)
  rw [partition, List.takeWhile_append_of_pos hkeep, List.dropWhile_append_of_pos hkeep]
  simp

/-- **`_parse_log` reads back a cursor and entries**, whatever the operations are called. -/
theorem parseLogIn_text {limit : Option Nat} {cursor : Int} {entries : List LogEntry}
    (hcursor : FitsIn limit cursor) (h : ∀ e ∈ entries, e.Separable)
    (hfits : ∀ e ∈ entries, e.FitsIn limit) :
    parseLogIn limit (intText cursor ++
        ' ' :: '[' :: ([';'].intercalate (entries.map LogEntry.text) ++ [']'])) =
      .ok (cursor, entries) := by
  have hpartition := partition_append
    (not_mem_intText (c := ' ') (by decide) (by decide) cursor)
    ('[' :: ([';'].intercalate (entries.map LogEntry.text) ++ [']']))
  have hstrip := strip_bracketed ([';'].intercalate (entries.map LogEntry.text))
  have hframe : ('[' :: ([';'].intercalate (entries.map LogEntry.text) ++ [']'])).head? =
        some '[' ∧
      ('[' :: ([';'].intercalate (entries.map LogEntry.text) ++ [']'])).getLast? = some ']' := by
    constructor
    · rfl
    · rw [← List.cons_append, List.getLast?_concat]
  have hsep : ∀ t ∈ entries.map LogEntry.text, ';' ∉ t :=
    List.forall_mem_map.mpr fun e he => (h e he).semicolon_not_mem
  have hne : ∀ t ∈ entries.map LogEntry.text, t ≠ [] :=
    List.forall_mem_map.mpr fun e _ => e.text_ne_nil
  rw [parseLogIn, hpartition]
  dsimp only
  rw [intIn?_intText hcursor, hstrip]
  dsimp only
  rw [if_neg (not_not_intro hframe), List.tail_cons, List.dropLast_concat]
  rcases Escape.splitOn_joined hsep hne with ⟨hnil, hbody⟩ | ⟨hbody, hsplit⟩
  · rw [if_pos hbody, List.map_eq_nil_iff.mp hnil]
  · rw [if_neg hbody, hsplit, mapM_parseLogEntry entries h hfits]

theorem entryOf_separable (e : LogEvent) : (entryOf e).Separable := by
  constructor <;> cases hop : e.op <;> simp [entryOf, hop, LogOp.text]

/-- **`_parse_log` reads the server's reply back**, entry by entry. -/
theorem parseLogIn_renderLog (count : Nat) (events : List LogEvent) :
    parseLogIn none (renderLog count events) = .ok (count, events.map entryOf) := by
  have htexts : events.map LogEvent.text = (events.map entryOf).map LogEntry.text := by
    rw [List.map_map]
    rfl
  rw [renderLog, htexts]
  exact parseLogIn_text (fitsIn_none _) (List.forall_mem_map.mpr fun e _ => entryOf_separable e)
    fun _ _ => ⟨fitsIn_none _, fitsIn_none _⟩

end Py

end CuttleDB
