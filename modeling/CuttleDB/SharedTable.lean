import CuttleDB.Lib.Serving
import CuttleDB.PyCommands
import CuttleDB.PyDemultiplexing
import CuttleDB.RowCodec
import CuttleDB.Table

/-!
# Clients on one table

Any number of Python clients, each on its own connection, call `insert`, `get`, `delete`
and `count` on one table of STRING columns, and poll for events in between. The server
reads their command lines in some order and answers as the protocol says; it is a
parameter. What every client gets back, through escaping, framing and whatever pieces the
network makes of the replies, is what one table gives that carries out the calls one at a
time.
-/

namespace CuttleDB.SharedTable

open Framing Py Serving SwapRemove

/-! ### The table -/

/-- A row of STRING columns. -/
abbrev Row (columns : Nat) := { row : List Text // row.length = columns }

variable {columns : Nat}

theorem Row.ne_nil (row : Row columns) (h : 0 < columns) : row.1 ≠ [] := by
  apply List.ne_nil_of_length_pos
  rw [row.2]
  exact h

inductive TableCall (columns : Nat) where
  | insert (values : Row columns)
  | get (rowId : Int)
  | delete (rowId : Int)
  | count

inductive Value where
  | int (n : Int)
  | row (values : List Text)
  | bool (b : Bool)
deriving DecidableEq

/-- The row that a row id stands for. -/
def rowAt? (rows : List (Row columns)) : Int → Option (Row columns)
  | .ofNat n => rows[n]?
  | .negSucc _ => none

/-- What a call is to do to a table, and what it is to return. -/
def TableCall.spec : TableCall columns → List (Row columns) →
    Except PyError Value × List (Row columns)
  | .insert values, rows => (.ok (.int rows.length), rows ++ [values])
  | .get rowId, rows =>
    match rowAt? rows rowId with
    | some row => (.ok (.row row.1), rows)
    | none => (.error (.cuttleDBError (.server "not found".toList)), rows)
  | .delete rowId, rows =>
    match rowAt? rows rowId with
    | some _ => (.ok (.bool true), swapRemove rows rowId.toNat)
    | none => (.ok (.bool false), rows)
  | .count, rows => (.ok (.int rows.length), rows)

/-! ### The methods -/

section Lines

variable (t : TableId)

/-- `INSERT` with the row in the text `csv` -/
def insertLine (csv : Text) : Text := words ["INSERT".toList, intText t.hid, intText t.tid, csv]

def getLine (rowId : Int) : Text :=
  words ["GET".toList, intText t.hid, intText t.tid, intText rowId]

def deleteLine (rowId : Int) : Text :=
  words ["DELETE".toList, intText t.hid, intText t.tid, intText rowId]

def countLine : Text := words ["COUNT".toList, intText t.hid, intText t.tid]

/-- The command line of `insert`, `get`, `delete` or `count` -/
def TableCall.command : TableCall columns → Text
  | .insert values => insertLine t (joinValues values.1)
  | .get rowId => getLine t rowId
  | .delete rowId => deleteLine t rowId
  | .count => countLine t

end Lines

/-- `int(body)`, for counts and row ids without a bound -/
def intOf (body : Text) : Except PyError Int :=
  match intIn? none body with
  | some n => .ok n
  | none => .error .valueError

/-- What the method makes of what `send` returns. -/
def TableCall.decode : TableCall columns → Text → Except PyError Value
  | .insert _, body => (intOf body).map .int
  | .get _, body => .ok (.row (splitWireRow body))
  | .delete _, body => (intOf body).map fun n => .bool (n = 1)
  | .count, body => (intOf body).map .int

def TableCall.run (t : TableId) (call : TableCall columns) (c : Conn) :
    Except PyError Value × Conn :=
  ((send (call.command t) c).1 >>= call.decode, (send (call.command t) c).2)

inductive ClientCall (columns : Nat) where
  | table (call : TableCall columns)
  | poll (timeout : Rat)

/-- A call of a client, with what arrives up to its end, as in `Py.Step`. -/
structure ClientStep (columns : Nat) where
  fresh : Bytes
  chunks : List Arrival
  call : ClientCall columns

def ClientStep.step (t : TableId) (st : ClientStep columns) : Step where
  fresh := st.fresh
  chunks := st.chunks
  call := match st.call with
    | .table call => .send (call.command t)
    | .poll timeout => .pollEvents timeout

/-- What a client's calls on the table return. -/
def results (t : TableId) : List (ClientStep columns) → Conn → List (Except PyError Value)
  | [], _ => []
  | st :: steps, c =>
    match st.call with
    | .table call =>
      let (result, c) := call.run t (c.deliver st.chunks)
      result :: results t steps c
    | .poll timeout => results t steps (pollEvents timeout (c.deliver st.chunks)).2

def tableCalls (steps : List (ClientStep columns)) : List (TableCall columns) :=
  steps.filterMap fun st =>
    match st.call with
    | .table call => some call
    | .poll _ => none

theorem results_eq (t : TableId) (steps : List (ClientStep columns)) (c : Conn) :
    results t steps c = List.zipWith (fun call r => r >>= TableCall.decode call)
      (tableCalls steps) (responses (Py.run (steps.map (ClientStep.step t)) c).1) := by
  induction steps generalizing c with
  | nil => rfl
  | cons st steps ih =>
    obtain ⟨fresh, chunks, call | timeout⟩ := st
    · rw [results]
      dsimp only
      rw [TableCall.run, ih]
      rfl
    · rw [results]
      dsimp only
      rw [ih]
      rfl

/-! ### The server -/

section Server

variable (t : TableId)

/-- A server that does what the protocol says with these lines, on one table of STRING
columns. -/
structure TableServer (σ : Type) (columns : Nat) where
  answer : Text → σ → ReplyText × σ
  rows : σ → List (Row columns)
  columns_pos : 0 < columns
  insert : ∀ csv (row : Row columns) s, splitWireRow csv = row.1 →
    (answer (insertLine t csv) s).1.1 = "+OK ".toList ++ intText (rows s).length ∧
      rows (answer (insertLine t csv) s).2 = rows s ++ [row]
  get_found : ∀ rowId row s, rowAt? (rows s) rowId = some row →
    (answer (getLine t rowId) s).1.1 = "+OK ".toList ++ renderRow row.1
  get_missing : ∀ rowId s, rowAt? (rows s) rowId = none →
    (answer (getLine t rowId) s).1.1 = "-ERR not found".toList
  get_rows : ∀ rowId s, rows (answer (getLine t rowId) s).2 = rows s
  delete_found : ∀ rowId row s, rowAt? (rows s) rowId = some row →
    (answer (deleteLine t rowId) s).1.1 = "+OK 1".toList ∧
      rows (answer (deleteLine t rowId) s).2 = swapRemove (rows s) rowId.toNat
  delete_missing : ∀ rowId s, rowAt? (rows s) rowId = none →
    (answer (deleteLine t rowId) s).1.1 = "+OK 0".toList ∧
      rows (answer (deleteLine t rowId) s).2 = rows s
  count : ∀ s, (answer (countLine t) s).1.1 = "+OK ".toList ++ intText (rows s).length ∧
    rows (answer (countLine t) s).2 = rows s

end Server

variable {σ : Type} {t : TableId}

theorem unwrap_body (body : Text) : unwrap ("+OK ".toList ++ body) = .ok body := by
  have hok : "+OK".toList <+: "+OK ".toList ++ body := ⟨' ' :: body, rfl⟩
  have hlong : ("+OK ".toList ++ body).length > 3 := by
    rw [List.length_append]
    exact Nat.lt_add_right _ (by decide)
  rw [unwrap, if_pos hok, if_pos hlong]
  rfl

theorem intOf_intText (n : Int) : intOf (intText n) = .ok n := by
  rw [intOf, intIn?_intText (fitsIn_none n)]

/-- One call, from the arguments of the method to what it returns. -/
theorem TableServer.refines (server : TableServer t σ columns) :
    Refines (fun call s => server.answer (TableCall.command t call) s) TableCall.spec
      (fun call (reply : ReplyText) => unwrap reply.1 >>= TableCall.decode call) server.rows := by
  have hinsert (values : Row columns) (s : σ) :=
    server.insert (joinValues values.1) values s
      (splitWireRow_encodeValue (Row.ne_nil values server.columns_pos))
  constructor
  · intro call s
    cases call with
    | insert values =>
      have hreply := (hinsert values s).1
      dsimp only [TableCall.command]
      rw [hreply, unwrap_body]
      dsimp only [TableCall.decode, TableCall.spec, bind, Except.bind]
      rw [intOf_intText]
      rfl
    | get rowId =>
      dsimp only [TableCall.command, TableCall.spec]
      cases hrow : rowAt? (server.rows s) rowId with
      | some row =>
        have hreply := server.get_found rowId row s hrow
        have hback : splitWireRow (renderRow row.1) = row.1 :=
          splitWireRow_renderRow (Row.ne_nil row server.columns_pos)
        rw [hreply, unwrap_body]
        dsimp only [TableCall.decode, bind, Except.bind]
        rw [hback]
      | none =>
        have hreply := server.get_missing rowId s hrow
        rw [hreply]
        rfl
    | delete rowId =>
      dsimp only [TableCall.command, TableCall.spec]
      cases hrow : rowAt? (server.rows s) rowId with
      | some row =>
        have hreply := (server.delete_found rowId row s hrow).1
        rw [hreply]
        rfl
      | none =>
        have hreply := (server.delete_missing rowId s hrow).1
        rw [hreply]
        rfl
    | count =>
      have hreply := (server.count s).1
      dsimp only [TableCall.command]
      rw [hreply, unwrap_body]
      dsimp only [TableCall.decode, TableCall.spec, bind, Except.bind]
      rw [intOf_intText]
      rfl
  · intro call s
    cases call with
    | insert values => exact (hinsert values s).2
    | get rowId =>
      rw [TableCall.spec]
      cases rowAt? (server.rows s) rowId <;> exact server.get_rows rowId s
    | delete rowId =>
      rw [TableCall.spec]
      cases hrow : rowAt? (server.rows s) rowId with
      | some row => exact (server.delete_found rowId row s hrow).2
      | none => exact (server.delete_missing rowId s hrow).2
    | count => exact (server.count s).2

/-! ### The clients -/

theorem answers_step (t : TableId) (steps : List (ClientStep columns)) :
    answers (steps.map (ClientStep.step t)) =
      (tableCalls steps).map fun _ reply => unwrap reply.1 := by
  induction steps with
  | nil => rfl
  | cons st steps ih =>
    obtain ⟨fresh, chunks, call | timeout⟩ := st
    · exact congrArg (_ :: ·) ih
    · exact ih

theorem lf_not_mem_row (row : List Text) : '\n' ∉ joinValues row :=
  lit_not_mem_encodedRow (a := '\n') (by decide) (by simp [valueEscapes]) row

theorem lf_not_mem_renderRow (row : List Text) : '\n' ∉ renderRow row :=
  lit_not_mem_escapedRow (a := '\n') (by decide) (by decide) (by simp [wireEscapes]) row

theorem command_lawful (t : TableId) (call : TableCall columns) : '\n' ∉ call.command t := by
  cases call with
  | insert values =>
    have hrow := lf_not_mem_row values.1
    simpa [TableCall.command, insertLine] using hrow
  | get rowId => simp [TableCall.command, getLine]
  | delete rowId => simp [TableCall.command, deleteLine]
  | count => simp [TableCall.command, countLine]

theorem step_lawful {steps : List (ClientStep columns)}
    (hpolls : ∀ st ∈ steps, ∀ timeout, st.call = .poll timeout → 0 < timeout) (t : TableId) :
    ∀ st ∈ steps.map (ClientStep.step t), st.call.Lawful := by
  intro st hst
  obtain ⟨⟨fresh, chunks, call | timeout⟩, hmem, rfl⟩ := List.mem_map.mp hst
  · exact command_lawful t call
  · exact hpolls _ hmem timeout rfl

theorem zipWith_unwrap {calls : List (TableCall columns)} (later : List (TableCall columns))
    {replies : List ReplyText} :
    List.zipWith (fun call r => r >>= TableCall.decode call) calls
        (List.zipWith (fun f t => f t) (calls.map fun _ (reply : ReplyText) => unwrap reply.1)
          replies) =
      (List.zipWith (fun call (reply : ReplyText) => unwrap reply.1 >>= TableCall.decode call)
        (calls ++ later) replies).take calls.length := by
  induction calls generalizing replies with
  | nil => rfl
  | cons call calls ih =>
    cases replies with
    | nil => rfl
    | cons reply replies =>
      rw [List.map_cons, List.zipWith_cons_cons, List.zipWith_cons_cons, ih, List.cons_append,
        List.zipWith_cons_cons, List.length_cons, List.take_succ_cons]

/-- **Every client sees one table.** Any number of clients call a table, each on its own
connection; `served` are the calls in the order in which the server has carried them out.
Up to where each client is, its calls return what a table gives that carries out `served`
one at a time, and that table has the rows of the server. -/
theorem clients_share_table {ι : Type} [DecidableEq ι] (server : TableServer t σ columns) (s : σ)
    (served : List (ι × TableCall columns)) (timeout : ι → Rat)
    (steps : ι → List (ClientStep columns)) (lines : ι → List ServerLine) (future : ι → Bytes)
    (hserved : ∀ i, tableCalls (steps i) <+: portion i served)
    (hserver : ∀ i, repliesOf (lines i) =
      portion i (serve (fun call s => server.answer (TableCall.command t call) s) served s).1)
    (hnetwork : ∀ i, Network (lines i) [] ((steps i).map (ClientStep.step t))
      (Conn.opened (timeout i)))
    (hfuture : ∀ i, arrived ((steps i).map (ClientStep.step t)) ++ future i = render (lines i))
    (hpolls : ∀ i, ∀ st ∈ steps i, ∀ wait, st.call = .poll wait → 0 < wait)
    (htime : ∀ i, ∀ o ∈ (Py.run ((steps i).map (ClientStep.step t)) (Conn.opened (timeout i))).1,
      ¬ o.TimedOut) :
    (∀ i, results t (steps i) (Conn.opened (timeout i)) =
      (portion i (serve TableCall.spec served (server.rows s)).1).take
        (tableCalls (steps i)).length) ∧
    server.rows (serve (fun call s => server.answer (TableCall.command t call) s) served s).2 =
      (serve TableCall.spec served (server.rows s)).2 := by
  refine ⟨fun i => ?_, server.refines.serve_state served s⟩
  obtain ⟨rest, -, hresponses, -⟩ := (Conserved.opened (timeout i) (lines i)).run (hnetwork i)
    (step_lawful (hpolls i) t) (htime i) (hfuture i)
  obtain ⟨later, hlater⟩ := hserved i
  rw [results_eq, hresponses, answers_step, zipWith_unwrap later, hlater, hserver i,
    server.refines.serve_portion]

/-! ### A server of this kind -/

def okReply (body : Text) (h : '\n' ∉ body) : ReplyText :=
  ⟨"+OK ".toList ++ body, by simpa using h, by
    rintro ⟨rest, hrest⟩
    cases hrest⟩

/-- It tells the lines apart by their first letter. -/
def answerLine (t : TableId) (columns : Nat) (line : Text) (rows : List (Row columns)) :
    ReplyText × List (Row columns) :=
  let size := okReply (intText rows.length) (lf_not_mem_intText _)
  match line.head? with
  | some 'I' =>
    let row := splitWireRow (line.drop (insertLine t []).length)
    if h : row.length = columns then (size, rows ++ [⟨row, h⟩])
    else (⟨"-ERR bad row".toList, by decide⟩, rows)
  | some 'G' =>
    let rowId := line.drop (words ["GET".toList, intText t.hid, intText t.tid, []]).length
    match (intOfText? rowId).bind (rowAt? rows) with
    | some row => (okReply (renderRow row.1) (lf_not_mem_renderRow _), rows)
    | none => (⟨"-ERR not found".toList, by decide⟩, rows)
  | some 'D' =>
    let rowId := line.drop (words ["DELETE".toList, intText t.hid, intText t.tid, []]).length
    match intOfText? rowId with
    | some rowId =>
      match rowAt? rows rowId with
      | some _ => (⟨"+OK 1".toList, by decide⟩, swapRemove rows rowId.toNat)
      | none => (⟨"+OK 0".toList, by decide⟩, rows)
    | none => (⟨"-ERR bad".toList, by decide⟩, rows)
  | _ => (size, rows)

theorem drop_words (verb : Text) (t : TableId) (arg : Text) :
    (words [verb, intText t.hid, intText t.tid, arg]).drop
      (words [verb, intText t.hid, intText t.tid, []]).length = arg := by
  have hsplit : words [verb, intText t.hid, intText t.tid, arg] =
      words [verb, intText t.hid, intText t.tid, []] ++ arg := by
    simp [words, List.intercalate_cons_cons]
  rw [hsplit, List.drop_left]

theorem answerLine_insert (t : TableId) {csv : Text} {row : Row columns}
    (hrow : splitWireRow csv = row.1) (rows : List (Row columns)) :
    answerLine t columns (insertLine t csv) rows =
      (okReply (intText rows.length) (lf_not_mem_intText _), rows ++ [row]) := by
  have hdrop : (insertLine t csv).drop (insertLine t []).length = csv := drop_words _ t csv
  have hlength : (splitWireRow ((insertLine t csv).drop (insertLine t []).length)).length =
      columns := by rw [hdrop, hrow, row.2]
  have hhead : (insertLine t csv).head? = some 'I' := rfl
  have hstored : (⟨_, hlength⟩ : Row columns) = row :=
    Subtype.ext ((congrArg splitWireRow hdrop).trans hrow)
  rw [answerLine, hhead]
  dsimp only
  rw [dif_pos hlength, hstored]
  rfl

theorem answerLine_get (t : TableId) (rowId : Int) (rows : List (Row columns)) :
    answerLine t columns (getLine t rowId) rows =
      match rowAt? rows rowId with
      | some row => (okReply (renderRow row.1) (lf_not_mem_renderRow _), rows)
      | none => (⟨"-ERR not found".toList, by decide⟩, rows) := by
  have hhead : (getLine t rowId).head? = some 'G' := rfl
  have hdrop : (getLine t rowId).drop
      (words ["GET".toList, intText t.hid, intText t.tid, []]).length = intText rowId :=
    drop_words _ t _
  rw [answerLine, hhead]
  dsimp only
  rw [hdrop, intOfText?_intText, Option.bind_some]
  cases rowAt? rows rowId <;> rfl

theorem answerLine_delete (t : TableId) (rowId : Int) (rows : List (Row columns)) :
    answerLine t columns (deleteLine t rowId) rows =
      match rowAt? rows rowId with
      | some _ => (⟨"+OK 1".toList, by decide⟩, swapRemove rows rowId.toNat)
      | none => (⟨"+OK 0".toList, by decide⟩, rows) := by
  have hhead : (deleteLine t rowId).head? = some 'D' := rfl
  have hdrop : (deleteLine t rowId).drop
      (words ["DELETE".toList, intText t.hid, intText t.tid, []]).length = intText rowId :=
    drop_words _ t _
  rw [answerLine, hhead]
  dsimp only
  rw [hdrop, intOfText?_intText]
  cases hrow : rowAt? rows rowId <;> simp [hrow]

def smallServer (t : TableId) {columns : Nat} (h : 0 < columns) :
    TableServer t (List (Row columns)) columns where
  answer := answerLine t columns
  rows rows := rows
  columns_pos := h
  insert csv row rows hrow := by
    rw [answerLine_insert t hrow]
    exact ⟨rfl, rfl⟩
  get_found rowId row rows hrow := by
    rw [answerLine_get, hrow]
    rfl
  get_missing rowId rows hrow := by rw [answerLine_get, hrow]
  get_rows rowId rows := by
    rw [answerLine_get]
    cases rowAt? rows rowId <;> rfl
  delete_found rowId row rows hrow := by
    rw [answerLine_delete, hrow]
    exact ⟨rfl, rfl⟩
  delete_missing rowId rows hrow := by
    rw [answerLine_delete, hrow]
    exact ⟨rfl, rfl⟩
  count rows := ⟨rfl, rfl⟩

/-- Two clients: one inserts a row and reads it back, the other counts in between. -/
def twoServed : List (Bool × TableCall 2) :=
  [(true, .insert ⟨["a;b".toList, "c\n".toList], rfl⟩), (false, .count), (true, .get 0)]

def rowReply : Bytes := Utf8.encode "+OK a\\;b,c\\n\r\n".toList

def twoSteps : Bool → List (ClientStep 2)
  | true =>
    [⟨Utf8.encode "+OK 0\r\n".toList, [.data ⟨Utf8.encode "+OK 0\r\n".toList, by decide⟩],
        .table (.insert ⟨["a;b".toList, "c\n".toList], rfl⟩)⟩,
      ⟨rowReply, [.data ⟨rowReply.take 6, by decide⟩, .data ⟨rowReply.drop 6, by decide⟩],
        .table (.get 0)⟩]
  | false =>
    [⟨Utf8.encode "+OK 1\r\n".toList, [.data ⟨Utf8.encode "+OK 1\r\n".toList, by decide⟩],
      .table .count⟩]

def twoLines : Bool → List ServerLine
  | true => [.reply ⟨"+OK 0".toList, by decide⟩, .reply ⟨"+OK a\\;b,c\\n".toList, by decide⟩]
  | false => [.reply ⟨"+OK 1".toList, by decide⟩]

theorem clients_share_table_two :
    results ⟨0, 0⟩ (twoSteps true) (Conn.opened 30) =
        [.ok (.int 0), .ok (.row ["a;b".toList, "c\n".toList])] ∧
      results ⟨0, 0⟩ (twoSteps false) (Conn.opened 30) = [.ok (.int 1)] := by
  have hshare := clients_share_table (ι := Bool) (smallServer ⟨0, 0⟩ (by decide : 0 < 2)) []
    twoServed (fun _ => 30) twoSteps twoLines (fun _ => [])
    (by intro i; cases i <;> exact ⟨[], rfl⟩)
    (by intro i; cases i <;> decide +kernel)
    (by
      intro i
      cases i
      · exact ⟨⟨by decide +kernel, by decide⟩, ⟨1, by decide +kernel, by decide +kernel⟩, trivial⟩
      · exact ⟨⟨by decide +kernel, by decide⟩, ⟨1, by decide +kernel, by decide +kernel⟩,
          ⟨by decide +kernel, by decide⟩, ⟨2, by decide +kernel, by decide +kernel⟩, trivial⟩)
    (by intro i; cases i <;> decide +kernel)
    (by
      intro i st hst wait hwait
      cases i <;> simp [twoSteps] at hst
      · rw [hst] at hwait
        cases hwait
      · rcases hst with rfl | rfl <;> cases hwait)
    (by
      intro i
      have houtcomes : (Py.run ((twoSteps i).map (ClientStep.step ⟨0, 0⟩)) (Conn.opened 30)).1 =
          if i then [.response (.ok "0".toList), .response (.ok "a\\;b,c\\n".toList)]
          else [.response (.ok "1".toList)] := by
        cases i <;> decide +kernel
      rw [houtcomes]
      cases i <;> simp [Outcome.TimedOut])
  exact ⟨(hshare.1 true).trans (by decide +kernel), (hshare.1 false).trans (by decide +kernel)⟩

end CuttleDB.SharedTable
