import CuttleDB.Lib.FailFast
import CuttleDB.SharedTable

/-!
# A batch of inserts and inserts one by one

`insert_batch` writes the lines of all its rows at once and then reads the replies; a loop
over `insert` reads each reply before it writes the next line. Both return the same, an
error included. What differs is what they leave: the server has carried out the whole
batch, but only the rows of the loop up to the first that it refused, and the batch leaves
the later replies on the connection.
-/

namespace CuttleDB.Py

open Framing FailFast SharedTable

/-! ### The methods -/

/-- A row on the wire -/
def rowText (values : List (Cell Char)) : Text := [','].intercalate (values.map encodeValue)

def rowLine (t : TableId) (values : List (Cell Char)) : Text := insertLine t (rowText values)

/-- `insert` -/
def insert (t : TableId) (values : List (Cell Char)) (c : Conn) : Except PyError Int × Conn :=
  match send (rowLine t values) c with
  | (.error e, c) => (.error e, c)
  | (.ok body, c) => (intOf body, c)

/-- `insert_batch` -/
def insertBatch (t : TableId) (rows : List (List (Cell Char))) (c : Conn) :
    Except PyError (List Int) × Conn :=
  match sendBatch (rows.map (rowLine t)) c with
  | (.error e, c) => (.error e, c)
  | (.ok bodies, c) => (bodies.mapM intOf, c)

/-- `[db.insert(hid, tid, values) for values in rows]` -/
def insertEach (t : TableId) : List (List (Cell Char)) → Conn → Except PyError (List Int) × Conn
  | [], c => (.ok [], c)
  | values :: rows, c =>
    match insert t values c with
    | (.error e, c) => (.error e, c)
    | (.ok rowId, c) =>
      match insertEach t rows c with
      | (.error e, c) => (.error e, c)
      | (.ok rowIds, c) => (.ok (rowId :: rowIds), c)

/-! ### The server -/

/-- A server that answers `INSERT` lines as the protocol says. It may refuse any row; a row
that it accepts is appended, and the reply is its id. -/
structure InsertServer (σ : Type) (t : TableId) where
  answer : Text → σ → ReplyText × σ
  rows : σ → List (List Text)
  accepts : ∀ csv s, IsOk (answer (insertLine t csv) s).1 →
    (answer (insertLine t csv) s).1.1 = "+OK ".toList ++ intText (rows s).length ∧
      rows (answer (insertLine t csv) s).2 = rows s ++ [splitWireRow csv]
  refuses : ∀ csv s, ¬ IsOk (answer (insertLine t csv) s).1 →
    rows (answer (insertLine t csv) s).2 = rows s

variable {σ : Type} {t : TableId}

def InsertServer.perform (server : InsertServer σ t) (values : List (Cell Char)) (s : σ) :
    ReplyText × σ := server.answer (rowLine t values) s

/-- The replies to the rows, as if they were all inserted. -/
def InsertServer.replies (server : InsertServer σ t) (rows : List (List (Cell Char))) (s : σ) :
    List ReplyText := (performAll server.perform rows s).1

/-- The table after the inserts. -/
def InsertServer.stored (server : InsertServer σ t) (rows : List (List (Cell Char))) (s : σ) :
    List (List Text) := server.rows (performAll server.perform rows s).2

/-- From `c` to `c'` the client has sent lines for `rows`, and all that it has sent is
answered; the data arrives without a pause, in whatever chunks and with whatever events. -/
structure InsertsAnswered (server : InsertServer σ t) (s : σ) (rows : List (List (Cell Char)))
    (answers : Answers) (rest : Bytes) (c c' : Conn) : Prop where
  flowing : c.Flowing
  stream : c.stream = renderAnswers answers ++ rest
  sent : c'.sent.count LF = c.sent.count LF + answers.length
  replies : answers.map Prod.snd = server.replies (rows.take answers.length) s

/-! ### Replies -/

/-- What `insert` makes of a reply. -/
def rowIdOf (reply : ReplyText) : Except PyError Int := unwrap reply.1 >>= intOf

theorem rowIdOf_of_not_isOk {reply : ReplyText} (h : ¬ IsOk reply) :
    ∃ e, rowIdOf reply = .error e := by
  obtain ⟨e, he⟩ := unwrap_of_not_isOk h
  exact ⟨e, by rw [rowIdOf, he]; rfl⟩

theorem InsertServer.rowIdOf_perform (server : InsertServer σ t) (values : List (Cell Char))
    (s : σ) (h : IsOk (server.perform values s).1) :
    rowIdOf (server.perform values s).1 = .ok (server.rows s).length := by
  have hreply : (server.perform values s).1.1 =
      "+OK ".toList ++ intText (server.rows s).length := (server.accepts _ s h).1
  rw [rowIdOf, hreply, unwrap_body]
  exact intOf_intText _

theorem InsertServer.decodes (server : InsertServer σ t) (rows : List (List (Cell Char)))
    (s : σ) : ∀ reply ∈ server.replies rows s, IsOk reply → ∃ rowId, rowIdOf reply = .ok rowId := by
  induction rows generalizing s with
  | nil => simp [InsertServer.replies, performAll]
  | cons values rows ih =>
    intro reply hmem hok
    rw [InsertServer.replies, performAll_cons] at hmem
    rcases List.mem_cons.mp hmem with rfl | hmem
    · exact ⟨_, server.rowIdOf_perform values s hok⟩
    · exact ih (server.perform values s).2 reply hmem hok

/-- Rows that are all accepted get the ids behind those of the table. -/
theorem InsertServer.rowIds (server : InsertServer σ t) (rows : List (List (Cell Char))) (s : σ)
    (h : ∀ reply ∈ server.replies rows s, IsOk reply) :
    (server.replies rows s).mapM rowIdOf =
      .ok ((List.range' (server.rows s).length rows.length).map Int.ofNat) := by
  induction rows generalizing s with
  | nil => rfl
  | cons values rows ih =>
    rw [InsertServer.replies, performAll_cons] at h ⊢
    have hok := h _ List.mem_cons_self
    have hrows : server.rows (server.perform values s).2 =
        server.rows s ++ [splitWireRow (rowText values)] := (server.accepts _ s hok).2
    have hrest : (performAll server.perform rows (server.perform values s).2).1.mapM rowIdOf =
        .ok ((List.range' (server.rows s ++ [splitWireRow (rowText values)]).length
          rows.length).map Int.ofNat) := by
      rw [← hrows]
      exact ih _ fun reply hmem => h reply (List.mem_cons_of_mem _ hmem)
    rw [List.mapM_cons, server.rowIdOf_perform values s hok, hrest, List.length_append,
      List.length_singleton, List.length_cons, List.range'_succ]
    rfl

/-- `int` of every body after the last reply, or of each as it comes. -/
theorem mapM_rowIdOf {replies : List ReplyText}
    (h : ∀ reply ∈ replies, IsOk reply → ∃ rowId, rowIdOf reply = .ok rowId) :
    (replies.mapM fun reply => unwrap reply.1) >>= List.mapM intOf = replies.mapM rowIdOf := by
  induction replies with
  | nil => rfl
  | cons reply replies ih =>
    have ih := ih fun r hr => h r (List.mem_cons_of_mem _ hr)
    rw [List.mapM_cons, List.mapM_cons, ← ih]
    by_cases hok : IsOk reply
    · obtain ⟨body, hbody⟩ := unwrap_of_isOk hok
      obtain ⟨rowId, hrowId⟩ := h reply List.mem_cons_self hok
      have hint : intOf body = .ok rowId := by
        rw [rowIdOf, hbody] at hrowId
        exact hrowId
      rw [hrowId, hbody]
      cases hrest : replies.mapM fun r => unwrap r.1 with
      | error e => rfl
      | ok bodies =>
        dsimp only [bind, Except.bind, pure, Except.pure]
        rw [List.mapM_cons, hint]
        rfl
    · obtain ⟨e, he⟩ := unwrap_of_not_isOk hok
      rw [rowIdOf, he]
      rfl

/-- The first refusal is what is raised. -/
theorem mapM_rowIdOf_refused {accepted : List ReplyText}
    (haccepted : ∀ reply ∈ accepted, ∃ rowId, rowIdOf reply = .ok rowId) {refusal : ReplyText}
    {e : PyError} (hrefusal : unwrap refusal.1 = .error e) (behind : List ReplyText) :
    (accepted ++ refusal :: behind).mapM rowIdOf = .error e := by
  induction accepted with
  | nil =>
    rw [List.nil_append, List.mapM_cons, rowIdOf, hrefusal]
    rfl
  | cons reply accepted ih =>
    obtain ⟨⟨rowId, hrowId⟩, hrest⟩ := List.forall_mem_cons.mp haccepted
    rw [List.cons_append, List.mapM_cons, hrowId, ih hrest]
    rfl

/-! ### The batch -/

theorem renderAnswers_cons (a : List WireEvent × ReplyText) (as : Answers) (rest : Bytes) :
    renderAnswers (a :: as) ++ rest =
      render (a.1.map .evt) ++ ((ServerLine.reply a.2).bytes ++ (renderAnswers as ++ rest)) := by
  simp [renderAnswers]

theorem unwrapResponses_answered {commands : List Text} {rest : Bytes} :
    ∀ {answers : Answers} {c : Conn}, c.Flowing → answers.length = commands.length →
      c.stream = renderAnswers answers ++ rest →
      (unwrapResponses commands c).1 = (answers.map Prod.snd).mapM (fun reply => unwrap reply.1) ∧
      (unwrapResponses commands c).2.Flowing ∧
      (unwrapResponses commands c).2.stream = renderAnswers
        (answers.drop (untilFailure IsOk (answers.map Prod.snd)).length) ++ rest := by
  induction commands with
  | nil =>
    intro answers c hflow hlen hstream
    obtain rfl := List.length_eq_zero_iff.mp hlen
    exact ⟨rfl, hflow, hstream⟩
  | cons command commands ih =>
    intro answers c hflow hlen hstream
    obtain ⟨⟨es, reply⟩, as, rfl⟩ := List.exists_cons_of_length_eq_add_one hlen
    rw [renderAnswers_cons] at hstream
    obtain ⟨c', hread, hflow', hstream', -⟩ := readResponse_flowing hflow hstream
    rw [unwrapResponses, hread, List.map_cons, List.mapM_cons]
    dsimp only
    by_cases hok : IsOk reply
    · obtain ⟨value, hvalue⟩ := unwrap_of_isOk hok
      obtain ⟨hresult, hflow'', hleft⟩ := ih hflow' (Nat.succ.inj hlen) hstream'
      rw [hvalue, ← hresult, untilFailure_of_ok hok, List.length_cons, List.drop_succ_cons]
      rcases hrest : unwrapResponses commands c' with ⟨e | values, c''⟩ <;>
        rw [hrest] at hflow'' hleft <;> exact ⟨rfl, hflow'', hleft⟩
    · obtain ⟨e, he⟩ := unwrap_of_not_isOk hok
      rw [he, untilFailure_of_not_ok hok]
      exact ⟨rfl, hflow', hstream'⟩

theorem sendBatch_answered {c : Conn} {commands : List Text} {answers : Answers} {rest : Bytes}
    (hflow : c.Flowing) (hlf : ∀ command ∈ commands, '\n' ∉ command)
    (hsent : (sendBatch commands c).2.sent.count LF = c.sent.count LF + answers.length)
    (hstream : c.stream = renderAnswers answers ++ rest) :
    answers.length = commands.length ∧
      (sendBatch commands c).1 = (answers.map Prod.snd).mapM (fun reply => unwrap reply.1) ∧
      (sendBatch commands c).2.Flowing ∧
      (sendBatch commands c).2.stream = renderAnswers
        (answers.drop (untilFailure IsOk (answers.map Prod.snd)).length) ++ rest := by
  rw [sendBatch] at hsent ⊢
  by_cases hnil : commands = []
  · rw [if_pos hnil] at hsent ⊢
    dsimp only at hsent
    obtain rfl : answers = [] := List.length_eq_zero_iff.mp (by omega)
    exact ⟨by rw [hnil]; rfl, rfl, hflow, hstream⟩
  · rw [if_neg hnil] at hsent ⊢
    obtain ⟨c₁, hwrite, hopen, hlines, hstream₁, hfaults, -⟩ :=
      write_open hflow.open_ (Utf8.encode (['\n'].intercalate commands ++ ['\n']))
    rw [hwrite] at hsent ⊢
    dsimp only at hsent ⊢
    obtain ⟨d, hreads⟩ := unwrapResponses_reads commands c₁
    have hlen : answers.length = commands.length := by
      rw [hreads.conn_sent, hlines, List.count_append, count_lf_batch hnil hlf] at hsent
      omega
    exact ⟨hlen, unwrapResponses_answered ⟨hopen, hfaults.trans hflow.faults⟩ hlen
      (hstream₁.trans hstream)⟩

theorem insertBatch_answered {server : InsertServer σ t} {s : σ} {rows : List (List (Cell Char))}
    (hlf : ∀ values ∈ rows, '\n' ∉ rowLine t values) {c : Conn} {answers : Answers} {rest : Bytes}
    (h : InsertsAnswered server s rows answers rest c (insertBatch t rows c).2) :
    answers.map Prod.snd = server.replies rows s ∧
      (insertBatch t rows c).1 = (server.replies rows s).mapM rowIdOf ∧
      (insertBatch t rows c).2.Flowing ∧
      (insertBatch t rows c).2.stream = renderAnswers
        (answers.drop (untilFailure IsOk (server.replies rows s)).length) ++ rest := by
  have hsame : (insertBatch t rows c).2 = (sendBatch (rows.map (rowLine t)) c).2 := by
    rw [insertBatch]
    rcases sendBatch (rows.map (rowLine t)) c with ⟨e | bodies, c'⟩ <;> rfl
  have hlines : ∀ line ∈ rows.map (rowLine t), '\n' ∉ line := by
    intro line hline
    obtain ⟨values, hvalues, rfl⟩ := List.mem_map.mp hline
    exact hlf values hvalues
  obtain ⟨hlen, hresult, hflow, hstream⟩ :=
    sendBatch_answered h.flowing hlines (hsame ▸ h.sent) h.stream
  rw [List.length_map] at hlen
  have hreplies : answers.map Prod.snd = server.replies rows s := by
    rw [h.replies, hlen, List.take_length]
  rw [hreplies] at hresult hstream
  refine ⟨hreplies, ?_, hsame ▸ hflow, hsame ▸ hstream⟩
  rw [← mapM_rowIdOf (server.decodes rows s), ← hresult, insertBatch]
  rcases sendBatch (rows.map (rowLine t)) c with ⟨e | bodies, c'⟩ <;> rfl

/-! ### One by one -/

theorem insert_sent {c : Conn} (hopen : c.sock ≠ none) {values : List (Cell Char)}
    (hlf : '\n' ∉ rowLine t values) :
    (insert t values c).2.sent.count LF = c.sent.count LF + 1 := by
  have hsame : (insert t values c).2 = (send (rowLine t values) c).2 := by
    rw [insert]
    rcases send (rowLine t values) c with ⟨e | body, c'⟩ <;> rfl
  have hline : (Utf8.encode (rowLine t values ++ ['\n'])).count LF = 1 := by
    have hone : (Utf8.encode (['\n'].intercalate [rowLine t values] ++ ['\n'])).count LF = 1 :=
      count_lf_batch (List.cons_ne_nil _ _) (by simpa using hlf)
    simpa using hone
  rw [hsame, send_sent hopen, List.count_append, hline]

theorem insert_flowing {c : Conn} {es : List WireEvent} {reply : ReplyText} {tail : Bytes}
    (values : List (Cell Char)) (hflow : c.Flowing)
    (h : c.stream = render (es.map .evt) ++ ((ServerLine.reply reply).bytes ++ tail)) :
    ∃ c', insert t values c = (rowIdOf reply, c') ∧ c'.Flowing ∧ c'.stream = tail := by
  obtain ⟨c₁, hwrite, hopen, -, hstream, hfaults, -⟩ :=
    write_open hflow.open_ (Utf8.encode (rowLine t values ++ ['\n']))
  obtain ⟨c', hread, hflow', htail, -⟩ :=
    readResponse_flowing (c := c₁) ⟨hopen, hfaults.trans hflow.faults⟩ (hstream.trans h)
  refine ⟨c', ?_, hflow', htail⟩
  rw [insert, send, hwrite]
  dsimp only
  rw [hread, rowIdOf]
  dsimp only
  cases unwrap reply.1 <;> rfl

theorem insert_open {c : Conn} (hopen : c.sock ≠ none) (values : List (Cell Char)) :
    (insert t values c).2.sock ≠ none := by
  obtain ⟨c₁, hwrite, hopen₁, -⟩ := write_open hopen (Utf8.encode (rowLine t values ++ ['\n']))
  obtain ⟨d, hreads⟩ := readResponse_reads c₁
  have hsock : (readResponse c₁).2.sock ≠ none := by
    intro hnone
    have hmap := hreads.sockTimeout
    rw [hnone] at hmap
    exact hopen₁ (Option.map_eq_none_iff.mp hmap.symm)
  rw [insert, send, hwrite]
  dsimp only
  rcases hread : readResponse c₁ with ⟨e | line, c'⟩ <;> rw [hread] at hsock
  · exact hsock
  · dsimp only
    rcases unwrap line with e | body <;> exact hsock

theorem insertEach_of_ok {values : List (Cell Char)} {c c' : Conn} {rowId : Int}
    (h : insert t values c = (.ok rowId, c')) (rows : List (List (Cell Char))) :
    insertEach t (values :: rows) c =
      ((insertEach t rows c').1.map (rowId :: ·), (insertEach t rows c').2) := by
  rw [insertEach, h]
  dsimp only
  rcases insertEach t rows c' with ⟨e | rowIds, c''⟩ <;> rfl

theorem insertEach_of_error {values : List (Cell Char)} {c c' : Conn} {e : PyError}
    (h : insert t values c = (.error e, c')) (rows : List (List (Cell Char))) :
    insertEach t (values :: rows) c = (.error e, c') := by
  rw [insertEach, h]

theorem insertEach_sent (rows : List (List (Cell Char)))
    (hlf : ∀ values ∈ rows, '\n' ∉ rowLine t values) :
    ∀ {c : Conn}, c.sock ≠ none → c.sent.count LF ≤ (insertEach t rows c).2.sent.count LF := by
  induction rows with
  | nil => exact fun _ => le_rfl
  | cons values rows ih =>
    intro c hopen
    have hsent := insert_sent hopen (hlf values List.mem_cons_self)
    have hopen' := insert_open (t := t) hopen values
    rcases hfirst : insert t values c with ⟨e | rowId, c'⟩ <;> rw [hfirst] at hsent hopen'
    · rw [insertEach_of_error hfirst, hsent]
      exact Nat.le_succ _
    · have hrest := ih (fun v hv => hlf v (List.mem_cons_of_mem _ hv)) hopen'
      rw [hsent] at hrest
      rw [insertEach_of_ok hfirst]
      exact le_trans (Nat.le_succ _) hrest

/-- A loop with a row left sends a line at least. -/
theorem insertEach_sends {values : List (Cell Char)} {rows : List (List (Cell Char))}
    (hlf : ∀ v ∈ values :: rows, '\n' ∉ rowLine t v) {c : Conn} (hopen : c.sock ≠ none) :
    c.sent.count LF < (insertEach t (values :: rows) c).2.sent.count LF := by
  have hsent := insert_sent hopen (hlf values List.mem_cons_self)
  have hopen' := insert_open (t := t) hopen values
  rcases hfirst : insert t values c with ⟨e | rowId, c'⟩ <;> rw [hfirst] at hsent hopen'
  · rw [insertEach_of_error hfirst, hsent]
    exact Nat.lt_succ_self _
  · have hrest := insertEach_sent rows (fun v hv => hlf v (List.mem_cons_of_mem _ hv)) hopen'
    rw [hsent] at hrest
    rw [insertEach_of_ok hfirst]
    exact hrest

theorem insertEach_answered {server : InsertServer σ t} {rest : Bytes}
    (rows : List (List (Cell Char))) (hlf : ∀ values ∈ rows, '\n' ∉ rowLine t values) :
    ∀ {s : σ} {c : Conn} {answers : Answers},
      InsertsAnswered server s rows answers rest c (insertEach t rows c).2 →
      answers.map Prod.snd = untilFailure IsOk (server.replies rows s) ∧
      (insertEach t rows c).1 = (server.replies rows s).mapM rowIdOf ∧
      (insertEach t rows c).2.stream = rest := by
  induction rows with
  | nil =>
    intro s c answers h
    have hcount : c.sent.count LF = c.sent.count LF + answers.length := h.sent
    obtain rfl : answers = [] := List.length_eq_zero_iff.mp (by omega)
    exact ⟨rfl, rfl, h.stream⟩
  | cons values rows ih =>
    intro s c answers h
    have hcount := h.sent
    have hsends := insertEach_sends hlf h.flowing.open_
    obtain ⟨⟨es, reply⟩, as, rfl⟩ := List.exists_cons_of_length_pos (l := answers) (by omega)
    have hsent := insert_sent h.flowing.open_ (hlf values List.mem_cons_self)
    have hstream := h.stream
    have hreplies := h.replies
    rw [renderAnswers_cons] at hstream
    rw [List.length_cons, List.take_succ_cons, InsertServer.replies, performAll_cons,
      List.map_cons] at hreplies
    obtain ⟨hreply, hlater⟩ := List.cons_eq_cons.mp hreplies
    obtain rfl : reply = (server.perform values s).1 := hreply
    obtain ⟨c', hfirst, hflow', hstream'⟩ := insert_flowing (t := t) values h.flowing hstream
    rw [hfirst] at hsent
    rw [InsertServer.replies, performAll_cons, List.mapM_cons]
    rw [List.length_cons] at hcount
    by_cases hok : IsOk (server.perform values s).1
    · rw [server.rowIdOf_perform values s hok] at hfirst ⊢
      rw [insertEach_of_ok hfirst] at hcount ⊢
      have hrest : InsertsAnswered server (server.perform values s).2 rows as rest c'
          (insertEach t rows c').2 := ⟨hflow', hstream', by dsimp only at hsent hcount; omega, hlater⟩
      obtain ⟨hanswers, hresult, hleft⟩ :=
        ih (fun v hv => hlf v (List.mem_cons_of_mem _ hv)) hrest
      rw [untilFailure_of_ok hok, List.map_cons, hanswers, hresult]
      refine ⟨rfl, ?_, hleft⟩
      rw [InsertServer.replies]
      cases (performAll server.perform rows (server.perform values s).2).1.mapM rowIdOf <;> rfl
    · obtain ⟨e, he⟩ := rowIdOf_of_not_isOk hok
      rw [he] at hfirst ⊢
      rw [insertEach_of_error hfirst] at hcount ⊢
      rw [untilFailure_of_not_ok hok]
      obtain rfl : as = [] := List.length_eq_zero_iff.mp (by dsimp only at hsent hcount; omega)
      exact ⟨rfl, rfl, hstream'⟩

/-! ### Both -/

theorem InsertServer.stored_eq (server : InsertServer σ t) (rows : List (List (Cell Char)))
    (s : σ) :
    server.stored rows s = server.rows s ++
      ((rows.zip (server.replies rows s)).filter fun p => IsOk p.2).map
        fun p => splitWireRow (rowText p.1) :=
  performAll_adds (fun values => splitWireRow (rowText values))
    (fun _ s hok => (server.accepts _ s hok).2) (fun _ s hno => server.refuses _ s hno) rows s

/-- Behind a refusal the batch leaves a reply, which the next command is given. -/
theorem send_insertBatch {server : InsertServer σ t} {s : σ} {rows : List (List (Cell Char))}
    (hlf : ∀ values ∈ rows, '\n' ∉ rowLine t values) {c : Conn} {answers : Answers} {rest : Bytes}
    (h : InsertsAnswered server s rows answers rest c (insertBatch t rows c).2)
    {accepted behind : List ReplyText} {refusal next : ReplyText}
    (hreplies : server.replies rows s = accepted ++ refusal :: next :: behind)
    (haccepted : ∀ reply ∈ accepted, IsOk reply) (hrefusal : ¬ IsOk refusal) (command : Text) :
    (send command (insertBatch t rows c).2).1 = unwrap next.1 := by
  obtain ⟨hanswers, -, hflow, hstream⟩ := insertBatch_answered hlf h
  rw [hreplies, untilFailure_append haccepted hrefusal] at hstream
  have hleft : (answers.drop (accepted ++ [refusal]).length).map Prod.snd = next :: behind := by
    have hsplit : accepted ++ refusal :: next :: behind =
        (accepted ++ [refusal]) ++ next :: behind := by simp
    rw [List.map_drop, hanswers, hreplies, hsplit, List.drop_left]
  obtain ⟨⟨es, reply⟩, left, hdrop, rfl, -⟩ := List.map_eq_cons_iff.mp hleft
  rw [hdrop, renderAnswers_cons] at hstream
  exact send_flowing command hflow hstream

/-- **A batch of inserts, and the same inserts one by one.** On two connections to servers in
the same state, in whatever pieces the replies come and whatever events are among them, both
return the same: the ids, or the error of the first refusal. The batch stores every row that the
server accepts, the loop those ahead of the first that it refuses; and the batch leaves the
replies behind that one to be read, the first of them by the next command. -/
theorem insertBatch_insertEach (server : InsertServer σ t) (s : σ)
    {rows : List (List (Cell Char))} (hlf : ∀ values ∈ rows, '\n' ∉ rowLine t values)
    {c₁ c₂ : Conn} {answers₁ answers₂ : Answers} {rest₁ rest₂ : Bytes}
    (h₁ : InsertsAnswered server s rows answers₁ rest₁ c₁ (insertBatch t rows c₁).2)
    (h₂ : InsertsAnswered server s rows answers₂ rest₂ c₂ (insertEach t rows c₂).2) :
    (insertBatch t rows c₁).1 = (insertEach t rows c₂).1 ∧
    (insertBatch t rows c₁).1 = (server.replies rows s).mapM rowIdOf ∧
    ((∀ reply ∈ server.replies rows s, IsOk reply) →
      (insertBatch t rows c₁).1 =
        .ok ((List.range' (server.rows s).length rows.length).map Int.ofNat)) ∧
    (∀ accepted refusal behind, server.replies rows s = accepted ++ refusal :: behind →
      (∀ reply ∈ accepted, IsOk reply) → ¬ IsOk refusal →
        (∃ e, unwrap refusal.1 = .error e ∧ (insertBatch t rows c₁).1 = .error e) ∧
        ∀ next ∈ behind.head?, ∀ command,
          (send command (insertBatch t rows c₁).2).1 = unwrap next.1) ∧
    server.stored (rows.take answers₁.length) s = server.rows s ++
      ((rows.zip (server.replies rows s)).filter fun p => IsOk p.2).map
        (fun p => splitWireRow (rowText p.1)) ∧
    server.stored (rows.take answers₂.length) s = server.rows s ++
      ((rows.zip (server.replies rows s)).takeWhile fun p => IsOk p.2).map
        (fun p => splitWireRow (rowText p.1)) ∧
    (insertBatch t rows c₁).2.stream = renderAnswers (answers₁.drop answers₂.length) ++ rest₁ ∧
    (insertEach t rows c₂).2.stream = rest₂ := by
  obtain ⟨hanswers₁, hresult₁, -, hstream₁⟩ := insertBatch_answered hlf h₁
  obtain ⟨hanswers₂, hresult₂, hstream₂⟩ := insertEach_answered rows hlf h₂
  have hlength₁ : answers₁.length = rows.length := by
    rw [← List.length_map (f := Prod.snd), hanswers₁]
    exact length_performAll _ _ _
  have hlength₂ : answers₂.length = (untilFailure IsOk (server.replies rows s)).length := by
    rw [← List.length_map (f := Prod.snd), hanswers₂]
  have hseen : server.replies (rows.take answers₂.length) s =
      untilFailure IsOk (server.replies rows s) := by
    rw [InsertServer.replies, performAll_take, hlength₂]
    exact (untilFailure_eq_take _).symm
  refine ⟨hresult₁.trans hresult₂.symm, hresult₁,
    fun hok => hresult₁.trans (server.rowIds rows s hok), ?_, ?_, ?_, hlength₂ ▸ hstream₁, hstream₂⟩
  · intro accepted refusal behind hreplies haccepted hrefusal
    constructor
    · obtain ⟨e, he⟩ := unwrap_of_not_isOk hrefusal
      refine ⟨e, he, ?_⟩
      rw [hresult₁, hreplies]
      apply mapM_rowIdOf_refused _ he
      intro reply hmem
      exact server.decodes rows s reply (by simp [hreplies, hmem]) (haccepted reply hmem)
    · intro next hnext command
      obtain ⟨left, rfl⟩ := List.head?_eq_some_iff.mp hnext
      exact send_insertBatch hlf h₁ hreplies haccepted hrefusal command
  · rw [hlength₁, List.take_length]
    exact server.stored_eq rows s
  · rw [server.stored_eq, hseen, hlength₂, filter_untilFailure]

/-- A server that takes every row but the row `x` -/
def pickyServer (t : TableId) : InsertServer (List (List Text)) t where
  answer line rows :=
    let csv := line.drop (insertLine t []).length
    if csv = "x".toList then (⟨"-ERR row not taken".toList, by decide⟩, rows)
    else (okReply (intText rows.length) (lf_not_mem_intText _), rows ++ [splitWireRow csv])
  rows rows := rows
  accepts csv rows hok := by
    have hdrop : (insertLine t csv).drop (insertLine t []).length = csv := drop_words _ t csv
    dsimp only at hok ⊢
    rw [hdrop] at hok ⊢
    by_cases hx : csv = "x".toList
    · have hbad : ¬ IsOk ⟨"-ERR row not taken".toList, by decide⟩ := by decide
      rw [if_pos hx] at hok
      exact absurd hok hbad
    · rw [if_neg hx]
      exact ⟨rfl, rfl⟩
  refuses csv rows hno := by
    dsimp only at hno ⊢
    split <;> rename_i hx
    · rfl
    · rw [if_neg hx] at hno
      exact absurd ⟨_, rfl⟩ hno

/-- The second of three rows is refused: the batch stores the third one too, and its reply is
what the next command is given. -/
theorem insertBatch_insertEach_picky :
    let rows := [[Cell.str "a".toList], [.str "x".toList], [.str "b".toList]]
    let c₁ := Conn.receiving
      "+OK 0\r\n-ERR row not taken\r\n>EVT 0 0 1 INS\r\n+OK 1\r\n".toList (by decide)
    let c₂ := Conn.receiving ">EVT 0 0 0 INS\r\n+OK 0\r\n-ERR row not taken\r\n".toList
      (by decide)
    (insertBatch ⟨0, 0⟩ rows c₁).1 = (insertEach ⟨0, 0⟩ rows c₂).1 ∧
      (insertBatch ⟨0, 0⟩ rows c₁).1 = .error (.cuttleDBError (.server "row not taken".toList)) ∧
      (send "COUNT 0 0".toList (insertBatch ⟨0, 0⟩ rows c₁).2).1 = .ok "1".toList ∧
      (pickyServer ⟨0, 0⟩).stored rows [] = [["a".toList], ["b".toList]] ∧
      (pickyServer ⟨0, 0⟩).stored (rows.take 2) [] = [["a".toList]] ∧
      (insertBatch ⟨0, 0⟩ rows c₁).2.stream =
        Utf8.encode ">EVT 0 0 1 INS\r\n+OK 1\r\n".toList := by
  intro rows c₁ c₂
  have h₁ : InsertsAnswered (pickyServer ⟨0, 0⟩) [] rows
      [([], ⟨"+OK 0".toList, by decide⟩), ([], ⟨"-ERR row not taken".toList, by decide⟩),
        ([⟨⟨0, 0, 1, "INS".toList⟩, by decide⟩], ⟨"+OK 1".toList, by decide⟩)] [] c₁
      (insertBatch ⟨0, 0⟩ rows c₁).2 :=
    ⟨⟨by decide, by decide +kernel⟩, by decide +kernel, by decide +kernel, by decide +kernel⟩
  have h₂ : InsertsAnswered (pickyServer ⟨0, 0⟩) [] rows
      [([⟨⟨0, 0, 0, "INS".toList⟩, by decide⟩], ⟨"+OK 0".toList, by decide⟩),
        ([], ⟨"-ERR row not taken".toList, by decide⟩)] [] c₂ (insertEach ⟨0, 0⟩ rows c₂).2 :=
    ⟨⟨by decide, by decide +kernel⟩, by decide +kernel, by decide +kernel, by decide +kernel⟩
  have hreplies : (pickyServer ⟨0, 0⟩).replies rows [] = [⟨"+OK 0".toList, by decide⟩] ++
      ⟨"-ERR row not taken".toList, by decide⟩ :: [⟨"+OK 1".toList, by decide⟩] := by
    decide +kernel
  obtain ⟨hresult, -, -, hrefused, hbatch, heach, hleft, -⟩ :=
    insertBatch_insertEach (pickyServer ⟨0, 0⟩) [] (by decide) h₁ h₂
  obtain ⟨⟨e, he, hraised⟩, hnext⟩ := hrefused _ _ _ hreplies (by decide) (by decide)
  have hmessage : unwrap "-ERR row not taken".toList =
      .error (.cuttleDBError (.server "row not taken".toList)) := by decide
  obtain rfl := Except.error.inj (he.symm.trans hmessage)
  exact ⟨hresult, hraised, (hnext _ rfl _).trans (by decide +kernel),
    hbatch.trans (by decide +kernel), heach.trans (by decide +kernel),
    hleft.trans (by decide +kernel)⟩

end CuttleDB.Py
