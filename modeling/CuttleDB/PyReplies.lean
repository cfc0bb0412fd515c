import CuttleDB.PyConnection

/-!
# Replies on the Python connection

What the readers of the Python client make of a stream of server lines. Events in
front of a reply go to the queue and the reply is returned, whatever the chunks
are; a read that raises loses nothing. A pipelined batch reads its replies one by
one and stops at the first that is not `+OK`, which leaves the later replies of
the batch on the stream.
-/

namespace CuttleDB.Py

open Framing

/-! ### One line -/

theorem readResponse_of_error {c c' : Conn} {e : PyError} (h : readline c = (.error e, c')) :
    readResponse c = (.error e, c') := by
  rw [readResponse]
  split <;> rename_i heq <;> rw [h] at heq
  · cases heq
    rfl
  · cases heq

theorem readResponse_of_line {c c' : Conn} {text : Text}
    (h : readline c = (.ok (Utf8.encode text), c')) :
    readResponse c =
      if evtTag <+: text then
        match parseEvent text with
        | .error e => (.error e, c')
        | .ok event => readResponse { c' with pendingEvents := c'.pendingEvents ++ [event] }
      else (.ok text, c') := by
  rw [readResponse]
  split <;> rename_i heq <;> rw [h] at heq
  · cases heq
  · cases heq
    split
    · rename_i hnone
      rw [Utf8.decode?_encode] at hnone
      cases hnone
    · rename_i text' hsome
      rw [Utf8.decode?_encode] at hsome
      cases hsome
      rfl

/-- The stream, with what is still to come, starts with the line `t`. -/
theorem readline_text {c : Conn} {t : LineText} {future tail : Bytes}
    (h : c.stream ++ future = lineBytes t ++ tail) :
    (∃ c', readline c = (.ok (Utf8.encode t.1), c') ∧ c.Reads (lineBytes t) c' ∧
      c'.stream ++ future = tail ∧ c'.pendingEvents = c.pendingEvents) ∨
    (∃ e c', readline c = (.error e, c') ∧ ReadError c e ∧ c.Reads [] c' ∧
      c'.pendingEvents = c.pendingEvents) := by
  rcases readline_cases c with ⟨line, c', hread, hlf, hreads, hpending⟩ | herr
  · have hline : line = Utf8.encode t.1 ++ [CR] ∧ c'.stream ++ future = tail := by
      refine line_of_prefix hlf (lf_not_mem_lineRaw t) (s := c.stream) ?_ ?_
      · rw [hreads.stream]
        simp
      · rw [h, lineBytes_append]
    obtain ⟨rfl, htail⟩ := hline
    rw [chomp_concat] at hread
    have hbytes : (Utf8.encode t.1 ++ [CR]) ++ [LF] = lineBytes t := by simp [lineBytes]
    rw [hbytes] at hreads
    exact Or.inl ⟨c', hread, hreads, htail, hpending⟩
  · exact Or.inr herr

theorem readline_serverLine {c : Conn} {l : ServerLine} {future tail : Bytes}
    (h : c.stream ++ future = l.bytes ++ tail) :
    (∃ c', readline c = (.ok (Utf8.encode l.text), c') ∧ c.Reads l.bytes c' ∧
      c'.stream ++ future = tail ∧ c'.pendingEvents = c.pendingEvents) ∨
    (∃ e c', readline c = (.error e, c') ∧ ReadError c e ∧ c.Reads [] c' ∧
      c'.pendingEvents = c.pendingEvents) :=
  readline_text (t := ⟨l.text, l.lf_not_mem_text⟩) h

/-! ### Replies behind events -/

theorem Conn.Reads.withPending {c c' : Conn} {d : Bytes} (h : c.Reads d c') (es : List Event) :
    c.Reads d { c' with pendingEvents := es } :=
  ⟨h.timeout, h.auth, h.sockTimeout, h.sent, h.stream, h.faults⟩

/-- Whatever it returns, `_read_response` only takes bytes off the stream. -/
theorem readResponse_reads (c : Conn) : ∃ d, c.Reads d (readResponse c).2 := by
  induction hn : c.stream.length using Nat.strong_induction_on generalizing c with
  | _ n ih =>
    rcases readline_cases c with ⟨line, c', hread, -, hreads, -⟩ | ⟨e, c', hread, -, hreads, -⟩
    · rw [readResponse]
      split <;> rename_i heq <;> rw [hread] at heq
      · cases heq
      · cases heq
        split
        · exact ⟨_, hreads⟩
        · split
          · split
            · exact ⟨_, hreads⟩
            · rename_i event _
              have hlt := hreads.stream_length_lt
              obtain ⟨d, hd⟩ := ih _ (by rw [← hn]; exact hlt)
                { c' with pendingEvents := c'.pendingEvents ++ [event] } rfl
              exact ⟨_, (hreads.withPending _).trans hd⟩
          · exact ⟨_, hreads⟩
    · rw [readResponse_of_error hread]
      exact ⟨_, hreads⟩

/-- An event at the front of the stream is queued and passed over. -/
theorem readResponse_evt {c : Conn} {e : WireEvent} {future tail : Bytes}
    (h : c.stream ++ future = (ServerLine.evt e).bytes ++ tail) :
    (∃ c', readResponse c = readResponse c' ∧ c.Reads (ServerLine.evt e).bytes c' ∧
      c'.stream ++ future = tail ∧ c'.pendingEvents = c.pendingEvents ++ [e.1]) ∨
    (∃ err c', readResponse c = (.error err, c') ∧ ReadError c err ∧ c.Reads [] c' ∧
      c'.pendingEvents = c.pendingEvents) := by
  rcases readline_serverLine h with
    ⟨c', hread, hreads, htail, hpending⟩ | ⟨err, c', hread, herr, hreads, hpending⟩
  · refine Or.inl ⟨{ c' with pendingEvents := c'.pendingEvents ++ [e.1] }, ?_,
      hreads.withPending _, htail, by simp [hpending]⟩
    have htag : evtTag <+: (ServerLine.evt e).text := evtTag_prefix_text e
    have hparse : parseEvent (ServerLine.evt e).text = .ok e.1 := parseEvent_text e
    rw [readResponse_of_line hread, if_pos htag, hparse]
  · exact Or.inr ⟨err, c', readResponse_of_error hread, herr, hreads, hpending⟩

/-- The events `es` have been taken off the stream of `c`, which leaves `c'`. -/
structure Passed (c : Conn) (es : List WireEvent) (c' : Conn) : Prop where
  reads : c.Reads (render (es.map .evt)) c'
  pending : c'.pendingEvents = c.pendingEvents ++ es.map Subtype.val

theorem Passed.refl (c : Conn) : Passed c [] c := ⟨.refl c, by simp⟩

theorem Passed.cons {c c' c'' : Conn} {e : WireEvent} {es : List WireEvent}
    (h : c.Reads (ServerLine.evt e).bytes c') (hp : c'.pendingEvents = c.pendingEvents ++ [e.1])
    (h' : Passed c' es c'') : Passed c (e :: es) c'' :=
  ⟨h.trans h'.reads, by rw [h'.pending, hp]; simp⟩

/-- **The reply behind any number of events is returned,** and the events are
queued in order; or the read raises with some of the events queued and nothing
lost. -/
theorem readResponse_reply {es : List WireEvent} {t : ReplyText} {future tail : Bytes} :
    ∀ {c : Conn},
    c.stream ++ future = render (es.map .evt) ++ ((ServerLine.reply t).bytes ++ tail) →
    (∃ c₁ c', readResponse c = (.ok t.1, c') ∧ Passed c es c₁ ∧
      c₁.Reads (ServerLine.reply t).bytes c' ∧ c'.stream ++ future = tail ∧
      c'.pendingEvents = c₁.pendingEvents) ∨
    (∃ done left c₁ c' err, es = done ++ left ∧ readResponse c = (.error err, c') ∧
      Passed c done c₁ ∧ ReadError c₁ err ∧
      c₁.stream ++ future = render (left.map .evt) ++ ((ServerLine.reply t).bytes ++ tail)) := by
  induction es with
  | nil =>
    intro c h
    rcases readline_serverLine h with
      ⟨c', hread, hreads, htail, hpending⟩ | ⟨err, c', hread, herr, -, -⟩
    · refine Or.inl ⟨c, c', ?_, .refl c, hreads, htail, hpending⟩
      have hnot : ¬ evtTag <+: (ServerLine.reply t).text := t.2.2
      rw [readResponse_of_line hread, if_neg hnot]
      rfl
    · exact Or.inr ⟨[], [], c, c', err, rfl, readResponse_of_error hread, .refl c, herr, h⟩
  | cons e es ih =>
    intro c h
    rw [List.map_cons, render_cons, List.append_assoc] at h
    rcases readResponse_evt h with ⟨c₀, heq, hreads, htail, hpending⟩ | ⟨err, c', hread, herr, -, -⟩
    · rw [heq]
      rcases ih htail with
        ⟨c₁, c', hok, hpassed, hrest⟩ | ⟨done, left, c₁, c', err, rfl, hread, hpassed, hrest⟩
      · exact Or.inl ⟨c₁, c', hok, .cons hreads hpending hpassed, hrest⟩
      · exact Or.inr ⟨e :: done, left, c₁, c', err, rfl, hread,
          .cons hreads hpending hpassed, hrest⟩
    · refine Or.inr ⟨[], e :: es, c, c', err, rfl, hread, .refl c, herr, ?_⟩
      rw [h, List.map_cons, render_cons, List.append_assoc]

/-! ### An uninterrupted stream -/

/-- An open connection whose remaining data arrives without a pause. -/
structure Conn.Flowing (c : Conn) : Prop where
  open_ : c.sock ≠ none
  faults : c.faults = []

theorem Conn.Flowing.of_reads {c c' : Conn} {d : Bytes} (h : c.Flowing) (hreads : c.Reads d c') :
    c'.Flowing := by
  constructor
  · intro hnone
    have hmap := hreads.sockTimeout
    rw [hnone] at hmap
    exact h.open_ (Option.map_eq_none_iff.mp hmap.symm)
  · have hsub := hreads.faults
    rw [h.faults] at hsub
    exact List.subset_nil.mp hsub

theorem Conn.Flowing.lf_not_mem {c : Conn} {e : PyError} (h : c.Flowing) (herr : ReadError c e) :
    LF ∉ c.stream := by
  cases herr with
  | notConnected hnone => exact absurd hnone h.open_
  | connectionClosed heof =>
    rw [h.faults] at heof
    cases heof
  | noData s hsock hwhy =>
    rcases hwhy with hsilence | hstream
    · rw [h.faults] at hsilence
      cases hsilence
    · exact hstream

/-- On an uninterrupted stream the reply comes. -/
theorem readResponse_flowing {c : Conn} {es : List WireEvent} {t : ReplyText} {tail : Bytes}
    (hflow : c.Flowing)
    (h : c.stream = render (es.map .evt) ++ ((ServerLine.reply t).bytes ++ tail)) :
    ∃ c', readResponse c = (.ok t.1, c') ∧ c'.Flowing ∧ c'.stream = tail ∧
      c'.pendingEvents = c.pendingEvents ++ es.map Subtype.val := by
  have hfuture : c.stream ++ [] =
      render (es.map .evt) ++ ((ServerLine.reply t).bytes ++ tail) := by rw [h, List.append_nil]
  rcases readResponse_reply hfuture with
    ⟨c₁, c', hok, hpassed, hreads, htail, hpending⟩ |
    ⟨done, left, c₁, c', err, -, -, hpassed, herr, hleft⟩
  · refine ⟨c', hok, (hflow.of_reads hpassed.reads).of_reads hreads, ?_, ?_⟩
    · rwa [List.append_nil] at htail
    · rw [hpending, hpassed.pending]
  · have hlf := (hflow.of_reads hpassed.reads).lf_not_mem herr
    rw [List.append_nil] at hleft
    exact absurd (by rw [hleft]; simp [ServerLine.bytes]) hlf

/-! ### Writing -/

theorem Conn.Reads.conn_sent {c c' : Conn} {d : Bytes} (h : c.Reads d c') : c'.sent = c.sent := by
  have hmap := h.sent
  unfold Conn.sent
  cases hc : c.sock <;> cases hc' : c'.sock <;> rw [hc, hc'] at hmap <;> simp_all

/-- A write on an open connection appends to what was sent and touches nothing else. -/
theorem write_open {c : Conn} (hopen : c.sock ≠ none) (data : Bytes) :
    ∃ c', write data c = (.ok (), c') ∧ c'.sock ≠ none ∧ c'.sent = c.sent ++ data ∧
      c'.stream = c.stream ∧ c'.faults = c.faults ∧ c'.pendingEvents = c.pendingEvents ∧
      c'.timeout = c.timeout ∧ c'.sock.map Sock.timeout = c.sock.map Sock.timeout := by
  cases hsock : c.sock with
  | none => exact absurd hsock hopen
  | some s =>
    refine ⟨{ c with sock := some { s with sent := s.sent ++ data } }, ?_, by simp, ?_, ?_, ?_,
      rfl, rfl, rfl⟩
    · simp [write, hsock]
    · simp [Conn.sent, hsock]
    · simp [Conn.stream, hsock, Sock.unread]
    · simp [Conn.faults, hsock, Sock.faults]

theorem send_flowing {c : Conn} {es : List WireEvent} {t : ReplyText} {tail : Bytes}
    (command : Text) (hflow : c.Flowing)
    (h : c.stream = render (es.map .evt) ++ ((ServerLine.reply t).bytes ++ tail)) :
    (send command c).1 = unwrap t.1 := by
  obtain ⟨c₁, hwrite, hopen, -, hstream, hfaults, -⟩ :=
    write_open hflow.open_ (Utf8.encode (command ++ ['\n']))
  have hflow₁ : c₁.Flowing := ⟨hopen, hfaults.trans hflow.faults⟩
  obtain ⟨c₂, hread, -⟩ := readResponse_flowing hflow₁ (hstream.trans h)
  rw [send, hwrite]
  dsimp only
  rw [hread]

/-! ### Batches -/

/-- The server's answers to a batch: for each command, the events pushed ahead of
its reply, and the reply. -/
abbrev Answers := List (List WireEvent × ReplyText)

def renderAnswers (answers : Answers) : Bytes :=
  answers.flatMap fun a => render (a.1.map .evt) ++ (ServerLine.reply a.2).bytes

def IsOk (t : ReplyText) : Prop := "+OK".toList <+: t.1

instance (t : ReplyText) : Decidable (IsOk t) := inferInstanceAs (Decidable (_ <+: _))

theorem unwrap_of_isOk {t : ReplyText} (h : IsOk t) : ∃ value, unwrap t.1 = .ok value :=
  ⟨_, if_pos h⟩

theorem unwrap_of_not_isOk {t : ReplyText} (h : ¬ IsOk t) : ∃ e, unwrap t.1 = .error e := by
  have hplain : ¬ "+OK".toList <+: t.1 := h
  rw [unwrap, if_neg hplain]
  split
  · exact ⟨_, rfl⟩
  · exact ⟨_, rfl⟩

theorem renderAnswers_append_eq_self {answers : Answers} {rest : Bytes} :
    renderAnswers answers ++ rest = rest ↔ answers = [] := by
  rw [List.append_left_eq_self]
  cases answers with
  | nil => simp [renderAnswers]
  | cons a as => simp [renderAnswers, ServerLine.bytes]

theorem forall_mem_dropLast_cons {p : α → Prop} {a : α} {as : List α} :
    (∀ x ∈ (a :: as).dropLast, p x) ↔ as = [] ∨ (p a ∧ ∀ x ∈ as.dropLast, p x) := by
  cases as with
  | nil => simp
  | cons b bs => simp [List.dropLast_cons_cons]

/-- The replies of a batch are read up to the first that is not `+OK`; what is
left on the stream is the later replies. -/
theorem unwrapResponses_flowing {commands : List Text} {rest : Bytes} :
    ∀ {answers : Answers} {c : Conn}, c.Flowing → answers.length = commands.length →
      c.stream = renderAnswers answers ++ rest →
      ∃ left, (unwrapResponses commands c).2.Flowing ∧
        (unwrapResponses commands c).2.stream = renderAnswers left ++ rest ∧
        (left = [] ↔ ∀ a ∈ answers.dropLast, IsOk a.2) := by
  induction commands with
  | nil =>
    intro answers c hflow hlen hstream
    obtain rfl := List.length_eq_zero_iff.mp hlen
    exact ⟨[], hflow, hstream, by simp⟩
  | cons command commands ih =>
    intro answers c hflow hlen hstream
    obtain ⟨⟨es, t⟩, as, rfl⟩ := List.exists_cons_of_length_eq_add_one hlen
    have hlen' : as.length = commands.length := by simpa using hlen
    have hfront : c.stream =
        render (es.map .evt) ++ ((ServerLine.reply t).bytes ++ (renderAnswers as ++ rest)) := by
      rw [hstream]
      simp [renderAnswers]
    obtain ⟨c', hread, hflow', hstream', -⟩ := readResponse_flowing hflow hfront
    rw [unwrapResponses, hread]
    dsimp only
    rw [forall_mem_dropLast_cons]
    by_cases hok : IsOk t
    · obtain ⟨value, hvalue⟩ := unwrap_of_isOk hok
      obtain ⟨left, hflow'', hstream'', hleft⟩ := ih hflow' hlen' hstream'
      rw [hvalue]
      dsimp only
      refine ⟨left, ?_, ?_, ?_⟩
      · split <;> rename_i heq <;> rw [heq] at hflow'' <;> exact hflow''
      · split <;> rename_i heq <;> rw [heq] at hstream'' <;> exact hstream''
      · rw [hleft]
        constructor
        · exact fun h => Or.inr ⟨hok, h⟩
        · rintro (rfl | ⟨-, h⟩)
          · simp
          · exact h
    · obtain ⟨e, herr⟩ := unwrap_of_not_isOk hok
      rw [herr]
      exact ⟨as, hflow', hstream', ⟨Or.inl, fun h => h.resolve_right fun hboth => hok hboth.1⟩⟩

theorem unwrapResponses_reads (commands : List Text) :
    ∀ c : Conn, ∃ d, c.Reads d (unwrapResponses commands c).2 := by
  induction commands with
  | nil => exact fun c => ⟨[], .refl c⟩
  | cons command commands ih =>
    intro c
    obtain ⟨d, hd⟩ := readResponse_reads c
    rw [unwrapResponses]
    rcases hread : readResponse c with ⟨e | line, c'⟩ <;> rw [hread] at hd
    · exact ⟨d, hd⟩
    · dsimp only
      rcases unwrap line with e | value
      · exact ⟨d, hd⟩
      · obtain ⟨d', hd'⟩ := ih c'
        dsimp only
        rcases hrest : unwrapResponses commands c' with ⟨e | values, c''⟩ <;> rw [hrest] at hd'
        · exact ⟨_, hd.trans hd'⟩
        · exact ⟨_, hd.trans hd'⟩

/-- Commands without a line feed are sent as that many lines. -/
theorem count_lf_batch {commands : List Text} (hne : commands ≠ [])
    (hlf : ∀ command ∈ commands, '\n' ∉ command) :
    (Utf8.encode (['\n'].intercalate commands ++ ['\n'])).count LF = commands.length := by
  have hchars : (['\n'].intercalate commands ++ ['\n']).count '\n' = commands.length := by
    induction commands with
    | nil => exact absurd rfl hne
    | cons command commands ih =>
      have hcommand : command.count '\n' = 0 :=
        List.count_eq_zero_of_not_mem (hlf command (by simp))
      cases commands with
      | nil => simp [hcommand]
      | cons next commands =>
        have ih := ih (by simp) fun cmd hcmd => hlf cmd (List.mem_cons_of_mem _ hcmd)
        rw [List.intercalate_cons_cons, List.append_assoc, List.append_assoc, List.count_append,
          List.count_append, ih, hcommand]
        simp
        omega
  rw [← hchars]
  exact Utf8.count_encode (c := '\n') (by decide) _

/-- What the server sees of a batch, and what the client does with the answers. -/
theorem sendBatch_flowing {c : Conn} {commands : List Text} {answers : Answers} {rest : Bytes}
    (hflow : c.Flowing) (hlf : ∀ command ∈ commands, '\n' ∉ command)
    (hserver : (sendBatch commands c).2.sent.count LF = c.sent.count LF + answers.length)
    (hstream : c.stream = renderAnswers answers ++ rest) :
    ∃ left, (sendBatch commands c).2.Flowing ∧
      (sendBatch commands c).2.stream = renderAnswers left ++ rest ∧
      (left = [] ↔ ∀ a ∈ answers.dropLast, IsOk a.2) := by
  rw [sendBatch] at hserver ⊢
  by_cases hnil : commands = []
  · rw [if_pos hnil] at hserver ⊢
    dsimp only at hserver
    obtain rfl : answers = [] := List.length_eq_zero_iff.mp (by omega)
    exact ⟨[], hflow, hstream, by simp⟩
  · rw [if_neg hnil] at hserver ⊢
    obtain ⟨c₁, hwrite, hopen, hsent, hstream₁, hfaults, -⟩ :=
      write_open hflow.open_ (Utf8.encode (['\n'].intercalate commands ++ ['\n']))
    rw [hwrite] at hserver ⊢
    dsimp only at hserver ⊢
    obtain ⟨d, hreads⟩ := unwrapResponses_reads commands c₁
    have hlen : answers.length = commands.length := by
      rw [hreads.conn_sent, hsent, List.count_append, count_lf_batch hnil hlf] at hserver
      omega
    exact unwrapResponses_flowing ⟨hopen, hfaults.trans hflow.faults⟩ hlen
      (hstream₁.trans hstream)

/-- A batch consumes exactly its own replies if and only if no reply ahead of the
last one is an error; then the next command is answered by its own reply. -/
theorem sendBatch_consumes_own_replies (c : Conn) (commands : List Text) (answers : Answers)
    (rest : Bytes) (hflow : c.Flowing) (hlf : ∀ command ∈ commands, '\n' ∉ command)
    (hserver : (sendBatch commands c).2.sent.count LF = c.sent.count LF + answers.length)
    (hstream : c.stream = renderAnswers answers ++ rest) :
    ((sendBatch commands c).2.stream = rest ↔ ∀ a ∈ answers.dropLast, IsOk a.2) ∧
      ((∀ a ∈ answers.dropLast, IsOk a.2) →
        ∀ (command : Text) (es : List WireEvent) (t : ReplyText) (rest' : Bytes),
          rest = renderAnswers [(es, t)] ++ rest' →
          (send command (sendBatch commands c).2).1 = unwrap t.1) := by
  obtain ⟨left, hflow', hstream', hleft⟩ := sendBatch_flowing hflow hlf hserver hstream
  constructor
  · rw [hstream', renderAnswers_append_eq_self, hleft]
  · intro hok command es t rest' hrest
    rw [hleft.mpr hok] at hstream'
    have hfront : (sendBatch commands c).2.stream =
        render (es.map .evt) ++ ((ServerLine.reply t).bytes ++ rest') := by
      rw [hstream', hrest]
      simp [renderAnswers]
    exact send_flowing command hflow' hfront

/-- An open connection on which the text `t` arrives in one chunk. -/
def Conn.receiving (t : Text) (h : Utf8.encode t ≠ []) : Conn :=
  ⟨30, none, some ⟨[.data ⟨Utf8.encode t, h⟩], 30, []⟩, [], []⟩

/-- The first of two inserts is refused: its `-ERR` is raised, the second reply is
left on the stream, and the next command is given that one. -/
theorem sendBatch_leaves_reply :
    let c := Conn.receiving "-ERR bad value\r\n+OK 4\r\n+OK 9\r\n".toList (by decide)
    let batch := sendBatch ["INSERT 0 0 a".toList, "INSERT 0 0 b".toList] c
    batch.1 = .error (.cuttleDBError (.server "bad value".toList)) ∧
      batch.2.stream = Utf8.encode "+OK 4\r\n+OK 9\r\n".toList ∧
      (send "COUNT 0 0".toList batch.2).1 = .ok "4".toList := by
  decide +kernel

theorem sendBatch_consumes_own_replies_two :
    let c := Conn.receiving "+OK 3\r\n>EVT 0 0 3 INS\r\n-ERR bad value\r\n+OK 9\r\n".toList
      (by decide)
    (sendBatch ["INSERT 0 0 a".toList, "INSERT 0 0 b".toList] c).2.stream =
      Utf8.encode "+OK 9\r\n".toList :=
  (sendBatch_consumes_own_replies _ _
    [([], ⟨"+OK 3".toList, by decide⟩),
      ([⟨⟨0, 0, 3, "INS".toList⟩, by decide⟩], ⟨"-ERR bad value".toList, by decide⟩)]
    _ ⟨by decide, by decide +kernel⟩ (by decide) (by decide +kernel) (by decide +kernel)).1.mpr
    (by decide)

end CuttleDB.Py
