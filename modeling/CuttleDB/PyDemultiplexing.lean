import CuttleDB.PyReplies

/-!
# Demultiplexing on the Python connection

Two readers take events off one byte stream: `_read_response` while it waits for a
reply, and `poll_events` from the socket. A run is any sequence of commands and
polls, with the data cut into chunks in any way. The invariant of a run says that
the lines of the server are those already consumed, whose events were returned or
are queued and whose replies are one for each command line written, followed by
those that the buffer, the unread stream and the future still hold.
-/

namespace CuttleDB.Py

open Framing

/-! ### Polling an event stream -/

theorem cr_not_mem_encode {t : Text} (h : '\r' ∉ t) : CR ∉ Utf8.encode t := by
  rw [CR, ← List.count_eq_zero]
  have hcount := Utf8.count_encode (c := '\r') (by decide) t
  rw [List.count_eq_zero_of_not_mem h] at hcount
  exact hcount

theorem cr_not_mem_eventText (e : WireEvent) : '\r' ∉ e.1.text := by
  have hword : ∀ t : Text, (∀ c ∈ t, isSpace c = false) → '\r' ∉ t :=
    fun t ht hmem => absurd (ht _ hmem) (by decide)
  have hint : ∀ i : Int, '\r' ∉ intText i := fun i => hword _ (intText_isWord i).2
  have hop : '\r' ∉ e.1.op := hword _ e.2.1.2
  simp [Event.text, evtTag, hint, hop]

/-- `rstrip(b"\r")` takes off what the server put there, and no more. -/
theorem rstrip_evt_raw (e : WireEvent) :
    rstrip CR (ServerLine.evt e).raw = Utf8.encode e.1.text := by
  refine rstrip_concat fun hlast => ?_
  exact cr_not_mem_encode (cr_not_mem_eventText e) (List.mem_of_getLast? hlast)

/-- The bytes `d` are off the stream of `c`, which leaves `c'`; unlike after
`Conn.Reads`, the timeout of the socket may be another. -/
structure Conn.Drops (c : Conn) (d : Bytes) (c' : Conn) : Prop where
  open_ : c.sock ≠ none → c'.sock ≠ none
  sent : c'.sent = c.sent
  stream : c.stream = d ++ c'.stream
  faults : c'.faults ⊆ c.faults

theorem Conn.Reads.drops {c c' : Conn} {d : Bytes} (h : c.Reads d c') : c.Drops d c' := by
  refine ⟨fun hopen hnone => hopen ?_, h.conn_sent, h.stream, h.faults⟩
  have hmap := h.sockTimeout
  rw [hnone] at hmap
  exact Option.map_eq_none_iff.mp hmap.symm

theorem Conn.Drops.trans {c c' c'' : Conn} {d d' : Bytes} (h : c.Drops d c')
    (h' : c'.Drops d' c'') : c.Drops (d ++ d') c'' := by
  refine ⟨fun hopen => h'.open_ (h.open_ hopen), h'.sent.trans h.sent, ?_,
    fun _ ha => h.faults (h'.faults ha)⟩
  rw [h.stream, h'.stream, List.append_assoc]

theorem Conn.drops_restoreTimeout (c : Conn) : c.Drops [] c.restoreTimeout := by
  cases hsock : c.sock with
  | none =>
    refine ⟨fun hopen => absurd hsock hopen, ?_, ?_, ?_⟩ <;>
      simp [Conn.restoreTimeout, Conn.sent, Conn.stream, Conn.faults, hsock]
  | some s =>
    refine ⟨fun _ => by simp [Conn.restoreTimeout, hsock], ?_, ?_, ?_⟩ <;>
      simp [Conn.restoreTimeout, Conn.sent, Conn.stream, Conn.faults, hsock, Sock.unread,
        Sock.faults]

/-- On a buffer that begins with events, whole or cut, the inner loop takes the
whole ones. -/
theorem drainLines_events {E : List WireEvent} {future : Bytes} :
    ∀ {c : Conn} (events : List Event), c.buf ++ future = render (E.map .evt) →
    ∃ done left c', E = done ++ left ∧
      drainLines events c = .empty (events ++ done.map Subtype.val) c' ∧
      c.buf = render (done.map .evt) ++ c'.buf ∧ c'.sock = c.sock ∧
      c'.pendingEvents = c.pendingEvents := by
  induction E with
  | nil =>
    intro c events h
    have hbuf : c.buf = [] := (List.append_eq_nil_iff.mp h).1
    refine ⟨[], [], c, rfl, ?_, by simp, rfl, rfl⟩
    rw [List.map_nil, List.append_nil]
    exact drainLines_of_none (by rw [hbuf]; rfl)
  | cons e E ih =>
    intro c events h
    rw [List.map_cons, render_cons, ServerLine.bytes_eq, List.append_assoc,
      List.singleton_append] at h
    cases hcut : cutLine LF c.buf with
    | none =>
      refine ⟨[], e :: E, c, rfl, ?_, by simp, rfl, rfl⟩
      rw [List.map_nil, List.append_nil]
      exact drainLines_of_none hcut
    | some p =>
      obtain ⟨raw, rest⟩ := p
      obtain ⟨hbuf, hlf⟩ := eq_of_cutLine hcut
      obtain ⟨rfl, htail⟩ := line_of_prefix hlf (ServerLine.evt e).lf_not_mem_raw hbuf h
      obtain ⟨done, left, c', rfl, hdrain, hbuf', hrest⟩ :=
        ih (c := { c with buf := rest }) (events ++ [e.1]) htail
      refine ⟨e :: done, left, c', rfl, ?_, ?_, hrest⟩
      · rw [drainLines_of_some hcut, rstrip_evt_raw, Utf8.decode?_encode]
        dsimp only
        rw [if_pos (evtTag_prefix_text e), parseEvent_text]
        dsimp only
        rw [hdrain]
        simp
      · rw [hbuf, List.map_cons, render_cons, ServerLine.bytes_eq, List.append_assoc,
          List.append_assoc, ← hbuf']
        rfl

/-- **A poll on a stream of events returns the first of them,** and what it does not return
stays in the buffer; or it raises for want of data, with a timeout of 0 only. -/
theorem pollLoop_events {future : Bytes} (s : Sock) :
    ∀ {E : List WireEvent} {c : Conn} (events : List Event), c.sock = some s →
    c.stream ++ future = render (E.map .evt) →
    ∃ done left c', E = done ++ left ∧ c.Drops (render (done.map .evt)) c' ∧
      c'.pendingEvents = c.pendingEvents ∧
      (pollLoop events s c = (.ok (events ++ done.map Subtype.val), c') ∨
        s.timeout = 0 ∧ done = [] ∧ pollLoop events s c = (.error .blockingIOError, c')) := by
  induction hw : s.weight using Nat.strong_induction_on generalizing s with
  | _ w ih =>
    intro E c events hsock h
    rcases s.recv_cases (n := 8192) (by decide) with
      ⟨b, bs, s', hrecv, hreads, hlt⟩ | ⟨s', hrecv, hreads, -⟩ | ⟨s', hrecv, hreads, -⟩ <;>
      rw [pollLoop_of_recv hrecv]
    · have hstep := (Conn.Reads.of_recv hsock hreads).drops
      have hbuf : (c.buf ++ b :: bs) ++ (s'.unread ++ future) = render (E.map .evt) := by
        rw [← h, hstep.stream]
        simp [Conn.stream]
      obtain ⟨done, left, c₁, rfl, hdrain, hbuf₁, hsock₁, hpending₁⟩ :=
        drainLines_events (c := { c with sock := some s', buf := c.buf ++ b :: bs }) events hbuf
      have hlines : Conn.Drops { c with sock := some s', buf := c.buf ++ b :: bs }
          (render (done.map .evt)) c₁ := by
        refine ⟨fun hopen => hsock₁ ▸ hopen, ?_, ?_, ?_⟩
        · simp [Conn.sent, hsock₁]
        · dsimp only at hbuf₁
          simp only [Conn.stream, hsock₁, hbuf₁, List.append_assoc]
        · simp [Conn.faults, hsock₁]
      have hdrop : c.Drops (render (done.map .evt)) c₁ := hstep.trans hlines
      dsimp only
      rw [hdrain]
      dsimp only
      split
      · exact ⟨done, left, c₁, rfl, hdrop, hpending₁, Or.inl rfl⟩
      · -- no event yet: the bytes read so far are the beginning of the first
        rename_i hnone
        obtain ⟨rfl, hdone⟩ := List.append_eq_nil_iff.mp (not_not.mp hnone)
        obtain rfl := List.map_eq_nil_iff.mp hdone
        have hrest : c₁.stream ++ future = render (left.map .evt) := by
          rw [hdrop.stream] at h
          exact h
        obtain ⟨done, left, c', rfl, hdrop', hpending', hpoll⟩ :=
          ih s'.weight (hw ▸ hlt) s' rfl [] hsock₁ hrest
        rw [hreads.timeout] at hpoll
        exact ⟨done, left, c', rfl, hdrop.trans hdrop', hpending'.trans hpending₁, hpoll⟩
    · refine ⟨[], E, { c with sock := some s' }, rfl, ?_, rfl, Or.inl ?_⟩
      · simpa using (Conn.Reads.of_recv hsock hreads).drops
      · rw [List.map_nil, List.append_nil]
    · refine ⟨[], E, { c with sock := some s' }, rfl, ?_, rfl, ?_⟩
      · simpa using (Conn.Reads.of_recv hsock hreads).drops
      · dsimp only
        rw [List.map_nil, List.append_nil]
        by_cases hzero : s.timeout = 0
        · have hraise : s.noData = .blockingIOError := if_pos hzero
          rw [hraise, if_neg (by decide)]
          exact Or.inr ⟨hzero, rfl, rfl⟩
        · have hraise : s.noData = .socketTimeout := if_neg hzero
          rw [hraise, if_pos rfl]
          exact Or.inl rfl

theorem pollEvents_cases {timeout : Rat} {c : Conn} {E : List WireEvent} {future : Bytes}
    (hnonneg : 0 ≤ timeout) (hopen : c.sock ≠ none)
    (h : c.stream ++ future = render (E.map .evt)) :
    ∃ done left c', E = done ++ left ∧ c.Drops (render (done.map .evt)) c' ∧
      c'.pendingEvents = [] ∧
      (pollEvents timeout c = (.ok (c.pendingEvents ++ done.map Subtype.val), c') ∨
        timeout = 0 ∧ c.pendingEvents = [] ∧ done = [] ∧
          pollEvents timeout c = (.error .blockingIOError, c')) := by
  obtain ⟨s, hsock⟩ := Option.ne_none_iff_exists'.mp hopen
  have hcleared : c.Drops [] { c with pendingEvents := [] } :=
    ⟨id, rfl, rfl, List.Subset.refl _⟩
  by_cases hqueued : c.pendingEvents = []
  · have hset : c.Drops [] { c with sock := some { s with timeout := timeout } } := by
      refine ⟨fun _ => by simp, ?_, ?_, ?_⟩
      · simp [Conn.sent, hsock]
      · simp [Conn.stream, hsock, Sock.unread]
      · simp [Conn.faults, hsock, Sock.faults]
    rw [hset.stream] at h
    obtain ⟨done, left, c', rfl, hdrop, hpending, hpoll⟩ :=
      pollLoop_events { s with timeout := timeout } [] rfl h
    rw [pollEvents_idle hnonneg hsock hqueued]
    refine ⟨done, left, c'.restoreTimeout, rfl, ?_, hpending.trans hqueued, ?_⟩
    · have hboth := (hset.trans hdrop).trans c'.drops_restoreTimeout
      rwa [List.nil_append, List.append_nil] at hboth
    · rcases hpoll with hok | ⟨hzero, hdone, hraise⟩
      · exact Or.inl (by rw [hok, hqueued])
      · exact Or.inr ⟨hzero, hqueued, hdone, by rw [hraise]⟩
  · rw [pollEvents_queued hqueued]
    refine ⟨[], E, { c with pendingEvents := [] }, rfl, hcleared, rfl, Or.inl ?_⟩
    rw [List.map_nil, List.append_nil]

theorem pollEvents_events {timeout : Rat} {c : Conn} {E : List WireEvent} {future : Bytes}
    (hpos : 0 < timeout) (hopen : c.sock ≠ none)
    (h : c.stream ++ future = render (E.map .evt)) :
    ∃ done left c', E = done ++ left ∧
      pollEvents timeout c = (.ok (c.pendingEvents ++ done.map Subtype.val), c') ∧
      c.Drops (render (done.map .evt)) c' ∧ c'.pendingEvents = [] := by
  obtain ⟨done, left, c', hE, hdrop, hpending, hpoll⟩ := pollEvents_cases hpos.le hopen h
  rcases hpoll with hok | ⟨hzero, -⟩
  · exact ⟨done, left, c', hE, hok, hdrop, hpending⟩
  · exact absurd hzero hpos.ne'

/-! ### One command on any stream -/

theorem readResponse_events {es : List WireEvent} {future : Bytes} :
    ∀ {c : Conn}, c.stream ++ future = render (es.map .evt) →
    ∃ done c₁ c' err, readResponse c = (.error err, c') ∧ Passed c done c₁ ∧
      ReadError c₁ err := by
  induction es with
  | nil =>
    intro c h
    have hstream : c.stream = [] := (List.append_eq_nil_iff.mp h).1
    rcases readline_cases c with ⟨line, c', -, -, hreads, -⟩ | ⟨err, c', hread, herr, -, -⟩
    · have hlt := hreads.stream_length_lt
      rw [hstream] at hlt
      exact absurd hlt (Nat.not_lt_zero _)
    · exact ⟨[], c, c', err, readResponse_of_error hread, .refl c, herr⟩
  | cons e es ih =>
    intro c h
    rw [List.map_cons, render_cons] at h
    rcases readResponse_evt h with ⟨c₀, heq, hreads, htail, hpending⟩ | ⟨err, c', hread, herr, -, -⟩
    · obtain ⟨done, c₁, c', err, hread, hpassed, herr⟩ := ih htail
      exact ⟨e :: done, c₁, c', err, heq.trans hread, .cons hreads hpending hpassed, herr⟩
    · exact ⟨[], c, c', err, hread, .refl c, herr⟩

/-- On an open connection that the server has not closed, a read raises only for
want of data. -/
theorem ReadError.timeout {c : Conn} {e : PyError} (h : ReadError c e) (hopen : c.sock ≠ none)
    (heof : .eof ∉ c.faults) : e = .socketTimeout ∨ e = .blockingIOError := by
  cases h with
  | notConnected hnone => exact absurd hnone hopen
  | connectionClosed hmem => exact absurd hmem heof
  | noData s hsock hwhy =>
    unfold Sock.noData
    split
    · exact Or.inr rfl
    · exact Or.inl rfl

theorem ReadError.timeout_of_passed {c c₁ : Conn} {es : List WireEvent} {e : PyError}
    (h : ReadError c₁ e) (hpassed : Passed c es c₁) (hopen : c.sock ≠ none)
    (heof : .eof ∉ c.faults) : e = .socketTimeout ∨ e = .blockingIOError :=
  h.timeout (hpassed.reads.drops.open_ hopen) fun hmem => heof (hpassed.reads.faults hmem)

theorem events_or_reply (lines : List ServerLine) :
    (∃ es : List WireEvent, lines = es.map .evt) ∨
    (∃ (es : List WireEvent) (t : ReplyText) (rest : List ServerLine),
      lines = es.map .evt ++ .reply t :: rest) := by
  induction lines with
  | nil => exact Or.inl ⟨[], rfl⟩
  | cons l lines ih =>
    cases l with
    | evt e =>
      rcases ih with ⟨es, rfl⟩ | ⟨es, t, rest, rfl⟩
      · exact Or.inl ⟨e :: es, rfl⟩
      · exact Or.inr ⟨e :: es, t, rest, rfl⟩
    | reply t => exact Or.inr ⟨[], t, lines, rfl⟩

/-- **A command gets the first reply on the stream, or times out.** -/
theorem sendRaw_lines {c : Conn} {command : Text} {lines : List ServerLine} {future : Bytes}
    (hopen : c.sock ≠ none) (heof : .eof ∉ c.faults) (hlf : '\n' ∉ command)
    (h : c.stream ++ future = render lines) :
    (∃ (es : List WireEvent) (t : ReplyText) (rest : List ServerLine) (c' : Conn),
      lines = es.map .evt ++ .reply t :: rest ∧ sendRaw command c = (.ok t.1, c') ∧
      c'.sock ≠ none ∧ .eof ∉ c'.faults ∧ c'.sent.count LF = c.sent.count LF + 1 ∧
      c.stream = render (es.map .evt ++ [.reply t]) ++ c'.stream ∧
      c'.pendingEvents = c.pendingEvents ++ es.map Subtype.val) ∨
    (∃ e c', sendRaw command c = (.error e, c') ∧
      (e = .socketTimeout ∨ e = .blockingIOError)) := by
  obtain ⟨c₀, hwrite, hopen₀, hsent, hstream, hfaults, hpending, -⟩ :=
    write_open hopen (Utf8.encode (command ++ ['\n']))
  rw [← hfaults] at heof
  rw [← hstream] at h
  rw [sendRaw, hwrite]
  dsimp only
  rcases events_or_reply lines with ⟨es, rfl⟩ | ⟨es, t, rest, rfl⟩
  · obtain ⟨done, c₁, c', err, hread, hpassed, herr⟩ := readResponse_events h
    exact Or.inr ⟨err, c', hread, herr.timeout_of_passed hpassed hopen₀ heof⟩
  · rw [render_append, render_cons] at h
    rcases readResponse_reply h with
      ⟨c₁, c', hread, hpassed, hreads, htail, hpending'⟩ |
      ⟨done, left, c₁, c', err, -, hread, hpassed, herr, -⟩
    · have hboth := hpassed.reads.drops.trans hreads.drops
      refine Or.inl ⟨es, t, rest, c', rfl, hread, hboth.open_ hopen₀,
        fun hmem => heof (hboth.faults hmem), ?_, ?_, ?_⟩
      · have hone : (Utf8.encode (command ++ ['\n'])).count LF = 1 := by
          simpa [List.intercalate] using
            @count_lf_batch [command] (by simp) (by simpa using hlf)
        rw [hboth.sent, hsent, List.count_append, hone]
      · rw [← hstream, hboth.stream]
        simp
      · rw [hpending', hpassed.pending, hpending]
    · exact Or.inr ⟨err, c', hread, herr.timeout_of_passed hpassed hopen₀ heof⟩

/-- `send` is `send_raw` with the line unwrapped. -/
theorem send_eq (command : Text) (c : Conn) :
    send command c =
      match sendRaw command c with
      | (.error e, c) => (.error e, c)
      | (.ok line, c) => (unwrap line, c) := by
  rw [send, sendRaw]
  rcases write (Utf8.encode (command ++ ['\n'])) c with ⟨e | ⟨⟩, c'⟩ <;> rfl

/-! ### Runs -/

inductive Call where
  | send (command : Text)
  | sendRaw (command : Text)
  | pollEvents (timeout : Rat)

inductive Outcome where
  | response (r : Except PyError Text)
  | events (r : Except PyError (List Event))
deriving DecidableEq

def Call.run : Call → Conn → Outcome × Conn
  | .send command, c => ((.response (Py.send command c).1), (Py.send command c).2)
  | .sendRaw command, c => ((.response (Py.sendRaw command c).1), (Py.sendRaw command c).2)
  | .pollEvents timeout, c =>
    ((.events (Py.pollEvents timeout c).1), (Py.pollEvents timeout c).2)

/-- The commands hold no line feed, the poll timeouts are positive. -/
def Call.Lawful : Call → Prop
  | .send command => '\n' ∉ command
  | .sendRaw command => '\n' ∉ command
  | .pollEvents timeout => 0 < timeout

/-- What a command makes of its reply. -/
def Call.answer : Call → Option (ReplyText → Except PyError Text)
  | .send _ => some fun t => unwrap t.1
  | .sendRaw _ => some fun t => .ok t.1
  | .pollEvents _ => none

/-- The bytes a call writes before it reads. -/
def Call.written : Call → Bytes
  | .send command => Utf8.encode (command ++ ['\n'])
  | .sendRaw command => Utf8.encode (command ++ ['\n'])
  | .pollEvents _ => []

/-- A call, the bytes that have arrived since the one before or arrive while it
reads, and how its reads meet them and the bytes left unread before. -/
structure Step where
  fresh : Bytes
  chunks : List Arrival
  call : Call

def Conn.deliver (chunks : List Arrival) (c : Conn) : Conn :=
  { c with sock := c.sock.map fun s => { s with arrivals := chunks } }

def Step.run (st : Step) (c : Conn) : Outcome × Conn := st.call.run (c.deliver st.chunks)

def run : List Step → Conn → List Outcome × Conn
  | [], c => ([], c)
  | st :: steps, c => ((st.run c).1 :: (run steps (st.run c).2).1, (run steps (st.run c).2).2)

def responses (outcomes : List Outcome) : List (Except PyError Text) :=
  outcomes.filterMap fun
    | .response r => some r
    | .events _ => none

def polled (outcomes : List Outcome) : List Event :=
  outcomes.flatMap fun
    | .events (.ok es) => es
    | .events (.error _) => []
    | .response _ => []

/-- The answers of the commands among the calls, each to the reply it is given. -/
def answers (steps : List Step) : List (ReplyText → Except PyError Text) :=
  steps.filterMap fun st => st.call.answer

def arrived (steps : List Step) : Bytes := steps.flatMap Step.fresh

/-- The network of a run. No byte is lost or made up, whatever the chunks, and the
server has not closed the connection. The bytes `received` come from the first
lines of the server, and no reply is among these before its command was written. -/
def Network (lines : List ServerLine) : Bytes → List Step → Conn → Prop
  | _, [], _ => True
  | received, st :: steps, c =>
    (st.chunks.flatMap Arrival.bytes = (c.sock.map Sock.unread).getD [] ++ st.fresh ∧
      .eof ∉ st.chunks) ∧
    (∃ n, received ++ st.fresh <+: render (lines.take n) ∧
      (repliesOf (lines.take n)).length ≤ (c.sent ++ st.call.written).count LF) ∧
    Network lines (received ++ st.fresh) steps (st.run c).2

/-- The events of the lines that begin in `s`. -/
def eventLines (s : Bytes) : List Event :=
  (s.splitOn LF).filterMap fun raw => do
    let line ← Utf8.decode? (chomp CR raw)
    if evtTag <+: line then (parseEvent line).toOption else none

theorem eventLines_bytes (l : ServerLine) (s : Bytes) :
    eventLines (l.bytes ++ s) = eventsOf [l] ++ eventLines s := by
  have hsplit : (l.bytes ++ s).splitOn LF = l.raw :: s.splitOn LF := by
    rw [l.bytes_eq, List.append_assoc]
    exact List.splitOn_append_cons_self_of_not_mem l.lf_not_mem_raw s
  rw [eventLines, hsplit, List.filterMap_cons, l.chomp_raw, Utf8.decode?_encode]
  cases l with
  | evt e =>
    have htag : evtTag <+: (ServerLine.evt e).text := evtTag_prefix_text e
    have hparse : parseEvent (ServerLine.evt e).text = .ok e.1 := parseEvent_text e
    simp [htag, hparse, eventLines, Except.toOption]
  | reply t =>
    have hnot : ¬ evtTag <+: (ServerLine.reply t).text := t.2.2
    simp [hnot, eventLines]

theorem eventLines_render (lines : List ServerLine) :
    eventLines (render lines) = eventsOf lines := by
  induction lines with
  | nil => decide +kernel
  | cons l lines ih =>
    rw [render_cons, eventLines_bytes, ih, ← eventsOf_append, List.singleton_append]

/-! ### Conservation -/

/-- The lines of the server are those consumed and `rest`. The consumed ones have
one reply for each command line written, and their events are those returned and
then the queue. What has been received of `rest` is the stream. -/
structure Conserved (lines rest : List ServerLine) (received : Bytes) (returned : List Event)
    (c : Conn) : Prop where
  open_ : c.sock ≠ none
  faults : .eof ∉ c.faults
  consumed : ∃ done, lines = done ++ rest ∧ received = render done ++ c.stream ∧
    (repliesOf done).length = c.sent.count LF ∧ eventsOf done = returned ++ c.pendingEvents

section Conserved

variable {lines rest : List ServerLine} {received : Bytes} {returned : List Event} {c : Conn}

theorem Conserved.deliver (hc : Conserved lines rest received returned c) {fresh : Bytes}
    {chunks : List Arrival}
    (hbytes : chunks.flatMap Arrival.bytes = (c.sock.map Sock.unread).getD [] ++ fresh)
    (heof : .eof ∉ chunks) :
    Conserved lines rest (received ++ fresh) returned (c.deliver chunks) := by
  obtain ⟨s, hsock⟩ := Option.ne_none_iff_exists'.mp hc.open_
  obtain ⟨done, hlines, hreceived, hreplies, hevents⟩ := hc.consumed
  rw [hsock] at hbytes
  constructor
  · simp [Conn.deliver, hsock]
  · intro hmem
    apply heof
    simp only [Conn.faults, Conn.deliver, hsock, Option.map_some, Sock.faults] at hmem
    exact (List.mem_filter.mp hmem).1
  · refine ⟨done, hlines, ?_, ?_, hevents⟩
    · have hstream : (c.deliver chunks).stream = c.stream ++ fresh := by
        simp only [Conn.stream, Conn.deliver, hsock, Option.map_some]
        rw [Sock.unread, hbytes, List.append_assoc]
        rfl
      rw [hreceived, hstream, List.append_assoc]
    · rw [hreplies]
      simp [Conn.sent, Conn.deliver, hsock]

theorem Conserved.stream_append (hc : Conserved lines rest received returned c) {future : Bytes}
    (h : received ++ future = render lines) : c.stream ++ future = render rest := by
  obtain ⟨done, rfl, rfl, -, -⟩ := hc.consumed
  rw [render_append, List.append_assoc] at h
  exact List.append_cancel_left h

/-- The lines `taken` go from the stream to what has been consumed. -/
theorem Conserved.advance {taken : List ServerLine} {c' : Conn} {returned' : List Event}
    (hc : Conserved lines (taken ++ rest) received returned c)
    (hopen : c'.sock ≠ none) (heof : .eof ∉ c'.faults)
    (hstream : c.stream = render taken ++ c'.stream)
    (hsent : c'.sent.count LF = c.sent.count LF + (repliesOf taken).length)
    (hevents : returned ++ c.pendingEvents ++ eventsOf taken = returned' ++ c'.pendingEvents) :
    Conserved lines rest received returned' c' := by
  obtain ⟨done, hlines, hreceived, hreplies, hdone⟩ := hc.consumed
  refine ⟨hopen, heof, done ++ taken, ?_, ?_, ?_, ?_⟩
  · rw [hlines, List.append_assoc]
  · rw [hreceived, hstream, render_append, List.append_assoc]
  · rw [repliesOf_append, List.length_append, hreplies, hsent]
  · rw [eventsOf_append, hdone, hevents]

theorem eq_map_evt_of_repliesOf {ls : List ServerLine} (h : repliesOf ls = []) :
    ∃ es : List WireEvent, ls = es.map .evt := by
  rcases events_or_reply ls with hes | ⟨es, t, ls, rfl⟩
  · exact hes
  · simp at h

/-- While no command waits, the server has sent events only. -/
theorem Conserved.events_ahead (hc : Conserved lines rest received returned c)
    (hcausal : ∃ n, received <+: render (lines.take n) ∧
      (repliesOf (lines.take n)).length ≤ c.sent.count LF) :
    ∃ (es : List WireEvent) (rest' : List ServerLine) (tail : Bytes),
      rest = es.map .evt ++ rest' ∧ c.stream ++ tail = render (es.map .evt) := by
  obtain ⟨done, rfl, rfl, hreplies, -⟩ := hc.consumed
  obtain ⟨n, hprefix, hcount⟩ := hcausal
  rw [List.take_append] at hprefix hcount
  have hevents : repliesOf (rest.take (n - done.length)) = [] := by
    rcases Nat.lt_or_ge n done.length with hlt | hge
    · rw [Nat.sub_eq_zero_of_le hlt.le]
      rfl
    · rw [List.take_of_length_le hge, repliesOf_append, List.length_append, hreplies] at hcount
      exact List.length_eq_zero_iff.mp (by omega)
  have hstream : c.stream <+: render (rest.take (n - done.length)) := by
    rw [← List.prefix_append_right_inj (render done)]
    refine hprefix.trans ?_
    rw [render_append]
    rcases Nat.lt_or_ge n done.length with hlt | hge
    · rw [Nat.sub_eq_zero_of_le hlt.le]
      conv_rhs => rw [← List.take_append_drop n done, render_append]
      simp
    · exact (List.take_of_length_le hge).symm ▸ List.prefix_rfl
  obtain ⟨es, hes⟩ := eq_map_evt_of_repliesOf hevents
  obtain ⟨tail, htail⟩ := hstream
  refine ⟨es, rest.drop (n - done.length), tail, ?_, hes ▸ htail⟩
  rw [← hes, List.take_append_drop]

end Conserved

/-- A command that did not get its reply in time. -/
def Outcome.TimedOut (o : Outcome) : Prop :=
  o = .response (.error .socketTimeout) ∨ o = .response (.error .blockingIOError)

/-- What one call does to the server's lines: a command takes the lines up to the
first reply, a poll takes events. -/
theorem Conserved.call {lines rest : List ServerLine} {received future : Bytes}
    {returned : List Event} {c : Conn} {call : Call}
    (hc : Conserved lines rest received returned c) (hlawful : call.Lawful)
    (hfuture : received ++ future = render lines)
    (hcausal : ∃ n, received <+: render (lines.take n) ∧
      (repliesOf (lines.take n)).length ≤ (c.sent ++ call.written).count LF)
    (htime : ¬ (call.run c).1.TimedOut) :
    ∃ rest', Conserved lines rest' received (returned ++ polled [(call.run c).1])
        (call.run c).2 ∧
      ((∃ f t, call.answer = some f ∧ (call.run c).1 = .response (f t) ∧
          repliesOf rest = t :: repliesOf rest') ∨
        (∃ es, call.answer = none ∧ (call.run c).1 = .events (.ok es) ∧
          repliesOf rest = repliesOf rest')) := by
  have hstream := hc.stream_append hfuture
  -- `send` and `send_raw` leave the same connection behind
  have command : ∀ text : Text, '\n' ∉ text →
      (¬ (∃ e c', sendRaw text c = (.error e, c') ∧
        (e = .socketTimeout ∨ e = .blockingIOError))) →
      ∃ (t : ReplyText) (rest' : List ServerLine) (c' : Conn),
        sendRaw text c = (.ok t.1, c') ∧ repliesOf rest = t :: repliesOf rest' ∧
        Conserved lines rest' received returned c' := by
    intro text hlf hnone
    rcases sendRaw_lines hc.open_ hc.faults hlf hstream with
      ⟨es, t, rest', c', rfl, hsend, hopen, heof, hsent, htaken, hpending⟩ | herr
    · refine ⟨t, rest', c', hsend, by simp, ?_⟩
      have hsplit : (es.map .evt ++ .reply t :: rest' : List ServerLine) =
          (es.map .evt ++ [.reply t]) ++ rest' := by simp
      rw [hsplit] at hc
      apply hc.advance hopen heof htaken
      · simp [hsent]
      · simp [hpending]
    · exact absurd herr hnone
  cases call with
  | send text =>
    obtain ⟨t, rest', c', hsend, hreplies, hc'⟩ := command text hlawful (by
      rintro ⟨e, c', hsend, he⟩
      apply htime
      rw [Call.run, send_eq, hsend]
      rcases he with rfl | rfl
      · exact Or.inl rfl
      · exact Or.inr rfl)
    have hrun : (Call.send text).run c = (.response (unwrap t.1), c') := by
      rw [Call.run, send_eq, hsend]
    rw [hrun]
    exact ⟨rest', by simpa [polled] using hc', Or.inl ⟨_, t, rfl, rfl, hreplies⟩⟩
  | sendRaw text =>
    obtain ⟨t, rest', c', hsend, hreplies, hc'⟩ := command text hlawful (by
      rintro ⟨e, c', hsend, he⟩
      apply htime
      rw [Call.run, hsend]
      rcases he with rfl | rfl
      · exact Or.inl rfl
      · exact Or.inr rfl)
    have hrun : (Call.sendRaw text).run c = (.response (.ok t.1), c') := by rw [Call.run, hsend]
    rw [hrun]
    exact ⟨rest', by simpa [polled] using hc', Or.inl ⟨_, t, rfl, rfl, hreplies⟩⟩
  | pollEvents timeout =>
    rw [Call.written, List.append_nil] at hcausal
    obtain ⟨es, rest', tail, rfl, htail⟩ := hc.events_ahead hcausal
    obtain ⟨done, left, c', rfl, hpoll, hdrop, hpending⟩ :=
      pollEvents_events hlawful hc.open_ htail
    have hrun : (Call.pollEvents timeout).run c =
        (.events (.ok (c.pendingEvents ++ done.map Subtype.val)), c') := by rw [Call.run, hpoll]
    rw [hrun]
    refine ⟨left.map .evt ++ rest', ?_, Or.inr ⟨_, rfl, rfl, by simp⟩⟩
    rw [List.map_append, List.append_assoc] at hc
    apply hc.advance (hdrop.open_ hc.open_) (fun hmem => hc.faults (hdrop.faults hmem))
      hdrop.stream
    · simp [hdrop.sent]
    · simp [polled, hpending]

theorem Conserved.run {lines : List ServerLine} {future : Bytes} :
    ∀ {steps : List Step} {rest : List ServerLine} {received : Bytes} {returned : List Event}
      {c : Conn}, Conserved lines rest received returned c → Network lines received steps c →
    (∀ st ∈ steps, st.call.Lawful) → (∀ o ∈ (run steps c).1, ¬ o.TimedOut) →
    received ++ arrived steps ++ future = render lines →
    ∃ rest', Conserved lines rest' (received ++ arrived steps)
        (returned ++ polled (run steps c).1) (run steps c).2 ∧
      responses (run steps c).1 = List.zipWith (fun f t => f t) (answers steps) (repliesOf rest) ∧
      (answers steps).length ≤ (repliesOf rest).length ∧
      (∀ e, .events (.error e) ∉ (run steps c).1) := by
  intro steps
  induction steps with
  | nil =>
    intro rest received returned c hc _ _ _ _
    refine ⟨rest, ?_, rfl, Nat.zero_le _, by simp [Py.run]⟩
    simpa [Py.run, polled, arrived] using hc
  | cons st steps ih =>
    intro rest received returned c hc hnetwork hlawful htime hfuture
    obtain ⟨⟨hbytes, heof⟩, hcausal, hnetwork⟩ := hnetwork
    have hdeliver := hc.deliver hbytes heof
    have harrived : arrived (st :: steps) = st.fresh ++ arrived steps := rfl
    rw [harrived, ← List.append_assoc] at hfuture
    have hsent : (c.deliver st.chunks).sent = c.sent := by
      cases hsock : c.sock <;> simp [Conn.deliver, Conn.sent, hsock]
    rw [← hsent] at hcausal
    rw [List.append_assoc] at hfuture
    obtain ⟨rest₁, hc₁, hserved⟩ :=
      hdeliver.call (hlawful st (by simp)) hfuture hcausal (htime _ (by simp [Py.run, Step.run]))
    have hstep : st.call.run (c.deliver st.chunks) = st.run c := rfl
    rw [hstep] at hc₁ hserved
    rw [← List.append_assoc] at hfuture
    obtain ⟨rest₂, hc₂, hresponses, hlength, hok⟩ :=
      ih hc₁ hnetwork (fun st' h => hlawful st' (by simp [h]))
        (fun o ho => htime o (by simpa [Py.run, Step.run] using Or.inr ho)) hfuture
    have hrun : Py.run (st :: steps) c =
        ((st.run c).1 :: (Py.run steps (st.run c).2).1, (Py.run steps (st.run c).2).2) := rfl
    have hpolled : polled ((st.run c).1 :: (Py.run steps (st.run c).2).1) =
        polled [(st.run c).1] ++ polled (Py.run steps (st.run c).2).1 := by simp [polled]
    rw [hrun, harrived, hpolled, ← List.append_assoc, ← List.append_assoc]
    refine ⟨rest₂, hc₂, ?_⟩
    rcases hserved with ⟨f, t, hanswer, houtcome, hreplies⟩ | ⟨es, hanswer, houtcome, hreplies⟩
    · have hfirst : answers (st :: steps) = f :: answers steps := by simp [answers, hanswer]
      have hhead : responses ((st.run c).1 :: (Py.run steps (st.run c).2).1) =
          f t :: responses (Py.run steps (st.run c).2).1 := by simp [responses, houtcome]
      dsimp only
      rw [hfirst, hreplies, hhead, hresponses]
      refine ⟨rfl, by simpa using hlength, ?_⟩
      intro e hmem
      rcases List.mem_cons.mp hmem with heq | hmem
      · rw [houtcome] at heq
        cases heq
      · exact hok e hmem
    · have hfirst : answers (st :: steps) = answers steps := by simp [answers, hanswer]
      have hhead : responses ((st.run c).1 :: (Py.run steps (st.run c).2).1) =
          responses (Py.run steps (st.run c).2).1 := by simp [responses, houtcome]
      dsimp only
      rw [hfirst, hreplies, hhead, hresponses]
      refine ⟨rfl, hlength, ?_⟩
      intro e hmem
      rcases List.mem_cons.mp hmem with heq | hmem
      · rw [houtcome] at heq
        cases heq
      · exact hok e hmem

/-- A connection that `_connect` has just opened, without a password. -/
def Conn.opened (timeout : Rat) : Conn := (connect [] ⟨timeout, none, none, [], []⟩).2

theorem Conserved.opened (timeout : Rat) (lines : List ServerLine) :
    Conserved lines lines [] [] (Conn.opened timeout) := by
  refine ⟨?_, ?_, [], rfl, rfl, rfl, rfl⟩
  · simp [Conn.opened, connect]
  · simp [Conn.opened, connect, Conn.faults, Sock.faults]

/-- **Demultiplexing.** Every command gets its own reply, no poll raises, and the
events returned, queued and still to be read are the server's, in order. -/
theorem run_demultiplexes (timeout : Rat) (lines : List ServerLine) (steps : List Step)
    (future : Bytes) (hlawful : ∀ st ∈ steps, st.call.Lawful)
    (hnetwork : Network lines [] steps (Conn.opened timeout))
    (hfuture : arrived steps ++ future = render lines)
    (htime : ∀ o ∈ (run steps (Conn.opened timeout)).1, ¬ o.TimedOut) :
    let outcomes := (run steps (Conn.opened timeout)).1
    let c := (run steps (Conn.opened timeout)).2
    (answers steps).length ≤ (repliesOf lines).length ∧
      responses outcomes = List.zipWith (fun f t => f t) (answers steps) (repliesOf lines) ∧
      (∀ e, .events (.error e) ∉ outcomes) ∧
      polled outcomes ++ c.pendingEvents ++ eventLines (c.stream ++ future) = eventsOf lines := by
  obtain ⟨rest, hc, hresponses, hlength, hok⟩ :=
    (Conserved.opened timeout lines).run hnetwork hlawful htime hfuture
  refine ⟨hlength, hresponses, hok, ?_⟩
  obtain ⟨done, hlines, -, -, hevents⟩ := hc.consumed
  rw [List.nil_append] at hevents
  rw [hc.stream_append hfuture, eventLines_render, ← hevents, ← eventsOf_append, ← hlines]

/-- A poll that meets one event and a part of the next, then a command. -/
theorem run_demultiplexes_cut_event :
    let first := Utf8.encode ">EVT 0 0 1 INS\r\n>EVT 0".toList
    let second := Utf8.encode " 0 2 INS\r\n+OK 7\r\n>EVT".toList
    let future := Utf8.encode " 0 0 1 DEL\r\n".toList
    let steps : List Step :=
      [⟨first, [.data ⟨first, by decide⟩], .pollEvents 1⟩,
        ⟨second, [.data ⟨second, by decide⟩], .send "COUNT 0 0".toList⟩]
    let outcomes := (run steps (Conn.opened 30)).1
    let c := (run steps (Conn.opened 30)).2
    responses outcomes = [.ok "7".toList] ∧
      polled outcomes ++ c.pendingEvents ++ eventLines (c.stream ++ future) =
        [⟨0, 0, 1, "INS".toList⟩, ⟨0, 0, 2, "INS".toList⟩, ⟨0, 0, 1, "DEL".toList⟩] := by
  intro first second future steps outcomes c
  have h := run_demultiplexes 30
    [.evt ⟨⟨0, 0, 1, "INS".toList⟩, by decide⟩,
      .evt ⟨⟨0, 0, 2, "INS".toList⟩, by decide⟩,
      .reply ⟨"+OK 7".toList, by decide⟩, .evt ⟨⟨0, 0, 1, "DEL".toList⟩, by decide⟩]
    steps future (by simp [steps, Call.Lawful])
    ⟨⟨by decide +kernel, by decide⟩, ⟨2, by decide +kernel, by decide +kernel⟩,
      ⟨by decide +kernel, by decide⟩, ⟨4, by decide +kernel, by decide +kernel⟩, trivial⟩
    (by decide +kernel)
    (by
      have houtcomes : (run steps (Conn.opened 30)).1 =
          [.events (.ok [⟨0, 0, 1, "INS".toList⟩]), .response (.ok "7".toList)] := by
        decide +kernel
      rw [houtcomes]
      simp [Outcome.TimedOut])
  exact ⟨h.2.1, h.2.2.2⟩

end CuttleDB.Py
