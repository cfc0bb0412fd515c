import CuttleDB.PyDemultiplexing

/-!
# Closing and connecting again

`close` drops the socket and keeps what has been read from it, the byte buffer and
the queue of events. A later `__enter__` puts a new socket behind them. Two
histories of one object are compared by what is observed after they were closed
and connected to one new server.
-/

namespace CuttleDB.Py

open Framing

/-! ### Histories -/

inductive Operation where
  | call (request : Call)
  | sendBatch (commands : List Text)

inductive Returned where
  | outcome (o : Outcome)
  | batch (r : Except PyError (List Text))
deriving DecidableEq

def Operation.run : Operation → Conn → Returned × Conn
  | .call request, c => (.outcome (request.run c).1, (request.run c).2)
  | .sendBatch commands, c => (.batch (Py.sendBatch commands c).1, (Py.sendBatch commands c).2)

def operate : List Operation → Conn → List Returned × Conn
  | [], c => ([], c)
  | op :: ops, c => ((op.run c).1 :: (operate ops (op.run c).2).1, (operate ops (op.run c).2).2)

/-- `CuttleDB(...)`, not connected yet. -/
def Conn.created (timeout : Rat) (auth : Option Text) : Conn := ⟨timeout, auth, none, [], []⟩

/-- `__enter__`, on a server whose bytes the reads will meet as `arrivals`. -/
def enter (arrivals : List Arrival) (c : Conn) : Except PyError Unit × Conn :=
  if c.sock = none then connect arrivals c else (.ok (), c)

/-- What a program does to the object. The bytes of a connection, a `recv` that
finds nothing and the end of the stream are given when it is opened. -/
inductive Action where
  | operation (op : Operation)
  | enter (arrivals : List Arrival)
  | connect (arrivals : List Arrival)
  | close

def Action.run : Action → Conn → Conn
  | .operation op, c => (op.run c).2
  | .enter arrivals, c => (Py.enter arrivals c).2
  | .connect arrivals, c => (Py.connect arrivals c).2
  | .close, c => Py.close c

/-- The object after a history. -/
def after (timeout : Rat) (auth : Option Text) (h : List Action) : Conn :=
  h.foldl (fun c a => a.run c) (.created timeout auth)

/-- What is seen of the object from `__enter__` on. -/
def observe (arrivals : List Arrival) (ops : List Operation) (c : Conn) :
    Except PyError Unit × List Returned :=
  ((enter arrivals c).1, (operate ops (enter arrivals c).2).1)

/-- After `close()` and a connection to any new server, the two histories are the
same to any operations, and the same as no history. -/
def SessionsIsolated (timeout : Rat) (auth : Option Text) (h₁ h₂ : List Action) : Prop :=
  ∀ (arrivals : List Arrival) (ops : List Operation),
    observe arrivals ops (close (after timeout auth h₁)) =
        observe arrivals ops (close (after timeout auth h₂)) ∧
      observe arrivals ops (close (after timeout auth h₁)) =
        observe arrivals ops (.created timeout auth)

/-! ### What an operation leaves as it was -/

/-- The settings of the constructor. -/
def Conn.settings (c : Conn) : Rat × Option Text := (c.timeout, c.auth)

theorem Conn.Reads.settings {c c' : Conn} {d : Bytes} (h : c.Reads d c') :
    c'.settings = c.settings := by
  simp only [Conn.settings, h.timeout, h.auth]

theorem write_settings (data : Bytes) (c : Conn) : (write data c).2.settings = c.settings := by
  cases hsock : c.sock <;> simp [write, hsock, Conn.settings]

theorem readResponse_settings (c : Conn) : (readResponse c).2.settings = c.settings := by
  obtain ⟨d, hreads⟩ := readResponse_reads c
  exact hreads.settings

theorem sendRaw_settings (command : Text) (c : Conn) :
    (sendRaw command c).2.settings = c.settings := by
  have hwrite := write_settings (Utf8.encode (command ++ ['\n'])) c
  rw [sendRaw]
  rcases heq : write (Utf8.encode (command ++ ['\n'])) c with ⟨e | ⟨⟩, c'⟩ <;> rw [heq] at hwrite
  · exact hwrite
  · exact (readResponse_settings c').trans hwrite

theorem send_conn (command : Text) (c : Conn) : (send command c).2 = (sendRaw command c).2 := by
  rw [send_eq]
  rcases sendRaw command c with ⟨e | line, c'⟩ <;> rfl

theorem send_settings (command : Text) (c : Conn) : (send command c).2.settings = c.settings := by
  rw [send_conn]
  exact sendRaw_settings command c

theorem sendBatch_settings (commands : List Text) (c : Conn) :
    (sendBatch commands c).2.settings = c.settings := by
  rw [sendBatch]
  split
  · rfl
  · have hwrite := write_settings (Utf8.encode (['\n'].intercalate commands ++ ['\n'])) c
    rcases heq : write (Utf8.encode (['\n'].intercalate commands ++ ['\n'])) c with ⟨e | ⟨⟩, c'⟩ <;>
      rw [heq] at hwrite
    · exact hwrite
    · obtain ⟨d, hreads⟩ := unwrapResponses_reads commands c'
      exact hreads.settings.trans hwrite

def Drained.conn : Drained → Conn
  | .empty _ c => c
  | .stashed _ c => c
  | .raised _ c => c

theorem drainLines_settings {events : List Event} {c : Conn} {drained : Drained}
    (h : drainLines events c = drained) : drained.conn.settings = c.settings := by
  subst h
  fun_induction drainLines events c with
  | case1 => rfl
  | case2 => rfl
  | case3 => rfl
  | case4 _ _ _ _ _ _ _ _ _ _ ih => exact ih
  | case5 => rfl

theorem pollLoop_settings (events : List Event) (s : Sock) (c : Conn) :
    (pollLoop events s c).2.settings = c.settings := by
  fun_induction pollLoop events s c with
  | case1 => rfl
  | case2 => rfl
  | case3 => rfl
  | case4 _ _ _ _ _ _ _ _ _ hdrain => exact drainLines_settings hdrain
  | case5 _ _ _ _ _ _ _ _ _ hdrain => exact drainLines_settings hdrain
  | case6 _ _ _ _ _ _ _ _ _ hdrain => exact drainLines_settings hdrain
  | case7 _ _ _ _ _ _ _ _ _ hdrain _ ih => exact ih.trans (drainLines_settings hdrain)

theorem pollEvents_settings (timeout : Rat) (c : Conn) :
    (pollEvents timeout c).2.settings = c.settings := by
  rw [pollEvents]
  dsimp only
  split
  · rfl
  · split
    · rfl
    · split
      · rfl
      · exact pollLoop_settings _ _ _

theorem Operation.run_settings (op : Operation) (c : Conn) :
    (op.run c).2.settings = c.settings := by
  cases op with
  | call request =>
    cases request with
    | send command => exact send_settings command c
    | sendRaw command => exact sendRaw_settings command c
    | pollEvents timeout => exact pollEvents_settings timeout c
  | sendBatch commands => exact sendBatch_settings commands c

/-- The connection on its new socket. -/
def Conn.onSocket (arrivals : List Arrival) (c : Conn) : Conn :=
  { c with sock := some ⟨arrivals, c.timeout, []⟩ }

theorem connect_eq (arrivals : List Arrival) (c : Conn) :
    connect arrivals c =
      match c.auth with
      | none => (.ok (), c.onSocket arrivals)
      | some auth =>
        match send ("AUTH ".toList ++ auth) (c.onSocket arrivals) with
        | (.error e, c) => (.error e, c)
        | (.ok _, c) => (.ok (), c) :=
  rfl

/-- With a password, a connection is opened by a command. -/
theorem connect_of_auth {c : Conn} {auth : Text} (hauth : c.auth = some auth)
    (arrivals : List Arrival) :
    connect arrivals c =
      ((send ("AUTH ".toList ++ auth) (c.onSocket arrivals)).1.map fun _ => (),
        (send ("AUTH ".toList ++ auth) (c.onSocket arrivals)).2) := by
  rw [connect_eq, hauth]
  dsimp only
  rcases send ("AUTH ".toList ++ auth) (c.onSocket arrivals) with ⟨e | line, c'⟩ <;> rfl

theorem connect_of_no_auth {c : Conn} (hauth : c.auth = none) (arrivals : List Arrival) :
    connect arrivals c = (.ok (), c.onSocket arrivals) := by
  rw [connect_eq, hauth]

theorem connect_settings (arrivals : List Arrival) (c : Conn) :
    (connect arrivals c).2.settings = c.settings := by
  cases hauth : c.auth with
  | none =>
    rw [connect_of_no_auth hauth]
    rfl
  | some auth =>
    rw [connect_of_auth hauth]
    exact send_settings _ _

theorem Action.run_settings (a : Action) (c : Conn) : (a.run c).settings = c.settings := by
  cases a with
  | operation op => exact op.run_settings c
  | enter arrivals =>
    rw [Action.run, Py.enter]
    split
    · exact connect_settings arrivals c
    · rfl
  | connect arrivals => exact connect_settings arrivals c
  | close => rfl

theorem after_settings (timeout : Rat) (auth : Option Text) (h : List Action) :
    (after timeout auth h).settings = (timeout, auth) := by
  rw [after]
  induction h using List.reverseRecOn with
  | nil => rfl
  | append_singleton h a ih =>
    rw [List.foldl_append]
    exact (a.run_settings _).trans ih

/-! ### What `close` keeps -/

/-- Nothing read from the connection is waiting to be returned. -/
def Conn.Consumed (c : Conn) : Prop := c.buf = [] ∧ c.pendingEvents = []

instance (c : Conn) : Decidable c.Consumed := inferInstanceAs (Decidable (_ ∧ _))

theorem Conn.Consumed.close_eq {timeout : Rat} {auth : Option Text} {h : List Action}
    (hc : (after timeout auth h).Consumed) :
    close (after timeout auth h) = .created timeout auth := by
  have hsettings := after_settings timeout auth h
  rcases hafter : after timeout auth h with ⟨timeout', auth', sock, buf, pendingEvents⟩
  rw [hafter] at hc hsettings
  obtain ⟨rfl, rfl⟩ := hc
  obtain ⟨rfl, rfl⟩ := Prod.mk.inj hsettings
  rfl

theorem ReadError.ne_server {c : Conn} {e : PyError} (h : ReadError c e) (t : Text) :
    e ≠ .cuttleDBError (.server t) := by
  cases h with
  | notConnected => simp
  | connectionClosed => simp
  | noData s =>
    unfold Sock.noData
    split <;> simp

/-- `_read_response` adds to the queue the events it passes, and returns the line
behind them. No error it raises is the server's. -/
theorem readResponse_queues (c : Conn) :
    (∃ es d raw line c', readResponse c = (.ok line, c') ∧ Utf8.encode line = chomp CR raw ∧
      LF ∉ raw ∧ c.Reads (d ++ (raw ++ [LF])) c' ∧ c'.pendingEvents = c.pendingEvents ++ es ∧
      (es = [] → d = [])) ∨
    (∃ es e c', readResponse c = (.error e, c') ∧ (∀ t, e ≠ .cuttleDBError (.server t)) ∧
      c'.pendingEvents = c.pendingEvents ++ es) := by
  -- on the stream: each line read leaves less of it
  induction hn : c.stream.length using Nat.strong_induction_on generalizing c with
  | _ n ih =>
    rcases readline_cases c with
      ⟨raw, c', hread, hlf, hreads, hpending⟩ | ⟨e, c', hread, herr, -, hpending⟩
    · rw [readResponse]
      split <;> rename_i heq <;> rw [hread] at heq <;> cases heq
      split
      · exact Or.inr ⟨[], _, c', rfl, by simp, by simp [hpending]⟩
      · rename_i line hline
        have hencode := Utf8.encode_of_decode? hline
        split
        · split
          · rename_i e hparse
            refine Or.inr ⟨[], e, c', rfl, ?_, by simp [hpending]⟩
            rintro t rfl
            rw [parseEvent] at hparse
            split at hparse
            · split at hparse <;> cases hparse
            · cases hparse
          · rename_i event _
            have hlt : c'.stream.length < n := hn ▸ hreads.stream_length_lt
            rcases ih _ hlt { c' with pendingEvents := c'.pendingEvents ++ [event] } rfl with
              ⟨es, d, raw', line', c'', hok, hencode', hlf', hreads', hpending', -⟩ |
              ⟨es, e, c'', herr, hserver, hpending'⟩
            · refine Or.inl ⟨event :: es, raw ++ [LF] ++ d, raw', line', c'', hok, hencode', hlf',
                ?_, by simp [hpending', hpending], by simp⟩
              have hboth := (hreads.withPending (c'.pendingEvents ++ [event])).trans hreads'
              rwa [← List.append_assoc] at hboth
            · exact Or.inr ⟨event :: es, e, c'', herr, hserver, by simp [hpending', hpending]⟩
        · exact Or.inl ⟨[], [], raw, line, c', rfl, hencode, hlf, hreads, by simp [hpending],
            fun _ => rfl⟩
    · exact Or.inr ⟨[], e, c', readResponse_of_error hread, herr.ne_server, by simp [hpending]⟩

/-! ### Telling two histories apart -/

/-- A refusal that is longer than `n` bytes. -/
def refusal (n : Nat) : ReplyText :=
  ⟨"-ERR ".toList ++ List.replicate n 'x', by
    constructor
    · simp [List.mem_replicate]
    · rintro ⟨_, h⟩
      cases h⟩

theorem length_refusal (n : Nat) : (refusal n).1.length = 5 + n := by
  have hlength : ("-ERR ".toList ++ List.replicate n 'x').length = 5 + n := by
    rw [List.length_append, List.length_replicate]
    rfl
  exact hlength

/-- The new server's bytes: one refusal. -/
def refusing (n : Nat) : List Arrival :=
  [.data ⟨(ServerLine.reply (refusal n)).bytes, by simp [ServerLine.bytes]⟩]

theorem unwrap_refusal (n : Nat) :
    unwrap (refusal n).1 = .error (.cuttleDBError (.server (List.replicate n 'x'))) := by
  rfl

theorem eq_of_unwrap_server {line t : Text}
    (h : unwrap line = .error (.cuttleDBError (.server t))) : line = "-ERR ".toList ++ t := by
  rw [unwrap] at h
  split at h
  · cases h
  · split at h
    · rename_i hprefix
      obtain ⟨rest, rfl⟩ := hprefix
      cases h
      rfl
    · cases h

/-- In front of a refusal this long there is nothing, if it is the first line. -/
theorem eq_nil_of_first_line {buf raw rest : Bytes} (hlf : LF ∉ raw)
    (hraw : Utf8.encode (refusal buf.length).1 = chomp CR raw)
    (h : buf ++ (ServerLine.reply (refusal buf.length)).bytes = raw ++ LF :: rest) : buf = [] := by
  by_cases hbuf : LF ∈ buf
  · -- the first line is a part of `buf`, and too short
    obtain ⟨line, tail, hsplit, hline⟩ := List.eq_append_cons_of_mem hbuf
    obtain ⟨rfl, -⟩ := line_of_prefix hline hlf hsplit h
    have hlong := Utf8.length_le_encode (refusal buf.length).1
    have hshort := length_chomp_le CR line
    rw [← hraw] at hshort
    have hlength : buf.length = line.length + (tail.length + 1) := by
      rw [hsplit, List.length_append, List.length_cons]
    have htext := length_refusal buf.length
    omega
  · have hraw' : LF ∉ buf ++ (ServerLine.reply (refusal buf.length)).raw := by
      simpa [hbuf] using ServerLine.lf_not_mem_raw _
    rw [ServerLine.bytes_eq, ← List.append_assoc] at h
    obtain ⟨rfl, -⟩ := line_unique hraw' hlf h
    rw [ServerLine.raw, ← List.append_assoc, chomp_concat] at hraw
    exact List.self_eq_append_left.mp hraw

/-- An object that kept something gives another answer than the server's, or has an
event in the queue. -/
theorem send_refusing {c : Conn} (command : Text) (hc : ¬ c.Consumed)
    (hreply : (send command (c.onSocket (refusing c.buf.length))).1 =
      .error (.cuttleDBError (.server (List.replicate c.buf.length 'x')))) :
    (send command (c.onSocket (refusing c.buf.length))).2.pendingEvents ≠ [] := by
  obtain ⟨c₁, hwrite, -, -, hstream, -, hpending, -⟩ :=
    write_open (c := c.onSocket (refusing c.buf.length)) (by simp [Conn.onSocket])
      (Utf8.encode (command ++ ['\n']))
  have hstream₁ : c₁.stream = c.buf ++ (ServerLine.reply (refusal c.buf.length)).bytes := by
    rw [hstream]
    simp [Conn.stream, Conn.onSocket, Sock.unread, refusing, Arrival.bytes]
  rw [send, hwrite] at hreply ⊢
  dsimp only at hreply ⊢
  intro hnone
  rcases readResponse_queues c₁ with
    ⟨es, d, raw, line, c', hread, hencode, hlf, hreads, hpending', hnothing⟩ |
    ⟨es, e, c', hread, hserver, -⟩
  · rw [hread] at hreply hnone
    dsimp only at hreply hnone
    obtain rfl := eq_of_unwrap_server hreply
    rw [hpending', hpending] at hnone
    obtain ⟨hqueue, rfl⟩ := List.append_eq_nil_iff.mp hnone
    obtain rfl := hnothing rfl
    have hfirst := hreads.stream
    rw [hstream₁, List.nil_append, List.append_assoc, List.singleton_append] at hfirst
    exact hc ⟨eq_nil_of_first_line hlf hencode hfirst, hqueue⟩
  · rw [hread] at hreply
    cases hreply
    exact hserver _ rfl

/-- A new object gives the server's answer, and a poll finds nothing. -/
theorem send_refusing_created (timeout : Rat) (auth : Option Text) (command : Text) (n : Nat) :
    ∃ c', send command ((Conn.created timeout auth).onSocket (refusing n)) =
        (.error (.cuttleDBError (.server (List.replicate n 'x'))), c') ∧
      (pollEvents 1 c').1 = .ok [] := by
  obtain ⟨c₁, hwrite, hopen, -, hstream, hfaults, hpending, -⟩ :=
    write_open (c := (Conn.created timeout auth).onSocket (refusing n)) (by simp [Conn.onSocket])
      (Utf8.encode (command ++ ['\n']))
  have hflow : c₁.Flowing := ⟨hopen, hfaults⟩
  have hfront : c₁.stream =
      render ([].map .evt) ++ ((ServerLine.reply (refusal n)).bytes ++ []) := by
    rw [hstream]
    simp [Conn.stream, Conn.onSocket, Conn.created, Sock.unread, refusing, Arrival.bytes]
  obtain ⟨c₂, hread, hflow₂, hempty, hpending₂⟩ := readResponse_flowing hflow hfront
  have hrest : c₂.stream ++ [] = render ([].map .evt) := by rw [hempty]; rfl
  obtain ⟨done, left, c₃, hnone, hpoll, -⟩ :=
    pollEvents_events (show (0 : Rat) < 1 by decide) hflow₂.open_ hrest
  obtain ⟨rfl, rfl⟩ := List.append_eq_nil_iff.mp hnone.symm
  refine ⟨c₂, ?_, ?_⟩
  · rw [send, hwrite]
    dsimp only
    rw [hread]
    exact congrArg (·, c₂) (unwrap_refusal n)
  · rw [hpoll, hpending₂, hpending]
    rfl

/-- What the object kept shows in the first answer or in the next poll. -/
theorem exists_observe_ne {timeout : Rat} {auth : Option Text} {c : Conn}
    (hsettings : c.settings = (timeout, auth)) (hsock : c.sock = none) (hc : ¬ c.Consumed) :
    ∃ arrivals ops, observe arrivals ops c ≠ observe arrivals ops (.created timeout auth) := by
  obtain ⟨rfl, rfl⟩ := Prod.mk.inj hsettings
  have hclosed : ∀ arrivals, enter arrivals c = connect arrivals c := fun _ => if_pos hsock
  have hcreated : ∀ arrivals, enter arrivals (.created c.timeout c.auth) =
      connect arrivals (.created c.timeout c.auth) := fun _ => if_pos rfl
  cases hauth : c.auth with
  | none =>
    obtain ⟨c', hanswer, hpoll⟩ :=
      send_refusing_created c.timeout none "PING".toList c.buf.length
    refine ⟨refusing c.buf.length,
      [.call (.send "PING".toList), .call (.pollEvents 1)], fun heq => ?_⟩
    rw [hauth] at hcreated
    rw [observe, observe, hclosed, hcreated, connect_of_no_auth hauth, connect_of_no_auth rfl] at heq
    simp only [operate, Operation.run, Call.run, Prod.mk.injEq, List.cons.injEq,
      Returned.outcome.injEq, Outcome.response.injEq, Outcome.events.injEq] at heq
    obtain ⟨-, hfirst, hnext, -⟩ := heq
    rw [hanswer] at hfirst hnext
    have hqueued := send_refusing "PING".toList hc hfirst
    rw [pollEvents_queued hqueued, hpoll] at hnext
    exact hqueued (Except.ok.inj hnext)
  | some auth =>
    obtain ⟨c', hanswer, hpoll⟩ :=
      send_refusing_created c.timeout (some auth) ("AUTH ".toList ++ auth) c.buf.length
    refine ⟨refusing c.buf.length, [.call (.pollEvents 1)], fun heq => ?_⟩
    rw [hauth] at hcreated
    rw [observe, observe, hclosed, hcreated, connect_of_auth hauth, connect_of_auth rfl] at heq
    simp only [operate, Operation.run, Call.run, Prod.mk.injEq, List.cons.injEq,
      Returned.outcome.injEq, Outcome.events.injEq] at heq
    obtain ⟨hfirst, hnext, -⟩ := heq
    rw [hanswer] at hfirst hnext
    have hserver : (send ("AUTH ".toList ++ auth) (c.onSocket (refusing c.buf.length))).1 =
        .error (.cuttleDBError (.server (List.replicate c.buf.length 'x'))) := by
      rcases hsend : (send ("AUTH ".toList ++ auth) (c.onSocket (refusing c.buf.length))).1
        with e | line <;> rw [hsend] at hfirst <;> cases hfirst
      rfl
    have hqueued := send_refusing _ hc hserver
    rw [pollEvents_queued hqueued, hpoll] at hnext
    exact hqueued (Except.ok.inj hnext)

/-- **Sessions are isolated exactly when nothing was left to read.** -/
theorem sessions_isolated_iff (timeout : Rat) (auth : Option Text) (h₁ h₂ : List Action) :
    SessionsIsolated timeout auth h₁ h₂ ↔
      (after timeout auth h₁).Consumed ∧ (after timeout auth h₂).Consumed := by
  have consumed : ∀ h : List Action,
      (∀ arrivals ops, observe arrivals ops (close (after timeout auth h)) =
        observe arrivals ops (.created timeout auth)) → (after timeout auth h).Consumed := by
    intro h hobserve
    by_contra hc
    have hsettings : (close (after timeout auth h)).settings = (timeout, auth) :=
      after_settings timeout auth h
    obtain ⟨arrivals, ops, hne⟩ := exists_observe_ne hsettings rfl hc
    exact hne (hobserve arrivals ops)
  constructor
  · intro hisolated
    exact ⟨consumed h₁ fun arrivals ops => (hisolated arrivals ops).2,
      consumed h₂ fun arrivals ops => ((hisolated arrivals ops).1.symm.trans
        (hisolated arrivals ops).2)⟩
  · rintro ⟨hc₁, hc₂⟩ arrivals ops
    rw [hc₁.close_eq, hc₂.close_eq]
    exact ⟨rfl, rfl⟩

/-- A batch raises at its first reply and leaves the second one in the buffer: on the next
connection it is the answer to `PING`. -/
theorem failed_batch_answers_ping :
    let first := Utf8.encode "-ERR bad value\r\n+OK 4\r\n".toList
    let second := Utf8.encode "+OK PONG\r\n".toList
    let failed : List Action :=
      [.enter [.data ⟨first, by decide⟩],
        .operation (.sendBatch ["INSERT 0 0 a".toList, "INSERT 0 0 b".toList])]
    let ping : List Operation := [.call (.send "PING".toList)]
    observe [.data ⟨second, by decide⟩] ping (close (after 30 none failed)) =
        (.ok (), [.outcome (.response (.ok "4".toList))]) ∧
      observe [.data ⟨second, by decide⟩] ping (close (after 30 none [])) =
        (.ok (), [.outcome (.response (.ok "PONG".toList))]) ∧
      ¬ SessionsIsolated 30 none failed [] := by
  intro first second failed ping
  have hkept : observe [.data ⟨second, by decide⟩] ping (close (after 30 none failed)) =
      (.ok (), [.outcome (.response (.ok "4".toList))]) := by
    decide +kernel
  have hnew : observe [.data ⟨second, by decide⟩] ping (close (after 30 none [])) =
      (.ok (), [.outcome (.response (.ok "PONG".toList))]) := by
    decide +kernel
  refine ⟨hkept, hnew, fun hisolated => ?_⟩
  have heq := (hisolated [.data ⟨second, by decide⟩] ping).1
  rw [hkept, hnew] at heq
  exact absurd heq (by decide)

end CuttleDB.Py
