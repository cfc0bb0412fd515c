import CuttleDB.Lib.Mutex
import CuttleDB.PyPolling
import CuttleDB.PyReconnection

/-!
# Threads on one Python connection

Every method of the client that touches the connection does so under its lock. The file
has the methods in steps, a step being one `recv`, one line of the buffer or the write of
a command; between two steps the interpreter may turn to another thread. Together with
the lock, every schedule of any number of threads does what the methods do one after the
other, in the order in which they took the lock, so each call gets its own reply whatever
thread it is in.
-/

namespace CuttleDB.Py

open Framing Mutex

/-! ### The methods in steps -/

/-- A method that touches the connection. -/
inductive Method where
  | operation (o : Operation)
  | close

/-- Whether it takes the lock: `send_batch` looks first whether there is anything to send. -/
def Method.locks : Method → Bool
  | .operation (.sendBatch []) => false
  | _ => true

/-- `close` returns nothing. -/
def Method.run : Method → Conn → Option Returned × Conn
  | .operation o, c => (some (o.run c).1, (o.run c).2)
  | .close, c => (none, Py.close c)

/-- What is done with the line that `_read_response` is waiting for. -/
inductive Awaiting where
  | send
  | sendRaw
  | batch (values later : List Text)

/-- Where a thread is in a method. -/
inductive Place where
  | entry (m : Method)
  | reading (k : Awaiting)
  | polling (events : List Event)

def Awaiting.raises (k : Awaiting) (e : PyError) : Returned :=
  match k with
  | .send => .outcome (.response (.error e))
  | .sendRaw => .outcome (.response (.error e))
  | .batch _ _ => .batch (.error e)

def Awaiting.resume (k : Awaiting) (line : Text) : Place ⊕ Option Returned :=
  match k with
  | .send => .inr (some (.outcome (.response (unwrap line))))
  | .sendRaw => .inr (some (.outcome (.response (.ok line))))
  | .batch values later =>
    match unwrap line with
    | .error e => .inr (some (.batch (.error e)))
    | .ok value =>
      match later with
      | [] => .inr (some (.batch (.ok (values ++ [value]))))
      | _ :: later => .inl (.reading (.batch (values ++ [value]) later))

/-- One turn of `_read_response`: a line of the buffer, or a `recv`. -/
def readTurn (k : Awaiting) (c : Conn) : (Place ⊕ Option Returned) × Conn :=
  match c.sock with
  | none => (.inr (some (k.raises (.cuttleDBError .notConnected))), c)
  | some s =>
    match cutLine LF c.buf with
    | some (raw, rest) =>
      let c := { c with buf := rest }
      match Utf8.decode? (chomp CR raw) with
      | none => (.inr (some (k.raises .unicodeDecodeError)), c)
      | some line =>
        if evtTag <+: line then
          match parseEvent line with
          | .error e => (.inr (some (k.raises e)), c)
          | .ok event =>
            (.inl (.reading k), { c with pendingEvents := c.pendingEvents ++ [event] })
        else (k.resume line, c)
    | none =>
      match s.recv 8192 with
      | (.error e, s) => (.inr (some (k.raises e)), { c with sock := some s })
      | (.ok [], s) =>
        (.inr (some (k.raises (.cuttleDBError .connectionClosed))), { c with sock := some s })
      | (.ok (b :: bs), s) =>
        (.inl (.reading k), { c with sock := some s, buf := c.buf ++ b :: bs })

/-- One turn of the loop of `poll_events`: a `recv`, and the lines that it completes. -/
def pollTurn (events : List Event) (c : Conn) : (Place ⊕ Option Returned) × Conn :=
  let ends (r : Except PyError (List Event)) (c : Conn) : (Place ⊕ Option Returned) × Conn :=
    (.inr (some (.outcome (.events r))), c.restoreTimeout)
  match c.sock with
  | none => ends (.error (.cuttleDBError .notConnected)) c -- `close` waits for the lock
  | some s =>
    match s.recv 8192 with
    | (.error .socketTimeout, s) => ends (.ok events) { c with sock := some s }
    | (.error e, s) => ends (.error e) { c with sock := some s }
    | (.ok [], s) => ends (.ok events) { c with sock := some s }
    | (.ok (b :: bs), s) =>
      match drainLines events { c with sock := some s, buf := c.buf ++ b :: bs } with
      | .raised e c => ends (.error e) c
      | .stashed events c => ends (.ok events) c
      | .empty events c =>
        if events ≠ [] then ends (.ok events) c else (.inl (.polling events), c)

/-- The first step of a method: up to its first read. -/
def Method.enter (m : Method) (c : Conn) : (Place ⊕ Option Returned) × Conn :=
  match m with
  | .operation (.call (.send command)) =>
    match write (Utf8.encode (command ++ ['\n'])) c with
    | (.error e, c) => (.inr (some (Awaiting.send.raises e)), c)
    | (.ok (), c) => (.inl (.reading .send), c)
  | .operation (.call (.sendRaw command)) =>
    match write (Utf8.encode (command ++ ['\n'])) c with
    | (.error e, c) => (.inr (some (Awaiting.sendRaw.raises e)), c)
    | (.ok (), c) => (.inl (.reading .sendRaw), c)
  | .operation (.call (.pollEvents timeout)) =>
    let events := c.pendingEvents
    let c := { c with pendingEvents := [] }
    match c.sock with
    | none => (.inr (some (.outcome (.events (.ok events)))), c)
    | some s =>
      if events ≠ [] then (.inr (some (.outcome (.events (.ok events)))), c)
      else if timeout < 0 then (.inr (some (.outcome (.events (.error .valueError)))), c)
      else (.inl (.polling []), { c with sock := some { s with timeout := timeout } })
  | .operation (.sendBatch []) => (.inr (some (.batch (.ok []))), c)
  | .operation (.sendBatch (command :: commands)) =>
    match write (Utf8.encode (['\n'].intercalate (command :: commands) ++ ['\n'])) c with
    | (.error e, c) => (.inr (some (.batch (.error e))), c)
    | (.ok (), c) => (.inl (.reading (.batch [] commands)), c)
  | .close => (.inr none, Py.close c)

def code : Code Conn Place (Option Returned)
  | .entry m, c => m.enter c
  | .reading k, c => readTurn k c
  | .polling events, c => pollTurn events c

/-! ### What a method computes from each place -/

/-- What a method makes of what `_read_response` has come to. -/
def Awaiting.finish (k : Awaiting) : Except PyError Text × Conn → Option Returned × Conn
  | (.error e, c) => (some (k.raises e), c)
  | (.ok line, c) =>
    match k with
    | .send => (some (.outcome (.response (unwrap line))), c)
    | .sendRaw => (some (.outcome (.response (.ok line))), c)
    | .batch values later =>
      match unwrap line with
      | .error e => (some (.batch (.error e)), c)
      | .ok value =>
        match unwrapResponses later c with
        | (.error e, c) => (some (.batch (.error e)), c)
        | (.ok rest, c) => (some (.batch (.ok (values ++ value :: rest))), c)

def pollRun (events : List Event) (c : Conn) : Option Returned × Conn :=
  match c.sock with
  | none => (some (.outcome (.events (.error (.cuttleDBError .notConnected)))), c.restoreTimeout)
  | some s =>
    (some (.outcome (.events (pollLoop events s c).1)), (pollLoop events s c).2.restoreTimeout)

def Place.run : Place → Conn → Option Returned × Conn
  | .entry m, c => m.run c
  | .reading k, c => k.finish (readResponse c)
  | .polling events, c => pollRun events c

/-- One turn of `_read_response`. -/
theorem readResponse_turn {c : Conn} {s : Sock} (hsock : c.sock = some s) :
    readResponse c =
      match cutLine LF c.buf with
      | some (raw, rest) =>
        match Utf8.decode? (chomp CR raw) with
        | none => (.error .unicodeDecodeError, { c with buf := rest })
        | some line =>
          if evtTag <+: line then
            match parseEvent line with
            | .error e => (.error e, { c with buf := rest })
            | .ok event =>
              readResponse { c with buf := rest, pendingEvents := c.pendingEvents ++ [event] }
          else (.ok line, { c with buf := rest })
      | none =>
        match s.recv 8192 with
        | (.error e, s) => (.error e, { c with sock := some s })
        | (.ok [], s) => (.error (.cuttleDBError .connectionClosed), { c with sock := some s })
        | (.ok (b :: bs), s) =>
          readResponse { c with sock := some s, buf := c.buf ++ b :: bs } := by
  cases hcut : cutLine LF c.buf with
  | some p =>
    obtain ⟨raw, rest⟩ := p
    have hline := readline_of_line hsock hcut
    rw [readResponse]
    split <;> rename_i heq <;> rw [hline] at heq <;> cases heq
    rfl
  | none =>
    have hline := readline_of_recv hsock hcut
    dsimp only
    rcases hrecv : s.recv 8192 with ⟨e | _ | ⟨b, bs⟩, s'⟩ <;> rw [hrecv] at hline
    · rw [readResponse_of_error hline]
    · rw [readResponse_of_error hline]
    · dsimp only at hline ⊢
      rw [readResponse, readResponse, hline]

theorem Awaiting.finish_ok (k : Awaiting) (line : Text) (c : Conn) :
    k.finish (.ok line, c) = proceed Place.run (k.resume line, c) := by
  cases k with
  | send => rfl
  | sendRaw => rfl
  | batch values later =>
    rw [Awaiting.finish, Awaiting.resume]
    cases unwrap line with
    | error e => rfl
    | ok value =>
      cases later with
      | nil => rfl
      | cons command later =>
        rw [proceed, Place.run, unwrapResponses]
        rcases readResponse c with ⟨e | line, c'⟩
        · rfl
        · dsimp only [Awaiting.finish]
          cases unwrap line with
          | error e => rfl
          | ok value' =>
            dsimp only
            rcases unwrapResponses later c' with ⟨e | rest, c''⟩
            · rfl
            · simp

theorem readTurn_computes (k : Awaiting) (c : Conn) :
    k.finish (readResponse c) = proceed Place.run (readTurn k c) := by
  cases hsock : c.sock with
  | none =>
    rw [readResponse_of_error (readline_of_none hsock), readTurn, hsock]
    rfl
  | some s =>
    rw [readResponse_turn hsock, readTurn, hsock]
    dsimp only
    cases cutLine LF c.buf with
    | some p =>
      obtain ⟨raw, rest⟩ := p
      dsimp only
      cases Utf8.decode? (chomp CR raw) with
      | none => rfl
      | some line =>
        dsimp only
        by_cases hevent : evtTag <+: line
        · rw [if_pos hevent, if_pos hevent]
          cases parseEvent line with
          | error e => rfl
          | ok event => rfl
        · rw [if_neg hevent, if_neg hevent]
          exact k.finish_ok line _
    | none =>
      dsimp only
      rcases s.recv 8192 with ⟨e | _ | ⟨b, bs⟩, s'⟩ <;> rfl

theorem drainLines_sock {events events' : List Event} {c c' : Conn}
    (h : drainLines events c = .empty events' c') : c'.sock = c.sock := by
  rcases drainLines_cases events c with ⟨_, _, heq, -, -, -, hdrained⟩ | ⟨_, _, heq, -⟩ |
    ⟨_, _, heq, -⟩ <;> rw [h] at heq
  · cases heq
    exact hdrained.sock
  · cases heq
  · cases heq

theorem pollTurn_computes (events : List Event) (c : Conn) :
    pollRun events c = proceed Place.run (pollTurn events c) := by
  cases hsock : c.sock with
  | none =>
    rw [pollRun, pollTurn, hsock]
    rfl
  | some s =>
    rw [pollRun, pollTurn, hsock]
    dsimp only
    rcases hrecv : s.recv 8192 with ⟨e | _ | ⟨b, bs⟩, s'⟩ <;> rw [pollLoop_of_recv hrecv]
    · cases e <;> rfl
    · rfl
    · dsimp only
      rcases hdrain : drainLines events { c with sock := some s', buf := c.buf ++ b :: bs } with
        ⟨events', c'⟩ | ⟨events', c'⟩ | ⟨e, c'⟩
      · dsimp only
        by_cases hnil : events' ≠ []
        · rw [if_pos hnil, if_pos hnil]
          rfl
        · rw [if_neg hnil, if_neg hnil, proceed, Place.run, pollRun, drainLines_sock hdrain]
      · rfl
      · rfl

theorem Method.enter_computes (m : Method) (c : Conn) :
    m.run c = proceed Place.run (m.enter c) := by
  rcases m with ((command | command | timeout) | commands) | _
  · simp only [Method.run, Operation.run, Call.run, send, Method.enter]
    rcases write (Utf8.encode (command ++ ['\n'])) c with ⟨e | ⟨⟩, c'⟩
    · rfl
    · dsimp only
      rw [proceed, Place.run]
      rcases readResponse c' with ⟨e | line, c''⟩ <;> rfl
  · simp only [Method.run, Operation.run, Call.run, sendRaw, Method.enter]
    rcases write (Utf8.encode (command ++ ['\n'])) c with ⟨e | ⟨⟩, c'⟩
    · rfl
    · dsimp only
      rw [proceed, Place.run]
      rcases readResponse c' with ⟨e | line, c''⟩ <;> rfl
  · simp only [Method.run, Operation.run, Call.run, pollEvents, Method.enter]
    cases c.sock with
    | none => rfl
    | some s =>
      dsimp only
      by_cases hqueued : c.pendingEvents ≠ []
      · rw [if_pos hqueued, if_pos hqueued]
        rfl
      · rw [if_neg hqueued, if_neg hqueued, not_not.mp hqueued]
        by_cases hneg : timeout < 0
        · rw [if_pos hneg, if_pos hneg]
          rfl
        · rw [if_neg hneg, if_neg hneg]
          rfl
  · cases commands with
    | nil => rfl
    | cons command commands =>
      rw [Method.run, Operation.run, sendBatch, if_neg (List.cons_ne_nil _ _), Method.enter]
      rcases write (Utf8.encode (['\n'].intercalate (command :: commands) ++ ['\n'])) c with
        ⟨e | ⟨⟩, c₁⟩
      · rfl
      · dsimp only
        rw [proceed, Place.run, unwrapResponses]
        rcases readResponse c₁ with ⟨e | line, c₂⟩
        · rfl
        · dsimp only [Awaiting.finish]
          cases unwrap line with
          | error e => rfl
          | ok value =>
            dsimp only
            rcases unwrapResponses commands c₂ with ⟨e | rest, c₃⟩ <;> rfl
  · rfl

/-- **The steps of a method make up the method.** -/
theorem code_computes : Computes code Place.run
  | .entry m, c => m.enter_computes c
  | .reading k, c => readTurn_computes k c
  | .polling events, c => pollTurn_computes events c

/-! ### Every method ends -/

/-- What is left to read. A line off the buffer makes the stream shorter, a `recv` makes
the data on the socket less. -/
def Place.weight : Place → Conn → Nat
  | .entry _, c => c.stream.length + c.weight + 1
  | .reading _, c => c.stream.length + c.weight
  | .polling _, c => c.weight

theorem write_weight {data : Bytes} {c c' : Conn} (h : write data c = (.ok (), c')) :
    c'.stream.length + c'.weight = c.stream.length + c.weight := by
  rw [write] at h
  cases hsock : c.sock with
  | none =>
    rw [hsock] at h
    cases h
  | some s =>
    rw [hsock] at h
    obtain ⟨-, rfl⟩ := Prod.mk.inj h
    simp [Conn.stream, Conn.weight, Sock.weight, Sock.unread, hsock]

theorem enter_decreases {m : Method} {l : Place} {c c' : Conn} (h : m.enter c = (.inl l, c')) :
    l.weight c' < (Place.entry m).weight c := by
  rcases m with ((command | command | timeout) | commands) | _
  · rw [Method.enter] at h
    rcases hwrite : write (Utf8.encode (command ++ ['\n'])) c with ⟨e | ⟨⟩, c₁⟩ <;>
      rw [hwrite] at h <;> cases h
    exact Nat.lt_succ_of_le (Nat.le_of_eq (write_weight hwrite))
  · rw [Method.enter] at h
    rcases hwrite : write (Utf8.encode (command ++ ['\n'])) c with ⟨e | ⟨⟩, c₁⟩ <;>
      rw [hwrite] at h <;> cases h
    exact Nat.lt_succ_of_le (Nat.le_of_eq (write_weight hwrite))
  · rw [Method.enter] at h
    dsimp only at h
    cases hsock : c.sock with
    | none =>
      rw [hsock] at h
      cases h
    | some s =>
      rw [hsock] at h
      dsimp only at h
      split at h
      · cases h
      · split at h
        · cases h
        · cases h
          have hweight : c.weight = s.weight := by rw [Conn.weight, hsock]
          rw [Place.weight, Place.weight, hweight]
          exact Nat.lt_succ_of_le (Nat.le_add_left _ _)
  · cases commands with
    | nil => cases h
    | cons command commands =>
      rw [Method.enter] at h
      rcases hwrite : write (Utf8.encode (['\n'].intercalate (command :: commands) ++ ['\n'])) c
        with ⟨e | ⟨⟩, c₁⟩ <;> rw [hwrite] at h <;> cases h
      exact Nat.lt_succ_of_le (Nat.le_of_eq (write_weight hwrite))
  · cases h

/-- A `recv` that returns data leaves less of it. -/
theorem recv_weight {s s' : Sock} {b : UInt8} {bs : Bytes}
    (h : s.recv 8192 = (.ok (b :: bs), s')) : s.Reads (b :: bs) s' ∧ s'.weight < s.weight := by
  rcases s.recv_cases (n := 8192) (by decide) with
    ⟨_, _, _, heq, hreads, hlt⟩ | ⟨_, heq, -⟩ | ⟨_, heq, -⟩ <;> rw [h] at heq <;> cases heq
  exact ⟨hreads, hlt⟩

theorem Awaiting.resume_reading {k : Awaiting} {line : Text} {l : Place}
    (h : k.resume line = .inl l) : ∃ k', l = .reading k' := by
  cases k with
  | send => cases h
  | sendRaw => cases h
  | batch values later =>
    rw [Awaiting.resume] at h
    split at h
    · cases h
    · split at h <;> cases h
      exact ⟨_, rfl⟩

theorem readTurn_decreases {k : Awaiting} {l : Place} {c c' : Conn}
    (h : readTurn k c = (.inl l, c')) : l.weight c' < (Place.reading k).weight c := by
  rw [readTurn] at h
  cases hsock : c.sock with
  | none =>
    rw [hsock] at h
    cases h
  | some s =>
    rw [hsock] at h
    dsimp only at h
    cases hcut : cutLine LF c.buf with
    | some p =>
      obtain ⟨raw, rest⟩ := p
      -- a line off the buffer: whatever is done with it, a next read finds a shorter stream
      have hshorter := (Conn.Reads.of_cutLine hcut).stream_length_lt
      have hless : ∀ (k' : Awaiting) (es : List Event),
          (Place.reading k').weight
              { c with sock := some s, buf := rest, pendingEvents := es } <
            (Place.reading k).weight c := by
        intro k' es
        rw [← hsock]
        exact Nat.add_lt_add_right hshorter _
      rw [hcut] at h
      dsimp only at h
      split at h
      · cases h
      · split at h
        · split at h <;> cases h
          exact hless _ _
        · obtain ⟨hresume, rfl⟩ := Prod.mk.inj h
          obtain ⟨k', rfl⟩ := Awaiting.resume_reading hresume
          exact hless _ _
    | none =>
      rw [hcut] at h
      rcases hrecv : s.recv 8192 with ⟨e | _ | ⟨b, bs⟩, s'⟩ <;> rw [hrecv] at h <;> cases h
      obtain ⟨hreads, hlt⟩ := recv_weight hrecv
      have hstream := (Conn.Reads.of_recv hsock hreads).stream
      rw [List.nil_append] at hstream
      rw [Place.weight, Place.weight, ← hstream]
      apply Nat.add_lt_add_left
      simpa [Conn.weight, hsock] using hlt

theorem pollTurn_decreases {events : List Event} {l : Place} {c c' : Conn}
    (h : pollTurn events c = (.inl l, c')) : l.weight c' < (Place.polling events).weight c := by
  rw [pollTurn] at h
  cases hsock : c.sock with
  | none =>
    rw [hsock] at h
    cases h
  | some s =>
    rw [hsock] at h
    dsimp only at h
    rcases hrecv : s.recv 8192 with ⟨e | _ | ⟨b, bs⟩, s'⟩ <;> rw [hrecv] at h
    · cases e <;> cases h
    · cases h
    · dsimp only at h
      rcases hdrain : drainLines events { c with sock := some s', buf := c.buf ++ b :: bs } with
        ⟨events', c₁⟩ | ⟨events', c₁⟩ | ⟨e, c₁⟩ <;> rw [hdrain] at h
      · dsimp only at h
        split at h <;> cases h
        have hsame := drainLines_sock hdrain
        have hlt := (recv_weight hrecv).2
        simpa [Place.weight, Conn.weight, hsock, hsame] using hlt
      · cases h
      · cases h

theorem code_decreases : Decreases code Place.weight := by
  intro l l' c c' h
  cases l with
  | entry m => exact enter_decreases h
  | reading k => exact readTurn_decreases h
  | polling events => exact pollTurn_decreases h

/-! ### Any number of threads -/

section Threads

variable {ι : Type} [DecidableEq ι]

/-- The bytes that arrive up to the end of a method that takes the lock now, and how its
reads meet them and those left unread before. -/
structure Delivery where
  fresh : Bytes
  chunks : List Arrival

def Delivery.act (d : Delivery) (c : Conn) : Conn := c.deliver d.chunks

/-- What a thread does under the lock. -/
def sections (program : List Method) : List Place :=
  (program.filter Method.locks).map .entry

/-- Threads on the connection `c`, each with the methods it calls. -/
def threads (c : Conn) (programs : ι → List Method) :
    State ι Conn Place (Option Returned) Delivery :=
  .initial c fun i => sections (programs i)

theorem run_of_not_locks {m : Method} (h : m.locks = false) (c : Conn) :
    m.run c = (some (.batch (.ok [])), c) := by
  rcases m with ((command | command | timeout) | _ | ⟨command, commands⟩) | _
  · cases h
  · cases h
  · cases h
  · rfl
  · cases h
  · cases h

theorem sections_calls (calls : List Call) :
    sections (calls.map fun call => .operation (.call call)) =
      calls.map fun call => .entry (.operation (.call call)) := by
  have hlocks : ∀ m ∈ calls.map (fun call => Method.operation (.call call)), m.locks = true :=
    List.forall_mem_map.mpr fun call _ => rfl
  rw [sections, List.filter_eq_self.mpr hlocks, List.map_map]
  rfl

/-- **Threads on one connection.** However the threads are scheduled, the connection and
the results are those of the methods one after the other, in the order in which they took
the lock; a method that takes no lock touches nothing, and whoever has the lock gives it
back. -/
theorem threads_sequential (c : Conn) (programs : ι → List Method)
    (moves : List (Move ι Delivery)) :
    let S := (threads c programs).run code Delivery.act moves
    S.Exclusive ∧ S.InOrder (fun i => sections (programs i)) ∧
      S.Explained code Place.run Delivery.act c ∧
      (∀ i, ∀ m ∈ programs i, m.locks = false → ∀ c, m.run c = (some (.batch (.ok [])), c)) ∧
      ∃ n, ∀ i, S.owner = some i →
        (S.run code Delivery.act (List.replicate n (.advance i))).owner = none := by
  intro S
  obtain ⟨hexcl, horder, hexpl⟩ : S.Exclusive ∧ _ ∧ S.Explained code Place.run Delivery.act c :=
    State.run_sequential code_computes c (fun i => sections (programs i)) moves
  exact ⟨hexcl, horder, hexpl, fun _ _ _ h => run_of_not_locks h,
    State.released code_decreases hexcl⟩

/-- A command or a poll that has taken the lock, as a step of the connection. -/
def stepOf (e : Entry ι Delivery Place) : Option Step :=
  match e.start with
  | .entry (.operation (.call call)) => some ⟨e.input.fresh, e.input.chunks, call⟩
  | _ => none

omit [DecidableEq ι] in
/-- Commands and polls one after the other are a run of the connection. -/
theorem sequence_calls {es : List (Entry ι Delivery Place)}
    (h : ∀ e ∈ es, ∃ call, e.start = .entry (.operation (.call call))) (c : Conn) :
    Mutex.sequence Place.run Delivery.act es c =
      ((run (es.filterMap stepOf) c).1.map fun o => some (.outcome o),
        (run (es.filterMap stepOf) c).2) := by
  induction es generalizing c with
  | nil => rfl
  | cons e es ih =>
    obtain ⟨call, hstart⟩ := h e List.mem_cons_self
    have hstep : stepOf e = some ⟨e.input.fresh, e.input.chunks, call⟩ := by
      rw [stepOf, hstart]
    rw [List.filterMap_cons_some hstep, Mutex.sequence, hstart]
    dsimp only
    rw [ih fun e he => h e (List.mem_cons_of_mem _ he)]
    rfl

/-- **Each thread gets its own replies.** When threads send commands and poll, the replies
go to the commands in the order in which these took the lock, and the events returned,
queued and still to be read are the server's, in order. -/
theorem threads_own_replies (timeout : Rat) (lines : List ServerLine)
    (programs : ι → List Call) (moves : List (Move ι Delivery)) (future : Bytes)
    {S : State ι Conn Place (Option Returned) Delivery}
    (hrun : (threads (Conn.opened timeout) fun i =>
      (programs i).map fun call => .operation (.call call)).run code Delivery.act moves = S)
    (hfree : S.owner = none) (hlawful : ∀ i, ∀ call ∈ programs i, call.Lawful)
    (hnetwork : Network lines [] (S.entered.filterMap stepOf) (Conn.opened timeout))
    (hfuture : arrived (S.entered.filterMap stepOf) ++ future = render lines)
    (htime : ∀ i o, some (.outcome o) ∈ (S.threads i).results → ¬ o.TimedOut) :
    let steps := S.entered.filterMap stepOf
    let outcomes := (run steps (Conn.opened timeout)).1
    (∀ i, (S.threads i).results = own i S.entered (outcomes.map fun o => some (.outcome o))) ∧
      (answers steps).length ≤ (repliesOf lines).length ∧
      responses outcomes = List.zipWith (fun f t => f t) (answers steps) (repliesOf lines) ∧
      polled outcomes ++ S.shared.pendingEvents ++ eventLines (S.shared.stream ++ future) =
        eventsOf lines := by
  intro steps outcomes
  obtain ⟨-, horder, hexpl⟩ : S.Exclusive ∧ S.InOrder _ ∧
      S.Explained code Place.run Delivery.act (Conn.opened timeout) :=
    hrun ▸ State.run_sequential code_computes _ _ _
  have hcalls : ∀ e ∈ S.entered, ∃ call ∈ programs e.thread,
      e.start = .entry (.operation (.call call)) := by
    intro e he
    have hstart := horder.mem he
    rw [sections_calls] at hstart
    obtain ⟨call, hcall, hentry⟩ := List.mem_map.mp hstart
    exact ⟨call, hcall, hentry.symm⟩
  have hsteps : ∀ st ∈ steps, st.call.Lawful := by
    intro st hst
    obtain ⟨e, he, hstep⟩ := List.mem_filterMap.mp hst
    obtain ⟨call, hcall, hstart⟩ := hcalls e he
    rw [stepOf, hstart] at hstep
    obtain rfl := Option.some.inj hstep
    exact hlawful _ _ hcall
  obtain ⟨hshared, hresults⟩ := hexpl.of_free hfree
  have hlength := length_sequence Place.run Delivery.act S.entered (Conn.opened timeout)
  rw [sequence_calls fun e he => (hcalls e he).imp fun _ h => h.2] at hshared hresults hlength
  have hintime : ∀ o ∈ outcomes, ¬ o.TimedOut := by
    intro o ho
    obtain ⟨i, hi⟩ := mem_own hlength
      (List.mem_map_of_mem (f := fun o => some (Returned.outcome o)) ho)
    rw [← hresults i] at hi
    exact htime i o hi
  obtain ⟨rest, hc, hresponses, hcount, -⟩ :=
    (Conserved.opened timeout lines).run hnetwork hsteps hintime hfuture
  obtain ⟨done, hlines, -, -, hevents⟩ := hc.consumed
  rw [List.nil_append] at hevents
  refine ⟨hresults, hcount, hresponses, ?_⟩
  rw [hshared, hc.stream_append hfuture, eventLines_render, ← hevents, ← eventsOf_append, ← hlines]

/-- Two threads, one command each. -/
def twoPrograms (i : Bool) : List Call :=
  [.send (if i then "PING".toList else "COUNT 0 0".toList)]

def firstArrival : Bytes := Utf8.encode "+OK PONG\r\n>EVT 0".toList

def secondArrival : Bytes := Utf8.encode " 0 1 INS\r\n+OK 7\r\n".toList

/-- They take turns; the one that asks while the other reads waits. -/
def twoMoves : List (Move Bool Delivery) :=
  [.acquire true ⟨firstArrival, [.data ⟨firstArrival, by decide⟩]⟩, .advance true,
    .acquire false ⟨[], []⟩, .advance false, .advance true, .advance true,
    .acquire false ⟨secondArrival, [.data ⟨secondArrival, by decide⟩]⟩, .advance false,
    .advance false, .advance false, .advance false]

theorem threads_own_replies_two :
    let S := (threads (Conn.opened 30) fun i =>
      (twoPrograms i).map fun call => .operation (.call call)).run code Delivery.act twoMoves
    (S.threads true).results = [some (.outcome (.response (.ok "PONG".toList)))] ∧
      (S.threads false).results = [some (.outcome (.response (.ok "7".toList)))] := by
  intro S
  have hlawful : ∀ i, ∀ call ∈ twoPrograms i, call.Lawful := by
    intro i call hcall
    obtain rfl := List.mem_singleton.mp hcall
    cases i
    · exact (by decide : '\n' ∉ "COUNT 0 0".toList)
    · exact (by decide : '\n' ∉ "PING".toList)
  have hsteps : S.entered.filterMap stepOf =
      [⟨firstArrival, [.data ⟨firstArrival, by decide⟩], .send "PING".toList⟩,
        ⟨secondArrival, [.data ⟨secondArrival, by decide⟩], .send "COUNT 0 0".toList⟩] := rfl
  have htrue : (S.threads true).results = [some (.outcome (.response (.ok "PONG".toList)))] := by
    decide +kernel
  have hfalse : (S.threads false).results = [some (.outcome (.response (.ok "7".toList)))] := by
    decide +kernel
  have htime : ∀ i o, some (.outcome o) ∈ (S.threads i).results → ¬ o.TimedOut := by
    rintro (_ | _) o ho
    · rw [hfalse] at ho
      obtain rfl : o = .response (.ok "7".toList) := by simpa using ho
      exact fun h => nomatch h
    · rw [htrue] at ho
      obtain rfl : o = .response (.ok "PONG".toList) := by simpa using ho
      exact fun h => nomatch h
  let lines : List ServerLine :=
    [.reply ⟨"+OK PONG".toList, by decide⟩, .evt ⟨⟨0, 0, 1, "INS".toList⟩, by decide⟩,
      .reply ⟨"+OK 7".toList, by decide⟩]
  have hnetwork : Network lines [] (S.entered.filterMap stepOf) (Conn.opened 30) := by
    rw [hsteps]
    exact ⟨⟨by decide +kernel, by decide⟩, ⟨2, by decide +kernel, by decide +kernel⟩,
      ⟨by decide +kernel, by decide⟩, ⟨3, by decide +kernel, by decide +kernel⟩, trivial⟩
  have hfuture : arrived (S.entered.filterMap stepOf) ++ [] = render lines := by
    rw [hsteps]
    decide +kernel
  have h := threads_own_replies (S := S) 30 lines twoPrograms twoMoves [] rfl (by decide +kernel)
    hlawful hnetwork hfuture htime
  exact ⟨(h.1 true).trans (by decide +kernel), (h.1 false).trans (by decide +kernel)⟩

end Threads

end CuttleDB.Py
