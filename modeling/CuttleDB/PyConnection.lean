import CuttleDB.ServerLines
import Mathlib.Algebra.Order.Ring.Rat

/-!
# The Python connection

The wire level of the Python client: the byte buffer in front of the socket, the
queue of events that arrived ahead of a reply, and the methods that read and write
them (`_readline`, `_read_response`, `send`, `send_raw`, `send_batch`,
`poll_events`, `close`, `_connect`). Every method is a function from the
connection to its result and the connection it leaves, an exception included: what
an exception leaves behind is exactly what the later calls meet.

The network is the list of what the coming `recv` calls will meet. A read that
finds nothing raises `socket.timeout`, or `BlockingIOError` on a socket whose
timeout is `0`.
-/

namespace CuttleDB.Py

open Framing

/-! ### Errors -/

/-- The messages of `CuttleDBError`. -/
inductive Message where
  | notConnected                        -- "not connected"
  | connectionClosed                    -- "connection closed by server"
  | server (text : Text)                -- what follows "-ERR "
  | unexpectedResponse (line : Text)    -- "unexpected response: {line!r}"
  | malformedEvent (line : Text)        -- "malformed event: {line!r}"
  | findcLengthMismatch                 -- "findc: cols and values length mismatch"
  | badLogResult (body : Text)          -- "bad log result: {body!r}"
deriving DecidableEq, Repr

inductive PyError where
  | cuttleDBError (message : Message)
  | socketTimeout
  | blockingIOError
  | unicodeDecodeError
  | valueError
deriving DecidableEq, Repr

/-! ### Lines -/

/-- `_parse_event` -/
def parseEvent (line : Text) : Except PyError Event :=
  match split line with
  | _ :: hid :: tid :: rowId :: op :: _ =>
    match int? hid, int? tid, int? rowId with
    | some hid, some tid, some rowId => .ok ⟨hid, tid, rowId, op⟩
    | _, _, _ => .error .valueError
  | _ => .error (.cuttleDBError (.malformedEvent line))

/-- `_unwrap` -/
def unwrap (line : Text) : Except PyError Text :=
  if "+OK".toList <+: line then .ok (if line.length > 3 then line.drop 4 else [])
  else if "-ERR ".toList <+: line then .error (.cuttleDBError (.server (line.drop 5)))
  else .error (.cuttleDBError (.unexpectedResponse line))

/-! ### The socket -/

/-- What a `recv` call meets. -/
inductive Arrival where
  | data (chunk : { b : Bytes // b ≠ [] })
  | silence
  | eof
deriving DecidableEq

def Arrival.bytes : Arrival → Bytes
  | .data chunk => chunk.1
  | .silence => []
  | .eof => []

def Arrival.isData : Arrival → Bool
  | .data _ => true
  | .silence => false
  | .eof => false

structure Sock where
  arrivals : List Arrival
  timeout : Rat
  sent : Bytes
deriving DecidableEq

def Sock.unread (s : Sock) : Bytes := s.arrivals.flatMap Arrival.bytes

/-- What keeps a read from finding the data behind it. -/
def Sock.faults (s : Sock) : List Arrival := s.arrivals.filter fun a => !a.isData

/-- A bound on the number of reads that return data. -/
def Sock.weight (s : Sock) : Nat := s.arrivals.length + s.unread.length

/-- What a read that finds nothing raises. -/
def Sock.noData (s : Sock) : PyError :=
  if s.timeout = 0 then .blockingIOError else .socketTimeout

/-- `recv(n)`: at most `n` bytes of the first chunk; the rest of it stays. -/
def Sock.recv (n : Nat) (s : Sock) : Except PyError Bytes × Sock :=
  match s.arrivals with
  | [] => (.error s.noData, s)
  | .silence :: rest => (.error s.noData, { s with arrivals := rest })
  | .eof :: _ => (.ok [], s)
  | .data chunk :: rest =>
    if h : chunk.1.drop n = [] then (.ok chunk.1, { s with arrivals := rest })
    else (.ok (chunk.1.take n), { s with arrivals := .data ⟨_, h⟩ :: rest })

/-- `s'` is left of `s` when the bytes `d` have been read from it. -/
structure Sock.Reads (s : Sock) (d : Bytes) (s' : Sock) : Prop where
  timeout : s'.timeout = s.timeout
  sent : s'.sent = s.sent
  unread : s.unread = d ++ s'.unread
  faults : s'.faults ⊆ s.faults

/-- The three outcomes of a read: data off the front of the stream, the end of
the stream, or nothing there. -/
theorem Sock.recv_cases {n : Nat} (hn : 0 < n) (s : Sock) :
    (∃ b bs s', s.recv n = (.ok (b :: bs), s') ∧ s.Reads (b :: bs) s' ∧
      s'.weight < s.weight) ∨
    (∃ s', s.recv n = (.ok [], s') ∧ s.Reads [] s' ∧ .eof ∈ s.faults) ∨
    (∃ s', s.recv n = (.error s.noData, s') ∧ s.Reads [] s' ∧
      (.silence ∈ s.faults ∨ s.arrivals = [])) := by
  obtain ⟨arrivals, timeout, sent⟩ := s
  obtain ⟨m, rfl⟩ := Nat.exists_eq_succ_of_ne_zero (Nat.ne_of_gt hn)
  cases arrivals with
  | nil => exact Or.inr (Or.inr ⟨_, rfl, ⟨rfl, rfl, rfl, List.Subset.refl _⟩, Or.inr rfl⟩)
  | cons a rest =>
    cases a with
    | silence =>
      refine Or.inr (Or.inr ⟨_, rfl, ⟨rfl, rfl, rfl, ?_⟩, Or.inl ?_⟩)
      · exact List.subset_cons_self _ _
      · simp [Sock.faults, Arrival.isData]
    | eof =>
      refine Or.inr (Or.inl ⟨_, rfl, ⟨rfl, rfl, rfl, List.Subset.refl _⟩, ?_⟩)
      simp [Sock.faults, Arrival.isData]
    | data chunk =>
      obtain ⟨bytes, hne⟩ := chunk
      obtain ⟨b, bs, rfl⟩ := List.exists_cons_of_ne_nil hne
      refine Or.inl ?_
      by_cases h : (b :: bs).drop (m + 1) = []
      · refine ⟨b, bs, ⟨rest, timeout, sent⟩, ?_, ⟨rfl, rfl, rfl, ?_⟩, ?_⟩
        · rw [Sock.recv]
          exact dif_pos h
        · exact List.Subset.refl _
        · simp [Sock.weight, Sock.unread, Arrival.bytes]
          omega
      · refine ⟨b, bs.take m, ⟨.data ⟨_, h⟩ :: rest, timeout, sent⟩, ?_, ⟨rfl, rfl, ?_, ?_⟩, ?_⟩
        · rw [Sock.recv]
          exact dif_neg h
        · simp [Sock.unread, Arrival.bytes, ← List.append_assoc]
        · exact List.Subset.refl _
        · simp only [Sock.weight, Sock.unread, Arrival.bytes, List.flatMap_cons, List.length_append,
            List.length_cons, List.length_drop]
          omega

/-! ### The connection -/

structure Conn where
  timeout : Rat
  auth : Option Text
  sock : Option Sock
  buf : Bytes
  pendingEvents : List Event
deriving DecidableEq

def Conn.weight (c : Conn) : Nat :=
  match c.sock with
  | none => 0
  | some s => s.weight

/-- `_write` -/
def write (data : Bytes) (c : Conn) : Except PyError Unit × Conn :=
  match c.sock with
  | none => (.error (.cuttleDBError .notConnected), c)
  | some s => (.ok (), { c with sock := some { s with sent := s.sent ++ data } })

/-- `_readline` -/
def readline (c : Conn) : Except PyError Bytes × Conn :=
  match _hsock : c.sock with
  | none => (.error (.cuttleDBError .notConnected), c)
  | some s =>
    match cutLine LF c.buf with
    | some (line, rest) => (.ok (chomp CR line), { c with buf := rest })
    | none =>
      match _hrecv : s.recv 8192 with
      | (.error e, s') => (.error e, { c with sock := some s' })
      | (.ok [], s') => (.error (.cuttleDBError .connectionClosed), { c with sock := some s' })
      | (.ok (b :: bs), s') => readline { c with sock := some s', buf := c.buf ++ b :: bs }
termination_by c.weight
decreasing_by
  have hrecv := s.recv_cases (n := 8192) (by decide)
  rcases hrecv with ⟨_, _, _, heq, -, hlt⟩ | ⟨_, heq, -⟩ | ⟨_, heq, -⟩
  · rw [_hrecv] at heq
    obtain ⟨-, rfl⟩ := Prod.mk.inj heq
    simpa [Conn.weight, _hsock] using hlt
  · rw [_hrecv] at heq
    cases heq
  · rw [_hrecv] at heq
    cases heq

/-- The bytes the client has not consumed: the buffer, then the unread stream. -/
def Conn.stream (c : Conn) : Bytes :=
  c.buf ++ match c.sock with
    | none => []
    | some s => s.unread

/-- The bytes written to the socket so far. -/
def Conn.sent (c : Conn) : Bytes :=
  match c.sock with
  | none => []
  | some s => s.sent

def Conn.faults (c : Conn) : List Arrival :=
  match c.sock with
  | none => []
  | some s => s.faults

/-- `c'` is left of `c` when the bytes `d` have been consumed: nothing was sent,
no setting has changed and no byte was lost. -/
structure Conn.Reads (c : Conn) (d : Bytes) (c' : Conn) : Prop where
  timeout : c'.timeout = c.timeout
  auth : c'.auth = c.auth
  sockTimeout : c'.sock.map Sock.timeout = c.sock.map Sock.timeout
  sent : c'.sock.map Sock.sent = c.sock.map Sock.sent
  stream : c.stream = d ++ c'.stream
  faults : c'.faults ⊆ c.faults

theorem Conn.Reads.refl (c : Conn) : c.Reads [] c :=
  ⟨rfl, rfl, rfl, rfl, rfl, List.Subset.refl _⟩

theorem Conn.Reads.trans {c c' c'' : Conn} {d d' : Bytes} (h : c.Reads d c')
    (h' : c'.Reads d' c'') : c.Reads (d ++ d') c'' := by
  refine ⟨h'.timeout.trans h.timeout, h'.auth.trans h.auth,
    h'.sockTimeout.trans h.sockTimeout, h'.sent.trans h.sent, ?_,
    fun _ ha => h.faults (h'.faults ha)⟩
  rw [h.stream, h'.stream, List.append_assoc]

/-- Data taken from the socket into the buffer stays in the stream. -/
theorem Conn.Reads.of_recv {c : Conn} {s s' : Sock} {d : Bytes} (hsock : c.sock = some s)
    (h : s.Reads d s') : c.Reads [] { c with sock := some s', buf := c.buf ++ d } := by
  refine ⟨rfl, rfl, ?_, ?_, ?_, ?_⟩
  · simp [hsock, h.timeout]
  · simp [hsock, h.sent]
  · simp [Conn.stream, hsock, h.unread]
  · simpa [Conn.faults, hsock] using h.faults

theorem Conn.Reads.of_cutLine {c : Conn} {line rest : Bytes}
    (h : cutLine LF c.buf = some (line, rest)) :
    c.Reads (line ++ [LF]) { c with buf := rest } := by
  refine ⟨rfl, rfl, rfl, rfl, ?_, List.Subset.refl _⟩
  simp [Conn.stream, (eq_of_cutLine h).1]

/-- Why a read raises. -/
inductive ReadError (c : Conn) : PyError → Prop where
  | notConnected (h : c.sock = none) : ReadError c (.cuttleDBError .notConnected)
  | connectionClosed (h : .eof ∈ c.faults) : ReadError c (.cuttleDBError .connectionClosed)
  | noData (s : Sock) (hsock : c.sock = some s)
      (h : .silence ∈ c.faults ∨ LF ∉ c.stream) : ReadError c s.noData

theorem readline_of_none {c : Conn} (hsock : c.sock = none) :
    readline c = (.error (.cuttleDBError .notConnected), c) := by
  rw [readline]
  split
  · rfl
  · rename_i hsome
    rw [hsock] at hsome
    cases hsome

theorem readline_of_line {c : Conn} {s : Sock} {line rest : Bytes} (hsock : c.sock = some s)
    (hline : cutLine LF c.buf = some (line, rest)) :
    readline c = (.ok (chomp CR line), { c with buf := rest }) := by
  rw [readline]
  split
  · rename_i hnone
    rw [hsock] at hnone
    cases hnone
  · rw [hline]

theorem readline_of_recv {c : Conn} {s : Sock} (hsock : c.sock = some s)
    (hline : cutLine LF c.buf = none) :
    readline c =
      match s.recv 8192 with
      | (.error e, s') => (.error e, { c with sock := some s' })
      | (.ok [], s') => (.error (.cuttleDBError .connectionClosed), { c with sock := some s' })
      | (.ok (b :: bs), s') =>
        readline { c with sock := some s', buf := c.buf ++ b :: bs } := by
  rw [readline]
  split
  · rename_i hnone
    rw [hsock] at hnone
    cases hnone
  · rename_i hsome
    obtain rfl := Option.some.inj (hsock.symm.trans hsome)
    rw [hline]
    dsimp only
    split <;> rename_i hrecv <;> rw [hrecv]

/-- **`_readline` takes one line off the stream, or raises and loses nothing.** -/
theorem readline_cases (c : Conn) :
    (∃ line c', readline c = (.ok (chomp CR line), c') ∧ LF ∉ line ∧
      c.Reads (line ++ [LF]) c' ∧ c'.pendingEvents = c.pendingEvents) ∨
    (∃ e c', readline c = (.error e, c') ∧ ReadError c e ∧ c.Reads [] c' ∧
      c'.pendingEvents = c.pendingEvents) := by
  -- on the reads left: each one that returns data leaves fewer
  induction hw : c.weight using Nat.strong_induction_on generalizing c with
  | _ w ih =>
    cases hsock : c.sock with
    | none => exact Or.inr ⟨_, c, readline_of_none hsock, .notConnected hsock, .refl c, rfl⟩
    | some s =>
      cases hline : cutLine LF c.buf with
      | some p =>
        obtain ⟨line, rest⟩ := p
        exact Or.inl ⟨line, _, readline_of_line hsock hline, (eq_of_cutLine hline).2,
          .of_cutLine hline, rfl⟩
      | none =>
        have hbuf : LF ∉ c.buf := cutLine_eq_none.mp hline
        rw [readline_of_recv hsock hline]
        rcases s.recv_cases (n := 8192) (by decide) with
          ⟨b, bs, s', hrecv, hreads, hlt⟩ | ⟨s', hrecv, hreads, heof⟩ | ⟨s', hrecv, hreads, hwhy⟩
        · have hstep := Conn.Reads.of_recv hsock hreads
          have hweight :
              ({ c with sock := some s', buf := c.buf ++ b :: bs } : Conn).weight < w := by
            rw [← hw]
            simpa [Conn.weight, hsock] using hlt
          rw [hrecv]
          dsimp only
          rcases ih _ hweight _ rfl with
            ⟨line, c', hread, hlf, hrest, hpending⟩ | ⟨e, c', hread, herr, hrest, hpending⟩
          · exact Or.inl ⟨line, c', hread, hlf, hstep.trans hrest, hpending⟩
          · refine Or.inr ⟨e, c', hread, ?_, hstep.trans hrest, hpending⟩
            cases herr with
            | notConnected h => cases h
            | connectionClosed h => exact .connectionClosed (hstep.faults h)
            | noData s'' hs'' h =>
              obtain rfl := Option.some.inj hs''
              have hnoData : s'.noData = s.noData := by
                rw [Sock.noData, hreads.timeout, Sock.noData]
              rw [hnoData]
              refine .noData s hsock ?_
              rcases h with hsilence | hstream
              · exact Or.inl (hstep.faults hsilence)
              · rw [← List.nil_append (Conn.stream _), ← hstep.stream] at hstream
                exact Or.inr hstream
        · rw [hrecv]
          refine Or.inr ⟨_, _, rfl, .connectionClosed (by simpa [Conn.faults, hsock] using heof),
            ?_, rfl⟩
          simpa using Conn.Reads.of_recv hsock hreads
        · rw [hrecv]
          refine Or.inr ⟨_, _, rfl, .noData s hsock ?_, ?_, rfl⟩
          · rcases hwhy with hsilence | hnil
            · exact Or.inl (by simpa [Conn.faults, hsock] using hsilence)
            · exact Or.inr (by simpa [Conn.stream, hsock, Sock.unread, hnil] using hbuf)
          · simpa using Conn.Reads.of_recv hsock hreads

theorem Conn.Reads.stream_length_lt {c c' : Conn} {line : Bytes} (h : c.Reads (line ++ [LF]) c') :
    c'.stream.length < c.stream.length := by
  rw [h.stream]
  simp
  omega

/-- `_read_response`: events go to the queue, the first other line is the reply. -/
def readResponse (c : Conn) : Except PyError Text × Conn :=
  match _hread : readline c with
  | (.error e, c') => (.error e, c')
  | (.ok raw, c') =>
    match Utf8.decode? raw with
    | none => (.error .unicodeDecodeError, c')
    | some line =>
      if evtTag <+: line then
        match parseEvent line with
        | .error e => (.error e, c')
        | .ok event => readResponse { c' with pendingEvents := c'.pendingEvents ++ [event] }
      else (.ok line, c')
termination_by c.stream.length
decreasing_by
  rcases readline_cases c with ⟨line, _, heq, -, hreads, -⟩ | ⟨_, _, heq, -⟩
  · rw [_hread] at heq
    obtain ⟨-, rfl⟩ := Prod.mk.inj heq
    exact hreads.stream_length_lt
  · rw [_hread] at heq
    cases heq

/-- `send` -/
def send (command : Text) (c : Conn) : Except PyError Text × Conn :=
  match write (Utf8.encode (command ++ ['\n'])) c with
  | (.error e, c) => (.error e, c)
  | (.ok (), c) =>
    match readResponse c with
    | (.error e, c) => (.error e, c)
    | (.ok line, c) => (unwrap line, c)

/-- `send_raw` -/
def sendRaw (command : Text) (c : Conn) : Except PyError Text × Conn :=
  match write (Utf8.encode (command ++ ['\n'])) c with
  | (.error e, c) => (.error e, c)
  | (.ok (), c) => readResponse c

/-- `[self._unwrap(self._read_response()) for _ in commands]` -/
def unwrapResponses : List Text → Conn → Except PyError (List Text) × Conn
  | [], c => (.ok [], c)
  | _ :: commands, c =>
    match readResponse c with
    | (.error e, c) => (.error e, c)
    | (.ok line, c) =>
      match unwrap line with
      | .error e => (.error e, c)
      | .ok value =>
        match unwrapResponses commands c with
        | (.error e, c) => (.error e, c)
        | (.ok values, c) => (.ok (value :: values), c)

/-- `send_batch` -/
def sendBatch (commands : List Text) (c : Conn) : Except PyError (List Text) × Conn :=
  if commands = [] then (.ok [], c)
  else
    match write (Utf8.encode (['\n'].intercalate commands ++ ['\n'])) c with
    | (.error e, c) => (.error e, c)
    | (.ok (), c) => unwrapResponses commands c

/-! ### Polling -/

/-- How the inner loop of `poll_events` ends: the buffer holds no more complete
line, a line that is not an event was put back, or it raised. -/
inductive Drained where
  | empty (events : List Event) (c : Conn)
  | stashed (events : List Event) (c : Conn)
  | raised (e : PyError) (c : Conn)

/-- `while b"\n" in self._buf` -/
def drainLines (events : List Event) (c : Conn) : Drained :=
  match _hcut : cutLine LF c.buf with
  | none => .empty events c
  | some (raw, rest) =>
    match Utf8.decode? (rstrip CR raw) with
    | none => .raised .unicodeDecodeError c
    | some line =>
      if evtTag <+: line then
        match parseEvent line with
        | .error e => .raised e { c with buf := rest }
        | .ok event => drainLines (events ++ [event]) { c with buf := rest }
      else .stashed events { c with buf := Utf8.encode line ++ LF :: rest }
termination_by c.buf.length
decreasing_by
  rw [(eq_of_cutLine _hcut).1]
  simp
  omega

theorem drainLines_of_none {events : List Event} {c : Conn} (h : cutLine LF c.buf = none) :
    drainLines events c = .empty events c := by
  rw [drainLines]
  split <;> rename_i heq <;> rw [h] at heq
  cases heq

theorem drainLines_of_some {events : List Event} {c : Conn} {raw rest : Bytes}
    (h : cutLine LF c.buf = some (raw, rest)) :
    drainLines events c =
      match Utf8.decode? (rstrip CR raw) with
      | none => .raised .unicodeDecodeError c
      | some line =>
        if evtTag <+: line then
          match parseEvent line with
          | .error e => .raised e { c with buf := rest }
          | .ok event => drainLines (events ++ [event]) { c with buf := rest }
        else .stashed events { c with buf := Utf8.encode line ++ LF :: rest } := by
  rw [drainLines]
  split <;> rename_i heq <;> rw [h] at heq <;> cases heq
  rfl

/-- `while True`: read until an event has come, nothing comes any more, or a line
was put back. -/
def pollLoop (events : List Event) (s : Sock) (c : Conn) : Except PyError (List Event) × Conn :=
  match _hrecv : s.recv 8192 with
  | (.error .socketTimeout, s') => (.ok events, { c with sock := some s' })
  | (.error e, s') => (.error e, { c with sock := some s' })
  | (.ok [], s') => (.ok events, { c with sock := some s' })
  | (.ok (b :: bs), s') =>
    match drainLines events { c with sock := some s', buf := c.buf ++ b :: bs } with
    | .raised e c => (.error e, c)
    | .stashed events c => (.ok events, c)
    | .empty events c => if events ≠ [] then (.ok events, c) else pollLoop events s' c
termination_by s.weight
decreasing_by
  have hrecv := s.recv_cases (n := 8192) (by decide)
  rcases hrecv with ⟨_, _, _, heq, -, hlt⟩ | ⟨_, heq, -⟩ | ⟨_, heq, -⟩
  · rw [_hrecv] at heq
    obtain ⟨-, rfl⟩ := Prod.mk.inj heq
    exact hlt
  · rw [_hrecv] at heq
    cases heq
  · rw [_hrecv] at heq
    cases heq

theorem pollLoop_of_recv {events : List Event} {s s' : Sock} {c : Conn} {r : Except PyError Bytes}
    (h : s.recv 8192 = (r, s')) :
    pollLoop events s c =
      match r with
      | .error e =>
        (if e = .socketTimeout then .ok events else .error e, { c with sock := some s' })
      | .ok [] => (.ok events, { c with sock := some s' })
      | .ok (b :: bs) =>
        match drainLines events { c with sock := some s', buf := c.buf ++ b :: bs } with
        | .raised e c => (.error e, c)
        | .stashed events c => (.ok events, c)
        | .empty events c => if events ≠ [] then (.ok events, c) else pollLoop events s' c := by
  rw [pollLoop]
  split <;> rename_i heq <;> rw [h] at heq <;> cases heq
  · rfl
  · rename_i hnot
    exact congrArg (·, _) (if_neg hnot).symm
  · rfl
  · rfl

/-- `self._sock.settimeout(self.timeout)` -/
def Conn.restoreTimeout (c : Conn) : Conn :=
  { c with sock := c.sock.map fun s => { s with timeout := c.timeout } }

/-- `poll_events` -/
def pollEvents (timeout : Rat) (c : Conn) : Except PyError (List Event) × Conn :=
  let events := c.pendingEvents
  let c := { c with pendingEvents := [] }
  match c.sock with
  | none => (.ok events, c)
  | some s =>
    if events ≠ [] then (.ok events, c)
    else if timeout < 0 then (.error .valueError, c)
    else
      let s := { s with timeout := timeout }
      match pollLoop events s { c with sock := some s } with
      | (r, c) => (r, c.restoreTimeout)

theorem pollEvents_queued {timeout : Rat} {c : Conn} (h : c.pendingEvents ≠ []) :
    pollEvents timeout c = (.ok c.pendingEvents, { c with pendingEvents := [] }) := by
  rw [pollEvents]
  dsimp only
  split
  · rfl
  · rw [if_pos h]

theorem pollEvents_idle {timeout : Rat} {c : Conn} {s : Sock} (hnonneg : 0 ≤ timeout)
    (hsock : c.sock = some s) (h : c.pendingEvents = []) :
    pollEvents timeout c =
      ((pollLoop [] { s with timeout } { c with sock := some { s with timeout } }).1,
        (pollLoop [] { s with timeout }
          { c with sock := some { s with timeout } }).2.restoreTimeout) := by
  have hcleared : { c with pendingEvents := [] } = c := by
    rw [← h]
  rw [pollEvents, hcleared, h, hsock]
  dsimp only
  rw [if_neg (not_not.mpr rfl), if_neg (not_lt.mpr hnonneg)]

/-! ### Opening and closing -/

/-- `close` -/
def close (c : Conn) : Conn := { c with sock := none }

/-- `_connect`, on a new socket that will meet `arrivals`. -/
def connect (arrivals : List Arrival) (c : Conn) : Except PyError Unit × Conn :=
  let c := { c with sock := some ⟨arrivals, c.timeout, []⟩ }
  match c.auth with
  | none => (.ok (), c)
  | some auth =>
    match send ("AUTH ".toList ++ auth) c with
    | (.error e, c) => (.error e, c)
    | (.ok _, c) => (.ok (), c)

/-! ### Server lines on the stream -/

theorem evtTag_prefix_text (e : WireEvent) : evtTag <+: e.1.text :=
  ⟨_, (List.append_assoc _ _ _).symm⟩

theorem split_eventText (e : WireEvent) :
    split e.1.text = [">EVT".toList, intText e.1.hid, intText e.1.tid, intText e.1.rowId,
      e.1.op] := by
  have htag : IsWord ">EVT".toList := by decide
  have htext : e.1.text = ">EVT".toList ++ ' ' :: (intText e.1.hid ++ ' ' ::
      (intText e.1.tid ++ ' ' :: (intText e.1.rowId ++ ' ' :: e.1.op))) := by
    simp [Event.text, evtTag]
  rw [htext, split_word_cons htag, split_word_cons (intText_isWord _),
    split_word_cons (intText_isWord _), split_word_cons (intText_isWord _), split_word e.2.1]

/-- **A well-formed event is read back.** -/
theorem parseEvent_text (e : WireEvent) : parseEvent e.1.text = .ok e.1 := by
  obtain ⟨-, hhid, htid, hrow⟩ := e.2
  rw [parseEvent, split_eventText]
  simp only [int?_intText hhid, int?_intText htid, int?_intText hrow]

end CuttleDB.Py
