import CuttleDB.PyDemultiplexing

/-!
# Polling in any state

What `poll_events` does on an open connection with any bytes in the buffer and on the
network. With events in the queue it returns these and reads nothing, not even the buffer.
With none it reads the socket first: events that lie in the buffer behind an earlier reply
come out with the next data only. Without data a timeout of 0 raises `BlockingIOError`, and
the call catches `socket.timeout` only.
-/

namespace CuttleDB.Py

open Framing

/-! ### Lines of a buffer -/

/-- The complete lines of a buffer. -/
def completeLines (b : Bytes) : List Bytes := (b.splitOn LF).dropLast

/-- What stands behind the last line feed. -/
def partialLine (b : Bytes) : Bytes := (b.splitOn LF).getLast?.getD []

theorem completeLines_line {raw : Bytes} (h : LF ∉ raw) (rest : Bytes) :
    completeLines (raw ++ LF :: rest) = raw :: completeLines rest := by
  rw [completeLines, List.splitOn_append_cons_self_of_not_mem h,
    List.dropLast_cons_of_ne_nil (List.splitOn_ne_nil _ _), completeLines]

theorem completeLines_of_not_mem {b : Bytes} (h : LF ∉ b) : completeLines b = [] := by
  rw [completeLines, List.splitOn_eq_singleton h]
  rfl

theorem partialLine_line (raw rest : Bytes) : partialLine (raw ++ LF :: rest) = partialLine rest := by
  rw [partialLine, List.splitOn_append_cons_self,
    List.getLast?_append_of_ne_nil _ (List.splitOn_ne_nil _ _), partialLine]

/-- The event on a line. -/
def lineEvent? (raw : Bytes) : Option Event := do
  let line ← Utf8.decode? (rstrip CR raw)
  if evtTag <+: line then (parseEvent line).toOption else none

/-- The events on the complete lines of a buffer. -/
def bufferedEvents (b : Bytes) : List Event := (completeLines b).filterMap lineEvent?

/-- A poll can read the lines: they are text, and those that start like an event are one, up
to the first other line. -/
def Readable : List Bytes → Prop
  | [] => True
  | raw :: lines =>
    match Utf8.decode? (rstrip CR raw) with
    | none => False
    | some line => evtTag <+: line → (∃ event, parseEvent line = .ok event) ∧ Readable lines

/-! ### Open connections -/

def Conn.unread (c : Conn) : Bytes := (c.sock.map Sock.unread).getD []

/-- Open, with the configured timeout on the socket. -/
def Conn.IsOpen (c : Conn) : Prop := ∃ s, c.sock = some s ∧ s.timeout = c.timeout

abbrev OpenConn := { c : Conn // c.IsOpen }

/-- What a poll of `c` leaves behind: the socket with its configured timeout, and in the
buffer the line that has not arrived in full. -/
structure Conn.Polled (c c' : Conn) : Prop where
  isOpen : c'.IsOpen
  timeout : c'.timeout = c.timeout
  incomplete : ∃ taken, c.unread = taken ++ c'.unread ∧
    partialLine c'.buf = partialLine (c.buf ++ taken)

/-! ### The inner loop -/

/-- Lines taken off the buffer. -/
structure Conn.Drained (c c' : Conn) : Prop where
  sock : c'.sock = c.sock
  timeout : c'.timeout = c.timeout
  incomplete : partialLine c'.buf = partialLine c.buf

theorem Conn.Drained.refl (c : Conn) : c.Drained c := ⟨rfl, rfl, rfl⟩

/-- **What the inner loop makes of any buffer.** -/
theorem drainLines_cases (events : List Event) (c : Conn) :
    (∃ events' c', drainLines events c = .empty events' c' ∧ Readable (completeLines c.buf) ∧
      LF ∉ c'.buf ∧ (events ≠ [] ∨ LF ∈ c.buf → events' ≠ []) ∧ c.Drained c') ∨
    (∃ events' c', drainLines events c = .stashed events' c' ∧ Readable (completeLines c.buf) ∧
      c.Drained c') ∨
    (∃ e c', drainLines events c = .raised e c' ∧ ¬ Readable (completeLines c.buf) ∧
      c.Drained c') := by
  induction events, c using drainLines.induct with
  | case1 events c hcut =>
    have hlf : LF ∉ c.buf := cutLine_eq_none.mp hcut
    refine Or.inl ⟨events, c, ?_, ?_, hlf, fun h => h.resolve_right hlf, .refl c⟩
    · exact drainLines_of_none hcut
    · rw [completeLines_of_not_mem hlf]
      trivial
  | case2 events c raw rest hcut hdecode =>
    obtain ⟨hbuf, hlf⟩ := eq_of_cutLine hcut
    refine Or.inr (Or.inr ⟨.unicodeDecodeError, c, ?_, ?_, .refl c⟩)
    · rw [drainLines_of_some hcut, hdecode]
    · rw [hbuf, completeLines_line hlf, Readable, hdecode]
      exact id
  | case3 events c raw rest hcut line hdecode htag e hparse =>
    obtain ⟨hbuf, hlf⟩ := eq_of_cutLine hcut
    refine Or.inr (Or.inr ⟨e, { c with buf := rest }, ?_, ?_, rfl, rfl, ?_⟩)
    · rw [drainLines_of_some hcut, hdecode]
      dsimp only
      rw [if_pos htag, hparse]
    · rw [hbuf, completeLines_line hlf, Readable, hdecode]
      intro hreadable
      obtain ⟨⟨event, hok⟩, -⟩ := hreadable htag
      cases hparse.symm.trans hok
    · rw [hbuf, partialLine_line]
  | case4 events c raw rest hcut line hdecode htag event hparse ih =>
    obtain ⟨hbuf, hlf⟩ := eq_of_cutLine hcut
    have hstep : drainLines events c = drainLines (events ++ [event]) { c with buf := rest } := by
      rw [drainLines_of_some hcut, hdecode]
      dsimp only
      rw [if_pos htag, hparse]
    have hreadable : Readable (completeLines c.buf) ↔ Readable (completeLines rest) := by
      rw [hbuf, completeLines_line hlf, Readable, hdecode]
      exact ⟨fun h => (h htag).2, fun h _ => ⟨⟨event, hparse⟩, h⟩⟩
    have hdrained : ∀ c', ({ c with buf := rest } : Conn).Drained c' → c.Drained c' := by
      intro c' h
      refine ⟨h.sock, h.timeout, h.incomplete.trans ?_⟩
      rw [hbuf, partialLine_line]
    rw [hstep, hreadable]
    rcases ih with ⟨events', c', heq, hlines, hnone, hsome, hc'⟩ | ⟨events', c', heq, hlines, hc'⟩ |
      ⟨e, c', heq, hlines, hc'⟩
    · exact Or.inl ⟨events', c', heq, hlines, hnone, fun _ => hsome (Or.inl (by simp)),
        hdrained c' hc'⟩
    · exact Or.inr (Or.inl ⟨events', c', heq, hlines, hdrained c' hc'⟩)
    · exact Or.inr (Or.inr ⟨e, c', heq, hlines, hdrained c' hc'⟩)
  | case5 events c raw rest hcut line hdecode htag =>
    obtain ⟨hbuf, hlf⟩ := eq_of_cutLine hcut
    refine Or.inr (Or.inl ⟨events, { c with buf := Utf8.encode line ++ LF :: rest }, ?_, ?_,
      rfl, rfl, ?_⟩)
    · rw [drainLines_of_some hcut, hdecode]
      dsimp only
      rw [if_neg htag]
    · rw [hbuf, completeLines_line hlf, Readable, hdecode]
      exact fun h => absurd h htag
    · rw [hbuf, partialLine_line, partialLine_line]

/-! ### Reading for a poll -/

/-- What the reads of a poll come to. -/
inductive Reading where
  | line (buf : Bytes)    -- a read has left these bytes, the first with a complete line
  | closed
  | pause

/-- `recv` until a complete line is there. -/
def reading (s : Sock) (buf : Bytes) : Reading :=
  match _hrecv : s.recv 8192 with
  | (.error _, _) => .pause
  | (.ok [], _) => .closed
  | (.ok (b :: bs), s') =>
    if LF ∈ buf ++ b :: bs then .line (buf ++ b :: bs) else reading s' (buf ++ b :: bs)
termination_by s.weight
decreasing_by
  rcases s.recv_cases (n := 8192) (by decide) with ⟨_, _, _, heq, -, hlt⟩ | ⟨_, heq, -⟩ | ⟨_, heq, -⟩
  · rw [_hrecv] at heq
    obtain ⟨-, rfl⟩ := Prod.mk.inj heq
    exact hlt
  · rw [_hrecv] at heq
    cases heq
  · rw [_hrecv] at heq
    cases heq

theorem reading_of_recv {s s' : Sock} {buf : Bytes} {r : Except PyError Bytes}
    (h : s.recv 8192 = (r, s')) :
    reading s buf =
      match r with
      | .error _ => .pause
      | .ok [] => .closed
      | .ok (b :: bs) =>
        if LF ∈ buf ++ b :: bs then .line (buf ++ b :: bs) else reading s' (buf ++ b :: bs) := by
  rw [reading]
  split <;> rename_i heq <;> rw [h] at heq <;> cases heq <;> rfl

/-- The bytes that arrive before the next pause, or before the end. -/
def Sock.available (s : Sock) : Bytes := (s.arrivals.takeWhile Arrival.isData).flatMap Arrival.bytes

/-- The server closes the connection behind these. -/
def Sock.Closing (s : Sock) : Prop := (s.arrivals.dropWhile Arrival.isData).head? = some .eof

theorem Sock.available_data (chunk : { b : Bytes // b ≠ [] }) (rest : List Arrival) (timeout : Rat)
    (sent : Bytes) :
    (⟨.data chunk :: rest, timeout, sent⟩ : Sock).available =
      chunk.1 ++ (⟨rest, timeout, sent⟩ : Sock).available := rfl

/-- The data ends before there is a complete line, and the connection stays open. -/
def Sock.RunsDry (s : Sock) (buf : Bytes) : Prop :=
  ¬ s.Closing ∧ (s.available = [] ∨ LF ∉ buf ++ s.available)

/-- The reads of a poll end without an error: with no data left there is a timeout to wait
for, and the lines of the first read that completes one can be read. -/
def Sock.Serves (s : Sock) (buf : Bytes) : Prop :=
  (s.RunsDry buf → s.timeout ≠ 0) ∧
    ∀ received, reading s buf = .line received → Readable (completeLines received)

/-- What a read says of the data that is there. -/
theorem Sock.recv_available {n : Nat} (hn : 0 < n) (s : Sock) :
    (∃ b bs s', s.recv n = (.ok (b :: bs), s') ∧ s.available = b :: bs ++ s'.available ∧
      (s'.Closing ↔ s.Closing) ∧ s'.weight < s.weight) ∨
    (∃ s', s.recv n = (.ok [], s') ∧ s.available = [] ∧ s.Closing) ∨
    (∃ s', s.recv n = (.error s.noData, s') ∧ s.available = [] ∧ ¬ s.Closing) := by
  rcases s.recv_cases hn with
    ⟨b, bs, s', hrecv, -, hlt⟩ | ⟨s', hrecv, -, -⟩ | ⟨s', hrecv, -, -⟩
  · refine Or.inl ⟨b, bs, s', hrecv, ?_⟩
    obtain ⟨arrivals, timeout, sent⟩ := s
    unfold Sock.recv at hrecv
    split at hrecv
    · cases hrecv
    · cases hrecv
    · cases hrecv
    · rename_i chunk rest harrivals
      dsimp only at harrivals
      subst harrivals
      split at hrecv
      · obtain ⟨hchunk, rfl⟩ := Prod.mk.inj hrecv
        refine ⟨?_, Iff.rfl, hlt⟩
        rw [← Except.ok.inj hchunk]
        rfl
      · obtain ⟨hchunk, rfl⟩ := Prod.mk.inj hrecv
        refine ⟨?_, Iff.rfl, hlt⟩
        rw [← Except.ok.inj hchunk, Sock.available_data, Sock.available_data, ← List.append_assoc,
          List.take_append_drop]
  · refine Or.inr (Or.inl ⟨s', hrecv, ?_⟩)
    unfold Sock.recv at hrecv
    split at hrecv
    · cases hrecv
    · cases hrecv
    · rename_i harrivals
      simp [Sock.available, Sock.Closing, harrivals, Arrival.isData]
    · rename_i chunk rest _
      split at hrecv
      · exact absurd (Except.ok.inj (Prod.mk.inj hrecv).1) chunk.2
      · have htake := Except.ok.inj (Prod.mk.inj hrecv).1
        rw [List.take_eq_nil_iff] at htake
        exact absurd (htake.resolve_left hn.ne') chunk.2
  · refine Or.inr (Or.inr ⟨s', hrecv, ?_⟩)
    unfold Sock.recv at hrecv
    split at hrecv
    · rename_i harrivals
      simp [Sock.available, Sock.Closing, harrivals]
    · rename_i rest harrivals
      simp [Sock.available, Sock.Closing, harrivals, Arrival.isData]
    · cases hrecv
    · split at hrecv <;> cases hrecv

/-- **The reads find nothing more** if and only if the data runs dry. -/
theorem reading_eq_pause_iff (s : Sock) :
    ∀ buf : Bytes, reading s buf = .pause ↔ s.RunsDry buf := by
  induction hw : s.weight using Nat.strong_induction_on generalizing s with
  | _ w ih =>
    intro buf
    rcases s.recv_available (n := 8192) (by decide) with
      ⟨b, bs, s', hrecv, havailable, hclosing, hlt⟩ | ⟨s', hrecv, havailable, hclosing⟩ |
      ⟨s', hrecv, havailable, hclosing⟩
    · rw [reading_of_recv hrecv, Sock.RunsDry]
      dsimp only
      rw [havailable, ← hclosing, ← List.append_assoc]
      have hsome : ¬ (b :: bs ++ s'.available = []) := by simp
      rw [or_iff_right hsome]
      by_cases hlf : LF ∈ buf ++ b :: bs
      · rw [if_pos hlf]
        refine iff_of_false (by rintro ⟨⟩) fun h => h.2 (List.mem_append_left _ hlf)
      · rw [if_neg hlf, ih s'.weight (hw ▸ hlt) s' rfl]
        refine and_congr_right fun _ => ⟨?_, Or.inr⟩
        rintro (hnil | hnone)
        · rwa [hnil, List.append_nil]
        · exact hnone
    · rw [reading_of_recv hrecv]
      exact iff_of_false (by rintro ⟨⟩) fun h => h.1 hclosing
    · rw [reading_of_recv hrecv]
      exact iff_of_true rfl ⟨hclosing, Or.inl havailable⟩

theorem Sock.serves_iff_reading (s : Sock) (buf : Bytes) :
    s.Serves buf ↔
      match reading s buf with
      | .line received => Readable (completeLines received)
      | .closed => True
      | .pause => s.timeout ≠ 0 := by
  rw [Sock.Serves, ← reading_eq_pause_iff]
  cases reading s buf with
  | line received => simp
  | closed => simp
  | pause => simp

/-- **When the outer loop returns, and what it leaves.** -/
theorem pollLoop_cases (s : Sock) :
    ∀ c : Conn, c.sock = some s →
      ((∃ events, (pollLoop [] s c).1 = .ok events) ↔ s.Serves c.buf) ∧
      (pollLoop [] s c).2.timeout = c.timeout ∧
      ∃ taken s', (pollLoop [] s c).2.sock = some s' ∧ s.unread = taken ++ s'.unread ∧
        partialLine (pollLoop [] s c).2.buf = partialLine (c.buf ++ taken) := by
  -- on the reads left: each one that returns data leaves fewer
  induction hw : s.weight using Nat.strong_induction_on generalizing s with
  | _ w ih =>
    intro c hsock
    rcases s.recv_cases (n := 8192) (by decide) with
      ⟨b, bs, s', hrecv, hreads, hlt⟩ | ⟨s', hrecv, hreads, -⟩ | ⟨s', hrecv, hreads, -⟩
    · rw [pollLoop_of_recv hrecv, Sock.serves_iff_reading, reading_of_recv hrecv]
      dsimp only
      by_cases hlf : LF ∈ c.buf ++ b :: bs
      · rw [if_pos hlf]
        rcases drainLines_cases [] { c with sock := some s', buf := c.buf ++ b :: bs } with
          ⟨events, c', heq, hlines, -, hsome, hc'⟩ | ⟨events, c', heq, hlines, hc'⟩ |
          ⟨e, c', heq, hlines, hc'⟩
        · rw [heq]
          dsimp only
          rw [if_pos (hsome (Or.inr hlf))]
          exact ⟨iff_of_true ⟨_, rfl⟩ hlines, hc'.timeout, b :: bs, s', hc'.sock, hreads.unread,
            hc'.incomplete⟩
        · rw [heq]
          exact ⟨iff_of_true ⟨_, rfl⟩ hlines, hc'.timeout, b :: bs, s', hc'.sock, hreads.unread,
            hc'.incomplete⟩
        · rw [heq]
          refine ⟨iff_of_false ?_ hlines, hc'.timeout, b :: bs, s', hc'.sock, hreads.unread,
            hc'.incomplete⟩
          rintro ⟨events, hok⟩
          cases hok
      · -- no complete line yet
        rw [if_neg hlf]
        have hdrain : drainLines [] { c with sock := some s', buf := c.buf ++ b :: bs } =
            .empty [] { c with sock := some s', buf := c.buf ++ b :: bs } :=
          drainLines_of_none (cutLine_eq_none.mpr hlf)
        rw [hdrain]
        dsimp only
        rw [if_neg (not_not.mpr rfl)]
        obtain ⟨hiff, htimeout, taken, s'', hsock', hunread, hkept⟩ := ih s'.weight (hw ▸ hlt) s'
          rfl { c with sock := some s', buf := c.buf ++ b :: bs } rfl
        rw [Sock.serves_iff_reading, hreads.timeout] at hiff
        refine ⟨hiff, htimeout, (b :: bs) ++ taken, s'', hsock', ?_, ?_⟩
        · rw [hreads.unread, hunread, List.append_assoc]
        · rw [hkept, List.append_assoc]
    · rw [pollLoop_of_recv hrecv, Sock.serves_iff_reading, reading_of_recv hrecv]
      exact ⟨iff_of_true ⟨_, rfl⟩ trivial, rfl, [], s', rfl, hreads.unread, by simp⟩
    · rw [pollLoop_of_recv hrecv, Sock.serves_iff_reading, reading_of_recv hrecv]
      dsimp only
      refine ⟨?_, rfl, [], s', rfl, hreads.unread, by simp⟩
      by_cases hzero : s.timeout = 0
      · have hraise : s.noData = .blockingIOError := if_pos hzero
        rw [hraise, if_neg (by decide)]
        refine iff_of_false ?_ (not_not.mpr hzero)
        rintro ⟨events, hok⟩
        cases hok
      · have hraise : s.noData = .socketTimeout := if_neg hzero
        rw [hraise, if_pos rfl]
        exact iff_of_true ⟨_, rfl⟩ hzero

/-! ### One poll -/

/-- The timeouts that a socket takes. -/
abbrev PollTimeout := { t : Rat // 0 ≤ t }

/-- A poll of `c` ends without an error: there are queued events, or its reads do. -/
def Conn.Serves (timeout : Rat) (c : Conn) : Prop :=
  c.pendingEvents ≠ [] ∨
    ∃ s, c.sock = some s ∧ ({ s with timeout := timeout } : Sock).Serves c.buf

/-- **When a poll returns.** -/
theorem pollEvents_returns_iff (timeout : PollTimeout) (c : OpenConn) :
    (∃ events, (pollEvents timeout c.1).1 = .ok events) ↔ c.1.Serves timeout := by
  obtain ⟨c, s, hsock, hconfigured⟩ := c
  by_cases h : c.pendingEvents = []
  · rw [pollEvents_idle timeout.2 hsock h, Conn.Serves, or_iff_right (not_not.mpr h)]
    obtain ⟨hiff, -⟩ := pollLoop_cases { s with timeout := timeout }
      { c with sock := some { s with timeout } } rfl
    rw [hiff]
    constructor
    · exact fun hserves => ⟨s, hsock, hserves⟩
    · rintro ⟨s', hsock', hserves⟩
      obtain rfl := Option.some.inj (hsock.symm.trans hsock')
      exact hserves
  · rw [pollEvents_queued h]
    exact iff_of_true ⟨_, rfl⟩ (Or.inl h)

/-- **A poll keeps what has arrived of a line, and the configured timeout,** whether it returns
or raises. -/
theorem pollEvents_polled (timeout : PollTimeout) (c : OpenConn) :
    c.1.Polled (pollEvents timeout c.1).2 := by
  obtain ⟨c, s, hsock, hconfigured⟩ := c
  by_cases h : c.pendingEvents = []
  · rw [pollEvents_idle timeout.2 hsock h]
    obtain ⟨-, htimeout, taken, s', hsock', hunread, hkept⟩ := pollLoop_cases
      { s with timeout := timeout } { c with sock := some { s with timeout } } rfl
    refine ⟨⟨{ s' with timeout := c.timeout }, ?_, htimeout.symm⟩, htimeout, taken, ?_, hkept⟩
    · simp [Conn.restoreTimeout, hsock', htimeout]
    · simpa [Conn.unread, Conn.restoreTimeout, hsock, hsock', Sock.unread] using hunread
  · rw [pollEvents_queued h]
    exact ⟨⟨s, hsock, hconfigured⟩, rfl, [], rfl, by simp⟩

/-! ### What has been received -/

/-- The events that a poll hands over. -/
def returned : Except PyError (List Event) → List Event
  | .ok events => events
  | .error _ => []

/-- The events that have arrived in full: those in the queue, then those in the buffer. -/
def Conn.received (c : Conn) : List Event := c.pendingEvents ++ bufferedEvents c.buf

/-- Whatever the network brings, also nothing, a poll returns at least what has been
received, and that first. -/
def Conn.Delivers (timeout : Rat) (c : Conn) : Prop :=
  ∀ arrivals, c.received <+: returned (pollEvents timeout (c.deliver arrivals)).1

theorem delivers_iff (timeout : PollTimeout) (c : OpenConn) :
    c.1.Delivers timeout ↔ bufferedEvents c.1.buf = [] := by
  obtain ⟨c, s, hsock, hconfigured⟩ := c
  by_cases h : c.pendingEvents = []
  · constructor
    · intro hdelivers
      have hnothing := hdelivers []
      have hsock' : (c.deliver []).sock = some { s with arrivals := [] } := by
        simp [Conn.deliver, hsock]
      rw [pollEvents_idle timeout.2 hsock' h] at hnothing
      -- no data: an empty list or an error
      have hnone : ∀ c' : Conn,
          returned (pollLoop [] { s with arrivals := [], timeout := timeout } c').1 = [] := by
        intro c'
        have hrecv : ({ s with arrivals := [], timeout := timeout } : Sock).recv 8192 =
            (.error ({ s with arrivals := [], timeout := timeout } : Sock).noData,
              { s with arrivals := [], timeout := timeout }) := rfl
        rw [pollLoop_of_recv hrecv]
        dsimp only
        split
        · rfl
        · rfl
      dsimp only at hnothing
      rw [hnone, List.prefix_nil, Conn.received] at hnothing
      exact (List.append_eq_nil_iff.mp hnothing).2
    · intro hbuffered arrivals
      dsimp only at hbuffered
      rw [Conn.received, h, hbuffered]
      exact List.nil_prefix
  · have hpoll : ∀ arrivals, returned (pollEvents timeout (c.deliver arrivals)).1 =
        c.pendingEvents := by
      intro arrivals
      have h' : (c.deliver arrivals).pendingEvents ≠ [] := h
      rw [pollEvents_queued h']
      rfl
    constructor
    · intro hdelivers
      have hprefixed := hdelivers []
      rw [hpoll, Conn.received] at hprefixed
      have hlength := hprefixed.length_le
      dsimp only at hlength ⊢
      rw [List.length_append] at hlength
      exact List.length_eq_zero_iff.mp (by omega)
    · intro hbuffered arrivals
      dsimp only at hbuffered ⊢
      simp [hpoll, Conn.received, hbuffered]

/-! ### Reachable states -/

theorem Conn.IsOpen.of_reads {c c' : Conn} {d : Bytes} (h : c.IsOpen) (hreads : c.Reads d c') :
    c'.IsOpen := by
  obtain ⟨s, hsock, hconfigured⟩ := h
  have hmap := hreads.sockTimeout
  rw [hsock, Option.map_some, Option.map_eq_some_iff] at hmap
  obtain ⟨s', hsock', htimeout⟩ := hmap
  exact ⟨s', hsock', by rw [htimeout, hconfigured, hreads.timeout]⟩

theorem Conn.IsOpen.sendRaw {c : Conn} (h : c.IsOpen) (command : Text) :
    (sendRaw command c).2.IsOpen := by
  obtain ⟨s, hsock, hconfigured⟩ := h
  obtain ⟨c₁, hwrite, hopen, -, -, -, -, htimeout, hmap⟩ :=
    write_open (c := c) (by simp [hsock]) (Utf8.encode (command ++ ['\n']))
  have hopen₁ : c₁.IsOpen := by
    rw [hsock, Option.map_some, Option.map_eq_some_iff] at hmap
    obtain ⟨s₁, hsock₁, hsame⟩ := hmap
    exact ⟨s₁, hsock₁, by rw [hsame, hconfigured, htimeout]⟩
  obtain ⟨d, hreads⟩ := readResponse_reads c₁
  rw [Py.sendRaw, hwrite]
  exact hopen₁.of_reads hreads

theorem Conn.IsOpen.call {c : Conn} (h : c.IsOpen) (call : Call) : (call.run c).2.IsOpen := by
  cases call with
  | sendRaw command => exact h.sendRaw command
  | send command =>
    have hraw := h.sendRaw command
    rw [Call.run, send_eq]
    rcases hsend : Py.sendRaw command c with ⟨e | line, c'⟩ <;> rw [hsend] at hraw <;> exact hraw
  | pollEvents timeout =>
    rcases lt_or_ge timeout 0 with hneg | hnonneg
    · obtain ⟨s, hsock, hconfigured⟩ := h
      rw [Call.run, Py.pollEvents]
      dsimp only
      rw [hsock]
      dsimp only
      split
      · exact ⟨s, rfl, hconfigured⟩
      · exact ⟨s, rfl, hconfigured⟩
    · exact (pollEvents_polled ⟨timeout, hnonneg⟩ ⟨c, h⟩).isOpen

theorem run_isOpen (steps : List Step) :
    ∀ {c : Conn}, c.IsOpen → (run steps c).2.IsOpen := by
  induction steps with
  | nil => exact fun h => h
  | cons st steps ih =>
    rintro c ⟨s, hsock, hconfigured⟩
    have hdelivered : (c.deliver st.chunks).IsOpen :=
      ⟨{ s with arrivals := st.chunks }, by simp [Conn.deliver, hsock], hconfigured⟩
    exact ih (hdelivered.call st.call)

theorem Conn.opened_isOpen (timeout : Rat) : (Conn.opened timeout).IsOpen := ⟨_, rfl, rfl⟩

/-- **A poll delivers what has been received if and only if no complete event lies in the
buffer,** on every open connection; every run leaves one. -/
theorem polls_deliver_iff (timeout : PollTimeout) :
    (∀ c : OpenConn, c.1.Delivers timeout ↔ bufferedEvents c.1.buf = []) ∧
      ∀ configured steps, (run steps (Conn.opened configured)).2.IsOpen :=
  ⟨delivers_iff timeout, fun configured steps => run_isOpen steps (Conn.opened_isOpen configured)⟩

/-- An event that came in the chunk of a reply stays in the buffer. -/
theorem buffered_event_withheld :
    let chunk := Utf8.encode "+OK 7\r\n>EVT 0 0 1 INS\r\n".toList
    ¬ (run [⟨chunk, [.data ⟨chunk, by decide⟩], .send "COUNT 0 0".toList⟩]
      (Conn.opened 30)).2.Delivers 1 := by
  intro chunk hdelivers
  exact absurd (hdelivers []) (by decide +kernel)

end CuttleDB.Py
