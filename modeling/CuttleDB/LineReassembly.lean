import CuttleDB.PyArrivals
import CuttleDB.PyPolling
import CuttleDB.JsListeners

/-!
# Lines and chunks

A stream comes in chunks of any size. `_readline` looks at its buffer before it reads, and
`_onData` goes through the buffer after each chunk: either way the buffer holds what stands
behind the last line that was taken, so the lines are those of the whole stream.

A listener that throws ends the loop of `_onData` in the middle of the buffer. Where its
exception ends the program, no chunk has made a difference until then; where something catches
it, the lines behind its event stay in `_buf` for the next chunk.
-/

namespace CuttleDB.Py

open Framing

/-! ### Python -/

theorem partialLine_of_not_mem {b : Bytes} (h : LF ∉ b) : partialLine b = b := by
  rw [partialLine, List.splitOn_eq_singleton h]
  rfl

/-- What comes when the chunks have been read: nothing, or a pause or the end of the stream
before anything else. -/
abbrev Lull := { later : List Arrival // ∀ a ∈ later.head?, a.isData = false }

/-- The connection when the stream comes to it in these chunks. -/
def Conn.fed {stream : Bytes} (c : Conn) (s : Sock) (cut : Cutting stream) (later : Lull) :
    Conn :=
  { c with sock := some { s with arrivals := cut.chunks.map .data ++ later.1 } }

/-- The lines of repeated `_readline` calls up to the one that raises, and what that one
leaves. -/
def readlines (c : Conn) : List Bytes × PyError × Conn :=
  match _hread : readline c with
  | (.error e, c') => ([], e, c')
  | (.ok line, c') =>
    let (lines, e, c'') := readlines c'
    (line :: lines, e, c'')
termination_by c.stream.length
decreasing_by
  rcases readline_cases c with ⟨line, _, heq, -, hreads, -⟩ | ⟨_, _, heq, -⟩
  · rw [_hread] at heq
    obtain ⟨-, rfl⟩ := Prod.mk.inj heq
    exact hreads.stream_length_lt
  · rw [_hread] at heq
    cases heq

theorem readlines_of_ok {c c' : Conn} {line : Bytes} (h : readline c = (.ok line, c')) :
    readlines c = (line :: (readlines c').1, (readlines c').2.1, (readlines c').2.2) := by
  rw [readlines]
  split <;> rename_i heq <;> rw [h] at heq <;> cases heq
  rfl

theorem readlines_of_error {c c' : Conn} {e : PyError} (h : readline c = (.error e, c')) :
    readlines c = ([], e, c') := by
  rw [readlines]
  split <;> rename_i heq <;> rw [h] at heq <;> cases heq
  rfl

theorem Conn.fed_supplies {stream : Bytes} (c : Conn) (s : Sock) (cut : Cutting stream)
    (later : Lull) : (c.fed s cut later).Supplies (c.buf ++ stream) later.1 :=
  ⟨_, stream, rfl, rfl, cut.chunks, rfl, cut.joined⟩

/-- When nothing is left to read, a read takes nothing. -/
theorem Sock.Supplies.recv_lull {s : Sock} {later : Lull} (h : s.Supplies [] later.1) (n : Nat) :
    (∃ e s', s.recv n = (.error e, s')) ∨ ∃ s', s.recv n = (.ok [], s') := by
  obtain ⟨arrivals, timeout, sent⟩ := s
  obtain ⟨later, hlater⟩ := later
  obtain ⟨chunks, rfl, hfront⟩ := h
  cases chunks with
  | cons chunk chunks =>
    rw [List.flatMap_cons, List.append_eq_nil_iff] at hfront
    exact absurd hfront.1 chunk.2
  | nil =>
    cases later with
    | nil => exact Or.inl ⟨_, _, rfl⟩
    | cons a later =>
      cases a with
      | data chunk => exact absurd (hlater _ rfl) (by simp [Arrival.isData])
      | silence => exact Or.inl ⟨_, _, rfl⟩
      | eof => exact Or.inr ⟨_, rfl⟩

/-- A line that has not come to its end is not returned, and stays in the buffer. -/
theorem readline_lull {bytes : Bytes} {later : Lull} (hlf : LF ∉ bytes) {c : Conn}
    (h : c.Supplies bytes later.1) :
    ∃ e c', readline c = (.error e, c') ∧ c'.buf = bytes := by
  obtain ⟨s, hs, hread⟩ := readline_gathers hlf h
  rw [hread, readline_of_recv rfl (cutLine_eq_none.mpr hlf)]
  rcases hs.recv_lull 8192 with ⟨e, s', hrecv⟩ | ⟨s', hrecv⟩
  · rw [hrecv]
    exact ⟨_, _, rfl, rfl⟩
  · rw [hrecv]
    exact ⟨_, _, rfl, rfl⟩

/-- **The lines of a stream are read, in whatever chunks it comes.** -/
theorem readlines_supplies {bytes : Bytes} {later : Lull} {c : Conn}
    (h : c.Supplies bytes later.1) :
    (readlines c).1 = (completeLines bytes).map (chomp CR) ∧
      (readlines c).2.2.buf = partialLine bytes := by
  induction bytes using line_induction LF generalizing c with
  | last bytes hlf =>
    obtain ⟨e, c', hread, hbuf⟩ := readline_lull hlf h
    rw [readlines_of_error hread, completeLines_of_not_mem hlf, partialLine_of_not_mem hlf]
    exact ⟨rfl, hbuf⟩
  | line raw rest hraw ih =>
    obtain ⟨c', hread, hsupplies, -⟩ := readline_supplies hraw h
    obtain ⟨hlines, hbuf⟩ := ih hsupplies
    rw [readlines_of_ok hread, completeLines_line hraw, partialLine_line, List.map_cons, hlines]
    exact ⟨rfl, hbuf⟩

end CuttleDB.Py

namespace CuttleDB.Js

open Framing

/-! ### JavaScript -/

section

variable {α ω : Type} [DecidableEq α] [Alphabet α]

/-- The loop of `_onData`, with the lines that it dispatches and whether a listener threw. -/
def TcpListening.drained (listeners : List (Listener α)) (t : TcpListening α) :
    List (List α) × TcpListening α × Bool :=
  match _hcut : cutLine (lit '\n') t.buf with
  | none => ([], t, false)
  | some (raw, rest) =>
    let line := chomp (lit '\r') raw
    match t.toListening.dispatch tcpWrite listeners line with
    | (l, true) => ([line], ⟨l, rest⟩, true)
    | (l, false) =>
      let (lines, t, thrown) := drained listeners ⟨l, rest⟩
      (line :: lines, t, thrown)
termination_by t.buf.length
decreasing_by
  rw [(eq_of_cutLine _hcut).1]
  simp
  omega

/-- The lines that are dispatched in a run that goes on after an exception, and the state it
ends in. -/
def TcpListening.dispatched (listeners : List (Listener α)) :
    List (Input α) → TcpListening α → List (List α) × TcpListening α
  | [], t => ([], t)
  | .call c :: inputs, t => dispatched listeners inputs (t.step listeners (.call c))
  | .data chunk :: inputs, t =>
    let (lines, t, _) := TcpListening.drained listeners { t with buf := t.buf ++ chunk }
    let (lines', t) := dispatched listeners inputs t
    (lines ++ lines', t)

/-- The lines that are dispatched in a run that ends with the first exception. -/
def TcpListening.untilThrown (listeners : List (Listener α)) :
    List (Input α) → TcpListening α → List (List α)
  | [], _ => []
  | .call c :: inputs, t => untilThrown listeners inputs (t.step listeners (.call c))
  | .data chunk :: inputs, t =>
    let (lines, t, thrown) := TcpListening.drained listeners { t with buf := t.buf ++ chunk }
    if thrown then lines else lines ++ untilThrown listeners inputs t

/-- A stream that comes in chunks, with calls of the client between them. -/
structure Delivery (stream : List α) extends Cutting stream where
  inputs : List (Input α)
  texts_inputs : texts inputs = chunks.map Subtype.val

omit [DecidableEq α] in
theorem Delivery.flatten_texts {stream : List α} (d : Delivery stream) :
    (texts d.inputs).flatten = stream := by
  rw [d.texts_inputs, ← List.flatMap_def, d.joined]

theorem TcpListening.drained_of_none {listeners : List (Listener α)} {t : TcpListening α}
    (h : cutLine (lit '\n') t.buf = none) : t.drained listeners = ([], t, false) := by
  rw [TcpListening.drained]
  split <;> rename_i heq <;> rw [h] at heq
  cases heq

/-- One line of the buffer, and the rest of the loop unless a listener threw. -/
theorem TcpListening.drained_of_some {listeners : List (Listener α)} {t : TcpListening α}
    {raw rest : List α} (h : cutLine (lit '\n') t.buf = some (raw, rest)) :
    t.drained listeners =
      match t.toListening.dispatch tcpWrite listeners (chomp (lit '\r') raw) with
      | (l, true) => ([chomp (lit '\r') raw], ⟨l, rest⟩, true)
      | (l, false) =>
        (chomp (lit '\r') raw :: (TcpListening.drained listeners ⟨l, rest⟩).1,
          (TcpListening.drained listeners ⟨l, rest⟩).2) := by
  rw [TcpListening.drained]
  split <;> rename_i heq <;> rw [h] at heq <;> cases heq
  rfl

/-- The loop with its lines leaves what the loop leaves. -/
theorem TcpListening.drained_snd (listeners : List (Listener α)) (t : TcpListening α) :
    (t.drained listeners).2.1 = t.drain listeners := by
  generalize hbuf : t.buf = buf
  induction buf using line_induction (lit '\n' : α) generalizing t with
  | last buf h =>
    have hcut : cutLine (lit '\n') t.buf = none := hbuf ▸ cutLine_eq_none.mpr h
    rw [TcpListening.drained_of_none hcut, TcpListening.drain_of_none hcut]
  | line raw rest hraw ih =>
    have hcut : cutLine (lit '\n') t.buf = some (raw, rest) := hbuf ▸ cutLine_line hraw rest
    rw [TcpListening.drained_of_some hcut, TcpListening.drain_of_some hcut]
    rcases t.toListening.dispatch tcpWrite listeners (chomp (lit '\r') raw) with ⟨l, thrown⟩
    cases thrown with
    | true => rfl
    | false => exact ih ⟨l, rest⟩ rfl

/-- The run with its lines ends where the run ends. -/
theorem TcpListening.dispatched_snd (listeners : List (Listener α)) (inputs : List (Input α))
    (t : TcpListening α) :
    (t.dispatched listeners inputs).2 = inputs.foldl (TcpListening.step listeners) t := by
  induction inputs generalizing t with
  | nil => rfl
  | cons input inputs ih =>
    cases input with
    | call c => exact ih _
    | data chunk =>
      rw [List.foldl_cons, ← ih, TcpListening.step, TcpListening.onData,
        ← TcpListening.drained_snd]
      rfl

/-- The lines that the loop dispatches and those it leaves are the lines of the buffer. -/
theorem TcpListening.drained_lines (listeners : List (Listener α)) (t : TcpListening α) :
    (t.drained listeners).1 ++ completeLines (t.drained listeners).2.1.buf = completeLines t.buf ∧
      remainder (t.drained listeners).2.1.buf = remainder t.buf := by
  generalize hbuf : t.buf = buf
  induction buf using line_induction (lit '\n' : α) generalizing t with
  | last buf h =>
    have hcut : cutLine (lit '\n') t.buf = none := hbuf ▸ cutLine_eq_none.mpr h
    rw [TcpListening.drained_of_none hcut, hbuf]
    exact ⟨rfl, rfl⟩
  | line raw rest hraw ih =>
    have hcut : cutLine (lit '\n') t.buf = some (raw, rest) := hbuf ▸ cutLine_line hraw rest
    rw [TcpListening.drained_of_some hcut, completeLines_line hraw, remainder_line hraw]
    rcases t.toListening.dispatch tcpWrite listeners (chomp (lit '\r') raw) with ⟨l, thrown⟩
    cases thrown with
    | true => exact ⟨rfl, rfl⟩
    | false =>
      obtain ⟨hlines, hremainder⟩ := ih ⟨l, rest⟩ rfl
      exact ⟨congrArg (_ :: ·) hlines, hremainder⟩

/-- A loop that no listener leaves goes through all of the buffer. -/
theorem TcpListening.drained_all {listeners : List (Listener α)}
    (hquiet : ∀ cb ∈ listeners, ∀ k, (cb k).2 = false) (t : TcpListening α) :
    lit '\n' ∉ (t.drained listeners).2.1.buf := by
  generalize hbuf : t.buf = buf
  induction buf using line_induction (lit '\n' : α) generalizing t with
  | last buf hlf =>
    have hcut : cutLine (lit '\n') t.buf = none := hbuf ▸ cutLine_eq_none.mpr hlf
    rwa [TcpListening.drained_of_none hcut, hbuf]
  | line raw rest hraw ih =>
    have hcut : cutLine (lit '\n') t.buf = some (raw, rest) := hbuf ▸ cutLine_line hraw rest
    have hthrown :=
      (Listening.dispatch_quiet hquiet tcpWrite t.toListening (chomp (lit '\r') raw)).2
    rw [TcpListening.drained_of_some hcut]
    rcases hdispatch : t.toListening.dispatch tcpWrite listeners (chomp (lit '\r') raw)
      with ⟨l, thrown⟩
    rw [hdispatch] at hthrown
    obtain rfl : thrown = false := hthrown
    exact ih ⟨l, rest⟩ rfl

/-- **Nothing of a stream is lost between its chunks:** the lines dispatched so far, then those
that still lie in `_buf`, are the lines of what has come. -/
theorem TcpListening.dispatched_lines (listeners : List (Listener α)) (inputs : List (Input α))
    (t : TcpListening α) :
    (t.dispatched listeners inputs).1 ++ completeLines (t.dispatched listeners inputs).2.buf =
        completeLines (t.buf ++ (texts inputs).flatten) ∧
      remainder (t.dispatched listeners inputs).2.buf =
        remainder (t.buf ++ (texts inputs).flatten) := by
  induction inputs generalizing t with
  | nil =>
    rw [show (texts ([] : List (Input α))).flatten = [] from rfl, List.append_nil]
    exact ⟨rfl, rfl⟩
  | cons input inputs ih =>
    cases input with
    | call c => exact ih _
    | data chunk =>
      obtain ⟨hlines, hremainder⟩ :=
        TcpListening.drained_lines listeners { t with buf := t.buf ++ chunk }
      obtain ⟨hrest, htail⟩ :=
        ih (TcpListening.drained listeners { t with buf := t.buf ++ chunk }).2.1
      obtain ⟨hsplit, hsplitRemainder⟩ := lines_append (t.buf ++ chunk) (texts inputs).flatten
      obtain ⟨hleft, hleftRemainder⟩ := lines_append
        (TcpListening.drained listeners { t with buf := t.buf ++ chunk }).2.1.buf
        (texts inputs).flatten
      have htexts : (texts (.data chunk :: inputs)).flatten = chunk ++ (texts inputs).flatten := rfl
      dsimp only at hlines hremainder
      rw [htexts, ← List.append_assoc, hsplit, hsplitRemainder, ← hlines, ← hremainder,
        List.append_assoc, ← hleft, ← hleftRemainder, ← hrest]
      exact ⟨List.append_assoc _ _ _, htail⟩

theorem TcpListening.dispatched_all {listeners : List (Listener α)}
    (hquiet : ∀ cb ∈ listeners, ∀ k, (cb k).2 = false) (inputs : List (Input α))
    {t : TcpListening α} (ht : lit '\n' ∉ t.buf) :
    lit '\n' ∉ (t.dispatched listeners inputs).2.buf := by
  induction inputs generalizing t with
  | nil => exact ht
  | cons input inputs ih =>
    cases input with
    | call c => exact ih ht
    | data chunk => exact ih (TcpListening.drained_all hquiet _)

/-- An event is counted, and nothing else is. -/
theorem Listening.dispatch_events (write : Call α → List ω) (listeners : List (Listener α))
    (t : Listening α ω) (line : List α) :
    (t.dispatch write listeners line).1.events = t.events ++ eventTexts [line] ∧
      (t.dispatch write listeners line).2 =
        decide (.event true ∈ marks listeners t.events.length [line]) := by
  by_cases hevent : evtTag <+: line
  · obtain ⟨⟨hevents, -⟩, hthrown⟩ := Listening.dispatch_event write listeners t hevent
    have htexts : eventTexts [line] = [line] := by simp [eventTexts, hevent]
    rw [hevents, hthrown, htexts]
    exact ⟨rfl, by simp [marks, hevent]⟩
  · have htexts : eventTexts [line] = [] := by simp [eventTexts, hevent]
    have hmarks : marks listeners t.events.length [line] = [.reply] := by simp [marks, hevent]
    rw [Listening.dispatch, if_neg hevent, htexts, hmarks, List.append_nil]
    cases hw : t.waiters with
    | nil => exact ⟨rfl, rfl⟩
    | cons w ws =>
      obtain ⟨-, -, -, hevents, -⟩ :=
        Transport.resolve_spec w line { t.toTransport with waiters := ws }
      exact ⟨hevents, rfl⟩

/-- The lines up to the first throw, of lines that come in two parts. -/
theorem take_handledCount_append (listeners : List (Listener α)) (k : Nat)
    (lines lines' : List (List α)) :
    (lines ++ lines').take (handledCount (marks listeners k (lines ++ lines'))) =
      if .event true ∈ marks listeners k lines then
        lines.take (handledCount (marks listeners k lines))
      else
        lines ++ lines'.take
          (handledCount (marks listeners (k + (eventTexts lines).length) lines')) := by
  have hlength := length_marks listeners k lines
  rw [marks_append, handledCount_append]
  split
  · have hle := handledCount_le (marks listeners k lines)
    rw [hlength] at hle
    exact List.take_append_of_le_length hle
  · rw [hlength]
    exact List.take_length_add_append _

theorem take_handledCount_singleton (listeners : List (Listener α)) (k : Nat) (line : List α) :
    [line].take (handledCount (marks listeners k [line])) = [line] := by
  by_cases hevent : evtTag <+: line
  · cases hthrow : throwsAt listeners k <;> simp [marks, hevent, hthrow, handledCount]
  · simp [marks, hevent, handledCount]

/-- What the loop does to the complete lines of the buffer: it dispatches those up to the
first at which a listener throws. -/
theorem TcpListening.drained_marks (listeners : List (Listener α)) (t : TcpListening α) :
    let lines := completeLines t.buf
    let ms := marks listeners t.events.length lines
    (t.drained listeners).1 = lines.take (handledCount ms) ∧
      (t.drained listeners).2.2 = decide (.event true ∈ ms) ∧
      (.event true ∉ ms → (t.drained listeners).2.1.events = t.events ++ eventTexts lines ∧
        (t.drained listeners).2.1.buf = remainder t.buf) := by
  generalize hbuf : t.buf = buf
  induction buf using line_induction (lit '\n' : α) generalizing t with
  | last buf h =>
    have hcut : cutLine (lit '\n') t.buf = none := hbuf ▸ cutLine_eq_none.mpr h
    rw [TcpListening.drained_of_none hcut, completeLines_of_not_mem h, remainder_of_not_mem h]
    intro lines ms
    exact ⟨rfl, rfl, fun _ => ⟨(List.append_nil _).symm, hbuf⟩⟩
  | line raw rest hraw ih =>
    have hcut : cutLine (lit '\n') t.buf = some (raw, rest) := hbuf ▸ cutLine_line hraw rest
    obtain ⟨hevents, hthrown⟩ :=
      Listening.dispatch_events tcpWrite listeners t.toListening (chomp (lit '\r') raw)
    have htake := take_handledCount_append listeners t.events.length [chomp (lit '\r') raw]
      (completeLines rest)
    have hmarks := marks_append listeners t.events.length [chomp (lit '\r') raw]
      (completeLines rest)
    rw [List.singleton_append, take_handledCount_singleton] at htake
    rw [TcpListening.drained_of_some hcut, completeLines_line hraw, remainder_line hraw]
    intro lines ms
    rw [htake]
    rcases hdispatch : t.toListening.dispatch tcpWrite listeners (chomp (lit '\r') raw)
      with ⟨l, thrown⟩
    rw [hdispatch] at hevents hthrown
    dsimp only at hevents hthrown
    have hms : .event true ∈ ms ↔
        .event true ∈ marks listeners t.events.length [chomp (lit '\r') raw] ∨
          .event true ∈ marks listeners
            (t.events.length + (eventTexts [chomp (lit '\r') raw]).length)
            (completeLines rest) := by
      rw [← List.mem_append, ← hmarks]
      rfl
    cases thrown with
    | true =>
      have hmem := of_decide_eq_true hthrown.symm
      have hthrows : .event true ∈ ms := hms.mpr (Or.inl hmem)
      rw [if_pos hmem]
      exact ⟨rfl, (decide_eq_true hthrows).symm, fun hnone => absurd hthrows hnone⟩
    | false =>
      have hnot := of_decide_eq_false hthrown.symm
      have hrest := hms.trans (or_iff_right hnot)
      obtain ⟨hlines, hthrows, hquiet⟩ := ih ⟨l, rest⟩ rfl
      dsimp only at hlines hthrows hquiet
      rw [hevents, List.length_append] at hlines hthrows hquiet
      rw [if_neg hnot]
      refine ⟨congrArg (_ :: ·) hlines, ?_, fun hnone => ?_⟩
      · rw [hthrows]
        exact decide_eq_decide.mpr hrest.symm
      · obtain ⟨hevents', hbuf'⟩ := hquiet (mt hrest.mpr hnone)
        refine ⟨?_, hbuf'⟩
        rw [hevents', List.append_assoc, ← eventTexts_append]
        rfl

/-- **A run that ends with the first exception** dispatches the lines up to the one at which a
listener throws, wherever the chunks are cut. -/
theorem TcpListening.untilThrown_eq (listeners : List (Listener α)) (inputs : List (Input α))
    {t : TcpListening α} (ht : lit '\n' ∉ t.buf) :
    let lines := completeLines (t.buf ++ (texts inputs).flatten)
    t.untilThrown listeners inputs =
      lines.take (handledCount (marks listeners t.events.length lines)) := by
  induction inputs generalizing t with
  | nil =>
    intro lines
    have hnone : lines = [] := completeLines_of_not_mem (by simpa [texts] using ht)
    rw [hnone]
    rfl
  | cons input inputs ih =>
    cases input with
    | call c =>
      have hevents := (Listening.call_queues tcpWrite t.toListening c).1
      have hrest := ih (t := t.step listeners (.call c)) ht
      rw [TcpListening.step] at hrest
      dsimp only at hrest
      rw [hevents] at hrest
      exact hrest
    | data chunk =>
      intro lines
      obtain ⟨hdrained, hthrown, hquiet⟩ :=
        TcpListening.drained_marks listeners { t with buf := t.buf ++ chunk }
      obtain ⟨hsplit, -⟩ := lines_append (t.buf ++ chunk) (texts inputs).flatten
      have htake := take_handledCount_append listeners t.events.length
        (completeLines (t.buf ++ chunk))
        (completeLines (remainder (t.buf ++ chunk) ++ (texts inputs).flatten))
      have hlines : lines = completeLines (t.buf ++ chunk) ++
          completeLines (remainder (t.buf ++ chunk) ++ (texts inputs).flatten) := by
        rw [← hsplit, List.append_assoc]
        rfl
      rw [hlines, htake, TcpListening.untilThrown]
      dsimp only
      rw [hthrown, hdrained]
      by_cases hthrows : .event true ∈
          marks listeners t.events.length (completeLines (t.buf ++ chunk))
      · rw [if_pos hthrows, if_pos (decide_eq_true hthrows)]
      · obtain ⟨hevents, hbuf⟩ := hquiet hthrows
        have hrest := ih
          (t := (TcpListening.drained listeners { t with buf := t.buf ++ chunk }).2.1)
          (by rw [hbuf]; exact remainder_not_mem _)
        rw [if_neg hthrows, if_neg (by simpa using hthrows), handledCount_eq_length hthrows,
          length_marks, List.take_length, hrest, hevents, hbuf, List.length_append]

/-- A run of listeners that do not throw dispatches all lines that have come. -/
theorem TcpListening.dispatched_eq {listeners : List (Listener α)}
    (hquiet : ∀ cb ∈ listeners, ∀ k, (cb k).2 = false) (inputs : List (Input α))
    {t : TcpListening α} (ht : lit '\n' ∉ t.buf) :
    (t.dispatched listeners inputs).1 = completeLines (t.buf ++ (texts inputs).flatten) ∧
      (t.dispatched listeners inputs).2.buf = remainder (t.buf ++ (texts inputs).flatten) := by
  obtain ⟨hlines, hremainder⟩ := TcpListening.dispatched_lines listeners inputs t
  have hall := TcpListening.dispatched_all hquiet inputs ht
  rw [completeLines_of_not_mem hall, List.append_nil] at hlines
  rw [remainder_of_not_mem hall] at hremainder
  exact ⟨hlines, hremainder⟩

end

end CuttleDB.Js

namespace CuttleDB

open Framing

/-- **The lines do not depend on the chunks.** In two cuttings of one stream, `_readline` returns
the same lines and `_onData` dispatches the same lines: those that end in a line feed, without
it and without one carriage return before it. What stands behind the last of them is the buffer.
If a listener throws, the lines dispatched up to its exception are the same too; and if the
program goes on, the lines that `_onData` has not reached are first in its buffer. -/
theorem lines_of_any_cutting :
    (∀ (c : Py.Conn) (s : Py.Sock) (later later' : Py.Lull) (stream : Bytes)
      (cut cut' : Cutting stream),
      let lines := Py.completeLines (c.buf ++ stream)
      let r := Py.readlines (c.fed s cut later)
      let r' := Py.readlines (c.fed s cut' later')
      r.1 = lines.map (chomp CR) ∧ r.2.2.buf = Py.partialLine (c.buf ++ stream) ∧
        r'.1 = r.1 ∧ r'.2.2.buf = r.2.2.buf) ∧
    (∀ (listeners : List (Js.Listener UInt16)) (stream : List UInt16)
      (cut cut' : Js.Delivery stream),
      let opened : Js.TcpListening UInt16 := ⟨Js.Listening.opened, []⟩
      let lines := Js.completeLines stream
      let r := opened.dispatched listeners cut.inputs
      let r' := opened.dispatched listeners cut'.inputs
      r.2 = Js.TcpListening.state listeners cut.inputs ∧
      ((∀ cb ∈ listeners, ∀ k, (cb k).2 = false) →
        r.1 = lines ∧ r.2.buf = Js.remainder stream ∧ r'.1 = r.1 ∧ r'.2.buf = r.2.buf) ∧
      (opened.untilThrown listeners cut.inputs =
          lines.take (Js.handledCount (Js.marks listeners 0 lines)) ∧
        opened.untilThrown listeners cut'.inputs = opened.untilThrown listeners cut.inputs) ∧
      (r.1 ++ Js.completeLines r.2.buf = lines ∧ Js.remainder r.2.buf = Js.remainder stream)) := by
  constructor
  · intro c s later later' stream cut cut' lines r r'
    obtain ⟨hlines, hbuf⟩ := Py.readlines_supplies (c.fed_supplies s cut later)
    obtain ⟨hlines', hbuf'⟩ := Py.readlines_supplies (c.fed_supplies s cut' later')
    exact ⟨hlines, hbuf, hlines'.trans hlines.symm, hbuf'.trans hbuf.symm⟩
  · intro listeners stream cut cut' opened lines r r'
    have hopened : lit '\n' ∉ opened.buf := List.not_mem_nil
    refine ⟨Js.TcpListening.dispatched_snd listeners cut.inputs opened, ?_, ?_, ?_⟩
    · intro hquiet
      obtain ⟨hall, hbuf⟩ := Js.TcpListening.dispatched_eq hquiet cut.inputs hopened
      obtain ⟨hall', hbuf'⟩ := Js.TcpListening.dispatched_eq hquiet cut'.inputs hopened
      rw [cut.flatten_texts] at hall hbuf
      rw [cut'.flatten_texts] at hall' hbuf'
      exact ⟨hall, hbuf, hall'.trans hall.symm, hbuf'.trans hbuf.symm⟩
    · have huntil := Js.TcpListening.untilThrown_eq listeners cut.inputs hopened
      have huntil' := Js.TcpListening.untilThrown_eq listeners cut'.inputs hopened
      rw [cut.flatten_texts] at huntil
      rw [cut'.flatten_texts] at huntil'
      exact ⟨huntil, huntil'.trans huntil.symm⟩
    · obtain ⟨hlines, hremainder⟩ := opened.dispatched_lines listeners cut.inputs
      rw [cut.flatten_texts] at hlines hremainder
      exact ⟨hlines, hremainder⟩

end CuttleDB
