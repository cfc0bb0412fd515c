import CuttleDB.PyPolling

/-!
# Streaming events

The generator of `stream_events` polls, hands out the events of the poll one at a time, and
polls again. A consumer that leaves in the middle of such a batch leaves the rest of it in
the suspended generator, where no later poll finds it. What a poll raises ends the
generator.
-/

namespace CuttleDB.Py

open Framing

/-! ### The generator and its consumer -/

/-- How a consumer that wants a number of events fares: with the events, the rest of the
batch in the generator and the connection; still waiting; or with what a poll raised. -/
inductive Streamed where
  | left (taken batch : List Event) (c : Conn)
  | waiting (taken : List Event) (c : Conn)
  | raised (taken : List Event) (e : PyError) (c : Conn)

/-- The generator hands out one more event first. -/
def Streamed.cons (event : Event) : Streamed → Streamed
  | .left taken batch c => .left (event :: taken) batch c
  | .waiting taken c => .waiting (event :: taken) c
  | .raised taken e c => .raised (event :: taken) e c

/-- `with db.stream_events(interval) as events`, left with the `k`-th event. The generator
makes `n` polls at most and has `batch` still to hand out. -/
def streamEvents (interval : Rat) : Nat → Nat → List Event → Conn → Streamed
  | _, 0, batch, c => .left [] batch c
  | n, k + 1, event :: batch, c => (streamEvents interval n k batch c).cons event
  | 0, _ + 1, [], c => .waiting [] c
  | n + 1, k + 1, [], c =>
    match pollEvents interval c with
    | (.ok events, c) => streamEvents interval n (k + 1) events c
    | (.error e, c) => .raised [] e c
termination_by n k => (n, k)

/-- The connection behind a number of polls. -/
def pollTimes (interval : Rat) (n : Nat) (c : Conn) : Conn :=
  (fun c => (pollEvents interval c).2)^[n] c

/-- The batches that a number of polls return. -/
def batches (interval : Rat) (n : Nat) (c : Conn) : List (List Event) :=
  (List.range n).map fun i => returned (pollEvents interval (pollTimes interval i c)).1

theorem pollTimes_succ (interval : Rat) (n : Nat) (c : Conn) :
    pollTimes interval (n + 1) c = pollTimes interval n (pollEvents interval c).2 := rfl

theorem batches_succ (interval : Rat) (n : Nat) (c : Conn) :
    batches interval (n + 1) c =
      returned (pollEvents interval c).1 :: batches interval n (pollEvents interval c).2 := by
  rw [batches, List.range_succ_eq_map, List.map_cons, List.map_map]
  rfl

/-! ### Keeping the stream alive -/

/-- However many events the consumer wants, no poll raises. -/
def KeepsRunning (interval : Rat) (n : Nat) (batch : List Event) (c : Conn) : Prop :=
  ∀ k taken e c', streamEvents interval n k batch c ≠ .raised taken e c'

theorem Streamed.cons_eq_raised {event : Event} {r : Streamed} {taken : List Event} {e : PyError}
    {c : Conn} (h : r.cons event = .raised taken e c) : ∃ taken', r = .raised taken' e c := by
  cases r with
  | left taken batch c => cases h
  | waiting taken c => cases h
  | raised taken e c =>
    cases h
    exact ⟨taken, rfl⟩

theorem Streamed.cons_eq_left {event : Event} {r : Streamed} {taken batch : List Event} {c : Conn}
    (h : r.cons event = .left taken batch c) :
    ∃ taken', taken = event :: taken' ∧ r = .left taken' batch c := by
  cases r with
  | left taken batch c =>
    cases h
    exact ⟨taken, rfl, rfl⟩
  | waiting taken c => cases h
  | raised taken e c => cases h

/-- The batch in hand is no hindrance. -/
theorem keepsRunning_cons {interval : Rat} {n : Nat} {event : Event} {batch : List Event}
    {c : Conn} : KeepsRunning interval n (event :: batch) c ↔ KeepsRunning interval n batch c := by
  constructor
  · intro h k taken e c' hraised
    apply h (k + 1) (event :: taken) e c'
    rw [streamEvents, hraised]
    rfl
  · intro h k taken e c' hraised
    cases k with
    | zero =>
      rw [streamEvents] at hraised
      cases hraised
    | succ k =>
      rw [streamEvents] at hraised
      obtain ⟨taken', heq⟩ := Streamed.cons_eq_raised hraised
      exact h k taken' e c' heq

theorem keepsRunning_append {interval : Rat} {n : Nat} (batch : List Event) {c : Conn} :
    KeepsRunning interval n batch c ↔ KeepsRunning interval n [] c := by
  induction batch with
  | nil => rfl
  | cons event batch ih => rw [keepsRunning_cons, ih]

theorem keepsRunning_iff (interval : Rat) (n : Nat) :
    ∀ c : Conn, KeepsRunning interval n [] c ↔
      ∀ i < n, ∃ events, (pollEvents interval (pollTimes interval i c)).1 = .ok events := by
  induction n with
  | zero =>
    intro c
    refine iff_of_true (fun k taken e c' hraised => ?_) (by simp)
    cases k <;> rw [streamEvents] at hraised <;> cases hraised
  | succ n ih =>
    intro c
    rcases hpoll : pollEvents interval c with ⟨e | events, c₁⟩
    · refine iff_of_false (fun h => ?_) fun h => ?_
      · apply h 1 [] e c₁
        rw [streamEvents, hpoll]
      · obtain ⟨events, hok⟩ := h 0 (Nat.succ_pos n)
        have hzero : pollTimes interval 0 c = c := rfl
        rw [hzero, hpoll] at hok
        cases hok
    · have hnext : KeepsRunning interval (n + 1) [] c ↔ KeepsRunning interval n events c₁ := by
        constructor
        · intro h k taken e c' hraised
          cases k with
          | zero =>
            rw [streamEvents] at hraised
            cases hraised
          | succ k =>
            apply h (k + 1) taken e c'
            rw [streamEvents, hpoll]
            exact hraised
        · intro h k taken e c' hraised
          cases k with
          | zero =>
            rw [streamEvents] at hraised
            cases hraised
          | succ k =>
            rw [streamEvents, hpoll] at hraised
            exact h (k + 1) taken e c' hraised
      rw [hnext, keepsRunning_append, ih]
      have hsucc : ∀ i, pollTimes interval (i + 1) c = pollTimes interval i c₁ := by
        intro i
        rw [pollTimes_succ, hpoll]
      constructor
      · intro h i hi
        cases i with
        | zero => exact ⟨events, by rw [show pollTimes interval 0 c = c from rfl, hpoll]⟩
        | succ i =>
          rw [hsucc]
          exact h i (by omega)
      · intro h i hi
        have hnext := h (i + 1) (by omega)
        rwa [hsucc] at hnext

theorem pollTimes_isOpen (interval : PollTimeout) (c : OpenConn) (n : Nat) :
    (pollTimes interval n c.1).IsOpen := by
  induction n generalizing c with
  | zero => exact c.2
  | succ n ih => exact ih ⟨_, (pollEvents_polled interval c).isOpen⟩

/-- **Without data a poll goes on, if and only if there are queued events or its reads end
without an error;** what it leaves is always in order, and `stream_events` keeps running if
and only if each of its polls goes on. -/
theorem polls_without_data_iff (timeout : PollTimeout) (c : OpenConn) :
    ((∃ events, (pollEvents timeout c.1).1 = .ok events) ∧
        c.1.Polled (pollEvents timeout c.1).2 ↔ c.1.Serves timeout) ∧
      c.1.Polled (pollEvents timeout c.1).2 ∧
      ∀ n, KeepsRunning timeout n [] c.1 ↔ ∀ i < n, (pollTimes timeout i c.1).Serves timeout := by
  have hpolled := pollEvents_polled timeout c
  refine ⟨?_, hpolled, fun n => ?_⟩
  · rw [and_iff_left hpolled]
    exact pollEvents_returns_iff timeout c
  · rw [keepsRunning_iff]
    exact forall₂_congr fun i _ =>
      pollEvents_returns_iff timeout ⟨_, pollTimes_isOpen timeout c i⟩

/-- A poll of a fresh connection with the default timeout raises. -/
theorem poll_without_data_raises :
    ¬ ∃ events, (pollEvents 0 (Conn.opened 30)).1 = .ok events := by
  have hraises : (pollEvents 0 (Conn.opened 30)).1 = .error .blockingIOError := by decide +kernel
  rw [hraises]
  rintro ⟨events, hok⟩
  cases hok

/-! ### Leaving the stream -/

/-- A connection on which only events arrive: the bytes not consumed, with those still to
come, are the lines of the events `E`. -/
structure Subscribed (E : List WireEvent) (future : Bytes) (c : Conn) : Prop where
  open_ : c.sock ≠ none
  stream : c.stream ++ future = render (E.map .evt)

/-- Polls one after the other, a raise returning nothing: the events, and the connection. -/
def pollAll : List PollTimeout → Conn → List Event × Conn
  | [], c => ([], c)
  | timeout :: later, c =>
    let (events, c') := pollAll later (pollEvents timeout c).2
    (returned (pollEvents timeout c).1 ++ events, c')

/-- The events taken, those that later polls return and those that are then still to be
returned are the events `received`, in order. -/
def LosesNothing (taken : List Event) (future : Bytes) (c : Conn) (received : List Event) : Prop :=
  ∀ later, taken ++ (pollAll later c).1 ++
    ((pollAll later c).2.pendingEvents ++ eventLines ((pollAll later c).2.stream ++ future)) =
      received

theorem Subscribed.eventLines {E : List WireEvent} {future : Bytes} {c : Conn}
    (h : Subscribed E future c) : eventLines (c.stream ++ future) = E.map Subtype.val := by
  rw [h.stream, eventLines_render, eventsOf_map_evt]

/-- What a poll returns is off the front of what is to be returned. -/
theorem Subscribed.poll {E : List WireEvent} {future : Bytes} {c : Conn}
    (h : Subscribed E future c) (timeout : PollTimeout) :
    ∃ left, Subscribed left future (pollEvents timeout c).2 ∧
      (pollEvents timeout c).2.pendingEvents = [] ∧
      returned (pollEvents timeout c).1 ++ left.map Subtype.val =
        c.pendingEvents ++ E.map Subtype.val := by
  obtain ⟨done, left, c', rfl, hdrop, hpending, hpoll⟩ :=
    pollEvents_cases timeout.2 h.open_ h.stream
  have hrest : Subscribed left future c' := by
    refine ⟨hdrop.open_ h.open_, ?_⟩
    have hstream := h.stream
    rw [hdrop.stream, List.map_append, render_append, List.append_assoc] at hstream
    exact List.append_cancel_left hstream
  rcases hpoll with hok | ⟨-, hqueue, rfl, hraise⟩
  · rw [hok]
    exact ⟨left, hrest, hpending, by simp [returned]⟩
  · rw [hraise]
    exact ⟨left, hrest, hpending, by simp [returned, hqueue]⟩

/-- **Later polls lose nothing of what is on the connection.** -/
theorem Subscribed.pollAll {future : Bytes} (later : List PollTimeout) :
    ∀ {E : List WireEvent} {c : Conn}, Subscribed E future c →
      (pollAll later c).1 ++ ((Py.pollAll later c).2.pendingEvents ++
        Py.eventLines ((Py.pollAll later c).2.stream ++ future)) =
          c.pendingEvents ++ E.map Subtype.val := by
  induction later with
  | nil =>
    intro E c h
    rw [Py.pollAll, h.eventLines, List.nil_append]
  | cons timeout later ih =>
    intro E c h
    obtain ⟨left, hleft, hpending, hevents⟩ := h.poll timeout
    have hrest := ih hleft
    rw [hpending, List.nil_append] at hrest
    rw [Py.pollAll]
    dsimp only
    rw [List.append_assoc, hrest, hevents]

/-- The events that are taken, the batch in the generator and what is on the connection are
the events received. -/
theorem Subscribed.streamEvents {future : Bytes} {interval : PollTimeout} {n k : Nat}
    {b : List Event} {c : Conn} :
    ∀ {E : List WireEvent} {taken batch : List Event} {c' : Conn}, Subscribed E future c →
      streamEvents interval n k b c = .left taken batch c' →
      ∃ left, Subscribed left future c' ∧
        taken ++ (batch ++ (c'.pendingEvents ++ left.map Subtype.val)) =
          b ++ (c.pendingEvents ++ E.map Subtype.val) := by
  induction n, k, b, c using streamEvents.induct (interval : Rat) with
  | case1 n batch c =>
    intro E taken batch' c' h hleft
    rw [Py.streamEvents] at hleft
    cases hleft
    exact ⟨E, h, rfl⟩
  | case2 n k event batch c ih =>
    intro E taken batch' c' h hleft
    rw [Py.streamEvents] at hleft
    obtain ⟨taken', rfl, hnext⟩ := Streamed.cons_eq_left hleft
    obtain ⟨left, hsubscribed, hevents⟩ := ih h hnext
    exact ⟨left, hsubscribed, by rw [List.cons_append, hevents, List.cons_append]⟩
  | case3 k c =>
    intro E taken batch' c' h hleft
    rw [Py.streamEvents] at hleft
    cases hleft
  | case4 n k c events c₁ hpoll ih =>
    intro E taken batch' c' h hleft
    rw [Py.streamEvents, hpoll] at hleft
    obtain ⟨left₁, hsubscribed₁, hpending, hreturned⟩ := h.poll interval
    rw [hpoll] at hsubscribed₁ hpending hreturned
    obtain ⟨left, hsubscribed, hevents⟩ := ih hsubscribed₁ hleft
    refine ⟨left, hsubscribed, ?_⟩
    dsimp only at hpending
    rw [hevents, hpending, List.nil_append, List.nil_append, ← hreturned]
    rfl
  | case5 n k c e c₁ hpoll =>
    intro E taken batch' c' h hleft
    rw [Py.streamEvents, hpoll] at hleft
    cases hleft

/-- **The generator is left empty at the end of a batch only.** -/
theorem streamEvents_batch_iff {interval : Rat} {n k : Nat} {b : List Event} {c : Conn} :
    ∀ {taken batch : List Event} {c' : Conn},
      streamEvents interval n k b c = .left taken batch c' →
      (batch = [] ↔ ∃ j, k = b.length + ((batches interval n c).take j).flatten.length) := by
  induction n, k, b, c using streamEvents.induct interval with
  | case1 n batch c =>
    intro taken batch' c' hleft
    rw [streamEvents] at hleft
    cases hleft
    constructor
    · rintro rfl
      exact ⟨0, by simp⟩
    · rintro ⟨j, hj⟩
      exact List.length_eq_zero_iff.mp (by omega)
  | case2 n k event batch c ih =>
    intro taken batch' c' hleft
    rw [streamEvents] at hleft
    obtain ⟨taken', rfl, hnext⟩ := Streamed.cons_eq_left hleft
    rw [ih hnext]
    refine exists_congr fun j => ?_
    rw [List.length_cons]
    omega
  | case3 k c =>
    intro taken batch' c' hleft
    rw [streamEvents] at hleft
    cases hleft
  | case4 n k c events c₁ hpoll ih =>
    intro taken batch' c' hleft
    rw [streamEvents, hpoll] at hleft
    rw [ih hleft, batches_succ, hpoll]
    have hnext : ∀ j, ((events :: batches interval n c₁).take (j + 1)).flatten.length =
        events.length + ((batches interval n c₁).take j).flatten.length := by
      intro j
      rw [List.take_succ_cons, List.flatten_cons, List.length_append]
    constructor
    · rintro ⟨j, hj⟩
      exact ⟨j + 1, by rw [returned, hnext, List.length_nil, Nat.zero_add]; exact hj⟩
    · rintro ⟨j, hj⟩
      cases j with
      | zero => simp at hj
      | succ j =>
        refine ⟨j, ?_⟩
        rw [returned, hnext, List.length_nil, Nat.zero_add] at hj
        exact hj
  | case5 n k c e c₁ hpoll =>
    intro taken batch' c' hleft
    rw [streamEvents, hpoll] at hleft
    cases hleft

/-- **A consumer that leaves with its `k`-th event loses nothing if and only if `k` events are
a number of whole batches.** -/
theorem leaving_losesNothing_iff (E : List WireEvent) (future : Bytes) (interval : PollTimeout)
    (n k : Nat) (c c' : Conn) (taken batch : List Event) (hsubscribed : Subscribed E future c)
    (hleft : streamEvents interval n k [] c = .left taken batch c') :
    LosesNothing taken future c' (c.pendingEvents ++ E.map Subtype.val) ↔
      ∃ j, k = ((batches interval n c).take j).flatten.length := by
  obtain ⟨left, hleft', hevents⟩ := hsubscribed.streamEvents hleft
  have hboundary := streamEvents_batch_iff hleft
  simp only [List.length_nil, Nat.zero_add] at hboundary
  rw [← hboundary, LosesNothing]
  rw [List.nil_append] at hevents
  simp only [List.append_assoc, hleft'.pollAll, ← hevents, List.append_cancel_left_eq]
  constructor
  · intro h
    have hsame := h []
    exact List.append_left_eq_self.mp hsame.symm
  · rintro rfl later
    rfl

/-- Two events that arrive in one chunk. -/
def twoEvents : List WireEvent :=
  [⟨⟨0, 0, 1, "INS".toList⟩, by decide⟩, ⟨⟨0, 0, 2, "INS".toList⟩, by decide⟩]

def Conn.twoEvents : Conn :=
  ⟨30, none, some ⟨[.data ⟨render (Py.twoEvents.map .evt), by decide +kernel⟩], 30, []⟩, [], []⟩

/-- The first poll hands the generator both. -/
theorem streamEvents_twoEvents (k : Nat) :
    streamEvents 1 1 (k + 1) [] .twoEvents =
      streamEvents 1 0 (k + 1) (twoEvents.map Subtype.val) (Conn.opened 30) := by
  have hpoll : pollEvents 1 .twoEvents = (.ok (twoEvents.map Subtype.val), Conn.opened 30) := by
    decide +kernel
  rw [streamEvents, hpoll]

/-- Taking both is no loss. -/
theorem leaving_losesNothing_both :
    LosesNothing (twoEvents.map Subtype.val) [] (Conn.opened 30) (twoEvents.map Subtype.val) := by
  have hleft : streamEvents 1 1 2 [] .twoEvents =
      .left (twoEvents.map Subtype.val) [] (Conn.opened 30) := by
    rw [streamEvents_twoEvents]
    simp only [twoEvents, List.map_cons, List.map_nil, streamEvents, Streamed.cons]
  have hboundary := leaving_losesNothing_iff twoEvents [] ⟨1, by decide⟩ 1 2 .twoEvents
    (Conn.opened 30) (twoEvents.map Subtype.val) [] ⟨by decide, by decide +kernel⟩ hleft
  exact hboundary.mpr ⟨1, by decide +kernel⟩

/-- A consumer that breaks at the first leaves the second in the generator. -/
theorem leaving_loses_second :
    streamEvents 1 1 1 [] .twoEvents = .left [⟨0, 0, 1, "INS".toList⟩] [⟨0, 0, 2, "INS".toList⟩]
        (Conn.opened 30) ∧
      ¬ LosesNothing [⟨0, 0, 1, "INS".toList⟩] [] (Conn.opened 30)
        (twoEvents.map Subtype.val) := by
  constructor
  · rw [streamEvents_twoEvents]
    simp only [twoEvents, List.map_cons, List.map_nil, streamEvents, Streamed.cons]
  · intro h
    exact absurd (h []) (by decide +kernel)

end CuttleDB.Py
