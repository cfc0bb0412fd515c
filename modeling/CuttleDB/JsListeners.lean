import CuttleDB.JsFrames

/-!
# Listeners that throw

The listeners of `onEvent` run inside the loops of `_onData` and `_onMessage`, with no
`try` around them: a listener that throws ends the loop at its event. What is left of
the input then stands in `_buf` of a `TcpTransport`, and the next chunk goes on with it;
a `WsTransport` had it in the array of its loop only, and drops it.

A listener is given by what it does on the `k`-th event: the calls it makes, and whether
it throws after them.
-/

namespace CuttleDB.Js

open Framing

variable {α ω : Type} [DecidableEq α] [Alphabet α]

abbrev Listener (α : Type) [Alphabet α] := Nat → List (Call α) × Bool

/-- A transport with what the source does not keep: every waiter it ever queued, in
order, and the waiter that each reply went to. -/
structure Listening (α ω : Type) [Alphabet α] extends Transport α ω where
  asked : List Waiter
  answered : List (Waiter × List α)

def Listening.opened : Listening α ω := ⟨Transport.opened, [], []⟩

def Listening.call (write : Call α → List ω) (t : Listening α ω) (c : Call α) :
    Listening α ω :=
  let t' := t.toTransport.call write c
  { t with toTransport := t', asked := t.asked ++ t'.waiters.drop t.waiters.length }

/-- `for (const cb of this._eventListeners) cb(evt);` and whether it was left by an
exception. -/
def Listening.notify (write : Call α → List ω) (k : Nat) :
    List (Listener α) → Listening α ω → Listening α ω × Bool
  | [], t => (t, false)
  | cb :: cbs, t =>
    let t := (cb k).1.foldl (Listening.call write) t
    if (cb k).2 then (t, true) else notify write k cbs t

/-- One line, as in `Transport.dispatch`, and whether a listener threw. -/
def Listening.dispatch (write : Call α → List ω) (listeners : List (Listener α))
    (t : Listening α ω) (line : List α) : Listening α ω × Bool :=
  if evtTag <+: line then
    Listening.notify write t.events.length listeners { t with events := t.events ++ [line] }
  else
    match t.waiters with
    | [] => (t, false)
    | w :: waiters =>
      ({ t with
          toTransport := Transport.resolve w line { t.toTransport with waiters := waiters }
          answered := t.answered ++ [(w, line)] }, false)

structure TcpListening (α : Type) [Alphabet α] extends Listening α α where
  buf : List α

/-- The loop of `_onData`. The line of the event is out of `_buf` when a listener throws. -/
def TcpListening.drain (listeners : List (Listener α)) (t : TcpListening α) :
    TcpListening α :=
  match _hcut : cutLine (lit '\n') t.buf with
  | none => t
  | some (line, rest) =>
    match t.toListening.dispatch tcpWrite listeners (chomp (lit '\r') line) with
    | (l, true) => ⟨l, rest⟩
    | (l, false) => drain listeners ⟨l, rest⟩
termination_by t.buf.length
decreasing_by
  rw [(eq_of_cutLine _hcut).1]
  simp
  omega

/-- `_onData` -/
def TcpListening.onData (listeners : List (Listener α)) (chunk : List α)
    (t : TcpListening α) : TcpListening α :=
  TcpListening.drain listeners { t with buf := t.buf ++ chunk }

abbrev WsListening (α : Type) [Alphabet α] := Listening α (List α)

/-- The loop of `_onMessage` over the pieces of its text. -/
def WsListening.loop (listeners : List (Listener α)) :
    List (List α) → WsListening α → WsListening α
  | [], t => t
  | raw :: raws, t =>
    let line := chomp (lit '\r') raw
    if line = [] then loop listeners raws t
    else
      match Listening.dispatch wsWrite listeners t line with
      | (t, true) => t
      | (t, false) => loop listeners raws t

/-- `_onMessage` -/
def WsListening.onMessage (listeners : List (Listener α)) (text : List α)
    (t : WsListening α) : WsListening α :=
  WsListening.loop listeners (text.splitOn (lit '\n')) t

/-! ### Runs -/

inductive Input (α : Type) [Alphabet α] where
  | call (c : Call α)
  | data (text : List α)                          -- a chunk, or the text of a frame

/-- The chunks or frames among the inputs. -/
def texts (inputs : List (Input α)) : List (List α) :=
  inputs.filterMap fun input =>
    match input with
    | .call _ => none
    | .data text => some text

def TcpListening.step (listeners : List (Listener α)) (t : TcpListening α) :
    Input α → TcpListening α
  | .call c => { t with toListening := t.toListening.call tcpWrite c }
  | .data chunk => t.onData listeners chunk

def WsListening.step (listeners : List (Listener α)) (t : WsListening α) :
    Input α → WsListening α
  | .call c => Listening.call wsWrite t c
  | .data text => WsListening.onMessage listeners text t

/-- A connection and what it has been sent, from its start. -/
def TcpListening.state (listeners : List (Listener α)) (inputs : List (Input α)) :
    TcpListening α :=
  inputs.foldl (TcpListening.step listeners) ⟨Listening.opened, []⟩

def TcpListening.run (listeners : List (Listener α)) (inputs : List (Input α)) :
    Listening α α :=
  (TcpListening.state listeners inputs).toListening

def WsListening.run (listeners : List (Listener α)) (inputs : List (Input α)) :
    WsListening α :=
  inputs.foldl (WsListening.step listeners) Listening.opened

/-- The lines that are no events. -/
def replyTexts (lines : List (List α)) : List (List α) := lines.filter fun l => ¬ evtTag <+: l

def eventTexts (lines : List (List α)) : List (List α) := lines.filter fun l => evtTag <+: l

/-- The lines of the chunks so far. -/
def tcpArrived (inputs : List (Input α)) : List (List α) := completeLines (texts inputs).flatten

/-- The lines of the frames so far. -/
def wsArrived (inputs : List (Input α)) : List (List α) := (texts inputs).flatMap frameLines

/-- The server answers no more than it was asked: whenever a text comes, the replies so
far have a waiter each. -/
def Served (run : List (Input α) → Listening α ω) (arrived : List (Input α) → List (List α))
    (inputs : List (Input α)) : Prop :=
  ∀ before text, before ++ [.data text] <+: inputs →
    (replyTexts (arrived (before ++ [.data text]))).length ≤ (run before).asked.length

/-- Each waiter that was given a line was the first one. -/
def InOrder (t : Listening α ω) : Prop := t.asked = t.answered.map Prod.fst ++ t.waiters

/-- No reply is lost: at every moment of the run, when the next text has been handled,
each waiter that was given a line was the first one, the lines given are the first
replies in order, and every reply from before that text is among them. -/
def NoReplyLost (run : List (Input α) → Listening α ω)
    (arrived : List (Input α) → List (List α)) (inputs : List (Input α)) : Prop :=
  ∀ before next, before <+: inputs → Served run arrived (before ++ [.data next]) →
    let t := run (before ++ [.data next])
    InOrder t ∧ t.answered.map Prod.snd <+: replyTexts (arrived (before ++ [.data next])) ∧
      replyTexts (arrived before) <+: t.answered.map Prod.snd

theorem replyTexts_append (lines lines' : List (List α)) :
    replyTexts (lines ++ lines') = replyTexts lines ++ replyTexts lines' :=
  List.filter_append ..

theorem replyTexts_nil : replyTexts ([] : List (List α)) = [] := rfl

theorem replyTexts_take_append_drop (n : Nat) (lines : List (List α)) :
    replyTexts (lines.take n) ++ replyTexts (lines.drop n) = replyTexts lines := by
  rw [← replyTexts_append, List.take_append_drop]

theorem replyTexts_prefix_take (n : Nat) (lines : List (List α)) :
    replyTexts lines <+: replyTexts (lines.take n) ↔ replyTexts (lines.drop n) = [] := by
  have hsplit := replyTexts_take_append_drop n lines
  constructor
  · intro hall
    have hlen := hall.length_le
    rw [← hsplit, List.length_append] at hlen
    exact List.length_eq_zero_iff.mp (by omega)
  · intro hnone
    rw [← hsplit, hnone, List.append_nil]

theorem eventTexts_append (lines lines' : List (List α)) :
    eventTexts (lines ++ lines') = eventTexts lines ++ eventTexts lines' :=
  List.filter_append ..

/-! ### Marks -/

/-- A line as far as the loops are concerned: a reply, or an event on which a listener
throws or none does. -/
inductive Mark where
  | reply
  | event (thrown : Bool)
deriving DecidableEq

def throwsAt (listeners : List (Listener α)) (k : Nat) : Bool := listeners.any fun cb => (cb k).2

/-- The marks of lines of which the first event is the `k`-th to be handled. -/
def marks (listeners : List (Listener α)) : Nat → List (List α) → List Mark
  | _, [] => []
  | k, line :: lines =>
    if evtTag <+: line then .event (throwsAt listeners k) :: marks listeners (k + 1) lines
    else .reply :: marks listeners k lines

/-- The lines that a loop handles: all of them, or those up to the first throw. -/
def handledCount : List Mark → Nat
  | [] => 0
  | .event true :: _ => 1
  | _ :: ms => handledCount ms + 1

/-- For each reply, how many throws stand before it, `b` of them before the list. -/
def throwsAhead : Nat → List Mark → List Nat
  | _, [] => []
  | b, .reply :: ms => b :: throwsAhead b ms
  | b, .event thrown :: ms => throwsAhead (if thrown then b + 1 else b) ms

def throwCount (ms : List Mark) : Nat := ms.count (.event true)

/-- A list begins with a reply, with an event that is handled, or with one whose listener
throws. -/
@[elab_as_elim]
theorem marks_induction {P : List Mark → Prop} (nil : P [])
    (reply : ∀ ms, P ms → P (.reply :: ms)) (handled : ∀ ms, P ms → P (.event false :: ms))
    (thrown : ∀ ms, P ms → P (.event true :: ms)) (ms : List Mark) : P ms := by
  induction ms with
  | nil => exact nil
  | cons m ms ih =>
    match m with
    | .reply => exact reply ms ih
    | .event false => exact handled ms ih
    | .event true => exact thrown ms ih

theorem length_marks (listeners : List (Listener α)) (k : Nat) (lines : List (List α)) :
    (marks listeners k lines).length = lines.length := by
  induction lines generalizing k with
  | nil => rfl
  | cons line lines ih =>
    unfold marks
    split <;> simp [ih]

theorem marks_append (listeners : List (Listener α)) (k : Nat) (lines lines' : List (List α)) :
    marks listeners k (lines ++ lines') =
      marks listeners k lines ++ marks listeners (k + (eventTexts lines).length) lines' := by
  induction lines generalizing k with
  | nil => rfl
  | cons line lines ih =>
    by_cases hevent : evtTag <+: line
    · simp [marks, hevent, ih, eventTexts, Nat.add_assoc, Nat.add_comm 1]
    · simp [marks, hevent, ih, eventTexts]

theorem marks_drop (listeners : List (Listener α)) (k n : Nat) (lines : List (List α)) :
    marks listeners (k + (eventTexts (lines.take n)).length) (lines.drop n) =
      (marks listeners k lines).drop n := by
  conv_rhs => rw [← List.take_append_drop n lines, marks_append]
  by_cases hn : n ≤ lines.length
  · rw [List.drop_left' (by rw [length_marks, List.length_take]; omega)]
  · have hdrop : lines.drop n = [] := List.drop_eq_nil_of_le (by omega)
    rw [hdrop, marks, List.append_nil, List.drop_eq_nil_of_le]
    rw [length_marks, List.length_take]
    omega

theorem throwsAhead_eq (b : Nat) (ms : List Mark) :
    throwsAhead b ms = (throwsAhead 0 ms).map (b + ·) := by
  induction ms using marks_induction generalizing b with
  | nil => rfl
  | reply ms ih => simp [throwsAhead, ih b]
  | handled ms ih => simp [throwsAhead, ih b]
  | thrown ms ih => simp [throwsAhead, ih (b + 1), ih 1, Function.comp_def, Nat.add_assoc]

theorem throwsAhead_append (b : Nat) (ms ms' : List Mark) :
    throwsAhead b (ms ++ ms') = throwsAhead b ms ++ throwsAhead (b + throwCount ms) ms' := by
  induction ms using marks_induction generalizing b with
  | nil => rfl
  | reply ms ih => simp [throwsAhead, ih, throwCount]
  | handled ms ih => simp [throwsAhead, ih, throwCount]
  | thrown ms ih => simp [throwsAhead, ih, throwCount, Nat.add_assoc, Nat.add_comm 1]

/-- Handling a queue takes one throw off it. -/
theorem throwCount_drop (ms : List Mark) :
    throwCount (ms.drop (handledCount ms)) = throwCount ms - 1 := by
  induction ms using marks_induction with
  | nil => rfl
  | reply ms ih => simpa [handledCount, throwCount] using ih
  | handled ms ih => simpa [handledCount, throwCount] using ih
  | thrown ms => simp [handledCount, throwCount]

/-- What is left of a queue is clear of throws before replies, when no reply of the queue
stood behind more than one. -/
theorem throwsAhead_drop (ms : List Mark) :
    (∀ n ∈ throwsAhead 0 (ms.drop (handledCount ms)), n = 0) ↔
      ∀ n ∈ throwsAhead 0 ms, n ≤ 1 := by
  induction ms using marks_induction with
  | nil => simp [throwsAhead]
  | reply ms ih => simpa [handledCount, throwsAhead] using ih
  | handled ms ih => simpa [handledCount, throwsAhead] using ih
  | thrown ms => simp [handledCount, throwsAhead, throwsAhead_eq 1]

theorem length_throwsAhead (listeners : List (Listener α)) (b k : Nat) (lines : List (List α)) :
    (throwsAhead b (marks listeners k lines)).length = (replyTexts lines).length := by
  induction lines generalizing b k with
  | nil => rfl
  | cons line lines ih =>
    by_cases hevent : evtTag <+: line
    · simpa [marks, hevent, throwsAhead, replyTexts] using ih _ (k + 1)
    · simpa [marks, hevent, throwsAhead, replyTexts] using ih b k

/-- A loop handles every reply exactly if none stands behind a throw. -/
theorem replyTexts_drop_eq_nil (listeners : List (Listener α)) (k : Nat)
    (lines : List (List α)) :
    replyTexts (lines.drop (handledCount (marks listeners k lines))) = [] ↔
      ∀ n ∈ throwsAhead 0 (marks listeners k lines), n = 0 := by
  induction lines generalizing k with
  | nil => simp [marks, throwsAhead, replyTexts]
  | cons line lines ih =>
    by_cases hevent : evtTag <+: line
    · cases hthrow : throwsAt listeners k with
      | false => simpa [marks, hevent, hthrow, handledCount, throwsAhead] using ih (k + 1)
      | true =>
        have hlength := length_throwsAhead listeners 0 (k + 1) lines
        rw [← List.length_eq_zero_iff]
        simp only [marks, hevent, hthrow, if_true, handledCount, List.drop_succ_cons,
          List.drop_zero, throwsAhead, throwsAhead_eq 1, List.forall_mem_map, ← hlength,
          List.length_eq_zero_iff]
        constructor
        · intro hnil
          simp [hnil]
        · intro hzero
          exact List.eq_nil_iff_forall_not_mem.mpr fun n hn => absurd (hzero n hn) (by omega)
    · simpa [marks, hevent, handledCount, throwsAhead] using ih k

/-! ### The waiters -/

/-- What calls do: waiters join the queue, and nothing is answered. -/
def Queues (t t' : Listening α ω) : Prop :=
  t'.events = t.events ∧ t'.answered = t.answered ∧
    ∃ ws, t'.waiters = t.waiters ++ ws ∧ t'.asked = t.asked ++ ws

omit [DecidableEq α] in
theorem Queues.refl (t : Listening α ω) : Queues t t := ⟨rfl, rfl, [], by simp, by simp⟩

omit [DecidableEq α] in
theorem Queues.trans {t t' t'' : Listening α ω} (h : Queues t t') (h' : Queues t' t'') :
    Queues t t'' := by
  obtain ⟨hevents, hanswered, ws, hwaiters, hasked⟩ := h
  obtain ⟨hevents', hanswered', ws', hwaiters', hasked'⟩ := h'
  refine ⟨hevents'.trans hevents, hanswered'.trans hanswered, ws ++ ws', ?_, ?_⟩
  · simp [hwaiters', hwaiters]
  · simp [hasked', hasked]

omit [DecidableEq α] in
theorem Queues.asked_le {t t' : Listening α ω} (h : Queues t t') :
    t.asked.length ≤ t'.asked.length := by
  obtain ⟨-, -, ws, -, hasked⟩ := h
  simp [hasked]

omit [DecidableEq α] in
theorem Listening.call_queues (write : Call α → List ω) (t : Listening α ω) (c : Call α) :
    Queues t (t.call write c) := by
  have hwaiters : ∃ ws, (t.toTransport.call write c).waiters = t.waiters ++ ws ∧
      (t.toTransport.call write c).events = t.events := by
    cases hconn : t.connected with
    | true =>
      obtain ⟨⟨-, -, hevents, -⟩, -, hwaiters, -⟩ := Transport.call_spec write hconn c
      exact ⟨_, hwaiters, hevents⟩
    | false =>
      obtain ⟨⟨-, -, hevents, -⟩, -, hwaiters⟩ := Transport.call_rejected write hconn c
      exact ⟨[], by simp [hwaiters], hevents⟩
  obtain ⟨ws, hws, hevents⟩ := hwaiters
  exact ⟨hevents, rfl, ws, hws, by simp [Listening.call, hws]⟩

omit [DecidableEq α] in
theorem Listening.foldl_call_queues (write : Call α → List ω) (cs : List (Call α)) :
    ∀ t : Listening α ω, Queues t (cs.foldl (Listening.call write) t) := by
  induction cs with
  | nil => exact Queues.refl
  | cons c cs ih => exact fun t => (Listening.call_queues write t c).trans (ih _)

omit [DecidableEq α] in
/-- The listeners run up to the first that throws. -/
theorem Listening.notify_spec (write : Call α → List ω) (k : Nat)
    (listeners : List (Listener α)) :
    ∀ t : Listening α ω, Queues t (t.notify write k listeners).1 ∧
      (t.notify write k listeners).2 = throwsAt listeners k := by
  induction listeners with
  | nil => exact fun t => ⟨Queues.refl t, rfl⟩
  | cons cb cbs ih =>
    intro t
    have hcalls := Listening.foldl_call_queues write (cb k).1 t
    obtain ⟨hqueues, hthrown⟩ := ih ((cb k).1.foldl (Listening.call write) t)
    cases hthrow : (cb k).2 with
    | true => simpa [Listening.notify, throwsAt, hthrow] using hcalls
    | false =>
      rw [Listening.notify, if_neg (by simp [hthrow]), hthrown]
      exact ⟨hcalls.trans hqueues, by simp [throwsAt, hthrow]⟩

/-! ### One loop over lines -/

/-- The loop of both transports: the transport behind it, and the lines it did not
reach. -/
def Listening.process (write : Call α → List ω) (listeners : List (Listener α)) :
    List (List α) → Listening α ω → Listening α ω × List (List α)
  | [], t => (t, [])
  | line :: lines, t =>
    match t.dispatch write listeners line with
    | (t, true) => (t, lines)
    | (t, false) => process write listeners lines t

theorem Listening.process_cons (write : Call α → List ω) (listeners : List (Listener α))
    (t : Listening α ω) (line : List α) (lines : List (List α)) :
    t.process write listeners (line :: lines) =
      if (t.dispatch write listeners line).2 then ((t.dispatch write listeners line).1, lines)
      else (t.dispatch write listeners line).1.process write listeners lines := by
  rw [Listening.process]
  rcases t.dispatch write listeners line with ⟨l, thrown⟩
  cases thrown <;> rfl

omit [DecidableEq α] in
theorem Queues.inOrder {t t' : Listening α ω} (h : Queues t t') (ht : InOrder t) :
    InOrder t' := by
  obtain ⟨-, hanswered, ws, hwaiters, hasked⟩ := h
  unfold InOrder at ht ⊢
  simp [hanswered, hwaiters, hasked, ht]

theorem Listening.dispatch_event (write : Call α → List ω) (listeners : List (Listener α))
    (t : Listening α ω) {line : List α} (h : evtTag <+: line) :
    Queues { t with events := t.events ++ [line] } (t.dispatch write listeners line).1 ∧
      (t.dispatch write listeners line).2 = throwsAt listeners t.events.length := by
  rw [Listening.dispatch, if_pos h]
  exact Listening.notify_spec write _ listeners _

theorem Listening.dispatch_reply (write : Call α → List ω) (listeners : List (Listener α))
    {t : Listening α ω} {line : List α} (h : ¬ evtTag <+: line) {w : Waiter}
    {ws : List Waiter} (hw : t.waiters = w :: ws) :
    let t' := (t.dispatch write listeners line).1
    t'.events = t.events ∧ t'.answered = t.answered ++ [(w, line)] ∧ t'.waiters = ws ∧
      t'.asked = t.asked ∧ (t.dispatch write listeners line).2 = false := by
  obtain ⟨-, -, hwaiters, hevents, -⟩ :=
    Transport.resolve_spec w line { t.toTransport with waiters := ws }
  rw [Listening.dispatch, if_neg h, hw]
  exact ⟨hevents, rfl, hwaiters, rfl, rfl⟩

/-- **What the loop does** to lines whose replies have a waiter each: it handles them up
to the first throw, in order. -/
theorem Listening.process_spec (write : Call α → List ω) (listeners : List (Listener α))
    (lines : List (List α)) :
    ∀ {t : Listening α ω}, InOrder t → (replyTexts lines).length ≤ t.waiters.length →
      let n := handledCount (marks listeners t.events.length lines)
      let t' := (t.process write listeners lines).1
      (t.process write listeners lines).2 = lines.drop n ∧
        t'.events = t.events ++ eventTexts (lines.take n) ∧
        t'.answered.map Prod.snd = t.answered.map Prod.snd ++ replyTexts (lines.take n) ∧
        InOrder t' ∧ t.asked <+: t'.asked := by
  induction lines with
  | nil =>
    intro t ht _
    exact ⟨rfl, (List.append_nil _).symm, (List.append_nil _).symm, ht, List.prefix_rfl⟩
  | cons line lines ih =>
    intro t ht hwaiters
    by_cases hevent : evtTag <+: line
    · obtain ⟨hqueues, hthrown⟩ := Listening.dispatch_event write listeners t hevent
      have hmatched := hqueues.inOrder ht
      obtain ⟨hevents, hanswered, ws, hws, hasked⟩ := hqueues
      have hlen : (t.dispatch write listeners line).1.events.length = t.events.length + 1 := by
        simp [hevents]
      cases hthrow : throwsAt listeners t.events.length with
      | true =>
        have hprocess : t.process write listeners (line :: lines) =
            ((t.dispatch write listeners line).1, lines) := by
          rw [Listening.process_cons, hthrown, hthrow, if_pos rfl]
        simp only [hprocess, marks, hevent, if_true, hthrow, handledCount]
        refine ⟨rfl, ?_, ?_, hmatched, ⟨ws, hasked.symm⟩⟩
        · simp [hevents, eventTexts, hevent]
        · simp [hanswered, replyTexts, hevent]
      | false =>
        have hprocess : t.process write listeners (line :: lines) =
            (t.dispatch write listeners line).1.process write listeners lines := by
          rw [Listening.process_cons, hthrown, hthrow, if_neg Bool.false_ne_true]
        obtain ⟨hleft, hevents', hanswered', hmatched', hasked'⟩ := ih hmatched (by
          rw [hws, List.length_append]
          simp [replyTexts, hevent] at hwaiters ⊢
          omega)
        rw [hlen] at hleft hevents' hanswered'
        simp only [hprocess, marks, hevent, if_true, hthrow, handledCount]
        refine ⟨hleft, ?_, ?_, hmatched', ?_⟩
        · simp [hevents', hevents, eventTexts, hevent]
        · simp [hanswered', hanswered, replyTexts, hevent]
        · exact List.IsPrefix.trans ⟨ws, hasked.symm⟩ hasked'
    · have hcount : (replyTexts lines).length + 1 ≤ t.waiters.length := by
        simpa [replyTexts, hevent] using hwaiters
      obtain ⟨w, ws, hw⟩ := List.exists_cons_of_length_pos (by omega : 0 < t.waiters.length)
      obtain ⟨hevents, hanswered, hws, hasked, hthrown⟩ :=
        Listening.dispatch_reply write listeners hevent hw
      have hmatched : InOrder (t.dispatch write listeners line).1 := by
        unfold InOrder at ht ⊢
        simp [hanswered, hws, hasked, ht, hw]
      have hprocess : t.process write listeners (line :: lines) =
          (t.dispatch write listeners line).1.process write listeners lines := by
        rw [Listening.process_cons, hthrown, if_neg Bool.false_ne_true]
      obtain ⟨hleft, hevents', hanswered', hmatched', hasked'⟩ := ih hmatched (by
        rw [hws]
        simp [hw] at hcount
        exact hcount)
      rw [hevents] at hleft hevents' hanswered'
      simp only [hprocess, marks, hevent, if_false, handledCount]
      refine ⟨hleft, ?_, ?_, hmatched', hasked ▸ hasked'⟩
      · simp [hevents', eventTexts, hevent]
      · simp [hanswered', hanswered, replyTexts, hevent]

/-! ### TCP -/

theorem TcpListening.drain_of_none {listeners : List (Listener α)} {t : TcpListening α}
    (h : cutLine (lit '\n') t.buf = none) : t.drain listeners = t := by
  rw [TcpListening.drain]
  split <;> rename_i heq <;> rw [h] at heq
  cases heq

theorem TcpListening.drain_of_some {listeners : List (Listener α)} {t : TcpListening α}
    {raw rest : List α} (h : cutLine (lit '\n') t.buf = some (raw, rest)) :
    t.drain listeners =
      match t.toListening.dispatch tcpWrite listeners (chomp (lit '\r') raw) with
      | (l, true) => ⟨l, rest⟩
      | (l, false) => TcpListening.drain listeners ⟨l, rest⟩ := by
  rw [TcpListening.drain]
  split <;> rename_i heq <;> rw [h] at heq <;> cases heq
  rfl

/-- The loop of `_onData` is the loop over the complete lines of the buffer. -/
theorem TcpListening.drain_lines (listeners : List (Listener α)) (t : TcpListening α) :
    (t.drain listeners).toListening =
        (t.toListening.process tcpWrite listeners (completeLines t.buf)).1 ∧
      completeLines (t.drain listeners).buf =
        (t.toListening.process tcpWrite listeners (completeLines t.buf)).2 ∧
      remainder (t.drain listeners).buf = remainder t.buf := by
  generalize hbuf : t.buf = buf
  induction buf using line_induction (lit '\n' : α) generalizing t with
  | last buf h =>
    have hcut : cutLine (lit '\n') t.buf = none := hbuf ▸ cutLine_eq_none.mpr h
    rw [TcpListening.drain_of_none hcut, hbuf, completeLines_of_not_mem h]
    exact ⟨rfl, rfl, rfl⟩
  | line raw rest hraw ih =>
    have hcut : cutLine (lit '\n') t.buf = some (raw, rest) := hbuf ▸ cutLine_line hraw rest
    rw [TcpListening.drain_of_some hcut, completeLines_line hraw, remainder_line hraw,
      Listening.process]
    rcases t.toListening.dispatch tcpWrite listeners (chomp (lit '\r') raw) with ⟨l, thrown⟩
    cases thrown with
    | true => exact ⟨rfl, rfl, rfl⟩
    | false => exact ih ⟨l, rest⟩ rfl

/-- The marks of the lines that a chunk completes, behind the text before it. -/
def chunkMarks (listeners : List (Listener α)) (before chunk : List α) : List Mark :=
  marks listeners (eventTexts (completeLines before)).length
    (completeLines (remainder before ++ chunk))

def tcpMarks (listeners : List (Listener α)) : List α → List (List α) → List (List Mark)
  | _, [] => []
  | before, chunk :: chunks =>
    chunkMarks listeners before chunk :: tcpMarks listeners (before ++ chunk) chunks

/-- The throws that are still to come when the chunks have been handled: each takes one. -/
def backlog (chunks : List (List Mark)) : Nat :=
  chunks.foldl (fun b ms => b + throwCount ms - 1) 0

/-- No reply comes behind two throws: at most one of those that are still to come when its
chunk is handled stands before it. -/
def TwoChunks (chunks : List (List Mark)) : Prop :=
  ∀ before ms, before ++ [ms] <+: chunks → ∀ n ∈ throwsAhead (backlog before) ms, n ≤ 1

theorem tcpMarks_concat (listeners : List (Listener α)) (before chunk : List α)
    (chunks : List (List α)) :
    tcpMarks listeners before (chunks ++ [chunk]) = tcpMarks listeners before chunks ++
      [chunkMarks listeners (before ++ chunks.flatten) chunk] := by
  induction chunks generalizing before with
  | nil => simp [tcpMarks]
  | cons first chunks ih => simp [tcpMarks, ih]

theorem backlog_concat (chunks : List (List Mark)) (ms : List Mark) :
    backlog (chunks ++ [ms]) = backlog chunks + throwCount ms - 1 := by
  simp [backlog]

/-- What the buffer and the replies given so far say about the text that has come. -/
structure Caught (text : List α) (t : TcpListening α) : Prop where
  lines : ∃ handled, completeLines text = handled ++ completeLines t.buf ∧
    t.events = eventTexts handled ∧ t.answered.map Prod.snd = replyTexts handled
  remainder : remainder text = remainder t.buf
  inOrder : InOrder t.toListening
  served : (replyTexts (completeLines text)).length ≤ t.asked.length

theorem Caught.onData (listeners : List (Listener α)) {text : List α} {t : TcpListening α}
    (h : Caught text t) {chunk : List α}
    (hserved : (replyTexts (completeLines (text ++ chunk))).length ≤ t.asked.length) :
    let queue := completeLines t.buf ++ completeLines (Js.remainder text ++ chunk)
    let n := handledCount (marks listeners t.events.length queue)
    Caught (text ++ chunk) (t.onData listeners chunk) ∧
      completeLines (t.onData listeners chunk).buf = queue.drop n ∧
      (t.onData listeners chunk).events = t.events ++ eventTexts (queue.take n) ∧
      (t.onData listeners chunk).answered.map Prod.snd =
        t.answered.map Prod.snd ++ replyTexts (queue.take n) := by
  intro queue n
  obtain ⟨⟨handled, hlines, hevents, hanswered⟩, hremainder, hinOrder, -⟩ := h
  obtain ⟨htext, htextRemainder⟩ := lines_append text chunk
  obtain ⟨hbuf, hbufRemainder⟩ := lines_append t.buf chunk
  have hqueue : completeLines (t.buf ++ chunk) = queue := by rw [hbuf, ← hremainder]
  have htotal : completeLines (text ++ chunk) = handled ++ queue := by
    rw [htext, hlines, List.append_assoc]
  have hwaiters : (replyTexts queue).length ≤ t.waiters.length := by
    have hlength := congrArg List.length hanswered
    unfold InOrder at hinOrder
    rw [htotal, replyTexts_append, hinOrder] at hserved
    simp only [List.length_append, List.length_map] at hlength hserved
    omega
  obtain ⟨hloop, hleft, hleftRemainder⟩ :=
    TcpListening.drain_lines listeners { t with buf := t.buf ++ chunk }
  rw [hqueue] at hloop hleft
  obtain ⟨hdrop, hevents', hanswered', hinOrder', hasked⟩ :=
    Listening.process_spec tcpWrite listeners queue hinOrder hwaiters
  rw [← hloop] at hevents' hanswered' hinOrder' hasked
  have hbuf' : completeLines (t.onData listeners chunk).buf = queue.drop n := hleft.trans hdrop
  refine ⟨⟨⟨handled ++ queue.take n, ?_, ?_, ?_⟩, ?_, hinOrder', hserved.trans hasked.length_le⟩,
    hbuf', hevents', hanswered'⟩
  · rw [hbuf', htotal, List.append_assoc, List.take_append_drop]
  · rw [eventTexts_append, ← hevents]
    exact hevents'
  · rw [replyTexts_append, ← hanswered]
    exact hanswered'
  · rw [TcpListening.onData, hleftRemainder, htextRemainder, hremainder, ← hbufRemainder]

omit [DecidableEq α] in
theorem texts_concat_data (inputs : List (Input α)) (text : List α) :
    texts (inputs ++ [.data text]) = texts inputs ++ [text] := by
  simp [texts]

omit [DecidableEq α] in
theorem texts_concat_call (inputs : List (Input α)) (c : Call α) :
    texts (inputs ++ [.call c]) = texts inputs := by
  simp [texts]

theorem Served.of_prefix {run : List (Input α) → Listening α ω}
    {arrived : List (Input α) → List (List α)} {before inputs : List (Input α)}
    (h : Served run arrived inputs) (hbefore : before <+: inputs) : Served run arrived before :=
  fun before' text hpre => h before' text (hpre.trans hbefore)

theorem Served.data {run : List (Input α) → Listening α ω}
    {arrived : List (Input α) → List (List α)} {inputs : List (Input α)} {text : List α}
    (h : Served run arrived inputs)
    (htext : (replyTexts (arrived (inputs ++ [.data text]))).length ≤
      (run inputs).asked.length) : Served run arrived (inputs ++ [.data text]) := by
  intro before text' hbefore
  rcases List.prefix_concat_iff.mp hbefore with heq | hbefore
  · obtain ⟨rfl, hlast⟩ := List.append_inj' heq rfl
    obtain rfl : text' = text := by simpa using hlast
    exact htext
  · exact h before text' hbefore

theorem Caught.call {text : List α} {t : TcpListening α} (h : Caught text t) (c : Call α) :
    Caught text { t with toListening := t.toListening.call tcpWrite c } := by
  have hqueues := Listening.call_queues tcpWrite t.toListening c
  obtain ⟨⟨handled, hlines, hevents, hanswered⟩, hremainder, hinOrder, hserved⟩ := h
  exact ⟨⟨handled, hlines, hqueues.1.trans hevents, by rw [hqueues.2.1, hanswered]⟩, hremainder,
    hqueues.inOrder hinOrder, hserved.trans hqueues.asked_le⟩

/-- **Nothing is dropped on TCP,** whatever the listeners do: the replies that have come
are those given to their waiters in order and those that stand in `_buf`. -/
theorem TcpListening.caught (listeners : List (Listener α)) (inputs : List (Input α))
    (hserved : Served (TcpListening.run listeners) tcpArrived inputs) :
    Caught (texts inputs).flatten (TcpListening.state listeners inputs) := by
  induction inputs using List.reverseRecOn with
  | nil => exact ⟨⟨[], rfl, rfl, rfl⟩, rfl, rfl, Nat.le_refl 0⟩
  | append_singleton inputs input ih =>
    have h := ih (hserved.of_prefix (List.prefix_append _ _))
    rw [TcpListening.state, List.foldl_append]
    cases input with
    | call c =>
      rw [texts_concat_call]
      exact h.call c
    | data chunk =>
      have hchunk := hserved inputs chunk List.prefix_rfl
      rw [tcpArrived, texts_concat_data, List.flatten_append, List.flatten_singleton] at hchunk
      rw [texts_concat_data, List.flatten_append, List.flatten_singleton]
      exact (h.onData listeners hchunk).1

/-! ### TCP: the next chunk -/

/-- The marks of the lines that stand in `_buf`. -/
def TcpListening.pending (listeners : List (Listener α)) (t : TcpListening α) : List Mark :=
  marks listeners t.events.length (completeLines t.buf)

/-- No reply stands behind a throw. -/
def Clear (ms : List Mark) : Prop := ∀ n ∈ throwsAhead 0 ms, n = 0

instance (ms : List Mark) : Decidable (Clear ms) := inferInstanceAs (Decidable (∀ n ∈ _, n = 0))

theorem handledCount_le (ms : List Mark) : handledCount ms ≤ ms.length := by
  induction ms using marks_induction with
  | nil => exact Nat.le_refl 0
  | reply ms ih => simpa [handledCount] using ih
  | handled ms ih => simpa [handledCount] using ih
  | thrown ms => simp [handledCount]

theorem handledCount_append (ms ms' : List Mark) :
    handledCount (ms ++ ms') =
      if .event true ∈ ms then handledCount ms else ms.length + handledCount ms' := by
  induction ms using marks_induction with
  | nil => simp
  | reply ms ih =>
    simp only [List.cons_append, handledCount, ih]
    split <;> simp_all
    omega
  | handled ms ih =>
    simp only [List.cons_append, handledCount, ih]
    split <;> simp_all
    omega
  | thrown ms => simp [handledCount]

theorem handledCount_eq_length {ms : List Mark} (h : .event true ∉ ms) :
    handledCount ms = ms.length := by
  simpa [h, handledCount] using handledCount_append ms []

theorem Caught.marks_queue (listeners : List (Listener α)) {text : List α}
    {t : TcpListening α} (h : Caught text t) (chunk : List α) :
    marks listeners t.events.length
        (completeLines t.buf ++ completeLines (Js.remainder text ++ chunk)) =
      t.pending listeners ++ chunkMarks listeners text chunk := by
  obtain ⟨handled, hlines, hevents, -⟩ := h.lines
  rw [marks_append, chunkMarks, hlines, eventTexts_append, hevents, List.length_append,
    TcpListening.pending, hevents]

/-- A chunk joins the queue, which is then handled up to its first throw. -/
theorem Caught.pending_onData (listeners : List (Listener α)) {text : List α}
    {t : TcpListening α} (h : Caught text t) {chunk : List α}
    (hserved : (replyTexts (completeLines (text ++ chunk))).length ≤ t.asked.length) :
    let ms := t.pending listeners ++ chunkMarks listeners text chunk
    (t.onData listeners chunk).pending listeners = ms.drop (handledCount ms) := by
  obtain ⟨-, hbuf, hevents, -⟩ := h.onData listeners hserved
  intro ms
  rw [TcpListening.pending, hbuf, hevents, List.length_append, marks_drop, h.marks_queue]

/-- Every reply from before a chunk has been given when the chunk has been handled,
exactly if none stood in `_buf` behind a throw. -/
theorem Caught.next_iff (listeners : List (Listener α)) {text : List α} {t : TcpListening α}
    (h : Caught text t) {next : List α}
    (hserved : (replyTexts (completeLines (text ++ next))).length ≤ t.asked.length) :
    replyTexts (completeLines text) <+: (t.onData listeners next).answered.map Prod.snd ↔
      Clear (t.pending listeners) := by
  obtain ⟨-, -, -, hanswered⟩ := h.onData listeners hserved
  obtain ⟨handled, hlines, -, hgiven⟩ := h.lines
  rw [hanswered, hlines, replyTexts_append, hgiven, List.prefix_append_right_inj,
    h.marks_queue, handledCount_append, Clear, TcpListening.pending,
    ← replyTexts_drop_eq_nil]
  have hlength := length_marks listeners t.events.length (completeLines t.buf)
  split
  · -- the loop stops within what stood in the buffer
    have hle := handledCount_le (marks listeners t.events.length (completeLines t.buf))
    rw [List.take_append_of_le_length (by omega), replyTexts_prefix_take]
  · rename_i hquiet
    rw [handledCount_eq_length hquiet, hlength, List.drop_length, List.take_length_add_append,
      replyTexts_append]
    exact iff_of_true (List.prefix_append _ _) rfl

theorem throwCount_append (ms ms' : List Mark) :
    throwCount (ms ++ ms') = throwCount ms + throwCount ms' :=
  List.count_append

/-- The throws that stand in `_buf` are the backlog of the chunks. -/
theorem TcpListening.throwCount_pending (listeners : List (Listener α))
    (inputs : List (Input α)) (hserved : Served (TcpListening.run listeners) tcpArrived inputs) :
    throwCount ((TcpListening.state listeners inputs).pending listeners) =
      backlog (tcpMarks listeners [] (texts inputs)) := by
  induction inputs using List.reverseRecOn with
  | nil => rfl
  | append_singleton inputs input ih =>
    have hbefore := hserved.of_prefix (List.prefix_append _ _)
    have hcount := ih hbefore
    cases input with
    | call c =>
      have hqueues := Listening.call_queues tcpWrite
        (TcpListening.state listeners inputs).toListening c
      rw [texts_concat_call, ← hcount, TcpListening.state, List.foldl_append]
      exact congrArg (fun k => throwCount (marks listeners k _)) (congrArg List.length hqueues.1)
    | data chunk =>
      have hchunk := hserved inputs chunk List.prefix_rfl
      rw [tcpArrived, texts_concat_data, List.flatten_append, List.flatten_singleton] at hchunk
      have hpending := (TcpListening.caught listeners inputs hbefore).pending_onData listeners hchunk
      rw [texts_concat_data, tcpMarks_concat, backlog_concat, ← hcount, ← throwCount_append,
        ← throwCount_drop, TcpListening.state, List.foldl_append]
      exact congrArg throwCount hpending

theorem twoChunks_nil : TwoChunks [] := by
  intro before ms hbefore
  simp at hbefore

theorem twoChunks_concat (chunks : List (List Mark)) (ms : List Mark) :
    TwoChunks (chunks ++ [ms]) ↔
      TwoChunks chunks ∧ ∀ n ∈ throwsAhead (backlog chunks) ms, n ≤ 1 := by
  constructor
  · intro h
    exact ⟨fun before ms' hbefore => h before ms' (hbefore.trans (List.prefix_append _ _)),
      h chunks ms List.prefix_rfl⟩
  · rintro ⟨hchunks, hlast⟩ before ms' hbefore
    rcases List.prefix_concat_iff.mp hbefore with heq | hbefore
    · obtain ⟨rfl, hms⟩ := List.append_inj' heq rfl
      obtain rfl : ms' = ms := by simpa using hms
      exact hlast
    · exact hchunks before ms' hbefore

/-- No reply ever stands behind a throw in `_buf`, exactly if none comes behind two. -/
theorem TcpListening.clear_iff (listeners : List (Listener α)) (inputs : List (Input α))
    (hserved : Served (TcpListening.run listeners) tcpArrived inputs) :
    (∀ before, before <+: inputs →
        Clear ((TcpListening.state listeners before).pending listeners)) ↔
      TwoChunks (tcpMarks listeners [] (texts inputs)) := by
  induction inputs using List.reverseRecOn with
  | nil =>
    constructor
    · exact fun _ => twoChunks_nil
    · intro _ before hbefore
      obtain rfl := List.prefix_nil.mp hbefore
      intro n hn
      simp [TcpListening.state, TcpListening.pending, completeLines, marks, throwsAhead] at hn
  | append_singleton inputs input ih =>
    have hbefore := hserved.of_prefix (List.prefix_append _ _)
    have hsplit : (∀ before, before <+: inputs ++ [input] →
          Clear ((TcpListening.state listeners before).pending listeners)) ↔
        (∀ before, before <+: inputs →
          Clear ((TcpListening.state listeners before).pending listeners)) ∧
          Clear ((TcpListening.state listeners (inputs ++ [input])).pending listeners) := by
      simp only [List.prefix_concat_iff, or_imp, forall_and, forall_eq, and_comm]
    rw [hsplit, ih hbefore]
    have hstate : TcpListening.state listeners (inputs ++ [input]) =
        (TcpListening.state listeners inputs).step listeners input := by
      simp [TcpListening.state]
    rw [hstate]
    cases input with
    | call c =>
      have hqueues := Listening.call_queues tcpWrite
        (TcpListening.state listeners inputs).toListening c
      have hsame : ((TcpListening.state listeners inputs).step listeners (.call c)).pending
          listeners = (TcpListening.state listeners inputs).pending listeners :=
        congrArg (marks listeners · _) (congrArg List.length hqueues.1)
      rw [texts_concat_call, hsame, ← ih hbefore]
      exact ⟨fun h => h.1, fun h => ⟨h, h inputs List.prefix_rfl⟩⟩
    | data chunk =>
      have hchunk := hserved inputs chunk List.prefix_rfl
      rw [tcpArrived, texts_concat_data, List.flatten_append, List.flatten_singleton] at hchunk
      have hpending := (TcpListening.caught listeners inputs hbefore).pending_onData listeners hchunk
      rw [texts_concat_data, tcpMarks_concat, twoChunks_concat, List.nil_append,
        ← TcpListening.throwCount_pending listeners inputs hbefore, TcpListening.step, hpending,
        Clear, throwsAhead_drop, throwsAhead_append, Nat.zero_add]
      refine and_congr_right fun hclear => ?_
      have hquiet : Clear ((TcpListening.state listeners inputs).pending listeners) :=
        (ih hbefore).mpr hclear inputs List.prefix_rfl
      constructor
      · exact fun h n hn => h n (List.mem_append_right _ hn)
      · intro h n hn
        rcases List.mem_append.mp hn with hn | hn
        · exact Nat.le_of_eq (hquiet n hn) |>.trans (Nat.zero_le 1)
        · exact h n hn

theorem tcpArrived_concat_data (inputs : List (Input α)) (text : List α) :
    tcpArrived (inputs ++ [.data text]) = completeLines ((texts inputs).flatten ++ text) := by
  rw [tcpArrived, texts_concat_data, List.flatten_append, List.flatten_singleton]

/-- **On TCP no reply is lost, exactly if none comes behind two throws:** a chunk takes one
throw off the buffer, so that the next chunk delivers what stands behind it. -/
theorem TcpListening.noReplyLost_iff (listeners : List (Listener α)) (inputs : List (Input α))
    (hserved : Served (TcpListening.run listeners) tcpArrived inputs) :
    NoReplyLost (TcpListening.run listeners) tcpArrived inputs ↔
      TwoChunks (tcpMarks listeners [] (texts inputs)) := by
  rw [← TcpListening.clear_iff listeners inputs hserved]
  have hdata : ∀ before next, TcpListening.run listeners (before ++ [.data next]) =
      ((TcpListening.state listeners before).onData listeners next).toListening := by
    intro before next
    simp [TcpListening.run, TcpListening.state, TcpListening.step]
  constructor
  · intro h before hbefore
    have hcaught := TcpListening.caught listeners before (hserved.of_prefix hbefore)
    have hchunk : (replyTexts (completeLines ((texts before).flatten ++ []))).length ≤
        (TcpListening.state listeners before).asked.length := by
      rw [List.append_nil]
      exact hcaught.served
    have hnext := (hserved.of_prefix hbefore).data (tcpArrived_concat_data before [] ▸ hchunk)
    obtain ⟨-, -, hgiven⟩ := h before [] hbefore hnext
    rw [hdata] at hgiven
    exact (hcaught.next_iff listeners hchunk).mp hgiven
  · intro hclear before next hbefore hnext
    have hchunk := hnext before next List.prefix_rfl
    rw [tcpArrived_concat_data] at hchunk
    have hcaught := TcpListening.caught listeners before (hserved.of_prefix hbefore)
    obtain ⟨⟨handled, hlines, -, hgiven⟩, -, hinOrder, -⟩ := (hcaught.onData listeners hchunk).1
    rw [hdata, tcpArrived_concat_data]
    refine ⟨hinOrder, ?_, (hcaught.next_iff listeners hchunk).mpr (hclear before hbefore)⟩
    rw [hlines, replyTexts_append, hgiven]
    exact List.prefix_append _ _

/-! ### WebSocket -/

/-- `_onMessage` is the loop over the lines of its frame. -/
theorem WsListening.onMessage_lines (listeners : List (Listener α)) (text : List α)
    (t : WsListening α) :
    WsListening.onMessage listeners text t =
      (Listening.process wsWrite listeners (frameLines text) t).1 := by
  rw [WsListening.onMessage, frameLines]
  generalize text.splitOn (lit '\n') = raws
  induction raws generalizing t with
  | nil => rfl
  | cons raw raws ih =>
    rw [WsListening.loop, List.map_cons]
    by_cases hline : chomp (lit '\r') raw = []
    · rw [if_pos hline, List.filter_cons_of_neg (by simp [hline]), ih]
    · rw [if_neg hline, List.filter_cons_of_pos (by simp [hline]), Listening.process]
      split <;> rename_i hdispatch <;> rw [hdispatch]
      exact ih _

/-- The events that are handled in a frame of which the first is the `k`-th. -/
def eventsHandled (listeners : List (Listener α)) (k : Nat) (text : List α) : Nat :=
  (eventTexts ((frameLines text).take
    (handledCount (marks listeners k (frameLines text))))).length

/-- The marks of the lines of each frame. -/
def frameMarks (listeners : List (Listener α)) : Nat → List (List α) → List (List Mark)
  | _, [] => []
  | k, text :: frames =>
    marks listeners k (frameLines text) ::
      frameMarks listeners (k + eventsHandled listeners k text) frames

/-- The events that are handled in the frames so far. -/
def eventsSeen (listeners : List (Listener α)) (k : Nat) (frames : List (List α)) : Nat :=
  frames.foldl (fun k text => k + eventsHandled listeners k text) k

theorem frameMarks_append (listeners : List (Listener α)) (k : Nat)
    (frames frames' : List (List α)) :
    frameMarks listeners k (frames ++ frames') = frameMarks listeners k frames ++
      frameMarks listeners (eventsSeen listeners k frames) frames' := by
  induction frames generalizing k with
  | nil => simp [frameMarks, eventsSeen]
  | cons first frames ih => simp [frameMarks, ih, eventsSeen]

/-- No listener throws at an event that has a reply behind it in its frame. -/
def AllClear (listeners : List (Listener α)) (frames : List (List α)) : Prop :=
  ∀ ms ∈ frameMarks listeners 0 frames, Clear ms

instance (listeners : List (Listener α)) (frames : List (List α)) :
    Decidable (AllClear listeners frames) := inferInstanceAs (Decidable (∀ ms ∈ _, Clear ms))

theorem allClear_concat (listeners : List (Listener α)) (frames : List (List α))
    (text : List α) :
    AllClear listeners (frames ++ [text]) ↔ AllClear listeners frames ∧
      Clear (marks listeners (eventsSeen listeners 0 frames) (frameLines text)) := by
  simp [AllClear, frameMarks_append, frameMarks, or_imp, forall_and]

theorem AllClear.of_prefix {listeners : List (Listener α)} {before inputs : List (Input α)}
    (h : AllClear listeners (texts inputs)) (hbefore : before <+: inputs) :
    AllClear listeners (texts before) := by
  obtain ⟨rest, rfl⟩ := hbefore
  intro ms hms
  refine h ms ?_
  rw [texts, List.filterMap_append, frameMarks_append]
  exact List.mem_append_left _ hms

theorem frameLines_nil : frameLines ([] : List α) = [] := by
  simp [frameLines, chomp]

/-- The state of a WebSocket connection, from what has come. -/
structure WsCaught (listeners : List (Listener α)) (inputs : List (Input α))
    (t : WsListening α) : Prop where
  inOrder : InOrder t
  events : t.events.length = eventsSeen listeners 0 (texts inputs)
  given : t.answered.length ≤ (replyTexts (wsArrived inputs)).length
  served : (replyTexts (wsArrived inputs)).length ≤ t.asked.length

theorem wsArrived_concat_data (inputs : List (Input α)) (text : List α) :
    wsArrived (inputs ++ [.data text]) = wsArrived inputs ++ frameLines text := by
  simp [wsArrived, texts_concat_data]

theorem WsCaught.onMessage (listeners : List (Listener α)) {inputs : List (Input α)}
    {t : WsListening α} (h : WsCaught listeners inputs t) {text : List α}
    (hserved : (replyTexts (wsArrived (inputs ++ [.data text]))).length ≤ t.asked.length) :
    WsCaught listeners (inputs ++ [.data text]) (WsListening.onMessage listeners text t) ∧
      (WsListening.onMessage listeners text t).answered.map Prod.snd =
        t.answered.map Prod.snd ++ replyTexts ((frameLines text).take (handledCount
          (marks listeners (eventsSeen listeners 0 (texts inputs)) (frameLines text)))) := by
  have hwaiters : (replyTexts (frameLines text)).length ≤ t.waiters.length := by
    have hinOrder := congrArg List.length h.inOrder
    have hgiven := h.given
    rw [wsArrived_concat_data, replyTexts_append] at hserved
    simp only [List.length_append, List.length_map] at hinOrder hserved
    omega
  obtain ⟨-, hevents, hanswered, hinOrder, hasked⟩ :=
    Listening.process_spec wsWrite listeners (frameLines text) h.inOrder hwaiters
  rw [h.events, ← WsListening.onMessage_lines] at hevents hanswered
  rw [← WsListening.onMessage_lines] at hinOrder hasked
  refine ⟨⟨hinOrder, ?_, ?_, hserved.trans hasked.length_le⟩, hanswered⟩
  · rw [hevents, List.length_append, h.events, texts_concat_data, eventsSeen, eventsSeen,
      List.foldl_append]
    rfl
  · have hlength := congrArg List.length hanswered
    have hsplit := congrArg List.length (replyTexts_take_append_drop (handledCount
      (marks listeners (eventsSeen listeners 0 (texts inputs)) (frameLines text)))
      (frameLines text))
    have hgiven := h.given
    rw [wsArrived_concat_data, replyTexts_append]
    simp only [List.length_append, List.length_map] at hlength hsplit ⊢
    omega

theorem WsListening.caught (listeners : List (Listener α)) (inputs : List (Input α))
    (hserved : Served (WsListening.run listeners) wsArrived inputs) :
    WsCaught listeners inputs (WsListening.run listeners inputs) := by
  induction inputs using List.reverseRecOn with
  | nil => exact ⟨rfl, rfl, Nat.le_refl 0, Nat.le_refl 0⟩
  | append_singleton inputs input ih =>
    have h := ih (hserved.of_prefix (List.prefix_append _ _))
    rw [WsListening.run, List.foldl_append]
    cases input with
    | call c =>
      have hqueues := Listening.call_queues wsWrite (WsListening.run listeners inputs) c
      have hinOrder := hqueues.inOrder h.inOrder
      refine ⟨hinOrder, ?_, ?_, ?_⟩
      · rw [texts_concat_call, ← h.events]
        exact congrArg List.length hqueues.1
      · rw [wsArrived, texts_concat_call]
        exact (congrArg List.length hqueues.2.1).trans_le h.given
      · rw [wsArrived, texts_concat_call]
        exact h.served.trans hqueues.asked_le
    | data text => exact (h.onMessage listeners (hserved inputs text List.prefix_rfl)).1

/-- While no reply stands behind a throw, all of them are given. -/
theorem WsListening.given (listeners : List (Listener α)) (inputs : List (Input α))
    (hserved : Served (WsListening.run listeners) wsArrived inputs)
    (hclear : AllClear listeners (texts inputs)) :
    (WsListening.run listeners inputs).answered.map Prod.snd = replyTexts (wsArrived inputs) := by
  induction inputs using List.reverseRecOn with
  | nil => rfl
  | append_singleton inputs input ih =>
    have hbefore := hserved.of_prefix (List.prefix_append _ _)
    rw [WsListening.run, List.foldl_append]
    cases input with
    | call c =>
      rw [texts_concat_call] at hclear
      rw [wsArrived, texts_concat_call]
      have hqueues := Listening.call_queues wsWrite (WsListening.run listeners inputs) c
      exact (congrArg (List.map Prod.snd) hqueues.2.1).trans (ih hbefore hclear)
    | data text =>
      rw [texts_concat_data, allClear_concat] at hclear
      have hgiven := ((WsListening.caught listeners inputs hbefore).onMessage listeners
        (hserved inputs text List.prefix_rfl)).2
      have hnone := (replyTexts_drop_eq_nil listeners _ (frameLines text)).mpr hclear.2
      have hall := replyTexts_take_append_drop (handledCount (marks listeners
        (eventsSeen listeners 0 (texts inputs)) (frameLines text))) (frameLines text)
      rw [hnone, List.append_nil] at hall
      rw [ih hbefore hclear.1, hall, ← replyTexts_append, ← wsArrived_concat_data] at hgiven
      exact hgiven

/-- **On a WebSocket no reply is lost, exactly if none stands behind a throw** in its
frame. -/
theorem WsListening.noReplyLost_iff (listeners : List (Listener α)) (inputs : List (Input α))
    (hserved : Served (WsListening.run listeners) wsArrived inputs) :
    NoReplyLost (WsListening.run listeners) wsArrived inputs ↔
      AllClear listeners (texts inputs) := by
  have hdata : ∀ before next, WsListening.run listeners (before ++ [.data next]) =
      WsListening.onMessage listeners next (WsListening.run listeners before) := by
    intro before next
    simp [WsListening.run, WsListening.step]
  constructor
  · intro h
    induction inputs using List.reverseRecOn with
    | nil => exact fun ms hms => absurd hms List.not_mem_nil
    | append_singleton inputs input ih =>
      have hbefore := hserved.of_prefix (List.prefix_append _ _)
      have hclear := ih hbefore fun before next hpre =>
        h before next (hpre.trans (List.prefix_append _ _))
      cases input with
      | call c => rwa [texts_concat_call]
      | data text =>
        rw [texts_concat_data, allClear_concat]
        have hcaught := WsListening.caught listeners inputs hbefore
        obtain ⟨hthis, hanswered⟩ :=
          hcaught.onMessage listeners (hserved inputs text List.prefix_rfl)
        have hempty : (replyTexts (wsArrived (inputs ++ [.data text] ++ [.data []]))).length ≤
            (WsListening.onMessage listeners text (WsListening.run listeners inputs)).asked.length := by
          rw [wsArrived_concat_data, frameLines_nil, List.append_nil]
          exact hthis.served
        have hnext := hserved.data (hdata inputs text ▸ hempty)
        -- the next frame has no line, and gives nothing
        have hgiven := (h (inputs ++ [.data text]) [] List.prefix_rfl hnext).2.2
        rw [hdata, hdata, (hthis.onMessage listeners hempty).2, hanswered,
          WsListening.given listeners inputs hbefore hclear, wsArrived_concat_data,
          replyTexts_append, frameLines_nil, List.take_nil, replyTexts_nil, List.append_nil,
          List.prefix_append_right_inj, replyTexts_prefix_take, replyTexts_drop_eq_nil] at hgiven
        exact ⟨hclear, hgiven⟩
  · intro hclear before next hbefore hnext
    have hcaught := WsListening.caught listeners before (hserved.of_prefix hbefore)
    have hgiven := WsListening.given listeners before (hserved.of_prefix hbefore)
      (hclear.of_prefix hbefore)
    obtain ⟨hthis, hanswered⟩ :=
      hcaught.onMessage listeners (hnext before next List.prefix_rfl)
    rw [hdata]
    dsimp only
    rw [hanswered, hgiven, wsArrived_concat_data, replyTexts_append,
      List.prefix_append_right_inj]
    refine ⟨hthis.inOrder, ?_, List.prefix_append _ _⟩
    exact ⟨_, replyTexts_take_append_drop _ _⟩

/-! ### Listeners that do not throw -/

section Quiet

variable {listeners : List (Listener α)} (hquiet : ∀ cb ∈ listeners, ∀ k, (cb k).2 = false)

/-- The calls of all listeners on the `k`-th event. -/
def reactions (listeners : List (Listener α)) (k : Nat) : List (Call α) :=
  listeners.flatMap fun cb => (cb k).1

omit [DecidableEq α] in
theorem Listening.foldl_call_toTransport (write : Call α → List ω) (cs : List (Call α)) :
    ∀ t : Listening α ω, (cs.foldl (Listening.call write) t).toTransport =
      cs.foldl (Transport.call write) t.toTransport := by
  induction cs with
  | nil => exact fun t => rfl
  | cons c cs ih => exact fun t => ih _

include hquiet in
omit [DecidableEq α] in
theorem Listening.notify_quiet (write : Call α → List ω) (k : Nat) (t : Listening α ω) :
    (t.notify write k listeners).1.toTransport =
      (reactions listeners k).foldl (Transport.call write) t.toTransport := by
  induction listeners generalizing t with
  | nil => rfl
  | cons cb cbs ih =>
    have hcb := hquiet cb List.mem_cons_self k
    have hcbs := ih fun cb' hcb' => hquiet cb' (List.mem_cons_of_mem _ hcb')
    simp [Listening.notify, hcb, hcbs, reactions, Listening.foldl_call_toTransport]

include hquiet in
theorem Listening.dispatch_quiet (write : Call α → List ω) (t : Listening α ω)
    (line : List α) :
    (t.dispatch write listeners line).1.toTransport =
        t.toTransport.dispatch write (reactions listeners) line ∧
      (t.dispatch write listeners line).2 = false := by
  by_cases hevent : evtTag <+: line
  · have hthrown : throwsAt listeners t.events.length = false := by
      simpa [throwsAt] using fun cb hcb => hquiet cb hcb _
    refine ⟨?_, (Listening.dispatch_event write listeners t hevent).2.trans hthrown⟩
    rw [Listening.dispatch, if_pos hevent, Transport.dispatch, if_pos hevent]
    exact Listening.notify_quiet hquiet write _ _
  · rw [Listening.dispatch, if_neg hevent, Transport.dispatch, if_neg hevent]
    cases t.waiters <;> exact ⟨rfl, rfl⟩

include hquiet in
theorem Listening.process_quiet (write : Call α → List ω) (lines : List (List α)) :
    ∀ t : Listening α ω, (t.process write listeners lines).1.toTransport =
      lines.foldl (Transport.dispatch write (reactions listeners)) t.toTransport := by
  induction lines with
  | nil => exact fun t => rfl
  | cons line lines ih =>
    intro t
    obtain ⟨hline, hthrown⟩ := Listening.dispatch_quiet hquiet write t line
    rw [Listening.process_cons, hthrown, if_neg Bool.false_ne_true, List.foldl_cons, ← hline]
    exact ih _

include hquiet in
/-- With listeners that do not throw these are the transports of `JsTransport`. -/
theorem Listening.onData_quiet (chunk : List α) (t : TcpListening α) :
    (t.onData listeners chunk).toTransport =
      (TcpTransport.onData (reactions listeners) chunk ⟨t.toTransport, t.buf⟩).toTransport := by
  rw [TcpTransport.onData_lines, TcpListening.onData, (TcpListening.drain_lines listeners _).1]
  exact Listening.process_quiet hquiet tcpWrite _ _

include hquiet in
theorem Listening.onMessage_quiet (text : List α) (t : WsListening α) :
    (WsListening.onMessage listeners text t).toTransport =
      WsTransport.onMessage (reactions listeners) text t.toTransport := by
  rw [WsListening.onMessage_lines, WsTransport.onMessage_lines]
  exact Listening.process_quiet hquiet wsWrite _ t

end Quiet

/-! ### Both transports -/

/-- **A throwing listener loses no reply,** exactly under these conditions: on a WebSocket,
where no listener throws at an event that has a reply behind it in its frame; on TCP, where
no reply comes behind two throws that are both still to come. -/
theorem listeners_noReplyLost_iff (listeners : List (Listener α)) (inputs : List (Input α)) :
    (Served (TcpListening.run listeners) tcpArrived inputs →
      (NoReplyLost (TcpListening.run listeners) tcpArrived inputs ↔
        TwoChunks (tcpMarks listeners [] (texts inputs)))) ∧
    (Served (WsListening.run listeners) wsArrived inputs →
      (NoReplyLost (WsListening.run listeners) wsArrived inputs ↔
        AllClear listeners (texts inputs))) :=
  ⟨TcpListening.noReplyLost_iff listeners inputs, WsListening.noReplyLost_iff listeners inputs⟩

theorem Served.nil (run : List (Input α) → Listening α ω)
    (arrived : List (Input α) → List (List α)) : Served run arrived [] := by
  intro before text hbefore
  simp at hbefore

theorem Served.call {run : List (Input α) → Listening α ω}
    {arrived : List (Input α) → List (List α)} {inputs : List (Input α)}
    (h : Served run arrived inputs) (c : Call α) : Served run arrived (inputs ++ [.call c]) := by
  intro before text hbefore
  rcases List.prefix_concat_iff.mp hbefore with heq | hbefore
  · obtain ⟨-, hlast⟩ := List.append_inj' heq rfl
    simp at hlast
  · exact h before text hbefore

/-- A listener that always throws: the reply behind the event survives in `_buf` of a TCP
transport, and the one before the event on a WebSocket. -/
theorem listeners_noReplyLost_throwing :
    let throwing : List (Listener UInt16) := [fun _ => ([], true)]
    let ask : Input UInt16 := .call (.send ⟨text "PING", by decide⟩)
    NoReplyLost (TcpListening.run throwing) tcpArrived
        [ask, .data (text ">EVT 0 0 1 INS\r\n+PONG\r\n")] ∧
      NoReplyLost (WsListening.run throwing) wsArrived
        [ask, .data (text "+PONG\r\n>EVT 0 0 1 INS\r\n")] := by
  intro throwing ask
  have htwo : TwoChunks (tcpMarks throwing [] [text ">EVT 0 0 1 INS\r\n+PONG\r\n"]) :=
    (twoChunks_concat [] _).mpr ⟨twoChunks_nil, by decide +kernel⟩
  constructor
  · exact ((listeners_noReplyLost_iff throwing _).1
      (((Served.nil _ _).call _).data (by decide +kernel))).mpr htwo
  · exact ((listeners_noReplyLost_iff throwing _).2
      (((Served.nil _ _).call _).data (by decide +kernel))).mpr (by decide +kernel)

/-- The reply behind an event is dropped with the rest of its frame, and the next reply
goes to its waiter. -/
theorem throwing_listener_shifts_replies :
    let throwing : List (Listener UInt16) := [fun _ => ([], true)]
    let inputs : List (Input UInt16) :=
      [.call (.send ⟨text "COUNT 0 0", by decide⟩), .data (text ">EVT 0 0 1 INS\r\n+OK 7\r\n")]
    let ping : List (Input UInt16) :=
      [.call (.send ⟨text "PING", by decide⟩), .data (text "+PONG\r\n")]
    Served (WsListening.run throwing) wsArrived inputs ∧
      ¬ NoReplyLost (WsListening.run throwing) wsArrived inputs ∧
      (WsListening.run throwing (inputs ++ ping)).settled = [(0, .line (text "+PONG"))] := by
  intro throwing inputs ping
  have hserved : Served (WsListening.run throwing) wsArrived inputs :=
    ((Served.nil _ _).call _).data (by decide +kernel)
  refine ⟨hserved, ?_, by decide +kernel⟩
  rw [WsListening.noReplyLost_iff throwing inputs hserved]
  decide +kernel

end CuttleDB.Js
