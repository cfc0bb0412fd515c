import CuttleDB.JsLines

/-!
# Sockets of one TCP transport

A `TcpTransport` that is closed and connected again has one queue of waiters and one
text buffer for all its sockets, and every socket it ever had goes on calling its
handlers. A session is the transport with what the source does not keep: which
socket a promise was written to, which one each unit of the buffer came from, and
which one handed a line or an error to a waiter. Forgetting these gives the
transport back.
-/

namespace CuttleDB.Js

open Framing

variable {α : Type} [DecidableEq α] [Alphabet α]

/-! ### Steps -/

inductive SocketStep (α : Type) [Alphabet α] where
  | connect                                       -- a new socket is connected
  | close                                         -- `close()`
  | call (c : Call α)
  | data (s : Nat) (chunk : List α)               -- the handlers of socket `s`
  | error (s : Nat) (message : List Char)
  | closed (s : Nat)

def TcpTransport.step (react : Nat → List (Call α)) (t : TcpTransport α) :
    SocketStep α → TcpTransport α
  | .connect => { t with connected := true }
  | .close => { t with toTransport := t.toTransport.close }
  | .call c => t.call c
  | .data _ chunk => t.onData react chunk
  | .error _ message => { t with toTransport := t.toTransport.failAll (.socketError message) }
  | .closed _ => { t with toTransport := t.toTransport.failAll .connectionClosed }

/-- `new TcpTransport(...)` -/
def TcpTransport.created : TcpTransport α := ⟨⟨false, [], [], [], [], [], []⟩, []⟩

def TcpTransport.run (react : Nat → List (Call α)) (steps : List (SocketStep α)) :
    TcpTransport α :=
  steps.foldl (TcpTransport.step react) TcpTransport.created

/-- A transport and its sockets, numbered as they are connected. `origins` has the
socket of each unit of the buffer, `births` the one each promise was written to,
`given` the promise and the socket of each line or error handed to a waiter, and
`parsed` for each line the socket that ended it and those of its units. -/
structure Session (α : Type) [Alphabet α] extends TcpTransport α where
  socket : Option Nat
  opened : Nat
  origins : List Nat
  births : List (Option Nat)
  given : List (Nat × Nat)
  parsed : List (Nat × List Nat)

def Session.created : Session α := ⟨TcpTransport.created, none, 0, [], [], [], []⟩

def Session.call (t : Session α) (c : Call α) : Session α :=
  { t with toTcpTransport := t.toTcpTransport.call c, births := t.births ++ [t.socket] }

/-- One line of the loop of `_onData`, in the handler of socket `s`. -/
def Session.takeLine (react : Nat → List (Call α)) (s : Nat) (t : Session α) (raw : List α) :
    Session α :=
  let line := chomp (lit '\r') raw
  let t := { t with
    buf := t.buf.drop (raw.length + 1)
    origins := t.origins.drop (raw.length + 1)
    parsed := t.parsed ++ [(s, t.origins.take raw.length)] }
  if evtTag <+: line then
    (react t.events.length).foldl Session.call { t with events := t.events ++ [line] }
  else
    match t.waiters with
    | [] => t
    | w :: waiters =>
      { t with
        toTransport := Transport.resolve w line { t.toTransport with waiters := waiters }
        given := t.given ++ [(w.promise, s)] }

def Session.onData (react : Nat → List (Call α)) (s : Nat) (chunk : List α) (t : Session α) :
    Session α :=
  (rawLines (t.buf ++ chunk)).foldl (Session.takeLine react s)
    { t with buf := t.buf ++ chunk, origins := t.origins ++ List.replicate chunk.length s }

def Session.failAll (s : Nat) (err : TransportError) (t : Session α) : Session α :=
  { t with
    toTransport := t.toTransport.failAll err
    given := t.given ++ t.waiters.map fun w => (w.promise, s) }

def Session.step (react : Nat → List (Call α)) (t : Session α) : SocketStep α → Session α
  | .connect => { t with connected := true, socket := some t.opened, opened := t.opened + 1 }
  | .close => { t with toTransport := t.toTransport.close, socket := none }
  | .call c => t.call c
  | .data s chunk => t.onData react s chunk
  | .error s message => t.failAll s (.socketError message)
  | .closed s => t.failAll s .connectionClosed

def Session.run (react : Nat → List (Call α)) (steps : List (SocketStep α)) : Session α :=
  steps.foldl (Session.step react) Session.created

/-! ### The transport of a session -/

omit [DecidableEq α] in
theorem Session.foldl_call_transport (cs : List (Call α)) :
    ∀ t : Session α, (cs.foldl Session.call t).toTransport =
      cs.foldl (Transport.call tcpWrite) t.toTransport ∧
      (cs.foldl Session.call t).buf = t.buf := by
  induction cs with
  | nil => exact fun t => ⟨rfl, rfl⟩
  | cons c cs ih => exact fun t => ih (t.call c)

theorem Session.takeLine_transport (react : Nat → List (Call α)) (s : Nat) (t : Session α)
    (raw : List α) :
    (t.takeLine react s raw).toTransport =
        t.toTransport.dispatch tcpWrite react (chomp (lit '\r') raw) ∧
      (t.takeLine react s raw).buf = t.buf.drop (raw.length + 1) := by
  unfold Session.takeLine Transport.dispatch
  dsimp only
  split
  · exact Session.foldl_call_transport _ _
  · cases t.waiters with
    | nil => exact ⟨rfl, rfl⟩
    | cons w waiters => exact ⟨rfl, rfl⟩

/-- The loop of the session is the loop of `_onData`. -/
theorem Session.foldl_takeLine_transport (react : Nat → List (Call α)) (s : Nat) (t : Session α) :
    ((rawLines t.buf).foldl (Session.takeLine react s) t).toTcpTransport =
      t.toTcpTransport.drain react := by
  generalize hbuf : t.buf = buf
  induction buf using line_induction (lit '\n' : α) generalizing t with
  | last buf h =>
    rw [TcpTransport.drain_eq, hbuf, cutLine_eq_none.mpr h, rawLines_of_not_mem h]
    rfl
  | line raw rest hraw ih =>
    obtain ⟨htransport, hrest⟩ := t.takeLine_transport react s raw
    have hdrop : t.buf.drop (raw.length + 1) = rest := by
      rw [hbuf, List.append_cons, List.drop_left' (by simp)]
    rw [hdrop] at hrest
    rw [TcpTransport.drain_eq, hbuf, cutLine_line hraw, rawLines_line hraw, List.foldl_cons,
      ih (t.takeLine react s raw) hrest]
    dsimp only
    congr 1
    rcases htake : t.takeLine react s raw with ⟨⟨transport, buf⟩, _⟩
    rw [htake] at htransport hrest
    dsimp only at htransport hrest ⊢
    rw [htransport, hrest]

theorem Session.step_transport (react : Nat → List (Call α)) (t : Session α)
    (st : SocketStep α) :
    (t.step react st).toTcpTransport = t.toTcpTransport.step react st := by
  cases st with
  | connect => rfl
  | close => rfl
  | call c => rfl
  | data s chunk => exact Session.foldl_takeLine_transport react s _
  | error s message => rfl
  | closed s => rfl

/-- **What a session adds does not change the transport.** -/
theorem Session.run_transport (react : Nat → List (Call α)) (steps : List (SocketStep α)) :
    (Session.run react steps).toTcpTransport = TcpTransport.run react steps := by
  induction steps using List.reverseRecOn with
  | nil => rfl
  | append_singleton steps st ih =>
    rw [Session.run, TcpTransport.run, List.foldl_append, List.foldl_append]
    exact (Session.step_transport react _ st).trans (congrArg (TcpTransport.step react · st) ih)

/-! ### What a promise may be given -/

/-- What comes from socket `s` may go to a promise written to `b`: to its own socket,
or to the one before any reconnection. -/
def Own (s : Nat) (b : Option Nat) : Prop := ∀ k, b = some k → 0 < k → k = s

/-- The socket a promise was written to. -/
def Session.birth (t : Session α) (p : Nat) : Option Nat := (t.births[p]?).join

/-- A promise written after a reconnection is given nothing that is not of its own
socket, and a line that a reconnected socket ended is all its own. -/
structure Session.Isolated (t : Session α) : Prop where
  given : ∀ g ∈ t.given, Own g.2 (t.birth g.1)
  settled : ∀ v ∈ t.settled, (∃ s, (v.1, s) ∈ t.given) ∨ t.birth v.1 = none
  lines : ∀ l ∈ t.parsed, 0 < l.1 → ∀ j ∈ l.2, j = l.1

/-- The sockets the waiters wait for. -/
def Session.queue (t : Session α) : List (Option Nat) := t.waiters.map fun w => t.birth w.promise

/-- What calls add to the queue. -/
def pushed (socket : Option Nat) (cs : List (Call α)) : List (Option Nat) :=
  if socket = none then [] else List.replicate (cs.map Call.size).sum socket

/-- The entries of the queue that the lines are given to, from event `k` on. -/
def addressees (react : Nat → List (Call α)) (socket : Option Nat) :
    Nat → List (Option Nat) → List (List α) → List (Option Nat)
  | _, _, [] => []
  | k, queue, line :: lines =>
    if evtTag <+: line then
      addressees react socket (k + 1) (queue ++ pushed socket (react k)) lines
    else
      match queue with
      | [] => addressees react socket k [] lines
      | b :: queue => b :: addressees react socket k queue lines

section Addressees

variable (react : Nat → List (Call α)) (socket : Option Nat) (k : Nat) (queue : List (Option Nat))
  {line : List α} (lines : List (List α))

theorem addressees_event (h : evtTag <+: line) :
    addressees react socket k queue (line :: lines) =
      addressees react socket (k + 1) (queue ++ pushed socket (react k)) lines := by
  rw [addressees.eq_def]
  exact if_pos h

theorem addressees_unawaited (h : ¬ evtTag <+: line) :
    addressees react socket k [] (line :: lines) = addressees react socket k [] lines := by
  rw [addressees.eq_def]
  exact if_neg h

theorem addressees_reply (b : Option Nat) (h : ¬ evtTag <+: line) :
    addressees react socket k (b :: queue) (line :: lines) =
      b :: addressees react socket k queue lines := by
  rw [addressees.eq_def]
  exact if_neg h

end Addressees

/-- The condition on a step: what a socket's handler gives goes to waiters of its
own, and a line ends on an empty buffer or one of its own. -/
def Session.Admits (react : Nat → List (Call α)) (t : Session α) : SocketStep α → Prop
  | .connect => True
  | .close => True
  | .call _ => True
  | .data s chunk =>
    (∀ b ∈ addressees react t.socket t.events.length t.queue (completeLines (t.buf ++ chunk)),
      Own s b) ∧
    (lit '\n' ∈ chunk → 0 < s → ∀ j ∈ t.origins, j = s)
  | .error s _ => ∀ b ∈ t.queue, Own s b
  | .closed s => ∀ b ∈ t.queue, Own s b

/-! ### The bookkeeping -/

structure Session.Wf (t : Session α) : Prop where
  connected : t.connected = t.socket.isSome
  births : t.births.length = t.calls.length
  origins : t.origins.length = t.buf.length
  waiters : ∀ w ∈ t.waiters, w.promise < t.births.length
  given : ∀ g ∈ t.given, g.1 < t.births.length
  known : ∀ v ∈ t.settled, v.1 < t.births.length
  settled : ∀ v ∈ t.settled, (∃ s, (v.1, s) ∈ t.given) ∨ t.birth v.1 = none

omit [DecidableEq α] in
theorem Session.birth_of_append {t t' : Session α} {bs : List (Option Nat)}
    (hbirths : t'.births = t.births ++ bs) {p : Nat} (hp : p < t.births.length) :
    t'.birth p = t.birth p := by
  rw [Session.birth, Session.birth, hbirths, List.getElem?_append_left hp]

omit [DecidableEq α] in
/-- What a step adds decides whether it keeps the promises to their sockets. -/
theorem Session.given_own_iff {t t' : Session α} {bs : List (Option Nat)} (gs : List (Nat × Nat))
    (hwf : t.Wf) (hbirths : t'.births = t.births ++ bs) (hgiven : t'.given = t.given ++ gs)
    (hgs : ∀ g ∈ gs, g.1 < t.births.length) :
    (∀ g ∈ t'.given, Own g.2 (t'.birth g.1)) ↔
      (∀ g ∈ t.given, Own g.2 (t.birth g.1)) ∧ ∀ g ∈ gs, Own g.2 (t.birth g.1) := by
  rw [hgiven]
  constructor
  · intro h
    refine ⟨fun g hg => ?_, fun g hg => ?_⟩
    · rw [← Session.birth_of_append hbirths (hwf.given g hg)]
      exact h g (List.mem_append_left _ hg)
    · rw [← Session.birth_of_append hbirths (hgs g hg)]
      exact h g (List.mem_append_right _ hg)
  · rintro ⟨hold, hnew⟩ g hg
    rcases List.mem_append.mp hg with hg | hg
    · rw [Session.birth_of_append hbirths (hwf.given g hg)]
      exact hold g hg
    · rw [Session.birth_of_append hbirths (hgs g hg)]
      exact hnew g hg

omit [DecidableEq α] in
theorem Session.queue_of_append {t t' : Session α} {bs : List (Option Nat)} (hwf : t.Wf)
    (hbirths : t'.births = t.births ++ bs) (ws : List Waiter)
    (hwaiters : t'.waiters = t.waiters ++ ws) :
    t'.queue = t.queue ++ ws.map fun w => t'.birth w.promise := by
  rw [Session.queue, hwaiters, List.map_append]
  congr 1
  exact List.map_congr_left fun w hw => Session.birth_of_append hbirths (hwf.waiters w hw)

/-- `t'` is left of `t` by the calls `cs`. -/
structure Session.Called (t : Session α) (cs : List (Call α)) (t' : Session α) : Prop where
  wf : t'.Wf
  socket : t'.socket = t.socket
  opened : t'.opened = t.opened
  events : t'.events = t.events
  buf : t'.buf = t.buf
  origins : t'.origins = t.origins
  given : t'.given = t.given
  parsed : t'.parsed = t.parsed
  births : t'.births = t.births ++ List.replicate cs.length t.socket
  queue : t'.queue = t.queue ++ pushed t.socket cs

omit [DecidableEq α] in
theorem Session.Wf.call {t : Session α} (h : t.Wf) (c : Call α) : t.Called [c] (t.call c) := by
  have hbirths : (t.call c).births = t.births ++ [t.socket] := rfl
  have hcalls : (t.call c).calls = t.calls ++ [c] := Transport.call_calls tcpWrite _ c
  have hlast : (t.call c).birth t.births.length = t.socket := by
    rw [Session.birth, hbirths, List.getElem?_concat_length]
    rfl
  have hlength : (t.call c).births.length = t.births.length + 1 := by simp [hbirths]
  have hlt : ∀ {p : Nat}, p < t.births.length → p < (t.call c).births.length := by omega
  have hgiven : ∀ g ∈ (t.call c).given, g.1 < (t.call c).births.length :=
    fun g hg => hlt (h.given g hg)
  have hsettled : ∀ v ∈ t.settled, (∃ s, (v.1, s) ∈ t.given) ∨ (t.call c).birth v.1 = none := by
    intro v hv
    rw [Session.birth_of_append hbirths (h.known v hv)]
    exact h.settled v hv
  have hbirthsLength : (t.call c).births.length = (t.call c).calls.length := by
    rw [hlength, hcalls, List.length_append, h.births]
    rfl
  cases hconnected : t.connected with
  | true =>
    obtain ⟨⟨hconn, -, hevents, hsame⟩, -, hwaiters, -⟩ :=
      Transport.call_spec tcpWrite hconnected c
    have hsocket : t.socket ≠ none :=
      Option.isSome_iff_ne_none.mp (h.connected.symm.trans hconnected)
    refine ⟨⟨hconn.trans (hconnected ▸ h.connected), hbirthsLength, h.origins, ?_, hgiven, ?_, ?_⟩,
      rfl, rfl, hevents, rfl, rfl, rfl, rfl, hbirths, ?_⟩
    · intro w hw
      rcases List.mem_append.mp (hwaiters ▸ hw) with hw | hw
      · exact hlt (h.waiters w hw)
      · rw [List.eq_of_mem_replicate hw, hlength, h.births]
        exact Nat.lt_succ_self _
    · intro v hv
      exact hlt (h.known v (hsame ▸ hv))
    · intro v hv
      exact hsettled v (hsame ▸ hv)
    · rw [Session.queue_of_append h hbirths _ hwaiters, pushed, if_neg hsocket,
        List.map_replicate, ← h.births, hlast]
      simp
  | false =>
    obtain ⟨⟨hconn, -, hevents, hsame⟩, -, hwaiters⟩ :=
      Transport.call_rejected tcpWrite hconnected c
    have hsocket : t.socket = none :=
      Option.isNone_iff_eq_none.mp (by simpa [hconnected] using h.connected.symm)
    refine ⟨⟨hconn.trans (hconnected ▸ h.connected), hbirthsLength, h.origins, ?_, hgiven, ?_, ?_⟩,
      rfl, rfl, hevents, rfl, rfl, rfl, rfl, hbirths, ?_⟩
    · intro w hw
      exact hlt (h.waiters w (hwaiters ▸ hw))
    · intro v hv
      rcases List.mem_append.mp (hsame ▸ hv) with hv | hv
      · exact hlt (h.known v hv)
      · rw [List.mem_singleton.mp hv, hlength, h.births]
        exact Nat.lt_succ_self _
    · intro v hv
      rcases List.mem_append.mp (hsame ▸ hv) with hv | hv
      · exact hsettled v hv
      · right
        rw [List.mem_singleton.mp hv, ← h.births, hlast, hsocket]
    · have hnone : (t.call c).waiters = t.waiters ++ [] := by
        rw [List.append_nil]
        exact hwaiters
      rw [Session.queue_of_append h hbirths [] hnone, pushed, if_pos hsocket]
      rfl

omit [DecidableEq α] in
theorem pushed_cons (socket : Option Nat) (c : Call α) (cs : List (Call α)) :
    pushed socket (c :: cs) = pushed socket [c] ++ pushed socket cs := by
  unfold pushed
  split
  · rfl
  · rw [List.replicate_append_replicate]
    simp

omit [DecidableEq α] in
theorem Session.Wf.foldl_call (cs : List (Call α)) :
    ∀ {t : Session α}, t.Wf → t.Called cs (cs.foldl Session.call t) := by
  induction cs with
  | nil =>
    intro t h
    refine ⟨h, rfl, rfl, rfl, rfl, rfl, rfl, rfl, by simp, ?_⟩
    simp [pushed]
  | cons c cs ih =>
    intro t h
    obtain ⟨hwf, hsocket, hopened, hevents, hbuf, horigins, hgiven, hparsed, hbirths, hqueue⟩ :=
      h.call c
    obtain ⟨hwf', hsocket', hopened', hevents', hbuf', horigins', hgiven', hparsed', hbirths',
      hqueue'⟩ := ih hwf
    refine ⟨hwf', hsocket'.trans hsocket, hopened'.trans hopened, hevents'.trans hevents,
      hbuf'.trans hbuf, horigins'.trans horigins, hgiven'.trans hgiven, hparsed'.trans hparsed,
      ?_, ?_⟩
    · rw [List.foldl_cons, hbirths', hbirths, hsocket, List.append_assoc, List.length_cons,
        List.replicate_succ]
      rfl
    · rw [List.foldl_cons, hqueue', hqueue, hsocket, List.append_assoc, ← pushed_cons]

/-! ### One line -/

/-- The session once the line `raw` is off the buffer. -/
def Session.cut (s : Nat) (raw : List α) (t : Session α) : Session α :=
  { t with
    buf := t.buf.drop (raw.length + 1)
    origins := t.origins.drop (raw.length + 1)
    parsed := t.parsed ++ [(s, t.origins.take raw.length)] }

omit [DecidableEq α] in
theorem Session.Wf.cut {t : Session α} (h : t.Wf) (s : Nat) (raw : List α) : (t.cut s raw).Wf := by
  refine ⟨h.connected, h.births, ?_, h.waiters, h.given, h.known, h.settled⟩
  simp [Session.cut, h.origins]

theorem Session.takeLine_event (react : Nat → List (Call α)) (s : Nat) (t : Session α)
    {raw : List α} (hevent : evtTag <+: chomp (lit '\r') raw) :
    t.takeLine react s raw =
      (react t.events.length).foldl Session.call
        { t.cut s raw with events := t.events ++ [chomp (lit '\r') raw] } := by
  unfold Session.takeLine
  dsimp only
  rw [if_pos hevent]
  rfl

theorem Session.takeLine_reply (react : Nat → List (Call α)) (s : Nat) (t : Session α)
    {raw : List α} (hevent : ¬ evtTag <+: chomp (lit '\r') raw) :
    t.takeLine react s raw =
      match t.waiters with
      | [] => t.cut s raw
      | w :: waiters =>
        { t.cut s raw with
          toTransport := Transport.resolve w (chomp (lit '\r') raw)
            { t.toTransport with waiters := waiters }
          given := t.given ++ [(w.promise, s)] } := by
  unfold Session.takeLine
  dsimp only
  rw [if_neg hevent]
  rfl

omit [DecidableEq α] in
/-- Promises of waiters are settled, and what settles them is noted. -/
theorem Session.Wf.settle {t t' : Session α} (h : t.Wf) {gs : List (Nat × Nat)}
    (hconnected : t'.connected = t'.socket.isSome) (hcalls : t'.calls = t.calls)
    (hbirths : t'.births = t.births) (horigins : t'.origins.length = t'.buf.length)
    (hwaiters : ∀ w ∈ t'.waiters, w ∈ t.waiters) (hgiven : t'.given = t.given ++ gs)
    (hgs : ∀ g ∈ gs, g.1 < t.births.length)
    (hsettled : ∀ v ∈ t'.settled, v ∈ t.settled ∨ ∃ s, (v.1, s) ∈ gs) : t'.Wf := by
  have hbirth : ∀ p, t'.birth p = t.birth p := fun p => by rw [Session.birth, hbirths]; rfl
  constructor
  · exact hconnected
  · rw [hbirths, hcalls, h.births]
  · exact horigins
  · intro w hw
    rw [hbirths]
    exact h.waiters w (hwaiters w hw)
  · intro g hg
    rw [hgiven, List.mem_append] at hg
    rw [hbirths]
    exact hg.elim (h.given g) (hgs g)
  · intro v hv
    rw [hbirths]
    rcases hsettled v hv with hv | ⟨s, hs⟩
    · exact h.known v hv
    · exact hgs (v.1, s) hs
  · intro v hv
    rw [hbirth, hgiven]
    rcases hsettled v hv with hv | ⟨s, hs⟩
    · rcases h.settled v hv with ⟨s, hs⟩ | hnone
      · exact Or.inl ⟨s, List.mem_append_left _ hs⟩
      · exact Or.inr hnone
    · exact Or.inl ⟨s, List.mem_append_right _ hs⟩

omit [DecidableEq α] in
/-- A line that reaches a waiter is noted with its promise. -/
theorem Session.Wf.give {t : Session α} (h : t.Wf) (s : Nat) (line : List α) {w : Waiter}
    {waiters : List Waiter} (hwaiters : t.waiters = w :: waiters) :
    ({ t with
        toTransport := Transport.resolve w line { t.toTransport with waiters := waiters }
        given := t.given ++ [(w.promise, s)] } : Session α).Wf := by
  obtain ⟨hconnected, hcalls, hsame, -, -⟩ :=
    Transport.resolve_spec w line { t.toTransport with waiters := waiters }
  have hsettled := Transport.resolve_settled w line { t.toTransport with waiters := waiters }
  refine h.settle (hconnected.trans h.connected) hcalls rfl h.origins (fun v hv => ?_) rfl
    (fun g hg => ?_) (fun v hv => ?_)
  · replace hv : v ∈ (Transport.resolve w line { t.toTransport with waiters := waiters }).waiters :=
      hv
    rw [hsame] at hv
    rw [hwaiters]
    exact List.mem_cons_of_mem _ hv
  · rw [List.mem_singleton.mp hg]
    exact h.waiters w (by simp [hwaiters])
  · refine (hsettled v hv).imp_right fun hv => ⟨s, ?_⟩
    rw [hv]
    exact List.mem_singleton_self _

def Session.GivenOwn (t : Session α) : Prop := ∀ g ∈ t.given, Own g.2 (t.birth g.1)

/-- The sockets of the units of each line, when `origins` has those of the text. -/
def slices (origins : List Nat) : List (List α) → List (List Nat)
  | [] => []
  | raw :: raws => origins.take raw.length :: slices (origins.drop (raw.length + 1)) raws

/-- What one line does to the promises. -/
theorem Session.Wf.takeLine {t : Session α} (h : t.Wf) (react : Nat → List (Call α)) (s : Nat)
    (raw : List α) (raws : List (List α)) :
    (t.takeLine react s raw).Wf ∧ (t.takeLine react s raw).socket = t.socket ∧
      (t.takeLine react s raw).origins = t.origins.drop (raw.length + 1) ∧
      (t.takeLine react s raw).parsed = t.parsed ++ [(s, t.origins.take raw.length)] ∧
      ((t.takeLine react s raw).GivenOwn ∧
          (∀ b ∈ addressees react t.socket (t.takeLine react s raw).events.length
            (t.takeLine react s raw).queue (raws.map (chomp (lit '\r'))), Own s b) ↔
        t.GivenOwn ∧ ∀ b ∈ addressees react t.socket t.events.length t.queue
          ((raw :: raws).map (chomp (lit '\r'))), Own s b) := by
  have hcut := h.cut s raw
  by_cases hevent : evtTag <+: chomp (lit '\r') raw
  · have hnoted : Session.Wf { t.cut s raw with events := t.events ++ [chomp (lit '\r') raw] } :=
      ⟨hcut.connected, hcut.births, hcut.origins, hcut.waiters, hcut.given, hcut.known,
        hcut.settled⟩
    have hcalled := hnoted.foldl_call (react t.events.length)
    rw [← Session.takeLine_event react s t hevent] at hcalled
    refine ⟨hcalled.wf, hcalled.socket, hcalled.origins, hcalled.parsed, ?_⟩
    have hgiven := Session.given_own_iff [] hnoted hcalled.births
      (hcalled.given.trans (List.append_nil _).symm) (by simp)
    have hevents : (t.takeLine react s raw).events.length = t.events.length + 1 := by
      rw [hcalled.events, List.length_append]
      rfl
    have hqueue : Session.queue { t.cut s raw with events := t.events ++ [chomp (lit '\r') raw] } =
      t.queue := rfl
    rw [List.map_cons, addressees_event _ _ _ _ _ hevent, hevents, hcalled.queue, hqueue,
      Session.GivenOwn, hgiven]
    exact ⟨fun h => ⟨h.1.1, h.2⟩, fun h => ⟨⟨h.1, by simp⟩, h.2⟩⟩
  · rw [Session.takeLine_reply react s t hevent, List.map_cons]
    cases hwaiters : t.waiters with
    | nil =>
      have hqueue : t.queue = [] := by rw [Session.queue, hwaiters]; rfl
      have hqueue' : (t.cut s raw).queue = [] := hqueue
      refine ⟨hcut, rfl, rfl, rfl, ?_⟩
      dsimp only
      rw [hqueue, hqueue', addressees_unawaited _ _ _ _ hevent]
      exact Iff.rfl
    | cons w waiters =>
      have hqueue : t.queue = t.birth w.promise :: waiters.map fun w => t.birth w.promise := by
        rw [Session.queue, hwaiters]
        rfl
      obtain ⟨-, -, hrest, hevents, -⟩ := Transport.resolve_spec w (chomp (lit '\r') raw)
        { t.toTransport with waiters := waiters }
      refine ⟨hcut.give s (chomp (lit '\r') raw) hwaiters, rfl, rfl, rfl, ?_⟩
      dsimp only
      generalize hgive : ({ t.cut s raw with
        toTransport := Transport.resolve w (chomp (lit '\r') raw)
          { t.toTransport with waiters := waiters }
        given := t.given ++ [(w.promise, s)] } : Session α) = t'
      have hbirths : t'.births = t.births ++ [] := by
        rw [← hgive, List.append_nil]
        rfl
      have hgiven : t'.given = t.given ++ [(w.promise, s)] := by rw [← hgive]
      have hqueue' : t'.queue = waiters.map fun w => t.birth w.promise := by
        rw [← hgive, Session.queue, hrest]
        rfl
      have hw : ∀ g ∈ [(w.promise, s)], g.1 < t.births.length := by
        intro g hg
        rw [List.mem_singleton.mp hg]
        exact h.waiters w (by simp [hwaiters])
      rw [Session.GivenOwn, Session.given_own_iff _ h hbirths hgiven hw, hqueue, hqueue', hevents,
        addressees_reply _ _ _ _ _ _ hevent, List.forall_mem_singleton, List.forall_mem_cons,
        and_assoc]
      exact Iff.rfl

/-- What the lines of a chunk do to the promises and to the lines parsed. -/
theorem Session.Wf.foldl_takeLine (react : Nat → List (Call α)) (s : Nat)
    (raws : List (List α)) :
    ∀ {t : Session α}, t.Wf →
      (raws.foldl (Session.takeLine react s) t).Wf ∧
      (raws.foldl (Session.takeLine react s) t).parsed =
        t.parsed ++ (slices t.origins raws).map (s, ·) ∧
      ((raws.foldl (Session.takeLine react s) t).GivenOwn ↔
        t.GivenOwn ∧ ∀ b ∈ addressees react t.socket t.events.length t.queue
          (raws.map (chomp (lit '\r'))), Own s b) := by
  induction raws with
  | nil =>
    intro t h
    refine ⟨h, by simp [slices], ?_⟩
    rw [List.map_nil, addressees]
    simp
  | cons raw raws ih =>
    intro t h
    obtain ⟨hwf, hsocket, horigins, hparsed, hgiven⟩ := h.takeLine react s raw raws
    obtain ⟨hwf', hparsed', hgiven'⟩ := ih hwf
    refine ⟨hwf', ?_, ?_⟩
    · rw [List.foldl_cons, hparsed', hparsed, horigins, slices, List.map_cons, List.append_assoc]
      rfl
    · rw [List.foldl_cons, hgiven', hsocket, hgiven]

/-! ### The units of a line -/

omit [DecidableEq α] [Alphabet α] in
theorem mem_slices_replicate {s : Nat} (raws : List (List α)) :
    ∀ {n : Nat} {o : List Nat}, o ∈ slices (List.replicate n s) raws → ∀ j ∈ o, j = s := by
  induction raws with
  | nil =>
    intro n o ho
    cases ho
  | cons raw raws ih =>
    intro n o ho j hj
    rcases List.mem_cons.mp ho with rfl | ho
    · exact List.eq_of_mem_replicate (List.mem_of_mem_take hj)
    · rw [List.drop_replicate] at ho
      exact ih ho j hj

/-- The first line that a chunk ends has the whole buffer in front; the lines behind it
are all of the chunk. -/
theorem slices_own_iff (s : Nat) (chunk : List α) {buf : List α} {origins : List Nat}
    (horigins : origins.length = buf.length) (hbuf : lit '\n' ∉ buf) :
    (∀ o ∈ slices (origins ++ List.replicate chunk.length s) (rawLines (buf ++ chunk)),
        ∀ j ∈ o, j = s) ↔
      (lit '\n' ∈ chunk → ∀ j ∈ origins, j = s) := by
  by_cases hchunk : lit '\n' ∈ chunk
  · obtain ⟨front, back, rfl, hfront⟩ := List.eq_append_cons_of_mem hchunk
    have hline : lit '\n' ∉ buf ++ front := by simp [hbuf, hfront]
    have hfirst : (origins ++ List.replicate (front ++ lit '\n' :: back).length s).take
        (buf ++ front).length = origins ++ List.replicate front.length s := by
      rw [List.length_append, ← horigins, List.take_length_add_append, List.take_replicate]
      congr 2
      simp
    rw [← List.append_assoc, rawLines_line hline, slices, hfirst]
    constructor
    · intro h _ j hj
      exact h _ List.mem_cons_self j (List.mem_append_left _ hj)
    · intro h o ho j hj
      rcases List.mem_cons.mp ho with rfl | ho
      · rcases List.mem_append.mp hj with hj | hj
        · exact h hchunk j hj
        · exact List.eq_of_mem_replicate hj
      · have hdrop : (origins ++ List.replicate (front ++ lit '\n' :: back).length s).drop
            ((buf ++ front).length + 1) = List.replicate back.length s := by
          rw [List.drop_append, List.drop_eq_nil_of_le (by simp [horigins]; omega),
            List.drop_replicate, List.nil_append]
          congr 1
          simp [horigins]
          omega
        rw [hdrop] at ho
        exact mem_slices_replicate _ ho j hj
  · rw [rawLines_of_not_mem (by simp [hbuf, hchunk]), slices]
    simp [hchunk]

/-! ### Steps -/

omit [DecidableEq α] in
theorem Session.Wf.failAll {t : Session α} (h : t.Wf) (s : Nat) (err : TransportError) :
    (t.failAll s err).Wf ∧ ((t.failAll s err).GivenOwn ↔ t.GivenOwn ∧ ∀ b ∈ t.queue, Own s b) := by
  obtain ⟨hconnected, hcalls, hwaiters, -, hsettled⟩ :=
    Transport.foldl_reject_spec err t.waiters { t.toTransport with waiters := [] }
  have hgs : ∀ g ∈ t.waiters.map fun w => (w.promise, s), g.1 < t.births.length := by
    intro g hg
    obtain ⟨w, hw, rfl⟩ := List.mem_map.mp hg
    exact h.waiters w hw
  constructor
  · refine h.settle (hconnected.trans h.connected) hcalls rfl h.origins (fun w hw => ?_) rfl hgs
      (fun v hv => ?_)
    · have hnil : (t.failAll s err).waiters = [] := hwaiters
      rw [hnil] at hw
      cases hw
    · refine (hsettled v hv).imp_right fun hv => ⟨s, ?_⟩
      obtain ⟨w, hw, heq⟩ := List.mem_map.mp hv
      rw [← heq]
      exact List.mem_map.mpr ⟨w, hw, rfl⟩
  · have hbirths : (t.failAll s err).births = t.births ++ [] := (List.append_nil _).symm
    rw [Session.GivenOwn, Session.given_own_iff _ h hbirths rfl hgs, Session.queue,
      List.forall_mem_map, List.forall_mem_map]
    exact Iff.rfl

/-- The handlers have taken every complete line. -/
structure Session.Idle (t : Session α) : Prop where
  wf : t.Wf
  buf : lit '\n' ∉ t.buf

/-- **A step keeps the promises to their sockets if and only if it meets the condition.** -/
theorem Session.step_isolated_iff (react : Nat → List (Call α)) {t : Session α} (h : t.Idle)
    (st : SocketStep α) :
    (t.step react st).Idle ∧ ((t.step react st).Isolated ↔ t.Isolated ∧ t.Admits react st) := by
  obtain ⟨hwf, hbuf⟩ := h
  -- the field `settled` holds of every session
  have isolated_iff : ∀ {t : Session α}, t.Wf →
      (t.Isolated ↔ t.GivenOwn ∧ ∀ l ∈ t.parsed, 0 < l.1 → ∀ j ∈ l.2, j = l.1) :=
    fun h => ⟨fun hi => ⟨hi.given, hi.lines⟩, fun hi => ⟨hi.1, h.settled, hi.2⟩⟩
  cases st with
  | connect =>
    have hnext : (t.step react .connect).Wf :=
      ⟨rfl, hwf.births, hwf.origins, hwf.waiters, hwf.given, hwf.known, hwf.settled⟩
    refine ⟨⟨hnext, hbuf⟩, ?_⟩
    rw [isolated_iff hnext, isolated_iff hwf]
    exact (and_iff_left trivial).symm
  | close =>
    have hnext : (t.step react .close).Wf :=
      ⟨rfl, hwf.births, hwf.origins, hwf.waiters, hwf.given, hwf.known, hwf.settled⟩
    refine ⟨⟨hnext, hbuf⟩, ?_⟩
    rw [isolated_iff hnext, isolated_iff hwf]
    exact (and_iff_left trivial).symm
  | call c =>
    have hcalled := hwf.call c
    refine ⟨⟨hcalled.wf, hbuf⟩, ?_⟩
    have hgiven := Session.given_own_iff [] hwf hcalled.births
      (hcalled.given.trans (List.append_nil _).symm) (by simp)
    rw [Session.step, isolated_iff hcalled.wf, isolated_iff hwf, Session.GivenOwn, hgiven]
    exact ⟨fun h => ⟨⟨h.1.1, h.2⟩, trivial⟩, fun h => ⟨⟨h.1.1, by simp⟩, h.1.2⟩⟩
  | data s chunk =>
    have hwf₀ : Session.Wf { t with
        buf := t.buf ++ chunk, origins := t.origins ++ List.replicate chunk.length s } :=
      ⟨hwf.connected, hwf.births, by simp [hwf.origins], hwf.waiters, hwf.given, hwf.known,
        hwf.settled⟩
    obtain ⟨hnext, hparsed, hgiven⟩ := hwf₀.foldl_takeLine react s (rawLines (t.buf ++ chunk))
    have hdrained : lit '\n' ∉ (t.step react (.data s chunk)).buf := by
      have hdrain := (TcpTransport.drain_rule (P := fun _ => True) react (fun _ _ _ _ _ => trivial)
        { t.toTcpTransport with buf := t.buf ++ chunk } trivial).2
      have htransport := Session.step_transport react t (.data s chunk)
      rw [htransport]
      exact hdrain
    refine ⟨⟨hnext, hdrained⟩, ?_⟩
    have hlines := slices_own_iff s chunk hwf.origins hbuf
    rw [Session.step, Session.onData, isolated_iff hnext, isolated_iff hwf, hgiven, hparsed]
    constructor
    · rintro ⟨⟨hown, hreach⟩, hall⟩
      refine ⟨⟨hown, fun l hl => hall l (List.mem_append_left _ hl)⟩, hreach, fun hlf hpos => ?_⟩
      refine hlines.mp (fun o ho => ?_) hlf
      exact hall (s, o) (List.mem_append_right _ (List.mem_map.mpr ⟨o, ho, rfl⟩)) hpos
    · rintro ⟨⟨hown, hall⟩, hreach, horigins⟩
      refine ⟨⟨hown, hreach⟩, fun l hl hpos => ?_⟩
      rcases List.mem_append.mp hl with hl | hl
      · exact hall l hl hpos
      · obtain ⟨o, ho, rfl⟩ := List.mem_map.mp hl
        exact hlines.mpr (fun hlf => horigins hlf hpos) o ho
  | error s message =>
    obtain ⟨hnext, hgiven⟩ := hwf.failAll s (.socketError message)
    refine ⟨⟨hnext, hbuf⟩, ?_⟩
    rw [Session.step, isolated_iff hnext, isolated_iff hwf, hgiven]
    exact and_right_comm
  | closed s =>
    obtain ⟨hnext, hgiven⟩ := hwf.failAll s .connectionClosed
    refine ⟨⟨hnext, hbuf⟩, ?_⟩
    rw [Session.step, isolated_iff hnext, isolated_iff hwf, hgiven]
    exact and_right_comm

/-! ### Runs -/

theorem Session.run_concat (react : Nat → List (Call α)) (steps : List (SocketStep α))
    (st : SocketStep α) :
    Session.run react (steps ++ [st]) = (Session.run react steps).step react st := by
  rw [Session.run, List.foldl_append]
  rfl

theorem Session.run_idle (react : Nat → List (Call α)) (steps : List (SocketStep α)) :
    (Session.run react steps).Idle := by
  induction steps using List.reverseRecOn with
  | nil =>
    refine ⟨⟨rfl, rfl, rfl, ?_, ?_, ?_, ?_⟩, ?_⟩ <;>
      simp [Session.run, Session.created, TcpTransport.created]
  | append_singleton steps st ih =>
    rw [Session.run_concat]
    exact (Session.step_isolated_iff react ih st).1

omit [DecidableEq α] in
theorem Session.created_isolated : (Session.created : Session α).Isolated := by
  constructor <;> simp [Session.created, TcpTransport.created]

/-- **Sessions are isolated exactly when every step of the run meets the condition.** Every
state of the run keeps each promise to its socket and each line to one socket. -/
theorem Session.run_isolated_iff (react : Nat → List (Call α)) (steps : List (SocketStep α)) :
    (∀ done, done <+: steps → (Session.run react done).Isolated) ↔
      ∀ done st, done ++ [st] <+: steps → (Session.run react done).Admits react st := by
  have step : ∀ done st, (Session.run react (done ++ [st])).Isolated ↔
      (Session.run react done).Isolated ∧ (Session.run react done).Admits react st := by
    intro done st
    rw [Session.run_concat]
    exact (Session.step_isolated_iff react (Session.run_idle react done) st).2
  constructor
  · intro h done st hprefix
    exact ((step done st).mp (h _ hprefix)).2
  · intro h done
    induction done using List.reverseRecOn with
    | nil => exact fun _ => Session.created_isolated
    | append_singleton done st ih =>
      intro hprefix
      have hshorter : done <+: steps := (List.prefix_append _ _).trans hprefix
      exact (step done st).mpr ⟨ih hshorter, h done st hprefix⟩

/-- The close of the old socket comes late and rejects a request on the new one; and what
was left of an old line stands in front of the first new one. -/
theorem late_close_rejects :
    let ping : SocketStep UInt16 := .call (.send ⟨text "PING", by decide⟩)
    let closed := [.connect, .close, .connect, ping, .closed 0]
    let leftover := [.connect, .data 0 (text "+OK 1"), .close, .connect, ping,
      .data 1 (text "+OK PONG\r\n")]
    ((Session.run (fun _ => []) closed).settled = [(0, .rejected .connectionClosed)] ∧
      (Session.run (fun _ => []) closed).birth 0 = some 1 ∧
      ¬ (Session.run (fun _ => []) closed).Isolated) ∧
    ((Session.run (fun _ => []) leftover).settled = [(0, .line (text "+OK 1+OK PONG"))] ∧
      ¬ (Session.run (fun _ => []) leftover).Isolated) := by
  intro ping closed leftover
  have hgiven : (0, 0) ∈ (Session.run (fun _ => []) closed).given := by decide +kernel
  have hbirth : (Session.run (fun _ => []) closed).birth 0 = some 1 := by decide +kernel
  have hparsed : (1, List.replicate 5 0 ++ List.replicate 9 1) ∈
      (Session.run (fun _ => []) leftover).parsed := by decide +kernel
  refine ⟨⟨by decide +kernel, hbirth, fun hisolated => ?_⟩, by decide +kernel,
    fun hisolated => ?_⟩
  · exact absurd (hisolated.given _ hgiven 1 hbirth (by decide)) (by decide)
  · exact absurd (hisolated.lines _ hparsed (by decide) 0 (by simp)) (by decide)

end CuttleDB.Js
