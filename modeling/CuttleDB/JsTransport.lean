import CuttleDB.Lib.Framing
import CuttleDB.Lib.Pipeline
import CuttleDB.Wire

/-!
# The JavaScript transports

`TcpTransport` and `WsTransport` of the JavaScript client. Both keep a queue of
waiters, one for each reply still to come, and match replies to waiters by
position only. They differ in what they write (a text with line feeds, or one
frame for each command) and in how they find the lines in what arrives.

A waiter is the pair of closures of the source: the promise it belongs to, and for
a batch the number of replies at which its `out` array is complete. Listeners are
given by the calls they make: `react k` is what they do on the `k`-th event.
-/

namespace CuttleDB.Js

open Framing

variable {α : Type} [DecidableEq α] [Alphabet α]

/-- A command of one line. -/
abbrev Command (α : Type) [Alphabet α] := { t : List α // lit '\n' ∉ t }

inductive Call (α : Type) [Alphabet α] where
  | send (cmd : Command α)
  | sendBatch (cmds : List (Command α))
deriving DecidableEq

def Call.commands : Call α → List (Command α)
  | .send cmd => [cmd]
  | .sendBatch cmds => cmds

inductive TransportError where
  | notConnected                          -- "not connected"
  | connectionClosed                      -- "connection closed"
  | webSocketClosed                       -- "WebSocket closed"
  | socketError (message : List Char)     -- the socket's own error
deriving DecidableEq

/-- How a promise is settled. -/
inductive Settlement (α : Type) where
  | line (line : List α)
  | lines (out : List (List α))
  | rejected (err : TransportError)
deriving DecidableEq

structure Waiter where
  promise : Nat
  batch : Option Nat
deriving DecidableEq

/-- The state both transports share. The promises are numbered by their calls;
`outs` has the `out` array of each, `settled` every `resolve` and `reject`. -/
structure Transport (α ω : Type) [Alphabet α] where
  connected : Bool
  calls : List (Call α)
  waiters : List Waiter
  outs : List (List (List α))
  settled : List (Nat × Settlement α)
  events : List (List α)
  sent : List ω

variable {ω : Type}

/-- `send` and `sendBatch`, with what they write to the socket. -/
def Transport.call (write : Call α → List ω) (t : Transport α ω) (c : Call α) :
    Transport α ω :=
  let p := t.calls.length
  let t := { t with calls := t.calls ++ [c], outs := t.outs ++ [[]] }
  if ¬ t.connected then { t with settled := t.settled ++ [(p, .rejected .notConnected)] }
  else
    match c with
    | .send _ => { t with waiters := t.waiters ++ [⟨p, none⟩], sent := t.sent ++ write c }
    | .sendBatch cmds =>
      { t with
        waiters := t.waiters ++ List.replicate cmds.length ⟨p, some cmds.length⟩
        sent := t.sent ++ write c }

/-- `w.resolve(line)` -/
def Transport.resolve (w : Waiter) (line : List α) (t : Transport α ω) : Transport α ω :=
  match w.batch with
  | none => { t with settled := t.settled ++ [(w.promise, .line line)] }
  | some length =>
    let out := (t.outs[w.promise]?.getD []) ++ [line]
    let t := { t with outs := t.outs.set w.promise out }
    if out.length = length then { t with settled := t.settled ++ [(w.promise, .lines out)] }
    else t

def evtTag : List α := ">EVT ".toList.map lit

/-- What a transport does with one line: an event goes to the listeners, any other
line to the first waiter. -/
def Transport.dispatch (write : Call α → List ω) (react : Nat → List (Call α))
    (t : Transport α ω) (line : List α) : Transport α ω :=
  if evtTag <+: line then
    (react t.events.length).foldl (Transport.call write) { t with events := t.events ++ [line] }
  else
    match t.waiters with
    | [] => t
    | w :: waiters => Transport.resolve w line { t with waiters := waiters }

/-- `w.reject(err)`. A promise that is settled stays as it is. -/
def Transport.reject (err : TransportError) (t : Transport α ω) (w : Waiter) : Transport α ω :=
  if w.promise ∈ t.settled.map Prod.fst then t
  else { t with settled := t.settled ++ [(w.promise, .rejected err)] }

/-- `_failAll` -/
def Transport.failAll (err : TransportError) (t : Transport α ω) : Transport α ω :=
  t.waiters.foldl (Transport.reject err) { t with waiters := [] }

/-- `close`, which ends the socket and drops it -/
def Transport.close (t : Transport α ω) : Transport α ω := { t with connected := false }

/-! ### TCP -/

/-- `cmd + "\n"`, or `cmds.join("\n") + "\n"` -/
def tcpWrite : Call α → List α
  | .send cmd => cmd.1 ++ [lit '\n']
  | .sendBatch cmds => [lit '\n'].intercalate (cmds.map Subtype.val) ++ [lit '\n']

structure TcpTransport (α : Type) [Alphabet α] extends Transport α α where
  buf : List α

/-- The loop of `_onData`. -/
def TcpTransport.drain (react : Nat → List (Call α)) (t : TcpTransport α) : TcpTransport α :=
  match _hcut : cutLine (lit '\n') t.buf with
  | none => t
  | some (line, rest) =>
    drain react
      { toTransport := t.toTransport.dispatch tcpWrite react (chomp (lit '\r') line), buf := rest }
termination_by t.buf.length
decreasing_by
  rw [(eq_of_cutLine _hcut).1]
  simp
  omega

/-- `_onData` -/
def TcpTransport.onData (react : Nat → List (Call α)) (chunk : List α) (t : TcpTransport α) :
    TcpTransport α :=
  TcpTransport.drain react { t with buf := t.buf ++ chunk }

def TcpTransport.call (t : TcpTransport α) (c : Call α) : TcpTransport α :=
  { t with toTransport := t.toTransport.call tcpWrite c }

/-! ### WebSocket -/

/-- One command for each frame. -/
def wsWrite : Call α → List (List α)
  | .send cmd => [cmd.1]
  | .sendBatch cmds => cmds.map Subtype.val

abbrev WsTransport (α : Type) [Alphabet α] := Transport α (List α)

/-- `_onMessage` -/
def WsTransport.onMessage (react : Nat → List (Call α)) (text : List α) (t : WsTransport α) :
    WsTransport α :=
  (text.splitOn (lit '\n')).foldl (fun t raw =>
    let line := chomp (lit '\r') raw
    if line = [] then t else t.dispatch wsWrite react line) t

/-! ### The server -/

/-- A line of the server: its text, and whether CR stands before the LF that ends it. -/
structure Line (α : Type) [Alphabet α] where
  text : List α
  crlf : Bool
  ne_nil : text ≠ []
  lf_not_mem : lit '\n' ∉ text
  cr_not_last : text.getLast? ≠ some (lit '\r')

def Line.IsEvent (l : Line α) : Prop := evtTag <+: l.text

instance (l : Line α) : Decidable l.IsEvent := inferInstanceAs (Decidable (_ <+: _))

abbrev EventLine (α : Type) [DecidableEq α] [Alphabet α] := { l : Line α // l.IsEvent }
abbrev ReplyLine (α : Type) [DecidableEq α] [Alphabet α] := { l : Line α // ¬ l.IsEvent }

/-- A line without its LF. -/
def Line.raw (l : Line α) : List α := l.text ++ if l.crlf then [lit '\r'] else []

def render (lines : List (Line α)) : List α := lines.flatMap fun l => l.raw ++ [lit '\n']

/-- The texts of the replies among the lines. -/
def replies (lines : List (Line α)) : List (List α) :=
  (lines.filter fun l => ¬ l.IsEvent).map Line.text

def events (lines : List (Line α)) : List (List α) :=
  (lines.filter fun l => l.IsEvent).map Line.text

/-- `-ERR empty` -/
def errEmpty : Line α where
  text := "-ERR empty".toList.map lit
  crlf := true
  ne_nil := by simp
  lf_not_mem := by
    simp only [String.reduceToList, List.map_cons, List.map_nil, List.mem_cons,
      List.not_mem_nil, or_false, not_or]
    refine ⟨?_, ?_, ?_, ?_, ?_, ?_, ?_, ?_, ?_, ?_⟩ <;> exact lit_ne (by decide)
  cr_not_last := by
    simp only [String.reduceToList, List.map_cons, List.map_nil]
    intro h
    have hy : (lit 'y' : α) ≠ lit '\r' := lit_ne (by decide)
    exact hy (Option.some.inj h)

omit [DecidableEq α] in
theorem errEmpty_not_isEvent : ¬ (errEmpty : Line α).IsEvent := by
  intro h
  have hhead : (lit '>' : α) = lit '-' := by
    obtain ⟨rest, hrest⟩ := h
    exact (List.cons.inj hrest).1
  exact lit_ne (by decide) hhead

/-- The server's answer to a command line: `-ERR empty` to an empty one. -/
def answerTo (command : List α) (reply : ReplyLine α) : ReplyLine α :=
  if chomp (lit '\r') command = [] then ⟨errEmpty, errEmpty_not_isEvent⟩ else reply

end CuttleDB.Js
