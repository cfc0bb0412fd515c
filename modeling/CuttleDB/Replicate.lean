import CuttleDB.Lib.Interaction
import CuttleDB.Table
import CuttleDB.Wire

/-!
# The replicator

The worker that tails the log of a primary and replays its entries into replicas, as
a program of calls, and the servers and the checkpoint file as the system that answers
them. Other clients change the primary between any two calls. A call of a server may
fail, with or without having been carried out; an exception that the worker does not
catch, or a signal, ends it through `close`. Warnings on the standard error are left
out.

The replay is event by event: an insert entry is replayed with the row that is in its
slot *now*, a delete entry with its slot, an update entry not at all.
-/

namespace CuttleDB.Replicate

open Interaction Py SwapRemove

/-- The row part of the command that `insert` sends for values read by `get`. -/
def insertRow (values : List Text) : Text :=
  [','].intercalate (values.map fun v => encodeValue (.str v))

/-! ### The worker -/

inductive Call where
  | running
  | log (t : TableId) (since : Int)
  | get (t : TableId) (rowId : Int)
  | insert (replica : Nat) (t : TableId) (row : Text)
  | delete (replica : Nat) (t : TableId) (rowId : Int)
  | replayed (t : TableId) (rowId : Int) (op : Text)  -- `_replay_event` returns
  | cursor (t : TableId)                              -- `self.cursors[key]`
  | store (t : TableId) (cursor : Int)                -- `self.cursors[key] = cursor`
  | checkpointDue                                     -- `now >= next_checkpoint_t`
  | saveCheckpoint
deriving DecidableEq, Repr

abbrev Call.Answer : Call → Type
  | .running => Bool
  | .log _ _ => Except PyError Text
  | .get _ _ => Except PyError Text
  | .insert _ _ _ => Except PyError Int
  | .delete _ _ _ => Except PyError Bool
  | .replayed _ _ _ => Unit
  | .cursor _ => Int
  | .store _ _ => Unit
  | .checkpointDue => Bool
  | .saveCheckpoint => Unit

/-- How the process ends. -/
inductive Exit where
  | returned
  | raised (e : PyError)
deriving DecidableEq, Repr

abbrev Worker (α : Type) : Type := Prog Call Call.Answer Exit α

abbrev perform (c : Call) : Worker c.Answer := Prog.perform c

/-- `try` around one call, with a handler for `CuttleDBError`. -/
def attempt {α β : Type} (answer : Except PyError α) (body : α → Worker β) (handler : Worker β) :
    Worker β :=
  match answer with
  | .ok a => body a
  | .error (.cuttleDBError _) => handler
  | .error e => .raise (.raised e)

structure Replicator where
  replicas : Nat
  tables : List TableId
deriving DecidableEq, Repr

def Replicator.insertInto (t : TableId) (row : List Text) (replica : Nat) : Worker Unit := do
  let answer ← perform (.insert replica t (insertRow row))
  attempt answer (fun _ => pure ()) (pure ())

def Replicator.deleteFrom (t : TableId) (rowId : Int) (replica : Nat) : Worker Unit := do
  let answer ← perform (.delete replica t rowId)
  attempt answer (fun _ => pure ()) (pure ())

/-- What `_replay_event` does with each kind of entry. -/
def Replicator.replayOp (r : Replicator) (t : TableId) (rowId : Int) (op : Text) :
    Worker Unit :=
  if op = ['I'] then do
    let answer ← perform (.get t rowId)
    attempt answer
      (fun body => (List.range r.replicas).foldlM (fun _ => insertInto t (splitWireRow body)) ())
      (pure ())
  else if op = ['D'] then (List.range r.replicas).foldlM (fun _ => deleteFrom t rowId) ()
  else pure ()

/-- `_replay_event`, with a note of what it was called for when it returns -/
def Replicator.replayEvent (r : Replicator) (t : TableId) (rowId : Int) (op : Text) :
    Worker Unit := do
  r.replayOp t rowId op
  perform (.replayed t rowId op)

/-- The body of the loop over the entries in `replay_once`. -/
def Replicator.replayEntry (r : Replicator) (t : TableId) (total : Nat) (event : LogEntry) :
    Worker Nat := do
  r.replayEvent t event.rowId event.op
  pure (total + 1)

/-- The body of the loop over the tables in `replay_once`. -/
def Replicator.replayTable (r : Replicator) (total : Nat) (t : TableId) : Worker Nat := do
  let since ← perform (.cursor t)
  let answer ← perform (.log t since)
  attempt (answer >>= parseLogIn none)
    (fun (cursor, events) => do
      let total ← events.foldlM (r.replayEntry t) total
      perform (.store t cursor)
      pure total)
    (pure total)

/-- `replay_once` -/
def Replicator.replayOnce (r : Replicator) : Worker Nat := r.tables.foldlM r.replayTable 0

/-- One turn of the loop in `run`. -/
def Replicator.turn (r : Replicator) : Worker Unit := do
  let running ← perform .running
  if running then do
    let _ ← r.replayOnce
    let due ← perform .checkpointDue
    if due then perform .saveCheckpoint else pure ()
  else .raise .returned

/-- One turn of `run` as `main` calls it, with `close` on every way out. -/
def Replicator.run (r : Replicator) : Worker Unit :=
  r.turn.handle fun exit => do
    perform .saveCheckpoint
    .raise exit

/-! ### The servers -/

/-- The values of a row as `GET` prints them, cell by cell, and the row that `INSERT`
stores for a text. A row that is printed and inserted again is the same row. -/
structure RowCodec (Row : Type) where
  print : Row → List Text
  parse : Text → Option Row
  print_ne_nil : ∀ row, print row ≠ []
  parse_print : ∀ row, parse (insertRow (print row)) = some row

/-- A row of STRING columns. -/
abbrev TextRow : Type := { row : List Text // row ≠ [] }

/-- A table of STRING columns, which stores what `_split_wire_row` reads. -/
def textRows : RowCodec TextRow where
  print row := row.1
  parse text := if h : splitWireRow text ≠ [] then some ⟨splitWireRow text, h⟩ else none
  print_ne_nil row := row.2
  parse_print row := by
    have hback : splitWireRow (insertRow row.1) = row.1 := splitWireRow_encodeValue row.2
    have hne : splitWireRow (insertRow row.1) ≠ [] := by
      rw [hback]
      exact row.2
    rw [dif_pos hne]
    exact congrArg some (Subtype.ext hback)

/-- A row of one column. -/
def cells (s : String) : TextRow := ⟨[s.toList], List.cons_ne_nil _ _⟩

/-- A worker for one table and one replica. -/
def oneReplica : Replicator := ⟨1, [⟨0, 0⟩]⟩

/-- The servers, the cursors in the memory of the worker and its checkpoint file. The
last three fields are bookkeeping: the row ids and operations that `_replay_event` was
called for so far, the id of the entry that is being replayed, and for each write to a
replica the id of its entry and whether it changed the table. -/
structure World (Row : Type) where
  primary : TableId → Table Row
  replica : Nat → TableId → List Row
  cursors : TableId → Int
  checkpoint : Option (TableId → Int)
  replayed : TableId → List (Int × Text)
  position : TableId → Nat
  writes : Nat → TableId → List (Nat × Bool)

/-- How a call of a server goes, and at `running` and `checkpointDue` its answer. -/
inductive Outcome where
  | ok
  | fails (e : PyError) (done : Bool)
deriving DecidableEq, Repr

structure Command (Row : Type) where
  clock : Nat → Nat
  table : TableId
  mutation : Mutation Row

variable {Row : Type}

/-- The number of entries that a table keeps. -/
def logCapacity : Nat := 1024

def firstKept (since : Nat) (t : Table Row) : Nat := max since (t.log.length - logCapacity)

/-- A row id as a client writes it; the server has no negative ones. -/
def slotOf : Int → Option Nat
  | .ofNat n => some n
  | .negSucc _ => none

def serverError (text : String) : PyError := .cuttleDBError (.server text.toList)

def updateAt {α : Type} (i : Nat) (t : TableId) (f : α → α) (x : Nat → TableId → α) :
    Nat → TableId → α :=
  fun j u => if j = i ∧ u = t then f (x j u) else x j u

namespace World

/-- Before the worker has done anything. -/
def start (primary : TableId → Table Row) (replica : TableId → List Row)
    (cursors : TableId → Nat) : World Row where
  primary := primary
  replica _ := replica
  cursors t := cursors t
  checkpoint := none
  replayed _ := []
  position _ := 0
  writes _ _ := []

/-- The primary with some rows and some past, and replicas equal to it. -/
def synchronized (rows : TableId → List Row) (log : TableId → List LogEvent) : World Row :=
  start (fun t => .starting (rows t) (log t)) rows fun t => (log t).length

/-- A worker that has just connected. -/
def connected (primary : TableId → Table Row) (replica : Nat → TableId → List Row)
    (checkpoint : Option (TableId → Int)) : World Row where
  primary := primary
  replica := replica
  cursors := checkpoint.getD fun _ => 0
  checkpoint := checkpoint
  replayed _ := []
  position _ := 0
  writes _ _ := []

/-- A row arrives at a replica. -/
def push (i : Nat) (t : TableId) (row : Row) (w : World Row) : World Row :=
  { w with
    replica := updateAt i t (· ++ [row]) w.replica
    writes := updateAt i t (· ++ [(w.position t, true)]) w.writes }

/-- A delete arrives at a replica. -/
def remove (i : Nat) (t : TableId) (rowId : Nat) (w : World Row) : World Row :=
  { w with
    replica := updateAt i t (swapRemove · rowId) w.replica
    writes :=
      updateAt i t (· ++ [(w.position t, decide (rowId < (w.replica i t).length))]) w.writes }

/-- The worker starts on the entries that `LOG` returned. -/
def fetch (t : TableId) (since : Nat) (w : World Row) : World Row :=
  { w with position := Function.update w.position t (firstKept since (w.primary t)) }

/-- The worker is done with an entry. -/
def count (t : TableId) (rowId : Int) (op : Text) (w : World Row) : World Row :=
  { w with
    replayed := Function.update w.replayed t (w.replayed t ++ [(rowId, op)])
    position := Function.update w.position t (w.position t + 1) }

def store (t : TableId) (cursor : Int) (w : World Row) : World Row :=
  { w with cursors := Function.update w.cursors t cursor }

def save (w : World Row) : World Row := { w with checkpoint := some w.cursors }

/-- `_load_checkpoint`: every table has a cursor, `0` by default. -/
def load (w : World Row) : World Row :=
  { w with cursors := w.checkpoint.getD fun _ => 0 }

def command (c : Command Row) (w : World Row) : World Row :=
  let table := (w.primary c.table).apply c.clock c.mutation
  { w with primary := Function.update w.primary c.table table }

end World

/-- A call that is carried out and answered, or fails. -/
def serve {α : Type} (o : Outcome) (reply : Except PyError α) (w w' : World Row) :
    Except PyError α × World Row :=
  match o with
  | .ok => (reply, w')
  | .fails e done => (.error e, if done then w' else w)

def Outcome.isOk : Outcome → Bool
  | .ok => true
  | .fails _ _ => false

def Outcome.caught : Outcome → Bool
  | .fails (.cuttleDBError _) _ => true
  | _ => false

def RowCodec.answer (codec : RowCodec Row) (o : Outcome) :
    (c : Call) → World Row → c.Answer × World Row
  | .running, w => (o.isOk, w)
  | .log t since, w =>
    let table := w.primary t
    let events := table.log.drop (firstKept since.toNat table)
    match o with
    | .ok => (.ok (renderLog table.log.length events), w.fetch t since.toNat)
    | .fails e _ => (.error e, w)
  | .get t rowId, w =>
    match (slotOf rowId).bind fun n => (w.primary t).slots[n]? with
    | some s => serve o (.ok (renderRow (codec.print s.row))) w w
    | none => serve o (.error (serverError "not found")) w w
  | .insert i t row, w =>
    match codec.parse row with
    | some row => serve o (.ok (w.replica i t).length) w (w.push i t row)
    | none => serve o (.error (serverError "bad")) w w
  | .delete i t rowId, w =>
    match slotOf rowId with
    | some n => serve o (.ok (decide (n < (w.replica i t).length))) w (w.remove i t n)
    | none => serve o (.ok false) w w
  | .replayed t rowId op, w => ((), w.count t rowId op)
  | .cursor t, w => (w.cursors t, w)
  | .store t cursor, w => ((), w.store t cursor)
  | .checkpointDue, w => (o.isOk, w)
  | .saveCheckpoint, w =>
    match o with
    | .ok => ((), w.save)
    | .fails _ _ => ((), w)

/-- The servers, with the commands of other clients at the primary. -/
def RowCodec.system (codec : RowCodec Row) :
    System Call Call.Answer (World Row) (Command Row) Outcome where
  act := World.command
  answer := codec.answer

/-! ### What a step leaves alone -/

theorem World.primary_command (cmd : Command Row) (w : World Row) (t : TableId) :
    (w.command cmd).primary t =
      if t = cmd.table then (w.primary t).apply cmd.clock cmd.mutation else w.primary t := by
  change Function.update w.primary cmd.table _ t = _
  rw [Function.update_apply]
  split
  · subst t
    rfl
  · rfl

/-- What a command keeps of a table holds of the table after it, touched or not. -/
theorem World.command_keeps {P : Table Row → Prop} {cmd : Command Row} {w : World Row}
    {t : TableId} (ht : P (w.primary t))
    (happly : P ((w.primary t).apply cmd.clock cmd.mutation)) : P ((w.command cmd).primary t) := by
  rw [World.primary_command]
  split
  · exact happly
  · exact ht

@[simp] theorem World.cursors_store_self (t : TableId) (c : Int) (w : World Row) :
    (w.store t c).cursors t = c := Function.update_self ..

theorem World.cursors_store_of_ne {t u : TableId} (hu : u ≠ t) (c : Int) (w : World Row) :
    (w.store t c).cursors u = w.cursors u := Function.update_of_ne hu ..

@[simp] theorem World.replayed_count_self (t : TableId) (rowId : Int) (op : Text)
    (w : World Row) : (w.count t rowId op).replayed t = w.replayed t ++ [(rowId, op)] :=
  Function.update_self ..

theorem World.replayed_count_of_ne {t u : TableId} (hu : u ≠ t) (rowId : Int) (op : Text)
    (w : World Row) : (w.count t rowId op).replayed u = w.replayed u := Function.update_of_ne hu ..

@[simp] theorem World.position_count_self (t : TableId) (rowId : Int) (op : Text)
    (w : World Row) : (w.count t rowId op).position t = w.position t + 1 :=
  Function.update_self ..

@[simp] theorem World.position_fetch_self (t : TableId) (since : Nat) (w : World Row) :
    (w.fetch t since).position t = firstKept since (w.primary t) := Function.update_self ..

theorem World.log_command (cmd : Command Row) (w : World Row) (t : TableId) :
    (w.primary t).log <+: ((w.command cmd).primary t).log :=
  World.command_keeps (P := fun t' => (w.primary t).log <+: t'.log) List.prefix_rfl
    (Table.log_prefix _ _ _)

theorem updateAt_self {α : Type} (i : Nat) (t : TableId) (f : α → α) (x : Nat → TableId → α) :
    updateAt i t f x i t = f (x i t) := if_pos ⟨rfl, rfl⟩

theorem updateAt_of_ne {α : Type} {i j : Nat} {t u : TableId} (h : ¬ (j = i ∧ u = t))
    (f : α → α) (x : Nat → TableId → α) : updateAt i t f x j u = x j u := if_neg h

theorem World.replica_push_self (i : Nat) (t : TableId) (row : Row) (w : World Row) :
    (w.push i t row).replica i t = w.replica i t ++ [row] :=
  updateAt_self i t (· ++ [row]) w.replica

theorem World.replica_push_of_ne {i j : Nat} {t u : TableId} (h : ¬ (j = i ∧ u = t)) (row : Row)
    (w : World Row) : (w.push i t row).replica j u = w.replica j u :=
  updateAt_of_ne h (· ++ [row]) w.replica

theorem World.replica_remove_self (i : Nat) (t : TableId) (rowId : Nat) (w : World Row) :
    (w.remove i t rowId).replica i t = swapRemove (w.replica i t) rowId :=
  updateAt_self i t (swapRemove · rowId) w.replica

theorem World.replica_remove_of_ne {i j : Nat} {t u : TableId} (h : ¬ (j = i ∧ u = t))
    (rowId : Nat) (w : World Row) : (w.remove i t rowId).replica j u = w.replica j u :=
  updateAt_of_ne h (swapRemove · rowId) w.replica

end CuttleDB.Replicate
