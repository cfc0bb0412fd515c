import CuttleDB.JsNumbers
import CuttleDB.Lib.Interaction

/-!
# Transactions

`transaction()` of the Python client and `transaction(fn)` of the JavaScript client send
`BEGIN`, run a body, and send `COMMIT` when it ends normally and `ROLLBACK` when it does
not. In JavaScript a `catch` takes whatever the body throws. In Python `except Exception`
does not take `KeyboardInterrupt`, `SystemExit` or `GeneratorExit`: a body that ends in
one of these leaves its transaction open.
-/

namespace CuttleDB

open Interaction Binary64

/-! ### The server -/

/-- `+OK <body>` or `-ERR <message>` -/
inductive Reply where
  | ok (body : Text)
  | err (message : Text)
deriving DecidableEq

/-- An open transaction: the data before it, and the operations in it. -/
structure Tx (σ : Type) where
  before : σ
  ops : Nat
deriving DecidableEq

/-- The data as a connection sees it, and its transaction. -/
structure Server (σ : Type) where
  data : σ
  tx : Option (Tx σ)
deriving DecidableEq

/-- What the server makes of the other commands. They neither open nor close a
transaction, and they keep what `ROLLBACK` goes back to. -/
structure Service (σ : Type) where
  run : Text → Server σ → Reply × Server σ
  run_before : ∀ command s, (run command s).2.tx.map Tx.before = s.tx.map Tx.before

variable {σ ε α : Type}

/-- One command line. -/
def Service.answer (svc : Service σ) (command : Text) (s : Server σ) : Reply × Server σ :=
  if command = "BEGIN".toList then
    match s.tx with
    | none => (.ok [], { s with tx := some ⟨s.data, 0⟩ })
    | some _ => (.err "already in tx".toList, s)
  else if command = "COMMIT".toList then
    match s.tx with
    | none => (.err "not in tx".toList, s)
    | some tx => (.ok (intText tx.ops), { s with tx := none })
  else if command = "ROLLBACK".toList then
    match s.tx with
    | none => (.err "not in tx".toList, s)
    | some tx => (.ok (intText tx.ops), ⟨tx.before, none⟩)
  else svc.run command s

/-- A command of a body. -/
abbrev Statement :=
  { c : Text // c ≠ "BEGIN".toList ∧ c ≠ "COMMIT".toList ∧ c ≠ "ROLLBACK".toList }

/-- A body: what it sends next depends on the replies so far, and it ends in a value or in
something that it raises. -/
abbrev Body (ε α : Type) := Prog Statement (fun _ => Reply) ε α

def Service.system (svc : Service σ) :
    System Statement (fun _ => Reply) (Server σ) Empty Unit where
  act := Empty.elim
  answer := fun _ command s => svc.answer command.1 s

def Service.exec (svc : Service σ) (body : Body ε α) (s : Server σ) : Except ε α × Server σ :=
  svc.system.exec () body s

/-- The state behind an accepted `BEGIN`. -/
def Server.opened (s : Server σ) : Server σ := { s with tx := some ⟨s.data, 0⟩ }

/-! ### The clients -/

/-- What is raised in Python. The last are the classes outside `Exception`, such as
`KeyboardInterrupt`. -/
inductive Raised where
  | cuttleDBError (message : Text)
  | exception (name : Text)
  | baseException (name : Text)
deriving DecidableEq

/-- What `except Exception` takes. -/
def Raised.isException : Raised → Bool
  | .cuttleDBError _ => true
  | .exception _ => true
  | .baseException _ => false

namespace Py

/-- `send`, on a connection that stays up. -/
def sendTo (svc : Service σ) (command : Text) (s : Server σ) : Except Raised Text × Server σ :=
  match svc.answer command s with
  | (.ok body, s) => (.ok body, s)
  | (.err message, s) => (.error (.cuttleDBError message), s)

/-- `int(self.send(command))`. The server counts in 64 bits, far below the limit of `int`; here
its counts have no bound, and `int` has none. -/
def sendInt (svc : Service σ) (command : Text) (s : Server σ) : Except Raised Int × Server σ :=
  match sendTo svc command s with
  | (.error e, s) => (.error e, s)
  | (.ok body, s) => ((intIn? none body).elim (.error (.exception "ValueError".toList)) .ok, s)

def begin_ (svc : Service σ) := sendTo svc "BEGIN".toList

def commit (svc : Service σ) := sendInt svc "COMMIT".toList

def rollback (svc : Service σ) := sendInt svc "ROLLBACK".toList

/-- `with db.transaction(): ...` -/
def transaction (svc : Service σ) (body : Body Raised α) (s : Server σ) :
    Except Raised α × Server σ :=
  match begin_ svc s with
  | (.error e, s) => (.error e, s)
  | (.ok _, s) =>
    match svc.exec body s with
    | (.error e, s) =>
      if e.isException then
        match rollback svc s with
        | (.ok _, s) => (.error e, s)
        | (.error (.cuttleDBError _), s) => (.error e, s)
        | (.error e, s) => (.error e, s)
      else (.error e, s)
    | (.ok a, s) =>
      match commit svc s with
      | (.ok _, s) => (.ok a, s)
      | (.error e, s) => (.error e, s)

end Py

namespace Js

/-- What is thrown in JavaScript. -/
inductive Thrown (ε : Type) where
  | error (message : Text)
  | other (value : ε)
deriving DecidableEq

def sendTo (svc : Service σ) (command : Text) (s : Server σ) :
    Except (Thrown ε) Text × Server σ :=
  match svc.answer command s with
  | (.ok body, s) => (.ok body, s)
  | (.err message, s) => (.error (.error message), s)

/-- `parseInt(await this.send(command), 10)` -/
def sendInt (svc : Service σ) (command : Text) (s : Server σ) :
    Except (Thrown ε) Double × Server σ :=
  match sendTo svc command s with
  | (.error e, s) => (.error e, s)
  | (.ok body, s) => (.ok (parseInt body), s)

def begin_ (svc : Service σ) (s : Server σ) : Except (Thrown ε) Text × Server σ :=
  sendTo svc "BEGIN".toList s

def commit (svc : Service σ) (s : Server σ) : Except (Thrown ε) Double × Server σ :=
  sendInt svc "COMMIT".toList s

def rollback (svc : Service σ) (s : Server σ) : Except (Thrown ε) Double × Server σ :=
  sendInt svc "ROLLBACK".toList s

/-- `transaction(fn)` -/
def transaction (svc : Service σ) (fn : Body (Thrown ε) α) (s : Server σ) :
    Except (Thrown ε) α × Server σ :=
  match begin_ svc s with
  | (.error e, s) => (.error e, s)
  | (.ok _, s) =>
    let tried : Except (Thrown ε) α × Server σ :=
      match svc.exec fn s with
      | (.error e, s) => (.error e, s)
      | (.ok r, s) =>
        match commit svc s with
        | (.error e, s) => (.error e, s)
        | (.ok _, s) => (.ok r, s)
    match tried with
    | (.ok r, s) => (.ok r, s)
    | (.error e, s) => (.error e, (rollback (ε := ε) svc s).2)

end Js

/-! ### What the helper promises -/

/-- `s'` is a state to leave the helper in that was entered in `s`. A transaction that
the helper began is over, with the effects of the body if it ended normally and with none
otherwise; one that was open before is left alone. -/
structure Closed (svc : Service σ) (body : Body ε α) (s s' : Server σ) : Prop where
  tx : s.tx = none → s'.tx = none
  data : s.tx = none → s'.data =
    match svc.exec body s.opened with
    | (.ok _, ended) => ended.data
    | (.error _, _) => s.data
  refused : s.tx ≠ none → s' = s

/-- The body does not end in a class outside `Exception`. -/
def EndsInException (svc : Service σ) (body : Body Raised α) (s : Server σ) : Prop :=
  ∀ e, (svc.exec body s.opened).1 = .error e → e.isException = true

section Server

variable (svc : Service σ) (s : Server σ)

theorem Service.answer_begin (h : s.tx = none) :
    svc.answer "BEGIN".toList s = (.ok [], s.opened) := by
  rw [Service.answer, if_pos rfl, h]
  rfl

theorem Service.answer_begin_refused (h : s.tx ≠ none) :
    svc.answer "BEGIN".toList s = (.err "already in tx".toList, s) := by
  rw [Service.answer, if_pos rfl]
  cases htx : s.tx with
  | none => exact absurd htx h
  | some tx => rfl

theorem Service.answer_commit {tx : Tx σ} (h : s.tx = some tx) :
    svc.answer "COMMIT".toList s = (.ok (intText tx.ops), { s with tx := none }) := by
  rw [Service.answer, if_neg (by decide), if_pos rfl, h]

theorem Service.answer_rollback {tx : Tx σ} (h : s.tx = some tx) :
    svc.answer "ROLLBACK".toList s = (.ok (intText tx.ops), ⟨tx.before, none⟩) := by
  rw [Service.answer, if_neg (by decide), if_neg (by decide), if_pos rfl, h]

/-- **A body keeps the transaction it runs in.** -/
theorem Service.exec_opened (body : Body ε α) :
    ∃ tx, (svc.exec body s.opened).2.tx = some tx ∧ tx.before = s.data := by
  have hstatement : ∀ (command : Statement) (w : Server σ),
      w.tx.map Tx.before = some s.data →
        (svc.system.answer () command w).2.tx.map Tx.before = some s.data := by
    rintro ⟨command, hbegin, hcommit, hrollback⟩ w hw
    have hanswer : svc.system.answer () ⟨command, hbegin, hcommit, hrollback⟩ w =
        svc.run command w := by
      show svc.answer command w = svc.run command w
      rw [Service.answer, if_neg hbegin, if_neg hcommit, if_neg hrollback]
    rw [hanswer, svc.run_before]
    exact hw
  have hkeeps := System.exec_keeps (I := fun w => w.tx.map Tx.before = some s.data) hstatement
    body (w := s.opened) rfl
  exact Option.map_eq_some_iff.mp hkeeps

end Server

namespace Py

variable (svc : Service σ) (s : Server σ)

theorem commit_eq {tx : Tx σ} (h : s.tx = some tx) :
    commit svc s = (.ok tx.ops, { s with tx := none }) := by
  rw [commit, sendInt, sendTo, svc.answer_commit s h]
  simp only [intIn?_intText (fitsIn_none _), Option.elim_some]

theorem rollback_eq {tx : Tx σ} (h : s.tx = some tx) :
    rollback svc s = (.ok tx.ops, ⟨tx.before, none⟩) := by
  rw [rollback, sendInt, sendTo, svc.answer_rollback s h]
  simp only [intIn?_intText (fitsIn_none _), Option.elim_some]

theorem begin_eq (h : s.tx = none) : begin_ svc s = (.ok [], s.opened) := by
  rw [begin_, sendTo, svc.answer_begin s h]

/-- A transaction is open already. -/
theorem transaction_refused (body : Body Raised α) (h : s.tx ≠ none) :
    (transaction svc body s).2 = s := by
  rw [transaction, begin_, sendTo, svc.answer_begin_refused s h]

variable {svc s} {body : Body Raised α} {ended : Server σ}

theorem transaction_ok {a : α} (h : s.tx = none)
    (hexec : svc.exec body s.opened = (.ok a, ended)) :
    transaction svc body s = (.ok a, { ended with tx := none }) := by
  obtain ⟨tx, htx, -⟩ := svc.exec_opened s body
  rw [hexec] at htx
  simp only [transaction, begin_eq svc s h, hexec, commit_eq svc ended htx]

theorem transaction_exception {e : Raised} (h : s.tx = none)
    (hexec : svc.exec body s.opened = (.error e, ended)) (he : e.isException = true) :
    transaction svc body s = (.error e, ⟨s.data, none⟩) := by
  obtain ⟨tx, htx, hbefore⟩ := svc.exec_opened s body
  rw [hexec] at htx
  simp only [transaction, begin_eq svc s h, hexec, he, rollback_eq svc ended htx, hbefore, if_true]

/-- Nothing is sent any more. -/
theorem transaction_baseException {e : Raised} (h : s.tx = none)
    (hexec : svc.exec body s.opened = (.error e, ended)) (he : e.isException = false) :
    transaction svc body s = (.error e, ended) := by
  simp [transaction, begin_eq svc s h, hexec, he]

theorem transaction_closed_iff (svc : Service σ) (s : Server σ) (body : Body Raised α) :
    Closed svc body s (transaction svc body s).2 ↔ s.tx ≠ none ∨ EndsInException svc body s := by
  by_cases h : s.tx = none
  · rw [or_iff_right (not_not.mpr h), EndsInException]
    rcases hexec : svc.exec body s.opened with ⟨e | a, ended⟩
    · cases he : e.isException with
      | true =>
        rw [transaction_exception h hexec he]
        refine iff_of_true ⟨fun _ => rfl, fun _ => by rw [hexec], fun hopen => absurd h hopen⟩ ?_
        rintro e' heq
        obtain rfl := Except.error.inj heq
        exact he
      | false =>
        rw [transaction_baseException h hexec he]
        refine iff_of_false (fun hclosed => ?_) fun hends => ?_
        · obtain ⟨tx, htx, -⟩ := svc.exec_opened s body
          rw [hexec] at htx
          cases htx.symm.trans (hclosed.tx h)
        · cases he.symm.trans (hends e rfl)
    · rw [transaction_ok h hexec]
      refine iff_of_true ⟨fun _ => rfl, fun _ => by rw [hexec], fun hopen => absurd h hopen⟩ ?_
      rintro e heq
      cases heq
  · rw [transaction_refused svc s body h]
    exact iff_of_true ⟨fun hnone => absurd hnone h, fun hnone => absurd hnone h, fun _ => rfl⟩
      (Or.inl h)

end Py

namespace Js

variable (svc : Service σ) (s : Server σ)

theorem commit_eq {tx : Tx σ} (h : s.tx = some tx) :
    commit (ε := ε) svc s = (.ok (parseInt (intText tx.ops)), { s with tx := none }) := by
  rw [commit, sendInt, sendTo, svc.answer_commit s h]

theorem rollback_eq {tx : Tx σ} (h : s.tx = some tx) :
    rollback (ε := ε) svc s = (.ok (parseInt (intText tx.ops)), ⟨tx.before, none⟩) := by
  rw [rollback, sendInt, sendTo, svc.answer_rollback s h]

theorem transaction_closed (fn : Body (Thrown ε) α) :
    Closed svc fn s (transaction svc fn s).2 := by
  by_cases h : s.tx = none
  · have hbegin : begin_ (ε := ε) svc s = (.ok [], s.opened) := by
      rw [begin_, sendTo, svc.answer_begin s h]
    obtain ⟨tx, htx, hbefore⟩ := svc.exec_opened s fn
    rcases hexec : svc.exec fn s.opened with ⟨e | r, ended⟩ <;> rw [hexec] at htx
    · have hstate : (transaction svc fn s).2 = ⟨s.data, none⟩ := by
        simp only [transaction, hbegin, hexec, rollback_eq svc ended htx, hbefore]
      rw [hstate]
      exact ⟨fun _ => rfl, fun _ => by rw [hexec], fun hopen => absurd h hopen⟩
    · have hstate : (transaction svc fn s).2 = { ended with tx := none } := by
        simp only [transaction, hbegin, hexec, commit_eq svc ended htx]
      rw [hstate]
      exact ⟨fun _ => rfl, fun _ => by rw [hexec], fun hopen => absurd h hopen⟩
  · have hrefused : (transaction svc fn s).2 = s := by
      rw [transaction, begin_, sendTo, svc.answer_begin_refused s h]
    exact ⟨fun hnone => absurd hnone h, fun hnone => absurd hnone h, fun _ => hrefused⟩

end Js

/-- **No transaction is left open in JavaScript; in Python none is if and only if the body
does not end in a class outside `Exception`.** -/
theorem transactions_closed_iff (svc : Service σ) (s : Server σ) :
    (∀ body : Body Raised α, Closed svc body s (Py.transaction svc body s).2 ↔
      s.tx ≠ none ∨ EndsInException svc body s) ∧
      ∀ fn : Body (Js.Thrown ε) α, Closed svc fn s (Js.transaction svc fn s).2 :=
  ⟨Py.transaction_closed_iff svc s, Js.transaction_closed svc s⟩

/-- A service whose data is the number of commands it took. -/
def tally : Service Nat where
  run := fun _ s => (.ok (intText s.data), ⟨s.data + 1, s.tx.map fun tx => ⟨tx.before, tx.ops + 1⟩⟩)
  run_before := fun _ s => by cases s.tx <;> rfl

/-- A body that is interrupted behind its first command. -/
def interrupted : Body Raised Unit :=
  .call ⟨"INSERT 0 0 7".toList, by decide⟩ fun _ => .raise (.baseException "KeyboardInterrupt".toList)

/-- The row of an interrupted body stays in an open transaction. -/
theorem interrupted_transaction_open :
    ¬ Closed tally interrupted ⟨0, none⟩ (Py.transaction tally interrupted ⟨0, none⟩).2 := by
  have hstate : (Py.transaction tally interrupted ⟨0, none⟩).2 = ⟨1, some ⟨0, 1⟩⟩ := by decide
  rw [hstate]
  intro hclosed
  cases hclosed.tx rfl

end CuttleDB
