import CuttleDB.Lib.Reservation
import CuttleDB.Transactions

/-!
# Transactions side by side on one connection

Threads of a Python program, or asynchronous functions of a JavaScript one, call
`transaction` on one connection, and the commands of their bodies reach the server in any
order. The server has one transaction a connection and refuses a second `BEGIN`, and the
helpers do not run a body whose `BEGIN` was refused. So no command of a body ever falls into
the transaction of another one, no helper ends a transaction that it did not begin, and what
the bodies do is what they do one after the other.
-/

namespace CuttleDB

open Interaction Mutex Reservation

variable {σ ε α : Type}

/-- What a helper says whose `BEGIN` is refused. -/
def alreadyInTx : Text := "already in tx".toList

/-- A command of a body leaves the transaction open. -/
theorem Service.answer_open (svc : Service σ) (command : Statement) {s : Server σ} (h : s.tx ≠ none) :
    (svc.answer command.1 s).2.tx ≠ none := by
  obtain ⟨command, hbegin, hcommit, hrollback⟩ := command
  have hanswer : svc.answer command s = svc.run command s := by
    rw [Service.answer, if_neg hbegin, if_neg hcommit, if_neg hrollback]
  rw [hanswer]
  intro hnone
  have hbefore := svc.run_before command s
  rw [hnone] at hbefore
  exact h (Option.map_eq_none_iff.mp hbefore.symm)

namespace Py

/-- A place in `transaction()`, before a command of it. -/
inductive TxPlace (α : Type) where
  | beginning (body : Body Raised α)
  | running (body : Body Raised α)

/-- The next command of `with db.transaction(): ...`, and what follows its reply. -/
def txCode (svc : Service σ) : Code (Server σ) (TxPlace α) (Except Raised α)
  | .beginning body, s =>
    match begin_ svc s with
    | (.error e, s) => (.inr (.error e), s)
    | (.ok _, s) => (.inl (.running body), s)
  | .running (.call command k), s =>
    let (reply, s) := svc.answer command.1 s
    (.inl (.running (k reply)), s)
  | .running (.raise e), s =>
    if e.isException then
      match rollback svc s with
      | (.ok _, s) => (.inr (.error e), s)
      | (.error (.cuttleDBError _), s) => (.inr (.error e), s)
      | (.error e, s) => (.inr (.error e), s)
    else (.inr (.error e), s)
  | .running (.ret a), s =>
    match commit svc s with
    | (.ok _, s) => (.inr (.ok a), s)
    | (.error e, s) => (.inr (.error e), s)

/-- What is left of `transaction` from a place on. -/
def txRun (svc : Service σ) : TxPlace α → Server σ → Except Raised α × Server σ
  | .beginning body, s => transaction svc body s
  | .running body, s =>
    match svc.exec body s with
    | (.error e, s) =>
      if e.isException then
        match rollback svc s with
        | (.ok _, s) => (.error e, s)
        | (.error (.cuttleDBError _), s) => (.error e, s)
        | (.error e, s) => (.error e, s)
      else (.error e, s)
    | (.ok a, s) =>
      match commit svc s with
      | (.ok _, s) => (.ok a, s)
      | (.error e, s) => (.error e, s)

/-- **The commands of a transaction make up the transaction.** -/
theorem txCode_computes (svc : Service σ) :
    Computes (txCode svc) (txRun (α := α) svc) := by
  intro l s
  cases l with
  | beginning body =>
    rw [txRun, transaction, txCode]
    rcases begin_ svc s with ⟨e | reply, s'⟩
    · rfl
    · rfl
  | running body =>
    cases body with
    | ret a =>
      rw [txRun, txCode, Service.exec, System.exec]
      dsimp only
      rcases commit svc s with ⟨e | n, s'⟩ <;> rfl
    | raise e =>
      rw [txRun, txCode, Service.exec, System.exec]
      dsimp only
      split
      · rcases rollback svc s with ⟨(message | name | name) | n, s'⟩ <;> rfl
      · rfl
    | call command k => rfl

/-- Before its `BEGIN` -/
def TxPlace.IsBeginning : TxPlace α → Prop
  | .beginning _ => True
  | .running _ => False

theorem txCode_guarded (svc : Service σ) :
    Guarded (txCode (α := α) svc) (fun s => s.tx ≠ none) TxPlace.IsBeginning
      (.error (.cuttleDBError alreadyInTx)) := by
  constructor
  · intro l s hstart hbusy
    cases l with
    | beginning body =>
      rw [txCode, begin_, sendTo, svc.answer_begin_refused s hbusy]
      rfl
    | running body => exact absurd hstart id
  · intro l s hstart hfree
    cases l with
    | beginning body =>
      refine ⟨.running body, s.opened, ?_, id, Option.some_ne_none _⟩
      rw [txCode, begin_eq svc s (not_not.mp hfree)]
    | running body => exact absurd hstart id
  · intro l s l' s' hplace hbusy hcode
    cases l with
    | beginning body => exact absurd trivial hplace
    | running body =>
      cases body with
      | ret a =>
        obtain ⟨tx, htx⟩ := Option.ne_none_iff_exists'.mp hbusy
        rw [txCode, commit_eq svc s htx] at hcode
        cases hcode
      | raise e =>
        obtain ⟨tx, htx⟩ := Option.ne_none_iff_exists'.mp hbusy
        rw [txCode, rollback_eq svc s htx] at hcode
        split at hcode <;> cases hcode
      | call command k =>
        cases hcode
        exact ⟨id, svc.answer_open command hbusy⟩

end Py

namespace Js

/-- A place in `transaction(fn)`, before a command of it. -/
inductive TxPlace (ε α : Type) where
  | beginning (fn : Body (Thrown ε) α)
  | running (fn : Body (Thrown ε) α)
  | rollingBack (e : Thrown ε)

/-- The next command of `transaction(fn)`, and what follows its reply. -/
def txCode (svc : Service σ) : Code (Server σ) (TxPlace ε α) (Except (Thrown ε) α)
  | .beginning fn, s =>
    match begin_ svc s with
    | (.error e, s) => (.inr (.error e), s)
    | (.ok _, s) => (.inl (.running fn), s)
  | .running (.call command k), s =>
    let (reply, s) := svc.answer command.1 s
    (.inl (.running (k reply)), s)
  | .running (.raise e), s => (.inr (.error e), (rollback (ε := ε) svc s).2)
  | .running (.ret r), s =>
    match commit svc s with
    | (.error e, s) => (.inl (.rollingBack e), s)
    | (.ok _, s) => (.inr (.ok r), s)
  | .rollingBack e, s => (.inr (.error e), (rollback (ε := ε) svc s).2)

/-- What is left of `transaction` from a place on. -/
def txRun (svc : Service σ) : TxPlace ε α → Server σ → Except (Thrown ε) α × Server σ
  | .beginning fn, s => transaction svc fn s
  | .running fn, s =>
    let tried : Except (Thrown ε) α × Server σ :=
      match svc.exec fn s with
      | (.error e, s) => (.error e, s)
      | (.ok r, s) =>
        match commit svc s with
        | (.error e, s) => (.error e, s)
        | (.ok _, s) => (.ok r, s)
    match tried with
    | (.ok r, s) => (.ok r, s)
    | (.error e, s) => (.error e, (rollback (ε := ε) svc s).2)
  | .rollingBack e, s => (.error e, (rollback (ε := ε) svc s).2)

theorem txCode_computes (svc : Service σ) :
    Computes (txCode svc) (txRun (ε := ε) (α := α) svc) := by
  intro l s
  cases l with
  | beginning fn =>
    rw [txRun, transaction, txCode]
    rcases begin_ svc s with ⟨e | reply, s'⟩
    · rfl
    · rfl
  | running fn =>
    cases fn with
    | ret r =>
      rw [txRun, txCode, Service.exec, System.exec]
      dsimp only
      rcases commit svc s with ⟨e | n, s'⟩ <;> rfl
    | raise e => rfl
    | call command k => rfl
  | rollingBack e => rfl

/-- Before its `BEGIN` -/
def TxPlace.IsBeginning : TxPlace ε α → Prop
  | .beginning _ => True
  | .running _ => False
  | .rollingBack _ => False

theorem txCode_guarded (svc : Service σ) :
    Guarded (txCode (ε := ε) (α := α) svc) (fun s => s.tx ≠ none) TxPlace.IsBeginning
      (.error (.error alreadyInTx)) := by
  constructor
  · intro l s hstart hbusy
    cases l with
    | beginning fn =>
      rw [txCode, begin_, sendTo, svc.answer_begin_refused s hbusy]
      rfl
    | running fn => exact absurd hstart id
    | rollingBack e => exact absurd hstart id
  · intro l s hstart hfree
    cases l with
    | beginning fn =>
      refine ⟨.running fn, s.opened, ?_, id, Option.some_ne_none _⟩
      rw [txCode, begin_, sendTo, svc.answer_begin s (not_not.mp hfree)]
    | running fn => exact absurd hstart id
    | rollingBack e => exact absurd hstart id
  · intro l s l' s' hplace hbusy hcode
    cases l with
    | beginning fn => exact absurd trivial hplace
    | running fn =>
      cases fn with
      | ret r =>
        obtain ⟨tx, htx⟩ := Option.ne_none_iff_exists'.mp hbusy
        rw [txCode, commit_eq svc s htx] at hcode
        cases hcode
      | raise e => cases hcode
      | call command k =>
        cases hcode
        exact ⟨id, svc.answer_open command hbusy⟩
    | rollingBack e => cases hcode

end Js

/-! ### Any schedule -/

variable {ι : Type} [DecidableEq ι]

/-- Threads that each call `transaction` with the bodies of a list, one after the other -/
def Py.callers (s : Server σ) (bodies : ι → List (Body Raised α)) :
    Reservation.State ι (Server σ) (Py.TxPlace α) (Except Raised α) :=
  .initial s fun i => (bodies i).map .beginning

def Js.callers (s : Server σ) (fns : ι → List (Body (Js.Thrown ε) α)) :
    Reservation.State ι (Server σ) (Js.TxPlace ε α) (Except (Js.Thrown ε) α) :=
  .initial s fun i => (fns i).map .beginning

/-- **Transactions on one connection are serial.** However the commands of any number of
callers are interleaved: no more than one body is under way, and the server's transaction is
its own; a call is refused as `already in tx`, or its body does to the data, and gets, what it
does and gets when the accepted calls run alone, one after the other. -/
theorem transactions_serial (svc : Service σ) (s : Server σ) :
    (∀ (bodies : ι → List (Body Raised α)) (schedule : List ι),
      let S := (Py.callers s bodies).run (Py.txCode svc) schedule
      S.Held (fun s => s.tx ≠ none) Py.TxPlace.IsBeginning ∧
        S.Orderly (fun i => (bodies i).map .beginning) (.error (.cuttleDBError alreadyInTx)) ∧
        S.Serial (Py.txCode svc) (Py.txRun svc) s) ∧
    ∀ (fns : ι → List (Body (Js.Thrown ε) α)) (schedule : List ι),
      let S := (Js.callers s fns).run (Js.txCode svc) schedule
      S.Held (fun s => s.tx ≠ none) Js.TxPlace.IsBeginning ∧
        S.Orderly (fun i => (fns i).map .beginning) (.error (.error alreadyInTx)) ∧
        S.Serial (Js.txCode svc) (Js.txRun svc) s := by
  constructor
  · intro bodies schedule
    refine State.run_serial (Py.txCode_computes svc) (Py.txCode_guarded svc) s ?_ schedule
    intro i l hl
    obtain ⟨body, -, rfl⟩ := List.mem_map.mp hl
    exact trivial
  · intro fns schedule
    refine State.run_serial (Js.txCode_computes svc) (Js.txCode_guarded svc) s ?_ schedule
    intro i l hl
    obtain ⟨fn, -, rfl⟩ := List.mem_map.mp hl
    exact trivial

end CuttleDB
