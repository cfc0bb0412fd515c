import CuttleDB.Lib.Projection
import CuttleDB.ReplicateOutline

/-!
# One table among others

The loop over the tables goes through one connection to the primary and one to each
replica, one dictionary of cursors and one handler for what fails. What it does for one
table is all the same what a worker for that table alone does: a table that fails is
passed over, and the calls for the others touch neither the table at the primary nor its
cursor nor its replicas.
-/

namespace CuttleDB.Replicate

open Interaction Py

variable {Row : Type}

/-! ### The calls for one table -/

/-- The table that a call is about. -/
def Call.table? : Call → Option TableId
  | .running => none
  | .log t _ => some t
  | .get t _ => some t
  | .insert _ t _ => some t
  | .delete _ t _ => some t
  | .replayed t _ _ => some t
  | .cursor t => some t
  | .store t _ => some t
  | .checkpointDue => none
  | .saveCheckpoint => none

def Call.about (t : TableId) (c : Call) : Bool := c.table? = some t

/-- The answer is a value or a `CuttleDBError`. -/
def Passable {α : Type} : Except PyError α → Prop
  | .ok _ => True
  | .error (.cuttleDBError _) => True
  | .error _ => False

/-- The worker goes on with the answer. -/
def Call.GoesOn : (c : Call) → c.Answer → Prop
  | .log _ _, answer => Passable (answer >>= parseLogIn none)
  | .get _ _, answer => Passable answer
  | .insert _ _ _, answer => Passable answer
  | .delete _ _ _, answer => Passable answer
  | _, _ => True

/-- The program of one worker does what another one does for the table. -/
abbrev ProjectsTo {α β : Type} (t : TableId) (p : Worker α) (p' : Worker β) : Prop :=
  p.Projects (Call.about t) Call.GoesOn p'

section Projections

variable {α β γ : Type} {t u : TableId}

theorem attempt_silent {answer : Except PyError α} (hanswer : Passable answer)
    {body : α → Worker β} {handler : Worker β} {q : Worker γ}
    (hbody : ∀ a, ProjectsTo t (body a) q) (hhandler : ProjectsTo t handler q) :
    ProjectsTo t (attempt answer body handler) q := by
  cases answer with
  | ok a => exact hbody a
  | error e =>
    cases e with
    | cuttleDBError m => exact hhandler
    | _ => exact hanswer.elim

theorem attempt_same (answer : Except PyError α) {body : α → Worker β} {handler : Worker β}
    {body' : α → Worker γ} {handler' : Worker γ} (hbody : ∀ a, ProjectsTo t (body a) (body' a))
    (hhandler : ProjectsTo t handler handler') :
    ProjectsTo t (attempt answer body handler) (attempt answer body' handler') := by
  cases answer with
  | ok a => exact hbody a
  | error e =>
    cases e with
    | cuttleDBError m => exact hhandler
    | _ => exact .raise _

theorem about_self {c : Call} (hc : c.table? = some t) : c.about t = true := decide_eq_true hc

theorem about_other (hu : u ≠ t) {c : Call} (hc : c.table? = some u) : c.about t = false := by
  rw [Call.about, hc]
  exact decide_eq_false fun h => hu (Option.some.inj h)

/-- A call that is about a table is not about another one. -/
theorem ne_of_about {c : Call} (hc : c.about t = false)
    (hu : c.table? = some u) : u ≠ t := by
  rintro rfl
  rw [about_self hu] at hc
  cases hc

/-! ### Other tables -/

theorem insertInto_silent (hu : u ≠ t) (row : List Text) (i : Nat) :
    ProjectsTo t (Replicator.insertInto u row i) (.ret ()) :=
  .perform_other (about_other hu rfl) fun _ hanswer =>
    attempt_silent hanswer (fun _ => .ret () ()) (.ret () ())

theorem deleteFrom_silent (hu : u ≠ t) (rowId : Int) (i : Nat) :
    ProjectsTo t (Replicator.deleteFrom u rowId i) (.ret ()) :=
  .perform_other (about_other hu rfl) fun _ hanswer =>
    attempt_silent hanswer (fun _ => .ret () ()) (.ret () ())

theorem replayOp_silent (hu : u ≠ t) (r : Replicator) (rowId : Int) (op : Text) :
    ProjectsTo t (r.replayOp u rowId op) (.ret ()) := by
  unfold Replicator.replayOp
  split
  · refine .perform_other (about_other hu rfl) fun _ hanswer => ?_
    refine attempt_silent hanswer (fun body => ?_) (.ret () ())
    exact .foldlM_silent _ (fun i _ _ => insertInto_silent hu _ i) ()
  · split
    · exact .foldlM_silent _ (fun i _ _ => deleteFrom_silent hu rowId i) ()
    · exact .ret () ()

theorem replayEvent_silent (hu : u ≠ t) (r : Replicator) (rowId : Int) (op : Text) :
    ProjectsTo t (r.replayEvent u rowId op) (.ret ()) := by
  refine (replayOp_silent hu r _ _).silent_bind fun _ => ?_
  exact .perform_other (about_other hu rfl) fun _ _ => .ret _ ()

theorem replayEntry_silent (hu : u ≠ t) (r : Replicator) (total : Nat) (event : LogEntry) :
    ProjectsTo t (r.replayEntry u total event) (.ret ()) :=
  (replayEvent_silent hu r _ _).silent_bind fun _ => .ret _ ()

theorem replayTable_silent (hu : u ≠ t) (r : Replicator) (total : Nat) :
    ProjectsTo t (r.replayTable total u) (.ret ()) := by
  refine .perform_other (about_other hu rfl) fun since _ => ?_
  refine .perform_other (about_other hu rfl) fun answer hanswer => ?_
  refine attempt_silent hanswer (fun parsed => ?_) (.ret _ ())
  refine Prog.Projects.silent_bind
    (.foldlM_silent _ (fun event _ total => replayEntry_silent hu r total event) total)
    fun total => ?_
  exact .perform_other (about_other hu rfl) fun _ _ => .ret _ ()

/-! ### The table itself -/

theorem insertInto_self (row : List Text) (i : Nat) :
    ProjectsTo t (Replicator.insertInto t row i) (Replicator.insertInto t row i) :=
  .perform_own (about_self rfl) fun answer =>
    attempt_same answer (fun _ => .ret () ()) (.ret () ())

theorem deleteFrom_self (rowId : Int) (i : Nat) :
    ProjectsTo t (Replicator.deleteFrom t rowId i) (Replicator.deleteFrom t rowId i) :=
  .perform_own (about_self rfl) fun answer =>
    attempt_same answer (fun _ => .ret () ()) (.ret () ())

variable {r r' : Replicator}

theorem replayOp_self (hr : r'.replicas = r.replicas) (rowId : Int) (op : Text) :
    ProjectsTo t (r.replayOp t rowId op) (r'.replayOp t rowId op) := by
  unfold Replicator.replayOp
  rw [hr]
  split
  · refine .perform_own (about_self rfl) fun answer => ?_
    refine attempt_same answer (fun body => ?_) (.ret () ())
    exact .foldlM _ (fun i _ _ _ => insertInto_self _ i) () ()
  · split
    · exact .foldlM _ (fun i _ _ _ => deleteFrom_self rowId i) () ()
    · exact .ret () ()

theorem replayEvent_self (hr : r'.replicas = r.replicas) (rowId : Int) (op : Text) :
    ProjectsTo t (r.replayEvent t rowId op) (r'.replayEvent t rowId op) := by
  refine (replayOp_self hr _ _).bind fun _ _ => ?_
  exact .perform_own (about_self rfl) fun _ => .ret _ _

theorem replayEntry_self (hr : r'.replicas = r.replicas) (total total' : Nat) (event : LogEntry) :
    ProjectsTo t (r.replayEntry t total event) (r'.replayEntry t total' event) :=
  (replayEvent_self hr _ _).bind fun _ _ => .ret _ _

theorem replayTable_self (hr : r'.replicas = r.replicas) (total total' : Nat) :
    ProjectsTo t (r.replayTable total t) (r'.replayTable total' t) := by
  refine .perform_own (about_self rfl) fun since => ?_
  refine .perform_own (about_self rfl) fun answer => ?_
  refine attempt_same _ (fun parsed => ?_) (.ret _ _)
  refine Prog.Projects.bind
    (.foldlM _ (fun event _ total total' => replayEntry_self hr total total' event) total total')
    fun total total' => ?_
  exact .perform_own (about_self rfl) fun _ => .ret _ _

/-- The worker for one of the tables. -/
def Replicator.alone (r : Replicator) (t : TableId) : Replicator := ⟨r.replicas, [t]⟩

/-- **A pass does for one table what a pass of the worker for it alone does.** -/
theorem replayOnce_projects (hnodup : r.tables.Nodup) (ht : t ∈ r.tables) :
    ProjectsTo t r.replayOnce (r.alone t).replayOnce := by
  exact .foldlM_single (fun total total' => replayTable_self rfl total total') ht hnodup
    (fun u _ hu total => replayTable_silent hu r total) 0 0

end Projections

/-! ### What one table shares with the others -/

/-- The worlds are the same for the table, and the whole primary is. -/
structure SameFor (t : TableId) (w w' : World Row) : Prop where
  primary : w.primary = w'.primary
  cursor : w.cursors t = w'.cursors t
  replica : ∀ i, w.replica i t = w'.replica i t
  replayed : w.replayed t = w'.replayed t
  position : w.position t = w'.position t
  writes : ∀ i, w.writes i t = w'.writes i t

theorem SameFor.refl (t : TableId) (w : World Row) : SameFor t w w :=
  ⟨rfl, rfl, fun _ => rfl, rfl, rfl, fun _ => rfl⟩

section SameFor

variable {t u : TableId} {w w' w₁ w₁' : World Row}

theorem update_same {α : Type} {x x' : TableId → α} {a a' : α} (h : a = a') :
    Function.update x t a t = Function.update x' t a' t := by
  rw [Function.update_self, Function.update_self, h]

/-! Own calls do the same to both worlds. -/

theorem SameFor.push (h : SameFor t w w') (i : Nat) (row : Row) :
    SameFor t (w.push i t row) (w'.push i t row) :=
  { h with
    replica := fun j => by simp only [World.push, updateAt, h.replica]
    writes := fun j => by simp only [World.push, updateAt, h.writes, h.position] }

theorem SameFor.remove (h : SameFor t w w') (i rowId : Nat) :
    SameFor t (w.remove i t rowId) (w'.remove i t rowId) :=
  { h with
    replica := fun j => by simp only [World.remove, updateAt, h.replica]
    writes := fun j => by simp only [World.remove, updateAt, h.writes, h.position, h.replica] }

theorem SameFor.fetch (h : SameFor t w w') (since : Nat) :
    SameFor t (w.fetch t since) (w'.fetch t since) :=
  { h with position := update_same (by rw [h.primary]) }

theorem SameFor.count (h : SameFor t w w') (rowId : Int) (op : Text) :
    SameFor t (w.count t rowId op) (w'.count t rowId op) :=
  { h with
    replayed := update_same (by rw [h.replayed])
    position := update_same (by rw [h.position]) }

theorem SameFor.store (h : SameFor t w w') (cursor : Int) :
    SameFor t (w.store t cursor) (w'.store t cursor) :=
  { h with cursor := update_same rfl }

theorem SameFor.serve {α : Type} (h : SameFor t w w') (h₁ : SameFor t w₁ w₁') (o : Outcome)
    {answer answer' : Except PyError α} (hanswer : answer = answer') :
    (serve o answer w w₁).1 = (serve o answer' w' w₁').1 ∧
      SameFor t (serve o answer w w₁).2 (serve o answer' w' w₁').2 := by
  cases o with
  | ok => exact ⟨hanswer, h₁⟩
  | fails e done =>
    cases done with
    | true => exact ⟨rfl, h₁⟩
    | false => exact ⟨rfl, h⟩

/-! Calls for another table do nothing to this one. -/

theorem SameFor.push_other (h : SameFor t w w') (hu : u ≠ t) (i : Nat) (row : Row) :
    SameFor t (w.push i u row) w' :=
  { h with
    replica := fun j => by simp only [World.push, updateAt, hu.symm, and_false, if_false, h.replica]
    writes := fun j => by simp only [World.push, updateAt, hu.symm, and_false, if_false, h.writes] }

theorem SameFor.remove_other (h : SameFor t w w') (hu : u ≠ t) (i rowId : Nat) :
    SameFor t (w.remove i u rowId) w' :=
  { h with
    replica := fun j => by
      simp only [World.remove, updateAt, hu.symm, and_false, if_false, h.replica]
    writes := fun j => by
      simp only [World.remove, updateAt, hu.symm, and_false, if_false, h.writes] }

theorem SameFor.fetch_other (h : SameFor t w w') (hu : u ≠ t) (since : Nat) :
    SameFor t (w.fetch u since) w' :=
  { h with position := (Function.update_of_ne hu.symm _ _).trans h.position }

theorem SameFor.count_other (h : SameFor t w w') (hu : u ≠ t) (rowId : Int) (op : Text) :
    SameFor t (w.count u rowId op) w' :=
  { h with
    replayed := (Function.update_of_ne hu.symm _ _).trans h.replayed
    position := (Function.update_of_ne hu.symm _ _).trans h.position }

theorem SameFor.store_other (h : SameFor t w w') (hu : u ≠ t) (cursor : Int) :
    SameFor t (w.store u cursor) w' :=
  { h with cursor := (Function.update_of_ne hu.symm _ _).trans h.cursor }

theorem SameFor.save_other (h : SameFor t w w') : SameFor t w.save w' := { h with }

theorem SameFor.serve_other {α : Type} (h : SameFor t w w') (h₁ : SameFor t w₁ w')
    (o : Outcome) (answer : Except PyError α) : SameFor t (Replicate.serve o answer w w₁).2 w' := by
  cases o with
  | ok => exact h₁
  | fails e done =>
    cases done with
    | true => exact h₁
    | false => exact h

theorem SameFor.answer_other (codec : RowCodec Row) (h : SameFor t w w') (o : Outcome) {c : Call}
    (hc : c.about t = false) : SameFor t (codec.answer o c w).2 w' := by
  have hne : ∀ {u : TableId}, c.table? = some u → u ≠ t := ne_of_about hc
  cases c with
  | running => exact h
  | checkpointDue => exact h
  | saveCheckpoint =>
    cases o with
    | ok => exact h.save_other
    | fails e done => exact h
  | cursor u => exact h
  | store u cursor => exact h.store_other (hne rfl) cursor
  | replayed u rowId op => exact h.count_other (hne rfl) rowId op
  | log u since =>
    cases o with
    | ok => exact h.fetch_other (hne rfl) since.toNat
    | fails e done => exact h
  | get u rowId =>
    rw [RowCodec.answer]
    split
    · exact h.serve_other h o _
    · exact h.serve_other h o _
  | insert i u row =>
    rw [RowCodec.answer]
    split
    · exact h.serve_other (h.push_other (hne rfl) i _) o _
    · exact h.serve_other h o _
  | delete i u rowId =>
    rw [RowCodec.answer]
    split
    · exact h.serve_other (h.remove_other (hne rfl) i _) o _
    · exact h.serve_other h o _

theorem SameFor.answer_own (codec : RowCodec Row) (h : SameFor t w w') (o : Outcome) {c : Call}
    (hc : c.about t = true) :
    (codec.answer o c w).1 = (codec.answer o c w').1 ∧
      SameFor t (codec.answer o c w).2 (codec.answer o c w').2 := by
  have heq : c.table? = some t := of_decide_eq_true hc
  cases c with
  | running => cases heq
  | checkpointDue => cases heq
  | saveCheckpoint => cases heq
  | cursor u =>
    cases heq
    exact ⟨h.cursor, h⟩
  | store u cursor =>
    cases heq
    exact ⟨rfl, h.store cursor⟩
  | replayed u rowId op =>
    cases heq
    exact ⟨rfl, h.count rowId op⟩
  | log u since =>
    cases heq
    cases o with
    | ok => exact ⟨by simp only [RowCodec.answer, h.primary], h.fetch since.toNat⟩
    | fails e done => exact ⟨rfl, h⟩
  | get u rowId =>
    cases heq
    rw [RowCodec.answer, RowCodec.answer, ← h.primary]
    split
    · exact h.serve h o rfl
    · exact h.serve h o rfl
  | insert i u row =>
    cases heq
    rw [RowCodec.answer, RowCodec.answer]
    split
    · exact h.serve (h.push i _) o (by rw [h.replica i])
    · exact h.serve h o rfl
  | delete i u rowId =>
    cases heq
    rw [RowCodec.answer, RowCodec.answer]
    split
    · exact h.serve (h.remove i _) o (by rw [h.replica i])
    · exact h.serve h o rfl

end SameFor

/-- What fails for the other tables fails with a `CuttleDBError`. -/
def othersCaught (t : TableId) : Rely Call (World Row) (Command Row) Outcome where
  act _ _ := True
  call o c _ := c.about t = false → o = .ok ∨ o.caught = true

/-- The worker goes on with what is answered or fails with a `CuttleDBError`. -/
theorem goesOn_of_caught (codec : RowCodec Row) {o : Outcome} (ho : o = .ok ∨ o.caught = true)
    (c : Call) (w : World Row) : c.GoesOn (codec.answer o c w).1 := by
  have hcases : o = .ok ∨ ∃ m done, o = .fails (.cuttleDBError m) done := by
    rcases ho with ho | ho
    · exact Or.inl ho
    · cases o with
      | ok => cases ho
      | fails e done =>
        cases e with
        | cuttleDBError m => exact Or.inr ⟨m, done, rfl⟩
        | _ => cases ho
  have hserve : ∀ {α : Type} {answer : Except PyError α} (w₁ : World Row), Passable answer →
      Passable (serve o answer w w₁).1 := by
    intro α answer w₁ hanswer
    rcases hcases with rfl | ⟨m, done, rfl⟩
    · exact hanswer
    · trivial
  cases c with
  | log t since =>
    rcases hcases with rfl | ⟨m, done, rfl⟩
    · change Passable (parseLogIn none (renderLog _ _))
      rw [parseLogIn_renderLog]
      trivial
    · trivial
  | get t rowId =>
    rw [RowCodec.answer]
    split
    · exact hserve w trivial
    · exact hserve w trivial
  | insert i t row =>
    rw [RowCodec.answer]
    split
    · exact hserve _ trivial
    · exact hserve w trivial
  | delete i t rowId =>
    rw [RowCodec.answer]
    split
    · exact hserve _ trivial
    · exact hserve w trivial
  | _ => trivial

theorem unwinding (codec : RowCodec Row) (t : TableId) :
    codec.system.Unwinding (Call.about t) Call.GoesOn (othersCaught t) (SameFor t) where
  act cmd w w' h :=
    { h with
      primary := by
        change (w.command cmd).primary = (w'.command cmd).primary
        rw [World.command, World.command, h.primary] }
  owns o c w w' hc h := h.answer_own codec o hc
  other o c w w' hc h := h.answer_other codec o hc
  answers o c w hc ho := goesOn_of_caught codec (ho hc) c w

/-! ### What is compared -/

/-- The calls of a run, each with the primary that it meets. -/
abbrev Calls (Row : Type) : Type := List (Called Call Call.Answer (TableId → Table Row))

/-- The `LOG` and `GET` calls for a table, and the states of the primary. -/
def readsFor (t : TableId) (calls : Calls Row) : List (Call × (TableId → Table Row)) :=
  calls.filterMap fun c =>
    match c.call with
    | .log u since => if u = t then some (.log u since, c.seen) else none
    | .get u rowId => if u = t then some (.get u rowId, c.seen) else none
    | _ => none

/-- The commands that are sent to the replicas for a table. -/
def commandsFor (t : TableId) (calls : Calls Row) : List Call :=
  calls.filterMap fun c =>
    match c.call with
    | .insert i u row => if u = t then some (.insert i u row) else none
    | .delete i u rowId => if u = t then some (.delete i u rowId) else none
    | _ => none

/-- The successive values of the cursor of a table. -/
def cursorsFor (t : TableId) (calls : Calls Row) : List Int :=
  calls.filterMap fun c =>
    match c.call with
    | .store u cursor => if u = t then some cursor else none
    | _ => none

theorem filterMap_about {α : Type} {t : TableId}
    {f : Called Call Call.Answer (TableId → Table Row) → Option α}
    (hf : ∀ c, c.call.about t = false → f c = none) (calls : Calls Row) :
    (calls.filter fun c => c.call.about t).filterMap f = calls.filterMap f := by
  induction calls with
  | nil => rfl
  | cons c calls ih =>
    cases hc : c.call.about t with
    | true => simp only [List.filter_cons, hc, if_true, List.filterMap_cons, ih]
    | false =>
      simp only [List.filter_cons, hc, Bool.false_eq_true, if_false, List.filterMap_cons, hf c hc,
        ih]

section Compared

variable {t : TableId} (calls : Calls Row)

theorem readsFor_about : readsFor t (calls.filter fun c => c.call.about t) = readsFor t calls := by
  refine filterMap_about (fun c hc => ?_) calls
  obtain ⟨seen, call, answer⟩ := c
  cases call with
  | log u since => exact if_neg (ne_of_about hc rfl)
  | get u rowId => exact if_neg (ne_of_about hc rfl)
  | _ => rfl

theorem commandsFor_about :
    commandsFor t (calls.filter fun c => c.call.about t) = commandsFor t calls := by
  refine filterMap_about (fun c hc => ?_) calls
  obtain ⟨seen, call, answer⟩ := c
  cases call with
  | insert i u row => exact if_neg (ne_of_about hc rfl)
  | delete i u rowId => exact if_neg (ne_of_about hc rfl)
  | _ => rfl

theorem cursorsFor_about :
    cursorsFor t (calls.filter fun c => c.call.about t) = cursorsFor t calls := by
  refine filterMap_about (fun c hc => ?_) calls
  obtain ⟨seen, call, answer⟩ := c
  cases call with
  | store u cursor => exact if_neg (ne_of_about hc rfl)
  | _ => rfl

end Compared

/-! ### Two runs -/

/-- The run of the worker for the table alone, beside the run of the worker. -/
theorem runs_beside (codec : RowCodec Row) {r : Replicator} (hnodup : r.tables.Nodup)
    {t : TableId} (ht : t ∈ r.tables) (w : World Row)
    {moves : List (Move (Command Row) Outcome)}
    (halong : codec.system.Along (othersCaught t) r.replayOnce moves ⟨w, r.replayOnce⟩) :
    let alone := (r.alone t).replayOnce
    let moves' := codec.system.project (Call.about t) r.replayOnce moves ⟨w, r.replayOnce⟩
    codec.system.calls World.primary alone moves' ⟨w, alone⟩ =
        (codec.system.calls World.primary r.replayOnce moves ⟨w, r.replayOnce⟩).filter
          (fun c => c.call.about t) ∧
      SameFor t (codec.system.run r.replayOnce moves w).world
        (codec.system.run alone moves' w).world := by
  intro alone moves'
  have hbody : ProjectsTo t r.replayOnce alone := replayOnce_projects hnodup ht
  have hsee : ∀ w w' : World Row, SameFor t w w' → w.primary = w'.primary := fun _ _ h => h.primary
  have hbeside : Beside (Call.about t) Call.GoesOn (SameFor t) (⟨w, r.replayOnce⟩ : Config ..)
      (⟨w, alone⟩ : Config ..) := ⟨hbody, SameFor.refl t w⟩
  obtain ⟨hcalls, -, hend⟩ := (unwinding codec t).run hbody hsee moves hbeside halong
  exact ⟨hcalls, hend⟩

/-- **Tables replicate independently.** In every run of passes in which what fails for the
other tables fails with a `CuttleDBError`, the moves without the calls for the others are
a run of the worker for the table alone: its `LOG` and `GET` calls meet the same states of
the primary, it sends the same commands to the replicas, and its cursor takes the same
values. -/
theorem tables_independent (codec : RowCodec Row) (r : Replicator) (hnodup : r.tables.Nodup)
    {t : TableId} (ht : t ∈ r.tables) (w : World Row)
    (moves : List (Move (Command Row) Outcome))
    (halong : codec.system.Along (othersCaught t) r.replayOnce moves ⟨w, r.replayOnce⟩) :
    let alone := (r.alone t).replayOnce
    let moves' := codec.system.project (Call.about t) r.replayOnce moves ⟨w, r.replayOnce⟩
    let calls := codec.system.calls World.primary r.replayOnce moves ⟨w, r.replayOnce⟩
    let calls' := codec.system.calls World.primary alone moves' ⟨w, alone⟩
    readsFor t calls' = readsFor t calls ∧ commandsFor t calls' = commandsFor t calls ∧
      cursorsFor t calls' = cursorsFor t calls := by
  intro alone moves' calls calls'
  have hcalls : calls' = calls.filter fun c => c.call.about t :=
    (runs_beside codec hnodup ht w halong).1
  rw [hcalls]
  exact ⟨readsFor_about calls, commandsFor_about calls, cursorsFor_about calls⟩

instance decidableOthersAct (t : TableId) (cmd : Command Row) (w : World Row) :
    Decidable ((othersCaught t).act cmd w) := isTrue trivial

instance decidableOthersCall (t : TableId) (o : Outcome) (c : Call) (w : World Row) :
    Decidable ((othersCaught t).call o c w) :=
  inferInstanceAs (Decidable (c.about t = false → o = .ok ∨ o.caught = true))

/-- `LOG` fails for the first of two tables, and a row is inserted into the second one
before its own. -/
theorem tables_independent_log_fails :
    let r : Replicator := ⟨1, [⟨0, 0⟩, ⟨0, 1⟩]⟩
    let w : World TextRow := .synchronized (fun _ => []) fun _ => []
    let moves : List (Move (Command TextRow) Outcome) :=
      [.step .ok, .step (.fails (serverError "bad") false),
        .env ⟨fun id => id, ⟨0, 1⟩, .insert (cells "a")⟩] ++ List.replicate 6 (.step .ok)
    let alone := (r.alone ⟨0, 1⟩).replayOnce
    let moves' := textRows.system.project (Call.about ⟨0, 1⟩) r.replayOnce moves ⟨w, r.replayOnce⟩
    let calls := textRows.system.calls World.primary r.replayOnce moves ⟨w, r.replayOnce⟩
    let calls' := textRows.system.calls World.primary alone moves' ⟨w, alone⟩
    commandsFor ⟨0, 1⟩ calls' = commandsFor ⟨0, 1⟩ calls ∧
      commandsFor ⟨0, 1⟩ calls' = [.insert 0 ⟨0, 1⟩ ['a']] ∧ cursorsFor ⟨0, 1⟩ calls' = [1] := by
  intro r w moves alone moves' calls calls'
  have halong : textRows.system.Along (othersCaught ⟨0, 1⟩) r.replayOnce moves
      ⟨w, r.replayOnce⟩ := by decide +kernel
  refine ⟨(tables_independent textRows r (by decide) (by decide) w moves halong).2.1, ?_, ?_⟩
  · decide +kernel
  · decide +kernel

end CuttleDB.Replicate
