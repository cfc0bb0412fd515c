import CuttleDB.ReplicateOutline

/-!
# Agreement of the replicas

The worker in front of replicas of any kind: a replica is a state and what an insert
and a delete make of it, an error included. All replicas are of one kind. They may
drift away from the primary, whose rows are read while it moves on, but not from each
other: each write goes to every replica, in the same order, and a replica that refuses
it is passed over like the others, which refuse it too.
-/

namespace CuttleDB.Replicate

open Interaction Py

/-! ### Replicas of any kind -/

/-- What the tables of a replica answer to a command, and what it makes of them. An
error is the text behind `-ERR `. -/
structure ReplicaServer (T : Type) where
  insert : TableId → Text → T → Except Text Int × T
  delete : TableId → Int → T → Except Text Bool × T

/-- The worker with its primary, and the tables of each replica. The replicas that
`main` has itself are not looked at. -/
structure Fleet (Row T : Type) where
  main : World Row
  replica : Nat → T

variable {Row T α : Type}

/-- What the client makes of an answer. -/
def reply : Except Text α → Except PyError α
  | .ok a => .ok a
  | .error text => .error (.cuttleDBError (.server text))

def Fleet.write (i : Nat) (step : T → Except Text α × T) (f : Fleet Row T) :
    Except PyError α × Fleet Row T :=
  (reply (step (f.replica i)).1,
    { f with replica := Function.update f.replica i (step (f.replica i)).2 })

/-- The writes are answered by the replicas, every other call as before. -/
def ReplicaServer.answer (codec : RowCodec Row) (server : ReplicaServer T) (o : Outcome) :
    (c : Call) → Fleet Row T → c.Answer × Fleet Row T
  | .insert i t row, f => f.write i (server.insert t row)
  | .delete i t rowId, f => f.write i (server.delete t rowId)
  | c, f => ((codec.answer o c f.main).1, { f with main := (codec.answer o c f.main).2 })

def ReplicaServer.system (codec : RowCodec Row) (server : ReplicaServer T) :
    System Call Call.Answer (Fleet Row T) (Command Row) Outcome where
  act cmd f := { f with main := f.main.command cmd }
  answer := server.answer codec

/-- The replicas that the protocol documents. -/
def RowCodec.replicaServer (codec : RowCodec Row) : ReplicaServer (TableId → List Row) where
  insert t text tables :=
    match codec.parse text with
    | some row => (.ok (tables t).length, Function.update tables t (tables t ++ [row]))
    | none => (.error "bad".toList, tables)
  delete t rowId tables :=
    match slotOf rowId with
    | some n =>
      (.ok (decide (n < (tables t).length)),
        Function.update tables t (SwapRemove.swapRemove (tables t) n))
    | none => (.ok false, tables)

/-- The replicas of a world, as replicas of a kind. -/
def World.fleet (w : World Row) : Fleet Row (TableId → List Row) := ⟨w, w.replica⟩

theorem update_updateAt (i : Nat) (t : TableId) (g : List Row → List Row)
    (x : Nat → TableId → List Row) :
    updateAt i t g x = Function.update x i (Function.update (x i) t (g (x i t))) := by
  funext j u
  unfold updateAt
  by_cases hj : j = i
  · subst hj
    rw [Function.update_self]
    by_cases hu : u = t
    · subst hu
      simp
    · rw [if_neg fun h => hu h.2, Function.update_of_ne hu]
  · rw [if_neg fun h => hj h.1, Function.update_of_ne hj]

/-- Writes that are answered do the same to the documented replicas, seen either way. -/
theorem answer_replicaServer (codec : RowCodec Row) (w : World Row) (e : Call)
    (he : (∃ i t row, e = .insert i t row) ∨ ∃ i t rowId, e = .delete i t rowId) :
    (codec.replicaServer.answer codec .ok e w.fleet).1 = (codec.answer .ok e w).1 ∧
      (codec.replicaServer.answer codec .ok e w.fleet).2.replica =
        (codec.answer .ok e w).2.replica := by
  rcases he with ⟨i, t, text, rfl⟩ | ⟨i, t, rowId, rfl⟩
  · cases hparse : codec.parse text with
    | none =>
      simp [ReplicaServer.answer, RowCodec.answer, RowCodec.replicaServer, hparse, World.fleet,
        Fleet.write, reply, serve, serverError]
    | some row =>
      simp [ReplicaServer.answer, RowCodec.answer, RowCodec.replicaServer, hparse, World.fleet,
        Fleet.write, reply, serve, World.push, update_updateAt]
  · cases hslot : slotOf rowId with
    | none =>
      simp [ReplicaServer.answer, RowCodec.answer, RowCodec.replicaServer, hslot, World.fleet,
        Fleet.write, reply, serve]
    | some n =>
      simp [ReplicaServer.answer, RowCodec.answer, RowCodec.replicaServer, hslot, World.fleet,
        Fleet.write, reply, serve, World.remove, update_updateAt]

/-! ### Agreement -/

def Agree (n : Nat) (f : Fleet Row T) : Prop := ∀ i < n, ∀ j < n, f.replica i = f.replica j

/-- The first `i` of `n` equal replicas have done a step. -/
def Halfway (n : Nat) (step : T → T) (i : Nat) (f : Fleet Row T) : Prop :=
  ∃ s, ∀ j < n, f.replica j = if j < i then step s else s

theorem Agree.halfway {n : Nat} {f : Fleet Row T} (h : Agree n f) (step : T → T) :
    Halfway n step 0 f := by
  refine ⟨f.replica 0, fun j hj => ?_⟩
  rw [if_neg (Nat.not_lt_zero j)]
  exact h j hj 0 (by omega)

theorem Halfway.agree {n : Nat} {step : T → T} {f : Fleet Row T} (h : Halfway n step n f) :
    Agree n f := by
  obtain ⟨s, hs⟩ := h
  intro i hi j hj
  rw [hs i hi, hs j hj, if_pos hi, if_pos hj]

theorem Halfway.write {n i : Nat} {step : T → Except Text α × T} {f : Fleet Row T}
    (h : Halfway n (fun s => (step s).2) i f) (hi : i < n) :
    Halfway n (fun s => (step s).2) (i + 1) (f.write i step).2 := by
  obtain ⟨s, hs⟩ := h
  refine ⟨s, fun j hj => ?_⟩
  change Function.update f.replica i _ j = _
  by_cases hji : j = i
  · subst hji
    rw [Function.update_self, hs j hi, if_neg (Nat.lt_irrefl j), if_pos (Nat.lt_succ_self j)]
  · rw [Function.update_of_ne hji, hs j hj]
    by_cases hlt : j < i
    · rw [if_pos hlt, if_pos (by omega)]
    · rw [if_neg hlt, if_neg (by omega)]

/-- A call that writes to a replica. -/
def Call.IsWrite : Call → Prop
  | .insert _ _ _ => True
  | .delete _ _ _ => True
  | _ => False

/-- Nothing is assumed of the other clients and of how the calls go. -/
def anything : Rely Call (Fleet Row T) (Command Row) Outcome := ⟨fun _ _ => True, fun _ _ _ => True⟩

section Runs

variable {codec : RowCodec Row} {server : ReplicaServer T} {r : Replicator} {β : Type}

/-- The replicas agree at every call of a program but the writes, and at its end. -/
def KeepsAgreement (codec : RowCodec Row) (server : ReplicaServer T) (r : Replicator)
    (p : Worker β) (f : Fleet Row T) : Prop :=
  (server.system codec).Safe anything (fun e f => ¬ e.IsWrite → Agree r.replicas f)
    (fun _ => Agree r.replicas) (fun _ => Agree r.replicas) p f

theorem stable_agree {n : Nat} : (server.system codec).Stable anything (Agree n) :=
  fun _ _ _ h => h

theorem stable_halfway {n i : Nat} {step : T → T} :
    (server.system codec).Stable anything (Halfway n step i) := fun _ _ _ h => h

theorem KeepsAgreement.ret (b : β) {f : Fleet Row T} (h : Agree r.replicas f) :
    KeepsAgreement codec server r (pure b) f :=
  System.Safe.ret stable_agree h fun _ h => h

/-- A call that is not a write. -/
theorem KeepsAgreement.call {e : Call} (he : ¬ e.IsWrite) {k : e.Answer → Worker β}
    (hk : ∀ a f, Agree r.replicas f → KeepsAgreement codec server r (k a) f) {f : Fleet Row T}
    (h : Agree r.replicas f) : KeepsAgreement codec server r (perform e >>= k) f := by
  apply System.Safe.call stable_agree h
  · exact fun _ h _ => h
  · intro o f h _
    apply hk
    have hsame : ((server.system codec).answer o e f).2.replica = f.replica := by
      cases e with
      | insert i t row => exact absurd trivial he
      | delete i t rowId => exact absurd trivial he
      | _ => rfl
    unfold Agree
    rw [hsame]
    exact h

/-- A call that may raise, with its handler. -/
theorem KeepsAgreement.attempt {answer : Except PyError α} {body : α → Worker β}
    {handler : Worker β} {f : Fleet Row T} (h : Agree r.replicas f)
    (hbody : ∀ a, KeepsAgreement codec server r (body a) f)
    (hhandler : KeepsAgreement codec server r handler f) :
    KeepsAgreement codec server r (Replicate.attempt answer body handler) f := by
  have hraised : ∀ x, KeepsAgreement (β := β) codec server r (.raise (.raised x)) f := fun x =>
    System.Safe.raise stable_agree h fun _ h => h
  cases answer with
  | ok a => exact hbody a
  | error x =>
    cases x with
    | cuttleDBError m => exact hhandler
    | socketTimeout => exact hraised _
    | blockingIOError => exact hraised _
    | unicodeDecodeError => exact hraised _
    | valueError => exact hraised _

theorem KeepsAgreement.bind {γ : Type} {p : Worker β} {k : β → Worker γ} {f : Fleet Row T}
    (hp : KeepsAgreement codec server r p f)
    (hk : ∀ b f, Agree r.replicas f → KeepsAgreement codec server r (k b) f) :
    KeepsAgreement codec server r (p >>= k) f := by
  apply System.Safe.bind
  exact System.Safe.mono (fun _ _ h => h) (fun b f h => hk b f h) hp

theorem KeepsAgreement.foldlM {γ : Type} {k : β → γ → Worker β}
    (hk : ∀ b c f, Agree r.replicas f → KeepsAgreement codec server r (k b c) f) (cs : List γ)
    (b : β) {f : Fleet Row T} (h : Agree r.replicas f) :
    KeepsAgreement codec server r (cs.foldlM k b) f :=
  System.Safe.foldlM (I := fun _ => Agree r.replicas) stable_agree
    (fun c _ b f h => hk b c f h) cs h

/-- **The loop over the replicas**: a write that is the same for all of them. -/
theorem writes_keepAgreement {e : Nat → Call} {write : Nat → Worker Unit}
    (step : T → Except Text α × T) (he : ∀ i, (e i).IsWrite)
    (hwrite : ∀ i, ∃ k : (e i).Answer → Worker Unit, write i = perform (e i) >>= k ∧
      ∀ o f, ((server.system codec).answer o (e i) f).2 = (f.write i step).2 ∧
        k ((server.system codec).answer o (e i) f).1 = pure ())
    {f : Fleet Row T} (h : Agree r.replicas f) :
    KeepsAgreement codec server r ((List.range r.replicas).foldlM (fun _ => write) ()) f := by
  let advance : T → T := fun s => (step s).2
  have hloop : (server.system codec).Safe anything (fun e f => ¬ e.IsWrite → Agree r.replicas f)
      (fun _ => Agree r.replicas) (fun _ => Halfway r.replicas advance r.replicas)
      ((List.range r.replicas).foldlM (fun _ => write) ()) f := by
    apply System.Safe.foldlM_range stable_halfway _ (h.halfway advance)
    intro i hi f h
    obtain ⟨k, hprog, hanswer⟩ := hwrite i
    rw [hprog]
    apply System.Safe.call stable_halfway h
    · exact fun _ _ hnot => absurd (he i) hnot
    · intro o f h _
      obtain ⟨hstep, hk⟩ := hanswer o f
      rw [hk, hstep]
      exact System.Safe.ret stable_halfway (h.write hi) fun _ h => h
  exact hloop.mono (fun _ _ h => h) fun _ _ h => Halfway.agree h

theorem attempt_reply (a : Except Text α) :
    attempt (reply a) (fun _ => (pure () : Worker Unit)) (pure ()) = pure () := by
  cases a <;> rfl

theorem replayOp_keepsAgreement (t : TableId) (rowId : Int) (op : Text) {f : Fleet Row T}
    (h : Agree r.replicas f) : KeepsAgreement codec server r (r.replayOp t rowId op) f := by
  unfold Replicator.replayOp
  split
  · apply KeepsAgreement.call (by simp [Call.IsWrite]) _ h
    intro answer f h
    apply KeepsAgreement.attempt h _ (.ret () h)
    intro body
    apply writes_keepAgreement (e := fun i => .insert i t (insertRow (splitWireRow body)))
      (server.insert t (insertRow (splitWireRow body))) (fun _ => trivial) _ h
    exact fun i => ⟨_, rfl, fun o f => ⟨rfl, attempt_reply _⟩⟩
  · split
    · apply writes_keepAgreement (e := fun i => .delete i t rowId) (server.delete t rowId)
        (fun _ => trivial) _ h
      exact fun i => ⟨_, rfl, fun o f => ⟨rfl, attempt_reply _⟩⟩
    · exact .ret () h

theorem replayEvent_keepsAgreement (t : TableId) (rowId : Int) (op : Text) {f : Fleet Row T}
    (h : Agree r.replicas f) : KeepsAgreement codec server r (r.replayEvent t rowId op) f := by
  apply KeepsAgreement.bind (replayOp_keepsAgreement t rowId op h)
  intro _ f h
  exact KeepsAgreement.call (by simp [Call.IsWrite]) (fun _ _ h => .ret _ h) h

theorem replayTable_keepsAgreement (total : Nat) (t : TableId) {f : Fleet Row T}
    (h : Agree r.replicas f) : KeepsAgreement codec server r (r.replayTable total t) f := by
  apply KeepsAgreement.call (by simp [Call.IsWrite]) _ h
  intro since f h
  apply KeepsAgreement.call (by simp [Call.IsWrite]) _ h
  intro answer f h
  apply KeepsAgreement.attempt h _ (.ret total h)
  rintro ⟨cursor, events⟩
  apply KeepsAgreement.bind
  · apply KeepsAgreement.foldlM _ events total h
    intro total event f h
    apply KeepsAgreement.bind (replayEvent_keepsAgreement t _ _ h)
    exact fun _ _ h => .ret _ h
  · intro total f h
    exact KeepsAgreement.call (by simp [Call.IsWrite]) (fun _ _ h => .ret _ h) h

/-- One turn of the loop, with `close` behind it. -/
theorem run_keepsAgreement {f : Fleet Row T} (h : Agree r.replicas f) :
    KeepsAgreement codec server r r.run f := by
  apply System.Safe.handle
  apply System.Safe.mono (X := fun _ => Agree r.replicas) (Q := fun _ => Agree r.replicas)
  · intro exit f h
    apply System.Safe.call stable_agree h
    · exact fun _ h _ => h
    · intro o f h _
      exact System.Safe.raise stable_agree h fun _ h => h
  · exact fun _ _ h => h
  · apply KeepsAgreement.call (by simp [Call.IsWrite]) _ h
    intro running f h
    split
    · apply KeepsAgreement.bind
      · exact KeepsAgreement.foldlM (fun _ t _ h => replayTable_keepsAgreement _ t h) _ _ h
      · intro _ f h
        apply KeepsAgreement.call (by simp [Call.IsWrite]) _ h
        intro due f h
        split
        · exact KeepsAgreement.call (by simp [Call.IsWrite]) (fun _ _ h => .ret () h) h
        · exact .ret () h
    · exact System.Safe.raise stable_agree h fun _ h => h

end Runs

/-- Whatever the other clients do to the primary and however the calls of the primary go,
the replicas are equal to each other whenever the worker is not in the middle of handing
one event to them. -/
theorem run_replicas_agree (codec : RowCodec Row) (server : ReplicaServer T) (r : Replicator)
    (f : Fleet Row T) (hstart : Agree r.replicas f) (moves : List (Move (Command Row) Outcome))
    (hdone : ∀ e, ((server.system codec).run r.run moves f).prog.next = some e → ¬ e.IsWrite) :
    Agree r.replicas ((server.system codec).run r.run moves f).world := by
  have hkeeps : ∀ f : Fleet Row T, Agree r.replicas f →
      KeepsAgreement codec server r r.run f := fun _ h => run_keepsAgreement h
  have hrun := System.Safe.run hkeeps moves hstart
    (System.along_of_forall (fun _ _ => trivial) (fun _ _ _ => trivial) _ moves _)
  split at hrun
  · exact hrun
  · exact hrun
  · rename_i heq
    exact hrun (hdone _ (by rw [heq]; rfl))

/-- Two replicas that both miss a row which has moved on the primary. -/
theorem run_replicas_agree_moved :
    let commands : List (Mutation TextRow) := [.insert (cells "a"), .insert (cells "b"), .delete 0]
    let moves := commands.map (fun m => .env ⟨fun id => id, ⟨0, 0⟩, m⟩) ++
      List.replicate 11 (.step .ok)
    let f := ((textRows.replicaServer.system textRows).run (Replicator.mk 2 [⟨0, 0⟩]).run moves
      (World.synchronized (fun _ => []) fun _ => []).fleet).world
    f.replica 0 = f.replica 1 ∧
      f.replica 0 ⟨0, 0⟩ = [] ∧ (f.main.primary ⟨0, 0⟩).rows = [cells "b"] := by
  intro commands moves f
  have hdone : ((textRows.replicaServer.system textRows).run (Replicator.mk 2 [⟨0, 0⟩]).run moves
      (World.synchronized (fun _ => []) fun _ => []).fleet).prog.next =
        some (.replayed ⟨0, 0⟩ 0 ['D']) := by
    decide +kernel
  have hagree := run_replicas_agree textRows textRows.replicaServer ⟨2, [⟨0, 0⟩]⟩
    (World.synchronized (fun _ => []) fun _ => []).fleet (fun _ _ _ _ => rfl) moves
    (fun e he => by
      rw [hdone] at he
      obtain rfl := Option.some.inj he
      exact fun h => h)
  exact ⟨hagree 0 (by decide) 1 (by decide), by decide +kernel⟩

end CuttleDB.Replicate
