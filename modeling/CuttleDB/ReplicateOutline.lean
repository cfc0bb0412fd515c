import CuttleDB.Replicate

/-!
# Proof outlines of a pass

What has to be shown about `replay_once`, once for all claims about it: an assertion
for every point of the pass, each kept by the commands of the other clients, and one
condition for every call. The rules of the logic then give the pass, and with the
checkpoints the whole loop of `run`.
-/

namespace CuttleDB.Replicate

open Interaction Py SwapRemove

variable {Row : Type}

/-! ### What the calls answer -/

theorem slotOf_natCast (n : Nat) : slotOf (n : Int) = some n := rfl

theorem splitWireRow_print (codec : RowCodec Row) (row : Row) :
    splitWireRow (renderRow (codec.print row)) = codec.print row :=
  splitWireRow_renderRow (codec.print_ne_nil row)

theorem answer_get_some (codec : RowCodec Row) {o : Outcome} {t : TableId} {n : Nat}
    {w : World Row} {s : Slot Row} (hs : (w.primary t).slots[n]? = some s) :
    codec.answer o (.get t n) w = serve o (.ok (renderRow (codec.print s.row))) w w := by
  have hslot : ((slotOf n).bind fun n => (w.primary t).slots[n]?) = some s := by
    rw [slotOf_natCast, Option.bind_some, hs]
  rw [RowCodec.answer, hslot]

theorem answer_get_none (codec : RowCodec Row) {o : Outcome} {t : TableId} {n : Nat}
    {w : World Row} (hs : (w.primary t).slots[n]? = none) :
    codec.answer o (.get t n) w = serve o (.error (serverError "not found")) w w := by
  have hslot : ((slotOf n).bind fun n => (w.primary t).slots[n]?) = none := by
    rw [slotOf_natCast, Option.bind_some, hs]
  rw [RowCodec.answer, hslot]

theorem answer_get_fails (codec : RowCodec Row) {x : PyError} {done : Bool} {t : TableId}
    {n : Nat} {w : World Row} : codec.answer (.fails x done) (.get t n) w = (.error x, w) := by
  cases hs : (w.primary t).slots[n]? with
  | some s =>
    rw [answer_get_some codec hs]
    exact Prod.ext rfl (ite_self w)
  | none =>
    rw [answer_get_none codec hs]
    exact Prod.ext rfl (ite_self w)

theorem answer_insert (codec : RowCodec Row) {o : Outcome} {i : Nat} {t : TableId} {row : Row}
    {w : World Row} :
    codec.answer o (.insert i t (insertRow (codec.print row))) w =
      serve o (.ok ((w.replica i t).length : Int)) w (w.push i t row) := by
  rw [RowCodec.answer, codec.parse_print]

/-! ### The outline -/

/-- A point of the pass inside the loop over the entries of a table: before the next
entry; before the write to the given replica, of a row or of a deletion; and before an
entry is counted. -/
inductive Phase (Row : Type) where
  | next (events : List LogEvent)
  | write (event : LogEvent) (events : List LogEvent) (row : Option Row) (replica : Nat)
  | count (event : LogEvent) (events : List LogEvent)

/-- The entries that a pass has read and not counted yet. -/
def Phase.pending : Phase Row → List LogEvent
  | .next events => events
  | .write event events _ _ => event :: events
  | .count event events => event :: events

structure Outline (codec : RowCodec Row) (rely : Rely Call (World Row) (Command Row) Outcome)
    (J : Call → World Row → Prop) (r : Replicator) where
  /-- before the given tables of the pass -/
  idle : List TableId → World Row → Prop
  /-- while a table is replayed up to the given cursor, before the given tables -/
  within : List TableId → TableId → Nat → Phase Row → World Row → Prop
  stable_idle : ∀ ts, codec.system.Stable rely (idle ts)
  stable_within : ∀ ts t c p, codec.system.Stable rely (within ts t c p)
  call_idle : ∀ ts w e, (∀ t c, e ≠ .store t c) → idle ts w → J e w
  call_within : ∀ ts t c p w e, (∀ t c, e ≠ .store t c) → within ts t c p w → J e w
  call_store : ∀ ts t c w, within ts t c (.next []) w → J (.store t c) w
  start : ∀ w, idle [] w → idle r.tables w
  log_ok : ∀ ts t w, t ∈ r.tables → idle (t :: ts) w → rely.call .ok (.log t (w.cursors t)) w →
    let table := w.primary t
    let since := (w.cursors t).toNat
    within ts t table.log.length (.next (table.log.drop (firstKept since table))) (w.fetch t since)
  log_fails : ∀ ts t w m done, idle (t :: ts) w →
    rely.call (.fails (.cuttleDBError m) done) (.log t (w.cursors t)) w → idle ts w
  get_ok : ∀ ts t c e es w, e.op = .insert → within ts t c (.next (e :: es)) w →
    rely.call .ok (.get t e.rowId) w →
    match (w.primary t).slots[e.rowId]? with
    | some s => within ts t c (.write e es (some s.row) 0) w
    | none => within ts t c (.count e es) w
  get_fails : ∀ ts t c e es w m done, e.op = .insert → within ts t c (.next (e :: es)) w →
    rely.call (.fails (.cuttleDBError m) done) (.get t e.rowId) w → within ts t c (.count e es) w
  delete_first : ∀ ts t c e es w, e.op = .delete → within ts t c (.next (e :: es)) w →
    within ts t c (.write e es none 0) w
  update_skip : ∀ ts t c e es w, e.op = .update → within ts t c (.next (e :: es)) w →
    within ts t c (.count e es) w
  insert_ok : ∀ ts t c e es row i w, i < r.replicas →
    within ts t c (.write e es (some row) i) w →
    rely.call .ok (.insert i t (insertRow (codec.print row))) w →
    within ts t c (.write e es (some row) (i + 1)) (w.push i t row)
  insert_fails : ∀ ts t c e es row i w m done, i < r.replicas →
    within ts t c (.write e es (some row) i) w →
    rely.call (.fails (.cuttleDBError m) done) (.insert i t (insertRow (codec.print row))) w →
    within ts t c (.write e es (some row) (i + 1)) (if done then w.push i t row else w)
  insert_raises : ∀ ts t c e es row i w x done, i < r.replicas →
    within ts t c (.write e es (some row) i) w →
    rely.call (.fails x done) (.insert i t (insertRow (codec.print row))) w →
    ∃ p, within ts t c p (if done then w.push i t row else w)
  delete_ok : ∀ ts t c e es i w, i < r.replicas → within ts t c (.write e es none i) w →
    rely.call .ok (.delete i t e.rowId) w →
    within ts t c (.write e es none (i + 1)) (w.remove i t e.rowId)
  delete_fails : ∀ ts t c e es i w m done, i < r.replicas →
    within ts t c (.write e es none i) w →
    rely.call (.fails (.cuttleDBError m) done) (.delete i t e.rowId) w →
    within ts t c (.write e es none (i + 1)) (if done then w.remove i t e.rowId else w)
  delete_raises : ∀ ts t c e es i w x done, i < r.replicas →
    within ts t c (.write e es none i) w → rely.call (.fails x done) (.delete i t e.rowId) w →
    ∃ p, within ts t c p (if done then w.remove i t e.rowId else w)
  written : ∀ ts t c e es row w, within ts t c (.write e es row r.replicas) w →
    within ts t c (.count e es) w
  count : ∀ ts t c e es w, within ts t c (.count e es) w →
    within ts t c (.next es) (w.count t e.rowId e.op.text)
  store : ∀ ts t c w, within ts t c (.next []) w → idle ts (w.store t c)

/-- Where an exception can have ended the pass; it has come from a call that failed. -/
def Outline.Crash {codec : RowCodec Row} {rely : Rely Call (World Row) (Command Row) Outcome}
    {J : Call → World Row → Prop} {r : Replicator} (o : Outline codec rely J r)
    (w : World Row) : Prop :=
  ((∃ ts, o.idle ts w) ∨ ∃ ts t c p, o.within ts t c p w) ∧
    ∃ x done e w', rely.call (.fails x done) e w'

section Rules

variable {codec : RowCodec Row} {rely : Rely Call (World Row) (Command Row) Outcome}
  {J : Call → World Row → Prop} {r : Replicator} (o : Outline codec rely J r)

/-- A call that fails: the handler, or the end of the pass. -/
theorem Outline.attempt_safe {α β : Type} {Q : β → World Row → Prop} {e : Call} {x : PyError}
    {done : Bool} {w₀ w : World Row} (hrely : rely.call (.fails x done) e w₀)
    {body : α → Worker β} {handler : Worker β} {P : World Row → Prop}
    (hstable : codec.system.Stable rely P) (hw : P w)
    (hcrash : ∀ w, P w → (∃ ts, o.idle ts w) ∨ ∃ ts t c p, o.within ts t c p w)
    (hcaught : ∀ m, x = .cuttleDBError m →
      codec.system.Safe rely J (fun _ => o.Crash) Q handler w) :
    codec.system.Safe rely J (fun _ => o.Crash) Q (attempt (.error x) body handler) w := by
  have hraised : codec.system.Safe rely J (fun _ => o.Crash) Q (.raise (Exit.raised x)) w :=
    System.Safe.raise hstable hw fun w hw => ⟨hcrash w hw, x, done, e, w₀, hrely⟩
  cases x with
  | cuttleDBError m => exact hcaught m rfl
  | socketTimeout => exact hraised
  | blockingIOError => exact hraised
  | unicodeDecodeError => exact hraised
  | valueError => exact hraised

/-- A write that fails: the warning is printed, or the pass ends. -/
theorem Outline.failedWrite_safe {α : Type} {call : Call} {x : PyError} {done : Bool}
    {w₀ w : World Row} (hrely : rely.call (.fails x done) call w₀) {ts : List TableId}
    {t : TableId} {c : Nat} {p q : Phase Row} (hp : o.within ts t c p w)
    (hafter : ∀ m, x = .cuttleDBError m → o.within ts t c q w) {body : α → Worker Unit} :
    codec.system.Safe rely J (fun _ => o.Crash) (fun _ => o.within ts t c q)
      (attempt (.error x) body (pure ())) w := by
  apply o.attempt_safe hrely (o.stable_within ts t c p) hp
  · exact fun w hw => .inr ⟨ts, t, c, p, hw⟩
  · intro m hm
    exact System.Safe.ret (o.stable_within ts t c q) (hafter m hm) fun _ h => h

/-- The write to one replica. -/
theorem Outline.insertInto_safe {ts : List TableId} {t : TableId} {c : Nat} {e : LogEvent}
    {es : List LogEvent} {row : Row} {i : Nat} (hi : i < r.replicas) {w : World Row}
    (hw : o.within ts t c (.write e es (some row) i) w) :
    codec.system.Safe rely J (fun _ => o.Crash)
      (fun _ => o.within ts t c (.write e es (some row) (i + 1)))
      (Replicator.insertInto t (codec.print row) i) w := by
  apply System.Safe.call (o.stable_within ts t c _) hw
  · exact fun w hw => o.call_within ts t c _ w _ (by simp) hw
  · intro outcome w hw hrely
    rw [show codec.system.answer = codec.answer from rfl, answer_insert]
    cases outcome with
    | ok =>
      have hafter := o.insert_ok ts t c e es row i w hi hw hrely
      exact System.Safe.ret (o.stable_within ts t c _) hafter fun _ h => h
    | fails x done =>
      obtain ⟨p, hp⟩ := o.insert_raises ts t c e es row i w x done hi hw hrely
      apply o.failedWrite_safe hrely hp
      rintro m rfl
      exact o.insert_fails ts t c e es row i w m done hi hw hrely

theorem Outline.deleteFrom_safe {ts : List TableId} {t : TableId} {c : Nat} {e : LogEvent}
    {es : List LogEvent} {i : Nat} (hi : i < r.replicas) {w : World Row}
    (hw : o.within ts t c (.write e es none i) w) :
    codec.system.Safe rely J (fun _ => o.Crash)
      (fun _ => o.within ts t c (.write e es none (i + 1)))
      (Replicator.deleteFrom t e.rowId i) w := by
  apply System.Safe.call (o.stable_within ts t c _) hw
  · exact fun w hw => o.call_within ts t c _ w _ (by simp) hw
  · intro outcome w hw hrely
    cases outcome with
    | ok =>
      have hafter := o.delete_ok ts t c e es i w hi hw hrely
      exact System.Safe.ret (o.stable_within ts t c _) hafter fun _ h => h
    | fails x done =>
      obtain ⟨p, hp⟩ := o.delete_raises ts t c e es i w x done hi hw hrely
      apply o.failedWrite_safe hrely hp
      rintro m rfl
      exact o.delete_fails ts t c e es i w m done hi hw hrely

/-- The loop over the replicas. -/
theorem Outline.writes_safe {ts : List TableId} {t : TableId} {c : Nat} {e : LogEvent}
    {es : List LogEvent} {row : Option Row} {write : Nat → Worker Unit}
    (hwrite : ∀ i < r.replicas, ∀ w, o.within ts t c (.write e es row i) w →
      codec.system.Safe rely J (fun _ => o.Crash)
        (fun _ => o.within ts t c (.write e es row (i + 1))) (write i) w)
    {w : World Row} (hw : o.within ts t c (.write e es row 0) w) :
    codec.system.Safe rely J (fun _ => o.Crash) (fun _ => o.within ts t c (.count e es))
      ((List.range r.replicas).foldlM (fun _ => write) ()) w := by
  have hloop := System.Safe.foldlM_range (o.stable_within ts t c (.write e es row r.replicas))
    hwrite hw
  exact hloop.mono (fun _ _ hx => hx) fun _ w hw => o.written ts t c e es row w hw

theorem Outline.replayOp_safe {ts : List TableId} {t : TableId} {c : Nat} {e : LogEvent}
    {es : List LogEvent} {w : World Row} (hw : o.within ts t c (.next (e :: es)) w) :
    codec.system.Safe rely J (fun _ => o.Crash) (fun _ => o.within ts t c (.count e es))
      (r.replayOp t e.rowId e.op.text) w := by
  have hstable := o.stable_within ts t c (.next (e :: es))
  have hcount := o.stable_within ts t c (.count e es)
  unfold Replicator.replayOp
  cases hop : e.op with
  | insert =>
    have htext : LogOp.insert.text = ['I'] := rfl
    rw [if_pos htext]
    apply System.Safe.call hstable hw
    · exact fun w hw => o.call_within ts t c _ w _ (by simp) hw
    · intro outcome w hw hrely
      cases outcome with
      | ok =>
        have hget := o.get_ok ts t c e es w hop hw hrely
        cases hs : (w.primary t).slots[e.rowId]? with
        | some s =>
          rw [hs] at hget
          rw [show codec.system.answer = codec.answer from rfl, answer_get_some codec hs]
          dsimp only [serve, attempt]
          rw [splitWireRow_print]
          exact o.writes_safe (fun i hi w hw => o.insertInto_safe hi hw) hget
        | none =>
          rw [hs] at hget
          rw [show codec.system.answer = codec.answer from rfl, answer_get_none codec hs]
          exact System.Safe.ret hcount hget fun _ h => h
      | fails x done =>
        rw [show codec.system.answer = codec.answer from rfl, answer_get_fails]
        apply o.attempt_safe hrely hstable hw
        · exact fun w hw => .inr ⟨ts, t, c, _, hw⟩
        · rintro m rfl
          have hskip := o.get_fails ts t c e es w m done hop hw hrely
          exact System.Safe.ret hcount hskip fun _ h => h
  | delete =>
    have htext : LogOp.delete.text = ['D'] := rfl
    rw [if_neg (by decide), if_pos htext]
    have hfirst := o.delete_first ts t c e es w hop hw
    exact o.writes_safe (fun i hi w hw => o.deleteFrom_safe hi hw) hfirst
  | update =>
    rw [if_neg (by decide), if_neg (by decide)]
    exact System.Safe.ret hcount (o.update_skip ts t c e es w hop hw) fun _ h => h

theorem Outline.replayEvent_safe {ts : List TableId} {t : TableId} {c : Nat} {e : LogEvent}
    {es : List LogEvent} {w : World Row} (hw : o.within ts t c (.next (e :: es)) w) :
    codec.system.Safe rely J (fun _ => o.Crash) (fun _ => o.within ts t c (.next es))
      (r.replayEvent t e.rowId e.op.text) w := by
  apply System.Safe.bind
  apply (o.replayOp_safe hw).mono fun _ _ hx => hx
  intro _ w hw
  apply System.Safe.call (o.stable_within ts t c _) hw
  · exact fun w hw => o.call_within ts t c _ w _ (by simp) hw
  · intro outcome w hw _
    exact System.Safe.ret (o.stable_within ts t c _) (o.count ts t c e es w hw) fun _ h => h

theorem Outline.replayEntry_safe {ts : List TableId} {t : TableId} {c total : Nat}
    {e : LogEvent} {es : List LogEvent} {w : World Row}
    (hw : o.within ts t c (.next (e :: es)) w) :
    codec.system.Safe rely J (fun _ => o.Crash) (fun _ => o.within ts t c (.next es))
      (r.replayEntry t total (entryOf e)) w := by
  apply System.Safe.bind
  apply (o.replayEvent_safe hw).mono fun _ _ hx => hx
  exact fun _ w hw => System.Safe.ret (o.stable_within ts t c _) hw fun _ h => h

/-- The loop over the entries of a table. -/
theorem Outline.replayEntries_safe {ts : List TableId} {t : TableId} {c total : Nat}
    {events : List LogEvent} {w : World Row} (hw : o.within ts t c (.next events) w) :
    codec.system.Safe rely J (fun _ => o.Crash) (fun _ => o.within ts t c (.next []))
      ((events.map entryOf).foldlM (r.replayEntry t) total) w := by
  rw [List.foldlM_map]
  exact System.Safe.foldlM (I := fun es => o.within ts t c (.next es)) (o.stable_within ts t c _)
    (fun e es total w hw => o.replayEntry_safe hw) events hw

theorem Outline.replayTable_safe {ts : List TableId} {t : TableId} (ht : t ∈ r.tables)
    {total : Nat} {w : World Row} (hw : o.idle (t :: ts) w) :
    codec.system.Safe rely J (fun _ => o.Crash) (fun _ => o.idle ts) (r.replayTable total t) w := by
  have hidle := o.stable_idle (t :: ts)
  apply System.Safe.call hidle hw
  · exact fun w hw => o.call_idle _ w _ (by simp) hw
  · intro outcome w hw _
    change codec.system.Safe rely J (fun _ => o.Crash) (fun _ => o.idle ts)
      (perform (.log t (w.cursors t)) >>= _) w
    generalize hsince : w.cursors t = since
    have hstable : codec.system.Stable rely fun w => o.idle (t :: ts) w ∧ w.cursors t = since :=
      fun a w hact h => ⟨hidle a w hact h.1, h.2⟩
    apply System.Safe.call hstable ⟨hw, hsince⟩
    · exact fun w hw => o.call_idle _ w _ (by simp) hw.1
    · rintro outcome w ⟨hw, rfl⟩ hrely
      cases outcome with
      | ok =>
        have hwithin := o.log_ok ts t w ht hw hrely
        change codec.system.Safe _ _ _ _ (attempt (parseLogIn none (renderLog _ _)) _ _) _
        rw [parseLogIn_renderLog]
        dsimp only [attempt]
        apply System.Safe.bind
        apply (o.replayEntries_safe hwithin).mono fun _ _ hx => hx
        intro total w hw
        apply System.Safe.call (o.stable_within ts t _ _) hw
        · exact fun w hw => o.call_store ts t _ w hw
        · exact fun _ w hw _ =>
            System.Safe.ret (o.stable_idle ts) (o.store ts t _ w hw) fun _ h => h
      | fails x done =>
        apply o.attempt_safe hrely hidle hw
        · exact fun w hw => .inl ⟨_, hw⟩
        · rintro m rfl
          have hskip := o.log_fails ts t w m done hw hrely
          exact System.Safe.ret (o.stable_idle ts) hskip fun _ h => h

/-- **A pass goes from the first table to the last**, by the outline. -/
theorem Outline.replayOnce_safe {w : World Row} (hw : o.idle r.tables w) :
    codec.system.Safe rely J (fun _ => o.Crash) (fun _ => o.idle []) r.replayOnce w := by
  have hloop : codec.system.Safe rely J (fun _ => o.Crash)
      (fun _ w => (∀ t ∈ ([] : List TableId), t ∈ r.tables) ∧ o.idle [] w) r.replayOnce w := by
    apply System.Safe.foldlM (I := fun ts w => (∀ t ∈ ts, t ∈ r.tables) ∧ o.idle ts w)
    · exact fun a w hact h => ⟨h.1, o.stable_idle [] a w hact h.2⟩
    · intro t ts total w h
      apply (o.replayTable_safe (h.1 t List.mem_cons_self) h.2).mono fun _ _ hx => hx
      exact fun _ w hw => ⟨fun t' ht' => h.1 t' (List.mem_cons_of_mem _ ht'), hw⟩
    · exact ⟨fun _ ht => ht, hw⟩
  exact hloop.mono (fun _ _ hx => hx) fun _ _ h => h.2

/-- The outline of a pass gives that of the loop, when saving the cursors keeps it. -/
theorem Outline.run_safe (hidle : ∀ ts w, o.idle ts w → o.idle ts w.save)
    (hwithin : ∀ ts t c p w, o.within ts t c p w → o.within ts t c p w.save) {w : World Row}
    (hw : o.idle [] w) :
    codec.system.Safe rely J (fun _ => o.Crash) (fun _ => o.idle []) r.run w := by
  have hstable : codec.system.Stable rely o.Crash := by
    rintro cmd w hact ⟨⟨ts, h⟩ | ⟨ts, t, c, p, h⟩, hfailed⟩
    · exact ⟨.inl ⟨ts, o.stable_idle ts cmd w hact h⟩, hfailed⟩
    · exact ⟨.inr ⟨ts, t, c, p, o.stable_within ts t c p cmd w hact h⟩, hfailed⟩
  have hcrash : ∀ w, o.Crash w → o.Crash w.save := by
    rintro w ⟨⟨ts, h⟩ | ⟨ts, t, c, p, h⟩, hfailed⟩
    · exact ⟨.inl ⟨ts, hidle ts w h⟩, hfailed⟩
    · exact ⟨.inr ⟨ts, t, c, p, hwithin ts t c p w h⟩, hfailed⟩
  have hcall : ∀ w, o.Crash w → J .saveCheckpoint w := by
    rintro w ⟨⟨ts, h⟩ | ⟨ts, t, c, p, h⟩, -⟩
    · exact o.call_idle ts w _ (by simp) h
    · exact o.call_within ts t c p w _ (by simp) h
  have hsaved : ∀ {P : World Row → Prop}, (∀ w, P w → P w.save) → ∀ outcome w, P w →
      P (codec.answer outcome .saveCheckpoint w).2 := by
    intro P hP outcome w hw
    cases outcome with
    | ok => exact hP w hw
    | fails x done => exact hw
  apply System.Safe.handle
  apply System.Safe.mono (X := fun _ => o.Crash) (Q := fun _ => o.idle [])
  · -- `close`
    intro exit w hw
    apply System.Safe.call hstable hw hcall
    intro outcome w hw _
    exact System.Safe.raise hstable (hsaved hcrash outcome w hw) fun _ h => h
  · exact fun _ _ h => h
  · apply System.Safe.call (o.stable_idle []) hw
    · exact fun w hw => o.call_idle [] w _ (by simp) hw
    · intro outcome w hw hrely
      cases outcome with
      | fails x done =>
        exact System.Safe.raise (o.stable_idle []) hw
          fun _ h => ⟨.inl ⟨_, h⟩, x, done, _, w, hrely⟩
      | ok =>
        apply System.Safe.bind
        apply (o.replayOnce_safe (o.start w hw)).mono fun _ _ hx => hx
        intro _ w hw
        apply System.Safe.call (o.stable_idle []) hw
        · exact fun w hw => o.call_idle [] w _ (by simp) hw
        · intro outcome w hw _
          cases outcome with
          | fails x done => exact System.Safe.ret (o.stable_idle []) hw fun _ h => h
          | ok =>
            apply System.Safe.call (o.stable_idle []) hw
            · exact fun w hw => o.call_idle [] w _ (by simp) hw
            · intro outcome w hw _
              exact System.Safe.ret (o.stable_idle []) (hsaved (hidle []) outcome w hw)
                fun _ h => h

/-- A pass in which every call is answered, on its own. -/
theorem Outline.exec_replayOnce (hok : ∀ e w, rely.call .ok e w)
    (hanswered : ∀ x done e w, ¬ rely.call (.fails x done) e w) {w : World Row}
    (hw : o.idle r.tables w) : o.idle [] (codec.system.exec .ok r.replayOnce w).2 := by
  have hexec := System.Safe.exec hok (o.replayOnce_safe hw)
  split at hexec
  · exact hexec
  · obtain ⟨-, x, done, e, w', hfailed⟩ := hexec
    exact absurd hfailed (hanswered x done e w')

end Rules

end CuttleDB.Replicate
