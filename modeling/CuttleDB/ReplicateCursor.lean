import CuttleDB.ReplicateOutline

/-!
# The cursor

A table keeps its last 1024 log entries, and `LOG` returns those of them that are not
before the cursor, with the number of all. The worker stores that number as its next
cursor. As long as the log reaches up to every cursor that is sent and no `LOG` finds
more than 1024 entries behind it, `_replay_event` is called for the entries of the log,
once for each and in order, and the cursor counts them; an entry that the table no longer
keeps is passed over without a word.
-/

namespace CuttleDB.Replicate

open Interaction Py SwapRemove

variable {Row : Type}

/-! ### Stretches of the log -/

/-- What `_replay_event` is called for, for an entry. -/
def argsOf (e : LogEvent) : Int × Text := (e.rowId, e.op.text)

/-- The entries with the ids from `a` up to `b`, one call of `_replay_event` for each. -/
def feed (t : Table Row) (a b : Nat) : List (Int × Text) :=
  ((t.log.drop a).take (b - a)).map argsOf

@[simp] theorem feed_self (t : Table Row) (a : Nat) : feed t a a = [] := by
  rw [feed, Nat.sub_self, List.take_zero, List.map_nil]

theorem feed_append (t : Table Row) {a b c : Nat} (hab : a ≤ b) (hbc : b ≤ c) :
    feed t a b ++ feed t b c = feed t a c := by
  have hsplit : c - a = (b - a) + (c - b) := by omega
  have hdrop : (t.log.drop a).drop (b - a) = t.log.drop b := by
    rw [List.drop_drop, Nat.add_sub_cancel' hab]
  rw [feed, feed, feed, ← List.map_append, hsplit, List.take_add, hdrop]

theorem feed_to_end (t : Table Row) (a : Nat) :
    feed t a t.log.length = (t.log.drop a).map argsOf := by
  rw [feed, List.take_of_length_le (Nat.le_of_eq List.length_drop)]

theorem length_feed (t : Table Row) {a b : Nat} (hab : a ≤ b) (hb : b ≤ t.log.length) :
    a + (feed t a b).length = b := by
  rw [feed, List.length_map, List.length_take, List.length_drop]
  omega

theorem feed_of_le {t t' : Table Row} (hlog : t.log <+: t'.log) (a : Nat) {b : Nat}
    (hb : b ≤ t.log.length) : feed t' a b = feed t a b := by
  obtain ⟨new, hnew⟩ := hlog
  by_cases ha : a ≤ b
  · rw [feed, feed, ← hnew, List.drop_append_of_le_length (ha.trans hb),
      List.take_append_of_le_length]
    rw [List.length_drop]
    omega
  · have hzero : b - a = 0 := by omega
    rw [feed, feed, hzero, List.take_zero, List.take_zero]

/-! ### The outline -/

/-- `LOG` is sent a cursor up to which the table has entries, and never finds more entries
behind it than the table keeps. -/
def Kept : Rely Call (World Row) (Command Row) Outcome where
  act _ _ := True
  call o e w :=
    match e with
    | .log t since => o = .ok → 0 ≤ since ∧ since ≤ (w.primary t).log.length ∧
        (w.primary t).log.length ≤ since + logCapacity
    | _ => True

instance (o : Outcome) (w : World Row) : ∀ e, Decidable (Kept.call o e w)
  | .log t since => inferInstanceAs (Decidable
      (o = .ok → 0 ≤ since ∧ since ≤ (w.primary t).log.length ∧
        (w.primary t).log.length ≤ since + logCapacity))
  | .running => isTrue trivial
  | .get _ _ => isTrue trivial
  | .insert _ _ _ => isTrue trivial
  | .delete _ _ _ => isTrue trivial
  | .replayed _ _ _ => isTrue trivial
  | .cursor _ => isTrue trivial
  | .store _ _ => isTrue trivial
  | .checkpointDue => isTrue trivial
  | .saveCheckpoint => isTrue trivial

instance (cmd : Command Row) (w : World Row) :
    Decidable ((Kept : Rely Call (World Row) (Command Row) Outcome).act cmd w) := isTrue trivial

/-- Behind the calls `before`, those for the entries of a table from `first` up to its cursor
`n` have been made. -/
structure Caught (first : Nat) (t : Table Row) (cursor : Int) (before replayed : List (Int × Text))
    (n : Nat) : Prop where
  cursor_eq : cursor = n
  first_le : first ≤ n
  le_length : n ≤ t.log.length
  replayed_eq : replayed = before ++ feed t first n

/-- The entries `pending` have been read, and those before them replayed; with them the
entries up to `c` are. -/
structure Catching (first : Nat) (t : Table Row) (cursor : Int)
    (before replayed : List (Int × Text)) (c : Nat) (pending : List LogEvent) : Prop where
  cursor_eq : ∃ prev : Nat, cursor = prev ∧ first ≤ prev ∧ prev ≤ c
  le_length : c ≤ t.log.length
  replayed_eq : replayed ++ pending.map argsOf = before ++ feed t first c

theorem Caught.grows {first n : Nat} {t t' : Table Row} {cursor : Int}
    {before replayed : List (Int × Text)} (h : Caught first t cursor before replayed n)
    (hlog : t.log <+: t'.log) : Caught first t' cursor before replayed n where
  cursor_eq := h.cursor_eq
  first_le := h.first_le
  le_length := h.le_length.trans hlog.length_le
  replayed_eq := by
    rw [feed_of_le hlog first h.le_length]
    exact h.replayed_eq

theorem Catching.grows {first c : Nat} {t t' : Table Row} {cursor : Int}
    {before replayed : List (Int × Text)} {pending : List LogEvent}
    (h : Catching first t cursor before replayed c pending) (hlog : t.log <+: t'.log) :
    Catching first t' cursor before replayed c pending where
  cursor_eq := h.cursor_eq
  le_length := h.le_length.trans hlog.length_le
  replayed_eq := by
    rw [feed_of_le hlog first h.le_length]
    exact h.replayed_eq

/-- At a store, in a run from `w₀`: `_replay_event` has been called for the entries from the
first cursor to the old one, and after them for those from the old one to the new one. -/
def StoresReplayed (w₀ : World Row) : Call → World Row → Prop
  | .store t c, w => ∃ first prev next : Nat,
      w₀.cursors t = first ∧ w.cursors t = prev ∧ c = next ∧
      first ≤ prev ∧ prev ≤ next ∧ next ≤ (w.primary t).log.length ∧
      w.replayed t = w₀.replayed t ++
        (feed (w.primary t) first prev ++ feed (w.primary t) prev next) ∧
      first + (w.replayed t).length = (w₀.replayed t).length + next
  | _, _ => True

theorem storesReplayed_of_ne {w₀ : World Row} {e : Call} (he : ∀ t c, e ≠ .store t c)
    (w : World Row) : StoresReplayed w₀ e w := by
  cases e with
  | store t c => exact absurd rfl (he t c)
  | _ => trivial

/-- A table between two turns: nothing has been replayed, or all entries up to its cursor. -/
def AtCursor (w₀ : World Row) (t : TableId) (w : World Row) : Prop :=
  (w.cursors t = w₀.cursors t ∧ w.replayed t = w₀.replayed t) ∨
    ∃ first n : Nat, w₀.cursors t = first ∧
      Caught first (w.primary t) (w.cursors t) (w₀.replayed t) (w.replayed t) n

theorem AtCursor.command {w₀ w : World Row} {t : TableId} (h : AtCursor w₀ t w)
    (cmd : Command Row) : AtCursor w₀ t (w.command cmd) := by
  rcases h with hnone | ⟨first, n, hfirst, hn⟩
  · exact .inl hnone
  · exact .inr ⟨first, n, hfirst, hn.grows (World.log_command cmd w t)⟩

/-- A table whose cursor the log has reached -/
theorem AtCursor.caught {w₀ w : World Row} {t : TableId} (h : AtCursor w₀ t w)
    (hpos : 0 ≤ w.cursors t) (hle : w.cursors t ≤ (w.primary t).log.length) :
    ∃ first n : Nat, w₀.cursors t = first ∧
      Caught first (w.primary t) (w.cursors t) (w₀.replayed t) (w.replayed t) n := by
  rcases h with ⟨hcursor, hreplayed⟩ | hcaught
  · obtain ⟨n, hn⟩ := Int.eq_ofNat_of_zero_le hpos
    refine ⟨n, n, hcursor.symm.trans hn, hn, Nat.le_refl n, ?_, ?_⟩
    · rw [hn] at hle
      exact Int.ofNat_le.mp hle
    · rw [hreplayed, feed_self, List.append_nil]
  · exact hcaught

/-- While `t` is replayed up to `c`, the others stay as they are. -/
structure CatchingUp (r : Replicator) (w₀ : World Row) (t : TableId) (c : Nat)
    (pending : List LogEvent) (w : World Row) : Prop where
  mem : t ∈ r.tables
  others : ∀ u ∈ r.tables, u ≠ t → AtCursor w₀ u w
  this : ∃ first : Nat, w₀.cursors t = first ∧
    Catching first (w.primary t) (w.cursors t) (w₀.replayed t) (w.replayed t) c pending

def cursorOutline (codec : RowCodec Row) (r : Replicator) (w₀ : World Row) :
    Outline codec Kept (StoresReplayed w₀) r where
  idle _ w := ∀ t ∈ r.tables, AtCursor w₀ t w
  within _ t c p := CatchingUp r w₀ t c p.pending
  stable_idle _ cmd _ _ h t ht := (h t ht).command cmd
  stable_within _ t c p cmd w _ h := by
    obtain ⟨first, hfirst, hthis⟩ := h.this
    exact ⟨h.mem, fun u hu hne => (h.others u hu hne).command cmd,
      first, hfirst, hthis.grows (World.log_command cmd w t)⟩
  call_idle _ w e he _ := storesReplayed_of_ne he w
  call_within _ _ _ _ w e he _ := storesReplayed_of_ne he w
  call_store _ t c w h := by
    obtain ⟨first, hstart, ⟨prev, hprev, hfirst, hle⟩, hlength, hreplayed⟩ := h.this
    have hall : w.replayed t = w₀.replayed t ++ feed (w.primary t) first c := by
      rw [← hreplayed]
      exact (List.append_nil _).symm
    refine ⟨first, prev, c, hstart, hprev, rfl, hfirst, hle, hlength, ?_, ?_⟩
    · rw [feed_append _ hfirst hle, hall]
    · have hcount := length_feed (w.primary t) (hfirst.trans hle) hlength
      rw [hall, List.length_append]
      omega
  start _ h := h
  log_ok _ t w ht h hrely := by
    obtain ⟨hpos, hreached, hwindow⟩ := hrely rfl
    obtain ⟨first, n, hfirst, hn⟩ := (h t ht).caught hpos hreached
    rw [hn.cursor_eq] at hwindow ⊢
    have hkept : firstKept n (w.primary t) = n := by
      apply Nat.max_eq_left
      exact Nat.sub_le_of_le_add (Int.ofNat_le.mp hwindow)
    refine ⟨ht, fun u hu _ => h u hu, first, hfirst, ⟨n, hn.cursor_eq, hn.first_le, hn.le_length⟩,
      Nat.le_refl _, ?_⟩
    change w.replayed t ++ ((w.primary t).log.drop (firstKept n (w.primary t))).map argsOf = _
    rw [hkept, hn.replayed_eq, ← feed_to_end, List.append_assoc,
      feed_append _ hn.first_le hn.le_length]
    rfl
  log_fails _ _ _ _ _ h _ := h
  get_ok _ t c e es w _ h _ := by
    split
    · exact h
    · exact h
  get_fails _ _ _ _ _ _ _ _ _ h _ := h
  delete_first _ _ _ _ _ _ _ h := h
  update_skip _ _ _ _ _ _ _ h := h
  insert_ok _ _ _ _ _ _ _ w _ h _ := ⟨h.mem, h.others, h.this⟩
  insert_fails _ _ _ _ _ _ _ w _ done _ h _ := by
    cases done with
    | true => exact ⟨h.mem, h.others, h.this⟩
    | false => exact h
  insert_raises _ _ _ e es row i w _ done _ h _ := by
    refine ⟨.write e es (some row) i, ?_⟩
    cases done with
    | true => exact ⟨h.mem, h.others, h.this⟩
    | false => exact h
  delete_ok _ _ _ _ _ _ w _ h _ := ⟨h.mem, h.others, h.this⟩
  delete_fails _ _ _ _ _ _ w _ done _ h _ := by
    cases done with
    | true => exact ⟨h.mem, h.others, h.this⟩
    | false => exact h
  delete_raises _ _ _ e es i w _ done _ h _ := by
    refine ⟨.write e es none i, ?_⟩
    cases done with
    | true => exact ⟨h.mem, h.others, h.this⟩
    | false => exact h
  written _ _ _ _ _ _ _ h := h
  count _ t c e es w h := by
    obtain ⟨first, hfirst, hthis⟩ := h.this
    refine ⟨h.mem, fun u hu hne => ?_, first, hfirst, hthis.cursor_eq, hthis.le_length, ?_⟩
    · rw [AtCursor, World.replayed_count_of_ne hne]
      exact h.others u hu hne
    · rw [World.replayed_count_self, List.append_assoc]
      exact hthis.replayed_eq
  store _ t c w h u hu := by
    by_cases hut : u = t
    · subst hut
      obtain ⟨first, hstart, ⟨prev, -, hfirst, hle⟩, hlength, hreplayed⟩ := h.this
      refine .inr ⟨first, c, hstart, ?_⟩
      rw [World.cursors_store_self]
      refine ⟨rfl, hfirst.trans hle, hlength, ?_⟩
      exact (List.append_nil _).symm.trans hreplayed
    · rw [AtCursor, World.cursors_store_of_ne hut]
      exact h.others u hu hut

/-- **No entry is skipped.** In every run in which each `LOG` is sent a cursor up to which the
table has entries and finds no more entries behind it than the table keeps, a cursor is stored
when `_replay_event` has been called for the entries from the old cursor up to the new one, once
for each and in order. -/
theorem run_stores_replayed (codec : RowCodec Row) (r : Replicator) (w : World Row)
    (moves : List (Move (Command Row) Outcome))
    (halong : codec.system.Along Kept r.run moves ⟨w, r.run⟩) {t : TableId} {c : Int}
    (hstore : (codec.system.run r.run moves w).prog.next = some (.store t c)) :
    StoresReplayed w (.store t c) (codec.system.run r.run moves w).world := by
  let idle : World Row → Prop := fun w' => ∀ t ∈ r.tables, AtCursor w t w'
  have hidle : idle w := fun _ _ => .inl ⟨rfl, rfl⟩
  have hsafe : ∀ w' : World Row, idle w' →
      codec.system.Safe Kept (StoresReplayed w) (fun _ => (cursorOutline codec r w).Crash)
        (fun _ => idle) r.run w' :=
    fun w' hw' => (cursorOutline codec r w).run_safe (fun _ _ h => h)
      (fun _ _ _ _ _ h => ⟨h.mem, h.others, h.this⟩) hw'
  have hrun := System.Safe.run hsafe moves hidle halong
  split at hrun
  · rename_i heq
    rw [heq] at hstore
    cases hstore
  · rename_i heq
    rw [heq] at hstore
    cases hstore
  · rename_i heq
    rw [heq] at hstore
    obtain rfl := Option.some.inj hstore
    exact hrun

theorem run_stores_replayed_insert :
    let insert : Command TextRow := ⟨fun id => id, ⟨0, 0⟩, .insert (cells "a")⟩
    let moves := .env insert :: List.replicate 6 (.step .ok)
    let w := World.start (fun _ => Table.starting [] []) (fun _ => []) fun _ => 0
    StoresReplayed w (.store ⟨0, 0⟩ 1) (textRows.system.run oneReplica.run moves w).world :=
  run_stores_replayed textRows oneReplica
    (World.start (fun _ => Table.starting [] []) (fun _ => []) fun _ => 0)
    (.env ⟨fun id => id, ⟨0, 0⟩, .insert (cells "a")⟩ :: List.replicate 6 (.step .ok))
    (by decide +kernel) (by decide +kernel)

/-! ### An overrun -/

/-- `_replay_event` returns at once. -/
theorem replayEntry_update (r : Replicator) (t : TableId) (total : Nat) {e : LogEvent}
    (he : e.op = .update) : r.replayEntry t total (entryOf e) =
      .call (.replayed t e.rowId e.op.text) fun _ => .ret (total + 1) := by
  have hskip : r.replayOp t e.rowId e.op.text = .ret () := by
    rw [he, Replicator.replayOp, if_neg (by decide), if_neg (by decide)]
    rfl
  rw [Replicator.replayEntry, entryOf, Replicator.replayEvent, hskip]
  rfl

/-- Updates, in a program `C` that goes on with the count. -/
theorem run_updates (codec : RowCodec Row) (r : Replicator) (t : TableId) (body : Worker Unit)
    {C : Worker Nat → Worker Unit} (hC : ∀ e k, C (.call e k) = .call e fun a => C (k a))
    {events : List LogEvent} (hevents : ∀ e ∈ events, e.op = .update) (total : Nat)
    (w : World Row) :
    (List.replicate events.length (.step .ok)).foldl (codec.system.move body)
        ⟨w, C ((events.map entryOf).foldlM (r.replayEntry t) total)⟩ =
      ⟨events.foldl (fun w e => w.count t e.rowId e.op.text) w,
        C (.ret (total + events.length))⟩ := by
  induction events generalizing total w with
  | nil => rfl
  | cons e events ih =>
    have he := replayEntry_update r t total (hevents e List.mem_cons_self)
    have hcount : total + (events.length + 1) = total + 1 + events.length := by omega
    rw [List.length_cons, List.replicate_succ, List.map_cons, List.foldlM_cons, he,
      List.foldl_cons, List.foldl_cons, hcount,
      ← ih (fun e he => hevents e (List.mem_cons_of_mem _ he))]
    congr 1
    change codec.system.move body ⟨w, C (.call _ _)⟩ _ = _
    rw [hC]
    rfl

theorem foldl_count (t : TableId) (events : List LogEvent) (w : World Row) :
    let w' := events.foldl (fun w e => w.count t e.rowId e.op.text) w
    w'.cursors = w.cursors ∧ w'.replayed t = w.replayed t ++ events.map argsOf := by
  induction events generalizing w with
  | nil => exact ⟨rfl, (List.append_nil _).symm⟩
  | cons e events ih =>
    obtain ⟨hcursors, hreplayed⟩ := ih (w.count t e.rowId e.op.text)
    refine ⟨hcursors, ?_⟩
    rw [World.replayed_count_self, List.append_assoc] at hreplayed
    exact hreplayed

/-- The first pass over a table of which only updates are logged, up to the store. -/
theorem run_first_pass (codec : RowCodec Row) {r : Replicator} {t : TableId}
    (hr : r.tables = [t]) {w : World Row} (hlog : ∀ e ∈ (w.primary t).log, e.op = .update)
    {events : List LogEvent}
    (hevents : (w.primary t).log.drop (firstKept (w.cursors t).toNat (w.primary t)) = events)
    {steps : Nat} (hsteps : 3 + events.length = steps) :
    let cfg := codec.system.run r.run (List.replicate steps (.step .ok)) w
    cfg.prog.next = some (.store t (w.primary t).log.length) ∧
      cfg.world.replayed t = w.replayed t ++ events.map argsOf := by
  intro cfg
  obtain ⟨replicas, tables⟩ := r
  obtain rfl : tables = [t] := hr
  subst hsteps hevents
  let r : Replicator := ⟨replicas, [t]⟩
  let events := (w.primary t).log.drop (firstKept (w.cursors t).toNat (w.primary t))
  -- what the loop of `run` does after the table, and after the entries of the table
  let D : Worker Nat → Worker Unit := fun p =>
    Prog.handle (do
      let _ ← (do
        let total ← p
        [].foldlM r.replayTable total)
      let due ← perform .checkpointDue
      if due then perform .saveCheckpoint else pure ()) fun exit => do
        perform .saveCheckpoint
        .raise exit
  let C : Worker Nat → Worker Unit := fun p => D do
    let total ← p
    perform (.store t (w.primary t).log.length)
    pure total
  have hread : (List.replicate 3 (.step .ok)).foldl (codec.system.move r.run) ⟨w, r.run⟩ =
      ⟨w.fetch t (w.cursors t).toNat, C ((events.map entryOf).foldlM (r.replayEntry t) 0)⟩ := by
    have hparse := parseLogIn_renderLog (w.primary t).log.length events
    let E : Except PyError (Int × List LogEntry) → Worker Unit := fun answer =>
      D (attempt answer
        (fun log => do
          let total ← log.2.foldlM (r.replayEntry t) 0
          perform (.store t log.1)
          pure total)
        (pure 0))
    change Config.mk (w.fetch t (w.cursors t).toNat)
      (E (parseLogIn none (renderLog (w.primary t).log.length events))) = _
    rw [hparse]
    rfl
  have hcfg : cfg =
      ⟨events.foldl (fun w e => w.count t e.rowId e.op.text) (w.fetch t (w.cursors t).toNat),
      C (.ret (0 + events.length))⟩ := by
    rw [← run_updates codec r t r.run (C := C) (fun _ _ => rfl)
      (fun e he => hlog e (List.mem_of_mem_drop he)) 0, ← hread, ← List.foldl_append,
      List.replicate_append_replicate]
    rfl
  rw [hcfg]
  exact ⟨rfl, (foldl_count t events _).2⟩

/-- With 1025 entries since the cursor, the first pass stores 1025 after the replay of
1024. -/
theorem overrun_skips_entry :
    let w := World.start (fun _ => Table.starting [cells "a"] (List.replicate 1025 ⟨0, 0, .update⟩))
      (fun _ => [cells "a"]) fun _ => 0
    let cfg := textRows.system.run oneReplica.run (List.replicate 1027 (.step .ok)) w
    cfg.prog.next = some (.store ⟨0, 0⟩ 1025) ∧
      ¬ StoresReplayed w (.store ⟨0, 0⟩ 1025) cfg.world := by
  intro w
  have hlength : (w.primary ⟨0, 0⟩).log.length = 1025 := List.length_replicate
  have hevents : ((w.primary ⟨0, 0⟩).log.drop
      (firstKept (w.cursors ⟨0, 0⟩).toNat (w.primary ⟨0, 0⟩))).length = 1024 := by
    rw [List.length_drop, firstKept, hlength]
    rfl
  have hlog : ∀ e ∈ (w.primary ⟨0, 0⟩).log, e.op = .update := by
    intro e he
    rw [List.eq_of_mem_replicate he]
  have hsteps : 3 + 1024 = 1027 := rfl
  have hpass := run_first_pass textRows (r := oneReplica) rfl hlog rfl (hevents ▸ hsteps)
  generalize textRows.system.run oneReplica.run (List.replicate 1027 (.step .ok)) w = cfg at hpass ⊢
  obtain ⟨hnext, hreplayed⟩ := hpass
  rw [hlength] at hnext
  refine ⟨hnext, ?_⟩
  rintro ⟨first, prev, next, hstart, -, hstored, -, -, -, -, hcount⟩
  have hzero : first = 0 := (Int.ofNat.inj hstart).symm
  have hlast : next = 1025 := (Int.ofNat.inj hstored).symm
  have hfresh : (w.replayed ⟨0, 0⟩).length = 0 := rfl
  rw [hreplayed, List.length_append, List.length_map, hevents, hfresh, hzero, hlast] at hcount
  cases hcount

end CuttleDB.Replicate
