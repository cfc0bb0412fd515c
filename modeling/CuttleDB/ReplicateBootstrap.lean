import CuttleDB.ReplicateFold

/-!
# Bootstrapping from a snapshot

The replicas load a snapshot of the primary, and the worker is started without a
checkpoint file, that is with the cursors at `0`. It replays the whole log, also the
entries of the rows that the snapshot already has: with a history of inserts only, a
replica ends up with the rows of the snapshot in front of all rows of the primary.
-/

namespace CuttleDB.Replicate

open Interaction Py SwapRemove

variable {Row : Type}

/-! ### Tables that only grow -/

/-- A new table after some inserts. -/
def filled (clock : Nat → Nat) (rows : List Row) : Table Row :=
  rows.foldl (fun t row => t.insert clock row) (.starting [] [])

/-- The entries of the log are the inserts of the rows, slot by slot. -/
structure Appended (t : Table Row) : Prop where
  length_eq : t.log.length = t.slots.length
  entry : ∀ (id : Nat) (e : LogEvent), t.log[id]? = some e → e.op = .insert ∧ e.rowId = id

theorem Appended.insert {t : Table Row} (h : Appended t) (clock : Nat → Nat) (row : Row) :
    Appended (t.insert clock row) where
  length_eq := by
    rw [Table.insert, Table.logged, List.length_append, List.length_append, h.length_eq]
    rfl
  entry id e he := by
    rw [Table.insert, Table.logged] at he
    rcases Nat.lt_or_ge id t.log.length with hlt | hge
    · rw [List.getElem?_append_left hlt] at he
      exact h.entry id e he
    · rw [List.getElem?_append_right hge, List.getElem?_singleton] at he
      split at he
      · have hid : id = t.log.length := by omega
        obtain rfl := Option.some.inj he
        exact ⟨rfl, (hid.trans h.length_eq).symm⟩
      · cases he

theorem filled_concat (clock : Nat → Nat) (rows : List Row) (row : Row) :
    filled clock (rows ++ [row]) = (filled clock rows).insert clock row := List.foldl_concat ..

theorem filled_appended (clock : Nat → Nat) (rows : List Row) : Appended (filled clock rows) := by
  induction rows using List.reverseRecOn with
  | nil => exact ⟨rfl, fun id e he => nomatch he⟩
  | append_singleton rows row ih =>
    rw [filled_concat]
    exact ih.insert clock row

theorem rows_filled (clock : Nat → Nat) (rows : List Row) : (filled clock rows).rows = rows := by
  induction rows using List.reverseRecOn with
  | nil => rfl
  | append_singleton rows row ih =>
    rw [filled_concat, Table.rows, Table.insert, List.map_append]
    exact congrArg (· ++ [row]) ih

theorem length_log_filled (clock : Nat → Nat) (rows : List Row) :
    (filled clock rows).log.length = rows.length := by
  rw [(filled_appended clock rows).length_eq, ← List.length_map (f := Slot.row)]
  exact congrArg List.length (rows_filled clock rows)

theorem Appended.entry_lt {t : Table Row} (h : Appended t) {e : LogEvent} (he : e ∈ t.log) :
    e.rowId < t.slots.length := by
  obtain ⟨id, hid⟩ := List.mem_iff_getElem?.mp he
  obtain ⟨hlt, -⟩ := List.getElem?_eq_some_iff.mp hid
  rw [(h.entry id e hid).2, ← h.length_eq]
  exact hlt

theorem numbered_cons {t : Table Row} {id : Nat} {e : LogEvent} (he : t.log[id]? = some e) :
    numbered id t = (e, id) :: numbered (id + 1) t := by
  obtain ⟨hlt, rfl⟩ := List.getElem?_eq_some_iff.mp he
  rw [numbered, numbered, List.drop_eq_getElem_cons hlt, List.zipIdx_cons]

/-- The replay of such a log appends the rows of the table. -/
theorem Appended.rowsAfter {t : Table Row} (h : Appended t) (rows : List Row) :
    rowsAfter t rows (numbered 0 t) = rows ++ t.rows := by
  have hfrom : ∀ n id, id + n = t.log.length → ∀ rows : List Row,
      Replicate.rowsAfter t rows (numbered id t) = rows ++ t.rows.drop id := by
    intro n
    induction n with
    | zero =>
      rintro id rfl rows
      have hend : t.rows.length ≤ t.log.length := by
        rw [Table.rows, List.length_map, h.length_eq]
      rw [numbered_length, List.drop_of_length_le hend]
      exact (List.append_nil rows).symm
    | succ n ih =>
      intro id hid rows
      have hlt : id < t.log.length := by omega
      have he : t.log[id]? = some t.log[id] := List.getElem?_eq_getElem hlt
      obtain ⟨hop, hrowId⟩ := h.entry id _ he
      have hslot : id < t.slots.length := h.length_eq ▸ hlt
      have hs : t.slots[t.log[id].rowId]? = some t.slots[id] := by
        rw [hrowId]
        exact List.getElem?_eq_getElem hslot
      have hpush : Replicate.rowsAfter t rows [(t.log[id], id)] = rows ++ [t.slots[id].row] := by
        simp only [Replicate.rowsAfter, List.foldl_cons, List.foldl_nil, Copy.replay, hop, hs]
        rfl
      have hrow : t.rows.drop id = t.slots[id].row :: t.rows.drop (id + 1) := by
        rw [Table.rows, ← List.map_drop, ← List.map_drop, List.drop_eq_getElem_cons hslot]
        rfl
      rw [numbered_cons he, ← List.singleton_append, rowsAfter_append, hpush,
        ih (id + 1) (by omega), hrow, List.append_assoc]
      rfl
  exact hfrom t.log.length 0 (Nat.zero_add _) rows

/-! ### The worker -/

/-- The primary only inserts, fewer rows in all than it keeps entries; connections may
break anywhere. -/
def Inserting : Rely Call (World Row) (Command Row) Outcome where
  act cmd w := (w.primary cmd.table).log.length + 1 < logCapacity ∧
    match cmd.mutation with
    | .insert _ => True
    | _ => False
  call o e _ := e.isRequest = true → o.caught = false

instance (o : Outcome) (e : Call) (w : World Row) : Decidable (Inserting.call o e w) :=
  inferInstanceAs (Decidable (e.isRequest = true → o.caught = false))

instance (cmd : Command Row) (w : World Row) : Decidable (Inserting.act cmd w) := by
  unfold Inserting
  dsimp only
  split <;> infer_instance

/-- Tables that have only been inserted into, with their whole logs. -/
def Filled (primary : TableId → Table Row) : Prop :=
  ∀ t, Appended (primary t) ∧ (primary t).log.length < logCapacity

theorem firstKept_eq {t : Table Row} (h : t.log.length < logCapacity) (since : Nat) :
    firstKept since t = since := by
  rw [firstKept, Nat.sub_eq_zero_of_le (Nat.le_of_lt h)]
  exact Nat.max_eq_left (Nat.zero_le _)

theorem inserting_replays :
    Replays (Inserting : Rely Call (World Row) (Command Row) Outcome) Filled where
  request _ _ _ _ hrequest hcall := nomatch hcall hrequest
  act := by
    rintro ⟨clock, u, m⟩ w ⟨hlength, hinsert⟩ hfilled
    cases m with
    | delete rowId => cases hinsert
    | deleteWhere pred => cases hinsert
    | update pred f => cases hinsert
    | insert row =>
      obtain ⟨happended, hcount⟩ := hfilled u
      have hnew : ((w.primary u).insert clock row).log.length < logCapacity := by
        rw [Table.insert, Table.logged, List.length_append]
        exact hlength
      have halike : Alike (w.primary u) ((w.primary u).insert clock row) := by
        refine ⟨List.prefix_append _ _, fun since => ?_, fun e he _ => ?_⟩
        · rw [firstKept_eq hnew, firstKept_eq hcount]
        · rw [Table.insert, List.getElem?_append_left (happended.entry_lt he)]
      have hcommand : ∀ t, (w.command ⟨clock, u, .insert row⟩).primary t =
          if t = u then (w.primary t).insert clock row else w.primary t :=
        World.primary_command _ w
      constructor
      · intro t
        rw [hcommand]
        split
        · subst t
          exact ⟨happended.insert clock row, hnew⟩
        · exact hfilled t
      · intro t
        rw [hcommand]
        split
        · subst t
          exact halike
        · exact Alike.refl _

/-- Everything that `LOG` returns has been replayed. -/
def AtEnd (w : World Row) (t : TableId) : Prop :=
  (w.cursors t).toNat = (w.primary t).log.length

/-- The rows of the snapshot are in front of those of the primary. -/
theorem Appended.replica {t : Table Row} (h : Appended t) (hcount : t.log.length < logCapacity)
    {snapshot : List Row} {copy : Copy Row}
    (hcopy : copy = (numbered (firstKept 0 t) t).foldl (Copy.replay t) ⟨snapshot, []⟩) :
    copy.rows = t.rows ↔ snapshot = [] := by
  rw [firstKept_eq hcount, foldl_replay] at hcopy
  rw [hcopy, h.rowsAfter]
  exact List.append_left_eq_self

/-- **Bootstrap.** The snapshot has the rows inserted by the time of the `SAVE`. Once
everything is replayed, a replica has the rows of the primary exactly when there were
none; and a pass over an idle primary replays everything. -/
theorem bootstrap_iff (codec : RowCodec Row) (r : Replicator) (clock : Nat → Nat)
    (before after : TableId → List Row)
    (hcount : ∀ t, (before t ++ after t).length < logCapacity)
    {t : TableId} (ht : t ∈ r.tables) {i : Nat} (hi : i < r.replicas) :
    let w₀ := World.connected (fun t => filled clock (before t ++ after t))
      (fun _ t => (filled clock (before t)).rows) none
    let pass := caughtUp codec r w₀
    AtEnd pass t ∧ (pass.replica i t = (pass.primary t).rows ↔ before t = []) ∧
      ∀ moves, codec.system.Along Inserting r.run moves ⟨w₀, r.run⟩ →
        let w := (codec.system.run r.run moves w₀).world
        AtEnd w t → (w.replica i t = (w.primary t).rows ↔ before t = []) := by
  intro w₀ pass
  have hfilled : Filled w₀.primary := by
    intro t
    refine ⟨filled_appended clock _, ?_⟩
    rw [show (w₀.primary t).log.length = (before t ++ after t).length from length_log_filled _ _]
    exact hcount t
  have hcopy : w₀.copy i t = ⟨before t, []⟩ := Copy.ext (rows_filled clock (before t)) rfl
  have hcursor : ∀ t ∈ r.tables, (w₀.cursors t).toNat ≤ (w₀.primary t).log.length :=
    fun _ _ => Nat.zero_le _
  obtain ⟨hprimary, htables⟩ := caughtUp_spec codec r hcursor
  obtain ⟨hend, hcopies⟩ := htables t ht
  have hpass := hcopies i hi
  rw [hcopy] at hpass
  rw [AtEnd, hprimary]
  refine ⟨hend, (hfilled t).1.replica (hfilled t).2 hpass, ?_⟩
  intro moves halong w hend
  have hhalted : Halted True Filled (fun t => firstKept 0 (w₀.primary t)) w₀.copy r w :=
    run_halted codec r inserting_replays hfilled hcursor rfl moves halong
  obtain ⟨hfilled', hcopies'⟩ := hhalted
  obtain ⟨hrows, hkept⟩ := hfilled' t
  obtain ⟨done, hdone⟩ := hcopies' t ht i hi
  have hbehind := hdone.cursor
  rw [hend] at hbehind
  have hfirst : firstKept 0 (w₀.primary t) = firstKept 0 (w.primary t) := by
    rw [firstKept_eq hkept, firstKept_eq (hfilled t).2]
  have hrun := hdone.copy_eq
  rw [hbehind.complete hdone.done_le, hcopy] at hrun
  dsimp only at hrun
  rw [hfirst] at hrun
  exact hrows.replica hkept hrun

/-- The snapshot is empty; a row is inserted before the worker starts, and another one
while it reads the first. -/
theorem bootstrap_empty_snapshot :
    let before : TableId → List TextRow := fun _ => []
    let after : TableId → List TextRow := fun _ => [cells "a"]
    let w₀ := World.connected (fun t => filled (fun id => id) (before t ++ after t))
      (fun _ t => (filled (fun id => id) (before t)).rows) none
    let moves := List.replicate 3 (.step .ok) ++
      .env ⟨fun id => id, ⟨0, 0⟩, .insert (cells "b")⟩ :: List.replicate 14 (.step .ok)
    let w := (textRows.system.run oneReplica.run moves w₀).world
    w.replica 0 ⟨0, 0⟩ = (w.primary ⟨0, 0⟩).rows := by
  intro before after w₀ moves w
  have halong : textRows.system.Along Inserting oneReplica.run moves ⟨w₀, oneReplica.run⟩ := by
    decide +kernel
  have hend : AtEnd w ⟨0, 0⟩ := by
    unfold AtEnd
    decide +kernel
  obtain ⟨-, -, hrun⟩ := bootstrap_iff textRows oneReplica (fun id => id) before after
    (fun _ => by decide) (t := ⟨0, 0⟩) List.mem_cons_self (i := 0) (by decide)
  exact (hrun moves halong hend).mpr rfl

/-- The snapshot has the one row of the primary. -/
theorem bootstrap_inserts_twice :
    let w₀ := World.connected (fun _ => filled (fun id => id) [cells "a"])
      (fun _ _ => (filled (fun id => id) [cells "a"]).rows) none
    let w := caughtUp textRows oneReplica w₀
    AtEnd w ⟨0, 0⟩ ∧ w.replica 0 ⟨0, 0⟩ = [cells "a", cells "a"] ∧
      (w.primary ⟨0, 0⟩).rows = [cells "a"] := by
  refine ⟨?_, ?_, ?_⟩
  · unfold AtEnd
    decide +kernel
  · decide +kernel
  · decide +kernel

end CuttleDB.Replicate
