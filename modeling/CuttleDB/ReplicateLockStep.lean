import CuttleDB.ReplicateFold

/-!
# A pass after every command

When the worker makes a whole pass after each command, no entry is replayed late: an
insert entry meets its row, and the deletes of a `DELW` come in the order in which the
primary made them. Updates are in the log and are not replayed, so the replicas have the
rows of the primary as they were inserted.
-/

namespace CuttleDB.Replicate

open Interaction Py SwapRemove

variable {Row : Type}

/-! ### One command -/

/-- The new entries of the later table, of which none is an insert, replay what has
become of the rows, whatever the primary has by then. -/
def ReplaysTo (t t' : Table Row) : Prop :=
  ∃ new, t'.log = t.log ++ new ∧ ∀ primary : Table Row,
    rowsAfter primary t.inserted (new.zipIdx t.log.length) = t'.inserted

theorem ReplaysTo.refl (t : Table Row) : ReplaysTo t t :=
  ⟨[], (List.append_nil _).symm, fun _ => rfl⟩

/-- One more entry. -/
theorem ReplaysTo.entry {t t' t'' : Table Row} (h : ReplaysTo t t') {e : LogEvent}
    (hlog : t''.log = t'.log ++ [e])
    (hrows : ∀ (primary : Table Row) (id : Nat),
      rowsAfter primary t'.inserted [(e, id)] = t''.inserted) : ReplaysTo t t'' := by
  obtain ⟨new, hnew, hafter⟩ := h
  refine ⟨new ++ [e], ?_, fun primary => ?_⟩
  · rw [hlog, hnew, List.append_assoc]
  · rw [List.zipIdx_append, rowsAfter_append, hafter]
    exact hrows primary _

theorem ReplaysTo.delete {t t' : Table Row} (h : ReplaysTo t t') (clock : Nat → Nat)
    (rowId : Nat) : ReplaysTo t (t'.delete clock rowId) := by
  unfold Table.delete
  split
  · apply h.entry rfl
    intro primary id
    exact (map_swapRemove Slot.inserted t'.slots rowId).symm
  · exact h

theorem ReplaysTo.updateRow {t t' : Table Row} (h : ReplaysTo t t') (clock : Nat → Nat)
    (f : Row → Row) (rowId : Nat) : ReplaysTo t (t'.updateRow clock f rowId) := by
  apply h.entry rfl
  intro primary id
  exact (map_modify_set (fun _ => rfl) t'.slots rowId).symm

/-- The entries of a command, replayed right after it. -/
theorem rowsAfter_apply (clock : Nat → Nat) (m : Mutation Row) (t : Table Row) :
    rowsAfter (t.apply clock m) t.inserted (numbered t.log.length (t.apply clock m)) =
      (t.apply clock m).inserted := by
  have hnumbered : ∀ {t' : Table Row} {new : List LogEvent}, t'.log = t.log ++ new →
      numbered t.log.length t' = new.zipIdx t.log.length := by
    intro t' new hnew
    rw [numbered, hnew, List.drop_left]
  have hreplays : ReplaysTo t (t.apply clock m) → rowsAfter (t.apply clock m) t.inserted
      (numbered t.log.length (t.apply clock m)) = (t.apply clock m).inserted := by
    rintro ⟨new, hnew, hafter⟩
    rw [hnumbered hnew]
    exact hafter _
  cases m with
  | insert row =>
    have hslot : (t.insert clock row).slots[t.slots.length]? =
        some ⟨row, row, .event t.log.length⟩ := List.getElem?_concat_length
    have hlog : (t.insert clock row).log =
        t.log ++ [⟨clock t.log.length, t.slots.length, .insert⟩] := rfl
    have hrows : (t.insert clock row).inserted = t.inserted ++ [row] := List.map_append
    rw [Table.apply, hnumbered hlog, hrows, List.zipIdx_singleton]
    simp only [rowsAfter, List.foldl_cons, List.foldl_nil, Copy.replay, hslot]
    rfl
  | delete rowId => exact hreplays ((ReplaysTo.refl t).delete clock rowId)
  | deleteWhere pred =>
    apply hreplays
    exact List.foldlRecOn _ _ (ReplaysTo.refl t) fun t' ht' rowId _ => ht'.delete clock rowId
  | update pred f =>
    apply hreplays
    exact List.foldlRecOn _ _ (ReplaysTo.refl t) fun t' ht' rowId _ => ht'.updateRow clock f rowId

/-! ### Histories -/

/-- A command, and a whole pass after it. -/
def lockStep (codec : RowCodec Row) (r : Replicator) (w : World Row) (cmd : Command Row) :
    World Row := caughtUp codec r (w.command cmd)

/-- The number of rows that a command touches. -/
def Command.touched (cmd : Command Row) (w : World Row) : Nat :=
  ((w.command cmd).primary cmd.table).log.length - (w.primary cmd.table).log.length

/-- Every command of a history touches fewer rows than a table keeps entries. -/
def Bounded (codec : RowCodec Row) (r : Replicator) : World Row → List (Command Row) → Prop
  | _, [] => True
  | w, cmd :: cmds => cmd.touched w < logCapacity ∧ Bounded codec r (lockStep codec r w cmd) cmds

instance decidableBounded (codec : RowCodec Row) (r : Replicator) :
    ∀ (w : World Row) (cmds : List (Command Row)), Decidable (Bounded codec r w cmds)
  | _, [] => isTrue trivial
  | w, cmd :: cmds =>
    have := decidableBounded codec r (lockStep codec r w cmd) cmds
    inferInstanceAs (Decidable (cmd.touched w < logCapacity ∧ Bounded codec r _ cmds))

/-- Between two commands: the cursors are at the ends of the logs, and the replicas have
the rows of the primary as they were inserted. -/
structure Level (r : Replicator) (w : World Row) : Prop where
  cursor : ∀ t ∈ r.tables, (w.cursors t).toNat = (w.primary t).log.length
  replica : ∀ t ∈ r.tables, ∀ i < r.replicas, w.replica i t = (w.primary t).inserted

theorem inserted_starting (rows : List Row) (log : List LogEvent) :
    (Table.starting rows log).inserted = rows := by
  apply List.ext_getElem?
  intro i
  rw [Table.inserted, Table.starting, List.getElem?_map, List.getElem?_mapIdx]
  cases rows[i]? with
  | none => rfl
  | some row => rfl

theorem synchronized_level (r : Replicator) (rows : TableId → List Row)
    (log : TableId → List LogEvent) : Level r (.synchronized rows log) where
  cursor _ _ := rfl
  replica t _ _ _ := (inserted_starting (rows t) (log t)).symm

/-- The entries of the command are all kept. -/
theorem firstKept_command {cmd : Command Row} {w : World Row}
    (htouched : cmd.touched w < logCapacity) :
    firstKept (w.primary cmd.table).log.length ((w.command cmd).primary cmd.table) =
      (w.primary cmd.table).log.length := by
  rw [Command.touched] at htouched
  rw [firstKept]
  omega

theorem Level.rowsAfter {r : Replicator} {w : World Row} (h : Level r w) {cmd : Command Row}
    (htouched : cmd.touched w < logCapacity) {t : TableId} (ht : t ∈ r.tables) :
    let table := (w.command cmd).primary t
    rowsAfter table (w.primary t).inserted (numbered (firstKept (w.cursors t).toNat table) table) =
      table.inserted := by
  intro table
  rw [h.cursor t ht]
  by_cases hcmd : t = cmd.table
  · subst t
    have htable : table = (w.primary cmd.table).apply cmd.clock cmd.mutation := by
      rw [show table = (w.command cmd).primary cmd.table from rfl, World.primary_command,
        if_pos rfl]
    rw [firstKept_command htouched, htable]
    exact rowsAfter_apply _ _ _
  · have htable : table = w.primary t := by
      rw [show table = (w.command cmd).primary t from rfl, World.primary_command, if_neg hcmd]
    rw [htable, firstKept_length, numbered_length]
    rfl

/-- The pass after a command brings the replicas level again. -/
theorem Level.lockStep (codec : RowCodec Row) {r : Replicator} {w : World Row} (h : Level r w)
    {cmd : Command Row} (htouched : cmd.touched w < logCapacity) :
    (lockStep codec r w cmd).primary = (w.command cmd).primary ∧
      Level r (lockStep codec r w cmd) := by
  have hcursor : ∀ t ∈ r.tables,
      ((w.command cmd).cursors t).toNat ≤ ((w.command cmd).primary t).log.length :=
    fun t ht => (Nat.le_of_eq (h.cursor t ht)).trans (World.log_command cmd w t).length_le
  obtain ⟨hprimary, hpass⟩ := caughtUp_spec codec r hcursor
  refine ⟨hprimary, fun t ht => ?_, fun t ht i hi => ?_⟩
  · rw [Replicate.lockStep, hprimary]
    exact (hpass t ht).1
  · have hcopy := (hpass t ht).2 i hi
    have hrows : ((w.command cmd).copy i t).rows = (w.primary t).inserted := h.replica t ht i hi
    rw [foldl_replay, hrows] at hcopy
    rw [Replicate.lockStep, hprimary]
    exact (congrArg Copy.rows hcopy).trans (h.rowsAfter htouched ht)

/-- A history of commands, each with its pass. -/
theorem Level.history (codec : RowCodec Row) {r : Replicator} {cmds : List (Command Row)}
    {w : World Row} (h : Level r w) (hbounded : Bounded codec r w cmds) :
    Level r (cmds.foldl (Replicate.lockStep codec r) w) ∧
      ((∀ cmd ∈ cmds, cmd.mutation.isUpdate = false) → (∀ t, (w.primary t).AsInserted) →
        ∀ t, ((cmds.foldl (Replicate.lockStep codec r) w).primary t).AsInserted) := by
  induction cmds generalizing w with
  | nil => exact ⟨h, fun _ hrows => hrows⟩
  | cons cmd cmds ih =>
    obtain ⟨htouched, hbounded⟩ := hbounded
    obtain ⟨hprimary, hnext⟩ := h.lockStep codec htouched
    obtain ⟨hend, hkept⟩ := ih hnext hbounded
    refine ⟨hend, fun hupdates hrows => hkept ?_ fun t => ?_⟩
    · exact fun cmd' hcmd' => hupdates cmd' (List.mem_cons_of_mem _ hcmd')
    · rw [hprimary]
      have hcmd := hupdates cmd List.mem_cons_self
      exact World.command_keeps (hrows t) ((hrows t).apply _ hcmd)

/-- **Lock-step replication.** A pass after every command leaves every replica with the
rows of the primary as they were inserted, and so with its rows when nothing is
updated. -/
theorem lockStep_replicas (codec : RowCodec Row) (r : Replicator) (rows : TableId → List Row)
    (log : TableId → List LogEvent) (cmds : List (Command Row))
    (hbounded : Bounded codec r (.synchronized rows log) cmds) {t : TableId} (ht : t ∈ r.tables)
    {i : Nat} (hi : i < r.replicas) :
    let w := cmds.foldl (lockStep codec r) (.synchronized rows log)
    w.replica i t = (w.primary t).inserted ∧
      ((∀ cmd ∈ cmds, cmd.mutation.isUpdate = false) → w.replica i t = (w.primary t).rows) := by
  intro w
  obtain ⟨hlevel, hkept⟩ := (synchronized_level r rows log).history codec hbounded
  have hreplica := hlevel.replica t ht i hi
  refine ⟨hreplica, fun hupdates => ?_⟩
  have hrows := hkept hupdates (fun t => Table.starting_asInserted (rows t) (log t)) t
  rw [hrows.rows]
  exact hreplica

/-- A row is inserted, and of the two rows the first is deleted. -/
theorem lockStep_replicas_swap :
    let cmds : List (Command TextRow) :=
      [⟨fun id => id, ⟨0, 0⟩, .insert (cells "b")⟩,
        ⟨fun id => id, ⟨0, 0⟩, .deleteWhere fun row => row = cells "a"⟩]
    let w := cmds.foldl (lockStep textRows oneReplica)
      (.synchronized (fun _ => [cells "a"]) fun _ => [])
    w.replica 0 ⟨0, 0⟩ = (w.primary ⟨0, 0⟩).rows := by
  intro cmds w
  have hbounded : Bounded textRows oneReplica (.synchronized (fun _ => [cells "a"]) fun _ => [])
      cmds := by
    decide +kernel
  have hupdates : ∀ cmd ∈ cmds, cmd.mutation.isUpdate = false := by decide
  exact (lockStep_replicas textRows oneReplica (fun _ => [cells "a"]) (fun _ => []) cmds hbounded
    List.mem_cons_self (by decide)).2 hupdates

/-- The one row is updated, and the replica keeps the old one. -/
theorem update_not_replayed :
    let cmds : List (Command TextRow) :=
      [⟨fun id => id, ⟨0, 0⟩, .update (fun _ => true) fun _ => cells "b"⟩]
    let w₀ : World TextRow := .synchronized (fun _ => [cells "a"]) fun _ => []
    let w := cmds.foldl (lockStep textRows oneReplica) w₀
    Bounded textRows oneReplica w₀ cmds ∧ w.replica 0 ⟨0, 0⟩ = [cells "a"] ∧
      (w.primary ⟨0, 0⟩).rows = [cells "b"] := by
  decide +kernel

end CuttleDB.Replicate
