import CuttleDB.ReplicateSync

/-!
# Convergence under concurrent commands

Other clients insert and delete rows while the worker replays. What it reads for an
insert entry is the row that is in the slot by then, which may be another one, or none.
As long as the row of the entry is still in its slot or has been deleted, and no write
meets a replica that has missed a row in front of it, the replicas end up equal to the
primary; a row that has moved before it was replayed is lost or replaced for good.
-/

namespace CuttleDB.Replicate

open Interaction Py SwapRemove

variable {Row : Type}

/-! ### The assumptions -/

/-- What `GET` finds for the insert entry that is being replayed: its row, or any other
or none once that row is deleted. A row may only be read when no replica has missed a
row in front of it. -/
def Follows (replicas : Nat) (w : World Row) (t : TableId) (rowId : Int) : Prop :=
  let table := w.primary t
  let origin := Origin.event (w.position t)
  match table.slots[rowId.toNat]? with
  | some s => (s.origin = origin ∨ Gone table origin) ∧
      ∀ i < replicas, (w.replica i t).length = rowId.toNat
  | none => Gone table origin

/-- Inserts and deletes only, every call answered, fewer than 1024 entries between two
`LOG`s, the row of an insert entry in its slot or deleted, and a delete entry replayed
at replicas that have missed no row or lose at most their last one. -/
def Undisturbed (r : Replicator) : Rely Call (World Row) (Command Row) Outcome where
  act cmd _ := cmd.mutation.isUpdate = false
  call o e w :=
    match e with
    | .log t since => o = .ok ∧ (w.primary t).log.length < since.toNat + logCapacity
    | .get t rowId => o = .ok ∧ Follows r.replicas w t rowId
    | .insert _ _ _ => o = .ok
    | .delete i t rowId => o = .ok ∧
        ((w.replica i t).length = (w.primary t).sizeAt (w.position t) ∨
          (w.replica i t).length ≤ rowId.toNat + 1)
    | _ => True

instance (t : Table Row) (o : Origin) : Decidable (Gone t o) :=
  inferInstanceAs (Decidable (∀ s ∈ t.slots, s.origin ≠ o))

instance (replicas : Nat) (w : World Row) (t : TableId) (rowId : Int) :
    Decidable (Follows replicas w t rowId) := by
  unfold Follows
  dsimp only
  split <;> infer_instance

instance (r : Replicator) (cmd : Command Row) (w : World Row) :
    Decidable ((Undisturbed r).act cmd w) :=
  inferInstanceAs (Decidable (cmd.mutation.isUpdate = false))

instance (r : Replicator) (o : Outcome) (e : Call) (w : World Row) :
    Decidable ((Undisturbed r).call o e w) := by
  unfold Undisturbed
  dsimp only
  split <;> infer_instance

/-- Once all entries of a table are replayed, the replicas have its rows. -/
def Converged (r : Replicator) (base : TableId → Nat) (w : World Row) : Prop :=
  ∀ t ∈ r.tables, base t + (w.replayed t).length = (w.primary t).log.length →
    ∀ i < r.replicas, w.replica i t = (w.primary t).rows

/-! ### One table -/

section Table

variable (base : Nat) (os : List Origin) (replicas : Nat)

/-- Between two passes over the table, of which `m` entries have been replayed. -/
structure InStep (t : Table Row) (cursor : Int) (m : Nat) (copies : Nat → List Row) : Prop where
  cursor_eq : cursor = (base + m : Nat)
  le_length : base + m ≤ t.log.length
  synced : ∀ i < replicas, Synced base os t (copies i) m

/-- The replicas at a point of the pass; those that have been written are one ahead. -/
def PhaseSynced (t : Table Row) (m : Nat) (copies : Nat → List Row) : Phase Row → Prop
  | .next _ => ∀ i < replicas, Synced base os t (copies i) m
  | .write e _ (some row) k =>
    (∀ i < replicas, Synced base os t (copies i) (if i < k then m + 1 else m)) ∧
      e.op = .insert ∧ Stands t row (.event (base + m)) ∧
      ∀ i < replicas, k ≤ i → (copies i).length = e.rowId
  | .write e _ none k =>
    (∀ i < replicas, Synced base os t (copies i) (if i < k then m + 1 else m)) ∧ e.op = .delete
  | .count _ _ => ∀ i < replicas, Synced base os t (copies i) (m + 1)

/-- While the table is replayed up to `c`. -/
structure Replaying (t : Table Row) (m position : Nat) (copies : Nat → List Row) (c : Nat)
    (p : Phase Row) : Prop where
  upto : base + m + p.pending.length = c
  le_length : c ≤ t.log.length
  pending : p.pending <+: t.log.drop (base + m)
  position_eq : position = base + m
  synced : PhaseSynced base os replicas t m copies p

variable {base os replicas} {t : Table Row} {m : Nat} {copies : Nat → List Row}

theorem InStep.apply {cursor : Int} (h : InStep base os replicas t cursor m copies)
    (hos : Before base os) (clock : Nat → Nat) (m' : Mutation Row) :
    InStep base os replicas (t.apply clock m') cursor m copies where
  cursor_eq := h.cursor_eq
  le_length := h.le_length.trans (Table.log_prefix clock m' t).length_le
  synced i hi := (h.synced i hi).apply hos h.le_length clock m'

theorem PhaseSynced.apply {p : Phase Row} (h : PhaseSynced base os replicas t m copies p)
    (hos : Before base os) (hm : base + m + p.pending.length ≤ t.log.length)
    (clock : Nat → Nat) (m' : Mutation Row) :
    PhaseSynced base os replicas (t.apply clock m') m copies p := by
  cases p with
  | next es => exact fun i hi => (h i hi).apply hos (Nat.le_of_add_right_le hm) clock m'
  | count e es =>
    have hsucc : base + (m + 1) ≤ t.log.length := by
      rw [Phase.pending, List.length_cons] at hm
      omega
    exact fun i hi => (h i hi).apply hos hsucc clock m'
  | write e es row k =>
    have hsucc : base + (m + 1) ≤ t.log.length := by
      rw [Phase.pending, List.length_cons] at hm
      omega
    have hkeep : ∀ i < replicas, Synced base os t (copies i) (if i < k then m + 1 else m) →
        Synced base os (t.apply clock m') (copies i) (if i < k then m + 1 else m) := by
      intro i hi hsynced
      apply hsynced.apply hos _ clock m'
      split <;> omega
    cases row with
    | none => exact ⟨fun i hi => hkeep i hi (h.1 i hi), h.2⟩
    | some row =>
      obtain ⟨hsynced, hop, hstands, hlength⟩ := h
      refine ⟨fun i hi => hkeep i hi (hsynced i hi), hop, ?_, hlength⟩
      apply hstands.apply _ clock m'
      intro id hid
      obtain rfl := Origin.event.inj hid
      omega

theorem Replaying.apply {position c : Nat} {p : Phase Row}
    (h : Replaying base os replicas t m position copies c p) (hos : Before base os)
    (clock : Nat → Nat) (m' : Mutation Row) :
    Replaying base os replicas (t.apply clock m') m position copies c p where
  upto := h.upto
  le_length := h.le_length.trans (Table.log_prefix clock m' t).length_le
  pending := by
    obtain ⟨new, hnew⟩ := Table.log_prefix clock m' t
    have hle : base + m ≤ t.log.length := by
      have hlength := h.le_length
      have hupto := h.upto
      omega
    rw [← hnew, List.drop_append_of_le_length hle]
    exact h.pending.trans (List.prefix_append _ _)
  position_eq := h.position_eq
  synced := h.synced.apply hos (h.upto ▸ h.le_length) clock m'

/-! ### The worker's steps at one table -/

/-- `LOG` returns the entries behind the cursor. -/
theorem InStep.read {cursor : Int} (h : InStep base os replicas t cursor m copies)
    (hwindow : t.log.length < cursor.toNat + logCapacity) :
    Replaying base os replicas t m (firstKept cursor.toNat t) copies t.log.length
      (.next (t.log.drop (firstKept cursor.toNat t))) := by
  have hkept : firstKept cursor.toNat t = base + m := by
    rw [h.cursor_eq] at hwindow ⊢
    exact Nat.max_eq_left (Nat.sub_le_of_le_add (Nat.le_of_lt hwindow))
  have hle := h.le_length
  rw [hkept]
  refine ⟨?_, Nat.le_refl _, List.prefix_rfl, rfl, h.synced⟩
  rw [Phase.pending, List.length_drop]
  omega

variable {position c : Nat} {e : LogEvent} {es : List LogEvent}

/-- The row of the slot stands for the row of the entry. -/
theorem Replaying.found (h : Replaying base os replicas t m position copies c (.next (e :: es)))
    (hop : e.op = .insert) (htracks : t.Tracks base os) (hrows : t.AsInserted) {s : Slot Row}
    (hs : s ∈ t.slots) (horigin : s.origin = .event position ∨ Gone t (.event position))
    (hlength : ∀ i < replicas, (copies i).length = e.rowId) :
    Replaying base os replicas t m position copies c (.write e es (some s.row) 0) := by
  refine ⟨h.upto, h.le_length, h.pending, h.position_eq, ?_, hop, ?_, fun i hi _ => hlength i hi⟩
  · exact fun i hi => h.synced i hi
  · rw [← h.position_eq]
    intro s' hs' hevent
    rcases horigin with horigin | hgone
    · have hsame : s' = s := htracks.unique hs' hs (hevent.trans horigin.symm)
      rw [hsame]
      exact hrows s hs
    · exact absurd hevent (hgone s' hs')

theorem Replaying.vanished
    (h : Replaying base os replicas t m position copies c (.next (e :: es)))
    (hop : e.op = .insert) (hgone : Gone t (.event position)) :
    Replaying base os replicas t m position copies c (.count e es) where
  upto := h.upto
  le_length := h.le_length
  pending := h.pending
  position_eq := h.position_eq
  synced i hi := (h.synced i hi).skip h.pending hop (h.position_eq ▸ hgone)

theorem Replaying.updated
    (h : Replaying base os replicas t m position copies c (.next (e :: es)))
    (hop : e.op = .update) : Replaying base os replicas t m position copies c (.count e es) where
  upto := h.upto
  le_length := h.le_length
  pending := h.pending
  position_eq := h.position_eq
  synced i hi := (h.synced i hi).update h.pending hop

/-- One replica is written and gets one ahead. -/
theorem Replaying.written {row : Option Row} {k : Nat} {copies' : Nat → List Row}
    (h : Replaying base os replicas t m position copies c (.write e es row k))
    (hk : Synced base os t (copies' k) (m + 1)) (hother : ∀ i, i ≠ k → copies' i = copies i) :
    Replaying base os replicas t m position copies' c (.write e es row (k + 1)) := by
  have hstep : (∀ i < replicas, Synced base os t (copies i) (if i < k then m + 1 else m)) →
      ∀ i < replicas, Synced base os t (copies' i) (if i < k + 1 then m + 1 else m) := by
    intro hsynced i hi
    rcases Nat.lt_trichotomy i k with hlt | rfl | hgt
    · have hold := hsynced i hi
      rw [if_pos hlt] at hold
      rwa [if_pos (Nat.lt_succ_of_lt hlt), hother i (Nat.ne_of_lt hlt)]
    · rwa [if_pos (Nat.lt_succ_self i)]
    · have hold := hsynced i hi
      rw [if_neg (Nat.not_lt_of_gt hgt)] at hold
      rwa [if_neg (by omega), hother i (Nat.ne_of_gt hgt)]
  refine ⟨h.upto, h.le_length, h.pending, h.position_eq, ?_⟩
  cases row with
  | none => exact ⟨hstep h.synced.1, h.synced.2⟩
  | some row =>
    obtain ⟨hsynced, hop, hstands, hlength⟩ := h.synced
    refine ⟨hstep hsynced, hop, hstands, fun i hi hle => ?_⟩
    rw [hother i (Nat.ne_of_gt hle)]
    exact hlength i hi (Nat.le_of_succ_le hle)

theorem Replaying.done {row : Option Row}
    (h : Replaying base os replicas t m position copies c (.write e es row replicas)) :
    Replaying base os replicas t m position copies c (.count e es) := by
  refine ⟨h.upto, h.le_length, h.pending, h.position_eq, fun i hi => ?_⟩
  have hsynced : Synced base os t (copies i) (if i < replicas then m + 1 else m) := by
    cases row with
    | none => exact h.synced.1 i hi
    | some row => exact h.synced.1 i hi
  rwa [if_pos hi] at hsynced

theorem Replaying.counted (h : Replaying base os replicas t m position copies c (.count e es)) :
    Replaying base os replicas t (m + 1) (position + 1) copies c (.next es) := by
  have hupto := h.upto
  rw [Phase.pending, List.length_cons] at hupto
  refine ⟨?_, h.le_length, ?_, ?_, h.synced⟩
  · rw [Phase.pending]
    omega
  · obtain ⟨rest, hrest⟩ := h.pending
    refine ⟨rest, ?_⟩
    rw [← Nat.add_assoc, ← List.drop_drop, ← hrest]
    rfl
  · rw [h.position_eq, Nat.add_assoc]

theorem Replaying.stored (h : Replaying base os replicas t m position copies c (.next [])) :
    InStep base os replicas t c m copies where
  cursor_eq := congrArg Nat.cast h.upto.symm
  le_length := h.upto ▸ h.le_length
  synced := h.synced

/-- While entries are read and not counted, not all of them are replayed. -/
theorem Replaying.converged {p : Phase Row}
    (h : Replaying base os replicas t m position copies c p) (htracks : t.Tracks base os)
    (hrows : t.AsInserted) (hall : base + m = t.log.length) :
    ∀ i < replicas, copies i = t.rows := by
  have hpending : p.pending = [] := by
    have hupto := h.upto
    have hle := h.le_length
    exact List.length_eq_zero_iff.mp (by omega)
  cases p with
  | write e es row k => cases hpending
  | count e es => cases hpending
  | next es =>
    intro i hi
    rw [hrows.rows]
    exact (h.synced i hi).complete htracks hall

end Table

/-! ### All tables -/

section World

variable (r : Replicator) (base : TableId → Nat) (os : TableId → List Origin)

/-- Every table agrees with its log and has its rows as they were inserted. -/
def Sound (w : World Row) : Prop :=
  ∀ t, (w.primary t).Tracks (base t) (os t) ∧ (w.primary t).AsInserted

def InStepAt (w : World Row) (t : TableId) : Prop :=
  InStep (base t) (os t) r.replicas (w.primary t) (w.cursors t) (w.replayed t).length
    fun i => w.replica i t

structure AllInStep (w : World Row) : Prop where
  sound : Sound base os w
  inStep : ∀ t ∈ r.tables, InStepAt r base os w t

structure ReplayingAt (t : TableId) (c : Nat) (p : Phase Row) (w : World Row) : Prop where
  sound : Sound base os w
  mem : t ∈ r.tables
  others : ∀ u ∈ r.tables, u ≠ t → InStepAt r base os w u
  this : Replaying (base t) (os t) r.replicas (w.primary t) (w.replayed t).length (w.position t)
    (fun i => w.replica i t) c p

variable {r base os}

theorem Sound.command {w : World Row} (h : Sound base os w) (cmd : Command Row)
    (hcmd : cmd.mutation.isUpdate = false) : Sound base os (w.command cmd) := by
  intro t
  obtain ⟨htracks, hrows⟩ := h t
  exact ⟨World.command_keeps htracks (htracks.apply _ _),
    World.command_keeps hrows (hrows.apply _ hcmd)⟩

theorem InStepAt.command {w : World Row} {t : TableId} (h : InStepAt r base os w t)
    (hos : Before (base t) (os t)) (cmd : Command Row) : InStepAt r base os (w.command cmd) t :=
  World.command_keeps (P := fun table => InStep (base t) (os t) r.replicas table (w.cursors t)
    (w.replayed t).length fun i => w.replica i t) h (h.apply hos _ _)

theorem InStepAt.converged {w : World Row} {t : TableId} (h : InStepAt r base os w t)
    (hsound : Sound base os w)
    (hall : base t + (w.replayed t).length = (w.primary t).log.length) :
    ∀ i < r.replicas, w.replica i t = (w.primary t).rows := by
  intro i hi
  rw [(hsound t).2.rows]
  exact (h.synced i hi).complete (hsound t).1 hall

theorem AllInStep.converged {w : World Row} (h : AllInStep r base os w) : Converged r base w :=
  fun t ht hall => (h.inStep t ht).converged h.sound hall

theorem ReplayingAt.converged {t : TableId} {c : Nat} {p : Phase Row} {w : World Row}
    (h : ReplayingAt r base os t c p w) : Converged r base w := by
  intro u hu hall
  by_cases hut : u = t
  · subst hut
    exact h.this.converged (h.sound u).1 (h.sound u).2 hall
  · exact (h.others u hu hut).converged h.sound hall

/-- A write to a replica of the table, for what it makes of that replica. -/
theorem ReplayingAt.write {t : TableId} {c : Nat} {e : LogEvent} {es : List LogEvent}
    {row : Option Row} {k : Nat} {w : World Row} (w' : World Row)
    (h : ReplayingAt r base os t c (.write e es row k) w) (hprimary : w'.primary = w.primary)
    (hcursors : w'.cursors = w.cursors) (hreplayed : w'.replayed = w.replayed)
    (hposition : w'.position = w.position)
    (hreplica : ∀ i u, ¬ (i = k ∧ u = t) → w'.replica i u = w.replica i u)
    (hk : Synced (base t) (os t) (w.primary t) (w'.replica k t) ((w.replayed t).length + 1)) :
    ReplayingAt r base os t c (.write e es row (k + 1)) w' := by
  refine ⟨?_, h.mem, fun u hu hne => ?_, ?_⟩
  · rw [Sound, hprimary]
    exact h.sound
  · have hrows : (fun i => w'.replica i u) = fun i => w.replica i u :=
      funext fun i => hreplica i u fun heq => hne heq.2
    rw [InStepAt, hprimary, hcursors, hreplayed, hrows]
    exact h.others u hu hne
  · rw [hprimary, hreplayed, hposition]
    exact h.this.written hk fun i hne => hreplica i t fun heq => hne heq.1

def convergenceOutline (codec : RowCodec Row) (hos : ∀ t, Before (base t) (os t)) :
    Outline codec (Undisturbed r) (fun _ => Converged r base) r where
  idle _ := AllInStep r base os
  within _ := ReplayingAt r base os
  stable_idle _ cmd w hcmd h :=
    ⟨h.sound.command cmd hcmd, fun t ht => (h.inStep t ht).command (hos t) cmd⟩
  stable_within _ t c p cmd w hcmd h :=
    ⟨h.sound.command cmd hcmd, h.mem, fun u hu hne => (h.others u hu hne).command (hos u) cmd,
      World.command_keeps (P := fun table => Replaying (base t) (os t) r.replicas table
        (w.replayed t).length (w.position t) (fun i => w.replica i t) c p)
        h.this (h.this.apply (hos t) _ _)⟩
  call_idle _ _ _ _ h := h.converged
  call_within _ _ _ _ _ _ _ h := h.converged
  call_store _ _ _ _ h := h.converged
  start _ h := h
  log_ok _ t w ht h hrely := by
    refine ⟨h.sound, ht, fun u hu _ => h.inStep u hu, ?_⟩
    rw [World.position_fetch_self]
    exact (h.inStep t ht).read hrely.2
  log_fails _ t w m done h hrely := nomatch hrely.1
  get_ok _ t c e es w hop h hrely := by
    obtain ⟨-, hfollows⟩ := hrely
    rw [Follows, Int.toNat_natCast] at hfollows
    cases hs : (w.primary t).slots[e.rowId]? with
    | some s =>
      rw [hs] at hfollows
      have hmem := List.mem_of_getElem? hs
      exact ⟨h.sound, h.mem, h.others, h.this.found hop (h.sound t).1 (h.sound t).2 hmem
        hfollows.1 hfollows.2⟩
    | none =>
      rw [hs] at hfollows
      exact ⟨h.sound, h.mem, h.others, h.this.vanished hop hfollows⟩
  get_fails _ t c e es w m done hop h hrely := nomatch hrely.1
  delete_first _ t c e es w hop h :=
    ⟨h.sound, h.mem, h.others, h.this.upto, h.this.le_length, h.this.pending,
      h.this.position_eq, fun i hi => h.this.synced i hi, hop⟩
  update_skip _ t c e es w hop h := ⟨h.sound, h.mem, h.others, h.this.updated hop⟩
  insert_ok _ t c e es row k w hk h hrely := by
    apply ReplayingAt.write (w.push k t row) h rfl rfl rfl rfl
      fun i u hne => World.replica_push_of_ne hne row w
    obtain ⟨hsynced, hop, hstands, hlength⟩ := h.this.synced
    have hold := hsynced k hk
    rw [if_neg (Nat.lt_irrefl k)] at hold
    rw [World.replica_push_self]
    exact hold.insert (h.sound t).1 h.this.pending hop (hlength k hk (Nat.le_refl k)) hstands
  insert_fails _ t c e es row k w m done hk h hrely := nomatch hrely
  insert_raises _ t c e es row k w x done hk h hrely := nomatch hrely
  delete_ok _ t c e es k w hk h hrely := by
    apply ReplayingAt.write (w.remove k t e.rowId) h rfl rfl rfl rfl
      fun i u hne => World.replica_remove_of_ne hne e.rowId w
    obtain ⟨hsynced, hop⟩ := h.this.synced
    have hold := hsynced k hk
    rw [if_neg (Nat.lt_irrefl k)] at hold
    rw [World.replica_remove_self]
    apply hold.delete (h.sound t).1 h.this.pending hop
    rw [← h.this.position_eq]
    exact hrely.2
  delete_fails _ t c e es k w m done hk h hrely := nomatch hrely.1
  delete_raises _ t c e es k w x done hk h hrely := nomatch hrely.1
  written _ t c e es row w h := ⟨h.sound, h.mem, h.others, h.this.done⟩
  count _ t c e es w h := by
    refine ⟨h.sound, h.mem, fun u hu hne => ?_, ?_⟩
    · rw [InStepAt, World.replayed_count_of_ne hne]
      exact h.others u hu hne
    · rw [World.replayed_count_self, World.position_count_self, List.length_append]
      exact h.this.counted
  store _ t c w h := by
    refine ⟨h.sound, fun u hu => ?_⟩
    by_cases hut : u = t
    · subst hut
      rw [InStepAt, World.cursors_store_self]
      exact h.this.stored
    · rw [InStepAt, World.cursors_store_of_ne hut]
      exact h.others u hu hut

end World

/-- **Replica convergence.** The replicas start equal to the primary with the cursors at
its counts. In every run of inserts and deletes in which the worker always meets the
row of an insert entry in its slot or deleted, the replicas are equal to the primary
whenever all entries have been replayed. -/
theorem run_converges (codec : RowCodec Row) (r : Replicator) (rows : TableId → List Row)
    (log : TableId → List LogEvent) (moves : List (Move (Command Row) Outcome))
    (halong : codec.system.Along (Undisturbed r) r.run moves ⟨.synchronized rows log, r.run⟩)
    {t : TableId} (ht : t ∈ r.tables) :
    let w := (codec.system.run r.run moves (.synchronized rows log)).world
    (log t).length + (w.replayed t).length = (w.primary t).log.length →
      ∀ i < r.replicas, w.replica i t = (w.primary t).rows := by
  let base : TableId → Nat := fun t => (log t).length
  let os : TableId → List Origin := fun t =>
    (Table.starting (rows t) (log t)).slots.map Slot.origin
  have hos : ∀ t, Before (base t) (os t) := fun t => starting_before (rows t) (log t)
  have hstart : AllInStep r base os (.synchronized rows log) :=
    ⟨fun t => ⟨Table.starting_tracks _ _, Table.starting_asInserted _ _⟩,
      fun t _ => ⟨rfl, Nat.le_refl _, fun i _ => starting_synced (rows t) (log t)⟩⟩
  let o := convergenceOutline (r := r) codec hos
  have hsafe : ∀ w, AllInStep r base os w → codec.system.Safe (Undisturbed r)
      (fun _ => Converged r base) (fun _ => o.Crash) (fun _ => AllInStep r base os) r.run w :=
    fun w hw => o.run_safe (fun _ _ h => ⟨h.sound, h.inStep⟩)
      (fun _ _ _ _ _ h => ⟨h.sound, h.mem, h.others, h.this⟩) hw
  have hcrash : ∀ w, o.Crash w → Converged r base w := by
    rintro w ⟨⟨_, h⟩ | ⟨_, t, c, p, h⟩, -⟩
    · exact h.converged
    · exact h.converged
  have halways := System.Safe.always (G := Converged r base)
    (fun w hw => (hsafe w hw).mono (fun _ => hcrash) fun _ _ h => h)
    (fun w h => h.converged) moves hstart halong
  exact halways t ht

/-- A row is inserted, a pass brings it to the replica, the row in front of it is deleted, and
the next pass moves it into its place at the replica too. -/
theorem run_converges_swap :
    let insert : Command TextRow := ⟨fun id => id, ⟨0, 0⟩, .insert (cells "b")⟩
    let delete : Command TextRow := ⟨fun id => id, ⟨0, 0⟩, .delete 0⟩
    let moves := .env insert :: List.replicate 9 (.step .ok) ++
      .env delete :: List.replicate 6 (.step .ok)
    let w := (textRows.system.run oneReplica.run moves
      (.synchronized (fun _ => [cells "a"]) fun _ => [])).world
    w.replica 0 ⟨0, 0⟩ = (w.primary ⟨0, 0⟩).rows ∧
      w.replica 0 ⟨0, 0⟩ = [cells "b"] ∧ (w.replayed ⟨0, 0⟩).length = 2 := by
  intro insert delete moves w
  have halong : textRows.system.Along (Undisturbed oneReplica) oneReplica.run moves
      ⟨.synchronized (fun _ => [cells "a"]) fun _ => [], oneReplica.run⟩ := by
    decide +kernel
  have hall : 0 + (w.replayed ⟨0, 0⟩).length = (w.primary ⟨0, 0⟩).log.length := by
    decide +kernel
  have hequal := run_converges textRows oneReplica (fun _ => [cells "a"]) (fun _ => []) moves
    halong List.mem_cons_self hall 0 (by decide)
  exact ⟨hequal, by decide +kernel, by decide +kernel⟩

/-- Two rows are inserted and the first is deleted before the first pass. The second one
has moved to slot 0 by then, and the replica ends up without it. -/
theorem moved_row_lost :
    let commands : List (Mutation TextRow) := [.insert (cells "a"), .insert (cells "b"), .delete 0]
    let moves := commands.map (fun m => .env ⟨fun id => id, ⟨0, 0⟩, m⟩) ++
      List.replicate 10 (.step .ok)
    let w := (textRows.system.run oneReplica.run moves
      (.synchronized (fun _ => []) fun _ => [])).world
    (w.replayed ⟨0, 0⟩).length = (w.primary ⟨0, 0⟩).log.length ∧
      w.replica 0 ⟨0, 0⟩ = [] ∧ (w.primary ⟨0, 0⟩).rows = [cells "b"] := by
  decide +kernel

end CuttleDB.Replicate
