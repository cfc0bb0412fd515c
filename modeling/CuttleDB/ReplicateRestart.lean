import CuttleDB.ReplicateFold

/-!
# Restarts

The process can end between any two of its steps, by an exception of a connection, which
`close` handles, or without any warning. The next one starts with the cursors of the
checkpoint file and replays everything behind them once more. A second replay of an
entry is harmless when the entry writes nothing, or is a delete past the end of the
replica; every other write since the checkpoint is made twice.
-/

namespace CuttleDB.Replicate

open Interaction Py SwapRemove

variable {Row : Type}

/-! ### Writes and their entries -/

section Writes

variable (t : Table Row)

/-- The entry makes a write. -/
def writesTo (p : LogEvent × Nat) : Bool :=
  match p.1.op with
  | .insert => t.slots[p.1.rowId]?.isSome
  | .delete => true
  | .update => false

/-- The entry leaves a replica with these rows as it is. -/
def Vacuous (rows : List Row) (p : LogEvent × Nat) : Prop :=
  match p.1.op with
  | .insert => t.slots[p.1.rowId]? = none
  | .delete => rows.length ≤ p.1.rowId
  | .update => True

variable {t}

/-- Which entries make a write does not depend on the rows. -/
theorem writesAfter_ids (rows : List Row) (es : List (LogEvent × Nat)) :
    (writesAfter t rows es).map Prod.fst = (es.filter (writesTo t)).map Prod.snd := by
  have hone : ∀ (rows : List Row) (p : LogEvent × Nat),
      (writesAfter t rows [p]).map Prod.fst = ([p].filter (writesTo t)).map Prod.snd := by
    intro rows p
    cases hop : p.1.op with
    | insert =>
      cases hs : t.slots[p.1.rowId]? with
      | some s => simp [writesAfter, Copy.replay, writesTo, hop, hs, Copy.push]
      | none => simp [writesAfter, Copy.replay, writesTo, hop, hs]
    | delete => simp [writesAfter, Copy.replay, writesTo, hop, Copy.remove]
    | update => simp [writesAfter, Copy.replay, writesTo, hop]
  induction es generalizing rows with
  | nil => rfl
  | cons p es ih =>
    rw [← List.singleton_append, writesAfter_append, List.map_append, hone, ih,
      List.filter_append, List.map_append]

theorem vacuous_iff (rows : List Row) (p : LogEvent × Nat) :
    Vacuous t rows p ↔ ∀ q ∈ writesAfter t rows [p], q.2 = false := by
  simp only [Vacuous, writesAfter, List.foldl_cons, List.foldl_nil, Copy.replay]
  cases p.1.op with
  | insert =>
    cases t.slots[p.1.rowId]? with
    | some s => simp [Copy.push]
    | none => simp
  | delete => simp [Copy.remove]
  | update => simp

theorem Vacuous.rowsAfter {rows : List Row} {p : LogEvent × Nat} (h : Vacuous t rows p) :
    rowsAfter t rows [p] = rows := by
  simp only [Vacuous] at h
  simp only [Replicate.rowsAfter, List.foldl_cons, List.foldl_nil, Copy.replay]
  cases hop : p.1.op with
  | insert =>
    rw [hop] at h
    simp only [h]
  | delete =>
    rw [hop] at h
    exact swapRemove_of_le h
  | update => rfl

/-- Entries are replayed without effect when each of them is, on the same rows. -/
theorem forall_vacuous_iff (rows : List Row) (es : List (LogEvent × Nat)) :
    (∀ p ∈ es, Vacuous t rows p) ↔ ∀ q ∈ writesAfter t rows es, q.2 = false := by
  induction es with
  | nil => simp [writesAfter]
  | cons p es ih =>
    rw [List.forall_mem_cons, ← List.singleton_append, writesAfter_append, List.forall_mem_append,
      ← vacuous_iff]
    apply and_congr_right
    intro hp
    rw [hp.rowsAfter]
    exact ih

theorem rowsAfter_of_vacuous {rows : List Row} {es : List (LogEvent × Nat)}
    (h : ∀ p ∈ es, Vacuous t rows p) : rowsAfter t rows es = rows := by
  induction es with
  | nil => rfl
  | cons p es ih =>
    obtain ⟨hp, hes⟩ := List.forall_mem_cons.mp h
    rw [← List.singleton_append, rowsAfter_append, hp.rowsAfter, ih hes]

variable {rows : List Row} {es : List (LogEvent × Nat)}

theorem exists_entry {q : Nat × Bool} (hq : q ∈ writesAfter t rows es) :
    ∃ p ∈ es, writesTo t p = true ∧ p.2 = q.1 := by
  have hid : q.1 ∈ (writesAfter t rows es).map Prod.fst := List.mem_map_of_mem hq
  rw [writesAfter_ids] at hid
  obtain ⟨p, hp, heq⟩ := List.mem_map.mp hid
  obtain ⟨hmem, hwrites⟩ := List.mem_filter.mp hp
  exact ⟨p, hmem, hwrites, heq⟩

theorem exists_write (rows : List Row) {p : LogEvent × Nat} (hp : p ∈ es)
    (hwrites : writesTo t p = true) : ∃ q ∈ writesAfter t rows es, q.1 = p.2 := by
  have hid : p.2 ∈ (es.filter (writesTo t)).map Prod.snd :=
    List.mem_map_of_mem (List.mem_filter.mpr ⟨hp, hwrites⟩)
  rw [← writesAfter_ids rows] at hid
  obtain ⟨q, hq, heq⟩ := List.mem_map.mp hid
  exact ⟨q, hq, heq⟩

end Writes

/-! ### The second replay -/

/-- No entry is applied a second time with effect. -/
def AppliedOnce (writes : List (Nat × Bool)) : Prop :=
  writes.Pairwise fun p q => p.1 = q.1 → q.2 = false

/-- A replica after an interruption, compared with the same one without. -/
structure Resumes (again once : Copy Row) : Prop where
  rows : again.rows = once.rows
  appliedOnce : AppliedOnce again.writes
  complete : ∀ p ∈ once.writes, p.1 ∈ again.writes.map Prod.fst

/-- Every write that the saved cursor is behind is a delete past the end of the table. -/
def Settled (t : Table Row) (saved : Nat) (c : Copy Row) : Prop :=
  ∀ p ∈ c.writes, firstKept saved t ≤ p.1 →
    ∃ e, t.log[p.1]? = some e ∧ e.op = .delete ∧ c.rows.length ≤ e.rowId

section Second

variable {t : Table Row} {rows : List Row} {past again rest : List (LogEvent × Nat)}

theorem appliedOnce_of_increasing (h : again.Pairwise fun p q => p.2 < q.2) :
    AppliedOnce (writesAfter t rows again) := by
  have hids : ((writesAfter t rows again).map Prod.fst).Pairwise (· < ·) := by
    rw [writesAfter_ids]
    exact List.pairwise_map.mpr (h.filter _)
  exact (List.pairwise_map.mp hids).imp fun hlt heq => absurd heq (Nat.ne_of_lt hlt)

/-- The entries `again` are replayed a second time, after themselves. -/
theorem appliedOnce_iff (h : (past ++ again ++ rest).Pairwise fun p q => p.2 < q.2) :
    AppliedOnce (writesAfter t rows (past ++ again) ++
        writesAfter t (rowsAfter t rows (past ++ again)) (again ++ rest)) ↔
      ∀ p ∈ again, Vacuous t (rowsAfter t rows (past ++ again)) p := by
  constructor
  · intro honce
    rw [forall_vacuous_iff]
    intro q hq
    obtain ⟨p, hp, hwrites, hid⟩ := exists_entry hq
    obtain ⟨q₀, hq₀, hid₀⟩ := exists_write rows (List.mem_append_right past hp) hwrites
    have hcross := (List.pairwise_append.mp honce).2.2 q₀ hq₀ q
    rw [writesAfter_append] at hcross
    exact hcross (List.mem_append_left _ hq) (hid₀.trans hid)
  · intro hvacuous
    obtain ⟨hbefore, -, hcross⟩ := List.pairwise_append.mp h
    have hafter : (again ++ rest).Pairwise fun p q => p.2 < q.2 := by
      rw [List.append_assoc] at h
      exact (List.pairwise_append.mp h).2.1
    apply List.pairwise_append.mpr
    refine ⟨appliedOnce_of_increasing hbefore, appliedOnce_of_increasing hafter, ?_⟩
    intro q₀ hq₀ q hq heq
    rw [writesAfter_append] at hq
    rcases List.mem_append.mp hq with hq | hq
    · exact (forall_vacuous_iff _ _).mp hvacuous q hq
    · obtain ⟨p₀, hp₀, -, hid₀⟩ := exists_entry hq₀
      obtain ⟨p, hp, -, hid⟩ := exists_entry hq
      have hlt := hcross p₀ hp₀ p hp
      omega

/-- An entry from the saved cursor on that has been replayed before is one of those
behind the cursor. -/
theorem settled_iff {saved first : Nat}
    (hsplit : past ++ numbered (firstKept saved t) t = numbered first t)
    (hagain : again <+: numbered (firstKept saved t) t) :
    Settled t saved ⟨rowsAfter t rows (past ++ again), writesAfter t rows (past ++ again)⟩ ↔
      ∀ p ∈ again, Vacuous t (rowsAfter t rows (past ++ again)) p := by
  constructor
  · intro hsettled p hp
    obtain ⟨hle, hentry⟩ := mem_numbered.mp (hagain.subset hp)
    by_cases hwrites : writesTo t p = true
    · obtain ⟨q, hq, hid⟩ := exists_write rows (List.mem_append_right past hp) hwrites
      obtain ⟨e, he, hop, hlength⟩ := hsettled q hq (hid ▸ hle)
      rw [hid, hentry] at he
      obtain rfl := Option.some.inj he
      rw [Vacuous, hop]
      exact hlength
    · rw [writesTo] at hwrites
      rw [Vacuous]
      cases hop : p.1.op with
      | insert =>
        rw [hop] at hwrites
        exact Option.not_isSome_iff_eq_none.mp hwrites
      | delete => exact absurd (by rw [hop]) hwrites
      | update => trivial
  · intro hvacuous q hq hle
    obtain ⟨p, hp, hwrites, hid⟩ := exists_entry hq
    have hmem : p ∈ numbered first t := by
      rw [← hsplit]
      rcases List.mem_append.mp hp with hp | hp
      · exact List.mem_append_left _ hp
      · exact List.mem_append_right _ (hagain.subset hp)
    have hentry := (mem_numbered.mp hmem).2
    have hp' : p ∈ again := by
      rcases List.mem_append.mp hp with hp | hp
      · have hself : p ∈ numbered (firstKept saved t) t :=
          mem_numbered.mpr ⟨hid ▸ hle, hentry⟩
        have hpair := numbered_pairwise first t
        rw [← hsplit] at hpair
        have hlt := (List.pairwise_append.mp hpair).2.2 p hp p hself
        exact absurd hlt (Nat.lt_irrefl _)
      · exact hp
    have hp' := hvacuous p hp'
    rw [writesTo] at hwrites
    rw [Vacuous] at hp'
    refine ⟨p.1, hid ▸ hentry, ?_⟩
    cases hop : p.1.op with
    | insert =>
      rw [hop] at hwrites hp'
      simp only [hp'] at hwrites
      cases hwrites
    | delete =>
      rw [hop] at hp'
      exact ⟨rfl, hp'⟩
    | update =>
      rw [hop] at hwrites
      cases hwrites

/-- A replica after the entries `done`, caught up from the saved cursor. -/
theorem resumes_iff {saved first : Nat} {done : List (LogEvent × Nat)}
    (hdone : done <+: numbered first t) (hbehind : Behind first t done saved) :
    let crash := done.foldl (Copy.replay t) ⟨rows, []⟩
    Resumes ((numbered (firstKept saved t) t).foldl (Copy.replay t) crash)
        ((numbered first t).foldl (Copy.replay t) ⟨rows, []⟩) ↔ Settled t saved crash := by
  obtain ⟨past, ⟨again, rfl⟩, hupto⟩ := hbehind
  obtain ⟨rest, hrest⟩ := hdone
  have hsplit := hupto.split
  have hnumbered : numbered (firstKept saved t) t = again ++ rest := by
    have happend : past ++ numbered (firstKept saved t) t = past ++ (again ++ rest) := by
      rw [hsplit, ← hrest, List.append_assoc]
    exact List.append_cancel_left happend
  intro crash
  have hcrash : crash = ⟨rowsAfter t rows (past ++ again), writesAfter t rows (past ++ again)⟩ :=
    rfl
  have hpair := numbered_pairwise first t
  rw [← hrest] at hpair
  rw [hcrash, settled_iff hsplit (hnumbered ▸ List.prefix_append _ _), ← appliedOnce_iff hpair,
    hnumbered, foldl_replay, ← hrest, foldl_replay]
  constructor
  · exact fun h => h.appliedOnce
  · intro honce
    refine ⟨?_, honce, ?_⟩
    · have hvacuous := (appliedOnce_iff hpair).mp honce
      simp only [rowsAfter_append] at hvacuous ⊢
      rw [rowsAfter_of_vacuous hvacuous]
    · intro q hq
      obtain ⟨p, hp, hwrites, hid⟩ := exists_entry hq
      rw [List.map_append, ← hid]
      rcases List.mem_append.mp hp with hp | hp
      · obtain ⟨q', hq', hid'⟩ := exists_write rows hp hwrites
        exact List.mem_append_left _ (hid' ▸ List.mem_map_of_mem hq')
      · obtain ⟨q', hq', hid'⟩ := exists_write (rowsAfter t rows (past ++ again))
          (List.mem_append_right again hp) hwrites
        exact List.mem_append_right _ (hid' ▸ List.mem_map_of_mem hq')

end Second

/-! ### The worker -/

/-- A new process, which loads the checkpoint file and catches up. -/
def restart (codec : RowCodec Row) (r : Replicator) (w : World Row) : World Row :=
  caughtUp codec r w.load

/-- The primary is idle and the servers answer, except that a connection may break
anywhere, and the process may be told to stop. -/
def Unattended : Rely Call (World Row) (Command Row) Outcome where
  act _ _ := False
  call o e _ := e.isRequest = true → o.caught = false

instance (o : Outcome) (e : Call) (w : World Row) : Decidable (Unattended.call o e w) :=
  inferInstanceAs (Decidable (e.isRequest = true → o.caught = false))

instance (cmd : Command Row) (w : World Row) : Decidable (Unattended.act cmd w) :=
  isFalse id

theorem unattended_replays (primary : TableId → Table Row) :
    Replays (Unattended : Rely Call (World Row) (Command Row) Outcome) (· = primary) where
  act _ _ hact := hact.elim
  request _ _ _ _ hrequest hcall := nomatch hcall hrequest

/-- **Restart.** However the process ends, a restart from the saved cursors leaves a
replica as an uninterrupted run does, with no entry applied a second time and none
skipped, exactly when all it was sent since the checkpoint are deletes past the end of
its table. -/
theorem restart_resumes_iff (codec : RowCodec Row) (r : Replicator)
    (primary : TableId → Table Row) (replica : Nat → TableId → List Row)
    (checkpoint : Option (TableId → Int))
    (hcheckpoint : ∀ t ∈ r.tables,
      (checkpoint.getD (fun _ => 0) t).toNat ≤ (primary t).log.length)
    (moves : List (Move (Command Row) Outcome))
    (halong : codec.system.Along Unattended r.run moves
      ⟨.connected primary replica checkpoint, r.run⟩)
    {t : TableId} (ht : t ∈ r.tables) {i : Nat} (hi : i < r.replicas) :
    let w₀ := World.connected primary replica checkpoint
    let w := (codec.system.run r.run moves w₀).world
    Resumes ((restart codec r w).copy i t) ((caughtUp codec r w₀).copy i t) ↔
      Settled (w.primary t) (w.saved t).toNat (w.copy i t) := by
  intro w₀ w
  obtain ⟨hprimary, hhalted⟩ := run_halted codec r (unattended_replays primary) (w := w₀) rfl
    hcheckpoint rfl moves halong
  have hcursor : ∀ u ∈ r.tables, (w.saved u).toNat ≤ (w.primary u).log.length := by
    intro u hu
    obtain ⟨done, hdone⟩ := hhalted u hu i hi
    obtain ⟨past, -, hupto⟩ := (hdone.saved trivial)
    exact hupto.le_length
  have hagain : (restart codec r w).copy i t =
      (numbered (firstKept (w.saved t).toNat (w.primary t)) (w.primary t)).foldl
        (Copy.replay (w.primary t)) (w.copy i t) :=
    ((caughtUp_spec codec r (w := w.load) hcursor).2 t ht).2 i hi
  have honce : (caughtUp codec r w₀).copy i t =
      (numbered (firstKept (w₀.cursors t).toNat (primary t)) (primary t)).foldl
        (Copy.replay (primary t)) ⟨replica i t, []⟩ :=
    ((caughtUp_spec codec r (w := w₀) hcheckpoint).2 t ht).2 i hi
  obtain ⟨done, hdone⟩ := hhalted t ht i hi
  have htable : w.primary t = primary t := congrFun hprimary t
  have hcopy : w.copy i t = done.foldl (Copy.replay (w.primary t)) ⟨replica i t, []⟩ :=
    hdone.copy_eq
  rw [hagain, honce, hcopy, htable]
  rw [show (codec.system.run r.run moves w₀).world.primary t = primary t from htable] at hdone
  exact resumes_iff hdone.done_le (hdone.saved trivial)

/-- The connection breaks at the first `GET`, before anything is sent. -/
theorem restart_resumes_unsent :
    let insert : Table TextRow := Table.insert (fun id => id) (cells "a") (.starting [] [])
    let w₀ := World.connected (fun _ => insert) (fun _ _ => []) none
    let moves := [.step .ok, .step .ok, .step .ok, .step (.fails .socketTimeout false), .step .ok]
    let w := (textRows.system.run oneReplica.run moves w₀).world
    Resumes ((restart textRows oneReplica w).copy 0 ⟨0, 0⟩)
      ((caughtUp textRows oneReplica w₀).copy 0 ⟨0, 0⟩) := by
  intro insert w₀ moves w
  have halong : textRows.system.Along Unattended oneReplica.run moves ⟨w₀, oneReplica.run⟩ := by
    decide +kernel
  have hunsent : (w.copy 0 ⟨0, 0⟩).writes = [] := by decide +kernel
  have hsettled : Settled (w.primary ⟨0, 0⟩) (w.saved ⟨0, 0⟩).toNat (w.copy 0 ⟨0, 0⟩) := by
    intro p hp
    rw [hunsent] at hp
    cases hp
  exact (restart_resumes_iff textRows oneReplica (fun _ => insert) (fun _ _ => []) none
    (by decide) moves halong List.mem_cons_self (by decide)).mpr hsettled

/-- One row is inserted, and the process is killed before the first checkpoint. -/
theorem restart_inserts_twice :
    let insert : Table TextRow := Table.insert (fun id => id) (cells "a") (.starting [] [])
    let w₀ := World.connected (fun _ => insert) (fun _ _ => []) none
    let w := (textRows.system.run oneReplica.run (List.replicate 5 (.step .ok)) w₀).world
    let again := (restart textRows oneReplica w).copy 0 ⟨0, 0⟩
    let once := (caughtUp textRows oneReplica w₀).copy 0 ⟨0, 0⟩
    again.rows = [cells "a", cells "a"] ∧ once.rows = [cells "a"] ∧ ¬ Resumes again once := by
  intro insert w₀ w again once
  have hagain : again.rows = [cells "a", cells "a"] := by decide +kernel
  have honce : once.rows = [cells "a"] := by decide +kernel
  refine ⟨hagain, honce, fun h => ?_⟩
  have hsame := h.rows
  rw [hagain, honce] at hsame
  exact absurd hsame (by decide)

end CuttleDB.Replicate
