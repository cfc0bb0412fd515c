import CuttleDB.ReplicateOutline

/-!
# The replay as a fold

As long as what `GET` answers for the entries of a log does not change, the replay is a
function: each entry turns the rows of a replica into other rows, and the replica is
at every moment what a prefix of the entries makes of it. No cursor, in memory or in
the checkpoint file, is ahead of that prefix.
-/

namespace CuttleDB.Replicate

open Interaction Py SwapRemove

variable {Row : Type}

/-! ### One replica -/

/-- The rows of a replica and the writes to it. -/
@[ext] structure Copy (Row : Type) where
  rows : List Row
  writes : List (Nat × Bool)

def Copy.push (id : Nat) (row : Row) (c : Copy Row) : Copy Row :=
  ⟨c.rows ++ [row], c.writes ++ [(id, true)]⟩

def Copy.remove (id rowId : Nat) (c : Copy Row) : Copy Row :=
  ⟨swapRemove c.rows rowId, c.writes ++ [(id, decide (rowId < c.rows.length))]⟩

/-- An entry and its id, replayed while the primary has the table. -/
def Copy.replay (t : Table Row) (c : Copy Row) (p : LogEvent × Nat) : Copy Row :=
  match p.1.op with
  | .insert =>
    match t.slots[p.1.rowId]? with
    | some s => c.push p.2 s.row
    | none => c
  | .delete => c.remove p.2 p.1.rowId
  | .update => c

def World.copy (w : World Row) (i : Nat) (t : TableId) : Copy Row := ⟨w.replica i t, w.writes i t⟩

theorem World.copy_push_self (i : Nat) (t : TableId) (row : Row) (w : World Row) :
    (w.push i t row).copy i t = (w.copy i t).push (w.position t) row :=
  Copy.ext (updateAt_self i t (· ++ [row]) w.replica)
    (updateAt_self i t (· ++ [(w.position t, true)]) w.writes)

theorem World.copy_push_of_ne {i j : Nat} {t u : TableId} (h : ¬ (j = i ∧ u = t)) (row : Row)
    (w : World Row) : (w.push i t row).copy j u = w.copy j u :=
  Copy.ext (updateAt_of_ne h (· ++ [row]) w.replica)
    (updateAt_of_ne h (· ++ [(w.position t, true)]) w.writes)

theorem World.copy_remove_self (i : Nat) (t : TableId) (rowId : Nat) (w : World Row) :
    (w.remove i t rowId).copy i t = (w.copy i t).remove (w.position t) rowId :=
  Copy.ext (updateAt_self i t (swapRemove · rowId) w.replica)
    (updateAt_self i t (· ++ [(w.position t, decide (rowId < (w.replica i t).length))]) w.writes)

theorem World.copy_remove_of_ne {i j : Nat} {t u : TableId} (h : ¬ (j = i ∧ u = t))
    (rowId : Nat) (w : World Row) : (w.remove i t rowId).copy j u = w.copy j u :=
  Copy.ext (updateAt_of_ne h (swapRemove · rowId) w.replica)
    (updateAt_of_ne h (· ++ [(w.position t, decide (rowId < (w.replica i t).length))]) w.writes)

section After

variable (t : Table Row)

def rowsAfter (rows : List Row) (es : List (LogEvent × Nat)) : List Row :=
  (es.foldl (Copy.replay t) ⟨rows, []⟩).rows

def writesAfter (rows : List Row) (es : List (LogEvent × Nat)) : List (Nat × Bool) :=
  (es.foldl (Copy.replay t) ⟨rows, []⟩).writes

variable {t}

theorem replay_eq (c : Copy Row) (p : LogEvent × Nat) :
    c.replay t p = ⟨rowsAfter t c.rows [p], c.writes ++ writesAfter t c.rows [p]⟩ := by
  have hsame : ∀ c : Copy Row, c = ⟨c.rows, c.writes ++ []⟩ :=
    fun c => Copy.ext rfl (List.append_nil _).symm
  simp only [rowsAfter, writesAfter, List.foldl_cons, List.foldl_nil, Copy.replay]
  cases p.1.op with
  | insert =>
    cases t.slots[p.1.rowId]? with
    | some s => rfl
    | none => exact hsame c
  | delete => rfl
  | update => exact hsame c

/-- What the entries do does not depend on the writes before them. -/
theorem foldl_replay (es : List (LogEvent × Nat)) (c : Copy Row) :
    es.foldl (Copy.replay t) c =
      ⟨rowsAfter t c.rows es, c.writes ++ writesAfter t c.rows es⟩ := by
  induction es using List.reverseRecOn with
  | nil => exact Copy.ext rfl (List.append_nil _).symm
  | append_singleton es p ih =>
    have hrows : rowsAfter t c.rows (es ++ [p]) = rowsAfter t (rowsAfter t c.rows es) [p] := by
      rw [rowsAfter, List.foldl_append, List.foldl_cons, List.foldl_nil, replay_eq]
      rfl
    have hwrites : writesAfter t c.rows (es ++ [p]) =
        writesAfter t c.rows es ++ writesAfter t (rowsAfter t c.rows es) [p] := by
      rw [writesAfter, List.foldl_append, List.foldl_cons, List.foldl_nil, replay_eq]
      rfl
    rw [List.foldl_append, ih, List.foldl_cons, List.foldl_nil, replay_eq, hrows, hwrites,
      List.append_assoc]

theorem rowsAfter_append (rows : List Row) (es fs : List (LogEvent × Nat)) :
    rowsAfter t rows (es ++ fs) = rowsAfter t (rowsAfter t rows es) fs := by
  rw [rowsAfter, List.foldl_append, foldl_replay]
  rfl

theorem writesAfter_append (rows : List Row) (es fs : List (LogEvent × Nat)) :
    writesAfter t rows (es ++ fs) =
      writesAfter t rows es ++ writesAfter t (rowsAfter t rows es) fs := by
  rw [writesAfter, List.foldl_append, foldl_replay]
  rfl

end After

/-! ### One table -/

/-- The entries from an id on, with their ids. -/
def numbered (id : Nat) (t : Table Row) : List (LogEvent × Nat) := (t.log.drop id).zipIdx id

theorem mem_numbered {id : Nat} {t : Table Row} {p : LogEvent × Nat} :
    p ∈ numbered id t ↔ id ≤ p.2 ∧ t.log[p.2]? = some p.1 := by
  obtain ⟨e, n⟩ := p
  rw [numbered, List.mk_mem_zipIdx_iff_le_and_getElem?_sub, List.getElem?_drop]
  apply and_congr_right
  intro hle
  rw [Nat.add_sub_cancel' hle]

theorem numbered_pairwise (id : Nat) (t : Table Row) :
    (numbered id t).Pairwise fun p q => p.2 < q.2 := by
  have hids : ((numbered id t).map Prod.snd).Pairwise (· < ·) := by
    rw [numbered, List.zipIdx_map_snd]
    exact List.pairwise_lt_range'
  exact List.pairwise_map.mp hids

/-- The later table has a longer log, and what the replay of the old entries does is
the same. -/
structure Alike (t t' : Table Row) : Prop where
  log : t.log <+: t'.log
  kept : ∀ since, firstKept since t' = firstKept since t
  slots : ∀ e ∈ t.log, e.op = .insert →
    t'.slots[e.rowId]?.map Slot.row = t.slots[e.rowId]?.map Slot.row

theorem Alike.refl (t : Table Row) : Alike t t := ⟨List.prefix_rfl, fun _ => rfl, fun _ _ _ => rfl⟩

theorem numbered_length (t : Table Row) : numbered t.log.length t = [] := by
  rw [numbered, List.drop_length]
  rfl

theorem mem_log_of_mem_numbered {id : Nat} {t : Table Row} {p : LogEvent × Nat}
    (hp : p ∈ numbered id t) : p.1 ∈ t.log :=
  List.mem_of_mem_drop (List.fst_mem_of_mem_zipIdx hp)

theorem firstKept_le {since : Nat} {t : Table Row} (h : since ≤ t.log.length) :
    firstKept since t ≤ t.log.length := Nat.max_le.mpr ⟨h, Nat.sub_le _ _⟩

theorem firstKept_length (t : Table Row) : firstKept t.log.length t = t.log.length :=
  Nat.max_eq_left (Nat.sub_le _ _)

section Alike

variable {t t' : Table Row}

theorem Alike.numbered (h : Alike t t') {id : Nat} (hid : id ≤ t.log.length) :
    numbered id t' = Replicate.numbered id t ++ Replicate.numbered t.log.length t' := by
  obtain ⟨new, hnew⟩ := h.log
  have hlength : id + (t.log.drop id).length = t.log.length := by
    rw [List.length_drop]
    exact Nat.add_sub_cancel' hid
  rw [Replicate.numbered, Replicate.numbered, Replicate.numbered, ← hnew,
    List.drop_append_of_le_length hid, List.drop_left, List.zipIdx_append, hlength]

theorem Alike.replay (h : Alike t t') {p : LogEvent × Nat} (hp : p.1 ∈ t.log) (c : Copy Row) :
    c.replay t' p = c.replay t p := by
  unfold Copy.replay
  cases hop : p.1.op with
  | insert =>
    have hslot := h.slots p.1 hp hop
    cases hs' : t'.slots[p.1.rowId]? with
    | none =>
      rw [hs', Option.map_none, eq_comm, Option.map_eq_none_iff] at hslot
      rw [hslot]
    | some s' =>
      rw [hs', Option.map_some, eq_comm, Option.map_eq_some_iff] at hslot
      obtain ⟨s, hs, hrow⟩ := hslot
      rw [hs]
      exact congrArg (Copy.push p.2 · c) hrow.symm
  | delete => rfl
  | update => rfl

theorem Alike.replays (h : Alike t t') {es : List (LogEvent × Nat)}
    (hes : ∀ p ∈ es, p.1 ∈ t.log) (c : Copy Row) :
    es.foldl (Copy.replay t') c = es.foldl (Copy.replay t) c :=
  List.foldl_ext _ _ c fun c p hp => h.replay (hes p hp) c

end Alike

/-- The entries from `first` on that are not before the cursor come after `done`. -/
structure UpTo (first : Nat) (t : Table Row) (done : List (LogEvent × Nat)) (cursor : Nat) :
    Prop where
  le_length : cursor ≤ t.log.length
  split : done ++ numbered (firstKept cursor t) t = numbered first t

/-- The cursor is not ahead of `done`. -/
def Behind (first : Nat) (t : Table Row) (done : List (LogEvent × Nat)) (cursor : Nat) : Prop :=
  ∃ past, past <+: done ∧ UpTo first t past cursor

section UpTo

variable {first : Nat} {t t' : Table Row} {done done' : List (LogEvent × Nat)} {cursor : Nat}

theorem UpTo.behind (h : UpTo first t done cursor) : Behind first t done cursor :=
  ⟨done, List.prefix_rfl, h⟩

theorem Behind.mono (h : Behind first t done cursor) (hdone : done <+: done') :
    Behind first t done' cursor := by
  obtain ⟨past, hpast, hupto⟩ := h
  exact ⟨past, hpast.trans hdone, hupto⟩

theorem UpTo.alike (h : UpTo first t done cursor) (hfirst : first ≤ t.log.length)
    (halike : Alike t t') : UpTo first t' done cursor where
  le_length := h.le_length.trans halike.log.length_le
  split := by
    rw [halike.kept, halike.numbered (firstKept_le h.le_length), halike.numbered hfirst,
      ← List.append_assoc, h.split]

theorem Behind.alike (h : Behind first t done cursor) (hfirst : first ≤ t.log.length)
    (halike : Alike t t') : Behind first t' done cursor := by
  obtain ⟨past, hpast, hupto⟩ := h
  exact ⟨past, hpast, hupto.alike hfirst halike⟩

/-- A cursor at the end of the log has everything behind it. -/
theorem Behind.complete (h : Behind first t done t.log.length)
    (hdone : done <+: numbered first t) : done = numbered first t := by
  obtain ⟨past, hpast, hupto⟩ := h
  have hall := hupto.split
  rw [firstKept_length, numbered_length, List.append_nil] at hall
  subst hall
  exact hdone.eq_of_length_le hpast.length_le

theorem UpTo.mem_log (h : UpTo first t done cursor) {p : LogEvent × Nat} (hp : p ∈ done) :
    p.1 ∈ t.log := by
  have hmem : p ∈ numbered first t := by
    rw [← h.split]
    exact List.mem_append_left _ hp
  exact mem_log_of_mem_numbered hmem

end UpTo

section Tailing

-- whether the saved cursor is followed
variable (tracked : Prop) (first replicas : Nat) (start : Nat → Copy Row)

/-- Between two passes over the table. -/
structure Tailed (t : Table Row) (cursor saved : Nat) (copies : Nat → Copy Row)
    (done : List (LogEvent × Nat)) : Prop where
  first_le : first ≤ t.log.length
  cursor : UpTo first t done cursor
  saved : tracked → Behind first t done saved
  copies : ∀ i < replicas, copies i = done.foldl (Copy.replay t) (start i)

/-- What a write does to a replica. -/
def Copy.write (id : Nat) (e : LogEvent) (row : Option Row) (c : Copy Row) : Copy Row :=
  match row with
  | some row => c.push id row
  | none => c.remove id e.rowId

/-- The replicas at a point of the pass; those that have been written are one ahead. -/
def PhaseCopies (t : Table Row) (position : Nat) (copies : Nat → Copy Row)
    (done : List (LogEvent × Nat)) : Phase Row → Prop
  | .next _ => ∀ i < replicas, copies i = done.foldl (Copy.replay t) (start i)
  | .write e _ row k =>
    (∀ c : Copy Row, c.replay t (e, position) = c.write position e row) ∧
      ∀ i < replicas, copies i =
        (if i < k then done ++ [(e, position)] else done).foldl (Copy.replay t) (start i)
  | .count e _ =>
    ∀ i < replicas, copies i = (done ++ [(e, position)]).foldl (Copy.replay t) (start i)

/-- While the table is replayed up to `c`. -/
structure Tailing (t : Table Row) (cursor saved position : Nat) (copies : Nat → Copy Row)
    (c : Nat) (p : Phase Row) (done : List (LogEvent × Nat)) : Prop where
  first_le : first ≤ t.log.length
  upto : UpTo first t (done ++ p.pending.zipIdx position) c
  cursor : Behind first t done cursor
  saved : tracked → Behind first t done saved
  copies : PhaseCopies replicas start t position copies done p

variable {tracked first replicas start} {t t' : Table Row} {cursor saved position c : Nat}
  {copies : Nat → Copy Row} {done : List (LogEvent × Nat)}

theorem Tailed.alike (h : Tailed tracked first replicas start t cursor saved copies done)
    (halike : Alike t t') : Tailed tracked first replicas start t' cursor saved copies done where
  first_le := h.first_le.trans halike.log.length_le
  cursor := h.cursor.alike h.first_le halike
  saved htracked := (h.saved htracked).alike h.first_le halike
  copies i hi := by
    rw [halike.replays fun p hp => h.cursor.mem_log hp]
    exact h.copies i hi

theorem PhaseCopies.alike {p : Phase Row}
    (h : PhaseCopies replicas start t position copies done p)
    (hmem : ∀ q ∈ done ++ p.pending.zipIdx position, q.1 ∈ t.log) (halike : Alike t t') :
    PhaseCopies replicas start t' position copies done p := by
  have hdone : ∀ q ∈ done, q.1 ∈ t.log := fun q hq => hmem q (List.mem_append_left _ hq)
  cases p with
  | next es =>
    intro i hi
    rw [halike.replays hdone]
    exact h i hi
  | write e es row k =>
    obtain ⟨hwrite, hcopies⟩ := h
    have hentry : e ∈ t.log :=
      hmem (e, position) (List.mem_append_right _ List.mem_cons_self)
    refine ⟨fun c => (halike.replay hentry c).trans (hwrite c), fun i hi => ?_⟩
    rw [halike.replays]
    · exact hcopies i hi
    · intro q hq
      split at hq
      · rcases List.mem_append.mp hq with hq | hq
        · exact hdone q hq
        · exact List.mem_singleton.mp hq ▸ hentry
      · exact hdone q hq
  | count e es =>
    have hentry : e ∈ t.log :=
      hmem (e, position) (List.mem_append_right _ List.mem_cons_self)
    intro i hi
    rw [halike.replays]
    · exact h i hi
    · intro q hq
      rcases List.mem_append.mp hq with hq | hq
      · exact hdone q hq
      · exact List.mem_singleton.mp hq ▸ hentry

theorem Tailing.alike {p : Phase Row}
    (h : Tailing tracked first replicas start t cursor saved position copies c p done)
    (halike : Alike t t') :
    Tailing tracked first replicas start t' cursor saved position copies c p done where
  first_le := h.first_le.trans halike.log.length_le
  upto := h.upto.alike h.first_le halike
  cursor := h.cursor.alike h.first_le halike
  saved htracked := (h.saved htracked).alike h.first_le halike
  copies := h.copies.alike (fun _ hq => h.upto.mem_log hq) halike

/-- The entries from the cursor on are read. -/
theorem Tailed.read (h : Tailed tracked first replicas start t cursor saved copies done) :
    Tailing tracked first replicas start t cursor saved (firstKept cursor t) copies t.log.length
      (.next (t.log.drop (firstKept cursor t))) done where
  first_le := h.first_le
  upto := by
    refine ⟨Nat.le_refl _, ?_⟩
    rw [firstKept_length, numbered_length, List.append_nil]
    exact h.cursor.split
  cursor := h.cursor.behind
  saved := h.saved
  copies := h.copies

/-- Another point of the pass at the same entry. -/
theorem Tailing.point {p p' : Phase Row} {copies' : Nat → Copy Row}
    (h : Tailing tracked first replicas start t cursor saved position copies c p done)
    (hpending : p'.pending = p.pending)
    (hcopies : PhaseCopies replicas start t position copies' done p') :
    Tailing tracked first replicas start t cursor saved position copies' c p' done where
  first_le := h.first_le
  upto := hpending ▸ h.upto
  cursor := h.cursor
  saved := h.saved
  copies := hcopies

/-- An entry without a write is passed over. -/
theorem Tailing.skip {e : LogEvent} {es : List LogEvent}
    (h : Tailing tracked first replicas start t cursor saved position copies c
      (.next (e :: es)) done)
    (hskip : ∀ c : Copy Row, c.replay t (e, position) = c) :
    Tailing tracked first replicas start t cursor saved position copies c (.count e es) done := by
  have hpending : (.count e es : Phase Row).pending = e :: es := rfl
  apply h.point hpending
  intro i hi
  rw [List.foldl_append]
  exact (h.copies i hi).trans (hskip _).symm

/-- The first write for an entry. -/
theorem Tailing.found {e : LogEvent} {es : List LogEvent} {row : Option Row}
    (h : Tailing tracked first replicas start t cursor saved position copies c
      (.next (e :: es)) done)
    (hwrite : ∀ c : Copy Row, c.replay t (e, position) = c.write position e row) :
    Tailing tracked first replicas start t cursor saved position copies c
      (.write e es row 0) done := by
  have hpending : (.write e es row 0 : Phase Row).pending = e :: es := rfl
  apply h.point hpending
  refine ⟨hwrite, fun i hi => ?_⟩
  rw [if_neg (Nat.not_lt_zero i)]
  exact h.copies i hi

/-- The write to one replica. -/
theorem Tailing.write {e : LogEvent} {es : List LogEvent} {row : Option Row} {k : Nat}
    (h : Tailing tracked first replicas start t cursor saved position copies c
      (.write e es row k) done)
    {copies' : Nat → Copy Row} (hk : copies' k = (copies k).write position e row)
    (hothers : ∀ i, i ≠ k → copies' i = copies i) :
    Tailing tracked first replicas start t cursor saved position copies' c
      (.write e es row (k + 1)) done := by
  obtain ⟨hwrite, hcopies⟩ := h.copies
  have hpending : (.write e es row (k + 1) : Phase Row).pending = e :: es := rfl
  apply h.point hpending
  refine ⟨hwrite, fun i hi => ?_⟩
  by_cases hik : i = k
  · subst hik
    have hold := hcopies i hi
    rw [if_neg (Nat.lt_irrefl i)] at hold
    rw [hk, ← hwrite, hold, if_pos (Nat.lt_succ_self i), List.foldl_append]
    rfl
  · have hlt : i < k + 1 ↔ i < k := by omega
    simp only [hothers i hik, hcopies i hi, hlt]

theorem Tailing.written {e : LogEvent} {es : List LogEvent} {row : Option Row}
    (h : Tailing tracked first replicas start t cursor saved position copies c
      (.write e es row replicas) done) :
    Tailing tracked first replicas start t cursor saved position copies c (.count e es) done := by
  have hpending : (.count e es : Phase Row).pending = e :: es := rfl
  apply h.point hpending
  intro i hi
  have hcopies := h.copies.2 i hi
  rwa [if_pos hi] at hcopies

theorem Tailing.count {e : LogEvent} {es : List LogEvent}
    (h : Tailing tracked first replicas start t cursor saved position copies c (.count e es) done) :
    Tailing tracked first replicas start t cursor saved (position + 1) copies c (.next es)
      (done ++ [(e, position)]) where
  first_le := h.first_le
  upto := by
    rw [List.append_assoc]
    exact h.upto
  cursor := h.cursor.mono (List.prefix_append _ _)
  saved htracked := (h.saved htracked).mono (List.prefix_append _ _)
  copies := h.copies

theorem Tailing.store
    (h : Tailing tracked first replicas start t cursor saved position copies c (.next []) done) :
    Tailed tracked first replicas start t c saved copies done where
  first_le := h.first_le
  cursor := List.append_nil done ▸ h.upto
  saved := h.saved
  copies := h.copies

/-- At every moment, a replica is what some of the entries make of it, and the cursors
are not ahead of them. -/
structure Stopped (tracked : Prop) (first : Nat) (start copy : Copy Row) (t : Table Row)
    (cursor saved : Nat) (done : List (LogEvent × Nat)) : Prop where
  done_le : done <+: numbered first t
  cursor : Behind first t done cursor
  saved : tracked → Behind first t done saved
  copy_eq : copy = done.foldl (Copy.replay t) start

theorem Tailed.stopped (h : Tailed tracked first replicas start t cursor saved copies done)
    {i : Nat} (hi : i < replicas) : Stopped tracked first (start i) (copies i) t cursor saved done :=
  ⟨⟨_, h.cursor.split⟩, h.cursor.behind, h.saved, h.copies i hi⟩

theorem Tailing.stopped {p : Phase Row}
    (h : Tailing tracked first replicas start t cursor saved position copies c p done) {i : Nat}
    (hi : i < replicas) :
    ∃ done', Stopped tracked first (start i) (copies i) t cursor saved done' := by
  have hdone : done <+: numbered first t :=
    (List.prefix_append done _).trans ⟨_, h.upto.split⟩
  have hnext : ∀ e es, p.pending = e :: es → done ++ [(e, position)] <+: numbered first t := by
    intro e es hpending
    have hcons : done ++ [(e, position)] <+: done ++ p.pending.zipIdx position := by
      rw [hpending]
      exact ⟨es.zipIdx (position + 1), List.append_assoc ..⟩
    exact hcons.trans ⟨_, h.upto.split⟩
  have hsucc : ∀ e, done <+: done ++ [(e, position)] := fun e => List.prefix_append _ _
  have hsaved : ∀ e, tracked → Behind first t (done ++ [(e, position)]) saved :=
    fun e htracked => (h.saved htracked).mono (hsucc e)
  cases p with
  | next es => exact ⟨done, hdone, h.cursor, h.saved, h.copies i hi⟩
  | write e es row k =>
    have hcopy := h.copies.2 i hi
    split at hcopy
    · exact ⟨_, hnext e es rfl, h.cursor.mono (hsucc e), hsaved e, hcopy⟩
    · exact ⟨_, hdone, h.cursor, h.saved, hcopy⟩
  | count e es =>
    exact ⟨_, hnext e es rfl, h.cursor.mono (hsucc e), hsaved e, h.copies i hi⟩

end Tailing

/-! ### All tables -/

/-- The cursors of the checkpoint file, which a restart begins with. -/
def World.saved (w : World Row) : TableId → Int := w.checkpoint.getD fun _ => 0

def Call.isRequest : Call → Bool
  | .log _ _ => true
  | .get _ _ => true
  | .insert _ _ _ => true
  | .delete _ _ _ => true
  | _ => false

/-- The commands of the others leave the replay of what is logged as it is, and no call
of a server ends in an error that the worker catches. -/
structure Replays (rely : Rely Call (World Row) (Command Row) Outcome)
    (good : (TableId → Table Row) → Prop) : Prop where
  act : ∀ cmd w, rely.act cmd w → good w.primary →
    good (w.command cmd).primary ∧ ∀ t, Alike (w.primary t) ((w.command cmd).primary t)
  request : ∀ m done e w, e.isRequest = true → ¬ rely.call (.fails (.cuttleDBError m) done) e w

section World

variable (tracked : Prop) (good : (TableId → Table Row) → Prop) (first target : TableId → Nat)
  (start : Nat → TableId → Copy Row) (r : Replicator)

def TailedAt (w : World Row) (t : TableId) : Prop :=
  ∃ done, Tailed tracked (first t) r.replicas (start · t) (w.primary t) (w.cursors t).toNat
    (w.saved t).toNat (w.copy · t) done

/-- Before the tables `ts` of a pass; the cursors of those before them have reached
their targets. -/
structure Idle (ts : List TableId) (w : World Row) : Prop where
  good : good w.primary
  target_le : ∀ t ∈ r.tables, target t ≤ (w.primary t).log.length
  tables : ∀ t ∈ r.tables, TailedAt tracked first start r w t
  passed : ∀ t ∈ r.tables, t ∉ ts → target t ≤ (w.cursors t).toNat

/-- While `t` is replayed up to `c`. -/
structure Busy (ts : List TableId) (t : TableId) (c : Nat) (p : Phase Row) (w : World Row) :
    Prop where
  good : good w.primary
  target_le : ∀ t ∈ r.tables, target t ≤ (w.primary t).log.length
  mem : t ∈ r.tables
  others : ∀ u ∈ r.tables, u ≠ t → TailedAt tracked first start r w u
  passed : ∀ u ∈ r.tables, u ≠ t → u ∉ ts → target u ≤ (w.cursors u).toNat
  reaches : target t ≤ c
  this : ∃ done, Tailing tracked (first t) r.replicas (start · t) (w.primary t) (w.cursors t).toNat
    (w.saved t).toNat (w.position t) (w.copy · t) c p done

/-- Every replica is what some of the entries make of it. -/
def Halted (w : World Row) : Prop :=
  good w.primary ∧ ∀ t ∈ r.tables, ∀ i < r.replicas, ∃ done, Stopped tracked (first t) (start i t)
    (w.copy i t) (w.primary t) (w.cursors t).toNat (w.saved t).toNat done

variable {tracked good first target start r} {w : World Row} {ts : List TableId} {t : TableId}
  {c : Nat}

theorem TailedAt.alike (h : TailedAt tracked first start r w t) {cmd : Command Row}
    (halike : Alike (w.primary t) ((w.command cmd).primary t)) :
    TailedAt tracked first start r (w.command cmd) t := by
  obtain ⟨done, hdone⟩ := h
  exact ⟨done, hdone.alike halike⟩

theorem Idle.command (h : Idle tracked good first target start r ts w) {cmd : Command Row}
    (hcmd : good (w.command cmd).primary ∧ ∀ t, Alike (w.primary t) ((w.command cmd).primary t)) :
    Idle tracked good first target start r ts (w.command cmd) where
  good := hcmd.1
  target_le t ht := (h.target_le t ht).trans (hcmd.2 t).log.length_le
  tables t ht := (h.tables t ht).alike (hcmd.2 t)
  passed := h.passed

theorem Busy.command {p : Phase Row} (h : Busy tracked good first target start r ts t c p w)
    {cmd : Command Row}
    (hcmd : good (w.command cmd).primary ∧ ∀ t, Alike (w.primary t) ((w.command cmd).primary t)) :
    Busy tracked good first target start r ts t c p (w.command cmd) where
  good := hcmd.1
  target_le t ht := (h.target_le t ht).trans (hcmd.2 t).log.length_le
  mem := h.mem
  others u hu hne := (h.others u hu hne).alike (hcmd.2 u)
  passed := h.passed
  reaches := h.reaches
  this := by
    obtain ⟨done, hdone⟩ := h.this
    exact ⟨done, hdone.alike (hcmd.2 t)⟩

theorem Idle.halted (h : Idle tracked good first target start r ts w) :
    Halted tracked good first start r w := by
  refine ⟨h.good, fun t ht i hi => ?_⟩
  obtain ⟨done, hdone⟩ := h.tables t ht
  exact ⟨done, hdone.stopped hi⟩

theorem Busy.halted {p : Phase Row} (h : Busy tracked good first target start r ts t c p w) :
    Halted tracked good first start r w := by
  refine ⟨h.good, fun u hu i hi => ?_⟩
  by_cases hut : u = t
  · subst hut
    obtain ⟨done, hdone⟩ := h.this
    exact hdone.stopped hi
  · obtain ⟨done, hdone⟩ := h.others u hu hut
    exact ⟨done, hdone.stopped hi⟩

theorem Idle.save (h : Idle tracked good first target start r ts w) :
    Idle tracked good first target start r ts w.save where
  good := h.good
  target_le := h.target_le
  tables t ht := by
    obtain ⟨done, hdone⟩ := h.tables t ht
    exact ⟨done, hdone.first_le, hdone.cursor, fun _ => hdone.cursor.behind, hdone.copies⟩
  passed := h.passed

theorem Busy.save {p : Phase Row} (h : Busy tracked good first target start r ts t c p w) :
    Busy tracked good first target start r ts t c p w.save where
  good := h.good
  target_le := h.target_le
  mem := h.mem
  others u hu hne := by
    obtain ⟨done, hdone⟩ := h.others u hu hne
    exact ⟨done, hdone.first_le, hdone.cursor, fun _ => hdone.cursor.behind, hdone.copies⟩
  passed := h.passed
  reaches := h.reaches
  this := by
    obtain ⟨done, hdone⟩ := h.this
    exact ⟨done, hdone.first_le, hdone.upto, hdone.cursor, fun _ => hdone.cursor, hdone.copies⟩

/-- A step at a table, for what it makes of that table. -/
theorem Busy.step {p p' : Phase Row} (h : Busy tracked good first target start r ts t c p w)
    (hthis : ∀ done, Tailing tracked (first t) r.replicas (start · t) (w.primary t)
        (w.cursors t).toNat (w.saved t).toNat (w.position t) (w.copy · t) c p done →
      Tailing tracked (first t) r.replicas (start · t) (w.primary t)
        (w.cursors t).toNat (w.saved t).toNat (w.position t) (w.copy · t) c p' done) :
    Busy tracked good first target start r ts t c p' w := by
  obtain ⟨done, hdone⟩ := h.this
  exact ⟨h.good, h.target_le, h.mem, h.others, h.passed, h.reaches, done, hthis done hdone⟩

/-- A write to a replica of the table, for what it makes of that replica. -/
theorem Busy.write {e : LogEvent} {es : List LogEvent} {row : Option Row} {k : Nat}
    (w' : World Row) (h : Busy tracked good first target start r ts t c (.write e es row k) w)
    (hprimary : w'.primary = w.primary) (hcursors : w'.cursors = w.cursors)
    (hsaved : w'.saved = w.saved) (hposition : w'.position = w.position)
    (hcopy : ∀ i u, ¬ (i = k ∧ u = t) → w'.copy i u = w.copy i u)
    (hk : w'.copy k t = (w.copy k t).write (w.position t) e row) :
    Busy tracked good first target start r ts t c (.write e es row (k + 1)) w' := by
  obtain ⟨done, hdone⟩ := h.this
  refine ⟨hprimary ▸ h.good, hprimary ▸ h.target_le, h.mem, fun u hu hne => ?_,
    hcursors ▸ h.passed, h.reaches, done, ?_⟩
  · obtain ⟨done', hdone'⟩ := h.others u hu hne
    have hrows : (w'.copy · u) = (w.copy · u) :=
      funext fun i => hcopy i u fun heq => hne heq.2
    refine ⟨done', ?_⟩
    rw [hprimary, hcursors, hsaved, hrows]
    exact hdone'
  · rw [hprimary, hcursors, hsaved, hposition]
    exact hdone.write hk fun i hik => hcopy i t fun heq => hik heq.1

variable (tracked first target start r) in
def foldOutline (codec : RowCodec Row) {rely : Rely Call (World Row) (Command Row) Outcome}
    (hrely : Replays rely good) :
    Outline codec rely (fun _ => Halted tracked good first start r) r where
  idle := Idle tracked good first target start r
  within := Busy tracked good first target start r
  stable_idle _ cmd w hact h := h.command (hrely.act cmd w hact h.good)
  stable_within _ _ _ _ cmd w hact h := h.command (hrely.act cmd w hact h.good)
  call_idle _ _ _ _ h := h.halted
  call_within _ _ _ _ _ _ _ h := h.halted
  call_store _ _ _ _ h := h.halted
  start _ h := ⟨h.good, h.target_le, h.tables, fun t ht hnot => absurd ht hnot⟩
  log_ok ts t w ht h _ := by
    obtain ⟨done, hdone⟩ := h.tables t ht
    refine ⟨h.good, h.target_le, ht, fun u hu _ => h.tables u hu, fun u hu hne hts => ?_,
      h.target_le t ht, done, ?_⟩
    · exact h.passed u hu (List.not_mem_cons_of_ne_of_not_mem hne hts)
    · rw [World.position_fetch_self]
      exact hdone.read
  log_fails _ t w m done _ hfails := absurd hfails (hrely.request m done _ w rfl)
  get_ok ts t c e es w hop h _ := by
    cases hs : (w.primary t).slots[e.rowId]? with
    | some s =>
      apply h.step fun done hdone => hdone.found fun copy => ?_
      rw [Copy.replay, hop]
      simp only [hs]
      rfl
    | none =>
      apply h.step fun done hdone => hdone.skip fun copy => ?_
      rw [Copy.replay, hop]
      simp only [hs]
  get_fails _ t _ e _ w m done _ _ hfails := absurd hfails (hrely.request m done _ w rfl)
  delete_first ts t c e es w hop h := by
    apply h.step fun done hdone => hdone.found fun copy => ?_
    rw [Copy.replay, hop]
    rfl
  update_skip ts t c e es w hop h := by
    apply h.step fun done hdone => hdone.skip fun copy => ?_
    rw [Copy.replay, hop]
  insert_ok ts t c e es row k w _ h _ :=
    h.write (w.push k t row) rfl rfl rfl rfl (fun _ _ hne => World.copy_push_of_ne hne row w)
      (World.copy_push_self k t row w)
  insert_fails _ t _ _ _ row i w m done _ _ hfails :=
    absurd hfails (hrely.request m done _ w rfl)
  insert_raises ts t c e es row k w x done _ h _ := by
    cases done with
    | true =>
      exact ⟨_, h.write (w.push k t row) rfl rfl rfl rfl
        (fun _ _ hne => World.copy_push_of_ne hne row w) (World.copy_push_self k t row w)⟩
    | false => exact ⟨_, h⟩
  delete_ok ts t c e es k w _ h _ :=
    h.write (w.remove k t e.rowId) rfl rfl rfl rfl
      (fun _ _ hne => World.copy_remove_of_ne hne e.rowId w) (World.copy_remove_self k t e.rowId w)
  delete_fails _ t _ e _ i w m done _ _ hfails := absurd hfails (hrely.request m done _ w rfl)
  delete_raises ts t c e es k w x done _ h _ := by
    cases done with
    | true =>
      exact ⟨_, h.write (w.remove k t e.rowId) rfl rfl rfl rfl
        (fun _ _ hne => World.copy_remove_of_ne hne e.rowId w)
        (World.copy_remove_self k t e.rowId w)⟩
    | false => exact ⟨_, h⟩
  written ts t c e es row w h := h.step fun _ hdone => hdone.written
  count ts t c e es w h := by
    obtain ⟨done, hdone⟩ := h.this
    refine ⟨h.good, h.target_le, h.mem, h.others, h.passed, h.reaches,
      done ++ [(e, w.position t)], ?_⟩
    rw [World.position_count_self]
    exact hdone.count
  store ts t c w h := by
    refine ⟨h.good, h.target_le, fun u hu => ?_, fun u hu hts => ?_⟩
    · by_cases hut : u = t
      · subst hut
        obtain ⟨done, hdone⟩ := h.this
        refine ⟨done, ?_⟩
        rw [World.cursors_store_self]
        exact hdone.store
      · obtain ⟨done, hdone⟩ := h.others u hu hut
        refine ⟨done, ?_⟩
        rw [World.cursors_store_of_ne hut]
        exact hdone
    · by_cases hut : u = t
      · subst hut
        rw [World.cursors_store_self]
        exact h.reaches
      · rw [World.cursors_store_of_ne hut]
        exact h.passed u hu hut hts

/-- Nothing is replayed yet. -/
theorem Idle.begin (hgood : good w.primary)
    (hcursor : ∀ t ∈ r.tables, (w.cursors t).toNat ≤ (w.primary t).log.length)
    (hsaved : tracked → w.saved = w.cursors) :
    Idle tracked good (fun t => firstKept (w.cursors t).toNat (w.primary t))
      (fun t => (w.primary t).log.length) w.copy r r.tables w where
  good := hgood
  target_le _ _ := Nat.le_refl _
  tables t ht := by
    have hupto : UpTo (firstKept (w.cursors t).toNat (w.primary t)) (w.primary t) []
        (w.cursors t).toNat := ⟨hcursor t ht, List.nil_append _⟩
    refine ⟨[], firstKept_le (hcursor t ht), hupto, fun htracked => ?_, fun _ _ => rfl⟩
    rw [hsaved htracked]
    exact hupto.behind
  passed t ht hnot := absurd ht hnot

end World

/-! ### Passes and runs -/

/-- The worker catches up: one undisturbed pass. -/
def caughtUp (codec : RowCodec Row) (r : Replicator) (w : World Row) : World Row :=
  (codec.system.exec .ok r.replayOnce w).2

/-- No commands of others, and every call answered. -/
def Answered : Rely Call (World Row) (Command Row) Outcome where
  act _ _ := False
  call o _ _ := o = .ok

theorem answered_replays (primary : TableId → Table Row) :
    Replays (Answered : Rely Call (World Row) (Command Row) Outcome) (· = primary) where
  act _ _ hact := hact.elim
  request _ _ _ _ _ hcall := nomatch hcall

/-- The worker that catches up leaves the primary as it is, gets the cursors to the ends
of the logs, and makes of every replica what the entries from the cursor on do. -/
theorem caughtUp_spec (codec : RowCodec Row) (r : Replicator) {w : World Row}
    (hcursor : ∀ t ∈ r.tables, (w.cursors t).toNat ≤ (w.primary t).log.length) :
    let w' := caughtUp codec r w
    w'.primary = w.primary ∧ ∀ t ∈ r.tables,
      (w'.cursors t).toNat = (w.primary t).log.length ∧ ∀ i < r.replicas,
        w'.copy i t = (numbered (firstKept (w.cursors t).toNat (w.primary t)) (w.primary t)).foldl
          (Copy.replay (w.primary t)) (w.copy i t) := by
  intro w'
  have hend := (foldOutline False _ _ _ r codec (answered_replays w.primary)).exec_replayOnce
    (fun _ _ => rfl) (fun _ _ _ _ h => nomatch h) (Idle.begin rfl hcursor False.elim)
  have hprimary : w'.primary = w.primary := hend.good
  refine ⟨hprimary, fun t ht => ?_⟩
  obtain ⟨done, hdone⟩ := hend.tables t ht
  have hle := hdone.cursor.le_length
  rw [show (codec.system.exec .ok r.replayOnce w).2 = w' from rfl, hprimary] at hle hdone
  have hall : (w'.cursors t).toNat = (w.primary t).log.length :=
    Nat.le_antisymm hle (hend.passed t ht List.not_mem_nil)
  have hsplit := hdone.cursor.split
  rw [hall, firstKept_length, numbered_length, List.append_nil] at hsplit
  exact ⟨hall, fun i hi => hsplit ▸ hdone.copies i hi⟩

/-- Between any two steps of a run, every replica is what some of the entries make of
it. -/
theorem run_halted (codec : RowCodec Row) (r : Replicator)
    {rely : Rely Call (World Row) (Command Row) Outcome} {good : (TableId → Table Row) → Prop}
    (hrely : Replays rely good) {w : World Row} (hgood : good w.primary)
    (hcursor : ∀ t ∈ r.tables, (w.cursors t).toNat ≤ (w.primary t).log.length)
    (hsaved : w.saved = w.cursors) (moves : List (Move (Command Row) Outcome))
    (halong : codec.system.Along rely r.run moves ⟨w, r.run⟩) :
    Halted True good (fun t => firstKept (w.cursors t).toNat (w.primary t)) w.copy r
      (codec.system.run r.run moves w).world := by
  let first := fun t => firstKept (w.cursors t).toNat (w.primary t)
  let start := w.copy
  let o := foldOutline True first (fun _ => 0) start r codec hrely
  have hidle : o.idle [] w := by
    have hbegin : Idle True good first _ start r r.tables w :=
      Idle.begin hgood hcursor fun _ => hsaved
    exact ⟨hgood, fun _ _ => Nat.zero_le _, hbegin.tables, fun _ _ _ => Nat.zero_le _⟩
  have hsafe : ∀ w, o.idle [] w → codec.system.Safe rely (fun _ => Halted True good first start r)
      (fun _ => Halted True good first start r) (fun _ => o.idle []) r.run w := by
    intro w hw
    apply (o.run_safe (fun _ _ h => h.save) (fun _ _ _ _ _ h => h.save) hw).mono
    · rintro - w ⟨⟨_, h⟩ | ⟨_, _, _, _, h⟩, -⟩
      · exact h.halted
      · exact h.halted
    · exact fun _ _ h => h
  exact System.Safe.always hsafe (fun _ h => h.halted) moves hidle halong

end CuttleDB.Replicate
