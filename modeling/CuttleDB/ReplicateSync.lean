import CuttleDB.ReplicateOutline

/-!
# Replicas in step with the log

A replica is in step with the first entries of a log when each of its rows is the row
that the log says is in the slot, unless the primary has deleted that row since. The
replay of an entry keeps the replica in step under a condition on the state, one for
each kind of entry, and so does any command of the other clients. When it is in step
with the whole log, the replica is the primary.
-/

namespace CuttleDB.Replicate

open Interaction Py SwapRemove

variable {Row : Type}

/-- The row stands for the rows of the table that come from `o`; there is at most one. -/
def Stands (t : Table Row) (row : Row) (o : Origin) : Prop :=
  ∀ s ∈ t.slots, s.origin = o → row = s.inserted

/-- The row that comes from `o` has been deleted. -/
def Gone (t : Table Row) (o : Origin) : Prop := ∀ s ∈ t.slots, s.origin ≠ o

/-- A replica in step with the first `m` entries after `base`. -/
def Synced (base : Nat) (os : List Origin) (t : Table Row) (rows : List Row) (m : Nat) : Prop :=
  Mirror (Stands t) (Gone t) rows (originsAfter base ((t.log.drop base).take m) os)

section Origins

variable {base : Nat} {os : List Origin}

/-- The origins that the entries up to `base` can have left. -/
def Before (base : Nat) (os : List Origin) : Prop := ∀ id, Origin.event id ∈ os → id < base

theorem Before.entry {id : Nat} (h : Before id os) (e : LogEvent) :
    Before (id + 1) (e.origins id os) := by
  intro id' hid'
  cases hop : e.op with
  | insert =>
    rw [LogEvent.origins, hop] at hid'
    rcases List.mem_append.mp hid' with hmem | hmem
    · exact Nat.lt_succ_of_lt (h id' hmem)
    · obtain rfl := Origin.event.inj (List.mem_singleton.mp hmem)
      exact Nat.lt_succ_self _
  | delete =>
    rw [LogEvent.origins, hop] at hid'
    exact Nat.lt_succ_of_lt (h id' (mem_swapRemove hid'))
  | update =>
    rw [LogEvent.origins, hop] at hid'
    exact Nat.lt_succ_of_lt (h id' hid')

theorem Before.after (h : Before base os) (es : List LogEvent) :
    Before (base + es.length) (originsAfter base es os) := by
  induction es generalizing base os with
  | nil => exact h
  | cons e es ih =>
    have hid : base + (e :: es).length = base + 1 + es.length := by
      rw [List.length_cons]
      omega
    rw [hid]
    exact ih (h.entry e)

theorem starting_before (rows : List Row) (log : List LogEvent) :
    Before log.length ((Table.starting rows log).slots.map Slot.origin) := by
  intro id hid
  obtain ⟨s, hs, heq⟩ := List.mem_map.mp hid
  exact (Table.starting_tracks rows log).logged s hs id heq

end Origins

section Steps

variable {base : Nat} {os : List Origin} {t : Table Row} {rows : List Row} {m : Nat}

/-! ### The other clients -/

theorem Stands.apply {row : Row} {o : Origin} (h : Stands t row o)
    (ho : ∀ id, o = .event id → id < t.log.length) (clock : Nat → Nat) (m' : Mutation Row) :
    Stands (t.apply clock m') row o := by
  intro s hs hso
  rcases Table.mem_apply hs with ⟨s₀, hs₀, horigin, hinserted⟩ | ⟨id, hid, hevent⟩
  · rw [← hinserted]
    exact h s₀ hs₀ (horigin.trans hso)
  · exact absurd (ho id (hso ▸ hevent)) (Nat.not_lt.mpr hid)

theorem Gone.apply {o : Origin} (h : Gone t o) (ho : ∀ id, o = .event id → id < t.log.length)
    (clock : Nat → Nat) (m' : Mutation Row) : Gone (t.apply clock m') o := by
  intro s hs hso
  rcases Table.mem_apply hs with ⟨s₀, hs₀, horigin, -⟩ | ⟨id, hid, hevent⟩
  · exact h s₀ hs₀ (horigin.trans hso)
  · exact absurd (ho id (hso ▸ hevent)) (Nat.not_lt.mpr hid)

theorem take_drop_of_prefix {xs ys : List LogEvent} (h : xs <+: ys) {n : Nat}
    (hle : base + n ≤ xs.length) : (ys.drop base).take n = (xs.drop base).take n := by
  obtain ⟨zs, rfl⟩ := h
  rw [List.drop_append_of_le_length (Nat.le_of_add_right_le hle),
    List.take_append_of_le_length]
  rw [List.length_drop]
  exact Nat.le_sub_of_add_le' hle

theorem Synced.apply (h : Synced base os t rows m) (hos : Before base os)
    (hm : base + m ≤ t.log.length) (clock : Nat → Nat) (m' : Mutation Row) :
    Synced base os (t.apply clock m') rows m := by
  have hbefore : ∀ o ∈ originsAfter base ((t.log.drop base).take m) os,
      ∀ id, o = .event id → id < t.log.length := by
    rintro o ho id rfl
    have hid := hos.after _ id ho
    have hlength := List.length_take_le m (t.log.drop base)
    omega
  rw [Synced, take_drop_of_prefix (Table.log_prefix clock m' t) hm]
  apply Mirror.mono h
  · exact fun row o ho hrow => hrow.apply (hbefore o ho) clock m'
  · exact fun o ho hgone => hgone.apply (hbefore o ho) clock m'

/-! ### The entries -/

/-- The next entry of a log. -/
theorem take_succ_of_next {e : LogEvent} {es : List LogEvent}
    (hnext : e :: es <+: t.log.drop (base + m)) :
    (t.log.drop base).take (m + 1) = (t.log.drop base).take m ++ [e] ∧
      ((t.log.drop base).take m).length = m ∧ ∃ post, t.log.drop base =
        (t.log.drop base).take m ++ e :: post := by
  obtain ⟨rest, hrest⟩ := hnext
  have hdrop : (t.log.drop base).drop m = e :: (es ++ rest) := by
    rw [List.drop_drop, ← hrest]
    rfl
  have hsplit : t.log.drop base = (t.log.drop base).take m ++ e :: (es ++ rest) := by
    rw [← hdrop, List.take_append_drop]
  have hlength : ((t.log.drop base).take m).length = m := by
    rw [List.length_take]
    have hsome : ((t.log.drop base).drop m).length ≠ 0 := by
      rw [hdrop]
      exact Nat.succ_ne_zero _
    rw [List.length_drop] at hsome
    omega
  refine ⟨?_, hlength, _, hsplit⟩
  conv_lhs => rw [hsplit, List.take_append, hlength]
  rw [List.take_of_length_le (Nat.le_succ_of_le (Nat.le_of_eq hlength)), Nat.add_sub_cancel_left]
  rfl

theorem Synced.next {e : LogEvent} {es : List LogEvent}
    (hnext : e :: es <+: t.log.drop (base + m)) {rows' : List Row} :
    Synced base os t rows' (m + 1) ↔ Mirror (Stands t) (Gone t) rows'
      (e.origins (base + m) (originsAfter base ((t.log.drop base).take m) os)) := by
  obtain ⟨htake, hlength, -⟩ := take_succ_of_next hnext
  rw [Synced, htake, originsAfter_append, hlength]
  rfl

theorem fits_next (htracks : t.Tracks base os) {e : LogEvent} {es : List LogEvent}
    (hnext : e :: es <+: t.log.drop (base + m)) :
    e.Fits (originsAfter base ((t.log.drop base).take m) os).length := by
  obtain ⟨-, -, post, hsplit⟩ := take_succ_of_next hnext
  have hfits := htracks.fits
  rw [hsplit, fitsAfter_append] at hfits
  exact hfits.2.1

theorem sizeAt_next (htracks : t.Tracks base os) {e : LogEvent}
    {es : List LogEvent} (hnext : e :: es <+: t.log.drop (base + m)) :
    t.sizeAt (base + m) = (originsAfter base ((t.log.drop base).take m) os).length := by
  obtain ⟨-, hlength, post, hsplit⟩ := take_succ_of_next hnext
  have hsize := htracks.sizeAt hsplit
  rwa [hlength] at hsize

variable {e : LogEvent} {es : List LogEvent}

theorem Synced.insert (h : Synced base os t rows m) (htracks : t.Tracks base os)
    (hnext : e :: es <+: t.log.drop (base + m)) (hop : e.op = .insert)
    (hlength : rows.length = e.rowId) {row : Row} (hrow : Stands t row (.event (base + m))) :
    Synced base os t (rows ++ [row]) (m + 1) := by
  have hfits := fits_next htracks hnext
  rw [LogEvent.Fits, hop] at hfits
  rw [Synced.next hnext, LogEvent.origins, hop]
  exact h.push (hlength.trans hfits) hrow

theorem Synced.skip (h : Synced base os t rows m) (hnext : e :: es <+: t.log.drop (base + m))
    (hop : e.op = .insert) (hgone : Gone t (.event (base + m))) :
    Synced base os t rows (m + 1) := by
  rw [Synced.next hnext, LogEvent.origins, hop]
  exact Mirror.skip h hgone

theorem Synced.delete (h : Synced base os t rows m) (htracks : t.Tracks base os)
    (hnext : e :: es <+: t.log.drop (base + m)) (hop : e.op = .delete)
    (hlength : rows.length = t.sizeAt (base + m) ∨ rows.length ≤ e.rowId + 1) :
    Synced base os t (SwapRemove.swapRemove rows e.rowId) (m + 1) := by
  have hfits := fits_next htracks hnext
  rw [LogEvent.Fits, hop] at hfits
  rw [sizeAt_next htracks hnext] at hlength
  rw [Synced.next hnext, LogEvent.origins, hop]
  exact Mirror.swapRemove h hfits hlength

theorem Synced.update (h : Synced base os t rows m) (hnext : e :: es <+: t.log.drop (base + m))
    (hop : e.op = .update) : Synced base os t rows (m + 1) := by
  rw [Synced.next hnext, LogEvent.origins, hop]
  exact h

/-! ### The whole log -/

/-- A replica in step with the whole log has the rows as they were inserted. -/
theorem Synced.complete (h : Synced base os t rows m) (htracks : t.Tracks base os)
    (hm : base + m = t.log.length) : rows = t.inserted := by
  have hall : (t.log.drop base).take m = t.log.drop base := by
    apply List.take_of_length_le
    rw [List.length_drop]
    omega
  rw [Synced, hall, ← htracks.origins] at h
  apply Mirror.eq_map h
  · exact fun s hs hgone => hgone s hs rfl
  · exact fun s hs row hrow => hrow s hs rfl

theorem starting_synced (rows : List Row) (log : List LogEvent) :
    Synced log.length ((Table.starting rows log).slots.map Slot.origin)
      (Table.starting rows log) rows 0 := by
  have hinserted : ∀ i : Nat, (Table.starting rows log).slots[i]? =
      rows[i]?.map fun row => ⟨row, row, .start i⟩ := fun i => List.getElem?_mapIdx
  rw [Synced, List.take_zero]
  refine ⟨Nat.le_of_eq ?_, ?_, ?_⟩
  · rw [originsAfter, List.length_map, Table.starting, List.length_mapIdx]
  · intro i row o hrow ho s hs hso
    rw [originsAfter, List.getElem?_map, hinserted, hrow] at ho
    have hstart := (Table.starting_tracks rows log).unique hs
      (List.mem_of_getElem? ((hinserted i).trans (by rw [hrow]; rfl)))
      (hso.trans (Option.some.inj ho).symm)
    rw [hstart]
  · intro i o hi ho
    rw [originsAfter, List.getElem?_map, hinserted, List.getElem?_eq_none hi] at ho
    cases ho

end Steps

end CuttleDB.Replicate
