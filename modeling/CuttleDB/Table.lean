import CuttleDB.Lib.SwapRemove
import CuttleDB.PyChangeLog

/-!
# Tables and their change log

A table of the primary with the commands that change it, as the protocol documents
them: `INSERT` appends a row, `DELETE` moves the last row into the freed slot, `DELW`
deletes the matching rows from the last to the first, `UPDATE` changes them in place,
and each changed row is one entry of the log. The number of entries is the cursor, the
position of an entry its id.

A slot also carries two facts about its row that no command reads: the row as it was
inserted, and where it comes from. From the log alone one can tell which row is in
which slot (`originsAfter`), and `Table.Tracks` says that the table agrees.
-/

namespace CuttleDB

open SwapRemove

structure TableId where
  hid : Int
  tid : Int
deriving DecidableEq, Repr

/-- Where a row comes from: the table it started in, or an entry of the log. -/
inductive Origin where
  | start (slot : Nat)
  | event (id : Nat)
deriving DecidableEq, Repr

structure Slot (Row : Type) where
  row : Row
  inserted : Row
  origin : Origin
deriving DecidableEq, Repr

structure Table (Row : Type) where
  slots : List (Slot Row)
  log : List LogEvent
deriving DecidableEq, Repr

variable {Row : Type}

def Table.rows (t : Table Row) : List Row := t.slots.map Slot.row

/-- The rows without their updates. -/
def Table.inserted (t : Table Row) : List Row := t.slots.map Slot.inserted

/-- A table with some rows and some past, before anything that is looked at. -/
def Table.starting (rows : List Row) (log : List LogEvent) : Table Row where
  slots := rows.mapIdx fun i row => ⟨row, row, .start i⟩
  log := log

/-! ### Commands -/

section Commands

-- the time stamp of the log entry with a given id
variable (clock : Nat → Nat)

def Table.logged (rowId : Nat) (op : LogOp) (t : Table Row) : List LogEvent :=
  t.log ++ [⟨clock t.log.length, rowId, op⟩]

/-- `INSERT` -/
def Table.insert (row : Row) (t : Table Row) : Table Row where
  slots := t.slots ++ [⟨row, row, .event t.log.length⟩]
  log := t.logged clock t.slots.length .insert

/-- `DELETE`: nothing happens, and nothing is logged, for a row id out of range. -/
def Table.delete (rowId : Nat) (t : Table Row) : Table Row :=
  if rowId < t.slots.length then ⟨swapRemove t.slots rowId, t.logged clock rowId .delete⟩ else t

def Slot.set (f : Row → Row) (s : Slot Row) : Slot Row := { s with row := f s.row }

def Table.updateRow (f : Row → Row) (rowId : Nat) (t : Table Row) : Table Row where
  slots := t.slots.modify rowId (Slot.set f)
  log := t.logged clock rowId .update

def Table.matching (pred : Row → Bool) (t : Table Row) : List Nat :=
  (List.range t.slots.length).filter fun i => t.slots[i]?.any fun s => pred s.row

/-- `DELW`: the matching row ids are collected first and deleted in descending order. -/
def Table.deleteWhere (pred : Row → Bool) (t : Table Row) : Table Row :=
  (t.matching pred).reverse.foldl (fun t rowId => t.delete clock rowId) t

/-- `UPDATE` -/
def Table.update (pred : Row → Bool) (f : Row → Row) (t : Table Row) : Table Row :=
  (t.matching pred).foldl (fun t rowId => t.updateRow clock f rowId) t

inductive Mutation (Row : Type) where
  | insert (row : Row)
  | delete (rowId : Nat)
  | deleteWhere (pred : Row → Bool)
  | update (pred : Row → Bool) (f : Row → Row)

def Table.apply : Mutation Row → Table Row → Table Row
  | .insert row => Table.insert clock row
  | .delete rowId => Table.delete clock rowId
  | .deleteWhere pred => Table.deleteWhere clock pred
  | .update pred f => Table.update clock pred f

end Commands

def Mutation.isUpdate : Mutation Row → Bool
  | .insert _ => false
  | .delete _ => false
  | .deleteWhere _ => false
  | .update _ _ => true

/-- What holds of every inserted, deleted and updated row holds of a command. -/
theorem Table.apply_preserves {P : Table Row → Prop} {clock : Nat → Nat} {m : Mutation Row}
    (hinsert : ∀ t row, P t → P (t.insert clock row))
    (hdelete : ∀ t rowId, rowId < t.slots.length → P t →
      P ⟨swapRemove t.slots rowId, t.logged clock rowId .delete⟩)
    (hupdate : m.isUpdate = true → ∀ t f rowId, P t → P (t.updateRow clock f rowId))
    {t : Table Row} (ht : P t) : P (t.apply clock m) := by
  have hdelete' : ∀ t rowId, P t → P (t.delete clock rowId) := by
    intro t rowId ht
    unfold Table.delete
    split
    · exact hdelete t rowId ‹_› ht
    · exact ht
  cases m with
  | insert row => exact hinsert t row ht
  | delete rowId => exact hdelete' t rowId ht
  | deleteWhere pred => exact List.foldlRecOn _ _ ht fun t ht rowId _ => hdelete' t rowId ht
  | update pred f => exact List.foldlRecOn _ _ ht fun t ht rowId _ => hupdate rfl t f rowId ht

theorem Table.log_prefix (clock : Nat → Nat) (m : Mutation Row) (t : Table Row) :
    t.log <+: (t.apply clock m).log := by
  apply Table.apply_preserves (P := fun t' => t.log <+: t'.log)
  · exact fun t' _ h => h.trans (List.prefix_append _ _)
  · exact fun t' _ _ h => h.trans (List.prefix_append _ _)
  · exact fun _ t' _ _ h => h.trans (List.prefix_append _ _)
  · exact List.prefix_rfl

/-! ### Rows by their origin -/

/-- The origins of the rows, slot by slot, after a log entry. -/
def LogEvent.origins (id : Nat) (e : LogEvent) (os : List Origin) : List Origin :=
  match e.op with
  | .insert => os ++ [.event id]
  | .delete => swapRemove os e.rowId
  | .update => os

/-- The origins of the rows after the entries of a log, the first of which has the
given id. -/
def originsAfter : Nat → List LogEvent → List Origin → List Origin
  | _, [], os => os
  | id, e :: es, os => originsAfter (id + 1) es (e.origins id os)

/-- The entry is one that a table with `size` rows can write. -/
def LogEvent.Fits (size : Nat) (e : LogEvent) : Prop :=
  match e.op with
  | .insert => e.rowId = size
  | .delete => e.rowId < size
  | .update => True

def FitsAfter : Nat → List Origin → List LogEvent → Prop
  | _, _, [] => True
  | id, os, e :: es => e.Fits os.length ∧ FitsAfter (id + 1) (e.origins id os) es

theorem originsAfter_append (id : Nat) (es fs : List LogEvent) (os : List Origin) :
    originsAfter id (es ++ fs) os = originsAfter (id + es.length) fs (originsAfter id es os) := by
  induction es generalizing id os with
  | nil => rfl
  | cons e es ih =>
    have hid : id + 1 + es.length = id + (es.length + 1) := by omega
    rw [List.cons_append, originsAfter, ih, originsAfter, List.length_cons, hid]

theorem fitsAfter_append (id : Nat) (es fs : List LogEvent) (os : List Origin) :
    FitsAfter id os (es ++ fs) ↔
      FitsAfter id os es ∧ FitsAfter (id + es.length) (originsAfter id es os) fs := by
  induction es generalizing id os with
  | nil => simp [FitsAfter, originsAfter]
  | cons e es ih =>
    have hid : id + 1 + es.length = id + (es.length + 1) := by omega
    rw [List.cons_append, FitsAfter, ih, FitsAfter, originsAfter, List.length_cons, hid, and_assoc]

def inserts (es : List LogEvent) : Nat := es.countP (·.op = .insert)
def deletes (es : List LogEvent) : Nat := es.countP (·.op = .delete)

theorem length_originsAfter {id : Nat} {es : List LogEvent} {os : List Origin}
    (h : FitsAfter id os es) :
    (originsAfter id es os).length + deletes es = os.length + inserts es := by
  induction es generalizing id os with
  | nil => rfl
  | cons e es ih =>
    obtain ⟨he, hes⟩ := h
    have hrest := ih hes
    rw [originsAfter]
    cases hop : e.op with
    | insert =>
      rw [LogEvent.origins, hop] at hrest ⊢
      simp only [inserts, deletes, List.countP_cons, hop, List.length_append] at hrest ⊢
      simp at hrest ⊢
      omega
    | delete =>
      rw [LogEvent.Fits, hop] at he
      have hlength := length_swapRemove he
      rw [LogEvent.origins, hop] at hrest ⊢
      simp only [inserts, deletes, List.countP_cons, hop, hlength] at hrest ⊢
      simp at hrest ⊢
      omega
    | update =>
      rw [LogEvent.origins, hop] at hrest ⊢
      simpa [inserts, deletes, List.countP_cons, hop] using hrest

/-! ### Tables and logs agree -/

/-- From the entry `base` on, when the origins of the rows were `os`, the log tells
which row is in which slot. -/
structure Table.Tracks (base : Nat) (os : List Origin) (t : Table Row) : Prop where
  base_le : base ≤ t.log.length
  fits : FitsAfter base os (t.log.drop base)
  origins : t.slots.map Slot.origin = originsAfter base (t.log.drop base) os
  nodup : (t.slots.map Slot.origin).Nodup
  logged : ∀ s ∈ t.slots, ∀ id, s.origin = .event id → id < t.log.length

variable {base : Nat} {os : List Origin}

theorem Table.Tracks.drop_add {t : Table Row} (h : t.Tracks base os) :
    base + (t.log.drop base).length = t.log.length := by
  have hle := h.base_le
  rw [List.length_drop]
  omega

/-- One more entry of the log, for what it does to the slots. -/
theorem Table.Tracks.entry {t t' : Table Row} (h : t.Tracks base os) {e : LogEvent}
    (hlog : t'.log = t.log ++ [e]) (hfits : e.Fits t.slots.length)
    (horigins : t'.slots.map Slot.origin = e.origins t.log.length (t.slots.map Slot.origin))
    (hnodup : (t'.slots.map Slot.origin).Nodup)
    (hlogged : ∀ s ∈ t'.slots, ∀ id, s.origin = .event id → id < t'.log.length) :
    t'.Tracks base os := by
  have hdrop : t'.log.drop base = t.log.drop base ++ [e] := by
    rw [hlog, List.drop_append_of_le_length h.base_le]
  have hsize : (originsAfter base (t.log.drop base) os).length = t.slots.length := by
    rw [← h.origins, List.length_map]
  refine ⟨?_, ?_, ?_, hnodup, hlogged⟩
  · rw [hlog, List.length_append]
    exact Nat.le_add_right_of_le h.base_le
  · rw [hdrop, fitsAfter_append]
    refine ⟨h.fits, ?_, trivial⟩
    rwa [hsize]
  · rw [hdrop, originsAfter_append, h.drop_add, ← h.origins, horigins]
    rfl

theorem map_modify_set {β : Type} {f : Row → Row} {g : Slot Row → β}
    (hg : ∀ s, g (s.set f) = g s) (slots : List (Slot Row)) (i : Nat) :
    (slots.modify i (Slot.set f)).map g = slots.map g := by
  apply List.ext_getElem?
  intro j
  rw [List.getElem?_map, List.getElem?_map, List.getElem?_modify]
  cases slots[j]? with
  | none => rfl
  | some s =>
    by_cases hij : i = j
    · simp [hij, hg]
    · simp [hij]

/-- A command that changes a table keeps it in agreement with its log. -/
theorem Table.Tracks.apply {t : Table Row} (h : t.Tracks base os) (clock : Nat → Nat)
    (m : Mutation Row) : (t.apply clock m).Tracks base os := by
  have hfresh : ∀ {t : Table Row}, t.Tracks base os → ∀ s ∈ t.slots,
      s.origin ≠ .event t.log.length := by
    intro t ht s hs heq
    exact absurd (ht.logged s hs _ heq) (Nat.lt_irrefl _)
  have hsucc : ∀ {t : Table Row} (rowId : Nat) (op : LogOp),
      (t.logged clock rowId op).length = t.log.length + 1 := fun _ _ => List.length_append
  apply Table.apply_preserves _ _ _ h
  · intro t row ht
    apply ht.entry (e := ⟨clock t.log.length, t.slots.length, .insert⟩) rfl rfl
    · exact List.map_append
    · rw [Table.insert, List.map_append, List.map_singleton, List.nodup_append]
      refine ⟨ht.nodup, List.nodup_singleton _, ?_⟩
      intro o ho o' ho' heq
      obtain ⟨s, hs, rfl⟩ := List.mem_map.mp ho
      exact hfresh ht s hs (heq.trans (List.mem_singleton.mp ho'))
    · intro s hs id hid
      have hlength := hsucc (t := t) t.slots.length .insert
      rcases List.mem_append.mp hs with hs | hs
      · exact Nat.lt_of_lt_of_eq (Nat.lt_succ_of_lt (ht.logged s hs id hid)) hlength.symm
      · obtain rfl := List.mem_singleton.mp hs
        obtain rfl := Origin.event.inj hid
        exact Nat.lt_of_lt_of_eq (Nat.lt_succ_self _) hlength.symm
  · intro t rowId hlt ht
    apply ht.entry (e := ⟨clock t.log.length, rowId, .delete⟩) rfl hlt
    · exact map_swapRemove _ _ _
    · rw [map_swapRemove]
      exact nodup_swapRemove ht.nodup _
    · intro s hs id hid
      have hold := ht.logged s (mem_swapRemove hs) id hid
      exact Nat.lt_of_lt_of_eq (Nat.lt_succ_of_lt hold) (hsucc rowId .delete).symm
  · intro _ t f rowId ht
    have hmap : (t.slots.modify rowId (Slot.set f)).map Slot.origin = t.slots.map Slot.origin :=
      map_modify_set (fun _ => rfl) _ _
    apply ht.entry (e := ⟨clock t.log.length, rowId, .update⟩) rfl trivial hmap
    · exact hmap ▸ ht.nodup
    · intro s hs id hid
      have hmem : Origin.event id ∈ t.slots.map Slot.origin := by
        rw [← hmap, ← hid]
        exact List.mem_map_of_mem hs
      obtain ⟨s', hs', heq⟩ := List.mem_map.mp hmem
      have hold := ht.logged s' hs' id heq
      exact Nat.lt_of_lt_of_eq (Nat.lt_succ_of_lt hold) (hsucc rowId .update).symm

theorem Table.starting_tracks (rows : List Row) (log : List LogEvent) :
    (Table.starting rows log).Tracks log.length
      ((Table.starting rows log).slots.map Slot.origin) := by
  have horigin : ∀ i, ((Table.starting rows log).slots.map Slot.origin)[i]? =
      rows[i]?.map fun _ => Origin.start i := by
    intro i
    rw [Table.starting, List.getElem?_map, List.getElem?_mapIdx, Option.map_map]
    rfl
  refine ⟨Nat.le_refl _, ?_, ?_, ?_, ?_⟩
  · rw [Table.starting, List.drop_length]
    trivial
  · rw [Table.starting, List.drop_length]
    rfl
  · rw [List.nodup_iff_getElem?_ne_getElem?]
    intro i j hij hj heq
    have hrow : ∀ k, k < rows.length → rows[k]? ≠ none := by
      intro k hk hnone
      exact Nat.not_le_of_lt hk (List.getElem?_eq_none_iff.mp hnone)
    have hlength : j < rows.length := by simpa [Table.starting] using hj
    rw [horigin, horigin] at heq
    obtain ⟨row, hi⟩ := Option.ne_none_iff_exists'.mp (hrow i (hij.trans hlength))
    obtain ⟨row', hj'⟩ := Option.ne_none_iff_exists'.mp (hrow j hlength)
    rw [hi, hj', Option.map_some, Option.map_some] at heq
    obtain rfl := Origin.start.inj (Option.some.inj heq)
    exact Nat.lt_irrefl _ hij
  · intro s hs id hid
    obtain ⟨i, hi⟩ := List.mem_iff_getElem?.mp hs
    rw [Table.starting, List.getElem?_mapIdx] at hi
    cases hrow : rows[i]? with
    | none => rw [hrow] at hi; cases hi
    | some row =>
      rw [hrow] at hi
      obtain rfl := Option.some.inj hi
      cases hid

/-- Two slots whose rows have the same origin are the same. -/
theorem Table.Tracks.unique {t : Table Row} (h : t.Tracks base os) {s s' : Slot Row}
    (hs : s ∈ t.slots) (hs' : s' ∈ t.slots) (heq : s.origin = s'.origin) : s = s' :=
  List.inj_on_of_nodup_map h.nodup hs hs' heq

/-- A row after a command is one from before it, perhaps updated, or new. -/
theorem Table.mem_apply {clock : Nat → Nat} {m : Mutation Row} {t : Table Row} {s : Slot Row}
    (hs : s ∈ (t.apply clock m).slots) :
    (∃ s₀ ∈ t.slots, s₀.origin = s.origin ∧ s₀.inserted = s.inserted) ∨
      ∃ id, t.log.length ≤ id ∧ s.origin = .event id := by
  have hkept : t.log <+: (t.apply clock m).log ∧ ∀ s ∈ (t.apply clock m).slots,
      (∃ s₀ ∈ t.slots, s₀.origin = s.origin ∧ s₀.inserted = s.inserted) ∨
        ∃ id, t.log.length ≤ id ∧ s.origin = .event id := by
    apply Table.apply_preserves (P := fun t' : Table Row => t.log <+: t'.log ∧ ∀ s ∈ t'.slots,
      (∃ s₀ ∈ t.slots, s₀.origin = s.origin ∧ s₀.inserted = s.inserted) ∨
        ∃ id, t.log.length ≤ id ∧ s.origin = .event id)
    · rintro t' row ⟨hlog, hslots⟩
      refine ⟨hlog.trans (List.prefix_append _ _), fun s hs => ?_⟩
      rcases List.mem_append.mp hs with hs | hs
      · exact hslots s hs
      · obtain rfl := List.mem_singleton.mp hs
        exact .inr ⟨_, hlog.length_le, rfl⟩
    · rintro t' rowId - ⟨hlog, hslots⟩
      exact ⟨hlog.trans (List.prefix_append _ _), fun s hs => hslots s (mem_swapRemove hs)⟩
    · rintro - t' f rowId ⟨hlog, hslots⟩
      refine ⟨hlog.trans (List.prefix_append _ _), fun s hs => ?_⟩
      have hmap := map_modify_set (f := f) (g := fun s => (s.origin, s.inserted)) (fun _ => rfl)
        t'.slots rowId
      have hmem : (s.origin, s.inserted) ∈ t'.slots.map fun s => (s.origin, s.inserted) := by
        rw [← hmap]
        exact List.mem_map_of_mem hs
      obtain ⟨s', hs', heq⟩ := List.mem_map.mp hmem
      obtain ⟨horigin, hinserted⟩ := Prod.mk.inj heq
      rw [← horigin, ← hinserted]
      exact hslots s' hs'
    · exact ⟨List.prefix_rfl, fun s hs => .inl ⟨s, hs, rfl, rfl⟩⟩
  exact hkept.2 s hs

/-- Every row is as it was inserted. -/
def Table.AsInserted (t : Table Row) : Prop := ∀ s ∈ t.slots, s.row = s.inserted

theorem Table.starting_asInserted (rows : List Row) (log : List LogEvent) :
    (Table.starting rows log).AsInserted := by
  intro s hs
  obtain ⟨i, hi⟩ := List.mem_iff_getElem?.mp hs
  rw [Table.starting, List.getElem?_mapIdx] at hi
  obtain ⟨row, -, rfl⟩ := Option.map_eq_some_iff.mp hi
  rfl

theorem Table.AsInserted.apply {t : Table Row} (h : t.AsInserted) (clock : Nat → Nat)
    {m : Mutation Row} (hm : m.isUpdate = false) : (t.apply clock m).AsInserted := by
  apply Table.apply_preserves _ _ _ h
  · intro t row ht s hs
    rcases List.mem_append.mp hs with hs | hs
    · exact ht s hs
    · obtain rfl := List.mem_singleton.mp hs
      rfl
  · exact fun t rowId _ ht s hs => ht s (mem_swapRemove hs)
  · intro hupdate
    rw [hm] at hupdate
    cases hupdate

theorem Table.AsInserted.rows {t : Table Row} (h : t.AsInserted) : t.rows = t.inserted :=
  List.map_congr_left h

/-- The number of rows a table had before an entry of its log, from what it has now. -/
def Table.sizeAt (id : Nat) (t : Table Row) : Nat :=
  t.slots.length + deletes (t.log.drop id) - inserts (t.log.drop id)

theorem Table.Tracks.sizeAt {t : Table Row} (h : t.Tracks base os) {pre post : List LogEvent}
    (hlog : t.log.drop base = pre ++ post) :
    t.sizeAt (base + pre.length) = (originsAfter base pre os).length := by
  have hpost : t.log.drop (base + pre.length) = post := by
    rw [← List.drop_drop, hlog, List.drop_left]
  have hfits := h.fits
  rw [hlog, fitsAfter_append] at hfits
  have hsize : t.slots.length =
      (originsAfter (base + pre.length) post (originsAfter base pre os)).length := by
    have hmap : (t.slots.map Slot.origin).length = t.slots.length := List.length_map _
    rw [← hmap, h.origins, hlog, originsAfter_append]
  have hcount := length_originsAfter hfits.2
  rw [Table.sizeAt, hpost]
  omega

end CuttleDB
