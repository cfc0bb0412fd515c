import CuttleDB.Lib.Framing
import CuttleDB.Lib.Json
import CuttleDB.Replicate

/-!
# The checkpoint file

`_save_checkpoint` writes the cursors as one JSON object over the old file;
`_load_checkpoint` reads them back, takes no cursors from a file that is not JSON, and
gives every configured table without a cursor the cursor 0. A process that dies in the
middle of the write leaves the beginning of the text, and no proper beginning of it is
JSON: what is lost is not one interval but every cursor.
-/

namespace CuttleDB.Replicate

open Framing Py

/-! ### Reading and writing -/

/-- `f"{hid}:{tid}"` -/
def key (t : TableId) : Text := intText t.hid ++ ':' :: intText t.tid

/-- A dictionary of cursors, in the order of its insertions. -/
structure Cursors where
  entries : List (TableId × Int)
  nodup : (entries.map Prod.fst).Nodup

def entryText (e : TableId × Int) : Text := '"' :: key e.1 ++ '"' :: ':' :: ' ' :: intText e.2

/-- `json.dumps`. The keys hold digits, minus signs and a colon, none of them escaped. -/
def dumps (c : Cursors) : Text :=
  '{' :: [',', ' '].intercalate (c.entries.map entryText) ++ ['}']

inductive CheckpointFile where
  | absent
  | unreadable                -- `read_text` raises `OSError`
  | text (s : Text)

/-- `dict.setdefault`; `none` is the `AttributeError` of what is not a dictionary. -/
def setdefault (k : Text) (v : Json.Value) : Json.Value → Option Json.Value
  | .obj fields =>
    let k := Json.points k
    some (.obj (if (Json.field? k fields).isSome then fields else fields ++ [(k, v)]))
  | _ => none

/-- The cursors in a file: none without a file, and none from one that is no JSON. -/
def CheckpointFile.loads : CheckpointFile → Json.Value
  | .absent => .obj []
  | .unreadable => .obj []
  | .text s => (Json.decode s).getD (.obj [])

/-- `_load_checkpoint`, of a worker that has just been made. -/
def loadCheckpoint (tables : List TableId) (file : CheckpointFile) : Option Json.Value :=
  tables.foldlM (fun cursors t => setdefault (key t) (.int 0) cursors) file.loads

/-- `self.cursors[key]` -/
def cursorOf (t : TableId) : Json.Value → Option Json.Value
  | .obj fields => Json.field? (Json.points (key t)) fields
  | _ => none

/-- The file that the last save left. -/
def savedFile : Option Cursors → CheckpointFile
  | none => .absent
  | some c => .text (dumps c)

/-- The cursor that was saved last. -/
def savedCursor (c : Option Cursors) (t : TableId) : Int :=
  (c.bind fun c => c.entries.lookup t).getD 0

/-- The file after `_save_checkpoint` was cut off: before it was truncated, or when the
given number of characters had been written. -/
def crashed (file : CheckpointFile) (new : Cursors) : Option Nat → CheckpointFile
  | none => file
  | some n => .text ((dumps new).take n)

/-! ### Keys -/

theorem plain_of_mem_intText {i : Int} {c : Char} (hc : c ∈ intText i) :
    Json.Plain c ∧ c ≠ ':' := by
  have hdigit : ∀ c : Char, c.isDigit = true → Json.Plain c ∧ c ≠ ':' := by
    intro c hc
    have hbounds := digit_bounds hc
    refine ⟨⟨?_, ?_, by omega⟩, ?_⟩ <;>
      · rintro rfl
        exact absurd hc (by decide)
  rcases mem_intText hc with hc | rfl
  · exact hdigit c hc
  · exact ⟨by unfold Json.Plain; decide, by decide⟩

theorem plain_of_mem_key {t : TableId} {c : Char} (hc : c ∈ key t) : Json.Plain c := by
  rcases List.mem_append.mp hc with hhid | hrest
  · exact (plain_of_mem_intText hhid).1
  · rcases List.mem_cons.mp hrest with rfl | htid
    · unfold Json.Plain
      decide
    · exact (plain_of_mem_intText htid).1

theorem key_injective {t u : TableId} (h : key t = key u) : t = u := by
  have hcolon : ∀ i : Int, ':' ∉ intText i := fun i hc => (plain_of_mem_intText hc).2 rfl
  obtain ⟨hhid, htid⟩ := line_unique (hcolon t.hid) (hcolon u.hid) h
  cases t
  cases u
  exact congrArg₂ TableId.mk (intText_injective hhid) (intText_injective htid)

/-- The name of a table's member. -/
def nameOf (t : TableId) : List Json.Point := Json.points (key t)

theorem nameOf_injective {t u : TableId} (h : nameOf t = nameOf u) : t = u := by
  have hpoint : Function.Injective Json.point := fun _ _ h => Char.toNat_inj.mp (Fin.mk.inj h)
  exact key_injective (hpoint.list_map h)

/-! ### The text is read back -/

def fieldOf (e : TableId × Int) : List Json.Point × Json.Value :=
  (nameOf e.1, .int e.2)

theorem value_intText {n : Nat} (i : Int) {c : Char} (hdigit : c.isDigit = false)
    (hc : c ≠ '.' ∧ c ≠ 'e' ∧ c ≠ 'E') (r : Text) :
    Json.value (n + 1) (intText i ++ c :: r) = some (.int i, c :: r) := by
  cases i with
  | ofNat m =>
    have hnumber := Json.number_toDigits m hdigit hc r
    obtain ⟨d, ds, hds⟩ := List.exists_cons_of_ne_nil (Nat.toDigits_ne_nil (n := m) (b := 10))
    have hd : d.isDigit = true := Json.isDigit_toDigits (n := m) (by simp [hds])
    change Json.value (n + 1) (Nat.toDigits 10 m ++ c :: r) = some (.int m, c :: r)
    rw [hds, List.cons_append] at hnumber ⊢
    exact Json.value_of_number (.inl hd) hnumber
  | negSucc m =>
    have hnumber := Json.number_neg_toDigits (m + 1) hdigit hc r
    exact Json.value_of_number (.inr rfl) hnumber

theorem skip_intText (i : Int) (r : Text) : Json.skip (intText i ++ r) = intText i ++ r := by
  obtain ⟨c, s, hs⟩ := List.exists_cons_of_ne_nil (intText_isWord i).1
  have hc : Json.isSpace c = false := by
    have hplain := plain_of_mem_intText (i := i) (c := c) (by simp [hs])
    have hspace := isSpace_of_mem_intText (i := i) (c := c) (by simp [hs])
    rw [Bool.eq_false_iff]
    intro h
    simp only [Json.isSpace, Bool.or_eq_true, decide_eq_true_eq] at h
    rcases h with ((rfl | rfl) | rfl) | rfl <;> exact absurd hspace (by decide)
  rw [hs, List.cons_append, Json.skip, List.dropWhile_cons, hc]
  rfl

/-- One member and what stands behind it. -/
theorem members_entry {n : Nat} (e : TableId × Int) (hn : (entryText e).length ≤ n) {c : Char}
    (hdigit : c.isDigit = false) (hc : c ≠ '.' ∧ c ≠ 'e' ∧ c ≠ 'E') (r : Text) :
    Json.members (n + 1) (entryText e ++ c :: r) =
      match Json.expect '}' (Json.skip (c :: r)) with
      | some s => some ([fieldOf e], s)
      | none =>
        (Json.expect ',' (Json.skip (c :: r))).bind fun s =>
          (Json.members n (Json.skip s)).bind fun p => some (fieldOf e :: p.1, p.2) := by
  obtain ⟨t, i⟩ := e
  have hlength : (key t).length < n := by
    simp only [entryText, List.cons_append, List.length_cons, List.length_append] at hn
    omega
  obtain ⟨m, rfl⟩ := Nat.exists_eq_succ_of_ne_zero (Nat.ne_zero_of_lt hlength)
  have htext : entryText (t, i) ++ c :: r =
      '"' :: (key t ++ '"' :: ':' :: ' ' :: (intText i ++ c :: r)) := by
    simp [entryText]
  have hstring := Json.string_plain (fun c hc => plain_of_mem_key hc) hlength
    (':' :: ' ' :: (intText i ++ c :: r))
  have hskip : Json.skip (' ' :: (intText i ++ c :: r)) = intText i ++ c :: r :=
    skip_intText i (c :: r)
  rw [htext, Json.members, Json.expect, if_pos rfl]
  simp only [Option.bind_eq_bind, Option.bind_some, Option.pure_def]
  rw [hstring]
  simp only [Option.bind_some, Json.joined_points]
  rw [show Json.skip (':' :: ' ' :: (intText i ++ c :: r)) =
    ':' :: ' ' :: (intText i ++ c :: r) from rfl, Json.expect, if_pos rfl, Option.bind_some, hskip,
    value_intText i hdigit hc r, Option.bind_some]
  rfl

theorem members_head (e : TableId × Int) (es : List (TableId × Int)) :
    ∃ s, [',', ' '].intercalate ((e :: es).map entryText) = '"' :: s := by
  cases es with
  | nil => exact ⟨key e.1 ++ '"' :: ':' :: ' ' :: intText e.2, by simp [entryText]⟩
  | cons d es =>
    rw [List.map_cons, List.map_cons, List.intercalate_cons_cons]
    exact ⟨_, rfl⟩

theorem members_text (es : List (TableId × Int)) (hes : es ≠ []) {n : Nat}
    (hn : ([',', ' '].intercalate (es.map entryText)).length < n) :
    Json.members n ([',', ' '].intercalate (es.map entryText) ++ ['}']) =
      some (es.map fieldOf, []) := by
  induction es generalizing n with
  | nil => exact absurd rfl hes
  | cons e es ih =>
    obtain ⟨m, rfl⟩ := Nat.exists_eq_succ_of_ne_zero (Nat.ne_zero_of_lt hn)
    have hm := Nat.le_of_lt_succ hn
    cases es with
    | nil =>
      have htext : [',', ' '].intercalate (List.map entryText [e]) = entryText e := by simp
      rw [htext] at hm ⊢
      rw [members_entry e hm (by decide) (by decide) []]
      rfl
    | cons d es =>
      have htext : [',', ' '].intercalate (List.map entryText (e :: d :: es)) =
          entryText e ++ ',' :: ' ' :: [',', ' '].intercalate (List.map entryText (d :: es)) := by
        rw [List.map_cons, List.map_cons, List.intercalate_cons_cons]
        simp
      rw [htext] at hm ⊢
      simp only [List.length_append, List.length_cons] at hm
      have htail := ih (by simp) (n := m) (by omega)
      rw [List.append_assoc, List.cons_append,
        members_entry e (by omega) (by decide) (by decide) _]
      obtain ⟨s, hs⟩ := members_head d es
      have hskip : Json.skip (' ' :: ([',', ' '].intercalate (List.map entryText (d :: es)) ++
          ['}'])) = [',', ' '].intercalate (List.map entryText (d :: es)) ++ ['}'] := by
        rw [hs]
        rfl
      have hcomma : ∀ r : Text, Json.skip (',' :: r) = ',' :: r := fun r => rfl
      rw [hcomma, Json.expect, if_neg (by decide), Json.expect, if_pos rfl]
      dsimp only [Option.bind_some]
      rw [List.cons_append, hskip, htail]
      rfl

/-- **What was saved is read back.** -/
theorem value_dumps (c : Cursors) :
    Json.value ((dumps c).length + 1) (dumps c) = some (.obj (c.entries.map fieldOf), []) := by
  unfold dumps
  rw [List.cons_append, Json.value, if_neg (by decide), if_pos rfl]
  cases hes : c.entries with
  | nil => rfl
  | cons e es =>
    have hne : e :: es ≠ [] := List.cons_ne_nil e es
    obtain ⟨s, hs⟩ := members_head e es
    have htext : Json.skip ([',', ' '].intercalate (List.map entryText (e :: es)) ++ ['}']) =
        [',', ' '].intercalate (List.map entryText (e :: es)) ++ ['}'] := by
      rw [hs]
      rfl
    have hopen : Json.expect '}' ([',', ' '].intercalate (List.map entryText (e :: es)) ++ ['}']) =
        none := by
      rw [hs]
      rfl
    rw [htext, hopen]
    dsimp only
    rw [members_text (e :: es) hne (by simp only [List.length_cons, List.length_append]; omega)]
    rfl

theorem decode_dumps (c : Cursors) : Json.decode (dumps c) = some (.obj (c.entries.map fieldOf)) := by
  have hskip : Json.skip (dumps c) = dumps c := rfl
  rw [Json.decode, hskip, value_dumps]
  rfl

/-! ### The cursors of the tables -/

theorem lookup_cons_of_ne {α β : Type} [BEq α] [LawfulBEq α] {a b : α} (h : a ≠ b) (v : β)
    (l : List (α × β)) : ((b, v) :: l).lookup a = l.lookup a := by
  rw [List.lookup_cons, beq_eq_false_iff_ne.mpr h]

theorem lookup_reverse {α β : Type} [BEq α] [LawfulBEq α] {l : List (α × β)}
    (h : (l.map Prod.fst).Nodup) (a : α) : l.reverse.lookup a = l.lookup a := by
  induction l with
  | nil => rfl
  | cons p l ih =>
    obtain ⟨b, v⟩ := p
    rw [List.map_cons, List.nodup_cons] at h
    rw [List.reverse_cons, List.lookup_append, ih h.2]
    by_cases hab : a = b
    · subst hab
      have hnone : l.lookup a = none := by
        rw [List.lookup_eq_none_iff]
        intro p hp
        have hne : a ≠ p.1 := fun heq => h.1 (List.mem_map.mpr ⟨p, hp, heq.symm⟩)
        simpa using hne
      rw [hnone, List.lookup_cons_self, List.lookup_cons_self]
      rfl
    · rw [lookup_cons_of_ne hab, lookup_cons_of_ne hab, List.lookup_nil, Option.or_none]

theorem lookup_fieldOf (es : List (TableId × Int)) (t : TableId) :
    (es.map fieldOf).lookup (nameOf t) = (es.lookup t).map Json.Value.int := by
  induction es with
  | nil => rfl
  | cons e es ih =>
    obtain ⟨u, i⟩ := e
    rw [List.map_cons, fieldOf]
    by_cases htu : t = u
    · subst htu
      rw [List.lookup_cons_self, List.lookup_cons_self]
      rfl
    · rw [lookup_cons_of_ne htu, lookup_cons_of_ne fun h => htu (nameOf_injective h), ih]

theorem field?_entries (c : Cursors) (t : TableId) :
    Json.field? (nameOf t) (c.entries.map fieldOf) = (c.entries.lookup t).map Json.Value.int := by
  have hnodup : ((c.entries.map fieldOf).map Prod.fst).Nodup := by
    rw [List.map_map, show Prod.fst ∘ fieldOf = nameOf ∘ Prod.fst from rfl, ← List.map_map]
    exact c.nodup.map fun t u h => nameOf_injective h
  rw [Json.field?, lookup_reverse hnodup, lookup_fieldOf]

theorem field?_setdefault (k k' : List Json.Point) (v : Json.Value)
    (fields : List (List Json.Point × Json.Value)) :
    Json.field? k (if (Json.field? k' fields).isSome then fields else fields ++ [(k', v)]) =
      (Json.field? k fields).or (if k = k' then some v else none) := by
  by_cases hk : k = k'
  · subst hk
    rw [if_pos rfl]
    cases hfield : Json.field? k fields with
    | some w =>
      rw [if_pos (by simp), hfield]
      rfl
    | none =>
      rw [if_neg (by simp), Json.field?, List.reverse_concat, List.lookup_cons_self]
      rfl
  · rw [if_neg hk, Option.or_none]
    split
    · rfl
    · rw [Json.field?, List.reverse_concat, lookup_cons_of_ne hk, Json.field?]

/-- Every configured table has a cursor, its own or `0`. -/
theorem setdefaults (tables : List TableId) (fields : List (List Json.Point × Json.Value)) :
    ∃ fields', tables.foldlM (fun cursors t => setdefault (key t) (.int 0) cursors)
        (.obj fields) = some (.obj fields') ∧
      ∀ t ∈ tables,
        Json.field? (nameOf t) fields' = some ((Json.field? (nameOf t) fields).getD (.int 0)) := by
  have hgeneral : ∃ fields', tables.foldlM
        (fun cursors t => setdefault (key t) (.int 0) cursors) (.obj fields) =
          some (.obj fields') ∧
      ∀ k, Json.field? k fields' =
        (Json.field? k fields).or (if k ∈ tables.map nameOf then some (.int 0) else none) := by
    induction tables generalizing fields with
    | nil => exact ⟨fields, rfl, fun k => by simp⟩
    | cons t tables ih =>
      rw [List.foldlM_cons, setdefault]
      obtain ⟨fields', hfold, hfields⟩ := ih (if (Json.field? (nameOf t) fields).isSome then fields
        else fields ++ [(nameOf t, .int 0)])
      refine ⟨fields', hfold, fun k => ?_⟩
      rw [hfields, field?_setdefault]
      by_cases hk : k = nameOf t
      · subst hk
        cases Json.field? (nameOf t) fields <;> simp
      · simp [hk]
  obtain ⟨fields', hfold, hfields⟩ := hgeneral
  refine ⟨fields', hfold, fun t ht => ?_⟩
  rw [hfields, if_pos (List.mem_map_of_mem ht)]
  cases Json.field? (nameOf t) fields <;> rfl

/-- What `_load_checkpoint` makes of a file that a save has left. -/
theorem loadCheckpoint_saved (tables : List TableId) (c : Option Cursors) :
    ∃ cursors, loadCheckpoint tables (savedFile c) = some cursors ∧
      ∀ t ∈ tables, cursorOf t cursors = some (.int (savedCursor c t)) := by
  cases c with
  | none =>
    obtain ⟨fields, hfold, hfields⟩ := setdefaults tables []
    exact ⟨_, hfold, fun t ht => hfields t ht⟩
  | some c =>
    obtain ⟨fields, hfold, hfields⟩ := setdefaults tables (c.entries.map fieldOf)
    refine ⟨.obj fields, ?_, fun t ht => (hfields t ht).trans ?_⟩
    · rw [loadCheckpoint, savedFile, CheckpointFile.loads, decode_dumps]
      exact hfold
    · rw [field?_entries, savedCursor, Option.bind_some]
      cases c.entries.lookup t <;> rfl

/-- The checkpoint of a world is what is read back from the file that was saved. -/
theorem loadCheckpoint_load {Row : Type} (tables : List TableId) (c : Option Cursors)
    (w : World Row) (hw : w.checkpoint = c.map fun c => savedCursor (some c)) :
    ∃ cursors, loadCheckpoint tables (savedFile c) = some cursors ∧
      ∀ t ∈ tables, cursorOf t cursors = some (.int (w.load.cursors t)) := by
  obtain ⟨cursors, hload, hcursors⟩ := loadCheckpoint_saved tables c
  refine ⟨cursors, hload, fun t ht => ?_⟩
  rw [hcursors t ht, World.load, hw]
  cases c <;> rfl

/-- **A part of the text is no text.** -/
theorem loadCheckpoint_torn (tables : List TableId) (new : Cursors) {n : Nat}
    (hn : n < (dumps new).length) :
    loadCheckpoint tables (.text ((dumps new).take n)) = loadCheckpoint tables .absent := by
  have hnone : Json.decode (List.take n (dumps new)) = none := by
    apply Json.decode_proper_prefix (value_dumps new) (List.take_prefix n _)
    intro heq
    have hlength : ((dumps new).take n).length = (dumps new).length := congrArg List.length heq
    rw [List.length_take] at hlength
    omega
  have hloads : (CheckpointFile.text ((dumps new).take n)).loads = .obj [] := by
    rw [CheckpointFile.loads, hnone]
    rfl
  unfold loadCheckpoint
  rw [hloads]
  rfl

/-- **A save that is cut off loses every cursor**, unless it is cut off before the file is
truncated or after its last character. -/
theorem restart_cursors_iff (tables : List TableId) (old : Option Cursors) (new : Cursors)
    (point : Option Nat) :
    (∃ cursors, loadCheckpoint tables (crashed (savedFile old) new point) = some cursors ∧
      ∀ t ∈ tables, cursorOf t cursors = some (.int (savedCursor old t)) ∨
        cursorOf t cursors = some (.int (savedCursor (some new) t))) ↔
    (∀ n, point = some n → (dumps new).length ≤ n) ∨
      ∀ t ∈ tables, savedCursor old t = 0 ∨ savedCursor (some new) t = 0 := by
  cases point with
  | none =>
    obtain ⟨cursors, hload, hcursors⟩ := loadCheckpoint_saved tables old
    constructor
    · exact fun _ => .inl fun n hn => by cases hn
    · exact fun _ => ⟨cursors, hload, fun t ht => .inl (hcursors t ht)⟩
  | some n =>
    by_cases hn : (dumps new).length ≤ n
    · have hfile : crashed (savedFile old) new (some n) = savedFile (some new) := by
        rw [crashed, List.take_of_length_le hn, savedFile]
      obtain ⟨cursors, hload, hcursors⟩ := loadCheckpoint_saved tables (some new)
      rw [hfile]
      constructor
      · exact fun _ => .inl fun m hm => Option.some.inj hm ▸ hn
      · exact fun _ => ⟨cursors, hload, fun t ht => .inr (hcursors t ht)⟩
    · have hfile : loadCheckpoint tables (crashed (savedFile old) new (some n)) =
          loadCheckpoint tables (savedFile none) :=
        loadCheckpoint_torn tables new (by omega)
      obtain ⟨cursors, hload, hcursors⟩ := loadCheckpoint_saved tables none
      have hzero : ∀ t ∈ tables, cursorOf t cursors = some (.int 0) := hcursors
      rw [hfile, hload]
      have heq : ∀ i : Int, some (Json.Value.int 0) = some (Json.Value.int i) ↔ i = 0 := by
        intro i
        simp [eq_comm]
      constructor
      · rintro ⟨cursors', hsame, hagree⟩
        obtain rfl := Option.some.inj hsame
        refine .inr fun t ht => ?_
        simpa only [hzero t ht, heq] using hagree t ht
      · rintro (hwhole | hcursor)
        · exact absurd (hwhole n rfl) hn
        · refine ⟨cursors, rfl, fun t ht => ?_⟩
          simpa only [hzero t ht, heq] using hcursor t ht

/-- The cursor 5 was saved, and the process dies when it has truncated the file in order to
save 9: it starts again from 0. -/
theorem torn_checkpoint_rewinds :
    let old : Cursors := ⟨[(⟨0, 0⟩, 5)], by decide⟩
    let new : Cursors := ⟨[(⟨0, 0⟩, 9)], by decide⟩
    ∃ cursors, loadCheckpoint [⟨0, 0⟩] (crashed (savedFile (some old)) new (some 0)) = some cursors ∧
      cursorOf ⟨0, 0⟩ cursors = some (.int 0) ∧
      (savedCursor (some old) ⟨0, 0⟩ = 5 ∧ savedCursor (some new) ⟨0, 0⟩ = 9) :=
  ⟨_, rfl, rfl, by decide⟩

end CuttleDB.Replicate
