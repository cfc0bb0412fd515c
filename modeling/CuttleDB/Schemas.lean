import CuttleDB.PyCommands

/-!
# Schema texts

`create` and `alter_add` write a column as `name:type`, `name:3:dim` for a vector, with
`:MAX=` and `:PREFIX=` behind it; the columns of a table are joined by `,` and the
alternatives of a prefix constraint by `|`. A prefix is free text and is not escaped. The
file settles which lists of columns are determined by their text.
-/

namespace CuttleDB.Py

/-! ### The encoders -/

structure Column where
  name : Text
  type : Int
  dim : Int
  maxBytes : Int
  prefixes : List Text
deriving DecidableEq, Repr

/-- `Column.encode`; the type of a vector is 3. -/
def Column.encode (c : Column) : Text :=
  if c.type = 3 then c.name ++ ":3:".toList ++ intText c.dim
  else
    let spec := c.name ++ ':' :: intText c.type
    let spec := if c.maxBytes > 0 then spec ++ ":MAX=".toList ++ intText c.maxBytes else spec
    if c.prefixes ≠ [] then spec ++ ":PREFIX=".toList ++ ['|'].intercalate c.prefixes else spec

inductive ColumnSpec where
  | column (c : Column)
  | pair (name : Text) (type : Int)
  | triple (name : Text) (type dim : Int)

def ColumnSpec.encode : ColumnSpec → Except PyError Text
  | .column c => .ok c.encode
  | .pair name type => .ok (name ++ ':' :: intText type)
  | .triple name type dim =>
    if type ≠ 3 then .error .valueError
    else .ok (name ++ ":3:".toList ++ intText dim)

/-- `_encode_columns` -/
def encodeColumns (cols : List ColumnSpec) : Except PyError Text :=
  (cols.mapM ColumnSpec.encode).map [','].intercalate

/-- The line of `create` -/
def createCommand (hid : Int) (name : Text) (columns : List ColumnSpec) : Except PyError Text :=
  (encodeColumns columns).map fun spec => words ["CREATE".toList, intText hid, name, spec]

/-- The line of `alter_add` -/
def alterAddCommand (hid tid : Int) (name : Text) (type dim maxBytes : Int)
    (prefixes : List Text) : Text :=
  let spec :=
    if type = 3 then name ++ ":3:".toList ++ intText dim
    else
      let spec := name ++ ':' :: intText type
      let spec := if maxBytes > 0 then spec ++ ":MAX=".toList ++ intText maxBytes else spec
      if prefixes ≠ [] then spec ++ ":PREFIX=".toList ++ ['|'].intercalate prefixes else spec
  words ["ALTER".toList, intText hid, intText tid, "ADD".toList, spec]

/-- A column that is added is written as one that a table is created with. -/
theorem alterAddCommand_eq (hid tid : Int) (c : Column) :
    alterAddCommand hid tid c.name c.type c.dim c.maxBytes c.prefixes =
      words ["ALTER".toList, intText hid, intText tid, "ADD".toList, c.encode] := rfl

/-! ### The parts of a text -/

/-- What stands behind the type -/
def Column.detail (c : Column) : Text :=
  if c.type = 3 then ':' :: intText c.dim
  else if c.maxBytes > 0 then ":MAX=".toList ++ intText c.maxBytes else []

def Column.prefixPart (c : Column) : Text :=
  if c.type = 3 ∨ c.prefixes = [] then [] else ":PREFIX=".toList ++ ['|'].intercalate c.prefixes

theorem Column.encode_eq (c : Column) :
    c.encode = c.name ++ ':' :: (intText c.type ++ (c.detail ++ c.prefixPart)) := by
  have hthree : intText 3 = ['3'] := by decide
  by_cases hvec : c.type = 3
  · simp [encode, detail, prefixPart, hvec, hthree]
  · by_cases hmax : c.maxBytes > 0 <;> by_cases hprefixes : c.prefixes = [] <;>
      simp [encode, detail, prefixPart, hvec, hmax, hprefixes]

/-- The text of a list of columns -/
def schemaText (cols : List Column) : Text := [','].intercalate (cols.map Column.encode)

theorem encodeColumns_column (cols : List Column) :
    encodeColumns (cols.map .column) = .ok (schemaText cols) := by
  have hmap : (cols.map ColumnSpec.column).mapM ColumnSpec.encode =
      Except.ok (ε := PyError) (cols.map Column.encode) := by
    induction cols with
    | nil => rfl
    | cons c cols ih =>
      simp [List.mapM_cons, ih, ColumnSpec.encode, bind, Except.bind, pure, Except.pure]
  rw [encodeColumns, hmap]
  rfl

/-- The line of `create` is that of its columns. -/
theorem createCommand_column (hid : Int) (name : Text) (cols : List Column) :
    createCommand hid name (cols.map .column) =
      .ok (words ["CREATE".toList, intText hid, name, schemaText cols]) := by
  rw [createCommand, encodeColumns_column]
  rfl

/-- The text behind a column's own: the rest of the list -/
def following (cols : List Column) : Text := if cols = [] then [] else ',' :: schemaText cols

theorem schemaText_cons (c : Column) (cols : List Column) :
    schemaText (c :: cols) = c.encode ++ following cols := by
  cases cols with
  | nil => simp [schemaText, following]
  | cons d cols => simp [schemaText, following, List.intercalate_cons_cons]

/-! ### Reading a text from the left -/

/-- A character of an integer's text -/
def isNumeral (c : Char) : Bool := c.isDigit || c == '-'

/-- A text that does not go on an integer's text -/
def EndsNumber (r : Text) : Prop := ∀ c, r.head? = some c → isNumeral c = false

theorem takeWhile_intText (i : Int) {r : Text} (hr : EndsNumber r) :
    (intText i ++ r).takeWhile isNumeral = intText i := by
  have hall : ∀ c ∈ intText i, isNumeral c = true := by
    intro c hc
    rcases mem_intText hc with hdigit | rfl
    · simp [isNumeral, hdigit]
    · decide
  rw [List.takeWhile_append_of_pos hall]
  cases r with
  | nil => simp
  | cons c r => rw [List.takeWhile_cons, hr c rfl, if_neg Bool.false_ne_true, List.append_nil]

theorem intText_append_inj {i j : Int} {r r' : Text} (hr : EndsNumber r) (hr' : EndsNumber r')
    (h : intText i ++ r = intText j ++ r') : i = j ∧ r = r' := by
  have hnumber : intText i = intText j := by
    rw [← takeWhile_intText i hr, h, takeWhile_intText j hr']
  refine ⟨intText_injective hnumber, ?_⟩
  rw [hnumber] at h
  exact List.append_cancel_left h

/-- What can stand behind a column without its prefixes: nothing, the next column, or the
prefixes. -/
inductive Behind : Text → Prop where
  | nothing : Behind []
  | next (r : Text) : Behind (',' :: r)
  | prefixed (r : Text) : Behind (":PREFIX=".toList ++ r)

theorem Behind.endsNumber {r : Text} (h : Behind r) : EndsNumber r := by
  intro c hc
  cases h with
  | nothing => cases hc
  | next r =>
    cases hc
    decide
  | prefixed r =>
    cases hc
    decide

theorem behind_prefixPart_following (c : Column) (cols : List Column) :
    Behind (c.prefixPart ++ following cols) := by
  rw [Column.prefixPart]
  split
  · rw [List.nil_append, following]
    split
    · exact .nothing
    · exact .next _
  · rw [List.append_assoc]
    exact .prefixed _

/-- What `name`, `type`, the dimension of a vector and the maximum of another column are -/
structure SameColumn (c d : Column) : Prop where
  name : c.name = d.name
  type : c.type = d.type
  dim : c.type = 3 → c.dim = d.dim
  maxBytes : c.type ≠ 3 → max c.maxBytes 0 = max d.maxBytes 0

theorem endsNumber_detail {c : Column} {r : Text} (hr : Behind r) : EndsNumber (c.detail ++ r) := by
  rw [Column.detail]
  split
  · intro ch hch
    cases hch
    decide
  · split
    · intro ch hch
      cases hch
      decide
    · exact hr.endsNumber

/-- A text gives back a column's own part and what stands behind it. -/
theorem sameColumn_of_eq {c d : Column} {r r' : Text} (hc : ':' ∉ c.name) (hd : ':' ∉ d.name)
    (hr : Behind r) (hr' : Behind r')
    (h : c.name ++ ':' :: (intText c.type ++ (c.detail ++ r)) =
      d.name ++ ':' :: (intText d.type ++ (d.detail ++ r'))) :
    SameColumn c d ∧ r = r' := by
  obtain ⟨hname, hrest⟩ := Framing.line_unique hc hd h
  obtain ⟨htype, hdetail⟩ := intText_append_inj (endsNumber_detail hr) (endsNumber_detail hr') hrest
  rw [Column.detail, Column.detail, ← htype] at hdetail
  by_cases hvec : c.type = 3
  · rw [if_pos hvec, if_pos hvec] at hdetail
    obtain ⟨hdim, heq⟩ :=
      intText_append_inj hr.endsNumber hr'.endsNumber (List.cons.inj hdetail).2
    exact ⟨⟨hname, htype, fun _ => hdim, fun hnot => absurd hvec hnot⟩, heq⟩
  · rw [if_neg hvec, if_neg hvec] at hdetail
    -- `:MAX=` is none of the things that stand behind a column
    have hno : ∀ {t s : Text}, Behind s → ":MAX=".toList ++ t ≠ s := by
      intro t s hs heq
      cases hs with
      | nothing => cases heq
      | next r => cases heq
      | prefixed r => cases heq
    by_cases hmax : c.maxBytes > 0 <;> by_cases hmax' : d.maxBytes > 0
    · rw [if_pos hmax, if_pos hmax', List.append_assoc, List.append_assoc] at hdetail
      obtain ⟨hsame, heq⟩ :=
        intText_append_inj hr.endsNumber hr'.endsNumber (List.append_cancel_left hdetail)
      exact ⟨⟨hname, htype, fun h3 => absurd h3 hvec, fun _ => by rw [hsame]⟩, heq⟩
    · rw [if_pos hmax, if_neg hmax', List.append_assoc, List.nil_append] at hdetail
      exact absurd hdetail (hno hr')
    · rw [if_neg hmax, if_pos hmax', List.append_assoc, List.nil_append] at hdetail
      exact absurd hdetail.symm (hno hr)
    · rw [if_neg hmax, if_neg hmax', List.nil_append, List.nil_append] at hdetail
      exact ⟨⟨hname, htype, fun h3 => absurd h3 hvec, fun _ => by omega⟩, hdetail⟩

/-! ### Columns and texts of columns -/

structure Column.Valid (c : Column) : Prop where
  name : ∀ ch ∈ c.name, ch ≠ ':' ∧ ch ≠ ',' ∧ isSpace ch = false
  prefixes : ∀ p ∈ c.prefixes, p ≠ []

/-- All its prefixes are written: a vector has none. -/
def Column.KeepsPrefixes (c : Column) : Prop := c.type = 3 → c.prefixes = []

theorem Column.keepsPrefixes_of_nil {c : Column} (h : c.prefixes = []) : c.KeepsPrefixes :=
  fun _ => h

theorem Column.keepsPrefixes_of_other {c : Column} (h : c.type ≠ 3) : c.KeepsPrefixes :=
  fun hvec => absurd hvec h

theorem Column.KeepsPrefixes.type_ne {c : Column} (h : c.KeepsPrefixes) (hsome : c.prefixes ≠ []) :
    c.type ≠ 3 := mt h hsome

theorem Column.Valid.colon_not_mem {c : Column} (h : c.Valid) : ':' ∉ c.name := fun hmem =>
  (h.name _ hmem).1 rfl

/-- The text of a column without prefixes, and whether it is a vector -/
inductive ColumnText : Bool → Text → Prop where
  | vector (name : Text) (dim : Int) (h : ∀ ch ∈ name, ch ≠ ':' ∧ ch ≠ ',' ∧ isSpace ch = false) :
      ColumnText true (name ++ ":3:".toList ++ intText dim)
  | unlimited (name : Text) (type : Int) (hother : type ≠ 3)
      (h : ∀ ch ∈ name, ch ≠ ':' ∧ ch ≠ ',' ∧ isSpace ch = false) :
      ColumnText false (name ++ ':' :: intText type)
  | limited (name : Text) (type maxBytes : Int) (hother : type ≠ 3) (hpos : maxBytes > 0)
      (h : ∀ ch ∈ name, ch ≠ ':' ∧ ch ≠ ',' ∧ isSpace ch = false) :
      ColumnText false (name ++ ':' :: intText type ++ ":MAX=".toList ++ intText maxBytes)

/-- The texts that read as a list of columns: columns without prefixes joined by `,`, the
last of them with `:PREFIX=` and any text behind it or without. -/
inductive ReadsAsSchema : Text → Prop where
  | last {vector : Bool} {t : Text} (ht : ColumnText vector t) : ReadsAsSchema t
  | prefixed {t p : Text} (ht : ColumnText false t) (hp : p ≠ []) :
      ReadsAsSchema (t ++ (":PREFIX=".toList ++ p))
  | more {vector : Bool} {t s : Text} (ht : ColumnText vector t) (hs : ReadsAsSchema s) :
      ReadsAsSchema (t ++ ',' :: s)

theorem ColumnText.exists_column {vector : Bool} {t : Text} (h : ColumnText vector t) :
    ∃ c : Column, (∀ ps, (∀ p ∈ ps, p ≠ []) → ({ c with prefixes := ps } : Column).Valid) ∧
      (vector = false → c.type ≠ 3) ∧ c.prefixes = [] ∧ c.encode = t := by
  cases h with
  | vector name dim h =>
    exact ⟨⟨name, 3, dim, 0, []⟩, fun ps hps => ⟨h, hps⟩, nofun, rfl, rfl⟩
  | unlimited name type hother h =>
    refine ⟨⟨name, type, 0, 0, []⟩, fun ps hps => ⟨h, hps⟩, fun _ => hother, rfl, ?_⟩
    simp [Column.encode, hother]
  | limited name type maxBytes hother hpos h =>
    refine ⟨⟨name, type, 0, maxBytes, []⟩, fun ps hps => ⟨h, hps⟩, fun _ => hother, rfl, ?_⟩
    simp [Column.encode, hother, hpos]

theorem Column.Valid.columnText {c : Column} (h : c.Valid) :
    ∃ vector t, ColumnText vector t ∧ c.encode = t ++ c.prefixPart ∧
      (vector = true → c.prefixPart = []) := by
  by_cases hvec : c.type = 3
  · refine ⟨true, _, .vector c.name c.dim h.name, ?_, fun _ => ?_⟩ <;>
      simp [encode, prefixPart, hvec]
  · by_cases hmax : c.maxBytes > 0
    · refine ⟨false, _, .limited c.name c.type c.maxBytes hvec hmax h.name, ?_, nofun⟩
      by_cases hprefixes : c.prefixes = [] <;> simp [encode, prefixPart, hvec, hmax, hprefixes]
    · refine ⟨false, _, .unlimited c.name c.type hvec h.name, ?_, nofun⟩
      by_cases hprefixes : c.prefixes = [] <;> simp [encode, prefixPart, hvec, hmax, hprefixes]

theorem intercalate_ne_nil (sep : Char) {ps : List Text} (hne : ps ≠ []) (h : ∀ p ∈ ps, p ≠ []) :
    [sep].intercalate ps ≠ [] := by
  match ps with
  | [p] => simpa using h p (by simp)
  | p :: q :: ps => simp [List.intercalate_cons_cons]

/-- A text that reads as a list of columns is the text of one. -/
theorem ReadsAsSchema.exists_columns {s : Text} (h : ReadsAsSchema s) :
    ∃ cols, cols ≠ [] ∧ (∀ c ∈ cols, c.Valid ∧ c.KeepsPrefixes) ∧ schemaText cols = s := by
  induction h with
  | last ht =>
    obtain ⟨c, hvalid, -, hnil, rfl⟩ := ht.exists_column
    have hc : c.Valid := hvalid c.prefixes (by simp [hnil])
    refine ⟨[c], by simp, ?_, by simp [schemaText]⟩
    simpa using ⟨hc, Column.keepsPrefixes_of_nil hnil⟩
  | @prefixed t p ht hp =>
    obtain ⟨c, hvalid, hother, hnil, rfl⟩ := ht.exists_column
    have hvec := hother rfl
    refine ⟨[{ c with prefixes := [p] }], by simp, ?_, ?_⟩
    · have hc := hvalid [p] (by simpa using hp)
      simpa using ⟨hc, Column.keepsPrefixes_of_other hvec⟩
    · by_cases hmax : c.maxBytes > 0 <;> simp [schemaText, Column.encode, hvec, hmax, hnil]
  | more ht hs ih =>
    obtain ⟨c, hvalid, -, hnil, rfl⟩ := ht.exists_column
    obtain ⟨cols, hne, hcols, rfl⟩ := ih
    have hc : c.Valid := hvalid c.prefixes (by simp [hnil])
    refine ⟨c :: cols, by simp, List.forall_mem_cons.mpr ⟨⟨hc, ?_⟩, hcols⟩, ?_⟩
    · exact Column.keepsPrefixes_of_nil hnil
    · rw [schemaText_cons, following, if_neg hne]

/-- The text of a list of columns reads as one. -/
theorem readsAsSchema_schemaText {cols : List Column} (hne : cols ≠ [])
    (hvalid : ∀ c ∈ cols, c.Valid) : ReadsAsSchema (schemaText cols) := by
  induction cols with
  | nil => exact absurd rfl hne
  | cons c cols ih =>
    obtain ⟨hc, hcols⟩ := List.forall_mem_cons.mp hvalid
    obtain ⟨vector, t, ht, hencode, hvector⟩ := hc.columnText
    rw [schemaText_cons, hencode]
    by_cases hpart : c.prefixPart = []
    · rw [hpart, List.append_nil, following]
      split
      · simpa using ReadsAsSchema.last ht
      · exact .more ht (ih (by assumption) hcols)
    · have hother : vector = false := by simpa using mt hvector hpart
      subst hother
      rw [Column.prefixPart] at hpart ⊢
      split at hpart
      · exact absurd rfl hpart
      · rename_i hsome
        rw [if_neg hsome, List.append_assoc, List.append_assoc]
        refine .prefixed ht ?_
        have hjoined := intercalate_ne_nil '|' (not_or.mp hsome).2 hc.prefixes
        simp [hjoined]

/-! ### What a text determines -/

/-- The lists agree column by column. -/
def Agree (cols cols' : List Column) : Prop :=
  List.Forall₂ (fun c d => SameColumn c d ∧ c.prefixes = d.prefixes) cols cols'

/-- Every list of columns of the kind with the text of `cols` agrees with `cols`. -/
def SchemaDetermined (kind : Column → Prop) (cols : List Column) : Prop :=
  ∀ cols', cols' ≠ [] → (∀ c ∈ cols', c.Valid ∧ kind c) →
    encodeColumns (cols'.map .column) = encodeColumns (cols.map .column) → Agree cols cols'

/-- A prefix that is not two of them, nor one and the columns behind it -/
structure Indivisible (p : Text) : Prop where
  bar : ∀ u v, p = u ++ '|' :: v → u = [] ∨ v = []
  comma : ∀ u v, p = u ++ ',' :: v → u ≠ [] → ¬ ReadsAsSchema v

/-- No prefixes but one indivisible prefix of the last column -/
def Unmistakable : List Column → Prop
  | [] => True
  | [c] => c.prefixes = [] ∨ ∃ p, c.prefixes = [p] ∧ Indivisible p
  | c :: rest => c.prefixes = [] ∧ Unmistakable rest

theorem encodeColumns_eq_iff {cols cols' : List Column} :
    encodeColumns (cols'.map .column) = encodeColumns (cols.map .column) ↔
      schemaText cols = schemaText cols' := by
  rw [encodeColumns_column, encodeColumns_column, Except.ok.injEq, eq_comm]

/-- The first columns of two lists with one text, and what is left of the text. -/
theorem first_of_schemaText_eq {c d : Column} {cs ds : List Column} (hc : c.Valid) (hd : d.Valid)
    (h : schemaText (c :: cs) = schemaText (d :: ds)) :
    SameColumn c d ∧ c.prefixPart ++ following cs = d.prefixPart ++ following ds := by
  rw [schemaText_cons, schemaText_cons, Column.encode_eq, Column.encode_eq] at h
  refine sameColumn_of_eq hc.colon_not_mem hd.colon_not_mem
    (behind_prefixPart_following c cs) (behind_prefixPart_following d ds) ?_
  simpa using h

theorem following_inj {cs ds : List Column} (h : following cs = following ds) :
    (cs = [] ∧ ds = []) ∨ (cs ≠ [] ∧ ds ≠ [] ∧ schemaText cs = schemaText ds) := by
  rw [following, following] at h
  by_cases hcs : cs = [] <;> by_cases hds : ds = []
  · exact Or.inl ⟨hcs, hds⟩
  · simp [hcs, hds] at h
  · simp [hcs, hds] at h
  · rw [if_neg hcs, if_neg hds] at h
    exact Or.inr ⟨hcs, hds, (List.cons.inj h).2⟩

theorem prefixPart_eq_nil_of_following {c : Column} {cs ds : List Column}
    (h : following cs = c.prefixPart ++ following ds) : c.prefixPart = [] := by
  by_contra hpart
  rw [Column.prefixPart] at h hpart
  split at hpart
  · exact hpart rfl
  · rename_i hsome
    rw [if_neg hsome, following] at h
    split at h
    · simp at h
    · simp at h

theorem prefixes_eq_nil {c : Column} (hother : c.type ≠ 3) (h : c.prefixPart = []) :
    c.prefixes = [] := by
  by_contra hsome
  simp [Column.prefixPart, hother, hsome] at h

theorem prefixPart_of_nil {c : Column} (h : c.prefixes = []) : c.prefixPart = [] := by
  simp [Column.prefixPart, h]

theorem prefixPart_of_ne_nil {c : Column} (hother : c.type ≠ 3) (h : c.prefixes ≠ []) :
    c.prefixPart = ":PREFIX=".toList ++ ['|'].intercalate c.prefixes := by
  simp [Column.prefixPart, hother, h]

/-- An indivisible prefix is read back as it is. -/
theorem Indivisible.eq_of_following {p : Text} (h : Indivisible p) {ps : List Text}
    (hps : ∀ q ∈ ps, q ≠ []) (hne : ps ≠ []) {ds : List Column} (hds : ∀ d ∈ ds, d.Valid)
    (heq : p = ['|'].intercalate ps ++ following ds) : ps = [p] ∧ ds = [] := by
  by_cases hnil : ds = []
  · subst hnil
    rw [following, if_pos rfl, List.append_nil] at heq
    match ps, hne with
    | [q], _ => exact ⟨by simpa using heq.symm, rfl⟩
    | q :: q' :: ps, _ =>
      rw [List.intercalate_cons_cons, List.append_assoc, List.singleton_append] at heq
      rcases h.bar _ _ heq with hq | hrest
      · exact absurd hq (hps q (by simp))
      · exact absurd hrest (intercalate_ne_nil '|' (by simp) fun r hr => hps r (by simp_all))
  · rw [following, if_neg hnil] at heq
    exact absurd (readsAsSchema_schemaText hnil hds)
      (h.comma _ _ heq (intercalate_ne_nil '|' hne hps))

theorem Column.KeepsPrefixes.eq_nil {c : Column} (h : c.KeepsPrefixes) (hpart : c.prefixPart = []) :
    c.prefixes = [] := by
  by_cases hvec : c.type = 3
  · exact h hvec
  · exact prefixes_eq_nil hvec hpart

theorem unprefixed_step {c d : Column} {cs ds : List Column} (hnil : c.prefixes = [])
    (hd : d.KeepsPrefixes)
    (hrest : c.prefixPart ++ following cs = d.prefixPart ++ following ds) :
    c.prefixes = d.prefixes ∧ following cs = following ds := by
  rw [prefixPart_of_nil hnil, List.nil_append] at hrest
  have hpart := prefixPart_eq_nil_of_following hrest
  rw [hpart, List.nil_append] at hrest
  exact ⟨hnil.trans (hd.eq_nil hpart).symm, hrest⟩

section Kind

variable {kind : Column → Prop}

/-- A list is determined among the columns of a kind, if those with the type of one of its
own keep their prefixes. -/
theorem agree_of_unmistakable {cols : List Column} (hread : Unmistakable cols)
    (hvalid : ∀ c ∈ cols, c.Valid ∧ kind c)
    (hkind : ∀ c ∈ cols, ∀ d, kind d → c.type = d.type → d.KeepsPrefixes) (hne : cols ≠ []) :
    ∀ {cols' : List Column}, cols' ≠ [] → (∀ d ∈ cols', d.Valid ∧ kind d) →
      schemaText cols = schemaText cols' → Agree cols cols' := by
  induction cols with
  | nil => exact absurd rfl hne
  | cons c cs ih =>
    intro cols' hne' hvalid' h
    obtain ⟨⟨hc, hckind⟩, hcs⟩ := List.forall_mem_cons.mp hvalid
    obtain ⟨hsame_kind, hcskind⟩ := List.forall_mem_cons.mp hkind
    obtain ⟨d, ds, rfl⟩ := List.exists_cons_of_ne_nil hne'
    obtain ⟨⟨hd, hdkind⟩, hds⟩ := List.forall_mem_cons.mp hvalid'
    obtain ⟨hsame, hrest⟩ := first_of_schemaText_eq hc hd h
    have hkeeps : d.KeepsPrefixes := hsame_kind d hdkind hsame.type
    cases cs with
    | nil =>
      rcases hread with hnil | ⟨p, hp, hindivisible⟩
      · obtain ⟨hprefixes, hfollowing⟩ := unprefixed_step hnil hkeeps hrest
        rcases following_inj hfollowing with ⟨-, rfl⟩ | ⟨hnot, -⟩
        · exact .cons ⟨hsame, hprefixes⟩ .nil
        · exact absurd rfl hnot
      · have hother : c.type ≠ 3 := (hsame_kind c hckind rfl).type_ne (by simp [hp])
        rw [prefixPart_of_ne_nil hother (by simp [hp]), hp] at hrest
        by_cases hd' : d.prefixes = []
        · rw [prefixPart_of_nil hd', List.nil_append] at hrest
          rcases ds with _ | ⟨e, ds⟩ <;> simp [following] at hrest
        · rw [prefixPart_of_ne_nil (hsame.type ▸ hother) hd', List.append_assoc,
            List.append_assoc] at hrest
          have htext : p = ['|'].intercalate d.prefixes ++ following ds := by
            simpa [following] using List.append_cancel_left hrest
          obtain ⟨hprefixes, rfl⟩ :=
            hindivisible.eq_of_following hd.prefixes hd' (fun e he => (hds e he).1) htext
          exact .cons ⟨hsame, hp.trans hprefixes.symm⟩ .nil
    | cons c' cs =>
      obtain ⟨hnil, hread⟩ := hread
      obtain ⟨hprefixes, hfollowing⟩ := unprefixed_step hnil hkeeps hrest
      rcases following_inj hfollowing with ⟨hnot, -⟩ | ⟨hcs', hds', htext⟩
      · cases hnot
      · exact .cons ⟨hsame, hprefixes⟩ (ih hread hcs hcskind hcs' hds' hds htext)

/-! ### Other lists with the same text -/

theorem Column.Valid.withPrefixes {c : Column} (h : c.Valid) {ps : List Text}
    (hps : ∀ p ∈ ps, p ≠ []) : ({ c with prefixes := ps } : Column).Valid := ⟨h.name, hps⟩

/-- The text of a column with other prefixes, when the text of these is the same. -/
theorem encode_withPrefixes {c : Column} (hother : c.type ≠ 3) {ps : List Text} (hps : ps ≠ []) :
    ({ c with prefixes := ps } : Column).encode =
      ({ c with prefixes := [] } : Column).encode ++ (":PREFIX=".toList ++ ['|'].intercalate ps) := by
  by_cases hmax : c.maxBytes > 0 <;> simp [Column.encode, hother, hmax, hps]

theorem SchemaDetermined.agree {cols cols' : List Column} (h : SchemaDetermined kind cols)
    (hne : cols' ≠ []) (hvalid : ∀ c ∈ cols', c.Valid ∧ kind c)
    (htext : schemaText cols = schemaText cols') : Agree cols cols' :=
  h cols' hne hvalid (encodeColumns_eq_iff.mpr htext)

/-- No other prefixes of the first column, with the columns behind it or other ones, have the
text. -/
theorem SchemaDetermined.first {c : Column} {cs : List Column}
    (h : SchemaDetermined kind (c :: cs)) (hc : c.Valid) {ps : List Text} (hps : ∀ p ∈ ps, p ≠ [])
    (hkind : kind { c with prefixes := ps }) {ds : List Column}
    (hds : ∀ d ∈ ds, d.Valid ∧ kind d)
    (htext : c.encode ++ following cs = ({ c with prefixes := ps } : Column).encode ++ following ds) :
    c.prefixes = ps ∧ cs.length = ds.length := by
  have hagree := h.agree (List.cons_ne_nil _ _)
    (List.forall_mem_cons.mpr ⟨⟨hc.withPrefixes hps, hkind⟩, hds⟩)
    (by rw [schemaText_cons, schemaText_cons, htext])
  cases hagree with
  | cons hhead htail => exact ⟨hhead.2, htail.length_eq⟩

theorem SchemaDetermined.tail {c : Column} {cs : List Column}
    (h : SchemaDetermined kind (c :: cs)) (hc : c.Valid ∧ kind c) (hne : cs ≠ []) :
    SchemaDetermined kind cs := by
  intro cols' hne' hvalid' htext
  rw [encodeColumns_eq_iff] at htext
  have hagree := h.agree (List.cons_ne_nil c cols') (List.forall_mem_cons.mpr ⟨hc, hvalid'⟩)
    (by rw [schemaText_cons, schemaText_cons, following, following, if_neg hne, if_neg hne', htext])
  cases hagree with
  | cons _ htail => exact htail

theorem kind_withPrefixes (hkind : ∀ c : Column, c.KeepsPrefixes → kind c) {c : Column}
    (hother : c.type ≠ 3) (ps : List Text) : kind { c with prefixes := ps } :=
  hkind _ (Column.keepsPrefixes_of_other hother)

/-- Joined to one, the prefixes have the same text: there is at most one. -/
theorem SchemaDetermined.one_prefix (hkind : ∀ c : Column, c.KeepsPrefixes → kind c) {c : Column}
    {cs : List Column} (h : SchemaDetermined kind (c :: cs)) (hc : c.Valid)
    (hkeeps : c.KeepsPrefixes) : c.prefixes = [] ∨ cs = [] ∧ ∃ p, c.prefixes = [p] := by
  by_cases hnil : c.prefixes = []
  · exact Or.inl hnil
  have hother : c.type ≠ 3 := hkeeps.type_ne hnil
  have hjoined := intercalate_ne_nil '|' hnil hc.prefixes
  have htext : c.encode ++ following cs =
      ({ c with prefixes := [['|'].intercalate c.prefixes ++ following cs] } : Column).encode ++
        following [] := by
    rw [encode_withPrefixes hother (List.cons_ne_nil _ _)]
    conv_lhs => rw [show c = { c with prefixes := c.prefixes } from rfl,
      encode_withPrefixes hother hnil]
    simp [following]
  obtain ⟨hprefixes, hlength⟩ :=
    h.first hc (by simp [hjoined]) (kind_withPrefixes hkind hother _) (by simp) htext
  exact Or.inr ⟨List.length_eq_zero_iff.mp hlength, _, hprefixes⟩

theorem SchemaDetermined.indivisible (hkind : ∀ c : Column, c.KeepsPrefixes → kind c) {c : Column}
    {p : Text} (h : SchemaDetermined kind [c]) (hc : c.Valid) (hkeeps : c.KeepsPrefixes)
    (hp : c.prefixes = [p]) : Indivisible p := by
  have hother : c.type ≠ 3 := hkeeps.type_ne (by simp [hp])
  have hother_kind := kind_withPrefixes hkind hother
  have hencode : c.encode =
      ({ c with prefixes := [] } : Column).encode ++ (":PREFIX=".toList ++ p) := by
    conv_lhs => rw [show c = { c with prefixes := c.prefixes } from rfl,
      encode_withPrefixes hother (by simp [hp]), hp]
    simp
  constructor
  · intro u v huv
    by_contra hnot
    rw [not_or] at hnot
    have htext : c.encode ++ following [] =
        ({ c with prefixes := [u, v] } : Column).encode ++ following [] := by
      rw [hencode, encode_withPrefixes hother (List.cons_ne_nil _ _), huv]
      simp [List.intercalate_cons_cons]
    have hprefixes := (h.first hc (by simpa using hnot) (hother_kind _) (by simp) htext).1
    rw [hp] at hprefixes
    cases hprefixes
  · intro u v huv hu hv
    obtain ⟨cols, hne, hvalid, rfl⟩ := hv.exists_columns
    have hcols : ∀ d ∈ cols, d.Valid ∧ kind d := fun d hd =>
      ⟨(hvalid d hd).1, hkind d (hvalid d hd).2⟩
    have htext : c.encode ++ following [] =
        ({ c with prefixes := [u] } : Column).encode ++ following cols := by
      rw [hencode, encode_withPrefixes hother (List.cons_ne_nil _ _), huv, following, following,
        if_pos rfl, if_neg hne]
      simp
    have hlength := (h.first hc (by simpa using hu) (hother_kind _) hcols htext).2
    exact hne (List.length_eq_zero_iff.mp hlength.symm)

theorem SchemaDetermined.unmistakable (hkind : ∀ c : Column, c.KeepsPrefixes → kind c)
    {cols : List Column} (h : SchemaDetermined kind cols)
    (hvalid : ∀ c ∈ cols, c.Valid ∧ c.KeepsPrefixes) : Unmistakable cols := by
  induction cols with
  | nil => trivial
  | cons c cs ih =>
    obtain ⟨⟨hc, hkeeps⟩, hcs⟩ := List.forall_mem_cons.mp hvalid
    cases cs with
    | nil =>
      rcases h.one_prefix hkind hc hkeeps with hnil | ⟨-, p, hp⟩
      · exact Or.inl hnil
      · exact Or.inr ⟨p, hp, h.indivisible hkind hc hkeeps hp⟩
    | cons d ds =>
      rcases h.one_prefix hkind hc hkeeps with hnil | ⟨hnot, -⟩
      · exact ⟨hnil, ih (h.tail ⟨hc, hkind c hkeeps⟩ (List.cons_ne_nil d ds)) hcs⟩
      · cases hnot

end Kind

/-- The prefixes of a vector do not show. -/
theorem SchemaDetermined.not_vector {cols : List Column}
    (h : SchemaDetermined (fun _ => True) cols) (hvalid : ∀ c ∈ cols, c.Valid) :
    ∀ c ∈ cols, c.type ≠ 3 := by
  induction cols with
  | nil => exact nofun
  | cons c cs ih =>
    obtain ⟨hc, hcs⟩ := List.forall_mem_cons.mp hvalid
    refine List.forall_mem_cons.mpr ⟨fun hvec => ?_, ?_⟩
    · have hsame : ∀ ps, c.encode = ({ c with prefixes := ps } : Column).encode := fun ps => by
        simp [Column.encode, hvec]
      have hprefixes : ∀ ps, (∀ p ∈ ps, p ≠ []) → c.prefixes = ps := fun ps hps =>
        (h.first hc hps trivial (fun d hd => ⟨hcs d hd, trivial⟩)
          (congrArg (· ++ following cs) (hsame ps))).1
      have hnone := hprefixes [] nofun
      rw [hprefixes [['x']] (by simp)] at hnone
      cases hnone
    · by_cases hne : cs = []
      · subst hne
        exact nofun
      · exact ih (h.tail ⟨hc, trivial⟩ hne) hcs

/-! ### Prefixes without separators -/

/-- No prefix of the column holds a separator, and all of them are written. -/
structure Clean (c : Column) : Prop where
  keeps : c.KeepsPrefixes
  prefixes : ∀ p ∈ c.prefixes, ',' ∉ p ∧ '|' ∉ p

theorem Clean.comma_not_mem {c : Column} (h : Clean c) : ',' ∉ c.prefixPart := by
  rw [Column.prefixPart]
  split
  · simp
  · intro hmem
    rcases List.mem_append.mp hmem with hmem | hmem
    · exact absurd hmem (by decide)
    · rcases Escape.mem_intercalate hmem with heq | ⟨p, hp, hmem⟩
      · cases heq
      · exact (h.prefixes p hp).1 hmem

theorem prefixPart_following_inj {x y : Text} {cs ds : List Column} (hx : ',' ∉ x) (hy : ',' ∉ y)
    (h : x ++ following cs = y ++ following ds) : x = y ∧ following cs = following ds := by
  have hnot : ∀ {z w t : Text}, ',' ∉ z → z ≠ w ++ ',' :: t := by
    rintro z w t hz rfl
    exact hz (by simp)
  rw [following, following] at h ⊢
  by_cases hcs : cs = [] <;> by_cases hds : ds = []
  · simpa [hcs, hds] using h
  · rw [if_pos hcs, if_neg hds, List.append_nil] at h
    exact absurd h (hnot hx)
  · rw [if_neg hcs, if_pos hds, List.append_nil] at h
    exact absurd h.symm (hnot hy)
  · rw [if_neg hcs, if_neg hds] at h ⊢
    obtain ⟨hxy, hrest⟩ := Framing.line_unique hx hy h
    exact ⟨hxy, by rw [hrest]⟩

theorem Clean.prefixes_eq {c d : Column} (hc : Clean c) (hd : Clean d) (htype : c.type = d.type)
    (h : c.prefixPart = d.prefixPart) : c.prefixes = d.prefixes := by
  by_cases hvec : c.type = 3
  · rw [hc.keeps hvec, hd.keeps (htype ▸ hvec)]
  · have hvec' : d.type ≠ 3 := htype ▸ hvec
    by_cases hnil : c.prefixes = []
    · rw [hnil, prefixes_eq_nil hvec' (h ▸ prefixPart_of_nil hnil)]
    · by_cases hnil' : d.prefixes = []
      · exact absurd (prefixes_eq_nil hvec (h.trans (prefixPart_of_nil hnil'))) hnil
      · rw [prefixPart_of_ne_nil hvec hnil, prefixPart_of_ne_nil hvec' hnil'] at h
        have hjoined := List.append_cancel_left h
        rw [← List.splitOn_intercalate '|' (fun p hp => (hc.prefixes p hp).2) hnil, hjoined,
          List.splitOn_intercalate '|' (fun p hp => (hd.prefixes p hp).2) hnil']

theorem agree_of_clean {cols : List Column} (hvalid : ∀ c ∈ cols, c.Valid)
    (hclean : ∀ c ∈ cols, Clean c) (hne : cols ≠ []) :
    ∀ {cols' : List Column}, cols' ≠ [] → (∀ d ∈ cols', d.Valid) → (∀ d ∈ cols', Clean d) →
      schemaText cols = schemaText cols' → Agree cols cols' := by
  induction cols with
  | nil => exact absurd rfl hne
  | cons c cs ih =>
    intro cols' hne' hvalid' hclean' h
    obtain ⟨hc, hcs⟩ := List.forall_mem_cons.mp hvalid
    obtain ⟨hcclean, hcsclean⟩ := List.forall_mem_cons.mp hclean
    obtain ⟨d, ds, rfl⟩ := List.exists_cons_of_ne_nil hne'
    obtain ⟨hd, hds⟩ := List.forall_mem_cons.mp hvalid'
    obtain ⟨hdclean, hdsclean⟩ := List.forall_mem_cons.mp hclean'
    obtain ⟨hsame, hrest⟩ := first_of_schemaText_eq hc hd h
    obtain ⟨hpart, hfollowing⟩ :=
      prefixPart_following_inj hcclean.comma_not_mem hdclean.comma_not_mem hrest
    have hprefixes := hcclean.prefixes_eq hdclean hsame.type hpart
    rcases following_inj hfollowing with ⟨rfl, rfl⟩ | ⟨hcs', hds', htext⟩
    · exact .cons ⟨hsame, hprefixes⟩ .nil
    · exact .cons ⟨hsame, hprefixes⟩ (ih hcs hcsclean hcs' hds' hds hdsclean htext)

/-- **What a schema text determines.** Among lists whose vectors have no prefixes, a list is
determined by its text if and only if it has no prefixes but one indivisible prefix of its
last column; among all lists it must not have a vector either. Two lists whose prefixes hold
no separator are told apart by their texts. -/
theorem schemaTexts_iff (cols : List Column) (hne : cols ≠ []) (hvalid : ∀ c ∈ cols, c.Valid) :
    ((∀ c ∈ cols, c.KeepsPrefixes) →
      (SchemaDetermined Column.KeepsPrefixes cols ↔ Unmistakable cols)) ∧
    (SchemaDetermined (fun _ => True) cols ↔ (∀ c ∈ cols, c.type ≠ 3) ∧ Unmistakable cols) ∧
    ((∀ c ∈ cols, Clean c) → ∀ cols' : List Column, cols' ≠ [] →
      (∀ c ∈ cols', c.Valid ∧ Clean c) →
      encodeColumns (cols'.map .column) = encodeColumns (cols.map .column) →
      Agree cols cols') := by
  refine ⟨fun hkeeps => ⟨fun h => ?_, fun hread cols' hne' hvalid' htext => ?_⟩,
    ⟨fun h => ?_, fun ⟨hother, hread⟩ cols' hne' hvalid' htext => ?_⟩, ?_⟩
  · exact h.unmistakable (fun _ hc => hc) fun c hc => ⟨hvalid c hc, hkeeps c hc⟩
  · exact agree_of_unmistakable hread (fun c hc => ⟨hvalid c hc, hkeeps c hc⟩)
      (fun _ _ _ hd _ => hd) hne hne' hvalid' (encodeColumns_eq_iff.mp htext)
  · have hother := h.not_vector hvalid
    refine ⟨hother, h.unmistakable (fun _ _ => trivial) fun c hc => ⟨hvalid c hc, ?_⟩⟩
    exact Column.keepsPrefixes_of_other (hother c hc)
  · refine agree_of_unmistakable hread (fun c hc => ⟨hvalid c hc, trivial⟩) (fun c hc d _ htype => ?_)
      hne hne' hvalid' (encodeColumns_eq_iff.mp htext)
    exact Column.keepsPrefixes_of_other (htype ▸ hother c hc)
  · intro hclean cols' hne' hboth htext
    exact agree_of_clean hvalid hclean hne hne' (fun c hc => (hboth c hc).1)
      (fun c hc => (hboth c hc).2) (encodeColumns_eq_iff.mp htext)

/-- The columns of a table of documents: no other ones have their text. -/
theorem schemaTexts_documents :
    let cols : List Column :=
      [⟨"id".toList, 0, 0, 0, []⟩, ⟨"embedding".toList, 3, 384, 0, []⟩,
        ⟨"body".toList, 2, 0, 512, ["ref://".toList]⟩]
    SchemaDetermined Column.KeepsPrefixes cols := by
  intro cols
  have hname : ∀ name : Text,
      name.all (fun ch => ch ≠ ':' ∧ ch ≠ ',' ∧ isSpace ch = false) = true →
        ∀ ch ∈ name, ch ≠ ':' ∧ ch ≠ ',' ∧ isSpace ch = false :=
    fun name h ch hch => of_decide_eq_true (List.all_eq_true.mp h ch hch)
  have hvalid : ∀ c ∈ cols, c.Valid := by
    simp only [cols, List.forall_mem_cons]
    refine ⟨⟨hname _ (by decide), nofun⟩, ⟨hname _ (by decide), nofun⟩,
      ⟨hname _ (by decide), ?_⟩, nofun⟩
    simp
  have hkeeps : ∀ c ∈ cols, c.KeepsPrefixes := by
    simp [cols, Column.KeepsPrefixes]
  have hindivisible : Indivisible "ref://".toList := by
    constructor
    · intro u v h
      have hmem : '|' ∈ "ref://".toList := by simp [h]
      exact absurd hmem (by decide)
    · intro u v h
      have hmem : ',' ∈ "ref://".toList := by simp [h]
      exact absurd hmem (by decide)
  exact ((schemaTexts_iff cols (by decide) hvalid).1 hkeeps).mpr
    ⟨rfl, rfl, Or.inr ⟨_, rfl, hindivisible⟩⟩

/-- A prefix with a `|` weakens its constraint to two alternatives, and one with a `,` adds a
column. -/
theorem prefix_text_is_read_otherwise :
    let one : List Column := [⟨"body".toList, 2, 0, 0, ["ref://a|b".toList]⟩]
    let weaker : List Column := [⟨"body".toList, 2, 0, 0, ["ref://a".toList, "b".toList]⟩]
    let single : List Column := [⟨"body".toList, 2, 0, 0, ["ref://,n:0".toList]⟩]
    let double : List Column :=
      [⟨"body".toList, 2, 0, 0, ["ref://".toList]⟩, ⟨"n".toList, 0, 0, 0, []⟩]
    (encodeColumns (one.map .column) = encodeColumns (weaker.map .column) ∧ ¬ Agree one weaker) ∧
      encodeColumns (single.map .column) = encodeColumns (double.map .column) ∧
        ¬ Agree single double := by
  intro one weaker single double
  refine ⟨⟨by decide +kernel, fun h => ?_⟩, by decide +kernel, fun h => ?_⟩
  · have hfirst := (List.forall₂_cons.mp h).1
    cases hfirst.2
  · cases h.length_eq

end CuttleDB.Py
