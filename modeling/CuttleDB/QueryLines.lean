import CuttleDB.Lib.Clauses
import CuttleDB.Predicates
import CuttleDB.ResultLists
import CuttleDB.SearchRequests

/-!
# The lines of GROUPBY and JOIN

Both clients write a `GROUPBY` or a `JOIN` as a verb, some numbers and clauses, each a keyword
with its numbers; a clause that says what holds anyway is left out. The file reads such lines
back, and compares what the two clients send for the same request: they cut a `HAVING`
threshold differently, JavaScript sends names that it should refuse as words which are no
numbers, and otherwise both send the same line.
-/

namespace CuttleDB

open Binary64

/-! ### What a line asks for -/

inductive Keyword where
  | by_
  | having
  | order
  | limit
  | type
  | op
deriving DecidableEq, Repr

def Keyword.text : Keyword → Text
  | .by_ => "BY".toList
  | .having => "HAVING".toList
  | .order => "ORDER".toList
  | .limit => "LIMIT".toList
  | .type => "TYPE".toList
  | .op => "OP".toList

inductive Verb where
  | groupBy
  | join
deriving DecidableEq, Repr

def Verb.text : Verb → Text
  | .groupBy => "GROUPBY".toList
  | .join => "JOIN".toList

/-- A verb, its arguments, and clauses with theirs. -/
structure Query (α : Type) where
  verb : Verb
  args : List α
  clauses : List (Keyword × List α)
deriving DecidableEq, Repr

namespace Query

def map {α β : Type} (f : α → β) (q : Query α) : Query β :=
  ⟨q.verb, q.args.map f, q.clauses.map fun c => (c.1, c.2.map f)⟩

def traverse {α β : Type} (f : α → Option β) (q : Query α) : Option (Query β) := do
  let args ← q.args.mapM f
  let clauses ← q.clauses.mapM fun c => (c.1, ·) <$> c.2.mapM f
  return ⟨q.verb, args, clauses⟩

/-- All that a query is put together from, but its keywords. -/
def texts {α : Type} (q : Query α) : List α := q.args ++ q.clauses.flatMap Prod.snd

def line (q : Query Text) : Text :=
  Py.words (q.verb.text :: Clauses.render Keyword.text q.args q.clauses)

/-- The words of a query's texts. -/
def expand (q : Query Text) : Query Text :=
  ⟨q.verb, q.args.flatMap fun t => t.splitOn ' ',
    q.clauses.map fun c => (c.1, c.2.flatMap fun t => t.splitOn ' ')⟩

end Query

def keyword? (w : Text) : Option Keyword :=
  [.by_, .having, .order, .limit, .type, .op].find? fun k : Keyword => k.text = w

def verb? (w : Text) : Option Verb := [.groupBy, .join].find? fun verb : Verb => verb.text = w

/-- The verb and the words of a line. -/
def splitQuery (line : Text) : Option (Query Text) :=
  match line.splitOn ' ' with
  | [] => none
  | w :: ws => (verb? w).map fun verb =>
    ⟨verb, (Clauses.parse keyword? ws).1, (Clauses.parse keyword? ws).2⟩

/-- What a line asks for: all its arguments are integers. -/
def readQuery (line : Text) : Option (Query Int) := (splitQuery line).bind (·.traverse intOfText?)

/-- No word of a text is a keyword. -/
def IsArgument (t : Text) : Prop := ∀ w ∈ t.splitOn ' ', keyword? w = none

theorem keyword?_text (k : Keyword) : keyword? k.text = some k := by
  cases k <;> decide

theorem Keyword.splitOn_text (k : Keyword) : k.text.splitOn ' ' = [k.text] :=
  List.splitOn_eq_singleton (by cases k <;> decide)

theorem verb?_text (verb : Verb) : verb? verb.text = some verb := by
  cases verb <;> decide

theorem Verb.splitOn_text (verb : Verb) : verb.text.splitOn ' ' = [verb.text] :=
  List.splitOn_eq_singleton (by cases verb <;> decide)

theorem splitOn_intText (n : Int) : (intText n).splitOn ' ' = [intText n] :=
  List.splitOn_eq_singleton (Py.space_not_mem_intText n)

theorem intText_isArgument (n : Int) : IsArgument (intText n) := by
  intro w hw
  rw [splitOn_intText, List.mem_singleton] at hw
  rw [hw, keyword?, List.find?_eq_none]
  rintro k - hk
  have htext : k.text = intText n := of_decide_eq_true hk
  have hletter : ∃ c, k.text.head? = some c ∧ ¬ (c.isDigit = true ∨ c = '-') := by
    cases k <;> exact ⟨_, rfl, by decide⟩
  obtain ⟨c, hc, hnot⟩ := hletter
  exact hnot (mem_intText (htext ▸ List.mem_of_head? hc))

/-- **A line falls apart into the words that it was put together from.** -/
theorem splitQuery_line {q : Query Text} (h : ∀ t ∈ q.texts, IsArgument t) :
    splitQuery q.line = some q.expand := by
  have hsplit : q.line.splitOn ' ' =
      q.verb.text :: Clauses.render Keyword.text q.expand.args q.expand.clauses := by
    rw [Query.line, splitOn_words_flatMap (List.cons_ne_nil _ _), List.flatMap_cons,
      Verb.splitOn_text, Clauses.flatMap_render Keyword.splitOn_text]
    rfl
  have hargs : ∀ w ∈ q.expand.args, keyword? w = none := by
    intro w hw
    obtain ⟨t, ht, hw⟩ := List.mem_flatMap.mp hw
    exact h t (List.mem_append_left _ ht) w hw
  have hclauses : ∀ c ∈ q.expand.clauses, ∀ w ∈ c.2, keyword? w = none := by
    intro c hc w hw
    obtain ⟨d, hd, rfl⟩ := List.mem_map.mp hc
    obtain ⟨t, ht, hw⟩ := List.mem_flatMap.mp hw
    exact h t (List.mem_append_right _ (List.mem_flatMap.mpr ⟨d, hd, ht⟩)) w hw
  simp only [splitQuery, hsplit, Clauses.parse_render keyword?_text hargs hclauses, verb?_text]
  rfl

theorem mapM_intOfText?_intText (ns : List Int) : (ns.map intText).mapM intOfText? = some ns := by
  induction ns with
  | nil => rfl
  | cons n ns ih =>
    rw [List.map_cons, List.mapM_cons, intOfText?_intText, ih]
    rfl

theorem traverse_map_intText (q : Query Int) : (q.map intText).traverse intOfText? = some q := by
  have hclauses : ∀ clauses : List (Keyword × List Int),
      (clauses.map fun c => (c.1, c.2.map intText)).mapM
        (fun c : Keyword × List Text => (c.1, ·) <$> c.2.mapM intOfText?) = some clauses := by
    intro clauses
    induction clauses with
    | nil => rfl
    | cons c clauses ih =>
      rw [List.map_cons, List.mapM_cons, ih, mapM_intOfText?_intText]
      rfl
  rw [Query.traverse, Query.map, mapM_intOfText?_intText, hclauses]
  rfl

theorem expand_map_intText (q : Query Int) : (q.map intText).expand = q.map intText := by
  have hints : ∀ ns : List Int, ((ns.map intText).flatMap fun t => t.splitOn ' ') =
      ns.map intText := fun ns =>
    flatMap_splitOn (List.forall_mem_map.mpr fun n _ => Py.space_not_mem_intText n)
  rw [Query.expand, Query.map, hints, List.map_map]
  simp only [Function.comp_def, hints]

theorem texts_map {α β : Type} (f : α → β) (q : Query α) : (q.map f).texts = q.texts.map f := by
  simp only [Query.texts, Query.map, List.map_append, List.flatMap_map, List.map_flatMap]

/-- **A line is read as what it asks for.** -/
theorem readQuery_line (q : Query Int) : readQuery (q.map intText).line = some q := by
  have harguments : ∀ t ∈ (q.map intText).texts, IsArgument t := by
    rw [texts_map]
    exact List.forall_mem_map.mpr fun n _ => intText_isArgument n
  rw [readQuery, splitQuery_line harguments, Option.bind_some, expand_map_intText,
    traverse_map_intText]

theorem line_injective {q q' : Query Int} (h : (q.map intText).line = (q'.map intText).line) :
    q = q' := by
  have hread := readQuery_line q
  rw [h, readQuery_line q'] at hread
  exact (Option.some.inj hread).symm

/-! ### Lines that nobody reads -/

theorem mapM_eq_none {α β : Type} {f : α → Option β} {xs : List α} {x : α} (hx : x ∈ xs)
    (hf : f x = none) : xs.mapM f = none := by
  induction xs with
  | nil => cases hx
  | cons y ys ih =>
    rw [List.mapM_cons]
    rcases List.mem_cons.mp hx with rfl | hx
    · rw [hf]
      rfl
    · rw [ih hx]
      cases f y <;> rfl

theorem traverse_eq_none {α β : Type} {f : α → Option β} {q : Query α} {x : α}
    (hx : x ∈ q.texts) (hf : f x = none) : q.traverse f = none := by
  rw [Query.traverse]
  rcases List.mem_append.mp hx with hx | hx
  · rw [mapM_eq_none hx hf]
    rfl
  · obtain ⟨c, hc, hx⟩ := List.mem_flatMap.mp hx
    have hclauses : q.clauses.mapM (fun c => (c.1, ·) <$> c.2.mapM f) = none :=
      mapM_eq_none hc (by rw [mapM_eq_none hx hf]; rfl)
    rw [hclauses]
    cases q.args.mapM f <;> rfl

/-- A text with a word that is no number, and without keywords. -/
structure IsUnreadable (t : Text) : Prop where
  isArgument : IsArgument t
  no_number : ∃ w ∈ t.splitOn ' ', intOfText? w = none

/-- A line with a text that is no number is not read. -/
theorem readQuery_eq_none {q : Query Text} (h : ∀ t ∈ q.texts, IsArgument t) {t : Text}
    (ht : t ∈ q.texts) (hnot : IsUnreadable t) : readQuery q.line = none := by
  obtain ⟨w, hw, hint⟩ := hnot.no_number
  have htexts : w ∈ q.expand.texts := by
    rcases List.mem_append.mp ht with ht | ht
    · exact List.mem_append_left _ (List.mem_flatMap.mpr ⟨t, ht, hw⟩)
    · obtain ⟨c, hc, ht⟩ := List.mem_flatMap.mp ht
      exact List.mem_append_right _ (List.mem_flatMap.mpr
        ⟨_, List.mem_map_of_mem hc, List.mem_flatMap.mpr ⟨t, ht, hw⟩⟩)
  rw [readQuery, splitQuery_line h, Option.bind_some, traverse_eq_none htexts hint]

/-- The call sends a line that is not read as a query. -/
def SendsUnread {ε : Type} (call : Except ε Text) : Prop :=
  ∃ line, call = .ok line ∧ readQuery line = none

theorem undefined_isUnreadable : IsUnreadable "undefined".toList :=
  ⟨by unfold IsArgument; decide +kernel, by decide +kernel⟩

namespace Js

/-- No inherited property is written as a number. -/
theorem objectPrototype_isUnreadable : ∀ p ∈ objectPrototype, IsUnreadable p.2 := by
  have hargument : ∀ p ∈ objectPrototype, ∀ w ∈ p.2.splitOn ' ', keyword? w = none := by
    decide +kernel
  have hnumber : ∀ p ∈ objectPrototype, ∃ w ∈ p.2.splitOn ' ', intOfText? w = none := by
    decide +kernel
  exact fun p hp => ⟨hargument p hp, hnumber p hp⟩

/-- The names that are found in every object. -/
def inherited : List Text := objectPrototype.map Prod.fst

variable {α : Type} {names : List (Text × α)} {s : Text}

theorem property_own {a : α} (h : names.lookup s = some a) : property names s = some (.own a) := by
  rw [property, h]

theorem property_inherited (h : names.lookup s = none) (hs : s ∈ inherited) :
    ∃ t, property names s = some (.inherited t) ∧ IsUnreadable t := by
  have hsome : (objectPrototype.lookup s).isSome = true := by
    rw [List.lookup_isSome_iff]
    obtain ⟨p, hp, rfl⟩ := List.mem_map.mp hs
    exact ⟨p, hp, beq_self_eq_true p.1⟩
  obtain ⟨t, ht⟩ := Option.isSome_iff_exists.mp hsome
  obtain ⟨before, behind, hprototype, -⟩ := List.lookup_eq_some_iff.mp ht
  refine ⟨t, ?_, objectPrototype_isUnreadable (s, t) (by simp [hprototype])⟩
  rw [property, h, ht]
  rfl

theorem property_unknown (h : names.lookup s = none) (hs : s ∉ inherited) :
    property names s = none := by
  have hnone : objectPrototype.lookup s = none := by
    rw [List.lookup_eq_none_iff]
    intro p hp
    refine bne_iff_ne.mpr ?_
    rintro rfl
    exact hs (List.mem_map_of_mem hp)
  rw [property, h, hnone]
  rfl

end Js

/-! ### Requests -/

theorem flatMap_toList_map {β γ δ : Type} (f : β → γ) (g : γ → List δ) (o : Option β) :
    (o.map f).toList.flatMap g = (o.map fun b => g (f b)).getD [] := by
  cases o with
  | none => rfl
  | some b => exact List.append_nil _

/-- An integer that both clients write alike. -/
abbrev Small := { n : Int // |n| < 2 ^ 52 }

theorem abs_zero_small : |(0 : Int)| < 2 ^ 52 := by norm_num

/-- The column that is sent for a count. -/
def Small.zero : Small := ⟨0, abs_zero_small⟩

/-- The arguments of `group_by` and of `groupBy`. -/
structure GroupByRequest where
  hid : Small
  tid : Small
  groupCol : Small
  agg : Text
  aggCol : Option Small
  by_ : List Small
  having : Option (Op × { q : Rat // Representable q })
  order : Option ((Text ⊕ Small) × (Text ⊕ Small))
  limit : Option Small

namespace GroupByRequest

def py (r : GroupByRequest) : Py.GroupBy where
  hid := r.hid.1
  tid := r.tid.1
  groupCol := r.groupCol.1
  agg := r.agg
  aggCol := r.aggCol.map Subtype.val
  by_ := r.by_.map Subtype.val
  order := r.order.map fun o =>
    (o.1.elim .name fun n => .code n.1, o.2.elim .name fun n => .code n.1)
  limit := r.limit.map Subtype.val

def js (r : GroupByRequest) : Js.GroupBy where
  hid := .finite r.hid.1
  tid := .finite r.tid.1
  groupCol := .finite r.groupCol.1
  agg := r.agg
  aggCol := r.aggCol.map fun n => .finite n.1
  by_ := r.by_.map fun n => .finite n.1
  order := r.order.map fun o =>
    (o.1.elim .name fun n => .number (.finite n.1), o.2.elim .name fun n => .number (.finite n.1))
  limit := r.limit.map fun n => .finite n.1

/-- The line that `group_by` sends for a request. -/
def pyCommand (r : GroupByRequest) : Except GroupByError Text :=
  r.py.command (r.having.map fun h => (h.1, h.2.1))

/-- The line that `groupBy` sends for a request. -/
def jsCommand (r : GroupByRequest) : Except GroupByError Text :=
  r.js.command (r.having.map fun h => (h.1, .finite h.2.1))

section Forms

variable {α : Type}

/-- A request with the integers as `number` gives them, `whole` for its threshold, and what
stands for its aggregate and its order. -/
def form (r : GroupByRequest) (number : Int → α) (whole : Rat → Int) (agg : α) (aggCol : Int)
    (order : Option (α × α)) : Query α where
  verb := .groupBy
  args := [number r.hid.1, number r.tid.1, number r.groupCol.1, agg, number aggCol]
  clauses := (if r.by_ = [] then [] else [(.by_, r.by_.map fun n => number n.1)]) ++
    (r.having.map fun h => (Keyword.having, [number h.1.code, number (whole h.2.1)])).toList ++
    (order.map fun o => (Keyword.order, [o.1, o.2])).toList ++
    (r.limit.map fun n => (Keyword.limit, [number n.1])).toList

/-- What is asked for. -/
def query (r : GroupByRequest) (whole : Rat → Int) (agg : Agg) (aggCol : Int)
    (order : Option (Int × Int)) : Query Int :=
  r.form id whole agg.code aggCol order

theorem map_query (r : GroupByRequest) (whole : Rat → Int) (agg : Agg) (aggCol : Int)
    (order : Option (Int × Int)) : (r.query whole agg aggCol order).map intText =
      r.form intText whole (intText agg.code) aggCol
        (order.map fun o => (intText o.1, intText o.2)) := by
  simp only [query, Query.map, form, id_eq, List.map_cons, List.map_nil, List.map_append,
    List.map_map, apply_ite (List.map _), Option.toList_map, Option.map_map, Function.comp_def]

/-- The line, clause by clause. -/
theorem line_form (r : GroupByRequest) (whole : Rat → Int) (agg : Text) (aggCol : Int)
    (order : Option (Text × Text)) :
    (r.form intText whole agg aggCol order).line = Py.words
      ("GROUPBY".toList ::
        [intText r.hid.1, intText r.tid.1, intText r.groupCol.1, agg, intText aggCol] ++
        (if r.by_ = [] then [] else "BY".toList :: r.by_.map fun n => intText n.1) ++
        (r.having.map fun h =>
          ["HAVING".toList, intText h.1.code, intText (whole h.2.1)]).getD [] ++
        (order.map fun o => ["ORDER".toList, o.1, o.2]).getD [] ++
        (r.limit.map fun n => ["LIMIT".toList, intText n.1]).getD []) := by
  have hby : (if r.by_ = [] then [] else
      [(Keyword.by_, r.by_.map fun n => intText n.1)]).flatMap (fun c => c.1.text :: c.2) =
        if r.by_ = [] then [] else "BY".toList :: r.by_.map fun n => intText n.1 := by
    split
    · rfl
    · exact List.flatMap_singleton _ _
  refine congrArg Py.words ?_
  simp only [form, Clauses.render, List.flatMap_append, hby, flatMap_toList_map,
    List.cons_append, List.append_assoc]
  rfl

/-- What is put into the line. -/
theorem forall_mem_texts (r : GroupByRequest) {number : Int → α} {whole : Rat → Int} {agg : α}
    {aggCol : Int} {order : Option (α × α)} {P : α → Prop} (hnumber : ∀ n, P (number n))
    (hagg : P agg) (horder : ∀ o, order = some o → P o.1 ∧ P o.2) :
    ∀ t ∈ (r.form number whole agg aggCol order).texts, P t := by
  refine List.forall_mem_append.mpr ⟨by simp [form, hnumber, hagg], fun t ht => ?_⟩
  obtain ⟨c, hc, ht⟩ := List.mem_flatMap.mp ht
  simp only [form, List.mem_append, Option.mem_toList] at hc
  rcases hc with ((hby | hhaving) | horder') | hlimit
  · split at hby
    · cases hby
    · rw [List.mem_singleton.mp hby] at ht
      obtain ⟨n, -, rfl⟩ := List.mem_map.mp ht
      exact hnumber n.1
  · obtain ⟨h, -, rfl⟩ := Option.map_eq_some_iff.mp hhaving
    rcases List.mem_pair.mp ht with rfl | rfl <;> exact hnumber _
  · obtain ⟨o, ho, rfl⟩ := Option.map_eq_some_iff.mp horder'
    rcases List.mem_pair.mp ht with rfl | rfl
    · exact (horder o ho).1
    · exact (horder o ho).2
  · obtain ⟨n, -, rfl⟩ := Option.map_eq_some_iff.mp hlimit
    rw [List.mem_singleton.mp ht]
    exact hnumber n.1

theorem agg_mem_texts (r : GroupByRequest) (number : Int → α) (whole : Rat → Int) (agg : α)
    (aggCol : Int) (order : Option (α × α)) :
    agg ∈ (r.form number whole agg aggCol order).texts :=
  List.mem_append_left _ (by simp [form])

theorem order_mem_texts (r : GroupByRequest) (number : Int → α) (whole : Rat → Int) (agg : α)
    (aggCol : Int) (o : α × α) :
    o.1 ∈ (r.form number whole agg aggCol (some o)).texts ∧
      o.2 ∈ (r.form number whole agg aggCol (some o)).texts := by
  have hclause : (Keyword.order, [o.1, o.2]) ∈
      (r.form number whole agg aggCol (some o)).clauses := by simp [form]
  constructor <;>
    exact List.mem_append_right _ (List.mem_flatMap.mpr ⟨_, hclause, by simp⟩)

end Forms

/-- A name of `order`, or a number. -/
def orderCode (names : List (Text × Int)) : Text ⊕ Small → Option Int
  | .inl s => names.lookup s
  | .inr n => some n.1

/-- The codes of an order, if its names are known. -/
def orderCodes (order : (Text ⊕ Small) × (Text ⊕ Small)) : Option (Int × Int) :=
  match orderCode [("key".toList, 0), ("value".toList, 1)] order.1,
    orderCode [("asc".toList, 0), ("desc".toList, 1)] order.2 with
  | some field, some dir => some (field, dir)
  | _, _ => none

/-- The codes of the order of a request, if it has one; nothing where a name is unknown. -/
def order? (r : GroupByRequest) : Option (Option (Int × Int)) :=
  match r.order with
  | none => some none
  | some order => (orderCodes order).map some

end GroupByRequest

/-! ### What the clients send for a GROUPBY -/

namespace Js

/-- A decimal that is written in digits only. -/
theorem decimalText_of_isPlain {d : Decimal} {n : Nat} (h : IsPlain (decimalText d) n) :
    decimalText d = Nat.toDigits 10 d.digits ++ List.replicate d.exponent.toNat '0' ∧
      n = d.digits * 10 ^ d.exponent.toNat := by
  by_cases hplain : 0 ≤ d.exponent ∧
      ((Nat.toDigits 10 d.digits).length : Int) + d.exponent ≤ 21
  · have htext : decimalText d =
        Nat.toDigits 10 d.digits ++ List.replicate d.exponent.toNat '0' := if_pos hplain
    refine ⟨htext, ?_⟩
    rw [← h.value, htext, Nat.ofDigitChars_append, Nat.ofDigitChars_ten_toDigits,
      Nat.ofDigitChars_replicate_zero, Nat.mul_comm]
  · exfalso
    have hmark : '.' ∈ decimalText d ∨ 'e' ∈ decimalText d := by
      unfold decimalText
      dsimp only
      rw [if_neg hplain]
      split
      · simp
      · split
        · simp
        · simp
    rcases hmark with hpoint | hexponent
    · exact absurd (h.digits _ hpoint) (by decide)
    · exact absurd (h.digits _ hexponent) (by decide)

theorem ofRat_zero : ofRat 0 = .finite 0 := by
  simpa using ofRat_intCast (n := 0) (by norm_num)

/-- What `parseInt` reads of a positive number is written as `str` prints it. -/
theorem numberText_wholePart {x : Rat} (h : Representable x) (hx : 0 < x) :
    (wholePart (shortest x) = 0 ∧ ofRat (wholePart (shortest x)) = .finite 0) ∨
      0 < wholePart (shortest x) ∧ ∃ y, 0 < y ∧ ofRat (wholePart (shortest x)) = .finite y ∧
        decimalText (shortest y) = Nat.toDigits 10 (wholePart (shortest x)) := by
  rcases ofRat_wholePart h hx with hzero | ⟨y, hy, hread, hplain⟩
  · exact Or.inl ⟨hzero, by rw [hzero, Nat.cast_zero, ofRat_zero]⟩
  · have hpos : 0 < wholePart (shortest x) := by
      refine Nat.pos_of_ne_zero fun hzero => ?_
      rw [hzero, Nat.cast_zero, ofRat_zero] at hread
      exact hy.ne (Double.finite.inj hread)
    obtain ⟨htext, hvalue⟩ := decimalText_of_isPlain hplain
    have hdigits : 0 < (shortest y).digits := by
      refine Nat.pos_of_ne_zero fun hzero => ?_
      rw [hzero, Nat.zero_mul] at hvalue
      exact hpos.ne' hvalue
    exact Or.inr ⟨hpos, y, hy, hread, by rw [htext, hvalue, toDigits_mul_pow hdigits]⟩

/-- **The integer that is sent for a number.** -/
theorem integerText_finite {q : Rat} (h : Representable q) :
    integerText (.finite q) = intText (wholeNumber q) := by
  rw [integerText]
  rcases lt_trichotomy q 0 with hneg | rfl | hpos
  · have hx : 0 < -q := neg_pos.mpr hneg
    have hparse : parseInt (numberText (.finite q)) = (ofRat (wholePart (shortest (-q)))).neg := by
      rw [numberText, if_neg hneg.ne, if_pos hneg, parseInt_neg_decimalText]
    rw [hparse, wholeNumber, if_neg hneg.ne, if_pos hneg]
    rcases numberText_wholePart h.neg hx with ⟨hzero, hread⟩ | ⟨hwhole, y, hy, hread, htext⟩
    · rw [hread, hzero]
      rfl
    · have hyneg : -y < 0 := neg_neg_of_pos hy
      rw [hread, Double.neg, numberText, if_neg hyneg.ne, if_pos hyneg, neg_neg, htext]
      obtain ⟨n, hn⟩ := Nat.exists_eq_succ_of_ne_zero hwhole.ne'
      rw [hn]
      rfl
  · have htext : numberText (.finite 0) = intText 0 := rfl
    have hself : parseInt (intText 0) = .finite 0 := by
      simpa using parseInt_intText ⟨0, by norm_num⟩
    rw [htext, hself]
    rfl
  · have hparse : parseInt (numberText (.finite q)) = ofRat (wholePart (shortest q)) := by
      rw [numberText, if_neg hpos.ne', if_neg hpos.not_gt, parseInt_decimalText]
    rw [hparse, wholeNumber, if_neg hpos.ne', if_neg hpos.not_gt]
    rcases numberText_wholePart h hpos with ⟨hzero, hread⟩ | ⟨-, y, hy, hread, htext⟩
    · rw [hread, hzero]
      rfl
    · rw [hread, numberText, if_neg hy.ne', if_neg hy.not_gt, htext]
      rfl

end Js

theorem Js.integerText_intCast (n : Small) : Js.integerText (.finite n.1) = intText n.1 := by
  have htext := Js.numberText_intCast n.2
  have hexact : |n.1| < 2 ^ 53 := n.2.trans (by norm_num)
  rw [Js.integerText, htext, Js.parseInt_intText ⟨n.1, hexact⟩, htext]

namespace GroupByRequest

theorem py_agg (r : GroupByRequest) : r.py.agg = r.agg := rfl

theorem js_agg (r : GroupByRequest) : r.js.agg = r.agg := rfl

theorem py_lookup (names : List (Text × Int)) (arg : Text ⊕ Small) :
    (arg.elim Py.OrderArg.name fun n => .code n.1).lookup names =
      ((orderCode names arg).map .ok).getD (.error .keyError) := by
  cases arg <;> rfl

/-- The word that `groupBy` sends for a name, or a number, of its order. -/
def jsOrderText (names : List (Text × Int)) (arg : Text ⊕ Small) : Text :=
  (arg.elim Js.OrderArg.name fun n => .number (.finite n.1)).text names

/-- A name that is not known is sent as a text that is no number. -/
theorem jsOrderText_cases (names : List (Text × Int)) (arg : Text ⊕ Small) :
    (∃ n, orderCode names arg = some n ∧ jsOrderText names arg = intText n) ∨
      orderCode names arg = none ∧ IsUnreadable (jsOrderText names arg) := by
  cases arg with
  | inr n => exact Or.inl ⟨n.1, rfl, Js.integerText_intCast n⟩
  | inl s =>
    show (∃ n, names.lookup s = some n ∧
        ((Js.property names s).map (Js.Property.text intText)).getD _ = intText n) ∨
      names.lookup s = none ∧
        IsUnreadable (((Js.property names s).map (Js.Property.text intText)).getD _)
    cases hlookup : names.lookup s with
    | some n => exact Or.inl ⟨n, rfl, by rw [Js.property_own hlookup]; rfl⟩
    | none =>
      refine Or.inr ⟨rfl, ?_⟩
      by_cases hs : s ∈ Js.inherited
      · obtain ⟨t, ht, hunreadable⟩ := Js.property_inherited hlookup hs
        rw [ht]
        exact hunreadable
      · rw [Js.property_unknown hlookup hs]
        exact undefined_isUnreadable

/-- The words of an order as `groupBy` writes them. -/
def jsOrder (order : (Text ⊕ Small) × (Text ⊕ Small)) : Text × Text :=
  (jsOrderText [("key".toList, 0), ("value".toList, 1)] order.1,
    jsOrderText [("asc".toList, 0), ("desc".toList, 1)] order.2)

theorem jsOrder_cases (order : (Text ⊕ Small) × (Text ⊕ Small)) :
    (∃ o, orderCodes order = some o ∧ jsOrder order = (intText o.1, intText o.2)) ∨
      orderCodes order = none ∧ (IsUnreadable (jsOrder order).1 ∨ IsUnreadable (jsOrder order).2) ∧
        IsArgument (jsOrder order).1 ∧ IsArgument (jsOrder order).2 := by
  rw [orderCodes, jsOrder]
  rcases jsOrderText_cases [("key".toList, 0), ("value".toList, 1)] order.1 with
    ⟨field, hfield, htext⟩ | ⟨hfield, htext⟩
  · rcases jsOrderText_cases [("asc".toList, 0), ("desc".toList, 1)] order.2 with
      ⟨dir, hdir, htext'⟩ | ⟨hdir, htext'⟩
    · exact Or.inl ⟨(field, dir), by rw [hfield, hdir], by rw [htext, htext']⟩
    · refine Or.inr ⟨by rw [hfield, hdir], Or.inr htext', ?_, htext'.isArgument⟩
      rw [htext]
      exact intText_isArgument field
  · refine Or.inr ⟨by rw [hfield], Or.inl htext, htext.isArgument, ?_⟩
    rcases jsOrderText_cases [("asc".toList, 0), ("desc".toList, 1)] order.2 with
      ⟨dir, -, htext'⟩ | ⟨-, htext'⟩
    · rw [htext']
      exact intText_isArgument dir
    · exact htext'.isArgument

/-- `group_by` stops at a name that it does not know. -/
theorem py_orderFields (r : GroupByRequest) : r.py.orderFields =
    match r.order with
    | none => .ok []
    | some order =>
      match orderCodes order with
      | some o => .ok ["ORDER".toList, intText o.1, intText o.2]
      | none => .error .keyError := by
  rw [Py.GroupBy.orderFields, py]
  rcases r.order with _ | ⟨field, dir⟩
  · rfl
  · simp only [Option.map_some, py_lookup, orderCodes]
    cases orderCode [("key".toList, 0), ("value".toList, 1)] field <;>
      cases orderCode [("asc".toList, 0), ("desc".toList, 1)] dir <;> rfl

/-- The line of `group_by`, once its aggregate and its order are known. -/
theorem pyCommand_of_order (r : GroupByRequest) {agg : Agg} {aggCol : Int}
    (hagg : aggregate .count 0 (aggMap.lookup r.agg) r.py.aggCol = .ok (agg, aggCol))
    {order : Option (Text × Text)}
    (horder : r.py.orderFields = .ok ((order.map fun o => ["ORDER".toList, o.1, o.2]).getD [])) :
    r.pyCommand = .ok (r.form intText Py.int (intText agg.code) aggCol order).line := by
  simp only [pyCommand, Py.GroupBy.command, py_agg, hagg, horder, line_form]
  clear hagg horder
  obtain ⟨hid, tid, groupCol, agg', aggCol', by_, having, order', limit⟩ := r
  refine congrArg (fun ws => Except.ok (Py.words ws)) ?_
  cases by_ <;> cases having <;> cases limit <;> simp [py]

theorem pyCommand_eq (r : GroupByRequest) {agg : Agg} {aggCol : Int}
    (hagg : aggregate .count 0 (aggMap.lookup r.agg) r.py.aggCol = .ok (agg, aggCol)) :
    r.pyCommand = match r.order? with
      | none => .error .keyError
      | some order => .ok ((r.query Py.int agg aggCol order).map intText).line := by
  have hfields := r.py_orderFields
  cases horder : r.order with
  | none =>
    rw [horder] at hfields
    simp only [order?, horder, map_query]
    exact r.pyCommand_of_order hagg hfields
  | some order =>
    rw [horder] at hfields
    cases hcodes : orderCodes order with
    | none =>
      simp only [hcodes] at hfields
      simp only [order?, horder, hcodes, pyCommand, Py.GroupBy.command, py_agg, hagg, hfields]
      rfl
    | some o =>
      simp only [hcodes] at hfields
      simp only [order?, horder, hcodes, Option.map_some, map_query]
      exact r.pyCommand_of_order hagg hfields

theorem integerText_op (op : Op) : Js.integerText (.finite op.code) = intText op.code :=
  Js.integerText_intCast ⟨op.code, by cases op <;> decide⟩

/-- The line of `groupBy`, once its aggregate is known. -/
theorem jsCommand_eq (r : GroupByRequest) {op : Js.Property Agg} {aggCol : Small}
    (hagg : aggregate (.own .count) (.finite 0) (Js.property aggMap r.agg) r.js.aggCol =
      .ok (op, .finite aggCol.1)) :
    r.jsCommand = .ok (r.form intText Js.wholeNumber (Js.aggText op) aggCol.1
      (r.order.map jsOrder)).line := by
  have hnumber : ∀ n : Small, Js.numberText (.finite n.1) = intText n.1 := fun n =>
    Js.numberText_intCast n.2
  have hthreshold : ∀ q : { q : Rat // Representable q },
      Js.integerText (.finite q.1) = intText (Js.wholeNumber q.1) :=
    fun q => Js.integerText_finite q.2
  have hcols : ∀ cols : List Small, (cols.map fun n => Double.finite n.1).map Js.integerText =
      cols.map fun n => intText n.1 := by
    intro cols
    rw [List.map_map]
    exact List.map_congr_left fun n _ => Js.integerText_intCast n
  simp only [jsCommand, Js.GroupBy.command, js_agg, hagg, line_form]
  clear hagg
  obtain ⟨hid, tid, groupCol, agg', aggCol', by_, having, order, limit⟩ := r
  refine congrArg (fun ws => Except.ok (Py.words ws)) ?_
  cases by_ <;> cases having <;> cases order <;> cases limit <;>
    simp only [js, jsOrder, jsOrderText, hnumber, hcols, hthreshold, integerText_op,
      Js.integerText_intCast, List.map_nil, List.map_eq_nil_iff, reduceIte, reduceCtorEq,
      Option.map_none, Option.map_some, Option.getD_none, Option.getD_some, List.append_nil,
      List.append_assoc]

theorem sendsUnread_form (r : GroupByRequest) {agg : Text} {aggCol : Int}
    {order : Option (Text × Text)} (hagg : IsArgument agg)
    (horder : ∀ o, order = some o → IsArgument o.1 ∧ IsArgument o.2) {t : Text}
    (ht : t ∈ (r.form intText Js.wholeNumber agg aggCol order).texts) (hnot : IsUnreadable t)
    (hcall : r.jsCommand = .ok (r.form intText Js.wholeNumber agg aggCol order).line) :
    SendsUnread r.jsCommand :=
  ⟨_, hcall, readQuery_eq_none (r.forall_mem_texts intText_isArgument hagg horder) ht hnot⟩

theorem jsOrder_isArgument (order : Option ((Text ⊕ Small) × (Text ⊕ Small))) :
    ∀ o, order.map jsOrder = some o → IsArgument o.1 ∧ IsArgument o.2 := by
  intro o ho
  obtain ⟨order, -, rfl⟩ := Option.map_eq_some_iff.mp ho
  rcases jsOrder_cases order with ⟨codes, -, htexts⟩ | ⟨-, -, harguments⟩
  · rw [htexts]
    exact ⟨intText_isArgument _, intText_isArgument _⟩
  · exact harguments

/-- `groupBy` sends a line for an aggregate of its own in any case. -/
theorem jsCommand_cases (r : GroupByRequest) {agg : Agg} {aggCol : Small}
    (hagg : aggregate (.own .count) (.finite 0) (Js.property aggMap r.agg) r.js.aggCol =
      .ok (.own agg, .finite aggCol.1)) :
    (r.order? = none ∧ SendsUnread r.jsCommand) ∨
      ∃ order, r.order? = some order ∧
        r.jsCommand = .ok ((r.query Js.wholeNumber agg aggCol.1 order).map intText).line := by
  have hcode : Js.aggText (.own agg) = intText agg.code :=
    Js.numberText_intCast (by cases agg <;> decide)
  have hline := r.jsCommand_eq hagg
  rw [hcode] at hline
  cases horder : r.order with
  | none =>
    refine Or.inr ⟨none, by rw [order?, horder], ?_⟩
    rw [hline, map_query, horder]
    rfl
  | some order =>
    have hcodes : r.order? = (orderCodes order).map some := by rw [order?, horder]
    rw [hcodes]
    rcases jsOrder_cases order with ⟨o, ho, htexts⟩ | ⟨ho, hunreadable, -⟩
    · refine Or.inr ⟨some o, by rw [ho]; rfl, ?_⟩
      rw [hline, map_query, horder, Option.map_some, Option.map_some, htexts]
    · refine Or.inl ⟨by rw [ho]; rfl, ?_⟩
      obtain ⟨hfield, hdir⟩ := r.order_mem_texts intText Js.wholeNumber (intText agg.code) aggCol.1
        (jsOrder order)
      have hsends : ∀ t ∈ (r.form intText Js.wholeNumber (intText agg.code) aggCol.1
          (some (jsOrder order))).texts, IsUnreadable t → SendsUnread r.jsCommand := by
        intro t ht hnot
        rw [horder, Option.map_some] at hline
        exact r.sendsUnread_form (intText_isArgument _) (jsOrder_isArgument (some order)) ht hnot
          hline
      rcases hunreadable with hunreadable | hunreadable
      · exact hsends _ hfield hunreadable
      · exact hsends _ hdir hunreadable

theorem aggregate_map {α γ δ : Type} [DecidableEq α] (f : γ → δ) (count : α) (placeholder : γ)
    (agg : Option α) (aggCol : Option γ) : aggregate count (f placeholder) agg (aggCol.map f) =
      (aggregate count placeholder agg aggCol).map fun a => (a.1, f a.2) := by
  rcases agg with _ | agg
  · rfl
  · by_cases hcount : agg = count <;> cases aggCol <;> simp [aggregate, hcount, Except.map]

theorem aggregate_own {γ : Type} (placeholder : γ) (agg : Agg) (aggCol : Option γ) :
    aggregate (Js.Property.own .count) placeholder (some (.own agg)) aggCol =
      (aggregate .count placeholder (some agg) aggCol).map fun a => (.own a.1, a.2) := by
  by_cases hcount : agg = .count <;> cases aggCol <;> simp [aggregate, hcount, Except.map]

/-- The aggregate and the column that a request asks for. -/
def aggregate? (r : GroupByRequest) (agg : Agg) : Except GroupByError (Agg × Small) :=
  aggregate .count Small.zero (some agg) r.aggCol

theorem py_aggregate {r : GroupByRequest} {agg : Agg} (h : aggMap.lookup r.agg = some agg) :
    aggregate .count 0 (aggMap.lookup r.agg) r.py.aggCol =
      (r.aggregate? agg).map fun a => (a.1, a.2.1) := by
  rw [h]
  exact aggregate_map (fun n : Small => n.1) .count Small.zero (some agg) r.aggCol

theorem js_aggregate {r : GroupByRequest} {agg : Agg} (h : aggMap.lookup r.agg = some agg) :
    aggregate (.own .count) (.finite 0) (Js.property aggMap r.agg) r.js.aggCol =
      (r.aggregate? agg).map fun a => (.own a.1, .finite a.2.1) := by
  have hzero : Double.finite 0 = (fun n : Small => Double.finite n.1) Small.zero := by
    simp [Small.zero]
  have hmap := aggregate_map (fun n : Small => Double.finite n.1) .count Small.zero (some agg)
    r.aggCol
  rw [Js.property_own h, aggregate_own, hzero]
  refine (congrArg _ hmap).trans ?_
  rw [aggregate?]
  cases aggregate .count Small.zero (some agg) r.aggCol <;> rfl

/-- What both clients make of a request: the same refusals, but for the names that every object
inherits and for the unknown names of an order, for which `groupBy` sends a line that nobody
reads; and otherwise lines that ask for the request, each with its own threshold. -/
def Agrees (r : GroupByRequest) : Prop :=
  match aggMap.lookup r.agg with
  | none => r.pyCommand = .error .unknownAgg ∧
    if r.agg ∉ Js.inherited then r.jsCommand = .error .unknownAgg
    else if r.aggCol = none then r.jsCommand = .error .requiresAggCol
    else SendsUnread r.jsCommand
  | some agg =>
    match r.aggregate? agg, r.order? with
    | .error e, _ => r.pyCommand = .error e ∧ r.jsCommand = .error e
    | .ok _, none => r.pyCommand = .error .keyError ∧ SendsUnread r.jsCommand
    | .ok (agg, aggCol), some order =>
      ∃ line₁ line₂, r.pyCommand = .ok line₁ ∧ r.jsCommand = .ok line₂ ∧
        readQuery line₁ = some (r.query Py.int agg aggCol.1 order) ∧
        readQuery line₂ = some (r.query Js.wholeNumber agg aggCol.1 order) ∧
        (line₁ = line₂ ↔ ∀ op threshold, r.having = some (op, threshold) →
          Py.int threshold.1 = Js.wholeNumber threshold.1)

theorem pyCommand_of_error {r : GroupByRequest} {e : GroupByError}
    (h : aggregate .count 0 (aggMap.lookup r.agg) r.py.aggCol = .error e) :
    r.pyCommand = .error e := by
  simp only [pyCommand, Py.GroupBy.command, py_agg, h]
  rfl

theorem jsCommand_of_error {r : GroupByRequest} {e : GroupByError}
    (h : aggregate (.own .count) (.finite 0) (Js.property aggMap r.agg) r.js.aggCol = .error e) :
    r.jsCommand = .error e := by
  simp only [jsCommand, Js.GroupBy.command, js_agg, h]
  rfl

/-- `groupBy` takes an inherited name for an aggregate. -/
theorem jsCommand_inherited {r : GroupByRequest} (h : aggMap.lookup r.agg = none)
    (hs : r.agg ∈ Js.inherited) :
    if r.aggCol = none then r.jsCommand = .error .requiresAggCol else SendsUnread r.jsCommand := by
  obtain ⟨t, ht, hunreadable⟩ := Js.property_inherited h hs
  cases haggCol : r.aggCol with
  | none =>
    refine if_pos rfl ▸ jsCommand_of_error ?_
    simp [ht, aggregate, js, haggCol]
  | some aggCol =>
    rw [if_neg (Option.some_ne_none aggCol)]
    have hagg : aggregate (.own .count) (.finite 0) (Js.property aggMap r.agg) r.js.aggCol =
        .ok (.inherited t, .finite aggCol.1) := by
      simp [ht, aggregate, js, haggCol]
    have hcall : r.jsCommand =
        .ok (r.form intText Js.wholeNumber t aggCol.1 (r.order.map jsOrder)).line :=
      r.jsCommand_eq hagg
    exact r.sendsUnread_form hunreadable.isArgument (jsOrder_isArgument r.order)
      (r.agg_mem_texts intText Js.wholeNumber t aggCol.1 _) hunreadable hcall

/-- Two lines that ask for the same but their threshold. -/
theorem line_query_inj (r : GroupByRequest) (agg : Agg) (aggCol : Int) (order : Option (Int × Int))
    (whole whole' : Rat → Int) :
    ((r.query whole agg aggCol order).map intText).line =
        ((r.query whole' agg aggCol order).map intText).line ↔
      ∀ op threshold, r.having = some (op, threshold) → whole threshold.1 = whole' threshold.1 := by
  constructor
  · intro hline op threshold hhaving
    have hclauses := congrArg Query.clauses (line_injective hline)
    simpa [query, form, hhaving] using hclauses
  · intro hsame
    have hhaving : (r.having.map fun h => (Keyword.having, [id h.1.code, id (whole h.2.1)])) =
        r.having.map fun h => (Keyword.having, [id h.1.code, id (whole' h.2.1)]) := by
      refine Option.map_congr fun h hh => ?_
      rw [hsame h.1 h.2 hh]
    rw [query, query, form, hhaving, form]

theorem agrees (r : GroupByRequest) : r.Agrees := by
  rw [Agrees]
  cases hname : aggMap.lookup r.agg with
  | none =>
    have hpy : r.pyCommand = .error .unknownAgg := pyCommand_of_error (by rw [hname]; rfl)
    refine ⟨hpy, ?_⟩
    by_cases hs : r.agg ∈ Js.inherited
    · rw [if_neg (not_not.mpr hs)]
      exact jsCommand_inherited hname hs
    · rw [if_pos hs]
      exact jsCommand_of_error (by rw [Js.property_unknown hname hs]; rfl)
  | some agg =>
    have hpy := py_aggregate hname
    have hjs := js_aggregate hname
    dsimp only
    cases hagg : r.aggregate? agg with
    | error e =>
      rw [hagg] at hpy hjs
      exact ⟨pyCommand_of_error hpy, jsCommand_of_error hjs⟩
    | ok a =>
      obtain ⟨agg, aggCol⟩ := a
      rw [hagg] at hpy hjs
      have hsent := r.pyCommand_eq hpy
      rcases r.jsCommand_cases hjs with ⟨horder, hline⟩ | ⟨order, horder, hline⟩
      · rw [horder] at hsent ⊢
        exact ⟨hsent, hline⟩
      · rw [horder] at hsent ⊢
        exact ⟨_, _, hsent, hline, readQuery_line _, readQuery_line _,
          r.line_query_inj agg aggCol.1 order _ _⟩

end GroupByRequest

/-! ### JOIN -/

/-- `how_map` -/
def howMap : List (Text × Int) :=
  [("inner".toList, 0), ("left".toList, 1), ("right".toList, 2), ("full".toList, 3)]

inductive JoinError where
  | unknownHow (how : Text)
deriving DecidableEq, Repr

namespace Py

/-- The arguments of `join`, `op` as `int` gives it. -/
structure Join where
  lHid : Int
  lTid : Int
  lCol : Int
  rHid : Int
  rTid : Int
  rCol : Int
  how : Text
  op : Int

/-- The line that `join` hands to `send`, or what it raises before. -/
def Join.command (r : Join) : Except JoinError Text :=
  match howMap.lookup r.how with
  | none => .error (.unknownHow r.how)
  | some how =>
    let cmd := "JOIN".toList :: [r.lHid, r.lTid, r.lCol, r.rHid, r.rTid, r.rCol].map intText
    let cmd := if how ≠ 0 then cmd ++ ["TYPE".toList, intText how] else cmd
    let cmd := if r.op ≠ Op.eq.code then cmd ++ ["OP".toList, intText r.op] else cmd
    .ok (words cmd)

end Py

namespace Js

/-- The arguments of `join`. -/
structure Join where
  lHid : Double
  lTid : Double
  lCol : Double
  rHid : Double
  rTid : Double
  rCol : Double
  how : Text
  op : Double

/-- The line that `join` hands to `send`, or what it throws before. -/
def Join.command (r : Join) : Except JoinError Text :=
  match property howMap r.how with
  | none => .error (.unknownHow r.how)
  | some how =>
    let cmd := "JOIN".toList :: [r.lHid, r.lTid, r.lCol, r.rHid, r.rTid, r.rCol].map numberText
    let cmd := if how ≠ .own 0 then cmd ++ ["TYPE".toList, how.text intText] else cmd
    let cmd := if r.op ≠ .finite Op.eq.code then cmd ++ ["OP".toList, integerText r.op] else cmd
    .ok (Py.words cmd)

end Js

/-- The arguments of a `join` in both clients. -/
structure JoinRequest where
  lHid : Small
  lTid : Small
  lCol : Small
  rHid : Small
  rTid : Small
  rCol : Small
  how : Text
  op : Small

/-- The kind of a join and its predicate, which are left out where they are an inner join and
an equation. -/
def Query.joinKind (q : Query Int) : Int × Int :=
  (((q.clauses.lookup .type).bind List.head?).getD 0,
    ((q.clauses.lookup .op).bind List.head?).getD Op.eq.code)

namespace JoinRequest

def pyCommand (r : JoinRequest) : Except JoinError Text :=
  Py.Join.command ⟨r.lHid.1, r.lTid.1, r.lCol.1, r.rHid.1, r.rTid.1, r.rCol.1, r.how, r.op.1⟩

def jsCommand (r : JoinRequest) : Except JoinError Text :=
  Js.Join.command ⟨.finite r.lHid.1, .finite r.lTid.1, .finite r.lCol.1, .finite r.rHid.1,
    .finite r.rTid.1, .finite r.rCol.1, r.how, .finite r.op.1⟩

def args (r : JoinRequest) : List Int :=
  [r.lHid.1, r.lTid.1, r.lCol.1, r.rHid.1, r.rTid.1, r.rCol.1]

/-- A request with the integers as `number` gives them, and what stands for its kind. -/
def form {α : Type} (r : JoinRequest) (number : Int → α) (how : Option α) : Query α where
  verb := .join
  args := r.args.map number
  clauses := (how.map fun how => (Keyword.type, [how])).toList ++
    (if r.op.1 ≠ Op.eq.code then [(Keyword.op, [number r.op.1])] else [])

/-- What is asked for, with the kind `how`. -/
def query (r : JoinRequest) (how : Int) : Query Int :=
  r.form id (if how ≠ 0 then some how else none)

theorem map_query (r : JoinRequest) (how : Int) : (r.query how).map intText =
    r.form intText (if how ≠ 0 then some (intText how) else none) := by
  by_cases hhow : how = 0 <;> by_cases hop : r.op.1 = Op.eq.code <;>
    simp [query, Query.map, form, hhow, hop]

theorem joinKind_query (r : JoinRequest) (how : Int) : (r.query how).joinKind = (how, r.op.1) := by
  have htype : (Keyword.type == Keyword.op) = false := by decide
  have hop' : (Keyword.op == Keyword.type) = false := by decide
  by_cases hhow : how = 0 <;> by_cases hop : r.op.1 = Op.eq.code <;>
    simp [query, form, Query.joinKind, hhow, hop, List.lookup_cons, htype, hop']

theorem line_form (r : JoinRequest) (how : Option Text) : (r.form intText how).line =
    Py.words ("JOIN".toList :: r.args.map intText ++
      (how.map fun how => ["TYPE".toList, how]).getD [] ++
      (if r.op.1 ≠ Op.eq.code then ["OP".toList, intText r.op.1] else [])) := by
  have hop : (if r.op.1 ≠ Op.eq.code then [(Keyword.op, [intText r.op.1])] else []).flatMap
      (fun c => c.1.text :: c.2) =
        if r.op.1 ≠ Op.eq.code then ["OP".toList, intText r.op.1] else [] := by
    split
    · exact List.flatMap_singleton _ _
    · rfl
  refine congrArg Py.words ?_
  simp only [form, Clauses.render, List.flatMap_append, hop, flatMap_toList_map,
    List.append_assoc]
  rfl

theorem pyCommand_eq {r : JoinRequest} {how : Int} (h : howMap.lookup r.how = some how) :
    r.pyCommand = .ok ((r.query how).map intText).line := by
  simp only [pyCommand, Py.Join.command, h, map_query, line_form]
  refine congrArg (fun ws => Except.ok (Py.words ws)) ?_
  by_cases hzero : how = 0 <;> by_cases hop : r.op.1 = Op.eq.code <;> simp [hzero, hop, args]

/-- The line of `join` in JavaScript, once its kind is known. -/
theorem jsCommand_eq {r : JoinRequest} {how : Js.Property Int}
    (h : Js.property howMap r.how = some how) :
    r.jsCommand = .ok (r.form intText
      (if how ≠ .own 0 then some (how.text intText) else none)).line := by
  have hnumber : ∀ n : Small, Js.numberText (.finite n.1) = intText n.1 := fun n =>
    Js.numberText_intCast n.2
  have hop : Double.finite (r.op.1 : Rat) ≠ .finite Op.eq.code ↔ r.op.1 ≠ Op.eq.code := by
    simp [Double.finite.injEq]
  simp only [jsCommand, Js.Join.command, h, hop, Js.integerText_intCast, line_form]
  refine congrArg (fun ws => Except.ok (Py.words ws)) ?_
  by_cases hzero : how = .own 0 <;> by_cases hop : r.op.1 = Op.eq.code <;>
    simp [hzero, hop, args, hnumber]

/-- What both clients make of a request: the same line, which asks for it, or none; but for a
name that every object inherits the JavaScript client sends a line that nobody reads. -/
def Agrees (r : JoinRequest) : Prop :=
  match howMap.lookup r.how with
  | none => r.pyCommand = .error (.unknownHow r.how) ∧
    if r.how ∈ Js.inherited then SendsUnread r.jsCommand
    else r.jsCommand = .error (.unknownHow r.how)
  | some how => ∃ line q, r.pyCommand = .ok line ∧ r.jsCommand = .ok line ∧
      readQuery line = some q ∧ q.verb = .join ∧ q.args = r.args ∧ q.joinKind = (how, r.op.1)

theorem forall_mem_texts {α : Type} (r : JoinRequest) {number : Int → α} {how : α} {P : α → Prop}
    (hnumber : ∀ n, P (number n)) (hhow : P how) :
    ∀ t ∈ (r.form number (some how)).texts, P t := by
  refine List.forall_mem_append.mpr ⟨List.forall_mem_map.mpr fun n _ => hnumber n, ?_⟩
  by_cases hop : r.op.1 = Op.eq.code <;> simp [form, hop, hhow, hnumber]

theorem agrees (r : JoinRequest) : r.Agrees := by
  rw [Agrees]
  cases hname : howMap.lookup r.how with
  | none =>
    constructor
    · simp only [pyCommand, Py.Join.command, hname]
    · by_cases hs : r.how ∈ Js.inherited
      · obtain ⟨t, ht, hunreadable⟩ := Js.property_inherited hname hs
        have hcall := jsCommand_eq ht
        rw [if_pos (by simp)] at hcall
        rw [if_pos hs]
        refine ⟨_, hcall, readQuery_eq_none (r.forall_mem_texts intText_isArgument
          hunreadable.isArgument) ?_ hunreadable⟩
        exact List.mem_append_right _ (by simp [form, Js.Property.text])
      · rw [if_neg hs]
        simp only [jsCommand, Js.Join.command, Js.property_unknown hname hs]
  | some how =>
    have hcall := jsCommand_eq (Js.property_own hname)
    have hsame : (if Js.Property.own how ≠ .own 0 then
        some ((Js.Property.own how).text intText) else none) =
          if how ≠ 0 then some (intText how) else none := by
      by_cases hzero : how = 0 <;> simp [hzero, Js.Property.text]
    rw [hsame, ← map_query] at hcall
    exact ⟨_, _, pyCommand_eq hname, hcall, readQuery_line _, rfl, List.map_id _,
      r.joinKind_query how⟩

end JoinRequest

/-- **The lines of both clients.** Every line of a `GROUPBY` or a `JOIN` is read as what it asks
for, and the two clients agree on every request. -/
theorem query_lines : (∀ q : Query Int, readQuery (q.map intText).line = some q) ∧
    (∀ r : GroupByRequest, r.Agrees) ∧ ∀ r : JoinRequest, r.Agrees :=
  ⟨readQuery_line, GroupByRequest.agrees, JoinRequest.agrees⟩

end CuttleDB
