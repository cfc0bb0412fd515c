import CuttleDB.JsNumbers
import CuttleDB.PyCommands
import Mathlib.Data.Multiset.Filter

/-!
# Predicates

`UPDATE`, `UPDATES`, `DELW` and the `HAVING` clause of `GROUPBY` carry a predicate: an
operator and a number, with which the server compares a cell or an aggregate. The Python
client writes `int(threshold)`, which cuts a fraction off towards zero; the JavaScript
client's `groupBy` writes `parseInt(threshold, 10)`, which reads the number's text and so
also cuts an exponent off.
-/

namespace CuttleDB

open Binary64

/-! ### What a predicate selects -/

/-- `Op` -/
inductive Op where
  | gt
  | lt
  | eq
deriving DecidableEq, Repr

def Op.code : Op → Int
  | .gt => 0
  | .lt => 1
  | .eq => 2

/-- `value op threshold` -/
abbrev Op.Holds (op : Op) (value threshold : Rat) : Prop :=
  match op with
  | .gt => threshold < value
  | .lt => value < threshold
  | .eq => value = threshold

instance (op : Op) (value threshold : Rat) : Decidable (op.Holds value threshold) := by
  cases op
  · exact inferInstanceAs (Decidable (threshold < value))
  · exact inferInstanceAs (Decidable (value < threshold))
  · exact inferInstanceAs (Decidable (value = threshold))

/-- The cells that a predicate selects. -/
def Op.select (op : Op) (threshold : Rat) (cells : Multiset Rat) : Multiset Rat :=
  cells.filter fun value => op.Holds value threshold

/-- `op` tells `a` from `b` at `value`: the value lies between them, at an end that the
operator leaves out for one of them only, or on one of them. -/
def Op.Separates (op : Op) (a b value : Rat) : Prop :=
  match op with
  | .gt => min a b < value ∧ value ≤ max a b
  | .lt => min a b ≤ value ∧ value < max a b
  | .eq => a ≠ b ∧ (value = a ∨ value = b)

theorem Op.holds_iff (op : Op) (a b value : Rat) :
    (op.Holds value b ↔ op.Holds value a) ↔ ¬ op.Separates a b value := by
  cases op with
  | gt =>
    show (b < value ↔ a < value) ↔ ¬ (min a b < value ∧ value ≤ max a b)
    rw [min_lt_iff, le_max_iff]
    grind
  | lt =>
    show (value < b ↔ value < a) ↔ ¬ (min a b ≤ value ∧ value < max a b)
    rw [min_le_iff, lt_max_iff]
    grind
  | eq =>
    show (value = b ↔ value = a) ↔ ¬ (a ≠ b ∧ (value = a ∨ value = b))
    grind

/-- **Two thresholds select the same cells if and only if the operator tells them apart at
none of the cells.** -/
theorem Op.select_eq_iff (op : Op) (a b : Rat) (cells : Multiset Rat) :
    op.select b cells = op.select a cells ↔ ∀ value ∈ cells, ¬ op.Separates a b value := by
  constructor
  · intro heq value hvalue
    rw [← op.holds_iff a b value]
    have hmem : value ∈ op.select b cells ↔ value ∈ op.select a cells := by rw [heq]
    simpa [Op.select, hvalue] using hmem
  · intro hnone
    exact Multiset.filter_congr fun value hvalue => (op.holds_iff a b value).mpr (hnone value hvalue)

/-! ### The server's reading of a command -/

/-- The operator with a code. -/
def op? (s : Text) : Option Op :=
  (number? s).bind fun q =>
    if q = 0 then some .gt else if q = 1 then some .lt else if q = 2 then some .eq else none

/-- An operator and a number in two fields, the first of them `i`. -/
def predicateAt (fields : List Text) (i : Nat) : Option (Op × Rat) :=
  (fields[i]?.bind op?).bind fun op =>
    (fields[i + 1]?.bind number?).map fun threshold => (op, threshold)

/-- The predicate of a command:
`UPDATE <hid> <tid> <set_col> <set_val> <pred_col> <op> <thr>`,
`UPDATES <hid> <tid> <set_col> <pred_col> <op> <thr> <value>`,
`DELW <hid> <tid> <pred_col> <op> <thr>` or `GROUPBY ... HAVING <op> <thr> ...` -/
def predicate? (command : Text) : Option (Op × Rat) :=
  let fields := command.splitOn ' '
  if fields.head? = some "UPDATE".toList then predicateAt fields 6
  else if fields.head? = some "UPDATES".toList then predicateAt fields 5
  else if fields.head? = some "DELW".toList then predicateAt fields 4
  else if fields.head? = some "GROUPBY".toList then
    predicateAt (fields.dropWhile fun field => field ≠ "HAVING".toList) 1
  else none

/-- The call raises, or the command it sends selects the cells with `value op threshold`. -/
def KeepsMeaning {ε : Type} (call : Except ε Text) (op : Op) (threshold : Rat)
    (cells : Multiset Rat) : Prop :=
  ∀ command, call = .ok command → ∃ sentOp number, predicate? command = some (sentOp, number) ∧
    sentOp.select number cells = op.select threshold cells

theorem op?_of_number? {s : Text} {op : Op} (h : number? s = some (op.code : Rat)) :
    op? s = some op := by
  rw [op?, h]
  cases op <;> simp [Op.code]

theorem predicateAt_eq {fields : List Text} {i : Nat} {o n : Text} {op : Op} {q : Rat}
    (ho : fields[i]? = some o) (hn : fields[i + 1]? = some n)
    (hop : number? o = some (op.code : Rat)) (hnumber : number? n = some q) :
    predicateAt fields i = some (op, q) := by
  simp [predicateAt, ho, hn, op?_of_number? hop, hnumber]

/-- A line falls apart into the words of the texts that it is put together from. -/
theorem splitOn_words_flatMap {ws : List Text} (h : ws ≠ []) :
    (Py.words ws).splitOn ' ' = ws.flatMap fun w => w.splitOn ' ' := by
  induction ws with
  | nil => exact absurd rfl h
  | cons t ws ih =>
    cases ws with
    | nil => simp [Py.words]
    | cons u ws =>
      have hline : Py.words (t :: u :: ws) = t ++ ' ' :: Py.words (u :: ws) := by
        simp [Py.words, List.intercalate_cons_cons]
      rw [hline, List.splitOn_append_cons_self, ih (List.cons_ne_nil u ws)]
      rfl

theorem flatMap_splitOn {ws : List Text} (hws : ∀ w ∈ ws, ' ' ∉ w) :
    (ws.flatMap fun w => w.splitOn ' ') = ws := by
  rw [List.flatMap_congr fun w hw => List.splitOn_eq_singleton (hws w hw)]
  exact List.flatMap_singleton' ws

/-- The words of a line, up to the last one, which may hold blanks. -/
theorem splitOn_words {w : List Text} (hw : ∀ t ∈ w, ' ' ∉ t) (v : Text) :
    (Py.words (w ++ [v])).splitOn ' ' = w ++ v.splitOn ' ' := by
  rw [splitOn_words_flatMap (by simp), List.flatMap_append, flatMap_splitOn hw,
    List.flatMap_singleton]

/-- A call that sends its operator and the number `q`. -/
theorem keepsMeaning_iff {ε : Type} {call : Except ε Text} {command : Text} {op : Op} {q : Rat}
    (hcall : call = .ok command) (hsent : predicate? command = some (op, q)) (threshold : Rat)
    (cells : Multiset Rat) :
    KeepsMeaning call op threshold cells ↔
      ∀ value ∈ cells, ¬ op.Separates threshold q value := by
  rw [← op.select_eq_iff threshold q cells]
  constructor
  · intro h
    obtain ⟨sentOp, number, hpredicate, hselect⟩ := h command hcall
    obtain ⟨rfl, rfl⟩ := Prod.mk.inj (Option.some.inj (hsent.symm.trans hpredicate))
    exact hselect
  · intro h command' hcommand
    obtain rfl := Except.ok.inj (hcall.symm.trans hcommand)
    exact ⟨op, q, hsent, h⟩

theorem keepsMeaning_of_error {ε : Type} {call : Except ε Text} {e : ε} (hcall : call = .error e)
    (op : Op) (threshold : Rat) (cells : Multiset Rat) : KeepsMeaning call op threshold cells := by
  rintro command hcommand
  cases hcall.symm.trans hcommand

/-! ### GROUPBY -/

/-- The aggregates of `group_by`. -/
inductive Agg where
  | count
  | sum
  | min
  | max
  | avg
deriving DecidableEq, Repr

def Agg.code : Agg → Int
  | .count => 0
  | .sum => 1
  | .min => 2
  | .max => 3
  | .avg => 4

/-- Why `group_by` raises before it sends anything. -/
inductive GroupByError where
  | unknownAgg
  | requiresAggCol
  | keyError
deriving DecidableEq, Repr

/-- `agg_map`, `aggMap` -/
def aggMap : List (Text × Agg) :=
  [("count".toList, .count), ("sum".toList, .sum), ("min".toList, .min), ("max".toList, .max),
    ("avg".toList, .avg)]

section Aggregates

variable {α γ : Type} [DecidableEq α]

/-- The aggregate, if its name is known, and its column. A count needs none: a placeholder is
sent. -/
def aggregate (count : α) (placeholder : γ) (agg : Option α) (aggCol : Option γ) :
    Except GroupByError (α × γ) :=
  match agg with
  | none => .error .unknownAgg
  | some agg =>
    if agg = count then .ok (agg, aggCol.getD placeholder)
    else
      match aggCol with
      | none => .error .requiresAggCol
      | some aggCol => .ok (agg, aggCol)

/-- The aggregate is unknown, or it needs a column that is not given. -/
def AggregateRefused (count : α) (agg : Option α) (aggCol : Option γ) : Prop :=
  agg = none ∨ agg ≠ some count ∧ aggCol = none

theorem aggregate_cases (count : α) (placeholder : γ) (agg : Option α) (aggCol : Option γ) :
    AggregateRefused count agg aggCol ∧
        (∃ e, aggregate count placeholder agg aggCol = .error e) ∨
      ¬ AggregateRefused count agg aggCol ∧
        ∃ a, aggregate count placeholder agg aggCol = .ok a ∧ agg = some a.1 := by
  rcases agg with _ | agg
  · exact Or.inl ⟨Or.inl rfl, _, rfl⟩
  · by_cases hcount : agg = count <;> cases aggCol <;> simp [AggregateRefused, aggregate, hcount]

end Aggregates

/-- A word of a `GROUPBY` command, not the keyword that `HAVING` is told from. -/
structure IsField (w : Text) : Prop where
  no_space : ' ' ∉ w
  no_keyword : w ≠ "HAVING".toList

/-- A text of which no word is that keyword. -/
def IsFields (t : Text) : Prop := "HAVING".toList ∉ t.splitOn ' '

theorem IsField.isFields {w : Text} (h : IsField w) : IsFields w := by
  rw [IsFields, List.splitOn_eq_singleton h.no_space, List.mem_singleton]
  exact fun heq => h.no_keyword heq.symm

theorem predicate?_groupBy {before after : List Text} {o n : Text} {op : Op} {q : Rat}
    (hbefore : ∀ w ∈ before, IsFields w) (hfields : IsField o ∧ IsField n)
    (hop : number? o = some (op.code : Rat)) (hnumber : number? n = some q) :
    predicate? (Py.words ("GROUPBY".toList :: before ++ ["HAVING".toList, o, n] ++ after)) =
      some (op, q) := by
  have hspaces : ∀ w ∈ ["HAVING".toList, o, n], ' ' ∉ w := by
    intro w hw
    simp only [List.mem_cons, List.not_mem_nil, or_false] at hw
    rcases hw with rfl | rfl | rfl
    · decide
    · exact hfields.1.no_space
    · exact hfields.2.no_space
  have hsplit : (Py.words ("GROUPBY".toList :: before ++ ["HAVING".toList, o, n] ++ after)).splitOn
      ' ' = "GROUPBY".toList :: ((before.flatMap fun w => w.splitOn ' ') ++
        "HAVING".toList :: o :: n :: after.flatMap fun w => w.splitOn ' ') := by
    rw [splitOn_words_flatMap (by simp), List.flatMap_append, List.flatMap_append,
      flatMap_splitOn hspaces, List.flatMap_cons, List.splitOn_eq_singleton (by decide)]
    simp
  have hdrop : ("GROUPBY".toList :: ((before.flatMap fun w => w.splitOn ' ') ++
      "HAVING".toList :: o :: n :: after.flatMap fun w => w.splitOn ' ')).dropWhile
        (fun field => field ≠ "HAVING".toList) =
      "HAVING".toList :: o :: n :: after.flatMap fun w => w.splitOn ' ' := by
    rw [List.dropWhile_cons_of_pos (by decide), List.dropWhile_append_of_pos]
    · rfl
    · intro w hw
      obtain ⟨t, ht, hw⟩ := List.mem_flatMap.mp hw
      refine decide_eq_true ?_
      rintro rfl
      exact hbefore t ht hw
  rw [predicate?, hsplit, List.head?_cons, if_neg (by decide), if_neg (by decide),
    if_neg (by decide), if_pos rfl, hdrop]
  exact predicateAt_eq rfl rfl hop hnumber

/-- A character that separates no words and is not in front of the keyword. -/
def fieldChar (c : Char) : Bool := c != ' ' && c != 'H'

theorem isField_of_all {w : Text} (hw : w.all fieldChar = true) : IsField w := by
  constructor
  · intro hspace
    exact absurd (List.all_eq_true.mp hw ' ' hspace) (by decide)
  · rintro rfl
    exact absurd hw (by decide)

theorem fieldChar_of_isDigit {c : Char} (hc : c.isDigit = true) : fieldChar c = true := by
  simp only [fieldChar, Bool.and_eq_true, bne_iff_ne]
  constructor <;> rintro rfl <;> exact absurd hc (by decide)

theorem intText_isField (i : Int) : IsField (intText i) := by
  apply isField_of_all
  rw [List.all_eq_true]
  intro c hc
  rcases mem_intText hc with hdigit | rfl
  · exact fieldChar_of_isDigit hdigit
  · decide

theorem isField_map {γ : Type} {f : γ → Text} (hf : ∀ x, IsField (f x)) (xs : List γ) :
    ∀ w ∈ xs.map f, IsField w :=
  List.forall_mem_map.mpr fun x _ => hf x

theorem isField_clause {keyword : Text} (hkeyword : IsField keyword) {ws : List Text}
    (hws : ∀ w ∈ ws, IsField w) : ∀ w ∈ keyword :: ws, IsField w :=
  List.forall_mem_cons.mpr ⟨hkeyword, hws⟩

theorem by_isField : IsField "BY".toList := isField_of_all (by decide)

/-! ### The Python client -/

namespace Py

/-- `int(q)`: the fraction is cut off. -/
def int (q : Rat) : Int := q.num.tdiv q.den

/-- A field or a direction of `order`. -/
inductive OrderArg where
  | name (s : Text)
  | code (n : Int)
deriving DecidableEq

/-- `names[arg]` for a name, and `int(arg)` otherwise. -/
def OrderArg.lookup (names : List (Text × Int)) : OrderArg → Except GroupByError Int
  | .name s => ((names.lookup s).map .ok).getD (.error .keyError)
  | .code n => .ok n

/-- The arguments of `group_by` other than `having`. -/
structure GroupBy where
  hid : Int
  tid : Int
  groupCol : Int
  agg : Text
  aggCol : Option Int
  by_ : List Int
  order : Option (OrderArg × OrderArg)
  limit : Option Int

def GroupBy.orderFields (r : GroupBy) : Except GroupByError (List Text) :=
  match r.order with
  | none => .ok []
  | some (oField, oDir) => do
    let field ← oField.lookup [("key".toList, 0), ("value".toList, 1)]
    let dir ← oDir.lookup [("asc".toList, 0), ("desc".toList, 1)]
    return ["ORDER".toList, intText field, intText dir]

/-- The line `group_by` hands to `send`, or what it raises before. -/
def GroupBy.command (r : GroupBy) (having : Option (Op × Rat)) : Except GroupByError Text := do
  let (agg, ac) ← aggregate .count 0 (aggMap.lookup r.agg) r.aggCol
  let cmd := "GROUPBY".toList :: [r.hid, r.tid, r.groupCol, agg.code, ac].map intText
  let cmd := if r.by_ = [] then cmd else cmd ++ "BY".toList :: r.by_.map intText
  let cmd := match having with
    | none => cmd
    | some (op, threshold) => cmd ++ ["HAVING".toList, intText op.code, intText (int threshold)]
  let cmd := cmd ++ (← r.orderFields)
  let cmd := match r.limit with
    | none => cmd
    | some limit => cmd ++ ["LIMIT".toList, intText limit]
  return words cmd

/-- A call with a predicate, and its arguments other than the predicate. -/
inductive PredicateCall where
  | updateWhere (hid tid setCol : Int) (setVal : Rat) (predCol : Int)
  | updateWhereStr (hid tid setCol : Int) (setVal : Text) (predCol : Int)
  | deleteWhere (hid tid predCol : Int)
  | groupBy (r : GroupBy)

def PredicateCall.command (r : PredicateCall) (op : Op) (threshold : Rat) :
    Except GroupByError Text :=
  match r with
  | .updateWhere hid tid setCol setVal predCol =>
    .ok (words ["UPDATE".toList, intText hid, intText tid, intText setCol, intText (int setVal),
      intText predCol, intText op.code, intText (int threshold)])
  | .updateWhereStr hid tid setCol setVal predCol =>
    .ok (words ["UPDATES".toList, intText hid, intText tid, intText setCol, intText predCol,
      intText op.code, intText (int threshold), encodeValue (.str setVal)])
  | .deleteWhere hid tid predCol =>
    .ok (words ["DELW".toList, intText hid, intText tid, intText predCol, intText op.code,
      intText (int threshold)])
  | .groupBy r => r.command (some (op, threshold))

/-- Some name of `order` is not known. -/
def OrderRefused : Option (OrderArg × OrderArg) → Prop
  | none => False
  | some (oField, oDir) =>
    (∃ s, oField = .name s ∧ s ≠ "key".toList ∧ s ≠ "value".toList) ∨
      ∃ s, oDir = .name s ∧ s ≠ "asc".toList ∧ s ≠ "desc".toList

/-- The arguments with which a call raises. -/
def PredicateCall.Refused : PredicateCall → Prop
  | .groupBy r => AggregateRefused .count (aggMap.lookup r.agg) r.aggCol ∨ OrderRefused r.order
  | _ => False

theorem OrderArg.lookup_cases (arg : OrderArg) {a b : Text} (i j : Int) :
    (∃ s, arg = .name s ∧ s ≠ a ∧ s ≠ b) ∧
        (∃ e, arg.lookup [(a, i), (b, j)] = .error e) ∨
      ¬ (∃ s, arg = .name s ∧ s ≠ a ∧ s ≠ b) ∧ ∃ n, arg.lookup [(a, i), (b, j)] = .ok n := by
  cases arg with
  | code n => exact Or.inr ⟨by simp, n, rfl⟩
  | name s =>
    by_cases ha : s = a
    · exact Or.inr ⟨by simp [ha], i, by simp [OrderArg.lookup, ha]⟩
    · have hna : (s == a) = false := beq_false_of_ne ha
      by_cases hb : s = b
      · subst hb
        exact Or.inr ⟨by simp, j, by simp [OrderArg.lookup, hna, List.lookup_cons]⟩
      · have hnb : (s == b) = false := beq_false_of_ne hb
        refine Or.inl ⟨⟨s, rfl, ha, hb⟩, .keyError, ?_⟩
        simp [OrderArg.lookup, hna, hnb, List.lookup_cons]

theorem GroupBy.orderFields_cases (r : GroupBy) :
    OrderRefused r.order ∧ (∃ e, r.orderFields = .error e) ∨
      ¬ OrderRefused r.order ∧ ∃ fields, r.orderFields = .ok fields := by
  rw [GroupBy.orderFields]
  rcases r.order with _ | ⟨oField, oDir⟩
  · exact Or.inr ⟨id, [], rfl⟩
  · have hfield := oField.lookup_cases (a := "key".toList) (b := "value".toList) 0 1
    have hdir := oDir.lookup_cases (a := "asc".toList) (b := "desc".toList) 0 1
    rcases hfield with ⟨hrefused, e, he⟩ | ⟨hfield, field, hok⟩
    · refine Or.inl ⟨Or.inl hrefused, e, ?_⟩
      simp only [he]
      rfl
    · rcases hdir with ⟨hrefused, e, he⟩ | ⟨hdir, dir, hok'⟩
      · refine Or.inl ⟨Or.inr hrefused, e, ?_⟩
        simp only [hok, he]
        rfl
      · refine Or.inr ⟨not_or.mpr ⟨hfield, hdir⟩,
          ["ORDER".toList, intText field, intText dir], ?_⟩
        simp only [hok, hok']
        rfl

/-- **What `group_by` sends.** -/
theorem GroupBy.command_cases (r : GroupBy) (op : Op) (threshold : Rat) :
    (AggregateRefused .count (aggMap.lookup r.agg) r.aggCol ∨ OrderRefused r.order) ∧
        (∃ e, r.command (some (op, threshold)) = .error e) ∨
      ¬ (AggregateRefused .count (aggMap.lookup r.agg) r.aggCol ∨ OrderRefused r.order) ∧
        ∃ command, r.command (some (op, threshold)) = .ok command ∧
          predicate? command = some (op, (int threshold : Rat)) := by
  rcases aggregate_cases .count 0 (aggMap.lookup r.agg) r.aggCol with
    ⟨hrefused, e, he⟩ | ⟨hagg, ⟨agg, ac⟩, hok, -⟩
  · refine Or.inl ⟨Or.inl hrefused, e, ?_⟩
    simp only [GroupBy.command, he]
    rfl
  · rcases r.orderFields_cases with ⟨hrefused, e, he⟩ | ⟨horder, fields, hfields⟩
    · refine Or.inl ⟨Or.inr hrefused, e, ?_⟩
      simp only [GroupBy.command, hok, he]
      rfl
    · refine Or.inr ⟨not_or.mpr ⟨hagg, horder⟩, ?_⟩
      -- the words before the clause, and those behind it
      let before := [r.hid, r.tid, r.groupCol, agg.code, ac].map intText ++
        if r.by_ = [] then [] else "BY".toList :: r.by_.map intText
      let after := fields ++ match r.limit with
        | none => []
        | some limit => ["LIMIT".toList, intText limit]
      have hcommand : r.command (some (op, threshold)) = .ok (words ("GROUPBY".toList :: before ++
          ["HAVING".toList, intText op.code, intText (int threshold)] ++ after)) := by
        simp only [GroupBy.command, hok, hfields, before, after]
        by_cases hby : r.by_ = [] <;> rcases r.limit with _ | limit <;>
          simp [hby, bind, Except.bind, pure, Except.pure]
      have hbefore : ∀ w ∈ before, IsField w := by
        refine List.forall_mem_append.mpr ⟨isField_map intText_isField _, ?_⟩
        split
        · exact List.forall_mem_nil _
        · exact isField_clause by_isField (isField_map intText_isField _)
      exact ⟨_, hcommand, predicate?_groupBy (fun w hw => (hbefore w hw).isFields)
        ⟨intText_isField _, intText_isField _⟩ (number?_intText _) (number?_intText _)⟩

theorem space_not_mem_intText (i : Int) : ' ' ∉ intText i := (intText_isField i).no_space

/-- **A call raises, or it sends its operator and the threshold without its fraction.** -/
theorem PredicateCall.command_cases (r : PredicateCall) (op : Op) (threshold : Rat) :
    r.Refused ∧ (∃ e, r.command op threshold = .error e) ∨
      ¬ r.Refused ∧ ∃ command, r.command op threshold = .ok command ∧
        predicate? command = some (op, (int threshold : Rat)) := by
  cases r with
  | groupBy r => exact r.command_cases op threshold
  | updateWhere hid tid setCol setVal predCol =>
    refine Or.inr ⟨id, _, rfl, ?_⟩
    have hsplit := splitOn_words (w := ["UPDATE".toList, intText hid, intText tid,
      intText setCol, intText (int setVal), intText predCol, intText op.code])
      (by simp [space_not_mem_intText]) (intText (int threshold))
    rw [List.splitOn_eq_singleton (space_not_mem_intText _)] at hsplit
    simp only [List.cons_append, List.nil_append] at hsplit
    rw [predicate?, hsplit]
    exact predicateAt_eq rfl rfl (number?_intText _) (number?_intText _)
  | updateWhereStr hid tid setCol setVal predCol =>
    refine Or.inr ⟨id, _, rfl, ?_⟩
    have hsplit := splitOn_words (w := ["UPDATES".toList, intText hid, intText tid,
      intText setCol, intText predCol, intText op.code, intText (int threshold)])
      (by simp [space_not_mem_intText]) (encodeValue (.str setVal))
    simp only [List.cons_append, List.nil_append] at hsplit
    rw [predicate?, hsplit]
    exact predicateAt_eq rfl rfl (number?_intText _) (number?_intText _)
  | deleteWhere hid tid predCol =>
    refine Or.inr ⟨id, _, rfl, ?_⟩
    have hsplit := splitOn_words (w := ["DELW".toList, intText hid, intText tid,
      intText predCol, intText op.code])
      (by simp [space_not_mem_intText]) (intText (int threshold))
    rw [List.splitOn_eq_singleton (space_not_mem_intText _)] at hsplit
    simp only [List.cons_append, List.nil_append] at hsplit
    rw [predicate?, hsplit]
    exact predicateAt_eq rfl rfl (number?_intText _) (number?_intText _)

/-- **The predicate of a call keeps its meaning if and only if no cell lies between the
threshold and its integer part.** -/
theorem PredicateCall.keepsMeaning_iff (r : PredicateCall) (op : Op) (threshold : Rat)
    (cells : Multiset Rat) :
    KeepsMeaning (r.command op threshold) op threshold cells ↔
      r.Refused ∨ ∀ value ∈ cells, ¬ op.Separates threshold (int threshold) value := by
  rcases r.command_cases op threshold with ⟨hrefused, e, he⟩ | ⟨hnot, command, hok, hsent⟩
  · exact iff_of_true (keepsMeaning_of_error he op threshold cells) (Or.inl hrefused)
  · rw [CuttleDB.keepsMeaning_iff hok hsent threshold cells, or_iff_right hnot]

end Py

/-! ### The JavaScript client -/

namespace Js

/-- A value of a property: one of the object's own, or an inherited one, of which only the
text is used. -/
inductive Property (α : Type) where
  | own (a : α)
  | inherited (text : Text)
deriving DecidableEq

def Property.text {α : Type} (str : α → Text) : Property α → Text
  | .own a => str a
  | .inherited t => t

/-- The text of a function that the engine brings along. -/
def nativeFunction (name : Text) : Text :=
  "function ".toList ++ name ++ "() { [native code] }".toList

/-- What every object inherits. -/
def objectPrototype : List (Text × Text) :=
  ("__proto__".toList, "[object Object]".toList) ::
    ("constructor".toList, nativeFunction "Object".toList) ::
      ["__defineGetter__".toList, "__defineSetter__".toList, "hasOwnProperty".toList,
        "__lookupGetter__".toList, "__lookupSetter__".toList, "isPrototypeOf".toList,
        "propertyIsEnumerable".toList, "toString".toList, "valueOf".toList,
        "toLocaleString".toList].map fun name => (name, nativeFunction name)

/-- `names[s]`, if `s in names`. -/
def property {α : Type} (names : List (Text × α)) (s : Text) : Option (Property α) :=
  match names.lookup s with
  | some a => some (.own a)
  | none => (objectPrototype.lookup s).map .inherited

example : property aggMap "toString".toList =
    some (.inherited "function toString() { [native code] }".toList) := by decide +kernel

/-- A field or a direction of `order`. -/
inductive OrderArg where
  | name (s : Text)
  | number (x : Double)
deriving DecidableEq

/-- `${parseInt(x, 10)}` -/
def integerText (x : Double) : Text := numberText (parseInt (numberText x))

/-- `${names[arg]}` for a name, and `${parseInt(arg, 10)}` for a number. -/
def OrderArg.text (names : List (Text × Int)) : OrderArg → Text
  | .name s => ((property names s).map (Property.text intText)).getD "undefined".toList
  | .number x => integerText x

/-- `${op}` -/
def aggText : Property Agg → Text := Property.text fun agg => numberText (.finite agg.code)

/-- The arguments of `groupBy` other than `having`. -/
structure GroupBy where
  hid : Double
  tid : Double
  groupCol : Double
  agg : Text
  aggCol : Option Double
  by_ : List Double
  order : Option (OrderArg × OrderArg)
  limit : Option Double

/-- The line `groupBy` hands to `send`, or what it throws before. -/
def GroupBy.command (r : GroupBy) (having : Option (Op × Double)) : Except GroupByError Text := do
  let (op, ac) ← aggregate (.own .count) (.finite 0) (property aggMap r.agg) r.aggCol
  let cmd := "GROUPBY".toList ::
    [numberText r.hid, numberText r.tid, numberText r.groupCol, aggText op, numberText ac]
  let cmd := if r.by_ = [] then cmd else cmd ++ "BY".toList :: r.by_.map integerText
  let cmd := match having with
    | none => cmd
    | some (op, threshold) =>
      cmd ++ ["HAVING".toList, integerText (.finite op.code), integerText threshold]
  let cmd := match r.order with
    | none => cmd
    | some (oField, oDir) =>
      cmd ++ ["ORDER".toList, oField.text [("key".toList, 0), ("value".toList, 1)],
        oDir.text [("asc".toList, 0), ("desc".toList, 1)]]
  let cmd := match r.limit with
    | none => cmd
    | some limit => cmd ++ ["LIMIT".toList, integerText limit]
  return Py.words cmd

theorem mem_decimalText {d : Decimal} {c : Char} (hc : c ∈ decimalText d) :
    c.isDigit = true ∨ c = '.' ∨ c = 'e' ∨ c = '+' ∨ c = '-' := by
  have hds : ∀ m : Nat, ∀ c ∈ Nat.toDigits 10 m, c.isDigit = true := fun _ _ hc =>
    isDigit_of_mem_toDigits hc
  have hzeros : ∀ i : Nat, ∀ c ∈ List.replicate i '0', c.isDigit = true := by
    intro i c hc
    obtain rfl := List.eq_of_mem_replicate hc
    decide
  unfold decimalText at hc
  dsimp only at hc
  split at hc
  · rcases List.mem_append.mp hc with hc | hc
    · exact Or.inl (hds _ c hc)
    · exact Or.inl (hzeros _ c hc)
  · split at hc
    · rcases List.mem_append.mp hc with hc | hc
      · exact Or.inl (hds _ c (List.mem_of_mem_take hc))
      · rcases List.mem_cons.mp hc with rfl | hc
        · exact Or.inr (Or.inl rfl)
        · exact Or.inl (hds _ c (List.mem_of_mem_drop hc))
    · split at hc
      · rcases List.mem_cons.mp hc with rfl | hc
        · exact Or.inl (by decide)
        · rcases List.mem_cons.mp hc with rfl | hc
          · exact Or.inr (Or.inl rfl)
          · rcases List.mem_append.mp hc with hc | hc
            · exact Or.inl (hzeros _ c hc)
            · exact Or.inl (hds _ c hc)
      · rcases List.mem_append.mp hc with hc | hc
        · rcases List.mem_append.mp hc with hc | hc
          · exact Or.inl (hds _ c (List.mem_of_mem_take hc))
          · split at hc
            · cases hc
            · rcases List.mem_cons.mp hc with rfl | hc
              · exact Or.inr (Or.inl rfl)
              · exact Or.inl (hds _ c (List.mem_of_mem_tail hc))
        · rcases List.mem_cons.mp hc with rfl | hc
          · exact Or.inr (Or.inr (Or.inl rfl))
          · rcases List.mem_cons.mp hc with rfl | hc
            · split
              · exact Or.inr (Or.inr (Or.inr (Or.inr rfl)))
              · exact Or.inr (Or.inr (Or.inr (Or.inl rfl)))
            · exact Or.inl (hds _ c hc)

theorem fieldChar_of_mem_decimalText {d : Decimal} {c : Char} (hc : c ∈ decimalText d) :
    fieldChar c = true := by
  rcases mem_decimalText hc with hdigit | rfl | rfl | rfl | rfl
  · exact fieldChar_of_isDigit hdigit
  all_goals decide

theorem numberText_isField (x : Double) : IsField (numberText x) := by
  apply isField_of_all
  cases x with
  | nan => decide
  | infinity negative => cases negative <;> decide
  | finite q =>
    rw [List.all_eq_true]
    intro c hc
    unfold numberText at hc
    dsimp only at hc
    split at hc
    · obtain rfl := List.mem_singleton.mp hc
      decide
    · split at hc
      · rcases List.mem_cons.mp hc with rfl | hc
        · decide
        · exact fieldChar_of_mem_decimalText hc
      · exact fieldChar_of_mem_decimalText hc

/-- No inherited property has a text with the keyword. -/
theorem objectPrototype_isFields : ∀ p ∈ objectPrototype, IsFields p.2 := by
  unfold IsFields
  decide +kernel

theorem aggText_isFields {names : List (Text × Agg)} {s : Text} {op : Property Agg}
    (h : property names s = some op) : IsFields (aggText op) := by
  cases op with
  | own agg => exact (numberText_isField (.finite agg.code)).isFields
  | inherited t =>
    rw [property] at h
    split at h
    · cases h
    · obtain ⟨_, hlookup, ⟨⟩⟩ := Option.map_eq_some_iff.mp h
      obtain ⟨before, behind, hprototype, -⟩ := List.lookup_eq_some_iff.mp hlookup
      exact objectPrototype_isFields (s, t) (by simp [hprototype])

/-- The code of an operator is sent as it is. -/
theorem number?_op (op : Op) : number? (integerText (.finite op.code)) = some (op.code : Rat) := by
  have hcode : ∀ n : Nat, n < 2 ^ 52 → wholeNumber (n : Rat) = n := by
    intro n hn
    rcases Nat.eq_zero_or_pos n with rfl | hpos
    · simp [wholeNumber]
    · have hplain := (decimalText_natCast hpos hn).2
      have hvalue := (takeWhile_decimalText (shortest (n : Rat))).2
      rw [List.takeWhile_eq_self_iff.mpr hplain.digits, hplain.value] at hvalue
      have hrat : (0 : Rat) < n := by exact_mod_cast hpos
      rw [wholeNumber, if_neg hrat.ne', if_neg hrat.not_gt, ← hvalue]
  obtain ⟨n, hn, hop⟩ : ∃ n : Nat, n < 2 ^ 52 ∧ op.code = n := by
    cases op
    · exact ⟨0, by norm_num, rfl⟩
    · exact ⟨1, by norm_num, rfl⟩
    · exact ⟨2, by norm_num, rfl⟩
  have hrepresentable : Representable ((op.code : Int) : Rat) := by
    apply ofRat_intCast
    rw [hop, abs_of_nonneg (by positivity)]
    omega
  rw [integerText, number?_parseInt hrepresentable, hop, Int.cast_natCast, hcode n hn,
    Int.cast_natCast]

/-- The calls of `groupBy` that throw before anything is sent. -/
def GroupBy.Refused (r : GroupBy) : Prop :=
  AggregateRefused (.own .count) (property aggMap r.agg) r.aggCol

/-- **What `groupBy` sends.** -/
theorem GroupBy.command_cases (r : GroupBy) (op : Op) {threshold : Rat}
    (h : Representable threshold) :
    r.Refused ∧ (∃ e, r.command (some (op, .finite threshold)) = .error e) ∨
      ¬ r.Refused ∧ ∃ command, r.command (some (op, .finite threshold)) = .ok command ∧
        predicate? command = some (op, (wholeNumber threshold : Rat)) := by
  rcases aggregate_cases (.own .count) (.finite 0) (property aggMap r.agg) r.aggCol with
    ⟨hrefused, e, he⟩ | ⟨hagg, ⟨agg, ac⟩, hok, hname⟩
  · refine Or.inl ⟨hrefused, e, ?_⟩
    simp only [GroupBy.command, he]
    rfl
  · refine Or.inr ⟨hagg, ?_⟩
    let before := [numberText r.hid, numberText r.tid, numberText r.groupCol, aggText agg,
      numberText ac] ++ if r.by_ = [] then [] else "BY".toList :: r.by_.map integerText
    let order := match r.order with
      | none => []
      | some (oField, oDir) =>
        ["ORDER".toList, oField.text [("key".toList, 0), ("value".toList, 1)],
          oDir.text [("asc".toList, 0), ("desc".toList, 1)]]
    let limit := match r.limit with
      | none => []
      | some limit => ["LIMIT".toList, integerText limit]
    have hcommand : r.command (some (op, .finite threshold)) =
        .ok (Py.words ("GROUPBY".toList :: before ++
          ["HAVING".toList, integerText (.finite op.code), integerText (.finite threshold)] ++
            (order ++ limit))) := by
      simp only [GroupBy.command, hok, before, order, limit]
      by_cases hby : r.by_ = [] <;> rcases r.order with _ | ⟨oField, oDir⟩ <;>
        rcases r.limit with _ | limit <;> simp [hby, bind, Except.bind, pure, Except.pure]
    have hnumber : ∀ x, IsFields (numberText x) := fun x => (numberText_isField x).isFields
    have hbefore : ∀ w ∈ before, IsFields w := by
      refine List.forall_mem_append.mpr ⟨?_, ?_⟩
      · simp [hnumber, aggText_isFields hname]
      · split
        · exact List.forall_mem_nil _
        · exact List.forall_mem_cons.mpr ⟨by_isField.isFields,
            List.forall_mem_map.mpr fun c _ => hnumber _⟩
    exact ⟨_, hcommand, predicate?_groupBy hbefore ⟨numberText_isField _, numberText_isField _⟩
      (number?_op op) (number?_parseInt h)⟩

/-- **The `HAVING` clause keeps its meaning if and only if no aggregate lies between the
threshold and what `parseInt` reads of it.** -/
theorem GroupBy.keepsMeaning_iff (r : GroupBy) (op : Op) {threshold : Rat}
    (h : Representable threshold) (cells : Multiset Rat) :
    KeepsMeaning (r.command (some (op, .finite threshold))) op threshold cells ↔
      r.Refused ∨ ∀ value ∈ cells, ¬ op.Separates threshold (wholeNumber threshold) value := by
  rcases r.command_cases op h with ⟨hrefused, e, he⟩ | ⟨hnot, command, hok, hsent⟩
  · exact iff_of_true (keepsMeaning_of_error he op threshold cells) (Or.inl hrefused)
  · rw [CuttleDB.keepsMeaning_iff hok hsent threshold cells, or_iff_right hnot]

end Js

/-- **A predicate keeps its meaning if and only if its call raises or no cell lies between
the threshold and the integer that is sent for it**, in Python the threshold without its
fraction, in JavaScript the integer that the text of the threshold begins with. -/
theorem predicates_keepMeaning_iff (op : Op) (cells : Multiset Rat) :
    (∀ (r : Py.PredicateCall) (threshold : Rat),
      KeepsMeaning (r.command op threshold) op threshold cells ↔
        r.Refused ∨ ∀ value ∈ cells, ¬ op.Separates threshold (Py.int threshold) value) ∧
      ∀ (r : Js.GroupBy) (threshold : { q : Rat // Representable q }),
        KeepsMeaning (r.command (some (op, .finite threshold.1))) op threshold.1 cells ↔
          r.Refused ∨
            ∀ value ∈ cells, ¬ op.Separates threshold.1 (Js.wholeNumber threshold.1) value :=
  ⟨fun r threshold => r.keepsMeaning_iff op threshold cells,
    fun r threshold => r.keepsMeaning_iff op threshold.2 cells⟩

/-- `delete_where(0, 0, 0, Op.LT, 2.5)` leaves a row with a 2. -/
theorem deleteWhere_cuts_threshold :
    ¬ KeepsMeaning ((Py.PredicateCall.deleteWhere 0 0 0).command .lt (5 / 2)) .lt (5 / 2) {2} := by
  rw [Py.PredicateCall.keepsMeaning_iff]
  have hint : Py.int (5 / 2) = 2 := by decide +kernel
  rw [hint]
  simp only [Py.PredicateCall.Refused, Multiset.mem_singleton, forall_eq, false_or, not_not]
  show min (5 / 2 : Rat) ((2 : Int) : Rat) ≤ 2 ∧ (2 : Rat) < max (5 / 2) ((2 : Int) : Rat)
  norm_num

end CuttleDB
