import CuttleDB.Lib.Joined
import CuttleDB.PyCommands

/-!
# What a request line determines

`findc` joins its values by the unit separator and `search` puts ` WHERE ` between its query
and its filter; both write the caller's texts as they are. The file settles which texts the
line still determines, for the command lines of both clients.
-/

namespace CuttleDB

open Joined

/-- Texts without a line feed -/
def LineTexts {α : Type} [Alphabet α] (ts : List (List α)) : Prop := ∀ t ∈ ts, lit '\n' ∉ t

/-! ### JavaScript -/

namespace Js

/-- The line of `findc`. The text of a handle, table or column number is given. -/
def findcCommand (hid tid : List UInt16) (cols values : List (List UInt16)) :
    Except Text (List UInt16) :=
  if cols.length ≠ values.length then .error "findc: cols and values length mismatch".toList
  else
    let colList := [lit ' '].intercalate cols
    let valBlock := [lit '\x1f'].intercalate values
    .ok ("FINDC ".toList.map lit ++ hid ++ lit ' ' :: tid ++
      lit ' ' :: (intText cols.length).map lit ++ lit ' ' :: colList ++ lit ' ' :: valBlock)

/-- The line of `search`. An empty `where` is as none. -/
def searchCommand (hid tid vecCol textCol k : List UInt16) (vec : List (List UInt16))
    (query : List UInt16) (where_ : Option (List UInt16)) : List UInt16 :=
  let v := [lit '|'].intercalate vec
  let cmd := "SEARCH ".toList.map lit ++ hid ++ lit ' ' :: tid ++ lit ' ' :: vecCol ++
    lit ' ' :: textCol ++ lit ' ' :: k ++ lit ' ' :: v ++ " ||| ".toList.map lit ++ query
  match where_ with
  | none => cmd
  | some clause => if clause = [] then cmd else cmd ++ " WHERE ".toList.map lit ++ clause

end Js

/-! ### The queries -/

section Queries

variable {α : Type} [Alphabet α]

/-- ` WHERE ` -/
def whereKeyword : List α := " WHERE ".toList.map lit

theorem length_whereKeyword : (whereKeyword : List α).length = 7 := List.length_map ..

/-- A query and its filter, as both clients write them -/
def searchTail (query : List α) (where_ : Option (List α)) : List α :=
  query ++ if where_.getD [] = [] then [] else whereKeyword ++ where_.getD []

theorem searchTail_some (query : List α) {clause : List α} (h : clause ≠ []) :
    searchTail query (some clause) = query ++ whereKeyword ++ clause := by
  simp [searchTail, h]

/-- The tail of a request determines query and filter. -/
def Determined (query query' : List α) : Prop :=
  ∀ where_ where_' : Option (List α), LineTexts where_.toList → LineTexts where_'.toList →
    searchTail query where_ = searchTail query' where_' →
      query = query' ∧ where_.getD [] = where_'.getD []

theorem determined_of_apart {query query' : List α}
    (hapart : query = query' ∨ KeywordApart whereKeyword query query') :
    Determined query query' := by
  have hnot : ∀ {p q clause : List α}, p = q ∨ KeywordApart whereKeyword p q →
      p ≠ q ++ whereKeyword ++ clause := by
    rintro p q clause hpq rfl
    rcases hpq with heq | hpq
    · have hlength := congrArg List.length heq
      rw [List.length_append, List.length_append, length_whereKeyword] at hlength
      omega
    · exact hpq.2 ((List.prefix_append _ clause).trans (List.prefix_append _ _))
  intro where_ where_' _ _ h
  rw [searchTail, searchTail] at h
  by_cases hw : where_.getD [] = [] <;> by_cases hw' : where_'.getD [] = []
  · rw [if_pos hw, if_pos hw', List.append_nil, List.append_nil] at h
    exact ⟨h, hw.trans hw'.symm⟩
  · rw [if_pos hw, if_neg hw', List.append_nil, ← List.append_assoc] at h
    exact absurd h (hnot hapart)
  · rw [if_neg hw, if_pos hw', List.append_nil, ← List.append_assoc] at h
    exact absurd h.symm (hnot (hapart.imp Eq.symm KeywordApart.symm))
  · rw [if_neg hw, if_neg hw', ← List.append_assoc, ← List.append_assoc] at h
    exact eq_of_append_keyword hapart h

/-- A query that goes on behind the other one's keyword makes a filter of its own text. -/
theorem exists_same_tail {query query' : List α} (hlf : lit '\n' ∉ query')
    (h : query ++ whereKeyword <+: query' ++ whereKeyword.dropLast) :
    ∃ where_ where_' : Option (List α), LineTexts where_.toList ∧ LineTexts where_'.toList ∧
      searchTail query where_ = searchTail query' where_' := by
  obtain ⟨rest, hrest⟩ := h
  have hkeyword : ∀ c : α, c ∈ (whereKeyword : List α) → c ≠ lit '\n' := by
    intro c hc
    obtain ⟨a, ha, rfl⟩ := List.mem_map.mp hc
    have hall : " WHERE ".toList.all (fun a => a ≠ '\n' ∧ a.toNat < 128) = true := by decide
    have hchar := of_decide_eq_true (List.all_eq_true.mp hall a ha)
    exact lit_ne ⟨hchar.1, hchar.2, by decide⟩
  have hrestlf : lit '\n' ∉ rest := by
    intro hmem
    have hmem' : lit '\n' ∈ query' ++ (whereKeyword : List α).dropLast := by
      rw [← hrest]
      exact List.mem_append_right _ hmem
    rcases List.mem_append.mp hmem' with hq | hk
    · exact hlf hq
    · exact hkeyword _ (List.dropLast_subset _ hk) rfl
  have hend : ∀ c ∈ [(lit ' ' : α), lit 'x'], c ≠ lit '\n' := by
    simp only [List.mem_cons, List.not_mem_nil, or_false, forall_eq_or_imp, forall_eq]
    exact ⟨lit_ne (by decide), lit_ne (by decide)⟩
  refine ⟨some (rest ++ [lit ' ', lit 'x']), some [lit 'x'], ?_, ?_, ?_⟩
  · rintro t ht hmem
    obtain rfl := List.mem_singleton.mp ht
    rcases List.mem_append.mp hmem with hmem | hmem
    · exact hrestlf hmem
    · exact hend _ hmem rfl
  · rintro t ht hmem
    obtain rfl := List.mem_singleton.mp ht
    exact hend _ (List.mem_cons_of_mem _ hmem) rfl
  · have hkeyword' : (whereKeyword : List α) = whereKeyword.dropLast ++ [lit ' '] := rfl
    calc searchTail query (some (rest ++ [lit ' ', lit 'x']))
        = query ++ whereKeyword ++ (rest ++ [lit ' ', lit 'x']) := searchTail_some _ (by simp)
      _ = query' ++ whereKeyword.dropLast ++ [lit ' ', lit 'x'] := by
        rw [← List.append_assoc, hrest]
      _ = query' ++ whereKeyword ++ [lit 'x'] := by
        rw [hkeyword', List.dropLast_concat]
        simp
      _ = searchTail query' (some [lit 'x']) := (searchTail_some _ (by simp)).symm

/-- **What the tail of a search determines.** -/
theorem determined_iff {query query' : List α} (hlf : LineTexts [query, query']) :
    Determined query query' ↔ query = query' ∨ KeywordApart whereKeyword query query' := by
  refine ⟨fun h => ?_, determined_of_apart⟩
  by_contra hnot
  rw [not_or, KeywordApart, not_and_or, not_not, not_not] at hnot
  obtain ⟨hne, hpre | hpre⟩ := hnot
  · obtain ⟨where_, where_', hw, hw', hsame⟩ := exists_same_tail (hlf query' (by simp)) hpre
    exact hne (h where_ where_' hw hw' hsame).1
  · obtain ⟨where_', where_, hw', hw, hsame⟩ := exists_same_tail (hlf query (by simp)) hpre
    exact hne (h where_ where_' hw hw' hsame.symm).1

end Queries

/-! ### The values -/

/-- **What a block of values determines.** -/
theorem values_determined_iff {α : Type} [DecidableEq α] [Alphabet α] {values : List (List α)}
    (hlf : LineTexts values) :
    (∀ values' : List (List α), LineTexts values' → values'.length = values.length →
      [lit '\x1f'].intercalate values' = [lit '\x1f'].intercalate values → values' = values) ↔
    values.length ≤ 1 ∨ ∀ v ∈ values, lit '\x1f' ∉ v := by
  constructor
  · intro h
    by_contra hnot
    rw [not_or, Nat.not_le] at hnot
    have hmem : ∃ v ∈ values, lit '\x1f' ∈ v := by simpa using hnot.2
    obtain ⟨values', hlength, hjoined, hne⟩ := exists_ne_intercalate hnot.1 hmem
    refine hne (h values' (fun v hv hn => ?_) hlength hjoined)
    -- a line feed in the other pieces is one of the line
    have hn' := hjoined ▸ Escape.mem_intercalate_of_mem hv hn
    rcases Escape.mem_intercalate hn' with heq | ⟨v', hv', hn'⟩
    · exact lit_ne (by decide) heq
    · exact hlf v' hv' hn'
  · rintro (hshort | hfree) values' _ hlength hjoined
    · match values, values', hlength with
      | [], [], _ => rfl
      | [v], [v'], _ => simpa using hjoined
      | _ :: _ :: _, _, _ => simp at hshort
    · exact eq_of_intercalate hfree hlength hjoined

/-! ### The lines -/

theorem Py.findc_command_eq_iff (hid tid : Int) {cols : List Int} {values values' : List Text}
    (hlength : cols.length = values.length) :
    (Request.findc hid tid cols values').command = (Request.findc hid tid cols values).command ↔
      values'.length = values.length ∧ ['\x1f'].intercalate values' = ['\x1f'].intercalate values := by
  simp only [Request.command]
  rw [if_neg (not_not.mpr hlength)]
  by_cases hsame : values'.length = values.length
  · rw [if_neg (not_not.mpr (hlength.trans hsame.symm))]
    simp [words, List.intercalate_cons_cons, hsame]
  · rw [if_pos fun h => hsame (h.symm.trans hlength)]
    simp [hsame]

theorem Js.findcCommand_eq_iff (hid tid : List UInt16) {cols values values' : List (List UInt16)}
    (hlength : cols.length = values.length) :
    findcCommand hid tid cols values' = findcCommand hid tid cols values ↔
      values'.length = values.length ∧
        [lit '\x1f'].intercalate values' = [lit '\x1f'].intercalate values := by
  unfold findcCommand
  rw [if_neg (not_not.mpr hlength)]
  by_cases hsame : values'.length = values.length
  · rw [if_neg (not_not.mpr (hlength.trans hsame.symm))]
    simp [hsame]
  · rw [if_pos fun h => hsame (h.symm.trans hlength)]
    simp [hsame]

theorem Py.search_command (hid tid vecCol textCol k : Int) (vec : List NumberText) :
    ∃ head, ∀ (query : Text) (where_ : Option Text),
      (Request.search hid tid vecCol textCol k vec query where_).command =
        .ok (head ++ searchTail query where_) := by
  refine ⟨words ["SEARCH".toList, intText hid, intText tid, intText vecCol, intText textCol,
    intText k, ['|'].intercalate (vec.map Subtype.val), "|||".toList, []], fun query where_ => ?_⟩
  have hkeyword : (whereKeyword : Text) = " WHERE ".toList := rfl
  cases where_ with
  | none => simp [Request.command, words, List.intercalate_cons_cons, searchTail]
  | some clause =>
    by_cases hclause : clause = []
    · simp [Request.command, words, List.intercalate_cons_cons, searchTail, hclause]
    · rw [searchTail_some query hclause, hkeyword]
      simp [Request.command, words, List.intercalate_cons_cons, hclause]

theorem Js.searchCommand_eq (hid tid vecCol textCol k : List UInt16) (vec : List (List UInt16)) :
    ∃ head, ∀ (query : List UInt16) (where_ : Option (List UInt16)),
      searchCommand hid tid vecCol textCol k vec query where_ = head ++ searchTail query where_ := by
  unfold searchCommand searchTail whereKeyword
  -- the fixed texts are not to be evaluated
  generalize ("SEARCH ".toList.map lit : List UInt16) = verb
  generalize (" ||| ".toList.map lit : List UInt16) = bars
  generalize (" WHERE ".toList.map lit : List UInt16) = keyword
  refine ⟨verb ++ hid ++ lit ' ' :: tid ++ lit ' ' :: vecCol ++ lit ' ' :: textCol ++
    lit ' ' :: k ++ lit ' ' :: [lit '|'].intercalate vec ++ bars, fun query where_ => ?_⟩
  cases where_ with
  | none => simp
  | some clause => by_cases hclause : clause = [] <;> simp [hclause]

/-- **What the lines of both clients determine.** A line of `findc` determines its values if
and only if there is at most one or none of them holds the separator; the lines of two
queries determine query and filter if and only if neither query goes on behind the other
one's keyword. Primed are the texts of the numbers in JavaScript. -/
theorem requestLines_iff (hid tid vecCol textCol k : Int) (vec : List Py.NumberText)
    (hid' tid' vecCol' textCol' k' : List UInt16) (vec' : List (List UInt16)) :
    (∀ (cols : List Int) (values : List Text), LineTexts values → cols.length = values.length →
      ((∀ values', LineTexts values' → (Py.Request.findc hid tid cols values').command =
          (Py.Request.findc hid tid cols values).command → values' = values) ↔
        values.length ≤ 1 ∨ ∀ v ∈ values, '\x1f' ∉ v)) ∧
    (∀ cols values : List (List UInt16), LineTexts values → cols.length = values.length →
      ((∀ values', LineTexts values' → Js.findcCommand hid' tid' cols values' =
          Js.findcCommand hid' tid' cols values → values' = values) ↔
        values.length ≤ 1 ∨ ∀ v ∈ values, lit '\x1f' ∉ v)) ∧
    (∀ query query' : Text, LineTexts [query, query'] →
      ((∀ where_ where_', LineTexts where_.toList → LineTexts where_'.toList →
          (Py.Request.search hid tid vecCol textCol k vec query where_).command =
            (Py.Request.search hid tid vecCol textCol k vec query' where_').command →
          query = query' ∧ where_.getD [] = where_'.getD []) ↔
        query = query' ∨ KeywordApart whereKeyword query query')) ∧
    (∀ query query' : List UInt16, LineTexts [query, query'] →
      ((∀ where_ where_', LineTexts where_.toList → LineTexts where_'.toList →
          Js.searchCommand hid' tid' vecCol' textCol' k' vec' query where_ =
            Js.searchCommand hid' tid' vecCol' textCol' k' vec' query' where_' →
          query = query' ∧ where_.getD [] = where_'.getD []) ↔
        query = query' ∨ KeywordApart whereKeyword query query')) := by
  refine ⟨?_, ?_, ?_, ?_⟩
  · intro cols values hlf hlength
    simp only [Py.findc_command_eq_iff hid tid hlength, and_imp]
    exact values_determined_iff hlf
  · intro cols values hlf hlength
    simp only [Js.findcCommand_eq_iff hid' tid' hlength, and_imp]
    exact values_determined_iff hlf
  · intro query query' hlf
    obtain ⟨head, hhead⟩ := Py.search_command hid tid vecCol textCol k vec
    simp only [hhead, Except.ok.injEq, List.append_cancel_left_eq]
    exact determined_iff hlf
  · intro query query' hlf
    obtain ⟨head, hhead⟩ := Js.searchCommand_eq hid' tid' vecCol' textCol' k' vec'
    simp only [hhead, List.append_cancel_left_eq]
    exact determined_iff hlf

/-- A value with the separator moves the boundary between two values, and a query with the
keyword is a filter. -/
theorem requestLines_collide :
    (Py.Request.findc 0 1 [2, 3] ["a\x1fb".toList, "c".toList]).command =
        (Py.Request.findc 0 1 [2, 3] ["a".toList, "b\x1fc".toList]).command ∧
      (Py.Request.search 0 0 3 2 5 [] "fox WHERE 4>3".toList none).command =
        (Py.Request.search 0 0 3 2 5 [] "fox".toList (some "4>3".toList)).command ∧
      Js.findcCommand [48] [49] [[50], [51]] [[97, 31, 98], [99]] =
        Js.findcCommand [48] [49] [[50], [51]] [[97], [98, 31, 99]] ∧
      Js.searchCommand [48] [48] [51] [50] [53] [] ("fox WHERE 4>3".toList.map lit) none =
        Js.searchCommand [48] [48] [51] [50] [53] [] ("fox".toList.map lit)
          (some ("4>3".toList.map lit)) := by
  refine ⟨by decide +kernel, by decide +kernel, by decide +kernel, by decide +kernel⟩

end CuttleDB
