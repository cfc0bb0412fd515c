import CuttleDB.PyReplies
import CuttleDB.ExecStrings

/-!
# The commands of the Python client

The methods that put a string of their caller into a command line. Cell values and
the arguments of string kernels are escaped; the search texts, the values of `find`
and `findc`, kernel names, `WHERE` clauses and tokens are written as they are. A
call is one command line if and only if no string written as it is holds a line
feed.
-/

namespace CuttleDB.Py

/-- What `str` gives for a number. -/
abbrev NumberText := { t : Text // '\n' ∉ t }

def words (ws : List Text) : Text := [' '].intercalate ws

/-- A call of one of the methods, with its arguments. A value that is passed through
`str` is given by its text, `generated` is what `secrets.token_hex` returns. -/
inductive Request where
  | insert (hid tid : Int) (values : List (Cell Char))
  | updateRowStr (hid tid rowId col : Int) (newVal : Text)
  | updateWhereStr (hid tid setCol : Int) (setVal : Text) (predCol op threshold : Int)
  | find (hid tid col : Int) (value : Text)
  | findc (hid tid : Int) (cols : List Int) (values : List Text)
  | lsearch (hid tid col k : Int) (query : Text)
  | bsearch (hid tid k : Int) (expr : Text)
  | search (hid tid vecCol textCol k : Int) (vec : List NumberText) (query : Text)
      (where_ : Option Text)
  | execStrKernel (name a : Text) (b : Option Text)
  | addToken (label : Text) (token : Option Text) (generated : List (Fin 16))

/-- The line a method hands to `send`, or what it raises before. -/
def Request.command : Request → Except PyError Text
  | .insert hid tid values =>
    let csv := [','].intercalate (values.map encodeValue)
    .ok (words ["INSERT".toList, intText hid, intText tid, csv])
  | .updateRowStr hid tid rowId col newVal =>
    .ok (words ["UPDRS".toList, intText hid, intText tid, intText rowId, intText col,
      encodeValue (.str newVal)])
  | .updateWhereStr hid tid setCol setVal predCol op threshold =>
    .ok (words ["UPDATES".toList, intText hid, intText tid, intText setCol, intText predCol,
      intText op, intText threshold, encodeValue (.str setVal)])
  | .find hid tid col value =>
    .ok (words ["FIND".toList, intText hid, intText tid, intText col, value])
  | .findc hid tid cols values =>
    if cols.length ≠ values.length then .error (.cuttleDBError .findcLengthMismatch)
    else
      let colList := words (cols.map intText)
      let valBlock := ['\x1f'].intercalate values
      .ok (words ["FINDC".toList, intText hid, intText tid, intText cols.length, colList, valBlock])
  | .lsearch hid tid col k query =>
    .ok (words ["LSEARCH".toList, intText hid, intText tid, intText col, intText k, query])
  | .bsearch hid tid k expr =>
    .ok (words ["BSEARCH".toList, intText hid, intText tid, intText k, expr])
  | .search hid tid vecCol textCol k vec query where_ =>
    let v := ['|'].intercalate (vec.map Subtype.val)
    let cmd := words ["SEARCH".toList, intText hid, intText tid, intText vecCol, intText textCol,
      intText k, v, "|||".toList, query]
    match where_ with
    | none => .ok cmd
    | some clause => .ok (if clause = [] then cmd else cmd ++ " WHERE ".toList ++ clause)
  | .execStrKernel name a b =>
    let aEnc := encodeExecStr a
    match b with
    | none => .ok (words ["EXEC".toList, name, aEnc])
    | some b => .ok (words ["EXEC".toList, name, aEnc ++ ';' :: encodeExecStr b])
  | .addToken label token generated =>
    let token := token.getD (generated.map fun d => Nat.digitChar d)
    if ' ' ∈ label ∨ ' ' ∈ token then .error .valueError
    else .ok (words ["TOKEN".toList, "ADD".toList, label, token])

def Request.run (r : Request) (c : Conn) : Except PyError Text × Conn :=
  match r.command with
  | .error e => (.error e, c)
  | .ok command => send command c

/-- The strings that the caller passes and the method writes as they are. -/
def Request.interpolated : Request → List Text
  | .insert _ _ values => values.flatMap fun
    | .str _ => []
    | .list items => items
  | .updateRowStr .. => []
  | .updateWhereStr .. => []
  | .find _ _ _ value => [value]
  | .findc _ _ _ values => values
  | .lsearch _ _ _ _ query => [query]
  | .bsearch _ _ _ expr => [expr]
  | .search _ _ _ _ _ _ query where_ => query :: where_.toList
  | .execStrKernel name _ _ => [name]
  | .addToken label token _ => label :: token.toList

/-! ### Line feeds -/

theorem not_mem_replace {α : Type} [DecidableEq α] {a : α} {r : List α} (h : a ∉ r)
    (s : List α) : a ∉ replace a r s := by
  intro hmem
  obtain ⟨c, -, hc⟩ := List.mem_flatMap.mp hmem
  split at hc
  · exact h hc
  · rename_i hne
    exact hne (List.mem_singleton.mp hc).symm

@[simp] theorem lf_not_mem_encodeStr (s : Text) : '\n' ∉ encodeValue (.str s) :=
  not_mem_replace (by decide) _

@[simp] theorem lf_not_mem_encodeExecStr (s : Text) : '\n' ∉ encodeExecStr s :=
  not_mem_replace (by decide) _

@[simp] theorem lf_not_mem_intText (i : Int) : '\n' ∉ intText i :=
  lf_not_mem_of_isSpace (intText_isWord i).2

theorem lf_not_mem_intercalate {sep : Char} (hsep : '\n' ≠ sep) {ps : List Text} :
    '\n' ∉ [sep].intercalate ps ↔ ∀ p ∈ ps, '\n' ∉ p := by
  constructor
  · intro h p hp hmem
    exact h (Escape.mem_intercalate_of_mem hp hmem)
  · intro h hmem
    rcases Escape.mem_intercalate hmem with heq | ⟨p, hp, hmem⟩
    · exact hsep heq
    · exact h p hp hmem

@[simp] theorem lf_not_mem_words {ws : List Text} : '\n' ∉ words ws ↔ ∀ w ∈ ws, '\n' ∉ w :=
  lf_not_mem_intercalate (by decide)

theorem lf_not_mem_insertRow (hid tid : Int) (values : List (Cell Char)) :
    '\n' ∉ [','].intercalate (values.map encodeValue) ↔
      ∀ t ∈ (Request.insert hid tid values).interpolated, '\n' ∉ t := by
  rw [lf_not_mem_intercalate (by decide)]
  constructor
  · intro h t ht
    obtain ⟨v, hv, ht⟩ := List.mem_flatMap.mp ht
    cases v with
    | str s => cases ht
    | list items =>
      have hitems := h _ (List.mem_map_of_mem hv)
      exact (lf_not_mem_intercalate (by decide)).mp hitems t ht
  · intro h p hp
    obtain ⟨v, hv, rfl⟩ := List.mem_map.mp hp
    cases v with
    | str s => exact lf_not_mem_encodeStr s
    | list items =>
      apply (lf_not_mem_intercalate (by decide)).mpr
      exact fun t ht => h t (List.mem_flatMap.mpr ⟨_, hv, ht⟩)

theorem lf_not_mem_command {r : Request} {command : Text} (h : r.command = .ok command) :
    '\n' ∉ command ↔ ∀ t ∈ r.interpolated, '\n' ∉ t := by
  cases r with
  | insert hid tid values =>
    obtain rfl := Except.ok.inj h
    have hrow := lf_not_mem_insertRow hid tid values
    simpa using hrow
  | updateRowStr hid tid rowId col newVal =>
    obtain rfl := Except.ok.inj h
    simp [Request.interpolated]
  | updateWhereStr hid tid setCol setVal predCol op threshold =>
    obtain rfl := Except.ok.inj h
    simp [Request.interpolated]
  | find hid tid col value =>
    obtain rfl := Except.ok.inj h
    simp [Request.interpolated]
  | findc hid tid cols values =>
    rw [Request.command] at h
    split at h
    · cases h
    · obtain rfl := Except.ok.inj h
      have hvalues := @lf_not_mem_intercalate '\x1f' (by decide) values
      simpa [Request.interpolated] using hvalues
  | lsearch hid tid col k query =>
    obtain rfl := Except.ok.inj h
    simp [Request.interpolated]
  | bsearch hid tid k expr =>
    obtain rfl := Except.ok.inj h
    simp [Request.interpolated]
  | search hid tid vecCol textCol k vec query where_ =>
    have hvec : '\n' ∉ ['|'].intercalate vec.unattach := by
      rw [lf_not_mem_intercalate (by decide)]
      intro t ht
      obtain ⟨hlf, -⟩ := List.mem_unattach.mp ht
      exact hlf
    cases where_ with
    | none =>
      obtain rfl := Except.ok.inj h
      simp [Request.interpolated, hvec]
    | some clause =>
      obtain rfl := Except.ok.inj h
      by_cases hclause : clause = []
      · simp [Request.interpolated, hvec, hclause]
      · simp [Request.interpolated, hvec, hclause]
  | execStrKernel name a b =>
    cases b with
    | none =>
      obtain rfl := Except.ok.inj h
      simp [Request.interpolated]
    | some b =>
      obtain rfl := Except.ok.inj h
      simp [Request.interpolated]
  | addToken label token generated =>
    rw [Request.command] at h
    split at h
    · cases h
    · obtain rfl := Except.ok.inj h
      cases token with
      | none => simp [Request.interpolated]
      | some token => simp [Request.interpolated]

/-! ### One line for each call -/

/-- The bytes hold one line feed, at the very end. -/
def OneLine (bytes : Bytes) : Prop := ∃ line, bytes = line ++ [LF] ∧ LF ∉ line

theorem lf_not_mem_encode_iff {t : Text} : LF ∉ Utf8.encode t ↔ '\n' ∉ t := by
  have hcount := Utf8.count_encode (c := '\n') (by decide) t
  rw [← List.count_eq_zero, ← List.count_eq_zero, ← hcount]
  rfl

theorem oneLine_encode {command : Text} :
    OneLine (Utf8.encode (command ++ ['\n'])) ↔ '\n' ∉ command := by
  have hbytes : Utf8.encode (command ++ ['\n']) = Utf8.encode command ++ [LF] :=
    Utf8.encode_append command ['\n']
  rw [← lf_not_mem_encode_iff, hbytes]
  constructor
  · rintro ⟨line, heq, hlf⟩
    rwa [(List.append_inj' heq rfl).1]
  · exact fun h => ⟨_, rfl, h⟩

theorem send_sent {c : Conn} (hopen : c.sock ≠ none) (command : Text) :
    (send command c).2.sent = c.sent ++ Utf8.encode (command ++ ['\n']) := by
  obtain ⟨c₁, hwrite, -, hsent, -⟩ := write_open hopen (Utf8.encode (command ++ ['\n']))
  obtain ⟨d, hreads⟩ := readResponse_reads c₁
  rw [send, hwrite]
  dsimp only
  rcases hread : readResponse c₁ with ⟨e | line, c₂⟩ <;> rw [hread] at hreads <;>
    exact hreads.conn_sent.trans hsent

/-- **An accepted call writes one line if and only if no string that it writes as it
is holds a line feed.** -/
theorem run_oneLine (r : Request) (c : Conn) (command : Text) (hopen : c.sock ≠ none)
    (haccepts : r.command = .ok command) :
    ∃ bytes, (r.run c).2.sent = c.sent ++ bytes ∧
      (OneLine bytes ↔ ∀ t ∈ r.interpolated, '\n' ∉ t) := by
  refine ⟨Utf8.encode (command ++ ['\n']), ?_, ?_⟩
  · rw [Request.run, haccepts]
    exact send_sent hopen command
  · rw [oneLine_encode, lf_not_mem_command haccepts]

theorem run_oneLine_insert :
    let c := Conn.receiving "+OK 0\r\n".toList (by decide)
    ∃ bytes, ((Request.insert 0 1 [.str "a\nb".toList]).run c).2.sent = c.sent ++ bytes ∧
      OneLine bytes := by
  obtain ⟨bytes, hsent, hline⟩ := run_oneLine (.insert 0 1 [.str "a\nb".toList])
    (Conn.receiving "+OK 0\r\n".toList (by decide)) _ (by decide) rfl
  exact ⟨bytes, hsent, hline.mpr (by decide)⟩

/-- A value for `find` with a line feed is two commands, and the reply to the second
goes to the next call. -/
theorem find_two_lines :
    let c := Conn.receiving "+OK [0]\r\n+OK PONG\r\n+OK 7\r\n".toList (by decide)
    let found := (Request.find 0 0 1 "a\nPING".toList).run c
    found.2.sent = Utf8.encode "FIND 0 0 1 a\nPING\n".toList ∧
      ¬ OneLine found.2.sent ∧
      (send "COUNT 0 0".toList found.2).1 = .ok "PONG".toList := by
  have hsent : ((Request.find 0 0 1 "a\nPING".toList).run
      (Conn.receiving "+OK [0]\r\n+OK PONG\r\n+OK 7\r\n".toList (by decide))).2.sent =
      Utf8.encode ("FIND 0 0 1 a\nPING".toList ++ ['\n']) := by decide +kernel
  refine ⟨hsent, ?_, by decide +kernel⟩
  rw [hsent, oneLine_encode]
  decide

end CuttleDB.Py
