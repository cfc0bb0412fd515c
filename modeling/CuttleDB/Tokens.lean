import CuttleDB.PyCommands

/-!
# Token listings

`add_token` takes any label without a space. `list_tokens` splits the server's list at every
`;` and each entry at its first three `:`, so what a label may hold for the listing to give
it back is less than what `add_token` lets pass.
-/

namespace CuttleDB.Py

open Framing

/-! ### The client -/

/-- `s.split(sep, n)` -/
def splitMax (sep : Char) : Nat → Text → List Text
  | 0, s => [s]
  | n + 1, s =>
    match cutLine sep s with
    | none => [s]
    | some (part, rest) => part :: splitMax sep n rest

/-- An element of what `list_tokens` returns -/
structure TokenInfo where
  id : Text
  label : Text
  createdMs : Int
  revoked : Bool
deriving DecidableEq

/-- What is appended for an entry of four parts -/
def tokenInfo (id label createdMs revoked : Text) : Except PyError TokenInfo :=
  match (if createdMs ≠ [] then int? createdMs else some 0), int? revoked with
  | some createdMs, some revoked => .ok ⟨id, label, createdMs, revoked ≠ 0⟩
  | _, _ => .error .valueError

/-- The loop of `list_tokens`; an entry that has not four parts is passed over. -/
def tokenEntries : List Text → Except PyError (List TokenInfo)
  | [] => .ok []
  | entry :: rest =>
    match splitMax ':' 3 entry with
    | [id, label, createdMs, revoked] => do
      let info ← tokenInfo id label createdMs revoked
      let out ← tokenEntries rest
      .ok (info :: out)
    | _ => tokenEntries rest

/-- `list_tokens`, from the line that answers `TOKEN LIST` -/
def listTokens (line : Text) : Except PyError (List TokenInfo) := do
  let body ← unwrap line
  let body := strip body
  let body := if body.head? = some '[' ∧ body.getLast? = some ']' then body.tail.dropLast else body
  if body = [] then .ok []
  else tokenEntries (body.splitOn ';')

/-! ### The server -/

/-- A token of the server: the call of `add_token` that minted it, the number of its id, and
what the server keeps with it. -/
structure Minted where
  label : Text
  token : Option Text
  generated : List (Fin 16)
  number : Nat
  createdMs : Int
  revoked : Bool
  createdMs_fits : Fits createdMs

/-- `add_token` sends the label, on one line. -/
structure Minted.Accepted (m : Minted) : Prop where
  sent : ∃ line, (Request.addToken m.label m.token m.generated).command = .ok line
  label_lf : '\n' ∉ m.label
  token_lf : ∀ token ∈ m.token, '\n' ∉ token

def Minted.id (m : Minted) : Text := 't' :: intText m.number

def Minted.info (m : Minted) : TokenInfo := ⟨m.id, m.label, m.createdMs, m.revoked⟩

/-- `id:label:created_ms:revoked` -/
def Minted.entry (m : Minted) : Text :=
  m.id ++ ':' :: (m.label ++ ':' :: (intText m.createdMs ++ ':' :: if m.revoked then ['1'] else ['0']))

/-- The answer to `TOKEN LIST`, with the labels as they are -/
def tokenList (tokens : List Minted) : Text :=
  "+OK [".toList ++ [';'].intercalate (tokens.map Minted.entry) ++ [']']

/-! ### What is listed -/

theorem splitMax_cons {sep : Char} {part : Text} (h : sep ∉ part) (n : Nat) (rest : Text) :
    splitMax sep (n + 1) (part ++ sep :: rest) = part :: splitMax sep n rest := by
  rw [splitMax, cutLine_line h]

theorem colon_not_mem_intText (i : Int) : ':' ∉ intText i :=
  not_mem_intText (by decide) (by decide) i

theorem splitMax_entry {m : Minted} (hlabel : ':' ∉ m.label) :
    splitMax ':' 3 m.entry =
      [m.id, m.label, intText m.createdMs, if m.revoked then ['1'] else ['0']] := by
  have hid : ':' ∉ m.id := by simpa [Minted.id] using colon_not_mem_intText m.number
  rw [Minted.entry, splitMax_cons hid, splitMax_cons hlabel,
    splitMax_cons (colon_not_mem_intText m.createdMs), splitMax]

theorem tokenInfo_entry (m : Minted) :
    tokenInfo m.id m.label (intText m.createdMs) (if m.revoked then ['1'] else ['0']) =
      .ok m.info := by
  have hne : intText m.createdMs ≠ [] := (intText_isWord m.createdMs).1
  have hzero : int? ['0'] = some 0 := by decide
  have hone : int? ['1'] = some 1 := by decide
  cases hrevoked : m.revoked <;>
    simp [tokenInfo, hne, int?_intText m.createdMs_fits, hzero, hone, hrevoked, Minted.info]

theorem label_of_tokenInfo {id label createdMs revoked : Text} {info : TokenInfo}
    (h : tokenInfo id label createdMs revoked = .ok info) : info.label = label := by
  rw [tokenInfo] at h
  split at h
  · cases h
    rfl
  · cases h

theorem tokenEntries_entry {m : Minted} (hlabel : ':' ∉ m.label) (rest : List Text) :
    tokenEntries (m.entry :: rest) = (tokenEntries rest).map (m.info :: ·) := by
  rw [tokenEntries, splitMax_entry hlabel]
  simp only [tokenInfo_entry]
  cases tokenEntries rest <;> rfl

theorem tokenEntries_entries {tokens : List Minted} (h : ∀ m ∈ tokens, ':' ∉ m.label) :
    tokenEntries (tokens.map Minted.entry) = .ok (tokens.map Minted.info) := by
  induction tokens with
  | nil => rfl
  | cons m tokens ih =>
    obtain ⟨hm, htokens⟩ := List.forall_mem_cons.mp h
    rw [List.map_cons, tokenEntries_entry hm, ih htokens]
    rfl

/-- The parts in front of the last have no separator. -/
theorem not_mem_of_splitMax {sep : Char} {n : Nat} {s : Text} {a b : Text} {ps : List Text}
    (h : splitMax sep (n + 1) s = a :: b :: ps) : sep ∉ a := by
  rw [splitMax] at h
  split at h
  · cases h
  · rename_i hcut
    obtain ⟨rfl, -⟩ := List.cons.inj h
    exact (eq_of_cutLine hcut).2

theorem mem_of_mem_splitMax {sep c : Char} {n : Nat} {s part : Text}
    (hpart : part ∈ splitMax sep n s) (hc : c ∈ part) : c ∈ s := by
  induction n generalizing s with
  | zero =>
    rw [splitMax, List.mem_singleton] at hpart
    exact hpart ▸ hc
  | succ n ih =>
    rw [splitMax] at hpart
    split at hpart
    · rw [List.mem_singleton] at hpart
      exact hpart ▸ hc
    · rename_i first rest hcut
      rw [(eq_of_cutLine hcut).1]
      rcases List.mem_cons.mp hpart with rfl | hrest
      · exact List.mem_append_left _ hc
      · exact List.mem_append_right _ (List.mem_cons_of_mem _ (ih hrest))

/-- What is listed as a label is text of one entry, in front of a `:`. -/
theorem label_of_tokenEntries {entries : List Text} {out : List TokenInfo}
    (h : tokenEntries entries = .ok out) :
    ∀ info ∈ out, ':' ∉ info.label ∧ ∃ entry ∈ entries, ∀ c ∈ info.label, c ∈ entry := by
  induction entries generalizing out with
  | nil =>
    cases h
    exact nofun
  | cons entry rest ih =>
    have hlater : ∀ {out}, tokenEntries rest = .ok out → ∀ info ∈ out,
        ':' ∉ info.label ∧ ∃ e ∈ entry :: rest, ∀ c ∈ info.label, c ∈ e := by
      intro out hrest info hinfo
      obtain ⟨hcolon, e, he, hsub⟩ := ih hrest info hinfo
      exact ⟨hcolon, e, List.mem_cons_of_mem entry he, hsub⟩
    rw [tokenEntries] at h
    split at h
    · rename_i id label createdMs revoked hsplit
      have hcolon : ':' ∉ label := by
        rw [splitMax] at hsplit
        split at hsplit
        · cases hsplit
        · exact not_mem_of_splitMax (List.cons.inj hsplit).2
      have hsub : ∀ c ∈ label, c ∈ entry := fun c hc =>
        mem_of_mem_splitMax (by rw [hsplit]; simp) hc
      cases hinfo : tokenInfo id label createdMs revoked with
      | error e => simp [hinfo, bind, Except.bind] at h
      | ok info =>
        cases hrest : tokenEntries rest with
        | error e => simp [hinfo, hrest, bind, Except.bind] at h
        | ok later =>
          simp only [hinfo, hrest, bind, Except.bind, Except.ok.injEq] at h
          subst h
          intro info' hinfo'
          rcases List.mem_cons.mp hinfo' with rfl | hinfo'
          · rw [label_of_tokenInfo hinfo]
            exact ⟨hcolon, entry, List.mem_cons_self .., hsub⟩
          · exact hlater hrest info' hinfo'
    · exact hlater h

theorem tokenList_eq (tokens : List Minted) :
    tokenList tokens =
      "+OK".toList ++ ' ' :: '[' :: ([';'].intercalate (tokens.map Minted.entry) ++ [']']) := rfl

/-- What is left of the answer is the list between its brackets. -/
theorem listTokens_tokenList (tokens : List Minted) :
    listTokens (tokenList tokens) =
      if [';'].intercalate (tokens.map Minted.entry) = [] then .ok []
      else tokenEntries (([';'].intercalate (tokens.map Minted.entry)).splitOn ';') := by
  have hunwrap : unwrap (tokenList tokens) =
      .ok ('[' :: ([';'].intercalate (tokens.map Minted.entry) ++ [']'])) := by
    rw [tokenList_eq, unwrap, if_pos (List.prefix_append ..), if_pos (by simp)]
    rfl
  have hlast : ('[' :: ([';'].intercalate (tokens.map Minted.entry) ++ [']'])).getLast? =
      some ']' := by
    rw [← List.cons_append, List.getLast?_concat]
  rw [listTokens, hunwrap]
  simp [bind, Except.bind, strip_bracketed, hlast]

theorem entry_ne_nil (m : Minted) : m.entry ≠ [] := by simp [Minted.entry, Minted.id]

/-- **Which labels a listing gives back.** -/
theorem listTokens_iff (tokens : List Minted) (haccepted : ∀ m ∈ tokens, m.Accepted) :
    listTokens (tokenList tokens) = .ok (tokens.map Minted.info) ↔
      ∀ m ∈ tokens, ':' ∉ m.label ∧ ';' ∉ m.label := by
  rw [listTokens_tokenList]
  constructor
  · intro h m hm
    have hinfo : m.info ∈ tokens.map Minted.info := List.mem_map_of_mem hm
    split at h
    · cases tokens with
      | nil => cases hm
      | cons => cases h
    · obtain ⟨hcolon, entry, hentry, hsub⟩ := label_of_tokenEntries h m.info hinfo
      exact ⟨hcolon, fun hmem => Escape.not_mem_of_mem_splitOn hentry (hsub ';' hmem)⟩
  · intro h
    cases tokens with
    | nil => rfl
    | cons m tokens =>
      have hfree : ∀ e ∈ (m :: tokens).map Minted.entry, ';' ∉ e := by
        intro e he
        obtain ⟨m', hm', rfl⟩ := List.mem_map.mp he
        have hnumber : ∀ i : Int, ';' ∉ intText i := not_mem_intText (by decide) (by decide)
        cases hrevoked : m'.revoked <;>
          simp [Minted.entry, Minted.id, hrevoked, hnumber, (h m' hm').2]
      have hne : [';'].intercalate ((m :: tokens).map Minted.entry) ≠ [] := by
        cases tokens with
        | nil => simpa using entry_ne_nil m
        | cons => simp [List.intercalate_cons_cons]
      rw [if_neg hne, List.splitOn_intercalate ';' hfree (by simp)]
      exact tokenEntries_entries fun m' hm' => (h m' hm').1

/-- Two labels that the listing gives back, and a revoked token. -/
theorem listTokens_laptops :
    let tokens : List Minted := [⟨"alice-laptop".toList, some ['a'], [], 1, 1700000000000, false, rfl⟩,
      ⟨"ci\tpipeline".toList, none, [3, 10], 2, 1700000000500, true, rfl⟩]
    listTokens (tokenList tokens) = .ok (tokens.map Minted.info) := by
  intro tokens
  refine (listTokens_iff tokens ?_).mpr (by decide)
  have hall : ∀ m ∈ tokens, m.Accepted := by
    simp only [tokens, List.forall_mem_cons]
    exact ⟨⟨⟨_, rfl⟩, by decide, by decide⟩, ⟨⟨_, rfl⟩, by decide, by decide⟩, nofun⟩
  exact hall

/-- A label with a `;` and a `:` is accepted, and what is listed is another label, or nothing
at all. -/
theorem label_hides_tokens :
    let alice : Minted := ⟨"alice:laptop".toList, some ['a'], [], 1, 1700000000000, false, rfl⟩
    let ci : Minted := ⟨"ci;nightly".toList, some ['b'], [], 2, 1700000000500, true, rfl⟩
    alice.Accepted ∧ ci.Accepted ∧
      listTokens (tokenList [alice]) = .error .valueError ∧
      listTokens (tokenList [ci]) = .ok [] := by
  refine ⟨⟨⟨_, rfl⟩, by decide, by decide⟩, ⟨⟨_, rfl⟩, by decide, by decide⟩, ?_, ?_⟩ <;>
    decide +kernel

end CuttleDB.Py
