import CuttleDB.GroupBy

/-!
# The scanner of GROUPBY keys

The clients keep an index into the entry: a component is looked for at `i`, and the next one
at the index that is returned with it. A component that nothing ends returns the length of the
entry or one more. Each index is beyond the one before, so the loop over an entry ends,
whatever the entry is.
-/

namespace CuttleDB

open Framing

section Scanning

variable {α γ : Type} [DecidableEq α] [Alphabet α]

/-- `s[a:b]` -/
def slice (s : List α) (a b : Nat) : List α := (s.drop a).take (b - a)

/-- `s.find(c, start)` -/
def findFrom (c : α) (s : List α) (start : Nat) : Option Nat :=
  ((s.drop start).findIdx? (· = c)).map (start + ·)

/-- `while j < len(s) and s[j] not in "|:"` -/
def bareEnd (s : List α) (j : Nat) : Nat :=
  if h : j < s.length then
    if s[j] ≠ lit '|' ∧ s[j] ≠ lit ':' then bareEnd s (j + 1) else j
  else j
termination_by s.length - j

/-- The component at index `i`, the next index, and the character that ends the component,
if one does. -/
def componentAt (quoted bare : List α → γ) (s : List α) (i : Nat) : γ × Nat × Option α :=
  if s[i]? = some (lit '"') then
    match findFrom (lit '"') s (i + 1) with
    | none => (quoted (s.drop (i + 1)), s.length, none)
    | some stop =>
      let nxt := stop + 1
      (quoted (slice s (i + 1) stop), nxt + 1, s[nxt]?)
  else
    let j := bareEnd s i
    (bare (slice s i j), j + 1, s[j]?)

/-- `while i < len(entry)`, with a bound on the rounds: the components of an entry and the text
of its value, or `none` when the bound was reached before the end. -/
def entryLoop (component : Nat → γ × Nat × Option α) (entry : List α) :
    Nat → Nat → List γ → Option (List γ × List α)
  | 0, i, comps => if i < entry.length then none else some (comps, [])
  | rounds + 1, i, comps =>
    if i < entry.length then
      match component i with
      | (comp, next, term) =>
        if term = some (lit ':') then some (comps ++ [comp], entry.drop next)
        else entryLoop component entry rounds next (comps ++ [comp])
    else some (comps, [])

end Scanning

/-- `_parse_gb_component(s, i)` -/
def Py.parseGbComponentAt (s : Text) (i : Nat) : Py.GbComponent × Nat × Option Char :=
  componentAt .str Py.bareComponent s i

/-- The loop of `group_by` over one entry. -/
def Py.entryComponents (entry : Text) (rounds : Nat) : Option (List Py.GbComponent × Text) :=
  entryLoop (Py.parseGbComponentAt entry) entry rounds 0 []

/-- `parseGbComponent(s, i)` -/
def Js.parseGbComponentAt (s : List UInt16) (i : Nat) : Js.GbComponent × Nat × Option UInt16 :=
  componentAt .str Js.bareComponent s i

/-- The loop of `parseGroupBy` over one entry. -/
def Js.entryComponents (entry : List UInt16) (rounds : Nat) :
    Option (List Js.GbComponent × List UInt16) :=
  entryLoop (Js.parseGbComponentAt entry) entry rounds 0 []

section Advance

variable {α γ : Type} [DecidableEq α] [Alphabet α]

/-! ### One component -/

omit [Alphabet α] in
theorem findIdx?_of_not_mem {c : α} {s : List α} (h : c ∉ s) : s.findIdx? (· = c) = none := by
  rw [List.findIdx?_eq_none_iff]
  intro x hx
  simpa using fun heq : x = c => h (heq ▸ hx)

omit [Alphabet α] in
/-- The quote that `cutLine` cuts at is the one that `find` finds. -/
theorem findFrom_eq (c : α) (s : List α) (start : Nat) :
    findFrom c s start = (cutLine c (s.drop start)).map fun p => start + p.1.length := by
  cases hcut : cutLine c (s.drop start) with
  | none =>
    rw [findFrom, findIdx?_of_not_mem (cutLine_eq_none.mp hcut)]
    rfl
  | some p =>
    obtain ⟨piece, rest⟩ := p
    obtain ⟨htext, hnot⟩ := eq_of_cutLine hcut
    have hfound : (s.drop start).findIdx? (· = c) = some piece.length := by
      rw [htext, List.findIdx?_append, findIdx?_of_not_mem hnot]
      simp [List.findIdx?_cons]
    rw [findFrom, hfound]
    rfl

theorem bareEnd_eq (s : List α) (i : Nat) :
    bareEnd s i = i + ((s.drop i).takeWhile fun c => c ≠ lit '|' ∧ c ≠ lit ':').length := by
  induction i using bareEnd.induct (s := s) with
  | case1 j hj hgo ih =>
    rw [bareEnd, dif_pos hj, if_pos hgo, ih, List.drop_eq_getElem_cons hj,
      List.takeWhile_cons_of_pos (by simpa using hgo), List.length_cons]
    omega
  | case2 j hj hstop =>
    rw [bareEnd, dif_pos hj, if_neg hstop, List.drop_eq_getElem_cons hj,
      List.takeWhile_cons_of_neg (by simpa using hstop)]
    rfl
  | case3 j hj =>
    rw [bareEnd, dif_neg hj, List.drop_eq_nil_of_le (by omega)]
    rfl

/-- A component without a quote ends at the index that the loop stops at. -/
theorem bare_spec (s : List α) (i : Nat) :
    let raw := (s.drop i).takeWhile fun c => c ≠ lit '|' ∧ c ≠ lit ':'
    slice s i (bareEnd s i) = raw ∧ s.drop (bareEnd s i) = (s.drop i).drop raw.length ∧
      i ≤ bareEnd s i ∧ (i ≤ s.length → bareEnd s i ≤ s.length) := by
  intro raw
  have hend : bareEnd s i = i + raw.length := bareEnd_eq s i
  have hprefix : raw <+: s.drop i := List.takeWhile_prefix _
  refine ⟨?_, ?_, by omega, fun hi => ?_⟩
  · rw [slice, hend, Nat.add_sub_cancel_left]
    exact (List.prefix_iff_eq_take.mp hprefix).symm
  · rw [hend, List.drop_drop]
  · have hlength := hprefix.length_le
    rw [List.length_drop] at hlength
    omega

omit [DecidableEq α] [Alphabet α] in
/-- A quoted component ends behind the quote that is found. -/
theorem quoted_spec {s piece rest : List α} {c : α} {start : Nat}
    (htext : s.drop start = piece ++ c :: rest) :
    slice s start (start + piece.length) = piece ∧ s.drop (start + piece.length + 1) = rest ∧
      start + piece.length < s.length := by
  refine ⟨?_, ?_, ?_⟩
  · rw [slice, Nat.add_sub_cancel_left, htext, List.take_left]
  · rw [Nat.add_assoc, ← List.drop_drop, htext]
    simp
  · have hlength := congrArg List.length htext
    rw [List.length_drop, List.length_append, List.length_cons] at hlength
    omega

/-- **What is found at an index**, in terms of the text from there on: the component, the text
that is left at the next index, and an index that has moved. -/
theorem componentAt_spec (quoted bare : List α → γ) (s : List α) {i : Nat} (hi : i < s.length) :
    let found := scanComponent quoted bare (s.drop i)
    let r := componentAt quoted bare s i
    r.1 = found.1 ∧ s.drop r.2.1 = found.2.1 ∧ r.2.2 = found.2.2 ∧
      i < r.2.1 ∧ r.2.1 ≤ s.length + 1 := by
  have hhead : (s.drop i).head? = s[i]? := List.head?_drop
  have htail : (s.drop i).tail = s.drop (i + 1) := List.tail_drop
  rw [scanComponent, componentAt, hhead, htail]
  by_cases hquote : s[i]? = some (lit '"')
  · rw [if_pos hquote, if_pos hquote, findFrom_eq]
    cases hcut : cutLine (lit '"') (s.drop (i + 1)) with
    | none => exact ⟨rfl, List.drop_length, rfl, hi, Nat.le_succ _⟩
    | some p =>
      obtain ⟨piece, rest⟩ := p
      obtain ⟨hslice, hrest, hlt⟩ := quoted_spec (eq_of_cutLine hcut).1
      dsimp only [Option.map_some]
      rw [hslice, ← hrest, List.tail_drop, List.head?_drop]
      exact ⟨rfl, rfl, rfl, by omega, by omega⟩
  · rw [if_neg hquote, if_neg hquote]
    obtain ⟨hslice, hdrop, hle, hend⟩ := bare_spec s i
    have hbound := hend (Nat.le_of_lt hi)
    dsimp only at hslice hdrop ⊢
    rw [hslice, ← hdrop, List.tail_drop, List.head?_drop]
    exact ⟨rfl, rfl, rfl, by omega, by omega⟩

/-! ### The loop over an entry -/

/-- As many rounds as there are characters are enough: the loop is the one over the text that
is left. -/
theorem entryLoop_eq (quoted bare : List α → γ) (entry : List α) (rounds : Nat) :
    ∀ {i : Nat} (comps : List γ), entry.length - i ≤ rounds →
      entryLoop (componentAt quoted bare entry) entry rounds i comps =
        some (scanEntry (componentParser quoted bare) (entry.drop i) comps) := by
  have hdone : ∀ {i : Nat} (comps : List γ), ¬ i < entry.length →
      scanEntry (componentParser quoted bare) (entry.drop i) comps = (comps, []) := by
    intro i comps hi
    rw [List.drop_eq_nil_of_le (Nat.le_of_not_lt hi), scanEntry, dif_pos rfl]
  induction rounds with
  | zero =>
    intro i comps hrounds
    have hi : ¬ i < entry.length := by omega
    rw [entryLoop, if_neg hi, hdone comps hi]
  | succ rounds ih =>
    intro i comps hrounds
    by_cases hi : i < entry.length
    · obtain ⟨hcomp, hrest, hterm, hlt, -⟩ := componentAt_spec quoted bare entry hi
      have hne : entry.drop i ≠ [] := by
        rw [ne_eq, List.drop_eq_nil_iff]
        omega
      have hparse : (componentParser quoted bare).parse (entry.drop i) =
          scanComponent quoted bare (entry.drop i) := rfl
      rw [entryLoop, if_pos hi, scanEntry_eq _ hne, hparse, ← hcomp, ← hrest, ← hterm]
      dsimp only
      split
      · rfl
      · have hnext : entry.length - (componentAt quoted bare entry i).2.1 < entry.length - i :=
          Nat.sub_lt_sub_left hi hlt
        exact ih _ (Nat.le_of_lt_succ (Nat.lt_of_lt_of_le hnext hrounds))
    · rw [entryLoop, if_neg hi, hdone comps hi]

/-- An entry has no more components than characters. -/
theorem length_scanEntry_le (component : ComponentParser α γ) (s : List α) :
    ∀ comps : List γ, (scanEntry component s comps).1.length ≤ comps.length + s.length := by
  induction hn : s.length using Nat.strong_induction_on generalizing s with
  | _ n ih =>
    intro comps
    by_cases hs : s = []
    · subst hs
      rw [scanEntry, dif_pos rfl]
      exact Nat.le_add_right _ _
    · have htakes := component.takes hs
      rw [scanEntry_eq component hs]
      split
      · rw [List.length_append, List.length_singleton]
        omega
      · have hrest := ih _ (hn ▸ htakes) _ rfl (comps ++ [(component.parse s).1])
        rw [List.length_append, List.length_singleton] at hrest
        omega

/-- What the loop returns on any entry, from as many rounds on as it has characters. -/
theorem entryLoop_total (quoted bare : List α → γ) (entry : List α) :
    ∃ comps value,
      (∀ rounds, entry.length ≤ rounds →
        entryLoop (componentAt quoted bare entry) entry rounds 0 [] = some (comps, value)) ∧
      comps.length ≤ entry.length ∧ (entry ≠ [] → comps ≠ []) := by
  have hlength := length_scanEntry_le (componentParser quoted bare) entry []
  rw [List.length_nil, Nat.zero_add] at hlength
  let found := scanEntry (componentParser quoted bare) entry []
  refine ⟨found.1, found.2, fun rounds hrounds => ?_, hlength, fun hne => ?_⟩
  · exact entryLoop_eq quoted bare entry rounds (i := 0) [] hrounds
  · exact scanEntry_fst_ne_nil (componentParser quoted bare) entry [] (Or.inl hne)

/-- What the decoders make of a body is what the loops return on its entries. -/
theorem scanEntries_eq_loops (quoted bare : List α → γ) (body : List α) :
    (scanEntries (componentParser quoted bare) body).map some =
      ((body.splitOn (lit ';')).filter (· ≠ [])).map fun entry =>
        entryLoop (componentAt quoted bare entry) entry entry.length 0 [] := by
  rw [scanEntries_eq, List.map_map]
  refine List.map_congr_left fun entry _ => ?_
  exact (entryLoop_eq quoted bare entry entry.length (i := 0) [] (Nat.sub_le _ _)).symm

end Advance

/-- **The scanner always advances,** and so the loops over the entries end, after at most as
many components as an entry has characters and with one at least unless it is empty. -/
theorem groupBy_scanner_advances (s : Text) (s' : List UInt16) :
    (∀ i < s.length,
      i < (Py.parseGbComponentAt s i).2.1 ∧ (Py.parseGbComponentAt s i).2.1 ≤ s.length + 1) ∧
    (∀ i < s'.length,
      i < (Js.parseGbComponentAt s' i).2.1 ∧ (Js.parseGbComponentAt s' i).2.1 ≤ s'.length + 1) ∧
    (∃ comps value,
      (∀ rounds, s.length ≤ rounds → Py.entryComponents s rounds = some (comps, value)) ∧
      comps.length ≤ s.length ∧ (s ≠ [] → comps ≠ [])) ∧
    (∃ comps value,
      (∀ rounds, s'.length ≤ rounds → Js.entryComponents s' rounds = some (comps, value)) ∧
      comps.length ≤ s'.length ∧ (s' ≠ [] → comps ≠ [])) := by
  refine ⟨?_, ?_, entryLoop_total _ _ s, entryLoop_total _ _ s'⟩
  · intro i hi
    obtain ⟨-, -, -, hbounds⟩ := componentAt_spec Py.GbComponent.str Py.bareComponent s hi
    exact hbounds
  · intro i hi
    obtain ⟨-, -, -, hbounds⟩ := componentAt_spec Js.GbComponent.str Js.bareComponent s' hi
    exact hbounds

end CuttleDB
