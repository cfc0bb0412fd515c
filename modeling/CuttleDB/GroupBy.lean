import CuttleDB.Lib.Framing
import CuttleDB.Numerals
import CuttleDB.Wire

/-!
# The result of GROUPBY

The server writes a result as `[key:value;key:value;...]`. A key is its components
joined by `|`, strings in double quotes and numbers bare. Both clients first cut the
body at every `;`, and only then look for quotes: a string with a `;` is cut in two, and
each part becomes a group.
-/

namespace CuttleDB

open Framing Binary64

/-! ### The result -/

section Rendering

variable (α : Type) [Alphabet α]

/-- One component of a key: an integer that a number of either client can hold, or a
string without the quote. -/
inductive Component where
  | int (n : { n : Int // |n| < 2 ^ 53 })
  | str (s : { s : List α // lit '"' ∉ s })

structure Group where
  key : List (Component α)
  value : { n : Int // |n| < 2 ^ 53 }

/-- A result that is not empty: `width` columns were grouped by. -/
structure Grouping where
  width : Nat
  groups : List (Group α)
  width_pos : 0 < width
  groups_ne_nil : groups ≠ []
  key_length : ∀ g ∈ groups, g.key.length = width

variable {α}

def Component.render : Component α → List α
  | .int n => (intText n.1).map lit
  | .str s => lit '"' :: (s.1 ++ [lit '"'])

def Group.render (g : Group α) : List α :=
  [lit '|'].intercalate (g.key.map Component.render) ++ lit ':' :: (intText g.value.1).map lit

/-- `[key:value;key:value;...]` -/
def renderGroups (groups : List (Group α)) : List α :=
  lit '[' :: ([lit ';'].intercalate (groups.map Group.render) ++ [lit ']'])

end Rendering

/-! ### Decoding -/

/-- A key as a client returns it. -/
inductive Key (γ : Type) where
  | scalar (comp : γ)
  | tuple (comps : List γ)
deriving DecidableEq

section Decoding

variable {α γ : Type} [DecidableEq α] [Alphabet α]

/-- One component at the head of `s`: what it is, what stands behind the character that
ends it, and that character. -/
def scanComponent (quoted bare : List α → γ) (s : List α) : γ × List α × Option α :=
  if s.head? = some (lit '"') then
    match cutLine (lit '"') s.tail with
    | none => (quoted s.tail, [], none)
    | some (comp, rest) => (quoted comp, rest.tail, rest.head?)
  else
    let raw := s.takeWhile fun c => c ≠ lit '|' ∧ c ≠ lit ':'
    let rest := s.drop raw.length
    (bare raw, rest.tail, rest.head?)

theorem length_scanComponent_lt (quoted bare : List α → γ) {s : List α} (hs : s ≠ []) :
    (scanComponent quoted bare s).2.1.length < s.length := by
  have hpos := List.length_pos_iff.mpr hs
  unfold scanComponent
  split
  · split
    · exact hpos
    · rename_i comp rest hcut
      have hlength := congrArg List.length (eq_of_cutLine hcut).1
      simp only [List.length_tail, List.length_append, List.length_cons] at hlength ⊢
      omega
  · simp only [List.length_tail, List.length_drop]
    omega

/-- A parser of one component, which takes at least one character. -/
structure ComponentParser (α γ : Type) where
  parse : List α → γ × List α × Option α
  takes : ∀ {s}, s ≠ [] → (parse s).2.1.length < s.length

def componentParser (quoted bare : List α → γ) : ComponentParser α γ where
  parse := scanComponent quoted bare
  takes := length_scanComponent_lt quoted bare

/-- The loop over an entry: its components, and the text of its value. -/
def scanEntry (component : ComponentParser α γ) (s : List α) (comps : List γ) :
    List γ × List α :=
  if _hs : s = [] then (comps, [])
  else
    match _hparse : component.parse s with
    | (comp, rest, term) =>
      if term = some (lit ':') then (comps ++ [comp], rest)
      else scanEntry component rest (comps ++ [comp])
termination_by s.length
decreasing_by
  have htakes := component.takes _hs
  rwa [_hparse] at htakes

/-- The entries of a body, empty ones left out. -/
def scanEntries (component : ComponentParser α γ) (body : List α) : List (List γ × List α) :=
  (((body.splitOn (lit ';')).filter (· ≠ [])).map fun entry =>
    scanEntry component entry []).filter fun entry => entry.1 ≠ []

end Decoding

namespace Py

/-- What a key component is in Python. -/
inductive GbComponent where
  | int (n : Int)
  | float (x : Double)
  | str (s : Text)
deriving DecidableEq

/-- A bare component: `int`, then `float`, then the text. -/
def bareComponent (raw : Text) : GbComponent :=
  match int? raw with
  | some n => .int n
  | none =>
    match float? raw with
    | some x => .float x
    | none => .str raw

/-- `_parse_gb_component` -/
def parseGbComponent : ComponentParser Char GbComponent := componentParser .str bareComponent

/-- `float(value)`, or 0.0 for a `ValueError`. -/
def valueNum (value : Text) : Double := (float? value).getD (.finite 0)

/-- What `group_by` makes of the body of its reply. `multi` says that extra columns were
asked for. -/
def decodeGroups (multi : Bool) (body : Text) : List (Key GbComponent × Double) :=
  let body := strip body
  let body := if body.head? = some '[' ∧ body.getLast? = some ']' then body.tail.dropLast else body
  if body = [] then []
  else
    (scanEntries parseGbComponent body).map fun (comps, value) =>
      (if multi then .tuple comps else .scalar (comps.headD (.str [])), valueNum value)

end Py

namespace Js

/-- What a key component is in JavaScript. -/
inductive GbComponent where
  | num (x : Double)
  | str (s : List UInt16)
deriving DecidableEq

/-- A string of ASCII characters, as far as numbers are read from it. -/
def ofUnits (s : List UInt16) : Text := s.map fun u => Char.ofNat u.toNat

/-- A bare component: a finite number, or the text. -/
def bareComponent (raw : List UInt16) : GbComponent :=
  match number (ofUnits raw) with
  | .finite q => if raw ≠ [] then .num (.finite q) else .str raw
  | .infinity _ => .str raw
  | .nan => .str raw

/-- `parseGbComponent` -/
def parseGbComponent : ComponentParser UInt16 GbComponent := componentParser .str bareComponent

/-- `parseGroupBy`; `none` is the error `bad groupby result`. -/
def parseGroupBy (body : List UInt16) : Option (List (Key GbComponent × Double)) :=
  if ¬ (body.head? = some (lit '[') ∧ body.getLast? = some (lit ']')) then none
  else
    let inner := body.tail.dropLast
    if inner = [] then some []
    else
      some ((scanEntries parseGbComponent inner).map fun (comps, value) =>
        (match comps with
          | [comp] => .scalar comp
          | comps => .tuple comps, number (ofUnits value)))

end Js

/-! ### Reading what was rendered -/

section Reading

variable {α γ : Type} [DecidableEq α] [Alphabet α]

theorem scanEntry_eq (component : ComponentParser α γ) {s : List α} (hs : s ≠ [])
    (comps : List γ) :
    scanEntry component s comps =
      if (component.parse s).2.2 = some (lit ':') then
        (comps ++ [(component.parse s).1], (component.parse s).2.1)
      else scanEntry component (component.parse s).2.1 (comps ++ [(component.parse s).1]) := by
  rw [scanEntry, dif_neg hs]

/-- An entry has a component at least. -/
theorem scanEntry_fst_ne_nil (component : ComponentParser α γ) (s : List α) :
    ∀ comps : List γ, s ≠ [] ∨ comps ≠ [] → (scanEntry component s comps).1 ≠ [] := by
  induction hn : s.length using Nat.strong_induction_on generalizing s with
  | _ n ih =>
    intro comps h
    by_cases hs : s = []
    · subst hs
      rw [scanEntry, dif_pos rfl]
      exact h.resolve_left (by simp)
    · rw [scanEntry_eq component hs]
      split
      · simp
      · exact ih _ (hn ▸ component.takes hs) _ rfl _ (Or.inr (by simp))

/-- No entry is left out for want of a component. -/
theorem scanEntries_eq (component : ComponentParser α γ) (body : List α) :
    scanEntries component body =
      ((body.splitOn (lit ';')).filter (· ≠ [])).map fun entry => scanEntry component entry [] := by
  rw [scanEntries, List.filter_eq_self]
  intro found hfound
  obtain ⟨entry, hentry, rfl⟩ := List.mem_map.mp hfound
  have hne : entry ≠ [] := by simpa using (List.mem_filter.mp hentry).2
  simpa using scanEntry_fst_ne_nil component entry [] (Or.inl hne)

theorem length_scanEntries (component : ComponentParser α γ) (body : List α) :
    (scanEntries component body).length = ((body.splitOn (lit ';')).filter (· ≠ [])).length := by
  rw [scanEntries_eq, List.length_map]

/-- What a parser makes of a rendered component. -/
def Component.read (quoted bare : List α → γ) : Component α → γ
  | .int n => bare ((intText n.1).map lit)
  | .str s => quoted s.1

omit [DecidableEq α] in
theorem lit_mem_intText {a : Char} (ha : a.isDigit = false ∧ a ≠ '-' ∧ a.toNat < 128) (i : Int) :
    (lit a : α) ∉ (intText i).map lit := by
  intro hmem
  obtain ⟨c, hc, heq⟩ := List.mem_map.mp hmem
  obtain rfl : c = a := (lit_eq_lit ⟨toNat_lt_of_mem_intText hc, ha.2.2⟩).mp heq
  exact not_mem_intText ha.1 ha.2.1 i hc

theorem scanComponent_render (quoted bare : List α → γ) (c : Component α) {sep : Char}
    (hsep : sep = '|' ∨ sep = ':') (rest : List α) :
    scanComponent quoted bare (c.render ++ lit sep :: rest) =
      (c.read quoted bare, rest, some (lit sep)) := by
  cases c with
  | str s =>
    have htext : (Component.str s).render ++ lit sep :: rest =
        lit '"' :: (s.1 ++ lit '"' :: lit sep :: rest) := by simp [Component.render]
    rw [htext, scanComponent, if_pos List.head?_cons, List.tail_cons, cutLine_line s.2]
    rfl
  | int n =>
    have hquote : (lit '"' : α) ∉ (intText n.1).map lit := lit_mem_intText (by decide) n.1
    have hbar : (lit '|' : α) ∉ (intText n.1).map lit := lit_mem_intText (by decide) n.1
    have hcolon : (lit ':' : α) ∉ (intText n.1).map lit := lit_mem_intText (by decide) n.1
    have hne : (intText n.1).map (lit : Char → α) ≠ [] := by
      simpa using (Py.intText_isWord n.1).1
    have hhead : ((Component.int n).render ++ lit sep :: rest).head? ≠ some (lit '"') := by
      rw [Component.render, List.head?_append_of_ne_nil _ hne]
      exact fun heq => hquote (List.mem_of_head? heq)
    have hstop : decide ((lit sep : α) ≠ lit '|' ∧ (lit sep : α) ≠ lit ':') = false := by
      rcases hsep with rfl | rfl <;> simp
    have hraw : ((Component.int n).render ++ lit sep :: rest).takeWhile
        (fun c => c ≠ lit '|' ∧ c ≠ lit ':') = (intText n.1).map lit := by
      rw [Component.render, List.takeWhile_append_of_pos, List.takeWhile_cons, hstop]
      · simp
      · intro c hc
        simp only [decide_eq_true_eq]
        exact ⟨fun heq => hbar (heq ▸ hc), fun heq => hcolon (heq ▸ hc)⟩
    rw [scanComponent, if_neg hhead]
    dsimp only
    rw [hraw, Component.render, List.drop_left]
    rfl

/-- A rendered entry is read as its components and the text of its value. -/
theorem scanEntry_render (quoted bare : List α → γ) (value : List α) (key : List (Component α)) :
    key ≠ [] → ∀ comps : List γ,
      scanEntry (componentParser quoted bare)
          ([lit '|'].intercalate (key.map Component.render) ++ lit ':' :: value) comps =
        (comps ++ key.map (Component.read quoted bare), value) := by
  induction key with
  | nil => exact fun h => absurd rfl h
  | cons c key ih =>
    intro _ comps
    have hparse : ∀ s, (componentParser quoted bare).parse s = scanComponent quoted bare s :=
      fun _ => rfl
    cases key with
    | nil =>
      rw [List.map_singleton, List.intercalate_singleton, scanEntry_eq _ (by simp), hparse,
        scanComponent_render quoted bare c (Or.inr rfl)]
      simp
    | cons c' key =>
      have hbar : (lit '|' : α) ≠ lit ':' := lit_ne (by decide)
      have htext : [lit '|'].intercalate ((c :: c' :: key).map Component.render) ++
            lit ':' :: value =
          c.render ++ lit '|' ::
            ([lit '|'].intercalate ((c' :: key).map Component.render) ++ lit ':' :: value) := by
        simp [List.intercalate_cons_cons]
      rw [htext, scanEntry_eq _ (by simp), hparse,
        scanComponent_render quoted bare c (Or.inl rfl), if_neg (by simpa using hbar),
        ih (List.cons_ne_nil _ _)]
      simp

/-! ### The cut at every `;` -/

/-- No string of a key holds a `;`. -/
def NoSemicolon (groups : List (Group α)) : Prop :=
  ∀ g ∈ groups, ∀ s, Component.str s ∈ g.key → lit ';' ∉ s.1

/-- The parts of a text between semicolons that are not empty. -/
def pieces (s : List α) : Nat := ((s.splitOn (lit ';')).filter (· ≠ [])).length

theorem pieces_append (s t : List α) : pieces (s ++ lit ';' :: t) = pieces s + pieces t := by
  simp [pieces, List.splitOn_append_cons_self]

theorem pieces_pos {s : List α} {c : α} (hc : c ∈ s) (hne : c ≠ lit ';') : 0 < pieces s := by
  have hmem : c ∈ [lit ';'].intercalate (s.splitOn (lit ';')) := by
    rwa [List.intercalate_splitOn]
  rcases Escape.mem_intercalate hmem with heq | ⟨piece, hpiece, hin⟩
  · exact absurd heq hne
  · refine List.length_pos_of_mem (List.mem_filter.mpr ⟨hpiece, ?_⟩)
    simpa using List.ne_nil_of_mem hin

theorem pieces_intercalate (texts : List (List α)) :
    pieces ([lit ';'].intercalate texts) = (texts.map pieces).sum := by
  induction texts with
  | nil => simp [pieces]
  | cons t texts ih =>
    cases texts with
    | nil => simp
    | cons t' texts =>
      rw [List.intercalate_cons_cons, List.append_assoc, List.singleton_append, pieces_append, ih]
      rfl

theorem length_lt_sum {β : Type} {f : β → Nat} {xs : List β} (hpos : ∀ x ∈ xs, 0 < f x)
    {x : β} (hx : x ∈ xs) (htwo : 2 ≤ f x) : xs.length < (xs.map f).sum := by
  induction xs with
  | nil => cases hx
  | cons y xs ih =>
    have hy := hpos y List.mem_cons_self
    have hrest : xs.length ≤ (xs.map f).sum := by
      have hle := List.length_le_sum_of_one_le (xs.map f) fun n hn => by
        obtain ⟨z, hz, rfl⟩ := List.mem_map.mp hn
        exact hpos z (List.mem_cons_of_mem _ hz)
      simpa using hle
    simp only [List.map_cons, List.sum_cons, List.length_cons]
    rcases List.mem_cons.mp hx with rfl | hmem
    · omega
    · have hlt := ih (fun z hz => hpos z (List.mem_cons_of_mem _ hz)) hmem
      omega

omit [DecidableEq α] in
/-- A rendered entry holds a `;` exactly if one of its strings does. -/
theorem semicolon_mem_render (g : Group α) :
    lit ';' ∈ g.render ↔ ∃ s, Component.str s ∈ g.key ∧ lit ';' ∈ s.1 := by
  have hbar : (lit ';' : α) ≠ lit '|' := lit_ne (by decide)
  have hcolon : (lit ';' : α) ≠ lit ':' := lit_ne (by decide)
  have hquote : (lit ';' : α) ≠ lit '"' := lit_ne (by decide)
  constructor
  · intro hmem
    rcases List.mem_append.mp hmem with hkey | hvalue
    · rcases Escape.mem_intercalate hkey with heq | ⟨text, htext, hin⟩
      · exact absurd heq hbar
      · obtain ⟨c, hc, rfl⟩ := List.mem_map.mp htext
        cases c with
        | int n => exact absurd hin (lit_mem_intText (by decide) n.1)
        | str s =>
          refine ⟨s, hc, ?_⟩
          simpa [Component.render, hquote] using hin
    · rcases List.mem_cons.mp hvalue with heq | hdigits
      · exact absurd heq hcolon
      · exact absurd hdigits (lit_mem_intText (by decide) g.value.1)
  · rintro ⟨s, hs, hmem⟩
    refine List.mem_append_left _ (Escape.mem_intercalate_of_mem (List.mem_map_of_mem hs) ?_)
    simp [Component.render, hmem]

omit [DecidableEq α] in
theorem colon_mem_render (g : Group α) : lit ':' ∈ g.render := by
  simp [Group.render]

theorem pieces_render_pos (g : Group α) : 0 < pieces g.render :=
  pieces_pos (colon_mem_render g) (lit_ne (by decide))

/-- A string with a `;` is cut behind its first quote and before its last. -/
theorem two_le_pieces_render {g : Group α} {s : { s : List α // lit '"' ∉ s }}
    (hs : Component.str s ∈ g.key) (hmem : lit ';' ∈ s.1) : 2 ≤ pieces g.render := by
  have hquote : (lit '"' : α) ≠ lit ';' := lit_ne (by decide)
  obtain ⟨before, after, hsplit⟩ := List.append_of_mem hmem
  have hinfix : (Component.str s).render <:+: [lit '|'].intercalate (g.key.map Component.render) :=
    Escape.infix_intercalate (List.mem_map_of_mem hs)
  obtain ⟨u, v, hkey⟩ := hinfix
  have hrender : g.render = (u ++ lit '"' :: before) ++ lit ';' ::
      (after ++ lit '"' :: (v ++ lit ':' :: (intText g.value.1).map lit)) := by
    rw [Group.render, ← hkey]
    simp [Component.render, hsplit]
  have hbefore : 0 < pieces (u ++ lit '"' :: before) := pieces_pos (by simp) hquote
  have hafter : 0 < pieces (after ++ lit '"' :: (v ++ lit ':' :: (intText g.value.1).map lit)) :=
    pieces_pos (by simp) hquote
  rw [hrender, pieces_append]
  omega

omit [DecidableEq α] in
theorem Grouping.key_ne_nil (r : Grouping α) {g : Group α} (hg : g ∈ r.groups) : g.key ≠ [] := by
  have hlength := r.key_length g hg
  have hpos := r.width_pos
  exact List.ne_nil_of_length_pos (by omega)

/-- The groups come back as they were rendered, if no string holds a `;`. -/
theorem scanEntries_render (quoted bare : List α → γ) (r : Grouping α)
    (h : NoSemicolon r.groups) :
    scanEntries (componentParser quoted bare)
        ([lit ';'].intercalate (r.groups.map Group.render)) =
      r.groups.map fun g =>
        (g.key.map (Component.read quoted bare), (intText g.value.1).map lit) := by
  have hsplit : ([lit ';'].intercalate (r.groups.map Group.render)).splitOn (lit ';') =
      r.groups.map Group.render := by
    refine List.splitOn_intercalate _ ?_ (by simpa using r.groups_ne_nil)
    intro text htext hmem
    obtain ⟨g, hg, rfl⟩ := List.mem_map.mp htext
    obtain ⟨s, hs, hin⟩ := (semicolon_mem_render g).mp hmem
    exact h g hg s hs hin
  have hfilter : (r.groups.map Group.render).filter (· ≠ []) = r.groups.map Group.render := by
    rw [List.filter_eq_self]
    intro text htext
    obtain ⟨g, -, rfl⟩ := List.mem_map.mp htext
    simpa using List.ne_nil_of_mem (colon_mem_render g)
  rw [scanEntries, hsplit, hfilter, List.map_map]
  have hentry : ∀ g ∈ r.groups,
      ((fun entry => scanEntry (componentParser quoted bare) entry []) ∘ Group.render) g =
        (g.key.map (Component.read quoted bare), (intText g.value.1).map lit) := by
    intro g hg
    exact scanEntry_render quoted bare _ g.key (r.key_ne_nil hg) []
  rw [List.map_congr_left hentry, List.filter_eq_self]
  intro entry hmem
  obtain ⟨g, hg, rfl⟩ := List.mem_map.mp hmem
  simpa using r.key_ne_nil hg

/-- A string with a `;` makes more entries than there are groups. -/
theorem length_lt_scanEntries (component : ComponentParser α γ) {groups : List (Group α)}
    (h : ¬ NoSemicolon groups) :
    groups.length <
      (scanEntries component ([lit ';'].intercalate (groups.map Group.render))).length := by
  simp only [NoSemicolon, not_forall, Classical.not_not] at h
  obtain ⟨g, hg, s, hs, hmem⟩ := h
  rw [length_scanEntries]
  have hcount := pieces_intercalate (groups.map Group.render)
  rw [List.map_map] at hcount
  exact (length_lt_sum (fun g _ => pieces_render_pos g) hg
    (two_le_pieces_render hs hmem)).trans_eq hcount.symm

theorem noSemicolon_of_map_eq {δ : Type} (component : ComponentParser α γ)
    {groups : List (Group α)} {entry : List γ × List α → δ} {group : Group α → δ}
    (heq : (scanEntries component ([lit ';'].intercalate (groups.map Group.render))).map entry =
      groups.map group) : NoSemicolon groups := by
  by_contra hsemicolon
  have hlt := length_lt_scanEntries component hsemicolon
  have hlength := congrArg List.length heq
  rw [List.length_map, List.length_map] at hlength
  exact absurd hlength (Nat.ne_of_gt hlt)

end Reading

/-! ### Both clients -/

/-- A group as a client returns it: one component alone, more of them together. -/
def Group.returned {α γ : Type} [Alphabet α] (comp : Component α → γ) (g : Group α) :
    Key γ × Double :=
  (match g.key with
    | [c] => .scalar (comp c)
    | key => .tuple (key.map comp), .finite g.value.1)

/-- The brackets are taken off. -/
theorem renderGroups_inner {α : Type} [Alphabet α] (groups : List (Group α)) :
    ((renderGroups groups).head? = some (lit '[') ∧
        (renderGroups groups).getLast? = some (lit ']')) ∧
      (renderGroups groups).tail.dropLast = [lit ';'].intercalate (groups.map Group.render) := by
  refine ⟨⟨rfl, ?_⟩, ?_⟩
  · rw [renderGroups, ← List.cons_append, List.getLast?_concat]
  · rw [renderGroups, List.tail_cons, List.dropLast_concat]

theorem inner_ne_nil {α : Type} [DecidableEq α] [Alphabet α] (r : Grouping α) :
    [lit ';'].intercalate (r.groups.map Group.render) ≠ [] := by
  obtain ⟨g, hg⟩ := List.exists_mem_of_ne_nil _ r.groups_ne_nil
  exact List.ne_nil_of_mem
    (Escape.mem_intercalate_of_mem (List.mem_map_of_mem hg) (colon_mem_render g))

namespace Py

/-- A component as Python has it. -/
def GbComponent.of : Component Char → GbComponent
  | .int n => .int n.1
  | .str s => .str s.1

theorem map_lit (s : Text) : s.map (lit : Char → Char) = s := List.map_id s

theorem read_eq (c : Component Char) : c.read GbComponent.str bareComponent = GbComponent.of c := by
  cases c with
  | str s => rfl
  | int n => simp [Component.read, map_lit, bareComponent, int?_intText (fits_of_exact n.2),
    GbComponent.of]

theorem strip_renderGroups (groups : List (Group Char)) :
    strip (renderGroups groups) = renderGroups groups :=
  strip_bracketed _

theorem decodeGroups_render (r : Grouping Char) :
    decodeGroups (decide (1 < r.width)) (renderGroups r.groups) =
      (scanEntries parseGbComponent ([lit ';'].intercalate (r.groups.map Group.render))).map
        fun (comps, value) => (if 1 < r.width then .tuple comps else
          .scalar (comps.headD (.str [])), valueNum value) := by
  obtain ⟨hframe, hinner⟩ := renderGroups_inner r.groups
  have hbrackets : (renderGroups r.groups).head? = some '[' ∧
      (renderGroups r.groups).getLast? = some ']' := hframe
  rw [decodeGroups, strip_renderGroups]
  dsimp only
  rw [if_pos hbrackets, hinner, if_neg (inner_ne_nil r)]
  simp only [decide_eq_true_eq]

/-- Python returns the groups, exactly if no string holds a `;`. -/
theorem decodeGroups_iff (r : Grouping Char) :
    decodeGroups (decide (1 < r.width)) (renderGroups r.groups) =
      r.groups.map (Group.returned GbComponent.of) ↔ NoSemicolon r.groups := by
  rw [decodeGroups_render]
  constructor
  · exact noSemicolon_of_map_eq parseGbComponent
  · intro h
    rw [parseGbComponent, scanEntries_render _ _ r h, List.map_map]
    apply List.map_congr_left
    intro g hg
    have hlength := r.key_length g hg
    have hpos := r.width_pos
    have hvalue : valueNum ((intText g.value.1).map lit) = .finite g.value.1 := by
      rw [map_lit, valueNum, float?_intText, ofRat_intCast g.value.2]
      rfl
    simp only [Function.comp_apply, hvalue, Group.returned, funext read_eq]
    rcases hkey : g.key with _ | ⟨c, _ | ⟨c', key⟩⟩
    · simp only [hkey, List.length_nil] at hlength
      omega
    · simp only [hkey, List.length_singleton] at hlength
      simp [← hlength]
    · simp only [hkey, List.length_cons] at hlength
      simp [← hlength]

end Py

namespace Js

/-- A component as JavaScript has it. -/
def GbComponent.of : Component UInt16 → GbComponent
  | .int n => .num (.finite n.1)
  | .str s => .str s.1

theorem ofUnits_intText (i : Int) : ofUnits ((intText i).map lit) = intText i := by
  have hback : ∀ c ∈ intText i, Char.ofNat (lit c : UInt16).toNat = c := by
    intro c hc
    have hascii := toNat_lt_of_mem_intText hc
    have hunit : (lit c : UInt16).toNat = c.toNat := by
      show (UInt16.ofNat c.toNat).toNat = c.toNat
      rw [UInt16.toNat_ofNat', Nat.mod_eq_of_lt (by omega)]
    rw [hunit, Char.ofNat_toNat]
  rw [ofUnits, List.map_map]
  conv_rhs => rw [← List.map_id (intText i)]
  exact List.map_congr_left hback

theorem read_eq (c : Component UInt16) :
    c.read GbComponent.str bareComponent = GbComponent.of c := by
  cases c with
  | str s => rfl
  | int n =>
    have hne : intText n.1 ≠ [] := (Py.intText_isWord n.1).1
    simp [Component.read, bareComponent, ofUnits_intText, number_intText, ofRat_intCast n.2, hne,
      GbComponent.of]

theorem parseGroupBy_render (r : Grouping UInt16) :
    parseGroupBy (renderGroups r.groups) =
      some ((scanEntries parseGbComponent ([lit ';'].intercalate (r.groups.map Group.render))).map
        fun (comps, value) =>
          (match comps with
            | [comp] => .scalar comp
            | comps => .tuple comps, number (ofUnits value))) := by
  obtain ⟨hframe, hinner⟩ := renderGroups_inner r.groups
  rw [parseGroupBy, if_neg (not_not_intro hframe), hinner]
  dsimp only
  rw [if_neg (inner_ne_nil r)]

/-- JavaScript returns the groups, exactly if no string holds a `;`. -/
theorem parseGroupBy_iff (r : Grouping UInt16) :
    parseGroupBy (renderGroups r.groups) =
      some (r.groups.map (Group.returned GbComponent.of)) ↔ NoSemicolon r.groups := by
  rw [parseGroupBy_render, Option.some_inj]
  constructor
  · exact noSemicolon_of_map_eq parseGbComponent
  · intro h
    rw [parseGbComponent, scanEntries_render _ _ r h, List.map_map]
    apply List.map_congr_left
    intro g _
    simp only [Function.comp_apply, ofUnits_intText, number_intText, ofRat_intCast g.value.2,
      Group.returned, funext read_eq]
    rcases g.key with _ | ⟨c, _ | ⟨c', key⟩⟩ <;> simp

end Js

/-- **The decoders of both clients return the groups, exactly if no string of a key holds
a `;`.** Neither looks at quotes before it cuts the body into entries. -/
theorem groupBy_decoded_iff (r : Grouping Char) (r' : Grouping UInt16) :
    (Py.decodeGroups (decide (1 < r.width)) (renderGroups r.groups) =
        r.groups.map (Group.returned Py.GbComponent.of) ↔ NoSemicolon r.groups) ∧
      (Js.parseGroupBy (renderGroups r'.groups) =
        some (r'.groups.map (Group.returned Js.GbComponent.of)) ↔ NoSemicolon r'.groups) :=
  ⟨Py.decodeGroups_iff r, Js.parseGroupBy_iff r'⟩

/-- One group with the key `a;b` and the value 7 comes back as two: `a` with the value 0,
and `b"` with the value 7. -/
theorem groupBy_cuts_quoted_key :
    let groups : List (Group Char) := [⟨[.str ⟨['a', ';', 'b'], by decide⟩], ⟨7, by decide⟩⟩]
    let groups' : List (Group UInt16) :=
      [⟨[.str ⟨[lit 'a', lit ';', lit 'b'], by decide⟩], ⟨7, by decide⟩⟩]
    Py.decodeGroups false (renderGroups groups) =
        [(.scalar (.str ['a']), .finite 0), (.scalar (.str ['b', '"']), .finite 7)] ∧
      Js.parseGroupBy (renderGroups groups') =
        some [(.scalar (.str [lit 'a']), .finite 0),
          (.scalar (.str [lit 'b', lit '"']), .finite 7)] ∧
      Py.decodeGroups false (renderGroups groups) ≠
        groups.map (Group.returned Py.GbComponent.of) ∧
      Js.parseGroupBy (renderGroups groups') ≠
        some (groups'.map (Group.returned Js.GbComponent.of)) := by
  decide +kernel

end CuttleDB
