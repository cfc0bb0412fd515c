import Mathlib.Data.List.Basic
import Mathlib.Algebra.Group.Nat.Even

/-!
# Escape-aware splitting

A scanner reads a text from left to right, keeps a unit that follows the escape
lead-in from acting as a separator, and cuts the text at every other occurrence
of the separator. The file relates that loop to two plain steps: grouping the
text into tokens (`tokenize`) and splitting the token list at the separator with
`List.splitOn`. Every statement about the loop then is one about tokens, where
an escaped unit and the separator cannot be confused.
-/

namespace Escape

variable {α : Type}

/-- One unit of an escaped text: a unit that stands for itself, or the unit that
follows the escape lead-in. -/
inductive Tok (α : Type) where
  | plain (c : α)
  | pair (x : α)
deriving DecidableEq, Repr

/-- The text of a token under the lead-in `e`. -/
def Tok.raw (e : α) : Tok α → List α
  | .plain c => [c]
  | .pair x => [e, x]

/-- What a scanner keeps of a token, when it keeps `f x` of the pair `e x`. -/
def Tok.kept (f : α → List α) : Tok α → List α
  | .plain c => [c]
  | .pair x => f x

@[simp] theorem Tok.raw_plain (e c : α) : (Tok.plain c).raw e = [c] := rfl
@[simp] theorem Tok.raw_pair (e x : α) : (Tok.pair x).raw e = [e, x] := rfl
@[simp] theorem Tok.kept_plain (f : α → List α) (c : α) : (Tok.plain c).kept f = [c] := rfl
@[simp] theorem Tok.kept_pair (f : α → List α) (x : α) : (Tok.pair x).kept f = f x := rfl

theorem flatMap_kept_plain (f : α → List α) (s : List α) :
    (s.map Tok.plain).flatMap (Tok.kept f) = s := by
  induction s with
  | nil => rfl
  | cons c s ih => simp [ih]

/-! ### Splitting a mapped list -/

theorem splitOn_map_of_injective {β : Type} [DecidableEq α] [DecidableEq β]
    {f : α → β} (hf : Function.Injective f) (sep : α) (xs : List α) :
    (xs.map f).splitOn (f sep) = (xs.splitOn sep).map (List.map f) := by
  induction xs with
  | nil => rfl
  | cons x xs ih =>
    rw [List.map_cons, List.splitOn_cons_eq_if_modifyHead, List.splitOn_cons_eq_if_modifyHead, ih]
    by_cases hx : x = sep
    · simp [hx]
    · have hfx : f x ≠ f sep := fun h => hx (hf h)
      rw [if_neg (by simpa using hfx), if_neg (by simpa using hx)]
      cases xs.splitOn sep <;> simp

/-! ### Joined pieces -/

theorem mem_intercalate {s x : α} {ps : List (List α)} (h : x ∈ [s].intercalate ps) :
    x = s ∨ ∃ p ∈ ps, x ∈ p := by
  induction ps with
  | nil => simp at h
  | cons p ps ih =>
    cases ps with
    | nil => exact Or.inr ⟨p, by simp, by simpa using h⟩
    | cons q qs =>
      simp only [List.intercalate_cons_cons, List.mem_append, List.mem_singleton] at h
      rcases h with (hp | rfl) | hrest
      · exact Or.inr ⟨p, by simp, hp⟩
      · exact Or.inl rfl
      · rcases ih hrest with hs | ⟨r, hr, hx⟩
        · exact Or.inl hs
        · exact Or.inr ⟨r, List.mem_cons_of_mem _ hr, hx⟩

theorem infix_intercalate {s : α} {p : List α} {ps : List (List α)} (hp : p ∈ ps) :
    p <:+: [s].intercalate ps := by
  induction ps with
  | nil => cases hp
  | cons q ps ih =>
    cases ps with
    | nil =>
      obtain rfl : p = q := by simpa using hp
      simp
    | cons r rs =>
      rw [List.intercalate_cons_cons]
      rcases List.mem_cons.mp hp with rfl | hp
      · exact ⟨[], [s] ++ [s].intercalate (r :: rs), by simp⟩
      · exact (ih hp).trans List.infix_append_right

theorem mem_intercalate_of_mem {s x : α} {p : List α} {ps : List (List α)}
    (hp : p ∈ ps) (hx : x ∈ p) : x ∈ [s].intercalate ps :=
  (infix_intercalate hp).subset hx

theorem flatMap_intercalate {β : Type} (f : α → List β) (sep : List α) (ps : List (List α)) :
    (sep.intercalate ps).flatMap f =
      (sep.flatMap f).intercalate (ps.map (List.flatMap f)) := by
  induction ps with
  | nil => rfl
  | cons p ps ih =>
    cases ps with
    | nil => simp
    | cons q qs =>
      simp only [List.map_cons, List.intercalate_cons_cons, List.flatMap_append] at ih ⊢
      rw [ih]

theorem flatMap_raw_intercalate (e sep : α) (pieces : List (List (Tok α))) :
    ([Tok.plain sep].intercalate pieces).flatMap (Tok.raw e) =
      [sep].intercalate (pieces.map (List.flatMap (Tok.raw e))) :=
  flatMap_intercalate (Tok.raw e) [Tok.plain sep] pieces

/-- The positions of the separators that join the pieces. -/
def cuts : List (List α) → List Nat
  | [] => []
  | [_] => []
  | p :: q :: ps => p.length :: (cuts (q :: ps)).map (p.length + 1 + ·)

theorem cuts_nil_cons {ps : List (List α)} (h : ps ≠ []) :
    cuts ([] :: ps) = 0 :: (cuts ps).map (1 + ·) := by
  obtain ⟨q, qs, rfl⟩ := List.exists_cons_of_ne_nil h
  simp [cuts]

theorem cuts_modifyHead (w : List α) (ps : List (List α)) :
    cuts (ps.modifyHead (w ++ ·)) = (cuts ps).map (w.length + ·) := by
  match ps with
  | [] => rfl
  | [_] => rfl
  | p :: q :: ps => simp [cuts, Nat.add_assoc, Function.comp_def]

/-- A part of the text that the cuts pass over goes to the first piece. -/
theorem forall_mem_modifyHead {P : List α → Prop} {f : List α → List α} {ps : List (List α)}
    (hfirst : ∀ p, P p → P (f p)) (h : ∀ p ∈ ps, P p) : ∀ p ∈ ps.modifyHead f, P p := by
  cases ps with
  | nil => exact h
  | cons q qs =>
    intro p hp
    rcases List.mem_cons.mp hp with rfl | hp
    · exact hfirst q (h q List.mem_cons_self)
    · exact h p (List.mem_cons_of_mem _ hp)

variable [DecidableEq α]

/-! ### The scanner -/

/-- The loop of a scanner over the rest of the input, with the piece being read
(`cur`) and the pieces already cut (`out`). A lead-in with nothing behind it
stands for itself. -/
def scanLoop (e sep : α) (f : α → List α) :
    List α → List α → List (List α) → List (List α)
  | [], cur, out => out ++ [cur]
  | [c], cur, out =>
    if c = sep then scanLoop e sep f [] [] (out ++ [cur])
    else scanLoop e sep f [] (cur ++ [c]) out
  | c :: x :: rest, cur, out =>
    if c = e then scanLoop e sep f rest (cur ++ f x) out
    else if c = sep then scanLoop e sep f (x :: rest) [] (out ++ [cur])
    else scanLoop e sep f (x :: rest) (cur ++ [c]) out

/-- Cut `s` at every `sep` that the lead-in `e` does not escape. -/
def scan (e sep : α) (f : α → List α) (s : List α) : List (List α) :=
  scanLoop e sep f s [] []

/-- Group a text into tokens. Only a lead-in at the very end becomes a plain one. -/
def tokenize (e : α) : List α → List (Tok α)
  | [] => []
  | [c] => [.plain c]
  | c :: x :: rest =>
    if c = e then .pair x :: tokenize e rest
    else .plain c :: tokenize e (x :: rest)

theorem scanLoop_eq (e sep : α) (f : α → List α) (s : List α) :
    ∀ (cur : List α) (out : List (List α)),
      scanLoop e sep f s cur out =
        out ++ (((tokenize e s).splitOn (.plain sep)).map
          (List.flatMap (Tok.kept f))).modifyHead (cur ++ ·) := by
  induction s using tokenize.induct e with
  | case1 => intro cur out; simp [scanLoop, tokenize]
  | case2 c =>
    intro cur out
    by_cases hc : c = sep
    · simp [scanLoop, tokenize, hc, List.splitOn_cons_eq_if_modifyHead]
    · simp [scanLoop, tokenize, hc, List.splitOn_cons_eq_if_modifyHead]
  | case3 x rest ih =>
    intro cur out
    rw [scanLoop, if_pos rfl, ih, tokenize, if_pos rfl, List.splitOn_cons_eq_if_modifyHead,
      if_neg (by simp)]
    cases (tokenize e rest).splitOn (.plain sep) <;> simp
  | case4 c x rest hc ih =>
    intro cur out
    rw [scanLoop, if_neg hc, tokenize, if_neg hc, List.splitOn_cons_eq_if_modifyHead]
    by_cases hs : c = sep
    · rw [if_pos hs, ih, if_pos (by simp [hs])]
      cases (tokenize e (x :: rest)).splitOn (.plain sep) <;> simp
    · rw [if_neg hs, ih, if_neg (by simp [hs])]
      cases (tokenize e (x :: rest)).splitOn (.plain sep) <;> simp

/-- **The scanner is tokenizing, then splitting.** -/
theorem scan_eq (e sep : α) (f : α → List α) (s : List α) :
    scan e sep f s =
      ((tokenize e s).splitOn (.plain sep)).map (List.flatMap (Tok.kept f)) := by
  rw [scan, scanLoop_eq]
  cases (tokenize e s).splitOn (.plain sep) <;> simp

theorem mem_of_mem_splitOn {sep x : α} {s piece : List α} (hpiece : piece ∈ s.splitOn sep)
    (hx : x ∈ piece) : x ∈ s := by
  have hmem : x ∈ [sep].intercalate (s.splitOn sep) := mem_intercalate_of_mem hpiece hx
  rwa [List.intercalate_splitOn] at hmem

theorem not_mem_of_mem_splitOn {sep : α} {s piece : List α} (hpiece : piece ∈ s.splitOn sep) :
    sep ∉ piece := by
  induction s generalizing piece with
  | nil =>
    obtain rfl : piece = [] := by simpa using hpiece
    simp
  | cons c s ih =>
    rw [List.splitOn_cons_eq_if_modifyHead] at hpiece
    split at hpiece
    · rcases List.mem_cons.mp hpiece with rfl | hpiece
      · simp
      · exact ih hpiece
    · rename_i hc
      cases hs : s.splitOn sep with
      | nil => simp [hs] at hpiece
      | cons q qs =>
        have hq : sep ∉ q := ih (by simp [hs])
        simp only [hs, List.modifyHead_cons, List.mem_cons] at hpiece
        rcases hpiece with rfl | hpiece
        · simpa [hq] using fun heq => hc (by simp [heq])
        · exact ih (by simp [hs, hpiece])

/-- A list of texts that has been joined: it was empty and so is the text, or the split gives
it back. -/
theorem splitOn_joined {sep : α} {texts : List (List α)} (hsep : ∀ t ∈ texts, sep ∉ t)
    (hne : ∀ t ∈ texts, t ≠ []) :
    (texts = [] ∧ [sep].intercalate texts = []) ∨
      ([sep].intercalate texts ≠ [] ∧ ([sep].intercalate texts).splitOn sep = texts) := by
  cases texts with
  | nil => exact Or.inl ⟨rfl, rfl⟩
  | cons t ts =>
    refine Or.inr ⟨fun hnil => ?_, List.splitOn_intercalate _ hsep (List.cons_ne_nil _ _)⟩
    have hinfix : t <:+: [sep].intercalate (t :: ts) := infix_intercalate List.mem_cons_self
    rw [hnil, List.infix_nil] at hinfix
    exact hne t List.mem_cons_self hinfix

/-- A translation that writes the separator as a unit of its own commutes with the
split. -/
theorem splitOn_flatMap {β : Type} [DecidableEq β] {f : α → List β} {sep : α} {sep' : β}
    (hsep : f sep = [sep']) (hother : ∀ c, c ≠ sep → sep' ∉ f c) (s : List α) :
    (s.flatMap f).splitOn sep' = (s.splitOn sep).map (List.flatMap f) := by
  have hpieces : ∀ p ∈ (s.splitOn sep).map (List.flatMap f), sep' ∉ p := by
    intro p hp hmem
    obtain ⟨q, hq, rfl⟩ := List.mem_map.mp hp
    obtain ⟨c, hc, hcmem⟩ := List.mem_flatMap.mp hmem
    have hne : c ≠ sep := fun heq => not_mem_of_mem_splitOn hq (heq ▸ hc)
    exact hother c hne hcmem
  have hjoin : s.flatMap f = [sep'].intercalate ((s.splitOn sep).map (List.flatMap f)) := by
    have hpieces := congrArg (List.flatMap f) (List.intercalate_splitOn sep : _ = s)
    rw [flatMap_intercalate, List.flatMap_singleton, hsep] at hpieces
    exact hpieces.symm
  rw [hjoin, List.splitOn_intercalate _ hpieces (by simp)]

/-! ### Tokens and texts -/

theorem tokenize_cons_of_ne {e c : α} (hc : c ≠ e) (rest : List α) :
    tokenize e (c :: rest) = .plain c :: tokenize e rest := by
  cases rest with
  | nil => rfl
  | cons x rest => rw [tokenize, if_neg hc]

theorem tokenize_pair (e x : α) (rest : List α) :
    tokenize e (e :: x :: rest) = .pair x :: tokenize e rest := by
  rw [tokenize, if_pos rfl]

/-- A list of tokens is read back from its text, when no plain token is the
lead-in. -/
theorem tokenize_flatMap_raw {e : α} {toks : List (Tok α)} (h : Tok.plain e ∉ toks) :
    tokenize e (toks.flatMap (Tok.raw e)) = toks := by
  induction toks with
  | nil => rfl
  | cons t toks ih =>
    have htail : Tok.plain e ∉ toks := fun hmem => h (List.mem_cons_of_mem _ hmem)
    cases t with
    | plain c =>
      have hc : c ≠ e := fun hce => h (by simp [hce])
      simp [tokenize_cons_of_ne hc, ih htail]
    | pair x => simp [tokenize_pair, ih htail]

/-- A text without the lead-in consists of plain tokens. -/
theorem tokenize_of_not_mem {e : α} {s : List α} (h : e ∉ s) :
    tokenize e s = s.map .plain := by
  induction s with
  | nil => rfl
  | cons c s ih =>
    have hc : c ≠ e := fun hce => h (by simp [hce])
    rw [tokenize_cons_of_ne hc, ih (fun hmem => h (List.mem_cons_of_mem _ hmem)), List.map_cons]

/-- Where the lead-in does not occur, the scanner is the native split. -/
theorem scan_of_not_mem {e : α} (sep : α) (f : α → List α) {s : List α} (h : e ∉ s) :
    scan e sep f s = s.splitOn sep := by
  have hplain : Function.Injective (Tok.plain : α → Tok α) := fun _ _ heq => Tok.plain.inj heq
  rw [scan_eq, tokenize_of_not_mem h, splitOn_map_of_injective hplain, List.map_map]
  conv_rhs => rw [← List.map_id (s.splitOn sep)]
  exact List.map_congr_left fun piece _ => flatMap_kept_plain f piece

/-- **Joined pieces are cut apart again.** Pieces given as tokens, none of them
holding the bare separator or a bare lead-in, come back as what the scanner keeps
of their tokens. -/
theorem scan_intercalate {e sep : α} (f : α → List α) (hsep : sep ≠ e)
    {pieces : List (List (Tok α))} (hne : pieces ≠ [])
    (hsepFree : ∀ toks ∈ pieces, Tok.plain sep ∉ toks)
    (hleadFree : ∀ toks ∈ pieces, Tok.plain e ∉ toks) :
    scan e sep f ([sep].intercalate (pieces.map (List.flatMap (Tok.raw e)))) =
      pieces.map (List.flatMap (Tok.kept f)) := by
  have hfree : Tok.plain e ∉ [Tok.plain sep].intercalate pieces := by
    intro hmem
    rcases mem_intercalate hmem with heq | ⟨piece, hpiece, hin⟩
    · exact hsep (Tok.plain.inj heq).symm
    · exact hleadFree piece hpiece hin
  rw [scan_eq, ← flatMap_raw_intercalate, tokenize_flatMap_raw hfree,
    List.splitOn_intercalate _ hsepFree hne]

/-! ### The first separator that is not escaped -/

/-- The number of lead-ins in a row at the end of `s`. -/
def trailing (e : α) (s : List α) : Nat := (s.reverse.takeWhile (· = e)).length

/-- Position `i` of `s` holds the separator, behind an even number of lead-ins. -/
def UnescapedAt (e sep : α) (s : List α) (i : Nat) : Prop :=
  s[i]? = some sep ∧ Even (trailing e (s.take i))

/-- Cut `s` at the first separator that the lead-in `e` does not escape. -/
def cutUnescaped (e sep : α) : List α → Option (List α × List α)
  | [] => none
  | [c] => if c = sep then some ([], []) else none
  | c :: x :: rest =>
    if c = e then (cutUnescaped e sep rest).map fun (p, q) => (c :: x :: p, q)
    else if c = sep then some ([], x :: rest)
    else (cutUnescaped e sep (x :: rest)).map fun (p, q) => (c :: p, q)

theorem trailing_cons_of_ne {e c : α} (hc : c ≠ e) (s : List α) :
    trailing e (c :: s) = trailing e s := by
  unfold trailing
  rw [List.reverse_cons, List.takeWhile_append]
  split <;> simp [hc]
  rename_i hall
  simpa using hall.symm

/-- A lead-in and the unit behind it leave the parity as it is. -/
theorem even_trailing_pair (e x : α) (s : List α) :
    Even (trailing e (e :: x :: s)) ↔ Even (trailing e s) := by
  have hrev : (e :: x :: s).reverse = s.reverse ++ [x, e] := by simp
  unfold trailing
  rw [hrev, List.takeWhile_append]
  split
  · rename_i hall
    by_cases hx : x = e
    · have htwo : Even 2 := ⟨1, rfl⟩
      simp [hx, hall, Nat.even_add, htwo]
    · simp [hx, hall]
  · rfl

theorem not_unescapedAt_nil (e sep : α) (i : Nat) : ¬ UnescapedAt e sep [] i := by
  simp [UnescapedAt]

theorem unescapedAt_zero {e sep c : α} {s : List α} :
    UnescapedAt e sep (c :: s) 0 ↔ c = sep := by
  simp [UnescapedAt, trailing]

theorem unescapedAt_succ {e sep c : α} (hc : c ≠ e) (s : List α) (i : Nat) :
    UnescapedAt e sep (c :: s) (i + 1) ↔ UnescapedAt e sep s i := by
  simp [UnescapedAt, trailing_cons_of_ne hc]

theorem unescapedAt_pair {e sep : α} (x : α) (s : List α) (i : Nat) :
    UnescapedAt e sep (e :: x :: s) (i + 2) ↔ UnescapedAt e sep s i := by
  simp [UnescapedAt, even_trailing_pair]

theorem not_unescapedAt_one {e sep : α} (x : α) (s : List α) :
    ¬ UnescapedAt e sep (e :: x :: s) 1 := by
  simp [UnescapedAt, trailing]

/-- **What the cut finds:** nothing only where every separator is escaped, and the first
of those that are not. -/
theorem cutUnescaped_spec {e sep : α} (hsep : sep ≠ e) (s : List α) :
    match cutUnescaped e sep s with
    | none => ∀ i, ¬ UnescapedAt e sep s i
    | some (p, q) => s = p ++ sep :: q ∧ UnescapedAt e sep s p.length ∧
        ∀ i < p.length, ¬ UnescapedAt e sep s i := by
  induction s using tokenize.induct e with
  | case1 => exact not_unescapedAt_nil e sep
  | case2 c =>
    by_cases hc : c = sep
    · simp [cutUnescaped, hc, unescapedAt_zero]
    · have hnone : ∀ i, ¬ UnescapedAt e sep [c] i := by
        intro i
        cases i with
        | zero => simpa [unescapedAt_zero] using hc
        | succ i => simp [UnescapedAt]
      simpa [cutUnescaped, hc] using hnone
  | case3 x rest ih =>
    have hskip : ∀ i < 2, ¬ UnescapedAt e sep (e :: x :: rest) i := by
      intro i hi
      obtain rfl | rfl : i = 0 ∨ i = 1 := by omega
      · simpa [unescapedAt_zero] using hsep.symm
      · exact not_unescapedAt_one x rest
    cases hcut : cutUnescaped e sep rest with
    | none =>
      simp only [hcut] at ih
      simp only [cutUnescaped, if_pos, hcut, Option.map_none]
      intro i
      by_cases hi : i < 2
      · exact hskip i hi
      · obtain ⟨j, rfl⟩ := Nat.exists_eq_add_of_le' (Nat.le_of_not_lt hi)
        simpa [unescapedAt_pair] using ih j
    | some cut =>
      obtain ⟨p, q⟩ := cut
      simp only [hcut] at ih
      obtain ⟨hs, hat, hbefore⟩ := ih
      simp only [cutUnescaped, if_pos, hcut, Option.map_some]
      refine ⟨by simp [hs], ?_, ?_⟩
      · simpa [unescapedAt_pair] using hat
      · intro i hi
        by_cases hlt : i < 2
        · exact hskip i hlt
        · obtain ⟨j, rfl⟩ := Nat.exists_eq_add_of_le' (Nat.le_of_not_lt hlt)
          simpa [unescapedAt_pair] using hbefore j (by simpa using hi)
  | case4 c x rest hc ih =>
    by_cases hcsep : c = sep
    · simp [cutUnescaped, hcsep, hsep, unescapedAt_zero]
    · have hzero : ¬ UnescapedAt e sep (c :: x :: rest) 0 := by simpa [unescapedAt_zero] using hcsep
      cases hcut : cutUnescaped e sep (x :: rest) with
      | none =>
        simp only [hcut] at ih
        simp only [cutUnescaped, if_neg hc, if_neg hcsep, hcut, Option.map_none]
        intro i
        cases i with
        | zero => exact hzero
        | succ i => simpa [unescapedAt_succ hc] using ih i
      | some cut =>
        obtain ⟨p, q⟩ := cut
        simp only [hcut] at ih
        obtain ⟨hs, hat, hbefore⟩ := ih
        simp only [cutUnescaped, if_neg hc, if_neg hcsep, hcut, Option.map_some]
        refine ⟨by simp [hs], ?_, ?_⟩
        · simpa [unescapedAt_succ hc] using hat
        · intro i hi
          cases i with
          | zero => exact hzero
          | succ i => simpa [unescapedAt_succ hc] using hbefore i (by simpa using hi)

theorem cutUnescaped_cons_of_ne {e sep c : α} (hsep : c ≠ sep) (hlead : c ≠ e) (s : List α) :
    cutUnescaped e sep (c :: s) = (cutUnescaped e sep s).map fun (p, q) => (c :: p, q) := by
  cases s with
  | nil => simp [cutUnescaped, hsep]
  | cons x rest => simp [cutUnescaped, hsep, hlead]

/-- The cut passes over tokens without a bare separator or a bare lead-in. -/
theorem cutUnescaped_flatMap_raw {e sep : α} {toks : List (Tok α)}
    (hsepFree : Tok.plain sep ∉ toks) (hleadFree : Tok.plain e ∉ toks) (t : List α) :
    cutUnescaped e sep (toks.flatMap (Tok.raw e) ++ t) =
      (cutUnescaped e sep t).map fun (p, q) => (toks.flatMap (Tok.raw e) ++ p, q) := by
  induction toks with
  | nil => simp
  | cons tok toks ih =>
    simp only [List.mem_cons, not_or] at hsepFree hleadFree
    have htail := ih hsepFree.2 hleadFree.2
    cases tok with
    | plain c =>
      have hsep : c ≠ sep := fun heq => hsepFree.1 (by rw [heq])
      have hlead : c ≠ e := fun heq => hleadFree.1 (by rw [heq])
      simp [cutUnescaped_cons_of_ne hsep hlead, htail, Function.comp_def]
    | pair x => simp [cutUnescaped, htail, Function.comp_def]

/-! ### A scanner that keeps what it escapes

Such a scanner only cuts: its pieces are parts of the text. -/

theorem scan_ne_nil (e sep : α) (f : α → List α) (s : List α) : scan e sep f s ≠ [] := by
  rw [scan_eq, ne_eq, List.map_eq_nil_iff]
  exact List.splitOn_ne_nil _ _

theorem scan_pair (e sep : α) (f : α → List α) (x : α) (s : List α) :
    scan e sep f (e :: x :: s) = (scan e sep f s).modifyHead (f x ++ ·) := by
  rw [scan_eq, tokenize_pair, List.splitOn_cons_eq_if_modifyHead, if_neg (by simp), scan_eq]
  cases (tokenize e s).splitOn (.plain sep) <;> simp

theorem scan_sep {e sep : α} (hsep : sep ≠ e) (f : α → List α) (s : List α) :
    scan e sep f (sep :: s) = [] :: scan e sep f s := by
  rw [scan_eq, tokenize_cons_of_ne hsep, List.splitOn_cons_eq_if_modifyHead, if_pos (by simp),
    scan_eq]
  rfl

theorem scan_cons_of_ne {e sep c : α} (hc : c ≠ e) (hsep : c ≠ sep) (f : α → List α)
    (s : List α) : scan e sep f (c :: s) = (scan e sep f s).modifyHead (c :: ·) := by
  rw [scan_eq, tokenize_cons_of_ne hc, List.splitOn_cons_eq_if_modifyHead,
    if_neg (by simpa using hsep), scan_eq]
  cases (tokenize e s).splitOn (.plain sep) <;> simp

/-- A lead-in at the very end stands for itself. -/
theorem scan_singleton {e sep c : α} (hsep : c ≠ sep) (f : α → List α) :
    scan e sep f [c] = [[c]] := by
  simp [scan, scanLoop, hsep]

theorem flatMap_raw_tokenize (e : α) (s : List α) : (tokenize e s).flatMap (Tok.raw e) = s := by
  induction s using tokenize.induct e with
  | case1 => rfl
  | case2 c => rfl
  | case3 x rest ih => rw [tokenize_pair, List.flatMap_cons, ih]; rfl
  | case4 c x rest hc ih => rw [tokenize_cons_of_ne hc, List.flatMap_cons, ih]; rfl

/-- **Nothing is lost:** the pieces, joined, are the text. -/
theorem intercalate_scan (e sep : α) (s : List α) :
    [sep].intercalate (scan e sep (fun x => [e, x]) s) = s := by
  have hraw : Tok.kept (fun x => [e, x]) = Tok.raw e := by
    funext t
    cases t <;> rfl
  rw [scan_eq, hraw, ← flatMap_raw_intercalate, List.intercalate_splitOn, flatMap_raw_tokenize]

/-- **A piece is not cut again.** -/
theorem scan_of_mem_scan {e sep : α} (hsep : sep ≠ e) (s : List α) :
    ∀ piece ∈ scan e sep (fun x => [e, x]) s, scan e sep (fun x => [e, x]) piece = [piece] := by
  have hempty : scan e sep (fun x => [e, x]) [] = [[]] := rfl
  induction s using tokenize.induct e with
  | case1 => simp [hempty]
  | case2 c =>
    by_cases hc : c = sep
    · subst hc
      simp [scan_sep hsep, hempty]
    · simp [scan_singleton hc]
  | case3 x rest ih =>
    rw [scan_pair]
    refine forall_mem_modifyHead (fun p hp => ?_) ih
    rw [List.cons_append, List.cons_append, List.nil_append, scan_pair, hp]
    rfl
  | case4 c x rest hc ih =>
    by_cases hcsep : c = sep
    · subst hcsep
      rw [scan_sep hsep]
      exact List.forall_mem_cons.mpr ⟨hempty, ih⟩
    · rw [scan_cons_of_ne hc hcsep]
      refine forall_mem_modifyHead (fun p hp => ?_) ih
      rw [scan_cons_of_ne hc hcsep, hp]
      rfl

/-- **The text is cut at the separators that are not escaped, and nowhere else.** -/
theorem unescapedAt_iff_mem_cuts {e sep : α} (hsep : sep ≠ e) (s : List α) (i : Nat) :
    UnescapedAt e sep s i ↔ i ∈ cuts (scan e sep (fun x => [e, x]) s) := by
  induction s using tokenize.induct e generalizing i with
  | case1 => simpa [scan, scanLoop, cuts] using not_unescapedAt_nil e sep i
  | case2 c =>
    have hlast : ∀ j, ¬ UnescapedAt e sep [c] (j + 1) := by simp [UnescapedAt]
    by_cases hc : c = sep
    · subst hc
      rw [scan_sep hsep, cuts_nil_cons (scan_ne_nil _ _ _ _)]
      cases i with
      | zero => simp [unescapedAt_zero]
      | succ i => simpa [scan, scanLoop, cuts] using hlast i
    · rw [scan_singleton hc]
      cases i with
      | zero => simpa [unescapedAt_zero, cuts] using hc
      | succ i => simpa [cuts] using hlast i
  | case3 x rest ih =>
    have hmem : i ∈ cuts (scan e sep (fun x => [e, x]) (e :: x :: rest)) ↔
        ∃ j ∈ cuts (scan e sep (fun x => [e, x]) rest), 2 + j = i := by
      rw [scan_pair, cuts_modifyHead, List.mem_map]
      rfl
    rw [hmem]
    match i with
    | 0 => simpa [unescapedAt_zero] using hsep.symm
    | 1 =>
      refine iff_of_false (not_unescapedAt_one x rest) ?_
      rintro ⟨j, -, hj⟩
      omega
    | i + 2 =>
      rw [unescapedAt_pair, ih]
      constructor
      · exact fun hi => ⟨i, hi, Nat.add_comm 2 i⟩
      · rintro ⟨j, hj, heq⟩
        obtain rfl : j = i := by omega
        exact hj
  | case4 c x rest hc ih =>
    by_cases hcsep : c = sep
    · subst hcsep
      rw [scan_sep hsep, cuts_nil_cons (scan_ne_nil _ _ _ _)]
      cases i with
      | zero => simp [unescapedAt_zero]
      | succ i => simp [unescapedAt_succ hc, ih, Nat.add_comm 1]
    · have hhead : (scan e sep (fun x => [e, x]) (x :: rest)).modifyHead (c :: ·) =
          (scan e sep (fun x => [e, x]) (x :: rest)).modifyHead ([c] ++ ·) := rfl
      rw [scan_cons_of_ne hc hcsep, hhead, cuts_modifyHead]
      cases i with
      | zero => simpa [unescapedAt_zero] using hcsep
      | succ i => simp [unescapedAt_succ hc, ih, Nat.add_comm 1]

/-! ### Transcoding

A translation `f` of the units into another alphabet that writes the lead-in as one
unit, and that unit for nothing else, translates the scanner: only the first unit of
an escaped character is escaped in the other alphabet. -/

theorem tokenize_append_of_not_mem {e : α} {s : List α} (h : e ∉ s) (t : List α) :
    tokenize e (s ++ t) = s.map .plain ++ tokenize e t := by
  induction s with
  | nil => rfl
  | cons c s ih =>
    have hc : c ≠ e := fun hce => h (by simp [hce])
    rw [List.cons_append, tokenize_cons_of_ne hc, ih fun hmem => h (List.mem_cons_of_mem _ hmem)]
    rfl

section Transcoding

variable {β : Type} {f : α → List β}

/-- The tokens that the translation of a token's text has. -/
def Tok.transcode (f : α → List β) : Tok α → List (Tok β)
  | .plain c => (f c).map .plain
  | .pair x =>
    match f x with
    | [] => []
    | u :: us => .pair u :: us.map .plain

theorem plain_not_mem_transcode {sep : α} {sep' : β} (hother : ∀ c, c ≠ sep → sep' ∉ f c)
    (hsep : f sep = [sep']) {t : Tok α} (ht : t ≠ .plain sep) :
    Tok.plain sep' ∉ t.transcode f := by
  cases t with
  | plain c =>
    have hc : c ≠ sep := fun heq => ht (by rw [heq])
    simpa [Tok.transcode] using hother c hc
  | pair x =>
    unfold Tok.transcode
    by_cases hx : x = sep
    · simp [hx, hsep]
    · cases hfx : f x with
      | nil => simp [hfx]
      | cons u us =>
        have hfree := hother x hx
        simp only [hfx, List.mem_cons, not_or] at hfree
        simpa [hfx] using hfree.2

omit [DecidableEq α] in
theorem flatMap_kept_transcode {g : α → List α} {g' : β → List β}
    (hkept : ∀ x u us, f x = u :: us → g' u ++ us = (g x).flatMap f) (hne : ∀ c, f c ≠ [])
    (t : Tok α) : (t.transcode f).flatMap (Tok.kept g') = (t.kept g).flatMap f := by
  cases t with
  | plain c => simp [Tok.transcode, flatMap_kept_plain]
  | pair x =>
    cases hfx : f x with
    | nil => exact absurd hfx (hne x)
    | cons u us => simp [Tok.transcode, hfx, flatMap_kept_plain, hkept x u us hfx]

variable [DecidableEq β] {e : α} {e' : β}

theorem tokenize_flatMap (he : f e = [e']) (hother : ∀ c, c ≠ e → e' ∉ f c)
    (hne : ∀ c, f c ≠ []) (s : List α) :
    tokenize e' (s.flatMap f) = (tokenize e s).flatMap (Tok.transcode f) := by
  induction s using tokenize.induct e with
  | case1 => rfl
  | case2 c =>
    by_cases hc : c = e
    · simp [hc, he, tokenize, Tok.transcode]
    · simp [tokenize, Tok.transcode, tokenize_of_not_mem (hother c hc)]
  | case3 x rest ih =>
    have htail : ∀ u us, f x = u :: us → e' ∉ us := by
      intro u us hfx hmem
      by_cases hx : x = e
      · rw [hx, he] at hfx
        cases hfx
        cases hmem
      · exact hother x hx (hfx ▸ List.mem_cons_of_mem _ hmem)
    cases hfx : f x with
    | nil => exact absurd hfx (hne x)
    | cons u us =>
      rw [List.flatMap_cons, List.flatMap_cons, he, hfx, tokenize_pair]
      rw [List.singleton_append, List.cons_append, tokenize_pair,
        tokenize_append_of_not_mem (htail u us hfx), ih]
      simp [Tok.transcode, hfx]
  | case4 c x rest hc ih =>
    rw [List.flatMap_cons, tokenize_append_of_not_mem (hother c hc), ih, tokenize, if_neg hc,
      List.flatMap_cons]
    rfl

/-- **The scanner commutes with the translation.** -/
theorem scan_flatMap {sep : α} {sep' : β} {g : α → List α} {g' : β → List β}
    (he : f e = [e']) (hlead : ∀ c, c ≠ e → e' ∉ f c) (hsep : f sep = [sep'])
    (hother : ∀ c, c ≠ sep → sep' ∉ f c) (hne : ∀ c, f c ≠ [])
    (hkept : ∀ x u us, f x = u :: us → g' u ++ us = (g x).flatMap f) (s : List α) :
    scan e' sep' g' (s.flatMap f) = (scan e sep g s).map (List.flatMap f) := by
  have hplain : Tok.transcode f (.plain sep) = [.plain sep'] := by simp [Tok.transcode, hsep]
  rw [scan_eq, scan_eq, tokenize_flatMap he hlead hne,
    splitOn_flatMap hplain fun t ht => plain_not_mem_transcode hother hsep ht, List.map_map,
    List.map_map]
  apply List.map_congr_left
  intro piece _
  simp only [Function.comp_apply, List.flatMap_assoc, flatMap_kept_transcode hkept hne]

end Transcoding

end Escape
