import CuttleDB.Lib.Escape
import Mathlib.Data.List.Infix

/-!
# Joined texts

When a text that was made by joining pieces determines the pieces: pieces that are joined by
a separator, among lists of one length, and two pieces with a keyword between them.
-/

namespace Joined

open Escape

variable {α : Type}

/-! ### A separator -/

/-- Two pieces are joined before the others are. -/
theorem intercalate_merge (sep : α) (p q : List α) (ps : List (List α)) :
    [sep].intercalate (p :: q :: ps) = [sep].intercalate ((p ++ sep :: q) :: ps) := by
  cases ps with
  | nil => simp
  | cons r rs => simp [List.intercalate_cons_cons]

theorem count_intercalate [DecidableEq α] (sep : α) (p : List α) (ps : List (List α)) :
    ([sep].intercalate (p :: ps)).count sep = ps.length + (p :: ps).flatten.count sep := by
  induction ps generalizing p with
  | nil => simp
  | cons q ps ih =>
    rw [intercalate_merge, ih]
    simp only [List.flatten_cons, List.count_append, List.count_cons_self, List.length_cons]
    omega

/-- Pieces without the separator are determined by the joined text and their number. -/
theorem eq_of_intercalate [DecidableEq α] {sep : α} {ps qs : List (List α)}
    (hfree : ∀ p ∈ ps, sep ∉ p) (hlength : qs.length = ps.length)
    (h : [sep].intercalate qs = [sep].intercalate ps) : qs = ps := by
  cases ps with
  | nil => exact List.length_eq_zero_iff.mp hlength
  | cons p ps =>
    obtain ⟨q, qs, rfl⟩ := List.exists_cons_of_length_eq_add_one hlength
    -- the separators of the text are all used up by the joining
    have hcount := congrArg (List.count sep) h
    rw [count_intercalate, count_intercalate] at hcount
    have hzero : (p :: ps).flatten.count sep = 0 := by
      rw [List.count_eq_zero]
      intro hmem
      obtain ⟨r, hr, hsep⟩ := List.mem_flatten.mp hmem
      exact hfree r hr hsep
    have hzero' : (q :: qs).flatten.count sep = 0 := by
      simp only [List.length_cons] at hlength
      omega
    have hfree' : ∀ r ∈ q :: qs, sep ∉ r := fun r hr hsep =>
      List.count_eq_zero.mp hzero' (List.mem_flatten_of_mem hr hsep)
    rw [← List.splitOn_intercalate sep hfree (List.cons_ne_nil p ps), ← h,
      List.splitOn_intercalate sep hfree' (List.cons_ne_nil q qs)]

/-- A separator inside one of several pieces can be read as the one between two. -/
theorem exists_ne_intercalate {sep : α} {ps : List (List α)} (hlength : 2 ≤ ps.length)
    (hmem : ∃ p ∈ ps, sep ∈ p) :
    ∃ qs, qs.length = ps.length ∧ [sep].intercalate qs = [sep].intercalate ps ∧ qs ≠ ps := by
  induction ps with
  | nil => simp at hlength
  | cons p ps ih =>
    cases ps with
    | nil => simp at hlength
    | cons q ps =>
      by_cases hp : sep ∈ p
      · obtain ⟨u, v, rfl⟩ := List.append_of_mem hp
        refine ⟨u :: (v ++ sep :: q) :: ps, rfl, ?_, ?_⟩
        · rw [intercalate_merge, intercalate_merge sep (u ++ sep :: v)]
          simp
        · intro heq
          have hlengths := congrArg List.length (List.cons.inj heq).1
          simp at hlengths
      · by_cases hq : sep ∈ q
        · obtain ⟨u, v, rfl⟩ := List.append_of_mem hq
          refine ⟨(p ++ sep :: u) :: v :: ps, rfl, ?_, ?_⟩
          · rw [intercalate_merge, intercalate_merge]
            simp
          · intro heq
            have hlengths := congrArg List.length (List.cons.inj heq).1
            simp at hlengths
        · have hrest : ∃ r ∈ ps, sep ∈ r := by simpa [hp, hq] using hmem
          have hpos : 0 < ps.length := by
            obtain ⟨r, hr, -⟩ := hrest
            exact List.length_pos_of_mem hr
          obtain ⟨qs, hsame, heq, hne⟩ := ih (by rw [List.length_cons]; omega)
            (by simpa [hq] using hrest)
          obtain ⟨q', qs, rfl⟩ := List.exists_cons_of_length_eq_add_one hsame
          refine ⟨p :: q' :: qs, by simpa using hsame, ?_, fun h => hne (List.cons.inj h).2⟩
          rw [List.intercalate_cons_cons, List.intercalate_cons_cons, heq]

/-! ### A keyword -/

/-- Neither text, with the keyword behind it, goes on as the other one with what its own
keyword begins with. -/
def KeywordApart (keyword p q : List α) : Prop :=
  ¬ p ++ keyword <+: q ++ keyword.dropLast ∧ ¬ q ++ keyword <+: p ++ keyword.dropLast

theorem KeywordApart.symm {keyword p q : List α} (h : KeywordApart keyword p q) :
    KeywordApart keyword q p := ⟨h.2, h.1⟩

theorem prefix_dropLast_of_lt {keyword p q s t : List α}
    (h : p ++ keyword ++ s = q ++ keyword ++ t) (hlt : p.length < q.length) :
    p ++ keyword <+: q ++ keyword.dropLast := by
  have hlong : q ++ keyword.dropLast <+: q ++ keyword ++ t := by
    rw [List.append_assoc]
    exact (List.prefix_append_right_inj q).mpr
      ((List.dropLast_prefix keyword).trans (List.prefix_append keyword t))
  have hshort : p ++ keyword <+: q ++ keyword ++ t := h ▸ List.prefix_append (p ++ keyword) s
  refine List.prefix_of_prefix_length_le hshort hlong ?_
  simp only [List.length_append, List.length_dropLast]
  omega

/-- Pieces that are apart are determined by the text with the keyword between them. -/
theorem eq_of_append_keyword {keyword p q s t : List α} (hapart : p = q ∨ KeywordApart keyword p q)
    (h : p ++ keyword ++ s = q ++ keyword ++ t) : p = q ∧ s = t := by
  rcases hapart with rfl | hapart
  · exact ⟨rfl, List.append_cancel_left h⟩
  rcases Nat.lt_trichotomy p.length q.length with hlt | hlength | hlt
  · exact absurd (prefix_dropLast_of_lt h hlt) hapart.1
  · obtain ⟨hpk, hst⟩ := List.append_inj h (by simp [hlength])
    exact ⟨List.append_cancel_right hpk, hst⟩
  · exact absurd (prefix_dropLast_of_lt h.symm hlt) hapart.2

end Joined
