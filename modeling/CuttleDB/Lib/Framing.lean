import Mathlib.Data.List.Basic
import Mathlib.Data.List.DropRight

/-!
# Line framing

A stream of units is read in pieces of any size and consumed line by line, a line
being what stands before the terminator. `cutLine` takes the first complete line
off a buffer; the lemmas say that what it takes does not depend on what has
arrived behind it, and that a stream of terminated lines has one reading.
-/

namespace Framing

variable {α : Type} [DecidableEq α]

/-- The first complete line of a buffer, without its terminator, and the rest. -/
def cutLine (lf : α) : List α → Option (List α × List α)
  | [] => none
  | c :: s => if c = lf then some ([], s) else (cutLine lf s).map fun p => (c :: p.1, p.2)

theorem cutLine_line {lf : α} {line : List α} (h : lf ∉ line) (rest : List α) :
    cutLine lf (line ++ lf :: rest) = some (line, rest) := by
  induction line with
  | nil => simp [cutLine]
  | cons c line ih =>
    have hc : c ≠ lf := fun heq => h (by simp [heq])
    have htail : lf ∉ line := fun hmem => h (List.mem_cons_of_mem _ hmem)
    rw [List.cons_append, cutLine, if_neg hc, ih htail]
    rfl

theorem eq_of_cutLine {lf : α} {s line rest : List α} (h : cutLine lf s = some (line, rest)) :
    s = line ++ lf :: rest ∧ lf ∉ line := by
  induction s generalizing line with
  | nil => cases h
  | cons c s ih =>
    rw [cutLine] at h
    by_cases hc : c = lf
    · rw [if_pos hc] at h
      obtain ⟨rfl, rfl⟩ := Prod.mk.inj (Option.some.inj h)
      simp [hc]
    · rw [if_neg hc, Option.map_eq_some_iff] at h
      obtain ⟨⟨line', rest'⟩, hcut, heq⟩ := h
      obtain ⟨rfl, rfl⟩ := Prod.mk.inj heq
      obtain ⟨hs, hnot⟩ := ih hcut
      refine ⟨by rw [hs]; rfl, ?_⟩
      simp only [List.mem_cons, not_or]
      exact ⟨fun heq => hc heq.symm, hnot⟩

theorem cutLine_eq_none {lf : α} {s : List α} : cutLine lf s = none ↔ lf ∉ s := by
  constructor
  · intro h hmem
    obtain ⟨line, rest, rfl, hnot⟩ := List.eq_append_cons_of_mem hmem
    rw [cutLine_line hnot] at h
    cases h
  · intro h
    cases hcut : cutLine lf s with
    | none => rfl
    | some p =>
      obtain ⟨line, rest⟩ := p
      obtain ⟨hs, -⟩ := eq_of_cutLine hcut
      exact absurd (by rw [hs]; simp) h

/-- A stream has one first line. -/
theorem line_unique {lf : α} {line line' rest rest' : List α} (h : lf ∉ line) (h' : lf ∉ line')
    (heq : line ++ lf :: rest = line' ++ lf :: rest') : line = line' ∧ rest = rest' := by
  have hcut : some (line, rest) = some (line', rest') := by
    rw [← cutLine_line h, ← cutLine_line h', heq]
  exact Prod.mk.inj (Option.some.inj hcut)

/-- A first line that has arrived is the first line of the whole stream. -/
theorem line_of_prefix {lf : α} {line rest line' rest' s t : List α} (h : lf ∉ line)
    (h' : lf ∉ line') (hs : s = line ++ lf :: rest) (ht : s ++ t = line' ++ lf :: rest') :
    line = line' ∧ rest ++ t = rest' := by
  subst hs
  rw [List.append_assoc, List.cons_append] at ht
  exact line_unique h h' ht

/-- Induction on the lines of a text, the last of which is not terminated. -/
@[elab_as_elim]
theorem line_induction (lf : α) {P : List α → Prop} (last : ∀ s, lf ∉ s → P s)
    (line : ∀ raw rest, lf ∉ raw → P rest → P (raw ++ lf :: rest)) (s : List α) : P s := by
  induction hn : s.length using Nat.strong_induction_on generalizing s with
  | _ n ih =>
    by_cases h : lf ∈ s
    · obtain ⟨raw, rest, rfl, hraw⟩ := List.eq_append_cons_of_mem h
      refine line raw rest hraw (ih rest.length ?_ rest rfl)
      rw [← hn, List.length_append, List.length_cons]
      omega
    · exact last s h

/-- A way of cutting a stream into chunks. -/
structure Cutting {β : Type} (stream : List β) where
  chunks : List { chunk : List β // chunk ≠ [] }
  joined : chunks.flatMap Subtype.val = stream

/-! ### Line ends -/

/-- A line without the one carriage return that may end it. -/
def chomp (cr : α) (line : List α) : List α :=
  if line.getLast? = some cr then line.dropLast else line

@[simp] theorem chomp_concat (cr : α) (line : List α) : chomp cr (line ++ [cr]) = line := by
  simp [chomp]

theorem length_chomp_le (cr : α) (line : List α) : (chomp cr line).length ≤ line.length := by
  rw [chomp]
  split
  · simp
  · exact Nat.le_refl _

theorem getLast?_ne_of_length_chomp {cr : α} {line : List α}
    (h : (chomp cr line).length = line.length) : line.getLast? ≠ some cr := by
  intro hlast
  obtain ⟨init, rfl⟩ := List.getLast?_eq_some_iff.mp hlast
  rw [chomp_concat, List.length_append, List.length_singleton] at h
  omega

/-- A line without all the carriage returns that end it. -/
def rstrip (cr : α) (line : List α) : List α := line.rdropWhile (· = cr)

theorem rstrip_concat {cr : α} {line : List α} (h : line.getLast? ≠ some cr) :
    rstrip cr (line ++ [cr]) = line := by
  rw [rstrip, List.rdropWhile_concat_pos _ _ _ (by simp)]
  cases hlast : line.getLast? with
  | none =>
    obtain rfl := List.getLast?_eq_none_iff.mp hlast
    rfl
  | some c =>
    obtain ⟨init, rfl⟩ := List.getLast?_eq_some_iff.mp hlast
    refine List.rdropWhile_concat_neg _ _ _ ?_
    intro hc
    exact h (by rw [hlast]; simpa using hc)

end Framing
