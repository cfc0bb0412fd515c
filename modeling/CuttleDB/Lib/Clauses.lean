import Mathlib.Data.List.Basic

/-!
# Lines with clauses

The words of a line, some of which are keywords: the words in front of the first keyword
are the line's own, and each keyword begins a clause that goes as far as the next one.
-/

namespace Clauses

variable {K W : Type} (keyword? : W → Option K)

/-- The words in front of the first keyword, and the clauses. -/
def parse : List W → List W × List (K × List W)
  | [] => ([], [])
  | w :: ws =>
    match keyword? w with
    | none => (w :: (parse ws).1, (parse ws).2)
    | some k => ([], (k, (parse ws).1) :: (parse ws).2)

def render (text : K → W) (head : List W) (clauses : List (K × List W)) : List W :=
  head ++ clauses.flatMap fun c => text c.1 :: c.2

/-- What becomes of a line whose words are replaced, the keywords by themselves. -/
theorem flatMap_render {text : K → W} {f : W → List W} (htext : ∀ k, f (text k) = [text k])
    (head : List W) (clauses : List (K × List W)) :
    (render text head clauses).flatMap f =
      render text (head.flatMap f) (clauses.map fun c => (c.1, c.2.flatMap f)) := by
  rw [render, List.flatMap_append, render]
  refine congrArg (head.flatMap f ++ ·) ?_
  induction clauses with
  | nil => rfl
  | cons c clauses ih =>
    rw [List.flatMap_cons, List.flatMap_append, ih, List.flatMap_cons, htext]
    rfl

variable {keyword?}

theorem parse_append {head : List W} (hhead : ∀ w ∈ head, keyword? w = none) (ws : List W) :
    parse keyword? (head ++ ws) =
      (head ++ (parse keyword? ws).1, (parse keyword? ws).2) := by
  induction head with
  | nil => rfl
  | cons w head ih =>
    rw [List.cons_append, parse, hhead w (by simp), ih fun u hu => hhead u (by simp [hu])]
    rfl

/-- **A line that is put together from words and clauses comes apart into them.** -/
theorem parse_render {text : K → W} (htext : ∀ k, keyword? (text k) = some k) {head : List W}
    (hhead : ∀ w ∈ head, keyword? w = none) {clauses : List (K × List W)}
    (hclauses : ∀ c ∈ clauses, ∀ w ∈ c.2, keyword? w = none) :
    parse keyword? (render text head clauses) = (head, clauses) := by
  have hbehind : parse keyword? (clauses.flatMap fun c => text c.1 :: c.2) = ([], clauses) := by
    induction clauses with
    | nil => rfl
    | cons c clauses ih =>
      rw [List.flatMap_cons, List.cons_append, parse, htext,
        parse_append (hclauses c (by simp)), ih fun d hd => hclauses d (by simp [hd])]
      simp
  rw [render, parse_append hhead, hbehind, List.append_nil]

end Clauses
