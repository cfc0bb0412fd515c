import Mathlib.Data.List.Basic

/-!
# One server, many clients

A server carries out calls one at a time, whoever they come from. If each call is
carried out as a specification says, up to how states and values are represented, then
every client sees of a whole run what the specification gives it.
-/

namespace Serving

variable {ι σ τ C V W : Type}

/-- The calls one after the other, each value for the client whose call it was. -/
def serve (perform : C → σ → V × σ) : List (ι × C) → σ → List (ι × V) × σ
  | [], s => ([], s)
  | (i, c) :: served, s =>
    let (v, s) := perform c s
    let (vs, s) := serve perform served s
    ((i, v) :: vs, s)

/-- What is for client `i`. -/
def portion [DecidableEq ι] (i : ι) (xs : List (ι × V)) : List V :=
  xs.filterMap fun x => if x.1 = i then some x.2 else none

theorem portion_cons [DecidableEq ι] (i : ι) (x : ι × V) (xs : List (ι × V)) :
    portion i (x :: xs) = if x.1 = i then x.2 :: portion i xs else portion i xs := by
  rw [portion, List.filterMap_cons]
  split <;> split <;> simp_all [portion]

/-- `perform` does what `spec` says: `view` is the state that stands for one of `perform`,
`decode` what a client makes of a value. -/
structure Refines (perform : C → σ → V × σ) (spec : C → τ → W × τ) (decode : C → V → W)
    (view : σ → τ) : Prop where
  value : ∀ c s, decode c (perform c s).1 = (spec c (view s)).1
  state : ∀ c s, view (perform c s).2 = (spec c (view s)).2

variable {perform : C → σ → V × σ} {spec : C → τ → W × τ} {decode : C → V → W} {view : σ → τ}

theorem Refines.serve_state (h : Refines perform spec decode view) (served : List (ι × C))
    (s : σ) : view (serve perform served s).2 = (serve spec served (view s)).2 := by
  induction served generalizing s with
  | nil => rfl
  | cons x served ih =>
    obtain ⟨i, c⟩ := x
    rw [serve, serve]
    dsimp only
    rw [ih, h.state]

/-- **Every client sees the specification.** -/
theorem Refines.serve_portion [DecidableEq ι] (h : Refines perform spec decode view)
    (served : List (ι × C)) (s : σ) (i : ι) :
    List.zipWith decode (portion i served) (portion i (serve perform served s).1) =
      portion i (serve spec served (view s)).1 := by
  induction served generalizing s with
  | nil => rfl
  | cons x served ih =>
    obtain ⟨j, c⟩ := x
    have hrest := ih (perform c s).2
    rw [h.state] at hrest
    rw [serve, serve]
    dsimp only
    rw [portion_cons, portion_cons, portion_cons]
    by_cases hj : j = i
    · rw [if_pos hj, if_pos hj, if_pos hj, List.zipWith_cons_cons, hrest, h.value]
    · rw [if_neg hj, if_neg hj, if_neg hj, hrest]

end Serving
