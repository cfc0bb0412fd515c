import Mathlib.Data.List.Basic

/-!
# Calls all at once and calls until one fails

A server carries out a list of calls one after the other. A caller that has all of them
carried out and one that stops at the first call that fails get the same, up to there:
`untilFailure` is what the second one sees of the answers.
-/

namespace FailFast

variable {σ C V W E : Type}

/-- The calls one after the other: all answers, and the state that they lead to. -/
def performAll (perform : C → σ → V × σ) : List C → σ → List V × σ
  | [], s => ([], s)
  | c :: cs, s =>
    let (v, s) := perform c s
    let (vs, s) := performAll perform cs s
    (v :: vs, s)

theorem performAll_cons (perform : C → σ → V × σ) (c : C) (cs : List C) (s : σ) :
    performAll perform (c :: cs) s =
      ((perform c s).1 :: (performAll perform cs (perform c s).2).1,
        (performAll perform cs (perform c s).2).2) := rfl

theorem length_performAll (perform : C → σ → V × σ) (cs : List C) (s : σ) :
    (performAll perform cs s).1.length = cs.length := by
  induction cs generalizing s with
  | nil => rfl
  | cons c cs ih => rw [performAll_cons, List.length_cons, List.length_cons, ih]

theorem performAll_take (perform : C → σ → V × σ) (n : Nat) (cs : List C) (s : σ) :
    (performAll perform (cs.take n) s).1 = (performAll perform cs s).1.take n := by
  induction cs generalizing n s with
  | nil => simp [performAll]
  | cons c cs ih =>
    cases n with
    | zero => rfl
    | succ n => rw [List.take_succ_cons, performAll_cons, performAll_cons, ih, List.take_succ_cons]

/-- The answers up to the first that is not `ok`, that one included. -/
def untilFailure (ok : V → Prop) [DecidablePred ok] : List V → List V
  | [] => []
  | v :: vs => if ok v then v :: untilFailure ok vs else [v]

section Failure

variable {ok : V → Prop} [DecidablePred ok]

theorem untilFailure_of_ok {v : V} (h : ok v) (vs : List V) :
    untilFailure ok (v :: vs) = v :: untilFailure ok vs := if_pos h

theorem untilFailure_of_not_ok {v : V} (h : ¬ ok v) (vs : List V) :
    untilFailure ok (v :: vs) = [v] := if_neg h

theorem untilFailure_append {accepted : List V} (haccepted : ∀ v ∈ accepted, ok v) {refusal : V}
    (hrefusal : ¬ ok refusal) (behind : List V) :
    untilFailure ok (accepted ++ refusal :: behind) = accepted ++ [refusal] := by
  induction accepted with
  | nil => exact untilFailure_of_not_ok hrefusal behind
  | cons v accepted ih =>
    obtain ⟨hv, hrest⟩ := List.forall_mem_cons.mp haccepted
    rw [List.cons_append, untilFailure_of_ok hv, ih hrest, List.cons_append]

theorem untilFailure_initial (vs : List V) : untilFailure ok vs <+: vs := by
  induction vs with
  | nil => exact List.prefix_rfl
  | cons v vs ih =>
    by_cases hok : ok v
    · rw [untilFailure_of_ok hok]
      exact (List.prefix_cons_inj v).mpr ih
    · rw [untilFailure_of_not_ok hok]
      exact ⟨vs, rfl⟩

theorem untilFailure_eq_take (vs : List V) :
    untilFailure ok vs = vs.take (untilFailure ok vs).length :=
  List.prefix_iff_eq_take.mp (untilFailure_initial vs)

/-- What is `ok` of the answers that a caller sees who stops at a failure. -/
theorem filter_untilFailure (cs : List C) (vs : List V) :
    ((cs.take (untilFailure ok vs).length).zip (untilFailure ok vs)).filter (fun p => ok p.2) =
      (cs.zip vs).takeWhile fun p => ok p.2 := by
  induction vs generalizing cs with
  | nil => simp [untilFailure]
  | cons v vs ih =>
    cases cs with
    | nil => simp
    | cons c cs =>
      rw [List.zip_cons_cons]
      by_cases hok : ok v
      · rw [untilFailure_of_ok hok, List.length_cons, List.take_succ_cons, List.zip_cons_cons,
          List.filter_cons_of_pos (by simpa using hok), ih,
          List.takeWhile_cons_of_pos (by simpa using hok)]
      · rw [untilFailure_of_not_ok hok, List.length_singleton, List.take_succ_cons,
          List.zip_cons_cons, List.filter_cons_of_neg (by simpa using hok),
          List.takeWhile_cons_of_neg (by simpa using hok)]
        simp

end Failure

/-- Answers that fail change nothing: what calls add to the state is then what those add
whose answers are `ok`. -/
theorem performAll_adds {ok : V → Prop} [DecidablePred ok] {X : Type} {perform : C → σ → V × σ}
    {view : σ → List X} (added : C → X)
    (hok : ∀ c s, ok (perform c s).1 → view (perform c s).2 = view s ++ [added c])
    (hfails : ∀ c s, ¬ ok (perform c s).1 → view (perform c s).2 = view s)
    (cs : List C) (s : σ) :
    view (performAll perform cs s).2 =
      view s ++ ((cs.zip (performAll perform cs s).1).filter fun p => ok p.2).map
        fun p => added p.1 := by
  induction cs generalizing s with
  | nil => simp [performAll]
  | cons c cs ih =>
    rw [performAll_cons, List.zip_cons_cons]
    dsimp only
    rw [ih]
    by_cases hc : ok (perform c s).1
    · rw [hok c s hc, List.filter_cons_of_pos (by simpa using hc), List.map_cons]
      simp
    · rw [hfails c s hc, List.filter_cons_of_neg (by simpa using hc)]

end FailFast
