import Mathlib.Data.Int.CardIntervalMod

/-!
# Taking turns

A counter modulo the length of a list goes round the list. Over any number of turns,
from any value of the counter, each of its items has its share of them, to within one.
-/

namespace Rotation

variable {ν : Type}

/-- The item whose turn it is when the counter stands at `r`. -/
def turn (xs : List ν) (r : Nat) : Option ν := xs[r % xs.length]?

/-- The items of the next `k` turns. -/
def turns (xs : List ν) (r k : Nat) : List ν := (List.range k).filterMap fun j => turn xs (r + j)

theorem turn_of_ne_nil {xs : List ν} (h : xs ≠ []) (r : Nat) : ∃ x ∈ xs, turn xs r = some x := by
  have hlt : r % xs.length < xs.length := Nat.mod_lt _ (List.length_pos_of_ne_nil h)
  exact ⟨xs[r % xs.length], List.getElem_mem hlt, List.getElem?_eq_getElem hlt⟩

theorem shift_succ {β : Type} (f : Nat → β) (r : Nat) :
    (fun j => f (r + j)) ∘ Nat.succ = fun j => f (r + 1 + j) := by
  funext j
  rw [Function.comp_apply, Nat.succ_eq_add_one, Nat.add_right_comm, Nat.add_assoc]

theorem turns_succ {xs : List ν} {r : Nat} {x : ν} (h : turn xs r = some x) (k : Nat) :
    turns xs r (k + 1) = x :: turns xs (r + 1) k := by
  rw [turns, List.range_succ_eq_map, List.filterMap_cons, Nat.add_zero, h, List.filterMap_map,
    shift_succ (turn xs), turns]

theorem map_some_turns {xs : List ν} (h : xs ≠ []) (r k : Nat) :
    (turns xs r k).map some = (List.range k).map fun j => turn xs (r + j) := by
  induction k generalizing r with
  | zero => rfl
  | succ k ih =>
    obtain ⟨x, -, hx⟩ := turn_of_ne_nil h r
    rw [turns_succ hx, List.map_cons, ih, List.range_succ_eq_map, List.map_cons, List.map_map,
      shift_succ (turn xs), Nat.add_zero r, hx]

/-- How many of the turns are at one place of the list. -/
theorem count_turn {n p : Nat} (hp : p < n) (r k : Nat) :
    k.count (fun j => (r + j) % n = p) =
      k / n + if (p + (n - r % n)) % n < k % n then 1 else 0 := by
  have hn : 0 < n := Nat.zero_lt_of_lt hp
  rw [← Nat.count_modEq_card k hn]
  congr 1
  funext j
  have hround : r + j + (n - r % n) = j + n * (r / n + 1) := by
    have hdiv := Nat.div_add_mod r n
    have hmod := Nat.mod_lt r hn
    rw [Nat.mul_add_one]
    omega
  apply propext
  calc (r + j) % n = p
      ↔ r + j ≡ p [MOD n] := by rw [Nat.ModEq, Nat.mod_eq_of_lt hp]
    _ ↔ r + j + (n - r % n) ≡ p + (n - r % n) [MOD n] :=
        ⟨fun h => h.add_right _, fun h => Nat.ModEq.add_right_cancel' _ h⟩
    _ ↔ j ≡ p + (n - r % n) [MOD n] := by
        rw [hround, Nat.ModEq, Nat.add_mul_mod_self_left, Nat.ModEq]

/-- **Every item has its share of the turns.** -/
theorem count_turns [DecidableEq ν] {xs : List ν} (hxs : xs.Nodup) {x : ν} (hx : x ∈ xs)
    (r k : Nat) :
    k / xs.length ≤ (turns xs r k).count x ∧
      (turns xs r k).count x ≤ (k + xs.length - 1) / xs.length := by
  obtain ⟨p, hp, rfl⟩ := List.getElem_of_mem hx
  have hn : 0 < xs.length := Nat.zero_lt_of_lt hp
  have hcount : (turns xs r k).count xs[p] =
      k.count fun j => (r + j) % xs.length = p := by
    have hplace : ∀ j, turn xs (r + j) = some xs[p] ↔ (r + j) % xs.length = p := by
      intro j
      have hlt : (r + j) % xs.length < xs.length := Nat.mod_lt _ hn
      rw [turn, List.getElem?_eq_getElem hlt, Option.some.injEq, hxs.getElem_inj_iff]
    rw [turns, Nat.count, List.count, List.countP_filterMap]
    apply List.countP_congr
    intro j _
    rw [decide_eq_true_iff, ← hplace]
    cases turn xs (r + j) with
    | none => simp
    | some y => simp
  rw [hcount, count_turn hp]
  constructor
  · exact Nat.le_add_right _ _
  · rw [Nat.le_div_iff_mul_le hn]
    have hdiv := Nat.div_add_mod k xs.length
    have hcomm := Nat.mul_comm xs.length (k / xs.length)
    split
    · rw [Nat.add_mul, Nat.one_mul]
      omega
    · rw [Nat.add_zero]
      omega

end Rotation
