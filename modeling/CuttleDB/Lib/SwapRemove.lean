import Mathlib.Data.List.Nodup

/-!
# Dense arrays with swap-removal

A dense array keeps its elements in slots `0, 1, ...`: an element is appended, and a
removal moves the last element into the freed slot. The first part describes a
removal slot by slot. The second part compares two arrays that see the same appends
and removals, where the first one may have missed some of the last elements of the
second.
-/

namespace SwapRemove

variable {α β : Type}

/-- Without the element at `i`, whose slot the last element takes; `xs` itself when
there is no such slot. -/
def swapRemove (xs : List α) (i : Nat) : List α :=
  if i < xs.length then
    match xs.getLast? with
    | none => xs
    | some last => (xs.set i last).dropLast
  else xs

theorem swapRemove_of_le {xs : List α} {i : Nat} (h : xs.length ≤ i) : swapRemove xs i = xs :=
  if_neg (Nat.not_lt.mpr h)

theorem swapRemove_of_lt {xs : List α} {i : Nat} (h : i < xs.length) :
    ∃ last, xs[xs.length - 1]? = some last ∧ swapRemove xs i = (xs.set i last).dropLast := by
  have hne : xs ≠ [] := List.ne_nil_of_length_pos (by omega)
  have hlast : xs.getLast? = some (xs.getLast hne) := List.getLast?_eq_some_getLast hne
  refine ⟨xs.getLast hne, ?_, ?_⟩
  · rw [← hlast, List.getLast?_eq_getElem?]
  · rw [swapRemove, if_pos h, hlast]

theorem length_swapRemove {xs : List α} {i : Nat} (h : i < xs.length) :
    (swapRemove xs i).length = xs.length - 1 := by
  obtain ⟨last, -, heq⟩ := swapRemove_of_lt h
  rw [heq, List.length_dropLast, List.length_set]

theorem map_swapRemove (f : α → β) (xs : List α) (i : Nat) :
    (swapRemove xs i).map f = swapRemove (xs.map f) i := by
  by_cases h : i < xs.length
  · have hlength : i < (xs.map f).length := by simpa using h
    obtain ⟨last, hlast, heq⟩ := swapRemove_of_lt h
    obtain ⟨last', hlast', heq'⟩ := swapRemove_of_lt hlength
    have hsame : last' = f last := by
      rw [List.length_map, List.getElem?_map, hlast] at hlast'
      exact (Option.some.inj hlast').symm
    rw [heq, heq', hsame, List.map_dropLast, List.map_set]
  · rw [swapRemove_of_le (Nat.not_lt.mp h), swapRemove_of_le (by simpa using h)]

/-- What a slot holds after a removal. -/
theorem getElem?_swapRemove {xs : List α} {i : Nat} (h : i < xs.length) {j : Nat}
    (hj : j + 1 < xs.length) :
    (swapRemove xs i)[j]? = if j = i then xs[xs.length - 1]? else xs[j]? := by
  obtain ⟨last, hlast, heq⟩ := swapRemove_of_lt h
  have hlength : j < (xs.set i last).length - 1 := by
    rw [List.length_set]
    omega
  rw [heq, List.getElem?_dropLast, if_pos hlength]
  by_cases hij : j = i
  · subst hij
    rw [List.getElem?_set_self h, if_pos rfl, hlast]
  · rw [List.getElem?_set_ne (Ne.symm hij), if_neg hij]

theorem mem_swapRemove {xs : List α} {i : Nat} {x : α} (h : x ∈ swapRemove xs i) : x ∈ xs := by
  by_cases hi : i < xs.length
  · obtain ⟨last, hlast, heq⟩ := swapRemove_of_lt hi
    rw [heq] at h
    rcases List.mem_or_eq_of_mem_set (List.dropLast_subset _ h) with hmem | rfl
    · exact hmem
    · exact List.mem_of_getElem? hlast
  · rwa [swapRemove_of_le (Nat.not_lt.mp hi)] at h

theorem nodup_swapRemove {xs : List α} (h : xs.Nodup) (i : Nat) : (swapRemove xs i).Nodup := by
  by_cases hi : i < xs.length
  · have hdistinct := List.nodup_iff_getElem?_ne_getElem?.mp h
    rw [List.nodup_iff_getElem?_ne_getElem?]
    intro a b hab hb heq
    rw [length_swapRemove hi] at hb
    rw [getElem?_swapRemove hi (by omega), getElem?_swapRemove hi (by omega)] at heq
    split at heq <;> split at heq
    · omega
    · exact hdistinct b (xs.length - 1) (by omega) (by omega) heq.symm
    · exact hdistinct a (xs.length - 1) (by omega) (by omega) heq
    · exact hdistinct a b hab (by omega) heq
  · rwa [swapRemove_of_le (Nat.not_lt.mp hi)]

/-! ### Two arrays in step -/

/-- The slots of `xs` hold what the same slots of `ys` stand for, and the elements of
`ys` that `xs` has missed are its last ones, all of them `gone`. -/
structure Mirror (M : α → β → Prop) (gone : β → Prop) (xs : List α) (ys : List β) : Prop where
  length_le : xs.length ≤ ys.length
  same : ∀ (i : Nat) x y, xs[i]? = some x → ys[i]? = some y → M x y
  missed : ∀ (i : Nat) y, xs.length ≤ i → ys[i]? = some y → gone y

variable {M M' : α → β → Prop} {gone gone' : β → Prop} {xs : List α} {ys : List β}

theorem Mirror.mono (h : Mirror M gone xs ys) (hM : ∀ x, ∀ y ∈ ys, M x y → M' x y)
    (hgone : ∀ y ∈ ys, gone y → gone' y) : Mirror M' gone' xs ys where
  length_le := h.length_le
  same i x y hx hy := hM x y (List.mem_of_getElem? hy) (h.same i x y hx hy)
  missed i y hi hy := hgone y (List.mem_of_getElem? hy) (h.missed i y hi hy)

/-- An element appended to both. -/
theorem Mirror.push (h : Mirror M gone xs ys) (hlength : xs.length = ys.length) {x : α} {y : β}
    (hxy : M x y) : Mirror M gone (xs ++ [x]) (ys ++ [y]) where
  length_le := by simp [hlength]
  same i a b ha hb := by
    rcases Nat.lt_trichotomy i xs.length with hi | hi | hi
    · rw [List.getElem?_append_left hi] at ha
      rw [List.getElem?_append_left (by omega)] at hb
      exact h.same i a b ha hb
    · subst hi
      rw [List.getElem?_concat_length] at ha
      rw [hlength, List.getElem?_concat_length] at hb
      obtain rfl := Option.some.inj ha
      obtain rfl := Option.some.inj hb
      exact hxy
    · rw [List.getElem?_eq_none (by simp; omega)] at ha
      cases ha
  missed i b hi hb := by
    rw [List.getElem?_eq_none (by simp at hi ⊢; omega)] at hb
    cases hb

/-- An element that only the second array gets, and that is gone. -/
theorem Mirror.skip (h : Mirror M gone xs ys) {y : β} (hy : gone y) :
    Mirror M gone xs (ys ++ [y]) where
  length_le := by
    rw [List.length_append]
    exact Nat.le_add_right_of_le h.length_le
  same i a b ha hb := by
    have hi : i < xs.length := (List.getElem?_eq_some_iff.mp ha).1
    rw [List.getElem?_append_left (Nat.lt_of_lt_of_le hi h.length_le)] at hb
    exact h.same i a b ha hb
  missed i b hi hb := by
    rcases Nat.lt_or_ge i ys.length with hlt | hge
    · rw [List.getElem?_append_left hlt] at hb
      exact h.missed i b hi hb
    · rcases Nat.eq_or_lt_of_le hge with rfl | hgt
      · rw [List.getElem?_concat_length] at hb
        exact Option.some.inj hb ▸ hy
      · rw [List.getElem?_eq_none (by simp; omega)] at hb
        cases hb

/-- The same slot removed from both. An array that has missed elements may only lose
its last one, or none. -/
theorem Mirror.swapRemove (h : Mirror M gone xs ys) {i : Nat} (hi : i < ys.length)
    (hstep : xs.length = ys.length ∨ xs.length ≤ i + 1) :
    Mirror M gone (swapRemove xs i) (swapRemove ys i) := by
  have hle := h.length_le
  have hys := length_swapRemove hi
  by_cases hx : i < xs.length
  · have hxs := length_swapRemove hx
    refine ⟨by omega, fun j a b ha hb => ?_, fun j b hj hb => ?_⟩
    · have hja : j < (SwapRemove.swapRemove xs i).length := (List.getElem?_eq_some_iff.mp ha).1
      rw [getElem?_swapRemove hx (by omega)] at ha
      rw [getElem?_swapRemove hi (by omega)] at hb
      by_cases hji : j = i
      · -- the last elements move: both arrays are of the same length here
        rw [if_pos hji] at ha hb
        have hsame : ys.length - 1 = xs.length - 1 := by omega
        rw [hsame] at hb
        exact h.same _ a b ha hb
      · rw [if_neg hji] at ha hb
        exact h.same j a b ha hb
    · have hjb : j < (SwapRemove.swapRemove ys i).length := (List.getElem?_eq_some_iff.mp hb).1
      rw [getElem?_swapRemove hi (by omega)] at hb
      by_cases hji : j = i
      · rw [if_pos hji] at hb
        exact h.missed _ b (by omega) hb
      · rw [if_neg hji] at hb
        exact h.missed j b (by omega) hb
  · rw [swapRemove_of_le (Nat.not_lt.mp hx)]
    refine ⟨by omega, fun j a b ha hb => ?_, fun j b hj hb => ?_⟩
    · have hja : j < xs.length := (List.getElem?_eq_some_iff.mp ha).1
      rw [getElem?_swapRemove hi (by omega), if_neg (by omega)] at hb
      exact h.same j a b ha hb
    · have hjb : j < (SwapRemove.swapRemove ys i).length := (List.getElem?_eq_some_iff.mp hb).1
      rw [getElem?_swapRemove hi (by omega)] at hb
      split at hb
      · exact h.missed _ b (by omega) hb
      · exact h.missed j b hj hb

/-- When nothing of the second array is gone, the first one has missed nothing. -/
theorem Mirror.length_eq (h : Mirror M gone xs ys) (hgone : ∀ y ∈ ys, ¬ gone y) :
    xs.length = ys.length := by
  apply Nat.le_antisymm h.length_le
  by_contra hle
  have hlt : xs.length < ys.length := Nat.lt_of_not_le hle
  have hlast : ys[xs.length]? = some ys[xs.length] := List.getElem?_eq_getElem _
  exact hgone _ (List.mem_of_getElem? hlast) (h.missed _ _ (Nat.le_refl _) hlast)

/-- Two arrays of the same length in step are equal under a reading of the second. -/
theorem Mirror.eq_map {γ : Type} {zs : List γ} {f : γ → β} {g : γ → α}
    (h : Mirror M gone xs (zs.map f)) (hgone : ∀ z ∈ zs, ¬ gone (f z))
    (hM : ∀ z ∈ zs, ∀ x, M x (f z) → x = g z) : xs = zs.map g := by
  have hlength : xs.length = (zs.map f).length := by
    apply h.length_eq
    intro y hy
    obtain ⟨z, hz, rfl⟩ := List.mem_map.mp hy
    exact hgone z hz
  rw [List.length_map] at hlength
  apply List.ext_getElem?
  intro i
  rcases Nat.lt_or_ge i zs.length with hi | hi
  · have hix : i < xs.length := hlength ▸ hi
    have hz : zs[i]? = some zs[i] := List.getElem?_eq_getElem hi
    have hx : xs[i]? = some xs[i] := List.getElem?_eq_getElem hix
    have hmatch := h.same i _ (f zs[i]) hx (by rw [List.getElem?_map, hz]; rfl)
    rw [hx, List.getElem?_map, hz, hM _ (List.mem_of_getElem? hz) _ hmatch]
    rfl
  · rw [List.getElem?_eq_none (hlength ▸ hi), List.getElem?_eq_none (by simpa using hi)]

end SwapRemove
