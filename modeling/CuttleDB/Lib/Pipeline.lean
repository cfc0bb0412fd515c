import Mathlib.Algebra.BigOperators.Group.List.Basic
import Mathlib.Algebra.GroupWithZero.Nat
import Mathlib.Data.List.Induction

/-!
# Pipelining

On a pipelined connection the replies carry no names: the calls own consecutive
stretches of the reply stream, as long as they have commands. The file has the
arithmetic of these stretches: which call a reply belongs to, and what one more
reply changes for that call and for the others.
-/

namespace Pipeline

variable {ρ : Type}

/-- The number of replies ahead of those that call `i` owns. -/
def offset (sizes : List Nat) (i : Nat) : Nat := (sizes.take i).sum

/-- The call that each reply belongs to, in the order of the replies. -/
def owners (sizes : List Nat) : List Nat :=
  sizes.zipIdx.flatMap fun p => List.replicate p.1 p.2

/-- What has come so far of the `n` replies behind the first `k`. -/
def share (replies : List ρ) (k n : Nat) : List ρ := (replies.drop k).take n

@[simp] theorem owners_nil : owners [] = [] := rfl

theorem owners_concat (sizes : List Nat) (n : Nat) :
    owners (sizes ++ [n]) = owners sizes ++ List.replicate n sizes.length := by
  simp [owners, List.zipIdx_append]

theorem length_owners (sizes : List Nat) : (owners sizes).length = sizes.sum := by
  induction sizes using List.reverseRecOn with
  | nil => rfl
  | append_singleton sizes n ih => rw [owners_concat, List.length_append, ih]; simp

theorem offset_concat {sizes : List Nat} {i : Nat} (h : i ≤ sizes.length) (n : Nat) :
    offset (sizes ++ [n]) i = offset sizes i := by
  rw [offset, List.take_append_of_le_length h, offset]

theorem offset_length (sizes : List Nat) : offset sizes sizes.length = sizes.sum := by
  rw [offset, List.take_length]

theorem offset_succ {sizes : List Nat} {i n : Nat} (h : sizes[i]? = some n) :
    offset sizes (i + 1) = offset sizes i + n := by
  rw [offset, List.take_add_one, h, offset]
  simp

theorem offset_mono (sizes : List Nat) {i j : Nat} (h : i ≤ j) :
    offset sizes i ≤ offset sizes j := by
  induction h with
  | refl => exact Nat.le_refl _
  | @step j _ ih =>
    cases hj : sizes[j]? with
    | none =>
      rw [Nat.succ_eq_add_one, offset.eq_def sizes (j + 1), List.take_add_one, hj]
      simpa [offset] using ih
    | some n =>
      rw [offset_succ hj]
      exact Nat.le_add_right_of_le ih

/-- The owner of reply `m` owns a stretch around `m`. -/
theorem owner_stretch {sizes : List Nat} {m i : Nat} (h : (owners sizes)[m]? = some i) :
    ∃ n, sizes[i]? = some n ∧ offset sizes i ≤ m ∧ m < offset sizes i + n := by
  induction sizes using List.reverseRecOn with
  | nil => simp at h
  | append_singleton sizes n ih =>
    rw [owners_concat] at h
    rcases Nat.lt_or_ge m (owners sizes).length with hlt | hge
    · rw [List.getElem?_append_left hlt] at h
      obtain ⟨n', hn', hle, hlt'⟩ := ih h
      have hi : i < sizes.length := (List.getElem?_eq_some_iff.mp hn').1
      refine ⟨n', ?_, ?_, ?_⟩
      · rw [List.getElem?_append_left hi, hn']
      · rwa [offset_concat (Nat.le_of_lt hi)]
      · rwa [offset_concat (Nat.le_of_lt hi)]
    · rw [List.getElem?_append_right hge, List.getElem?_replicate] at h
      obtain ⟨hm, rfl⟩ : m - (owners sizes).length < n ∧ sizes.length = i := by
        simpa using h
      rw [length_owners] at hge hm
      refine ⟨n, by simp, ?_, ?_⟩
      · rwa [offset_concat (Nat.le_refl _), offset_length]
      · rw [offset_concat (Nat.le_refl _), offset_length]
        omega

/-- The stretches of other calls end at or before `m`, or begin behind it. -/
theorem other_stretch {sizes : List Nat} {m i j n : Nat} (h : (owners sizes)[m]? = some i)
    (hj : sizes[j]? = some n) (hne : j ≠ i) :
    offset sizes j + n ≤ m ∨ m < offset sizes j := by
  obtain ⟨n', hi, hle, hlt⟩ := owner_stretch h
  rcases Nat.lt_or_gt_of_ne hne with hji | hij
  · left
    rw [← offset_succ hj]
    exact Nat.le_trans (offset_mono sizes hji) hle
  · right
    rw [← offset_succ hi] at hlt
    exact Nat.lt_of_lt_of_le hlt (offset_mono sizes hij)

/-! ### One more reply -/

theorem share_concat_of_mem {replies : List ρ} {k n : Nat} (r : ρ) (hle : k ≤ replies.length)
    (hlt : replies.length < k + n) :
    share (replies ++ [r]) k n = share replies k n ++ [r] := by
  have hdrop : (replies.drop k).length < n := by
    rw [List.length_drop]
    omega
  rw [share, List.drop_append_of_le_length hle, share,
    List.take_of_length_le (Nat.le_of_lt hdrop), List.take_of_length_le]
  rw [List.length_append]
  exact hdrop

theorem share_concat_of_before {replies : List ρ} {k n : Nat} (r : ρ)
    (hlt : replies.length < k) : share (replies ++ [r]) k n = share replies k n := by
  have hle : (replies ++ [r]).length ≤ k := by
    rw [List.length_append]
    exact hlt
  rw [share, List.drop_eq_nil_of_le hle, share, List.drop_eq_nil_of_le (Nat.le_of_lt hlt)]

/-- A stretch that has come is the same in every longer stream. -/
theorem share_append {replies : List ρ} {k n : Nat} (h : k + n ≤ replies.length)
    (rest : List ρ) : share (replies ++ rest) k n = share replies k n := by
  rw [share, List.drop_append_of_le_length (by omega), share, List.take_append_of_le_length]
  rw [List.length_drop]
  omega

theorem share_concat_of_other {replies : List ρ} {k n : Nat} (r : ρ)
    (h : k + n ≤ replies.length ∨ replies.length < k) :
    share (replies ++ [r]) k n = share replies k n := by
  rcases h with hfull | hbefore
  · exact share_append hfull _
  · exact share_concat_of_before _ hbefore

end Pipeline
