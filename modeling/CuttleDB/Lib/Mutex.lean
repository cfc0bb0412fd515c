import Mathlib.Data.List.Basic
import Mathlib.Logic.Function.Basic

/-!
# Critical sections

Threads share a state under one lock. Each has a list of sections to run; a section
starts when its thread takes the lock, works on the state in steps, and gives the lock
back with its last one. Between any two steps the scheduler may turn to another thread,
and what a section meets (the input `A`) is settled when it takes the lock.

Whatever the schedule, the sections do to the state what they would do one after the
other in the order in which they took the lock.
-/

namespace Mutex

variable {ι σ Λ ρ A : Type}

/-! ### Sections -/

/-- The code of a section: from a place in it and the state, to the next place or to
what it returns. -/
abbrev Code (σ Λ ρ : Type) := Λ → σ → (Λ ⊕ ρ) × σ

/-- Zero or more steps, without an end of the section. -/
inductive Reaches (code : Code σ Λ ρ) : Λ → σ → Λ → σ → Prop where
  | refl (l : Λ) (s : σ) : Reaches code l s l s
  | tail {l l' l'' : Λ} {s s' s'' : σ} (h : Reaches code l s l' s')
      (hstep : code l' s' = (.inl l'', s'')) : Reaches code l s l'' s''

/-- What is left of a section after a step of it. -/
def proceed (f : Λ → σ → ρ × σ) : (Λ ⊕ ρ) × σ → ρ × σ
  | (.inl l, s) => f l s
  | (.inr r, s) => (r, s)

/-- The function `f` is what the code computes when nobody interferes. -/
def Computes (code : Code σ Λ ρ) (f : Λ → σ → ρ × σ) : Prop :=
  ∀ l s, f l s = proceed f (code l s)

theorem Computes.reaches {code : Code σ Λ ρ} {f : Λ → σ → ρ × σ} (h : Computes code f)
    {l l' : Λ} {s s' : σ} (hreaches : Reaches code l s l' s') : f l s = f l' s' := by
  induction hreaches with
  | refl => rfl
  | tail _ hstep ih => rw [ih, h, hstep, proceed]

/-- The code comes to an end: a measure that every step but the last makes smaller. -/
def Decreases (code : Code σ Λ ρ) (weight : Λ → σ → Nat) : Prop :=
  ∀ {l l' s s'}, code l s = (.inl l', s') → weight l' s' < weight l s

/-! ### One after the other -/

/-- A section, in the list of those that have taken the lock. -/
structure Entry (ι A Λ : Type) where
  thread : ι
  input : A
  start : Λ

/-- The sections one after the other, each without interruption. -/
def sequence (f : Λ → σ → ρ × σ) (act : A → σ → σ) :
    List (Entry ι A Λ) → σ → List ρ × σ
  | [], s => ([], s)
  | e :: es, s =>
    let (r, s) := f e.start (act e.input s)
    let (rs, s) := sequence f act es s
    (r :: rs, s)

theorem sequence_concat (f : Λ → σ → ρ × σ) (act : A → σ → σ) (es : List (Entry ι A Λ))
    (e : Entry ι A Λ) (s : σ) :
    sequence f act (es ++ [e]) s =
      ((sequence f act es s).1 ++ [(f e.start (act e.input (sequence f act es s).2)).1],
        (f e.start (act e.input (sequence f act es s).2)).2) := by
  induction es generalizing s with
  | nil => rfl
  | cons e' es ih =>
    simp only [List.cons_append, sequence]
    rw [ih]

theorem length_sequence (f : Λ → σ → ρ × σ) (act : A → σ → σ) (es : List (Entry ι A Λ)) (s : σ) :
    (sequence f act es s).1.length = es.length := by
  induction es generalizing s with
  | nil => rfl
  | cons e es ih => exact congrArg (· + 1) (ih _)

/-! ### Threads -/

structure Thread (Λ ρ : Type) where
  todo : List Λ
  inside : Option Λ
  results : List ρ

/-- `entered` lists the sections in the order in which they took the lock; no step reads
it. -/
structure State (ι σ Λ ρ A : Type) where
  shared : σ
  owner : Option ι
  threads : ι → Thread Λ ρ
  entered : List (Entry ι A Λ)

inductive Move (ι A : Type) where
  | acquire (i : ι) (a : A)
  | advance (i : ι)

variable [DecidableEq ι]

/-- One move. A thread that asks for the lock while another has it waits; what it works
on inside is up to its place only, and it looks at no lock. -/
def State.move (code : Code σ Λ ρ) (act : A → σ → σ) (S : State ι σ Λ ρ A) :
    Move ι A → State ι σ Λ ρ A
  | .acquire i a =>
    let t := S.threads i
    match S.owner, t.inside, t.todo with
    | none, none, l :: todo =>
      { shared := act a S.shared
        owner := some i
        threads := Function.update S.threads i { t with todo, inside := some l }
        entered := S.entered ++ [⟨i, a, l⟩] }
    | _, _, _ => S
  | .advance i =>
    let t := S.threads i
    match t.inside with
    | none => S
    | some l =>
      match code l S.shared with
      | (.inl l', s) =>
        { S with
          shared := s
          threads := Function.update S.threads i { t with inside := some l' } }
      | (.inr r, s) =>
        { S with
          shared := s
          owner := none
          threads := Function.update S.threads i
            { t with inside := none, results := t.results ++ [r] } }

def State.run (code : Code σ Λ ρ) (act : A → σ → σ) (S : State ι σ Λ ρ A)
    (moves : List (Move ι A)) : State ι σ Λ ρ A := moves.foldl (State.move code act) S

/-- Threads that have not started, and a free lock. -/
def State.initial (s : σ) (programs : ι → List Λ) : State ι σ Λ ρ A where
  shared := s
  owner := none
  threads := fun i => ⟨programs i, none, []⟩
  entered := []

/-- What thread `i` gets when its sections, among `es`, have returned `rs`. -/
def own (i : ι) (es : List (Entry ι A Λ)) (rs : List ρ) : List ρ :=
  (es.zip rs).filterMap fun p => if p.1.thread = i then some p.2 else none

theorem own_concat (i : ι) {es : List (Entry ι A Λ)} {rs : List ρ} (h : rs.length = es.length)
    (e : Entry ι A Λ) (r : ρ) :
    own i (es ++ [e]) (rs ++ [r]) = own i es rs ++ if e.thread = i then [r] else [] := by
  rw [own, List.zip_append h.symm, List.filterMap_append, ← own]
  by_cases hi : e.thread = i <;> simp [hi]

theorem mem_own {es : List (Entry ι A Λ)} {rs : List ρ} (h : rs.length = es.length) {r : ρ}
    (hr : r ∈ rs) : ∃ i, r ∈ own i es rs := by
  obtain ⟨k, hk, rfl⟩ := List.getElem_of_mem hr
  have hk' : k < es.length := h ▸ hk
  have hzip : (es[k], rs[k]) ∈ es.zip rs :=
    List.mem_iff_getElem.mpr ⟨k, by rw [List.length_zip]; omega, by simp⟩
  exact ⟨es[k].thread, List.mem_filterMap.mpr ⟨_, hzip, if_pos rfl⟩⟩

/-! ### The invariant -/

/-- No thread is inside while the lock is free, and otherwise its owner alone is. -/
def State.Exclusive (S : State ι σ Λ ρ A) : Prop :=
  ∀ i, (S.threads i).inside.isSome ↔ S.owner = some i

/-- The state is what the sections that have returned have left, one after the other,
and then the one inside so far. -/
def State.Explained (code : Code σ Λ ρ) (f : Λ → σ → ρ × σ) (act : A → σ → σ) (s : σ)
    (S : State ι σ Λ ρ A) : Prop :=
  ∃ es, (∀ i, (S.threads i).results = own i es (sequence f act es s).1) ∧
    match S.owner with
    | none => S.entered = es ∧ S.shared = (sequence f act es s).2
    | some j => ∃ e l, S.entered = es ++ [e] ∧ e.thread = j ∧ (S.threads j).inside = some l ∧
        Reaches code e.start (act e.input (sequence f act es s).2) l S.shared

/-- The sections that thread `i` has started are the first of its program. -/
def State.InOrder (programs : ι → List Λ) (S : State ι σ Λ ρ A) : Prop :=
  ∀ i, (S.entered.filter fun e => e.thread = i).map Entry.start ++ (S.threads i).todo =
    programs i

theorem State.InOrder.mem {programs : ι → List Λ} {S : State ι σ Λ ρ A}
    (h : S.InOrder programs) {e : Entry ι A Λ} (he : e ∈ S.entered) :
    e.start ∈ programs e.thread := by
  rw [← h e.thread]
  apply List.mem_append_left
  exact List.mem_map_of_mem (List.mem_filter.mpr ⟨he, by simp⟩)

/-- While the lock is free, every section that took it has returned. -/
theorem State.Explained.of_free {code : Code σ Λ ρ} {f : Λ → σ → ρ × σ} {act : A → σ → σ} {s : σ}
    {S : State ι σ Λ ρ A} (h : S.Explained code f act s) (hfree : S.owner = none) :
    S.shared = (sequence f act S.entered s).2 ∧
      ∀ i, (S.threads i).results = own i S.entered (sequence f act S.entered s).1 := by
  obtain ⟨es, hresults, hstate⟩ := h
  rw [hfree] at hstate
  obtain ⟨rfl, hshared⟩ := hstate
  exact ⟨hshared, hresults⟩

section Runs

variable {code : Code σ Λ ρ} {act : A → σ → σ}

/-- What a move does: nothing, a section begins, goes on or returns. -/
theorem State.move_cases (S : State ι σ Λ ρ A) (code : Code σ Λ ρ) (act : A → σ → σ)
    (m : Move ι A) :
    S.move code act m = S ∨
    (∃ i a l todo, S.owner = none ∧ (S.threads i).inside = none ∧
      (S.threads i).todo = l :: todo ∧
      S.move code act m =
        { shared := act a S.shared
          owner := some i
          threads := Function.update S.threads i { S.threads i with todo, inside := some l }
          entered := S.entered ++ [⟨i, a, l⟩] }) ∨
    (∃ i l l' s, (S.threads i).inside = some l ∧ code l S.shared = (.inl l', s) ∧
      S.move code act m =
        { S with
          shared := s
          threads := Function.update S.threads i { S.threads i with inside := some l' } }) ∨
    (∃ i l r s, (S.threads i).inside = some l ∧ code l S.shared = (.inr r, s) ∧
      S.move code act m =
        { S with
          shared := s
          owner := none
          threads := Function.update S.threads i
            { S.threads i with inside := none, results := (S.threads i).results ++ [r] } }) := by
  cases m with
  | acquire i a =>
    rw [State.move]
    dsimp only
    split
    · rename_i howner hinside htodo
      exact Or.inr (Or.inl ⟨i, a, _, _, howner, hinside, htodo, rfl⟩)
    · exact Or.inl rfl
  | advance i =>
    rw [State.move]
    dsimp only
    split
    · exact Or.inl rfl
    · rename_i l hinside
      rcases hcode : code l S.shared with ⟨l' | r, s⟩
      · exact Or.inr (Or.inr (Or.inl ⟨i, l, l', s, hinside, hcode, rfl⟩))
      · exact Or.inr (Or.inr (Or.inr ⟨i, l, r, s, hinside, hcode, rfl⟩))

theorem State.Exclusive.move {S : State ι σ Λ ρ A} (h : S.Exclusive) (m : Move ι A) :
    (S.move code act m).Exclusive := by
  rcases S.move_cases code act m with heq | ⟨i, a, l, todo, howner, hinside, -, heq⟩ |
    ⟨i, l, l', s, hinside, -, heq⟩ | ⟨i, l, r, s, hinside, -, heq⟩ <;> rw [heq]
  · exact h
  · intro j
    by_cases hj : j = i
    · subst hj
      simp
    · have hout := h j
      rw [howner] at hout
      simpa [Function.update_of_ne hj, Ne.symm hj] using hout
  · intro j
    by_cases hj : j = i
    · subst hj
      have hin := h j
      rw [hinside] at hin
      simpa using hin
    · simpa [Function.update_of_ne hj] using h j
  · have howner : S.owner = some i := (h i).mp (by rw [hinside]; rfl)
    intro j
    by_cases hj : j = i
    · subst hj
      simp
    · have hout := h j
      rw [howner] at hout
      simpa [Function.update_of_ne hj, Ne.symm hj] using hout

theorem State.InOrder.move {programs : ι → List Λ} {S : State ι σ Λ ρ A}
    (h : S.InOrder programs) (m : Move ι A) : (S.move code act m).InOrder programs := by
  rcases S.move_cases code act m with heq | ⟨i, a, l, todo, -, -, htodo, heq⟩ |
    ⟨i, l, l', s, -, -, heq⟩ | ⟨i, l, r, s, -, -, heq⟩ <;> rw [heq]
  · exact h
  · intro j
    have hj := h j
    by_cases hij : i = j
    · subst hij
      rw [htodo] at hj
      simpa [List.filter_append] using hj
    · simpa [List.filter_append, hij, Function.update_of_ne (Ne.symm hij)] using hj
  · intro j
    have hj := h j
    by_cases hij : i = j
    · subst hij
      simpa using hj
    · simpa [Function.update_of_ne (Ne.symm hij)] using hj
  · intro j
    have hj := h j
    by_cases hij : i = j
    · subst hij
      simpa using hj
    · simpa [Function.update_of_ne (Ne.symm hij)] using hj

theorem State.Explained.move {f : Λ → σ → ρ × σ} {s₀ : σ} (hf : Computes code f)
    {S : State ι σ Λ ρ A} (hexcl : S.Exclusive) (h : S.Explained code f act s₀) (m : Move ι A) :
    (S.move code act m).Explained code f act s₀ := by
  obtain ⟨es, hresults, hstate⟩ := h
  rcases S.move_cases code act m with heq | ⟨i, a, l, todo, howner, hinside, -, heq⟩ |
    ⟨i, l, l', s, hinside, hcode, heq⟩ | ⟨i, l, r, s, hinside, hcode, heq⟩ <;> rw [heq]
  · exact ⟨es, hresults, hstate⟩
  · rw [howner] at hstate
    obtain ⟨hentered, hshared⟩ := hstate
    refine ⟨es, fun j => ?_, ⟨i, a, l⟩, l, ?_, rfl, by simp, ?_⟩
    · by_cases hj : j = i
      · subst hj
        simpa using hresults j
      · simpa [Function.update_of_ne hj] using hresults j
    · rw [hentered]
    · rw [← hshared]
      exact .refl _ _
  · have howner : S.owner = some i := (hexcl i).mp (by rw [hinside]; rfl)
    rw [howner] at hstate
    obtain ⟨e, l₀, hentered, hthread, hplace, hreaches⟩ := hstate
    obtain rfl := Option.some.inj (hplace.symm.trans hinside)
    refine ⟨es, fun j => ?_, ?_⟩
    · by_cases hj : j = i
      · subst hj
        simpa using hresults j
      · simpa [Function.update_of_ne hj] using hresults j
    · dsimp only
      rw [howner]
      exact ⟨e, l', hentered, hthread, by simp, hreaches.tail hcode⟩
  · have howner : S.owner = some i := (hexcl i).mp (by rw [hinside]; rfl)
    rw [howner] at hstate
    obtain ⟨e, l₀, hentered, hthread, hplace, hreaches⟩ := hstate
    obtain rfl := Option.some.inj (hplace.symm.trans hinside)
    have hvalue := (hf.reaches hreaches).trans (hf _ _)
    rw [hcode, proceed] at hvalue
    have hseq := sequence_concat f act es e s₀
    rw [hvalue] at hseq
    refine ⟨es ++ [e], fun j => ?_, hentered, ?_⟩
    · rw [hseq, own_concat j (length_sequence f act es s₀), ← hresults j, hthread]
      by_cases hj : j = i
      · subst hj
        simp
      · simp [Function.update_of_ne hj, Ne.symm hj]
    · rw [hseq]

/-- **Every schedule is a sequence.** At any time at most one thread is inside, each has
started the first sections of its program, and state and results are those of the sections
one after the other, in the order in which they took the lock. -/
theorem State.run_sequential {f : Λ → σ → ρ × σ} (hf : Computes code f) (s : σ)
    (programs : ι → List Λ) (moves : List (Move ι A)) :
    let S := (State.initial (ρ := ρ) s programs).run code act moves
    S.Exclusive ∧ S.InOrder programs ∧ S.Explained code f act s := by
  have hkeep : ∀ (S : State ι σ Λ ρ A), S.Exclusive ∧ S.InOrder programs ∧
      S.Explained code f act s → ∀ moves, (S.run code act moves).Exclusive ∧
        (S.run code act moves).InOrder programs ∧
        (S.run code act moves).Explained code f act s := by
    intro S hS moves
    induction moves generalizing S with
    | nil => exact hS
    | cons m moves ih =>
      obtain ⟨hexcl, horder, hexpl⟩ := hS
      exact ih _ ⟨hexcl.move m, horder.move m, hexpl.move hf hexcl m⟩
  refine hkeep _ ⟨?_, ?_, ?_⟩ moves
  · intro i
    simp [State.initial]
  · exact fun _ => rfl
  · exact ⟨[], fun _ => rfl, rfl, rfl⟩

/-- **The lock is given back:** its owner needs finitely many steps of its own. -/
theorem State.released {weight : Λ → σ → Nat} (hdec : Decreases code weight)
    {S : State ι σ Λ ρ A} (hexcl : S.Exclusive) :
    ∃ n, ∀ i, S.owner = some i →
      (S.run code act (List.replicate n (.advance i))).owner = none := by
  cases howner : S.owner with
  | none => exact ⟨0, fun i h => nomatch h⟩
  | some j =>
    obtain ⟨l, hinside⟩ := Option.isSome_iff_exists.mp ((hexcl j).mpr howner)
    -- on what the owner still has to do
    induction hw : weight l S.shared using Nat.strongRecOn generalizing S l with
    | _ w ih =>
      have hmove : S.move code act (.advance j) =
          match code l S.shared with
          | (.inl l', s) =>
            { S with
              shared := s
              threads := Function.update S.threads j { S.threads j with inside := some l' } }
          | (.inr r, s) =>
            { S with
              shared := s
              owner := none
              threads := Function.update S.threads j
                { S.threads j with inside := none, results := (S.threads j).results ++ [r] } } := by
        rw [State.move]
        dsimp only
        rw [hinside]
      rcases hcode : code l S.shared with ⟨l' | r, s⟩ <;> rw [hcode] at hmove
      · have hlt : weight l' s < w := hw ▸ hdec hcode
        have hexcl' : (S.move code act (.advance j)).Exclusive := hexcl.move _
        rw [hmove] at hexcl'
        obtain ⟨n, hn⟩ := ih _ hlt hexcl' howner l' (by simp) rfl
        refine ⟨n + 1, fun i hi => ?_⟩
        obtain rfl := Option.some.inj hi
        rw [List.replicate_succ, State.run, List.foldl_cons, hmove]
        exact hn _ rfl
      · refine ⟨1, fun i hi => ?_⟩
        obtain rfl := Option.some.inj hi
        rw [State.run, List.replicate_one, List.foldl_cons, hmove]
        rfl

end Runs

end Mutex
