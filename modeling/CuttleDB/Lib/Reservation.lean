import CuttleDB.Lib.Mutex

/-!
# Sections that the state keeps apart

Threads share a state without a lock. A section asks the state to let it in: a state that is
free lets it in and is busy from then on, a busy state refuses, which ends the section and
changes nothing. So the state itself is the lock, and whatever the schedule, the sections
that were let in do what they would do one after the other.
-/

namespace Reservation

open Mutex

variable {ι σ Λ ρ : Type}

/-! ### Threads -/

/-- What has become of a section. -/
inductive Fate (ρ : Type) where
  | refused (r : ρ)
  | ran (r : ρ)

def Fate.ran? : Fate ρ → Option ρ
  | .refused _ => none
  | .ran r => some r

/-- A section that is under way: how it started, and where it is. -/
structure Inside (Λ : Type) where
  start : Λ
  place : Λ

structure Thread (Λ ρ : Type) where
  todo : List Λ
  inside : Option (Inside Λ)
  done : List (Λ × Fate ρ)

/-- What the sections of a thread that were let in have returned. -/
def Thread.results (t : Thread Λ ρ) : List ρ := t.done.filterMap fun d => d.2.ran?

/-- `entered` lists the sections in the order in which they were let in; no step reads it. -/
structure State (ι σ Λ ρ : Type) where
  shared : σ
  threads : ι → Thread Λ ρ
  entered : List (Entry ι Unit Λ)

variable [DecidableEq ι]

def State.set (S : State ι σ Λ ρ) (i : ι) (s : σ) (t : Thread Λ ρ) : State ι σ Λ ρ :=
  { S with shared := s, threads := Function.update S.threads i t }

/-- The next step of thread `i`. -/
def State.move (code : Code σ Λ ρ) (S : State ι σ Λ ρ) (i : ι) : State ι σ Λ ρ :=
  let t := S.threads i
  match t.inside with
  | some ⟨l₀, l⟩ =>
    match code l S.shared with
    | (.inl l', s) => S.set i s { t with inside := some ⟨l₀, l'⟩ }
    | (.inr r, s) => S.set i s { t with inside := none, done := t.done ++ [(l₀, .ran r)] }
  | none =>
    match t.todo with
    | [] => S
    | l :: todo =>
      match code l S.shared with
      | (.inl l', s) =>
        { S.set i s { t with todo, inside := some ⟨l, l'⟩ } with
          entered := S.entered ++ [⟨i, (), l⟩] }
      | (.inr r, s) => S.set i s { t with todo, done := t.done ++ [(l, .refused r)] }

section Set

variable (S : State ι σ Λ ρ) (i : ι) (s : σ) (t : Thread Λ ρ)

@[simp] theorem State.set_shared : (S.set i s t).shared = s := rfl

@[simp] theorem State.set_entered : (S.set i s t).entered = S.entered := rfl

@[simp] theorem State.set_self : (S.set i s t).threads i = t := Function.update_self _ _ _

theorem State.set_other {j : ι} (h : j ≠ i) : (S.set i s t).threads j = S.threads j :=
  Function.update_of_ne h _ _

end Set

def State.run (code : Code σ Λ ρ) (S : State ι σ Λ ρ) (schedule : List ι) : State ι σ Λ ρ :=
  schedule.foldl (State.move code) S

def State.initial (s : σ) (programs : ι → List Λ) : State ι σ Λ ρ :=
  ⟨s, fun i => ⟨programs i, none, []⟩, []⟩

/-! ### The state as a lock -/

/-- A busy state refuses, a free one lets in and is busy until the section is over. -/
structure Guarded (code : Code σ Λ ρ) (busy : σ → Prop) (start : Λ → Prop) (refusal : ρ) :
    Prop where
  refuses : ∀ l s, start l → busy s → code l s = (.inr refusal, s)
  accepts : ∀ l s, start l → ¬ busy s → ∃ l' s', code l s = (.inl l', s') ∧ ¬ start l' ∧ busy s'
  keeps : ∀ l s l' s', ¬ start l → busy s → code l s = (.inl l', s') → ¬ start l' ∧ busy s'

/-- The sections one after the other -/
def serial (f : Λ → σ → ρ × σ) (es : List (Entry ι Unit Λ)) (s : σ) : List ρ × σ :=
  Mutex.sequence f (fun _ s => s) es s

/-- No more than one section is under way, and the state is busy with it. -/
structure State.Held (S : State ι σ Λ ρ) (busy : σ → Prop) (start : Λ → Prop) : Prop where
  todo : ∀ i, ∀ l ∈ (S.threads i).todo, start l
  alone : ∀ i j, (S.threads i).inside.isSome → (S.threads j).inside.isSome → i = j
  busy : ∀ i p, (S.threads i).inside = some p → busy S.shared ∧ ¬ start p.place

/-- Each thread has dealt with the first sections of its program, in order; those that were
not let in have got `refusal`. -/
structure State.Orderly (S : State ι σ Λ ρ) (programs : ι → List Λ) (refusal : ρ) : Prop where
  order : ∀ i, (S.threads i).done.map Prod.fst ++
    ((S.threads i).inside.map Inside.start).toList ++ (S.threads i).todo = programs i
  refused : ∀ i l r, (l, Fate.refused r) ∈ (S.threads i).done → r = refusal

/-- The state is what the sections that were let in have left, one after the other, and then
the one under way so far. -/
def State.Serial (S : State ι σ Λ ρ) (code : Code σ Λ ρ) (f : Λ → σ → ρ × σ) (s : σ) : Prop :=
  ∃ es, (∀ i, (S.threads i).results = own i es (serial f es s).1) ∧
    ((∀ i, (S.threads i).inside = none) ∧ S.entered = es ∧ S.shared = (serial f es s).2 ∨
      ∃ i p, (S.threads i).inside = some p ∧ S.entered = es ++ [⟨i, (), p.start⟩] ∧
        Reaches code p.start (serial f es s).2 p.place S.shared)

section Moves

variable {code : Code σ Λ ρ}

/-- What a step does: nothing, a section is refused, is let in, goes on or is over. -/
theorem State.move_cases (S : State ι σ Λ ρ) (code : Code σ Λ ρ) (i : ι) :
    S.move code i = S ∨
    (∃ l todo r s, (S.threads i).inside = none ∧ (S.threads i).todo = l :: todo ∧
      code l S.shared = (.inr r, s) ∧
      S.move code i = S.set i s ⟨todo, none, (S.threads i).done ++ [(l, .refused r)]⟩) ∨
    (∃ l todo l' s, (S.threads i).inside = none ∧ (S.threads i).todo = l :: todo ∧
      code l S.shared = (.inl l', s) ∧
      S.move code i = { S.set i s ⟨todo, some ⟨l, l'⟩, (S.threads i).done⟩ with
        entered := S.entered ++ [⟨i, (), l⟩] }) ∨
    (∃ p l' s, (S.threads i).inside = some p ∧ code p.place S.shared = (.inl l', s) ∧
      S.move code i = S.set i s ⟨(S.threads i).todo, some ⟨p.start, l'⟩, (S.threads i).done⟩) ∨
    (∃ p r s, (S.threads i).inside = some p ∧ code p.place S.shared = (.inr r, s) ∧
      S.move code i = S.set i s
        ⟨(S.threads i).todo, none, (S.threads i).done ++ [(p.start, .ran r)]⟩) := by
  rw [State.move]
  dsimp only
  cases hinside : (S.threads i).inside with
  | some p =>
    rcases hcode : code p.place S.shared with ⟨l' | r, s⟩
    · refine Or.inr (Or.inr (Or.inr (Or.inl ⟨p, l', s, rfl, hcode, ?_⟩)))
      dsimp only
      rw [hcode]
    · refine Or.inr (Or.inr (Or.inr (Or.inr ⟨p, r, s, rfl, hcode, ?_⟩)))
      dsimp only
      rw [hcode]
  | none =>
    cases htodo : (S.threads i).todo with
    | nil => exact Or.inl rfl
    | cons l todo =>
      rcases hcode : code l S.shared with ⟨l' | r, s⟩
      · refine Or.inr (Or.inr (Or.inl ⟨l, todo, l', s, rfl, rfl, hcode, ?_⟩))
        dsimp only
        rw [hcode]
      · refine Or.inr (Or.inl ⟨l, todo, r, s, rfl, rfl, hcode, ?_⟩)
        dsimp only
        rw [hcode]

variable {busy : σ → Prop} {start : Λ → Prop} {refusal : ρ} {S : State ι σ Λ ρ}

/-- What a step does to a state that is busy with the section under way. -/
theorem State.Held.move_cases (hguard : Guarded code busy start refusal) (h : S.Held busy start)
    (i : ι) :
    S.move code i = S ∨
    (∃ l todo, (S.threads i).inside = none ∧ (S.threads i).todo = l :: todo ∧
      S.move code i = S.set i S.shared
        ⟨todo, none, (S.threads i).done ++ [(l, .refused refusal)]⟩) ∨
    (∃ l todo l' s, (∀ j, (S.threads j).inside = none) ∧ (S.threads i).todo = l :: todo ∧
      code l S.shared = (.inl l', s) ∧ ¬ start l' ∧ busy s ∧
      S.move code i = { S.set i s ⟨todo, some ⟨l, l'⟩, (S.threads i).done⟩ with
        entered := S.entered ++ [⟨i, (), l⟩] }) ∨
    (∃ p l' s, (S.threads i).inside = some p ∧ code p.place S.shared = (.inl l', s) ∧
      ¬ start l' ∧ busy s ∧
      S.move code i = S.set i s ⟨(S.threads i).todo, some ⟨p.start, l'⟩, (S.threads i).done⟩) ∨
    (∃ p r s, (S.threads i).inside = some p ∧ code p.place S.shared = (.inr r, s) ∧
      S.move code i = S.set i s
        ⟨(S.threads i).todo, none, (S.threads i).done ++ [(p.start, .ran r)]⟩) := by
  have hstart {l : Λ} {todo : List Λ} (htodo : (S.threads i).todo = l :: todo) : start l :=
    h.todo i l (htodo ▸ List.mem_cons_self)
  rcases S.move_cases code i with heq | ⟨l, todo, r, s, hinside, htodo, hcode, heq⟩ |
    ⟨l, todo, l', s, -, htodo, hcode, heq⟩ | ⟨p, l', s, hinside, hcode, heq⟩ |
    ⟨p, r, s, hinside, hcode, heq⟩
  · exact Or.inl heq
  · refine Or.inr (Or.inl ⟨l, todo, hinside, htodo, ?_⟩)
    by_cases hbusy : busy S.shared
    · rw [hguard.refuses l _ (hstart htodo) hbusy] at hcode
      cases hcode
      exact heq
    · obtain ⟨l', s', hin, -⟩ := hguard.accepts l _ (hstart htodo) hbusy
      cases hin.symm.trans hcode
  · refine Or.inr (Or.inr (Or.inl ⟨l, todo, l', s, fun j => ?_, htodo, hcode, ?_⟩))
    · cases hj : (S.threads j).inside with
      | none => rfl
      | some p =>
        have hrefused := hguard.refuses l _ (hstart htodo) (h.busy j p hj).1
        cases hrefused.symm.trans hcode
    · by_cases hbusy : busy S.shared
      · have hrefused := hguard.refuses l _ (hstart htodo) hbusy
        cases hrefused.symm.trans hcode
      · obtain ⟨l'', s', hin, hplace, hbusy'⟩ := hguard.accepts l _ (hstart htodo) hbusy
        cases hin.symm.trans hcode
        exact ⟨hplace, hbusy', heq⟩
  · obtain ⟨hbusy, hplace⟩ := h.busy i p hinside
    obtain ⟨hplace', hbusy'⟩ := hguard.keeps _ _ _ _ hplace hbusy hcode
    exact Or.inr (Or.inr (Or.inr (Or.inl ⟨p, l', s, hinside, hcode, hplace', hbusy', heq⟩)))
  · exact Or.inr (Or.inr (Or.inr (Or.inr ⟨p, r, s, hinside, hcode, heq⟩)))

omit [DecidableEq ι] in
/-- While a section is under way, no other thread has one. -/
theorem State.Held.others (h : S.Held busy start) {i j : ι} {p : Inside Λ}
    (hinside : (S.threads i).inside = some p) (hj : j ≠ i) : (S.threads j).inside = none := by
  cases hother : (S.threads j).inside with
  | none => rfl
  | some q => exact absurd (h.alone j i (by rw [hother]; rfl) (by rw [hinside]; rfl)) hj

theorem State.Held.set (h : S.Held busy start) {i : ι} {s : σ} {t : Thread Λ ρ}
    (htodo : ∀ l ∈ t.todo, start l)
    (hinside : ∀ p, t.inside = some p →
      (∀ j, j ≠ i → (S.threads j).inside = none) ∧ busy s ∧ ¬ start p.place)
    (hothers : ∀ j p, j ≠ i → (S.threads j).inside = some p → busy s) :
    (S.set i s t).Held busy start := by
  have hnone {j : ι} (hj : j ≠ i) (hsome : t.inside.isSome) : (S.threads j).inside = none := by
    obtain ⟨p, hp⟩ := Option.isSome_iff_exists.mp hsome
    exact (hinside p hp).1 j hj
  constructor
  · intro j l hl
    by_cases hj : j = i
    · subst hj
      exact htodo l (by simpa using hl)
    · rw [State.set_other _ _ _ _ hj] at hl
      exact h.todo j l hl
  · intro j k hjsome hksome
    by_cases hj : j = i <;> by_cases hk : k = i
    · rw [hj, hk]
    · subst hj
      rw [State.set_self] at hjsome
      rw [State.set_other _ _ _ _ hk, hnone hk hjsome] at hksome
      cases hksome
    · subst hk
      rw [State.set_self] at hksome
      rw [State.set_other _ _ _ _ hj, hnone hj hksome] at hjsome
      cases hjsome
    · rw [State.set_other _ _ _ _ hj] at hjsome
      rw [State.set_other _ _ _ _ hk] at hksome
      exact h.alone j k hjsome hksome
  · intro j p hp
    by_cases hj : j = i
    · subst hj
      rw [State.set_self] at hp
      exact (hinside p hp).2
    · rw [State.set_other _ _ _ _ hj] at hp
      exact ⟨hothers j p hj hp, (h.busy j p hp).2⟩

theorem State.Held.move (hguard : Guarded code busy start refusal) (h : S.Held busy start)
    (i : ι) : (S.move code i).Held busy start := by
  rcases h.move_cases hguard i with heq | ⟨l, todo, hinside, htodo, heq⟩ |
    ⟨l, todo, l', s, hfree, htodo, -, hplace, hbusy, heq⟩ |
    ⟨p, l', s, hinside, -, hplace, hbusy, heq⟩ | ⟨p, r, s, hinside, -, heq⟩ <;> rw [heq]
  · exact h
  · exact h.set (fun l' hl' => h.todo i l' (htodo ▸ List.mem_cons_of_mem _ hl')) (by simp)
      fun j p _ hp => (h.busy j p hp).1
  · have hset : (S.set i s ⟨todo, some ⟨l, l'⟩, (S.threads i).done⟩).Held busy start := by
      refine h.set (fun l'' hl'' => h.todo i l'' (htodo ▸ List.mem_cons_of_mem _ hl'')) ?_ ?_
      · intro p hp
        obtain rfl := Option.some.inj hp
        exact ⟨fun j _ => hfree j, hbusy, hplace⟩
      · intro j p _ hp
        cases (hfree j).symm.trans hp
    exact ⟨hset.todo, hset.alone, hset.busy⟩
  · refine h.set (h.todo i) ?_ fun j q hj hq => ?_
    · intro q hq
      obtain rfl := Option.some.inj hq
      exact ⟨fun j hj => h.others hinside hj, hbusy, hplace⟩
    · cases (h.others hinside hj).symm.trans hq
  · refine h.set (h.todo i) (by simp) fun j q hj hq => ?_
    cases (h.others hinside hj).symm.trans hq

theorem State.Orderly.set {programs : ι → List Λ} (h : S.Orderly programs refusal) {i : ι} (s : σ)
    {t : Thread Λ ρ}
    (horder : t.done.map Prod.fst ++ (t.inside.map Inside.start).toList ++ t.todo = programs i)
    (hrefused : ∀ l r, (l, Fate.refused r) ∈ t.done → r = refusal) :
    (S.set i s t).Orderly programs refusal := by
  constructor
  · intro j
    by_cases hj : j = i
    · subst hj
      rw [State.set_self]
      exact horder
    · rw [State.set_other _ _ _ _ hj]
      exact h.order j
  · intro j l r hmem
    by_cases hj : j = i
    · subst hj
      rw [State.set_self] at hmem
      exact hrefused l r hmem
    · rw [State.set_other _ _ _ _ hj] at hmem
      exact h.refused j l r hmem

theorem State.Orderly.move {programs : ι → List Λ} (hguard : Guarded code busy start refusal)
    (hheld : S.Held busy start) (h : S.Orderly programs refusal) (i : ι) :
    (S.move code i).Orderly programs refusal := by
  have horder := h.order i
  rcases hheld.move_cases hguard i with heq | ⟨l, todo, hinside, htodo, heq⟩ |
    ⟨l, todo, l', s, hfree, htodo, -, -, -, heq⟩ |
    ⟨p, l', s, hinside, -, -, -, heq⟩ | ⟨p, r, s, hinside, -, heq⟩ <;> rw [heq]
  · exact h
  · rw [hinside, htodo] at horder
    refine h.set _ (by simpa using horder) fun l' r hmem => ?_
    rcases List.mem_append.mp hmem with hmem | hmem
    · exact h.refused i l' r hmem
    · cases List.mem_singleton.mp hmem
      rfl
  · rw [hfree i, htodo] at horder
    have hset : (S.set i s ⟨todo, some ⟨l, l'⟩, (S.threads i).done⟩).Orderly programs refusal :=
      h.set _ (by simpa using horder) (h.refused i)
    exact ⟨hset.order, hset.refused⟩
  · rw [hinside] at horder
    exact h.set _ horder (h.refused i)
  · rw [hinside] at horder
    refine h.set _ (by simpa using horder) fun l' r' hmem => ?_
    rcases List.mem_append.mp hmem with hmem | hmem
    · exact h.refused i l' r' hmem
    · cases List.mem_singleton.mp hmem

theorem State.Serial.move {f : Λ → σ → ρ × σ} {s₀ : σ} (hf : Computes code f)
    (hguard : Guarded code busy start refusal) (hheld : S.Held busy start)
    (h : S.Serial code f s₀) (i : ι) : (S.move code i).Serial code f s₀ := by
  obtain ⟨es, hresults, hstate⟩ := h
  have hsame {t : Thread Λ ρ} (s : σ) (ht : t.results = (S.threads i).results) (j : ι) :
      ((S.set i s t).threads j).results = own j es (serial f es s₀).1 := by
    by_cases hj : j = i
    · subst hj
      rw [State.set_self, ht, hresults]
    · rw [State.set_other _ _ _ _ hj, hresults]
  rcases hheld.move_cases hguard i with heq | ⟨l, todo, hinside, htodo, heq⟩ |
    ⟨l, todo, l', s, hfree, htodo, hcode, -, -, heq⟩ |
    ⟨p, l', s, hinside, hcode, -, -, heq⟩ | ⟨p, r, s, hinside, hcode, heq⟩ <;> rw [heq]
  · exact ⟨es, hresults, hstate⟩
  · refine ⟨es, hsame _ (by simp [Thread.results, Fate.ran?]), ?_⟩
    rcases hstate with ⟨hnone, hentered, hshared⟩ | ⟨j, q, hq, hentered, hreaches⟩
    · refine Or.inl ⟨fun j => ?_, hentered, hshared⟩
      by_cases hj : j = i
      · subst hj
        rw [State.set_self]
      · rw [State.set_other _ _ _ _ hj, hnone j]
    · have hj : j ≠ i := by
        rintro rfl
        cases hinside.symm.trans hq
      exact Or.inr ⟨j, q, by rw [State.set_other _ _ _ _ hj, hq], hentered, hreaches⟩
  · rcases hstate with ⟨-, hentered, hshared⟩ | ⟨j, q, hq, -⟩
    · refine ⟨es, hsame s rfl, Or.inr ⟨i, ⟨l, l'⟩, ?_, ?_, ?_⟩⟩
      · exact congrArg Thread.inside (State.set_self S i s _)
      · rw [← hentered]
      · rw [hshared] at hcode
        exact (Reaches.refl l _).tail hcode
    · cases (hfree j).symm.trans hq
  · rcases hstate with ⟨hnone, -⟩ | ⟨j, q, hq, hentered, hreaches⟩
    · cases (hnone i).symm.trans hinside
    · obtain rfl : j = i := hheld.alone j i (by rw [hq]; rfl) (by rw [hinside]; rfl)
      obtain rfl := Option.some.inj (hq.symm.trans hinside)
      exact ⟨es, hsame s rfl, Or.inr ⟨j, ⟨q.start, l'⟩, by rw [State.set_self], hentered,
        hreaches.tail hcode⟩⟩
  · rcases hstate with ⟨hnone, -⟩ | ⟨j, q, hq, hentered, hreaches⟩
    · cases (hnone i).symm.trans hinside
    · obtain rfl : j = i := hheld.alone j i (by rw [hq]; rfl) (by rw [hinside]; rfl)
      obtain rfl := Option.some.inj (hq.symm.trans hinside)
      have hvalue := (hf.reaches hreaches).trans (hf _ _)
      rw [hcode, proceed] at hvalue
      have hserial := sequence_concat f (fun _ s => s) es ⟨j, (), q.start⟩ s₀
      rw [serial] at hvalue
      rw [hvalue] at hserial
      refine ⟨es ++ [(⟨j, (), q.start⟩ : Entry ι Unit Λ)], fun k => ?_,
        Or.inl ⟨fun k => ?_, hentered, ?_⟩⟩
      · rw [serial, hserial, own_concat k (length_sequence f _ es s₀)]
        by_cases hk : k = j
        · subst hk
          rw [State.set_self, if_pos rfl]
          have hown := hresults k
          rw [serial] at hown
          rw [← hown]
          simp [Thread.results, Fate.ran?]
        · rw [State.set_other _ _ _ _ hk, if_neg (Ne.symm hk), List.append_nil]
          exact hresults k
      · by_cases hk : k = j
        · subst hk
          rw [State.set_self]
        · rw [State.set_other _ _ _ _ hk]
          exact hheld.others hinside hk
      · rw [serial, hserial]
        rfl

/-- **Whatever the schedule, the sections that are let in are serial.** -/
theorem State.run_serial {f : Λ → σ → ρ × σ} (hf : Computes code f)
    (hguard : Guarded code busy start refusal) (s : σ) {programs : ι → List Λ}
    (hprograms : ∀ i, ∀ l ∈ programs i, start l) (schedule : List ι) :
    let S := (State.initial (ρ := ρ) s programs).run code schedule
    S.Held busy start ∧ S.Orderly programs refusal ∧ S.Serial code f s := by
  have hkeep : ∀ S : State ι σ Λ ρ, S.Held busy start ∧ S.Orderly programs refusal ∧
      S.Serial code f s → ∀ schedule, (S.run code schedule).Held busy start ∧
        (S.run code schedule).Orderly programs refusal ∧ (S.run code schedule).Serial code f s := by
    intro S hS schedule
    induction schedule generalizing S with
    | nil => exact hS
    | cons i schedule ih =>
      obtain ⟨hheld, horder, hserial⟩ := hS
      exact ih _ ⟨hheld.move hguard i, horder.move hguard hheld i, hserial.move hf hguard hheld i⟩
  refine hkeep _ ⟨⟨hprograms, ?_, ?_⟩, ⟨fun _ => rfl, ?_⟩, ⟨[], fun _ => rfl, ?_⟩⟩ schedule
  · intro i j hi
    cases hi
  · intro i p hp
    cases hp
  · intro i l r hmem
    cases hmem
  · exact Or.inl ⟨fun _ => rfl, rfl, rfl⟩

end Moves

end Reservation
