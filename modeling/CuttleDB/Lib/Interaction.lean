import Mathlib.Logic.Relation

/-!
# Programs in a moving environment

A sequential program calls an environment that other actors change between any two
of its calls. The program is a tree of calls that ends in a value or in an exception;
a system says what each call answers and does and what each action of the others
does; a run is any list of moves of either side. A program that ends in a value
starts over, one that ends in an exception is over.

`Safe` is the logic for such programs: of a program and the state it is in, it says
that whatever the others do, a given assertion holds at every call, a postcondition
at the end and another one at an exception, under given assumptions on the actions
of the others and on the answers. The rules follow the program: a sequence, a call, a
loop over a list, a handler; in each the assertion in between has to be stable under
what the others do.
-/

namespace Interaction

/-! ### Programs -/

inductive Prog (E : Type) (R : E → Type) (ε α : Type) where
  | ret (a : α)
  | raise (x : ε)
  | call (e : E) (k : R e → Prog E R ε α)

variable {E : Type} {R : E → Type} {ε α β σ A φ : Type}

def Prog.bind : Prog E R ε α → (α → Prog E R ε β) → Prog E R ε β
  | .ret a, f => f a
  | .raise x, _ => .raise x
  | .call e k, f => .call e fun r => (k r).bind f

instance : Monad (Prog E R ε) where
  pure := .ret
  bind := .bind

/-- A program with a handler for the exceptions it ends in. -/
def Prog.handle : Prog E R ε α → (ε → Prog E R ε α) → Prog E R ε α
  | .ret a, _ => .ret a
  | .raise x, f => f x
  | .call e k, f => .call e fun r => (k r).handle f

def Prog.perform (e : E) : Prog E R ε (R e) := .call e .ret

/-- The call that a program makes next. -/
def Prog.next : Prog E R ε α → Option E
  | .ret _ => none
  | .raise _ => none
  | .call e _ => some e

/-! ### Runs -/

/-- What the actions of the others do, and what a call answers and does; `φ` is what
the environment may choose at a call. -/
structure System (E : Type) (R : E → Type) (σ A φ : Type) where
  act : A → σ → σ
  answer : φ → (e : E) → σ → R e × σ

structure Config (E : Type) (R : E → Type) (σ ε α : Type) where
  world : σ
  prog : Prog E R ε α

inductive Move (A φ : Type) where
  | env (a : A)
  | step (c : φ)

/-- One move; a program that has ended in a value starts over with `body`. -/
def System.move (sys : System E R σ A φ) (body : Prog E R ε α) (cfg : Config E R σ ε α) :
    Move A φ → Config E R σ ε α
  | .env a => { cfg with world := sys.act a cfg.world }
  | .step c =>
    match cfg.prog with
    | .ret _ => { cfg with prog := body }
    | .raise _ => cfg
    | .call e k => ⟨(sys.answer c e cfg.world).2, k (sys.answer c e cfg.world).1⟩

def System.run (sys : System E R σ A φ) (body : Prog E R ε α) (moves : List (Move A φ))
    (w : σ) : Config E R σ ε α :=
  moves.foldl (sys.move body) ⟨w, body⟩

/-- A program on its own, with the choice `c` at every call. -/
def System.exec (sys : System E R σ A φ) (c : φ) : Prog E R ε α → σ → Except ε α × σ
  | .ret a, w => (.ok a, w)
  | .raise x, w => (.error x, w)
  | .call e k, w => exec sys c (k (sys.answer c e w).1) (sys.answer c e w).2

/-- What every answer keeps, a program on its own keeps. -/
theorem System.exec_keeps {sys : System E R σ A φ} {c : φ} {I : σ → Prop}
    (hanswer : ∀ e w, I w → I (sys.answer c e w).2) (p : Prog E R ε α) :
    ∀ {w : σ}, I w → I (sys.exec c p w).2 := by
  induction p with
  | ret a => exact fun h => h
  | raise x => exact fun h => h
  | call e k ih => exact fun h => ih _ (hanswer e _ h)

/-- What is assumed of the others' actions and of the choices at the calls, in the
state before. -/
structure Rely (E σ A φ : Type) where
  act : A → σ → Prop
  call : φ → E → σ → Prop

def Rely.Allows (rely : Rely E σ A φ) (cfg : Config E R σ ε α) : Move A φ → Prop
  | .env a => rely.act a cfg.world
  | .step c =>
    match cfg.prog.next with
    | none => True
    | some e => rely.call c e cfg.world

/-- Every move of a run is one that the assumptions allow. -/
def System.Along (sys : System E R σ A φ) (rely : Rely E σ A φ) (body : Prog E R ε α) :
    List (Move A φ) → Config E R σ ε α → Prop
  | [], _ => True
  | m :: moves, cfg => rely.Allows cfg m ∧ Along sys rely body moves (sys.move body cfg m)

section Decidable

variable (sys : System E R σ A φ) (rely : Rely E σ A φ) [∀ a w, Decidable (rely.act a w)]
  [∀ c e w, Decidable (rely.call c e w)]

instance (cfg : Config E R σ ε α) : ∀ m : Move A φ, Decidable (rely.Allows cfg m)
  | .env a => inferInstanceAs (Decidable (rely.act a cfg.world))
  | .step c =>
    match h : cfg.prog.next with
    | none => isTrue (by simp [Rely.Allows, h])
    | some e => decidable_of_iff (rely.call c e cfg.world) (by simp [Rely.Allows, h])

instance decidableAlong (body : Prog E R ε α) :
    ∀ (moves : List (Move A φ)) (cfg : Config E R σ ε α),
      Decidable (sys.Along rely body moves cfg)
  | [], _ => isTrue trivial
  | m :: moves, cfg =>
    have := decidableAlong body moves (sys.move body cfg m)
    inferInstanceAs (Decidable (rely.Allows cfg m ∧ sys.Along rely body moves _))

end Decidable

/-! ### Interference -/

/-- What the others may have made of a state. -/
def System.Env (sys : System E R σ A φ) (rely : Rely E σ A φ) : σ → σ → Prop :=
  Relation.ReflTransGen fun w w' => ∃ a, rely.act a w ∧ w' = sys.act a w

def System.Stable (sys : System E R σ A φ) (rely : Rely E σ A φ) (P : σ → Prop) : Prop :=
  ∀ a w, rely.act a w → P w → P (sys.act a w)

theorem System.Stable.env {sys : System E R σ A φ} {rely : Rely E σ A φ} {P : σ → Prop}
    (h : sys.Stable rely P) {w w' : σ} (henv : sys.Env rely w w') (hw : P w) : P w' := by
  induction henv with
  | refl => exact hw
  | tail _ hstep ih =>
    obtain ⟨a, hact, rfl⟩ := hstep
    exact h a _ hact ih

/-! ### The logic -/

/-- Whatever the others do, `J e` holds at every call `e` of the program, `Q` at its
end and `X` at an exception. -/
def System.Safe (sys : System E R σ A φ) (rely : Rely E σ A φ) (J : E → σ → Prop)
    (X : ε → σ → Prop) (Q : α → σ → Prop) : Prog E R ε α → σ → Prop
  | .ret a, w => ∀ w', sys.Env rely w w' → Q a w'
  | .raise x, w => ∀ w', sys.Env rely w w' → X x w'
  | .call e k, w => ∀ w', sys.Env rely w w' → J e w' ∧
      ∀ c, rely.call c e w' →
        Safe sys rely J X Q (k (sys.answer c e w').1) (sys.answer c e w').2

section Rules

variable {sys : System E R σ A φ} {rely : Rely E σ A φ} {J : E → σ → Prop}
  {X X' : ε → σ → Prop} {Q Q' : α → σ → Prop}

theorem System.Safe.env {p : Prog E R ε α} {w w' : σ} (h : sys.Safe rely J X Q p w)
    (henv : sys.Env rely w w') : sys.Safe rely J X Q p w' := by
  cases p with
  | ret a => exact fun w'' henv' => h w'' (henv.trans henv')
  | raise x => exact fun w'' henv' => h w'' (henv.trans henv')
  | call e k => exact fun w'' henv' => h w'' (henv.trans henv')

theorem System.Safe.mono (hX : ∀ x w, X x w → X' x w) (hQ : ∀ a w, Q a w → Q' a w)
    {p : Prog E R ε α} :
    ∀ {w : σ}, sys.Safe rely J X Q p w → sys.Safe rely J X' Q' p w := by
  induction p with
  | ret a => exact fun h w' henv => hQ a w' (h w' henv)
  | raise x => exact fun h w' henv => hX x w' (h w' henv)
  | call e k ih =>
    intro w h w' henv
    obtain ⟨hJ, hk⟩ := h w' henv
    exact ⟨hJ, fun c hc => ih _ (hk c hc)⟩

/-- The end of a program. -/
theorem System.Safe.ret {P : σ → Prop} {a : α} {w : σ} (hstable : sys.Stable rely P)
    (hw : P w) (hQ : ∀ w, P w → Q a w) : sys.Safe rely J X Q (.ret a) w :=
  fun _ henv => hQ _ (hstable.env henv hw)

theorem System.Safe.raise {P : σ → Prop} {x : ε} {w : σ} (hstable : sys.Stable rely P)
    (hw : P w) (hX : ∀ w, P w → X x w) : sys.Safe rely J X Q (.raise x) w :=
  fun _ henv => hX _ (hstable.env henv hw)

/-- One call and what follows it, from an assertion that the others keep. -/
theorem System.Safe.call {P : σ → Prop} {e : E} {k : R e → Prog E R ε α} {w : σ}
    (hstable : sys.Stable rely P) (hw : P w) (hJ : ∀ w, P w → J e w)
    (hk : ∀ c w, P w → rely.call c e w →
      sys.Safe rely J X Q (k (sys.answer c e w).1) (sys.answer c e w).2) :
    sys.Safe rely J X Q (Prog.perform e >>= k) w := by
  intro w' henv
  have hw' := hstable.env henv hw
  exact ⟨hJ w' hw', fun c hc => hk c w' hw' hc⟩

theorem System.Safe.bind {Q' : β → σ → Prop} {f : α → Prog E R ε β} {p : Prog E R ε α} :
    ∀ {w : σ}, sys.Safe rely J X (fun a => sys.Safe rely J X Q' (f a)) p w →
      sys.Safe rely J X Q' (p >>= f) w := by
  induction p with
  | ret a => exact fun h => h _ .refl
  | raise x => exact fun h => h
  | call e k ih =>
    intro w h w' henv
    obtain ⟨hJ, hk⟩ := h w' henv
    exact ⟨hJ, fun c hc => ih _ (hk c hc)⟩

theorem System.Safe.handle {f : ε → Prog E R ε α} {p : Prog E R ε α} :
    ∀ {w : σ}, sys.Safe rely J (fun x => sys.Safe rely J X Q (f x)) Q p w →
      sys.Safe rely J X Q (p.handle f) w := by
  induction p with
  | ret a => exact fun h => h
  | raise x => exact fun h => h _ .refl
  | call e k ih =>
    intro w h w' henv
    obtain ⟨hJ, hk⟩ := h w' henv
    exact ⟨hJ, fun c hc => ih _ (hk c hc)⟩

/-- A loop over a list, with an invariant of the items still to come. -/
theorem System.Safe.foldlM {f : α → β → Prog E R ε α} {I : List β → σ → Prop}
    (hnil : sys.Stable rely (I []))
    (hcons : ∀ x xs a w, I (x :: xs) w → sys.Safe rely J X (fun _ => I xs) (f a x) w) :
    ∀ (xs : List β) {a : α} {w : σ}, I xs w →
      sys.Safe rely J X (fun _ => I []) (xs.foldlM f a) w := by
  intro xs
  induction xs with
  | nil => exact fun h => System.Safe.ret hnil h fun _ hw => hw
  | cons x xs ih =>
    intro a w h
    rw [List.foldlM_cons]
    exact System.Safe.bind ((hcons x xs a w h).mono (fun _ _ hx => hx) fun a w hw => ih hw)

/-- A loop over the first numbers, with an invariant of the next one. -/
theorem System.Safe.foldlM_range {f : Nat → Prog E R ε Unit} {n : Nat} {I : Nat → σ → Prop}
    (hstable : sys.Stable rely (I n))
    (hstep : ∀ i < n, ∀ w, I i w → sys.Safe rely J X (fun _ => I (i + 1)) (f i) w) {w : σ}
    (hw : I 0 w) :
    sys.Safe rely J X (fun _ => I n) ((List.range n).foldlM (fun _ => f) ()) w := by
  have hloop : ∀ m i, i + m = n → ∀ w, I i w →
      sys.Safe rely J X (fun _ => I n) ((List.range' i m).foldlM (fun _ => f) ()) w := by
    intro m
    induction m with
    | zero =>
      intro i hi w hw
      obtain rfl : i = n := hi
      exact System.Safe.ret hstable hw fun _ h => h
    | succ m ih =>
      intro i hi w hw
      rw [List.range'_succ, List.foldlM_cons]
      apply System.Safe.bind
      apply (hstep i (by omega) w hw).mono fun _ _ hx => hx
      exact fun _ w hw => ih (i + 1) (by omega) w hw
  rw [List.range_eq_range']
  exact hloop n 0 (Nat.zero_add _) w hw

/-- **Soundness.** If the body keeps `P` from end to end, then in every run that the
assumptions allow, `J` holds at each call, `P` at each end and `X` at an exception. -/
theorem System.Safe.run {P : σ → Prop} {body : Prog E R ε α}
    (hbody : ∀ w, P w → sys.Safe rely J X (fun _ => P) body w) (moves : List (Move A φ))
    {w : σ} (hw : P w) (halong : sys.Along rely body moves ⟨w, body⟩) :
    match (sys.run body moves w).prog with
    | .ret _ => P (sys.run body moves w).world
    | .raise x => X x (sys.run body moves w).world
    | .call e _ => J e (sys.run body moves w).world := by
  have hrun : ∀ (moves : List (Move A φ)) (cfg : Config E R σ ε α),
      sys.Along rely body moves cfg → sys.Safe rely J X (fun _ => P) cfg.prog cfg.world →
      sys.Safe rely J X (fun _ => P) (moves.foldl (sys.move body) cfg).prog
        (moves.foldl (sys.move body) cfg).world := by
    intro moves
    induction moves with
    | nil => exact fun cfg _ h => h
    | cons m moves ih =>
      rintro ⟨w, p⟩ ⟨hallows, halong⟩ h
      apply ih _ halong
      cases m with
      | env a => exact h.env (.single ⟨a, hallows, rfl⟩)
      | step c =>
        cases p with
        | ret a => exact hbody w (h w .refl)
        | raise x => exact h
        | call e k => exact (h w .refl).2 c hallows
  have hsafe := hrun moves ⟨w, body⟩ halong (hbody w hw)
  unfold System.run
  generalize moves.foldl (sys.move body) ⟨w, body⟩ = cfg at hsafe
  obtain ⟨w, p⟩ := cfg
  cases p with
  | ret a => exact hsafe w .refl
  | raise x => exact hsafe w .refl
  | call e k => exact (hsafe w .refl).1

/-- Where nothing is assumed, every run is allowed. -/
theorem System.along_of_forall (hact : ∀ a w, rely.act a w) (hcall : ∀ c e w, rely.call c e w)
    (body : Prog E R ε α) (moves : List (Move A φ)) :
    ∀ cfg : Config E R σ ε α, sys.Along rely body moves cfg := by
  induction moves with
  | nil => exact fun _ => trivial
  | cons m moves ih =>
    refine fun cfg => ⟨?_, ih _⟩
    cases m with
    | env a => exact hact a cfg.world
    | step c =>
      change match cfg.prog.next with | none => True | some e => rely.call c e cfg.world
      split
      · trivial
      · exact hcall c _ cfg.world

/-- An assertion that holds at every call, end and exception holds in every state of a
run. -/
theorem System.Safe.always {P G : σ → Prop} {body : Prog E R ε α}
    (hbody : ∀ w, P w → sys.Safe rely (fun _ => G) (fun _ => G) (fun _ => P) body w)
    (hPG : ∀ w, P w → G w) (moves : List (Move A φ)) {w : σ} (hw : P w)
    (halong : sys.Along rely body moves ⟨w, body⟩) : G (sys.run body moves w).world := by
  have hrun := System.Safe.run hbody moves hw halong
  split at hrun
  · exact hPG _ hrun
  · exact hrun
  · exact hrun

/-- A program on its own ends in its postcondition or in an exception. -/
theorem System.Safe.exec {c : φ} (hc : ∀ e w, rely.call c e w) {p : Prog E R ε α} :
    ∀ {w : σ}, sys.Safe rely J X Q p w →
      match (sys.exec c p w).1 with
      | .ok a => Q a (sys.exec c p w).2
      | .error x => X x (sys.exec c p w).2 := by
  induction p with
  | ret a => exact fun h => h _ .refl
  | raise x => exact fun h => h _ .refl
  | call e k ih => exact fun h => ih _ ((h _ .refl).2 c (hc e _))

end Rules

end Interaction
