import CuttleDB.Lib.Interaction

/-!
# Programs without some of their calls

Some calls of a program are its own, the others belong to other parts of the system.
When what the others answer does not decide what becomes of the own calls, there is a
program that makes just those, the projection. It runs beside the whole program: of a run
of the one, the moves without the calls of the others are a run of the other, with the
same calls in the same order, each in a state that looks the same.
-/

namespace Interaction

variable {E : Type} {R : E → Type} {ε α β γ δ σ A φ τ : Type}

/-- `p'` makes the own calls of `p`, whatever `fine` answers the other calls get. The
values at the ends need not agree. -/
inductive Prog.Projects (own : E → Bool) (fine : (e : E) → R e → Prop) :
    Prog E R ε α → Prog E R ε β → Prop
  | ret (a : α) (b : β) : Projects own fine (.ret a) (.ret b)
  | raise (x : ε) : Projects own fine (.raise x) (.raise x)
  | own {e : E} {k : R e → Prog E R ε α} {k' : R e → Prog E R ε β} (he : own e = true)
      (hk : ∀ r, Projects own fine (k r) (k' r)) : Projects own fine (.call e k) (.call e k')
  | other {e : E} {k : R e → Prog E R ε α} {p' : Prog E R ε β} (he : own e = false)
      (hk : ∀ r, fine e r → Projects own fine (k r) p') : Projects own fine (.call e k) p'

namespace Prog.Projects

variable {own : E → Bool} {fine : (e : E) → R e → Prop}

theorem bind {p : Prog E R ε α} {p' : Prog E R ε β} {f : α → Prog E R ε γ}
    {f' : β → Prog E R ε δ} (h : p.Projects own fine p')
    (hf : ∀ a b, (f a).Projects own fine (f' b)) : (p >>= f).Projects own fine (p' >>= f') := by
  induction h with
  | ret a b => exact hf a b
  | raise x => exact .raise x
  | own he _ ih => exact .own he ih
  | other he _ ih => exact .other he ih

/-- A part without own calls is left out. -/
theorem silent_bind {p : Prog E R ε α} {f : α → Prog E R ε β} {q : Prog E R ε γ}
    (h : p.Projects own fine (.ret ())) (hf : ∀ a, (f a).Projects own fine q) :
    (p >>= f).Projects own fine q := by
  have hret : (p >>= f).Projects own fine (Prog.ret () >>= fun _ => q) :=
    h.bind fun a _ => hf a
  exact hret

theorem perform_own {e : E} (he : own e = true) {k : R e → Prog E R ε α}
    {k' : R e → Prog E R ε β} (hk : ∀ r, (k r).Projects own fine (k' r)) :
    (Prog.perform e >>= k).Projects own fine (Prog.perform e >>= k') := .own he hk

theorem perform_other {e : E} (he : own e = false) {k : R e → Prog E R ε α} {q : Prog E R ε β}
    (hk : ∀ r, fine e r → (k r).Projects own fine q) :
    (Prog.perform e >>= k).Projects own fine q := .other he hk

/-- A loop over the same list on both sides. -/
theorem foldlM {f : α → γ → Prog E R ε α} {f' : β → γ → Prog E R ε β} (xs : List γ)
    (h : ∀ x ∈ xs, ∀ a b, (f a x).Projects own fine (f' b x)) (a : α) (b : β) :
    (xs.foldlM f a).Projects own fine (xs.foldlM f' b) := by
  induction xs generalizing a b with
  | nil => exact .ret a b
  | cons x xs ih =>
    rw [List.foldlM_cons, List.foldlM_cons]
    refine (h x List.mem_cons_self a b).bind fun a b => ?_
    exact ih (fun y hy => h y (List.mem_cons_of_mem _ hy)) a b

/-- A loop without own calls. -/
theorem foldlM_silent {f : α → γ → Prog E R ε α} (xs : List γ)
    (h : ∀ x ∈ xs, ∀ a, (f a x).Projects own fine (.ret ())) (a : α) :
    (xs.foldlM f a).Projects own fine (.ret ()) := by
  induction xs generalizing a with
  | nil => exact .ret a ()
  | cons x xs ih =>
    rw [List.foldlM_cons]
    refine (h x List.mem_cons_self a).silent_bind fun a => ?_
    exact ih (fun y hy => h y (List.mem_cons_of_mem _ hy)) a

/-- The value at the end of a projection does not matter. -/
theorem ret_of_ret {p : Prog E R ε α} {b : β} (h : p.Projects own fine (.ret b)) (c : γ) :
    p.Projects own fine (.ret c) := by
  generalize hq : (Prog.ret b : Prog E R ε β) = q at h
  induction h with
  | ret a b => exact .ret a c
  | raise x => cases hq
  | own he hk ih => cases hq
  | other he hk ih => exact .other he fun r hr => ih r hr hq

/-- A loop in which one item alone has own calls. -/
theorem foldlM_single {f : α → γ → Prog E R ε α} {f' : β → γ → Prog E R ε β} {x : γ}
    (hself : ∀ a b, (f a x).Projects own fine (f' b x)) {xs : List γ} (hx : x ∈ xs)
    (hnodup : xs.Nodup) (hothers : ∀ y ∈ xs, y ≠ x → ∀ a, (f a y).Projects own fine (.ret ()))
    (a : α) (b : β) : (xs.foldlM f a).Projects own fine ([x].foldlM f' b) := by
  induction xs generalizing a with
  | nil => cases hx
  | cons y ys ih =>
    obtain ⟨hy, hnodup⟩ := List.nodup_cons.mp hnodup
    have htail : ∀ z ∈ ys, z ≠ x → ∀ a, (f a z).Projects own fine (.ret ()) :=
      fun z hz => hothers z (List.mem_cons_of_mem _ hz)
    rw [List.foldlM_cons]
    rcases List.mem_cons.mp hx with rfl | hx
    · rw [List.foldlM_cons]
      refine (hself a b).bind fun a b => ?_
      refine ret_of_ret (foldlM_silent ys (fun z hz => htail z hz ?_) a) b
      rintro rfl
      exact hy hz
    · have hne : y ≠ x := by
        rintro rfl
        exact hy hx
      exact (hothers y List.mem_cons_self hne a).silent_bind fun a => ih hx hnodup htail a

end Prog.Projects

/-! ### Runs side by side -/

/-- A call of a run, with what is seen of the state that it meets. -/
structure Called (E : Type) (R : E → Type) (τ : Type) where
  seen : τ
  call : E
  answer : R call

def System.called (sys : System E R σ A φ) (see : σ → τ) (cfg : Config E R σ ε α) :
    Move A φ → Option (Called E R τ)
  | .env _ => none
  | .step c =>
    match cfg.prog with
    | .call e _ => some ⟨see cfg.world, e, (sys.answer c e cfg.world).1⟩
    | _ => none

/-- The calls of a run, in order. -/
def System.calls (sys : System E R σ A φ) (see : σ → τ) (body : Prog E R ε α) :
    List (Move A φ) → Config E R σ ε α → List (Called E R τ)
  | [], _ => []
  | m :: moves, cfg =>
    (sys.called see cfg m).toList ++ calls sys see body moves (sys.move body cfg m)

/-- The move is no call of the others. -/
def Config.keeps (own : E → Bool) (cfg : Config E R σ ε α) : Move A φ → Bool
  | .env _ => true
  | .step _ =>
    match cfg.prog.next with
    | some e => own e
    | none => true

/-- The moves of a run without the calls of the others. -/
def System.project (sys : System E R σ A φ) (own : E → Bool) (body : Prog E R ε α) :
    List (Move A φ) → Config E R σ ε α → List (Move A φ)
  | [], _ => []
  | m :: moves, cfg =>
    (if cfg.keeps own m then [m] else []) ++ project sys own body moves (sys.move body cfg m)

/-- What relates a state of the whole program to one of its projection: the actions of
the others and the own calls keep it, and the calls of the others do not touch it. -/
structure System.Unwinding (sys : System E R σ A φ) (own : E → Bool)
    (fine : (e : E) → R e → Prop) (rely : Rely E σ A φ) (view : σ → σ → Prop) : Prop where
  act : ∀ a w w', view w w' → view (sys.act a w) (sys.act a w')
  owns : ∀ c e w w', own e = true → view w w' →
    (sys.answer c e w).1 = (sys.answer c e w').1 ∧ view (sys.answer c e w).2 (sys.answer c e w').2
  other : ∀ c e w w', own e = false → view w w' → view (sys.answer c e w).2 w'
  answers : ∀ c e w, own e = false → rely.call c e w → fine e (sys.answer c e w).1

section Runs

variable {sys : System E R σ A φ} {own : E → Bool} {fine : (e : E) → R e → Prop}
  {rely : Rely E σ A φ} {view : σ → σ → Prop} {body : Prog E R ε α} {body' : Prog E R ε β}

/-- The projection is where the whole program is, as far as its own calls go. -/
def Beside (own : E → Bool) (fine : (e : E) → R e → Prop) (view : σ → σ → Prop)
    (cfg : Config E R σ ε α) (cfg' : Config E R σ ε β) : Prop :=
  cfg.prog.Projects own fine cfg'.prog ∧ view cfg.world cfg'.world

/-- One move of the whole program: the projection makes it too, or it stays where it is. -/
theorem System.Unwinding.move (h : sys.Unwinding own fine rely view)
    (hbody : body.Projects own fine body') {cfg : Config E R σ ε α} {cfg' : Config E R σ ε β}
    (hbeside : Beside own fine view cfg cfg') {m : Move A φ} (hallows : rely.Allows cfg m) :
    if cfg.keeps own m then
      Beside own fine view (sys.move body cfg m) (sys.move body' cfg' m)
    else Beside own fine view (sys.move body cfg m) cfg' := by
  obtain ⟨w, p⟩ := cfg
  obtain ⟨w', p'⟩ := cfg'
  obtain ⟨hprog, hview⟩ := hbeside
  cases m with
  | env a => exact ⟨hprog, h.act a w w' hview⟩
  | step c =>
    cases hprog with
    | ret a b => exact ⟨hbody, hview⟩
    | raise x => exact ⟨.raise x, hview⟩
    | @own e k k' he hk =>
      have hkeeps : Config.keeps own ⟨w, .call e k⟩ (.step c : Move A φ) = true := he
      obtain ⟨hanswer, hafter⟩ := h.owns c e w w' he hview
      rw [if_pos hkeeps]
      refine ⟨?_, hafter⟩
      change (k (sys.answer c e w).1).Projects own fine (k' (sys.answer c e w').1)
      rw [← hanswer]
      exact hk _
    | @other e k p' he hk =>
      have hkeeps : Config.keeps own ⟨w, .call e k⟩ (.step c : Move A φ) = false := he
      rw [hkeeps, if_neg Bool.false_ne_true]
      exact ⟨hk _ (h.answers c e w he hallows), h.other c e w w' he hview⟩

/-- The call of a move that both make. -/
theorem System.Unwinding.called (h : sys.Unwinding own fine rely view) {see : σ → τ}
    (hsee : ∀ w w', view w w' → see w = see w') {cfg : Config E R σ ε α}
    {cfg' : Config E R σ ε β} (hbeside : Beside own fine view cfg cfg') (m : Move A φ) :
    (sys.called see cfg m).toList.filter (fun c => own c.call) =
      if cfg.keeps own m then (sys.called see cfg' m).toList else [] := by
  obtain ⟨w, p⟩ := cfg
  obtain ⟨w', p'⟩ := cfg'
  obtain ⟨hprog, hview⟩ := hbeside
  cases m with
  | env a => rfl
  | step c =>
    cases hprog with
    | ret a b => rfl
    | raise x => rfl
    | @own e k k' he hk =>
      have hkeeps : Config.keeps own ⟨w, .call e k⟩ (.step c : Move A φ) = true := he
      have hanswer := (h.owns c e w w' he hview).1
      rw [if_pos hkeeps]
      simp [System.called, he, hanswer, hsee w w' hview]
    | @other e k p' he hk =>
      have hkeeps : Config.keeps own ⟨w, .call e k⟩ (.step c : Move A φ) = false := he
      rw [hkeeps, if_neg Bool.false_ne_true]
      simp [System.called, he]

/-- **The moves without the calls of the others are a run of the projection:** it makes
the own calls of the whole program, in the same order and in states that look the same,
and it ends beside the whole program. -/
theorem System.Unwinding.run (h : sys.Unwinding own fine rely view)
    (hbody : body.Projects own fine body') {see : σ → τ}
    (hsee : ∀ w w', view w w' → see w = see w') (moves : List (Move A φ))
    {cfg : Config E R σ ε α} {cfg' : Config E R σ ε β} (hbeside : Beside own fine view cfg cfg')
    (halong : sys.Along rely body moves cfg) :
    sys.calls see body' (sys.project own body moves cfg) cfg' =
        (sys.calls see body moves cfg).filter (fun c => own c.call) ∧
      Beside own fine view (moves.foldl (sys.move body) cfg)
        ((sys.project own body moves cfg).foldl (sys.move body') cfg') := by
  induction moves generalizing cfg cfg' with
  | nil => exact ⟨rfl, hbeside⟩
  | cons m moves ih =>
    obtain ⟨hallows, halong⟩ := halong
    have hmove := h.move hbody hbeside hallows
    have hcalled := h.called hsee hbeside m
    rw [System.calls, List.filter_append, hcalled, System.project]
    cases hkeeps : cfg.keeps own m with
    | true =>
      rw [hkeeps, if_pos rfl] at hmove
      obtain ⟨hcalls, hend⟩ := ih hmove halong
      rw [if_pos rfl, if_pos rfl, List.singleton_append, System.calls, hcalls]
      exact ⟨rfl, hend⟩
    | false =>
      rw [hkeeps, if_neg Bool.false_ne_true] at hmove
      rw [if_neg Bool.false_ne_true, if_neg Bool.false_ne_true, List.nil_append, List.nil_append]
      exact ih hmove halong

end Runs

end Interaction
