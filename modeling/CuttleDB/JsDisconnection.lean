import CuttleDB.JsLines

/-!
# After a socket has closed

Every promise of a transport is owed: it has waiters in the queue for what its call
still waits for, or it has been settled, once. The exception is a batch of no commands
on a connected transport, which has no waiter and is stranded. When the close event
of the socket has rejected the waiters, the calls that find `this.socket` set queue
new ones that nothing takes off any more.
-/

namespace CuttleDB.Js

open Framing

variable {α ω : Type} [DecidableEq α] [Alphabet α]

/-! ### Owed promises -/

/-- What a batch has collected. -/
def Transport.out (t : Transport α ω) (p : Nat) : Call α → List (List α)
  | .send _ => []
  | .sendBatch _ => t.outs[p]?.getD []

/-- The number of waiters of a promise. -/
def Transport.awaiting (t : Transport α ω) (p : Nat) : Nat :=
  (t.waiters.map Waiter.promise).count p

/-- The promise `p` of the call `c` waits for the replies that have not come. -/
structure Transport.Pending (t : Transport α ω) (p : Nat) (c : Call α) : Prop where
  settled : t.settlementsOf p = []
  size : (t.out p c).length + t.awaiting p = c.size
  awaiting : c.size ≠ 0 → 0 < t.awaiting p

structure Transport.Finished (t : Transport α ω) (p : Nat) : Prop where
  settled : (t.settlementsOf p).length = 1
  awaiting : t.awaiting p = 0

structure Owed (t : Transport α ω) : Prop where
  outs : t.outs.length = t.calls.length
  known : ∀ s ∈ t.settled, s.1 < t.calls.length
  waiters : ∀ w ∈ t.waiters, ∃ c, t.calls[w.promise]? = some c ∧ w.batch = c.batch
  promises : ∀ p c, t.calls[p]? = some c → t.Pending p c ∨ t.Finished p

/-- No promise is left without a waiter and without a settlement. -/
def NoneStranded (t : Transport α ω) : Prop :=
  ∀ p c, t.calls[p]? = some c → t.settlementsOf p = [] → c.size ≠ 0

section Owed

variable (write : Call α → List ω) {t : Transport α ω}

omit [DecidableEq α] in
theorem Owed.awaiting_new (h : Owed t) : t.awaiting t.calls.length = 0 := by
  rw [Transport.awaiting, List.count_eq_zero]
  intro hmem
  obtain ⟨w, hw, heq⟩ := List.mem_map.mp hmem
  obtain ⟨c, hc, -⟩ := h.waiters w hw
  have hlt := (List.getElem?_eq_some_iff.mp hc).1
  omega

omit [DecidableEq α] in
/-- A step that does not touch a promise leaves it owed as it was. -/
theorem Owed.keep (h : Owed t) {t' : Transport α ω} {p : Nat} {c : Call α}
    (hp : t.calls[p]? = some c) (hsettled : t'.settlementsOf p = t.settlementsOf p)
    (houts : t'.outs[p]? = t.outs[p]?) (hawaiting : t'.awaiting p = t.awaiting p) :
    t'.Pending p c ∨ t'.Finished p := by
  have hout : t'.out p c = t.out p c := by
    cases c with
    | send cmd => rfl
    | sendBatch cmds => rw [Transport.out, houts, Transport.out]
  rcases h.promises p c hp with ⟨hnone, hsize, hpos⟩ | ⟨hone, hzero⟩
  · exact Or.inl ⟨hsettled.trans hnone, by rw [hout, hawaiting, hsize], by rwa [hawaiting]⟩
  · exact Or.inr ⟨by rw [hsettled, hone], by rw [hawaiting, hzero]⟩

theorem getElem?_concat_of_some {β : Type} {xs : List β} {x y : β} {i : Nat} (h : xs[i]? = some y) :
    (xs ++ [x])[i]? = some y := by
  rw [List.getElem?_append_left (List.getElem?_eq_some_iff.mp h).1, h]

omit [DecidableEq α] in
theorem Owed.call_connected (h : Owed t) (hconnected : t.connected = true) (c : Call α) :
    Owed (t.call write c) ∧
      (NoneStranded (t.call write c) ↔ NoneStranded t ∧ c.size ≠ 0) := by
  have hnew := h.awaiting_new
  have hnone : t.settlementsOf t.calls.length = [] := settlementsOf_eq_nil h.known
  have hlast : (t.calls ++ [c])[t.calls.length]? = some c := List.getElem?_concat_length
  obtain ⟨⟨-, hcalls, -, hsettled⟩, houts, hwaiters, -⟩ :=
    Transport.call_spec write hconnected c
  have hsame : ∀ p, (t.call write c).settlementsOf p = t.settlementsOf p := by
    intro p
    rw [Transport.settlementsOf, hsettled, Transport.settlementsOf]
  have hawaiting : ∀ p, (t.call write c).awaiting p =
      t.awaiting p + if t.calls.length = p then c.size else 0 := by
    intro p
    rw [Transport.awaiting, hwaiters, List.map_append, List.count_append, List.map_replicate,
      List.count_replicate, Transport.awaiting]
    simp
  refine ⟨⟨?_, ?_, ?_, ?_⟩, ?_⟩
  · rw [houts, hcalls, List.length_append, List.length_append, h.outs]
    rfl
  · intro s hs
    rw [hcalls, List.length_append]
    exact Nat.lt_add_right _ (h.known s (hsettled ▸ hs))
  · intro w hw
    rw [hcalls]
    rcases List.mem_append.mp (hwaiters ▸ hw) with hw | hw
    · obtain ⟨d, hd, hbatch⟩ := h.waiters w hw
      exact ⟨d, getElem?_concat_of_some hd, hbatch⟩
    · rw [List.eq_of_mem_replicate hw]
      exact ⟨c, hlast, rfl⟩
  · intro p d hp
    rcases getElem?_concat_cases (hcalls ▸ hp) with ⟨hlt, hp⟩ | ⟨rfl, rfl⟩
    · apply h.keep hp (hsame p)
      · rw [houts, List.getElem?_append_left (h.outs ▸ hlt)]
      · rw [hawaiting, if_neg (by omega), Nat.add_zero]
    · left
      have hout : (t.call write d).out t.calls.length d = [] := by
        cases d with
        | send cmd => rfl
        | sendBatch cmds => rw [Transport.out, houts, ← h.outs, List.getElem?_concat_length]; rfl
      refine ⟨(hsame _).trans hnone, ?_, fun hpos => ?_⟩
      · rw [hout, hawaiting, if_pos rfl, hnew, List.length_nil, Nat.zero_add, Nat.zero_add]
      · rw [hawaiting, if_pos rfl]
        omega
  · constructor
    · intro hstranded
      refine ⟨fun p d hp hnil => ?_, ?_⟩
      · exact hstranded p d (hcalls ▸ getElem?_concat_of_some hp) ((hsame p).trans hnil)
      · exact hstranded _ c (hcalls ▸ hlast) ((hsame _).trans hnone)
    · rintro ⟨hold, hc⟩ p d hp hnil
      rcases getElem?_concat_cases (hcalls ▸ hp) with ⟨-, hp⟩ | ⟨rfl, rfl⟩
      · exact hold p d hp ((hsame p).symm.trans hnil)
      · exact hc

omit [DecidableEq α] in
theorem settlementsOf_call_rejected (hconnected : t.connected = false) (c : Call α) (p : Nat) :
    (t.call write c).settlementsOf p =
      t.settlementsOf p ++ if t.calls.length = p then [.rejected .notConnected] else [] := by
  obtain ⟨⟨-, -, -, hsettled⟩, -⟩ := Transport.call_rejected write hconnected c
  rw [← settlementsOf_concat]
  simp only [Transport.settlementsOf, hsettled]

omit [DecidableEq α] in
theorem Owed.call_rejected (h : Owed t) (hconnected : t.connected = false) (c : Call α) :
    Owed (t.call write c) ∧ (NoneStranded (t.call write c) ↔ NoneStranded t) := by
  have hnew := h.awaiting_new
  have hnone : t.settlementsOf t.calls.length = [] := settlementsOf_eq_nil h.known
  have hlast : (t.calls ++ [c])[t.calls.length]? = some c := List.getElem?_concat_length
  obtain ⟨⟨-, hcalls, -, hsettled⟩, houts, hwaiters⟩ :=
    Transport.call_rejected write hconnected c
  have hsettlements := settlementsOf_call_rejected write hconnected c
  have hawaiting : ∀ p, (t.call write c).awaiting p = t.awaiting p := by
    intro p
    rw [Transport.awaiting, hwaiters, Transport.awaiting]
  have hrejected : (t.call write c).settlementsOf t.calls.length =
      [.rejected .notConnected] := by
    rw [hsettlements, hnone, if_pos rfl, List.nil_append]
  have hother : ∀ {p : Nat}, p < t.calls.length →
      (t.call write c).settlementsOf p = t.settlementsOf p := by
    intro p hp
    rw [hsettlements, if_neg (by omega), List.append_nil]
  refine ⟨⟨?_, ?_, ?_, ?_⟩, ?_⟩
  · rw [houts, hcalls, List.length_append, List.length_append, h.outs]
    rfl
  · intro s hs
    rw [hcalls, List.length_append]
    rcases List.mem_append.mp (hsettled ▸ hs) with hs | hs
    · exact Nat.lt_add_right _ (h.known s hs)
    · rw [List.mem_singleton.mp hs]
      exact Nat.lt_succ_self _
  · intro w hw
    rw [hcalls]
    obtain ⟨d, hd, hbatch⟩ := h.waiters w (hwaiters ▸ hw)
    exact ⟨d, getElem?_concat_of_some hd, hbatch⟩
  · intro p d hp
    rcases getElem?_concat_cases (hcalls ▸ hp) with ⟨hlt, hp⟩ | ⟨rfl, rfl⟩
    · apply h.keep hp (hother hlt) ?_ (hawaiting p)
      rw [houts, List.getElem?_append_left (h.outs ▸ hlt)]
    · exact Or.inr ⟨by rw [hrejected]; rfl, by rw [hawaiting, hnew]⟩
  · constructor
    · intro hstranded p d hp hnil
      have hlt := (List.getElem?_eq_some_iff.mp hp).1
      exact hstranded p d (hcalls ▸ getElem?_concat_of_some hp) ((hother hlt).trans hnil)
    · intro hold p d hp hnil
      rcases getElem?_concat_cases (hcalls ▸ hp) with ⟨hlt, hp⟩ | ⟨rfl, rfl⟩
      · exact hold p d hp ((hother hlt).symm.trans hnil)
      · rw [hrejected] at hnil
        cases hnil

omit [DecidableEq α] in
theorem Owed.call (h : Owed t) (c : Call α) :
    Owed (t.call write c) ∧
      (NoneStranded (t.call write c) ↔ NoneStranded t ∧ (t.connected = true → c.size ≠ 0)) := by
  cases hconnected : t.connected with
  | true =>
    obtain ⟨howed, hstranded⟩ := h.call_connected write hconnected c
    exact ⟨howed, by simp [hstranded]⟩
  | false =>
    obtain ⟨howed, hstranded⟩ := h.call_rejected write hconnected c
    exact ⟨howed, by simp [hstranded]⟩

omit [DecidableEq α] in
theorem Owed.foldl_call (cs : List (Call α)) :
    ∀ {t : Transport α ω}, Owed t →
      Owed (cs.foldl (Transport.call write) t) ∧
        (NoneStranded (cs.foldl (Transport.call write) t) ↔
          NoneStranded t ∧ ∀ c ∈ cs, t.connected = true → c.size ≠ 0) := by
  induction cs with
  | nil => exact fun h => ⟨h, by simp⟩
  | cons c cs ih =>
    intro t h
    obtain ⟨howed, hstranded⟩ := h.call write c
    obtain ⟨howed', hstranded'⟩ := ih howed
    have hconnected : (t.call write c).connected = t.connected := by
      cases hconn : t.connected with
      | true => exact (Transport.call_spec write hconn c).1.1
      | false => exact (Transport.call_rejected write hconn c).1.1
    refine ⟨howed', ?_⟩
    rw [List.foldl_cons, hstranded', hstranded, hconnected, List.forall_mem_cons, and_assoc]

omit [DecidableEq α] in
theorem Transport.awaiting_cons {w : Waiter} {ws : List Waiter} (hw : t.waiters = w :: ws)
    (p : Nat) :
    t.awaiting p =
      Transport.awaiting { t with waiters := ws } p + if w.promise = p then 1 else 0 := by
  rw [Transport.awaiting, hw, List.map_cons, List.count_cons, Transport.awaiting]
  simp

omit [DecidableEq α] in
/-- A promise with a waiter is pending. -/
theorem Owed.pending_front (h : Owed t) {w : Waiter} {ws : List Waiter}
    (hw : t.waiters = w :: ws) :
    ∃ c, t.calls[w.promise]? = some c ∧ w.batch = c.batch ∧ t.Pending w.promise c := by
  obtain ⟨c, hc, hbatch⟩ := h.waiters w (by simp [hw])
  refine ⟨c, hc, hbatch, ?_⟩
  rcases h.promises w.promise c hc with hpending | ⟨-, hzero⟩
  · exact hpending
  · rw [Transport.awaiting_cons hw, if_pos rfl] at hzero
    cases hzero

omit [DecidableEq α] in
/-- The first waiter is given a line. -/
theorem Owed.resolve (h : Owed t) {w : Waiter} {ws : List Waiter} (hw : t.waiters = w :: ws)
    (line : List α) :
    Owed (Transport.resolve w line { t with waiters := ws }) ∧
      (NoneStranded (Transport.resolve w line { t with waiters := ws }) ↔ NoneStranded t) := by
  obtain ⟨c, hc, hbatch, hnone, hsize, -⟩ := h.pending_front hw
  have hone := Transport.awaiting_cons hw w.promise
  rw [if_pos rfl] at hone
  have hlt : w.promise < t.outs.length := by
    rw [h.outs]
    exact (List.getElem?_eq_some_iff.mp hc).1
  have hbatchOut : ∀ cmds, c = .sendBatch cmds →
      t.outs[w.promise]? = some (t.out w.promise c) := by
    rintro cmds rfl
    rw [Transport.out, List.getElem?_eq_getElem hlt]
    rfl
  have hempty : c.size = 1 → t.out w.promise c = [] := by
    intro hsize
    rw [← List.length_eq_zero_iff]
    omega
  obtain ⟨hsettlements, hlength, houts, hout, hknown⟩ :=
    Transport.resolve_owner (t := { t with waiters := ws }) line hbatch hbatchOut hempty
  obtain ⟨-, hcalls, hwaiters, -⟩ := Transport.resolve_spec w line { t with waiters := ws }
  have hrest : ∀ p, (Transport.resolve w line { t with waiters := ws }).awaiting p =
      Transport.awaiting { t with waiters := ws } p := by
    intro p
    rw [Transport.awaiting, hwaiters, Transport.awaiting]
  have hsame : ∀ {p : Nat}, p ≠ w.promise →
      (Transport.resolve w line { t with waiters := ws }).settlementsOf p = t.settlementsOf p := by
    intro p hp
    rw [hsettlements, if_neg (fun heq => hp heq.1.symm), List.append_nil]
    rfl
  refine ⟨⟨?_, ?_, ?_, ?_⟩, ?_⟩
  · rw [hlength, hcalls]
    exact h.outs
  · intro s hs
    rw [hcalls]
    rcases hknown s hs with hs | hs
    · exact h.known s hs
    · rw [hs]
      exact (List.getElem?_eq_some_iff.mp hc).1
  · intro v hv
    rw [hcalls]
    rw [hwaiters] at hv
    exact h.waiters v (by rw [hw]; exact List.mem_cons_of_mem _ hv)
  · intro p d hp
    rw [hcalls] at hp
    by_cases heq : p = w.promise
    · subst heq
      obtain rfl := Option.some.inj (hc.symm.trans hp)
      by_cases hfull : (t.out w.promise c ++ [line]).length = c.size
      · right
        rw [List.length_append, List.length_singleton] at hfull
        refine ⟨?_, by rw [hrest]; omega⟩
        replace hnone : Transport.settlementsOf { t with waiters := ws } w.promise = [] := hnone
        rw [hsettlements, if_pos ⟨rfl, by simpa using hfull⟩, hnone]
        rfl
      · left
        have hlonger : ((Transport.resolve w line { t with waiters := ws }).out w.promise c).length =
            (t.out w.promise c).length + 1 := by
          cases c with
          | send cmd => exact absurd rfl hfull
          | sendBatch cmds =>
            rw [Transport.out, hout cmds rfl, Option.getD_some, List.length_append]
            rfl
        rw [List.length_append, List.length_singleton] at hfull
        refine ⟨?_, by rw [hlonger, hrest]; omega, fun _ => by rw [hrest]; omega⟩
        rw [hsettlements, if_neg (fun heq => hfull (by simpa using heq.2)), List.append_nil]
        exact hnone
    · apply h.keep hp (hsame heq) (houts p heq)
      rw [hrest, Transport.awaiting_cons hw, if_neg (Ne.symm heq), Nat.add_zero]
  · constructor
    · intro hstranded p d hp hnil
      by_cases heq : p = w.promise
      · subst heq
        obtain rfl := Option.some.inj (hc.symm.trans hp)
        omega
      · exact hstranded p d (hcalls.symm ▸ hp) ((hsame heq).trans hnil)
    · intro hstranded p d hp hnil
      rw [hcalls] at hp
      rw [hsettlements] at hnil
      exact hstranded p d hp (List.append_eq_nil_iff.mp hnil).1

omit [DecidableEq α] in
theorem Transport.foldl_call_keeps (write : Call α → List ω) (cs : List (Call α)) :
    ∀ t : Transport α ω, (cs.foldl (Transport.call write) t).connected = t.connected ∧
      (cs.foldl (Transport.call write) t).events = t.events := by
  induction cs with
  | nil => exact fun t => ⟨rfl, rfl⟩
  | cons c cs ih =>
    intro t
    have hcall : (t.call write c).connected = t.connected ∧ (t.call write c).events = t.events := by
      cases hconn : t.connected with
      | true =>
        obtain ⟨⟨hconnected, -, hevents, -⟩, -⟩ := Transport.call_spec write hconn c
        exact ⟨hconnected, hevents⟩
      | false =>
        obtain ⟨⟨hconnected, -, hevents, -⟩, -⟩ := Transport.call_rejected write hconn c
        exact ⟨hconnected, hevents⟩
    obtain ⟨hconnected, hevents⟩ := ih (t.call write c)
    exact ⟨hconnected.trans hcall.1, hevents.trans hcall.2⟩

theorem Transport.dispatch_keeps (write : Call α → List ω) (react : Nat → List (Call α))
    (t : Transport α ω) (line : List α) :
    (t.dispatch write react line).connected = t.connected ∧
      (t.dispatch write react line).events =
        t.events ++ if evtTag <+: line then [line] else [] := by
  unfold Transport.dispatch
  split
  · obtain ⟨hconnected, hevents⟩ := Transport.foldl_call_keeps write (react t.events.length)
      { t with events := t.events ++ [line] }
    exact ⟨hconnected, hevents⟩
  · rw [List.append_nil]
    split
    · exact ⟨rfl, rfl⟩
    · rename_i w ws _
      obtain ⟨hconnected, -, -, hevents, -⟩ :=
        Transport.resolve_spec w line { t with waiters := ws }
      exact ⟨hconnected, hevents⟩

theorem Owed.dispatch (h : Owed t) (react : Nat → List (Call α)) (line : List α) :
    Owed (t.dispatch write react line) ∧
      (NoneStranded (t.dispatch write react line) ↔
        NoneStranded t ∧ (evtTag <+: line → ∀ c ∈ react t.events.length,
          t.connected = true → c.size ≠ 0)) := by
  unfold Transport.dispatch
  split
  · rename_i hevent
    have hnoted : Owed { t with events := t.events ++ [line] } :=
      ⟨h.outs, h.known, h.waiters, fun p c hp => h.keep hp rfl rfl rfl⟩
    obtain ⟨howed, hstranded⟩ := hnoted.foldl_call write (react t.events.length)
    refine ⟨howed, hstranded.trans ?_⟩
    exact ⟨fun h => ⟨h.1, fun _ => h.2⟩, fun h => ⟨h.1, h.2 hevent⟩⟩
  · rename_i hevent
    have hdrop : ∀ p q : Prop, (p ↔ q) → (p ↔ q ∧ (evtTag <+: line →
        ∀ c ∈ react t.events.length, t.connected = true → c.size ≠ 0)) :=
      fun p q h => h.trans ⟨fun hq => ⟨hq, fun he => absurd he hevent⟩, And.left⟩
    split
    · exact ⟨h, hdrop _ _ Iff.rfl⟩
    · rename_i w ws hw
      obtain ⟨howed, hstranded⟩ := h.resolve hw line
      exact ⟨howed, hdrop _ _ hstranded⟩

/-- Which calls the listeners make on the events among the lines. -/
theorem Owed.foldl_dispatch (react : Nat → List (Call α)) (lines : List (List α)) :
    ∀ {t : Transport α ω}, Owed t →
      Owed (lines.foldl (Transport.dispatch write react) t) ∧
        (NoneStranded (lines.foldl (Transport.dispatch write react) t) ↔
          NoneStranded t ∧ ∀ k, t.events.length ≤ k →
            k < t.events.length + lines.countP (evtTag <+: ·) →
            ∀ c ∈ react k, t.connected = true → c.size ≠ 0) := by
  induction lines with
  | nil =>
    intro t h
    refine ⟨h, ⟨fun hn => ⟨hn, fun k hge hlt => ?_⟩, And.left⟩⟩
    rw [List.countP_nil] at hlt
    omega
  | cons line lines ih =>
    intro t h
    obtain ⟨howed, hstranded⟩ := h.dispatch write react line
    obtain ⟨howed', hstranded'⟩ := ih howed
    obtain ⟨hconnected, hevents⟩ := Transport.dispatch_keeps write react t line
    refine ⟨howed', ?_⟩
    rw [List.foldl_cons, hstranded', hstranded, hconnected, hevents, List.countP_cons, and_assoc]
    refine and_congr_right fun _ => ?_
    by_cases hevent : evtTag <+: line
    · simp only [hevent, if_true, decide_true, List.length_append, List.length_singleton,
        forall_const]
      constructor
      · rintro ⟨hfirst, hnext⟩ k hge hlt
        rcases Nat.eq_or_lt_of_le hge with rfl | hgt
        · exact hfirst
        · exact hnext k hgt (by omega)
      · intro hall
        exact ⟨hall _ (Nat.le_refl _) (by omega), fun k hge hlt => hall k (by omega) (by omega)⟩
    · simp [hevent]

/-! ### Failing -/

omit [DecidableEq α] in
theorem Transport.foldl_reject_settlementsOf (err : TransportError) (ws : List Waiter) :
    ∀ (t : Transport α ω) (p : Nat), (ws.foldl (Transport.reject err) t).settlementsOf p =
      if p ∈ ws.map Waiter.promise ∧ t.settlementsOf p = [] then [.rejected err]
      else t.settlementsOf p := by
  induction ws with
  | nil =>
    intro t p
    simp
  | cons w ws ih =>
    intro t p
    have hmem : w.promise ∈ t.settled.map Prod.fst ↔ t.settlementsOf w.promise ≠ [] := by
      rw [Transport.settlementsOf, ne_eq, List.map_eq_nil_iff, List.filter_eq_nil_iff]
      simp only [List.mem_map, decide_eq_true_eq, not_forall, not_not]
      constructor
      · rintro ⟨v, hv, heq⟩
        exact ⟨v, hv, heq⟩
      · rintro ⟨v, hv, heq⟩
        exact ⟨v, hv, heq⟩
    have hreject : (t.reject err w).settlementsOf p =
        t.settlementsOf p ++
          if w.promise = p ∧ t.settlementsOf p = [] then [.rejected err] else [] := by
      unfold Transport.reject
      split
      · rename_i hsettled
        rw [if_neg, List.append_nil]
        rintro ⟨rfl, hnil⟩
        exact hmem.mp hsettled hnil
      · rename_i hsettled
        rw [settlementsOf_concat]
        congr 1
        by_cases hp : w.promise = p
        · subst hp
          rw [if_pos rfl, if_pos ⟨rfl, not_not.mp (fun hne => hsettled (hmem.mpr hne))⟩]
        · rw [if_neg hp, if_neg (fun heq => hp heq.1)]
    rw [List.foldl_cons, ih, hreject]
    by_cases hp : w.promise = p
    · by_cases hnil : t.settlementsOf p = [] <;> simp [hp, hnil]
    · have hp' : p ≠ w.promise := Ne.symm hp
      simp [hp, hp']

omit [DecidableEq α] in
theorem Owed.failAll (h : Owed t) (err : TransportError) :
    Owed (t.failAll err) ∧ (NoneStranded (t.failAll err) ↔ NoneStranded t) ∧
      (t.failAll err).waiters = [] ∧ (t.failAll err).calls = t.calls := by
  obtain ⟨-, hcalls, hwaiters, houts, hsettled⟩ :=
    Transport.foldl_reject_spec err t.waiters { t with waiters := [] }
  have hsettlements : ∀ p, (t.failAll err).settlementsOf p =
      if p ∈ t.waiters.map Waiter.promise ∧ t.settlementsOf p = [] then [.rejected err]
      else t.settlementsOf p :=
    fun p => Transport.foldl_reject_settlementsOf err t.waiters { t with waiters := [] } p
  have hnone : ∀ p, (t.failAll err).awaiting p = 0 := by
    intro p
    have hnil : (t.failAll err).waiters = [] := hwaiters
    rw [Transport.awaiting, hnil]
    rfl
  refine ⟨⟨?_, ?_, ?_, ?_⟩, ?_, hwaiters, hcalls⟩
  · rw [Transport.failAll, houts, hcalls]
    exact h.outs
  · intro s hs
    rw [Transport.failAll, hcalls]
    rcases hsettled s hs with hs | hs
    · exact h.known s hs
    · obtain ⟨w, hw, heq⟩ := List.mem_map.mp hs
      obtain ⟨c, hc, -⟩ := h.waiters w hw
      rw [← heq]
      exact (List.getElem?_eq_some_iff.mp hc).1
  · intro w hw
    rw [Transport.failAll, hwaiters] at hw
    cases hw
  · intro p c hp
    rw [Transport.failAll, hcalls] at hp
    have hout : (t.failAll err).out p c = t.out p c := by
      cases c with
      | send cmd => rfl
      | sendBatch cmds => rw [Transport.out, Transport.failAll, houts, Transport.out]
    rcases h.promises p c hp with ⟨hnil, hsize, hpos⟩ | ⟨hone, -⟩
    · by_cases hmem : p ∈ t.waiters.map Waiter.promise
      · exact Or.inr ⟨by rw [hsettlements, if_pos ⟨hmem, hnil⟩]; rfl, hnone p⟩
      · have hzero : t.awaiting p = 0 := List.count_eq_zero.mpr hmem
        refine Or.inl ⟨?_, ?_, fun hne => ?_⟩
        · rw [hsettlements, if_neg (fun heq => hmem heq.1), hnil]
        · rw [hout, hnone, ← hsize, hzero]
        · have hwaits := hpos hne
          omega
    · right
      refine ⟨?_, hnone p⟩
      rw [hsettlements, if_neg, hone]
      rintro ⟨-, hnil⟩
      rw [hnil] at hone
      cases hone
  · constructor
    · intro hstranded p c hp hnil
      by_cases hmem : p ∈ t.waiters.map Waiter.promise
      · have hwaits : 0 < t.awaiting p := List.count_pos_iff.mpr hmem
        rcases h.promises p c hp with ⟨-, hsize, -⟩ | ⟨-, hzero⟩ <;> omega
      · apply hstranded p c
        · rw [Transport.failAll, hcalls]
          exact hp
        · rw [hsettlements, if_neg (fun heq => hmem heq.1), hnil]
    · intro hstranded p c hp hnil
      rw [Transport.failAll, hcalls] at hp
      apply hstranded p c hp
      rw [hsettlements] at hnil
      split at hnil
      · cases hnil
      · exact hnil

omit [DecidableEq α] in
theorem Owed.close (h : Owed t) :
    Owed t.close ∧ (NoneStranded t.close ↔ NoneStranded t) :=
  ⟨⟨h.outs, h.known, h.waiters, fun _ _ hp => h.keep hp rfl rfl rfl⟩, Iff.rfl⟩

omit [DecidableEq α] in
/-- Without waiters, every promise has been settled once, but for those stranded. -/
theorem Owed.settled_iff (h : Owed t) (hwaiters : t.waiters = []) :
    (∀ p < t.calls.length, (t.settlementsOf p).length = 1) ↔ NoneStranded t := by
  have hzero : ∀ p, t.awaiting p = 0 := by
    intro p
    rw [Transport.awaiting, hwaiters]
    rfl
  constructor
  · intro hall p c hp hnil
    have hone := hall p (List.getElem?_eq_some_iff.mp hp).1
    rw [hnil] at hone
    cases hone
  · intro hstranded p hp
    have hget : t.calls[p]? = some t.calls[p] := List.getElem?_eq_getElem hp
    rcases h.promises p _ hget with ⟨hnil, -, hpos⟩ | ⟨hone, -⟩
    · have hwaits := hpos (hstranded p _ hget hnil)
      rw [hzero] at hwaits
      cases hwaits
    · exact hone

end Owed

/-! ### Runs of a connection -/

inductive ConnStep (α : Type) [Alphabet α] where
  | call (c : Call α)
  | data (chunk : List α)          -- a chunk, or the text of a frame
  | error (message : List Char)    -- the `error` event of the socket
  | closed                         -- its `close` event
  | close                          -- `close()`
deriving DecidableEq

def ConnStep.isEvent : ConnStep α → Bool
  | .call _ => false
  | .data _ => true
  | .error _ => true
  | .closed => true
  | .close => false

def TcpTransport.serve (react : Nat → List (Call α)) (t : TcpTransport α) :
    ConnStep α → TcpTransport α
  | .call c => t.call c
  | .data chunk => t.onData react chunk
  | .error message => { t with toTransport := t.toTransport.failAll (.socketError message) }
  | .closed => { t with toTransport := t.toTransport.failAll .connectionClosed }
  | .close => { t with toTransport := t.toTransport.close }

def WsTransport.serve (react : Nat → List (Call α)) (t : WsTransport α) :
    ConnStep α → WsTransport α
  | .call c => t.call wsWrite c
  | .data text => t.onMessage react text
  | .error _ => t                  -- `onerror` is for a connection that is not open yet
  | .closed => t.failAll .webSocketClosed
  | .close => t.close

/-- `connect()` on a new transport -/
def Transport.opened : Transport α ω := ⟨true, [], [], [], [], [], []⟩

/-- A connection from `connect()` on. -/
def TcpTransport.served (react : Nat → List (Call α)) (steps : List (ConnStep α)) :
    TcpTransport α :=
  steps.foldl (TcpTransport.serve react) ⟨Transport.opened, []⟩

def WsTransport.served (react : Nat → List (Call α)) (steps : List (ConnStep α)) :
    WsTransport α :=
  steps.foldl (WsTransport.serve react) Transport.opened

/-- The state after the close event, when `earlier` calls had been made before it. -/
structure Released (earlier : Nat) (t : Transport α ω) : Prop where
  waiters : t.waiters = []
  settled : ∀ p < earlier, (t.settlementsOf p).length = 1
  rejected : ∀ p < t.calls.length, earlier ≤ p → t.settlementsOf p = [.rejected .notConnected]

/-- No batch without commands is sent by the step, when `lines` are those of a chunk. -/
def Asks (react : Nat → List (Call α)) (lines : List α → List (List α)) (t : Transport α ω) :
    ConnStep α → Prop
  | .call c => t.connected = true → c.size ≠ 0
  | .data chunk => ∀ k, t.events.length ≤ k →
      k < t.events.length + (lines chunk).countP (evtTag <+: ·) →
      ∀ c ∈ react k, t.connected = true → c.size ≠ 0
  | .error _ => True
  | .closed => True
  | .close => True

/-- The condition on a step after `done`: a call on a connected transport has commands, and
the close event has not been handled yet. -/
def Heard (react : Nat → List (Call α)) (lines : List α → List (List α))
    (done : List (ConnStep α)) (t : Transport α ω) (st : ConnStep α) : Prop :=
  Asks react lines t st ∧ ∀ c, st = .call c → t.connected = true → .closed ∉ done

/-- How a transport with state `σ` serves its connection: each step is one of the steps
of the state that both transports share. -/
structure Serves {σ : Type} (write : Call α → List ω) (react : Nat → List (Call α))
    (base : σ → Transport α ω) (serve : σ → ConnStep α → σ)
    (lines : σ → List α → List (List α)) : Prop where
  call : ∀ t c, base (serve t (.call c)) = (base t).call write c
  data : ∀ t chunk, base (serve t (.data chunk)) =
    (lines t chunk).foldl (Transport.dispatch write react) (base t)
  error : ∀ t message, base (serve t (.error message)) = base t ∨
    ∃ err, base (serve t (.error message)) = (base t).failAll err
  closed : ∀ t, ∃ err, base (serve t .closed) = (base t).failAll err
  close : ∀ t, base (serve t .close) = (base t).close

section Serves

variable {σ : Type} {write : Call α → List ω} {react : Nat → List (Call α)}
  {base : σ → Transport α ω} {serve : σ → ConnStep α → σ} {lines : σ → List α → List (List α)}

theorem Serves.step (h : Serves write react base serve lines) {t : σ} (howed : Owed (base t))
    (st : ConnStep α) :
    Owed (base (serve t st)) ∧
      (NoneStranded (base (serve t st)) ↔
        NoneStranded (base t) ∧ Asks react (lines t) (base t) st) := by
  cases st with
  | call c =>
    rw [h.call]
    exact howed.call write c
  | data chunk =>
    rw [h.data]
    exact howed.foldl_dispatch write react (lines t chunk)
  | error message =>
    rcases h.error t message with heq | ⟨err, heq⟩
    · rw [heq]
      exact ⟨howed, (and_iff_left trivial).symm⟩
    · obtain ⟨howed', hstranded, -⟩ := howed.failAll err
      rw [heq]
      exact ⟨howed', hstranded.trans (and_iff_left trivial).symm⟩
  | closed =>
    obtain ⟨err, heq⟩ := h.closed t
    obtain ⟨howed', hstranded, -⟩ := howed.failAll err
    rw [heq]
    exact ⟨howed', hstranded.trans (and_iff_left trivial).symm⟩
  | close =>
    obtain ⟨howed', hstranded⟩ := howed.close
    rw [h.close]
    exact ⟨howed', hstranded.trans (and_iff_left trivial).symm⟩

/-- No promise is stranded in a run in which every call has commands, and in no other. -/
theorem Serves.run (h : Serves write react base serve lines) {t₀ : σ} (howed : Owed (base t₀))
    (hnone : NoneStranded (base t₀)) (steps : List (ConnStep α)) :
    Owed (base (steps.foldl serve t₀)) ∧
      (NoneStranded (base (steps.foldl serve t₀)) ↔
        ∀ done st, done ++ [st] <+: steps →
          Asks react (lines (done.foldl serve t₀)) (base (done.foldl serve t₀)) st) := by
  induction steps using List.reverseRecOn with
  | nil =>
    refine ⟨howed, iff_of_true hnone fun done st hpre => ?_⟩
    have hlength := hpre.length_le
    rw [List.length_append] at hlength
    cases hlength
  | append_singleton steps st ih =>
    obtain ⟨howed', hstranded⟩ := ih
    obtain ⟨hnext, hstep⟩ := h.step howed' st
    rw [List.foldl_append, List.foldl_cons, List.foldl_nil]
    refine ⟨hnext, ?_⟩
    rw [hstep, hstranded]
    constructor
    · rintro ⟨hall, hst⟩ done st' hpre
      rcases List.prefix_concat_iff.mp hpre with heq | hpre
      · obtain ⟨rfl, hlast⟩ := List.append_inj' heq rfl
        obtain rfl := List.singleton_inj.mp hlast
        exact hst
      · exact hall done st' hpre
    · intro hall
      refine ⟨fun done st' hpre => ?_, hall steps st (List.prefix_refl _)⟩
      exact hall done st' (hpre.trans (List.prefix_append _ _))

/-- After the close event, calls that are rejected and `close()` are all that happens. -/
theorem Serves.released (h : Serves write react base serve lines) {t₀ : σ}
    (howed : Owed (base t₀)) (hnone : NoneStranded (base t₀)) (done : List (ConnStep α))
    {after : List (ConnStep α)} (hquiet : ∀ st ∈ after, st.isEvent = false)
    (hheard : ∀ done' st, done' ++ [st] <+: done ++ .closed :: after →
      Heard react (lines (done'.foldl serve t₀)) done' (base (done'.foldl serve t₀)) st) :
    Released (base (done.foldl serve t₀)).calls.length
      (base ((done ++ .closed :: after).foldl serve t₀)) := by
  obtain ⟨howed', hstranded⟩ := h.run howed hnone (done ++ .closed :: after)
  replace hstranded := hstranded.mpr fun done' st hpre => (hheard done' st hpre).1
  induction after using List.reverseRecOn with
  | nil =>
    obtain ⟨err, hclosed⟩ := h.closed (done.foldl serve t₀)
    obtain ⟨-, -, hwaiters, hcalls⟩ := (h.run howed hnone done).1.failAll err
    rw [List.foldl_append, List.foldl_cons, List.foldl_nil, hclosed] at howed' hstranded ⊢
    refine ⟨hwaiters, fun p hp => ?_, fun p hp hge => ?_⟩
    · exact (howed'.settled_iff hwaiters).mpr hstranded p (hcalls ▸ hp)
    · rw [hcalls] at hp
      omega
  | append_singleton after st ih =>
    rw [← List.cons_append, ← List.append_assoc] at hheard howed' hstranded ⊢
    obtain ⟨howedAfter, hstrandedAfter⟩ := h.run howed hnone (done ++ .closed :: after)
    obtain ⟨hwaiters, hsettled, hrejected⟩ :=
      ih (fun st' hst' => hquiet st' (List.mem_append_left _ hst'))
        (fun done' st' hpre => hheard done' st' (hpre.trans (List.prefix_append _ _)))
        howedAfter
        (hstrandedAfter.mpr fun done' st' hpre =>
          (hheard done' st' (hpre.trans (List.prefix_append _ _))).1)
    have hst := hquiet st (by simp)
    have hlast := hheard _ st (List.prefix_refl _)
    have hmem : .closed ∈ done ++ .closed :: after := by simp
    generalize done ++ .closed :: after = steps at *
    rw [List.foldl_append, List.foldl_cons, List.foldl_nil]
    cases st with
    | call c =>
      have hconnected : (base (steps.foldl serve t₀)).connected = false := by
        rw [← Bool.not_eq_true]
        exact fun hconnected => hlast.2 c rfl hconnected hmem
      obtain ⟨⟨-, hcalls, -⟩, -, hsame⟩ := Transport.call_rejected write hconnected c
      have hsettlements := settlementsOf_call_rejected write hconnected c
      rw [h.call]
      refine ⟨hsame.trans hwaiters, fun p hp => ?_, fun p hp hge => ?_⟩
      · have hone := hsettled p hp
        have hne : (base (steps.foldl serve t₀)).calls.length ≠ p := by
          rintro rfl
          rw [settlementsOf_eq_nil howedAfter.known] at hone
          cases hone
        rw [hsettlements, if_neg hne, List.append_nil, hone]
      · rw [hcalls, List.length_append, List.length_singleton] at hp
        rw [hsettlements]
        by_cases hnew : (base (steps.foldl serve t₀)).calls.length = p
        · rw [if_pos hnew, ← hnew, settlementsOf_eq_nil howedAfter.known]
          rfl
        · rw [if_neg hnew, List.append_nil]
          exact hrejected p (by omega) hge
    | data chunk => cases hst
    | error message => cases hst
    | closed => cases hst
    | close =>
      rw [h.close]
      exact ⟨hwaiters, hsettled, hrejected⟩

/-- **No request is left hanging exactly when the calls are heard.** -/
theorem Serves.none_hangs_iff (h : Serves write react base serve lines) {t₀ : σ}
    (howed : Owed (base t₀)) (hnone : NoneStranded (base t₀)) {steps : List (ConnStep α)}
    (hquiet : steps.Pairwise fun st st' => st = .closed → st'.isEvent = false) :
    (∀ done after, done ++ .closed :: after <+: steps →
      Released (base (done.foldl serve t₀)).calls.length
        (base ((done ++ .closed :: after).foldl serve t₀))) ↔
    (.closed ∈ steps → ∀ done st, done ++ [st] <+: steps →
      Heard react (lines (done.foldl serve t₀)) done (base (done.foldl serve t₀)) st) := by
  constructor
  · intro hreleased hclosed
    obtain ⟨before, rest, rfl⟩ := List.mem_iff_append.mp hclosed
    have hend := hreleased before rest (List.prefix_refl _)
    obtain ⟨howed', hstranded⟩ := h.run howed hnone (before ++ .closed :: rest)
    have hall : NoneStranded (base ((before ++ .closed :: rest).foldl serve t₀)) := by
      rw [← howed'.settled_iff hend.waiters]
      intro p hp
      rcases Nat.lt_or_ge p (base (before.foldl serve t₀)).calls.length with hlt | hge
      · exact hend.settled p hlt
      · rw [hend.rejected p hp hge]
        rfl
    intro done st hpre
    refine ⟨hstranded.mp hall done st hpre, ?_⟩
    rintro c rfl hconnected hmem
    obtain ⟨done₁, done₂, rfl⟩ := List.mem_iff_append.mp hmem
    -- the call has pushed a waiter on the empty queue
    have hwaiters := (hreleased done₁ (done₂ ++ [.call c]) (by simpa using hpre)).waiters
    have hassoc : done₁ ++ .closed :: (done₂ ++ [.call c]) =
        (done₁ ++ .closed :: done₂) ++ [ConnStep.call c] := by simp
    obtain ⟨-, -, hpushed, -⟩ := Transport.call_spec write hconnected c
    rw [hassoc, List.foldl_append, List.foldl_cons, List.foldl_nil, h.call, hpushed,
      List.append_eq_nil_iff, List.replicate_eq_nil_iff] at hwaiters
    exact hstranded.mp hall _ _ hpre hconnected hwaiters.2
  · intro hheard done after hpre
    have hclosed : .closed ∈ steps := hpre.subset (by simp)
    have hpairwise := (List.pairwise_append.mp (hquiet.sublist hpre.sublist)).2.1
    exact h.released howed hnone done
      (fun st hst => (List.pairwise_cons.mp hpairwise).1 st hst rfl)
      (fun done' st hpre' => hheard hclosed done' st (hpre'.trans hpre))

end Serves

omit [DecidableEq α] in
theorem Transport.opened_owed : Owed (Transport.opened : Transport α ω) := by
  constructor <;> simp [Transport.opened]

omit [DecidableEq α] in
theorem Transport.opened_noneStranded : NoneStranded (Transport.opened : Transport α ω) := by
  intro p c hp
  cases hp

theorem TcpTransport.serves (react : Nat → List (Call α)) :
    Serves tcpWrite react TcpTransport.toTransport (TcpTransport.serve react)
      fun t chunk => completeLines (t.buf ++ chunk) where
  call _ _ := rfl
  data t chunk := by rw [TcpTransport.serve, TcpTransport.onData_lines]
  error _ message := Or.inr ⟨.socketError message, rfl⟩
  closed _ := ⟨.connectionClosed, rfl⟩
  close _ := rfl

theorem WsTransport.serves (react : Nat → List (Call α)) :
    Serves wsWrite react id (WsTransport.serve react) fun _ text => frameLines text where
  call _ _ := rfl
  data t text := WsTransport.onMessage_lines react text t
  error _ _ := Or.inl rfl
  closed _ := ⟨.webSocketClosed, rfl⟩
  close _ := rfl

/-- **After the close event no request is left hanging,** on either transport, if and only if
every call that finds the socket set has commands and comes before that event. -/
theorem released_iff (react : Nat → List (Call α)) (steps : List (ConnStep α))
    (hquiet : steps.Pairwise fun st st' => st = .closed → st'.isEvent = false) :
    ((∀ done after, done ++ .closed :: after <+: steps →
        Released (TcpTransport.served react done).calls.length
          (TcpTransport.served react (done ++ .closed :: after)).toTransport) ↔
      (.closed ∈ steps → ∀ done st, done ++ [st] <+: steps →
        Heard react (fun chunk => completeLines ((TcpTransport.served react done).buf ++ chunk))
          done (TcpTransport.served react done).toTransport st)) ∧
    ((∀ done after, done ++ .closed :: after <+: steps →
        Released (WsTransport.served react done).calls.length
          (WsTransport.served react (done ++ .closed :: after))) ↔
      (.closed ∈ steps → ∀ done st, done ++ [st] <+: steps →
        Heard react frameLines done (WsTransport.served react done) st)) :=
  ⟨(TcpTransport.serves react).none_hangs_iff Transport.opened_owed Transport.opened_noneStranded
      hquiet,
    (WsTransport.serves react).none_hangs_iff Transport.opened_owed Transport.opened_noneStranded
      hquiet⟩

/-- A request in flight is rejected by the close event, one made after `close()` at once. -/
theorem released_iff_close :
    let ping : ConnStep UInt16 := .call (.send ⟨text "PING", by decide⟩)
    let tcp := TcpTransport.served (fun _ => []) [ping, .closed, .close, ping]
    Released 1 tcp.toTransport ∧
      tcp.settled = [(0, .rejected .connectionClosed), (1, .rejected .notConnected)] := by
  intro ping tcp
  refine ⟨?_, by decide +kernel⟩
  refine (released_iff (fun _ => []) [ping, .closed, .close, ping] (by decide)).1.mpr ?_ [ping]
    [.close, ping] (List.prefix_refl _)
  rintro - done st hpre
  match done, hpre with
  | [], hpre =>
    obtain rfl : st = ping := by simpa using hpre
    refine ⟨fun _ => by decide, fun c _ _ => by simp⟩
  | [_], hpre =>
    obtain ⟨-, rfl⟩ : _ ∧ st = .closed := by simpa using hpre
    exact ⟨trivial, fun c hc => by cases hc⟩
  | [_, _], hpre =>
    obtain ⟨-, -, rfl⟩ : _ ∧ _ ∧ st = .close := by simpa using hpre
    exact ⟨trivial, fun c hc => by cases hc⟩
  | [a, b, d], hpre =>
    obtain ⟨rfl, rfl, rfl, rfl⟩ : a = ping ∧ b = .closed ∧ d = .close ∧ st = ping := by
      simpa using hpre
    have hconnected : (TcpTransport.served (fun _ => []) [ping, .closed, .close]).connected =
        false := by decide +kernel
    refine ⟨fun hset => ?_, fun c _ hset => ?_⟩ <;> rw [hconnected] at hset <;> cases hset
  | _ :: _ :: _ :: _ :: _, hpre => simp at hpre

/-- The server hangs up and the program has not called `close()`: the next request is queued and
never answered. Nor is a batch of no commands, wherever it is made. -/
theorem late_request_hangs :
    let ping : ConnStep UInt16 := .call (.send ⟨text "PING", by decide⟩)
    let blank : ConnStep UInt16 := .call (.sendBatch [])
    let tcp := TcpTransport.served fun _ => []
    let ws := WsTransport.served fun _ => []
    ((tcp [.closed, ping]).waiters = [⟨0, none⟩] ∧ (tcp [.closed, ping]).settled = [] ∧
      ¬ Released 0 (tcp [.closed, ping]).toTransport) ∧
    ((ws [.closed, ping]).waiters = [⟨0, none⟩] ∧ (ws [.closed, ping]).settled = [] ∧
      ¬ Released 0 (ws [.closed, ping])) ∧
    (¬ Released 1 (tcp [blank, .closed]).toTransport ∧ ¬ Released 1 (ws [blank, .closed])) := by
  intro ping blank tcp ws
  have htcp : (tcp [.closed, ping]).waiters = [⟨0, none⟩] := by decide +kernel
  have hws : (ws [.closed, ping]).waiters = [⟨0, none⟩] := by decide +kernel
  have htcpBlank : (tcp [blank, .closed]).settlementsOf 0 = [] := by decide +kernel
  have hwsBlank : (ws [blank, .closed]).settlementsOf 0 = [] := by decide +kernel
  refine ⟨⟨htcp, by decide +kernel, fun hreleased => ?_⟩,
    ⟨hws, by decide +kernel, fun hreleased => ?_⟩, fun hreleased => ?_, fun hreleased => ?_⟩
  · exact absurd (htcp.symm.trans hreleased.waiters) (by simp)
  · exact absurd (hws.symm.trans hreleased.waiters) (by simp)
  · have hone := hreleased.settled 0 (by decide)
    rw [htcpBlank] at hone
    cases hone
  · have hone := hreleased.settled 0 (by decide)
    rw [hwsBlank] at hone
    cases hone

end CuttleDB.Js
