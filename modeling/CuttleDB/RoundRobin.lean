import CuttleDB.JsShards
import CuttleDB.Lib.Mutex
import CuttleDB.Lib.Rotation

/-!
# Round-robin reads

`read_round_robin` of the Python cluster reads its counter and raises it under the lock of
the cluster, so threads may share it; in JavaScript nothing comes between the lines of
`readRoundRobin`. In both, any number of reads spreads over the nodes to within one.
-/

namespace CuttleDB

open Mutex Rotation Binary64

/-! ### Python -/

namespace Cluster

/-- Where a thread is in `read_round_robin`: it has picked its node, or it has read the
counter again, which it is about to raise. -/
inductive Reading where
  | entry
  | picked (node : Connection)
  | raising (node : Connection) (rrIdx : Nat)

/-- `read_round_robin` in steps -/
def readCode : Code Cluster Reading (Except ClusterError Connection)
  | .entry, c =>
    match c.nodes[c.rrIdx % c.nodes.length]? with
    | some node => (.inl (.picked node), c)
    | none => (.inr (.error .noConnection), c)
  | .picked node, c => (.inl (.raising node c.rrIdx), c)
  | .raising node rrIdx, c => (.inr (.ok node), { c with rrIdx := rrIdx + 1 })

def Reading.run : Reading → Cluster → Except ClusterError Connection × Cluster
  | .entry, c => c.readRoundRobin
  | .picked node, c => (.ok node, { c with rrIdx := c.rrIdx + 1 })
  | .raising node rrIdx, c => (.ok node, { c with rrIdx := rrIdx + 1 })

theorem readCode_computes : Computes readCode Reading.run := by
  intro place c
  cases place with
  | entry =>
    rw [readCode, Reading.run, readRoundRobin]
    cases c.nodes[c.rrIdx % c.nodes.length]? <;> rfl
  | picked node => rfl
  | raising node rrIdx => rfl

variable {ι : Type}

/-- Reads one after the other go round the nodes. -/
theorem sequence_reads {c : Cluster} (hne : c.nodes ≠ []) {es : List (Entry ι Unit Reading)}
    (h : ∀ e ∈ es, e.start = .entry) :
    Mutex.sequence Reading.run (fun _ c => c) es c =
      ((turns c.nodes c.rrIdx es.length).map .ok, { c with rrIdx := c.rrIdx + es.length }) := by
  induction es generalizing c with
  | nil => rfl
  | cons e es ih =>
    obtain ⟨node, -, hturn⟩ := turn_of_ne_nil hne c.rrIdx
    have hread : c.readRoundRobin = (.ok node, { c with rrIdx := c.rrIdx + 1 }) := by
      rw [turn] at hturn
      rw [readRoundRobin, hturn]
    have hrest := ih (c := { c with rrIdx := c.rrIdx + 1 }) hne
      fun e he => h e (List.mem_cons_of_mem _ he)
    rw [Mutex.sequence, h e List.mem_cons_self]
    dsimp only [Reading.run]
    rw [hread]
    dsimp only
    rw [hrest, List.length_cons, turns_succ hturn, List.map_cons, Nat.add_assoc,
      Nat.add_comm 1]

/-- **The reads of any number of threads go round the nodes.** However the threads that
share the cluster are scheduled, the reads that have returned have the next turns, in the
order in which they took the lock, and every node has its share of them, to within one. -/
theorem reads_shared {c : Cluster} (hne : c.nodes ≠ []) (hdistinct : c.nodes.Nodup)
    [DecidableEq ι] (reads : ι → Nat) (moves : List (Move ι Unit)) :
    let S := (State.initial c fun i => List.replicate (reads i) .entry).run readCode
      (fun _ c => c) moves
    ∃ k, k ≤ S.entered.length ∧ S.entered.length ≤ k + 1 ∧
      (∀ i, (S.threads i).results =
        own i (S.entered.take k) ((turns c.nodes c.rrIdx k).map .ok)) ∧
      ∀ node ∈ c.nodes, k / c.nodes.length ≤ (turns c.nodes c.rrIdx k).count node ∧
        (turns c.nodes c.rrIdx k).count node ≤ (k + c.nodes.length - 1) / c.nodes.length := by
  intro S
  obtain ⟨-, horder, es, hresults, hstate⟩ : S.Exclusive ∧ S.InOrder _ ∧
      S.Explained readCode Reading.run (fun _ c => c) c :=
    State.run_sequential readCode_computes _ _ _
  obtain ⟨later, hentered, hone⟩ : ∃ later, S.entered = es ++ later ∧ later.length ≤ 1 := by
    cases howner : S.owner with
    | none =>
      rw [howner] at hstate
      exact ⟨[], by rw [hstate.1, List.append_nil], Nat.zero_le 1⟩
    | some j =>
      rw [howner] at hstate
      obtain ⟨e, -, hentered, -⟩ := hstate
      exact ⟨[e], hentered, Nat.le_refl 1⟩
  have hentry : ∀ e ∈ es, e.start = .entry := by
    intro e he
    exact List.eq_of_mem_replicate (horder.mem (hentered ▸ List.mem_append_left later he))
  rw [sequence_reads hne hentry] at hresults
  refine ⟨es.length, ?_, ?_, fun i => ?_, fun node hnode => count_turns hdistinct hnode _ _⟩
  · rw [hentered, List.length_append]
    exact Nat.le_add_right _ _
  · rw [hentered, List.length_append]
    omega
  · rw [hresults i, hentered, List.take_left]

/-- Two nodes, and a second thread that reads while the first has the lock. -/
def twoNodes : Cluster where
  endpoints := []
  primaryEndpoint := none
  nodes := [⟨0, ⟨"h".toList, 7379⟩⟩, ⟨1, ⟨"h".toList, 7380⟩⟩]
  designated := none
  rrIdx := 1
  opened := 2
  closed := []

theorem twoNodes_reads_shared :
    let S := (State.initial twoNodes fun _ : Bool => List.replicate 1 Reading.entry).run readCode
      (fun _ c => c) [.acquire false (), .advance false, .acquire true (), .advance false,
        .advance false, .acquire true (), .advance true]
    ∃ k, k ≤ S.entered.length ∧ S.entered.length ≤ k + 1 ∧
      (∀ i, (S.threads i).results =
        own i (S.entered.take k) ((turns twoNodes.nodes 1 k).map .ok)) ∧
      ∀ node ∈ twoNodes.nodes, k / 2 ≤ (turns twoNodes.nodes 1 k).count node ∧
        (turns twoNodes.nodes 1 k).count node ≤ (k + 2 - 1) / 2 :=
  reads_shared (c := twoNodes) (by decide) (by decide) (fun _ => 1) _

end Cluster

/-! ### JavaScript -/

namespace Js

variable {ν : Type}

/-- `readRoundRobin` -/
def readRoundRobin (nodes : List ν) (rrIdx : Double) : Option ν × Double :=
  (element nodes (rrIdx.rem (.finite nodes.length)), rrIdx.add (.finite 1))

def reads (nodes : List ν) : Nat → Double → List (Option ν) × Double
  | 0, rrIdx => ([], rrIdx)
  | k + 1, rrIdx =>
    let (node, rrIdx) := readRoundRobin nodes rrIdx
    let (rest, rrIdx) := reads nodes k rrIdx
    (node :: rest, rrIdx)

/-- From here on adding one no longer raises the counter. -/
def counterEnd : Nat := 2 ^ 53

theorem raise_counter (r : Nat) :
    (Double.finite ↑(min r counterEnd)).add (.finite 1) = .finite ↑(min (r + 1) counterEnd) := by
  rcases Nat.lt_trichotomy (r + 1) counterEnd with hlt | heq | hgt
  · rw [Nat.min_eq_left hlt.le, Nat.min_eq_left (Nat.le_of_succ_le hlt.le)]
    rw [counterEnd] at hlt
    have hadd := Double.add_intCast (m := r) (n := 1) (by rw [abs_of_nonneg] <;> omega)
    exact_mod_cast hadd
  · obtain rfl : r = counterEnd - 1 := Nat.eq_sub_of_add_eq heq
    decide +kernel
  · rw [Nat.min_eq_right hgt.le, Nat.min_eq_right (Nat.le_of_lt_succ hgt)]
    decide +kernel

theorem element_turn {nodes : List ν} (hne : nodes ≠ []) (r : Nat) :
    element nodes ((Double.finite r).rem (.finite nodes.length)) = turn nodes r := by
  have hrem := Double.rem_intCast r (List.length_pos_iff.mpr hne)
  rw [Int.cast_natCast] at hrem
  rw [hrem, element_intCast, ← Int.ofNat_tmod, if_pos (Int.natCast_nonneg _), Int.toNat_natCast,
    turn]

theorem reads_eq {nodes : List ν} (hne : nodes ≠ []) (r k : Nat) :
    reads nodes k (.finite ↑(min r counterEnd)) =
      ((List.range k).map fun j => turn nodes (min (r + j) counterEnd),
        .finite ↑(min (r + k) counterEnd)) := by
  induction k generalizing r with
  | zero => rfl
  | succ k ih =>
    rw [reads, readRoundRobin]
    dsimp only
    rw [element_turn hne, raise_counter, ih, List.range_succ_eq_map, List.map_cons, List.map_map,
      shift_succ fun i => turn nodes (min i counterEnd), Nat.add_right_comm, Nat.add_assoc r k 1]
    rfl

/-- **Reads go round the nodes until the counter ends.** Up to there every node has its
share of the reads, to within one; from there on they all go to one node. -/
theorem reads_rotate [DecidableEq ν] {nodes : List ν} (hne : nodes ≠ []) (hdistinct : nodes.Nodup)
    (r k : Nat) (hcounter : r + k ≤ counterEnd) :
    reads nodes k (.finite r) = ((turns nodes r k).map some, .finite ↑(r + k)) ∧
      (∀ node ∈ nodes, k / nodes.length ≤ (turns nodes r k).count node ∧
        (turns nodes r k).count node ≤ (k + nodes.length - 1) / nodes.length) ∧
      ∃ node ∈ nodes, ∀ j, reads nodes j (.finite counterEnd) =
        (List.replicate j (some node), .finite counterEnd) := by
  refine ⟨?_, fun node hnode => count_turns hdistinct hnode r k, ?_⟩
  · have heq := reads_eq hne r k
    rw [Nat.min_eq_left (Nat.le_of_add_right_le hcounter), Nat.min_eq_left hcounter] at heq
    rw [heq, map_some_turns hne]
    congr 1
    apply List.map_congr_left
    intro j hj
    have hlt := List.mem_range.mp hj
    rw [Nat.min_eq_left (by omega)]
  · obtain ⟨node, hnode, hturn⟩ := turn_of_ne_nil hne counterEnd
    refine ⟨node, hnode, fun j => ?_⟩
    have heq := reads_eq hne counterEnd j
    rw [Nat.min_self, Nat.min_eq_right (Nat.le_add_right _ _)] at heq
    rw [heq, ← hturn]
    congr 1
    rw [List.map_congr_left (g := fun _ => turn nodes counterEnd), List.map_const',
      List.length_range]
    intro i _
    rw [Nat.min_eq_right (Nat.le_add_right _ _)]

theorem reads_rotate_three :
    reads ["a", "b", "c"] 4 (.finite 2) = ([some "c", some "a", some "b", some "c"], .finite 6) := by
  have hnodes : ["a", "b", "c"] ≠ [] := by decide
  have hrotate := (reads_rotate hnodes (by decide) 2 4 (by decide)).1
  exact_mod_cast hrotate

end Js

end CuttleDB
