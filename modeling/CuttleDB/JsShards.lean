import CuttleDB.PyCluster
import CuttleDB.Wire
import CuttleDB.Lib.Utf8
import CuttleDB.Lib.Word32
import Mathlib.Data.Int.ModEq

/-!
# Routing by key

`shardBy` of both clients takes the node at the index that a routing function gives
modulo the number of nodes. JavaScript's default function is `fnv1a`, which writes the
multiplication by the FNV prime as a sum of shifts. The shifts are signed, the sum is a
sum of doubles, and `>>> 0` brings it back to 32 bits.
-/

namespace CuttleDB

open Binary64

namespace Js

/-! ### The hash -/

/-- The body of the loop of `fnv1a` -/
def fnvTurn (h : Double) (c : UInt16) : Double :=
  let h := h.xor (.finite c.toNat)
  (h.add (((((h.shiftLeft 1).add (h.shiftLeft 4)).add (h.shiftLeft 7)).add
    (h.shiftLeft 8)).add (h.shiftLeft 24))).shiftRight 0

def fnv1a (s : List UInt16) : Double := s.foldl fnvTurn (.finite 0x811c9dc5)

/-- The operands of the additions of one turn, in the order they are made. -/
def fnvAdditions (h : Double) (c : UInt16) : List (Double × Double) :=
  let h := h.xor (.finite c.toNat)
  let s₁ := (h.shiftLeft 1).add (h.shiftLeft 4)
  let s₂ := s₁.add (h.shiftLeft 7)
  let s₃ := s₂.add (h.shiftLeft 8)
  [(h.shiftLeft 1, h.shiftLeft 4), (s₁, h.shiftLeft 7), (s₂, h.shiftLeft 8),
    (s₃, h.shiftLeft 24), (h, s₃.add (h.shiftLeft 24))]

end Js

/-- The recurrence of FNV-1a on the units of a text -/
def fnvRecurrence (s : List UInt16) : Nat :=
  s.foldl (fun h c => (h ^^^ c.toNat) * 16777619 % 2 ^ 32) 2166136261

/-- The 32-bit FNV-1a hash of bytes, as it is published -/
def fnv32 (b : List UInt8) : UInt32 :=
  b.foldl (fun h x => (h ^^^ x.toUInt32) * 0x01000193) 0x811c9dc5

namespace Js

/-- An addition whose exact result is an integer that a double holds. -/
def ExactAddition (x : Double × Double) : Prop :=
  ∃ m n : Int, x = (.finite m, .finite n) ∧ |m + n| ≤ 2 ^ 53 ∧
    x.1.add x.2 = .finite (m + n : Int)

theorem exactAddition {m n : Int} (h : |m + n| < 2 ^ 53) :
    ExactAddition (.finite m, .finite n) :=
  ⟨m, n, rfl, h.le, Double.add_intCast h⟩

/-- The FNV prime is the sum of 1 and the powers of two that are shifted by. -/
theorem shifts_eq_mul (w : BitVec 32) :
    w + (w <<< 1 + w <<< 4 + w <<< 7 + w <<< 8 + w <<< 24) = w * 16777619#32 := by
  have hprime : 16777619#32 = 1 + (BitVec.ofNat 32 (2 ^ 1) + BitVec.ofNat 32 (2 ^ 4)
    + BitVec.ofNat 32 (2 ^ 7) + BitVec.ofNat 32 (2 ^ 8) + BitVec.ofNat 32 (2 ^ 24)) := rfl
  rw [hprime]
  simp only [shiftLeft_eq_mul, mul_add, mul_one]

/-- The accumulator after the exclusive or, as a word -/
def mixed (h : Nat) (c : UInt16) : BitVec 32 := BitVec.ofNat 32 h ^^^ BitVec.ofNat 32 c.toNat

/-- One turn on a whole number: the additions are exact, and what is left is the word of
the accumulator times the FNV prime. -/
theorem fnvTurn_spec (h : Nat) (c : UInt16) :
    (∀ x ∈ fnvAdditions (.finite h) c, ExactAddition x) ∧
      fnvTurn (.finite h) c = .finite (mixed h c * 16777619#32).toNat := by
  have b1 := (abs_add_le _ _).trans
    (add_le_add (abs_toInt_le (mixed h c <<< 1)) (abs_toInt_le (mixed h c <<< 4)))
  have b2 := (abs_add_le _ _).trans (add_le_add b1 (abs_toInt_le (mixed h c <<< 7)))
  have b3 := (abs_add_le _ _).trans (add_le_add b2 (abs_toInt_le (mixed h c <<< 8)))
  have b4 := (abs_add_le _ _).trans (add_le_add b3 (abs_toInt_le (mixed h c <<< 24)))
  have b5 := (abs_add_le _ _).trans (add_le_add (abs_toInt_le (mixed h c)) b4)
  have x1 := exactAddition (b1.trans_lt (by norm_num))
  have x2 := exactAddition (b2.trans_lt (by norm_num))
  have x3 := exactAddition (b3.trans_lt (by norm_num))
  have x4 := exactAddition (b4.trans_lt (by norm_num))
  have x5 := exactAddition (b5.trans_lt (by norm_num))
  have e1 := Double.add_intCast (b1.trans_lt (by norm_num))
  have e2 := Double.add_intCast (b2.trans_lt (by norm_num))
  have e3 := Double.add_intCast (b3.trans_lt (by norm_num))
  have e4 := Double.add_intCast (b4.trans_lt (by norm_num))
  have e5 := Double.add_intCast (b5.trans_lt (by norm_num))
  have hxor : (Double.finite h).xor (.finite c.toNat) = .signed (mixed h c) :=
    Double.xor_natCast h c.toNat
  constructor
  · simp (disch := decide) only [fnvAdditions, hxor, Double.shiftLeft_signed]
    simp only [Double.signed, e1, e2, e3, e4, List.forall_mem_cons]
    exact ⟨x1, x2, x3, x4, x5, by simp⟩
  · simp (disch := decide) only [fnvTurn, hxor, Double.shiftLeft_signed]
    simp only [Double.signed, e1, e2, e3, e4, e5, Double.shiftRight, Double.word_intCast,
      BitVec.ofInt_add, BitVec.ofInt_toInt, shifts_eq_mul, Nat.zero_mod, BitVec.ushiftRight_zero]

theorem fnvTurn_eq {h : Nat} (hlt : h < 2 ^ 32) (c : UInt16) :
    fnvTurn (.finite h) c = .finite ((h ^^^ c.toNat) * 16777619 % 2 ^ 32 : Nat) := by
  have hc : c.toNat < 2 ^ 32 := Nat.lt_trans c.toNat_lt (by decide)
  have hmixed : (mixed h c).toNat = h ^^^ c.toNat := by
    rw [mixed, BitVec.toNat_xor, BitVec.toNat_ofNat, BitVec.toNat_ofNat, Nat.mod_eq_of_lt hlt,
      Nat.mod_eq_of_lt hc]
  rw [(fnvTurn_spec h c).2, BitVec.toNat_mul, hmixed, BitVec.toNat_ofNat]

theorem foldl_fnvTurn (s : List UInt16) {h : Nat} (hlt : h < 2 ^ 32) :
    s.foldl fnvTurn (.finite h) =
      .finite (s.foldl (fun h c => (h ^^^ c.toNat) * 16777619 % 2 ^ 32) h : Nat) := by
  induction s generalizing h with
  | nil => rfl
  | cons c s ih =>
    rw [List.foldl_cons, List.foldl_cons, fnvTurn_eq hlt]
    exact ih (Nat.mod_lt _ (by decide))

theorem fnv1a_eq (s : List UInt16) : fnv1a s = .finite (fnvRecurrence s) := by
  have h := foldl_fnvTurn s (by decide : 2166136261 < 2 ^ 32)
  rwa [Nat.cast_ofNat] at h

theorem fnvRecurrence_lt (s : List UInt16) : fnvRecurrence s < 2 ^ 32 := by
  rcases List.eq_nil_or_concat s with rfl | ⟨s, c, rfl⟩
  · decide
  · rw [fnvRecurrence, List.concat_eq_append, List.foldl_concat]
    exact Nat.mod_lt _ (by decide)

end Js

theorem toNat_fnvStep {c : Char} (hc : c.toNat < 128) (h : UInt32) :
    ((h ^^^ (UInt8.ofNat c.toNat).toUInt32) * 0x01000193).toNat =
      (h.toNat ^^^ (lit c : UInt16).toNat) * 16777619 % 2 ^ 32 := by
  have hbyte : (UInt8.ofNat c.toNat).toUInt32.toNat = c.toNat := by
    rw [UInt8.toNat_toUInt32, UInt8.toNat_ofNat']
    exact Nat.mod_eq_of_lt (by omega)
  have hunit : (lit c : UInt16).toNat = c.toNat :=
    (UInt16.toNat_ofNat' ..).trans (Nat.mod_eq_of_lt (by omega))
  rw [UInt32.toNat_mul, UInt32.toNat_xor, hbyte, hunit]
  rfl

/-- On ASCII characters the units are the bytes. -/
theorem toNat_fnv32 {key : List Char} (hascii : ∀ c ∈ key, c.toNat < 128) :
    (fnv32 (Utf8.encode key)).toNat = fnvRecurrence (key.map lit) := by
  suffices h : ∀ h : UInt32,
      ((Utf8.encode key).foldl (fun h x => (h ^^^ x.toUInt32) * 0x01000193) h).toNat =
        (key.map lit).foldl (fun h (c : UInt16) => (h ^^^ c.toNat) * 16777619 % 2 ^ 32) h.toNat from
    h 0x811c9dc5
  induction key with
  | nil => intro h; rfl
  | cons c key ih =>
    intro h
    have hc : c.toNat < 128 := hascii c (List.mem_cons_self ..)
    rw [Utf8.encode_cons, Utf8.utf8EncodeChar_ascii hc, List.singleton_append, List.foldl_cons,
      ih (fun d hd => hascii d (List.mem_cons_of_mem c hd)), List.map_cons, List.foldl_cons]
    rw [toNat_fnvStep hc]

namespace Js

theorem fnv1a_spec (s : List UInt16) :
    (∀ t c, t ++ [c] <+: s → ∀ x ∈ fnvAdditions (fnv1a t) c, ExactAddition x) ∧
    (∀ t, t <+: s → ∃ h : Nat, h < 2 ^ 32 ∧ fnv1a t = .finite h) ∧
    fnv1a s = .finite (fnvRecurrence s) ∧
    ∀ key : List Char, key.map lit = s → (∀ c ∈ key, c.toNat < 128) →
      fnv1a s = .finite (fnv32 (Utf8.encode key)).toNat := by
  refine ⟨fun t c _ => ?_, fun t _ => ⟨_, fnvRecurrence_lt t, fnv1a_eq t⟩, fnv1a_eq s, ?_⟩
  · rw [fnv1a_eq]
    exact (fnvTurn_spec _ c).1
  · rintro key rfl hascii
    rw [fnv1a_eq, toNat_fnv32 hascii]

/-! ### Routing -/

variable {ν κ : Type}

/-- `nodes[idx]`, or `undefined` where `idx` is not the index of an element -/
def element (nodes : List ν) : Double → Option ν
  | .finite q => if q.den = 1 ∧ 0 ≤ q then nodes[q.num.toNat]? else none
  | _ => none

/-- `shardBy`. `string` is `String`, which makes a text of a key. -/
def shardBy (string : κ → List UInt16) (nodes : List ν) (key : κ)
    (fn : Option (κ → Nat → Double)) : Option ν :=
  let n : Double := .finite nodes.length
  let idx := match fn with
    | some fn => (fn key nodes.length).rem n
    | none => (fnv1a (string key)).rem n
  element nodes idx

theorem element_intCast (nodes : List ν) (i : Int) :
    element nodes (.finite i) = if 0 ≤ i then nodes[i.toNat]? else none := by
  simp [element]

end Js

variable {ν κ : Type}

/-- A result is the node at the index in `[0, n)` that is congruent to `r` modulo `n`. -/
def Lands (nodes : List ν) (r : Int) (result : Option ν) : Prop :=
  ∃ i : Nat, i < nodes.length ∧ (i : Int) ≡ r [ZMOD nodes.length] ∧ result = nodes[i]?

theorem lands_emod {nodes : List ν} (hne : nodes ≠ []) (r : Int) :
    Lands nodes r nodes[(r % nodes.length).toNat]? := by
  have hpos : 0 < (nodes.length : Int) := by
    exact_mod_cast List.length_pos_iff.mpr hne
  have hlt := Int.emod_lt_of_pos r hpos
  have hnonneg := Int.emod_nonneg r hpos.ne'
  refine ⟨(r % nodes.length).toNat, by omega, ?_, rfl⟩
  rw [Int.toNat_of_nonneg hnonneg]
  exact Int.mod_modEq r nodes.length

theorem Cluster.shardBy_lands {c : Cluster} (hne : c.nodes ≠ []) (fn : Nat → Int) :
    Lands c.nodes (fn c.nodes.length) (c.shardBy fn).toOption := by
  have h := lands_emod hne (fn c.nodes.length)
  obtain ⟨i, hi, -, heq⟩ := lands_emod hne (fn c.nodes.length)
  rw [List.getElem?_eq_getElem hi] at heq
  have hnode : (c.shardBy fn).toOption = some c.nodes[i] := by
    rw [Cluster.shardBy, heq]
    rfl
  rwa [hnode, ← heq]

namespace Js

/-- JavaScript's remainder has the sign of the dividend, so a negative one is no index. -/
theorem lands_tmod_iff {nodes : List ν} (hne : nodes ≠ []) (r : Int) :
    Lands nodes r (element nodes ((Double.finite r).rem (.finite nodes.length))) ↔
      0 ≤ r ∨ (nodes.length : Int) ∣ r := by
  have hpos := List.length_pos_iff.mpr hne
  rw [Double.rem_intCast r hpos, element_intCast]
  by_cases hr : 0 ≤ r ∨ (nodes.length : Int) ∣ r
  · have heq : r.tmod nodes.length = r % nodes.length := by
      rw [Int.tmod_eq_emod, if_pos hr]
      exact sub_zero (r % (nodes.length : Int))
    simp only [hr, iff_true]
    rw [heq, if_pos (Int.emod_nonneg r (by omega))]
    exact lands_emod hne r
  · have hneg : r < 0 := Int.not_le.mp fun h => hr (Or.inl h)
    have hdvd : ¬ (nodes.length : Int) ∣ r := fun h => hr (Or.inr h)
    have hsign : (r.tmod nodes.length).sign = -1 := by
      rw [Int.sign_tmod, if_neg hdvd, Int.sign_eq_neg_one_of_neg hneg]
    rw [if_neg (Int.not_le.mpr (Int.sign_eq_neg_one_iff_neg.mp hsign))]
    simp only [hr, iff_false]
    rintro ⟨i, hi, -, h⟩
    rw [List.getElem?_eq_getElem hi] at h
    simp at h

theorem shardBy_default_lands {nodes : List ν} (hne : nodes ≠ []) (string : κ → List UInt16)
    (key : κ) :
    Lands nodes (fnvRecurrence (string key)) (shardBy string nodes key none) := by
  have h := (lands_tmod_iff hne (fnvRecurrence (string key))).mpr (Or.inl (Int.natCast_nonneg _))
  rwa [Int.cast_natCast, ← fnv1a_eq] at h

theorem shards_iff {c : Cluster} (hne : c.nodes ≠ []) (string : κ → List UInt16) (key : κ)
    (fn : κ → Nat → Int) :
    (Lands c.nodes (fn key c.nodes.length) (c.shardBy (fn key)).toOption ∧
      Lands c.nodes (fn key c.nodes.length)
        (shardBy string c.nodes key (some fun key n => .finite (fn key n))) ∧
      Lands c.nodes (fnvRecurrence (string key)) (shardBy string c.nodes key none)) ↔
    (0 ≤ fn key c.nodes.length ∨ (c.nodes.length : Int) ∣ fn key c.nodes.length) := by
  constructor
  · rintro ⟨-, h, -⟩
    exact (lands_tmod_iff hne _).mp h
  · intro h
    exact ⟨Cluster.shardBy_lands hne (fn key), (lands_tmod_iff hne _).mpr h,
      shardBy_default_lands hne string key⟩

/-- Three connections, on the ports from 7780 on -/
def threeNodes : Cluster where
  endpoints := [("s0".toList, 7780), ("s1".toList, 7780), ("s2".toList, 7780)]
  primaryEndpoint := none
  nodes := [⟨0, "s0".toList, 7780⟩, ⟨1, "s1".toList, 7780⟩, ⟨2, "s2".toList, 7780⟩]
  designated := none
  rrIdx := 0
  opened := 3
  closed := []

theorem threeNodes_shards :
    let key : List UInt16 := "user-7".toList.map lit
    Lands threeNodes.nodes 5 (threeNodes.shardBy fun _ => 5).toOption ∧
      Lands threeNodes.nodes 5
        (shardBy id threeNodes.nodes key (some fun _ _ => .finite (5 : Int))) ∧
      Lands threeNodes.nodes (fnvRecurrence key) (shardBy id threeNodes.nodes key none) := by
  intro key
  exact (shards_iff (by decide) id key fun _ _ => 5).mpr (Or.inl (by decide))

/-- A routing function that returns -1, as signed 32-bit hashes do -/
theorem negative_hash_is_lost :
    shardBy id threeNodes.nodes [] (some fun _ _ => .finite (-1 : Int)) = none ∧
      ¬ Lands threeNodes.nodes (-1)
        (shardBy id threeNodes.nodes [] (some fun _ _ => .finite (-1 : Int))) ∧
      threeNodes.shardBy (fun _ => -1) = .ok ⟨2, "s2".toList, 7780⟩ := by
  refine ⟨?_, fun h => absurd ((lands_tmod_iff (by decide) (-1)).mp h) (by decide), by decide⟩
  show element threeNodes.nodes ((Double.finite (-1 : Int)).rem (.finite (3 : Nat))) = none
  rw [Double.rem_intCast (-1) (by decide), element_intCast]
  decide

end Js

end CuttleDB
