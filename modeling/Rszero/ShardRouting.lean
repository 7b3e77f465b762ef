import Mathlib.Data.Nat.Basic
import Mathlib.Tactic.NormNum
import Rszero.Sharding

/-!
# Where keys are routed

The hash strategy finds the first virtual node clockwise from the key, so that a shard more takes
keys from the others and moves none between them. Every strategy stays below the number of shards,
and the range strategy finds the range of a number in any list of disjoint ranges.
-/

namespace Rszero.Sharding

open HashRing

/-- `i` owns the first virtual node that is met clockwise from the hash of the key. -/
def FirstOwner (slots : UInt32) (key : String) (shard_count i : ℕ) : Prop :=
  Nearest Prod.fst
    (fun node => clockwise (2 ^ 32) (keyHash key).toNat (vnodeHash node.1 node.2).toNat)
    (List.range shard_count ×ˢ List.range (vnodesPerShard slots)) i

section Hash

variable {slots : UInt32} {key : String} {n : ℕ}

theorem keyHash_lt (key : String) : (keyHash key).toNat < 2 ^ 32 := by
  rw [keyHash, UInt32.toNat_toUInt64]
  exact UInt32.toNat_lt _

theorem vnodeHash_lt (shard v : ℕ) : (vnodeHash shard v).toNat < 2 ^ 32 := by
  rw [vnodeHash, UInt32.toNat_toUInt64]
  exact UInt32.toNat_lt _

/-- The distances of the code wrap around at `2 ^ 64`. -/
def distance (key : String) (node : ℕ × ℕ) : ℕ :=
  clockwise (2 ^ 64) (keyHash key).toNat (vnodeHash node.1 node.2).toNat

theorem toNat_sub_keyHash (key : String) (shard v : ℕ) :
    (vnodeHash shard v - keyHash key).toNat = distance key (shard, v) :=
  UInt64.toNat_sub _ _

theorem product_eq_flatMap (as bs : List ℕ) :
    as ×ˢ bs = as.flatMap (fun a => bs.map (Prod.mk a)) := rfl

def toScan (best : ℕ × UInt64) : ℕ × ℕ := (best.1, best.2.toNat)

theorem visit_toScan (key : String) (shard : ℕ) (best : ℕ × UInt64) (v : ℕ) :
    keepNearer Prod.fst (distance key) (toScan best) (shard, v) =
      toScan (visit key shard best v) := by
  unfold keepNearer visit toScan
  simp only [UInt64.lt_iff_toNat_lt, toNat_sub_keyHash]
  split_ifs with h
  · rw [toNat_sub_keyHash]
  · rfl

theorem hashIndex_eq_scan (slots : UInt32) (key : String) (n : ℕ) :
    hashIndex slots key n =
      ((List.range n ×ˢ List.range (vnodesPerShard slots)).foldl
        (keepNearer Prod.fst (distance key)) (toScan (0, 0xffffffffffffffff))).1 := by
  have hinner (best : ℕ × UInt64) (shard : ℕ) :
      (List.range (vnodesPerShard slots)).foldl
          (fun b v => keepNearer Prod.fst (distance key) b (shard, v)) (toScan best) =
        toScan ((List.range (vnodesPerShard slots)).foldl (visit key shard) best) :=
    List.foldl_hom toScan (visit_toScan key shard)
  have houter (best : ℕ × UInt64) :
      (List.range n).foldl (fun b shard => (List.range (vnodesPerShard slots)).foldl
          (fun b v => keepNearer Prod.fst (distance key) b (shard, v)) b) (toScan best) =
        toScan ((List.range n).foldl
          (fun b shard => (List.range (vnodesPerShard slots)).foldl (visit key shard) b) best) :=
    List.foldl_hom toScan hinner
  simp only [product_eq_flatMap, List.foldl_flatMap, List.foldl_map, houter]
  rfl

theorem pairwise_nodes (n k : ℕ) :
    (List.range n ×ˢ List.range k).Pairwise (fun x y => x.1 ≤ y.1) := by
  rw [product_eq_flatMap, List.pairwise_flatMap]
  constructor
  · intro shard _
    rw [List.pairwise_map]
    exact List.pairwise_of_forall (fun _ _ => le_rfl)
  · refine List.pairwise_lt_range.imp ?_
    intro shard shard' hlt x hx y hy
    obtain ⟨v, -, rfl⟩ := List.mem_map.1 hx
    obtain ⟨w, -, rfl⟩ := List.mem_map.1 hy
    exact hlt.le

/-- Also where all nodes are at the greatest distance, the first shard is the right one. -/
theorem firstOwner_hashIndex (hn : 1 ≤ n) : FirstOwner slots key n (hashIndex slots key n) := by
  rw [hashIndex_eq_scan]
  have hnode : ((0, 0) : ℕ × ℕ) ∈ List.range n ×ˢ List.range (vnodesPerShard slots) := by
    rw [List.mem_product, List.mem_range, List.mem_range, vnodesPerShard]
    omega
  have hnearest : Nearest Prod.fst (distance key)
      (List.range n ×ˢ List.range (vnodesPerShard slots))
      ((List.range n ×ˢ List.range (vnodesPerShard slots)).foldl
        (keepNearer Prod.fst (distance key)) (toScan (0, 0xffffffffffffffff))).1 := by
    apply nearest_scan (pairwise_nodes n _)
    · exact ⟨_, hnode, rfl⟩
    · exact fun _ _ => Nat.zero_le _
    · intro node _
      have hlt : distance key node < 2 ^ 64 := Nat.mod_lt _ (by norm_num)
      change distance key node ≤ 18446744073709551615
      omega
  refine hnearest.congr (fun x _ y _ => ?_)
  exact clockwise_lt_clockwise_iff (by norm_num) (keyHash_lt key) (vnodeHash_lt _ _)
    (vnodeHash_lt _ _)

theorem hashIndex_eq_iff (hn : 1 ≤ n) {i : ℕ} :
    hashIndex slots key n = i ↔ FirstOwner slots key n i := by
  constructor
  · rintro rfl
    exact firstOwner_hashIndex hn
  · exact fun h => (firstOwner_hashIndex hn).unique h

theorem FirstOwner.of_succ {i : ℕ} (h : FirstOwner slots key (n + 1) i) :
    i = n ∨ FirstOwner slots key n i := by
  have hnodes : List.range (n + 1) ×ˢ List.range (vnodesPerShard slots) =
      List.range n ×ˢ List.range (vnodesPerShard slots) ++
        [n] ×ˢ List.range (vnodesPerShard slots) := by
    simp only [product_eq_flatMap, List.range_succ, List.flatMap_append]
  rw [FirstOwner, hnodes] at h
  refine h.of_append ?_
  intro node hnode
  exact List.mem_singleton.1 (List.mem_product.1 hnode).1

/-- The hash strategy routes a key to the owner of the first virtual node clockwise from it, the
lowest one in a tie, and a new shard moves keys only to itself. -/
theorem hash_shard_first_clockwise (slots : UInt32) (key : String) {n : ℕ} (hn : 1 ≤ n) :
    (∀ i, (ShardStrategy.hash slots).shardIndex key n = some i ↔ FirstOwner slots key n i) ∧
      ((ShardStrategy.hash slots).shardIndex key (n + 1) =
          (ShardStrategy.hash slots).shardIndex key n ∨
        (ShardStrategy.hash slots).shardIndex key (n + 1) = some n) := by
  simp only [ShardStrategy.shardIndex, Option.some.injEq]
  refine ⟨fun i => hashIndex_eq_iff hn, ?_⟩
  rcases (firstOwner_hashIndex (Nat.le_add_left 1 n)).of_succ with hnew | hold
  · exact .inr hnew
  · exact .inl ((hashIndex_eq_iff hn).2 hold).symm

theorem hash_shard_first_clockwise_four :
    (∀ i, (ShardStrategy.hash 256).shardIndex "user:1001" 4 = some i ↔
        FirstOwner 256 "user:1001" 4 i) ∧
      ((ShardStrategy.hash 256).shardIndex "user:1001" (4 + 1) =
          (ShardStrategy.hash 256).shardIndex "user:1001" 4 ∨
        (ShardStrategy.hash 256).shardIndex "user:1001" (4 + 1) = some 4) :=
  hash_shard_first_clockwise 256 "user:1001" (by omega)

end Hash

theorem pushDigit_digitChar {num d : ℕ} (hd : d < 10) (h : num * 10 + d < 2 ^ 64) :
    pushDigit num d.digitChar = some (num * 10 + d) := by
  have hchar : ∀ d < 10, d.digitChar.isDigit = true ∧ d.digitChar.toNat - 48 = d := by decide
  rw [pushDigit, (hchar d hd).2, if_pos ⟨(hchar d hd).1, h⟩]

theorem foldlM_toDigits {num : ℕ} (h : num < 2 ^ 64) :
    (Nat.toDigits 10 num).foldlM pushDigit 0 = some num := by
  induction num using Nat.strongRecOn with
  | ind num ih =>
      rcases Nat.lt_or_ge num 10 with hlt | hge
      · have hone : pushDigit 0 num.digitChar = some (0 * 10 + num) :=
          pushDigit_digitChar hlt (by omega)
        rw [Nat.toDigits_of_lt_base hlt]
        simpa using hone
      · rw [Nat.toDigits_of_base_le (by omega) hge, List.foldlM_append,
          ih (num / 10) (by omega) (by omega)]
        have hlast : pushDigit (num / 10) (num % 10).digitChar =
            some (num / 10 * 10 + num % 10) :=
          pushDigit_digitChar (Nat.mod_lt num (by omega)) (by omega)
        rw [Nat.div_add_mod'] at hlast
        simpa using hlast

theorem parseU64_of_foldlM {cs : List Char} {num : ℕ} (hne : cs ≠ [])
    (h : cs.foldlM pushDigit 0 = some num) : parseU64 cs = some num := by
  cases cs with
  | nil => exact absurd rfl hne
  | cons c cs =>
      by_cases hplus : c = '+'
      · -- a plus sign is no digit
        subst hplus
        cases h
      · unfold parseU64
        split
        · contradiction
        · simp_all
        · simp_all
        · exact h

theorem parseU64_toString {num : ℕ} (h : num < 2 ^ 64) :
    parseU64 (toString num).toList = some num := by
  rw [Nat.toString_eq_repr, Nat.toList_repr]
  exact parseU64_of_foldlM Nat.toDigits_ne_nil (foldlM_toDigits h)

/-- No number lies in two of the ranges, ends included. -/
def PairwiseDisjoint (ranges : List (UInt64 × UInt64)) : Prop :=
  ranges.Pairwise (fun r s => ∀ x : UInt64, ¬ (r.1 ≤ x ∧ x ≤ r.2 ∧ s.1 ≤ x ∧ x ≤ s.2))

section Range

variable {n i k : ℕ} {ranges : List (UInt64 × UInt64)}

theorem rangeIndex_lt (num : ℕ) (hn : 1 ≤ n) (ranges : List (UInt64 × UInt64)) (k : ℕ) :
    ∃ i < n, rangeIndex num n ranges k = some i := by
  induction ranges generalizing k with
  | nil => exact ⟨0, hn, rfl⟩
  | cons r ranges ih =>
      rw [rangeIndex, if_neg (by omega : ¬ n = 0)]
      split_ifs with h
      · exact ⟨min k (n - 1), by omega, rfl⟩
      · exact ih (k + 1)

theorem rangeIndex_of_mem {first last x : UInt64} (hdisjoint : PairwiseDisjoint ranges)
    (hi : ranges[i]? = some (first, last)) (hfirst : first ≤ x) (hlast : x ≤ last)
    (hn : k + i < n) : rangeIndex x.toNat n ranges k = some (k + i) := by
  induction ranges generalizing k i with
  | nil => cases hi
  | cons r ranges ih =>
      obtain ⟨hhead, htail⟩ := List.pairwise_cons.1 hdisjoint
      rw [rangeIndex, if_neg (by omega : ¬ n = 0)]
      cases i with
      | zero =>
          obtain rfl := Option.some.inj hi
          rw [if_pos ⟨UInt64.le_iff_toNat_le.1 hfirst, UInt64.le_iff_toNat_le.1 hlast⟩]
          exact congrArg some (by omega)
      | succ i =>
          rw [List.getElem?_cons_succ] at hi
          have hother : ¬ (x.toNat ≥ r.1.toNat ∧ x.toNat ≤ r.2.toNat) := by
            rintro ⟨hge, hle⟩
            exact hhead _ (List.mem_of_getElem? hi) x ⟨UInt64.le_iff_toNat_le.2 hge,
              UInt64.le_iff_toNat_le.2 hle, hfirst, hlast⟩
          rw [if_neg hother, ih htail hi (by omega)]
          exact congrArg some (by omega)

end Range

theorem shardIndex_lt (strategy : ShardStrategy) (key : String) {n : ℕ} (hn : 1 ≤ n) :
    ∃ i < n, strategy.shardIndex key n = some i := by
  cases strategy with
  | hash slots =>
      obtain ⟨node, hnode, howner, -⟩ := (firstOwner_hashIndex hn : FirstOwner slots key n _)
      have hlt : node.1 < n := List.mem_range.1 (List.mem_product.1 hnode).1
      exact ⟨hashIndex slots key n, howner ▸ hlt, rfl⟩
  | range ranges => exact rangeIndex_lt _ hn ranges 0
  | modulo => exact ⟨_, lt_of_lt_of_eq (Nat.mod_lt _ (by omega)) (by omega), rfl⟩

variable {C : Type}

theorem ShardingStore.shardCount_pos (store : ShardingStore C) : 1 ≤ store.shardCount :=
  List.length_pos_iff.2 store.nonempty

theorem ShardingStore.strategy_of_new {connect : StoreConfig → Except RszeroError C}
    {configs : List StoreConfig} {strategy : ShardStrategy} {store : ShardingStore C}
    (h : new connect configs strategy = .ok store) :
    store.strategy = strategy ∧ store.shardCount = configs.length := by
  unfold new at h
  split_ifs at h with hempty
  cases hall : connectAll connect configs with
  | error e =>
      rw [hall] at h
      cases h
  | ok shards =>
      rw [hall] at h
      cases h
      exact ⟨rfl, shards.2⟩

/-- Every key has exactly one home among the shards of a store that `new` has built, and a number
in one of at most as many disjoint ranges has the shard of that range. -/
theorem routing_is_total {connect : StoreConfig → Except RszeroError C}
    {configs : List StoreConfig} {strategy : ShardStrategy} {store : ShardingStore C}
    (hnew : ShardingStore.new connect configs strategy = .ok store) :
    (∀ key, ∃! i, strategy.shardIndex key store.shardCount = some i ∧ i < store.shardCount ∧
      ∃ shard, store.shards[i]? = some shard ∧ store.route key = some shard) ∧
    ∀ ranges, strategy = .range ranges → PairwiseDisjoint ranges →
      ranges.length ≤ store.shardCount → ∀ i first last x, ranges[i]? = some (first, last) →
        first ≤ x → x ≤ last →
          strategy.shardIndex (toString x.toNat) store.shardCount = some i := by
  obtain ⟨hstrategy, -⟩ := ShardingStore.strategy_of_new hnew
  constructor
  · intro key
    obtain ⟨i, hlt, hi⟩ := shardIndex_lt strategy key store.shardCount_pos
    have hshard : store.shards[i]? = some store.shards[i] := List.getElem?_eq_getElem hlt
    refine ⟨i, ⟨hi, hlt, store.shards[i], hshard, ?_⟩, ?_⟩
    · rw [← hstrategy] at hi
      exact (congrArg (fun o => o.bind (fun idx => store.shards[idx]?)) hi).trans hshard
    · rintro j ⟨hj, -⟩
      exact Option.some.inj (hj.symm.trans hi)
  · rintro ranges rfl hdisjoint hlength i first last x hi hfirst hlast
    obtain ⟨hlt, -⟩ := List.getElem?_eq_some_iff.1 hi
    rw [ShardStrategy.shardIndex, parseU64_toString (UInt64.toNat_lt x), Option.getD_some,
      rangeIndex_of_mem hdisjoint hi hfirst hlast (by omega), Nat.zero_add]

def threeShards : List StoreConfig :=
  ["postgres://shard0/db", "postgres://shard1/db", "postgres://shard2/db"].map (⟨·, 10, 2⟩)

def threeRanges : List (UInt64 × UInt64) :=
  [(2001, 0xffffffffffffffff), (0, 1000), (1001, 2000)]

theorem routing_is_total_threeRanges : ∃ store : ShardingStore Unit,
    ShardingStore.new (fun _ => .ok ()) threeShards (.range threeRanges) = .ok store ∧
      (∀ key, ∃! i, (ShardStrategy.range threeRanges).shardIndex key store.shardCount = some i ∧
        i < store.shardCount ∧
          ∃ shard, store.shards[i]? = some shard ∧ store.route key = some shard) ∧
      (ShardStrategy.range threeRanges).shardIndex (toString 18446744073709551615)
        store.shardCount = some 0 := by
  have hdisjoint : PairwiseDisjoint threeRanges := by
    simp only [PairwiseDisjoint, threeRanges, List.pairwise_cons, List.mem_cons, List.not_mem_nil,
      or_false, forall_eq_or_imp, forall_eq, UInt64.le_iff_toNat_le]
    refine ⟨⟨fun x => ?_, fun x => ?_⟩, fun x => ?_, nofun, List.Pairwise.nil⟩ <;>
      simp <;> omega
  obtain ⟨store, hnew⟩ : ∃ store : ShardingStore Unit,
      ShardingStore.new (fun _ => .ok ()) threeShards (.range threeRanges) = .ok store := ⟨_, rfl⟩
  have hcount : store.shardCount = 3 := (ShardingStore.strategy_of_new hnew).2
  refine ⟨store, hnew, (routing_is_total hnew).1, ?_⟩
  exact (routing_is_total hnew).2 threeRanges rfl hdisjoint hcount.ge 0 2001 0xffffffffffffffff
    0xffffffffffffffff rfl (by decide) (by decide)

end Rszero.Sharding
