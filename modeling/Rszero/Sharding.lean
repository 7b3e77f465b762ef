import Mathlib.Algebra.Order.Ring.Nat
import Mathlib.Data.List.ProdSigma
import Rszero.Error
import Rszero.Fnv1a
import Rszero.HashRing

/-!
# Sharding

`ShardStrategy::shard_index`, and the store that routes by it. What connects to a database is a
parameter. An index is `none` where the subtraction of the range strategy would underflow, and a
shard is `none` where indexing would panic.
-/

namespace Rszero.Sharding

open HashRing

def pushDigit (num : ℕ) (c : Char) : Option ℕ :=
  if c.isDigit ∧ num * 10 + (c.toNat - 48) < 2 ^ 64 then some (num * 10 + (c.toNat - 48)) else none

/-- `str::parse::<u64>`, without its errors. -/
def parseU64 : List Char → Option ℕ
  | [] => none
  | ['+'] => none
  | '+' :: cs => cs.foldlM pushDigit 0
  | cs => cs.foldlM pushDigit 0

inductive ShardStrategy
  | hash (slots : UInt32)
  | range (ranges : List (UInt64 × UInt64))
  | modulo

def keyHash (key : String) : UInt64 := (fnv1a32 (asBytes key)).toUInt64

def vnodeHash (shard v : ℕ) : UInt64 := (fnv1a32 (asBytes s!"{shard}:{v}")).toUInt64

def vnodesPerShard (slots : UInt32) : ℕ := max slots.toNat 1

/-- The body of the inner loop, with `best_shard` and `min_distance`. -/
def visit (key : String) (shard : ℕ) (best : ℕ × UInt64) (v : ℕ) : ℕ × UInt64 :=
  let distance := vnodeHash shard v - keyHash key
  if distance < best.2 then (shard, distance) else best

def hashIndex (slots : UInt32) (key : String) (shard_count : ℕ) : ℕ :=
  ((List.range shard_count).foldl
    (fun best shard => (List.range (vnodesPerShard slots)).foldl (visit key shard) best)
    (0, 0xffffffffffffffff)).1

/-- The loop over the ranges from the one with index `i` on. -/
def rangeIndex (num shard_count : ℕ) : List (UInt64 × UInt64) → ℕ → Option ℕ
  | [], _ => some 0
  | (first, last) :: ranges, i =>
      if num ≥ first.toNat ∧ num ≤ last.toNat then
        if shard_count = 0 then none else some (min i (shard_count - 1))
      else rangeIndex num shard_count ranges (i + 1)

def ShardStrategy.shardIndex (strategy : ShardStrategy) (key : String) (shard_count : ℕ) :
    Option ℕ :=
  match strategy with
  | .hash slots => some (hashIndex slots key shard_count)
  | .range ranges => rangeIndex ((parseU64 key.toList).getD 0) shard_count ranges 0
  | .modulo => some ((fnv1a32 (asBytes key)).toNat % max shard_count 1)

structure StoreConfig where
  dsn : String
  max_connections : UInt32
  min_connections : UInt32

structure Store (C : Type) where
  conn : C
  config : StoreConfig

variable {C : Type}

def Store.new (connect : StoreConfig → Except RszeroError C) (config : StoreConfig) :
    Except RszeroError (Store C) :=
  if config.dsn.isEmpty then .error (.database "empty DSN" none)
  else (connect config).map (fun conn => ⟨conn, config⟩)

structure ShardingStore (C : Type) where
  shards : List (Store C)
  strategy : ShardStrategy
  nonempty : shards ≠ []

namespace ShardingStore

def connectAll (connect : StoreConfig → Except RszeroError C) :
    (configs : List StoreConfig) →
      Except RszeroError { shards : List (Store C) // shards.length = configs.length }
  | [] => .ok ⟨[], rfl⟩
  | cfg :: configs => do
      let shard ← Store.new connect cfg
      let shards ← connectAll connect configs
      return ⟨shard :: shards.1, congrArg (· + 1) shards.2⟩

theorem ne_nil_of_length_eq {shards : List (Store C)} {configs : List StoreConfig}
    (hlength : shards.length = configs.length) (h : configs ≠ []) : shards ≠ [] := by
  rintro rfl
  exact h (List.length_eq_zero_iff.1 hlength.symm)

def new (connect : StoreConfig → Except RszeroError C) (configs : List StoreConfig)
    (strategy : ShardStrategy) : Except RszeroError (ShardingStore C) :=
  if h : configs = [] then .error (.database "sharding requires at least one shard" none)
  else do
    let shards ← connectAll connect configs
    return ⟨shards.1, strategy, ne_nil_of_length_eq shards.2 h⟩

def shardCount (store : ShardingStore C) : ℕ := store.shards.length

def route (store : ShardingStore C) (key : String) : Option (Store C) :=
  (store.strategy.shardIndex key store.shards.length).bind (fun idx => store.shards[idx]?)

end ShardingStore

/-- `test_range_strategy_routing` -/
example : (["500", "1500", "9999"].map fun key =>
    (ShardStrategy.range [(0, 1000), (1001, 2000), (2001, 0xffffffffffffffff)]).shardIndex key 3) =
      [some 0, some 1, some 2] := by decide

end Rszero.Sharding
