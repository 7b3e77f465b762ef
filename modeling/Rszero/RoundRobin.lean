import Rszero.EvenRotation
import Rszero.LoadBalance

/-!
# Round robin over several services

All services share the counter of one client. The calls for a service turn evenly through its
instances exactly when the positions of these calls among all calls do.
-/

namespace Rszero.Discovery

open EvenRotation

structure Services where
  instances : String → List ServiceInstance
  nonempty : ∀ service, instances service ≠ []

namespace Services

variable (services : Services)

def cluster : Cluster := ⟨fun _ => .ok (), fun _ service => .ok (services.instances service)⟩

def size (service : String) : ℕ := (services.instances service).length

theorem size_pos (service : String) : 0 < services.size service :=
  List.length_pos_of_ne_nil (services.nonempty service)

end Services

/-- The client, and for each call the service and the index of the instance selected. -/
structure Rotation where
  client : ServiceDiscovery
  log : List (String × ℕ)

def Rotation.call (services : Services) (x : Rotation) (service : String) : Rotation where
  client := (x.client.select services.cluster service .roundRobin 0).2
  log := x.log ++ [(service, x.client.roundRobinIndex (services.size service))]

def rotate (services : Services) (hosts : List String) (calls : List String) : Rotation :=
  calls.foldl (Rotation.call services)
    ⟨{ ServiceDiscovery.fromEtcd hosts with connected := true }, []⟩

/-- The instances of a service that were selected, by their index. -/
def selections (service : String) (log : List (String × ℕ)) : List ℕ :=
  log.filterMap (fun e => if e.1 = service then some e.2 else none)

/-- Any two instances of one service have been selected equally often, up to one. -/
def Fair (services : Services) (log : List (String × ℕ)) : Prop :=
  ∀ service, Level (services.size service) (selections service log)

/-- What the positions of the calls for a service leave when divided by the number of its
instances. -/
def turns (services : Services) (service : String) (calls : List String) : List ℕ :=
  calls.zipIdx.filterMap (fun c =>
    if c.1 = service then some (c.2 % UInt64.size % services.size service) else none)

variable {services : Services} {d : ServiceDiscovery} {service : String}

theorem discover_cluster (hd : d.connected) :
    d.discover services.cluster service = .ok (services.instances service) := by
  simp [ServiceDiscovery.discover, hd, Services.cluster]

/-- The index in the log is that of the instance which the call returns. -/
theorem select_roundRobin (hd : d.connected) (draw : ℕ) :
    d.select services.cluster service .roundRobin draw =
      (.ok (services.instances service)[d.roundRobinIndex (services.size service)]?,
        { d with round_robin_counter := d.round_robin_counter + 1 }) := by
  simp only [ServiceDiscovery.select, discover_cluster hd, if_neg (services.nonempty service)]
  rfl

/-- The log of a run is known from the positions of the calls. -/
theorem rotate_eq (services : Services) (hosts calls : List String) :
    rotate services hosts calls =
      ⟨⟨⟨"etcd", hosts⟩, true, .ofNat calls.length⟩,
        calls.zipIdx.map (fun c => (c.1, c.2 % UInt64.size % services.size c.1))⟩ := by
  induction calls using List.reverseRecOn with
  | nil => rfl
  | append_singleton calls service ih =>
      unfold rotate at ih ⊢
      rw [List.foldl_append, ih]
      simp only [List.foldl_cons, List.foldl_nil, Rotation.call]
      rw [select_roundRobin rfl]
      simp [ServiceDiscovery.roundRobinIndex, List.zipIdx_append]

theorem selections_rotate (services : Services) (hosts calls : List String) (service : String) :
    selections service (rotate services hosts calls).log = turns services service calls := by
  rw [rotate_eq, selections, turns, List.filterMap_map]
  apply List.filterMap_congr
  intro c _
  by_cases hc : c.1 = service
  · simp [hc]
  · simp [hc]

theorem turns_lt (services : Services) (calls : List String) (service : String) :
    ∀ a ∈ turns services service calls, a < services.size service := by
  intro a ha
  obtain ⟨c, -, hc⟩ := List.mem_filterMap.1 ha
  split_ifs at hc with hservice
  exact Option.some.inj hc ▸ Nat.mod_lt _ (services.size_pos service)

theorem zipIdx_prefix_zipIdx {calls p : List String} (hp : p <+: calls) :
    p.zipIdx <+: calls.zipIdx := by
  obtain ⟨rest, rfl⟩ := hp
  rw [List.zipIdx_append]
  exact List.prefix_append ..

/-- The turns that a service has had after some of the calls are the first ones of all its turns. -/
theorem forall_prefix_turns {P : List ℕ → Prop} {calls : List String} :
    (∀ p, p <+: calls → P (turns services service p)) ↔
      ∀ q, q <+: turns services service calls → P q := by
  constructor
  · intro h q hq
    obtain ⟨z, hz, rfl⟩ := List.prefix_filterMap_iff.1 hq
    have hlength : (calls.take z.length).zipIdx.length = z.length := by
      simpa using hz.length_le
    have htake := zipIdx_prefix_zipIdx (List.take_prefix z.length calls)
    have heq := (List.prefix_of_prefix_length_le htake hz hlength.le).eq_of_length hlength
    exact heq ▸ h _ (List.take_prefix ..)
  · intro h p hp
    exact h _ ((zipIdx_prefix_zipIdx hp).filterMap _)

/-- Round robin is fair in all that happens on a client if and only if, for each service, the calls
of each block of as many calls as it has instances stand at positions that leave different
remainders. -/
theorem round_robin_fair_iff (services : Services) (hosts calls : List String) :
    (∀ p, p <+: calls → Fair services (rotate services hosts p).log) ↔
      ∀ service, BlocksDistinct (services.size service) (turns services service calls) := by
  simp only [Fair, selections_rotate]
  constructor
  · intro h service
    rw [← level_prefixes_iff (services.size_pos service) (turns_lt services calls service)]
    exact forall_prefix_turns.1 (fun p hp => h p hp service)
  · intro h p hp service
    have hlevel := (level_prefixes_iff (services.size_pos service)
      (turns_lt services calls service)).2 (h service)
    exact forall_prefix_turns.2 hlevel p hp

def instanceAt (name addr : String) : ServiceInstance := ⟨name, addr, [], "", default_weight⟩

def twoAndOne : Services where
  instances service :=
    if service = "a" then [instanceAt "a" "10.0.0.1:1", instanceAt "a" "10.0.0.2:1"]
    else [instanceAt service "10.0.0.3:1"]
  nonempty service := by
    split_ifs <;> simp

/-- When the calls for two services alternate, both calls for `a` get its first instance. -/
theorem alternating_unfair :
    (rotate twoAndOne ["etcd:2379"] ["a", "b", "a"]).log = [("a", 0), ("b", 0), ("a", 0)] ∧
      ¬ Fair twoAndOne (rotate twoAndOne ["etcd:2379"] ["a", "b", "a"]).log := by
  refine ⟨rfl, fun hfair => ?_⟩
  have hahead := hfair "a" 0 (by decide) 1 (by decide)
  revert hahead
  decide

end Rszero.Discovery
