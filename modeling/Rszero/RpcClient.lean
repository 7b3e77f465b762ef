import Rszero.RoundRobin

/-!
# Discovery of the RPC client

A client without a `ServiceDiscovery` of its own makes a new one for each call, so each of its calls
selects with a counter of zero. A client that was given one carries the counter from call to call.
-/

namespace Rszero.Discovery

/-- `etcd` has the hosts of the configuration. -/
structure RpcClient where
  etcd : Option (List String)
  discovery : Option ServiceDiscovery
  load_balance : LoadBalanceStrategy

namespace RpcClient

def discoverInstance (cluster : Cluster) (client : RpcClient) (service : String) (draw : ℕ) :
    Except RszeroError (Option ServiceInstance) × RpcClient :=
  match client.discovery with
  | some d =>
      ((d.select cluster service client.load_balance draw).1,
        { client with discovery := some (d.select cluster service client.load_balance draw).2 })
  | none =>
      match client.etcd with
      | some hosts =>
          match (ServiceDiscovery.fromEtcd hosts).connect cluster with
          | .ok d => ((d.select cluster service client.load_balance draw).1, client)
          | .error e => (.error e, client)
      | none => (.error (.discovery "no discovery configured" none), client)

structure Call where
  service : String
  draw : ℕ

def results (cluster : Cluster) (client : RpcClient) :
    List Call → List (Except RszeroError (Option ServiceInstance))
  | [] => []
  | call :: calls =>
      let r := client.discoverInstance cluster call.service call.draw
      r.1 :: results cluster r.2 calls

end RpcClient

open RpcClient

/-- At every call the counter stands at an instance that is the same as the first one. -/
def AlwaysFirst (services : Services) (c : UInt64) (calls : List Call) : Prop :=
  ∀ k, ∀ hk : k < calls.length,
    (services.instances calls[k].service)[(c + .ofNat k).toNat % services.size calls[k].service]? =
      (services.instances calls[k].service)[0]?

variable {services : Services} {hosts : List String} {d : ServiceDiscovery}
  {strategy : LoadBalanceStrategy}

theorem connect_eq_ok (h : (ServiceDiscovery.fromEtcd hosts).connect services.cluster = .ok d) :
    d = ⟨⟨"etcd", hosts⟩, true, 0⟩ := by
  by_cases hempty : hosts = []
  · subst hempty
    cases h
  · have hok : (ServiceDiscovery.fromEtcd hosts).connect services.cluster =
        .ok ⟨⟨"etcd", hosts⟩, true, 0⟩ := by
      simp [ServiceDiscovery.connect, ServiceDiscovery.fromEtcd, ServiceDiscovery.new, hempty,
        Services.cluster]
    exact Except.ok.inj (h.symm.trans hok)

theorem select_first (hd : d.connected) (service : String) (draw : ℕ) :
    d.select services.cluster service .first draw =
      (.ok (services.instances service)[0]?, d) := by
  simp only [ServiceDiscovery.select, discover_cluster hd, if_neg (services.nonempty service)]
  rfl

/-- Without a discovery of its own a client gets the first instance each time. -/
theorem discoverInstance_fallback
    (h : (ServiceDiscovery.fromEtcd hosts).connect services.cluster = .ok d)
    (hs : strategy ≠ .random) (call : Call) :
    (RpcClient.mk (some hosts) none strategy).discoverInstance services.cluster call.service
        call.draw =
      (.ok (services.instances call.service)[0]?, ⟨some hosts, none, strategy⟩) := by
  unfold discoverInstance
  obtain rfl := connect_eq_ok h
  simp only [h]
  cases strategy with
  | random => exact absurd rfl hs
  | first => rw [select_first rfl]
  | roundRobin =>
      rw [select_roundRobin rfl]
      simp [ServiceDiscovery.roundRobinIndex]

theorem results_fallback
    (h : (ServiceDiscovery.fromEtcd hosts).connect services.cluster = .ok d)
    (hs : strategy ≠ .random) (calls : List Call) :
    results services.cluster ⟨some hosts, none, strategy⟩ calls =
      calls.map (fun call => .ok (services.instances call.service)[0]?) := by
  induction calls with
  | nil => rfl
  | cons call calls ih => simp only [results, discoverInstance_fallback h hs, ih, List.map_cons]

theorem results_first (hd : d.connected) (calls : List Call) :
    results services.cluster ⟨some hosts, some d, .first⟩ calls =
      calls.map (fun call => .ok (services.instances call.service)[0]?) := by
  induction calls with
  | nil => rfl
  | cons call calls ih => simp only [results, discoverInstance, select_first hd, ih, List.map_cons]

theorem alwaysFirst_cons_iff {c : UInt64} {call : Call} {calls : List Call} :
    AlwaysFirst services c (call :: calls) ↔
      (services.instances call.service)[c.toNat % services.size call.service]? =
        (services.instances call.service)[0]? ∧ AlwaysFirst services (c + 1) calls := by
  have hshift (k : ℕ) : c + 1 + .ofNat k = c + .ofNat (k + 1) := by
    rw [UInt64.ofNat_add, UInt64.add_assoc, UInt64.add_comm 1]
    rfl
  constructor
  · intro h
    have hzero : (services.instances call.service)[(c + .ofNat 0).toNat %
        services.size call.service]? = (services.instances call.service)[0]? :=
      h 0 (Nat.succ_pos _)
    refine ⟨by simpa using hzero, fun k hk => ?_⟩
    rw [hshift]
    exact h (k + 1) (Nat.succ_lt_succ hk)
  · rintro ⟨hzero, h⟩ k hk
    cases k with
    | zero =>
        change (services.instances call.service)[(c + .ofNat 0).toNat %
          services.size call.service]? = (services.instances call.service)[0]?
        simpa using hzero
    | succ k =>
        rw [← hshift]
        exact h k (Nat.lt_of_succ_lt_succ hk)

/-- With a discovery of its own the client gets the first instance each time only if the counter
stands at it. -/
theorem results_roundRobin_iff (hd : d.connected) (calls : List Call) :
    results services.cluster ⟨some hosts, some d, .roundRobin⟩ calls =
        calls.map (fun call => .ok (services.instances call.service)[0]?) ↔
      AlwaysFirst services d.round_robin_counter calls := by
  induction calls generalizing d with
  | nil => exact iff_of_true rfl nofun
  | cons call calls ih =>
      have ih := ih (d := { d with round_robin_counter := d.round_robin_counter + 1 }) hd
      simp only [results, discoverInstance, select_roundRobin hd, List.map_cons, List.cons.injEq,
        Except.ok.injEq, ih, alwaysFirst_cons_iff, ServiceDiscovery.roundRobinIndex]

/-- The two ways of discovery agree if and only if the strategy is not the round robin, or every
call meets the counter at the first instance. -/
theorem discovery_paths_agree_iff
    (h : (ServiceDiscovery.fromEtcd hosts).connect services.cluster = .ok d) (c : UInt64)
    (hs : strategy ≠ .random) (calls : List Call) :
    results services.cluster ⟨some hosts, none, strategy⟩ calls =
        results services.cluster
          ⟨some hosts, some { d with round_robin_counter := c }, strategy⟩ calls ↔
      strategy = .first ∨ AlwaysFirst services c calls := by
  obtain hd : d.connected := connect_eq_ok h ▸ rfl
  rw [results_fallback h hs]
  cases strategy with
  | random => exact absurd rfl hs
  | first =>
      rw [results_first (d := { d with round_robin_counter := c }) hd]
      simp
  | roundRobin =>
      rw [eq_comm, results_roundRobin_iff (d := { d with round_robin_counter := c }) hd]
      simp

theorem connect_twoAndOne : (ServiceDiscovery.fromEtcd ["etcd:2379"]).connect twoAndOne.cluster =
    .ok ⟨⟨"etcd", ["etcd:2379"]⟩, true, 0⟩ := rfl

def configured : RpcClient := ⟨some ["etcd:2379"], none, .roundRobin⟩

def injected : RpcClient :=
  ⟨some ["etcd:2379"], some ⟨⟨"etcd", ["etcd:2379"]⟩, true, 0⟩, .roundRobin⟩

def alternating : List Call := [⟨"a", 0⟩, ⟨"b", 0⟩, ⟨"a", 0⟩, ⟨"b", 0⟩]

theorem discovery_paths_agree_alternating :
    AlwaysFirst twoAndOne 0 alternating ∧
      results twoAndOne.cluster configured alternating =
        results twoAndOne.cluster injected alternating := by
  have hfirst : AlwaysFirst twoAndOne 0 alternating := by
    iterate 4 refine alwaysFirst_cons_iff.2 ⟨rfl, ?_⟩
    exact nofun
  exact ⟨hfirst, (discovery_paths_agree_iff connect_twoAndOne 0 (by decide) _).2 (.inr hfirst)⟩

/-- Two calls for a service of two instances: the first one twice, or one after the other. -/
theorem discovery_paths_differ :
    results twoAndOne.cluster configured [⟨"a", 0⟩, ⟨"a", 0⟩] =
        [.ok (some (instanceAt "a" "10.0.0.1:1")), .ok (some (instanceAt "a" "10.0.0.1:1"))] ∧
      results twoAndOne.cluster injected [⟨"a", 0⟩, ⟨"a", 0⟩] =
        [.ok (some (instanceAt "a" "10.0.0.1:1")), .ok (some (instanceAt "a" "10.0.0.2:1"))] ∧
      results twoAndOne.cluster configured [⟨"a", 0⟩, ⟨"a", 0⟩] ≠
        results twoAndOne.cluster injected [⟨"a", 0⟩, ⟨"a", 0⟩] := by
  refine ⟨rfl, rfl, fun h => ?_⟩
  change [Except.ok (some (instanceAt "a" "10.0.0.1:1")),
    .ok (some (instanceAt "a" "10.0.0.1:1"))] =
    [.ok (some (instanceAt "a" "10.0.0.1:1")), .ok (some (instanceAt "a" "10.0.0.2:1"))] at h
  simp [instanceAt] at h

end Rszero.Discovery
