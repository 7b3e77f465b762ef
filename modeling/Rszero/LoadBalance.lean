import Rszero.Discovery
import Rszero.Error

/-!
# Client-side load balancing

A `ServiceDiscovery` reads the instances of a service from etcd and selects one of them. The counter
of the round robin is a `usize` of 64 bits that wraps, and it is one for all services.
-/

namespace Rszero.Discovery

/-- What an etcd cluster answers on its endpoints, for the instances of a service what `discover`
makes of the entries. -/
structure Cluster where
  connect : List String → Except String Unit
  get : List String → String → Except String (List ServiceInstance)

structure DiscoveryConfig where
  kind : String
  endpoints : List String

inductive LoadBalanceStrategy
  | roundRobin
  | random
  | first
  deriving DecidableEq

structure ServiceDiscovery where
  config : DiscoveryConfig
  connected : Bool
  round_robin_counter : UInt64

namespace ServiceDiscovery

def new (config : DiscoveryConfig) : ServiceDiscovery := ⟨config, false, 0⟩

def fromEtcd (hosts : List String) : ServiceDiscovery := new ⟨"etcd", hosts⟩

def connect (cluster : Cluster) (d : ServiceDiscovery) : Except RszeroError ServiceDiscovery :=
  if d.config.kind ≠ "etcd" then
    .error (.discovery s!"unsupported discovery backend: {d.config.kind}" none)
  else if d.config.endpoints = [] then
    .error (.discovery "no etcd endpoints configured" none)
  else match cluster.connect d.config.endpoints with
    | .error e => .error (.discovery s!"failed to connect to etcd: {e}" none)
    | .ok () => .ok { d with connected := true }

def discover (cluster : Cluster) (d : ServiceDiscovery) (service : String) :
    Except RszeroError (List ServiceInstance) :=
  if d.connected then
    match cluster.get d.config.endpoints service with
    | .error e => .error (.discovery s!"failed to discover service: {e}" none)
    | .ok instances => .ok instances
  else .error (.discovery "etcd client not connected" none)

/-- `*counter % instances.len()` -/
def roundRobinIndex (d : ServiceDiscovery) (n : ℕ) : ℕ := d.round_robin_counter.toNat % n

/-- `draw` is the random index. -/
def pick (d : ServiceDiscovery) (instances : List ServiceInstance) (draw : ℕ) :
    LoadBalanceStrategy → Option ServiceInstance × ServiceDiscovery
  | .roundRobin => (instances[d.roundRobinIndex instances.length]?,
      { d with round_robin_counter := d.round_robin_counter + 1 })
  | .random => (instances[draw]?, d)
  | .first => (instances[0]?, d)

def select (cluster : Cluster) (d : ServiceDiscovery) (service : String)
    (strategy : LoadBalanceStrategy) (draw : ℕ) :
    Except RszeroError (Option ServiceInstance) × ServiceDiscovery :=
  match d.discover cluster service with
  | .error e => (.error e, d)
  | .ok instances =>
      if instances = [] then (.ok none, d)
      else (.ok (d.pick instances draw strategy).1, (d.pick instances draw strategy).2)

end ServiceDiscovery
end Rszero.Discovery
