import Rszero.Json
import Rszero.LeasedStore
import Mathlib.Data.List.Infix
import Mathlib.Data.String.Basic
import Mathlib.Logic.Function.Basic

/-!
# Service discovery

`register` writes a JSON object of its own under a key of service and address, with a lease of its
own; `discover` reads the prefix of a service and keeps the values that deserialize. The object has
no `metadata`, which `ServiceInstance` requires, so nothing that was registered is ever discovered.
The keys alone do tell the registrations apart, as long as service names contain no slash.
-/

namespace Rszero.Discovery

open LeasedStore LeasedStore.Store

structure ServiceInstance where
  name : String
  addr : String
  metadata : List (String × String)
  registered_at : String
  weight : UInt32

def default_weight : UInt32 := 100

namespace ServiceInstance

def serialize (inst : ServiceInstance) : Json :=
  .obj [("name", .str inst.name), ("addr", .str inst.addr),
    ("metadata", .ofStrMap inst.metadata), ("registered_at", .str inst.registered_at),
    ("weight", .num inst.weight.toNat)]

/-- The derived deserialization from the fields that are there. Only `weight` may be missing. -/
def ofFields (name addr metadata registered_at weight : Option Json) : Option ServiceInstance := do
  let name ← name.bind Json.asStr
  let addr ← addr.bind Json.asStr
  let metadata ← metadata.bind Json.asStrMap
  let registered_at ← registered_at.bind Json.asStr
  let weight ← weight.elim (some default_weight) Json.asU32
  return ⟨name, addr, metadata, registered_at, weight⟩

def fieldNames : List String := ["name", "addr", "metadata", "registered_at", "weight"]

/-- An object without one of these fields twice, or the fields one after another. -/
def deserialize : Json → Option ServiceInstance
  | .obj fields =>
      if fieldNames.any (fun name => 1 < fields.countP (fun field => field.1 = name)) then none
      else ofFields (fields.lookup "name") (fields.lookup "addr") (fields.lookup "metadata")
        (fields.lookup "registered_at") (fields.lookup "weight")
  | .arr elems =>
      if 5 < elems.length then none
      else ofFields elems[0]? elems[1]? elems[2]? elems[3]? elems[4]?
  | _ => none

theorem deserialize_serialize (inst : ServiceInstance) :
    deserialize inst.serialize = some inst := by
  simp [serialize, deserialize, fieldNames, ofFields, List.lookup_cons]

theorem deserialize_eq_none {fields : List (String × Json)}
    (h : fields.lookup "metadata" = none) : deserialize (.obj fields) = none := by
  unfold deserialize ofFields
  simp [h]

end ServiceInstance

def servicePrefix (service : String) : String := "/rszero/services/" ++ service ++ "/"

def key (service addr : String) : String := "/rszero/services/" ++ service ++ "/" ++ addr

def underPrefix (p k : String) : Bool := p.toList.isPrefixOf k.toList

def SlashFree (service : String) : Prop := '/' ∉ service.toList

theorem toList_joined (root service addr : String) :
    (root ++ service ++ "/" ++ addr).toList =
      root.toList ++ (service.toList ++ '/' :: addr.toList) := by
  have hslash : "/".toList = ['/'] := rfl
  simp [String.toList_append, hslash]

/-- What stands before the first separator is told apart from what stands after it. -/
theorem append_cons_inj {α : Type*} {a : α} {x x' z z' : List α} (hx : a ∉ x) (hx' : a ∉ x') :
    x ++ a :: z = x' ++ a :: z' ↔ x = x' ∧ z = z' := by
  constructor
  · intro h
    rcases List.append_eq_append_iff.1 h with ⟨c, rfl, hc⟩ | ⟨c, rfl, hc⟩
    · cases c with
      | nil => simpa using hc
      | cons b c =>
          obtain rfl : a = b := (List.cons.inj hc).1
          exact absurd (by simp) hx'
    · cases c with
      | nil => simpa [eq_comm] using hc
      | cons b c =>
          obtain rfl : a = b := (List.cons.inj hc).1
          exact absurd (by simp) hx
  · rintro ⟨rfl, rfl⟩
    rfl

section Keys

variable {service service' addr addr' : String}

theorem key_inj (hs : SlashFree service) (hs' : SlashFree service') :
    key service addr = key service' addr' ↔ service = service' ∧ addr = addr' := by
  unfold key
  rw [← String.toList_inj, toList_joined, toList_joined, List.append_cancel_left_eq,
    append_cons_inj hs hs', String.toList_inj, String.toList_inj]

theorem underPrefix_key_iff (hs : SlashFree service) (hs' : SlashFree service') :
    underPrefix (servicePrefix service) (key service' addr) ↔ service' = service := by
  unfold underPrefix
  rw [List.isPrefixOf_iff_prefix]
  constructor
  · rintro ⟨rest, hrest⟩
    have hkey : key service (.ofList rest) = key service' addr := by
      rw [← String.toList_inj, ← hrest, ← String.toList_ofList (l := rest),
        ← String.toList_append, String.ofList_toList]
      rfl
    exact ((key_inj hs hs').1 hkey).1.symm
  · rintro rfl
    refine ⟨addr.toList, ?_⟩
    rw [← String.toList_append]
    rfl

end Keys

structure Etcd (Text : Type) where
  store : Store String Text ℕ
  nextLease : ℕ

variable {Text : Type} (json : SerdeJson Text)

def record (service addr now : String) : Json :=
  .obj [("addr", .str addr), ("name", .str service), ("registered_at", .str now),
    ("weight", .num 100)]

/-- The lease is granted for this registration. -/
def register (etcd : Etcd Text) (service addr now : String) : Etcd Text where
  store := etcd.store.put
    ⟨key service addr, json.toText (record service addr now), etcd.nextLease⟩
  nextLease := etcd.nextLease + 1

def deregister (etcd : Etcd Text) (service addr : String) : Etcd Text :=
  { etcd with store := etcd.store.delete (key service addr) }

def expire (etcd : Etcd Text) (lease : ℕ) : Etcd Text :=
  { etcd with store := etcd.store.expire lease }

def discover (etcd : Etcd Text) (service : String) : List ServiceInstance :=
  (etcd.store.range (underPrefix (servicePrefix service))).filterMap
    (fun e => (json.fromText e.value).bind ServiceInstance.deserialize)

inductive Op
  | register (service addr now : String)
  | deregister (service addr : String)
  | expire (lease : ℕ)

def Op.apply (etcd : Etcd Text) : Op → Etcd Text
  | .register service addr now => Discovery.register json etcd service addr now
  | .deregister service addr => Discovery.deregister etcd service addr
  | .expire lease => Discovery.expire etcd lease

def run (ops : List Op) : Etcd Text := ops.foldl (Op.apply json) ⟨.empty, 0⟩

structure Registry where
  lease : String → String → Option ℕ
  nextLease : ℕ

namespace Registry

def set (registry : Registry) (service addr : String) (lease : Option ℕ) : Registry :=
  { registry with lease := fun service' addr' =>
      if service' = service ∧ addr' = addr then lease else registry.lease service' addr' }

def apply (registry : Registry) : Op → Registry
  | .register service addr _ =>
      { registry.set service addr (some registry.nextLease) with
        nextLease := registry.nextLease + 1 }
  | .deregister service addr => registry.set service addr none
  | .expire lease =>
      { registry with lease := fun service addr =>
          (registry.lease service addr).filter (fun lease' => lease' ≠ lease) }

def Registered (registry : Registry) (service addr : String) : Prop :=
  registry.lease service addr ≠ none

end Registry

def registry (ops : List Op) : Registry := ops.foldl Registry.apply ⟨fun _ _ => none, 0⟩

/-- Exactly one instance for each registered address of the service. -/
structure Reflects (instances : List ServiceInstance) (registry : Registry) (service : String) :
    Prop where
  sound : ∀ inst ∈ instances, inst.name = service ∧ registry.Registered service inst.addr
  complete : ∀ addr, registry.Registered service addr → ∃ inst ∈ instances, inst.addr = addr
  once : (instances.map ServiceInstance.addr).Nodup

def Op.SlashFree : Op → Prop
  | .register service _ _ | .deregister service _ => Discovery.SlashFree service
  | .expire _ => True

structure Tracks (etcd : Etcd Text) (registry : Registry) : Prop where
  nextLease : etcd.nextLease = registry.nextLease
  entry : ∀ e ∈ etcd.store.entries, ∃ service addr, SlashFree service ∧
    e.key = key service addr ∧ registry.lease service addr = some e.lease
  stored : ∀ service addr lease, registry.lease service addr = some lease → SlashFree service ∧
    ∃ e ∈ etcd.store.entries, e.key = key service addr ∧ e.lease = lease

variable {json}

section Step

variable {etcd : Etcd Text} {reg : Registry} {service addr : String}

/-- Setting the lease of one address leaves the entries of the others. -/
theorem Tracks.entry_set (h : Tracks etcd reg) (lease : Option ℕ) {e : Entry String Text ℕ}
    (he : e ∈ etcd.store.entries) (hkey : e.key ≠ key service addr) :
    ∃ service' addr', SlashFree service' ∧ e.key = key service' addr' ∧
      (reg.set service addr lease).lease service' addr' = some e.lease := by
  obtain ⟨service', addr', hs', hkey', hlease⟩ := h.entry e he
  refine ⟨service', addr', hs', hkey', ?_⟩
  rw [← hlease]
  refine if_neg ?_
  rintro ⟨rfl, rfl⟩
  exact hkey hkey'

theorem Tracks.stored_other (h : Tracks etcd reg) (hs : SlashFree service)
    {service' addr' : String} {lease : ℕ} (hlease : reg.lease service' addr' = some lease)
    (hother : ¬ (service' = service ∧ addr' = addr)) :
    SlashFree service' ∧ ∃ e ∈ etcd.store.entries, e.key ≠ key service addr ∧
      e.key = key service' addr' ∧ e.lease = lease := by
  obtain ⟨hs', e, he, hkey, hl⟩ := h.stored _ _ _ hlease
  refine ⟨hs', e, he, ?_, hkey, hl⟩
  rw [hkey]
  intro heq
  exact hother ((key_inj hs' hs).1 heq)

theorem Tracks.register (h : Tracks etcd reg) (hs : SlashFree service) (now : String) :
    Tracks (register json etcd service addr now) (reg.apply (.register service addr now)) := by
  constructor
  · exact congrArg (· + 1) h.nextLease
  · intro e he
    rcases mem_put.1 he with rfl | ⟨hmem, hkey⟩
    · refine ⟨service, addr, hs, rfl, ?_⟩
      rw [h.nextLease]
      exact if_pos ⟨rfl, rfl⟩
    · exact h.entry_set _ hmem hkey
  · intro service' addr' lease hlease
    change (if service' = service ∧ addr' = addr then _ else _) = _ at hlease
    split_ifs at hlease with hsame
    · obtain ⟨rfl, rfl⟩ := hsame
      refine ⟨hs, _, mem_put.2 (.inl rfl), rfl, ?_⟩
      rw [← Option.some.inj hlease, h.nextLease]
    · obtain ⟨hs', e, he, hne, hkey⟩ := h.stored_other hs hlease hsame
      exact ⟨hs', e, mem_put.2 (.inr ⟨he, hne⟩), hkey⟩

theorem Tracks.deregister (h : Tracks etcd reg) (hs : SlashFree service) :
    Tracks (deregister etcd service addr) (reg.apply (.deregister service addr)) := by
  constructor
  · exact h.nextLease
  · intro e he
    obtain ⟨hmem, hkey⟩ := mem_delete.1 he
    exact h.entry_set _ hmem hkey
  · intro service' addr' lease hlease
    change (if service' = service ∧ addr' = addr then _ else _) = _ at hlease
    split_ifs at hlease with hsame
    · obtain ⟨hs', e, he, hne, hkey⟩ := h.stored_other hs hlease hsame
      exact ⟨hs', e, mem_delete.2 ⟨he, hne⟩, hkey⟩

theorem Tracks.expire (h : Tracks etcd reg) (lease : ℕ) :
    Tracks (expire etcd lease) (reg.apply (.expire lease)) := by
  constructor
  · exact h.nextLease
  · intro e he
    obtain ⟨hmem, hne⟩ := mem_expire.1 he
    obtain ⟨service, addr, hs, hkey, hlease⟩ := h.entry e hmem
    refine ⟨service, addr, hs, hkey, ?_⟩
    simpa [Registry.apply, hlease] using hne
  · intro service addr lease' hlease
    obtain ⟨hlease', hne⟩ := Option.filter_eq_some_iff.1 hlease
    obtain ⟨hs, e, he, hkey, hl⟩ := h.stored _ _ _ hlease'
    refine ⟨hs, e, mem_expire.2 ⟨he, ?_⟩, hkey, hl⟩
    rw [hl]
    exact of_decide_eq_true hne

end Step

theorem tracks_run (ops : List Op) (hops : ∀ op ∈ ops, op.SlashFree) :
    Tracks (run json ops) (registry ops) := by
  refine List.foldl_rel (r := Tracks) ?_ ?_
  · exact ⟨rfl, fun e he => absurd he List.not_mem_nil, fun _ _ _ h => nomatch h⟩
  · intro op hop etcd reg h
    cases op with
    | register service addr now => exact h.register (hops _ hop) now
    | deregister service addr => exact h.deregister (hops _ hop)
    | expire lease => exact h.expire lease

/-- Below the prefix of a service stand the keys of its registered addresses, each once. -/
theorem keys_reflect (ops : List Op) (hops : ∀ op ∈ ops, op.SlashFree) {service : String}
    (hs : SlashFree service) :
    let keys := ((run json ops).store.range (underPrefix (servicePrefix service))).map Entry.key
    keys.Nodup ∧
      ∀ k, k ∈ keys ↔ ∃ addr, k = key service addr ∧ (registry ops).Registered service addr := by
  have htracks : Tracks (run json ops) (registry ops) := tracks_run ops hops
  refine ⟨range_nodup_keys _ _, fun k => ?_⟩
  rw [List.mem_map]
  constructor
  · rintro ⟨e, he, rfl⟩
    obtain ⟨hmem, hunder⟩ := mem_range.1 he
    obtain ⟨service', addr, hs', hkey, hlease⟩ := htracks.entry e hmem
    rw [hkey] at hunder
    obtain rfl := (underPrefix_key_iff hs hs').1 hunder
    refine ⟨addr, hkey, ?_⟩
    rw [Registry.Registered, hlease]
    exact Option.some_ne_none _
  · rintro ⟨addr, rfl, hregistered⟩
    obtain ⟨lease, hlease⟩ := Option.ne_none_iff_exists'.1 hregistered
    obtain ⟨_, e, he, hkey, _⟩ := htracks.stored _ _ _ hlease
    refine ⟨e, mem_range.2 ⟨he, ?_⟩, hkey⟩
    rw [hkey]
    exact (underPrefix_key_iff hs hs).2 rfl

def Recorded (json : SerdeJson Text) (etcd : Etcd Text) : Prop :=
  ∀ e ∈ etcd.store.entries, ∃ service addr now, e.value = json.toText (record service addr now)

theorem recorded_run (ops : List Op) : Recorded json (run json ops) := by
  refine List.foldlRecOn ops _ (fun e he => absurd he List.not_mem_nil) ?_
  intro etcd h op _ e he
  cases op with
  | register service addr now =>
      rcases mem_put.1 he with rfl | ⟨hmem, _⟩
      · exact ⟨service, addr, now, rfl⟩
      · exact h e hmem
  | deregister service addr => exact h e (mem_delete.1 he).1
  | expire lease => exact h e (mem_expire.1 he).1

theorem deserialize_record (service addr now : String) :
    ServiceInstance.deserialize (record service addr now) = none :=
  ServiceInstance.deserialize_eq_none (by simp [List.lookup_cons])

theorem discover_eq_nil (ops : List Op) (service : String) :
    discover json (run json ops) service = [] := by
  unfold discover
  rw [List.filterMap_eq_nil_iff]
  intro e he
  obtain ⟨service', addr, now, hvalue⟩ := recorded_run ops e (mem_range.1 he).1
  rw [hvalue, json.fromText_toText]
  exact deserialize_record service' addr now

/-- After any operations `discover` reflects the registrations of a service exactly when the service
has none. -/
theorem discover_reflects_iff (json : SerdeJson Text) (ops : List Op) (service : String) :
    Reflects (discover json (run json ops) service) (registry ops) service ↔
      ∀ addr, ¬ (registry ops).Registered service addr := by
  rw [discover_eq_nil]
  constructor
  · intro hreflects addr hregistered
    obtain ⟨inst, hinst, _⟩ := hreflects.complete addr hregistered
    exact List.not_mem_nil hinst
  · intro hnone
    refine ⟨fun inst h => absurd h List.not_mem_nil, fun addr h => absurd h (hnone addr), ?_⟩
    exact List.nodup_nil

/-- A service with one registration is not discovered, whatever the text of a JSON value is. -/
theorem registered_not_discovered :
    let ops := [Op.register "orders" "10.0.0.1:80" "2024-01-01T00:00:00+00:00"]
    (registry ops).Registered "orders" "10.0.0.1:80" ∧
      ∀ (Text : Type) (json : SerdeJson Text), discover json (run json ops) "orders" = [] ∧
        ¬ Reflects (discover json (run json ops) "orders") (registry ops) "orders" := by
  intro ops
  have hregistered : (registry ops).Registered "orders" "10.0.0.1:80" := Option.some_ne_none 0
  refine ⟨hregistered, fun Text json => ⟨discover_eq_nil ops "orders", fun hreflects => ?_⟩⟩
  rw [discover_eq_nil] at hreflects
  obtain ⟨inst, hinst, _⟩ := hreflects.complete _ hregistered
  exact List.not_mem_nil hinst

end Rszero.Discovery
