import Mathlib.Logic.Function.Basic
import Rszero.TransitionSystem

/-!
# Business metrics

Counters, gauges and histograms are looked up by a full name, which does not keep the name apart
from others. The three maps are one, with the kind in the key. What `new` thinks of label names is
left open.
-/

namespace Rszero.BusinessMetrics

inductive Kind
  | counter
  | gauge
  | histogram
  deriving DecidableEq

abbrev Key := Kind × String

/-- What is done to the metric of some label values. -/
inductive Recording (V : Type)
  | counterInc
  | counterAdd (v : V)
  | gaugeSet (v : V)
  | gaugeInc
  | gaugeDec
  | gaugeAdd (v : V)
  | observe (v : V)

def Recording.kind {V : Type} : Recording V → Kind
  | .counterInc | .counterAdd _ => .counter
  | .gaugeSet _ | .gaugeInc | .gaugeDec | .gaugeAdd _ => .gauge
  | .observe _ => .histogram

/-- `CounterVec`, `GaugeVec` or `HistogramVec`; the metric of some label values is what was done to
it. -/
structure MetricVec (V : Type) where
  name : String
  help : String
  labelNames : List String
  metrics : List String → List (Recording V)

structure Metrics (V : Type) where
  service : String
  registry : List Key
  vecs : Key → Option (MetricVec V)

variable {V : Type} (accepts : List String → Bool)

def nameStart (c : Char) : Bool :=
  ('a' ≤ c && c ≤ 'z') || ('A' ≤ c && c ≤ 'Z') || c == '_' || c == ':'

def nameRest (c : Char) : Bool := nameStart c || ('0' ≤ c && c ≤ '9')

/-- `[a-zA-Z_:][a-zA-Z0-9_:]*` -/
def validName (name : String) : Bool :=
  match name.toList with
  | [] => false
  | c :: cs => nameStart c && cs.all nameRest

namespace MetricVec

def new (name help : String) (labelNames : List String) : Option (MetricVec V) :=
  if validName name ∧ accepts labelNames then some ⟨name, help, labelNames, fun _ => []⟩ else none

/-- `with_label_values` and what follows it; `none` is a panic. -/
def record (vec : MetricVec V) (labelValues : List String) (r : Recording V) :
    Option (MetricVec V) :=
  if labelValues.length = vec.labelNames.length then
    some { vec with
      metrics := Function.update vec.metrics labelValues (vec.metrics labelValues ++ [r]) }
  else none

end MetricVec

namespace Kind

def help (name : String) : Kind → String
  | counter => "Counter for " ++ name
  | gauge => "Gauge for " ++ name
  | histogram => "Histogram for " ++ name

def fallbackName : Kind → String
  | counter => "rszero_biz_counter_fallback"
  | gauge => "rszero_biz_gauge_fallback"
  | histogram => "rszero_biz_histogram_fallback"

def fallback (kind : Kind) : Option (MetricVec V) :=
  MetricVec.new accepts kind.fallbackName "fallback" [] <|> MetricVec.new accepts "_" "_" []

end Kind

def fullName (service name : String) : String :=
  "rszero_biz_" ++ service ++ "_" ++
    String.ofList (name.toList.map fun c => if c = '.' then '_' else c)

namespace Metrics

def new (service : String) : Metrics V := ⟨service, [], fun _ => none⟩

/-- A second collector of the same name is rejected. -/
def register (m : Metrics V) (key : Key) : Metrics V :=
  if ∃ other ∈ m.registry, other.2 = key.2 then m else { m with registry := m.registry ++ [key] }

def put (m : Metrics V) (key : Key) (vec : MetricVec V) : Metrics V :=
  { m with vecs := Function.update m.vecs key (some vec) }

/-- `entry(full_name).or_insert_with(..)` -/
def getOrCreate (m : Metrics V) (kind : Kind) (name : String) (labelNames : List String) :
    Option (MetricVec V × Metrics V) :=
  let key := (kind, fullName m.service name)
  match m.vecs key with
  | some vec => some (vec, m)
  | none => match MetricVec.new accepts key.2 (kind.help name) labelNames with
      | some vec => some (vec, (m.register key).put key vec)
      | none => (kind.fallback accepts).map fun vec => (vec, m.put key vec)

def counter (m : Metrics V) := m.getOrCreate accepts .counter

def gauge (m : Metrics V) := m.getOrCreate accepts .gauge

def histogram (m : Metrics V) := m.getOrCreate accepts .histogram

def families (m : Metrics V) : List (Kind × MetricVec V) :=
  m.registry.filterMap fun key => (m.vecs key).map fun vec => (key.1, vec)

/-- What `export` shows of a kind and a full name, for some label values. -/
def shown (m : Metrics V) (key : Key) (labelValues : List String) : List (Recording V) :=
  match m.families.find? (fun family => family.1 = key.1 ∧ family.2.name = key.2) with
  | some family => family.2.metrics labelValues
  | none => []

end Metrics

/-- A metric is looked up by its name, and then something is done to it. -/
structure Call (V : Type) where
  name : String
  labelNames : List String
  labelValues : List String
  recording : Recording V

def Call.kind (c : Call V) : Kind := c.recording.kind

def Call.key (service : String) (c : Call V) : Key := (c.kind, fullName service c.name)

namespace Metrics

def lookUp (m : Metrics V) (c : Call V) : Option (MetricVec V × Metrics V) :=
  match c.kind with
  | .counter => m.counter accepts c.name c.labelNames
  | .gauge => m.gauge accepts c.name c.labelNames
  | .histogram => m.histogram accepts c.name c.labelNames

def step (m : Metrics V) (c : Call V) : Option (Metrics V) := do
  let (vec, m) ← m.lookUp accepts c
  let vec ← vec.record c.labelValues c.recording
  return m.put (c.key m.service) vec

end Metrics

def system (service : String) : TransitionSystem (Metrics V) (Call V) where
  init := .new service
  step := Metrics.step accepts

def recordedAt (service : String) (calls : List (Call V)) (key : Key) (labelValues : List String) :
    List (Recording V) :=
  (calls.filter fun c => c.key service = key ∧ c.labelValues = labelValues).map Call.recording

def recorded (calls : List (Call V)) (kind : Kind) (name : String) (labelValues : List String) :
    List (Recording V) :=
  (calls.filter fun c => c.kind = kind ∧ c.name = name ∧ c.labelValues = labelValues).map
    Call.recording

/-- For every name that was used, what is shown is what was recorded under it, and nothing else is
shown. -/
structure Shows (service : String) (calls : List (Call V)) (m : Metrics V) : Prop where
  exact : ∀ c ∈ calls, ∀ labelValues,
    m.shown (c.key service) labelValues = recorded calls c.kind c.name labelValues
  only : ∀ key labelValues, m.shown key labelValues ≠ [] → ∃ c ∈ calls, c.key service = key

/-- No call panics, and then the export is right. -/
def Faithful (service : String) (calls : List (Call V)) : Prop :=
  ∃ m, (system accepts service).exec (.new service) calls = some m ∧ Shows service calls m

/-- The full names are valid, the label names that a vector is made with are accepted, and calls
with the same full name have the same kind, the same name and equally many labels. -/
structure Sound (service : String) (calls : List (Call V)) : Prop where
  valid : ∀ c ∈ calls, validName (fullName service c.name)
  accepted : ∀ key c, calls.find? (fun d => d.key service = key) = some c → accepts c.labelNames
  agree : ∀ c ∈ calls, ∀ d ∈ calls, fullName service c.name = fullName service d.name →
    c.kind = d.kind ∧ c.name = d.name ∧ c.labelNames.length = d.labelNames.length

def Fits (calls : List (Call V)) : Prop :=
  ∀ c ∈ calls, c.labelValues.length = c.labelNames.length

variable {accepts} {service : String} {calls : List (Call V)} {c : Call V} {m m' : Metrics V}
  {key : Key} {vec : MetricVec V}

theorem Metrics.lookUp_eq (m : Metrics V) (c : Call V) :
    m.lookUp accepts c = m.getOrCreate accepts c.kind c.name c.labelNames := by
  unfold Metrics.lookUp
  split <;> rename_i hkind <;> rw [hkind] <;> rfl

@[simp] theorem Metrics.put_self : (m.put key vec).vecs key = some vec := Function.update_self ..

theorem Metrics.put_of_ne {key' : Key} (h : key' ≠ key) : (m.put key vec).vecs key' = m.vecs key' :=
  Function.update_of_ne h ..

@[simp] theorem Metrics.register_service : (m.register key).service = m.service := by
  unfold Metrics.register
  split_ifs <;> rfl

@[simp] theorem Metrics.register_vecs : (m.register key).vecs = m.vecs := by
  unfold Metrics.register
  split_ifs <;> rfl

theorem Metrics.mem_register {key' : Key} (h : key' ∈ (m.register key).registry) :
    key' ∈ m.registry ∨ key' = key ∧ ∀ other ∈ m.registry, other.2 ≠ key.2 := by
  unfold Metrics.register at h
  split_ifs at h with hother
  · exact .inl h
  · rcases List.mem_append.1 h with h | h
    · exact .inl h
    · exact .inr ⟨List.mem_singleton.1 h, fun other hmem heq => hother ⟨other, hmem, heq⟩⟩

theorem MetricVec.new_eq_some {name help : String} {labelNames : List String} :
    MetricVec.new accepts name help labelNames = some vec ↔
      (validName name ∧ accepts labelNames) ∧ vec = ⟨name, help, labelNames, fun _ => []⟩ := by
  unfold MetricVec.new
  by_cases h : validName name = true ∧ accepts labelNames = true
  · simp [h, eq_comm]
  · simp [h]

theorem MetricVec.record_eq_some {vec' : MetricVec V} {labelValues : List String}
    {r : Recording V} :
    vec.record labelValues r = some vec' ↔ labelValues.length = vec.labelNames.length ∧
      vec' = { vec with
        metrics := Function.update vec.metrics labelValues (vec.metrics labelValues ++ [r]) } := by
  unfold MetricVec.record
  by_cases h : labelValues.length = vec.labelNames.length
  · simp [h, eq_comm]
  · simp [h]

end Rszero.BusinessMetrics
