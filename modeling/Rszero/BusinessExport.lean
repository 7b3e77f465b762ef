import Mathlib.Data.List.Basic
import Mathlib.Data.List.Induction
import Rszero.BusinessMetrics

/-!
# What the business metrics export

A run that does not panic records every call at its key. The export shows the keys that are
registered, so it is right if and only if every key is registered and is that of one name only.
-/

namespace Rszero.BusinessMetrics

variable {V : Type} {accepts : List String → Bool} {service : String} {calls : List (Call V)}
  {c d : Call V} {m m' : Metrics V} {key : Key} {vec : MetricVec V}

/-- What a run without a panic leaves behind. -/
structure Invariant (accepts : List String → Bool) (service : String) (calls : List (Call V))
    (m : Metrics V) : Prop where
  service_eq : m.service = service
  origin : ∀ key vec, m.vecs key = some vec → ∃ c ∈ calls, c.key service = key
  called : ∀ c ∈ calls, ∃ vec, m.vecs (c.key service) = some vec
  metrics : ∀ key vec, m.vecs key = some vec →
    ∀ labelValues, vec.metrics labelValues = recordedAt service calls key labelValues
  labels : ∀ key vec, m.vecs key = some vec → ∀ c ∈ calls, c.key service = key →
    c.labelValues.length = vec.labelNames.length
  names : ∀ key ∈ m.registry, ∃ vec, m.vecs key = some vec ∧ vec.name = key.2
  valid : ∀ key ∈ m.registry, validName key.2
  accepted : ∀ key ∈ m.registry, ∃ c, calls.find? (fun d => d.key service = key) = some c ∧
    accepts c.labelNames
  unique : ∀ key ∈ m.registry, ∀ key' ∈ m.registry, key.2 = key'.2 → key = key'

/-- The vector that a call finds or makes, and the metrics with it. -/
structure Found (accepts : List String → Bool) (m : Metrics V) (key : Key)
    (labelNames : List String) (vec : MetricVec V) (m₁ : Metrics V) : Prop where
  service_eq : m₁.service = m.service
  found : m₁.vecs key = some vec
  others : ∀ key', key' ≠ key → m₁.vecs key' = m.vecs key'
  fresh : m.vecs key = some vec ∨ m.vecs key = none ∧ ∀ labelValues, vec.metrics labelValues = []
  registry : ∀ key' ∈ m₁.registry, key' ∈ m.registry ∨
    key' = key ∧ m.vecs key = none ∧ vec.name = key.2 ∧ validName key.2 ∧ accepts labelNames ∧
      ∀ other ∈ m.registry, other.2 ≠ key.2
  kept : ∀ key' ∈ m.registry, key' ∈ m₁.registry

theorem Metrics.subset_register {key' : Key} (h : key' ∈ m.registry) :
    key' ∈ (m.register key).registry := by
  unfold Metrics.register
  split_ifs
  · exact h
  · exact List.mem_append_left _ h

theorem Found.of_none {m₁ : Metrics V} {labelNames : List String} (hnone : m.vecs key = none)
    (hvec : ∀ labelValues, vec.metrics labelValues = [])
    (hvecs : m₁.vecs = m.vecs) (hservice : m₁.service = m.service)
    (hregistry : ∀ key' ∈ m₁.registry, key' ∈ m.registry ∨
      key' = key ∧ m.vecs key = none ∧ vec.name = key.2 ∧ validName key.2 ∧ accepts labelNames ∧
        ∀ other ∈ m.registry, other.2 ≠ key.2)
    (hkept : ∀ key' ∈ m.registry, key' ∈ m₁.registry) :
    Found accepts m key labelNames vec (m₁.put key vec) where
  service_eq := hservice
  found := Metrics.put_self
  others := by
    intro key' hne
    rw [Metrics.put_of_ne hne, hvecs]
  fresh := .inr ⟨hnone, hvec⟩
  registry := hregistry
  kept := hkept

theorem MetricVec.metrics_of_new {name help : String} {labelNames labelValues : List String}
    (h : MetricVec.new accepts name help labelNames = some vec) : vec.metrics labelValues = [] := by
  rw [(MetricVec.new_eq_some.1 h).2]

theorem Kind.metrics_of_fallback {kind : Kind} {labelValues : List String}
    (h : kind.fallback accepts = some vec) : vec.metrics labelValues = [] := by
  unfold Kind.fallback at h
  cases hfirst : MetricVec.new accepts kind.fallbackName "fallback" [] with
  | some first =>
      rw [hfirst] at h
      exact Option.some.inj h ▸ MetricVec.metrics_of_new hfirst
  | none =>
      rw [hfirst] at h
      exact MetricVec.metrics_of_new h

theorem found_of_getOrCreate {kind : Kind} {name : String} {labelNames : List String}
    {m₁ : Metrics V} (h : m.getOrCreate accepts kind name labelNames = some (vec, m₁)) :
    Found accepts m (kind, fullName m.service name) labelNames vec m₁ := by
  unfold Metrics.getOrCreate at h
  dsimp only at h
  split at h
  · next vec' hvecs =>
      cases h
      exact ⟨rfl, hvecs, fun _ _ => rfl, .inl hvecs, fun _ h => .inl h, fun _ h => h⟩
  · next hvecs =>
      split at h
      · next vec' hnew =>
          cases h
          obtain ⟨⟨hvalid, haccepts⟩, hvec⟩ := MetricVec.new_eq_some.1 hnew
          refine .of_none hvecs (fun _ => MetricVec.metrics_of_new hnew) Metrics.register_vecs
            Metrics.register_service ?_ (fun _ => Metrics.subset_register)
          intro key' hkey'
          rcases Metrics.mem_register hkey' with hold | ⟨rfl, hfree⟩
          · exact .inl hold
          · exact .inr ⟨rfl, hvecs, by rw [hvec], hvalid, haccepts, hfree⟩
      · obtain ⟨vec', hfallback, heq⟩ := Option.map_eq_some_iff.1 h
        cases heq
        exact .of_none hvecs (fun _ => Kind.metrics_of_fallback hfallback) rfl rfl
          (fun _ h => .inl h) (fun _ h => h)

theorem Metrics.step_eq_some (h : m.step accepts c = some m') :
    ∃ vec m₁ vec', Found accepts m (c.key m.service) c.labelNames vec m₁ ∧
      vec.record c.labelValues c.recording = some vec' ∧ m' = m₁.put (c.key m.service) vec' := by
  obtain ⟨⟨vec, m₁⟩, hlookUp, h⟩ := Option.bind_eq_some_iff.1 h
  obtain ⟨vec', hrecord, h⟩ := Option.bind_eq_some_iff.1 h
  rw [Metrics.lookUp_eq] at hlookUp
  have hfound := found_of_getOrCreate hlookUp
  refine ⟨vec, m₁, vec', hfound, hrecord, ?_⟩
  rw [← hfound.service_eq]
  exact (Option.some.inj h).symm

theorem recordedAt_concat (labelValues : List String) :
    recordedAt service (calls ++ [c]) key labelValues = recordedAt service calls key labelValues ++
      if c.key service = key ∧ c.labelValues = labelValues then [c.recording] else [] := by
  unfold recordedAt
  rw [List.filter_append, List.map_append]
  split_ifs with h <;> simp [h]

theorem recordedAt_eq_nil (h : ∀ d ∈ calls, d.key service ≠ key) (labelValues : List String) :
    recordedAt service calls key labelValues = [] := by
  unfold recordedAt
  rw [List.map_eq_nil_iff, List.filter_eq_nil_iff]
  intro d hd
  simp [h d hd]

theorem Invariant.init : Invariant accepts service [] (Metrics.new service : Metrics V) := by
  constructor <;> simp [Metrics.new]

theorem Invariant.uncalled (h : Invariant accepts service calls m) (hnone : m.vecs key = none) :
    ∀ d ∈ calls, d.key service ≠ key := by
  rintro d hd rfl
  obtain ⟨vec, hvec⟩ := h.called d hd
  rw [hvec] at hnone
  cases hnone

theorem find?_concat (h : ∀ d ∈ calls, d.key service ≠ c.key service) :
    (calls ++ [c]).find? (fun d => d.key service = c.key service) = some c := by
  rw [List.find?_append, List.find?_eq_none.2 (fun d hd => by simp [h d hd])]
  simp

theorem Found.put_of_ne {labelNames : List String} {m₁ : Metrics V} {key' : Key}
    (h : Found accepts m key labelNames vec m₁) (hne : key' ≠ key) (vec' : MetricVec V) :
    (m₁.put key vec').vecs key' = m.vecs key' := by
  rw [Metrics.put_of_ne hne, h.others key' hne]

section Step

variable {m₁ : Metrics V} {vec' : MetricVec V} (h : Invariant accepts service calls m)
  (hfound : Found accepts m (c.key service) c.labelNames vec m₁)
  (hrecord : vec.record c.labelValues c.recording = some vec')

include h hfound

theorem Invariant.metrics_found (labelValues : List String) :
    vec.metrics labelValues = recordedAt service calls (c.key service) labelValues := by
  rcases hfound.fresh with hvec | ⟨hnone, hempty⟩
  · exact h.metrics _ vec hvec labelValues
  · rw [hempty, recordedAt_eq_nil (h.uncalled hnone)]

theorem Invariant.step_called (d : Call V) (hd : d ∈ calls ++ [c]) :
    ∃ vec, (m₁.put (c.key service) vec').vecs (d.key service) = some vec := by
  by_cases hkey : d.key service = c.key service
  · rw [hkey]
    exact ⟨vec', Metrics.put_self⟩
  · rw [hfound.put_of_ne hkey]
    rcases List.mem_append.1 hd with hd | hd
    · exact h.called d hd
    · exact absurd (by rw [List.mem_singleton.1 hd]) hkey

theorem Invariant.step_registry {key : Key} (hkey : key ∈ m₁.registry) :
    validName key.2 ∧ ∃ d, (calls ++ [c]).find? (fun d => d.key service = key) = some d ∧
      accepts d.labelNames := by
  rcases hfound.registry key hkey with hold | ⟨rfl, hnone, -, hvalid, haccepts, -⟩
  · obtain ⟨d, hd, haccepts⟩ := h.accepted key hold
    exact ⟨h.valid key hold, d, by rw [List.find?_append, hd]; rfl, haccepts⟩
  · exact ⟨hvalid, c, find?_concat (h.uncalled hnone), haccepts⟩

theorem Invariant.step_unique {key key' : Key} (hkey : key ∈ m₁.registry)
    (hkey' : key' ∈ m₁.registry) (heq : key.2 = key'.2) : key = key' := by
  rcases hfound.registry key hkey with hold | ⟨rfl, -, -, -, -, hfree⟩
  · rcases hfound.registry key' hkey' with hold' | ⟨rfl, -, -, -, -, hfree⟩
    · exact h.unique key hold key' hold' heq
    · exact absurd heq (hfree key hold)
  · rcases hfound.registry key' hkey' with hold' | ⟨rfl, -⟩
    · exact absurd heq.symm (hfree key' hold')
    · rfl

include hrecord

/-- The vectors after the call, seen with the call. -/
theorem Invariant.step_vec {key : Key} {vec'' : MetricVec V}
    (hvec : (m₁.put (c.key service) vec').vecs key = some vec'') :
    (∃ d ∈ calls ++ [c], d.key service = key) ∧
      (∀ labelValues, vec''.metrics labelValues =
        recordedAt service (calls ++ [c]) key labelValues) ∧
      ∀ d ∈ calls ++ [c], d.key service = key → d.labelValues.length = vec''.labelNames.length := by
  obtain ⟨hlength, rfl⟩ := MetricVec.record_eq_some.1 hrecord
  by_cases hkey : key = c.key service
  · subst hkey
    obtain rfl := Option.some.inj (Metrics.put_self.symm.trans hvec)
    refine ⟨⟨c, by simp, rfl⟩, ?_, ?_⟩
    · intro labelValues
      have hmetrics := h.metrics_found hfound labelValues
      rw [recordedAt_concat, ← hmetrics]
      by_cases hvalues : c.labelValues = labelValues
      · simp [hvalues]
      · simp [Function.update_of_ne (Ne.symm hvalues), hvalues]
    · intro d hd hdkey
      rcases List.mem_append.1 hd with hd | hd
      · rcases hfound.fresh with hold | ⟨hnone, -⟩
        · exact h.labels _ vec hold d hd hdkey
        · exact absurd hdkey (h.uncalled hnone d hd)
      · rwa [List.mem_singleton.1 hd]
  · rw [hfound.put_of_ne hkey] at hvec
    obtain ⟨d, hd, hdkey⟩ := h.origin key vec'' hvec
    refine ⟨⟨d, by simp [hd], hdkey⟩, ?_, ?_⟩
    · intro labelValues
      rw [recordedAt_concat, if_neg (fun hc => hkey hc.1.symm), List.append_nil]
      exact h.metrics key vec'' hvec labelValues
    · intro d hd hdkey
      rcases List.mem_append.1 hd with hd | hd
      · exact h.labels key vec'' hvec d hd hdkey
      · rw [List.mem_singleton.1 hd] at hdkey
        exact absurd hdkey.symm hkey

theorem Invariant.step_names {key : Key} (hkey : key ∈ m₁.registry) :
    ∃ vec, (m₁.put (c.key service) vec').vecs key = some vec ∧ vec.name = key.2 := by
  obtain ⟨-, rfl⟩ := MetricVec.record_eq_some.1 hrecord
  by_cases heq : key = c.key service
  · subst heq
    refine ⟨_, Metrics.put_self, ?_⟩
    rcases hfound.registry _ hkey with hold | ⟨-, -, hname, -⟩
    · obtain ⟨vec', hvec', hname⟩ := h.names _ hold
      rcases hfound.fresh with hvec | ⟨hnone, -⟩
      · rwa [← Option.some.inj (hvec'.symm.trans hvec)]
      · cases hnone.symm.trans hvec'
    · exact hname
  · rw [hfound.put_of_ne heq]
    rcases hfound.registry key hkey with hold | ⟨rfl, -⟩
    · exact h.names key hold
    · exact absurd rfl heq

end Step

theorem Invariant.step (h : Invariant accepts service calls m)
    (hstep : m.step accepts c = some m') : Invariant accepts service (calls ++ [c]) m' := by
  obtain ⟨vec, m₁, vec', hfound, hrecord, rfl⟩ := Metrics.step_eq_some hstep
  rw [h.service_eq] at hfound ⊢
  exact {
    service_eq := hfound.service_eq.trans h.service_eq
    origin := fun key vec'' hvec => (h.step_vec hfound hrecord hvec).1
    called := h.step_called hfound
    metrics := fun key vec'' hvec => (h.step_vec hfound hrecord hvec).2.1
    labels := fun key vec'' hvec => (h.step_vec hfound hrecord hvec).2.2
    names := fun key hkey => h.step_names hfound hrecord hkey
    valid := fun key hkey => (h.step_registry hfound hkey).1
    accepted := fun key hkey => (h.step_registry hfound hkey).2
    unique := fun key hkey key' hkey' heq => h.step_unique hfound hkey hkey' heq }

theorem Invariant.exec (h : (system accepts service).exec (.new service) calls = some m) :
    Invariant accepts service calls m := by
  induction calls using List.reverseRecOn generalizing m with
  | nil => exact Option.some.inj h ▸ Invariant.init
  | append_singleton calls c ih =>
      obtain ⟨m₀, hcalls, hc⟩ := (system accepts service).exec_append_eq_some.1 h
      obtain ⟨m', hstep, heq⟩ := (system accepts service).exec_cons_eq_some.1 hc
      rw [← Option.some.inj heq]
      exact (ih hcalls).step hstep

/-- What is shown is what was recorded at the key, if it is registered. -/
theorem Invariant.shown_eq (h : Invariant accepts service calls m) (key : Key)
    (labelValues : List String) :
    m.shown key labelValues =
      if key ∈ m.registry then recordedAt service calls key labelValues else [] := by
  unfold Metrics.shown
  cases hfind : m.families.find? (fun family => family.1 = key.1 ∧ family.2.name = key.2) with
  | some family =>
      obtain ⟨key', hkey', hfamily⟩ := List.mem_filterMap.1 (List.mem_of_find?_eq_some hfind)
      obtain ⟨vec, hvec, rfl⟩ := Option.map_eq_some_iff.1 hfamily
      obtain ⟨vec', hvec', hname⟩ := h.names key' hkey'
      obtain rfl := Option.some.inj (hvec.symm.trans hvec')
      have hmatch := List.find?_some hfind
      simp only [decide_eq_true_eq] at hmatch
      obtain rfl : key' = key := Prod.ext hmatch.1 (hname.symm.trans hmatch.2)
      rw [if_pos hkey']
      exact h.metrics _ vec hvec labelValues
  | none =>
      rw [if_neg]
      intro hkey
      obtain ⟨vec, hvec, hname⟩ := h.names key hkey
      have hfamily : (key.1, vec) ∈ m.families :=
        List.mem_filterMap.2 ⟨key, hkey, by rw [hvec]; rfl⟩
      have hnone := List.find?_eq_none.1 hfind _ hfamily
      simp [hname] at hnone

theorem exists_of_recordedAt_ne_nil {labelValues : List String}
    (h : recordedAt service calls key labelValues ≠ []) : ∃ c ∈ calls, c.key service = key := by
  by_contra hnone
  push Not at hnone
  exact h (recordedAt_eq_nil hnone labelValues)

theorem mem_recorded (hc : c ∈ calls) : c.recording ∈ recorded calls c.kind c.name c.labelValues :=
  List.mem_map_of_mem (List.mem_filter.2 ⟨hc, by simp⟩)

/-- If a filter of a list is as long as a weaker one, then the two are met by the same elements. -/
theorem of_length_filter_eq {α : Type} {p q : α → Bool} {l : List α} (hpq : ∀ a, p a → q a)
    (h : (l.filter p).length = (l.filter q).length) {a : α} (ha : a ∈ l) (hq : q a) : p a := by
  have hsub : (l.filter p).Sublist (l.filter q) :=
    List.monotone_filter_right l (fun a hp => hpq a hp)
  have hmem : a ∈ l.filter p := by
    rw [hsub.eq_of_length h]
    exact List.mem_filter.2 ⟨ha, hq⟩
  exact (List.mem_filter.1 hmem).2

/-- A call with the same full name that has another name is shown under a name that did not
record it. -/
theorem name_eq_of_recorded (hd : d ∈ calls) (hkey : d.key service = c.key service)
    (h : recordedAt service calls (c.key service) d.labelValues =
      recorded calls c.kind c.name d.labelValues) : d.name = c.name := by
  have hlength := congrArg List.length h.symm
  simp only [recordedAt, recorded, List.length_map] at hlength
  have hname := of_length_filter_eq (a := d) ?_ hlength hd (by simp [hkey])
  · simp only [decide_eq_true_eq] at hname
    exact hname.2.1
  · intro e he
    simp only [decide_eq_true_eq] at he ⊢
    exact ⟨by rw [Call.key, Call.key, he.1, he.2.1], he.2.2⟩

theorem Sound.recordedAt_eq (h : Sound accepts service calls) (hc : c ∈ calls)
    (labelValues : List String) :
    recordedAt service calls (c.key service) labelValues =
      recorded calls c.kind c.name labelValues := by
  unfold recordedAt recorded
  congr 1
  apply List.filter_congr
  intro d hd
  simp only [decide_eq_decide, ← and_assoc, and_congr_left_iff]
  intro _
  constructor
  · intro hkey
    have hagree := h.agree d hd c hc (congrArg Prod.snd hkey)
    exact ⟨hagree.1, hagree.2.1⟩
  · rintro ⟨hkind, hname⟩
    rw [Call.key, Call.key, hkind, hname]

theorem Sound.of_concat (h : Sound accepts service (calls ++ [c])) :
    Sound accepts service calls where
  valid d hd := h.valid d (List.mem_append_left _ hd)
  accepted key d hd := h.accepted key d (by rw [List.find?_append, hd]; rfl)
  agree d hd e he := h.agree d (List.mem_append_left _ hd) e (List.mem_append_left _ he)

theorem sound_of_faithful (hfits : Fits calls) (h : Faithful accepts service calls) :
    Sound accepts service calls := by
  obtain ⟨m, hm, hshows⟩ := h
  have hinv := Invariant.exec hm
  have hregistered (c : Call V) (hc : c ∈ calls) : c.key service ∈ m.registry := by
    by_contra hkey
    have hexact := hshows.exact c hc c.labelValues
    rw [hinv.shown_eq, if_neg hkey] at hexact
    exact List.not_mem_nil (hexact ▸ mem_recorded hc)
  refine ⟨fun c hc => hinv.valid _ (hregistered c hc), ?_, ?_⟩
  · intro key c hfind
    have hc := List.mem_of_find?_eq_some hfind
    have hkey := List.find?_some hfind
    simp only [decide_eq_true_eq] at hkey
    obtain ⟨d, hd, haccepts⟩ := hinv.accepted key (hkey ▸ hregistered c hc)
    rwa [Option.some.inj (hfind.symm.trans hd)]
  · intro c hc d hd hname
    have hkey : d.key service = c.key service :=
      hinv.unique _ (hregistered d hd) _ (hregistered c hc) hname.symm
    have hexact := hshows.exact c hc d.labelValues
    rw [hinv.shown_eq, if_pos (hregistered c hc)] at hexact
    refine ⟨congrArg Prod.fst hkey.symm, (name_eq_of_recorded hd hkey hexact).symm, ?_⟩
    obtain ⟨vec, hvec⟩ := hinv.called c hc
    have hlabels := hinv.labels _ vec hvec c hc rfl
    have hlabels' := hinv.labels _ vec hvec d hd hkey
    rw [← hfits c hc, ← hfits d hd, hlabels, hlabels']

theorem Metrics.lookUp_of_some (h : m.vecs (c.key m.service) = some vec) :
    m.lookUp accepts c = some (vec, m) := by
  rw [Metrics.lookUp_eq, Metrics.getOrCreate]
  rw [Call.key] at h
  simp only [h]

theorem Metrics.lookUp_of_new (h : m.vecs (c.key m.service) = none)
    (hnew : MetricVec.new accepts (c.key m.service).2 (c.kind.help c.name) c.labelNames =
      some vec) :
    m.lookUp accepts c = some (vec, (m.register (c.key m.service)).put (c.key m.service) vec) := by
  rw [Metrics.lookUp_eq, Metrics.getOrCreate]
  rw [Call.key] at h hnew ⊢
  simp only [h, hnew]

/-- A sound call finds the vector of its key or makes one that is registered. -/
theorem Sound.exists_lookUp (h : Sound accepts service (calls ++ [c])) (hfits : Fits (calls ++ [c]))
    (hinv : Invariant accepts service calls m)
    (hregistered : ∀ key vec, m.vecs key = some vec → key ∈ m.registry) :
    ∃ vec m₁, m.lookUp accepts c = some (vec, m₁) ∧
      c.labelValues.length = vec.labelNames.length ∧
      ∀ key vec, m₁.vecs key = some vec → key ∈ m₁.registry := by
  have hc : c ∈ calls ++ [c] := by simp
  have hservice := hinv.service_eq
  cases hvec : m.vecs (c.key service) with
  | some vec =>
      obtain ⟨d, hd, hdkey⟩ := hinv.origin _ vec hvec
      have hd' : d ∈ calls ++ [c] := List.mem_append_left _ hd
      have hlabels : c.labelValues.length = vec.labelNames.length := by
        rw [← hinv.labels _ vec hvec d hd hdkey, hfits c hc, hfits d hd']
        exact (h.agree c hc d hd' (congrArg Prod.snd hdkey.symm)).2.2
      rw [← hservice] at hvec
      exact ⟨vec, m, Metrics.lookUp_of_some hvec, hlabels, hregistered⟩
  | none =>
      have hfind := find?_concat (hinv.uncalled hvec)
      have hnew : MetricVec.new (V := V) accepts (c.key service).2 (c.kind.help c.name)
          c.labelNames = some ⟨_, _, _, fun _ => []⟩ :=
        MetricVec.new_eq_some.2 ⟨⟨h.valid c hc, h.accepted _ c hfind⟩, rfl⟩
      have hlookUp := Metrics.lookUp_of_new (m := m) (by rwa [hservice]) (by rwa [hservice])
      rw [hservice] at hlookUp
      refine ⟨_, _, hlookUp, hfits c hc, ?_⟩
      have hfree : ¬ ∃ other ∈ m.registry, other.2 = (c.key service).2 := by
        rintro ⟨other, hother, heq⟩
        obtain ⟨vec, hold, -⟩ := hinv.names other hother
        obtain ⟨d, hd, rfl⟩ := hinv.origin other vec hold
        have hagree := h.agree d (List.mem_append_left _ hd) c hc heq
        exact hinv.uncalled hvec d hd (by rw [Call.key, Call.key, hagree.1, hagree.2.1])
      intro key vec hkey
      change key ∈ (m.register (c.key service)).registry
      rw [Metrics.register, if_neg hfree]
      by_cases heq : key = c.key service
      · exact List.mem_append_right _ (by simp [heq])
      · rw [Metrics.put_of_ne heq, Metrics.register_vecs] at hkey
        exact List.mem_append_left _ (hregistered key vec hkey)

theorem Sound.exists_step (h : Sound accepts service (calls ++ [c])) (hfits : Fits (calls ++ [c]))
    (hinv : Invariant accepts service calls m)
    (hregistered : ∀ key vec, m.vecs key = some vec → key ∈ m.registry) :
    ∃ m', m.step accepts c = some m' ∧ ∀ key vec, m'.vecs key = some vec → key ∈ m'.registry := by
  obtain ⟨vec, m₁, hlookUp, hlabels, hregistered₁⟩ := h.exists_lookUp hfits hinv hregistered
  have hfound := found_of_getOrCreate ((Metrics.lookUp_eq m c).symm.trans hlookUp)
  have hrecord := (MetricVec.record_eq_some (r := c.recording)).2 ⟨hlabels, rfl⟩
  refine ⟨_, Option.bind_eq_some_iff.2 ⟨_, hlookUp,
    Option.bind_eq_some_iff.2 ⟨_, hrecord, rfl⟩⟩, ?_⟩
  intro key vec' hkey
  by_cases heq : key = c.key m₁.service
  · rw [heq, hfound.service_eq]
    exact hregistered₁ _ vec hfound.found
  · rw [Metrics.put_of_ne heq] at hkey
    exact hregistered₁ key vec' hkey

theorem Sound.exists_exec (h : Sound accepts service calls) (hfits : Fits calls) :
    ∃ m, (system accepts service).exec (.new service) calls = some m ∧
      ∀ key vec, m.vecs key = some vec → key ∈ m.registry := by
  induction calls using List.reverseRecOn with
  | nil => exact ⟨.new service, rfl, nofun⟩
  | append_singleton calls c ih =>
      have hfits' : Fits calls := fun d hd => hfits d (List.mem_append_left _ hd)
      obtain ⟨m, hm, hregistered⟩ := ih h.of_concat hfits'
      obtain ⟨m', hstep, hregistered'⟩ := h.exists_step hfits (.exec hm) hregistered
      have hlast : (system accepts service).exec m [c] = some m' :=
        (system accepts service).exec_cons_eq_some.2 ⟨m', hstep, rfl⟩
      exact ⟨m', (system accepts service).exec_append hm hlast, hregistered'⟩

/-- Of calls that pass a value for every label, no one panics and the export shows what was
recorded if and only if the calls are sound. -/
theorem faithful_iff_sound (accepts : List String → Bool) (service : String) (calls : List (Call V))
    (hfits : Fits calls) : Faithful accepts service calls ↔ Sound accepts service calls := by
  constructor
  · exact sound_of_faithful hfits
  · intro h
    obtain ⟨m, hm, hregistered⟩ := h.exists_exec hfits
    have hinv := Invariant.exec hm
    refine ⟨m, hm, ?_, ?_⟩
    · intro c hc labelValues
      obtain ⟨vec, hvec⟩ := hinv.called c hc
      rw [hinv.shown_eq, if_pos (hregistered _ vec hvec)]
      exact h.recordedAt_eq hc labelValues
    · intro key labelValues hne
      rw [hinv.shown_eq] at hne
      split_ifs at hne
      · exact exists_of_recordedAt_ne_nil hne
      · exact absurd rfl hne

def placed : Call ℕ := ⟨"orders.placed", ["region"], ["us-east"], .counterInc⟩

def orderCalls : List (Call ℕ) :=
  [placed, ⟨"orders.placed", ["region"], ["eu-west"], .counterAdd 2⟩,
    ⟨"orders.open", ["region", "tier"], ["us-east", "gold"], .gaugeSet 3⟩,
    ⟨"orders.latency", [], [], .observe 7⟩]

theorem faithful_orderCalls : Faithful (fun _ => true) "orders" orderCalls := by
  have hfits : Fits orderCalls := by
    unfold Fits
    decide
  have hsound : Sound (fun _ => true) "orders" orderCalls :=
    ⟨by decide, fun _ _ _ => rfl, by decide⟩
  exact (faithful_iff_sound _ _ _ hfits).2 hsound

/-- The documented example: a service with a hyphen in its name. -/
theorem not_faithful_placed :
    Fits [placed] ∧ ¬ Faithful (fun _ => true) "order-service" [placed] := by
  refine ⟨List.forall_mem_singleton.2 rfl, ?_⟩
  rintro ⟨m, hm, -⟩
  cases hm

end Rszero.BusinessMetrics
