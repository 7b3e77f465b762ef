import Mathlib.Data.List.Basic
import Mathlib.Data.List.Pairwise
import Mathlib.Order.Basic
import Mathlib.Order.Lattice
import Mathlib.Tactic.Common

/-!
# A stream with a consumer group

The entries of a stream have increasing identifiers. A group hands out the entries after the last
one that it delivered, and keeps what it delivered in its pending entries list until that is
acknowledged; a pending entry may be claimed by another consumer. A group that is created at the end
of a stream is handed none of the entries that are there.
-/

namespace Rszero

structure Pending (ι κ : Type*) where
  id : ι
  consumer : κ

structure ConsumerGroup (ι κ : Type*) where
  lastDelivered : Option ι
  pending : List (Pending ι κ)

variable {ι κ α : Type*}

/-- An identifier that no bound on it forbids. -/
def After [LT ι] (last : Option ι) (id : ι) : Prop := ∀ l, last = some l → l < id

instance [LinearOrder ι] (last : Option ι) (id : ι) : Decidable (After last id) :=
  match last with
  | none => .isTrue (fun _ h => by cases h)
  | some l => decidable_of_iff (l < id) ⟨fun h _ hl => Option.some.inj hl ▸ h, fun h => h l rfl⟩

theorem not_after_iff [LinearOrder ι] {last : Option ι} {id : ι} :
    ¬ After last id ↔ ∃ l, last = some l ∧ id ≤ l := by
  simp [After]

theorem after_some_iff [LT ι] {l id : ι} : After (some l) id ↔ l < id := by
  simp [After]

/-- The group has delivered entries of the stream only, and nothing after the last of them is
pending. -/
structure RedisStream (ι κ α : Type*) [LinearOrder ι] where
  entries : List (ι × α)
  group : Option (ConsumerGroup ι κ)
  increasing : entries.Pairwise (fun e e' => e.1 < e'.1)
  delivered : ∀ g, group = some g → ∀ l, g.lastDelivered = some l → l ∈ entries.map Prod.fst
  read : ∀ g, group = some g → ∀ p ∈ g.pending, ¬ After g.lastDelivered p.id

namespace RedisStream

variable [LinearOrder ι] (s : RedisStream ι κ α)

def empty : RedisStream ι κ α := ⟨[], none, .nil, nofun, nofun⟩

def lastId : Option ι := s.entries.getLast?.map Prod.fst

/-- The pending entries list. -/
def pel : List (Pending ι κ) := (s.group.map ConsumerGroup.pending).getD []

def unread (g : ConsumerGroup ι κ) : List (ι × α) :=
  s.entries.filter (fun e => After g.lastDelivered e.1)

/-- `XADD` gives an entry an identifier above all others. -/
def xadd (id : ι) (a : α) : Option (RedisStream ι κ α) :=
  if h : ∀ e ∈ s.entries, e.1 < id then
    some {
      entries := s.entries ++ [(id, a)]
      group := s.group
      increasing := List.pairwise_append.2 ⟨s.increasing, List.pairwise_singleton .., by
        intro e he e' he'
        rw [List.mem_singleton.1 he']
        exact h e he⟩
      delivered := fun g hg l hl => by
        rw [List.map_append]
        exact List.mem_append_left _ (s.delivered g hg l hl)
      read := s.read }
  else none

/-- `XGROUP CREATE .. $`, with no effect on a group that is there. -/
def xgroupCreate : RedisStream ι κ α :=
  match hg : s.group with
  | some _ => s
  | none =>
      { entries := s.entries
        group := some ⟨s.lastId, []⟩
        increasing := s.increasing
        delivered := fun g hg l hl => by
          obtain rfl := Option.some.inj hg
          obtain ⟨e, he, rfl⟩ := Option.map_eq_some_iff.1 hl
          exact List.mem_map_of_mem (List.mem_of_getLast? he)
        read := fun g hg p hp => by
          obtain rfl := Option.some.inj hg
          cases hp }

/-- `XREADGROUP .. COUNT 1 .. >`, which reads nothing where the group is missing. -/
def xreadgroup (consumer : κ) : Option (ι × α) × RedisStream ι κ α :=
  match hg : s.group with
  | none => (none, s)
  | some g =>
      match he : (s.unread g).head? with
      | none => (none, s)
      | some e => (some e,
          { entries := s.entries
            group := some ⟨some e.1, g.pending ++ [⟨e.1, consumer⟩]⟩
            increasing := s.increasing
            delivered := fun g' hg' l hl => by
              obtain rfl := Option.some.inj hg'
              obtain rfl := Option.some.inj hl
              exact List.mem_map_of_mem (List.mem_filter.1 (List.mem_of_head? he)).1
            read := fun g' hg' p hp => by
              obtain rfl := Option.some.inj hg'
              rw [not_after_iff]
              refine ⟨e.1, rfl, ?_⟩
              have hafter : After g.lastDelivered e.1 := by
                simpa using (List.mem_filter.1 (List.mem_of_head? he)).2
              rcases List.mem_append.1 hp with hp | hp
              · obtain ⟨l, hl, hle⟩ := not_after_iff.1 (s.read g hg p hp)
                exact hle.trans (hafter l hl).le
              · rw [List.mem_singleton.1 hp] })

/-- The group with each pending entry changed or removed. -/
def setPending (f : Pending ι κ → Option (Pending ι κ))
    (hf : ∀ p p', f p = some p' → p'.id = p.id) : RedisStream ι κ α where
  entries := s.entries
  group := s.group.map (fun g => { g with pending := g.pending.filterMap f })
  increasing := s.increasing
  delivered := fun g hg l hl => by
    obtain ⟨g', hg', rfl⟩ := Option.map_eq_some_iff.1 hg
    exact s.delivered g' hg' l hl
  read := fun g hg p hp => by
    obtain ⟨g', hg', rfl⟩ := Option.map_eq_some_iff.1 hg
    obtain ⟨p', hp', hfp⟩ := List.mem_filterMap.1 hp
    exact hf p' p hfp ▸ s.read g' hg' p' hp'

/-- `XACK` -/
def xack (id : ι) : RedisStream ι κ α :=
  s.setPending (fun p => if p.id = id then none else some p) (fun p p' h => by
    split_ifs at h
    exact congrArg Pending.id (Option.some.inj h).symm)

/-- The pending entries that have been idle long enough, as many of them as are asked for. -/
def claimable (minIdle count : ℕ) (idle : ι → ℕ) : List ι :=
  ((s.pel.filter (fun p => minIdle ≤ idle p.id)).take count).map Pending.id

/-- `XAUTOCLAIM .. 0 COUNT count`, where `idle` tells how long each entry has been idle. -/
def xautoclaim (consumer : κ) (minIdle count : ℕ) (idle : ι → ℕ) :
    List (ι × α) × RedisStream ι κ α :=
  (s.entries.filter (fun e => e.1 ∈ s.claimable minIdle count idle),
    s.setPending
      (fun p => some ⟨p.id, if p.id ∈ s.claimable minIdle count idle then consumer else p.consumer⟩)
      (fun _ _ h => Option.some.inj h ▸ rfl))

variable {s}

theorem pel_setPending {f : Pending ι κ → Option (Pending ι κ)}
    {hf : ∀ p p', f p = some p' → p'.id = p.id} : (s.setPending f hf).pel = s.pel.filterMap f := by
  cases hg : s.group <;> simp [pel, setPending, hg]

@[simp] theorem pel_xack (id : ι) : (s.xack id).pel = s.pel.filter (fun p => p.id ≠ id) := by
  rw [xack, pel_setPending, ← List.filterMap_eq_filter]
  apply List.filterMap_congr
  intro p _
  by_cases hp : p.id = id <;> simp [Option.guard, hp]

theorem pel_xadd {id : ι} {a : α} {s' : RedisStream ι κ α} (h : s.xadd id a = some s') :
    s'.pel = s.pel := by
  unfold xadd at h
  split_ifs at h
  exact Option.some.inj h ▸ rfl

@[simp] theorem pel_xgroupCreate : s.xgroupCreate.pel = s.pel := by
  unfold xgroupCreate
  split
  · rfl
  · simp [pel, *]

theorem pel_ids_xautoclaim (consumer : κ) (minIdle count : ℕ) (idle : ι → ℕ) :
    (s.xautoclaim consumer minIdle count idle).2.pel.map Pending.id = s.pel.map Pending.id := by
  rw [xautoclaim, pel_setPending, List.filterMap_eq_map', List.map_map]
  rfl

theorem mem_pel_iff {p : Pending ι κ} : p ∈ s.pel ↔ ∃ g, s.group = some g ∧ p ∈ g.pending := by
  cases hg : s.group <;> simp [pel, hg]

/-- What a reader is handed has not been pending, and is from then on. -/
theorem xreadgroup_eq_some {consumer : κ} {e : ι × α} {s' : RedisStream ι κ α}
    (h : s.xreadgroup consumer = (some e, s')) : ∃ g, s.group = some g ∧
      (s.unread g).head? = some e ∧ s'.entries = s.entries ∧
      s'.group = some ⟨some e.1, g.pending ++ [⟨e.1, consumer⟩]⟩ := by
  unfold xreadgroup at h
  split at h
  · cases h
  · split at h
    · cases h
    · cases h
      exact ⟨_, ‹_›, ‹_›, rfl, rfl⟩

theorem xreadgroup_eq_none {consumer : κ} {s' : RedisStream ι κ α}
    (h : s.xreadgroup consumer = (none, s')) : s' = s := by
  unfold xreadgroup at h
  split at h
  · cases h
    rfl
  · split at h
    · cases h
      rfl
    · cases h

theorem pel_xreadgroup {consumer : κ} {e : ι × α} {s' : RedisStream ι κ α}
    (h : s.xreadgroup consumer = (some e, s')) : s'.pel = s.pel ++ [⟨e.1, consumer⟩] := by
  obtain ⟨g, hg, -, -, hg'⟩ := xreadgroup_eq_some h
  simp [pel, hg, hg']

def Delivered (s : RedisStream ι κ α) (id : ι) : Prop :=
  ∃ g, s.group = some g ∧ ¬ After g.lastDelivered id

theorem delivered_of_mem_pel {p : Pending ι κ} (hp : p ∈ s.pel) : s.Delivered p.id := by
  obtain ⟨g, hg, hp⟩ := mem_pel_iff.1 hp
  exact ⟨g, hg, s.read g hg p hp⟩

theorem Delivered.xadd {id id' : ι} {a : α} {s' : RedisStream ι κ α} (h : s.Delivered id)
    (hadd : s.xadd id' a = some s') : s'.Delivered id := by
  obtain ⟨g, hg, hid⟩ := h
  unfold RedisStream.xadd at hadd
  split_ifs at hadd
  obtain rfl := Option.some.inj hadd
  exact ⟨g, hg, hid⟩

theorem Delivered.xgroupCreate {id : ι} (h : s.Delivered id) : s.xgroupCreate.Delivered id := by
  obtain ⟨g, hg, hid⟩ := h
  unfold RedisStream.xgroupCreate
  split
  · exact ⟨g, hg, hid⟩
  · rename_i hnone
    rw [hnone] at hg
    cases hg

theorem Delivered.xautoclaim {id : ι} (h : s.Delivered id) (consumer : κ) (minIdle count : ℕ)
    (idle : ι → ℕ) : (s.xautoclaim consumer minIdle count idle).2.Delivered id := by
  obtain ⟨g, hg, hid⟩ := h
  exact ⟨_, Option.map_eq_some_iff.2 ⟨g, hg, rfl⟩, hid⟩

theorem Delivered.xack {id : ι} (h : s.Delivered id) (id' : ι) : (s.xack id').Delivered id := by
  obtain ⟨g, hg, hid⟩ := h
  exact ⟨_, Option.map_eq_some_iff.2 ⟨g, hg, rfl⟩, hid⟩

theorem mem_pel_of_mem_claimable {minIdle count : ℕ} {idle : ι → ℕ} {id : ι}
    (h : id ∈ s.claimable minIdle count idle) : id ∈ s.pel.map Pending.id := by
  obtain ⟨p, hp, rfl⟩ := List.mem_map.1 h
  exact List.mem_map_of_mem (List.mem_filter.1 (List.mem_of_mem_take hp)).1

theorem mem_claimable_iff {minIdle count : ℕ} {idle : ι → ℕ} {id : ι}
    (hcount : s.pel.length ≤ count) :
    id ∈ s.claimable minIdle count idle ↔ id ∈ s.pel.map Pending.id ∧ minIdle ≤ idle id := by
  have hall := List.take_of_length_le
    ((List.length_filter_le (fun p : Pending ι κ => minIdle ≤ idle p.id) s.pel).trans hcount)
  rw [claimable, hall]
  simp only [List.mem_map, List.mem_filter, decide_eq_true_eq]
  constructor
  · rintro ⟨p, ⟨hp, hidle⟩, rfl⟩
    exact ⟨⟨p, hp, rfl⟩, hidle⟩
  · rintro ⟨⟨p, hp, rfl⟩, hidle⟩
    exact ⟨p, ⟨hp, hidle⟩, rfl⟩

/-- An entry is delivered once. -/
theorem delivered_xreadgroup {consumer : κ} {e : ι × α} {s' : RedisStream ι κ α}
    (h : s.xreadgroup consumer = (some e, s')) :
    ¬ s.Delivered e.1 ∧ s'.Delivered e.1 ∧ ∀ id, s.Delivered id → s'.Delivered id := by
  obtain ⟨g, hg, he, -, hg'⟩ := xreadgroup_eq_some h
  have hafter : After g.lastDelivered e.1 :=
    of_decide_eq_true (List.mem_filter.1 (List.mem_of_head? he)).2
  refine ⟨?_, ⟨_, hg', by simp [After]⟩, ?_⟩
  · rintro ⟨g', hgroup, hid⟩
    obtain rfl := Option.some.inj (hg.symm.trans hgroup)
    exact hid hafter
  · rintro id ⟨g', hgroup, hid⟩
    obtain rfl := Option.some.inj (hg.symm.trans hgroup)
    obtain ⟨l, hl, hle⟩ := not_after_iff.1 hid
    exact ⟨_, hg', not_after_iff.2 ⟨e.1, rfl, hle.trans (hafter l hl).le⟩⟩

/-- The group has been handed no entry that comes later. -/
theorem after_of_lt {g : ConsumerGroup ι κ} (hg : s.group = some g) {id : ι}
    (hid : ∀ e ∈ s.entries, e.1 < id) : After g.lastDelivered id := by
  intro l hl
  obtain ⟨e, he, rfl⟩ := List.mem_map.1 (s.delivered g hg l hl)
  exact hid e he

theorem xadd_eq_some {id : ι} {a : α} {s' : RedisStream ι κ α} (h : s.xadd id a = some s') :
    s'.entries = s.entries ++ [(id, a)] ∧ s'.group = s.group ∧
      ∀ g, s.group = some g → s'.unread g = s.unread g ++ [(id, a)] := by
  unfold xadd at h
  split_ifs at h with hid
  obtain rfl := Option.some.inj h
  refine ⟨rfl, rfl, fun g hg => ?_⟩
  simp [unread, after_of_lt hg hid]

theorem lt_of_xadd {id : ι} {a : α} {s' : RedisStream ι κ α} (h : s.xadd id a = some s') :
    ∀ e ∈ s.entries, e.1 < id := by
  unfold xadd at h
  split_ifs at h with hid
  exact hid

/-- The entries in order are those up to the last one and none after it. -/
theorem le_lastId {e : ι × α} (he : e ∈ s.entries) {l : ι} (hl : s.lastId = some l) : e.1 ≤ l := by
  obtain ⟨e', he', rfl⟩ := Option.map_eq_some_iff.1 hl
  obtain ⟨rest, hrest⟩ := List.getLast?_eq_some_iff.1 he'
  have hincreasing := s.increasing
  rw [hrest, List.pairwise_append] at hincreasing
  rw [hrest, List.mem_append, List.mem_singleton] at he
  rcases he with he | rfl
  · exact (hincreasing.2.2 e he e' (List.mem_singleton_self e')).le
  · exact le_refl _

/-- A group that is there stays as it is, a new one has nothing to read. -/
theorem xgroupCreate_spec (s : RedisStream ι κ α) : s.xgroupCreate.entries = s.entries ∧
    (∀ g, s.group = some g → s.xgroupCreate.group = some g) ∧
    (s.group = none → s.xgroupCreate.group = some ⟨s.lastId, []⟩ ∧
      s.unread ⟨s.lastId, []⟩ = []) := by
  have hempty : s.unread ⟨s.lastId, []⟩ = [] := by
    rw [unread, List.filter_eq_nil_iff]
    intro e he hafter
    cases hlast : s.lastId with
    | some l =>
        rw [hlast] at hafter
        have hlt : l < e.1 := of_decide_eq_true hafter l rfl
        exact absurd hlt (not_lt_of_ge (le_lastId he hlast))
    | none =>
        have hnil : s.entries = [] := by simpa [lastId] using hlast
        rw [hnil] at he
        cases he
  unfold xgroupCreate
  split
  · rename_i g hg
    refine ⟨rfl, fun _ hg' => hg', fun hnone => ?_⟩
    rw [hnone] at hg
    cases hg
  · rename_i hnone
    refine ⟨rfl, fun g hg => ?_, fun _ => ⟨rfl, hempty⟩⟩
    rw [hnone] at hg
    cases hg

/-- Reading takes the first unread entry. -/
theorem unread_xreadgroup {consumer : κ} {e : ι × α} {s' : RedisStream ι κ α}
    (h : s.xreadgroup consumer = (some e, s')) : ∃ g g', s.group = some g ∧ s'.group = some g' ∧
      s.unread g = e :: s'.unread g' := by
  obtain ⟨g, hg, he, hentries, hg'⟩ := xreadgroup_eq_some h
  obtain ⟨rest, hrest⟩ := List.head?_eq_some_iff.1 he
  refine ⟨g, _, hg, hg', ?_⟩
  have hincreasing : (e :: rest).Pairwise (fun e e' => e.1 < e'.1) :=
    hrest ▸ s.increasing.filter _
  have hafter : After g.lastDelivered e.1 :=
    of_decide_eq_true (List.mem_filter.1 (List.mem_of_head? he)).2
  have hread : s'.unread ⟨some e.1, g.pending ++ [⟨e.1, consumer⟩]⟩ =
      (s.unread g).filter (fun e' => e.1 < e'.1) := by
    rw [unread, unread, hentries, List.filter_filter]
    apply List.filter_congr
    intro e' _
    rw [Bool.eq_iff_iff, Bool.and_eq_true]
    simp only [decide_eq_true_eq, after_some_iff]
    exact ⟨fun hlt => ⟨hlt, fun l hl => (hafter l hl).trans hlt⟩, fun h => h.1⟩
  rw [hread, hrest, List.filter_cons_of_neg (by simp), List.filter_eq_self.2]
  intro e' he'
  simpa using (List.pairwise_cons.1 hincreasing).1 e' he'

theorem xreadgroup_eq_none_iff {consumer : κ} :
    (s.xreadgroup consumer).1 = none ↔ ∀ g, s.group = some g → s.unread g = [] := by
  unfold xreadgroup
  split
  · rename_i hnone
    refine iff_of_true rfl (fun g hg => ?_)
    rw [hnone] at hg
    cases hg
  · rename_i g hg
    split
    · rename_i hnil
      refine iff_of_true rfl (fun g' hg' => ?_)
      obtain rfl := Option.some.inj (hg.symm.trans hg')
      exact List.head?_eq_none_iff.1 hnil
    · rename_i e he
      refine iff_of_false nofun (fun h => ?_)
      rw [h g hg] at he
      cases he

inductive Fate
  | unread
  | pending
  deriving DecidableEq

/-- Whether the entry is still to be read or is pending; nothing for one that is neither. -/
def fate (s : RedisStream ι κ α) (id : ι) : Option Fate :=
  match s.group with
  | none => none
  | some g =>
      if id ∈ (s.unread g).map Prod.fst then some .unread
      else if id ∈ g.pending.map Pending.id then some .pending
      else none

theorem fate_of_group {g : ConsumerGroup ι κ} (hg : s.group = some g) (id : ι) :
    s.fate id = if id ∈ (s.unread g).map Prod.fst then some .unread
      else if id ∈ g.pending.map Pending.id then some .pending else none := by
  rw [fate, hg]

/-- What is unread is not pending. -/
theorem not_mem_unread {g : ConsumerGroup ι κ} (hg : s.group = some g) {p : Pending ι κ}
    (hp : p ∈ g.pending) : p.id ∉ (s.unread g).map Prod.fst := by
  intro hmem
  obtain ⟨e, he, heq⟩ := List.mem_map.1 hmem
  have hafter : After g.lastDelivered e.1 := of_decide_eq_true (List.mem_filter.1 he).2
  exact s.read g hg p hp (heq ▸ hafter)

theorem fate_eq_pending_iff {id : ι} :
    s.fate id = some .pending ↔ id ∈ s.pel.map Pending.id := by
  cases hg : s.group with
  | none => simp [fate, pel, hg]
  | some g =>
      have hpel : s.pel = g.pending := by simp [pel, hg]
      rw [fate_of_group hg, hpel]
      split_ifs with hunread hpending
      · refine iff_of_false nofun (fun hmem => ?_)
        obtain ⟨p, hp, rfl⟩ := List.mem_map.1 hmem
        exact not_mem_unread hg hp hunread
      · exact iff_of_true rfl hpending
      · exact iff_of_false nofun hpending

theorem fate_xadd {id : ι} {a : α} {s' : RedisStream ι κ α} (h : s.xadd id a = some s') (id' : ι) :
    s'.fate id' = if id' = id ∧ s.group.isSome then some .unread else s.fate id' := by
  obtain ⟨-, hgroup, hunread⟩ := xadd_eq_some h
  cases hg : s.group with
  | none => simp [fate, hgroup, hg]
  | some g =>
      rw [fate_of_group (hgroup.trans hg), fate_of_group hg, hunread g hg, List.map_append,
        List.map_singleton]
      by_cases hid : id' = id
      · rw [if_pos (List.mem_append_right _ (List.mem_singleton.2 hid)), if_pos ⟨hid, rfl⟩]
      · rw [if_neg (fun h : id' = id ∧ _ => hid h.1)]
        simp only [List.mem_append, List.mem_singleton, hid, or_false]

theorem fate_xgroupCreate (id : ι) : s.xgroupCreate.fate id = s.fate id := by
  obtain ⟨hentries, hsome, hnone⟩ := xgroupCreate_spec s
  cases hg : s.group with
  | none =>
      obtain ⟨hgroup, hunread⟩ := hnone hg
      have hnil : s.xgroupCreate.unread ⟨s.lastId, []⟩ = [] := by
        rw [unread, hentries]
        exact hunread
      rw [fate_of_group hgroup, hnil, fate, hg]
      rfl
  | some g =>
      have hsame : s.xgroupCreate.unread g = s.unread g := by rw [unread, hentries, unread]
      rw [fate_of_group (hsome g hg), fate_of_group hg, hsame]

/-- A reader takes an unread entry, which is pending from then on. -/
theorem fate_xreadgroup {consumer : κ} {e : ι × α} {s' : RedisStream ι κ α}
    (h : s.xreadgroup consumer = (some e, s')) : s.fate e.1 = some .unread ∧
      ∀ id, s'.fate id = if id = e.1 then some .pending else s.fate id := by
  obtain ⟨g, g', hg, hg', hunread⟩ := unread_xreadgroup h
  have hfate : s.fate e.1 = some .unread := by
    rw [fate_of_group hg, hunread, if_pos (by simp)]
  have hpel := pel_xreadgroup h
  refine ⟨hfate, fun id => ?_⟩
  split_ifs with hid
  · rw [hid, fate_eq_pending_iff, hpel]
    simp
  · have hs' : s'.pel = g'.pending := by simp [pel, hg']
    have hs : s.pel = g.pending := by simp [pel, hg]
    rw [hs', hs] at hpel
    rw [fate_of_group hg', fate_of_group hg, hunread, hpel]
    simp only [List.map_append, List.map_cons, List.map_nil, List.mem_append, List.mem_cons,
      List.not_mem_nil, hid, or_false, false_or]

theorem fate_setPending {f : Pending ι κ → Option (Pending ι κ)}
    {hf : ∀ p p', f p = some p' → p'.id = p.id} (id : ι) : (s.setPending f hf).fate id =
      if s.fate id = some .pending ∧ id ∉ (s.pel.filterMap f).map Pending.id then none
      else s.fate id := by
  cases hg : s.group with
  | none => simp [fate, setPending, hg]
  | some g =>
      have hg' : (s.setPending f hf).group = some { g with pending := g.pending.filterMap f } :=
        congrArg (Option.map _) hg
      have hpel : s.pel = g.pending := by simp [pel, hg]
      have hunread : (s.setPending f hf).unread { g with pending := g.pending.filterMap f } =
          s.unread g := rfl
      have hsub : id ∈ (g.pending.filterMap f).map Pending.id → id ∈ g.pending.map Pending.id := by
        intro hmem
        obtain ⟨p', hp', rfl⟩ := List.mem_map.1 hmem
        obtain ⟨p, hp, hfp⟩ := List.mem_filterMap.1 hp'
        exact hf p p' hfp ▸ List.mem_map_of_mem hp
      rw [fate_of_group hg', fate_of_group hg, hunread, hpel]
      by_cases hu : id ∈ (s.unread g).map Prod.fst
      · simp [hu]
      · by_cases hp : id ∈ (g.pending.filterMap f).map Pending.id
        · simp only [hu, hp, hsub hp, if_false, if_true, not_true_eq_false, and_false]
        · by_cases hold : id ∈ g.pending.map Pending.id <;> simp only [hu, hp, hold, if_false,
            if_true, not_false_eq_true, and_true, reduceCtorEq]

theorem fate_xack (id id' : ι) : (s.xack id).fate id' =
    if id' = id ∧ s.fate id = some .pending then none else s.fate id' := by
  have hpel := pel_xack (s := s) id
  rw [xack, pel_setPending] at hpel
  rw [xack, fate_setPending, hpel]
  by_cases hid : id' = id
  · subst hid
    simp
  · have hmem : s.fate id' = some .pending → id' ∈ (s.pel.filter (fun p => p.id ≠ id)).map
        Pending.id := by
      intro hfate
      obtain ⟨p, hp, rfl⟩ := List.mem_map.1 (fate_eq_pending_iff.1 hfate)
      exact List.mem_map_of_mem (List.mem_filter.2 ⟨hp, by simpa using hid⟩)
    rw [if_neg (fun h => h.2 (hmem h.1)), if_neg (fun h => hid h.1)]

theorem fate_xautoclaim (consumer : κ) (minIdle count : ℕ) (idle : ι → ℕ) (id : ι) :
    (s.xautoclaim consumer minIdle count idle).2.fate id = s.fate id := by
  rw [xautoclaim, fate_setPending, if_neg]
  rintro ⟨hfate, hnot⟩
  refine hnot ?_
  rw [List.filterMap_eq_map', List.map_map]
  exact fate_eq_pending_iff.1 hfate

end RedisStream
end Rszero
