import Mathlib.Data.List.Induction
import Mathlib.Order.Lattice

/-!
# Rings of nodes

Nodes with owners stand on a ring. A position belongs to the owner of the node that is met first
clockwise from it, and to the lowest of them where nodes of several owners stand together. Nodes of
one more owner take positions from the others and move none between them. A scan that keeps the
least distance seen so far finds the owner, also when its distances are taken by a subtraction that
wraps around at a larger modulus than that of the ring.
-/

namespace Rszero.HashRing

/-- How far it is from `p` to `q` clockwise on a ring of `m` positions. -/
def clockwise (m p q : ℕ) : ℕ := (m - p + q) % m

section Clockwise

variable {m p q r : ℕ}

theorem clockwise_of_le (hq : q < m) (h : p ≤ q) : clockwise m p q = q - p := by
  have hsum : m - p + q = q - p + m := by omega
  rw [clockwise, hsum, Nat.add_mod_right, Nat.mod_eq_of_lt (by omega)]

theorem clockwise_of_lt (hp : p < m) (h : q < p) : clockwise m p q = m - (p - q) := by
  rw [clockwise, Nat.mod_eq_of_lt (by omega)]
  omega

/-- Which node is met first does not depend on the modulus, as long as all positions are below. -/
theorem clockwise_lt_clockwise_iff {m' : ℕ} (hm : m ≤ m') (hp : p < m) (hq : q < m) (hr : r < m) :
    clockwise m' p q < clockwise m' p r ↔ clockwise m p q < clockwise m p r := by
  have hp' : p < m' := Nat.lt_of_lt_of_le hp hm
  have hq' : q < m' := Nat.lt_of_lt_of_le hq hm
  have hr' : r < m' := Nat.lt_of_lt_of_le hr hm
  rcases Nat.lt_or_ge q p with hqp | hqp <;> rcases Nat.lt_or_ge r p with hrp | hrp
  · rw [clockwise_of_lt hp hqp, clockwise_of_lt hp hrp, clockwise_of_lt hp' hqp,
      clockwise_of_lt hp' hrp]
    omega
  · rw [clockwise_of_lt hp hqp, clockwise_of_le hr hrp, clockwise_of_lt hp' hqp,
      clockwise_of_le hr' hrp]
    omega
  · rw [clockwise_of_le hq hqp, clockwise_of_lt hp hrp, clockwise_of_le hq' hqp,
      clockwise_of_lt hp' hrp]
    omega
  · rw [clockwise_of_le hq hqp, clockwise_of_le hr hrp, clockwise_of_le hq' hqp,
      clockwise_of_le hr' hrp]

end Clockwise

variable {α ι δ δ' : Type*} [LinearOrder ι] [LinearOrder δ] [LinearOrder δ'] {owner : α → ι}
  {d : α → δ} {nodes : List α} {i j : ι}

/-- `i` owns a node that is as near as any, and nearer than those of the owners before `i`. -/
def Nearest (owner : α → ι) (d : α → δ) (nodes : List α) (i : ι) : Prop :=
  ∃ x ∈ nodes, owner x = i ∧ ∀ y ∈ nodes, d x ≤ d y ∧ (owner y < i → d x < d y)

theorem Nearest.unique (hi : Nearest owner d nodes i) (hj : Nearest owner d nodes j) : i = j := by
  obtain ⟨x, hx, rfl, hxmin⟩ := hi
  obtain ⟨y, hy, rfl, hymin⟩ := hj
  rcases lt_trichotomy (owner x) (owner y) with hlt | heq | hgt
  · exact absurd ((hymin x hx).2 hlt) (hxmin y hy).1.not_gt
  · exact heq
  · exact absurd ((hxmin y hy).2 hgt) (hymin x hx).1.not_gt

/-- Only the order of the distances matters. -/
theorem Nearest.congr {d' : α → δ'}
    (h : ∀ x ∈ nodes, ∀ y ∈ nodes, d x < d y ↔ d' x < d' y) (hi : Nearest owner d nodes i) :
    Nearest owner d' nodes i := by
  obtain ⟨x, hx, hown, hmin⟩ := hi
  refine ⟨x, hx, hown, fun y hy => ⟨?_, fun hlt => (h x hx y hy).1 ((hmin y hy).2 hlt)⟩⟩
  have hle := (hmin y hy).1
  rw [← not_lt] at hle ⊢
  exact fun hlt => hle ((h y hy x hx).2 hlt)

/-- The nodes of a new owner take positions from the others, and move none between them. -/
theorem Nearest.of_append {new : List α} (hnew : ∀ y ∈ new, owner y = j)
    (h : Nearest owner d (nodes ++ new) i) : i = j ∨ Nearest owner d nodes i := by
  obtain ⟨x, hx, hown, hmin⟩ := h
  rcases List.mem_append.1 hx with hold | hadd
  · exact .inr ⟨x, hold, hown, fun y hy => hmin y (List.mem_append_left new hy)⟩
  · exact .inl (hown ▸ hnew x hadd)

def keepNearer (owner : α → ι) (d : α → δ) (best : ι × δ) (x : α) : ι × δ :=
  if d x < best.2 then (owner x, d x) else best

theorem nearest_append_of_lt {b : δ} {z : α} (hfar : ∀ y ∈ nodes, b ≤ d y) (hlt : d z < b) :
    ∀ y ∈ nodes ++ [z], d z ≤ d y ∧ (owner y < owner z → d z < d y) := by
  intro y hy
  rcases List.mem_append.1 hy with hy | hy
  · have hzy : d z < d y := hlt.trans_le (hfar y hy)
    exact ⟨hzy.le, fun _ => hzy⟩
  · rw [List.mem_singleton.1 hy]
    exact ⟨le_rfl, fun h => absurd h (lt_irrefl _)⟩

/-- The nodes come in the order of their owners. Either none is nearer than what the scan began
with, or it ends with the first of the nearest. -/
theorem scan_cases (best : ι × δ) (hsorted : nodes.Pairwise (fun x y => owner x ≤ owner y)) :
    (nodes.foldl (keepNearer owner d) best = best ∧ ∀ y ∈ nodes, best.2 ≤ d y) ∨
      ∃ x ∈ nodes, nodes.foldl (keepNearer owner d) best = (owner x, d x) ∧ d x < best.2 ∧
        ∀ y ∈ nodes, d x ≤ d y ∧ (owner y < owner x → d x < d y) := by
  induction nodes using List.reverseRecOn with
  | nil => exact .inl ⟨rfl, nofun⟩
  | append_singleton nodes z ih =>
      obtain ⟨hinit, -, hlast⟩ := List.pairwise_append.1 hsorted
      rw [List.foldl_append, List.foldl_cons, List.foldl_nil]
      rcases ih hinit with ⟨hbest, hfar⟩ | ⟨x, hx, hbest, hnear, hmin⟩
      · rw [hbest, keepNearer]
        by_cases hlt : d z < best.2
        · exact .inr ⟨z, by simp, if_pos hlt, hlt, nearest_append_of_lt hfar hlt⟩
        · left
          refine ⟨if_neg hlt, fun y hy => ?_⟩
          rcases List.mem_append.1 hy with hy | hy
          · exact hfar y hy
          · exact List.mem_singleton.1 hy ▸ not_lt.1 hlt
      · right
        rw [hbest, keepNearer]
        by_cases hlt : d z < d x
        · exact ⟨z, by simp, if_pos hlt, hlt.trans hnear,
            nearest_append_of_lt (fun y hy => (hmin y hy).1) hlt⟩
        · refine ⟨x, by simp [hx], if_neg hlt, hnear, fun y hy => ?_⟩
          rcases List.mem_append.1 hy with hy | hy
          · exact hmin y hy
          · -- a later node is no nearer, and its owner does not come before
            rw [List.mem_singleton.1 hy]
            exact ⟨not_lt.1 hlt, fun h => absurd (hlast x hx z (by simp)) (not_le.2 h)⟩

/-- A scan that begins with an owner that has a node, at a distance that no node exceeds, ends with
the owner of the nearest node, when nobody comes before the one that it began with. -/
theorem nearest_scan {best : ι × δ} (hsorted : nodes.Pairwise (fun x y => owner x ≤ owner y))
    (howner : ∃ x ∈ nodes, owner x = best.1) (hleast : ∀ y ∈ nodes, best.1 ≤ owner y)
    (hmax : ∀ y ∈ nodes, d y ≤ best.2) :
    Nearest owner d nodes (nodes.foldl (keepNearer owner d) best).1 := by
  rcases scan_cases best hsorted with ⟨hbest, hfar⟩ | ⟨x, hx, hbest, -, hmin⟩
  · obtain ⟨x, hx, hown⟩ := howner
    rw [hbest]
    refine ⟨x, hx, hown, fun y hy => ⟨?_, fun h => absurd (hleast y hy) (not_le.2 h)⟩⟩
    exact (hmax x hx).trans (hfar y hy)
  · rw [hbest]
    exact ⟨x, hx, rfl, hmin⟩

end Rszero.HashRing
