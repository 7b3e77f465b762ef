import Rszero.BreakerHistory

/-!
# What a recovery leaves behind

A recovery through probes returns to the closed state and keeps the window, where a reset clears
it. So a later failure is judged on the outage as well, as long as an outcome recorded up to the
recovery is inside the window.
-/

namespace Rszero.Breaker

variable (cfg : BreakerConfig)

/-- The success recorded at `r` takes the breaker from half-open to closed. -/
def Recovers (pre : List Call) (r : ℕ) : Prop :=
  (evaluateState cfg r (run cfg pre)).1 = .halfOpen ∧
    (run cfg (pre ++ [⟨.recordSuccess, r⟩])).state = .closed

/-- A failure recorded at `now`, after a recovery at `r` and the calls `post`, opens the closed
breaker exactly on the outcomes recorded since that recovery. -/
def FreshStart (pre : List Call) (r : ℕ) (post : List Call) (now : ℕ) : Prop :=
  Recovers cfg pre r → (run cfg (pre ++ [⟨.recordSuccess, r⟩] ++ post)).state = .closed →
    ((run cfg (pre ++ [⟨.recordSuccess, r⟩] ++ post ++ [⟨.recordFailure, now⟩])).state = .open ↔
      Evidence cfg (inWindow cfg now (recorded (post ++ [⟨.recordFailure, now⟩]))))

theorem inWindow_append (now : ℕ) (es fs : List WindowEntry) :
    inWindow cfg now (es ++ fs) = inWindow cfg now es ++ inWindow cfg now fs := by
  simp [inWindow]

/-- A reset separates the outcomes before it from those after it. -/
theorem recorded_append (cs ds : List Call) : recorded (cs ++ ds) =
    if ∃ c ∈ ds, c.op = .reset then recorded ds else recorded cs ++ recorded ds := by
  induction ds using List.reverseRecOn with
  | nil => simp [recorded]
  | append_singleton ds d ih =>
      obtain ⟨op, now⟩ := d
      rw [← List.append_assoc, recorded_concat, recorded_concat, ih]
      by_cases hr : ∃ c ∈ ds, c.op = .reset
      · cases op <;> simp [note, hr]
      · cases op <;> simp [note, hr]

theorem inWindow_eq_nil {cs : List Call} {r now : ℕ}
    (hr : Nondecreasing (cs ++ [⟨.recordSuccess, r⟩])) (hold : r + cfg.window < now) :
    inWindow cfg now (recorded (cs ++ [⟨.recordSuccess, r⟩])) = [] := by
  apply List.filter_eq_nil_iff.2
  intro e he
  obtain ⟨c, hc, heq⟩ := recorded_timestamps _ e he
  have hle : c.now ≤ r := by
    rcases List.mem_append.1 hc with hin | hin
    · exact (List.pairwise_append.1 hr).2.2 c hin ⟨.recordSuccess, r⟩ (by simp)
    · obtain rfl := List.mem_singleton.1 hin
      exact le_rfl
  simp only [decide_eq_true_eq]
  omega

/-- The recovery is a fresh start for the failures recorded more than `window` after it, and for
those that a reset separates from it. -/
theorem freshStart_of_window_passed (pre post : List Call) (r now : ℕ)
    (hmono : Nondecreasing (pre ++ [⟨.recordSuccess, r⟩] ++ post ++ [⟨.recordFailure, now⟩]))
    (hpast : r + cfg.window < now ∨ ∃ c ∈ post, c.op = .reset) :
    FreshStart cfg pre r post now := by
  intro _ hclosed
  rw [opens_iff_evidence cfg hmono hclosed, List.append_assoc, recorded_append]
  by_cases hreset : ∃ c ∈ post ++ [⟨Op.recordFailure, now⟩], c.op = .reset
  · rw [if_pos hreset]
  · have hold : r + cfg.window < now := by
      refine hpast.resolve_right (fun ⟨c, hc, hop⟩ => hreset ⟨c, by simp [hc], hop⟩)
    have hpre : Nondecreasing (pre ++ [⟨.recordSuccess, r⟩]) :=
      (List.pairwise_append.1 (List.pairwise_append.1 hmono).1).1
    rw [if_neg hreset, inWindow_append, inWindow_eq_nil cfg hpre hold, List.nil_append]

def oneProbe : BreakerConfig := ⟨1 / 2, 2, 10, 1, 60⟩

theorem freshStart_of_window_passed_at_seventyOne :
    FreshStart oneProbe [⟨.recordFailure, 0⟩, ⟨.recordFailure, 0⟩] 10 [] 71 :=
  freshStart_of_window_passed oneProbe _ _ _ _ (by decide) (by decide)

/-- Two failures open the breaker, a success at 10 closes it again, and the single failure at 11
re-opens it although two requests are required: the outage is still in the window. -/
theorem not_freshStart_one_failure :
    Recovers oneProbe [⟨.recordFailure, 0⟩, ⟨.recordFailure, 0⟩] 10 ∧
    ¬ FreshStart oneProbe [⟨.recordFailure, 0⟩, ⟨.recordFailure, 0⟩] 10 [] 11 := by
  have hrec : Recovers oneProbe [⟨.recordFailure, 0⟩, ⟨.recordFailure, 0⟩] 10 :=
    ⟨by decide +kernel, by decide +kernel⟩
  have hopen : (run oneProbe ([⟨.recordFailure, 0⟩, ⟨.recordFailure, 0⟩] ++
      [⟨.recordSuccess, 10⟩] ++ [] ++ [⟨.recordFailure, 11⟩])).state = .open := by decide +kernel
  have hfew : ¬ Evidence oneProbe
      (inWindow oneProbe 11 (recorded ([] ++ [⟨.recordFailure, 11⟩]))) := by decide +kernel
  exact ⟨hrec, fun h => hfew ((h hrec hrec.2).1 hopen)⟩

end Rszero.Breaker
