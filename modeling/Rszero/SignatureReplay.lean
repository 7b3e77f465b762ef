import Rszero.Signature

/-!
# Signed requests that come again

The middleware decides each request by itself, so a signed request reaches the handler as often as
it arrives while the clock is near its timestamp. The history variable keeps the arrivals.
-/

namespace Rszero.Signature

open Http

variable {Body : Type}

structure State (Body : Type) where
  now : ℕ
  passed : List (Request Body)

structure Arrival (Body : Type) where
  elapsed : ℕ
  request : Request Body

section System

variable (hash : String → UInt64) (json : SerdeJson Body) (config : SignatureConfig)

def State.next (s : State Body) (a : Arrival Body) : State Body where
  now := s.now + a.elapsed
  passed :=
    match verify hash json config (s.now + a.elapsed) a.request with
    | .ok () => a.request :: s.passed
    | .error _ => s.passed

def system : TransitionSystem (State Body) (Arrival Body) where
  init := ⟨0, []⟩
  step s a := some (s.next hash json config a)

def withArrivals : TransitionSystem (State Body × List (ℕ × Request Body)) (Arrival Body) :=
  (system hash json config).observe [] (fun seen _ a s' => (s'.now, a.request) :: seen)

end System

/-- The requests agree in all that is signed, and in the signature. -/
def SameSigned (config : SignatureConfig) (r r' : Request Body) : Prop :=
  r.method = r'.method ∧ r.uri.path = r'.uri.path ∧
    ∀ name ∈ [config.timestamp_header, config.nonce_header, config.signature_header],
      r.headers.get name = r'.headers.get name

def ReplayFree (config : SignatureConfig) (s : State Body) : Prop :=
  s.passed.Pairwise (fun r r' => ¬ SameSigned config r r')

/-- A correctly signed request that arrives near its timestamp has not arrived near it before. -/
def Unrepeated (hash : String → UInt64) (config : SignatureConfig)
    (x : State Body × List (ℕ × Request Body)) (a : Arrival Body) : Prop :=
  ∀ p, presented config a.request = some p → p.signature = p.expected hash config →
    InWindow config (x.1.now + a.elapsed) p.timestamp →
    ∀ e ∈ x.2, SameSigned config a.request e.2 → ¬ InWindow config e.1 p.timestamp

def Genuine (hash : String → UInt64) (config : SignatureConfig) (now : ℕ) (req : Request Body) :
    Prop :=
  ∃ p, presented config req = some p ∧ InWindow config now p.timestamp ∧
    p.signature = p.expected hash config

section Replay

variable {hash : String → UInt64} {json : SerdeJson Body} {config : SignatureConfig}

theorem verify_eq_ok_iff (json : SerdeJson Body) {now : ℕ} {req : Request Body} :
    verify hash json config now req = .ok () ↔ Genuine hash config now req := by
  unfold verify Genuine
  cases hp : presented config req with
  | none => simp
  | some p =>
      by_cases hwindow : InWindow config now p.timestamp
      · by_cases hsignature : p.signature = p.expected hash config
        · simp [hwindow, hsignature]
        · simp [hwindow, hsignature]
      · simp [hwindow]

theorem passed_next (hash : String → UInt64) (json : SerdeJson Body) (config : SignatureConfig)
    (s : State Body) (a : Arrival Body) :
    (Genuine hash config (s.now + a.elapsed) a.request ∧
        (s.next hash json config a).passed = a.request :: s.passed) ∨
      (¬ Genuine hash config (s.now + a.elapsed) a.request ∧
        (s.next hash json config a).passed = s.passed) := by
  unfold State.next
  cases hv : verify hash json config (s.now + a.elapsed) a.request with
  | ok u => exact .inl ⟨(verify_eq_ok_iff json).1 hv, rfl⟩
  | error res =>
      refine .inr ⟨fun h => ?_, rfl⟩
      exact nomatch hv.symm.trans ((verify_eq_ok_iff json).2 h)

theorem headerText_congr {r r' : Request Body} {name : String}
    (h : r.headers.get name = r'.headers.get name) : headerText r name = headerText r' name := by
  rw [headerText, headerText, h]

/-- Requests that agree in all that is signed are genuine at the same times. -/
theorem SameSigned.genuine_iff {r r' : Request Body} (h : SameSigned config r r') {p : Presented}
    (hp : presented config r = some p) (hsignature : p.signature = p.expected hash config)
    {now : ℕ} : Genuine hash config now r' ↔ InWindow config now p.timestamp := by
  obtain ⟨hmethod, hpath, hheaders⟩ := h
  obtain ⟨hm, hu, ht, hn, hs⟩ := presented_eq_some_iff.1 hp
  have htext (name : String)
      (hname : name ∈ [config.timestamp_header, config.nonce_header, config.signature_header]) :
      headerText r' name = headerText r name := headerText_congr (hheaders name hname).symm
  have hp' : presented config r' = some { p with method := r'.method, uri := r'.uri } :=
    presented_eq_some_iff.2 ⟨rfl, rfl, (htext _ (by simp)).trans ht, (htext _ (by simp)).trans hn,
      (htext _ (by simp)).trans hs⟩
  have hexpected : p.expected hash config =
      ({ p with method := r'.method, uri := r'.uri } : Presented).expected hash config := by
    simp only [Presented.expected, hm, hu, hmethod, hpath]
  constructor
  · rintro ⟨q, hq, hwindow, -⟩
    obtain rfl := Option.some.inj (hp'.symm.trans hq)
    exact hwindow
  · intro hwindow
    exact ⟨_, hp', hwindow, hsignature.trans hexpected⟩

structure Accounted (hash : String → UInt64) (config : SignatureConfig)
    (x : State Body × List (ℕ × Request Body)) : Prop where
  replayFree : ReplayFree config x.1
  mem_passed : ∀ r, r ∈ x.1.passed ↔ ∃ e ∈ x.2, e.2 = r ∧ Genuine hash config e.1 e.2

namespace Accounted

variable {x y : State Body × List (ℕ × Request Body)} {a : Arrival Body}

theorem initial : Accounted hash config (withArrivals hash json config).init where
  replayFree := List.Pairwise.nil
  mem_passed r := by simp [withArrivals, TransitionSystem.observe, system]

theorem mem_passed_next (h : Accounted hash config x)
    (hstep : (withArrivals hash json config).step x a = some y) (r : Request Body) :
    r ∈ y.1.passed ↔ ∃ e ∈ y.2, e.2 = r ∧ Genuine hash config e.1 e.2 := by
  obtain ⟨hnext, hseen⟩ := TransitionSystem.observe_step_eq_some.1 hstep
  have hy := Option.some.inj hnext
  rw [hseen, ← hy]
  simp only [List.mem_cons, exists_eq_or_imp]
  rcases passed_next hash json config x.1 a with ⟨hgenuine, hpassed⟩ | ⟨hnot, hpassed⟩
  · rw [hpassed, List.mem_cons, h.mem_passed]
    refine or_congr_left ?_
    constructor
    · rintro rfl
      exact ⟨rfl, hgenuine⟩
    · exact fun hr => hr.1.symm
  · rw [hpassed, h.mem_passed]
    exact (or_iff_right (fun hr => hnot hr.2)).symm

theorem next (h : Accounted hash config x) (hfresh : Unrepeated hash config x a)
    (hstep : (withArrivals hash json config).step x a = some y) : Accounted hash config y where
  replayFree := by
    have hy := Option.some.inj (TransitionSystem.observe_step_eq_some.1 hstep).1
    unfold ReplayFree
    rw [← hy]
    rcases passed_next hash json config x.1 a with ⟨hgenuine, hpassed⟩ | ⟨-, hpassed⟩
    · rw [hpassed, List.pairwise_cons]
      refine ⟨fun r hr hsame => ?_, h.replayFree⟩
      obtain ⟨p, hp, hwindow, hsignature⟩ := hgenuine
      obtain ⟨e, he, rfl, hgenuine'⟩ := (h.mem_passed r).1 hr
      exact hfresh p hp hsignature hwindow e he hsame
        ((hsame.genuine_iff hp hsignature).1 hgenuine')
    · rw [hpassed]
      exact h.replayFree
  mem_passed := h.mem_passed_next hstep

theorem not_next (h : Accounted hash config x) (hrepeated : ¬ Unrepeated hash config x a)
    (hstep : (withArrivals hash json config).step x a = some y) : ¬ ReplayFree config y.1 := by
  unfold Unrepeated at hrepeated
  push Not at hrepeated
  obtain ⟨p, hp, hsignature, hwindow, e, he, hsame, hwindow'⟩ := hrepeated
  have hy := Option.some.inj (TransitionSystem.observe_step_eq_some.1 hstep).1
  have hgenuine : Genuine hash config (x.1.now + a.elapsed) a.request :=
    ⟨p, hp, hwindow, hsignature⟩
  have hearlier : e.2 ∈ x.1.passed :=
    (h.mem_passed e.2).2 ⟨e, he, rfl, (hsame.genuine_iff hp hsignature).2 hwindow'⟩
  intro hfree
  unfold ReplayFree at hfree
  rw [← hy] at hfree
  rcases passed_next hash json config x.1 a with ⟨-, hpassed⟩ | ⟨hnot, -⟩
  · rw [hpassed, List.pairwise_cons] at hfree
    exact hfree.1 e.2 hearlier hsame
  · exact hnot hgenuine

end Accounted

/-- No signed request reaches the handler twice exactly when none arrives twice near its
timestamp. -/
theorem replayFree_iff (hash : String → UInt64) (json : SerdeJson Body) (config : SignatureConfig)
    (run : List (Arrival Body)) :
    (withArrivals hash json config).Throughout (fun x => ReplayFree config x.1)
        (withArrivals hash json config).init run ↔
      (withArrivals hash json config).Along (Unrepeated hash config)
        (withArrivals hash json config).init run := by
  obtain ⟨x, hexec⟩ := TransitionSystem.exists_exec_of_total (withArrivals hash json config)
    (fun _ _ => ⟨_, rfl⟩) (withArrivals hash json config).init run
  exact TransitionSystem.throughout_iff_along (fun x h => Accounted.replayFree h)
    (fun x a y h hfresh hstep => h.next hfresh hstep)
    (fun x a y h hrepeated hstep => h.not_next hrepeated hstep) Accounted.initial hexec

end Replay

def payment : Request Json where
  method := .post
  uri := ⟨none, none, "/pay", none⟩
  headers := [("x-timestamp", .ofText "1700000000" (by decide)),
    ("x-nonce", .ofText "n1" (by decide)),
    ("x-signature", .ofText "35eb9debf74e405e" (by decide))]
  body := .null

/-- A payment and, a minute later, the same payment. -/
theorem not_replayFree : ∃ s',
    (system (fun _ => 0x35eb9debf74e405e) default (.new "secret")).exec
        (system (fun _ => 0x35eb9debf74e405e) default (.new "secret")).init
        [⟨1700000000, payment⟩, ⟨60, payment⟩] = some s' ∧
      ¬ ReplayFree (.new "secret") s' := by
  refine ⟨_, rfl, fun hfree => ?_⟩
  have hpassed (s : State Json) (elapsed : ℕ)
      (hwindow : InWindow (.new "secret") (s.now + elapsed) "1700000000") :
      (s.next (fun _ => 0x35eb9debf74e405e) default (.new "secret") ⟨elapsed, payment⟩).passed =
        payment :: s.passed := by
    have hgenuine : Genuine (fun _ => 0x35eb9debf74e405e) (.new "secret") (s.now + elapsed)
        payment := ⟨_, rfl, hwindow, by decide⟩
    have hverify := (verify_eq_ok_iff default).2 hgenuine
    simp only [State.next, hverify]
  have hfirst := hpassed ⟨0, []⟩ 1700000000 (by decide)
  have hsecond := hpassed (State.next (fun _ => 0x35eb9debf74e405e) default (.new "secret")
    ⟨0, []⟩ ⟨1700000000, payment⟩) 60 (by decide)
  rw [hfirst] at hsecond
  have htwice : [payment, payment].Pairwise (fun r r' => ¬ SameSigned (.new "secret") r r') :=
    hsecond.subst (motive := List.Pairwise (fun r r' => ¬ SameSigned (.new "secret") r r')) hfree
  exact (List.pairwise_cons.1 htwice).1 payment List.mem_cons_self ⟨rfl, rfl, fun _ _ => rfl⟩

end Rszero.Signature
