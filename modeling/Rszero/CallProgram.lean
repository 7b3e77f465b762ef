import Mathlib.Data.List.Infix

/-!
# Programs that call their environment

A program ends, panics, or makes a call and goes on with the answer. The environment answers a call
from all that was called and answered before, so an environment stands for any behaviour of the
code that is called. `Ensures` is the weakest precondition of a program, with what may be relied on
of each answer and what every call must guarantee. `Erases` relates a program to one that makes the
same calls without the auxiliary ones.
-/

namespace Rszero

inductive CallProgram {Op : Type} (Ans : Op → Type) (α : Type)
  | done (a : α)
  | panic
  | call (op : Op) (next : Ans op → CallProgram Ans α)

namespace CallProgram

variable {Op : Type} {Ans : Op → Type} {α β : Type}

/-- Calls with their answers, oldest first. -/
abbrev Calls (Ans : Op → Type) := List (Sigma Ans)

abbrev Environment (Ans : Op → Type) := Calls Ans → (op : Op) → Ans op

def bind : CallProgram Ans α → (α → CallProgram Ans β) → CallProgram Ans β
  | .done a, f => f a
  | .panic, _ => .panic
  | .call op next, f => .call op (fun ans => (next ans).bind f)

/-- All calls at the end of the run, those made before it included, and the result unless the
program panicked. -/
def run (env : Environment Ans) : Calls Ans → CallProgram Ans α → Calls Ans × Option α
  | past, .done a => (past, some a)
  | past, .panic => (past, none)
  | past, .call op next =>
      run env (past ++ [⟨op, env past op⟩]) (next (env past op))

theorem prefix_run (env : Environment Ans) (past : Calls Ans) (p : CallProgram Ans α) :
    past <+: (run env past p).1 := by
  induction p generalizing past with
  | done a => exact List.prefix_rfl
  | panic => exact List.prefix_rfl
  | call op next ih => exact (List.prefix_append ..).trans (ih (env past op) _)

/-- The state that the calls leave, and the result unless the program panicked, when each call is
answered from a state. -/
def eval {σ : Type} (answer : σ → (op : Op) → Ans op × σ) :
    σ → CallProgram Ans α → Option α × σ
  | s, .done a => (some a, s)
  | s, .panic => (none, s)
  | s, .call op next => eval answer (answer s op).2 (next (answer s op).1)

theorem eval_bind {σ : Type} {answer : σ → (op : Op) → Ans op × σ} {s s' : σ}
    {p : CallProgram Ans α} {f : α → CallProgram Ans β} {a : α}
    (h : eval answer s p = (some a, s')) : eval answer s (p.bind f) = eval answer s' (f a) := by
  induction p generalizing s with
  | done b =>
      cases h
      rfl
  | panic => cases h
  | call op next ih => exact ih _ h

section Ensures

variable {rely : Sigma Ans → Prop} {guar : Calls Ans → Sigma Ans → Prop}
  {Q : Calls Ans → α → Prop} {R : Calls Ans → β → Prop}

/-- As long as the answers are as relied on, each call meets `guar` after the calls before it, and
the program ends, without a panic, in `Q`. -/
def Ensures (rely : Sigma Ans → Prop) (guar : Calls Ans → Sigma Ans → Prop)
    (Q : Calls Ans → α → Prop) : CallProgram Ans α → Calls Ans → Prop
  | .done a, past => Q past a
  | .panic, _ => False
  | .call op next, past => ∀ ans, rely ⟨op, ans⟩ →
      guar past ⟨op, ans⟩ ∧ Ensures rely guar Q (next ans) (past ++ [⟨op, ans⟩])

theorem Ensures.bind {p : CallProgram Ans α} {f : α → CallProgram Ans β} {past : Calls Ans}
    (h : p.Ensures rely guar Q past)
    (hf : ∀ past' a, Q past' a → (f a).Ensures rely guar R past') :
    (p.bind f).Ensures rely guar R past := by
  induction p generalizing past with
  | done a => exact hf past a h
  | panic => exact h.elim
  | call op next ih =>
      intro ans hans
      obtain ⟨hguar, hrest⟩ := h ans hans
      exact ⟨hguar, ih ans hrest⟩

theorem Ensures.imp {Q' : Calls Ans → α → Prop} {p : CallProgram Ans α} {past : Calls Ans}
    (h : p.Ensures rely guar Q past) (hQ : ∀ past' a, Q past' a → Q' past' a) :
    p.Ensures rely guar Q' past := by
  induction p generalizing past with
  | done a => exact hQ past a h
  | panic => exact h.elim
  | call op next ih =>
      intro ans hans
      obtain ⟨hguar, hrest⟩ := h ans hans
      exact ⟨hguar, ih ans hrest⟩

theorem Ensures.result {p : CallProgram Ans α} {past : Calls Ans}
    (h : p.Ensures rely guar Q past) (env : Environment Ans)
    (henv : ∀ past op, rely ⟨op, env past op⟩) :
    ∃ a, (run env past p).2 = some a ∧ Q (run env past p).1 a := by
  induction p generalizing past with
  | done a => exact ⟨a, rfl, h⟩
  | panic => exact h.elim
  | call op next ih => exact ih _ (h _ (henv past op)).2

theorem Ensures.guarantee {p : CallProgram Ans α} {past : Calls Ans} {env : Environment Ans}
    (h : p.Ensures rely guar Q past) (henv : ∀ past op, rely ⟨op, env past op⟩)
    {before after : Calls Ans} {e : Sigma Ans} (hsplit : (run env past p).1 = before ++ e :: after)
    (hpast : past <+: before) : guar before e := by
  induction p generalizing past with
  | done a =>
      have hlen := congrArg List.length hsplit
      have hle := hpast.length_le
      simp only [run, List.length_append, List.length_cons] at hlen
      omega
  | panic => exact h.elim
  | call op next ih =>
      obtain ⟨hguar, hrest⟩ := h _ (henv past op)
      have hprefix := prefix_run env (past ++ [⟨op, env past op⟩]) (next (env past op))
      rw [show (run env (past ++ [⟨op, env past op⟩]) (next (env past op))).1 =
        before ++ e :: after from hsplit] at hprefix
      obtain ⟨mid, rfl⟩ := hpast
      obtain ⟨rest, hrest'⟩ := hprefix
      simp only [List.append_assoc, List.append_cancel_left_eq] at hrest'
      cases mid with
      | nil =>
          simp only [List.cons_append, List.nil_append, List.cons.injEq] at hrest'
          rw [List.append_nil, ← hrest'.1]
          exact hguar
      | cons d mid =>
          simp only [List.cons_append, List.nil_append, List.cons.injEq] at hrest'
          refine ih _ hrest hsplit ?_
          rw [hrest'.1]
          exact ⟨mid, by simp⟩

end Ensures

section Erases

variable {Aux : Type} {AuxAns : Aux → Type} {rel : β → α → Prop}

/-- The first program makes the calls of the second, and auxiliary calls whose answers do not
matter. -/
inductive Erases (rel : β → α → Prop) :
    CallProgram (Sum.elim Ans AuxAns) β → CallProgram Ans α → Prop
  | done {b : β} {a : α} (h : rel b a) : Erases rel (.done b) (.done a)
  | panic : Erases rel .panic .panic
  | aux {x : Aux} {next : AuxAns x → CallProgram (Sum.elim Ans AuxAns) β} {p : CallProgram Ans α}
      (h : ∀ ans, Erases rel (next ans) p) : Erases rel (.call (.inr x) next) p
  | call {op : Op} {next : Ans op → CallProgram (Sum.elim Ans AuxAns) β}
      {next' : Ans op → CallProgram Ans α} (h : ∀ ans, Erases rel (next ans) (next' ans)) :
      Erases rel (.call (.inl op) next) (.call op next')

theorem Erases.bind {γ δ : Type} {rel' : δ → γ → Prop}
    {q : CallProgram (Sum.elim Ans AuxAns) β} {p : CallProgram Ans α}
    {g : β → CallProgram (Sum.elim Ans AuxAns) δ} {f : α → CallProgram Ans γ}
    (h : Erases rel q p) (hf : ∀ b a, rel b a → Erases rel' (g b) (f a)) :
    Erases rel' (q.bind g) (p.bind f) := by
  induction h with
  | done h => exact hf _ _ h
  | panic => exact .panic
  | aux _ ih => exact .aux ih
  | call _ ih => exact .call ih

def visibleCall : Sigma (Sum.elim Ans AuxAns) → Option (Sigma Ans)
  | ⟨.inl op, ans⟩ => some ⟨op, ans⟩
  | ⟨.inr _, _⟩ => none

def visible (past : Calls (Sum.elim Ans AuxAns)) : Calls Ans := past.filterMap visibleCall

@[simp] theorem visible_nil : visible ([] : Calls (Sum.elim Ans AuxAns)) = [] := rfl

@[simp] theorem visible_append_call (past : Calls (Sum.elim Ans AuxAns)) (op : Op) (ans : Ans op) :
    visible (past ++ [⟨.inl op, ans⟩]) = visible past ++ [⟨op, ans⟩] := by
  simp [visible, visibleCall]

@[simp] theorem visible_append_aux (past : Calls (Sum.elim Ans AuxAns)) (x : Aux)
    (ans : AuxAns x) : visible (past ++ [⟨.inr x, ans⟩]) = visible past := by
  simp [visible, visibleCall]

/-- An environment that sees the calls that are not auxiliary, beside one that answers the
auxiliary calls as it likes. -/
def withAux (env : Environment Ans)
    (aux : Calls (Sum.elim Ans AuxAns) → (x : Aux) → AuxAns x) : Environment (Sum.elim Ans AuxAns)
  | past, .inl op => env (visible past) op
  | past, .inr x => aux past x

theorem Erases.run {q : CallProgram (Sum.elim Ans AuxAns) β} {p : CallProgram Ans α}
    (h : Erases rel q p) (env : Environment Ans)
    (aux : Calls (Sum.elim Ans AuxAns) → (x : Aux) → AuxAns x)
    (past : Calls (Sum.elim Ans AuxAns)) :
    visible (CallProgram.run (withAux env aux) past q).1 =
        (CallProgram.run env (visible past) p).1 ∧
      Option.Rel rel (CallProgram.run (withAux env aux) past q).2
        (CallProgram.run env (visible past) p).2 := by
  induction h generalizing past with
  | done h => exact ⟨rfl, .some h⟩
  | panic => exact ⟨rfl, .none⟩
  | @aux x next p _ ih =>
      have hrun := ih (aux past x) (past ++ [⟨.inr x, aux past x⟩])
      rwa [visible_append_aux] at hrun
  | @call op next next' _ ih =>
      have hrun := ih (env (visible past) op) (past ++ [⟨.inl op, env (visible past) op⟩])
      rwa [visible_append_call] at hrun

end Erases

end CallProgram
end Rszero
