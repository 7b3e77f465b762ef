import Mathlib.Data.List.Chain
import Mathlib.Tactic.Common

/-!
# Programs with a cursor

A program goes through a slice with a cursor. It may index the slice out of bounds, and a loop that
takes more turns than the slice has elements runs out of fuel. The cursor remembers the positions
that it stood at and the turns of the loops. `Meets` says of a run that it has neither fault, that
the cursor only went ahead and stayed in the slice, and that every turn of a loop consumed something
or was its last.
-/

namespace Rszero

/-- Where a turn of a loop begins, and where the next one does unless the loop is left. -/
structure LoopTurn where
  start : ℕ
  next : Option ℕ

/-- The earlier positions and the turns are only remembered, the latest first. -/
structure Cursor where
  pos : ℕ
  past : List ℕ
  iterations : List LoopTurn

namespace Cursor

inductive Fault (ε : Type)
  | error (e : ε)
  | outOfBounds
  | outOfFuel

structure Program (τ ε α : Type) where
  run : List τ → Cursor → Except (Fault ε) α × Cursor

variable {τ ε α β : Type}

instance : Monad (Program τ ε) where
  pure a := ⟨fun _ s => (.ok a, s)⟩
  bind p f := ⟨fun ts s =>
    match p.run ts s with
    | (.ok a, s') => (f a).run ts s'
    | (.error fault, s') => (.error fault, s')⟩

def start : Cursor := ⟨0, [], []⟩

def moved (s : Cursor) (pos : ℕ) : Cursor := { s with pos := pos, past := s.pos :: s.past }

def noted (s : Cursor) (i : LoopTurn) : Cursor := { s with iterations := i :: s.iterations }

namespace Program

def fail (e : ε) : Program τ ε α := ⟨fun _ s => (.error (.error e), s)⟩

def liftExcept (r : Except ε α) : Program τ ε α := ⟨fun _ s => (r.mapError .error, s)⟩

def peek : Program τ ε (Option τ) := ⟨fun ts s => (.ok ts[s.pos]?, s)⟩

def atEnd : Program τ ε Bool := ⟨fun ts s => (.ok (ts.length ≤ s.pos), s)⟩

def index : Program τ ε τ := ⟨fun ts s => ((ts[s.pos]?).elim (.error .outOfBounds) .ok, s)⟩

def advance : Program τ ε Unit :=
  ⟨fun ts s => (.ok (), if s.pos < ts.length then s.moved (s.pos + 1) else s)⟩

def turns (body : β → Program τ ε (ForInStep β)) (ts : List τ) :
    ℕ → β → Cursor → Except (Fault ε) β × Cursor
  | 0, _, s => (.error .outOfFuel, s)
  | fuel + 1, b, s =>
      match (body b).run ts s with
      | (.ok (.done b'), s') => (.ok b', s'.noted ⟨s.pos, none⟩)
      | (.ok (.yield b'), s') => turns body ts fuel b' (s'.noted ⟨s.pos, some s'.pos⟩)
      | (.error fault, s') => (.error fault, s'.noted ⟨s.pos, none⟩)

def loop (b : β) (body : β → Program τ ε (ForInStep β)) : Program τ ε β :=
  ⟨fun ts s => turns body ts (ts.length + 1) b s⟩

end Program

section Equations

variable {ts : List τ} {s s' : Cursor} {p : Program τ ε α} {f : α → Program τ ε β} {a : α}
  {fault : Fault ε} {body : β → Program τ ε (ForInStep β)} {b b' : β} {fuel : ℕ}

theorem run_bind (p : Program τ ε α) (f : α → Program τ ε β) (ts : List τ) (s : Cursor) :
    (p >>= f).run ts s = match p.run ts s with
      | (.ok a, s') => (f a).run ts s'
      | (.error fault, s') => (.error fault, s') := rfl

theorem bind_of_ok (h : p.run ts s = (.ok a, s')) : (p >>= f).run ts s = (f a).run ts s' := by
  rw [run_bind, h]

theorem bind_of_error (h : p.run ts s = (.error fault, s')) :
    (p >>= f).run ts s = (.error fault, s') := by
  rw [run_bind, h]

theorem turns_of_done (h : (body b).run ts s = (.ok (.done b'), s')) :
    Program.turns body ts (fuel + 1) b s = (.ok b', s'.noted ⟨s.pos, none⟩) := by
  rw [Program.turns, h]

theorem turns_of_yield (h : (body b).run ts s = (.ok (.yield b'), s')) :
    Program.turns body ts (fuel + 1) b s =
      Program.turns body ts fuel b' (s'.noted ⟨s.pos, some s'.pos⟩) := by
  rw [Program.turns, h]

theorem turns_of_error (h : (body b).run ts s = (.error fault, s')) :
    Program.turns body ts (fuel + 1) b s = (.error fault, s'.noted ⟨s.pos, none⟩) := by
  rw [Program.turns, h]

end Equations

/-- The cursor has only gone ahead in the slice, and each turn that went on consumed something. -/
structure Sound (ts : List τ) (s : Cursor) : Prop where
  le : s.pos ≤ ts.length
  ahead : (s.pos :: s.past).IsChain (· ≥ ·)
  consumes : ∀ i ∈ s.iterations, ∀ n, i.next = some n → i.start < n

/-- The run from `s` ends soundly and not before it, with an error or as `Q` says. -/
structure Ended (ts : List τ) (s : Cursor) (Q : α → ℕ → Prop) (r : Except (Fault ε) α × Cursor) :
    Prop where
  ends : (∃ a, r.1 = .ok a ∧ Q a r.2.pos) ∨ ∃ e, r.1 = .error (.error e)
  sound : Sound ts r.2
  le : s.pos ≤ r.2.pos

abbrev Meets (ts : List τ) (p : Program τ ε α) (s : Cursor) (Q : α → ℕ → Prop) : Prop :=
  Ended ts s Q (p.run ts s)

section Rules

variable {ts : List τ} {s : Cursor} {p : Program τ ε α} {Q Q' : α → ℕ → Prop} {R : β → ℕ → Prop}

theorem sound_start (ts : List τ) : Sound ts start where
  le := Nat.zero_le _
  ahead := List.IsChain.singleton _
  consumes := nofun

theorem Sound.pairwise (h : Sound ts s) : (s.pos :: s.past).Pairwise (· ≥ ·) :=
  List.isChain_iff_pairwise.1 h.ahead

theorem Sound.mem_le (h : Sound ts s) : ∀ pos ∈ s.pos :: s.past, pos ≤ ts.length := by
  refine List.forall_mem_cons.2 ⟨h.le, fun pos hpos => ?_⟩
  exact ((List.pairwise_cons.1 h.pairwise).1 pos hpos).trans h.le

theorem Sound.moved {pos : ℕ} (h : Sound ts s) (hle : s.pos ≤ pos) (hpos : pos ≤ ts.length) :
    Sound ts (s.moved pos) where
  le := hpos
  ahead := List.isChain_cons_cons.2 ⟨hle, h.ahead⟩
  consumes := h.consumes

theorem Sound.noted {i : LoopTurn} (h : Sound ts s) (hi : ∀ n, i.next = some n → i.start < n) :
    Sound ts (s.noted i) where
  le := h.le
  ahead := h.ahead
  consumes := List.forall_mem_cons.2 ⟨hi, h.consumes⟩

theorem Ended.ok {a : α} (h : Sound ts s) (hQ : Q a s.pos) :
    Ended ts s Q ((.ok a, s) : Except (Fault ε) α × Cursor) :=
  ⟨.inl ⟨a, rfl, hQ⟩, h, Nat.le_refl _⟩

theorem Ended.imp {r : Except (Fault ε) α × Cursor} (h : Ended ts s Q r)
    (hQ : ∀ a pos, s.pos ≤ pos → Q a pos → Q' a pos) : Ended ts s Q' r where
  ends := h.ends.imp_left (fun ⟨a, ha, hQa⟩ => ⟨a, ha, hQ a _ h.le hQa⟩)
  sound := h.sound
  le := h.le

/-- What ends from a later position ends from an earlier one. -/
theorem Ended.from {s' : Cursor} {r : Except (Fault ε) α × Cursor} (h : Ended ts s' Q r)
    (hle : s.pos ≤ s'.pos) : Ended ts s Q r :=
  ⟨h.ends, h.sound, hle.trans h.le⟩

namespace Meets

theorem pure {a : α} (h : Sound ts s) (hQ : Q a s.pos) :
    Meets ts (pure a : Program τ ε α) s Q :=
  .ok h hQ

theorem fail {e : ε} (h : Sound ts s) : Meets ts (Program.fail e) s Q :=
  ⟨.inr ⟨e, rfl⟩, h, Nat.le_refl _⟩

theorem liftExcept {r : Except ε α} (h : Sound ts s) (hQ : ∀ a, r = .ok a → Q a s.pos) :
    Meets ts (Program.liftExcept r) s Q := by
  cases r with
  | ok a => exact .ok h (hQ a rfl)
  | error e => exact fail h

theorem peek (h : Sound ts s) :
    Meets ts (Program.peek : Program τ ε _) s (fun o pos => o = ts[pos]? ∧ pos = s.pos) :=
  .ok h ⟨rfl, rfl⟩

theorem atEnd (h : Sound ts s) : Meets ts (Program.atEnd : Program τ ε _) s
    (fun b pos => (b ↔ ts.length ≤ pos) ∧ pos = s.pos) :=
  .ok h ⟨by simp, rfl⟩

theorem index (h : Sound ts s) (hlt : s.pos < ts.length) :
    Meets ts (Program.index : Program τ ε _) s (fun t pos => ts[pos]? = some t ∧ pos = s.pos) := by
  have ht : ts[s.pos]? = some ts[s.pos] := List.getElem?_eq_getElem hlt
  rw [Meets, Program.index]
  dsimp only
  rw [ht]
  exact .ok h ⟨ht, rfl⟩

theorem advance (h : Sound ts s) : Meets ts (Program.advance : Program τ ε _) s
    (fun _ pos => s.pos < ts.length → pos = s.pos + 1) := by
  rw [Meets, Program.advance]
  dsimp only
  split_ifs with hlt
  · exact ⟨.inl ⟨(), rfl, fun _ => rfl⟩, h.moved (Nat.le_succ _) hlt, Nat.le_succ _⟩
  · exact .ok h (fun hlt' => absurd hlt' hlt)

theorem bind {f : α → Program τ ε β} (h : Meets ts p s Q)
    (hf : ∀ a s', Sound ts s' → s.pos ≤ s'.pos → Q a s'.pos → Meets ts (f a) s' R) :
    Meets ts (p >>= f) s R := by
  obtain ⟨hends, hsound, hle⟩ := h
  rcases hends with ⟨a, ha, hQ⟩ | ⟨e, he⟩
  · rw [Meets, bind_of_ok (Prod.ext ha rfl)]
    exact (hf a _ hsound hle hQ).from hle
  · rw [Meets, bind_of_error (Prod.ext he rfl)]
    exact ⟨.inr ⟨e, rfl⟩, hsound, hle⟩

end Meets

def TurnEnds (R : β → ℕ → Prop) (pos : ℕ) : ForInStep β → ℕ → Prop
  | .done b, pos' => R b pos'
  | .yield _, pos' => pos < pos'

theorem ended_turns {body : β → Program τ ε (ForInStep β)} {fuel : ℕ} {b : β} (h : Sound ts s)
    (hfuel : ts.length - s.pos < fuel)
    (hbody : ∀ b s', Sound ts s' → s.pos ≤ s'.pos → Meets ts (body b) s' (TurnEnds R s'.pos)) :
    Ended ts s R (Program.turns body ts fuel b s) := by
  induction fuel generalizing s b with
  | zero => exact absurd hfuel (Nat.not_lt_zero _)
  | succ fuel ih =>
      obtain ⟨hends, hsound, hle⟩ := hbody b s h (Nat.le_refl _)
      rcases hends with ⟨r, hr, hR⟩ | ⟨e, he⟩
      · cases r with
        | done b' =>
            rw [turns_of_done (Prod.ext hr rfl)]
            exact ⟨.inl ⟨b', rfl, hR⟩, hsound.noted nofun, hle⟩
        | yield b' =>
            rw [turns_of_yield (Prod.ext hr rfl)]
            have hlt : s.pos < ((body b).run ts s).2.pos := hR
            have hbound := hsound.le
            have hnoted := hsound.noted (i := ⟨s.pos, some ((body b).run ts s).2.pos⟩)
              (fun n hn => Option.some.inj hn ▸ hlt)
            refine (ih hnoted ?_ fun b s' hs' hle' => hbody b s' hs' (hle.trans hle')).from hle
            change ts.length - ((body b).run ts s).2.pos < fuel
            omega
      · rw [turns_of_error (Prod.ext he rfl)]
        exact ⟨.inr ⟨e, rfl⟩, hsound.noted nofun, hle⟩

/-- A loop ends when every turn that goes on consumes something. -/
theorem Meets.loop {body : β → Program τ ε (ForInStep β)} {b : β} (h : Sound ts s)
    (hbody : ∀ b s', Sound ts s' → s.pos ≤ s'.pos → Meets ts (body b) s' (TurnEnds R s'.pos)) :
    Meets ts (Program.loop b body) s R :=
  ended_turns h (Nat.lt_succ_of_le (Nat.sub_le ts.length s.pos)) hbody

end Rules

end Cursor

end Rszero
