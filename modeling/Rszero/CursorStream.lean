import Rszero.Cursor

/-!
# Programs on a slice and programs on a list

A program on a list takes what it reads from the front of the list, where a program with a cursor
moves on in a slice. The two agree when they end with the same error, or with related values and the
list that is the rest of the slice.
-/

namespace Rszero.Cursor

variable {τ ε α β α' β' : Type}

abbrev Stream (τ ε α : Type) := StateT (List τ) (Except ε) α

def rest (s : Cursor) (ts : List τ) : List τ := ts.drop s.pos

theorem head?_rest (s : Cursor) (ts : List τ) : (s.rest ts).head? = ts[s.pos]? := List.head?_drop

theorem rest_noted (s : Cursor) (i : LoopTurn) (ts : List τ) :
    (s.noted i).rest ts = s.rest ts := rfl

theorem rest_moved_of_cons {s : Cursor} {ts l : List τ} {t : τ} (h : s.rest ts = t :: l) :
    (s.moved (s.pos + 1)).rest ts = l :=
  List.tail_drop.symm.trans (congrArg List.tail h)

theorem lt_of_rest {s : Cursor} {ts l : List τ} {t : τ} (h : s.rest ts = t :: l) :
    s.pos < ts.length := by
  have hlength : (s.rest ts).length = ts.length - s.pos := List.length_drop
  rw [h, List.length_cons] at hlength
  omega

theorem run_advance_of_cons {s : Cursor} {ts l : List τ} {t : τ} (h : s.rest ts = t :: l) :
    (Program.advance : Program τ ε Unit).run ts s = (.ok (), s.moved (s.pos + 1)) :=
  Prod.ext rfl (if_pos (lt_of_rest h))

theorem run_advance_of_nil {s : Cursor} {ts : List τ} (h : s.rest ts = []) :
    (Program.advance : Program τ ε Unit).run ts s = (.ok (), s) :=
  Prod.ext rfl (if_neg (List.drop_eq_nil_iff.1 h).not_gt)

instance : LawfulMonad (Program τ ε) := LawfulMonad.mk' _
  (fun p => congrArg Program.mk <| funext₂ fun ts s => by
    change (match p.run ts s with
      | (.ok a, s') => (.ok a, s')
      | (.error fault, s') => (.error fault, s')) = p.run ts s
    rcases p.run ts s with ⟨_ | _, _⟩ <;> rfl)
  (fun _ _ => rfl)
  (fun p f g => congrArg Program.mk <| funext₂ fun ts s => by
    change (match (p >>= f).run ts s with
      | (.ok b, s') => (g b).run ts s'
      | (.error fault, s') => (.error fault, s')) = (p >>= fun a => f a >>= g).run ts s
    rw [run_bind, run_bind]
    rcases p.run ts s with ⟨_ | _, _⟩ <;> rfl)

inductive Agree (ts : List τ) (R : α → β → Prop) :
    Except (Fault ε) α × Cursor → Except ε (β × List τ) → Prop
  | ok {a : α} {b : β} {s : Cursor} (hs : Sound ts s) (h : R a b) :
      Agree ts R (.ok a, s) (.ok (b, s.rest ts))
  | error (e : ε) (s : Cursor) : Agree ts R (.error (.error e), s) (.error e)

section

variable {ts : List τ} {R : α → β → Prop} {r : Except (Fault ε) α × Cursor}
  {r' : Except ε (β × List τ)}

theorem Agree.inv (h : Agree ts R r r') :
    (∃ a b s, Sound ts s ∧ R a b ∧ r = (.ok a, s) ∧ r' = .ok (b, s.rest ts)) ∨
      ∃ e s, r = (.error (.error e), s) ∧ r' = .error e := by
  cases h with
  | ok hs h => exact .inl ⟨_, _, _, hs, h, rfl, rfl⟩
  | error e s => exact .inr ⟨e, s, rfl, rfl⟩

/-- The program on the list makes another value of what it read. -/
theorem Agree.mapRight {R' : α → β' → Prop} {f : β → β'} (h : Agree ts R r r')
    (hR : ∀ a b, R a b → R' a (f b)) : Agree ts R' r (r'.map (Prod.map f id)) := by
  cases h with
  | ok hs h => exact .ok hs (hR _ _ h)
  | error e s => exact .error e s

theorem Ended.of_ok {Q : α → ℕ → Prop} {a : α} {s s' : Cursor} (h : Ended ts s Q r)
    (hr : r = (.ok a, s')) : Q a s'.pos := by
  subst hr
  rcases h.ends with ⟨a', ha, hQ⟩ | ⟨e, he⟩
  · cases ha
    exact hQ
  · cases he

end

abbrev Follows (ts : List τ) (s : Cursor) (p : Program τ ε α) (q : Stream τ ε β)
    (R : α → β → Prop) : Prop :=
  Agree ts R (p.run ts s) (q (s.rest ts))

namespace Follows

variable {ts : List τ} {s : Cursor} {p : Program τ ε α} {q : Stream τ ε β} {R : α → β → Prop}
  {R' : α' → β' → Prop} {f : α → Program τ ε α'} {g : β → Stream τ ε β'}

theorem pure {a : α} {b : β} (hs : Sound ts s) (h : R a b) :
    Follows ts s (pure a : Program τ ε α) (pure b) R :=
  .ok hs h

theorem bind (h : Follows ts s p q R)
    (hf : ∀ a b s', Sound ts s' → R a b → Follows ts s' (f a) (g b) R') :
    Follows ts s (p >>= f) (q >>= g) R' := by
  have hq : (q >>= g) (s.rest ts) = q (s.rest ts) >>= fun b => g b.1 b.2 := rfl
  rw [Follows] at h ⊢
  rw [run_bind, hq]
  generalize p.run ts s = r at h ⊢
  generalize q (s.rest ts) = r' at h ⊢
  cases h with
  | ok hs h => exact hf _ _ _ hs h
  | error e s' => exact .error e s'

theorem imp {R' : α → β → Prop} (h : Follows ts s p q R) (hR : ∀ a b, R a b → R' a b) :
    Follows ts s p q R' := by
  rw [Follows] at h ⊢
  generalize p.run ts s = r at h ⊢
  generalize q (s.rest ts) = r' at h ⊢
  cases h with
  | ok hs h => exact .ok hs (hR _ _ h)
  | error e s' => exact .error e s'

/-- The program on the slice makes another value of what it read. -/
theorem map {f : α → α'} {R' : α' → β → Prop} (h : Follows ts s p q R)
    (hR : ∀ a b, R a b → R' (f a) b) :
    Follows ts s (p >>= fun a => Pure.pure (f a)) q R' := by
  rw [← bind_pure q]
  exact h.bind (fun a b s' hs' hab => .pure hs' (hR a b hab))

/-- Both programs make other values of what they read. -/
theorem mapBoth {f : α → α'} {g : β → β'} (h : Follows ts s p q R)
    (hR : ∀ a b, R a b → R' (f a) (g b)) :
    Follows ts s (p >>= fun a => Pure.pure (f a)) (q >>= fun b => Pure.pure (g b)) R' :=
  h.bind (fun a b _ hs' hab => .pure hs' (hR a b hab))

theorem error {e : ε} (hp : p.run ts s = (.error (.error e), s))
    (hq : q (s.rest ts) = .error e) : Follows ts s p q R := by
  rw [Follows, hp, hq]
  exact .error e s

theorem lift {r : Except ε α} (hs : Sound ts s) :
    Follows ts s (Program.liftExcept r) (liftM r : Stream τ ε α) Eq := by
  cases r with
  | ok a => exact .ok hs rfl
  | error e => exact Agree.error e s

/-- The program on the slice only looks. -/
theorem look {a : α} {q : Stream τ ε β'} (hp : p.run ts s = (.ok a, s))
    (h : Follows ts s (f a) q R') : Follows ts s (p >>= f) q R' := by
  rw [Follows, bind_of_ok hp]
  exact h

theorem get {p : Program τ ε α'} {g : List τ → Stream τ ε β'}
    (h : Follows ts s p (g (s.rest ts)) R') : Follows ts s p (MonadState.get >>= g) R' := h

/-- The program on the list takes one element. -/
theorem advance {b : β} (hs : Sound ts s) (hq : q (s.rest ts) = .ok (b, (s.rest ts).tail)) :
    Follows ts s Program.advance q (fun _ b' => b' = b) := by
  rw [Follows, hq]
  cases hrest : s.rest ts with
  | nil =>
      rw [run_advance_of_nil hrest, List.tail_nil, ← hrest]
      exact .ok hs rfl
  | cons t l =>
      rw [run_advance_of_cons hrest, List.tail_cons, ← rest_moved_of_cons hrest]
      exact .ok (hs.moved (Nat.le_succ _) (lt_of_rest hrest)) rfl

end Follows

/-- A turn that goes on takes an element on which `take` holds, and the last one takes none. -/
structure TakesWhile (take : τ → Bool) (step : β → τ → β)
    (body : β → Program τ ε (ForInStep β)) : Prop where
  yield : ∀ ts s (b : β) {t l}, s.rest ts = t :: l → take t →
    (body b).run ts s = (.ok (.yield (step b t)), s.moved (s.pos + 1))
  done : ∀ ts s (b : β), (∀ t ∈ (s.rest ts).head?, ¬ take t) →
    (body b).run ts s = (.ok (.done b), s)

section Loops

variable {ts : List τ} {take : τ → Bool} {step : β → τ → β}
  {body : β → Program τ ε (ForInStep β)}

theorem TakesWhile.turns (h : TakesWhile take step body) {fuel : ℕ} {b : β} {s : Cursor}
    (hs : Sound ts s) (hfuel : ts.length - s.pos < fuel) :
    ∃ s', Sound ts s' ∧ s'.rest ts = (s.rest ts).dropWhile take ∧
      Program.turns body ts fuel b s = (.ok (((s.rest ts).takeWhile take).foldl step b), s') := by
  induction fuel generalizing b s with
  | zero => exact absurd hfuel (Nat.not_lt_zero _)
  | succ fuel ih =>
      -- a turn depends on the first of the elements before the cursor
      cases hrest : s.rest ts with
      | nil =>
          have hdone := h.done ts s b (fun t ht => by rw [hrest] at ht; cases ht)
          exact ⟨s.noted ⟨s.pos, none⟩, hs.noted nofun, hrest, turns_of_done hdone⟩
      | cons t l =>
          by_cases htake : take t
          · have hlt := lt_of_rest hrest
            have hmoved := (hs.moved (Nat.le_succ _) hlt).noted (i := ⟨s.pos, some (s.pos + 1)⟩)
              (fun n hn => Option.some.inj hn ▸ Nat.lt_succ_self _)
            obtain ⟨s', hs', hdrop, hrun⟩ := ih (b := step b t) hmoved (by
              change ts.length - (s.pos + 1) < fuel
              omega)
            rw [rest_noted, rest_moved_of_cons hrest] at hdrop hrun
            refine ⟨s', hs', ?_, ?_⟩
            · rw [hdrop, List.dropWhile_cons_of_pos htake]
            · rw [turns_of_yield (h.yield ts s b hrest htake), List.takeWhile_cons_of_pos htake,
                List.foldl_cons]
              exact hrun
          · have hdone := h.done ts s b (fun t' ht' => by
              rw [hrest] at ht'
              exact Option.some.inj ht' ▸ htake)
            refine ⟨s.noted ⟨s.pos, none⟩, hs.noted nofun, ?_, ?_⟩
            · rw [List.dropWhile_cons_of_neg htake]
              exact hrest
            · rw [turns_of_done hdone, List.takeWhile_cons_of_neg htake, List.foldl_nil]

/-- The loop takes the elements as long as `take` holds. -/
theorem TakesWhile.loop (h : TakesWhile take step body) (b : β) {s : Cursor} (hs : Sound ts s) :
    ∃ s', Sound ts s' ∧ s'.rest ts = (s.rest ts).dropWhile take ∧
      (Program.loop b body).run ts s =
        (.ok (((s.rest ts).takeWhile take).foldl step b), s') :=
  h.turns hs (Nat.lt_succ_of_le (Nat.sub_le ts.length s.pos))

end Loops

end Rszero.Cursor
