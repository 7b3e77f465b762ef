import Rszero.ApiReads
import Rszero.ApiSliceParser
import Rszero.CursorStream

/-!
# The parser on a slice and the grammar on a list

`parse` builds the file while it moves over a slice of tokens; `parseDocument` reads the same tokens
from a list into a document, from which the file is made. Both end alike on every slice.
-/

namespace Rszero.Api.SliceParser

open Cursor

variable {u : Unicode} {ts : List Token} {s : Cursor} {α β γ : Type} {kind close : TokenKind}

theorem run_peek : peek.run ts s = (.ok (s.rest ts).head?, s) := by
  rw [head?_rest]
  rfl

theorem run_currentLine : currentLine.run ts s = (.ok (Api.currentLine (s.rest ts)), s) :=
  bind_of_ok run_peek

theorem run_check : (check kind).run ts s = (.ok (Api.check kind (s.rest ts)), s) := by
  rw [check, bind_of_ok run_peek, Api.check]
  cases (s.rest ts).head? <;> rfl

theorem run_peekIdent : peekIdent.run ts s = (.ok (Api.peekIdent (s.rest ts)), s) := by
  rw [peekIdent, bind_of_ok run_peek, Api.peekIdent]
  rcases (s.rest ts).head? with _ | ⟨kind, line, column⟩
  · rfl
  · cases kind <;> rfl

theorem run_debugPeek : (debugPeek u).run ts s = (.ok (got u (s.rest ts)), s) := by
  rw [debugPeek, bind_of_ok run_peek, got]
  cases (s.rest ts).head? <;> rfl

theorem run_isEof : isEof.run ts s = (.ok (Api.isEof (s.rest ts)), s) := by
  have hatEnd : (Program.atEnd : Parser Bool).run ts s = (.ok (ts.length ≤ s.pos), s) := rfl
  rw [isEof, bind_of_ok hatEnd, Api.isEof, head?_rest]
  by_cases hle : ts.length ≤ s.pos
  · rw [decide_eq_true hle, List.getElem?_eq_none hle]
    rfl
  · have ht : ts[s.pos]? = some ts[s.pos] := List.getElem?_eq_getElem (not_le.1 hle)
    have hindex : (Program.index : Parser Token).run ts s = (.ok ts[s.pos], s) := by
      rw [Program.index]
      dsimp only
      rw [ht, Option.elim_some]
    rw [decide_eq_false hle, ht]
    exact bind_of_ok hindex

def expectedText (u : Unicode) (expected : String) (ts : List Token) : String :=
  s!"expected {expected} at line {Api.currentLine ts}, got {got u ts}"

theorem run_unexpected (expected : String) : (unexpected u expected : Parser α).run ts s =
    (.error (.error (.internal (expectedText u expected (s.rest ts)) none)), s) := by
  rw [unexpected, bind_of_ok run_currentLine, bind_of_ok run_debugPeek]
  rfl

theorem expectedText_quoted (expected : String) (ts : List Token) :
    expectedText u s!"'{expected}'" ts =
      s!"expected '{expected}' at line {Api.currentLine ts}, got {got u ts}" := by
  have hopen : "expected '" = "expected " ++ "'" := rfl
  have hclose : "' at line " = "'" ++ " at line " := rfl
  change "expected " ++ ("'" ++ expected ++ "'") ++ " at line " ++ _ ++ ", got " ++ _ =
    "expected '" ++ expected ++ "' at line " ++ _ ++ ", got " ++ _
  rw [hopen, hclose]
  simp only [String.append_assoc]

theorem follows_unexpected {q : Api.Parser β} {expected : String} {R : α → β → Prop}
    (hq : q (s.rest ts) = .error (.internal (expectedText u expected (s.rest ts)) none)) :
    Follows ts s (unexpected u expected) q R :=
  .error (run_unexpected expected) hq

theorem follows_expect (hs : Sound ts s) (kind : TokenKind) :
    Follows ts s (expect u kind) (Api.expect u kind) Eq := by
  apply Follows.look run_check
  cases hcheck : Api.check kind (s.rest ts) with
  | true =>
      have hq : Api.expect u kind (s.rest ts) = .ok ((), (s.rest ts).tail) := by
        rw [Api.expect, if_pos hcheck]
      exact (Follows.advance hs hq).imp (fun _ _ _ => rfl)
  | false =>
      have hq : Api.expect u kind (s.rest ts) =
          .error (.internal (expectedText u (kind.debug u) (s.rest ts)) none) := by
        rw [Api.expect, if_neg (Bool.eq_false_iff.1 hcheck)]
        rfl
      exact follows_unexpected hq

theorem follows_expectIdent (hs : Sound ts s) (expected : String) :
    Follows ts s (expectIdent u expected) (Api.expectIdent u expected) Eq := by
  apply Follows.look run_peekIdent
  split_ifs with hident
  · have hq : Api.expectIdent u expected (s.rest ts) = .ok ((), (s.rest ts).tail) := by
      rw [Api.expectIdent, if_pos hident]
    exact (Follows.advance hs hq).imp (fun _ _ _ => rfl)
  · have hq : Api.expectIdent u expected (s.rest ts) =
        .error (.internal (expectedText u s!"'{expected}'" (s.rest ts)) none) := by
      rw [Api.expectIdent, if_neg hident, expectedText_quoted]
      rfl
    exact follows_unexpected hq

theorem follows_expectIdentStr (hs : Sound ts s) :
    Follows ts s (expectIdentStr u) (Api.expectIdentStr u) Eq := by
  apply Follows.look run_peekIdent
  cases hident : Api.peekIdent (s.rest ts) with
  | some name =>
      have hq : Api.expectIdentStr u (s.rest ts) = .ok (name, (s.rest ts).tail) := by
        rw [Api.expectIdentStr, hident]
      exact (Follows.advance hs hq).map (fun _ _ hname => hname.symm)
  | none =>
      have hq : Api.expectIdentStr u (s.rest ts) =
          .error (.internal (expectedText u "identifier" (s.rest ts)) none) := by
        rw [Api.expectIdentStr, hident]
        rfl
      exact follows_unexpected hq

theorem follows_expectString (hs : Sound ts s) :
    Follows ts s (expectString u) (Api.expectString u) Eq := by
  apply Follows.look run_peek
  split
  · rename_i text line column hhead
    have hq : Api.expectString u (s.rest ts) = .ok (text, (s.rest ts).tail) := by
      rw [Api.expectString, hhead]
    exact (Follows.advance hs hq).map (fun _ _ htext => htext.symm)
  · rename_i hhead
    have hq : Api.expectString u (s.rest ts) =
        .error (.internal (expectedText u "string" (s.rest ts)) none) := by
      rw [Api.expectString]
      split
      · rename_i hhead'
        exact absurd hhead' (hhead _ _ _)
      · rfl
    exact follows_unexpected hq

theorem follows_expectBacktick (hs : Sound ts s) :
    Follows ts s (expectBacktick u) (Api.expectBacktick u) Eq := by
  apply Follows.look run_peek
  split
  · rename_i text line column hhead
    have hq : Api.expectBacktick u (s.rest ts) = .ok (text, (s.rest ts).tail) := by
      rw [Api.expectBacktick, hhead]
    exact (Follows.advance hs hq).map (fun _ _ htext => htext.symm)
  · rename_i hhead
    have hq : Api.expectBacktick u (s.rest ts) =
        .error (.internal (expectedText u "backtick string" (s.rest ts)) none) := by
      rw [Api.expectBacktick]
      split
      · rename_i hhead'
        exact absurd hhead' (hhead _ _ _)
      · rfl
    exact follows_unexpected hq

theorem takesWhile_newline : TakesWhile (fun t : Token => t.kind == .newline) (fun b _ => b)
    (fun _ : Unit => do
      if ← check .newline then
        advance
        return .yield ()
      else return .done () : Unit → Parser (ForInStep Unit)) where
  yield ts s _ t l hrest ht := by
    have hcheck := (check_mark_iff rfl).2 ⟨_, _, hrest, eq_of_beq ht⟩
    rw [bind_of_ok run_check, if_pos hcheck]
    exact bind_of_ok (run_advance_of_cons hrest)
  done ts s _ hdone := by
    rw [bind_of_ok run_check, if_neg]
    · rfl
    · intro hcheck
      obtain ⟨t, l, hrest, hkind⟩ := (check_mark_iff rfl).1 hcheck
      exact hdone t (hrest ▸ rfl) (beq_iff_eq.2 hkind)

theorem follows_skipNewlines (hs : Sound ts s) :
    Follows ts s skipNewlines (modify Api.skipNewlines : Api.Parser PUnit) (fun _ _ => True) := by
  obtain ⟨s', hs', hrest, hrun⟩ := takesWhile_newline.loop () hs
  rw [Follows, skipNewlines, hrun]
  change Agree ts _ _ (.ok (PUnit.unit, (s.rest ts).dropWhile _))
  rw [← hrest]
  exact .ok hs' trivial

def addPiece (path : String) (t : Token) : String := path ++ t.kind.pathText.getD ""

theorem foldl_addPiece (l : List Token) (path : String) :
    l.foldl addPiece path = path ++ pathText (l.map Token.kind) := by
  induction l generalizing path with
  | nil => simp [pathText]
  | cons t l ih =>
      rw [List.foldl_cons, ih, addPiece, String.append_assoc, List.map_cons]
      simp [pathText]

theorem takesWhile_path : TakesWhile (fun t : Token => t.kind.pathText.isSome) addPiece
    (fun path : String => do
      match (← peek).bind (fun t => t.kind.pathText) with
      | some text => do
          advance
          return .yield (path ++ text)
      | none => return .done path : String → Parser (ForInStep String)) where
  yield ts s path t l hrest ht := by
    obtain ⟨text, htext⟩ := Option.isSome_iff_exists.1 ht
    have hlook : (s.rest ts).head?.bind (fun t => t.kind.pathText) = some text := by
      rw [hrest]
      exact htext
    rw [bind_of_ok run_peek, hlook, addPiece, htext]
    exact bind_of_ok (run_advance_of_cons hrest)
  done ts s path hdone := by
    have hlook : (s.rest ts).head?.bind (fun t => t.kind.pathText) = none := by
      cases hhead : (s.rest ts).head? with
      | none => rfl
      | some t => exact Option.not_isSome_iff_eq_none.1 (hdone t hhead)
    rw [bind_of_ok run_peek, hlook]
    rfl

theorem follows_expectPath (hs : Sound ts s) :
    Follows ts s expectPath Api.expectPath (fun path pieces => path = pathText pieces) := by
  obtain ⟨s', hs', hrest, hrun⟩ := takesWhile_path.loop "" hs
  rw [foldl_addPiece, String.empty_append] at hrun
  have hpath : expectPath.run ts s = _ := bind_of_ok hrun
  rw [Follows, hpath, Api.expectPath, ← hrest]
  split_ifs with hpath
  · rw [bind_of_ok run_currentLine]
    exact .error _ _
  · exact .ok hs' rfl

/-- A turn on the slice adds what the turn on the list reads. -/
def TurnFollows (turn : β → Parser β) (body : Api.Parser γ) (step : β → γ → β) : Prop :=
  ∀ b ts s, Sound ts s → s.pos < ts.length →
    Follows ts s (turn b) body (fun b' c => b' = step b c)

/-- A turn of a loop on the slice that goes on unless it stands at an end. -/
def GoesOn (closes : List Token → Bool) (turn : β → Parser β)
    (body : β → Parser (ForInStep β)) : Prop :=
  ∀ b ts s, (body b).run ts s =
    if closes (s.rest ts) || Api.isEof (s.rest ts) then (.ok (.done b), s)
    else (do
      let b ← turn b
      skipNewlines
      return .yield b : Parser (ForInStep β)).run ts s

section Loops

variable {closes : List Token → Bool} {turn : β → Parser β} {body : Api.Parser γ}
  {step : β → γ → β} {turnBody : β → Parser (ForInStep β)} {fuel fuel' : ℕ} {b : β}

theorem turns_succ (closes : List Token → Bool) (body : Api.Parser γ) (fuel : ℕ) (l : List Token) :
    Api.turns closes body (fuel + 1) l =
      if closes l || Api.isEof l then .ok ([], l)
      else ((do
        let c ← body
        modify Api.skipNewlines
        return c : Api.Parser γ) l).bind fun r =>
          (Api.turns closes body fuel r.2).map (Prod.map (r.1 :: ·) id) := by
  have hunfold : Api.turns closes body (fuel + 1) l = (if closes l || Api.isEof l then pure []
      else do
        let c ← body
        modify Api.skipNewlines
        let cs ← Api.turns closes body fuel
        return c :: cs : Api.Parser (List γ)) l := rfl
  rw [hunfold]
  split_ifs
  · rfl
  · change (body l).bind _ = ((body l).bind _).bind _
    cases body l with
    | error e => rfl
    | ok r =>
        change (Api.turns closes body fuel (Api.skipNewlines r.2)).bind _ =
          (Api.turns closes body fuel (Api.skipNewlines r.2)).map _
        cases Api.turns closes body fuel (Api.skipNewlines r.2) <;> rfl

theorem lt_of_not_isEof (h : ¬ Api.isEof (s.rest ts)) : s.pos < ts.length := by
  cases hrest : s.rest ts with
  | nil => exact absurd (by rw [hrest]; rfl) h
  | cons t l => exact lt_of_rest hrest

/-- A turn that goes on consumes a token, with the newlines behind it. -/
theorem meets_wholeTurn (htakes : TakesTurn turn) (hs : Sound ts s) (hlt : s.pos < ts.length) :
    Meets ts (do
      let b ← turn b
      skipNewlines
      return ForInStep.yield b) s (fun _ pos => s.pos < pos) := by
  refine (htakes b ts s hs hlt).bind fun b' s₁ hs₁ _ hlt' => ?_
  exact (ends_skipNewlines ts s₁ hs₁).bind (fun _ s₂ hs₂ hle _ => .pure hs₂ (hlt'.trans_le hle))

theorem follows_wholeTurn (hturn : TurnFollows turn body step) (hs : Sound ts s)
    (hlt : s.pos < ts.length) :
    Follows ts s (do
      let b ← turn b
      skipNewlines
      return ForInStep.yield b) (do
      let c ← body
      modify Api.skipNewlines
      return c) (fun r c => r = .yield (step b c)) := by
  refine (hturn b ts s hs hlt).bind fun b' c s₁ hs₁ hb' => ?_
  exact (follows_skipNewlines hs₁).mapBoth (fun _ _ _ => congrArg ForInStep.yield hb')

theorem follows_turns (hturn : TurnFollows turn body step) (htakes : TakesTurn turn)
    (hgoes : GoesOn closes turn turnBody) (hs : Sound ts s) (hfuel : ts.length - s.pos < fuel)
    (hfuel' : ts.length - s.pos < fuel') :
    Agree ts (fun b' cs => b' = cs.foldl step b) (Program.turns turnBody ts fuel b s)
      (Api.turns closes body fuel' (s.rest ts)) := by
  induction fuel generalizing fuel' b s with
  | zero => exact absurd hfuel (Nat.not_lt_zero _)
  | succ fuel ih =>
      obtain ⟨fuel', rfl⟩ : ∃ n, fuel' = n + 1 := ⟨fuel' - 1, by omega⟩
      have hrun := hgoes b ts s
      rw [turns_succ]
      by_cases hend : closes (s.rest ts) || Api.isEof (s.rest ts)
      · rw [if_pos hend] at hrun ⊢
        rw [turns_of_done hrun]
        exact .ok (hs.noted nofun) rfl
      · rw [if_neg hend] at hrun ⊢
        have hlt := lt_of_not_isEof (fun heof => hend (by rw [heof, Bool.or_true]))
        have hmeets := meets_wholeTurn (b := b) htakes hs hlt
        have hstep := follows_wholeTurn (b := b) hturn hs hlt
        rw [Meets, ← hrun] at hmeets
        rw [Follows, ← hrun] at hstep
        rcases hstep.inv with ⟨_, c, s', hs', rfl, hslice, hlist⟩ | ⟨e, s', hslice, hlist⟩
        · have hpos := hmeets.of_ok hslice
          have hle := hs'.le
          have hnoted := hs'.noted (i := ⟨s.pos, some s'.pos⟩)
            (fun n hn => Option.some.inj hn ▸ hpos)
          have hrest : ts.length - s'.pos < ts.length - s.pos := by omega
          rw [turns_of_yield hslice, hlist]
          refine (ih hnoted ?_ ?_).mapRight ?_
          · exact Nat.lt_of_lt_of_le hrest (Nat.le_of_lt_succ hfuel)
          · exact Nat.lt_of_lt_of_le hrest (Nat.le_of_lt_succ hfuel')
          · exact fun b' cs hb' => hb'
        · rw [turns_of_error hslice, hlist]
          exact .error e _

theorem follows_loop (hturn : TurnFollows turn body step) (htakes : TakesTurn turn)
    (hgoes : GoesOn closes turn turnBody) (b : β) (hs : Sound ts s) :
    Follows ts s (skipNewlines >>= fun _ => Program.loop b turnBody) (Api.loop closes body)
      (fun b' cs => b' = cs.foldl step b) := by
  refine (follows_skipNewlines hs).bind fun _ _ s' hs' _ => ?_
  have hlength : (s'.rest ts).length = ts.length - s'.pos := List.length_drop
  have hle : ts.length - s'.pos ≤ ts.length := Nat.sub_le ..
  exact .get (follows_turns hturn htakes hgoes hs' (by omega) (by omega))

theorem goesOn_untilClosed (close : TokenKind) (turn : β → Parser β) :
    GoesOn (Api.check close) turn (fun b => do
      if ← check close then return .done b
      if ← isEof then return .done b
      let b ← turn b
      skipNewlines
      return .yield b) := by
  intro b ts s
  rw [bind_of_ok run_check]
  cases Api.check close (s.rest ts) with
  | true => rfl
  | false =>
      rw [Bool.false_or, if_neg Bool.false_ne_true, bind_of_ok run_isEof]
      cases Api.isEof (s.rest ts) <;> rfl

theorem follows_untilClosed {g : List γ → α} (hturn : TurnFollows turn body step)
    (htakes : TakesTurn turn) (hs : Sound ts s) :
    Follows ts s (untilClosed u close b turn) (do
      let cs ← Api.loop (Api.check close) body
      Api.expect u close
      return g cs) (fun b' a => ∃ cs, a = g cs ∧ b' = cs.foldl step b) := by
  rw [untilClosed, ← bind_assoc]
  refine (follows_loop hturn htakes (goesOn_untilClosed close turn) b hs).bind
    fun b' cs s₁ hs₁ hb' => ?_
  exact (follows_expect hs₁ close).mapBoth (fun _ _ _ => ⟨cs, rfl, hb'⟩)

end Loops

theorem follows_parseSyntax (hs : Sound ts s) :
    Follows ts s (parseSyntax u) (Api.parseSyntax u) Eq := by
  refine (follows_expectIdent hs _).bind fun _ _ s₁ hs₁ _ => ?_
  exact (follows_expect hs₁ _).bind (fun _ _ s₂ hs₂ _ => follows_expectString hs₂)

theorem expectIdentStr_of_some {name : String} {l : List Token} (h : Api.peekIdent l = some name) :
    Api.expectIdentStr u l = .ok (name, l.tail) := by
  rw [Api.expectIdentStr, h]

/-- A token that is not expected is skipped. -/
theorem follows_skip (hs : Sound ts s) (hlt : s.pos < ts.length) (b : β) :
    Follows ts s (do
      advance
      return b) (Api.skip : Api.Parser (Turn γ)) (fun b' c => b' = b ∧ ∃ kind, c = .skip kind) := by
  cases hrest : s.rest ts with
  | nil => exact absurd hlt (List.drop_eq_nil_iff.1 hrest).not_gt
  | cons t l =>
      have hskip : (Api.skip : Api.Parser (Turn γ)) (s.rest ts) =
          .ok (.skip t.kind, (s.rest ts).tail) := by
        rw [hrest]
        rfl
      exact (Follows.advance hs hskip).map (fun _ _ hc => ⟨rfl, t.kind, hc⟩)

def addItem (f : γ → α) (items : List α) (turn : Turn γ) : List α :=
  items ++ (turn.item.map f).toList

theorem foldl_addItem (f : γ → α) (turns : List (Turn γ)) (items : List α) :
    turns.foldl (addItem f) items = items ++ (turns.filterMap Turn.item).map f := by
  induction turns generalizing items with
  | nil => simp
  | cons turn turns ih =>
      rw [List.foldl_cons, ih, addItem, List.append_assoc]
      cases turn <;> rfl

theorem follows_skip_item (hs : Sound ts s) (hlt : s.pos < ts.length) (f : γ → α)
    (items : List α) : Follows ts s (do
      advance
      return items) (Api.skip : Api.Parser (Turn γ)) (fun items' c => items' = addItem f items c) :=
  (follows_skip hs hlt items).imp (fun _ _ ⟨hitems, _, hc⟩ => by
    rw [hitems, hc]
    exact (List.append_nil _).symm)

theorem turnFollows_infoTurn : TurnFollows (infoTurn u) (Api.infoTurn u) (addItem id) := by
  intro pairs ts s hs hlt
  apply Follows.look run_peekIdent
  apply Follows.get
  cases hident : Api.peekIdent (s.rest ts) with
  | some name =>
      refine (Follows.advance hs (expectIdentStr_of_some hident)).bind fun _ key s₁ hs₁ hkey => ?_
      refine (follows_expect hs₁ _).bind fun _ _ s₂ hs₂ _ => ?_
      refine (follows_expectString hs₂).mapBoth fun value _ hvalue => ?_
      rw [hkey, hvalue]
      rfl
  | none => exact follows_skip_item hs hlt id pairs

theorem follows_parseInfo (hs : Sound ts s) :
    Follows ts s (parseInfo u) (Api.parseInfo u)
      (fun pairs turns => pairs = turns.filterMap Turn.item) := by
  refine (follows_expectIdent hs _).bind fun _ _ s₁ hs₁ _ => ?_
  refine (follows_expect hs₁ _).bind fun _ _ s₂ hs₂ _ => ?_
  refine (follows_untilClosed turnFollows_infoTurn takesTurn_infoTurn hs₂).imp ?_
  rintro _ _ ⟨turns, rfl, rfl⟩
  rw [foldl_addItem, List.nil_append, List.map_id]

theorem turnFollows_fieldTurn : TurnFollows (fieldTurn u) (Api.fieldTurn u) (addItem id) := by
  intro fields ts s hs hlt
  apply Follows.look run_peekIdent
  apply Follows.get
  cases hident : Api.peekIdent (s.rest ts) with
  | some name =>
      refine (Follows.advance hs (expectIdentStr_of_some hident)).bind fun _ _ s₁ hs₁ hname => ?_
      refine (follows_expectIdentStr hs₁).bind fun ty _ s₂ hs₂ hty => ?_
      rw [parseTag, bind_assoc]
      apply Follows.look run_check
      apply Follows.get
      subst hname hty
      cases Api.check (.backtick "") (s₂.rest ts) with
      | true =>
          rw [if_pos rfl, if_pos rfl, bind_assoc]
          refine (follows_expectBacktick hs₂).mapBoth fun tag _ htag => ?_
          rw [htag]
          rfl
      | false => exact .pure hs₂ rfl
  | none => exact follows_skip_item hs hlt id fields

theorem follows_parseTypeDef (hs : Sound ts s) :
    Follows ts s (parseTypeDef u) (Api.parseTypeDef u) (fun t def_ => t = def_.api) := by
  refine (follows_expectIdent hs _).bind fun _ _ s₁ hs₁ _ => ?_
  refine (follows_expectIdentStr hs₁).bind fun name _ s₂ hs₂ hname => ?_
  refine (follows_expect hs₂ _).bind fun _ _ s₃ hs₃ _ => ?_
  refine (follows_untilClosed turnFollows_fieldTurn takesTurn_fieldTurn hs₃).map ?_
  rintro _ _ ⟨turns, rfl, rfl⟩
  rw [foldl_addItem, List.nil_append, List.map_id, hname]
  rfl

theorem follows_typeInParens (hs : Sound ts s) :
    Follows ts s (typeInParens u) (Api.typeInParens u) Eq := by
  refine (follows_expect hs _).bind fun _ _ s₁ hs₁ _ => ?_
  refine (follows_expectIdentStr hs₁).bind fun name _ s₂ hs₂ hname => ?_
  exact (follows_expect hs₂ _).mapBoth (fun _ _ _ => hname)

theorem follows_requestType (hs : Sound ts s) :
    Follows ts s (requestType u) (Api.requestType u) Eq := by
  apply Follows.look run_check
  apply Follows.get
  cases Api.check .lParen (s.rest ts) with
  | true =>
      exact (follows_typeInParens hs).mapBoth (fun _ _ hname => congrArg some hname)
  | false => exact .pure hs rfl

theorem follows_responseType (hs : Sound ts s) :
    Follows ts s (responseType u) (Api.responseType u) Eq := by
  apply Follows.look run_peekIdent
  apply Follows.get
  split_ifs with hreturns
  · have hexpect : Api.expectIdent u "returns" (s.rest ts) = .ok ((), (s.rest ts).tail) := by
      rw [Api.expectIdent, if_pos hreturns]
    refine (Follows.advance hs hexpect).bind fun _ _ s₁ hs₁ _ => ?_
    exact (follows_typeInParens hs₁).mapBoth (fun _ _ hname => congrArg some hname)
  · exact .pure hs rfl

theorem follows_parseRoute (hs : Sound ts s) :
    Follows ts s (parseRoute u) (Api.parseRoute u) (fun route r => route = r.api) := by
  refine (follows_expect hs _).bind fun _ _ s₁ hs₁ _ => ?_
  refine (follows_expectIdent hs₁ _).bind fun _ _ s₂ hs₂ _ => ?_
  refine (follows_expectIdentStr hs₂).bind fun handler _ s₃ hs₃ hhandler => ?_
  refine (follows_skipNewlines hs₃).bind fun _ _ s₄ hs₄ _ => ?_
  refine (follows_expectIdentStr hs₄).bind fun spelling _ s₅ hs₅ hspelling => ?_
  subst hhandler hspelling
  refine (Follows.lift hs₅).bind fun method _ s₆ hs₆ hmethod => ?_
  refine (follows_expectPath hs₆).bind fun path pieces s₇ hs₇ hpath => ?_
  refine (follows_requestType hs₇).bind fun request_type _ s₈ hs₈ hrequest => ?_
  refine (follows_responseType hs₈).mapBoth fun response_type _ hresponse => ?_
  rw [hmethod, hpath, hrequest, hresponse]
  rfl

theorem turnFollows_routeTurn :
    TurnFollows (routeTurn u) (Api.routeTurn u) (addItem Route.api) := by
  intro routes ts s hs hlt
  apply Follows.look run_check
  apply Follows.get
  cases Api.check .atSign (s.rest ts) with
  | true =>
      refine (follows_parseRoute hs).mapBoth fun route r hroute => ?_
      rw [hroute]
      rfl
  | false => exact follows_skip_item hs hlt Route.api routes

theorem follows_parseService (hs : Sound ts s) :
    Follows ts s (parseService u) (Api.parseService u) (fun service s' => service = s'.api) := by
  refine (follows_expectIdent hs _).bind fun _ _ s₁ hs₁ _ => ?_
  refine (follows_expectIdentStr hs₁).bind fun name _ s₂ hs₂ hname => ?_
  refine (follows_expect hs₂ _).bind fun _ _ s₃ hs₃ _ => ?_
  refine (follows_untilClosed turnFollows_routeTurn takesTurn_routeTurn hs₃).map ?_
  rintro _ _ ⟨turns, rfl, rfl⟩
  rw [foldl_addItem, List.nil_append, hname]
  rfl

theorem declarationTurn_of_keyword {ident : String} {l : List Token}
    (hident : Api.peekIdent l = some ident) (hversion : ident ≠ "syntax") (hinfo : ident ≠ "info")
    (htype : ident ≠ "type") (hservice : ident ≠ "service") :
    Api.declarationTurn u l =
      Api.fail s!"unexpected keyword '{ident}' at line {Api.currentLine l}" := by
  have hget : ∀ g : List Token → Api.Parser (Turn Declaration), (get >>= g) l = g l l :=
    fun _ => rfl
  rw [Api.declarationTurn, hget, hident]
  change _ = (liftM (Api.fail _) : Api.Parser (Turn Declaration)) l
  refine congrFun ?_ l
  split
  · exact absurd (Option.some.inj ‹some ident = some "syntax"›) hversion
  · exact absurd (Option.some.inj ‹some ident = some "info"›) hinfo
  · exact absurd (Option.some.inj ‹some ident = some "type"›) htype
  · exact absurd (Option.some.inj ‹some ident = some "service"›) hservice
  · rename_i heq
    rw [Option.some.inj heq]
  · rename_i heq
    cases heq

theorem turnFollows_declarationTurn :
    TurnFollows (declarationTurn u) (Api.declarationTurn u) ApiFile.declare := by
  intro api ts s hs hlt
  apply Follows.look run_peekIdent
  split
  · rename_i hident
    apply Follows.get
    rw [hident]
    refine (follows_parseSyntax hs).mapBoth fun value _ hvalue => ?_
    rw [hvalue]
    rfl
  · rename_i hident
    apply Follows.get
    rw [hident]
    refine (follows_parseInfo hs).mapBoth fun pairs turns hpairs => ?_
    rw [hpairs]
    rfl
  · rename_i hident
    apply Follows.get
    rw [hident]
    refine (follows_parseTypeDef hs).mapBoth fun t def_ ht => ?_
    rw [ht]
    rfl
  · rename_i hident
    apply Follows.get
    rw [hident]
    refine (follows_parseService hs).mapBoth fun service s' hservice => ?_
    rw [hservice]
    rfl
  · rename_i ident hversion hinfo htype hservice hident
    apply Follows.look run_currentLine
    exact .error rfl (declarationTurn_of_keyword hident hversion hinfo htype hservice)
  · rename_i hident
    apply Follows.get
    rw [hident]
    refine (follows_skip hs hlt api).imp ?_
    rintro _ _ ⟨rfl, kind, rfl⟩
    rfl

theorem goesOn_parse (turn : β → Parser β) :
    GoesOn (fun _ => false) turn (fun b => do
      if ← isEof then return .done b
      let b ← turn b
      skipNewlines
      return .yield b) := by
  intro b ts s
  rw [bind_of_ok run_isEof, Bool.false_or]
  cases Api.isEof (s.rest ts) <;> rfl

theorem follows_parse (hs : Sound ts s) :
    Follows ts s (parse u) (Api.parseDocument u) (fun api doc => api = doc.api) :=
  follows_loop turnFollows_declarationTurn takesTurn_declarationTurn (goesOn_parse _) _ hs

/-- On every slice of tokens the parser ends with the file of the document that the grammar reads
from them, or with the error of the grammar. -/
theorem parse_eq_parseDocument (u : Unicode) (tokens : List Token) :
    ((parse u).run tokens start).1 =
      (((parseDocument u).run tokens).map (fun r => r.1.api)).mapError .error := by
  have hparse : Follows tokens start (parse u) (parseDocument u) (fun api doc => api = doc.api) :=
    follows_parse (sound_start tokens)
  have hrun : (parseDocument u).run tokens = parseDocument u (start.rest tokens) := rfl
  rcases hparse.inv with ⟨_, doc, s, -, rfl, hslice, hlist⟩ | ⟨e, s, hslice, hlist⟩
  · rw [hrun, hslice, hlist]
    rfl
  · rw [hrun, hslice, hlist]
    rfl

/-- On the tokens of a text the parser is `parseApi`. -/
theorem parse_tokenize (u : Unicode) (source : String) :
    ((parse u).run (tokenize u source) start).1 = (parseApi u source).mapError .error := by
  rw [parse_eq_parseDocument, parseApi, readApi]
  cases (parseDocument u).run (tokenize u source) <;> rfl

end Rszero.Api.SliceParser
