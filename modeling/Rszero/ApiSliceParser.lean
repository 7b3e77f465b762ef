import Rszero.ApiParser
import Rszero.Cursor

/-!
# The parser on a slice of tokens

`Parser` has a slice of tokens and a position in it. Here every step of the source is a step of the
cursor: `is_eof` indexes the slice, `peek` does not, and `advance` moves the position. The slice
need not have an end of the file.
-/

namespace Rszero.Api.SliceParser

open Cursor

abbrev Parser (α : Type) := Program Token RszeroError α

def fail {α : Type} (message : String) : Parser α := Program.fail (.internal message none)

def peek : Parser (Option Token) := Program.peek

def advance : Parser Unit := Program.advance

def currentLine : Parser ℕ := do return ((← peek).map Token.line).getD 0

def isEof : Parser Bool := do
  if ← Program.atEnd then return true
  else return (← Program.index).kind == .eof

def peekIdent : Parser (Option String) := do
  match ← peek with
  | some ⟨.ident s, _, _⟩ => return some s
  | _ => return none

def check (kind : TokenKind) : Parser Bool := do
  match ← peek with
  | some t => return t.kind.variant == kind.variant
  | none => return false

def skipNewlines : Parser Unit :=
  Program.loop () fun _ => do
    if ← check .newline then
      advance
      return .yield ()
    else return .done ()

variable (u : Unicode)

def debugPeek : Parser String := do
  match ← peek with
  | some t => return s!"Some({t.debug u})"
  | none => return "None"

def unexpected {α : Type} (expected : String) : Parser α := do
  fail s!"expected {expected} at line {← currentLine}, got {← debugPeek u}"

def expect (kind : TokenKind) : Parser Unit := do
  if ← check kind then advance
  else unexpected u (kind.debug u)

def expectIdent (expected : String) : Parser Unit := do
  if (← peekIdent) = some expected then advance
  else unexpected u s!"'{expected}'"

def expectIdentStr : Parser String := do
  match ← peekIdent with
  | some s => do
      advance
      return s
  | none => unexpected u "identifier"

def expectString : Parser String := do
  match ← peek with
  | some ⟨.string s, _, _⟩ => do
      advance
      return s
  | _ => unexpected u "string"

def expectBacktick : Parser String := do
  match ← peek with
  | some ⟨.backtick s, _, _⟩ => do
      advance
      return s
  | _ => unexpected u "backtick string"

def expectPath : Parser String := do
  let path ← Program.loop "" fun path => do
    match (← peek).bind (fun t => t.kind.pathText) with
    | some text => do
        advance
        return .yield (path ++ text)
    | none => return .done path
  if path = "" then fail s!"expected path at line {← currentLine}"
  else return path

def parseSyntax : Parser String := do
  expectIdent u "syntax"
  expect u .eq
  expectString u

/-- The turns of a loop up to a closing token, which is expected after them. -/
def untilClosed {β : Type} (close : TokenKind) (b : β) (turn : β → Parser β) : Parser β := do
  skipNewlines
  let b ← Program.loop b fun b => do
    if ← check close then return .done b
    if ← isEof then return .done b
    let b ← turn b
    skipNewlines
    return .yield b
  expect u close
  return b

def infoTurn (pairs : List (String × String)) : Parser (List (String × String)) := do
  match ← peekIdent with
  | some key => do
      advance
      expect u .colon
      let value ← expectString u
      return pairs ++ [(key, value)]
  | none => do
      advance
      return pairs

def parseInfo : Parser (List (String × String)) := do
  expectIdent u "info"
  expect u .lParen
  untilClosed u .rParen [] (infoTurn u)

def parseTag : Parser (Option String) := do
  if ← check (.backtick "") then return some (← expectBacktick u)
  else return none

def fieldTurn (fields : List ApiField) : Parser (List ApiField) := do
  match ← peekIdent with
  | some name => do
      advance
      let ty ← expectIdentStr u
      let tag ← parseTag u
      return fields ++ [⟨name, ty, tag⟩]
  | none => do
      advance
      return fields

def parseTypeDef : Parser ApiType := do
  expectIdent u "type"
  let name ← expectIdentStr u
  expect u .lBrace
  let fields ← untilClosed u .rBrace [] (fieldTurn u)
  return ⟨name, fields⟩

def typeInParens : Parser String := do
  expect u .lParen
  let name ← expectIdentStr u
  expect u .rParen
  return name

def requestType : Parser (Option String) := do
  if ← check .lParen then return some (← typeInParens u)
  else return none

def responseType : Parser (Option String) := do
  if (← peekIdent) = some "returns" then
    advance
    return some (← typeInParens u)
  else return none

def parseRoute : Parser ApiRoute := do
  expect u .atSign
  expectIdent u "handler"
  let handler ← expectIdentStr u
  skipNewlines
  let spelling ← expectIdentStr u
  let method ← Program.liftExcept (routeMethod u spelling)
  let path ← expectPath
  let request_type ← requestType u
  let response_type ← responseType u
  return ⟨handler, method, path, request_type, response_type⟩

def routeTurn (routes : List ApiRoute) : Parser (List ApiRoute) := do
  if ← check .atSign then
    let route ← parseRoute u
    return routes ++ [route]
  else
    advance
    return routes

def parseService : Parser ApiService := do
  expectIdent u "service"
  let name ← expectIdentStr u
  expect u .lBrace
  let routes ← untilClosed u .rBrace [] (routeTurn u)
  return ⟨name, routes⟩

def declarationTurn (api : ApiFile) : Parser ApiFile := do
  match ← peekIdent with
  | some "syntax" => do
      let value ← parseSyntax u
      return { api with syntaxVersion := value }
  | some "info" => do
      let pairs ← parseInfo u
      return { api with info := pairs }
  | some "type" => do
      let t ← parseTypeDef u
      return { api with types := api.types ++ [t] }
  | some "service" => do
      let service ← parseService u
      return { api with services := api.services ++ [service] }
  | some ident => do
      fail s!"unexpected keyword '{ident}' at line {← currentLine}"
  | none => do
      advance
      return api

def parse : Parser ApiFile := do
  skipNewlines
  Program.loop ⟨"v1", [], [], []⟩ fun api => do
    if ← isEof then return .done api
    let api ← declarationTurn u api
    skipNewlines
    return .yield api

/-- The position is at an end of the file or behind the tokens. -/
def AtEof (tokens : List Token) (pos : ℕ) : Prop := ∀ t ∈ tokens[pos]?, t.kind = .eof

section Rules

variable {u} {ts : List Token} {s : Cursor} {α β : Type} {close kind : TokenKind}

/-- The function consumes a token or fails. -/
def Consumes (p : Parser α) : Prop :=
  ∀ ts s, Sound ts s → Meets ts p s (fun _ pos => s.pos < pos)

def Ends (p : Parser α) : Prop := ∀ ts s, Sound ts s → Meets ts p s (fun _ _ => True)

theorem Ends.bind {p : Parser α} {f : α → Parser β} (h : Ends p) (hf : ∀ a, Ends (f a)) :
    Ends (p >>= f) :=
  fun ts s hs => (h ts s hs).bind (fun a s' hs' _ _ => hf a ts s' hs')

theorem Consumes.bind {p : Parser α} {f : α → Parser β} (h : Consumes p) (hf : ∀ a, Ends (f a)) :
    Consumes (p >>= f) := by
  intro ts s hs
  refine (h ts s hs).bind fun a s' hs' _ hlt => ?_
  exact (hf a ts s' hs').imp (fun _ _ hle _ => hlt.trans_le hle)

theorem Consumes.ends {p : Parser α} (h : Consumes p) : Ends p :=
  fun ts s hs => (h ts s hs).imp (fun _ _ _ _ => trivial)

theorem ends_pure (a : α) : Ends (pure a : Parser α) := fun _ _ hs => .pure hs trivial

theorem ends_advance : Ends advance := fun _ _ hs => (Meets.advance hs).imp (fun _ _ _ _ => trivial)

theorem consumes_fail (message : String) : Consumes (fail message : Parser α) :=
  fun _ _ hs => .fail hs

theorem lt_of_getElem? {t : Token} (h : ts[s.pos]? = some t) : s.pos < ts.length :=
  (List.getElem?_eq_some_iff.1 h).1

theorem meets_isEof (h : Sound ts s) :
    Meets ts isEof s (fun b pos => pos = s.pos ∧ (b = false → pos < ts.length) ∧
      (b → AtEof ts pos)) := by
  refine (Meets.atEnd h).bind fun b s' hs' _ hb => ?_
  obtain ⟨hb, hpos⟩ := hb
  cases b with
  | true =>
      refine .pure hs' ⟨hpos, nofun, fun _ t ht => ?_⟩
      rw [List.getElem?_eq_none (hb.1 rfl)] at ht
      cases ht
  | false =>
      have hlt : s'.pos < ts.length := not_le.1 (fun hle => Bool.false_ne_true (hb.2 hle))
      refine (Meets.index hs' hlt).bind fun t s'' hs'' _ ht => ?_
      obtain ⟨ht, hpos'⟩ := ht
      refine .pure hs'' ⟨hpos'.trans hpos, fun _ => hpos' ▸ hlt, fun heof t' ht' => ?_⟩
      obtain rfl := Option.some.inj (ht.symm.trans ht')
      exact eq_of_beq heof

theorem meets_peekIdent (h : Sound ts s) : Meets ts peekIdent s
    (fun o pos => pos = s.pos ∧ (o.isSome → pos < ts.length)) := by
  refine (Meets.peek h).bind fun o s' hs' _ ho => ?_
  obtain ⟨rfl, hpos⟩ := ho
  split
  · rename_i ht
    exact .pure hs' ⟨hpos, fun _ => lt_of_getElem? ht⟩
  · exact .pure hs' ⟨hpos, nofun⟩

theorem meets_check (h : Sound ts s) : Meets ts (check kind) s
    (fun b pos => pos = s.pos ∧ (b → pos < ts.length)) := by
  refine (Meets.peek h).bind fun o s' hs' _ ho => ?_
  obtain ⟨ho, hpos⟩ := ho
  cases o with
  | none => exact .pure hs' ⟨hpos, nofun⟩
  | some t => exact .pure hs' ⟨hpos, fun _ => lt_of_getElem? ho.symm⟩

/-- Moving on from inside the slice consumes a token. -/
theorem meets_advance (h : Sound ts s) (hlt : s.pos < ts.length) :
    Meets ts advance s (fun _ pos => s.pos < pos) :=
  (Meets.advance h).imp (fun _ _ _ hpos => (hpos hlt).symm ▸ Nat.lt_succ_self _)

theorem meets_take (h : Sound ts s) (hlt : s.pos < ts.length) (a : α) :
    Meets ts (do
      advance
      return a) s (fun _ pos => s.pos < pos) :=
  (meets_advance h hlt).bind (fun _ _ hs' _ hlt' => .pure hs' hlt')

theorem ends_peek : Ends peek := fun _ _ hs => (Meets.peek hs).imp (fun _ _ _ _ => trivial)

theorem ends_check (kind : TokenKind) : Ends (check kind) :=
  fun _ _ hs => (meets_check hs).imp (fun _ _ _ _ => trivial)

theorem ends_peekIdent : Ends peekIdent :=
  fun _ _ hs => (meets_peekIdent hs).imp (fun _ _ _ _ => trivial)

theorem ends_currentLine : Ends currentLine := ends_peek.bind (fun _ => ends_pure _)

theorem ends_debugPeek : Ends (debugPeek u) := by
  refine ends_peek.bind fun o => ?_
  cases o with
  | none => exact ends_pure _
  | some t => exact ends_pure _

theorem consumes_unexpected (expected : String) :
    Consumes (unexpected u expected : Parser α) := by
  intro ts s hs
  refine (ends_currentLine ts s hs).bind fun line s₁ hs₁ _ _ => ?_
  exact (ends_debugPeek ts s₁ hs₁).bind (fun got s₂ hs₂ _ _ => .fail hs₂)

theorem consumes_expect (kind : TokenKind) : Consumes (expect u kind) := by
  intro ts s hs
  refine (meets_check hs).bind fun b s₁ hs₁ _ hb => ?_
  obtain ⟨hpos, hlt⟩ := hb
  rw [← hpos]
  cases b with
  | true => exact meets_advance hs₁ (hlt rfl)
  | false => exact consumes_unexpected _ ts s₁ hs₁

theorem consumes_expectIdent (expected : String) : Consumes (expectIdent u expected) := by
  intro ts s hs
  refine (meets_peekIdent hs).bind fun o s₁ hs₁ _ ho => ?_
  obtain ⟨hpos, hlt⟩ := ho
  rw [← hpos]
  split_ifs with heq
  · exact meets_advance hs₁ (hlt (heq ▸ rfl))
  · exact consumes_unexpected _ ts s₁ hs₁

theorem consumes_expectIdentStr : Consumes (expectIdentStr u) := by
  intro ts s hs
  refine (meets_peekIdent hs).bind fun o s₁ hs₁ _ ho => ?_
  obtain ⟨hpos, hlt⟩ := ho
  rw [← hpos]
  cases o with
  | some name => exact meets_take hs₁ (hlt rfl) name
  | none => exact consumes_unexpected _ ts s₁ hs₁

theorem consumes_expectString : Consumes (expectString u) := by
  intro ts s hs
  refine (Meets.peek hs).bind fun o s₁ hs₁ _ ho => ?_
  obtain ⟨ho, hpos⟩ := ho
  rw [← hpos]
  split
  · exact meets_take hs₁ (lt_of_getElem? ho.symm) _
  · exact consumes_unexpected _ ts s₁ hs₁

theorem consumes_expectBacktick : Consumes (expectBacktick u) := by
  intro ts s hs
  refine (Meets.peek hs).bind fun o s₁ hs₁ _ ho => ?_
  obtain ⟨ho, hpos⟩ := ho
  rw [← hpos]
  split
  · exact meets_take hs₁ (lt_of_getElem? ho.symm) _
  · exact consumes_unexpected _ ts s₁ hs₁

theorem ends_skipNewlines : Ends skipNewlines := by
  intro ts s hs
  refine Meets.loop hs fun _ s₁ hs₁ _ => (meets_check hs₁).bind fun b s₂ hs₂ _ hb => ?_
  obtain ⟨hpos, hlt⟩ := hb
  rw [← hpos]
  cases b with
  | true =>
      exact (meets_advance hs₂ (hlt rfl)).bind (fun _ s₃ hs₃ _ hlt' => .pure hs₃ hlt')
  | false => exact .pure hs₂ trivial

theorem ends_expectPath : Ends expectPath := by
  have hloop : Ends (Program.loop "" fun path => do
      match (← peek).bind (fun t => t.kind.pathText) with
      | some text => do
          advance
          return .yield (path ++ text)
      | none => return .done path) := by
    intro ts s hs
    refine Meets.loop hs fun path s₁ hs₁ _ => (Meets.peek hs₁).bind fun o s₂ hs₂ _ ho => ?_
    obtain ⟨ho, hpos⟩ := ho
    rw [← hpos]
    cases o with
    | none => exact .pure hs₂ trivial
    | some t =>
        rw [Option.bind_some]
        split
        · exact (meets_advance hs₂ (lt_of_getElem? ho.symm)).bind
            (fun _ s₃ hs₃ _ hlt => .pure hs₃ hlt)
        · exact .pure hs₂ trivial
  refine hloop.bind fun path => ?_
  split_ifs
  · exact ends_currentLine.bind (fun _ => (consumes_fail _).ends)
  · exact ends_pure _

def TakesTurn (turn : β → Parser β) : Prop :=
  ∀ b ts s, Sound ts s → s.pos < ts.length → Meets ts (turn b) s (fun _ pos => s.pos < pos)

theorem ends_untilClosed {b : β} {turn : β → Parser β} (hturn : TakesTurn turn) :
    Ends (untilClosed u close b turn) := by
  have hloop : Ends (Program.loop b fun b => do
      if ← check close then return .done b
      if ← isEof then return .done b
      let b ← turn b
      skipNewlines
      return .yield b) := by
    intro ts s hs
    refine Meets.loop hs fun b s₁ hs₁ _ => (meets_check hs₁).bind fun closed s₂ hs₂ _ hc => ?_
    rw [← hc.1]
    cases closed with
    | true => exact .pure hs₂ trivial
    | false =>
        refine (meets_isEof hs₂).bind fun eof s₃ hs₃ _ heof => ?_
        obtain ⟨hpos, hlt, -⟩ := heof
        rw [← hpos]
        cases eof with
        | true => exact .pure hs₃ trivial
        | false =>
            refine (hturn b ts s₃ hs₃ (hlt rfl)).bind fun b' s₄ hs₄ _ hlt' => ?_
            refine (ends_skipNewlines ts s₄ hs₄).bind fun _ s₅ hs₅ hle _ => ?_
            exact .pure hs₅ (hlt'.trans_le hle)
  exact ends_skipNewlines.bind fun _ => hloop.bind fun _ =>
    (consumes_expect _).ends.bind fun _ => ends_pure _

/-- A turn that looks at an identifier, and that skips a token which is none. -/
theorem takesTurn_of_ident {turn : β → Parser β} {read : β → String → Parser β}
    (hread : ∀ b name, Ends (read b name))
    (hturn : ∀ b, turn b = (do
      match ← peekIdent with
      | some name => do
          advance
          read b name
      | none => do
          advance
          return b)) : TakesTurn turn := by
  intro b ts s hs hlt
  rw [hturn]
  refine (meets_peekIdent hs).bind fun o s₁ hs₁ _ ho => ?_
  rw [← ho.1] at hlt ⊢
  cases o with
  | some name =>
      refine (meets_advance hs₁ hlt).bind fun _ s₂ hs₂ _ hlt' => ?_
      exact (hread b name ts s₂ hs₂).imp (fun _ _ hle _ => hlt'.trans_le hle)
  | none => exact meets_take hs₁ hlt b

theorem consumes_parseSyntax : Consumes (parseSyntax u) :=
  (consumes_expectIdent _).bind fun _ =>
    (consumes_expect _).ends.bind fun _ => consumes_expectString.ends

theorem takesTurn_infoTurn : TakesTurn (infoTurn u) := by
  refine takesTurn_of_ident (fun pairs key => ?_) (fun _ => rfl)
  exact (consumes_expect _).ends.bind fun _ => consumes_expectString.ends.bind fun _ => ends_pure _

theorem consumes_parseInfo : Consumes (parseInfo u) :=
  (consumes_expectIdent _).bind fun _ => (consumes_expect _).ends.bind fun _ =>
    ends_untilClosed takesTurn_infoTurn

theorem ends_parseTag : Ends (parseTag u) := by
  refine (ends_check _).bind fun b => ?_
  cases b with
  | true => exact consumes_expectBacktick.ends.bind (fun _ => ends_pure _)
  | false => exact ends_pure _

theorem takesTurn_fieldTurn : TakesTurn (fieldTurn u) := by
  refine takesTurn_of_ident (fun fields name => ?_) (fun _ => rfl)
  exact consumes_expectIdentStr.ends.bind fun _ => ends_parseTag.bind fun _ => ends_pure _

theorem consumes_parseTypeDef : Consumes (parseTypeDef u) :=
  (consumes_expectIdent _).bind fun _ => consumes_expectIdentStr.ends.bind fun _ =>
    (consumes_expect _).ends.bind fun _ =>
      (ends_untilClosed takesTurn_fieldTurn).bind fun _ => ends_pure _

theorem ends_typeInParens : Ends (typeInParens u) :=
  (consumes_expect _).ends.bind fun _ => consumes_expectIdentStr.ends.bind fun _ =>
    (consumes_expect _).ends.bind fun _ => ends_pure _

theorem ends_requestType : Ends (requestType u) := by
  refine (ends_check _).bind fun b => ?_
  cases b with
  | true => exact ends_typeInParens.bind (fun _ => ends_pure _)
  | false => exact ends_pure _

theorem ends_responseType : Ends (responseType u) := by
  refine ends_peekIdent.bind fun o => ?_
  split_ifs with ho
  · exact ends_advance.bind fun _ => ends_typeInParens.bind (fun _ => ends_pure _)
  · exact ends_pure _

theorem consumes_parseRoute : Consumes (parseRoute u) := by
  refine (consumes_expect _).bind fun _ => (consumes_expectIdent _).ends.bind fun _ =>
    consumes_expectIdentStr.ends.bind fun _ => ends_skipNewlines.bind fun _ =>
    consumes_expectIdentStr.ends.bind fun spelling => ?_
  have hmethod : Ends (Program.liftExcept (routeMethod u spelling)) :=
    fun _ _ hs => Meets.liftExcept hs (fun _ _ => trivial)
  exact hmethod.bind fun _ => ends_expectPath.bind fun _ => ends_requestType.bind fun _ =>
    ends_responseType.bind fun _ => ends_pure _

theorem takesTurn_routeTurn : TakesTurn (routeTurn u) := by
  intro routes ts s hs hlt
  refine (meets_check hs).bind fun b s₁ hs₁ _ hb => ?_
  rw [← hb.1] at hlt ⊢
  cases b with
  | true => exact (consumes_parseRoute.bind fun _ => ends_pure _) ts s₁ hs₁
  | false => exact meets_take hs₁ hlt routes

theorem consumes_parseService : Consumes (parseService u) :=
  (consumes_expectIdent _).bind fun _ => consumes_expectIdentStr.ends.bind fun _ =>
    (consumes_expect _).ends.bind fun _ =>
      (ends_untilClosed takesTurn_routeTurn).bind fun _ => ends_pure _

theorem takesTurn_declarationTurn : TakesTurn (declarationTurn u) := by
  intro api ts s hs hlt
  refine (meets_peekIdent hs).bind fun o s₁ hs₁ _ ho => ?_
  rw [← ho.1] at hlt ⊢
  split
  · exact (consumes_parseSyntax.bind fun _ => ends_pure _) ts s₁ hs₁
  · exact (consumes_parseInfo.bind fun _ => ends_pure _) ts s₁ hs₁
  · exact (consumes_parseTypeDef.bind fun _ => ends_pure _) ts s₁ hs₁
  · exact (consumes_parseService.bind fun _ => ends_pure _) ts s₁ hs₁
  · exact (ends_currentLine ts s₁ hs₁).bind (fun _ s₂ hs₂ _ _ => .fail hs₂)
  · exact meets_take hs₁ hlt api

theorem meets_parse (ts : List Token) :
    Meets ts (parse u) start (fun _ pos => AtEof ts pos) := by
  refine (ends_skipNewlines ts start (sound_start ts)).bind fun _ s hs _ _ => ?_
  refine Meets.loop hs fun api s₁ hs₁ _ => (meets_isEof hs₁).bind fun eof s₂ hs₂ _ heof => ?_
  obtain ⟨hpos, hlt, hend⟩ := heof
  rw [← hpos]
  cases eof with
  | true => exact .pure hs₂ (hend rfl)
  | false =>
      refine (takesTurn_declarationTurn api ts s₂ hs₂ (hlt rfl)).bind fun api' s₃ hs₃ _ hlt' => ?_
      refine (ends_skipNewlines ts s₃ hs₃).bind fun _ s₄ hs₄ hle _ => ?_
      exact .pure hs₄ (hlt'.trans_le hle)

end Rules

/-- The parser ends with an error or at an end of the file, without indexing out of bounds. The
position went ahead within the slice, and every turn of a loop that went on consumed a token. -/
theorem parse_in_bounds (u : Unicode) (tokens : List Token) :
    let r := (parse u).run tokens start
    ((∃ api, r.1 = .ok api ∧ AtEof tokens r.2.pos) ∨ ∃ e, r.1 = .error (.error e)) ∧
      (r.2.pos :: r.2.past).Pairwise (· ≥ ·) ∧ (∀ pos ∈ r.2.pos :: r.2.past, pos ≤ tokens.length) ∧
      ∀ i ∈ r.2.iterations, ∀ next, i.next = some next → i.start < next := by
  obtain ⟨hends, hsound, -⟩ := meets_parse (u := u) tokens
  exact ⟨hends, hsound.pairwise, hsound.mem_le, hsound.consumes⟩

end Rszero.Api.SliceParser
