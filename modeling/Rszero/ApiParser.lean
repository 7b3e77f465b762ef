import Mathlib.Data.List.Basic
import Rszero.ApiLexer
import Rszero.Error

/-!
# The parser of `.api` files

The parser goes through the tokens by recursive descent. Each of its four loops either reads an item
or skips a token that it does not expect, and goes on behind the newlines. The document has what the
turns of the loops read and skipped; the file is what they read, in which a later version or info
replaces an earlier one. A path is the texts of the tokens that may stand in it, as far as they
reach.
-/

namespace Rszero.Api

inductive RouteMethod
  | get
  | post
  | put
  | delete
  | patch
  | head
  deriving DecidableEq

structure ApiField where
  name : String
  ty : String
  tag : Option String
  deriving DecidableEq

structure ApiType where
  name : String
  fields : List ApiField
  deriving DecidableEq

structure ApiRoute where
  handler : String
  method : RouteMethod
  path : String
  request_type : Option String
  response_type : Option String
  deriving DecidableEq

structure ApiService where
  name : String
  routes : List ApiRoute
  deriving DecidableEq

structure ApiFile where
  syntaxVersion : String
  info : List (String × String)
  types : List ApiType
  services : List ApiService
  deriving DecidableEq

/-- A turn of a loop reads an item or skips a token. -/
inductive Turn (α : Type)
  | read (a : α)
  | skip (kind : TokenKind)
  deriving DecidableEq

def Turn.item {α : Type} : Turn α → Option α
  | .read a => some a
  | .skip _ => none

structure TypeDef where
  name : String
  turns : List (Turn ApiField)
  deriving DecidableEq

/-- A route with its method as it is written, and the tokens of its path. -/
structure Route where
  handler : String
  spelling : String
  method : RouteMethod
  pieces : List TokenKind
  request_type : Option String
  response_type : Option String
  deriving DecidableEq

structure Service where
  name : String
  turns : List (Turn Route)
  deriving DecidableEq

inductive Declaration
  | version (value : String)
  | info (turns : List (Turn (String × String)))
  | type (def_ : TypeDef)
  | service (service : Service)
  deriving DecidableEq

abbrev Document := List (Turn Declaration)

def TokenKind.pathText : TokenKind → Option String
  | .ident s | .number s => some s
  | .colon => some ":"
  | .slash | .unknown '/' => some "/"
  | _ => none

def pathText (pieces : List TokenKind) : String :=
  String.ofList (pieces.flatMap (fun kind => (kind.pathText.getD "").toList))

def TypeDef.api (t : TypeDef) : ApiType := ⟨t.name, t.turns.filterMap Turn.item⟩

def Route.api (r : Route) : ApiRoute :=
  ⟨r.handler, r.method, pathText r.pieces, r.request_type, r.response_type⟩

def Service.api (s : Service) : ApiService :=
  ⟨s.name, (s.turns.filterMap Turn.item).map Route.api⟩

def ApiFile.declare (api : ApiFile) : Turn Declaration → ApiFile
  | .read (.version value) => { api with syntaxVersion := value }
  | .read (.info turns) => { api with info := turns.filterMap Turn.item }
  | .read (.type t) => { api with types := api.types ++ [t.api] }
  | .read (.service s) => { api with services := api.services ++ [s.api] }
  | .skip _ => api

def Document.api (doc : Document) : ApiFile := doc.foldl ApiFile.declare ⟨"v1", [], [], []⟩

def TokenKind.debug (u : Unicode) : TokenKind → String
  | .eof => "Eof"
  | .newline => "Newline"
  | .ident s => s!"Ident({u.debugStr s})"
  | .string s => s!"String({u.debugStr s})"
  | .number s => s!"Number({u.debugStr s})"
  | .lBrace => "LBrace"
  | .rBrace => "RBrace"
  | .lParen => "LParen"
  | .rParen => "RParen"
  | .lBracket => "LBracket"
  | .rBracket => "RBracket"
  | .colon => "Colon"
  | .semi => "Semi"
  | .comma => "Comma"
  | .eq => "Eq"
  | .star => "Star"
  | .atSign => "At"
  | .slash => "Slash"
  | .backtick s => s!"Backtick({u.debugStr s})"
  | .unknown c => s!"Unknown({u.debugChar c})"

def Token.debug (u : Unicode) (token : Token) : String :=
  "Token \x7b kind: " ++ token.kind.debug u ++ s!", line: {token.line}, column: {token.column} \x7d"

abbrev Parser (α : Type) := StateT (List Token) (Except RszeroError) α

/-- The token kind without what it holds. -/
def TokenKind.variant : TokenKind → TokenKind
  | .ident _ => .ident ""
  | .string _ => .string ""
  | .number _ => .number ""
  | .backtick _ => .backtick ""
  | .unknown _ => .unknown ' '
  | kind => kind

def currentLine (ts : List Token) : ℕ := (ts.head?.map Token.line).getD 0

def isEof (ts : List Token) : Bool :=
  match ts.head? with
  | none => true
  | some token => token.kind == .eof

def peekIdent (ts : List Token) : Option String :=
  match ts.head? with
  | some ⟨.ident s, _, _⟩ => some s
  | _ => none

def check (kind : TokenKind) (ts : List Token) : Bool :=
  match ts.head? with
  | some token => token.kind.variant == kind.variant
  | none => false

def skipNewlines (ts : List Token) : List Token := ts.dropWhile (fun t => t.kind == .newline)

def got (u : Unicode) (ts : List Token) : String :=
  match ts.head? with
  | some token => s!"Some({token.debug u})"
  | none => "None"

def fail {α : Type} (message : String) : Except RszeroError α := .error (.internal message none)

variable (u : Unicode)

def expect (kind : TokenKind) : Parser Unit := fun ts =>
  if check kind ts then .ok ((), ts.tail)
  else fail s!"expected {kind.debug u} at line {currentLine ts}, got {got u ts}"

def expectIdent (expected : String) : Parser Unit := fun ts =>
  if peekIdent ts = some expected then .ok ((), ts.tail)
  else fail s!"expected '{expected}' at line {currentLine ts}, got {got u ts}"

def expectIdentStr : Parser String := fun ts =>
  match peekIdent ts with
  | some s => .ok (s, ts.tail)
  | none => fail s!"expected identifier at line {currentLine ts}, got {got u ts}"

def expectString : Parser String := fun ts =>
  match ts.head? with
  | some ⟨.string s, _, _⟩ => .ok (s, ts.tail)
  | _ => fail s!"expected string at line {currentLine ts}, got {got u ts}"

def expectBacktick : Parser String := fun ts =>
  match ts.head? with
  | some ⟨.backtick s, _, _⟩ => .ok (s, ts.tail)
  | _ => fail s!"expected backtick string at line {currentLine ts}, got {got u ts}"

def expectPath : Parser (List TokenKind) := fun ts =>
  let pieces := (ts.takeWhile (fun t => t.kind.pathText.isSome)).map Token.kind
  let rest := ts.dropWhile (fun t => t.kind.pathText.isSome)
  if pathText pieces = "" then fail s!"expected path at line {currentLine rest}"
  else .ok (pieces, rest)

def turns {α : Type} (closes : List Token → Bool) (body : Parser α) : ℕ → Parser (List α)
  | 0 => pure []
  | fuel + 1 => do
      let ts ← get
      if closes ts || isEof ts then return []
      let turn ← body
      modify skipNewlines
      let rest ← turns closes body fuel
      return turn :: rest

def loop {α : Type} (closes : List Token → Bool) (body : Parser α) : Parser (List α) := do
  modify skipNewlines
  let ts ← get
  turns closes body (ts.length + 1)

def skip {α : Type} : Parser (Turn α) := fun ts =>
  match ts with
  | [] => fail "no token to skip"
  | token :: rest => .ok (.skip token.kind, rest)

def parseSyntax : Parser String := do
  expectIdent u "syntax"
  expect u .eq
  expectString u

def infoTurn : Parser (Turn (String × String)) := do
  match peekIdent (← get) with
  | some _ => do
      let key ← expectIdentStr u
      expect u .colon
      let value ← expectString u
      return .read (key, value)
  | none => skip

def parseInfo : Parser (List (Turn (String × String))) := do
  expectIdent u "info"
  expect u .lParen
  let pairs ← loop (check .rParen) (infoTurn u)
  expect u .rParen
  return pairs

def fieldTurn : Parser (Turn ApiField) := do
  match peekIdent (← get) with
  | some _ => do
      let name ← expectIdentStr u
      let ty ← expectIdentStr u
      if check (.backtick "") (← get) then
        let tag ← expectBacktick u
        return .read ⟨name, ty, some tag⟩
      else return .read ⟨name, ty, none⟩
  | none => skip

def parseTypeDef : Parser TypeDef := do
  expectIdent u "type"
  let name ← expectIdentStr u
  expect u .lBrace
  let fields ← loop (check .rBrace) (fieldTurn u)
  expect u .rBrace
  return ⟨name, fields⟩

def routeMethod (spelling : String) : Except RszeroError RouteMethod :=
  match u.toLowercase spelling with
  | "get" => .ok .get
  | "post" => .ok .post
  | "put" => .ok .put
  | "delete" => .ok .delete
  | "patch" => .ok .patch
  | "head" => .ok .head
  | other => fail s!"unknown HTTP method: {other}"

def typeInParens : Parser String := do
  expect u .lParen
  let name ← expectIdentStr u
  expect u .rParen
  return name

def requestType : Parser (Option String) := do
  if check .lParen (← get) then return some (← typeInParens u)
  else return none

def responseType : Parser (Option String) := do
  if peekIdent (← get) = some "returns" then
    expectIdent u "returns"
    return some (← typeInParens u)
  else return none

def parseRoute : Parser Route := do
  expect u .atSign
  expectIdent u "handler"
  let handler ← expectIdentStr u
  modify skipNewlines
  let spelling ← expectIdentStr u
  let method ← routeMethod u spelling
  let pieces ← expectPath
  let request_type ← requestType u
  let response_type ← responseType u
  return ⟨handler, spelling, method, pieces, request_type, response_type⟩

def routeTurn : Parser (Turn Route) := do
  if check .atSign (← get) then return .read (← parseRoute u)
  else skip

def parseService : Parser Service := do
  expectIdent u "service"
  let name ← expectIdentStr u
  expect u .lBrace
  let routes ← loop (check .rBrace) (routeTurn u)
  expect u .rBrace
  return ⟨name, routes⟩

def declarationTurn : Parser (Turn Declaration) := do
  let ts ← get
  match peekIdent ts with
  | some "syntax" => return .read (.version (← parseSyntax u))
  | some "info" => return .read (.info (← parseInfo u))
  | some "type" => return .read (.type (← parseTypeDef u))
  | some "service" => return .read (.service (← parseService u))
  | some ident => fail s!"unexpected keyword '{ident}' at line {currentLine ts}"
  | none => skip

def parseDocument : Parser Document := loop (fun _ => false) (declarationTurn u)

def readApi (source : String) : Except RszeroError Document :=
  ((parseDocument u).run (tokenize u source)).map Prod.fst

def parseApi (source : String) : Except RszeroError ApiFile := (readApi u source).map Document.api

end Rszero.Api
