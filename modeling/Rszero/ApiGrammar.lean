import Rszero.ApiParser

/-!
# The written form of `.api` files

The tokens of a document, one item a line, and its text, in which a blank follows every token but
those of a path. A document is valid when the parser may have read it from some tokens. It is clean
when nothing was skipped, nothing was declared over and every path is the tokens of its own text.
-/

namespace Rszero.Api

variable (u : Unicode)

/-- The tokens without the newlines. -/
def words (kinds : List TokenKind) : List TokenKind := kinds.filter (fun kind => kind ≠ .newline)

def Turn.kinds {α : Type} (kinds : α → List TokenKind) : Turn α → List TokenKind
  | .read a => kinds a
  | .skip kind => [kind]

def versionKinds (value : String) : List TokenKind :=
  [.ident "syntax", .eq, .string value, .newline]

def pairKinds (pair : String × String) : List TokenKind :=
  [.ident pair.1, .colon, .string pair.2, .newline]

def infoKinds (turns : List (Turn (String × String))) : List TokenKind :=
  [.ident "info", .lParen, .newline] ++ turns.flatMap (Turn.kinds pairKinds) ++ [.rParen, .newline]

def tagKinds : Option String → List TokenKind
  | none => []
  | some tag => [.backtick tag]

def ApiField.kinds (f : ApiField) : List TokenKind :=
  [.ident f.name, .ident f.ty] ++ tagKinds f.tag ++ [.newline]

def TypeDef.kinds (t : TypeDef) : List TokenKind :=
  [.ident "type", .ident t.name, .lBrace, .newline] ++
    t.turns.flatMap (Turn.kinds ApiField.kinds) ++ [.rBrace, .newline]

def parensKinds (name : String) : List TokenKind := [.lParen, .ident name, .rParen]

def requestKinds : Option String → List TokenKind
  | none => []
  | some name => parensKinds name

def responseKinds : Option String → List TokenKind
  | none => []
  | some name => .ident "returns" :: parensKinds name

def handlerKinds (handler spelling : String) : List TokenKind :=
  [.atSign, .ident "handler", .ident handler, .newline, .ident spelling]

def messageKinds (request_type response_type : Option String) : List TokenKind :=
  requestKinds request_type ++ responseKinds response_type ++ [.newline]

def Route.kinds (r : Route) : List TokenKind :=
  handlerKinds r.handler r.spelling ++ r.pieces ++ messageKinds r.request_type r.response_type

def serviceHead (name : String) : List TokenKind :=
  [.ident "service", .ident name, .lBrace, .newline]

def serviceEnd : List TokenKind := [.rBrace, .newline]

def Service.kinds (s : Service) : List TokenKind :=
  serviceHead s.name ++ s.turns.flatMap (Turn.kinds Route.kinds) ++ serviceEnd

def Declaration.kinds : Declaration → List TokenKind
  | .version value => versionKinds value
  | .info turns => infoKinds turns
  | .type t => t.kinds
  | .service s => s.kinds

def Document.kinds (doc : Document) : List TokenKind := doc.flatMap (Turn.kinds Declaration.kinds)

def TokenKind.text : TokenKind → List Char
  | .eof => []
  | .newline => ['\n']
  | .ident s | .number s => s.toList
  | .string s => '"' :: (s.toList ++ ['"'])
  | .lBrace => ['{']
  | .rBrace => ['}']
  | .lParen => ['(']
  | .rParen => [')']
  | .lBracket => ['[']
  | .rBracket => [']']
  | .colon => [':']
  | .semi => [';']
  | .comma => [',']
  | .eq => ['=']
  | .star => ['*']
  | .atSign => ['@']
  | .slash => ['/']
  | .backtick s => tagQuote :: (s.toList ++ [tagQuote])
  | .unknown c => [c]

def written (kinds : List TokenKind) : List Char := kinds.flatMap (fun kind => kind.text ++ [' '])

def routeText (handler spelling path : String) (request_type response_type : Option String) :
    List Char :=
  written (handlerKinds handler spelling) ++ (path.toList ++ [' ']) ++
    written (messageKinds request_type response_type)

def Route.text (r : Route) : List Char :=
  routeText r.handler r.spelling (pathText r.pieces) r.request_type r.response_type

def Turn.text {α : Type} (text : α → List Char) : Turn α → List Char
  | .read a => text a
  | .skip kind => written [kind]

def Service.text (s : Service) : List Char :=
  written (serviceHead s.name) ++ s.turns.flatMap (Turn.text Route.text) ++ written serviceEnd

def Declaration.text : Declaration → List Char
  | .version value => written (versionKinds value)
  | .info turns => written (infoKinds turns)
  | .type t => written t.kinds
  | .service s => s.text

def Document.print (doc : Document) : String :=
  String.ofList (doc.flatMap (Turn.text Declaration.text))

def RouteMethod.keyword : RouteMethod → String
  | .get => "get"
  | .post => "post"
  | .put => "put"
  | .delete => "delete"
  | .patch => "patch"
  | .head => "head"

def ApiRoute.text (r : ApiRoute) : List Char :=
  routeText r.handler r.method.keyword r.path r.request_type r.response_type

def ApiService.text (s : ApiService) : List Char :=
  written (serviceHead s.name) ++ s.routes.flatMap ApiRoute.text ++ written serviceEnd

def ApiType.text (t : ApiType) : List Char := written (TypeDef.kinds ⟨t.name, t.fields.map .read⟩)

def ApiFile.print (api : ApiFile) : String :=
  String.ofList (written (versionKinds api.syntaxVersion) ++
    written (infoKinds (api.info.map .read)) ++ api.types.flatMap ApiType.text ++
    api.services.flatMap ApiService.text)

/-- What a loop reads and what it skips. -/
def Turn.All {α : Type} (P : α → Prop) (stray : TokenKind → Prop) : Turn α → Prop
  | .read a => P a
  | .skip kind => stray kind

def TokenKind.isIdent : TokenKind → Bool
  | .ident _ => true
  | _ => false

def Route.Valid (r : Route) : Prop :=
  routeMethod u r.spelling = .ok r.method ∧ (∀ kind ∈ r.pieces, kind.pathText.isSome) ∧
    pathText r.pieces ≠ ""

/-- The token is skipped in a loop that reads an item from an identifier on. -/
def Stray (closer kind : TokenKind) : Prop := ¬ kind.isIdent ∧ kind ≠ .newline ∧ kind ≠ closer

def Declaration.Valid : Declaration → Prop
  | .version _ => True
  | .info turns => ∀ turn ∈ turns, turn.All (fun _ => True) (Stray .rParen)
  | .type t => ∀ turn ∈ t.turns, turn.All (fun _ => True) (Stray .rBrace)
  | .service s =>
      ∀ turn ∈ s.turns, turn.All (Route.Valid u) (fun kind => kind ∉ [.newline, .rBrace, .atSign])

def Document.Valid (doc : Document) : Prop :=
  ∀ turn ∈ doc, turn.All (Declaration.Valid u) (Stray .eof)

/-- The two tokens are lexed as one when nothing is between them, or as a comment. -/
def joined : TokenKind → TokenKind → Bool
  | .ident _, .ident _ | .ident _, .number _ | .number _, .number _ | .slash, .slash => true
  | _, _ => false

def Plain (pieces : List TokenKind) : Prop := pieces.IsChain (fun kind kind' => ¬ joined kind kind')

def Turn.Clean {α : Type} (P : α → Prop) (t : Turn α) : Prop := t.All P (fun _ => False)

def Declaration.Clean : Declaration → Prop
  | .version _ => True
  | .info turns => ∀ turn ∈ turns, turn.Clean (fun _ => True)
  | .type t => ∀ turn ∈ t.turns, turn.Clean (fun _ => True)
  | .service s => ∀ turn ∈ s.turns, turn.Clean (fun r : Route => Plain r.pieces)

def Declaration.isVersion : Declaration → Bool
  | .version _ => true
  | _ => false

def Declaration.isInfo : Declaration → Bool
  | .info _ => true
  | _ => false

/-- No token was skipped, no declaration was replaced, and every path is the tokens of its text. -/
structure Document.Clean (doc : Document) : Prop where
  turns : ∀ turn ∈ doc, turn.Clean Declaration.Clean
  version : (doc.filterMap Turn.item).countP Declaration.isVersion ≤ 1
  info : (doc.filterMap Turn.item).countP Declaration.isInfo ≤ 1

end Rszero.Api
