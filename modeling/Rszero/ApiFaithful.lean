import Rszero.ApiParses
import Rszero.ApiUnique

/-!
# Which texts are read as they are written

A text is read faithfully when its words are those of a printed document of its file. Of the texts
that are accepted these are the ones whose tokens have no gap: between the declarations, and between
the items in their braces, there are newlines only, no declaration replaces another one, and in no
path do two tokens run into one.
-/

namespace Rszero.Api

variable {u : Unicode} {source : String}

/-- A document of the grammar for the file. -/
structure Printing (u : Unicode) (api : ApiFile) (doc : Document) : Prop where
  clean : doc.Clean
  valid : doc.Valid u
  spelled : ∀ kind ∈ doc.kinds, Spelled u kind
  api_eq : doc.api = api

/-- The words of the text are those of a printing of the file. -/
def Faithful (u : Unicode) (source : String) (api : ApiFile) : Prop :=
  ∃ doc, Printing u api doc ∧ wordsOf (tokenize u source) = wordsOf (tokenize u doc.print)

theorem parseApi_eq_ok {api : ApiFile} :
    parseApi u source = .ok api ↔ ∃ doc, readApi u source = .ok doc ∧ doc.api = api := by
  rw [parseApi]
  cases readApi u source with
  | error e => exact ⟨nofun, nofun⟩
  | ok doc =>
      constructor
      · intro h
        exact ⟨doc, rfl, Except.ok.inj h⟩
      · rintro ⟨doc', h, rfl⟩
        rw [Except.ok.inj h]
        rfl

theorem spelled_tokenize {kind : TokenKind} (h : kind ∈ (tokenize u source).map Token.kind) :
    Spelled u kind := by
  rw [tokenize, Lexer.map_kind_tokenizeFrom] at h
  exact spelled_of_mem_scanAll h

theorem spelled_of_readApi {doc : Document} (h : readApi u source = .ok doc) :
    ∀ kind ∈ doc.kinds, Spelled u kind := by
  intro kind hkind
  obtain ⟨hwords, -⟩ := words_of_readApi h
  by_cases hnewline : kind = .newline
  · subst hnewline
    trivial
  · have hmem : kind ∈ words doc.kinds ++ [.eof] :=
      List.mem_append_left _ (List.mem_filter.2 ⟨hkind, decide_eq_true hnewline⟩)
    rw [← hwords] at hmem
    exact spelled_tokenize (mem_of_mem_words hmem)

/-- The words of a printed document are those of the document. -/
theorem Printing.words_print {api : ApiFile} {doc : Document} (h : Printing u api doc) :
    wordsOf (tokenize u doc.print) = words doc.kinds ++ [.eof] := by
  rw [wordsOf, Document.map_kind_tokenize_print h.clean h.valid h.spelled, words_append]
  rfl

theorem clean_of_printing {api : ApiFile} {doc doc' : Document} (h : readApi u source = .ok doc)
    (hdoc : doc.api = api) (hprinting : Printing u api doc')
    (hwords : wordsOf (tokenize u source) = wordsOf (tokenize u doc'.print)) : doc.Clean := by
  obtain ⟨hsource, hvalid⟩ := words_of_readApi h
  rw [hprinting.words_print, hsource] at hwords
  rw [Document.eq_of_words hvalid hprinting.valid (spelled_of_readApi h) hprinting.spelled
    hprinting.clean (hdoc.trans hprinting.api_eq.symm) (List.append_cancel_right hwords)]
  exact hprinting.clean

variable {ks : List TokenKind} {cs : List (List TokenKind)}

theorem begins_eq {d : Declaration} (hwritten : DeclarationWritten u ks)
    (hwords : words ks = words d.kinds) :
    d.isVersion = begins "syntax" ks ∧ d.isInfo = begins "info" ks := by
  cases hwritten <;> cases d <;>
    simp_all [Declaration.kinds, versionKinds, infoKinds, TypeDef.kinds, Service.kinds,
      serviceHead, words_cons, Declaration.isVersion, Declaration.isInfo, begins]

/-- The declarations are begun by their keywords. -/
theorem countP_begins {doc : Document} (h : List.Forall₂ (fun turn ks => ∃ d,
      turn = Turn.read d ∧ d.isVersion = begins "syntax" ks ∧ d.isInfo = begins "info" ks) doc cs) :
    (doc.filterMap Turn.item).countP Declaration.isVersion = cs.countP (begins "syntax") ∧
      (doc.filterMap Turn.item).countP Declaration.isInfo = cs.countP (begins "info") := by
  induction h with
  | nil => exact ⟨rfl, rfl⟩
  | @cons turn ks doc cs hturn _ ih =>
      obtain ⟨d, rfl, hversion, hinfo⟩ := hturn
      have hitem : (Turn.read d :: doc).filterMap Turn.item = d :: doc.filterMap Turn.item := rfl
      rw [hitem, List.countP_cons, List.countP_cons, List.countP_cons, List.countP_cons, ih.1, ih.2,
        hversion, hinfo]
      exact ⟨rfl, rfl⟩

theorem gapless_of_clean {doc : Document} (h : readApi u source = .ok doc) (hclean : doc.Clean) :
    Gapless u ((tokenize u source).map Token.kind) := by
  obtain ⟨cs, body, hbody, hspread, htook⟩ := took_of_readApi h
  obtain ⟨-, -, hwritten⟩ := Took.forall₂ htook
  have hturns := (List.forall₂_and_left doc cs).2 ⟨hclean.turns, htook⟩
  obtain ⟨hversion, hinfo⟩ := countP_begins (hturns.imp fun turn ks ⟨hturn, htaken⟩ => by
    cases turn with
    | read d => exact ⟨d, rfl, begins_eq (htaken.written hturn) htaken.words_eq⟩
    | skip kind => exact hturn.elim)
  exact ⟨cs, body, hbody, hspread, hwritten hclean.turns, hversion ▸ hclean.version,
    hinfo ▸ hclean.info⟩

theorem pair_of_written (ks : List TokenKind) (h : PairWritten ks) : ∃ turn : Turn _,
    Parses.Item (infoTurn u) (fun kind => kind.isIdent) .rParen turn ks ∧
      turn.Clean (fun _ => True) := by
  cases h with
  | mk key value => exact ⟨_, pair_item key value, trivial⟩

theorem field_of_written (ks : List TokenKind) (h : FieldWritten ks) : ∃ turn : Turn _,
    Parses.Item (fieldTurn u) (fun kind => kind.isIdent) .rBrace turn ks ∧
      turn.Clean (fun _ => True) := by
  cases h with
  | untagged name ty => exact ⟨_, field_item ⟨name, ty, none⟩, trivial⟩
  | tagged name ty tag => exact ⟨_, field_item ⟨name, ty, some tag⟩, trivial⟩

theorem route_of_written (ks : List TokenKind) (h : RouteWritten u ks) : ∃ turn : Turn _,
    Parses.Item (routeTurn u) (fun kind => kind = .atSign) .rBrace turn ks ∧
      turn.Clean (fun r => Plain r.pieces) := by
  cases h with
  | @mk handler newlines spelling method path messages hmethod hpath hmessages =>
      have hvalid (request_type response_type : Option String) :
          Route.Valid u ⟨handler, spelling, method, path, request_type, response_type⟩ :=
        ⟨hmethod, hpath.pieces, hpath.text_ne⟩
      cases hmessages with
      | none => exact ⟨_, route_item (hvalid none none) newlines, hpath.plain⟩
      | request name =>
          rw [← List.append_nil (parensKinds name)]
          exact ⟨_, route_item (hvalid (some name) none) newlines, hpath.plain⟩
      | both name name' =>
          exact ⟨_, route_item (hvalid (some name) (some name')) newlines, hpath.plain⟩

theorem declaration_of_written (ks : List TokenKind) (h : DeclarationWritten u ks) : ∃ turn,
    Parses.Item (declarationTurn u) (fun kind => kind.isIdent) .eof turn ks ∧
      turn.Clean Declaration.Clean ∧ ∃ d, turn = .read d ∧
        d.isVersion = begins "syntax" ks ∧ d.isInfo = begins "info" ks := by
  cases h with
  | version value => exact ⟨_, version_item value, trivial, _, rfl, rfl, rfl⟩
  | info hbody =>
      obtain ⟨turns, cs, hclean, hitems, hspread⟩ := exists_items pair_of_written hbody
      exact ⟨_, info_item hitems hspread, hclean, _, rfl, rfl, rfl⟩
  | type name hbody =>
      obtain ⟨turns, cs, hclean, hitems, hspread⟩ := exists_items field_of_written hbody
      exact ⟨_, type_item name hitems hspread, hclean, _, rfl, rfl, rfl⟩
  | service name hbody =>
      obtain ⟨turns, cs, hclean, hitems, hspread⟩ := exists_items route_of_written hbody
      exact ⟨_, service_item name hitems hspread, hclean, _, rfl, rfl, rfl⟩

/-- A text without a gap is accepted, and nothing in it is skipped. -/
theorem readApi_of_gapless (h : Gapless u ((tokenize u source).map Token.kind)) :
    ∃ doc, readApi u source = .ok doc ∧ doc.Clean := by
  obtain ⟨cs, body, hbody, hspread, hwritten, hversion, hinfo⟩ := h
  obtain ⟨doc, hdoc⟩ := exists_forall₂ fun c hc => declaration_of_written c (hwritten c hc)
  obtain ⟨hclean, -⟩ :=
    (List.forall₂_and_left doc cs).1 (hdoc.imp fun _ _ hturn => ⟨hturn.2.1, hturn.1⟩)
  obtain ⟨hcount, hcount'⟩ := countP_begins (hdoc.imp fun _ _ hturn => hturn.2.2)
  exact ⟨doc, readApi_of_items (hdoc.imp fun _ _ hturn => hturn.1) hspread hbody,
    hclean, hcount ▸ hversion, hcount' ▸ hinfo⟩

/-- An accepted text is read as it is written if and only if its tokens have no gap. -/
theorem faithful_iff {api : ApiFile} (hapi : parseApi u source = .ok api) :
    Faithful u source api ↔ Gapless u ((tokenize u source).map Token.kind) := by
  obtain ⟨doc, hdoc, rfl⟩ := parseApi_eq_ok.1 hapi
  constructor
  · rintro ⟨doc', hprinting, hwords⟩
    exact gapless_of_clean hdoc (clean_of_printing hdoc rfl hprinting hwords)
  · intro h
    obtain ⟨doc', hdoc', hclean⟩ := readApi_of_gapless h
    obtain rfl := Except.ok.inj (hdoc.symm.trans hdoc')
    obtain ⟨hsource, hvalid⟩ := words_of_readApi hdoc
    have hprinting : Printing u doc.api doc := ⟨hclean, hvalid, spelled_of_readApi hdoc, rfl⟩
    exact ⟨doc, hprinting, hsource.trans hprinting.words_print.symm⟩

def filesRoute : String :=
  "service files \x7b\n@handler list\n\n\nget /files (Query)\n\x7d"

def filesFile : ApiFile :=
  ⟨"v1", [], [], [⟨"files", [⟨"list", .get, "/files", some "Query", none⟩]⟩]⟩

theorem faithful_iff_filesRoute : Faithful Unicode.ascii filesRoute filesFile := by
  have hparse : parseApi Unicode.ascii filesRoute = .ok filesFile := by decide
  refine (faithful_iff hparse).2 ?_
  have hkinds : (tokenize Unicode.ascii filesRoute).map Token.kind =
      [.ident "service", .ident "files", .lBrace, .newline, .atSign, .ident "handler",
        .ident "list", .newline, .newline, .newline, .ident "get", .slash, .ident "files", .lParen,
        .ident "Query", .rParen, .newline, .rBrace] ++ [.eof] := by decide
  have hpath : PathWritten [.slash, .ident "files"] :=
    ⟨by decide, by decide, by simp [Plain, joined]⟩
  have hroute : RouteWritten Unicode.ascii
      (routeChunk "list" 3 "get" [.slash, .ident "files"] (parensKinds "Query")) :=
    .mk "list" 3 rfl hpath (.request "Query")
  have hservice := DeclarationWritten.service "files"
    ⟨[_], List.forall_mem_singleton.2 hroute, .newline (.chunk _ (.newline .nil))⟩
  rw [hkinds]
  exact ⟨[_], _, rfl, .chunk _ .nil, List.forall_mem_singleton.2 hservice, by decide, by decide⟩

/-- The path goes on with a star, at which the parser leaves it. -/
def starRoute : String := "service files \x7b\n@handler list\nget /files/*\n\x7d\n"

def starDocument : Document :=
  [.read (.service ⟨"files",
    [.read ⟨"list", "get", .get, [.slash, .ident "files", .slash], none, none⟩, .skip .star]⟩)]

theorem readApi_starRoute : readApi Unicode.ascii starRoute = .ok starDocument := by decide

/-- The star is dropped. -/
theorem not_faithful : ∃ api, parseApi Unicode.ascii starRoute = .ok api ∧
    ¬ Faithful Unicode.ascii starRoute api := by
  refine ⟨starDocument.api, parseApi_eq_ok.2 ⟨starDocument, readApi_starRoute, rfl⟩, ?_⟩
  rintro ⟨doc, hprinting, hwords⟩
  have hclean := clean_of_printing readApi_starRoute rfl hprinting hwords
  exact hclean.turns _ List.mem_cons_self (.skip .star) (by simp)

end Rszero.Api
