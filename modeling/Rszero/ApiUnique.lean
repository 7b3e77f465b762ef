import Rszero.ApiCoverage
import Rszero.ApiPrinting

/-!
# A file and its words determine the document

Two readings of the same words are followed side by side. A loop of the parser has skipped no token
where the other reading has an item, since an item begins with a token that is not skipped. A field
without its tag and a path are told apart by the file.
-/

namespace Rszero.Api

variable {u : Unicode} {α β : Type} {kinds : α → List TokenKind} {kind : TokenKind}

theorem Turn.All.imp {P P' : α → Prop} {stray stray' : TokenKind → Prop} {turn : Turn α}
    (h : turn.All P stray) (hP : ∀ a, turn = .read a → P a → P' a)
    (hstray : ∀ kind, stray kind → stray' kind) : turn.All P' stray' := by
  cases turn with
  | read a => exact hP a rfl h
  | skip kind => exact hstray kind h

/-- A loop whose items begin with tokens that it does not skip, and which are determined by their
words, with what `agree` says of the items that are still to come. -/
structure Separated (kinds : α → List TokenKind) (opens : TokenKind → Prop) (P Q : α → Prop)
    (agree : List α → List α → Prop) : Prop where
  first : ∀ a, ∃ kind ks, words (kinds a) = kind :: ks ∧ opens kind
  step : ∀ a as e es ks ks', P a → Q e → agree (a :: as) (e :: es) →
    words (kinds a) ++ ks = words (kinds e) ++ ks' → a = e ∧ agree as es

/-- By induction on the turns, in step with the items. -/
theorem Separated.turns_eq {opens stray : TokenKind → Prop} {P Q : α → Prop}
    {agree : List α → List α → Prop} (h : Separated kinds opens P Q agree)
    (hstray : ∀ kind, stray kind → kind ≠ .newline ∧ ¬ opens kind) (closer : TokenKind)
    (hcloser : ¬ opens closer) (hclosed : ¬ stray closer) {turns : List (Turn α)} {es : List α}
    {ks ks' : List TokenKind} (hturns : ∀ turn ∈ turns, turn.All P stray) (hes : ∀ e ∈ es, Q e)
    (hagree : agree (turns.filterMap Turn.item) es)
    (hwords : words (turns.flatMap (Turn.kinds kinds)) ++ closer :: ks =
      words (es.flatMap kinds) ++ closer :: ks') :
    turns = es.map .read ∧ ks = ks' := by
  induction turns generalizing es with
  | nil =>
      cases es with
      | nil => exact ⟨rfl, (List.cons.inj hwords).2⟩
      | cons e es =>
          obtain ⟨kind, ks'', hfirst, hopens⟩ := h.first e
          rw [List.flatMap_cons, words_append, hfirst] at hwords
          exact absurd ((List.cons.inj hwords).1 ▸ hopens) hcloser
  | cons turn turns ih =>
      obtain ⟨hturn, hrest⟩ := List.forall_mem_cons.1 hturns
      cases turn with
      | skip kind =>
          obtain ⟨hnewline, hopens⟩ := hstray kind hturn
          have hkind : words ((Turn.skip kind :: turns).flatMap (Turn.kinds kinds)) =
              kind :: words (turns.flatMap (Turn.kinds kinds)) := by
            rw [List.flatMap_cons, words_append, Turn.kinds, words_cons, if_neg hnewline]
            rfl
          rw [hkind] at hwords
          cases es with
          | nil => exact absurd ((List.cons.inj hwords).1 ▸ hturn) hclosed
          | cons e es =>
              obtain ⟨kind', ks'', hfirst, hopens'⟩ := h.first e
              rw [List.flatMap_cons, words_append, hfirst] at hwords
              exact absurd ((List.cons.inj hwords).1 ▸ hopens') hopens
      | read a =>
          rw [List.flatMap_cons, words_append, Turn.kinds, List.append_assoc] at hwords
          cases es with
          | nil =>
              obtain ⟨kind, ks'', hfirst, hopens⟩ := h.first a
              rw [hfirst] at hwords
              exact absurd ((List.cons.inj hwords).1 ▸ hopens) hcloser
          | cons e es =>
              obtain ⟨he, hes'⟩ := List.forall_mem_cons.1 hes
              rw [List.flatMap_cons, words_append, List.append_assoc] at hwords
              obtain ⟨rfl, hagree'⟩ := h.step a _ e es _ _ hturn he hagree hwords
              obtain ⟨rfl, hks⟩ := ih hrest hes' hagree' (List.append_cancel_left hwords)
              exact ⟨rfl, hks⟩

theorem pairs_separated : Separated pairKinds (fun kind => kind.isIdent) (fun _ => True)
    (fun _ => True) (fun _ _ => True) where
  first pair := ⟨.ident pair.1, _, rfl, rfl⟩
  step a as e es ks ks' _ _ _ hwords := by
    obtain ⟨key, value⟩ := a
    obtain ⟨key', value'⟩ := e
    simp [pairKinds, words_cons] at hwords
    exact ⟨Prod.ext hwords.1 hwords.2.1, trivial⟩

theorem fields_separated : Separated ApiField.kinds (fun kind => kind.isIdent) (fun _ => True)
    (fun _ => True) (fun as es => as = es) where
  first f := ⟨.ident f.name, _, rfl, rfl⟩
  step _ _ _ _ _ _ _ _ hagree _ := List.cons.inj hagree

theorem text_ne_nil (hpath : kind.pathText.isSome) (hs : Spelled u kind) : kind.text ≠ [] := by
  obtain ⟨c, cs, htext, -⟩ := ends_text .colon hpath hs Bool.false_ne_true
  exact htext ▸ List.cons_ne_nil c cs

theorem pieces_eq_append {pieces more : List TokenKind}
    (hpath : ∀ kind ∈ pieces ++ more, kind.pathText.isSome)
    (hs : ∀ kind ∈ pieces ++ more, Spelled u kind)
    (htext : pathText pieces = pathText (pieces ++ more)) : more = [] := by
  have hlist := congrArg String.toList htext
  rw [toList_pathText hpath, toList_pathText (fun k hk => hpath k (List.mem_append_left _ hk)),
    List.flatMap_append, List.self_eq_append_right] at hlist
  cases more with
  | nil => rfl
  | cons kind more =>
      have hmem : kind ∈ pieces ++ kind :: more := by simp
      rw [List.flatMap_cons, List.append_eq_nil_iff] at hlist
      exact absurd hlist.1 (text_ne_nil (hpath kind hmem) (hs kind hmem))

/-- One path is a beginning of the other, and what the other has more would have a text. -/
theorem pieces_eq {pieces pieces' ks ks' : List TokenKind}
    (hpath : ∀ kind ∈ pieces, kind.pathText.isSome) (hs : ∀ kind ∈ pieces, Spelled u kind)
    (hpath' : ∀ kind ∈ pieces', kind.pathText.isSome) (hs' : ∀ kind ∈ pieces', Spelled u kind)
    (htext : pathText pieces = pathText pieces') (h : pieces ++ ks = pieces' ++ ks') :
    pieces = pieces' := by
  rcases List.append_eq_append_iff.1 h with ⟨more, rfl, -⟩ | ⟨more, rfl, -⟩
  · rw [pieces_eq_append hpath' hs' htext, List.append_nil]
  · rw [pieces_eq_append hpath hs htext.symm, List.append_nil]

def Route.Spelled (u : Unicode) (r : Route) : Prop :=
  r.Valid u ∧ ∀ kind ∈ r.kinds, Api.Spelled u kind

theorem Route.words_kinds {r : Route} (h : r.Valid u) :
    words r.kinds = .atSign :: .ident "handler" :: .ident r.handler :: .ident r.spelling ::
      (r.pieces ++ words (messageKinds r.request_type r.response_type)) := by
  rw [Route.kinds, words_append, words_append, words_of_path h.2.1, List.append_assoc]
  simp [handlerKinds, words_cons]

theorem Route.spelled_pieces {r : Route} (h : r.Spelled u) :
    ∀ kind ∈ r.pieces, Api.Spelled u kind := by
  intro kind hkind
  refine h.2 kind ?_
  rw [Route.kinds]
  simp [hkind]

theorem routes_separated : Separated Route.kinds (fun kind => kind = .atSign) (Route.Spelled u)
    (Route.Spelled u) (fun as es => as.map Route.api = es.map Route.api) where
  first r := ⟨.atSign, _, rfl, rfl⟩
  step a as e es ks ks' ha he hagree hwords := by
    obtain ⟨hapi, hrest⟩ := List.cons.inj hagree
    rw [Route.words_kinds ha.1, Route.words_kinds he.1] at hwords
    simp only [List.cons_append, List.cons.injEq, TokenKind.ident.injEq, true_and,
      List.append_assoc] at hwords
    obtain ⟨hhandler, hspelling, hpath⟩ := hwords
    have hpieces := pieces_eq ha.1.2.1 (Route.spelled_pieces ha) he.1.2.1 (Route.spelled_pieces he)
      (congrArg ApiRoute.path hapi) hpath
    refine ⟨?_, hrest⟩
    obtain ⟨handler, spelling, method, pieces, request_type, response_type⟩ := a
    obtain ⟨handler', spelling', method', pieces', request_type', response_type'⟩ := e
    simp only [Route.api, ApiRoute.mk.injEq] at hapi hhandler hspelling hpieces
    simp only [Route.mk.injEq]
    tauto

def Declaration.apiType : Declaration → Option ApiType
  | .type t => some t.api
  | _ => none

def Declaration.apiService : Declaration → Option ApiService
  | .service s => some s.api
  | _ => none

def Declaration.Spelled (u : Unicode) (d : Declaration) : Prop :=
  d.Valid u ∧ ∀ kind ∈ d.kinds, Api.Spelled u kind

theorem Turn.All.spelled {P : α → Prop} {stray : TokenKind → Prop} {turns : List (Turn α)}
    (h : ∀ turn ∈ turns, turn.All P stray)
    (hs : ∀ kind ∈ turns.flatMap (Turn.kinds kinds), Api.Spelled u kind) :
    ∀ turn ∈ turns, turn.All (fun a => P a ∧ ∀ kind ∈ kinds a, Api.Spelled u kind) stray := by
  intro turn hturn
  refine (h turn hturn).imp (fun a ha hPa => ⟨hPa, fun kind hkind => hs kind ?_⟩) (fun _ => id)
  exact List.mem_flatMap.2 ⟨turn, hturn, ha ▸ hkind⟩

/-- The tokens between two brackets. -/
theorem words_infoKinds (turns : List (Turn (String × String))) (ks : List TokenKind) :
    words (infoKinds turns) ++ ks = .ident "info" :: .lParen ::
      (words (turns.flatMap (Turn.kinds pairKinds)) ++ .rParen :: ks) := by
  simp [infoKinds, words_cons]

theorem TypeDef.words_kinds (t : TypeDef) (ks : List TokenKind) :
    words t.kinds ++ ks = .ident "type" :: .ident t.name :: .lBrace ::
      (words (t.turns.flatMap (Turn.kinds ApiField.kinds)) ++ .rBrace :: ks) := by
  simp [TypeDef.kinds, words_cons]

theorem Service.words_kinds (s : Service) (ks : List TokenKind) :
    words s.kinds ++ ks = .ident "service" :: .ident s.name :: .lBrace ::
      (words (s.turns.flatMap (Turn.kinds Route.kinds)) ++ .rBrace :: ks) := by
  simp [Service.kinds, serviceHead, serviceEnd, words_cons]

theorem stray_ne {closer : TokenKind} (h : Stray closer kind) :
    kind ≠ .newline ∧ ¬ kind.isIdent := ⟨h.2.1, h.1⟩

theorem not_stray (closer : TokenKind) : ¬ Stray closer closer := fun h => h.2.2 rfl

def Declaration.keyword : Declaration → String
  | .version _ => "syntax"
  | .info _ => "info"
  | .type _ => "type"
  | .service _ => "service"

theorem Declaration.words_kinds (d : Declaration) :
    ∃ ks, words d.kinds = .ident d.keyword :: ks := by
  cases d <;> exact ⟨_, rfl⟩

theorem keyword_eq {d e : Declaration} {ks ks' : List TokenKind}
    (hwords : words d.kinds ++ ks = words e.kinds ++ ks') : d.keyword = e.keyword := by
  obtain ⟨ds, hds⟩ := d.words_kinds
  obtain ⟨es, hes⟩ := e.words_kinds
  rw [hds, hes] at hwords
  exact TokenKind.ident.inj (List.cons.inj hwords).1

theorem infoKinds_inj {turns turns' : List (Turn (String × String))} {ks ks' : List TokenKind}
    (h : (Declaration.info turns).Valid u) (hclean : (Declaration.info turns').Clean)
    (hwords : words (infoKinds turns) ++ ks = words (infoKinds turns') ++ ks') :
    turns = turns' := by
  obtain ⟨pairs, rfl, -⟩ := Turn.Clean.exists_reads hclean
  simp only [words_infoKinds, flatMap_kinds_reads, List.cons.injEq, true_and] at hwords
  exact (pairs_separated.turns_eq (fun _ => stray_ne) .rParen Bool.false_ne_true (not_stray _) h
    (fun _ _ => trivial) trivial hwords).1

theorem TypeDef.eq_of_words {t t' : TypeDef} {ks ks' : List TokenKind}
    (h : (Declaration.type t).Valid u) (hclean : (Declaration.type t').Clean)
    (hapi : t.api = t'.api) (hwords : words t.kinds ++ ks = words t'.kinds ++ ks') : t = t' := by
  obtain ⟨name, turns⟩ := t
  obtain ⟨name', turns'⟩ := t'
  obtain ⟨fields, rfl, -⟩ := Turn.Clean.exists_reads hclean
  obtain ⟨rfl, hfields⟩ := ApiType.mk.inj hapi
  simp only [TypeDef.words_kinds, flatMap_kinds_reads, List.cons.injEq, true_and] at hwords
  rw [filterMap_item_reads] at hfields
  obtain ⟨hturns, -⟩ := fields_separated.turns_eq (fun _ => stray_ne) .rBrace Bool.false_ne_true
    (not_stray _) h (fun _ _ => trivial) hfields hwords
  exact congrArg (TypeDef.mk name) hturns

theorem Service.eq_of_words {s s' : Service} {ks ks' : List TokenKind}
    (h : (Declaration.service s).Spelled u) (h' : (Declaration.service s').Spelled u)
    (hclean : (Declaration.service s').Clean) (hapi : s.api = s'.api)
    (hwords : words s.kinds ++ ks = words s'.kinds ++ ks') : s = s' := by
  obtain ⟨name, turns⟩ := s
  obtain ⟨name', turns'⟩ := s'
  obtain ⟨routes, rfl, -⟩ := Turn.Clean.exists_reads hclean
  obtain ⟨rfl, hroutes⟩ := ApiService.mk.inj hapi
  simp only [Service.words_kinds, flatMap_kinds_reads, List.cons.injEq, true_and] at hwords
  rw [filterMap_item_reads] at hroutes
  have hspelled {turns : List (Turn Route)}
      (h : (Declaration.service ⟨name, turns⟩).Spelled u) := Turn.All.spelled h.1 (fun kind hkind =>
    h.2 kind (List.mem_append_left _ (List.mem_append_right _ hkind)))
  have hstray (kind : TokenKind) (hkind : kind ∉ [.newline, .rBrace, .atSign]) :
      kind ≠ .newline ∧ kind ≠ .atSign := by
    simp only [List.mem_cons, List.not_mem_nil, or_false, not_or] at hkind
    exact ⟨hkind.1, hkind.2.2⟩
  obtain ⟨hturns, -⟩ := routes_separated.turns_eq hstray .rBrace nofun (by simp) (hspelled h)
    (fun r hr => hspelled h' (.read r) (List.mem_map_of_mem hr)) hroutes hwords
  exact congrArg (Service.mk name) hturns

theorem Declaration.eq_of_words {d e : Declaration} {ks ks' : List TokenKind} (hd : d.Spelled u)
    (he : e.Spelled u) (hclean : e.Clean) (htype : d.apiType = e.apiType)
    (hservice : d.apiService = e.apiService)
    (hwords : words d.kinds ++ ks = words e.kinds ++ ks') : d = e := by
  have hkeyword : d.keyword = e.keyword := keyword_eq hwords
  cases d with
  | version value =>
      cases e with
      | version value' =>
          simp only [Declaration.kinds, versionKinds, words_cons] at hwords
          simp_all
      | _ => simp [Declaration.keyword] at hkeyword
  | info turns =>
      cases e with
      | info turns' => rw [infoKinds_inj hd.1 hclean hwords]
      | _ => simp [Declaration.keyword] at hkeyword
  | type t =>
      cases e with
      | type t' => rw [TypeDef.eq_of_words hd.1 hclean (Option.some.inj htype) hwords]
      | _ => simp [Declaration.keyword] at hkeyword
  | service s =>
      cases e with
      | service s' => rw [Service.eq_of_words hd he hclean (Option.some.inj hservice) hwords]
      | _ => simp [Declaration.keyword] at hkeyword

def sameTypes (ds es : List Declaration) : Prop :=
  ds.filterMap Declaration.apiType = es.filterMap Declaration.apiType ∧
    ds.filterMap Declaration.apiService = es.filterMap Declaration.apiService

/-- Declarations with one keyword add to the same lists. -/
theorem sameTypes_cons {d e : Declaration} {ds es : List Declaration}
    (hkeyword : d.keyword = e.keyword) (h : sameTypes (d :: ds) (e :: es)) :
    d.apiType = e.apiType ∧ d.apiService = e.apiService ∧ sameTypes ds es := by
  cases d <;> cases e <;> simp [Declaration.keyword] at hkeyword <;>
    simpa [sameTypes, List.filterMap_cons, Declaration.apiType, Declaration.apiService,
      and_assoc, and_left_comm] using h

theorem declarations_separated : Separated Declaration.kinds (fun kind => kind.isIdent)
    (Declaration.Spelled u) (fun e => e.Spelled u ∧ e.Clean) sameTypes where
  first d := by
    obtain ⟨ks, hks⟩ := d.words_kinds
    exact ⟨_, ks, hks, rfl⟩
  step d ds e es ks ks' hd he hsame hwords := by
    obtain ⟨htype, hservice, hrest⟩ := sameTypes_cons (keyword_eq hwords) hsame
    exact ⟨Declaration.eq_of_words hd he.1 he.2 htype hservice hwords, hrest⟩

theorem api_foldl (doc : List (Turn Declaration)) (api : ApiFile) :
    (doc.foldl ApiFile.declare api).types =
        api.types ++ (doc.filterMap Turn.item).filterMap Declaration.apiType ∧
      (doc.foldl ApiFile.declare api).services =
        api.services ++ (doc.filterMap Turn.item).filterMap Declaration.apiService := by
  induction doc generalizing api with
  | nil => simp
  | cons turn doc ih =>
      obtain ⟨htypes, hservices⟩ := ih (api.declare turn)
      rw [List.foldl_cons, htypes, hservices]
      rcases turn with (_ | _ | _ | _) | _ <;>
        simp [ApiFile.declare, List.filterMap_cons, Turn.item, Declaration.apiType,
          Declaration.apiService]

theorem sameTypes_of_api_eq {doc doc' : Document} (h : doc.api = doc'.api) :
    sameTypes (doc.filterMap Turn.item) (doc'.filterMap Turn.item) := by
  obtain ⟨htypes, hservices⟩ := api_foldl doc ⟨"v1", [], [], []⟩
  obtain ⟨htypes', hservices'⟩ := api_foldl doc' ⟨"v1", [], [], []⟩
  exact ⟨htypes.symm.trans ((congrArg ApiFile.types h).trans htypes'),
    hservices.symm.trans ((congrArg ApiFile.services h).trans hservices')⟩

/-- A document whose words and whose file are those of a clean document is that document. -/
theorem Document.eq_of_words {doc doc' : Document} (hvalid : doc.Valid u) (hvalid' : doc'.Valid u)
    (hs : ∀ kind ∈ doc.kinds, Api.Spelled u kind) (hs' : ∀ kind ∈ doc'.kinds, Api.Spelled u kind)
    (hclean : doc'.Clean) (hapi : doc.api = doc'.api)
    (hwords : words doc.kinds = words doc'.kinds) : doc = doc' := by
  obtain ⟨ds, rfl, hds⟩ := Turn.Clean.exists_reads hclean.turns
  have hsame := sameTypes_of_api_eq hapi
  rw [filterMap_item_reads] at hsame
  have hwords' := congrArg (fun ws => ws ++ [TokenKind.eof]) hwords
  rw [Document.kinds, Document.kinds, flatMap_kinds_reads] at hwords'
  refine (declarations_separated.turns_eq (fun _ => stray_ne) .eof Bool.false_ne_true (not_stray _)
    (Turn.All.spelled hvalid hs) (fun d hd => ⟨?_, hds d hd⟩) hsame hwords').1
  exact Turn.All.spelled hvalid' hs' (.read d) (List.mem_map_of_mem hd)

end Rszero.Api
