import Rszero.ApiFaithful
import Rszero.ApiParses

/-!
# Files that are printed and read again

The text of a well-spelled file is the text of a clean document, so the parser reads it as that
document, greedily. The file comes back exactly when every route with a response has a request: the
word in front of a response runs into a path that no request has ended.
-/

namespace Rszero.Api

variable {u : Unicode} {kind : TokenKind}

def IsPiece (u : Unicode) (kind : TokenKind) : Prop := kind.pathText.isSome ∧ Spelled u kind

/-- A path of slashes, colons, identifiers and digits without two slashes in a row. -/
def IsPath (u : Unicode) (path : String) : Prop :=
  ∃ pieces, pieces ≠ [] ∧ (∀ kind ∈ pieces, IsPiece u kind) ∧ pathText pieces = path ∧
    ¬ ['/', '/'] <:+: path.toList

/-- A piece in front of others, with which it is lexed as one. -/
def glue : TokenKind → List TokenKind → List TokenKind
  | .ident s, .ident s' :: pieces => .ident (s ++ s') :: pieces
  | .ident s, .number d :: pieces => glue (.ident (s ++ d)) pieces
  | .number d, .number d' :: pieces => .number (d ++ d') :: pieces
  | kind, pieces => kind :: pieces

theorem IsIdent.append {s s' : String} (h : IsIdent u s) (h' : ∀ c ∈ s'.toList, isIdentChar u c) :
    IsIdent u (s ++ s') := by
  obtain ⟨c, cs, hs, hc, hcs⟩ := h
  refine ⟨c, cs ++ s'.toList, ?_, hc, List.forall_mem_append.2 ⟨hcs, h'⟩⟩
  rw [String.toList_append, hs, List.cons_append]

theorem joined_ident (s s' : String) : joined (.ident s) = joined (.ident s') := by
  funext kind
  cases kind <;> rfl

theorem joined_number (d d' : String) : joined (.number d) = joined (.number d') := by
  funext kind
  cases kind <;> rfl

theorem Plain.cons_congr {kind' : TokenKind} {pieces : List TokenKind}
    (hjoined : joined kind = joined kind') (h : Plain (kind :: pieces)) :
    Plain (kind' :: pieces) := by
  cases pieces with
  | nil => exact List.isChain_singleton _
  | cons k pieces =>
      obtain ⟨hk, hpieces⟩ := List.isChain_cons_cons.1 h
      exact List.isChain_cons_cons.2 ⟨hjoined ▸ hk, hpieces⟩

theorem glue_spec (hkind : IsPiece u kind) {pieces : List TokenKind} (hplain : Plain pieces)
    (hpieces : ∀ k ∈ pieces, IsPiece u k) (hslash : kind = .slash → pieces.head? ≠ some .slash) :
    Plain (glue kind pieces) ∧ (∀ k ∈ glue kind pieces, IsPiece u k) ∧
      (glue kind pieces).flatMap TokenKind.text = kind.text ++ pieces.flatMap TokenKind.text := by
  fun_induction glue kind pieces with
  | case1 s s' pieces =>
      obtain ⟨hs', hpieces⟩ := List.forall_mem_cons.1 hpieces
      have hident : IsIdent u (s ++ s') := IsIdent.append hkind.2 (IsIdent.all hs'.2)
      refine ⟨hplain.cons_congr (joined_ident _ _),
        List.forall_mem_cons.2 ⟨⟨rfl, hident⟩, hpieces⟩, ?_⟩
      simp [TokenKind.text]
  | case2 s d pieces ih =>
      obtain ⟨hd, hpieces⟩ := List.forall_mem_cons.1 hpieces
      have hident : IsIdent u (s ++ d) :=
        IsIdent.append hkind.2 (fun c hc => isIdentChar_of_isDigit (hd.2.2 c hc))
      obtain ⟨hglue, hall, htext⟩ := ih ⟨rfl, hident⟩ hplain.tail hpieces nofun
      refine ⟨hglue, hall, ?_⟩
      rw [htext]
      simp [TokenKind.text]
  | case3 d d' pieces =>
      obtain ⟨hd', hpieces⟩ := List.forall_mem_cons.1 hpieces
      have hnumber : Spelled u (.number (d ++ d')) := by
        refine ⟨?_, ?_⟩
        · intro heq
          exact hkind.2.1 (String.append_eq_empty_iff.1 heq).1
        · rw [String.toList_append]
          exact List.forall_mem_append.2 ⟨hkind.2.2, hd'.2.2⟩
      refine ⟨hplain.cons_congr (joined_number _ _),
        List.forall_mem_cons.2 ⟨⟨rfl, hnumber⟩, hpieces⟩, ?_⟩
      simp [TokenKind.text]
  | case4 kind pieces hident hnumber hdigits =>
      refine ⟨?_, List.forall_mem_cons.2 ⟨hkind, hpieces⟩, rfl⟩
      cases pieces with
      | nil => exact List.isChain_singleton _
      | cons k pieces =>
          refine List.isChain_cons_cons.2 ⟨?_, hplain⟩
          intro hjoined
          unfold joined at hjoined
          split at hjoined
          · exact hident _ _ _ rfl rfl
          · exact hnumber _ _ _ rfl rfl
          · exact hdigits _ _ _ rfl rfl
          · exact hslash rfl rfl
          · cases hjoined

theorem exists_plain {pieces : List TokenKind} (h : ∀ kind ∈ pieces, IsPiece u kind)
    (hslash : ¬ ['/', '/'] <:+: pieces.flatMap TokenKind.text) :
    ∃ pieces', Plain pieces' ∧ (∀ kind ∈ pieces', IsPiece u kind) ∧
      pieces'.flatMap TokenKind.text = pieces.flatMap TokenKind.text := by
  induction pieces with
  | nil => exact ⟨[], List.isChain_nil, nofun, rfl⟩
  | cons kind pieces ih =>
      obtain ⟨hkind, hpieces⟩ := List.forall_mem_cons.1 h
      rw [List.flatMap_cons] at hslash
      obtain ⟨pieces', hplain, hall, htext⟩ :=
        ih hpieces (fun hsub => hslash (hsub.trans (List.suffix_append _ _).isInfix))
      have hfirst : kind = .slash → pieces'.head? ≠ some .slash := by
        rintro rfl hhead
        obtain ⟨rest, rfl⟩ := List.head?_eq_some_iff.1 hhead
        rw [← htext] at hslash
        exact hslash ⟨[], rest.flatMap TokenKind.text, by simp [TokenKind.text]⟩
      obtain ⟨hplain', hall', htext'⟩ := glue_spec hkind hplain hall hfirst
      exact ⟨glue kind pieces', hplain', hall', by rw [htext', htext, List.flatMap_cons]⟩

theorem IsPath.exists_plain {path : String} (h : IsPath u path) :
    ∃ pieces, Plain pieces ∧ (∀ kind ∈ pieces, IsPiece u kind) ∧ pathText pieces = path ∧
      path ≠ "" := by
  obtain ⟨pieces, hne, hpieces, rfl, hslash⟩ := h
  have htoList := toList_pathText (fun kind hkind => (hpieces kind hkind).1)
  rw [htoList] at hslash
  obtain ⟨pieces', hplain, hall, htext⟩ := Api.exists_plain hpieces hslash
  refine ⟨pieces', hplain, hall, String.toList_inj.1 ?_, ?_⟩
  · rw [toList_pathText (fun kind hkind => (hall kind hkind).1), htext, htoList]
  · intro hempty
    rw [hempty] at htoList
    cases pieces with
    | nil => exact hne rfl
    | cons kind pieces =>
        obtain ⟨hpath, hs⟩ := hpieces kind List.mem_cons_self
        exact text_ne_nil hpath hs (List.append_eq_nil_iff.1 htoList.symm).1

structure ApiRoute.WellSpelled (u : Unicode) (r : ApiRoute) : Prop where
  handler : IsIdent u r.handler
  path : IsPath u r.path
  request_type : ∀ name ∈ r.request_type, IsIdent u name
  response_type : ∀ name ∈ r.response_type, IsIdent u name

/-- The names are identifiers, and no text holds its own quote. -/
structure ApiFile.WellSpelled (u : Unicode) (api : ApiFile) : Prop where
  version : '"' ∉ api.syntaxVersion.toList
  info : ∀ pair ∈ api.info, IsIdent u pair.1 ∧ '"' ∉ pair.2.toList
  types : ∀ t ∈ api.types, IsIdent u t.name ∧ ∀ f ∈ t.fields,
    IsIdent u f.name ∧ IsIdent u f.ty ∧ ∀ tag ∈ f.tag, tagQuote ∉ tag.toList
  services : ∀ s ∈ api.services, IsIdent u s.name ∧ ∀ r ∈ s.routes, r.WellSpelled u

theorem exists_map_eq {α β : Type} {f : β → α} {P : β → Prop} {as : List α}
    (h : ∀ a ∈ as, ∃ b, f b = a ∧ P b) : ∃ bs : List β, bs.map f = as ∧ ∀ b ∈ bs, P b := by
  induction as with
  | nil => exact ⟨[], rfl, nofun⟩
  | cons a as ih =>
      obtain ⟨b, rfl, hb⟩ := h a List.mem_cons_self
      obtain ⟨bs, rfl, hbs⟩ := ih (fun a' ha' => h a' (List.mem_cons_of_mem _ ha'))
      exact ⟨b :: bs, rfl, List.forall_mem_cons.2 ⟨hb, hbs⟩⟩

theorem routeMethod_keyword (u : Unicode) (m : RouteMethod) :
    routeMethod u m.keyword = .ok m := by
  have hlower : u.toLowercase m.keyword = m.keyword := by
    have hascii : m.keyword.toList.all (fun c => c.toNat < 128) := by cases m <;> decide
    rw [u.toLowercase_ascii _ (fun c hc => of_decide_eq_true (List.all_eq_true.1 hascii c hc))]
    cases m <;> decide
  rw [routeMethod, hlower]
  cases m <;> rfl

theorem isIdent_of_isAlpha {s : String} (hne : s ≠ "")
    (h : s.toList.all (fun c => c.toNat < 128 ∧ c.isAlpha)) : IsIdent u s := by
  have hstart : ∀ c ∈ s.toList, isIdentStart u c := by
    intro c hc
    obtain ⟨hascii, halpha⟩ := of_decide_eq_true (List.all_eq_true.1 h c hc)
    rw [isIdentStart, u.isAlphabetic_ascii c hascii, halpha, Bool.true_or]
  cases hlist : s.toList with
  | nil => exact absurd (String.toList_eq_nil_iff.1 hlist) hne
  | cons c cs =>
      rw [hlist] at hstart
      exact ⟨c, cs, hlist, hstart c List.mem_cons_self,
        fun d hd => isIdentChar_of_start (hstart d (List.mem_cons_of_mem _ hd))⟩

theorem isIdent_keyword (m : RouteMethod) : IsIdent u m.keyword := by
  cases m <;> exact isIdent_of_isAlpha (by decide) (by decide)

theorem spelled_messageKinds {request_type response_type : Option String}
    (h : ∀ name ∈ request_type, IsIdent u name) (h' : ∀ name ∈ response_type, IsIdent u name) :
    ∀ kind ∈ messageKinds request_type response_type, Spelled u kind := by
  have hreturns : IsIdent u "returns" := isIdent_of_isAlpha (by decide) (by decide)
  cases request_type <;> cases response_type <;>
    simp_all [messageKinds, requestKinds, responseKinds, parensKinds, Spelled]

structure Route.Printed (u : Unicode) (r : Route) : Prop where
  spelling : r.spelling = r.method.keyword
  plain : Plain r.pieces
  spelled : r.Spelled u

theorem ApiRoute.WellSpelled.exists_route {r : ApiRoute} (h : r.WellSpelled u) :
    ∃ r' : Route, r'.api = r ∧ r'.Printed u := by
  obtain ⟨handler, method, path, request_type, response_type⟩ := r
  obtain ⟨hhandler, hpath, hrequest, hresponse⟩ := h
  obtain ⟨pieces, hplain, hpieces, rfl, hne⟩ := hpath.exists_plain
  refine ⟨⟨handler, method.keyword, method, pieces, request_type, response_type⟩, rfl, rfl, hplain,
    ⟨routeMethod_keyword u method, fun kind hkind => (hpieces kind hkind).1, hne⟩, ?_⟩
  have hword : IsIdent u "handler" := isIdent_of_isAlpha (by decide) (by decide)
  rw [Route.kinds]
  refine List.forall_mem_append.2 ⟨List.forall_mem_append.2 ⟨?_, fun kind hkind =>
    (hpieces kind hkind).2⟩, spelled_messageKinds hrequest hresponse⟩
  simp [handlerKinds, Spelled, hword, show IsIdent u handler from hhandler, isIdent_keyword]

theorem Route.Printed.text_api {r : Route} (h : r.Printed u) : r.api.text = r.text := by
  rw [Route.text, h.spelling]
  rfl

structure Service.Printed (u : Unicode) (s : Service) : Prop where
  text_api : s.api.text = s.text
  clean : (Declaration.service s).Clean
  spelled : (Declaration.service s).Spelled u

theorem exists_service {s : ApiService} (hname : IsIdent u s.name)
    (hroutes : ∀ r ∈ s.routes, r.WellSpelled u) :
    ∃ s' : Service, s'.api = s ∧ s'.Printed u := by
  obtain ⟨name, routes⟩ := s
  obtain ⟨rs, rfl, hrs⟩ := exists_map_eq (fun r hr => (hroutes r hr).exists_route)
  have hservice : IsIdent u "service" := isIdent_of_isAlpha (by decide) (by decide)
  refine ⟨⟨name, rs.map .read⟩, ?_, ?_, ?_, ?_, ?_⟩
  · rw [Service.api, filterMap_item_reads]
  · rw [Service.api, filterMap_item_reads, ApiService.text, Service.text, flatMap_text_reads,
      List.flatMap_map]
    congr 2
    exact List.flatMap_congr (fun r hr => (hrs r hr).text_api)
  · exact List.forall_mem_map.2 (fun r hr => (hrs r hr).plain)
  · exact List.forall_mem_map.2 (fun r hr => (hrs r hr).spelled.1)
  · rw [Declaration.kinds, Service.kinds, flatMap_kinds_reads]
    refine List.forall_mem_append.2 ⟨List.forall_mem_append.2 ⟨?_, List.forall_mem_flatMap.2
      (fun r hr => (hrs r hr).spelled.2)⟩, ?_⟩
    · simp [serviceHead, Spelled, hservice, show IsIdent u name from hname]
    · simp [serviceEnd, Spelled]

def declarations (value : String) (pairs : List (String × String)) (ts : List TypeDef)
    (ss : List Service) : List Declaration :=
  .version value :: .info (pairs.map .read) :: (ts.map .type ++ ss.map .service)

theorem foldl_types (ts : List TypeDef) (api : ApiFile) :
    (ts.map (Turn.read ∘ Declaration.type)).foldl ApiFile.declare api =
      { api with types := api.types ++ ts.map TypeDef.api } := by
  induction ts generalizing api with
  | nil => simp
  | cons t ts ih => simp [ih, ApiFile.declare]

theorem foldl_services (ss : List Service) (api : ApiFile) :
    (ss.map (Turn.read ∘ Declaration.service)).foldl ApiFile.declare api =
      { api with services := api.services ++ ss.map Service.api } := by
  induction ss generalizing api with
  | nil => simp
  | cons s ss ih => simp [ih, ApiFile.declare]

theorem api_declarations (value : String) (pairs : List (String × String)) (ts : List TypeDef)
    (ss : List Service) : Document.api ((declarations value pairs ts ss).map .read) =
      ⟨value, pairs, ts.map TypeDef.api, ss.map Service.api⟩ := by
  rw [Document.api, declarations, List.map_cons, List.map_cons, List.map_append, List.map_map,
    List.map_map, List.foldl_cons, List.foldl_cons, List.foldl_append, foldl_types, foldl_services,
    ApiFile.declare, ApiFile.declare, filterMap_item_reads]
  rfl

def ApiRoute.greedy (r : ApiRoute) : ApiRoute :=
  match r.request_type, r.response_type with
  | none, some name =>
      { r with path := r.path ++ "returns", request_type := some name, response_type := none }
  | _, _ => r

def ApiService.greedy (s : ApiService) : ApiService := ⟨s.name, s.routes.map ApiRoute.greedy⟩

def ApiFile.greedy (api : ApiFile) : ApiFile :=
  { api with services := api.services.map ApiService.greedy }

theorem api_greedy (r : Route) : r.greedy.api = r.api.greedy := by
  obtain ⟨handler, spelling, method, pieces, request_type, response_type⟩ := r
  cases request_type with
  | some _ => rfl
  | none =>
      cases response_type with
      | none => rfl
      | some name =>
          have hpath : pathText (pieces ++ [.ident "returns"]) = pathText pieces ++ "returns" := by
            refine String.toList_inj.1 ?_
            simp [pathText, TokenKind.pathText]
          rw [Route.greedy, Route.api, hpath]
          rfl

theorem service_api_greedy (s : Service) : s.greedy.api = s.api.greedy := by
  have hitems (turns : List (Turn Route)) :
      (turns.map (Turn.map Route.greedy)).filterMap Turn.item =
        (turns.filterMap Turn.item).map Route.greedy := by
    induction turns with
    | nil => rfl
    | cons turn turns ih => cases turn <;> simp [List.filterMap_cons, Turn.map, Turn.item, ih]
  rw [Service.greedy, Service.api, Service.api, ApiService.greedy, hitems, List.map_map,
    List.map_map]
  congr 2
  funext r
  exact api_greedy r

theorem greedy_declarations (value : String) (pairs : List (String × String)) (ts : List TypeDef)
    (ss : List Service) :
    ((declarations value pairs ts ss).map Turn.read).map (Turn.map Declaration.greedy) =
      (declarations value pairs ts (ss.map Service.greedy)).map .read := by
  simp [declarations, Turn.map, Declaration.greedy, Function.comp_def]

theorem spelled_version {value : String} (h : '"' ∉ value.toList) :
    (Declaration.version value).Spelled u := by
  have hword : IsIdent u "syntax" := isIdent_of_isAlpha (by decide) (by decide)
  refine ⟨trivial, ?_⟩
  simp [Declaration.kinds, versionKinds, Spelled, hword, h]

theorem spelled_info {pairs : List (String × String)}
    (h : ∀ pair ∈ pairs, IsIdent u pair.1 ∧ '"' ∉ pair.2.toList) :
    (Declaration.info (pairs.map .read)).Spelled u := by
  have hword : IsIdent u "info" := isIdent_of_isAlpha (by decide) (by decide)
  refine ⟨List.forall_mem_map.2 (fun _ _ => trivial), ?_⟩
  rw [Declaration.kinds, infoKinds, flatMap_kinds_reads]
  refine List.forall_mem_append.2 ⟨List.forall_mem_append.2 ⟨?_, List.forall_mem_flatMap.2
    (fun pair hpair => ?_)⟩, ?_⟩
  · simp [Spelled, hword]
  · simp [pairKinds, Spelled, h pair hpair]
  · simp [Spelled]

theorem spelled_type {name : String} {fields : List ApiField} (hname : IsIdent u name)
    (h : ∀ f ∈ fields, IsIdent u f.name ∧ IsIdent u f.ty ∧ ∀ tag ∈ f.tag, tagQuote ∉ tag.toList) :
    (Declaration.type ⟨name, fields.map .read⟩).Spelled u := by
  have hword : IsIdent u "type" := isIdent_of_isAlpha (by decide) (by decide)
  refine ⟨List.forall_mem_map.2 (fun _ _ => trivial), ?_⟩
  rw [Declaration.kinds, TypeDef.kinds, flatMap_kinds_reads]
  refine List.forall_mem_append.2 ⟨List.forall_mem_append.2 ⟨?_, List.forall_mem_flatMap.2
    (fun f hf => ?_)⟩, ?_⟩
  · simp [Spelled, hword, hname]
  · obtain ⟨hfield, hty, htag⟩ := h f hf
    obtain ⟨field, ty, tag⟩ := f
    cases tag <;> simp_all [ApiField.kinds, tagKinds, Spelled]
  · simp [Spelled]

theorem printing_reads {ds : List Declaration} (h : ∀ d ∈ ds, d.Clean ∧ d.Spelled u)
    (hversion : ds.countP Declaration.isVersion ≤ 1) (hinfo : ds.countP Declaration.isInfo ≤ 1) :
    Printing u (Document.api (ds.map .read)) (ds.map .read) where
  clean := by
    refine ⟨List.forall_mem_map.2 (fun d hd => (h d hd).1), ?_, ?_⟩
    · rwa [filterMap_item_reads]
    · rwa [filterMap_item_reads]
  valid := List.forall_mem_map.2 (fun d hd => (h d hd).2.1)
  spelled := by
    rw [Document.kinds, flatMap_kinds_reads]
    exact List.forall_mem_flatMap.2 (fun d hd => (h d hd).2.2)
  api_eq := rfl

def ApiType.def (t : ApiType) : TypeDef := ⟨t.name, t.fields.map .read⟩

theorem map_api_def (types : List ApiType) : (types.map ApiType.def).map TypeDef.api = types := by
  rw [List.map_map]
  refine (List.map_congr_left (fun t _ => ?_)).trans (List.map_id types)
  rw [Function.comp_apply, TypeDef.api, ApiType.def, filterMap_item_reads]
  rfl

/-- A well-spelled file is printed as the text of a document. -/
theorem ApiFile.WellSpelled.exists_document {api : ApiFile} (h : api.WellSpelled u) :
    ∃ doc : Document, doc.print = api.print ∧ Printing u api doc ∧
      Document.api (doc.map (Turn.map Declaration.greedy)) = api.greedy := by
  obtain ⟨value, pairs, types, services⟩ := api
  obtain ⟨hvalue, hpairs, htypes, hservices⟩ := h
  obtain ⟨ss, rfl, hss⟩ := exists_map_eq (fun s hs =>
    exists_service (hservices s hs).1 (hservices s hs).2)
  have hall : ∀ d ∈ declarations value pairs (types.map ApiType.def) ss,
      d.Clean ∧ d.Spelled u := by
    refine List.forall_mem_cons.2 ⟨⟨trivial, spelled_version hvalue⟩, List.forall_mem_cons.2
      ⟨⟨List.forall_mem_map.2 (fun _ _ => trivial), spelled_info hpairs⟩, ?_⟩⟩
    rw [List.map_map]
    refine List.forall_mem_append.2 ⟨List.forall_mem_map.2 (fun t ht => ?_),
      List.forall_mem_map.2 (fun s hs => ⟨(hss s hs).clean, (hss s hs).spelled⟩)⟩
    exact ⟨List.forall_mem_map.2 (fun _ _ => trivial), spelled_type (htypes t ht).1 (htypes t ht).2⟩
  have hapi := api_declarations value pairs (types.map ApiType.def) ss
  rw [map_api_def] at hapi
  refine ⟨(declarations value pairs (types.map ApiType.def) ss).map .read, ?_,
    hapi ▸ printing_reads hall ?_ ?_, ?_⟩
  · refine congrArg String.ofList ?_
    have htext : (ss.map Service.api).flatMap ApiService.text =
        (ss.map Declaration.service).flatMap Declaration.text := by
      rw [List.flatMap_map, List.flatMap_map]
      exact List.flatMap_congr (fun s hs => (hss s hs).text_api)
    rw [flatMap_text_reads, declarations, List.flatMap_cons, List.flatMap_cons, List.flatMap_append,
      htext, List.flatMap_map, List.flatMap_map, ← List.append_assoc, ← List.append_assoc]
    rfl
  · simp [declarations, List.countP_cons, List.countP_map, Function.comp_def, Declaration.isVersion]
  · simp [declarations, List.countP_cons, List.countP_map, Function.comp_def, Declaration.isInfo]
  · rw [greedy_declarations, api_declarations, map_api_def, List.map_map, ApiFile.greedy,
      List.map_map]
    congr 2
    funext s
    exact service_api_greedy s

theorem parseApi_print {api : ApiFile} (h : api.WellSpelled u) :
    parseApi u api.print = .ok api.greedy := by
  obtain ⟨doc, hprint, hprinting, hgreedy⟩ := h.exists_document
  rw [← hprint, ← hgreedy]
  exact parseApi_eq_ok.2
    ⟨_, readApi_print hprinting.clean hprinting.valid hprinting.spelled, rfl⟩

def ApiFile.RequestsGiven (api : ApiFile) : Prop :=
  ∀ s ∈ api.services, ∀ r ∈ s.routes, r.response_type.isSome → r.request_type.isSome

theorem map_eq_self_iff {α : Type} {f : α → α} {as : List α} :
    as.map f = as ↔ ∀ a ∈ as, f a = a := by
  conv_lhs => rw [← List.map_id as, List.map_map]
  exact List.map_inj_left

theorem ApiRoute.greedy_eq_self_iff {r : ApiRoute} :
    r.greedy = r ↔ (r.response_type.isSome → r.request_type.isSome) := by
  obtain ⟨handler, method, path, request_type, response_type⟩ := r
  cases request_type <;> cases response_type <;> simp [ApiRoute.greedy]

theorem ApiFile.greedy_eq_self_iff {api : ApiFile} : api.greedy = api ↔ api.RequestsGiven := by
  obtain ⟨value, info, types, services⟩ := api
  have hservice (s : ApiService) : s.greedy = s ↔
      ∀ r ∈ s.routes, r.response_type.isSome → r.request_type.isSome := by
    obtain ⟨name, routes⟩ := s
    simp only [ApiService.greedy, ApiService.mk.injEq, true_and, map_eq_self_iff,
      ApiRoute.greedy_eq_self_iff]
  simp only [ApiFile.greedy, ApiFile.mk.injEq, true_and, map_eq_self_iff, hservice,
    ApiFile.RequestsGiven]

theorem round_trip_iff {api : ApiFile} (h : api.WellSpelled u) :
    parseApi u api.print = .ok api ↔ api.RequestsGiven := by
  rw [parseApi_print h, Except.ok.injEq, ApiFile.greedy_eq_self_iff]

def usersApi (request_type : Option String) : ApiFile :=
  ⟨"v1", [], [], [⟨"user", [⟨"listUsers", .get, "/users", request_type, some "Users"⟩]⟩]⟩

theorem usersApi_wellSpelled {request_type : Option String}
    (h : ∀ name ∈ request_type, IsIdent Unicode.ascii name) :
    (usersApi request_type).WellSpelled Unicode.ascii := by
  have hservice : IsIdent Unicode.ascii "user" := isIdent_of_isAlpha (by decide) (by decide)
  have hhandler : IsIdent Unicode.ascii "listUsers" := isIdent_of_isAlpha (by decide) (by decide)
  have hresponse : IsIdent Unicode.ascii "Users" := isIdent_of_isAlpha (by decide) (by decide)
  have hpath : IsPath Unicode.ascii "/users" := by
    refine ⟨[.slash, .ident "users"], List.cons_ne_nil _ _, ?_, by decide, by decide⟩
    exact List.forall_mem_cons.2 ⟨⟨rfl, trivial⟩, List.forall_mem_singleton.2
      ⟨rfl, isIdent_of_isAlpha (by decide) (by decide)⟩⟩
  have hversion : '"' ∉ "v1".toList := by decide
  refine ⟨hversion, nofun, nofun, List.forall_mem_singleton.2 ⟨hservice,
    List.forall_mem_singleton.2 ⟨hhandler, hpath, h, ?_⟩⟩⟩
  rintro name ⟨⟩
  exact hresponse

theorem round_trip_iff_users :
    parseApi Unicode.ascii (usersApi (some "Page")).print = .ok (usersApi (some "Page")) := by
  have hpage : ∀ name ∈ some "Page", IsIdent Unicode.ascii name := by
    rintro name ⟨⟩
    exact isIdent_of_isAlpha (by decide) (by decide)
  exact (round_trip_iff (usersApi_wellSpelled hpage)).2 (by simp [ApiFile.RequestsGiven, usersApi])

/-- A route with only a response is read back with another path and a request. -/
theorem not_round_trip : (usersApi none).WellSpelled Unicode.ascii ∧
    parseApi Unicode.ascii (usersApi none).print ≠ .ok (usersApi none) := by
  have hnone : (usersApi none).WellSpelled Unicode.ascii := usersApi_wellSpelled (by simp)
  refine ⟨hnone, ?_⟩
  rw [parseApi_print hnone]
  decide

end Rszero.Api
