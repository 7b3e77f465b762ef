import Rszero.ApiCodegen
import Rszero.ApiFaithful

/-!
# The names in accepted files

The names of an accepted file are identifiers of the lexer, and its paths have neither a quote nor a
backslash.
-/

namespace Rszero.Api

variable {u : Unicode}

structure ApiType.Named (u : Unicode) (t : ApiType) : Prop where
  name : IsIdent u t.name
  fields : ∀ f ∈ t.fields, IsIdent u f.name ∧ IsIdent u f.ty

structure ApiRoute.Named (u : Unicode) (route : ApiRoute) : Prop where
  handler : IsIdent u route.handler
  path : ∀ c ∈ route.path.toList, c ≠ '"' ∧ c ≠ '\\'
  request_type : ∀ name ∈ route.request_type, IsIdent u name
  response_type : ∀ name ∈ route.response_type, IsIdent u name

structure ApiFile.Named (u : Unicode) (api : ApiFile) : Prop where
  types : ∀ t ∈ api.types, t.Named u
  routes : ∀ route ∈ api.routes, route.Named u

theorem mem_filterMap_item {α : Type} {turns : List (Turn α)} {a : α} :
    a ∈ turns.filterMap Turn.item ↔ .read a ∈ turns := by
  rw [List.mem_filterMap]
  constructor
  · rintro ⟨turn, hturn, hitem⟩
    cases turn with
    | read b => exact Option.some.inj hitem ▸ hturn
    | skip kind => cases hitem
  · intro h
    exact ⟨.read a, h, rfl⟩

theorem mem_kinds_of_item {α : Type} (kinds : α → List TokenKind) {turns : List (Turn α)} {a : α}
    (h : a ∈ turns.filterMap Turn.item) {kind : TokenKind} (hkind : kind ∈ kinds a) :
    kind ∈ turns.flatMap (Turn.kinds kinds) :=
  List.mem_flatMap.2 ⟨.read a, mem_filterMap_item.1 h, hkind⟩

theorem not_isIdentChar {c : Char} (hc : c.toNat < 128)
    (h : (c.isAlpha || c.isDigit || c == '_' || c == '-') = false) : isIdentChar u c = false := by
  rw [isIdentChar, u.isAlphabetic_ascii c hc, u.isNumeric_ascii c hc, h]

theorem ne_of_isIdentChar {c d : Char} (hc : isIdentChar u c) (hd : d.toNat < 128)
    (h : (d.isAlpha || d.isDigit || d == '_' || d == '-') = false) : c ≠ d := by
  rintro rfl
  rw [not_isIdentChar hd h] at hc
  cases hc

theorem IsIdent.isIdentChar {s : String} (hs : IsIdent u s) : ∀ c ∈ s.toList, isIdentChar u c := by
  obtain ⟨c, cs, hlist, hstart, hchars⟩ := hs
  rw [hlist, List.forall_mem_cons]
  exact ⟨isIdentChar_of_start hstart, hchars⟩

theorem TypeDef.named {t : TypeDef} (hs : ∀ kind ∈ t.kinds, Spelled u kind) : t.api.Named u := by
  rw [TypeDef.kinds] at hs
  have hfield {f : ApiField} (hf : f ∈ t.api.fields) {s : String} (hmem : .ident s ∈ f.kinds) :
      IsIdent u s := by
    refine hs (.ident s) ?_
    have hkind := mem_kinds_of_item ApiField.kinds hf hmem
    simp only [List.mem_append, hkind, or_true, true_or]
  refine ⟨hs (.ident t.name) (by simp), fun f hf => ⟨hfield hf ?_, hfield hf ?_⟩⟩ <;>
    simp [ApiField.kinds]

theorem plain_pathText {kind : TokenKind} (h : Spelled u kind) :
    ∀ c ∈ (kind.pathText.getD "").toList, c ≠ '"' ∧ c ≠ '\\' := by
  have hchar {c : Char} (hc : isIdentChar u c) : c ≠ '"' ∧ c ≠ '\\' :=
    ⟨ne_of_isIdentChar hc (by decide) (by decide), ne_of_isIdentChar hc (by decide) (by decide)⟩
  unfold TokenKind.pathText
  split
  · rename_i s
    exact fun c hc => hchar (IsIdent.isIdentChar h c hc)
  · rename_i s
    exact fun c hc => hchar (isIdentChar_of_isDigit (h.2 c hc))
  · exact List.forall_mem_singleton.2 (by decide)
  · exact List.forall_mem_singleton.2 (by decide)
  · exact List.forall_mem_singleton.2 (by decide)
  · exact fun c hc => absurd hc List.not_mem_nil

theorem Route.named {route : Route} (hs : ∀ kind ∈ route.kinds, Api.Spelled u kind) :
    route.api.Named u := by
  have hmessages : ∀ kind ∈ messageKinds route.request_type route.response_type,
      Api.Spelled u kind := fun kind hkind => hs kind (List.mem_append_right _ hkind)
  constructor
  · refine hs (.ident route.handler) ?_
    simp [Route.kinds, handlerKinds]
  · intro c hc
    rw [Route.api, pathText, String.toList_ofList, List.mem_flatMap] at hc
    obtain ⟨kind, hkind, hc⟩ := hc
    have hmem : kind ∈ route.kinds := by simp [Route.kinds, hkind]
    exact plain_pathText (hs kind hmem) c hc
  · intro name hname
    have hrequest : route.request_type = some name := hname
    rw [hrequest] at hmessages
    exact hmessages (.ident name) (by simp [messageKinds, requestKinds, parensKinds])
  · intro name hname
    have hresponse : route.response_type = some name := hname
    rw [hresponse] at hmessages
    exact hmessages (.ident name) (by simp [messageKinds, responseKinds, parensKinds])

theorem Service.named {s : Service} (hs : ∀ kind ∈ s.kinds, Spelled u kind) :
    ∀ route ∈ s.api.routes, route.Named u := by
  rw [Service.kinds] at hs
  intro route hroute
  obtain ⟨route', hroute', rfl⟩ := List.mem_map.1 hroute
  refine Route.named (fun kind hkind => hs kind ?_)
  have hmem := mem_kinds_of_item Route.kinds hroute' hkind
  simp only [List.mem_append, hmem, or_true, true_or]

theorem named_of_parseApi {source : String} {api : ApiFile} (h : parseApi u source = .ok api) :
    api.Named u := by
  obtain ⟨doc, hdoc, rfl⟩ := parseApi_eq_ok.1 h
  have hspelled {d : Declaration} (hd : d ∈ doc.filterMap Turn.item) :
      ∀ kind ∈ d.kinds, Spelled u kind := fun kind hkind =>
    spelled_of_readApi hdoc kind (mem_kinds_of_item Declaration.kinds hd hkind)
  obtain ⟨htypes, hservices⟩ := api_foldl doc ⟨"v1", [], [], []⟩
  constructor
  · intro t ht
    rw [Document.api, htypes, List.nil_append] at ht
    obtain ⟨d, hd, hapi⟩ := List.mem_filterMap.1 ht
    cases d with
    | type t' =>
        obtain rfl := Option.some.inj hapi
        exact TypeDef.named (hspelled hd)
    | _ => cases hapi
  · intro route hroute
    obtain ⟨s, hs, hroute⟩ := List.mem_flatMap.1 hroute
    rw [Document.api, hservices, List.nil_append] at hs
    obtain ⟨d, hd, hapi⟩ := List.mem_filterMap.1 hs
    cases d with
    | service s' =>
        obtain rfl := Option.some.inj hapi
        exact Service.named (hspelled hd) route hroute
    | _ => cases hapi

end Rszero.Api
